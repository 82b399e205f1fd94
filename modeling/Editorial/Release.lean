/-!
# Release

The number of this release of the library.
-/

namespace Editorial

/-- The number of this release. -/
def release : String := "0.1.0"

end Editorial
