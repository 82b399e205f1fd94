import Editorial.Json.Columns
import Editorial.Time.Text

/-!
# Instants as JSON

An instant is a string that holds its text.
-/

namespace Editorial.Instant

/-- The instant as a string. -/
def toJson (t : Instant) : Json := .string t.write

/-- The instant a string stands for. -/
def ofJson? (j : Json) : Option Instant := j.string?.bind read?

end Editorial.Instant
