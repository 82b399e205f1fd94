import Editorial.Operation

/-!
# Events

Each committed operation leaves one event: on which handle, which operation,
by whom and when, the variant it handed back, the handles it made, and whether
it removed the handle. The log numbers events from 1 in the order in which
they are appended.
-/

namespace Editorial

/-- What is logged of a committed operation, before it has a number. -/
structure Notice where
  handle : String
  operation : Operation
  user : String
  timestamp : Instant
  /-- The variant the operation handed back. -/
  result : Option Reference
  /-- The handles the operation made. -/
  created : List String
  /-- Whether the operation removed the handle. -/
  deleted : Bool
deriving DecidableEq

/-- An event of the log: a notice and its number. -/
structure Event extends Notice where
  sequence : Nat
deriving DecidableEq

end Editorial
