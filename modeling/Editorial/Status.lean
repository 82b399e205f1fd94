import Editorial.Record.Basic

/-!
# Status

The status of a document says which of its variants exist and what its pending
request asks for. Rules apply to a status by a pattern, which says of each
variant whether it has to be there, must not be there, or may be either.
-/

namespace Editorial

/-- Which variants exist and which kind of request is pending. -/
structure Status where
  draft : Bool
  unpublished : Bool
  published : Bool
  request : Option RequestKind
deriving DecidableEq

namespace Status

/-- Whether a stored document may have this status. A draft is either backed
by an unpublished variant or the document's only variant; and a request that
was rejected is not pending. -/
def isValid (s : Status) : Bool :=
  (s.draft || s.unpublished || s.published)
    && (!s.draft || s.unpublished || !s.published)
    && s.request ≠ some .rejected

/-- The names of the variants that exist. -/
def stageNames (s : Status) : List String :=
  (if s.draft then [Stage.draft.name] else [])
    ++ (if s.unpublished then [Stage.unpublished.name] else [])
    ++ (if s.published then [Stage.published.name] else [])

/-- The status as messages show it. -/
def text (s : Status) : String :=
  let names := if s.stageNames.isEmpty then ["empty"] else s.stageNames
  let request := match s.request with
    | none => ""
    | some kind => " request=" ++ kind.name
  "[" ++ String.intercalate "," names ++ "]" ++ request

end Status

namespace Record

/-- The status of a record. -/
def status (r : Record) : Status where
  draft := r.variants.has .draft
  unpublished := r.variants.has .unpublished
  published := r.variants.has .published
  request := r.pending?.map Request.kind

end Record

/-! ## Patterns -/

/-- Whether a variant has to exist. -/
inductive Presence where
  | any
  | present
  | absent
deriving DecidableEq

namespace Presence

/-- Whether a variant that exists or not, as told, is allowed. -/
def allows : Presence → Bool → Bool
  | .any, _ => true
  | .present, found => found
  | .absent, found => !found

/-- The mark of the presence in the text of a pattern. -/
def mark : Presence → String
  | .any => "*"
  | .present => "+"
  | .absent => "-"

end Presence

/-- The statuses a rule applies to. -/
structure Pattern where
  draft : Presence := .any
  unpublished : Presence := .any
  published : Presence := .any
deriving DecidableEq

namespace Pattern

/-- The pattern of every status. -/
def any : Pattern := {}

/-- Whether the pattern covers a status; the request does not matter. -/
def covers (p : Pattern) (s : Status) : Bool :=
  p.draft.allows s.draft && p.unpublished.allows s.unpublished
    && p.published.allows s.published

/-- The pattern as messages show it. -/
def text (p : Pattern) : String :=
  "draft" ++ p.draft.mark ++ " unpublished" ++ p.unpublished.mark
    ++ " published" ++ p.published.mark

@[simp] theorem covers_any (s : Status) : any.covers s = true := rfl

end Pattern

end Editorial
