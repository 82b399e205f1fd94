import Editorial.Json.Basic
import Editorial.Time.Instant

/-!
# Variants

A document exists in up to three variants: a draft somebody works on, the
unpublished text the desk agrees on, and the published text readers see. The
three have fixed places in a record, so a record holds at most one of each.

A variant also carries the stage it belongs to. A stored record may claim one
stage and file the variant under another; such records can be read, and the
checks on handles find them.

## Main results

* `get_put_self`, `get_put_ne` — putting a variant in a place changes that
  place only.
-/

namespace Editorial

/-- The three variants a document may have, in the order of its life. -/
inductive Stage where
  /-- The copy an editor works on. -/
  | draft
  /-- The agreed text that readers do not see. -/
  | unpublished
  /-- The text readers see. -/
  | published
deriving DecidableEq, Repr

namespace Stage

/-- All stages, in the order of a document's life. -/
def all : List Stage := [.draft, .unpublished, .published]

/-- The name of a stage. -/
def name : Stage → String
  | .draft => "draft"
  | .unpublished => "unpublished"
  | .published => "published"

/-- The stage with this name. -/
def ofName? (s : String) : Option Stage := all.find? fun stage => stage.name = s

theorem mem_all (stage : Stage) : stage ∈ all := by cases stage <;> decide

theorem ofName?_name (stage : Stage) : ofName? stage.name = some stage := by
  cases stage <;> decide

/-- The place of a stage in the order of a document's life. -/
def order (stage : Stage) : Nat := all.idxOf stage

/-- The stages a document passes before this one. -/
def earlier (stage : Stage) : List Stage := all.take stage.order

end Stage

/-- One text of a document, with who made it and who changed it last. -/
structure Variant where
  id : String
  /-- The stage the variant says it belongs to. -/
  stage : Stage
  content : Payload
  createdAt : Instant
  createdBy : String
  modifiedAt : Instant
  modifiedBy : String
  /-- The user who holds the variant for editing. -/
  holder : Option String
  /-- When the variant was published. -/
  publishedAt : Option Instant
deriving DecidableEq

namespace Variant

/-- A new variant, made by `user` and held by nobody. -/
def make (id : String) (stage : Stage) (content : Payload) (user : String) (now : Instant) :
    Variant where
  id := id
  stage := stage
  content := content
  createdAt := now
  createdBy := user
  modifiedAt := now
  modifiedBy := user
  holder := none
  publishedAt := none

/-- The variant with a new content, written by `user`. -/
def withContent (v : Variant) (content : Payload) (user : String) (now : Instant) : Variant :=
  { v with content := content, modifiedAt := now, modifiedBy := user }

end Variant

/-- The variants of a document, by their places. -/
structure Variants where
  draft : Option Variant := none
  unpublished : Option Variant := none
  published : Option Variant := none
deriving DecidableEq

namespace Variants

/-- No variants. -/
def empty : Variants := {}

/-- The variant in the place of `stage`. -/
def get (vs : Variants) : Stage → Option Variant
  | .draft => vs.draft
  | .unpublished => vs.unpublished
  | .published => vs.published

/-- The variants with `v?` in the place of `stage`. -/
def put (vs : Variants) (stage : Stage) (v? : Option Variant) : Variants :=
  match stage with
  | .draft => { vs with draft := v? }
  | .unpublished => { vs with unpublished := v? }
  | .published => { vs with published := v? }

/-- Whether there is a variant in the place of `stage`. -/
def has (vs : Variants) (stage : Stage) : Bool := (vs.get stage).isSome

/-- Whether there is any variant. -/
def any (vs : Variants) : Bool := Stage.all.any vs.has

/-- The variants with their places, in the order of a document's life. -/
def toList (vs : Variants) : List (Stage × Variant) :=
  Stage.all.filterMap fun stage => (vs.get stage).map fun v => (stage, v)

/-- The variants of a list; of those for one place the last stays. -/
def ofList (entries : List (Stage × Variant)) : Variants :=
  entries.foldl (fun vs entry => vs.put entry.1 (some entry.2)) empty

@[ext] theorem ext {a b : Variants} (h : ∀ stage, a.get stage = b.get stage) : a = b := by
  cases a; cases b
  have h₁ := h .draft
  have h₂ := h .unpublished
  have h₃ := h .published
  simp only [get] at h₁ h₂ h₃
  rw [h₁, h₂, h₃]

@[simp] theorem get_put_self (vs : Variants) (stage : Stage) (v? : Option Variant) :
    (vs.put stage v?).get stage = v? := by
  cases stage <;> rfl

theorem get_put_ne (vs : Variants) {stage other : Stage} (v? : Option Variant)
    (h : other ≠ stage) : (vs.put stage v?).get other = vs.get other := by
  cases stage <;> cases other <;> simp_all [get, put]

theorem get_put (vs : Variants) (stage other : Stage) (v? : Option Variant) :
    (vs.put stage v?).get other = if other = stage then v? else vs.get other := by
  split
  · rename_i h; subst h; simp
  · rename_i h; exact get_put_ne vs v? h

theorem mem_toList_iff (vs : Variants) (stage : Stage) (v : Variant) :
    (stage, v) ∈ vs.toList ↔ vs.get stage = some v := by
  cases vs with
  | mk d u p => cases d <;> cases u <;> cases p <;> cases stage <;>
      simp [toList, Stage.all, get, eq_comm]

theorem ofList_toList (vs : Variants) : ofList vs.toList = vs := by
  cases vs with
  | mk d u p => cases d <;> cases u <;> cases p <;> rfl

end Variants

end Editorial
