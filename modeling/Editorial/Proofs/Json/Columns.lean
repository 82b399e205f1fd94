import Editorial.Json.Columns
import Mathlib.Tactic.Common

/-!
# Columns are read back

A writer and a reader of one type belong together if the reader gives back
every value the writer wrote: `Restores write read`. Lists and collections take
that over from what they hold. An optional column takes it over only from
values that are never written as null, since a null is read as a missing value.

An object whose names are all different is read column by column, whatever the
order of its fields; for a name that came twice the reader would give up.

## Main results

* `columns?_object` — an object is read for its own names into its own values.
* `Restores.list`, `Restores.keyed`, `Restores.optional` — lists, collections
  and optional columns restore what their parts restore.
-/

namespace Editorial.Json

variable {α β : Type}

/-- What every item yields, the list yields. -/
theorem mapM_eq_some {f : α → Option β} {g : α → β} {as : List α}
    (h : ∀ a ∈ as, f a = some (g a)) : as.mapM f = some (as.map g) := by
  induction as with
  | nil => rfl
  | cons a rest ih =>
      rw [List.mapM_cons, h a List.mem_cons_self, ih fun b hb => h b (List.mem_cons_of_mem a hb)]
      rfl

/-- The reader gives back every value the writer wrote. -/
def Restores (write : α → Json) (read : Json → Option α) : Prop :=
  ∀ a, read (write a) = some a

/-! ## Columns of an object -/

theorem fieldValues_of_not_mem {name : String} {fields : List (String × Json)}
    (h : name ∉ fields.map Prod.fst) : fieldValues name fields = [] := by
  rw [fieldValues, List.filterMap_eq_nil_iff]
  intro field hfield
  rw [if_neg]
  intro hname
  exact h (hname ▸ List.mem_map_of_mem hfield)

theorem fieldValues_of_mem {name : String} {value : Json} {fields : List (String × Json)}
    (hnodup : (fields.map Prod.fst).Nodup) (hmem : (name, value) ∈ fields) :
    fieldValues name fields = [value] := by
  induction fields with
  | nil => simp at hmem
  | cons head rest ih =>
      rw [List.map_cons, List.nodup_cons] at hnodup
      by_cases hhead : head.1 = name
      · have hrest : fieldValues name rest = [] := fieldValues_of_not_mem (hhead ▸ hnodup.1)
        have hvalue : head = (name, value) := by
          rcases List.mem_cons.1 hmem with heq | hlater
          · exact heq.symm
          · exact absurd (List.mem_map_of_mem hlater) (hhead ▸ hnodup.1)
        rw [fieldValues] at hrest ⊢
        rw [List.filterMap_cons_some (b := value) (by rw [hvalue, if_pos rfl]), hrest]
      · have hlater : (name, value) ∈ rest := by
          rcases List.mem_cons.1 hmem with heq | hlater
          · exact absurd (congrArg Prod.fst heq).symm hhead
          · exact hlater
        rw [fieldValues, List.filterMap_cons_none (by rw [if_neg hhead])]
        exact ih hnodup.2 hlater

/-- An object is read for its own names into its own values. -/
theorem columns?_object {names : List String} {fields : List (String × Json)}
    (hnames : fields.map Prod.fst = names) (hnodup : names.Nodup) :
    columns? names (.object fields) = some (fields.map fun field => some field.2) := by
  subst hnames
  have hcolumn : ∀ field ∈ fields, column? field.1 fields = some (some field.2) := by
    intro field hfield
    rw [column?, fieldValues_of_mem hnodup hfield]
  rw [columns?, List.mapM_map]
  exact mapM_eq_some hcolumn

/-- A reader of columns goes on with the values of an object that has them. -/
theorem bind_columns? {names : List String} {fields : List (String × Json)}
    {next : List (Option Json) → Option α} {a : α} (hnames : fields.map Prod.fst = names)
    (hnodup : names.Nodup) (h : next (fields.map fun field => some field.2) = some a) :
    (columns? names (.object fields) >>= next) = some a := by
  rw [columns?_object hnames hnodup]
  exact h

/-! ## Values -/

theorem Restores.string : Restores .string string? := fun _ => rfl

theorem Restores.boolean : Restores .boolean boolean? := fun _ => rfl

theorem natBelow?_ofNat {bound n : Nat} (h : n < bound) :
    natBelow? bound (.ofNat n) = some n := by
  simp [natBelow?, Json.ofNat, h]

theorem required?_natBelow? {bound n : Nat} (h : n < bound) :
    required? (natBelow? bound) (some (.ofNat n)) = some n := natBelow?_ofNat h

/-- A type whose names give its values back is restored from them. -/
theorem Restores.tag {name : α → String} {ofName? : String → Option α}
    (h : ∀ a, ofName? (name a) = some a) : Restores (fun a => .string (name a)) (tag? ofName?) := h

section

variable {write : α → Json} {read : Json → Option α}

theorem Restores.list (h : Restores write read) :
    Restores (fun as => .array (as.map write)) (list? read) := by
  intro as
  have hitem : ∀ a ∈ as, (read ∘ write) a = some a := fun a _ => h a
  rw [list?, List.mapM_map, mapM_eq_some hitem, List.map_id']

theorem Restores.strings : Restores ofStrings (list? string?) := Restores.string.list

/-- A collection is restored with the names of its entries. -/
theorem Restores.keyed (h : Restores write read) :
    Restores (fun m => .object (m.entries.map fun entry => (entry.1, write entry.2)))
      (keyed? read) := by
  intro m
  have hentry : ∀ entry ∈ m.entries,
      ((read (write entry.2)).map fun value => (entry.1, value)) = some entry := by
    intro entry _
    rw [h entry.2]
    rfl
  rw [keyed?, List.mapM_map, Function.comp_def, mapM_eq_some hentry, List.map_id']
  exact congrArg some (Keyed.ofList_entries m)

theorem Restores.required (h : Restores write read) (a : α) :
    required? read (some (write a)) = some a := h a

theorem optional?_of_ne_null {j : Json} (h : j ≠ .null) :
    optional? read (some j) = (read j).map some := by
  cases j with
  | null => exact absurd rfl h
  | _ => rfl

/-- An optional column is restored if no value is written as null. -/
theorem Restores.optional (h : Restores write read) (hnull : ∀ a, write a ≠ .null)
    (a? : Option α) : optional? read (some (ofOption write a?)) = some a? := by
  cases a? with
  | none => rfl
  | some a => rw [ofOption, optional?_of_ne_null (hnull a), h a, Option.map_some]

end

end Editorial.Json
