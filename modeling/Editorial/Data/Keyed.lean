/-!
# Collections keyed by text

Hints, stored handles, registered channels and labels are all looked up by a
text, and all of them are listed in the order of their keys. `Keyed α` is a
list of entries whose keys strictly increase, so two collections with the same
look-ups are the same collection (`ext_get?`).

## Main results

* `get?_insert_self`, `get?_insert_ne` — writing a key changes that key only.
* `get?_erase_self`, `get?_erase_ne` — erasing a key removes that key only.
* `ext_get?` — look-ups determine the collection.
* `ofList_entries` — entries collected again give the collection back.
-/

namespace Editorial

/-- The entries of a collection keep their keys in strictly increasing order. -/
def Ascending {α : Type} (entries : List (String × α)) : Prop :=
  entries.Pairwise fun a b => a.1 < b.1

instance {α : Type} (entries : List (String × α)) : Decidable (Ascending entries) :=
  inferInstanceAs (Decidable (entries.Pairwise fun a b => a.1 < b.1))

/-! ## Entries -/

namespace Entries

variable {α β : Type}

/-- The value filed under `key`. -/
def lookup (key : String) : List (String × α) → Option α
  | [] => none
  | (k, v) :: rest => if k = key then some v else lookup key rest

/-- Files `value` under `key`, in place of what was there. -/
def insert (key : String) (value : α) : List (String × α) → List (String × α)
  | [] => [(key, value)]
  | (k, v) :: rest =>
      if key < k then (key, value) :: (k, v) :: rest
      else if key = k then (key, value) :: rest
      else (k, v) :: insert key value rest

/-- Drops what is filed under `key`. -/
def erase (key : String) (entries : List (String × α)) : List (String × α) :=
  entries.filter fun entry => entry.1 ≠ key

/-- Files entries one after another, so that of equal keys the last stays. -/
def sort (entries : List (String × α)) : List (String × α) :=
  entries.foldl (fun sorted entry => insert entry.1 entry.2 sorted) []

theorem mem_insert {key : String} {value : α} {entry : String × α}
    {entries : List (String × α)} (h : entry ∈ insert key value entries) :
    entry = (key, value) ∨ entry ∈ entries := by
  induction entries with
  | nil => simpa [insert] using h
  | cons head rest ih =>
      obtain ⟨k, v⟩ := head
      rw [insert] at h
      split at h
      · simpa using h
      · split at h <;> grind

theorem ascending_insert {key : String} {value : α} {entries : List (String × α)}
    (h : Ascending entries) : Ascending (insert key value entries) := by
  induction entries with
  | nil => simp [insert, Ascending]
  | cons head rest ih =>
      obtain ⟨k, v⟩ := head
      simp only [Ascending, List.pairwise_cons] at h ih ⊢
      have hrest := ih h.2
      rw [insert]
      split
      · rename_i hlt
        simp only [List.pairwise_cons, List.mem_cons]
        refine ⟨?_, h⟩
        rintro entry (rfl | hmem)
        · exact hlt
        · exact String.lt_trans hlt (h.1 entry hmem)
      · split
        · rename_i heq
          subst heq
          exact List.pairwise_cons.2 ⟨h.1, h.2⟩
        · rename_i hlt hne
          refine List.pairwise_cons.2 ⟨?_, hrest⟩
          intro entry hmem
          rcases mem_insert hmem with rfl | hold
          · grind
          · exact h.1 entry hold

theorem ascending_erase (key : String) {entries : List (String × α)}
    (h : Ascending entries) : Ascending (erase key entries) :=
  h.filter _

theorem lookup_insert_self (key : String) (value : α) (entries : List (String × α)) :
    lookup key (insert key value entries) = some value := by
  induction entries with
  | nil => simp [insert, lookup]
  | cons head rest ih =>
      rw [insert]
      split
      · simp [lookup]
      · split
        · simp [lookup]
        · rename_i hne
          simp [lookup, Ne.symm hne, ih]

theorem lookup_insert_ne {key other : String} (value : α) (h : other ≠ key)
    (entries : List (String × α)) :
    lookup other (insert key value entries) = lookup other entries := by
  induction entries with
  | nil => simp [insert, lookup, Ne.symm h]
  | cons head rest ih =>
      obtain ⟨k, v⟩ := head
      rw [insert]
      split
      · simp [lookup, Ne.symm h]
      · split
        · rename_i heq
          subst heq
          simp [lookup, Ne.symm h]
        · simp [lookup, ih]

theorem lookup_erase_self (key : String) (entries : List (String × α)) :
    lookup key (erase key entries) = none := by
  induction entries with
  | nil => rfl
  | cons head rest ih =>
      by_cases h : head.1 = key
      · simpa [erase, List.filter_cons, h] using ih
      · simpa [erase, List.filter_cons, h, lookup] using ih

theorem lookup_erase_ne {key other : String} (h : other ≠ key)
    (entries : List (String × α)) :
    lookup other (erase key entries) = lookup other entries := by
  induction entries with
  | nil => rfl
  | cons head rest ih =>
      by_cases hk : head.1 = key
      · have : head.1 ≠ other := fun e => h (e ▸ hk)
        simpa [erase, List.filter_cons, hk, lookup, this, Ne.symm h] using ih
      · simp only [erase, ne_eq, decide_not, List.filter_cons, hk, decide_false,
          Bool.not_false, if_true, lookup] at ih ⊢
        split
        · rfl
        · exact ih

theorem lookup_of_mem {key : String} {value : α} {entries : List (String × α)}
    (h : Ascending entries) (hmem : (key, value) ∈ entries) :
    lookup key entries = some value := by
  induction entries with
  | nil => simp at hmem
  | cons head rest ih =>
      obtain ⟨k, v⟩ := head
      have h' := List.pairwise_cons.1 h
      rw [lookup]
      rcases List.mem_cons.1 hmem with heq | hmem'
      · cases heq; simp
      · have hlt : k < key := h'.1 _ hmem'
        have : k ≠ key := fun e => String.lt_irrefl key (e ▸ hlt)
        rw [if_neg this]
        exact ih h'.2 hmem'

theorem mem_of_lookup {key : String} {value : α} {entries : List (String × α)}
    (h : lookup key entries = some value) : (key, value) ∈ entries := by
  induction entries with
  | nil => simp [lookup] at h
  | cons head rest ih =>
      obtain ⟨k, v⟩ := head
      rw [lookup] at h
      split at h
      · rename_i heq; cases h; subst heq; simp
      · exact List.mem_cons_of_mem _ (ih h)

theorem eq_of_lookup {left right : List (String × α)} (hl : Ascending left)
    (hr : Ascending right) (h : ∀ key, lookup key left = lookup key right) :
    left = right := by
  induction left generalizing right with
  | nil =>
      rcases right with _ | ⟨⟨k, v⟩, rest⟩
      · rfl
      · simpa [lookup] using h k
  | cons head rest ih =>
      obtain ⟨k, v⟩ := head
      rcases right with _ | ⟨⟨k', v'⟩, rest'⟩
      · simpa [lookup] using h k
      · have hl' := List.pairwise_cons.1 hl
        have hr' := List.pairwise_cons.1 hr
        have hk : k = k' := by
          have h₁ : (k, v) ∈ (k', v') :: rest' :=
            mem_of_lookup ((h k).symm.trans (by simp [lookup]))
          have h₂ : (k', v') ∈ (k, v) :: rest :=
            mem_of_lookup ((h k').trans (by simp [lookup]))
          rcases List.mem_cons.1 h₁ with e | m₁
          · exact congrArg Prod.fst e
          · rcases List.mem_cons.1 h₂ with e | m₂
            · exact (congrArg Prod.fst e).symm
            · exact absurd (hl'.1 _ m₂) (String.lt_asymm (hr'.1 _ m₁))
        subst hk
        have hv : v = v' := by simpa [lookup] using h k
        subst hv
        congr 1
        refine ih hl'.2 hr'.2 fun key => ?_
        by_cases hkey : k = key
        · subst hkey
          have absent : ∀ {entries : List (String × α)},
              (∀ entry ∈ entries, k < entry.1) → lookup k entries = none := by
            intro entries hall
            rcases hlook : lookup k entries with _ | w
            · rfl
            · exact absurd (hall _ (mem_of_lookup hlook)) (String.lt_irrefl k)
          rw [absent hl'.1, absent hr'.1]
        · simpa [lookup, hkey] using h key

theorem insert_append {key : String} {value : α} {entries : List (String × α)}
    (h : ∀ entry ∈ entries, entry.1 < key) :
    insert key value entries = entries ++ [(key, value)] := by
  induction entries with
  | nil => rfl
  | cons head rest ih =>
      have hlt := h head (by simp)
      rw [insert, if_neg (String.lt_asymm hlt),
        if_neg (fun e : key = head.1 => String.lt_irrefl key (e ▸ hlt)),
        ih fun entry hm => h entry (by simp [hm])]
      rfl

/-- Entries in order are left as they are. -/
theorem sort_of_ascending {entries : List (String × α)} (h : Ascending entries) :
    sort entries = entries := by
  suffices ∀ sorted rest : List (String × α), Ascending (sorted ++ rest) →
      rest.foldl (fun acc entry => insert entry.1 entry.2 acc) sorted = sorted ++ rest by
    simpa [sort] using this [] entries h
  intro sorted rest
  induction rest generalizing sorted with
  | nil => simp
  | cons head rest ih =>
      intro hasc
      have hlt : ∀ entry ∈ sorted, entry.1 < head.1 := fun entry hm =>
        (List.pairwise_append.1 hasc).2.2 entry hm head (by simp)
      rw [List.foldl_cons, insert_append hlt, ih _ (by simpa using hasc)]
      simp

theorem ascending_sort (entries : List (String × α)) : Ascending (sort entries) := by
  suffices ∀ sorted : List (String × α), Ascending sorted →
      Ascending (entries.foldl (fun acc entry => insert entry.1 entry.2 acc) sorted) from
    this [] List.Pairwise.nil
  induction entries with
  | nil => exact fun _ h => h
  | cons head rest ih => exact fun sorted h => ih _ (ascending_insert h)

end Entries

/-! ## Collections -/

/-- Values filed under texts, listed in the order of their keys. -/
structure Keyed (α : Type) where
  /-- The keys with their values, in the order of the keys. -/
  entries : List (String × α)
  /-- No key comes twice and all are in order. -/
  ascending : Ascending entries

namespace Keyed

variable {α : Type}

@[ext] theorem ext {left right : Keyed α} (h : left.entries = right.entries) :
    left = right := by
  cases left; cases right; cases h; rfl

instance [DecidableEq α] : DecidableEq (Keyed α) := fun left right =>
  if h : left.entries = right.entries then isTrue (Keyed.ext h)
  else isFalse fun e => h (e ▸ rfl)

/-- No entries. -/
def empty : Keyed α := ⟨[], List.Pairwise.nil⟩

instance : Inhabited (Keyed α) := ⟨empty⟩
instance : EmptyCollection (Keyed α) := ⟨empty⟩

/-- The value filed under `key`. -/
def get? (m : Keyed α) (key : String) : Option α := Entries.lookup key m.entries

/-- Whether something is filed under `key`. -/
def contains (m : Keyed α) (key : String) : Bool := (m.get? key).isSome

/-- Files `value` under `key`, in place of what was there. -/
def insert (m : Keyed α) (key : String) (value : α) : Keyed α :=
  ⟨Entries.insert key value m.entries, Entries.ascending_insert m.ascending⟩

/-- Drops what is filed under `key`. -/
def erase (m : Keyed α) (key : String) : Keyed α :=
  ⟨Entries.erase key m.entries, Entries.ascending_erase key m.ascending⟩

/-- Collects entries; of equal keys the last stays. -/
def ofList (entries : List (String × α)) : Keyed α :=
  ⟨Entries.sort entries, Entries.ascending_sort entries⟩

/-- How many entries there are. -/
def size (m : Keyed α) : Nat := m.entries.length

/-- The keys, in order. -/
def keys (m : Keyed α) : List String := m.entries.map Prod.fst

@[simp] theorem get?_empty (key : String) : (empty : Keyed α).get? key = none := rfl

@[simp] theorem get?_insert_self (m : Keyed α) (key : String) (value : α) :
    (m.insert key value).get? key = some value :=
  Entries.lookup_insert_self key value m.entries

theorem get?_insert_ne (m : Keyed α) {key other : String} (value : α) (h : other ≠ key) :
    (m.insert key value).get? other = m.get? other :=
  Entries.lookup_insert_ne value h m.entries

theorem get?_insert (m : Keyed α) (key other : String) (value : α) :
    (m.insert key value).get? other = if other = key then some value else m.get? other := by
  split
  · rename_i h; subst h; simp
  · rename_i h; exact get?_insert_ne m value h

@[simp] theorem get?_erase_self (m : Keyed α) (key : String) :
    (m.erase key).get? key = none :=
  Entries.lookup_erase_self key m.entries

theorem get?_erase_ne (m : Keyed α) {key other : String} (h : other ≠ key) :
    (m.erase key).get? other = m.get? other :=
  Entries.lookup_erase_ne h m.entries

theorem get?_erase (m : Keyed α) (key other : String) :
    (m.erase key).get? other = if other = key then none else m.get? other := by
  split
  · rename_i h; subst h; simp
  · rename_i h; exact get?_erase_ne m h

theorem get?_eq_some_iff (m : Keyed α) (key : String) (value : α) :
    m.get? key = some value ↔ (key, value) ∈ m.entries :=
  ⟨Entries.mem_of_lookup, Entries.lookup_of_mem m.ascending⟩

/-- Look-ups determine the collection. -/
theorem ext_get? {left right : Keyed α} (h : ∀ key, left.get? key = right.get? key) :
    left = right :=
  Keyed.ext (Entries.eq_of_lookup left.ascending right.ascending h)

/-- Entries collected again give the collection back. -/
theorem ofList_entries (m : Keyed α) : ofList m.entries = m :=
  Keyed.ext (Entries.sort_of_ascending m.ascending)

end Keyed

/-! ## Sets of names -/

/-- A set of texts, listed in order. -/
abbrev Names := Keyed Unit

namespace Names

/-- The names of a list, each once and in order. -/
def ofList (names : List String) : Names := Keyed.ofList (names.map fun name => (name, ()))

/-- The names in order. -/
def toList (names : Names) : List String := names.keys

/-- Adds a name. -/
def add (names : Names) (name : String) : Names := Keyed.insert names name ()

theorem ofList_toList (names : Names) : ofList names.toList = names := by
  have : names.toList.map (fun name => (name, ())) = names.entries := by
    simp [toList, Keyed.keys, Function.comp_def]
  rw [ofList, this, Keyed.ofList_entries]

end Names

end Editorial
