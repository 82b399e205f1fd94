import Editorial.Json.Reread
import Mathlib.Data.List.Induction

/-!
# Contents read again are in order

Reading a value from its own text changes nothing but its doubles. The names of
an object stay, and so does their order; it makes no difference whether a tree
is put in order before it is read again or after.

## Main results

* `normalize_reread` — the two go in either order.
* `depth_reread` — what was read again is nested as deep as before.
* `Payload.json_reread` — the tree of a content read again is the tree read
  again.
-/

namespace Editorial

namespace Entries

variable {α β : Type}

theorem insert_map (f : α → β) (key : String) (value : α) (entries : List (String × α)) :
    insert key (f value) (entries.map fun entry => (entry.1, f entry.2)) =
      (insert key value entries).map fun entry => (entry.1, f entry.2) := by
  induction entries with
  | nil => rfl
  | cons head rest ih =>
      simp only [List.map_cons, insert]
      split
      · rfl
      · split
        · rfl
        · rw [ih, List.map_cons]

/-- Entries are sorted by their keys only. -/
theorem sort_map (f : α → β) (entries : List (String × α)) :
    sort (entries.map fun entry => (entry.1, f entry.2)) =
      (sort entries).map fun entry => (entry.1, f entry.2) := by
  induction entries using List.reverseRecOn with
  | nil => rfl
  | append_singleton entries last ih =>
      simp only [sort, List.map_append, List.map_cons, List.map_nil, List.foldl_append,
        List.foldl_cons, List.foldl_nil] at ih ⊢
      rw [ih, insert_map]

end Entries

namespace Json

theorem rereadFields_eq_map (fields : List (String × Json)) :
    rereadFields fields = fields.map fun field => (field.1, field.2.reread) := by
  induction fields with
  | nil => rfl
  | cons head rest ih => rw [rereadFields, ih, List.map_cons]

mutual

theorem normalize_reread : (j : Json) → j.reread.normalize = j.normalize.reread
  | .array items => by
      rw [reread, normalize, normalize, reread, normalizeItems_rereadItems items]
  | .object fields => by
      rw [reread, normalize, normalize, reread, normalizeFields_rereadFields fields,
        rereadFields_eq_map, rereadFields_eq_map, Entries.sort_map]
  | .null => rfl
  | .boolean _ => rfl
  | .integer _ => rfl
  | .double _ => rfl
  | .string _ => rfl

theorem normalizeItems_rereadItems : (items : List Json) →
    normalizeItems (rereadItems items) = rereadItems (normalizeItems items)
  | [] => rfl
  | item :: items => by
      rw [rereadItems, normalizeItems, normalizeItems, rereadItems, normalize_reread item,
        normalizeItems_rereadItems items]

theorem normalizeFields_rereadFields : (fields : List (String × Json)) →
    normalizeFields (rereadFields fields) = rereadFields (normalizeFields fields)
  | [] => rfl
  | (name, value) :: fields => by
      rw [rereadFields, normalizeFields, normalizeFields, rereadFields, normalize_reread value,
        normalizeFields_rereadFields fields]

end

/-! ## Depths -/

theorem depthItems_le_iff {items : List Json} {n : Nat} :
    depthItems items ≤ n ↔ ∀ item ∈ items, item.depth ≤ n := by
  induction items with
  | nil => simp [depthItems]
  | cons item items ih => rw [depthItems, Nat.max_le, ih, List.forall_mem_cons]

theorem depthFields_le_iff {fields : List (String × Json)} {n : Nat} :
    depthFields fields ≤ n ↔ ∀ field ∈ fields, field.2.depth ≤ n := by
  induction fields with
  | nil => simp [depthFields]
  | cons field fields ih => rw [depthFields, Nat.max_le, ih, List.forall_mem_cons]

theorem depth_array_le_iff {items : List Json} {n : Nat} :
    (array items).depth ≤ n + 1 ↔ ∀ item ∈ items, item.depth ≤ n := by
  rw [depth, Nat.add_le_add_iff_right, depthItems_le_iff]

theorem depth_object_le_iff {fields : List (String × Json)} {n : Nat} :
    (object fields).depth ≤ n + 1 ↔ ∀ field ∈ fields, field.2.depth ≤ n := by
  rw [depth, Nat.add_le_add_iff_right, depthFields_le_iff]

mutual

@[simp] theorem depth_reread : (j : Json) → j.reread.depth = j.depth
  | .array items => by rw [reread, depth, depth, depthItems_rereadItems items]
  | .object fields => by rw [reread, depth, depth, depthFields_rereadFields fields]
  | .null => rfl
  | .boolean _ => rfl
  | .integer _ => rfl
  | .double _ => rfl
  | .string _ => rfl

theorem depthItems_rereadItems : (items : List Json) →
    depthItems (rereadItems items) = depthItems items
  | [] => rfl
  | item :: items => by
      rw [rereadItems, depthItems, depthItems, depth_reread item, depthItems_rereadItems items]

theorem depthFields_rereadFields : (fields : List (String × Json)) →
    depthFields (rereadFields fields) = depthFields fields
  | [] => rfl
  | (_, value) :: fields => by
      rw [rereadFields, depthFields, depthFields, depth_reread value,
        depthFields_rereadFields fields]

end

end Json

theorem Payload.json_reread (p : Payload) : p.reread.json = p.json.reread := by
  show p.json.reread.normalize = p.json.reread
  rw [p.json.normalize_reread, p.normal]

end Editorial
