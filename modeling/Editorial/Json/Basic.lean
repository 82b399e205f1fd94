import Editorial.Data.Keyed
import Editorial.Json.Double

/-!
# JSON values

A JSON text is first of all a tree whose objects list their fields as they
stand in the text, repetitions included. What a document holds as its content
is such a tree with every object in order and free of repetitions: a later
field replaces an earlier one of the same name. `Payload` is the type of those
trees, so that equal contents are equal values.

## Main results

* `normalize_normalize` — putting a tree in order twice changes nothing more.
* `Payload.ofJson_json` — the tree of a payload gives the payload back.
-/

namespace Editorial

/-- A JSON tree, with the fields of an object in the order of the text. -/
inductive Json where
  | null
  | boolean (value : Bool)
  | integer (value : Int)
  | double (value : Double)
  | string (value : String)
  | array (items : List Json)
  | object (fields : List (String × Json))

namespace Json

instance : Inhabited Json := ⟨.null⟩

/-! ## Equality -/

mutual

/-- Equality of trees is decidable. -/
def decideEq : (a b : Json) → Decidable (a = b)
  | .null, .null => isTrue rfl
  | .boolean x, .boolean y => decidable_of_iff (x = y) (by simp)
  | .integer x, .integer y => decidable_of_iff (x = y) (by simp)
  | .double x, .double y => decidable_of_iff (x = y) (by simp)
  | .string x, .string y => decidable_of_iff (x = y) (by simp)
  | .array xs, .array ys =>
      match decideEqItems xs ys with
      | isTrue h => isTrue (by rw [h])
      | isFalse h => isFalse (fun e => h (Json.array.inj e))
  | .object xs, .object ys =>
      match decideEqFields xs ys with
      | isTrue h => isTrue (by rw [h])
      | isFalse h => isFalse (fun e => h (Json.object.inj e))
  | .null, .boolean _ | .null, .integer _ | .null, .double _
  | .null, .string _ | .null, .array _ | .null, .object _ => isFalse (by simp)
  | .boolean _, .null | .boolean _, .integer _ | .boolean _, .double _
  | .boolean _, .string _ | .boolean _, .array _ | .boolean _, .object _ => isFalse (by simp)
  | .integer _, .null | .integer _, .boolean _ | .integer _, .double _
  | .integer _, .string _ | .integer _, .array _ | .integer _, .object _ => isFalse (by simp)
  | .double _, .null | .double _, .boolean _ | .double _, .integer _
  | .double _, .string _ | .double _, .array _ | .double _, .object _ => isFalse (by simp)
  | .string _, .null | .string _, .boolean _ | .string _, .integer _
  | .string _, .double _ | .string _, .array _ | .string _, .object _ => isFalse (by simp)
  | .array _, .null | .array _, .boolean _ | .array _, .integer _
  | .array _, .double _ | .array _, .string _ | .array _, .object _ => isFalse (by simp)
  | .object _, .null | .object _, .boolean _ | .object _, .integer _
  | .object _, .double _ | .object _, .string _ | .object _, .array _ => isFalse (by simp)

/-- Equality of lists of trees is decidable. -/
def decideEqItems : (xs ys : List Json) → Decidable (xs = ys)
  | [], [] => isTrue rfl
  | [], _ :: _ | _ :: _, [] => isFalse (fun h => nomatch h)
  | x :: xs, y :: ys =>
      match decideEq x y, decideEqItems xs ys with
      | isTrue h, isTrue hs => isTrue (by rw [h, hs])
      | isFalse h, _ => isFalse (fun e => h (List.cons.inj e).1)
      | _, isFalse h => isFalse (fun e => h (List.cons.inj e).2)

/-- Equality of lists of fields is decidable. -/
def decideEqFields : (xs ys : List (String × Json)) → Decidable (xs = ys)
  | [], [] => isTrue rfl
  | [], _ :: _ | _ :: _, [] => isFalse (fun h => nomatch h)
  | (j, x) :: xs, (k, y) :: ys =>
      match decEq j k, decideEq x y, decideEqFields xs ys with
      | isTrue hk, isTrue h, isTrue hs => isTrue (by rw [hk, h, hs])
      | isFalse h, _, _ => isFalse (fun e => h (Prod.mk.inj (List.cons.inj e).1).1)
      | _, isFalse h, _ => isFalse (fun e => h (Prod.mk.inj (List.cons.inj e).1).2)
      | _, _, isFalse h => isFalse (fun e => h (List.cons.inj e).2)

end

instance : DecidableEq Json := decideEq

/-! ## Objects in order -/

mutual

/-- The tree with every object in order; of equal names the last field stays. -/
def normalize : Json → Json
  | .array items => .array (normalizeItems items)
  | .object fields => .object (Entries.sort (normalizeFields fields))
  | .null => .null
  | .boolean value => .boolean value
  | .integer value => .integer value
  | .double value => .double value
  | .string value => .string value

/-- `normalize` on every item. -/
def normalizeItems : List Json → List Json
  | [] => []
  | item :: items => normalize item :: normalizeItems items

/-- `normalize` on every field. -/
def normalizeFields : List (String × Json) → List (String × Json)
  | [] => []
  | (name, value) :: fields => (name, normalize value) :: normalizeFields fields

end

theorem normalizeFields_of_forall {fields : List (String × Json)}
    (h : ∀ field ∈ fields, field.2.normalize = field.2) :
    normalizeFields fields = fields := by
  induction fields with
  | nil => simp [normalizeFields]
  | cons field rest ih =>
      obtain ⟨name, value⟩ := field
      rw [normalizeFields, h (name, value) (by simp),
        ih fun field hmem => h field (by simp [hmem])]

theorem forall_mem_sort {p : String × Json → Prop} {entries : List (String × Json)}
    (h : ∀ entry ∈ entries, p entry) : ∀ entry ∈ Entries.sort entries, p entry := by
  suffices ∀ (rest sorted : List (String × Json)), (∀ entry ∈ sorted, p entry) →
      (∀ entry ∈ rest, p entry) →
      ∀ entry ∈ rest.foldl (fun acc entry => Entries.insert entry.1 entry.2 acc) sorted,
        p entry from
    this entries [] (by simp) h
  intro rest
  induction rest with
  | nil => exact fun _ hs _ => hs
  | cons head rest ih =>
      intro sorted hs hr
      refine ih _ (fun entry hmem => ?_) fun entry hmem => hr entry (by simp [hmem])
      rcases Entries.mem_insert hmem with rfl | hold
      · exact hr _ (by simp)
      · exact hs entry hold

mutual

theorem normalize_normalize : (j : Json) → j.normalize.normalize = j.normalize
  | .array items => by rw [normalize, normalize, normalizeItems_normalizeItems items]
  | .object fields => by
      rw [normalize, normalize,
        normalizeFields_of_forall (forall_mem_sort (normalize_of_mem_fields fields)),
        Entries.sort_of_ascending (Entries.ascending_sort _)]
  | .null => by simp [normalize]
  | .boolean _ => by simp [normalize]
  | .integer _ => by simp [normalize]
  | .double _ => by simp [normalize]
  | .string _ => by simp [normalize]

theorem normalizeItems_normalizeItems :
    (items : List Json) → normalizeItems (normalizeItems items) = normalizeItems items
  | [] => by simp [normalizeItems]
  | item :: items => by
      rw [normalizeItems, normalizeItems, normalize_normalize item,
        normalizeItems_normalizeItems items]

theorem normalize_of_mem_fields : (fields : List (String × Json)) →
    ∀ field ∈ normalizeFields fields, field.2.normalize = field.2
  | [] => by simp [normalizeFields]
  | (name, value) :: fields => by
      intro field hmem
      rw [normalizeFields] at hmem
      rcases List.mem_cons.1 hmem with rfl | hrest
      · exact normalize_normalize value
      · exact normalize_of_mem_fields fields field hrest

end

end Json

/-! ## Payloads -/

/-- The content of a document: a JSON tree with every object in order. -/
structure Payload where
  json : Json
  normal : json.normalize = json

namespace Payload

@[ext] theorem ext {a b : Payload} (h : a.json = b.json) : a = b := by
  cases a; cases b; cases h; rfl

instance : DecidableEq Payload := fun a b =>
  if h : a.json = b.json then isTrue (Payload.ext h) else isFalse fun e => h (e ▸ rfl)

/-- The payload a tree stands for. -/
def ofJson (j : Json) : Payload := ⟨j.normalize, Json.normalize_normalize j⟩

/-- No content: `null`. -/
def null : Payload := ofJson .null

instance : Inhabited Payload := ⟨null⟩

theorem ofJson_json (p : Payload) : ofJson p.json = p := Payload.ext p.normal

end Payload

end Editorial
