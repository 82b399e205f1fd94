import Editorial.Proofs.Json.Reread
import Editorial.Proofs.Store.Reading

/-!
# Records that a table cannot hand out

A table takes every record it is given, as long as nothing is in its way, but it has to
read the record's text to hand it out again, and the reader gives up on containers nested
deeper than `Json.depthLimit`. Whether that happens is decided by the contents alone. A
record puts three containers around each of them, wherever it is kept, and the rest of a
record is never that deep. Reading does not change how deep a content is, so a content
that was handed out once can always be put in again.

## Main results

* `Backend.canRead_iff` — a record can be handed out if its contents can.
* `Backend.canRead_handsOut` — a record that was handed out can be put in again.
* `Backend.load_of_isKept` — a record whose contents come back is loaded as it was put in.
-/

namespace Editorial

/-! ## Depths -/

namespace Json

theorem depth_ofOption_le {α : Type} {write : α → Json} {n : Nat}
    (h : ∀ a, (write a).depth ≤ n) (a? : Option α) : (ofOption write a?).depth ≤ n := by
  cases a? with
  | none => exact Nat.zero_le n
  | some a => exact h a

theorem depth_ofOption_string (s? : Option String) : (ofOption .string s?).depth = 0 :=
  Nat.le_zero.1 (depth_ofOption_le (fun _ => Nat.le_refl 0) s?)

theorem depth_ofOption_instant (t? : Option Instant) : (ofOption Instant.toJson t?).depth = 0 :=
  Nat.le_zero.1 (depth_ofOption_le (fun _ => Nat.le_refl 0) t?)

theorem depth_ofStrings_le (texts : List String) : (ofStrings texts).depth ≤ 1 := by
  refine depth_array_le_iff.2 fun item hm => ?_
  obtain ⟨text, -, rfl⟩ := List.mem_map.1 hm
  exact Nat.le_refl 0

end Json

/-! ## Records -/

open Json

theorem Location.depth_toJson_le (l : Location) : l.toJson.depth ≤ 1 :=
  depth_object_le_iff.2 (by simp [depth])

theorem Request.depth_toJson_le (q : Request) : q.toJson.depth ≤ 1 :=
  depth_object_le_iff.2 (by
    simp [depth, RequestKind.toJson, Instant.toJson, depth_ofOption_string,
      depth_ofOption_instant])

/-- Nothing but the content of a variant is nested. -/
theorem Variant.depth_toJson_le_iff {v : Variant} {n : Nat} :
    v.toJson.depth ≤ n + 1 ↔ v.content.json.depth ≤ n := by
  refine depth_object_le_iff.trans ?_
  simp [depth, Stage.toJson, Instant.toJson, depth_ofOption_string, depth_ofOption_instant]

/-- The labels of a snapshot are a container of their own. -/
theorem Snapshot.depth_toJson_le_iff {s : Snapshot} {n : Nat} :
    s.toJson.depth ≤ n + 2 ↔ s.content.json.depth ≤ n + 1 := by
  have hlabels : (ofStrings s.labels.toList).depth ≤ n + 1 :=
    Nat.le_trans (depth_ofStrings_le _) (Nat.le_add_left 1 n)
  refine depth_object_le_iff.trans ?_
  simp [depth, Instant.toJson, hlabels]

/-- A record puts three containers around its contents. -/
theorem Record.depth_toJson_le_iff {r : Record} {n : Nat} :
    r.toJson.depth ≤ n + 4 ↔ r.AllContents fun p => p.json.depth ≤ n + 1 := by
  have hlocation : (ofOption Location.toJson r.location).depth ≤ n + 3 :=
    depth_ofOption_le (fun l => Nat.le_trans l.depth_toJson_le (Nat.le_add_left 1 (n + 2))) _
  have hrequests : (array (r.requests.map Request.toJson)).depth ≤ n + 3 := by
    refine depth_array_le_iff.2 fun item hm => ?_
    obtain ⟨q, -, rfl⟩ := List.mem_map.1 hm
    exact Nat.le_trans q.depth_toJson_le (Nat.le_add_left 1 (n + 1))
  have hhistory : (array (r.history.map Snapshot.toJson)).depth ≤ n + 3 ↔
      ∀ s ∈ r.history, s.content.json.depth ≤ n + 1 := by
    rw [depth_array_le_iff, List.forall_mem_map]
    exact forall₂_congr fun s _ => Snapshot.depth_toJson_le_iff
  have hvariants : r.variants.toJson.depth ≤ n + 3 ↔
      ∀ stage v, r.variants.get stage = some v → v.content.json.depth ≤ n + 1 := by
    rw [Variants.toJson, depth_object_le_iff, List.forall_mem_map, Prod.forall]
    refine forall₂_congr fun stage v => ?_
    rw [Variants.mem_toList_iff]
    exact imp_congr_right fun _ => Variant.depth_toJson_le_iff
  have hid : (Json.string r.id).depth ≤ n + 3 := Nat.zero_le _
  rw [Record.toJson, depth_object_le_iff]
  simp only [List.forall_mem_cons, hid, hlocation, hvariants, hrequests, hhistory, true_and]
  exact ⟨fun h => ⟨h.1, h.2.1⟩, fun h => ⟨h.variants, h.history, List.forall_mem_nil _⟩⟩

/-! ## Contents that a table can read -/

/-- How deep containers may be nested in a content of a record that is read. -/
def Payload.depthLimit : Nat := Json.depthLimit - 3

/-- Whether a content can be read as part of a record. -/
def Payload.isReadable (p : Payload) : Bool := p.json.depth ≤ depthLimit

/-- Whether a content comes back from a table as it was put in. -/
def Payload.isKept (p : Payload) : Bool := p.isReadable && p.json.noDoubles

/-- A record can be read if its contents are not nested too deep. -/
theorem Record.isReadable_iff {r : Record} :
    r.isReadable = true ↔ r.AllContents fun p => p.isReadable = true := by
  unfold Record.isReadable Payload.isReadable
  simp only [decide_eq_true_eq]
  exact depth_toJson_le_iff

namespace Backend

variable {b : Backend}

/-- Whether the backend can hand out a content that was put in. -/
def canReadContent : Backend → Payload → Bool
  | whole, _ => true
  | stepwise, p => p.isReadable

/-- A record can be handed out if its contents can. -/
theorem canRead_iff {r : Record} :
    b.canRead r = true ↔ r.AllContents fun p => b.canReadContent p = true := by
  cases b with
  | whole => exact ⟨fun _ => ⟨fun _ _ _ => rfl, fun _ _ => rfl⟩, fun _ => rfl⟩
  | stepwise => exact Record.isReadable_iff

/-- A content that was handed out can be handed out again. -/
theorem canReadContent_readsContent (p : Payload) :
    b.canReadContent (b.readsContent p) = b.canReadContent p := by
  cases b with
  | whole => rfl
  | stepwise =>
      show decide (p.reread.json.depth ≤ _) = decide (p.json.depth ≤ _)
      rw [Payload.json_reread, depth_reread]

/-- So can a record. -/
theorem canRead_handsOut {stored : Stored} (h : b.canRead stored.record = true) :
    b.canRead (b.handsOut stored).record = true := by
  obtain ⟨hvariants, hhistory⟩ := canRead_iff.1 h
  refine canRead_iff.2 ⟨fun stage v hv => ?_, fun s hs => ?_⟩
  · rw [b.get_handsOut] at hv
    obtain ⟨v', hv', rfl⟩ := Option.map_eq_some_iff.1 hv
    rw [b.content_readsBack, canReadContent_readsContent]
    exact hvariants stage v' hv'
  · rw [b.history_handsOut] at hs
    obtain ⟨s', hs', rfl⟩ := List.mem_map.1 hs
    exact (canReadContent_readsContent s'.content).trans (hhistory s' hs')

end Backend

/-! ## Contents that a table keeps -/

/-- All contents of the record come back from a table as they were put in. -/
abbrev Record.IsKept (r : Record) : Prop := r.AllContents fun p => p.isKept = true

theorem Record.IsKept.isPlain {r : Record} (h : r.IsKept) : r.IsPlain :=
  h.mono fun _ hp => (Bool.and_eq_true_iff.1 hp).2

theorem Record.IsKept.isReadable {r : Record} (h : r.IsKept) : r.isReadable = true :=
  Record.isReadable_iff.2 (h.mono fun _ hp => (Bool.and_eq_true_iff.1 hp).1)

theorem Record.IsKept.canRead {r : Record} (h : r.IsKept) (b : Backend) : b.canRead r = true := by
  cases b with
  | whole => rfl
  | stepwise => exact h.isReadable

/-- A record that a table keeps is loaded as it was put in. -/
theorem Backend.load_of_isKept (b : Backend) {s : Store} {id : String}
    (h : ∀ stored, s.get? id = some stored → stored.record.IsKept) :
    b.load s id = .ok (s.get? id) := by
  cases hget : s.get? id with
  | none => exact load_of_get?_none hget
  | some stored =>
      have hkept := h stored hget
      rw [load_of_canRead hget (hkept.canRead b), b.handsOut_of_isPlain hkept.isPlain]

end Editorial
