import Editorial.Proofs.Json.Values
import Editorial.Proofs.Store.Formats
import Editorial.Proofs.Store.Nesting

/-!
# What a table reads from the texts it keeps

A table keeps the tree of a record as a text and hands out what its reader makes of that. The
reader knows the columns of a record, and a record has no others, so no field is passed over,
and the columns hold no numbers but those in the contents. A content has its numbers from the
text of a request or from a client, so they are numbers that can be read; a double that is
read from its text may be a neighbour of what it was. What is left to go wrong is the depth of
the contents.

So to hand out `Record.reread`, or to fail where a content is nested too deep, is to hand out
what is read from the text.

## Main results

* `Record.read?_write` — what is read from the text of a record.
* `Backend.load_stepwise` — what a table hands out is what its reader makes of the text.
-/

namespace Editorial

open Json

/-! ## Records read again -/

section

variable {α : Type} {write : α → Json}

theorem Json.rereadItems_map (again : α → α) (h : ∀ a, (write a).reread = write (again a))
    (as : List α) : rereadItems (as.map write) = (as.map again).map write := by
  induction as with
  | nil => rfl
  | cons a rest ih => rw [List.map_cons, rereadItems, h a, ih]; rfl

theorem Json.reread_ofOption (h : ∀ a, (write a).reread = write a) (a? : Option α) :
    (ofOption write a?).reread = ofOption write a? := by
  cases a? with
  | none => rfl
  | some a => exact h a

end

@[simp] theorem Json.reread_string (s : String) : (Json.string s).reread = .string s := rfl

@[simp] theorem Instant.reread_toJson (t : Instant) : t.toJson.reread = t.toJson := rfl

@[simp] theorem Stage.reread_toJson (stage : Stage) : stage.toJson.reread = stage.toJson := rfl

theorem Variant.reread_toJson (v : Variant) :
    v.toJson.reread = ({ v with content := v.content.reread } : Variant).toJson := by
  have hholder := reread_ofOption reread_string v.holder
  have hpublished := reread_ofOption Instant.reread_toJson v.publishedAt
  simp [Variant.toJson, reread, rereadFields, hholder, hpublished, Payload.json_reread]

theorem Record.reread_toJson_variants (r : Record) :
    r.variants.toJson.reread = r.reread.variants.toJson := by
  obtain ⟨id, location, ⟨draft, unpublished, published⟩, requests, history⟩ := r
  cases draft <;> cases unpublished <;> cases published <;>
    simp [Record.reread, Variants.toJson, Variants.toList, Stage.all, Variants.get, Json.reread,
      rereadFields, Variant.reread_toJson]

theorem Request.reread_toJson (q : Request) : q.toJson.reread = q.toJson := by
  have hscheduled := reread_ofOption Instant.reread_toJson q.scheduledAt
  have hreason := reread_ofOption reread_string q.reason
  simp [Request.toJson, reread, rereadFields, hscheduled, hreason, RequestKind.toJson]

theorem Snapshot.reread_toJson (s : Snapshot) :
    s.toJson.reread = ({ s with content := s.content.reread } : Snapshot).toJson := by
  have hlabels : rereadItems (s.labels.toList.map .string) = s.labels.toList.map .string := by
    simpa using rereadItems_map (fun label => label) reread_string s.labels.toList
  simp [Snapshot.toJson, ofStrings, reread, rereadFields, hlabels, Payload.json_reread]

theorem Record.reread_toJson (r : Record) : r.toJson.reread = r.reread.toJson := by
  have hlocation : (ofOption Location.toJson r.location).reread =
      ofOption Location.toJson r.location := reread_ofOption (fun _ => rfl) r.location
  have hrequests := rereadItems_map (fun q => q) Request.reread_toJson r.requests
  have hhistory := rereadItems_map _ Snapshot.reread_toJson r.history
  simp only [Record.toJson, Json.reread, rereadFields, hlocation, hrequests, hhistory,
    Record.reread_toJson_variants, List.map_id']
  rfl

/-! ## Columns -/

namespace Json

theorem isCovered_object_iff {fields : List (String × Json)} {shape : Shape} :
    (object fields).isCovered shape = true ↔ ∀ field ∈ fields, ∃ inner,
      shape.field? field.1 = some inner ∧ field.2.isCovered inner = true := by
  show isCoveredFields fields shape = true ↔ _
  induction fields with
  | nil => exact ⟨fun _ => List.forall_mem_nil _, fun _ => rfl⟩
  | cons field fields ih =>
      rw [isCoveredFields, Bool.and_eq_true, ih, List.forall_mem_cons]
      cases shape.field? field.1 <;> simp

/-- A shape whose columns hold values passes over no field that is one of its columns. -/
theorem isCovered_ofColumns {names : List String} {fields : List (String × Json)}
    (h : ∀ field ∈ fields, field.1 ∈ names) :
    (object fields).isCovered (.ofColumns names) = true := by
  refine isCovered_object_iff.2 fun field hm => ⟨.value, ?_, isCovered_value field.2⟩
  have hname := h field hm
  show Entries.lookup field.1 (names.map fun name => (name, Shape.value)) = some .value
  clear h
  induction names with
  | nil => cases hname
  | cons first names ih =>
      rw [List.map_cons, Entries.lookup]
      by_cases hfirst : first = field.1
      · rw [if_pos hfirst]
      · rw [if_neg hfirst]
        exact ih ((List.mem_cons.1 hname).resolve_left (Ne.symm hfirst))

theorem isCovered_list {α : Type} {write : α → Json} {item : Shape}
    (h : ∀ a, (write a).isCovered item = true) (as : List α) :
    (array (as.map write)).isCovered (.list item) = true := by
  have hfrom : ∀ i, isCoveredItems (as.map write) (.list item) i = true := by
    induction as with
    | nil => exact fun _ => rfl
    | cons a as ih => exact fun i => Bool.and_eq_true_iff.2 ⟨h a, ih (i + 1)⟩
  exact hfrom 0

theorem isCovered_keyed {α : Type} {write : α → String × Json} {item : Shape}
    (h : ∀ a, (write a).2.isCovered item = true) (as : List α) :
    (object (as.map write)).isCovered (.keyed item) = true := by
  rw [isCovered_object_iff, List.forall_mem_map]
  exact fun a _ => ⟨item, rfl, h a⟩

theorem isCovered_ofOption {α : Type} {write : α → Json} {shape : Shape}
    (h : ∀ a, (write a).isCovered shape = true) (a? : Option α) :
    (ofOption write a?).isCovered shape = true := by
  cases a? with
  | none => rfl
  | some a => exact h a

end Json

/-- A record has no field that its reader passes over. -/
theorem Record.isCovered_toJson (r : Record) : r.toJson.isCovered Record.shape = true := by
  have hlocation : (ofOption Location.toJson r.location).isCovered Location.shape = true :=
    isCovered_ofOption (fun l => isCovered_ofColumns (by simp [Location.columns])) r.location
  have hvariants : r.variants.toJson.isCovered (.keyed Variant.shape) = true :=
    isCovered_keyed (fun entry => isCovered_ofColumns (by simp [Variant.columns])) _
  have hrequests : (array (r.requests.map Request.toJson)).isCovered (.list Request.shape) = true :=
    isCovered_list (fun q => isCovered_ofColumns (by simp [Request.columns])) _
  have hhistory : (array (r.history.map Snapshot.toJson)).isCovered (.list Snapshot.shape) = true :=
    isCovered_list (fun s => isCovered_ofColumns (by simp [Snapshot.columns])) _
  rw [Record.toJson, isCovered_object_iff]
  simp only [List.forall_mem_cons]
  exact ⟨⟨_, rfl, rfl⟩, ⟨_, rfl, hlocation⟩, ⟨_, rfl, hvariants⟩, ⟨_, rfl, hrequests⟩,
    ⟨_, rfl, hhistory⟩, List.forall_mem_nil _⟩

/-! ## Numbers -/

namespace Json

theorem numbersRead_array_iff {items : List Json} :
    (array items).numbersRead = true ↔ ∀ item ∈ items, item.numbersRead = true := by
  show numbersReadItems items = true ↔ _
  induction items with
  | nil => exact ⟨fun _ => List.forall_mem_nil _, fun _ => rfl⟩
  | cons item items ih => rw [numbersReadItems, Bool.and_eq_true, ih, List.forall_mem_cons]

theorem numbersRead_object_iff {fields : List (String × Json)} :
    (object fields).numbersRead = true ↔ ∀ field ∈ fields, field.2.numbersRead = true := by
  show numbersReadFields fields = true ↔ _
  induction fields with
  | nil => exact ⟨fun _ => List.forall_mem_nil _, fun _ => rfl⟩
  | cons field fields ih => rw [numbersReadFields, Bool.and_eq_true, ih, List.forall_mem_cons]

theorem numbersRead_ofOption {α : Type} {write : α → Json}
    (h : ∀ a, (write a).numbersRead = true) (a? : Option α) :
    (ofOption write a?).numbersRead = true := by
  cases a? with
  | none => rfl
  | some a => exact h a

end Json

theorem Variant.numbersRead_toJson_iff {v : Variant} :
    v.toJson.numbersRead = true ↔ v.content.json.numbersRead = true := by
  have hholder : (ofOption .string v.holder).numbersRead = true :=
    numbersRead_ofOption (fun _ => rfl) v.holder
  have hpublished : (ofOption Instant.toJson v.publishedAt).numbersRead = true :=
    numbersRead_ofOption (fun _ => rfl) v.publishedAt
  refine numbersRead_object_iff.trans ?_
  simp [numbersRead, Stage.toJson, Instant.toJson, hholder, hpublished]

theorem Snapshot.numbersRead_toJson_iff {s : Snapshot} :
    s.toJson.numbersRead = true ↔ s.content.json.numbersRead = true := by
  have hlabels : (ofStrings s.labels.toList).numbersRead = true := by
    rw [ofStrings, numbersRead_array_iff, List.forall_mem_map]
    exact fun _ _ => rfl
  refine numbersRead_object_iff.trans ?_
  simp [numbersRead, Instant.toJson, hlabels]

theorem Request.numbersRead_toJson (q : Request) : q.toJson.numbersRead = true := by
  have hscheduled : (ofOption Instant.toJson q.scheduledAt).numbersRead = true :=
    numbersRead_ofOption (fun _ => rfl) q.scheduledAt
  have hreason : (ofOption .string q.reason).numbersRead = true :=
    numbersRead_ofOption (fun _ => rfl) q.reason
  refine numbersRead_object_iff.2 ?_
  simp [numbersRead, RequestKind.toJson, Instant.toJson, hscheduled, hreason]

/-- The only numbers of a record are in its contents. -/
theorem Record.numbersRead_toJson_iff {r : Record} :
    r.toJson.numbersRead = true ↔ r.AllContents fun p => p.json.numbersRead = true := by
  have hid : (Json.string r.id).numbersRead = true := rfl
  have hlocation : (ofOption Location.toJson r.location).numbersRead = true :=
    numbersRead_ofOption (fun _ => rfl) r.location
  have hrequests : (array (r.requests.map Request.toJson)).numbersRead = true :=
    numbersRead_array_iff.2 (List.forall_mem_map.2 fun q _ => q.numbersRead_toJson)
  have hhistory : (array (r.history.map Snapshot.toJson)).numbersRead = true ↔
      ∀ s ∈ r.history, s.content.json.numbersRead = true := by
    rw [numbersRead_array_iff, List.forall_mem_map]
    exact forall₂_congr fun s _ => Snapshot.numbersRead_toJson_iff
  have hvariants : r.variants.toJson.numbersRead = true ↔
      ∀ stage v, r.variants.get stage = some v → v.content.json.numbersRead = true := by
    rw [Variants.toJson, numbersRead_object_iff, List.forall_mem_map, Prod.forall]
    refine forall₂_congr fun stage v => ?_
    rw [Variants.mem_toList_iff]
    exact imp_congr_right fun _ => Variant.numbersRead_toJson_iff
  rw [Record.toJson, numbersRead_object_iff]
  simp only [List.forall_mem_cons, hid, hlocation, hvariants, hrequests, hhistory, true_and]
  exact ⟨fun h => ⟨h.1, h.2.1⟩, fun h => ⟨h.variants, h.history, List.forall_mem_nil _⟩⟩

/-! ## Texts of records -/

/-- The text of a record, as a table keeps it. -/
def Record.write (r : Record) : String := r.toJson.write

/-- The record that is read from a text, if one is. -/
def Record.read? (s : String) : Option Record := (readAs? shape s).bind ofJson?

/-- What is read from the text of a record whose numbers can be read: the record read again,
unless one of its contents is nested too deep. -/
theorem Record.read?_write {r : Record} (h : r.AllContents fun p => p.json.numbersRead = true) :
    read? r.write = if r.isReadable then some r.reread else none := by
  rw [read?, write, readAs?_write r.isCovered_toJson (numbersRead_toJson_iff.2 h)]
  by_cases hdepth : r.toJson.depth ≤ depthLimit
  · rw [if_pos hdepth, if_pos (by rwa [isReadable, decide_eq_true_eq]), r.reread_toJson]
    exact Record.restores r.reread
  · rw [if_neg hdepth, if_neg (by rwa [isReadable, decide_eq_true_eq])]
    rfl

/-- A table hands out what its reader makes of the texts it keeps, and it fails where the
reader does. -/
theorem Backend.load_stepwise {s : Store} {id : String} (h : ∀ stored, s.get? id = some stored →
      stored.record.AllContents fun p => p.json.numbersRead = true) :
    stepwise.load s id = match s.get? id with
      | none => .ok none
      | some stored => match Record.read? stored.record.write with
          | some r => .ok (some { stored with record := r })
          | none => .error .nestedTooDeep := by
  cases hget : s.get? id with
  | none => exact load_of_get?_none hget
  | some stored =>
      have hread := Record.read?_write (h stored hget)
      by_cases hreads : stored.record.isReadable = true
      · simp only [hread, if_pos hreads]
        exact load_of_canRead hget hreads
      · simp only [hread, if_neg hreads]
        exact load_of_not_canRead hget hreads

end Editorial
