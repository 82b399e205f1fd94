import Editorial.Event.Format
import Editorial.Hints.Format
import Editorial.Proofs.Json.Columns
import Editorial.Proofs.Time.Text
import Editorial.Status.Format

/-!
# Stored formats lose nothing

A table holds records as JSON and nothing else of them, so a column that is not
read back as it was written is lost at every load. Records, their parts, views,
events, statuses and hints are read back from what they are written as, without
any condition on their texts, times, contents or collections. Only the number of
an event has to fit the 64 bits it is read into.

No optional column is ever written as null where it holds a value, and the
three kinds of hints are written in three different forms; that is what the
readers rely on to tell them apart.

The trees of records are kept as texts; what is read from those is the subject of
`Store.Texts`.

## Main results

* `formats_restore` — all formats give back what was written.
-/

namespace Editorial

open Json

/-! ## Parts of a record -/

theorem Instant.restores : Restores Instant.toJson Instant.ofJson? := by
  intro t
  rw [Instant.toJson, Instant.ofJson?, string?, Option.bind_some, Instant.read?_write]

theorem Instant.toJson_ne_null (t : Instant) : t.toJson ≠ .null := by simp [Instant.toJson]

theorem Stage.restores : Restores Stage.toJson Stage.ofJson? := .tag Stage.ofName?_name

theorem RequestKind.restores : Restores RequestKind.toJson RequestKind.ofJson? :=
  .tag RequestKind.ofName?_name

theorem Operation.restores : Restores Operation.toJson Operation.ofJson? :=
  .tag Operation.ofName?_name

theorem Payload.restores : Restores Payload.json payload? := fun p =>
  congrArg some (Payload.ofJson_json p)

theorem Json.optional?_string (s? : Option String) :
    optional? string? (some (ofOption .string s?)) = some s? :=
  Restores.string.optional (by simp) s?

theorem Json.optional?_instant (t? : Option Instant) :
    optional? Instant.ofJson? (some (ofOption Instant.toJson t?)) = some t? :=
  Instant.restores.optional Instant.toJson_ne_null t?

theorem Location.restores : Restores Location.toJson Location.ofJson? := by
  intro l
  refine bind_columns? rfl (by decide) ?_
  rfl

theorem Variant.restores : Restores Variant.toJson Variant.ofJson? := by
  intro v
  refine bind_columns? rfl (by decide) ?_
  simp [Restores.string.required, Stage.restores.required, Payload.restores.required,
    Instant.restores.required, optional?_string, optional?_instant]

theorem Variants.restores : Restores Variants.toJson Variants.ofJson? := by
  intro vs
  have hentry : ∀ entry ∈ vs.toList,
      Variants.entry? (entry.1.name, entry.2.toJson) = some entry := by
    intro entry _
    rw [Variants.entry?, Stage.ofName?_name, Variant.restores entry.2]
    rfl
  rw [Variants.toJson, Variants.ofJson?, List.mapM_map, Function.comp_def, mapM_eq_some hentry,
    List.map_id']
  exact congrArg some (Variants.ofList_toList vs)

theorem Request.restores : Restores Request.toJson Request.ofJson? := by
  intro q
  refine bind_columns? rfl (by decide) ?_
  simp [Restores.string.required, RequestKind.restores.required, Instant.restores.required,
    optional?_string, optional?_instant]

theorem Snapshot.restores : Restores Snapshot.toJson Snapshot.ofJson? := by
  intro s
  refine bind_columns? rfl (by decide) ?_
  simp [Restores.string.required, Restores.strings.required, Payload.restores.required,
    Instant.restores.required, Names.ofList_toList]

/-! ## Records and views -/

theorem Record.restores : Restores Record.toJson Record.ofJson? := by
  intro r
  have hlocation := Location.restores.optional (by simp [Location.toJson]) r.location
  have hrequests := Request.restores.list.required r.requests
  have hhistory := Snapshot.restores.list.required r.history
  refine bind_columns? rfl (by decide) ?_
  simp [hlocation, hrequests, hhistory, Restores.string.required, Variants.restores.required]

theorem Reference.restores : Restores Reference.toJson Reference.ofJson? := by
  intro ref
  refine bind_columns? rfl (by decide) ?_
  simp [Restores.string.required, Stage.restores.required]

theorem Document.restores : Restores Document.toJson Document.ofJson? := by
  intro d
  refine bind_columns? rfl (by decide) ?_
  simp [Restores.string.required, Stage.restores.required, Payload.restores.required,
    optional?_string, optional?_instant]

/-! ## Events, statuses and hints -/

/-- The number of an event has to fit 64 bits, the rest may be anything. -/
theorem Event.ofJson?_toJson {e : Event} (h : e.sequence < UInt64.size) :
    Event.ofJson? e.toJson = some e := by
  have hresult := Reference.restores.optional (by simp [Reference.toJson]) e.result
  refine bind_columns? rfl (by decide) ?_
  simp [required?_natBelow? h, hresult, Restores.string.required, Restores.strings.required,
    Restores.boolean.required, Operation.restores.required, Instant.restores.required]

theorem Status.restores : Restores Status.toJson Status.ofJson? := by
  intro s
  have hrequest := RequestKind.restores.optional (by simp [RequestKind.toJson]) s.request
  refine bind_columns? rfl (by decide) ?_
  simp [hrequest, Restores.boolean.required]

theorem Hint.restores : Restores Hint.toJson Hint.ofJson? := by
  intro hint
  cases hint with
  | flag value => rfl
  | text value => rfl
  | requests value =>
      have hactions := Restores.boolean.keyed.keyed value
      exact congrArg (Option.map Hint.requests) hactions

theorem Hints.restores : Restores Hints.toJson Hints.ofJson? := Hint.restores.keyed

/-! ## All formats -/

/-- Every reader gives back what the writer of its type wrote. -/
structure FormatsRestore : Prop where
  record : Restores Record.toJson Record.ofJson?
  variant : Restores Variant.toJson Variant.ofJson?
  request : Restores Request.toJson Request.ofJson?
  snapshot : Restores Snapshot.toJson Snapshot.ofJson?
  location : Restores Location.toJson Location.ofJson?
  reference : Restores Reference.toJson Reference.ofJson?
  document : Restores Document.toJson Document.ofJson?
  event : ∀ e : Event, e.sequence < UInt64.size → Event.ofJson? e.toJson = some e
  status : Restores Status.toJson Status.ofJson?
  hints : Restores Hints.toJson Hints.ofJson?

/-- The stored formats lose nothing. -/
theorem formats_restore : FormatsRestore where
  record := Record.restores
  variant := Variant.restores
  request := Request.restores
  snapshot := Snapshot.restores
  location := Location.restores
  reference := Reference.restores
  document := Document.restores
  event := fun _ h => Event.ofJson?_toJson h
  status := Status.restores
  hints := Hints.restores

/-- The event with the largest number, a nanosecond into the year 10000. -/
theorem formats_restore_lastEvent :
    let e : Event := {
      sequence := UInt64.size - 1
      handle := "h1"
      operation := .publish
      user := "ann"
      timestamp := ⟨253402300800, 1, by decide, by decide, by decide⟩
      result := some ⟨"h1", .published⟩
      created := []
      deleted := false }
    e.sequence < UInt64.size ∧ Event.ofJson? e.toJson = some e :=
  ⟨by decide, formats_restore.event _ (by decide)⟩

end Editorial
