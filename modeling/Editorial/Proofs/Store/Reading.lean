import Editorial.Proofs.Store.Commit
import Mathlib.Logic.Function.Iterate

/-!
# Contents that come back

A store in memory hands a content out as it was put in. A table keeps texts, and a
double read from its own text may be a neighbour of what it was, so a content with
doubles in it need not come back as it was put in, and what comes back and is put in
again may change once more. Only contents without doubles are safe in a table.

## Main results

* `Payload.reread_of_noDoubles` — a content without doubles comes back.
* `Backend.history_handsOut` — what comes back of a history.
* `Backend.Recalls.step`, `Backend.RecallsRecord.step` — what may come back of a content and
  of a record that are put in and handed out any number of times.
-/

namespace Editorial

namespace Json

mutual

/-- Whether there is no double in a value. -/
def noDoubles : Json → Bool
  | .double _ => false
  | .array items => noDoublesItems items
  | .object fields => noDoublesFields fields
  | .null | .boolean _ | .integer _ | .string _ => true

/-- `noDoubles` for every item. -/
def noDoublesItems : List Json → Bool
  | [] => true
  | item :: items => noDoubles item && noDoublesItems items

/-- `noDoubles` for every field. -/
def noDoublesFields : List (String × Json) → Bool
  | [] => true
  | (_, value) :: fields => noDoubles value && noDoublesFields fields

end

mutual

theorem reread_of_noDoubles : (j : Json) → j.noDoubles = true → j.reread = j
  | .double _ => nofun
  | .array items => fun h => by rw [reread, rereadItems_of_noDoubles items h]
  | .object fields => fun h => by rw [reread, rereadFields_of_noDoubles fields h]
  | .null => fun _ => rfl
  | .boolean _ => fun _ => rfl
  | .integer _ => fun _ => rfl
  | .string _ => fun _ => rfl

theorem rereadItems_of_noDoubles :
    (items : List Json) → noDoublesItems items = true → rereadItems items = items
  | [] => fun _ => rfl
  | item :: items => fun h => by
      obtain ⟨hitem, hitems⟩ := Bool.and_eq_true_iff.1 h
      rw [rereadItems, reread_of_noDoubles item hitem, rereadItems_of_noDoubles items hitems]

theorem rereadFields_of_noDoubles : (fields : List (String × Json)) →
    noDoublesFields fields = true → rereadFields fields = fields
  | [] => fun _ => rfl
  | (name, value) :: fields => fun h => by
      obtain ⟨hvalue, hfields⟩ := Bool.and_eq_true_iff.1 h
      rw [rereadFields, reread_of_noDoubles value hvalue, rereadFields_of_noDoubles fields hfields]

end

end Json

/-- A content without doubles comes back. -/
theorem Payload.reread_of_noDoubles {p : Payload} (h : p.json.noDoubles = true) :
    p.reread = p := by
  unfold Payload.reread
  rw [p.json.reread_of_noDoubles h, ofJson_json]

/-- A double may be another one each time it is read: 5.8085185732e-24 and
5.8085185732000004e-24 are read from each other's text. -/
example :
    let a : Double := ⟨4259304194031319137⟩
    let b : Double := ⟨4259304194031319138⟩
    a.reread = b ∧ b.reread = a := by
  decide +kernel

/-! ## Backends -/

namespace Backend

/-- A content as the backend hands it out. -/
def readsContent : Backend → Payload → Payload
  | whole, p => p
  | stepwise, p => p.reread

/-- A snapshot as the backend hands it out. -/
def readsSnapshot (b : Backend) (s : Snapshot) : Snapshot :=
  { s with content := b.readsContent s.content }

@[simp] theorem holder_readsBack (b : Backend) (v : Variant) :
    (b.readsBack v).holder = v.holder := by
  cases b <;> rfl

@[simp] theorem id_readsBack (b : Backend) (v : Variant) : (b.readsBack v).id = v.id := by
  cases b <;> rfl

@[simp] theorem content_readsBack (b : Backend) (v : Variant) :
    (b.readsBack v).content = b.readsContent v.content := by
  cases b <;> rfl

variable {b : Backend} {c c' : Payload}

theorem history_handsOut (b : Backend) (stored : Stored) :
    (b.handsOut stored).record.history = stored.record.history.map b.readsSnapshot := by
  cases b with
  | whole => exact (List.map_id _).symm
  | stepwise => rfl

/-- A content that was `c` once and was put in and handed out any number of times
since. It is still `c`, unless there are doubles in it and it was kept in a table. -/
inductive Recalls (b : Backend) (c : Payload) : Payload → Prop
  | same : Recalls b c c
  | reread (n : Nat) (hb : b = .stepwise) (hc : c.json.noDoubles = false) :
      Recalls b c (Payload.reread^[n] c)

theorem recalls_iterate (b : Backend) (c : Payload) (n : Nat) :
    b.Recalls c (b.readsContent^[n] c) := by
  cases b with
  | whole =>
      have hsame : whole.readsContent^[n] c = c := Function.iterate_fixed rfl n
      rw [hsame]
      exact .same
  | stepwise =>
      cases hc : c.json.noDoubles with
      | false => exact .reread n rfl hc
      | true =>
          have hsame : stepwise.readsContent^[n] c = c :=
            Function.iterate_fixed (Payload.reread_of_noDoubles hc) n
          rw [hsame]
          exact .same

/-- What is put in and handed out once more recalls the same content. -/
theorem Recalls.step (h : b.Recalls c c') : b.Recalls c (b.readsContent c') := by
  cases h with
  | same => exact b.recalls_iterate c 1
  | reread n hb hc =>
      subst hb
      show stepwise.Recalls c (Payload.reread (Payload.reread^[n] c))
      rw [← Function.iterate_succ_apply' Payload.reread]
      exact .reread (n + 1) rfl hc

theorem iterate_readsSnapshot (b : Backend) (s : Snapshot) (n : Nat) :
    b.readsSnapshot^[n] s = { s with content := b.readsContent^[n] s.content } := by
  induction n with
  | zero => rfl
  | succ n ih =>
      rw [Function.iterate_succ_apply', ih, Function.iterate_succ_apply']
      rfl

theorem iterate_readsBack (b : Backend) (v : Variant) (n : Nat) :
    b.readsBack^[n] v = { v with content := b.readsContent^[n] v.content } := by
  have hread : ∀ v, b.readsBack v = { v with content := b.readsContent v.content } := by
    cases b <;> exact fun _ => rfl
  induction n with
  | zero => rfl
  | succ n ih => rw [Function.iterate_succ_apply', ih, Function.iterate_succ_apply', hread]

/-- A variant that was `v` once and was put in and handed out any number of times since. It
is still `v`, unless there are doubles in its content and it was kept in a table. -/
structure RecallsVariant (b : Backend) (v v' : Variant) : Prop where
  rest : v' = { v with content := v'.content }
  content : b.Recalls v.content v'.content

theorem recallsVariant_iterate (b : Backend) (v : Variant) (n : Nat) :
    b.RecallsVariant v (b.readsBack^[n] v) := by
  rw [iterate_readsBack]
  exact ⟨rfl, b.recalls_iterate v.content n⟩

end Backend

/-! ## Records without doubles -/

/-- All contents that are kept in the record have a property. -/
structure Record.AllContents (P : Payload → Prop) (r : Record) : Prop where
  variants : ∀ stage v, r.variants.get stage = some v → P v.content
  history : ∀ s ∈ r.history, P s.content

theorem Record.AllContents.mono {P Q : Payload → Prop} {r : Record} (h : r.AllContents P)
    (hPQ : ∀ p, P p → Q p) : r.AllContents Q :=
  ⟨fun stage v hv => hPQ _ (h.variants stage v hv), fun s hs => hPQ _ (h.history s hs)⟩

/-- No content that is kept in the record has a double in it. -/
abbrev Record.IsPlain (r : Record) : Prop :=
  r.AllContents fun p => p.json.noDoubles = true

theorem Backend.readsBack_of_noDoubles (b : Backend) {v : Variant}
    (h : v.content.json.noDoubles = true) : b.readsBack v = v := by
  cases b with
  | whole => rfl
  | stepwise =>
      show { v with content := v.content.reread } = v
      rw [Payload.reread_of_noDoubles h]

/-- A record without doubles comes back as it was put in. -/
theorem Record.IsPlain.reread_eq {r : Record} (h : r.IsPlain) : r.reread = r := by
  have hvariants : r.reread.variants = r.variants := by
    refine Variants.ext fun stage => ?_
    rw [get_reread]
    cases hv : r.variants.get stage with
    | none => rfl
    | some v =>
        exact congrArg some (Backend.readsBack_of_noDoubles .stepwise (h.variants stage v hv))
  have hhistory : r.reread.history = r.history := by
    refine (List.map_congr_left fun s hs => ?_).trans (List.map_id r.history)
    rw [Payload.reread_of_noDoubles (h.history s hs)]
    rfl
  show { r with variants := r.reread.variants, history := r.reread.history } = r
  rw [hvariants, hhistory]

theorem Backend.handsOut_of_isPlain (b : Backend) {stored : Stored} (h : stored.record.IsPlain) :
    b.handsOut stored = stored := by
  cases b with
  | whole => rfl
  | stepwise =>
      show { stored with record := stored.record.reread } = stored
      rw [h.reread_eq]

/-- A record as the backend hands it out. -/
def Backend.readsRecord : Backend → Record → Record
  | whole, r => r
  | stepwise, r => r.reread

namespace Backend

variable {b : Backend} {r r' : Record} {stage : Stage}

theorem record_handsOut_eq (b : Backend) (stored : Stored) :
    (b.handsOut stored).record = b.readsRecord stored.record := by
  cases b <;> rfl

/-- Of a record with a variant put in its place, the variant and the rest are handed out. -/
theorem readsRecord_putVariant (b : Backend) (r : Record) (stage : Stage) (v? : Option Variant) :
    b.readsRecord (r.putVariant stage v?) =
      (b.readsRecord r).putVariant stage (v?.map b.readsBack) := by
  cases b with
  | whole => rw [show v?.map whole.readsBack = v? from Option.map_id']; rfl
  | stepwise => cases stage <;> rfl

/-- A record that was `r` once and was put in and handed out any number of times since. It
is still `r`, unless there are doubles in it and it was kept in a table. -/
inductive RecallsRecord (b : Backend) (r : Record) : Record → Prop
  | same : RecallsRecord b r r
  | reread (n : Nat) (hb : b = .stepwise) (hr : ¬ r.IsPlain) :
      RecallsRecord b r (Record.reread^[n] r)

theorem RecallsRecord.step (h : b.RecallsRecord r r') : b.RecallsRecord r (b.readsRecord r') := by
  cases b with
  | whole => exact h
  | stepwise =>
      by_cases hr : r.IsPlain
      · cases h with
        | same =>
            show stepwise.RecallsRecord r r.reread
            rw [hr.reread_eq]
            exact .same
        | reread n hb hr' => exact absurd hr hr'
      · cases h with
        | same => exact .reread 1 rfl hr
        | reread n =>
            show stepwise.RecallsRecord r (Record.reread (Record.reread^[n] r))
            rw [← Function.iterate_succ_apply' Record.reread]
            exact .reread (n + 1) rfl hr

/-- Its variants recall those of `r`. -/
theorem RecallsRecord.get (h : b.RecallsRecord r r') (stage : Stage) :
    (r.variants.get stage = none ∧ r'.variants.get stage = none) ∨
      ∃ v v', r.variants.get stage = some v ∧ r'.variants.get stage = some v' ∧
        b.RecallsVariant v v' := by
  have hiterate : ∃ n, r'.variants.get stage = (r.variants.get stage).map b.readsBack^[n] := by
    cases h with
    | same => exact ⟨0, Option.map_id'.symm⟩
    | reread n hb =>
        subst hb
        refine ⟨n, ?_⟩
        induction n with
        | zero => exact Option.map_id'.symm
        | succ n ih =>
            rw [Function.iterate_succ_apply', Record.get_reread, ih, Option.map_map,
              Function.iterate_succ']
            rfl
  obtain ⟨n, hn⟩ := hiterate
  cases hv : r.variants.get stage with
  | none =>
      rw [hv] at hn
      exact Or.inl ⟨rfl, hn⟩
  | some v =>
      rw [hv] at hn
      exact Or.inr ⟨v, _, rfl, hn, b.recallsVariant_iterate v n⟩

end Backend

end Editorial
