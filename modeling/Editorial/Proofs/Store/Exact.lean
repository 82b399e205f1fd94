import Mathlib.Data.List.Basic
import Editorial.Proofs.Store.Places

/-!
# What a commit as a whole decides

A set of changes is judged before any of them is made: the revisions are
compared, then the places that are put to are looked for among the other changes
and among the records that the set leaves alone. The store that the changes would
leave is never built for it. The judgement is nevertheless the one that this
store would give. A set of changes to different records is made exactly if every
change expects the revision that is there and the changes leave no two records in
one place, so records may swap places, take a place that is given up by the same
set, or come to stand in none.

## Main results

* `conflict?_eq_none_iff` — a set is made exactly if it is admitted.
* `commit_replace` — a record that stays in its place can be replaced.
* `made_iff` — what the changes leave, record by record.
* `commitWhole_exact` — what a commit as a whole decides and leaves.
-/

namespace Editorial

namespace Store

variable {s : Store} {changes : List Change}

/-! ## The judgement on a set -/

/-- Only changes that are crowded by what goes before them keep a set from being
made. -/
theorem crowded?_eq_none {written : List String} {earlier : List Change}
    (h : ∀ before change after, changes = before ++ change :: after →
      s.isCrowded written (earlier ++ before) change = false) :
    s.crowded? written earlier changes = none := by
  induction changes generalizing earlier with
  | nil => rfl
  | cons change rest ih =>
      have hfirst := h [] change rest rfl
      rw [List.append_nil] at hfirst
      rw [crowded?, hfirst, if_neg Bool.false_ne_true]
      refine ih fun before other after hsplit => ?_
      have hlater := h (change :: before) other after (by rw [hsplit, List.cons_append])
      rwa [List.append_assoc]

/-- A change of an admitted set is crowded by nothing. -/
theorem Admitted.isCrowded (ha : s.Admitted changes) {earlier : List Change} {change : Change}
    (hearlier : ∀ other ∈ earlier, other ∈ changes) (hm : change ∈ changes) :
    s.isCrowded (changes.map Change.id) earlier change = false := by
  unfold Store.isCrowded
  cases hlocation : change.location? with
  | none => rfl
  | some location =>
      refine Bool.or_eq_false_iff.2 ⟨List.any_eq_false.2 fun other hother => ?_, ?_⟩
      · have hapart := ha.apart other (hearlier other hother) change hm location
        simpa using fun hl => hapart hl hlocation
      · exact isTaken_eq_false_iff.2 (ha.vacant change hm location hlocation)

/-- A set is made exactly if it is admitted. -/
theorem conflict?_eq_none_iff : s.conflict? changes = none ↔ s.Admitted changes := by
  refine ⟨admitted_of_conflict?, fun ha => ?_⟩
  have hstale : s.stale? changes = none :=
    List.find?_eq_none.2 fun change hm => by simpa using ha.expected change hm
  unfold conflict?
  rw [hstale]
  refine crowded?_eq_none fun before change after hsplit => ?_
  refine ha.isCrowded (fun other hm => ?_) ?_
  · rw [hsplit]
    exact List.mem_append_left _ hm
  · rw [hsplit]
    exact List.mem_append_right _ (List.mem_cons_self ..)

theorem commitWhole_of_admitted (ha : s.Admitted changes) :
    s.commitWhole changes = (.committed, s.applyAll changes) := by
  unfold commitWhole
  rw [conflict?_eq_none_iff.2 ha]

/-- A record that stays in its place can be replaced. -/
theorem commit_replace (hs : s.Spread) (b : Backend) {r : Record} {stored : Stored}
    (hget : s.get? r.id = some stored) (hlocation : r.location = stored.record.location) :
    (b.commit s [.put r (some stored.revision)]).1 = .committed := by
  have hadmitted : s.Admitted [.put r (some stored.revision)] :=
    admitted_one_iff.2 ⟨revision?_of_get? hget, fun place hplace =>
      hs.hasRoom hget (hlocation.symm.trans hplace)⟩
  cases b with
  | whole => exact congrArg Prod.fst (commitWhole_of_admitted hadmitted)
  | stepwise =>
      show (s.commitStepwise _).1 = _
      unfold commitStepwise
      rw [Store.applyStepwise, if_pos (admits_iff.2 hadmitted)]
      rfl

/-- The change that is reported is one of the set. -/
theorem mem_of_crowded? {written : List String} {earlier : List Change} {change : Change}
    (h : s.crowded? written earlier changes = some change) : change ∈ changes := by
  induction changes generalizing earlier with
  | nil => cases h
  | cons other rest ih =>
      rw [crowded?] at h
      by_cases hc : s.isCrowded written earlier other = true
      · rw [if_pos hc] at h
        cases h
        exact List.mem_cons_self ..
      · rw [if_neg hc] at h
        exact List.mem_cons_of_mem _ (ih h)

theorem mem_of_conflict? {change : Change} (h : s.conflict? changes = some change) :
    change ∈ changes := by
  unfold conflict? at h
  cases hstale : s.stale? changes with
  | some stale =>
      rw [hstale] at h
      cases h
      exact List.mem_of_find?_eq_some hstale
  | none =>
      rw [hstale] at h
      exact mem_of_crowded? h

/-! ## What the changes leave -/

/-- `after` is `s` with the changes made: records are created at revision 1 and
replaced at the revision after the expected one, and what no change names stays as
it is. -/
structure Made (s : Store) (changes : List Change) (after : Store) : Prop where
  created : ∀ record, .put record none ∈ changes → after.get? record.id = some ⟨record, 1⟩
  replaced : ∀ record expected, .put record (some expected) ∈ changes →
    after.get? record.id = some ⟨record, expected + 1⟩
  deleted : ∀ id expected, .delete id expected ∈ changes → after.get? id = none
  untouched : ∀ id, id ∉ changes.map Change.id → after.get? id = s.get? id

theorem Made.get?_id {after : Store} (h : s.Made changes after) {change : Change}
    (hm : change ∈ changes) : after.get? change.id = change.result? := by
  cases change with
  | put record expected =>
      cases expected with
      | none => exact h.created record hm
      | some expected => exact h.replaced record expected hm
  | delete id expected => exact h.deleted id expected hm

theorem get?_applyAll_of_notMem {id : String} (h : id ∉ changes.map Change.id) :
    (s.applyAll changes).get? id = s.get? id := by
  rcases s.get?_applyAll changes id with ⟨hget, -⟩ | ⟨change, hm, rfl, -⟩
  · exact hget
  · exact absurd (List.mem_map_of_mem hm) h

/-- Of changes to different records, each is the last one made to its own. -/
theorem get?_applyAll_of_mem (hdistinct : (changes.map Change.id).Nodup) {change : Change}
    (hm : change ∈ changes) : (s.applyAll changes).get? change.id = change.result? := by
  induction changes generalizing s with
  | nil => cases hm
  | cons first rest ih =>
      rw [List.map_cons, List.nodup_cons] at hdistinct
      show ((s.apply first).applyAll rest).get? change.id = _
      rcases List.mem_cons.1 hm with rfl | hm
      · rw [get?_applyAll_of_notMem hdistinct.1, get?_apply, if_pos rfl]
      · exact ih hdistinct.2 hm

/-- Changes to different records leave one store, whatever their order. -/
theorem made_iff (hdistinct : (changes.map Change.id).Nodup) {after : Store} :
    s.Made changes after ↔ after = s.applyAll changes := by
  constructor
  · intro h
    refine Keyed.ext_get? fun id => ?_
    by_cases hid : id ∈ changes.map Change.id
    · obtain ⟨change, hm, rfl⟩ := List.mem_map.1 hid
      rw [h.get?_id hm, get?_applyAll_of_mem hdistinct hm]
    · rw [h.untouched id hid, get?_applyAll_of_notMem hid]
  · rintro rfl
    exact {
      created := fun record hm => get?_applyAll_of_mem hdistinct hm
      replaced := fun record expected hm => get?_applyAll_of_mem hdistinct hm
      deleted := fun id expected hm => get?_applyAll_of_mem hdistinct hm
      untouched := fun id hid => get?_applyAll_of_notMem hid }

theorem Change.record_result? {change : Change} {location : Location}
    (h : change.location? = some location) :
    ∃ stored, change.result? = some stored ∧ stored.record.location = some location := by
  cases change with
  | put record expected => exact ⟨_, rfl, h⟩
  | delete id expected => cases h

/-- The judgement on a set of changes is the one that the store they leave gives:
what is put stays, and so does a record that is left alone. -/
theorem admitted_iff (hs : s.Spread) (hdistinct : (changes.map Change.id).Nodup) :
    s.Admitted changes ↔
      (∀ change ∈ changes, s.revision? change.id = change.expected?) ∧
        (s.applyAll changes).Spread := by
  refine ⟨fun ha => ⟨ha.expected, ha.spread hs⟩, fun ⟨hexpected, hspread⟩ => ⟨hexpected, ?_, ?_⟩⟩
  · intro change hm location hlocation id stored hget hstored
    by_contra hid
    obtain ⟨put, hresult, hput⟩ := Change.record_result? hlocation
    rw [← get?_applyAll_of_mem (s := s) hdistinct hm] at hresult
    rw [← get?_applyAll_of_notMem hid] at hget
    have hsame : id = change.id :=
      hspread location id stored change.id put hget hresult hstored hput
    exact hid (hsame ▸ List.mem_map_of_mem hm)
  · intro change hm change' hm' location hlocation hlocation'
    obtain ⟨put, hresult, hput⟩ := Change.record_result? hlocation
    obtain ⟨put', hresult', hput'⟩ := Change.record_result? hlocation'
    rw [← get?_applyAll_of_mem (s := s) hdistinct hm] at hresult
    rw [← get?_applyAll_of_mem (s := s) hdistinct hm'] at hresult'
    exact hspread location change.id put change'.id put' hresult hresult' hput hput'

/-! ## Revisions -/

/-- Revisions that leave room for one more stay below a bound once more. -/
theorem Made.revision_lt_bound {after : Store} (h : s.Made changes after) {bound : Nat}
    (hbound : 1 < bound)
    (hexpected : ∀ change ∈ changes, s.revision? change.id = change.expected?)
    (hroom : ∀ id stored, s.get? id = some stored → stored.revision < bound - 1)
    {id : String} {stored : Stored} (hget : after.get? id = some stored) :
    stored.revision < bound := by
  by_cases hid : id ∈ changes.map Change.id
  · obtain ⟨change, hm, rfl⟩ := List.mem_map.1 hid
    have hexpected := hexpected change hm
    rw [h.get?_id hm] at hget
    cases change with
    | delete id expected => cases hget
    | put record expected =>
        obtain rfl := Option.some.inj hget
        cases expected with
        | none => exact hbound
        | some expected =>
            obtain ⟨before, hbefore, rfl⟩ := Option.map_eq_some_iff.1 hexpected
            have hlt := hroom _ before hbefore
            show before.revision + 1 < bound
            omega
  · rw [h.untouched id hid] at hget
    have hlt := hroom id stored hget
    omega

/-- Revisions that leave room for one more are written in 64 bits once more. -/
theorem Made.revision_lt {after : Store} (h : s.Made changes after)
    (hexpected : ∀ change ∈ changes, s.revision? change.id = change.expected?)
    (hroom : ∀ id stored, s.get? id = some stored → stored.revision < UInt64.size - 1)
    {id : String} {stored : Stored} (hget : after.get? id = some stored) :
    stored.revision < UInt64.size :=
  h.revision_lt_bound (by decide) hexpected hroom hget

/-! ## The whole commit -/

/-- A commit as a whole of changes to different records succeeds exactly if every
change expects the revision that is there and the changes leave no two records in
one place. Then the store is the one that the changes leave, in order as before
and with revisions of 64 bits; otherwise the store is as it was, and one of the
records the set is about is reported. -/
theorem commitWhole_exact (hfiled : s.Filed) (hspread : s.Spread)
    (hroom : ∀ id stored, s.get? id = some stored → stored.revision < UInt64.size - 1)
    (hdistinct : (changes.map Change.id).Nodup) :
    s.Made changes (s.applyAll changes) ∧
      ((s.commitWhole changes).1 = .committed ↔
        (∀ change ∈ changes, s.revision? change.id = change.expected?) ∧
          (s.applyAll changes).Spread) ∧
      ((s.commitWhole changes).1 = .committed →
        (s.commitWhole changes).2 = s.applyAll changes ∧ (s.applyAll changes).Filed ∧
          ∀ id stored, (s.applyAll changes).get? id = some stored →
            stored.revision < UInt64.size) ∧
      ∀ id, (s.commitWhole changes).1 = .conflict id →
        (s.commitWhole changes).2 = s ∧ id ∈ changes.map Change.id := by
  have hmade : s.Made changes (s.applyAll changes) := (made_iff hdistinct).2 rfl
  rw [← admitted_iff hspread hdistinct]
  refine ⟨hmade, ⟨fun h => (admitted_of_commitWhole h).1, fun ha => ?_⟩, fun h => ?_,
    fun id h => ?_⟩
  · rw [commitWhole_of_admitted ha]
  · obtain ⟨ha, hafter⟩ := admitted_of_commitWhole h
    exact ⟨hafter, hfiled.applyAll changes,
      fun id stored hget => hmade.revision_lt ha.expected hroom hget⟩
  · unfold commitWhole at h ⊢
    cases hc : s.conflict? changes with
    | none =>
        rw [hc] at h
        cases h
    | some change =>
        rw [hc] at h
        cases h
        exact ⟨rfl, List.mem_map_of_mem (mem_of_conflict? hc)⟩

/-- Two records swap places while a third gives up its own to a new one. -/
theorem commitWhole_exact_swap :
    let file (id name : String) : Record := ⟨id, some ⟨"news", name⟩, .empty, [], []⟩
    let s : Store := Keyed.ofList
      [("a", ⟨file "a" "front", 4⟩), ("b", ⟨file "b" "back", 1⟩), ("c", ⟨file "c" "middle", 2⟩)]
    let changes : List Change :=
      [.put (file "a" "back") (some 4), .put (file "d" "middle") none, .delete "c" 2,
        .put (file "b" "front") (some 1)]
    (s.Filed ∧ s.Spread ∧
        (∀ id stored, s.get? id = some stored → stored.revision < UInt64.size - 1) ∧
        (changes.map Change.id).Nodup) ∧
      (s.commitWhole changes).1 = .committed ∧ s.Made changes (s.commitWhole changes).2 ∧
      (s.applyAll changes).Spread := by
  intro file s changes
  have hfiled : s.Filed := by decide +kernel
  have hspread : s.Spread := by decide +kernel
  have hroom : ∀ id stored, s.get? id = some stored → stored.revision < UInt64.size - 1 :=
    forall_get?_iff.2 (by decide +kernel)
  have hdistinct : (changes.map Change.id).Nodup := by decide +kernel
  obtain ⟨hmade, hverdict, hcommitted, -⟩ := commitWhole_exact hfiled hspread hroom hdistinct
  have h : (s.commitWhole changes).1 = .committed := by decide +kernel
  refine ⟨⟨hfiled, hspread, hroom, hdistinct⟩, h, ?_, (hverdict.1 h).2⟩
  rw [(hcommitted h).1]
  exact hmade

end Store

end Editorial
