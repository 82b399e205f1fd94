import Editorial.Hints.Basic
import Mathlib.Data.List.Induction
import Mathlib.Data.List.Nodup

/-!
# What hints allow

Hints are looked up by names, guards are computed. For an operation that is not
about one request the two are the same. For one that is, the hints tell it for
each request by its id; they can tell two requests apart only if these have
different ids.

## Main results

* `allows_eq` — the hints allow what the guards allow.
* `allows_acceptRequest_iff`, `allows_rejectRequest_iff`,
  `allows_cancelRequest_iff` — which request the hints allow to be decided.
-/

namespace Editorial

/-! ## Looking up collected entries -/

namespace Entries

variable {α : Type}

/-- Of collected entries the last one with a key counts. -/
theorem lookup_sort (key : String) (entries : List (String × α)) :
    lookup key (sort entries) = lookup key entries.reverse := by
  induction entries using List.reverseRecOn with
  | nil => rfl
  | append_singleton entries entry ih =>
      have hsort : sort (entries ++ [entry]) = insert entry.1 entry.2 (sort entries) := by
        simp [sort]
      rw [hsort, List.reverse_append, List.reverse_singleton, List.singleton_append, lookup]
      by_cases h : entry.1 = key
      · rw [if_pos h, ← h, lookup_insert_self]
      · rw [if_neg h, lookup_insert_ne _ (Ne.symm h), ih]

theorem lookup_eq_some {key : String} {value : α} {entries : List (String × α)}
    (hmem : ∃ entry ∈ entries, entry.1 = key)
    (hval : ∀ entry ∈ entries, entry.1 = key → entry.2 = value) :
    lookup key entries = some value := by
  induction entries with
  | nil =>
      obtain ⟨entry, hm, -⟩ := hmem
      cases hm
  | cons head rest ih =>
      by_cases h : head.1 = key
      · rw [lookup, if_pos h, hval head (by simp) h]
      · rw [lookup, if_neg h]
        refine ih ?_ fun entry hm => hval entry (by simp [hm])
        obtain ⟨entry, hm, he⟩ := hmem
        rcases List.mem_cons.1 hm with rfl | hm
        · exact absurd he h
        · exact ⟨entry, hm, he⟩

theorem lookup_eq_none {key : String} {entries : List (String × α)}
    (h : ∀ entry ∈ entries, entry.1 ≠ key) : lookup key entries = none := by
  induction entries with
  | nil => rfl
  | cons head rest ih =>
      rw [lookup, if_neg (h head (by simp))]
      exact ih fun entry hm => h entry (by simp [hm])

end Entries

namespace Keyed

variable {α : Type}

theorem get?_ofList (entries : List (String × α)) (key : String) :
    (ofList entries).get? key = Entries.lookup key entries.reverse :=
  Entries.lookup_sort key entries

end Keyed

/-! ## Hint keys -/

namespace Operation

/-- The operation without its date: the one whose hint is shown for it. -/
def undated : Operation → Operation
  | .schedulePublish => .publish
  | .scheduleDepublish => .depublish
  | op => op

theorem hintKey_eq (op : Operation) : op.hintKey = op.undated.name := by
  cases op <;> rfl

theorem undated_eq_of_hintKey_eq {op other : Operation} (h : op.hintKey = other.hintKey) :
    op.undated = other.undated := by
  rw [hintKey_eq, hintKey_eq] at h
  have h' := congrArg ofName? h
  rw [ofName?_name, ofName?_name] at h'
  exact Option.some.inj h'

end Operation

theorem Handle.allows_undated (h : Handle) (op : Operation) :
    h.allows op.undated = h.allows op := by
  cases op <;> rfl

/-! ## Operations on the document as a whole -/

namespace Hints

theorem get?_flags (h : Handle) {op : Operation} (hop : op.isRequestScoped = false) :
    (flags h).get? op.hintKey = some (.flag (h.allows op)) := by
  rw [flags, Keyed.get?_ofList, ← List.map_reverse, List.reverse_reverse]
  have hmem : op ∈ flagged := by simp [flagged, op.mem_all, hop]
  apply Entries.lookup_eq_some
  · exact ⟨_, List.mem_map_of_mem hmem, rfl⟩
  · intro entry hm he
    obtain ⟨other, -, rfl⟩ := List.mem_map.1 hm
    have hundated := Operation.undated_eq_of_hintKey_eq he
    rw [← h.allows_undated other, hundated, h.allows_undated]

theorem get?_ofHandle_hintKey (h : Handle) {op : Operation} (hop : op.isRequestScoped = false) :
    (ofHandle h).get? op.hintKey = some (.flag (h.allows op)) := by
  have hlive : op.hintKey ≠ isLiveKey := by cases op <;> decide
  have hpreview : op.hintKey ≠ previewKey := by cases op <;> decide
  have hinUse : op.hintKey ≠ inUseByKey := by cases op <;> decide
  have hrequests : op.hintKey ≠ requestsKey := by cases op <;> decide
  unfold ofHandle
  rw [Keyed.get?_insert_ne _ _ hrequests]
  cases h.holder? with
  | none => rw [Keyed.get?_insert_ne _ _ hpreview, Keyed.get?_insert_ne _ _ hlive, get?_flags h hop]
  | some holder =>
      rw [Keyed.get?_insert_ne _ _ hinUse, Keyed.get?_insert_ne _ _ hpreview,
        Keyed.get?_insert_ne _ _ hlive, get?_flags h hop]

/-- The hints allow what the guards allow. -/
theorem allows_eq (h : Handle) {op : Operation} (hop : op.isRequestScoped = false)
    (id? : Option String) : (ofHandle h).allows op id? = h.allows op := by
  rw [allows, hop, if_neg Bool.false_ne_true, isSet, get?_ofHandle_hintKey h hop]
  cases h.allows op <;> rfl

/-! ## Operations on one request -/

theorem actions?_ofHandle (h : Handle) (id : String) :
    (ofHandle h).actions? id = (requests h).get? id := by
  simp [actions?, ofHandle]

theorem get?_requests {h : Handle} (hids : (h.record.requests.map Request.id).Nodup) {q : Request}
    (hq : q ∈ h.record.requests) : (requests h).get? q.id = some (ofRequest h q) := by
  rw [requests, Keyed.get?_ofList]
  apply Entries.lookup_eq_some
  · exact ⟨(q.id, ofRequest h q), by simpa using ⟨q, hq, rfl, rfl⟩, rfl⟩
  · intro entry hm he
    rw [List.mem_reverse] at hm
    obtain ⟨q', hq', rfl⟩ := List.mem_map.1 hm
    have : q' = q := List.inj_on_of_nodup_map hids hq' hq he
    rw [this]

theorem get?_requests_eq_none {h : Handle} {id : String}
    (hid : ∀ q ∈ h.record.requests, q.id ≠ id) : (requests h).get? id = none := by
  rw [requests, Keyed.get?_ofList]
  apply Entries.lookup_eq_none
  intro entry hm
  rw [List.mem_reverse] at hm
  obtain ⟨q, hq, rfl⟩ := List.mem_map.1 hm
  exact hid q hq

/-- Nothing is allowed about a request that is not named. -/
theorem allows_none (h : Handle) {op : Operation} (hop : op.isRequestScoped = true) :
    (ofHandle h).allows op none = false := by
  rw [allows, hop]
  rfl

/-- What the hints allow about a request, they allow about one that exists. -/
theorem exists_request_of_allows {h : Handle} {op : Operation} (hop : op.isRequestScoped = true)
    {id? : Option String} (ha : (ofHandle h).allows op id? = true) :
    ∃ id q, id? = some id ∧ h.record.request? id = some q := by
  cases id? with
  | none => rw [allows_none h hop] at ha; cases ha
  | some id =>
      cases hq : h.record.request? id with
      | some q => exact ⟨id, q, rfl, hq⟩
      | none =>
          have hid : ∀ q ∈ h.record.requests, q.id ≠ id := by
            simpa [Record.request?] using hq
          rw [allows, hop] at ha
          simp only [if_true, Option.bind_eq_bind, Option.bind_some, actions?_ofHandle,
            get?_requests_eq_none hid] at ha
          cases ha

/-- What is allowed about a named request is one of its actions. -/
theorem allows_some_iff {h : Handle} (hids : (h.record.requests.map Request.id).Nodup)
    {op : Operation} (hop : op.isRequestScoped = true) (id : String) :
    (ofHandle h).allows op (some id) = true ↔
      ∃ q ∈ h.record.requests, q.id = id ∧ (ofRequest h q).get? op.hintKey = some true := by
  rw [allows, hop]
  simp only [if_true, Option.bind_eq_bind, Option.bind_some, actions?_ofHandle]
  constructor
  · intro hallowed
    by_cases hex : ∃ q ∈ h.record.requests, q.id = id
    · obtain ⟨q, hq, rfl⟩ := hex
      rw [get?_requests hids hq, Option.bind_some] at hallowed
      refine ⟨q, hq, rfl, ?_⟩
      cases hget : (ofRequest h q).get? op.hintKey with
      | none => rw [hget] at hallowed; cases hallowed
      | some b => rw [hget] at hallowed; rw [show b = true from hallowed]
    · rw [get?_requests_eq_none fun q hq he => hex ⟨q, hq, he⟩] at hallowed
      cases hallowed
  · rintro ⟨q, hq, rfl, hget⟩
    rw [get?_requests hids hq, Option.bind_some, hget]
    rfl

/-- Whether a request is the pending one and not scheduled. -/
def isDecidable (h : Handle) (q : Request) : Bool :=
  h.record.pending?.any (fun p => p.id = q.id) && !q.kind.isScheduled

theorem get?_ofRequest_accept (h : Handle) (q : Request) :
    (ofRequest h q).get? Operation.acceptRequest.hintKey =
      some (isDecidable h q && h.canCarryOut q) := by
  rw [ofRequest, Keyed.get?_ofList]
  simp [Entries.lookup, Operation.hintKey, Operation.name, isDecidable]

theorem get?_ofRequest_reject (h : Handle) (q : Request) :
    (ofRequest h q).get? Operation.rejectRequest.hintKey = some (isDecidable h q) := by
  rw [ofRequest, Keyed.get?_ofList]
  simp [Entries.lookup, Operation.hintKey, Operation.name, isDecidable]

theorem get?_ofRequest_cancel (h : Handle) (q : Request) :
    (ofRequest h q).get? Operation.cancelRequest.hintKey = some true := by
  rw [ofRequest, Keyed.get?_ofList]
  simp [Entries.lookup, Operation.hintKey, Operation.name]

theorem isDecidable_iff {h : Handle} (hids : (h.record.requests.map Request.id).Nodup)
    {q : Request} (hq : q ∈ h.record.requests) :
    isDecidable h q = true ↔ h.record.pending? = some q ∧ q.kind.isScheduled = false := by
  unfold isDecidable
  rw [Bool.and_eq_true, Option.any_eq_true, Bool.not_eq_true']
  constructor
  · rintro ⟨⟨p, hp, hid⟩, hs⟩
    have hmem : p ∈ h.record.requests := List.mem_of_find?_eq_some hp
    have : p = q := List.inj_on_of_nodup_map hids hmem hq (by simpa using hid)
    exact ⟨this ▸ hp, hs⟩
  · rintro ⟨hp, hs⟩
    exact ⟨⟨q, hp, by simp⟩, hs⟩

theorem allows_acceptRequest_iff {h : Handle} (hids : (h.record.requests.map Request.id).Nodup)
    (id : String) :
    (ofHandle h).allows .acceptRequest (some id) = true ↔
      ∃ q, h.record.pending? = some q ∧ q.id = id ∧ q.kind.isScheduled = false ∧
        h.canCarryOut q = true := by
  rw [allows_some_iff hids rfl]
  constructor
  · rintro ⟨q, hq, hid, hget⟩
    rw [get?_ofRequest_accept, Option.some.injEq, Bool.and_eq_true, isDecidable_iff hids hq] at hget
    exact ⟨q, hget.1.1, hid, hget.1.2, hget.2⟩
  · rintro ⟨q, hp, hid, hs, hc⟩
    have hq : q ∈ h.record.requests := List.mem_of_find?_eq_some hp
    refine ⟨q, hq, hid, ?_⟩
    rw [get?_ofRequest_accept, (isDecidable_iff hids hq).2 ⟨hp, hs⟩, hc]
    rfl

theorem allows_rejectRequest_iff {h : Handle} (hids : (h.record.requests.map Request.id).Nodup)
    (id : String) :
    (ofHandle h).allows .rejectRequest (some id) = true ↔
      ∃ q, h.record.pending? = some q ∧ q.id = id ∧ q.kind.isScheduled = false := by
  rw [allows_some_iff hids rfl]
  constructor
  · rintro ⟨q, hq, hid, hget⟩
    rw [get?_ofRequest_reject, Option.some.injEq, isDecidable_iff hids hq] at hget
    exact ⟨q, hget.1, hid, hget.2⟩
  · rintro ⟨q, hp, hid, hs⟩
    have hq : q ∈ h.record.requests := List.mem_of_find?_eq_some hp
    refine ⟨q, hq, hid, ?_⟩
    rw [get?_ofRequest_reject, (isDecidable_iff hids hq).2 ⟨hp, hs⟩]

theorem allows_cancelRequest_iff {h : Handle} (hids : (h.record.requests.map Request.id).Nodup)
    (id : String) :
    (ofHandle h).allows .cancelRequest (some id) = true ↔ ∃ q ∈ h.record.requests, q.id = id := by
  rw [allows_some_iff hids rfl]
  simp only [get?_ofRequest_cancel, and_true]

end Hints

end Editorial
