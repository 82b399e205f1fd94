import Editorial.Proofs.Hints.Pending

/-!
# The life of a request in one operation

Seven operations touch requests, and two of them take one off the record before they go
on with another operation. For a single request little of that is left. The operation
files it, schedules it, rejects it or takes it away, or it leaves the request alone; and
all but filing have to name it, or find it due. That the request named is in a state to
be decided is not asked again by the task, only by the hints, which look at the first
pending request. In a sound record there is no other.

## Main results

* `Effect.treats` — what an operation makes of a request.
-/

namespace Editorial

/-- What `op`, carried out by `user` with the steps `path`, makes of the request `n`. -/
inductive Treats (arguments : Arguments) (user : String) (op : Operation) (path : List Taken)
    (n : String) : Option Request → Option Request → Prop
  | left {q? : Option Request} : Treats arguments user op path n q? q?
  | filed {kind : RequestKind} {t : Instant} (hop : op.filed? = some kind)
      (hfresh : .fresh .request n ∈ path) :
      Treats arguments user op path n none (some ⟨n, kind, arguments.date, none, user, t⟩)
  | scheduled {q : Request} {kind : RequestKind} (hop : op = .acceptRequest)
      (hid : arguments.request = some n) (hdate : q.isDeferred arguments.now = true)
      (hkind : Task.scheduledKind? q.kind = some kind) :
      Treats arguments user op path n (some q) (some { q with kind := kind })
  | rejected {q : Request} (hop : op = .rejectRequest) (hid : arguments.request = some n)
      (hpending : q.kind.isPending = true) (hwaits : q.kind.isScheduled = false) :
      Treats arguments user op path n (some q)
        (some { q with kind := .rejected, reason := arguments.reason })
  | cancelled {q : Request} (hop : op = .cancelRequest) (hid : arguments.request = some n) :
      Treats arguments user op path n (some q) none
  | accepted {q : Request} (hop : op = .acceptRequest) (hid : arguments.request = some n)
      (hpending : q.kind.isPending = true) (hwaits : q.kind.isScheduled = false)
      (hnow : q.isDeferred arguments.now = false ∨ Task.scheduledKind? q.kind = none) :
      Treats arguments user op path n (some q) none
  | ran {q : Request} (hop : op = .runScheduled) (hdue : q.isDue arguments.now = true) :
      Treats arguments user op path n (some q) none

namespace Record

variable {r : Record} {id n : String}

theorem request?_congr {r' : Record} (h : r.requests = r'.requests) (n : String) :
    r.request? n = r'.request? n := by
  unfold request?
  rw [h]

/-- Without the requests of one id the others are still found. -/
theorem request?_dropRequest (r : Record) (id n : String) :
    (r.dropRequest id).request? n = if n = id then none else r.request? n := by
  unfold request? dropRequest
  rw [List.find?_filter]
  split
  · rename_i hid
    simp [hid]
  · rename_i hid
    refine congrArg (List.find? · r.requests) (funext fun q => ?_)
    by_cases hq : q.id = n
    · simp [hq, hid]
    · simp [hq]

/-- A change to one request, which keeps its id, is found in its place. -/
theorem request?_changeRequest {f : Request → Request} (hf : ∀ q, (f q).id = q.id) (r : Record)
    (id n : String) :
    (r.changeRequest id f).request? n =
      if n = id then (r.request? n).map f else r.request? n := by
  unfold request? changeRequest
  generalize r.requests = qs
  show (changeRequest.go id f qs).find? _ = _
  induction qs with
  | nil => simp [changeRequest.go]
  | cons q rest ih =>
      unfold changeRequest.go
      by_cases hq : q.id = id
      · rw [if_pos hq]
        by_cases hn : n = id
        · simp [hf, hq, hn]
        · have hne : q.id ≠ n := fun he => hn (he.symm.trans hq)
          simp [hf, hne, hn]
      · rw [if_neg hq, List.find?_cons, List.find?_cons, ih]
        by_cases hn : n = id
        · simp [hn, hq]
        · simp [hn]

/-- A request that is filed is found unless there was one of its id before. -/
theorem request?_append (r : Record) (q : Request) (n : String) :
    ({ r with requests := r.requests ++ [q] } : Record).request? n =
      (r.request? n).or (if n = q.id then some q else none) := by
  unfold request?
  rw [List.find?_append]
  by_cases hn : n = q.id
  · simp [hn]
  · simp [hn, Ne.symm hn]

end Record

/-- A request that may be accepted or rejected waits for that. -/
theorem Handle.waits_of_allows {h : Handle} (hids : (h.record.requests.map Request.id).Nodup)
    {op : Operation} (hop : op = .acceptRequest ∨ op = .rejectRequest) {id : String}
    (ha : (Hints.ofHandle h).allows op (some id) = true) {q : Request}
    (hq : h.record.request? id = some q) :
    q.id = id ∧ q.kind.isPending = true ∧ q.kind.isScheduled = false := by
  have hfirst : ∃ p, h.record.pending? = some p ∧ p.id = id ∧ p.kind.isScheduled = false := by
    rcases hop with rfl | rfl
    · obtain ⟨p, hp, hpid, hwaits, -⟩ := (Hints.allows_acceptRequest_iff hids id).1 ha
      exact ⟨p, hp, hpid, hwaits⟩
    · exact (Hints.allows_rejectRequest_iff hids id).1 ha
  obtain ⟨p, hp, rfl, hwaits⟩ := hfirst
  rw [Record.request?_id hids (List.mem_of_find?_eq_some hp)] at hq
  cases hq
  unfold Record.pending? at hp
  have hpending := List.find?_some hp
  exact ⟨rfl, hpending, hwaits⟩

namespace Treats

variable {arguments : Arguments} {user n : String} {op : Operation} {path : List Taken}
  {r r' : Record}

theorem of_requests_eq (h : r'.requests = r.requests) :
    Treats arguments user op path n (r.request? n) (r'.request? n) := by
  rw [Record.request?_congr h]
  exact .left

/-- A request that is dropped is the only one to go. -/
theorem of_dropRequest {q : Request} (hq : r.request? q.id = some q)
    (h : r'.requests = (r.dropRequest q.id).requests)
    (hgone : Treats arguments user op path q.id (some q) none) :
    Treats arguments user op path n (r.request? n) (r'.request? n) := by
  rw [Record.request?_congr h, Record.request?_dropRequest]
  split
  · rename_i hn
    rw [hn, hq]
    exact hgone
  · exact .left

/-- A request that is changed is the only one. -/
theorem of_changeRequest {q : Request} {f : Request → Request} (hf : ∀ q, (f q).id = q.id)
    (hq : r.request? q.id = some q)
    (hchanged : Treats arguments user op path q.id (some q) (some (f q))) :
    Treats arguments user op path n (r.request? n) ((r.changeRequest q.id f).request? n) := by
  rw [Record.request?_changeRequest hf]
  split
  · rename_i hn
    rw [hn, hq]
    exact hchanged
  · exact .left

end Treats

namespace Effect

variable {ctx : Context} {h : Handle} {op : Operation} {path : List Taken} {r : Record}
  {t : Transaction}

/-- What is done to carry a request out leaves the other requests alone. -/
theorem requests_of_resolving (he : Effect ctx h op path r t) {kind : RequestKind}
    (hop : Operation.resolving? kind = some op) : r.requests = h.record.requests := by
  have hops : op = .publish ∨ op = .depublish ∨ op = .delete := by
    cases kind <;> cases hop <;> simp
  rcases hops with rfl | rfl | rfl <;> cases he <;> first | rfl | contradiction

/-- What an operation makes of a request. -/
theorem treats (he : Effect ctx h op path r t)
    (ha : (Hints.ofHandle h).allows op ctx.arguments.request = true)
    (hids : (h.record.requests.map Request.id).Nodup) {n : String}
    (hnew : .fresh .request n ∈ path → h.record.request? n = none) :
    Treats ctx.arguments h.user op path n (h.record.request? n) (r.request? n) := by
  cases he with
  | @file _ _ kind name now hop hdate =>
      rw [Record.request?_append]
      split
      · rename_i hn
        subst hn
        rw [hnew (List.mem_cons_self ..)]
        exact .filed hop (List.mem_cons_self ..)
      · rw [Option.or_none]
        exact .left
  | @schedule _ id q kind hid hq hdate hkind =>
      rw [hid] at ha
      obtain ⟨rfl, -, -⟩ := Handle.waits_of_allows hids (Or.inl rfl) ha hq
      exact .of_changeRequest (f := fun q => { q with kind := kind }) (fun _ => rfl) hq
        (.scheduled rfl hid hdate hkind)
  | @accept _ id q op path r t hid hq hnow hop hallows hrest =>
      rw [hid] at ha
      obtain ⟨rfl, hpending, hwaits⟩ := Handle.waits_of_allows hids (Or.inl rfl) ha hq
      exact .of_dropRequest hq (hrest.requests_of_resolving hop)
        (.accepted rfl hid hpending hwaits hnow)
  | @reject _ id q hid hq =>
      rw [hid] at ha
      obtain ⟨rfl, hpending, hwaits⟩ := Handle.waits_of_allows hids (Or.inr rfl) ha hq
      exact .of_changeRequest
        (f := fun q => { q with kind := .rejected, reason := ctx.arguments.reason })
        (fun _ => rfl) hq (.rejected rfl hid hpending hwaits)
  | @cancel _ id q hid hq =>
      have hqid : q.id = id := Record.id_of_request? hq
      rw [← hqid] at hid hq
      exact .of_dropRequest hq rfl (.cancelled rfl hid)
  | @runScheduled _ q op path r t hq hdue hop hallows hrest =>
      exact .of_dropRequest (Record.request?_id hids (List.mem_of_find?_eq_some hq))
        (hrest.requests_of_resolving hop) (.ran rfl hdue)
  | claim | draft | draftPublished | promote | fold | dispose | update | unlock | publish
  | withdraw | demote | delete | copy | move | rename | version | restore | restoreOwn
  | restoreOther | listVersions | retrieveVersion => exact .of_requests_eq rfl

end Effect

end Editorial
