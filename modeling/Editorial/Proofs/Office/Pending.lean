import Editorial.Proofs.Desk.Dates
import Editorial.Proofs.Office.Sound

/-!
# Approved requests are never stranded

In an office that begins with an empty store every stored request fits the
variants of its document, whatever the clients do and in whatever order. The
record a client goes on from may be outdated by then, but it was stored once, and
a request it files has a name that no request had before. So a scheduled request
can be run once its date has come, and a request to publish or to take offline
can be accepted.

## Main results

* `fit_run` — every stored record is fit, in every run of an office.
* `requests_stay_executable` — its requests can be carried out.
-/

namespace Editorial

/-! ## What a journal tells -/

theorem Taken.Loads.mono {P Q : Record → Prop} {t : Taken} (h : t.Loads P)
    (hPQ : ∀ r, P r → Q r) : t.Loads Q := by
  rcases t with ⟨query, answer⟩
  cases query <;> first | trivial | exact fun stored he => hPQ _ (h stored he)

/-- A journal in which fit records were loaded and names were given that no
request of a record loaded before had. -/
structure Noted (names : List String) (journal : List Taken) : Prop where
  loads : ∀ t ∈ journal, t.Loads (Record.IsFit names)
  given : ∀ kind n, .fresh kind n ∈ journal → n ∈ names
  later : journal.Pairwise fun t t' => ∀ kind n, t' = .fresh kind n →
    t.Loads fun r => n ∉ r.requests.map Request.id

namespace Noted

variable {names names' : List String} {journal journal' : List Taken}

theorem nil (names : List String) : Noted names [] := by
  refine ⟨fun t hm => ?_, fun kind n hm => ?_, List.Pairwise.nil⟩
  · cases hm
  · cases hm

theorem mono (h : Noted names journal) (hnames : names ⊆ names') : Noted names' journal :=
  ⟨fun t hm => (h.loads t hm).mono fun _ hr => hr.mono hnames,
    fun kind n hm => hnames (h.given kind n hm), h.later⟩

theorem of_append (h : Noted names (journal ++ journal')) : Noted names journal' :=
  ⟨fun t hm => h.loads t (List.mem_append_right _ hm),
    fun kind n hm => h.given kind n (List.mem_append_right _ hm),
    (List.pairwise_append.1 h.later).2.1⟩

/-- A further step is noted if it loads a fit record, or is given a name that was
not in use. -/
theorem concat (h : Noted names journal) (hnames : names ⊆ names') {t : Taken}
    (hloads : t.Loads (Record.IsFit names))
    (hgiven : ∀ kind n, t = .fresh kind n → n ∈ names' ∧ n ∉ names) :
    Noted names' (journal ++ [t]) := by
  refine ⟨fun t' hm => ?_, fun kind n hm => ?_, List.pairwise_append.2
    ⟨h.later, List.pairwise_singleton _ _, fun t' hm t'' hm'' kind n he => ?_⟩⟩
  · rcases List.mem_append.1 hm with hm | hm
    · exact (h.loads t' hm).mono fun _ hr => hr.mono hnames
    · rw [List.mem_singleton.1 hm]
      exact hloads.mono fun _ hr => hr.mono hnames
  · rcases List.mem_append.1 hm with hm | hm
    · exact hnames (h.given kind n hm)
    · exact (hgiven kind n (List.mem_singleton.1 hm).symm).1
  · rw [List.mem_singleton.1 hm''] at he
    exact (h.loads t' hm).mono fun r hr hn => (hgiven kind n he).2 (hr.known hn)

end Noted

/-! ## What is committed -/

namespace Desk

variable {desk : Desk} {names : List String}

/-- An attempt that goes by such a journal commits fit records. -/
theorem Prepares.leaves {id user : String} {op : Operation} {arguments : Arguments}
    {path : List Taken} {changes : List Change} {t : Transaction}
    (hp : desk.Prepares id user op arguments path changes t) (hn : Noted names path) :
    ∀ change ∈ changes, change.Leaves (Record.IsFit names) := by
  cases hp with
  | @loaded stored path' r _ _ hallows heffect hchanges =>
      have hfit : stored.record.IsFit names :=
        hn.loads _ (List.mem_cons_self ..) stored rfl
      have hlater := (List.pairwise_cons.1 hn.later).1
      have hr := heffect.isFit hallows hfit
        (fun n hm => hn.given _ n (List.mem_cons_of_mem _ hm))
        (fun n hm => hlater _ hm _ n rfl stored rfl)
      have hstages := heffect.stages hallows (Record.stageable_isFit names)
        fun step hm => hn.loads step (List.mem_cons_of_mem _ hm)
      exact leaves_changes (fun _ => hr) hstages hchanges

theorem Committing.leaves {job : Job} {journal : List Taken} {changes : List Change}
    (hc : desk.Committing job journal changes) (hn : Noted names journal) :
    ∀ change ∈ changes, change.Leaves (Record.IsFit names) := by
  cases hc with
  | call hopens hlost hprepares hsettles => exact hprepares.leaves hn.of_append.of_append
  | create hnamed hsettles =>
      intro change hm
      rw [List.mem_singleton.1 hm]
      exact (Record.stageable_isFit names).single _ _ _

end Desk

/-! ## In an office -/

namespace Office

variable {desk : Desk} {o : Office}

/-- An office whose records are fit and in their places, and whose clients go by
what they were told. -/
structure Fit (desk : Desk) (o : Office) : Prop where
  filed : o.system.store.Filed
  spread : o.system.store.Spread
  stored : ∀ id stored, o.system.store.get? id = some stored → stored.record.IsFit o.names
  noted : ∀ c ∈ o.clients, Noted o.names c.journal
  traces : ∀ c ∈ o.clients, Client.Traces desk c

theorem Fit.step (htable : desk.table = .standard) (h : o.Fit desk) (move : Move) :
    (o.step desk move).Fit desk := by
  have htraces := traces_step o move h.traces
  rcases step_cases desk o move with ⟨job, -, hstep⟩ | hstep |
    ⟨i, c, query, next, now, name, -, hc, hp, hr, hstep⟩
  · rw [hstep] at htraces ⊢
    refine ⟨h.filed, h.spread, h.stored, fun c hm => ?_, htraces⟩
    rcases List.mem_append.1 hm with hm | hm
    · exact h.noted c hm
    · rw [List.mem_singleton.1 hm]
      exact Noted.nil _
  · rw [hstep]
    exact h
  · rw [hstep] at htraces ⊢
    have hmem := List.mem_of_getElem? hc
    have hnames := o.subset_namesAfter query name
    have hreaches := (h.traces c hmem).reaches hp
    have hcommits : query.Commits (Record.IsFit o.names) := by
      cases query with
      | commit changes =>
          exact (Desk.committing_of_reaches htable hreaches).leaves (h.noted c hmem)
      | now | fresh kind | load id | find location | folder category container
      | pause milliseconds | log notice => trivial
    refine ⟨?_, ?_, ?_, fun c' hm => ?_, htraces⟩
    · cases query with
      | commit changes => exact h.filed.commit _ changes
      | now | fresh kind | load id | find location | folder category container
      | pause milliseconds | log notice => exact h.filed
    · cases query with
      | commit changes => exact h.spread.commit _ changes
      | now | fresh kind | load id | find location | folder category container
      | pause milliseconds | log notice => exact h.spread
    · intro id stored hstored
      exact (stored_answer h.stored hcommits now name id stored hstored).mono hnames
    · rcases mem_clients_take hm with hm | rfl
      · exact (h.noted c' hm).mono hnames
      · exact (h.noted c hmem).concat hnames
          (loads_answer h.stored (fun _ hfit => hfit.reread) query now name)
          fun kind n he => mem_namesAfter hr he

/-- Every stored record is fit, in every run of an office that begins with an
empty store. -/
theorem fit_run (htable : desk.table = .standard) {s : System} (hs : s.store = .empty)
    (moves : List Move) : ((opening s).run desk moves).Fit desk := by
  have hnone : ∀ id stored, s.store.get? id ≠ some stored := by
    intro id stored hget
    rw [hs, Keyed.get?_empty] at hget
    cases hget
  refine run_induction (fun o move h => h.step htable move) ?_ moves
  refine ⟨fun id stored hget => ?_, fun location id stored id' stored' hget => ?_,
    fun id stored hget => ?_, fun c hm => ?_, fun c hm => ?_⟩
  · exact absurd hget (hnone id stored)
  · exact absurd hget (hnone id stored)
  · exact absurd hget (hnone id stored)
  · cases hm
  · cases hm

end Office

/-! ## Carrying requests out -/

/-- A scheduled request whose date has come can be run by whomever, if its document can be
loaded and no other writer interferes. -/
theorem runAt_runScheduled {desk : Desk} (htable : desk.table = .standard) {s : System}
    (hfiled : s.store.Filed) (hspread : s.store.Spread) {names : List String} {id : String}
    {stored : Stored} (hget : s.store.get? id = some stored)
    (hreadable : s.backend.canRead stored.record = true) (hfit : stored.record.IsFit names)
    {q : Request} (hq : q ∈ stored.record.requests) {now : Instant} (hdue : q.isDue now = true)
    (user : String) (readings : Readings) :
    (s.runAt readings (desk.process (.call id user (.runScheduled now)))).1 =
      some (.ok (.reply .done)) := by
  have hscheduled : q.kind.isScheduled = true := (Bool.and_eq_true_iff.1 hdue).1
  obtain ⟨sw, hkind⟩ := Switch.exists_of_isScheduled hscheduled
  obtain ⟨date, hdate⟩ := Option.isSome_iff_exists.1 ((hfit.fits q hq).date hscheduled)
  have hnow : date ≤ now := (Request.isDue_iff hscheduled hdate).1 hdue
  obtain ⟨s', r, hrun, -⟩ := System.exists_replaces_run sw htable hfiled hspread hget hreadable hfit
    hq hkind hdate hnow user readings
  rw [hrun]

/-- The requests of the record `r`, stored as `id`, can be carried out: a pending
one fits the variants, a scheduled one can be run alone by any user as soon as its
date has come, and one to publish or to take offline can be accepted by any
user. To be run, the record has to be one that can be loaded: any in memory, and in a
table one of which no content is nested deeper than `Payload.depthLimit`
(`Backend.canRead_iff`). -/
structure RequestsExecutable (desk : Desk) (s : System) (id : String) (r : Record) : Prop where
  fits : r.Fits
  runs : s.backend.canRead r = true → ∀ q ∈ r.requests, q.kind.isScheduled = true →
    ∀ date, q.scheduledAt = some date → ∀ now, date ≤ now → ∀ user readings,
      (s.runAt readings (desk.process (.call id user (.runScheduled now)))).1 =
        some (.ok (.reply .done))
  accepts : ∀ q ∈ r.requests, q.kind = .publication ∨ q.kind = .depublication →
    ∀ revision user,
      (Hints.ofHandle ⟨r, revision, user⟩).allows .acceptRequest (some q.id) = true

/-- In every run of an office that begins with an empty store, whatever the
backend and the settings, the requests of every stored record can be carried
out. -/
theorem requests_stay_executable (desk : Desk) (htable : desk.table = .standard) (s : System)
    (hs : s.store = .empty) (moves : List Move) (id : String) (stored : Stored)
    (hstored : ((Office.opening s).run desk moves).system.store.get? id = some stored) :
    RequestsExecutable desk ((Office.opening s).run desk moves).system id stored.record := by
  have hoffice := Office.fit_run htable hs moves
  have hfit := hoffice.stored id stored hstored
  refine ⟨hfit.fits, fun hreadable q hq hkind date hdate now hnow user readings => ?_,
    fun q hq hkind revision user => ?_⟩
  · have hdue : q.isDue now = true := by
      unfold Request.isDue
      rw [hkind, hdate]
      simpa using hnow
    exact runAt_runScheduled htable hoffice.filed hoffice.spread hstored hreadable hfit hq hdue user
      readings
  · exact Handle.allows_acceptRequest_of_fits hfit.sound hfit.fits hfit.distinct hq hkind

/-- A document that is made and then scheduled to be published. -/
theorem requests_stay_executable_scheduled :
    let date : Instant := ⟨1, 0, by decide, by decide, by decide⟩
    let moves : List Move :=
      [.enter (.create none .unpublished .null "ann"), .advance 0 .epoch "a",
        .advance 0 .epoch "v", .advance 0 .epoch "", .advance 0 .epoch "",
        .enter (.call "a" "ann" (.publish (some date))), .advance 1 .epoch "",
        .advance 1 .epoch "", .advance 1 .epoch "q", .advance 1 .epoch "", .advance 1 .epoch ""]
    let q : Request := ⟨"q", .scheduledPublication, some date, none, "ann", .epoch⟩
    let v : Variant := .make "v" .unpublished .null "ann" .epoch
    let stored : Stored := ⟨{ Record.single "a" none v with requests := [q] }, 2⟩
    let o := (Office.opening {}).run {} moves
    o.system.store.get? "a" = some stored ∧
      RequestsExecutable {} o.system "a" stored.record := by
  intro date moves q v stored o
  have hstored : o.system.store.get? "a" = some stored := by decide +kernel
  exact ⟨hstored, requests_stay_executable {} rfl {} rfl moves "a" stored hstored⟩

end Editorial
