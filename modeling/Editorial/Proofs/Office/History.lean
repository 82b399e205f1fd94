import Editorial.Proofs.Desk.Versions
import Editorial.Proofs.Office.Changes
import Editorial.Proofs.Office.Pending
import Editorial.Proofs.Office.Returned

/-!
# Versions that stay

The history of a document changes by a version that is taken of it, which adds a
snapshot at the end, later than those before it and named by its number. Whatever else
is committed of the document takes its history along. So a snapshot stays until the
document is removed, and as no two snapshots are of the same time, it can be had by its
time, whatever the clock was like.

Its content need not stay. Who commits puts in again what was loaded, and a table hands
a content out as it is read from its text. A content without doubles is read as it was
written; one with doubles may be another one each time.

## Main results

* `Current.historyStep` — what one move makes of a history.
* `exists_version` — a version that was handed back is in the history.
* `versions_permanent` — what versions are worth in every run of an office.
* `version_drifts` — a version in a table whose content does not stay.
-/

namespace Editorial

/-! ## Histories in the store -/

/-- The history of a document in the store. -/
def Store.history? (s : Store) (id : String) : Option (List Snapshot) :=
  (s.get? id).map fun stored => stored.record.history

/-- What may become of the history of the document `id` in a move that makes the commit
of `job?`, or none. A snapshot that was read back is as `reads` has it. -/
inductive HistoryStep (reads : Snapshot → Snapshot) (id : String) :
    Option Job → Option (List Snapshot) → Option (List Snapshot) → Prop
  | untouched {job? : Option Job} {history? : Option (List Snapshot)} :
      HistoryStep reads id job? history? history?
  | made {job : Job} : HistoryStep reads id (some job) none (some [])
  | removed {user : String} {call : Call} {history : List Snapshot} :
      HistoryStep reads id (some (.call id user call)) (some history) none
  | kept {job : Job} {history : List Snapshot} :
      HistoryStep reads id (some job) (some history) (some (history.map reads))
  | added {user : String} {history : List Snapshot} {s : Snapshot}
      (hname : s.name = Snapshot.nextName history) :
      HistoryStep reads id (some (.call id user .version)) (some history)
        (some (history.map reads ++ [s]))

namespace Snapshot

/-- Every snapshot is named by its number. -/
def Numbered (history : List Snapshot) : Prop :=
  ∀ (i : Nat) (s : Snapshot), history[i]? = some s → s.name = "1." ++ toString i

variable {b : Backend} {history : List Snapshot}

theorem Numbered.map (h : Numbered history) (b : Backend) :
    Numbered (history.map b.readsSnapshot) := by
  intro i s hs
  rw [List.getElem?_map] at hs
  obtain ⟨s', hs', rfl⟩ := Option.map_eq_some_iff.1 hs
  exact h i s' hs'

theorem Numbered.concat (h : Numbered history) {s : Snapshot} (hname : s.name = nextName history) :
    Numbered (history ++ [s]) := by
  intro i s' hs'
  rcases getElem?_concat_cases hs' with hs' | ⟨rfl, rfl⟩
  · exact h i s' hs'
  · rw [hname, nextName]

end Snapshot

namespace HistoryStep

variable {b : Backend} {id : String} {job? : Option Job}

/-- A snapshot that is there stays there, as it is or read back. -/
theorem exists_iterate_mem {s : Snapshot} {history history' : List Snapshot}
    (h : HistoryStep b.readsSnapshot id job? (some history) (some history'))
    (hs : ∃ n, b.readsSnapshot^[n] s ∈ history) :
    ∃ n, b.readsSnapshot^[n] s ∈ history' := by
  obtain ⟨n, hs⟩ := hs
  have hread : b.readsSnapshot^[n + 1] s ∈ history.map b.readsSnapshot := by
    rw [Function.iterate_succ_apply']
    exact List.mem_map_of_mem hs
  cases h with
  | untouched => exact ⟨n, hs⟩
  | kept => exact ⟨n + 1, hread⟩
  | added hname => exact ⟨n + 1, List.mem_append_left _ hread⟩

theorem numbered {history? history'? : Option (List Snapshot)}
    (h : HistoryStep b.readsSnapshot id job? history? history'?)
    (hnumbered : ∀ history, history? = some history → Snapshot.Numbered history) :
    ∀ history, history'? = some history → Snapshot.Numbered history := by
  intro history' he
  cases h with
  | untouched => exact hnumbered history' he
  | made =>
      cases he
      intro i s hs
      cases hs
  | removed => cases he
  | kept =>
      cases he
      exact (hnumbered _ rfl).map b
  | @added user history s hname =>
      cases he
      refine ((hnumbered _ rfl).map b).concat ?_
      rw [hname, Snapshot.nextName, Snapshot.nextName, List.length_map]

end HistoryStep

/-! ## One move -/

section

variable {desk : Desk} {s : System} {id : String}

theorem CarriesOut.historyStep {user : String} {call : Call} {stored : Stored} {op : Operation}
    {arguments : Arguments} {r : Record} {t : Transaction}
    (h : CarriesOut desk s id user call stored op arguments r t) :
    HistoryStep s.backend.readsSnapshot id (some (.call id user call))
      (some stored.record.history) (some r.history) := by
  cases h with
  | intro hget hasks hallows heffect hloads =>
      have hloaded := s.backend.history_handsOut stored
      rcases heffect.history_cases with hkept | ⟨rfl, sn, hadded, hname, -⟩
      · rw [hkept, hloaded]
        exact .kept
      · rw [hasks.eq_of_asking? rfl, hadded, hloaded]
        refine .added (hname.trans ?_)
        rw [hloaded, Snapshot.nextName, Snapshot.nextName, List.length_map]

theorem Affects.historyStep {job : Job} {after? : Option Stored}
    (h : Affects desk s id job after?) :
    HistoryStep s.backend.readsSnapshot id (some job) (s.store.history? id)
      (after?.map fun after => after.record.history) := by
  have hbefore : ∀ {stored}, s.store.get? id = some stored →
      s.store.history? id = some stored.record.history := fun hget =>
    congrArg (Option.map _) hget
  cases h with
  | untouched => exact .untouched
  | made hnew =>
      rw [show s.store.history? id = none from congrArg (Option.map _) hnew]
      exact .made
  | removed hcarries hdeletes =>
      rw [hbefore hcarries.get?_eq]
      exact .removed
  | changed hcarries hdeletes =>
      rw [hbefore hcarries.get?_eq]
      exact hcarries.historyStep
  | @written own user call arguments stored stage v content now hasks htarget hother hget hv =>
      rw [hbefore hget]
      show HistoryStep _ _ _ _ (some (s.backend.handsOut stored).record.history)
      rw [s.backend.history_handsOut]
      exact .kept

end

namespace Office

variable {desk : Desk} {o : Office}

/-- What one move makes of a history. -/
theorem Current.historyStep (h : o.Current desk) (htable : desk.table = .standard) (move : Move)
    (id : String) :
    HistoryStep o.system.backend.readsSnapshot id ((o.committing? move).map Client.job)
      (o.system.store.history? id) ((o.step desk move).system.store.history? id) := by
  cases hc : o.committing? move with
  | none =>
      rw [(sameData_step hc).store]
      exact .untouched
  | some c => exact (h.affects htable hc id).historyStep

/-! ## Runs -/

/-- Snapshots are named by their numbers in every run that begins with an empty store. -/
theorem numbered_run (htable : desk.table = .standard) {s : System} (hs : s.store = .empty)
    (moves : List Move) (id : String) (history : List Snapshot)
    (h : ((opening s).run desk moves).system.store.history? id = some history) :
    Snapshot.Numbered history := by
  have hrun : ((opening s).run desk moves).Current desk ∧ ∀ history,
      ((opening s).run desk moves).system.store.history? id = some history →
        Snapshot.Numbered history := by
    refine run_induction (I := fun o => o.Current desk ∧
      ∀ history, o.system.store.history? id = some history → Snapshot.Numbered history)
      (fun o move ⟨hcurrent, hnumbered⟩ => ⟨hcurrent.step htable move,
        (hcurrent.historyStep htable move id).numbered hnumbered⟩)
      ⟨current_run htable (Store.filed_of_empty hs) [], fun history he => ?_⟩ moves
    change s.store.history? id = some history at he
    rw [hs] at he
    cases he
  exact hrun.2 history h

/-- A version that a client was handed back was put in the history at some moment. -/
theorem exists_version (htable : desk.table = .standard) {s : System} (hfiled : s.store.Filed)
    {moves : List Move} {i : Nat} {id user : String} {d : Document}
    (hjob : ((opening s).run desk moves).clients[i]?.map Client.job =
      some (.call id user .version))
    (hended : ((opening s).run desk moves).ended? i = some (some (.ok (.reply (.document d))))) :
    ∃ before between sn stored, moves = before ++ between ∧ d = .ofSnapshot id sn ∧
      ((opening s).run desk before).system.store.get? id = some stored ∧
      sn ∈ stored.record.history := by
  obtain ⟨before, move, after, rfl, -, hanswered, -⟩ :=
    exists_answered htable hfiled rfl hjob hended
  cases hanswered with
  | variant hreturns => cases hreturns
  | @snapshot stored sn hstored hlast =>
      refine ⟨before ++ [move], after, sn, stored, by simp, rfl, ?_, List.mem_of_getLast? hlast⟩
      rw [run_concat]
      exact hstored

/-- A snapshot stays in the history as long as the document is there, as it is or read
back some times. -/
theorem Current.exists_iterate_mem_run (h : o.Current desk) (htable : desk.table = .standard)
    {id : String} {stored : Stored} (hget : o.system.store.get? id = some stored) {sn : Snapshot}
    (hsn : sn ∈ stored.record.history) (moves : List Move) :
    ∀ after, (o.run desk moves).system.store.get? id = some after →
      ∃ n, o.system.backend.readsSnapshot^[n] sn ∈ after.record.history := by
  refine Current.forall_get?_run htable (fun s job there after hb hthere hs haffects => ?_) moves h
    rfl (h.spent hget) fun there hthere => ⟨0, ?_⟩
  · have hstep := haffects.historyStep
    rw [hb, show s.store.history? id = some there.record.history from
      congrArg (Option.map _) hthere] at hstep
    exact hstep.exists_iterate_mem hs
  · rw [hget] at hthere
    cases hthere
    exact hsn

end Office

/-! ## What versions are worth -/

/-- What the version of the document `id` at the time `t` is worth in the system `s`, if
it was handed back as `d`: it can be retrieved, and it can be put back into the
unpublished variant if there is one. -/
structure Retrievable (desk : Desk) (s : System) (id : String) (d : Document) (t : Instant) :
    Prop where
  retrieved : ∀ user readings, ∃ d',
    (s.runAt readings (desk.process (.call id user (.retrieveVersion t)))).1 =
        some (.ok (.reply (.document d'))) ∧
      d'.version = some t ∧ s.backend.Recalls d.content d'.content
  restored : ∀ stored, s.store.get? id = some stored →
    stored.record.variants.has .unpublished = true →
    ∀ user readings, ∃ v s' after,
      s.runAt readings (desk.process (.call id user (.restoreVersion t))) =
          (some (.ok (.reply (.document (.ofVariant id v)))), s') ∧
        s'.store.get? id = some after ∧ after.record.variants.get .unpublished = some v ∧
        s.backend.Recalls d.content v.content

/-- What is promised of versions in the runs of an office. -/
structure VersionsPermanent (desk : Desk) (s : System) : Prop where
  /-- One move, in any run. -/
  step : ∀ (moves : List Move) (move : Move) (id : String),
    let o := (Office.opening s).run desk moves
    HistoryStep s.backend.readsSnapshot id ((o.committing? move).map Client.job)
      (o.system.store.history? id) ((o.step desk move).system.store.history? id)
  /-- The snapshots of a history are of later and later times and are named by their
  numbers. -/
  inOrder : ∀ (moves : List Move) (id : String) (history : List Snapshot),
    ((Office.opening s).run desk moves).system.store.history? id = some history →
    Snapshot.Ordered history ∧ Snapshot.Numbered history
  /-- A version that was handed back to a client can be had as long as the document is
  there and can be loaded: in a table, as long as no content of it is nested deeper than
  `Payload.depthLimit` (`Backend.canRead_iff`). -/
  stays : ∀ (before : List Move) (i : Nat) (id user : String) (d : Document),
    let o := (Office.opening s).run desk before
    o.clients[i]?.map Client.job = some (.call id user .version) →
    o.ended? i = some (some (.ok (.reply (.document d)))) →
    ∃ t, d.version = some t ∧ ∀ (during : List Move) (stored : Stored),
      (o.run desk during).system.store.get? id = some stored →
      s.backend.canRead stored.record = true →
      Retrievable desk (o.run desk during).system id d t

/-- A snapshot that was read back is as it was but for its content. -/
theorem Retrievable.of_iterate_mem {desk : Desk} (htable : desk.table = .standard) {s : System}
    (hfiled : s.store.Filed) (hspread : s.store.Spread) {id : String} {stored : Stored}
    (hget : s.store.get? id = some stored) (hreadable : s.backend.canRead stored.record = true)
    (hsound : stored.record.IsSound) {sn : Snapshot} {n : Nat}
    (hsn : s.backend.readsSnapshot^[n] sn ∈ stored.record.history) :
    Retrievable desk s id (.ofSnapshot id sn) sn.timestamp := by
  have hread : ∀ n, (s.backend.readsSnapshot^[n] sn).timestamp = sn.timestamp ∧
      s.backend.Recalls sn.content (s.backend.readsSnapshot^[n] sn).content := by
    intro n
    rw [Backend.iterate_readsSnapshot]
    exact ⟨rfl, s.backend.recalls_iterate sn.content n⟩
  have hagain : s.backend.readsSnapshot (s.backend.readsSnapshot^[n] sn) =
      s.backend.readsSnapshot^[n + 1] sn := (Function.iterate_succ_apply' ..).symm
  obtain ⟨htime, -⟩ := hread n
  obtain ⟨htime', hrecalls⟩ := hread (n + 1)
  refine ⟨fun user readings => ?_, fun there hthere hu user readings => ?_⟩
  · have hrun := System.runAt_retrieveVersion htable hfiled hget hreadable hsound hsn user readings
    rw [hagain, htime] at hrun
    exact ⟨_, hrun, congrArg some htime', hrecalls⟩
  · rw [hget] at hthere
    cases hthere
    obtain ⟨s', after, v, hrun, hafter, hv, hcontent⟩ :=
      System.runAt_restoreVersion htable hfiled hspread hget hreadable hsound hsn hu user
        readings
    rw [htime] at hrun
    refine ⟨v, s', after, hrun, hafter, hv, ?_⟩
    rw [hcontent, show s.backend.readsContent (s.backend.readsSnapshot^[n] sn).content =
      (s.backend.readsSnapshot^[n + 1] sn).content from congrArg Snapshot.content hagain]
    exact hrecalls

/-- In every run of an office that begins with an empty store, whatever the clock, the
backend and the settings: a history changes by versions only, each of which adds a
snapshot that is later than the others and is named by its number; and a version that
was handed back can be had by its time as long as the document is there and can be loaded.
Its content is what it was, unless there are doubles in it and the store is a table. -/
theorem versions_permanent (desk : Desk) (htable : desk.table = .standard) (s : System)
    (hs : s.store = .empty) : VersionsPermanent desk s := by
  have hfiled : s.store.Filed := Store.filed_of_empty hs
  have hbackend : ∀ moves, ((Office.opening s).run desk moves).system.backend = s.backend :=
    Office.backend_run desk (.opening s)
  refine ⟨fun moves move id => ?_, fun moves id history hhistory => ?_,
    fun before i id user d => ?_⟩
  · rw [← hbackend moves]
    exact (Office.current_run htable hfiled moves).historyStep htable move id
  · refine ⟨?_, Office.numbered_run htable hs moves id history hhistory⟩
    obtain ⟨stored, hget, rfl⟩ := Option.map_eq_some_iff.1 hhistory
    exact ((Office.fit_run htable hs moves).stored id stored hget).sound.history
  · intro o hjob hended
    obtain ⟨earlier, between, sn, there, rfl, rfl, hthere, hsn⟩ :=
      Office.exists_version htable hfiled hjob hended
    refine ⟨sn.timestamp, rfl, fun during stored hget hreadable => ?_⟩
    have hrun : o.run desk during =
        ((Office.opening s).run desk earlier).run desk (between ++ during) := by
      rw [← Office.run_append, ← Office.run_append, List.append_assoc]
    have hfit := Office.fit_run htable hs (earlier ++ between ++ during)
    rw [Office.run_append] at hfit
    have hb : (o.run desk during).system.backend =
        ((Office.opening s).run desk earlier).system.backend := by
      rw [hrun, Office.backend_run]
    have hstays := (Office.current_run htable hfiled earlier).exists_iterate_mem_run htable hthere
      hsn (between ++ during) stored (hrun ▸ hget)
    rw [← hb] at hstays
    obtain ⟨n, hmem⟩ := hstays
    refine .of_iterate_mem htable hfit.filed hfit.spread hget ?_
      (hfit.stored id stored hget).sound hmem
    rwa [Office.backend_run, hbackend]

/-- Two versions are taken while the clock stands still, and the first one is put back. -/
theorem versions_permanent_restored :
    let step (client : Nat) : Move := .advance client .epoch ""
    let moves : List Move :=
      [.enter (.create none .unpublished .null "ann"), .advance 0 .epoch "a",
        .advance 0 .epoch "v", step 0, step 0, .enter (.call "a" "bob" .version),
        .enter (.call "a" "cy" .version)] ++
      List.replicate 6 (step 1) ++ List.replicate 6 (step 2) ++
      (.enter (.call "a" "ann" (.restoreVersion .epoch)) :: List.replicate 6 (step 3))
    let o := (Office.opening {}).run {} moves
    (o.system.store.history? "a").map (List.map Snapshot.name) = some ["1.0", "1.1"] ∧
      VersionsPermanent {} {} := by
  intro step moves o
  exact ⟨by decide +kernel, versions_permanent {} rfl {} rfl⟩

/-- The content that a table hands out is another one each time: of the version that Bob
was handed, and of the same version when Cy retrieves it. -/
theorem version_drifts :
    let step (client : Nat) : Move := .advance client .epoch ""
    let content (bits : UInt64) : Payload := .ofJson (.double ⟨bits⟩)
    let moves : List Move :=
      [.enter (.create none .unpublished (content 4259304194031319137) "ann"),
        .advance 0 .epoch "a", .advance 0 .epoch "v", step 0, step 0] ++
      (.enter (.call "a" "bob" .version) :: List.replicate 6 (step 1)) ++
      (.enter (.call "a" "cy" (.retrieveVersion .epoch)) :: List.replicate 2 (step 2))
    let o := (Office.opening { backend := .stepwise }).run {} moves
    let handed? (client : Nat) : Option (Option Instant × Payload) :=
      match o.ended? client with
      | some (some (.ok (.reply (.document d)))) => some (d.version, d.content)
      | _ => none
    handed? 1 = some (some .epoch, content 4259304194031319138) ∧
      handed? 2 = some (some .epoch, content 4259304194031319137) := by
  decide +kernel

end Editorial
