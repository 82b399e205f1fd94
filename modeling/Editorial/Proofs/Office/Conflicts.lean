import Editorial.Proofs.Desk.Contention
import Editorial.Proofs.Office.Named
import Editorial.Proofs.Office.Quiet

/-!
# No conflict without another writer

The store refuses a set of changes if a revision is not the one that was loaded or if
a place is taken. What an attempt is about to commit was made from the store as it
was when the attempt loaded its record; places were looked up since. If the store is
still the same, none of this can be wrong, so a conflict means that somebody else has
committed in between. Copying a document to where it is itself is left out: it meets a
conflict whatever the others do.

## Main results

* `no_spurious_conflict` — a conflict has a cause, an undisturbed call never fails for
  contention, and a call that files a document where there is another one is told so.
-/

namespace Editorial

namespace Office

/-- The verdict on the commit with which client number `i` is about to go on. -/
def verdict? (o : Office) (i : Nat) : Option Verdict :=
  match o.clients[i]?.map Client.process with
  | some (.ask (.commit changes) _) => some (o.system.backend.commit o.system.store changes).1
  | _ => none

/-- After the moves `before`, the move `load` began an attempt of client number `i` by
loading the record `id`, and after the moves `between` the client is still at it. -/
def Attempting (desk : Desk) (o : Office) (i : Nat) (id : String) (before : List Move)
    (load : Move) (between : List Move) : Prop :=
  ∃ now name c₀ next c answer path, load = .advance i now name ∧
    (o.run desk before).clients[i]? = some c₀ ∧ c₀.process = .ask (.load id) next ∧
    (o.run desk (before ++ load :: between)).clients[i]? = some c ∧
    c.journal = c₀.journal ++ ⟨.load id, answer⟩ :: path ∧
    ∀ t ∈ path, t.query.IsReading ∧ t.query ≠ .load id

variable {desk : Desk} {o : Office} {i : Nat}

theorem of_verdict? {verdict : Verdict} (h : o.verdict? i = some verdict) :
    ∃ c changes next, o.clients[i]? = some c ∧ c.process = .ask (.commit changes) next ∧
      (o.system.backend.commit o.system.store changes).1 = verdict := by
  unfold verdict? at h
  cases hc : o.clients[i]? with
  | none =>
      simp only [hc] at h
      cases h
  | some c =>
      simp only [hc, Option.map_some] at h
      split at h
      · rename_i changes next hp
        exact ⟨c, changes, next, rfl, Option.some.inj hp, Option.some.inj h⟩
      · cases h

end Office

/-- What a desk does about conflicts, in all runs of an office that begins with the
system `s`. -/
structure NoSpuriousConflict (desk : Desk) (s : System) : Prop where
  /-- When an attempt meets a conflict, another client has committed since the attempt
  loaded its record. -/
  overtaken : ∀ moves i id user call other,
    let o := (Office.opening s).run desk moves
    o.clients[i]?.map Client.job = some (.call id user call) →
    o.verdict? i = some (.conflict other) →
    ¬ (Job.call id user call).CopiesInPlace o.system.store →
    ∃ before load between, moves = before ++ load :: between ∧
      Office.Attempting desk (.opening s) i id before load between ∧
      ((Office.opening s).run desk (before ++ [load])).OthersCommit desk i between
  /-- A client that comes after the moves `before` does not fail for contention if
  nobody else commits. -/
  alone : ∀ before job during failure,
    let o := (Office.opening s).run desk before
    let entered := o.step desk (.enter job)
    ¬ job.CopiesInPlace o.system.store →
    ¬ entered.OthersCommit desk o.clients.length during →
    (entered.run desk during).ended? o.clients.length = some (some (.error failure)) →
    failure.kind ≠ .concurrentModification
  /-- If it is to file a document in a place where there is another one, and the hints
  allow that, it is told that the state of things stands against it. -/
  occupied : ∀ before id user call op place stored other there,
    let o := (Office.opening s).run desk before
    let entered := o.step desk (.enter (.call id user call))
    o.system.store.get? id = some stored →
    call.filing? stored.record = some (op, place) →
    (Hints.ofHandle ⟨stored.record, stored.revision, user⟩).allows op none = true →
    o.system.store.get? other = some there → there.record.location = some place → other ≠ id →
    (∀ readings, ∃ failure,
      (o.system.runAt readings (desk.process (.call id user call))).1 = some (.error failure) ∧
        failure.kind = .invalidState) ∧
    ∀ during r, ¬ entered.OthersCommit desk o.clients.length during →
      (entered.run desk during).ended? o.clients.length = some r →
      ∃ failure, r = some (.error failure) ∧ failure.kind = .invalidState

namespace Office

variable {desk : Desk} {s : System}

/-- In every run that begins with an empty store, the store is in good order. -/
theorem inOrder_run (htable : desk.table = .standard) (hwhole : s.backend = .whole)
    (hs : s.store = .empty) (moves : List Move) :
    ((opening s).run desk moves).system.InOrder := by
  have hfit := fit_run htable hs moves
  exact ⟨(backend_run desk _ moves).trans hwhole, hfit.filed, hfit.spread,
    fun id stored hget => (hfit.stored id stored hget).sound,
    fun id stored hget => (hfit.stored id stored hget).distinct⟩

variable {i : Nat} {moves : List Move}

/-- An attempt that meets a conflict was overtaken. -/
theorem overtaken_of_verdict? (htable : desk.table = .standard) (hwhole : s.backend = .whole)
    (hs : s.store = .empty) {id user other : String} {call : Call}
    (hjob : ((opening s).run desk moves).clients[i]?.map Client.job = some (.call id user call))
    (hverdict : ((opening s).run desk moves).verdict? i = some (.conflict other))
    (hcopy : ¬ (Job.call id user call).CopiesInPlace
      ((opening s).run desk moves).system.store) :
    ∃ before load between, moves = before ++ load :: between ∧
      Attempting desk (opening s) i id before load between ∧
      ((opening s).run desk (before ++ [load])).OthersCommit desk i between := by
  have hcurrent := current_run htable (Store.filed_of_empty hs) moves
  have horder := inOrder_run htable hwhole hs moves
  obtain ⟨c, changes, next, hc, hp, hconflict⟩ := of_verdict? hverdict
  rw [hc] at hjob
  have hjob' : c.job = .call id user call := Option.some.inj hjob
  have hreaches := (hcurrent.traces c (List.mem_of_getElem? hc)).reaches hp
  rw [hjob'] at hreaches
  obtain ⟨opens, op, arguments, lost, last, t, hjournal, -, hasks, hprepares, -⟩ :=
    Desk.turnsTo_of_reaches htable hreaches
  have hreads := hprepares.isReading htable
  have hnew : ∀ name, .fresh .handle name ∈ last →
      ((opening s).run desk moves).system.store.get? name = none := by
    intro name hm
    refine (hcurrent.held i name ⟨c, hc, ?_⟩).2.1
    rw [hjournal, ← List.append_assoc]
    exact mem_unused hm hreads
  have hadmits := Desk.admits_of_asks horder hasks hcopy hnew _ _ _ hprepares
  cases hprepares with
  | @loaded stored path r _ _ hallows heffect hchanges =>
      rw [← List.append_assoc] at hjournal
      have hpath : ∀ step ∈ path, step.query.IsReading := fun step hm =>
        hreads step (List.mem_cons_of_mem _ hm)
      obtain ⟨before, now, name, between, c₀, next₀, rfl, hc₀, hhead, hload, hanswered⟩ :=
        exists_since hc hjournal fun step hm => Taken.isIdle_of_isReading (hreads step hm)
      refine ⟨before, .advance i now name, between, rfl,
        ⟨now, name, c₀, next₀, c, _, path, rfl, hc₀, hload, hc, by rw [hhead, hjournal],
          fun step hm => ⟨hpath step hm, ?_⟩⟩, ?_⟩
      · have hid : stored.record.id = id := (hcurrent.loaded id stored
          ⟨c, List.mem_of_getElem? hc, by rw [hjournal]; simp⟩).2.1
        rcases step with ⟨query, answer⟩
        rintro rfl
        exact heffect.id_ne_of_load hm hid.symm
      · by_contra hquiet
        have hadmitted := hadmits (hanswered hquiet) fun _ hm => hm
        rw [horder.whole] at hconflict
        change (Store.commitWhole _ changes).1 = _ at hconflict
        rw [Store.commitWhole_of_admitted hadmitted] at hconflict
        cases hconflict

/-- What a client that comes to an office ends with while nobody else commits, its job
ends with on a path that the office answers as it was. -/
theorem exists_leads_of_ended? {o : Office} {job : Job} {during : List Move}
    {r : Option (Except Failure Product)}
    (hquiet : ¬ (o.step desk (.enter job)).OthersCommit desk o.clients.length during)
    (hended : ((o.step desk (.enter job)).run desk during).ended? o.clients.length = some r) :
    ∃ path, (desk.process job).Leads path r ∧ o.system.Answers path ∧
      ∀ kind name, .fresh kind name ∈ path → name ∉ o.names := by
  obtain ⟨-, c, path, hc, hundisturbed⟩ :=
    exists_undisturbed (getElem?_clients_enter desk o job) hquiet
  obtain ⟨c', hc', hp⟩ := of_ended? hended
  rw [hc] at hc'
  cases hc'
  have hreaches := hundisturbed.reaches
  rw [hp] at hreaches
  exact ⟨path, hreaches, hundisturbed.answers, hundisturbed.fresh⟩

end Office

/-- With the standard table and a store that begins empty and commits a set of changes
as a whole: whatever the clients do in whatever order, no attempt meets a conflict
unless another client has committed since the attempt began. -/
theorem no_spurious_conflict (desk : Desk) (htable : desk.table = .standard) (s : System)
    (hwhole : s.backend = .whole) (hs : s.store = .empty) : NoSpuriousConflict desk s := by
  refine ⟨fun moves i id user call other => ?_, fun before job during failure => ?_,
    fun before id user call op place stored other there => ?_⟩
  · exact Office.overtaken_of_verdict? htable hwhole hs
  · intro o entered hcopy hquiet hended
    have horder := Office.inOrder_run htable hwhole hs before
    have hcurrent := Office.current_run htable (Store.filed_of_empty hs) before
    obtain ⟨path, hl, hanswers, hfresh⟩ := Office.exists_leads_of_ended? hquiet hended
    refine Desk.kind_ne_of_leads_process horder htable hl hanswers hcopy fun name hm => ?_
    rw [Option.eq_none_iff_forall_ne_some]
    exact fun stored hget => hfresh _ name hm (hcurrent.stored name stored hget)
  · intro o entered hget hfiling hallows hthere hplace hother
    have horder := Office.inOrder_run htable hwhole hs before
    have hnamed : place.IsNamed := Office.named_run htable hs before other there hthere place hplace
    have hfind : o.system.store.find? place = some other := by
      cases hfound : o.system.store.find? place with
      | none => exact absurd hplace (Store.not_mem_of_find?_eq_none hfound hthere)
      | some other' =>
          obtain ⟨there', hthere', hplace'⟩ := horder.filed.exists_of_find? hfound
          rw [horder.spread place other' there' other there hthere' hthere hplace' hplace]
    refine ⟨fun readings => ?_, fun during r hquiet hended => ?_⟩
    · obtain ⟨path, hl, htold⟩ := Process.exists_leads_run (System.answerAt readings)
        (desk.process (.call id user call)) (o.system, 0)
      exact Desk.refused_of_leads_process horder htable hl (System.answers_of_told htold) hget
        hfiling hnamed hallows hfind hother
    · obtain ⟨path, hl, hanswers, -⟩ := Office.exists_leads_of_ended? hquiet hended
      exact Desk.refused_of_leads_process horder htable hl hanswers hget hfiling hnamed hallows
        hfind hother

/-- Two versions of one document, taken at the same time: the first commit overtakes
the second. -/
theorem no_spurious_conflict_versions :
    let version (user : String) : Job := .call "a" user .version
    let step (client : Nat) : Move := .advance client .epoch ""
    let moves : List Move :=
      [.enter (.create none .unpublished .null "ann"), .advance 0 .epoch "a",
        .advance 0 .epoch "v", step 0, step 0, .enter (version "bob"), .enter (version "cy"),
        step 1, step 2, step 1, step 2, step 1, step 2, step 2]
    let o := (Office.opening {}).run {} moves
    (o.clients[1]?.map Client.job = some (version "bob") ∧
        o.verdict? 1 = some (.conflict "a")) ∧ NoSpuriousConflict {} {} := by
  intro version step moves o
  exact ⟨by decide +kernel, no_spurious_conflict {} rfl {} rfl rfl⟩

/-- A document is not in its own way when it is renamed, but it is when it is copied to
its own place, though nobody else commits. And a document with a pending request
cannot be renamed, whatever the name. -/
theorem own_place_not_refused :
    let s : System := { folders := Folders.register .empty "embedded" "news" true }
    let make (client : Nat) (id name : String) : List Move :=
      [.enter (.create (some ⟨"news", name⟩) .unpublished .null "ann"),
        .advance client .epoch id, .advance client .epoch (id ++ "v"), .advance client .epoch "",
        .advance client .epoch ""]
    let moves : List Move := make 0 "a" "front" ++ make 1 "b" "back"
    let request : List Move := .enter (.call "a" "ann" .requestDeletion) ::
      List.replicate 7 (.advance 2 .epoch "q")
    let o := (Office.opening s).run {} moves
    let readings : Readings := ⟨fun _ => .epoch, fun _ => "n"⟩
    let fails (o : Office) (call : Call) : Option (Option Failure) :=
      (o.system.runAt readings (Desk.process {} (.call "a" "ann" call))).1.map
        fun | .ok _ => none | .error failure => some failure
    (o.system.store.find? ⟨"news", "front"⟩ = some "a" ∧
        o.system.store.find? ⟨"news", "back"⟩ = some "b") ∧
      fails o (.rename "front") = some none ∧
      fails o (.copy "news" "front") = some (some (.contention "a" 4)) ∧
      fails (o.run {} request) (.rename "back") = some (some (.denied .rename)) := by
  decide +kernel

end Editorial
