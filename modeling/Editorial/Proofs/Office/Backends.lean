import Editorial.Proofs.Desk.Contents
import Editorial.Proofs.Office.Pending
import Editorial.Proofs.Office.Serial
import Editorial.Proofs.Store.Agreement

/-!
# Nobody can tell a table from memory

A store in memory and a table do not decide alike about every set of changes, and what a
table hands out need not be what was put in: two records that swap places in one set would
tell them apart, and so would a content with doubles or one that is nested too deep for the
table's reader. The first does not come up in an office. A desk commits one change, or two
of which the first leaves its record in its place. Either the record is still there, so the
place is taken in both stores and nobody else is in it, or the revision that the change
expects is gone, and both stores report that. The others come up only if a client brings
them: as long as no client brings a content that does not come back, there is none in the
store, and a table hands out what was put in.

So an office goes the same way whichever of the two its store is kept in, step by step,
for the same times and new names.

## Main results

* `kept_run` — all contents in the store come back, unless a client brings one that does not.
* `commitStepwise_eq` — a set that a client commits is judged alike in both ways.
* `run_onBackend` — an office goes the same way on either backend.
* `backends_agree` — what can be told from memory and from a table is the same.
* `deep_content_tells_apart` — a content that a table takes and does not hand out.
-/

namespace Editorial

/-! ## Contents that clients bring -/

/-- Whether a content that a move brings into an office, if it brings one, comes back from a
table as it was put in. -/
def Move.isKept : Move → Bool
  | .enter job => job.content?.all Payload.isKept
  | .advance _ _ _ => true

theorem Move.isKept_content {job : Job} (h : (Move.enter job).isKept = true) {content : Payload}
    (hc : job.content? = some content) : content.isKept = true := by
  have hall : job.content?.all Payload.isKept = true := h
  rwa [hc] at hall

namespace Office

variable {desk : Desk} {o : Office}

/-- A move that brings only contents that are kept leaves no others in the store, nor among
what is committed. -/
theorem Keeps.step_isKept (h : o.Keeps Record.IsKept) (htable : desk.table = .standard)
    {move : Move} (hmove : move.isKept = true) : (o.step desk move).Keeps Record.IsKept := by
  refine h.step (fun job he => ?_) fun r hr => by rwa [hr.isPlain.reread_eq]
  subst he
  exact Desk.commits_allContents htable fun content => Move.isKept_content hmove

/-- All contents in the store are kept, in every run of an office that begins with such only
and to which no client brings another. -/
theorem kept_run (htable : desk.table = .standard) {s : System}
    (hs : ∀ id stored, s.store.get? id = some stored → stored.record.IsKept) {moves : List Move}
    (hkept : ∀ move ∈ moves, move.isKept = true) :
    ∀ id stored, ((opening s).run desk moves).system.store.get? id = some stored →
      stored.record.IsKept := by
  refine stored_run_of_meets (fun job hm => ?_) (fun r hr => by rwa [hr.isPlain.reread_eq]) hs
  exact Desk.commits_allContents htable fun content => Move.isKept_content (hkept _ hm)

/-! ## Sets that clients commit -/

/-- A set of changes that a client commits is judged alike in both ways, and the same change
is reported if it is refused. -/
theorem Current.commitStepwise_eq (h : o.Current desk) (htable : desk.table = .standard)
    (hspread : o.system.store.Spread) {i : Nat} {c : Client} (hc : o.clients[i]? = some c)
    {changes : List Change} {next : Except Failure Verdict → Process (Except Failure Product)}
    (hp : c.process = .ask (.commit changes) next) :
    o.system.store.commitStepwise changes = o.system.store.commitWhole changes := by
  have hdistinct := h.nodup_committing htable hc hp
  have htold : ∀ step ∈ c.journal, o.Tells step := fun step hm => ⟨c, List.mem_of_getElem? hc, hm⟩
  have hcommitting := h.committing htable (List.mem_of_getElem? hc) hp
  generalize c.job = job at hcommitting
  generalize c.journal = journal at hcommitting htold
  cases hcommitting with
  | create hnamed hsettles hmade => exact Store.commitStepwise_one _ _
  | @call id user call opening lost last op arguments _ t hopens hlost hprepares hsettles =>
      cases hprepares with
      | @loaded loaded path r _ _ hallows heffect hchanges =>
          have hload := htold _ (List.mem_append_right _ (List.mem_append_right _
            (List.mem_cons_self ..)))
          have hid : loaded.record.id = id := (h.loaded id loaded hload).2.1
          obtain ⟨first, rfl, hfirst, hexpects, hput, -⟩ :=
            Desk.exists_head hchanges (heffect.id_eq.trans hid)
          -- The record that was loaded is where the record in the store is, if that is still
          -- at its revision.
          have hstays : o.system.store.revision? first.id = first.expected? →
              o.system.store.location? first.id = loaded.record.location := by
            intro hexpected
            rw [hfirst, hexpects, ← hid] at hexpected
            have hthere := h.load_of_revision hload hexpected
            obtain ⟨stored, hget, hout⟩ := Backend.load_eq_some_iff.1 hthere
            obtain ⟨-, rfl⟩ := Backend.handOut?_eq_ok_iff.1 hout
            rw [hfirst, Store.location?, hget, Backend.location_handsOut]
            rfl
          have hplaces := heffect.places
          change ∀ place, first.location? = some place → r.location = some place at hput
          change ((first :: t.staged).map Change.id).Nodup at hdistinct
          show o.system.store.commitStepwise (first :: t.staged) =
            o.system.store.commitWhole (first :: t.staged)
          generalize r.location = location at hplaces hput
          generalize t.staged = staged at hplaces hdistinct
          cases hplaces with
          | stays | moves => exact Store.commitStepwise_one _ _
          | copies | restores =>
              refine Store.commitStepwise_two hspread ?_ fun hexpected place hplace => ?_
              · simpa using hdistinct
              · exact (hstays hexpected).trans (hput place hplace)

/-- So either backend decides as a store in memory does. -/
theorem Current.commit_eq (h : o.Current desk) (htable : desk.table = .standard)
    (hspread : o.system.store.Spread) {i : Nat} {c : Client} (hc : o.clients[i]? = some c)
    {changes : List Change} {next : Except Failure Verdict → Process (Except Failure Product)}
    (hp : c.process = .ask (.commit changes) next) (b : Backend) :
    b.commit o.system.store changes = o.system.store.commitWhole changes := by
  cases b with
  | whole => rfl
  | stepwise => exact h.commitStepwise_eq htable hspread hc hp

/-! ## One office on two backends -/

/-- The office with its store kept in the way of `b`. -/
def onBackend (o : Office) (b : Backend) : Office :=
  { o with system := { o.system with backend := b } }

/-- A step is answered alike if the store hands out the same record and decides alike. -/
theorem answer_onBackend {b : Backend} {query : Query}
    (hload : ∀ id, query = .load id →
      b.load o.system.store id = o.system.backend.load o.system.store id)
    (hcommit : ∀ changes, query = .commit changes →
      b.commit o.system.store changes = o.system.backend.commit o.system.store changes)
    (now : Instant) (name : String) :
    (o.onBackend b).answer query now name =
      ((o.answer query now name).1, { (o.answer query now name).2 with backend := b }) := by
  cases query with
  | load id =>
      show (b.load o.system.store id, _) = _
      rw [hload id rfl]
      rfl
  | commit changes =>
      show (Except.ok (b.commit o.system.store changes).1,
        { o.system with backend := b, clock := now,
                        store := (b.commit o.system.store changes).2 }) = _
      rw [hcommit changes rfl]
      rfl
  | now | fresh kind | find location | folder category container | pause milliseconds
  | log notice => rfl

/-- With contents in its store that are kept, an office makes the same move on either
backend. -/
theorem step_onBackend (htable : desk.table = .standard) (hcurrent : o.Current desk)
    (hspread : o.system.store.Spread)
    (hkept : ∀ id stored, o.system.store.get? id = some stored → stored.record.IsKept)
    (b : Backend) (move : Move) :
    (o.onBackend b).step desk move = (o.step desk move).onBackend b := by
  cases move with
  | enter job => rfl
  | advance i now name =>
      have hclients : (o.onBackend b).clients[i]? = o.clients[i]? := rfl
      rw [step, step, hclients]
      cases hc : o.clients[i]? with
      | none => rfl
      | some c =>
          cases hp : c.process with
          | done a => simp only [hp]
          | broken => simp only [hp]
          | ask query next =>
              have hload : ∀ id, query = .load id →
                  b.load o.system.store id = o.system.backend.load o.system.store id := by
                rintro id -
                rw [Backend.load_of_isKept _ (hkept id), Backend.load_of_isKept _ (hkept id)]
              have hcommit : ∀ changes, query = .commit changes →
                  b.commit o.system.store changes =
                    o.system.backend.commit o.system.store changes := by
                rintro changes rfl
                rw [hcurrent.commit_eq htable hspread hc hp,
                  hcurrent.commit_eq htable hspread hc hp]
              have hrefuses : (o.onBackend b).refuses query name = o.refuses query name := by
                cases query <;> rfl
              simp only [hp, hrefuses]
              cases hr : o.refuses query name with
              | true => rfl
              | false =>
                  show (o.onBackend b).take i c query next now name =
                    (o.take i c query next now name).onBackend b
                  unfold take
                  rw [answer_onBackend hload hcommit]
                  cases query <;> rfl

/-- So an office goes the same way on either backend. -/
theorem run_onBackend (htable : desk.table = .standard) (b : Backend) {moves : List Move}
    (hmoves : ∀ move ∈ moves, move.isKept = true) (hcurrent : o.Current desk)
    (hfit : o.Fit desk) (hkeeps : o.Keeps Record.IsKept) :
    (o.onBackend b).run desk moves = (o.run desk moves).onBackend b := by
  induction moves generalizing o with
  | nil => rfl
  | cons move moves ih =>
      have hmove := hmoves move (List.mem_cons_self ..)
      have hrest : ∀ move ∈ moves, move.isKept = true :=
        fun move hm => hmoves move (List.mem_cons_of_mem _ hm)
      show ((o.onBackend b).step desk move).run desk moves =
        ((o.step desk move).run desk moves).onBackend b
      rw [step_onBackend htable hcurrent hfit.spread hkeeps.stored b move]
      exact ih hrest (hcurrent.step htable move) (hfit.step htable move)
        (hkeeps.step_isKept htable hmove)

/-! ## What can be told from outside -/

/-- All that can be told of an office from outside is the same of another one. -/
structure Alike (o o' : Office) : Prop where
  /-- Every client has been told the same at every step. -/
  told : o.clients.map Client.journal = o'.clients.map Client.journal
  /-- Every client has come to the same result or to the same error. -/
  ended : ∀ i, o.ended? i = o'.ended? i
  /-- The same records are loaded, at the same revisions. -/
  load : ∀ id, o.system.backend.load o.system.store id =
    o'.system.backend.load o'.system.store id
  /-- The same documents are found in all places. -/
  find : ∀ place, o.system.store.find? place = o'.system.store.find? place
  /-- The same documents are listed. -/
  keys : o.system.store.keys = o'.system.store.keys
  /-- The same events are logged. -/
  log : o.system.log = o'.system.log

end Office

/-- An office that begins with an empty store in memory and one that begins with an empty
table cannot be told apart: whoever comes, one after another or side by side, and whatever
the settings, as long as the clocks show the same, the same new names are given out and
nobody brings a content with doubles or one that is nested deeper than
`Payload.depthLimit`. -/
theorem backends_agree (desk : Desk) (htable : desk.table = .standard) (s : System)
    (hs : s.store = .empty) (moves : List Move) (hmoves : ∀ move ∈ moves, move.isKept = true) :
    ((Office.opening { s with backend := .whole }).run desk moves).Alike
      ((Office.opening { s with backend := .stepwise }).run desk moves) := by
  let memory : System := { s with backend := .whole }
  let o : Office := .opening memory
  have hempty : memory.store = .empty := hs
  have hnone : ∀ id stored, memory.store.get? id = some stored → stored.record.IsKept := by
    intro id stored hget
    rw [hempty, Keyed.get?_empty] at hget
    cases hget
  have hcurrent : o.Current desk := Office.current_run htable (Store.filed_of_empty hempty) []
  have hfit : o.Fit desk := Office.fit_run htable hempty []
  have hkeeps : o.Keeps Record.IsKept := Office.keeps_opening hnone
  have hrun : (Office.opening { s with backend := .stepwise }).run desk moves =
      (o.run desk moves).onBackend .stepwise :=
    Office.run_onBackend htable .stepwise hmoves hcurrent hfit hkeeps
  have hkept : ∀ id stored, (o.run desk moves).system.store.get? id = some stored →
      stored.record.IsKept := Office.kept_run htable hnone hmoves
  rw [hrun]
  refine ⟨rfl, fun i => rfl, fun id => ?_, fun place => rfl, rfl, rfl⟩
  rw [Backend.load_of_isKept _ (hkept id)]
  exact (Backend.load_of_isKept .stepwise (hkept id)).symm

/-- Bob wants to copy a document to where it is. In a table as in memory he is told that
others were faster, though nobody was. Cy writes a version of it into another document. -/
theorem backends_agree_copy :
    let s : System := { folders := Folders.register .empty "embedded" "news" true }
    let work (client steps : Nat) (kind : Char) (job : Job) : List Move :=
      .enter job :: (List.range steps).map fun n => .advance client .epoch ("".pushn kind (n + 1))
    let make (name : String) : Job := .create (some ⟨"news", name⟩) .unpublished .null "ann"
    let moves : List Move :=
      work 0 4 'a' (make "front") ++ work 1 4 'b' (make "back") ++
      work 2 32 'c' (.call "a" "bob" (.copy "news" "front")) ++
      work 3 6 'd' (.call "a" "cy" .version) ++
      work 4 7 'e' (.call "a" "cy" (.restoreVersionTo .epoch ⟨"b", .unpublished⟩))
    let inMemory := (Office.opening { s with backend := .whole }).run {} moves
    let inTable := (Office.opening { s with backend := .stepwise }).run {} moves
    let fails (client : Nat) : Option (Option Failure) :=
      match inTable.ended? client with
      | some (some (.error failure)) => some (some failure)
      | some (some (.ok _)) => some none
      | _ => none
    s.store = .empty ∧ (∀ move ∈ moves, move.isKept = true) ∧
      [0, 1, 2, 3, 4].map fails =
        [some none, some none, some (some (.contention "a" 4)), some none, some none] ∧
      inTable.system.store.revision? "b" = some 2 ∧ inMemory.Alike inTable := by
  intro s work make moves inMemory inTable fails
  have hmoves : ∀ move ∈ moves, move.isKept = true := by decide +kernel
  exact ⟨rfl, hmoves, by decide +kernel, by decide +kernel,
    backends_agree {} rfl s rfl moves hmoves⟩

/-- Ann's document is taken by both stores, but the table cannot read it again: there nobody
is told what he may do with it. -/
theorem deep_content_tells_apart :
    let content : Payload := .ofJson ((fun inner => .array [inner])^[125] .null)
    let moves : List Move :=
      [.enter (.create none .unpublished content "ann"), .advance 0 .epoch "a",
        .advance 0 .epoch "v", .advance 0 .epoch "", .advance 0 .epoch "",
        .enter (.call "a" "ann" .hints), .advance 1 .epoch ""]
    let ended (b : Backend) (i : Nat) := ((Office.opening { backend := b }).run {} moves).ended? i
    let isAnswered : Option (Option (Except Failure Product)) → Bool
      | some (some (.ok (.reply (.hints _)))) => true
      | _ => false
    content.json.noDoubles = true ∧
      [Backend.whole, .stepwise].map (ended · 0) =
        [some (some (.ok (.created "a"))), some (some (.ok (.created "a")))] ∧
      isAnswered (ended .whole 1) = true ∧
      ended .stepwise 1 = some (some (.error .nestedTooDeep)) := by
  decide +kernel

end Editorial
