import Editorial.Proofs.Office.Pending
import Editorial.Proofs.Office.Serial
import Editorial.Proofs.System.Answers

/-!
# While nobody else commits

Between two moments of a run the store changes only by commits that succeed. So while
no other client makes one, a client is told what the store was like at the first of
the two moments, until it commits itself; whatever else the others do goes unnoticed.

A step that stands in the journal of a client was taken at some moment of the run.

## Main results

* `exists_undisturbed` — what a client does while nobody else commits.
* `exists_moment` — when a step in a journal was taken.
* `exists_since` — what a client was told since then still holds.
-/

namespace Editorial

namespace Office

variable {desk : Desk} {o o' : Office} {i : Nat} {c c' : Client} {move : Move}
  {moves moves' : List Move}

/-! ## One client -/

/-- What a move means for a client that is there: it stays as it is, and nothing is
committed if the move was its own, or it takes a step. -/
theorem client_step (desk : Desk) (hc : o.clients[i]? = some c) (move : Move) :
    ((o.step desk move).clients[i]? = some c ∧
        ∀ now name, move = .advance i now name → o.committing? move = none) ∨
      ∃ query next now name, move = .advance i now name ∧ c.process = .ask query next ∧
        o.refuses query name = false ∧
        o.step desk move = o.take i c query next now name := by
  have hlt : i < o.clients.length := (List.getElem?_eq_some_iff.1 hc).1
  cases move with
  | enter job =>
      refine Or.inl ⟨?_, fun _ _ => nofun⟩
      show (o.clients ++ [_])[i]? = some c
      rw [List.getElem?_append_left hlt, hc]
  | advance j now name =>
      by_cases hj : j = i
      · subst hj
        cases hp : c.process with
        | done r | broken =>
            refine Or.inl ⟨?_, fun _ _ _ => ?_⟩
            · simp only [step, hc, hp]
            · simp only [committing?, hc, hp]
        | ask query next =>
            cases hr : o.refuses query name with
            | true =>
                refine Or.inl ⟨?_, fun _ _ _ => ?_⟩
                · simp only [step, hc, hp, hr, if_true]
                · cases query with
                  | fresh kind => simp only [committing?, hc, hp]
                  | now | load id | find location | folder category container | commit changes
                  | pause milliseconds | log notice => cases hr
            | false =>
                refine Or.inr ⟨query, next, now, name, rfl, rfl, hr, ?_⟩
                simp only [step, hc, hp, hr, Bool.false_eq_true, if_false]
      · refine Or.inl ⟨?_, fun _ _ he => absurd (Move.advance.inj he).1 hj⟩
        rcases step_cases desk o (.advance j now name) with ⟨job, he, -⟩ | hstep |
          ⟨j', c', query, next, now', name', he, -, -, -, hstep⟩
        · cases he
        · rw [hstep, hc]
        · cases he
          rw [hstep]
          show (o.clients.set j _)[i]? = some c
          rw [List.getElem?_set_ne hj, hc]

/-- A client that was not there before has done nothing yet. -/
theorem journal_of_step (hnone : o.clients[i]? = none)
    (hc : (o.step desk move).clients[i]? = some c) : c.journal = [] := by
  rcases step_cases desk o move with ⟨job, -, hstep⟩ | hstep |
    ⟨j, c', query, next, now, name, -, -, -, -, hstep⟩
  · rw [hstep] at hc
    rw [List.getElem?_append_right (List.getElem?_eq_none_iff.1 hnone)] at hc
    rw [List.mem_singleton.1 (List.mem_of_getElem? hc)]
  · rw [hstep, hnone] at hc
    cases hc
  · rw [hstep] at hc
    change (o.clients.set j _)[i]? = some c at hc
    have hlt := (List.getElem?_eq_some_iff.1 hc).1
    rw [List.length_set] at hlt
    rw [List.getElem?_eq_none_iff] at hnone
    omega

/-- A client is there as soon as it has come. -/
theorem getElem?_clients_enter (desk : Desk) (o : Office) (job : Job) :
    (o.step desk (.enter job)).clients[o.clients.length]? =
      some ⟨job, [], desk.process job⟩ := by
  show (o.clients ++ [_])[o.clients.length]? = _
  rw [List.getElem?_append_right (Nat.le_refl _), Nat.sub_self]
  rfl

/-! ## Commits of others -/

/-- Among the moves there is a commit that succeeds and is not one of client number
`i`. -/
def OthersCommit (desk : Desk) (o : Office) (i : Nat) (moves : List Move) : Prop :=
  ∃ before j now name after, moves = before ++ .advance j now name :: after ∧ j ≠ i ∧
    ((o.run desk before).committing? (.advance j now name)).isSome = true

theorem OthersCommit.append (h : o.OthersCommit desk i moves) (moves' : List Move) :
    o.OthersCommit desk i (moves ++ moves') := by
  obtain ⟨before, j, now, name, after, rfl, hj, hcommits⟩ := h
  exact ⟨before, j, now, name, after ++ moves', by simp, hj, hcommits⟩

/-- Any other move leaves the records. -/
theorem sameData_of_not_othersCommit (hquiet : ¬ o.OthersCommit desk i (moves ++ [move]))
    (hown : ∀ now name, move = .advance i now name →
      (o.run desk moves).committing? move = none) :
    System.SameData (o.run desk moves).system ((o.run desk moves).step desk move).system := by
  refine sameData_step ?_
  cases move with
  | enter job => rfl
  | advance j now name =>
      by_cases hj : j = i
      · subst hj
        exact hown now name rfl
      · rw [← Option.not_isSome_iff_eq_none]
        exact fun hcommits => hquiet ⟨moves, j, now, name, [], rfl, hj, hcommits⟩

/-- The client went on from `c` to `c'` by the steps `path` while nobody else
committed, from `o` to `o'`. -/
structure Undisturbed (o o' : Office) (c c' : Client) (path : List Taken) : Prop where
  job : c'.job = c.job
  journal : c'.journal = c.journal ++ path
  reaches : c.process.Reaches path c'.process
  answers : o.system.Answers path
  fresh : ∀ kind name, .fresh kind name ∈ path → name ∉ o.names
  same : (∀ t ∈ path, t.IsIdle) → System.SameData o.system o'.system

/-- What a step is answered, it is answered by the system. -/
theorem answeredBy_answer (o : Office) (query : Query) (now : Instant) (name : String) :
    Taken.AnsweredBy o.system ⟨query, (o.answer query now name).1⟩ :=
  System.SameData.answeredBy ⟨rfl, rfl, rfl⟩
    (System.answeredBy_answer (fun _ _ => name) { o.system with clock := now } query)

theorem sameData_of_isIdle {query : Query} {now : Instant} {name : String}
    (hidle : Taken.IsIdle ⟨query, (o.answer query now name).1⟩) :
    System.SameData o.system (o.answer query now name).2 := by
  have hclock : System.SameData o.system { o.system with clock := now } := ⟨rfl, rfl, rfl⟩
  exact hclock.trans (System.sameData_of_isIdle _ _ hidle)

/-- A further step of the client. -/
theorem Undisturbed.take {path : List Taken} (h : o.Undisturbed o' c c' path)
    (hnames : o.names ⊆ o'.names) {query : Query}
    {next : query.Answer → Process (Except Failure Product)} (hp : c'.process = .ask query next)
    {now : Instant} {name : String} (hr : o'.refuses query name = false) :
    o.Undisturbed (o'.take i c' query next now name) c
      ⟨c'.job, c'.journal ++ [⟨query, (o'.answer query now name).1⟩],
        next (o'.answer query now name).1⟩
      (path ++ [⟨query, (o'.answer query now name).1⟩]) := by
  refine ⟨h.job, ?_, ?_, ?_, fun kind n hm => ?_, fun hidle => ?_⟩
  · rw [h.journal, List.append_assoc]
  · have hreaches := h.reaches
    rw [hp] at hreaches
    exact (Process.reaches_append _ _ _ _).2 ⟨_, hreaches, next, rfl, rfl⟩
  · refine System.answers_append.2 ⟨h.answers, fun hidle => ⟨?_, fun _ => trivial⟩⟩
    exact (h.same hidle).answeredBy (o'.answeredBy_answer query now name)
  · rcases List.mem_append.1 hm with hm | hm
    · exact h.fresh kind n hm
    · exact fun hused => (mem_namesAfter hr (List.mem_singleton.1 hm).symm).2 (hnames hused)
  · obtain ⟨hpath, hlast⟩ := List.forall_mem_append.1 hidle
    exact (h.same hpath).trans (sameData_of_isIdle (hlast _ (List.mem_singleton_self _)))

/-- What a client does while nobody else commits. -/
theorem exists_undisturbed (hc : o.clients[i]? = some c) (hquiet : ¬ o.OthersCommit desk i moves) :
    o.names ⊆ (o.run desk moves).names ∧
      ∃ c' path, (o.run desk moves).clients[i]? = some c' ∧
        o.Undisturbed (o.run desk moves) c c' path := by
  -- The moves are taken from the end, as what a step is told depends on all before it.
  induction moves using List.reverseRecOn with
  | nil =>
      refine ⟨List.Subset.refl _, c, [], hc, rfl, (List.append_nil _).symm, rfl, trivial, ?_,
        fun _ => System.SameData.refl _⟩
      intro kind name hm
      cases hm
  | append_singleton moves move ih =>
      obtain ⟨hnames, c', path, hc', h⟩ := ih fun hothers => hquiet (hothers.append _)
      rw [run_concat]
      refine ⟨List.Subset.trans hnames (names_step desk _ move), ?_⟩
      rcases client_step desk hc' move with ⟨hstays, hown⟩ |
        ⟨query, next, now, name, -, hp, hr, hstep⟩
      · exact ⟨c', path, hstays, h.job, h.journal, h.reaches, h.answers, h.fresh, fun hidle =>
          (h.same hidle).trans (sameData_of_not_othersCommit hquiet hown)⟩
      · have hlt : i < (o.run desk moves).clients.length := (List.getElem?_eq_some_iff.1 hc').1
        rw [hstep]
        exact ⟨_, _, List.getElem?_set_self hlt, h.take hnames hp hr⟩

/-! ## When a step was taken -/

/-- A step in the journal of a client was taken at some moment, and the client had
the steps before it in its journal then. -/
theorem exists_moment {s : System} (hc : ((opening s).run desk moves).clients[i]? = some c)
    {head rest : List Taken} {t : Taken} (hjournal : c.journal = head ++ t :: rest) :
    ∃ before now name between c₀ next, moves = before ++ .advance i now name :: between ∧
      ((opening s).run desk before).clients[i]? = some c₀ ∧ c₀.journal = head ∧
      c₀.process = .ask t.query next ∧
      ((opening s).run desk before).step desk (.advance i now name) =
        ((opening s).run desk before).take i c₀ t.query next now name ∧
      t.answer = (((opening s).run desk before).answer t.query now name).1 := by
  induction moves using List.reverseRecOn generalizing c rest with
  | nil => cases hc
  | append_singleton moves move ih =>
      rw [run_concat] at hc
      cases hc' : ((opening s).run desk moves).clients[i]? with
      | none =>
          rw [journal_of_step hc' hc] at hjournal
          cases head <;> cases hjournal
      | some c' =>
          have hearlier : ∀ rest', c'.journal = head ++ t :: rest' → _ := fun rest' => ih hc'
          rcases client_step desk hc' move with ⟨hstays, -⟩ |
            ⟨query, next, now, name, rfl, hp, -, hstep⟩
          · rw [hstays] at hc
            cases hc
            obtain ⟨before, now, name, between, c₀, next, rfl, h⟩ := hearlier rest hjournal
            exact ⟨before, now, name, between ++ [move], c₀, next, by simp, h⟩
          · have hlt : i < ((opening s).run desk moves).clients.length :=
              (List.getElem?_eq_some_iff.1 hc').1
            rw [hstep] at hc
            cases (List.getElem?_set_self hlt).symm.trans hc
            rcases List.eq_nil_or_concat rest with rfl | ⟨rest', last, rfl⟩
            · obtain ⟨rfl, ht⟩ := List.append_inj' hjournal rfl
              cases ht
              exact ⟨moves, now, name, [], c', next, rfl, hc', rfl, hp, hstep, rfl⟩
            · rw [List.concat_eq_append, ← List.cons_append, ← List.append_assoc] at hjournal
              obtain ⟨hjournal', -⟩ := List.append_inj' hjournal rfl
              obtain ⟨before, now', name', between, c₀, next', rfl, h⟩ := hearlier rest' hjournal'
              exact ⟨before, now', name', between ++ [.advance i now name], c₀, next',
                by simp, h⟩

/-- The steps that a client took since some moment are answered by the system as it is
now, if they change nothing and nobody else has committed since. -/
theorem exists_since {s : System} (hc : ((opening s).run desk moves).clients[i]? = some c)
    {head rest : List Taken} {t : Taken} (hjournal : c.journal = head ++ t :: rest)
    (hidle : ∀ step ∈ t :: rest, step.IsIdle) :
    ∃ before now name between c₀ next, moves = before ++ .advance i now name :: between ∧
      ((opening s).run desk before).clients[i]? = some c₀ ∧ c₀.journal = head ∧
      c₀.process = .ask t.query next ∧
      (¬ ((opening s).run desk (before ++ [.advance i now name])).OthersCommit desk i between →
        ∀ step ∈ t :: rest, step.AnsweredBy ((opening s).run desk moves).system) := by
  obtain ⟨hidle₁, hidle₂⟩ := List.forall_mem_cons.1 hidle
  obtain ⟨before, now, name, between, c₀, next, rfl, hc₀, hhead, hask, hstep, hanswer⟩ :=
    exists_moment hc hjournal
  refine ⟨before, now, name, between, c₀, next, rfl, hc₀, hhead, hask, fun hquiet => ?_⟩
  have hrun : (opening s).run desk (before ++ .advance i now name :: between) =
      ((opening s).run desk (before ++ [.advance i now name])).run desk between := by
    rw [← run_append, List.append_assoc]
    rfl
  have hlt : i < ((opening s).run desk before).clients.length :=
    (List.getElem?_eq_some_iff.1 hc₀).1
  have htaken : (opening s).run desk (before ++ [.advance i now name]) =
      ((opening s).run desk before).take i c₀ t.query next now name := by
    rw [run_concat, hstep]
  rw [hrun, htaken] at hc ⊢
  rw [htaken] at hquiet
  obtain ⟨-, c', path, hc', hundisturbed⟩ :=
    exists_undisturbed (List.getElem?_set_self hlt) hquiet
  rw [hc] at hc'
  cases hc'
  -- What the client was told since then is the rest of its journal.
  have hsince := hundisturbed.journal
  simp only [hjournal, hhead, List.append_assoc, List.singleton_append,
    List.append_cancel_left_eq, List.cons.injEq] at hsince
  obtain rfl := hsince.2
  have hsame := hundisturbed.same hidle₂
  have hanswered := hundisturbed.answers.answeredBy hidle₂
  have hfirst := ((opening s).run desk before).answeredBy_answer t.query now name
  rw [← hanswer] at hfirst
  have hidle' : Taken.IsIdle
      ⟨t.query, (((opening s).run desk before).answer t.query now name).1⟩ := by
    rw [← hanswer]
    exact hidle₁
  have hload := sameData_of_isIdle hidle'
  exact List.forall_mem_cons.2 ⟨(hload.trans hsame).symm.answeredBy hfirst,
    fun step hm => hsame.symm.answeredBy (hanswered step hm)⟩

end Office

end Editorial
