import Editorial.Process

/-!
# Paths through a process

A process is a tree of what is done for every answer. A *path* is one way down
the tree: the steps that were taken, each with the answer it was given. What a
process may do is what it does on some path, whoever gave the answers and
however much happened between them; so a statement about all paths holds in
every surrounding and in every interleaving.

`Reaches` says where a path leads within the tree and `Leads` where it ends.
`Meets` is the matching discipline: the process asks only what it may ask, as
long as it is told only what it may be told, and ends as promised.

## Main results

* `reaches_bind_ask` — a path to a question of a sequence stays in the first
  part or goes through its end.
* `leads_bind` — a path to the end of a sequence is two paths in turn.
* `meets_bind` — the discipline of a sequence is that of its parts.
* `exists_leads_run` — what a run comes to is the end of a path.
-/

namespace Editorial

/-- A step that was taken, with the answer that was given. -/
structure Taken where
  query : Query
  answer : query.Answer

namespace Taken

/-- The time was told. -/
abbrev now (t : Instant) : Taken := ⟨.now, t⟩

/-- A new name was given out. -/
abbrev fresh (kind : NameKind) (name : String) : Taken := ⟨.fresh kind, name⟩

/-- The record `id` was loaded, if there was one. -/
abbrev load (id : String) (found : Option Stored) : Taken := ⟨.load id, .ok found⟩

/-- The record at a location was looked up. -/
abbrev find (location : Location) (found : Option String) : Taken := ⟨.find location, .ok found⟩

/-- A container was looked up. -/
abbrev folder (category container : String) (found : Option Folder) : Taken :=
  ⟨.folder category container, .ok found⟩

/-- A set of changes was committed, or met a conflict. -/
abbrev commit (changes : List Change) (verdict : Verdict) : Taken := ⟨.commit changes, .ok verdict⟩

end Taken

namespace Process

variable {α β : Type}

/-! ## Where a path leads -/

/-- The steps `path` lead from a process to what is left of it. -/
def Reaches : Process α → List Taken → Process α → Prop
  | p, [], rest => rest = p
  | p, t :: path, rest => ∃ next, p = ask t.query next ∧ (next t.answer).Reaches path rest

/-- A process that has ended with a result or has broken off. -/
def ended : Option α → Process α
  | some a => done a
  | none => broken

/-- What a process has come to if it has ended: its result, or nothing if it broke
off. -/
def ended? {α : Type} : Process α → Option (Option α)
  | done a => some (some a)
  | broken => some none
  | ask _ _ => none

theorem ended_of_ended? {α : Type} {p : Process α} {r : Option α} (h : p.ended? = some r) :
    p = ended r := by
  cases p <;> cases h <;> rfl

/-- The steps `path` lead a process to its end: to a result, or to where it
breaks off. -/
def Leads (p : Process α) (path : List Taken) (result : Option α) : Prop :=
  p.Reaches path (ended result)

@[simp] theorem reaches_nil (p rest : Process α) : p.Reaches [] rest ↔ rest = p := Iff.rfl

theorem reaches_cons (p rest : Process α) (t : Taken) (path : List Taken) :
    p.Reaches (t :: path) rest ↔
      ∃ next, p = ask t.query next ∧ (next t.answer).Reaches path rest := Iff.rfl

@[simp] theorem reaches_done (a : α) (path : List Taken) (rest : Process α) :
    (done a).Reaches path rest ↔ path = [] ∧ rest = done a := by
  cases path <;> simp [reaches_cons]

@[simp] theorem reaches_broken (path : List Taken) (rest : Process α) :
    (broken : Process α).Reaches path rest ↔ path = [] ∧ rest = broken := by
  cases path <;> simp [reaches_cons]

theorem reaches_ask (query : Query) (next : query.Answer → Process α) (path : List Taken)
    (rest : Process α) :
    (ask query next).Reaches path rest ↔
      (path = [] ∧ rest = ask query next) ∨
        ∃ answer path', path = ⟨query, answer⟩ :: path' ∧ (next answer).Reaches path' rest := by
  cases path with
  | nil => simp
  | cons t path =>
      rcases t with ⟨query', answer⟩
      rw [reaches_cons]
      constructor
      · rintro ⟨next', he, h⟩
        cases he
        exact Or.inr ⟨answer, path, rfl, h⟩
      · rintro (⟨h, -⟩ | ⟨answer', path', h, hr⟩)
        · cases h
        · cases h
          exact ⟨next, rfl, hr⟩

theorem reaches_append (p rest : Process α) (path path' : List Taken) :
    p.Reaches (path ++ path') rest ↔
      ∃ middle, p.Reaches path middle ∧ middle.Reaches path' rest := by
  induction path generalizing p with
  | nil => simp
  | cons t path ih =>
      simp only [List.cons_append, reaches_cons, ih]
      constructor
      · rintro ⟨next, hp, middle, h, h'⟩
        exact ⟨middle, ⟨next, hp, h⟩, h'⟩
      · rintro ⟨middle, ⟨next, hp, h⟩, h'⟩
        exact ⟨next, hp, middle, h, h'⟩

/-! ## Where a path ends -/

@[simp] theorem leads_done (a : α) (path : List Taken) (result : Option α) :
    (done a).Leads path result ↔ path = [] ∧ result = some a := by
  cases result <;> simp [Leads, ended]

@[simp] theorem leads_broken (path : List Taken) (result : Option α) :
    (broken : Process α).Leads path result ↔ path = [] ∧ result = none := by
  cases result <;> simp [Leads, ended]

theorem leads_ask (query : Query) (next : query.Answer → Process α) (path : List Taken)
    (result : Option α) :
    (ask query next).Leads path result ↔
      ∃ answer path', path = ⟨query, answer⟩ :: path' ∧ (next answer).Leads path' result := by
  unfold Leads
  rw [reaches_ask]
  cases result <;> simp [ended]

@[simp] theorem leads_ask_cons (query : Query) (next : query.Answer → Process α)
    (answer : query.Answer) (path : List Taken) (result : Option α) :
    (ask query next).Leads (⟨query, answer⟩ :: path) result ↔ (next answer).Leads path result := by
  rw [leads_ask]
  constructor
  · rintro ⟨answer', path', he, h⟩
    cases he
    exact h
  · intro h
    exact ⟨answer, path, rfl, h⟩

/-- A path to the end of a sequence is a path to the end of the first part and
one to the end of what follows it, or it breaks off in the first part. -/
theorem leads_bind (p : Process α) (f : α → Process β) (path : List Taken) (result : Option β) :
    (p.bind f).Leads path result ↔
      (∃ first second a, path = first ++ second ∧ p.Leads first (some a) ∧
        (f a).Leads second result) ∨ (result = none ∧ p.Leads path none) := by
  induction p generalizing path with
  | done a =>
      constructor
      · intro h
        exact Or.inl ⟨[], path, a, rfl, by simp, h⟩
      · rintro (⟨first, second, a', rfl, h, h'⟩ | ⟨-, h⟩)
        · obtain ⟨rfl, ha⟩ := (leads_done _ _ _).1 h
          cases ha
          exact h'
        · exact absurd ((leads_done _ _ _).1 h).2 (by simp)
  | broken =>
      constructor
      · intro h
        obtain ⟨rfl, rfl⟩ := (leads_broken _ _).1 h
        exact Or.inr ⟨rfl, by simp⟩
      · rintro (⟨first, second, a', rfl, h, h'⟩ | ⟨rfl, h⟩)
        · exact absurd ((leads_broken _ _).1 h).2 (by simp)
        · obtain ⟨rfl, -⟩ := (leads_broken _ _).1 h
          simp
  | ask query next ih =>
      rw [bind_ask, leads_ask]
      constructor
      · rintro ⟨answer, path', rfl, h⟩
        rcases (ih answer path').1 h with ⟨first, second, a, rfl, h₁, h₂⟩ | ⟨hr, h₁⟩
        · exact Or.inl ⟨_ :: first, second, a, rfl, (leads_ask _ _ _ _).2 ⟨_, _, rfl, h₁⟩, h₂⟩
        · exact Or.inr ⟨hr, (leads_ask _ _ _ _).2 ⟨_, _, rfl, h₁⟩⟩
      · rintro (⟨first, second, a, rfl, h₁, h₂⟩ | ⟨hr, h₁⟩)
        · obtain ⟨answer, path', rfl, h⟩ := (leads_ask _ _ _ _).1 h₁
          exact ⟨answer, path' ++ second, rfl,
            (ih answer _).2 (Or.inl ⟨path', second, a, rfl, h, h₂⟩)⟩
        · obtain ⟨answer, path', rfl, h⟩ := (leads_ask _ _ _ _).1 h₁
          exact ⟨answer, path', rfl, (ih answer _).2 (Or.inr ⟨hr, h⟩)⟩

theorem leads_bind_some (p : Process α) (f : α → Process β) (path : List Taken) (b : β) :
    (p.bind f).Leads path (some b) ↔
      ∃ first second a, path = first ++ second ∧ p.Leads first (some a) ∧
        (f a).Leads second (some b) := by
  rw [leads_bind]
  simp

/-- A process whose result is only changed in the end takes the same paths. -/
theorem leads_map (p : Process α) (f : α → β) (path : List Taken) (result : Option β) :
    (p.bind fun a => done (f a)).Leads path result ↔
      ∃ result', p.Leads path result' ∧ result = result'.map f := by
  rw [leads_bind]
  constructor
  · rintro (⟨first, second, a, rfl, h, h'⟩ | ⟨rfl, h⟩)
    · obtain ⟨rfl, rfl⟩ := (leads_done _ _ _).1 h'
      exact ⟨some a, by rwa [List.append_nil], rfl⟩
    · exact ⟨none, h, rfl⟩
  · rintro ⟨_ | a, h, rfl⟩
    · exact Or.inr ⟨rfl, h⟩
    · exact Or.inl ⟨path, [], a, by simp, h, by simp⟩

/-- A path to a question of a sequence stays in the first part, or it goes
through the end of the first part into what follows. -/
theorem reaches_bind_ask (p : Process α) (f : α → Process β) (path : List Taken) (query : Query)
    (next : query.Answer → Process β) :
    (p.bind f).Reaches path (ask query next) ↔
      (∃ next', p.Reaches path (ask query next') ∧ next = fun answer => (next' answer).bind f) ∨
        ∃ first second a, path = first ++ second ∧ p.Leads first (some a) ∧
          (f a).Reaches second (ask query next) := by
  induction p generalizing path with
  | done a =>
      constructor
      · intro h
        exact Or.inr ⟨[], path, a, rfl, by simp, h⟩
      · rintro (⟨next', h, -⟩ | ⟨first, second, a', rfl, h, h'⟩)
        · exact absurd ((reaches_done _ _ _).1 h).2 (by simp)
        · obtain ⟨rfl, ha⟩ := (leads_done _ _ _).1 h
          cases ha
          exact h'
  | broken =>
      constructor
      · intro h
        exact absurd ((reaches_broken _ _).1 h).2 (by simp)
      · rintro (⟨next', h, -⟩ | ⟨first, second, a', rfl, h, h'⟩)
        · exact absurd ((reaches_broken _ _).1 h).2 (by simp)
        · exact absurd ((leads_broken _ _).1 h).2 (by simp)
  | ask query' next' ih =>
      rw [bind_ask, reaches_ask]
      constructor
      · rintro (⟨rfl, h⟩ | ⟨answer, path', rfl, h⟩)
        · cases h
          exact Or.inl ⟨next', by simp, rfl⟩
        · rcases (ih answer path').1 h with ⟨n, h₁, hn⟩ | ⟨first, second, a, rfl, h₁, h₂⟩
          · exact Or.inl ⟨n, (reaches_ask _ _ _ _).2 (Or.inr ⟨_, _, rfl, h₁⟩), hn⟩
          · exact Or.inr ⟨_ :: first, second, a, rfl, (leads_ask _ _ _ _).2 ⟨_, _, rfl, h₁⟩, h₂⟩
      · rintro (⟨n, h, hn⟩ | ⟨first, second, a, rfl, h₁, h₂⟩)
        · rcases (reaches_ask _ _ _ _).1 h with ⟨rfl, he⟩ | ⟨answer, path', rfl, h'⟩
          · cases he
            exact Or.inl ⟨rfl, by rw [hn]⟩
          · exact Or.inr ⟨answer, path', rfl, (ih answer _).2 (Or.inl ⟨n, h', hn⟩)⟩
        · obtain ⟨answer, path', rfl, h⟩ := (leads_ask _ _ _ _).1 h₁
          exact Or.inr ⟨answer, path' ++ second, rfl,
            (ih answer _).2 (Or.inr ⟨path', second, a, rfl, h, h₂⟩)⟩

/-! ## Disciplined processes -/

/-- As long as the process is told only what `told` admits, it asks only what
`asks` admits, and its end is as `post` says, where `none` stands for breaking
off. -/
def Meets (asks : Query → Prop) (told : Taken → Prop) (post : Option α → Prop) :
    Process α → Prop
  | done a => post (some a)
  | broken => post none
  | ask query next =>
      asks query ∧ ∀ answer, told ⟨query, answer⟩ → (next answer).Meets asks told post

section

variable {asks : Query → Prop} {told : Taken → Prop} {post : Option α → Prop}

@[simp] theorem meets_done (a : α) : (done a).Meets asks told post ↔ post (some a) := Iff.rfl

@[simp] theorem meets_broken : (broken : Process α).Meets asks told post ↔ post none := Iff.rfl

@[simp] theorem meets_ask (query : Query) (next : query.Answer → Process α) :
    (ask query next).Meets asks told post ↔
      asks query ∧ ∀ answer, told ⟨query, answer⟩ → (next answer).Meets asks told post := Iff.rfl

/-- The discipline of a sequence is that of its parts. -/
theorem meets_bind (p : Process α) (f : α → Process β) {post : Option β → Prop} :
    (p.bind f).Meets asks told post ↔
      p.Meets asks told fun
        | some a => (f a).Meets asks told post
        | none => post none := by
  induction p with
  | done a => rfl
  | broken => rfl
  | ask query next ih => simp only [bind_ask, meets_ask, ih]

theorem Meets.mono {p : Process α} {post' : Option α → Prop} (h : p.Meets asks told post)
    (hpost : ∀ r, post r → post' r) : p.Meets asks told post' := by
  induction p with
  | done a => exact hpost _ h
  | broken => exact hpost _ h
  | ask query next ih => exact ⟨h.1, fun answer ht => ih answer (h.2 answer ht)⟩

theorem Meets.mono_asks {p : Process α} {asks' : Query → Prop} (h : p.Meets asks told post)
    (hasks : ∀ query, asks query → asks' query) : p.Meets asks' told post := by
  induction p with
  | done a => exact h
  | broken => exact h
  | ask query next ih => exact ⟨hasks _ h.1, fun answer ht => ih answer (h.2 answer ht)⟩

/-- A process that asks on no path what it may not ask is disciplined. -/
theorem meets_of_reaches {p : Process α}
    (h : ∀ path query next, p.Reaches path (ask query next) → (∀ t ∈ path, told t) → asks query) :
    p.Meets asks told fun _ => True := by
  induction p with
  | done a => trivial
  | broken => trivial
  | ask query next ih =>
      refine ⟨h [] query next rfl (List.forall_mem_nil _), fun answer ht => ih answer ?_⟩
      intro path query' next' hr hpath
      exact h (⟨query, answer⟩ :: path) query' next' ⟨next, rfl, hr⟩
        (List.forall_mem_cons.2 ⟨ht, hpath⟩)

/-- A disciplined process asks nothing that it may not ask. -/
theorem Meets.asks_of_reaches {p : Process α} {path : List Taken} {query : Query}
    {next : query.Answer → Process α} (h : p.Meets asks told post)
    (hr : p.Reaches path (ask query next)) (ht : ∀ t ∈ path, told t) : asks query := by
  induction path generalizing p with
  | nil =>
      rw [reaches_nil] at hr
      subst hr
      exact h.1
  | cons t path ih =>
      obtain ⟨next', rfl, hr'⟩ := hr
      exact ih (h.2 t.answer (ht t (by simp))) hr' fun t' hm => ht t' (by simp [hm])

/-- Nor has it asked anything on its way that it may not ask. -/
theorem Meets.asks_of_mem {p rest : Process α} {path : List Taken}
    (h : p.Meets asks told post) (hr : p.Reaches path rest) (ht : ∀ t ∈ path, told t) :
    ∀ t ∈ path, asks t.query := by
  induction path generalizing p with
  | nil =>
      intro t hm
      cases hm
  | cons t path ih =>
      obtain ⟨next', rfl, hr'⟩ := hr
      intro t' hm
      rcases List.mem_cons.1 hm with rfl | hm
      · exact h.1
      · have hnext := h.2 t.answer (ht t (List.mem_cons_self ..))
        exact ih hnext hr' (fun t' hm' => ht t' (List.mem_cons_of_mem _ hm')) t' hm

/-- A disciplined process ends as promised. -/
theorem Meets.post_of_leads {p : Process α} {path : List Taken} {result : Option α}
    (h : p.Meets asks told post) (hl : p.Leads path result) (ht : ∀ t ∈ path, told t) :
    post result := by
  induction path generalizing p with
  | nil =>
      have hp : ended result = p := hl
      subst hp
      cases result <;> exact h
  | cons t path ih =>
      obtain ⟨next', rfl, hr'⟩ := hl
      exact ih (h.2 t.answer (ht t (by simp))) hr' fun t' hm => ht t' (by simp [hm])

end

/-! ## Runs -/

variable {σ : Type}

/-- The steps of a path are answered by `answer` in turn, from the state `s` to
the state `s'`. -/
def Told (answer : σ → (query : Query) → query.Answer × σ) : σ → List Taken → σ → Prop
  | s, [], s' => s' = s
  | s, t :: path, s' =>
      (answer s t.query).1 = t.answer ∧ Told answer (answer s t.query).2 path s'

/-- A path in two parts is answered up to some state and from there on. -/
theorem told_append {answer : σ → (query : Query) → query.Answer × σ} {s s'' : σ}
    {path path' : List Taken} :
    Told answer s (path ++ path') s'' ↔
      ∃ s', Told answer s path s' ∧ Told answer s' path' s'' := by
  induction path generalizing s with
  | nil => exact ⟨fun h => ⟨s, rfl, h⟩, fun ⟨_, he, h⟩ => he ▸ h⟩
  | cons t path ih =>
      simp only [List.cons_append, Told, ih]
      exact ⟨fun ⟨ht, s', h, h'⟩ => ⟨s', ⟨ht, h⟩, h'⟩, fun ⟨s', ⟨ht, h⟩, h'⟩ => ⟨ht, s', h, h'⟩⟩

/-- What a run comes to is the end of a path whose steps it answered. -/
theorem exists_leads_run (answer : σ → (query : Query) → query.Answer × σ) (p : Process α)
    (s : σ) :
    ∃ path, p.Leads path (p.run answer s).1 ∧ Told answer s path (p.run answer s).2 := by
  induction p generalizing s with
  | done a => exact ⟨[], by simp [run], rfl⟩
  | broken => exact ⟨[], by simp [run], rfl⟩
  | ask query next ih =>
      obtain ⟨path, hl, ht⟩ := ih (answer s query).1 (answer s query).2
      exact ⟨⟨query, (answer s query).1⟩ :: path, ⟨next, rfl, hl⟩, rfl, ht⟩

/-- A run that answers the steps of a path goes on from where the path leads. -/
theorem run_of_reaches (answer : σ → (query : Query) → query.Answer × σ) {p rest : Process α}
    {path : List Taken} {s s' : σ} (hr : p.Reaches path rest) (ht : Told answer s path s') :
    p.run answer s = rest.run answer s' := by
  induction path generalizing p s with
  | nil =>
      rw [reaches_nil] at hr
      cases ht
      rw [hr]
  | cons t path ih =>
      obtain ⟨next, rfl, hr'⟩ := hr
      rw [run, ht.1]
      exact ih hr' ht.2

end Process

end Editorial
