import Editorial.Proofs.Desk.Settling
import Editorial.Proofs.Store.Commit
import Editorial.Proofs.System.Readings

/-!
# Steps answered by one system

A process that nobody disturbs is told what the system was like when it began, up to
the step with which it changes the system itself.

## Main results

* `answers_of_told` — a process that runs alone is not disturbed.
-/

namespace Editorial

namespace System

/-- The system answers the steps of a path as long as they change nothing. -/
def Answers (s : System) : List Taken → Prop
  | [] => True
  | t :: path => t.AnsweredBy s ∧ (t.IsIdle → s.Answers path)

variable {s s' : System}

theorem answers_append {path path' : List Taken} :
    s.Answers (path ++ path') ↔ s.Answers path ∧ ((∀ t ∈ path, t.IsIdle) → s.Answers path') := by
  induction path with
  | nil => simp [Answers]
  | cons t path ih =>
      simp only [List.cons_append, Answers, ih, List.forall_mem_cons]
      tauto

theorem Answers.answeredBy {path : List Taken} (h : s.Answers path)
    (hidle : ∀ t ∈ path, t.IsIdle) : ∀ t ∈ path, t.AnsweredBy s := by
  induction path with
  | nil => exact List.forall_mem_nil _
  | cons t path ih =>
      obtain ⟨ht, hrest⟩ := List.forall_mem_cons.1 hidle
      exact List.forall_mem_cons.2 ⟨h.1, ih (h.2 ht) hrest⟩

theorem SameData.answers (h : SameData s s') {path : List Taken} (hanswers : s'.Answers path) :
    s.Answers path := by
  induction path with
  | nil => trivial
  | cons t path ih => exact ⟨h.answeredBy hanswers.1, fun ht => ih (hanswers.2 ht)⟩

/-- A step that changes nothing leaves the records and folders. -/
theorem sameData_of_isIdle (mint : NameKind → Nat → String) (s : System) {query : Query}
    (h : Taken.IsIdle ⟨query, (s.answer mint query).1⟩) : SameData s (s.answer mint query).2 := by
  cases query with
  | commit changes =>
      rcases s.backend.commit_cases s.store changes with ⟨id, hc⟩ | hc
      · refine ⟨rfl, ?_, rfl⟩
        show (s.backend.commit s.store changes).2 = s.store
        rw [hc]
      · have hcommitted : (s.backend.commit s.store changes).1 = .committed := by rw [hc]
        exact absurd (congrArg Except.ok hcommitted) h
  | now | fresh kind | load id | find location | folder category container
  | pause milliseconds | log notice => exact sameData_answer mint s (by simp)

/-- A process that runs alone is not disturbed. -/
theorem answers_of_told {readings : Readings} {s s' : System × Nat} {path : List Taken}
    (ht : Process.Told (answerAt readings) s path s') : s.1.Answers path := by
  induction path generalizing s with
  | nil => trivial
  | cons t path ih =>
      obtain ⟨hanswer, hrest⟩ := ht
      have hfirst := answeredBy_answerAt readings s t.query
      rw [hanswer] at hfirst
      have hclock : SameData s.1 { s.1 with clock := readings.clock s.2 } := ⟨rfl, rfl, rfl⟩
      refine ⟨hfirst, fun hidle => ?_⟩
      have hidle' : Taken.IsIdle ⟨t.query, (answerAt readings s t.query).1⟩ := by
        rw [hanswer]
        exact hidle
      exact (hclock.trans (sameData_of_isIdle _ _ hidle')).answers (ih hrest)

end System

end Editorial
