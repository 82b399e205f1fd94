import Editorial.Retry
import Mathlib.Data.List.Range

/-!
# The retry loop

The loop has three ways out, and it skips the pause before the one it takes. What it
returns depends on the first attempt that is not met by a conflict, if there is one
among those it may make; the attempts after that one are never made, however they
would end.

An attempt may do anything to the world around it, and so may whoever else is at work
during a pause. So attempt number `n` has no outcome of its own: it has one in the
world that the rounds before it left behind, which is what `Trial.found` computes. To
say which attempts and pauses were made, and in what order, a `Ledger` is kept beside
the world. It is nothing the loop knows of: a trial with its ledger is a trial again.

## Main results

* `Trial.run_of_first?`, `Trial.run_of_first?_eq_none` — what the loop returns, and the
  world it leaves.
* `retry_loop` — the same with the attempts and pauses that were made.
-/

namespace Editorial.Retry

variable {α σ : Type}

/-- The attempts and pauses that a loop makes, each of them a step of one world. -/
structure Trial (α σ : Type) where
  attempt : Nat → ExceptT Failure (StateM σ) (Attempt α)
  pause : Nat → StateM σ Unit

/-- What the loop returns after an attempt with this outcome, if it ends there. -/
def answer? : Except Failure (Attempt α) → Option (Except Failure α)
  | .ok (.committed value) => some (.ok value)
  | .ok .conflict => none
  | .error failure => some (.error failure)

/-! ## What the loop returns -/

namespace Trial

variable (trial : Trial α σ) (backoff : Nat) (w : σ)

/-- The world after `k` attempts from `w` on, each of them with the pause after it. -/
def found : Nat → σ
  | 0 => w
  | k + 1 => ((trial.pause backoff).run ((trial.attempt (k + 1)).run.run (found k)).2).2

/-- How attempt number `n` ends, and the world it leaves, if it is made. -/
def ends (n : Nat) : Except Failure (Attempt α) × σ :=
  (trial.attempt n).run.run (trial.found backoff w (n - 1))

/-- Whether the loop ends with attempt number `n`, if it is made. -/
def decides (n : Nat) : Bool := (answer? (trial.ends backoff w n).1).isSome

/-- The first of so many attempts with which the loop ends. -/
def first? (attempts : Nat) : Option Nat :=
  (List.range' 1 attempts).find? (trial.decides backoff w)

/-! ### One round -/

theorem run_bind {β γ : Type} (act : ExceptT Failure (StateM σ) β)
    (next : β → ExceptT Failure (StateM σ) γ) (w : σ) :
    (act >>= next).run.run w =
      match act.run.run w with
      | (.ok b, w') => (next b).run.run w'
      | (.error failure, w') => (.error failure, w') := by
  show (match act.run.run w with | (outcome, w') => (ExceptT.bindCont next outcome).run w') = _
  rcases act.run.run w with ⟨_ | _, _⟩ <;> rfl

section Round

variable {trial : Trial α σ} {backoff : Nat} {w : σ} {exhausted : Failure} {k : Nat}

theorem run_attempt (trial : Trial α σ) (backoff : Nat) (w : σ) (k : Nat) :
    (trial.attempt (k + 1)).run.run (trial.found backoff w k) = trial.ends backoff w (k + 1) := rfl

theorem found_succ (trial : Trial α σ) (backoff : Nat) (w : σ) (k : Nat) :
    trial.found backoff w (k + 1) =
      ((trial.pause backoff).run (trial.ends backoff w (k + 1)).2).2 := rfl

/-- An attempt that is not met by a conflict is the last step of the loop. -/
theorem runFrom_of_answer {result : Except Failure α}
    (h : answer? (trial.ends backoff w (k + 1)).1 = some result) (left : Nat) :
    (runFrom (trial.pause backoff) trial.attempt exhausted left (k + 1)).run.run
        (trial.found backoff w k) =
      (result, (trial.ends backoff w (k + 1)).2) := by
  unfold runFrom
  rw [run_bind, run_attempt]
  generalize trial.ends backoff w (k + 1) = ended at h
  obtain ⟨_ | _ | _, w'⟩ := ended
  · cases h
    rfl
  · cases h
    rfl
  · cases h

theorem runFrom_zero_of_conflict (h : answer? (trial.ends backoff w (k + 1)).1 = none) :
    (runFrom (trial.pause backoff) trial.attempt exhausted 0 (k + 1)).run.run
        (trial.found backoff w k) =
      (.error exhausted, (trial.ends backoff w (k + 1)).2) := by
  unfold runFrom
  rw [run_bind, run_attempt]
  generalize trial.ends backoff w (k + 1) = ended at h
  obtain ⟨_ | _ | _, w'⟩ := ended
  · cases h
  · cases h
  · rfl

/-- After a conflict there is a pause, and then the next round. -/
theorem runFrom_succ_of_conflict (h : answer? (trial.ends backoff w (k + 1)).1 = none)
    (left : Nat) :
    (runFrom (trial.pause backoff) trial.attempt exhausted (left + 1) (k + 1)).run.run
        (trial.found backoff w k) =
      (runFrom (trial.pause backoff) trial.attempt exhausted left (k + 2)).run.run
        (trial.found backoff w (k + 1)) := by
  rw [found_succ]
  conv_lhs => unfold runFrom
  rw [run_bind, run_attempt]
  generalize trial.ends backoff w (k + 1) = ended at h
  obtain ⟨_ | _ | _, w'⟩ := ended
  · cases h
  · cases h
  · rfl

end Round

/-! ### All rounds -/

section Rounds

variable {trial : Trial α σ} {backoff : Nat} {w : σ} {exhausted : Failure} {left k : Nat}

theorem runFrom_of_find? {n : Nat} {result : Except Failure α}
    (hfirst : (List.range' (k + 1) (left + 1)).find? (trial.decides backoff w) = some n)
    (hresult : answer? (trial.ends backoff w n).1 = some result) :
    (runFrom (trial.pause backoff) trial.attempt exhausted left (k + 1)).run.run
        (trial.found backoff w k) =
      (result, (trial.ends backoff w n).2) := by
  induction left generalizing k with
  | zero =>
      obtain rfl : n = k + 1 := by simpa using List.mem_of_find?_eq_some hfirst
      exact runFrom_of_answer hresult 0
  | succ left ih =>
      rw [List.range'_succ, List.find?_cons] at hfirst
      split at hfirst
      · cases hfirst
        exact runFrom_of_answer hresult (left + 1)
      · rename_i hconflict
        have hnone : answer? (trial.ends backoff w (k + 1)).1 = none := by
          simpa [decides] using hconflict
        rw [runFrom_succ_of_conflict hnone]
        exact ih hfirst

theorem runFrom_of_find?_eq_none
    (hnone : (List.range' (k + 1) (left + 1)).find? (trial.decides backoff w) = none) :
    (runFrom (trial.pause backoff) trial.attempt exhausted left (k + 1)).run.run
        (trial.found backoff w k) =
      (.error exhausted, (trial.ends backoff w (k + 1 + left)).2) := by
  have hconflicts : ∀ n, k < n → n < k + 1 + (left + 1) →
      answer? (trial.ends backoff w n).1 = none := by
    intro n hlo hhi
    have hn := List.find?_eq_none.1 hnone n (List.mem_range'_1.2 ⟨hlo, hhi⟩)
    simpa [decides] using hn
  clear hnone
  induction left generalizing k with
  | zero => exact runFrom_zero_of_conflict (hconflicts (k + 1) (by omega) (by omega))
  | succ left ih =>
      rw [runFrom_succ_of_conflict (hconflicts (k + 1) (by omega) (by omega)),
        show k + 1 + (left + 1) = k + 1 + 1 + left by omega]
      exact ih fun n hlo hhi => hconflicts n (by omega) (by omega)

end Rounds

/-- How the loop ends and the world it leaves, if it ends with attempt number `n`. -/
theorem run_of_first? {retry : Retry} (handle : String) {trial : Trial α σ} {w : σ} {n : Nat}
    {result : Except Failure α}
    (hfirst : trial.first? retry.backoff.toNat w retry.attempts = some n)
    (hresult : answer? (trial.ends retry.backoff.toNat w n).1 = some result) :
    (retry.run trial.pause handle trial.attempt).run.run w =
      (result, (trial.ends retry.backoff.toNat w n).2) := by
  have hpos := retry.attempts_pos
  refine runFrom_of_find? (k := 0) ?_ hresult
  rwa [Nat.sub_add_cancel hpos]

/-- How the loop ends and the world it leaves, if all attempts are met by conflicts. -/
theorem run_of_first?_eq_none {retry : Retry} (handle : String) {trial : Trial α σ} {w : σ}
    (hnone : trial.first? retry.backoff.toNat w retry.attempts = none) :
    (retry.run trial.pause handle trial.attempt).run.run w =
      (.error (.contention handle retry.attempts),
        (trial.ends retry.backoff.toNat w retry.attempts).2) := by
  have hpos := retry.attempts_pos
  have hnone' : (List.range' (0 + 1) (retry.attempts - 1 + 1)).find?
      (trial.decides retry.backoff.toNat w) = none := by
    rwa [Nat.sub_add_cancel hpos]
  have hrun : (runFrom (trial.pause retry.backoff.toNat) trial.attempt
      (.contention handle retry.attempts) (retry.attempts - 1) (0 + 1)).run.run w =
        (.error (.contention handle retry.attempts),
          (trial.ends retry.backoff.toNat w (0 + 1 + (retry.attempts - 1))).2) :=
    runFrom_of_find?_eq_none hnone'
  rwa [Nat.zero_add, Nat.add_sub_cancel' hpos] at hrun

end Trial

/-! ## The turns of the loop -/

/-- A step of the loop. -/
inductive Turn where
  | attempt (n : Nat)
  | pause (milliseconds : Nat)
deriving DecidableEq

namespace Turn

def attempt? : Turn → Option Nat
  | attempt n => some n
  | pause _ => none

def pause? : Turn → Option Nat
  | attempt _ => none
  | pause milliseconds => some milliseconds

/-- So many attempts, numbered from 1, with a pause between each two of them. -/
def schedule (backoff attempts : Nat) : List Turn :=
  ((List.range' 1 attempts).map attempt).intersperse (pause backoff)

/-- So many attempts, each of them with a pause after it. -/
def rounds (backoff attempts : Nat) : List Turn :=
  (List.range' 1 attempts).flatMap fun n => [attempt n, pause backoff]

theorem rounds_succ (backoff k : Nat) :
    rounds backoff (k + 1) = rounds backoff k ++ [attempt (k + 1)] ++ [pause backoff] := by
  unfold rounds
  rw [List.range'_1_concat, List.flatMap_append, Nat.add_comm 1 k]
  simp

/-- The last attempt is the one without a pause after it. -/
theorem intersperse_attempts (backoff start k : Nat) :
    ((List.range' start (k + 1)).map attempt).intersperse (pause backoff) =
      ((List.range' start k).flatMap fun n => [attempt n, pause backoff]) ++
        [attempt (start + k)] := by
  induction k generalizing start with
  | zero => rfl
  | succ k ih =>
      rw [List.range'_succ, List.map_cons, List.range'_succ, List.map_cons,
        List.intersperse_cons_cons, ← List.map_cons, ← List.range'_succ, ih, List.range'_succ,
        List.flatMap_cons, Nat.add_right_comm]
      rfl

theorem schedule_succ (backoff k : Nat) :
    schedule backoff (k + 1) = rounds backoff k ++ [attempt (k + 1)] := by
  unfold schedule rounds
  rw [intersperse_attempts, Nat.add_comm 1 k]

theorem attempts_rounds (backoff k : Nat) :
    (rounds backoff k).filterMap attempt? = List.range' 1 k := by
  induction k with
  | zero => rfl
  | succ k ih =>
      rw [rounds_succ, List.filterMap_append, List.filterMap_append, ih, List.range'_1_concat,
        Nat.add_comm 1 k]
      simp [attempt?]

theorem pauses_rounds (backoff k : Nat) :
    (rounds backoff k).filterMap pause? = List.replicate k backoff := by
  induction k with
  | zero => rfl
  | succ k ih =>
      rw [rounds_succ, List.filterMap_append, List.filterMap_append, ih, List.replicate_succ']
      simp [pause?]

/-- A schedule has its attempts in order, each of them once. -/
theorem attempts_schedule (backoff k : Nat) :
    (schedule backoff k).filterMap attempt? = List.range' 1 k := by
  cases k with
  | zero => rfl
  | succ k =>
      rw [schedule_succ, List.filterMap_append, attempts_rounds, List.range'_1_concat,
        Nat.add_comm 1 k]
      rfl

/-- A schedule has one pause less than attempts. -/
theorem pauses_schedule (backoff k : Nat) :
    (schedule backoff k).filterMap pause? = List.replicate (k - 1) backoff := by
  cases k with
  | zero => rfl
  | succ k =>
      rw [schedule_succ, List.filterMap_append, pauses_rounds]
      exact List.append_nil _

end Turn

/-! ## A world with a ledger -/

/-- A world and the turns that led to it. -/
structure Ledger (σ : Type) where
  world : σ
  turns : List Turn

/-- An act that is entered in the ledger. -/
def noting {β : Type} (turn : Turn) (act : StateM σ β) : StateM (Ledger σ) β := fun ledger =>
  ((act.run ledger.world).1, ⟨(act.run ledger.world).2, ledger.turns ++ [turn]⟩)

namespace Trial

/-- The trial with each attempt and each pause entered in a ledger. -/
def noted (trial : Trial α σ) : Trial α (Ledger σ) where
  attempt n := ExceptT.mk (noting (.attempt n) (trial.attempt n).run)
  pause milliseconds := noting (.pause milliseconds) (trial.pause milliseconds)

variable (trial : Trial α σ) (backoff : Nat) (w : σ)

theorem found_noted (k : Nat) :
    trial.noted.found backoff ⟨w, []⟩ k = ⟨trial.found backoff w k, Turn.rounds backoff k⟩ := by
  induction k with
  | zero => rfl
  | succ k ih =>
      rw [Turn.rounds_succ]
      unfold found
      rw [ih]
      rfl

theorem ends_noted (n : Nat) :
    trial.noted.ends backoff ⟨w, []⟩ n =
      ((trial.ends backoff w n).1,
        ⟨(trial.ends backoff w n).2, Turn.rounds backoff (n - 1) ++ [.attempt n]⟩) := by
  unfold ends
  rw [found_noted]
  rfl

theorem first?_noted (attempts : Nat) :
    trial.noted.first? backoff ⟨w, []⟩ attempts = trial.first? backoff w attempts := by
  have hdecides : trial.noted.decides backoff ⟨w, []⟩ = trial.decides backoff w := by
    funext n
    unfold decides
    rw [ends_noted]
  unfold first?
  rw [hdecides]

end Trial

/-! ## The loop -/

/-- How a loop runs that makes `k` attempts: what it returns, the world it leaves, and
which attempts and pauses it made. -/
structure Runs (retry : Retry) (handle : String) (trial : Trial α σ) (w : σ) (k : Nat)
    (result : Except Failure α) : Prop where
  returns : (retry.run trial.pause handle trial.attempt).run.run w =
    (result, (trial.ends retry.backoff.toNat w k).2)
  inTurn : ∃ turns, (retry.run trial.noted.pause handle trial.noted.attempt).run.run ⟨w, []⟩ =
      (result, ⟨(trial.ends retry.backoff.toNat w k).2, turns⟩) ∧
    turns = Turn.schedule retry.backoff.toNat k ∧
    turns.filterMap Turn.attempt? = List.range' 1 k ∧
    turns.filterMap Turn.pause? = List.replicate (k - 1) retry.backoff.toNat

theorem Runs.of_ends {retry : Retry} {handle : String} {trial : Trial α σ} {w : σ} {k : Nat}
    {result : Except Failure α} (hk : 0 < k)
    (hplain : (retry.run trial.pause handle trial.attempt).run.run w =
      (result, (trial.ends retry.backoff.toNat w k).2))
    (hnoted : (retry.run trial.noted.pause handle trial.noted.attempt).run.run ⟨w, []⟩ =
      (result, (trial.noted.ends retry.backoff.toNat ⟨w, []⟩ k).2)) :
    retry.Runs handle trial w k result := by
  refine ⟨hplain, _, ?_, rfl, Turn.attempts_schedule _ k, Turn.pauses_schedule _ k⟩
  cases k with
  | zero => cases hk
  | succ k => rw [hnoted, Trial.ends_noted, Turn.schedule_succ, Nat.add_sub_cancel]

/-- The loop ends with the first attempt that is not met by a conflict, and returns what
that attempt ended with; it fails for contention if there is none. -/
theorem retry_loop (retry : Retry) (handle : String) (trial : Trial α σ) (w : σ) :
    match trial.first? retry.backoff.toNat w retry.attempts with
    | some k => ∃ result, answer? (trial.ends retry.backoff.toNat w k).1 = some result ∧
        retry.Runs handle trial w k result
    | none => retry.Runs handle trial w retry.attempts
        (.error (.contention handle retry.attempts)) := by
  cases hfirst : trial.first? retry.backoff.toNat w retry.attempts with
  | some k =>
      have hk : 0 < k := (List.mem_range'_1.1 (List.mem_of_find?_eq_some hfirst)).1
      have hdecides : trial.decides retry.backoff.toNat w k = true := List.find?_some hfirst
      obtain ⟨result, hresult⟩ := Option.isSome_iff_exists.1 hdecides
      refine ⟨result, hresult, .of_ends hk (Trial.run_of_first? handle hfirst hresult) ?_⟩
      refine Trial.run_of_first? handle ?_ ?_
      · rw [Trial.first?_noted, hfirst]
      · rw [Trial.ends_noted, hresult]
  | none =>
      refine .of_ends retry.attempts_pos (Trial.run_of_first?_eq_none handle hfirst) ?_
      refine Trial.run_of_first?_eq_none handle ?_
      rw [Trial.first?_noted, hfirst]

/-- The number of attempts stops at the end of its type. -/
example (backoff : UInt64) : (Retry.mk 4294967295 backoff).attempts = 4294967295 := rfl

end Editorial.Retry
