import Editorial.Failure

/-!
# Retrying

Another writer may change a record between the load and the commit of a call.
The call then loads the record again and starts over, after a pause, until it
is through or has used up its attempts. Only a lost race is worth another
attempt: a failure ends the call at once.

The loop is the same in every monad an attempt may run in.

## Main results

* `attempts_pos` — there is at least one attempt.
-/

namespace Editorial

/-- What came of an attempt to commit. -/
inductive Attempt (α : Type) where
  | committed (value : α)
  /-- Another writer was first. -/
  | conflict
deriving DecidableEq

/-- The longest pause a timer keeps, in milliseconds: thirty years of 365 days. -/
def longestPause : Nat := 30 * 365 * 86400 * 1000

/-- How long a pause of so many milliseconds takes. -/
def pauseLength (milliseconds : Nat) : Nat := min milliseconds longestPause

/-- How often a call may start over. -/
structure Retry where
  /-- How many attempts may follow the first one. -/
  retries : UInt32
  /-- The pause before another attempt, in milliseconds. -/
  backoff : UInt64
deriving DecidableEq

namespace Retry

/-- How many attempts there are in all; their number fits 32 bits. -/
def attempts (retry : Retry) : Nat := min (retry.retries.toNat + 1) (UInt32.size - 1)

theorem attempts_pos (retry : Retry) : 0 < retry.attempts := by
  unfold attempts UInt32.size; omega

variable {α : Type} {m : Type → Type} [Monad m]

/-- Makes attempt number `n`, with `left` more to follow if it meets a
conflict, and fails with `exhausted` if all of them do. -/
def runFrom (pause : m Unit) (attempt : Nat → ExceptT Failure m (Attempt α))
    (exhausted : Failure) : (left n : Nat) → ExceptT Failure m α
  | left, n => do
      match ← attempt n with
      | .committed value => return value
      | .conflict =>
          match left with
          | 0 => throw exhausted
          | left + 1 => do
              ExceptT.lift pause
              runFrom pause attempt exhausted left (n + 1)

/-- Makes attempts at a commit for `handle`, numbered from 1, until one is not
met by a conflict. -/
def run (retry : Retry) (pause : Nat → m Unit) (handle : String)
    (attempt : Nat → ExceptT Failure m (Attempt α)) : ExceptT Failure m α :=
  runFrom (pause retry.backoff.toNat) attempt (.contention handle retry.attempts)
    (retry.attempts - 1) 1

end Retry

end Editorial
