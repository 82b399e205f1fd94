import Editorial.Desk.Call
import Editorial.Store.Backend

/-!
# Systems

What the processes of a desk share: the store, the registered containers, the
event log, the clock and a supply of new names. `System.answer` is how a system
in good order answers each step; a process that runs alone is run with it.
-/

namespace Editorial

/-- What processes share. -/
structure System where
  backend : Backend := .whole
  store : Store := .empty
  folders : Folders := .empty
  log : EventLog := .empty EventLog.defaultCapacity
  clock : Instant := .epoch
  /-- How many new names were given out. -/
  minted : Nat := 0

namespace System

/-- Answers a step, where `mint` tells the names to give out. -/
def answer (mint : NameKind → Nat → String) (s : System) :
    (query : Query) → query.Answer × System
  | .now => (s.clock, s)
  | .fresh kind => (mint kind s.minted, { s with minted := s.minted + 1 })
  | .load id => (s.backend.load s.store id, s)
  | .find location => (.ok (s.store.find? location), s)
  | .folder category container => (.ok (s.folders.folder? category container), s)
  | .commit changes =>
      let (verdict, store) := s.backend.commit s.store changes
      (.ok verdict, { s with store := store })
  | .pause _ => ((), s)
  | .log notice => ((), { s with log := (s.log.append notice).2 })

/-- Runs a process alone. Nothing is answered if it breaks off. -/
def run {α : Type} (mint : NameKind → Nat → String) (p : Process α) (s : System) :
    Option α × System :=
  p.run (answer mint) s

end System

end Editorial
