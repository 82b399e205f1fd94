import Editorial.Proofs.Text.Digits

/-!
# Scans with alternatives

A reader that tries several forms in turn reads a text in one of them only if all forms before
it fail there. Following such a reader through a text therefore takes as many failures as
successes, and the failures are what is collected here: a scan that fails is `none` on the
text, and from there on `orElse_of_none`, `maybe_of_none` and `many_of_none` say what the reader
does instead.

## Main results

* `word_of_not_isPrefix` — a word is not found in a text that does not start with it.
* `many_flatMap` — a loop reads back as many items as were written one after the other.
-/

namespace Editorial.Text.Scan

variable {α β : Type} {cs rest : List Char} {p q : Scan α}

/-! ## Failing -/

/-- A scan fails where its first part does. -/
theorem eval_bind_none {first : Scan α} {next : α → Scan β} (h : first cs = none) :
    (first >>= next) cs = none := by
  show (first cs).bind _ = _
  rw [h]
  rfl

theorem guard_of_not {prop : Prop} [Decidable prop] (h : ¬ prop) (cs : List Char) :
    (guard prop : Scan Unit) cs = none := by
  rw [guard, if_neg h]
  rfl

theorem char_of_ne {c : Char} (h : cs.head? ≠ some c) : char c cs = none := by
  cases cs with
  | nil => rfl
  | cons d rest =>
      have hne : d ≠ c := by simpa using h
      rw [char, if_neg hne]

/-- A word is not found in a text that does not start with it. -/
theorem word_of_not_isPrefix {s : String} (h : ¬ s.toList <+: cs) : word s cs = none := by
  have hlist (w cs : List Char) (h : ¬ w <+: cs) : (w.forM char : Scan PUnit) cs = none := by
    induction w generalizing cs with
    | nil => exact absurd List.nil_prefix h
    | cons c w ih =>
        cases cs with
        | nil => exact eval_bind_none rfl
        | cons d rest =>
            by_cases hc : d = c
            · subst hc
              have hrest : ¬ w <+: rest := by simpa using h
              exact (eval_bind (char_cons d rest)).trans (ih rest hrest)
            · exact eval_bind_none (char_of_ne (by simpa using hc))
  exact hlist _ _ h

theorem run1_of_stops {p : Char → Bool} (h : Stops p cs) : run1 p cs = none := by
  have hrun : run p ([] ++ cs) = some ([], cs) := run_append (by simp) h
  rw [run1, ← List.nil_append cs, eval_bind hrun]
  exact eval_bind_none (guard_of_not (by simp) cs)

theorem takeIf_of_stops {p : Char → Bool} (h : Stops p cs) : takeIf p cs = some (none, cs) := by
  cases cs with
  | nil => rfl
  | cons c rest =>
      have hc : p c = false := stops_cons.1 h
      rw [takeIf, hc]
      rfl

/-! ## Going on -/

/-- Of two forms the second is read where the first is not there. -/
theorem orElse_of_none (h : p cs = none) : (p <|> q) cs = q cs := by
  show (p cs).orElse _ = _
  rw [h]
  rfl

/-- Of two forms the first is read where it is there. -/
theorem orElse_of_some {a : α} (h : p cs = some (a, rest)) : (p <|> q) cs = some (a, rest) := by
  show (p cs).orElse _ = _
  rw [h]
  rfl

theorem maybe_of_none (h : p cs = none) : maybe p cs = some (none, cs) := by
  rw [maybe, h]

theorem maybe_of_some {a : α} (h : p cs = some (a, rest)) :
    maybe p cs = some (some a, rest) := by
  rw [maybe, h]

theorem many_of_none (h : p cs = none) (bound : Nat) : many p bound cs = some ([], cs) := by
  cases bound with
  | zero => rfl
  | succ bound => exact eval_bind (maybe_of_none h)

/-- Of items that are not written as nothing there are no more than characters. -/
theorem length_le_length_flatMap {write : α → List Char} (h : ∀ a, write a ≠ []) (items : List α) :
    items.length ≤ (items.flatMap write).length := by
  induction items with
  | nil => simp
  | cons a items ih =>
      have hone := List.length_pos_iff.2 (h a)
      rw [List.flatMap_cons, List.length_append, List.length_cons]
      omega

/-- A loop reads back as many items as were written one after the other. -/
theorem many_flatMap {write : α → List Char} {items : List α} {bound : Nat}
    (hread : ∀ a rest, p (write a ++ rest) = some (a, rest)) (hend : p rest = none)
    (hbound : items.length ≤ bound) :
    many p bound (items.flatMap write ++ rest) = some (items, rest) := by
  -- The number of the round does not matter to a loop that reads the same in all of them.
  have hfrom (i : Nat) :
      manyFrom (fun _ => p) bound i (items.flatMap write ++ rest) = some (items, rest) := by
    induction items generalizing bound i with
    | nil =>
        cases bound with
        | zero => rfl
        | succ bound => exact eval_bind (maybe_of_none hend)
    | cons a items ih =>
        obtain ⟨bound, rfl⟩ : ∃ fewer, bound = fewer + 1 :=
          ⟨bound - 1, by simp only [List.length_cons] at hbound; omega⟩
        have hfewer : items.length ≤ bound := by simpa using hbound
        rw [List.flatMap_cons, List.append_assoc]
        refine (eval_bind (maybe_of_some (hread a _))).trans ?_
        exact eval_bind (ih hfewer (i + 1))
  exact hfrom 0

end Editorial.Text.Scan
