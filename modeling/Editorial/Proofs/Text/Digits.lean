import Editorial.Text.Scan
import Mathlib.Algebra.Group.Nat.Defs
import Mathlib.Tactic.Common

/-!
# Scanning what was written

A scan that takes as much as it can, such as the one for a run of digits, reads
back what was written only if the text does not go on with more of the same.
What comes after is therefore part of every statement here: `Stops p rest` says
that a run of `p` ends before `rest`.

`Scan.eval_bind` evaluates a scan on a text step by step. The scans of instants
are followed with it through the text of an instant.

## Main results

* `ofDigits_padded` — a number is read back from its digits, however many zeros
  stand before them.
* `Scan.number_padded` — the scan for a number finds all of its digits, whatever
  follows that is no digit.
-/

namespace Editorial.Text

/-! ## Digits -/

theorem isDigit_of_mem_padded {width n : Nat} {c : Char} (h : c ∈ padded width n) :
    c.isDigit = true := by
  rw [padded, List.mem_append] at h
  cases h with
  | inl hzero => rw [List.eq_of_mem_replicate hzero]; decide
  | inr hdigit => exact Nat.isDigit_of_mem_toDigits (by decide) (by decide) hdigit

theorem padded_ne_nil (width n : Nat) : padded width n ≠ [] := by
  simp [padded]

theorem length_padded {width n : Nat} (hwidth : 0 < width) (h : n < 10 ^ width) :
    (padded width n).length = width := by
  have hle : (Nat.toDigits 10 n).length ≤ width :=
    (Nat.length_toDigits_le_iff (by decide) hwidth).2 h
  simp only [padded, List.length_append, List.length_replicate]
  omega

theorem ofDigits_eq (cs : List Char) : ofDigits cs = Nat.ofDigitChars 10 cs 0 := rfl

theorem ofDigits_replicate_zero_append (count : Nat) (cs : List Char) :
    ofDigits (List.replicate count '0' ++ cs) = ofDigits cs := by
  induction count with
  | zero => rfl
  | succ count ih => exact ih

/-- A number is read back from its digits. -/
theorem ofDigits_padded (width n : Nat) : ofDigits (padded width n) = n := by
  rw [padded, ofDigits_replicate_zero_append, ofDigits_eq]
  exact Nat.ofDigitChars_toDigits (by decide) (by decide)

/-- Zeros after the digits multiply by ten. -/
theorem ofDigits_append_replicate_zero (cs : List Char) (count : Nat) :
    ofDigits (cs ++ List.replicate count '0') = ofDigits cs * 10 ^ count := by
  induction count with
  | zero => simp
  | succ count ih =>
      rw [List.replicate_succ', ← List.append_assoc, ofDigits, List.foldl_append, ← ofDigits, ih,
        Nat.pow_succ]
      have hzero : digitValue '0' = 0 := by decide
      simp only [List.foldl_cons, List.foldl_nil, hzero, Nat.add_zero]
      rw [Nat.mul_comm 10, Nat.mul_assoc]

/-- The digits of a number do not start with a zero, unless the number is zero. -/
theorem eq_zero_of_head?_toDigits {n : Nat} (h : (Nat.toDigits 10 n).head? = some '0') : n = 0 := by
  induction n using Nat.strongRecOn with
  | _ n ih =>
      by_cases hsmall : n < 10
      · rw [Nat.toDigits_of_lt_base hsmall] at h
        exact Nat.digitChar_eq_zero.1 (by simpa using h)
      · have hten : 10 ≤ n := by omega
        obtain ⟨d, ds, hdigits⟩ := List.exists_cons_of_ne_nil
          (Nat.toDigits_ne_nil : Nat.toDigits 10 (n / 10) ≠ [])
        rw [Nat.toDigits_of_base_le (by decide) hten, hdigits] at h
        have hzero := ih (n / 10) (by omega) (hdigits ▸ h)
        omega

/-- So they are one digit or do not start with a zero. -/
theorem toDigits_leading (n : Nat) :
    (Nat.toDigits 10 n).length = 1 ∨ (Nat.toDigits 10 n).head? ≠ some '0' := by
  by_cases hn : n = 0
  · exact .inl (by rw [hn]; rfl)
  · exact .inr fun hhead => hn (eq_zero_of_head?_toDigits hhead)

theorem isDigit_of_mem_toDigits {n : Nat} {c : Char} (h : c ∈ Nat.toDigits 10 n) :
    c.isDigit = true := Nat.isDigit_of_mem_toDigits (by decide) (by decide) h

theorem ofDigits_toDigits (n : Nat) : ofDigits (Nat.toDigits 10 n) = n := by
  simpa [padded] using ofDigits_padded 0 n

theorem isBlank_of_isDigit {c : Char} (h : c.isDigit = true) : isBlank c = false := by
  simp only [Char.isDigit, Bool.and_eq_true, decide_eq_true_eq, UInt32.le_iff_toNat_le] at h
  have hlow : 48 ≤ c.toNat := h.1
  have hhigh : c.toNat ≤ 57 := h.2
  have hapart : ∀ range ∈ blankRanges, range.2 < 48 ∨ 57 < range.1 := by decide
  rw [isBlank, List.any_eq_false]
  intro range hrange
  have := hapart range hrange
  simp only [Bool.and_eq_true, decide_eq_true_eq]
  omega

/-! ## Where a run ends -/

/-- A run of characters for which `p` holds ends before `rest`. -/
def Stops (p : Char → Bool) (rest : List Char) : Prop := ∀ c ∈ rest.head?, p c = false

@[simp] theorem stops_nil (p : Char → Bool) : Stops p [] := by simp [Stops]

@[simp] theorem stops_cons {p : Char → Bool} {c : Char} {rest : List Char} :
    Stops p (c :: rest) ↔ p c = false := by
  simp [Stops]

theorem Stops.takeWhile {p : Char → Bool} {rest : List Char} (h : Stops p rest) :
    rest.takeWhile p = [] := by
  cases rest with
  | nil => rfl
  | cons c rest => rw [List.takeWhile_cons_of_neg (by simp [stops_cons.1 h])]

theorem Stops.dropWhile {p : Char → Bool} {rest : List Char} (h : Stops p rest) :
    rest.dropWhile p = rest := by
  cases rest with
  | nil => rfl
  | cons c rest => rw [List.dropWhile_cons_of_neg (by simp [stops_cons.1 h])]

theorem Stops.take {p : Char → Bool} {rest : List Char} (h : Stops p rest) (count : Nat) :
    Stops p (rest.take count) := by
  cases rest with
  | nil => simp
  | cons c rest =>
      cases count with
      | zero => simp
      | succ count => simpa using h

theorem Stops.append {p : Char → Bool} {core : List Char} (h : Stops p core) (hne : core ≠ [])
    (rest : List Char) : Stops p (core ++ rest) := by
  obtain ⟨c, cs, rfl⟩ := List.exists_cons_of_ne_nil hne
  exact stops_cons.2 (stops_cons.1 h)

/-- What does not start with a character of `q` does not start with one of `p`. -/
theorem Stops.of_imp {p q : Char → Bool} {rest : List Char} (h : Stops q rest)
    (hp : ∀ c, p c = true → q c = true) : Stops p rest := fun c hc =>
  Bool.eq_false_iff.2 fun hpc => Bool.eq_false_iff.1 (h c hc) (hp c hpc)

theorem stops_dropWhile (p : Char → Bool) (cs : List Char) : Stops p (cs.dropWhile p) := by
  induction cs with
  | nil => exact stops_nil p
  | cons c rest ih =>
      by_cases hc : p c = true
      · rwa [List.dropWhile_cons_of_pos hc]
      · rw [List.dropWhile_cons_of_neg hc]
        exact stops_cons.2 (by simpa using hc)

/-- No white space stands before a number. -/
theorem stops_isBlank_padded (width n : Nat) (rest : List Char) :
    Stops isBlank (padded width n ++ rest) := by
  obtain ⟨c, digits, hdigits⟩ := List.exists_cons_of_ne_nil (padded_ne_nil width n)
  have hc : c ∈ padded width n := by simp [hdigits]
  simpa [hdigits] using isBlank_of_isDigit (isDigit_of_mem_padded hc)

/-! ## Scans on a written text -/

namespace Scan

variable {α β : Type} {cs rest : List Char}

/-- A scan goes on where its first part stopped. -/
theorem eval_bind {first : Scan α} {next : α → Scan β} {a : α} (h : first cs = some (a, rest)) :
    (first >>= next) cs = next a rest := by
  show (first cs).bind _ = _
  rw [h]
  rfl

theorem eval_guard {p : Prop} [Decidable p] (h : p) (cs : List Char) :
    (guard p : Scan Unit) cs = some ((), cs) := by
  rw [guard, if_pos h]
  rfl

theorem run_append {p : Char → Bool} (hall : ∀ c ∈ cs, p c = true) (hstop : Stops p rest) :
    run p (cs ++ rest) = some (cs, rest) := by
  rw [run, List.takeWhile_append_of_pos hall, List.dropWhile_append_of_pos hall, hstop.takeWhile,
    hstop.dropWhile, List.append_nil]

theorem run1_append {p : Char → Bool} (hne : cs ≠ []) (hall : ∀ c ∈ cs, p c = true)
    (hstop : Stops p rest) : run1 p (cs ++ rest) = some (cs, rest) := by
  rw [run1, eval_bind (run_append hall hstop), eval_bind (eval_guard (by simpa using hne) rest)]
  rfl

theorem blanks_of_stops (h : Stops isBlank cs) : blanks cs = some ((), cs) := by
  have hrun : run isBlank ([] ++ cs) = some ([], cs) := run_append (by simp) h
  exact eval_bind hrun

theorem char_cons (c : Char) (rest : List Char) : char c (c :: rest) = some ((), rest) := by
  simp [char]

/-- A number is scanned in full if no digit follows. -/
theorem number_padded {width n most : Nat} (hmost : (padded width n).length ≤ most)
    (hstop : Stops Char.isDigit rest) :
    number most (padded width n ++ rest) = some (n, rest) := by
  have htaken : ((padded width n ++ rest).take most).takeWhile Char.isDigit = padded width n := by
    rw [List.take_append, List.take_of_length_le hmost,
      List.takeWhile_append_of_pos fun c hc => isDigit_of_mem_padded hc, (hstop.take _).takeWhile,
      List.append_nil]
  rw [number, htaken]
  simp [padded_ne_nil, ofDigits_padded]

end Scan

end Editorial.Text
