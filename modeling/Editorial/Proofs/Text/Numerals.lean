import Editorial.Proofs.Text.Digits
import Mathlib.Data.List.TakeWhile

/-!
# Trimmed texts and the numbers they write

Values that come from outside are trimmed before they are read. Both steps are computed by
cutting a list of characters down; here they are told from what the list is made of. A text
trims to its core if it is the core with white space before and after it, and the core has
none at its ends. A text writes a number if it is the digits of the number, after a plus sign
perhaps.

## Main results

* `trims_iff` — a text trims to its core and to nothing else.
* `readNat?_eq_some_iff` — the numbers that are read are those that are written, as far as
  they lie below the bound.
-/

namespace Editorial.Text

/-! ## Trimming -/

/-- `core` stands in `cs` with nothing but white space around it, and has none at its ends. -/
def Trims (cs core : List Char) : Prop :=
  ∃ before after, cs = before ++ (core ++ after) ∧
    (∀ c ∈ before, isBlank c = true) ∧ (∀ c ∈ after, isBlank c = true) ∧
    Stops isBlank core ∧ Stops isBlank core.reverse

theorem Stops.of_append {p : Char → Bool} {core rest : List Char} (h : Stops p (core ++ rest)) :
    Stops p core := by
  cases core with
  | nil => exact stops_nil p
  | cons c cs => exact stops_cons.2 (stops_cons.1 h)

/-- White space in front is passed over. -/
theorem trimLeading_append {before rest : List Char} (h : ∀ c ∈ before, isBlank c = true) :
    trimLeading (before ++ rest) = trimLeading rest := List.dropWhile_append_of_pos h

/-- Every text trims to something: it is split where its white space ends. -/
theorem trims_trimList (cs : List Char) : Trims cs (trimList cs) := by
  let inner := trimLeading cs
  let after := (inner.reverse.takeWhile isBlank).reverse
  have houter : cs = cs.takeWhile isBlank ++ inner := List.takeWhile_append_dropWhile.symm
  have hinner : inner = trimList cs ++ after :=
    calc inner = inner.reverse.reverse := (List.reverse_reverse _).symm
      _ = (inner.reverse.takeWhile isBlank ++ trimLeading inner.reverse).reverse :=
        congrArg _ List.takeWhile_append_dropWhile.symm
      _ = trimList cs ++ after := List.reverse_append
  have hfirst : Stops isBlank (trimList cs ++ after) := hinner ▸ stops_dropWhile isBlank cs
  refine ⟨cs.takeWhile isBlank, after, houter.trans (congrArg _ hinner),
    fun c hc => List.mem_takeWhile_imp hc,
    fun c hc => List.mem_takeWhile_imp (List.mem_reverse.1 hc), hfirst.of_append, ?_⟩
  rw [trimList, List.reverse_reverse]
  exact stops_dropWhile isBlank _

/-- The core is what trimming leaves. -/
theorem Trims.trimList_eq {cs core : List Char} (h : Trims cs core) : trimList cs = core := by
  obtain ⟨before, after, rfl, hbefore, hafter, hfirst, hlast⟩ := h
  rw [trimList, trimLeading_append hbefore]
  rcases eq_or_ne core [] with rfl | hne
  · rw [List.nil_append, (trimLeading_eq_nil_iff after).2 (List.all_eq_true.2 hafter)]
    rfl
  · have hstart : trimLeading (core ++ after) = core ++ after := (hfirst.append hne after).dropWhile
    have hend : trimLeading core.reverse = core.reverse := hlast.dropWhile
    rw [hstart, List.reverse_append,
      trimLeading_append fun c hc => hafter c (List.mem_reverse.1 hc), hend, List.reverse_reverse]

/-- A text trims to its core and to nothing else. -/
theorem trims_iff {cs core : List Char} : Trims cs core ↔ trimList cs = core :=
  ⟨Trims.trimList_eq, fun h => h ▸ trims_trimList cs⟩

/-- A core that is not empty is not blank. -/
theorem Trims.all_isBlank {cs core : List Char} (h : Trims cs core) (hne : core ≠ []) :
    core.all isBlank = false := by
  obtain ⟨_, _, _, _, _, hfirst, _⟩ := h
  obtain ⟨c, rest, rfl⟩ := List.exists_cons_of_ne_nil hne
  rw [List.all_cons, stops_cons.1 hfirst, Bool.false_and]

/-! ## Numbers -/

/-- `cs` consists of decimal digits for `n`, after a plus sign perhaps. -/
def Writes (cs : List Char) (n : Nat) : Prop :=
  ∃ digits, digits ≠ [] ∧ (∀ c ∈ digits, c.isDigit = true) ∧ ofDigits digits = n ∧
    (cs = digits ∨ cs = '+' :: digits)

/-- A number is read if it is written and lies below the bound. -/
theorem readNat?_eq_some_iff {bound n : Nat} {s : String} :
    readNat? bound s = some n ↔ Writes s.toList n ∧ n < bound := by
  -- The sign is taken off before anything is looked at, so the two forms are told apart first.
  have hdigits (digits : List Char) :
      ((if digits.isEmpty || !digits.all Char.isDigit then none
        else if ofDigits digits < bound then some (ofDigits digits) else none) = some n) ↔
      (digits ≠ [] ∧ (∀ c ∈ digits, c.isDigit = true) ∧ ofDigits digits = n) ∧ n < bound := by
    constructor
    · intro h
      split at h
      · cases h
      · rename_i hform
        split at h
        · rename_i hbound
          cases h
          simp only [Bool.or_eq_true, List.isEmpty_iff, Bool.not_eq_true', not_or,
            Bool.not_eq_false, List.all_eq_true] at hform
          exact ⟨⟨hform.1, hform.2, rfl⟩, hbound⟩
        · cases h
    · rintro ⟨⟨hne, hall, rfl⟩, hbound⟩
      rw [if_neg (by simpa [hne] using hall), if_pos hbound]
  unfold readNat? Writes
  split
  · rename_i rest hsign
    rw [hdigits, hsign]
    constructor
    · rintro ⟨⟨hne, hall, hn⟩, hbound⟩
      exact ⟨⟨rest, hne, hall, hn, .inr rfl⟩, hbound⟩
    · rintro ⟨⟨digits, hne, hall, hn, rfl | hrest⟩, hbound⟩
      · exact absurd (hall '+' List.mem_cons_self) (by decide)
      · cases hrest
        exact ⟨⟨hne, hall, hn⟩, hbound⟩
  · rename_i hplain
    rw [hdigits]
    constructor
    · rintro ⟨⟨hne, hall, hn⟩, hbound⟩
      exact ⟨⟨_, hne, hall, hn, .inl rfl⟩, hbound⟩
    · rintro ⟨⟨digits, hne, hall, hn, rfl | hsigned⟩, hbound⟩
      · exact ⟨⟨hne, hall, hn⟩, hbound⟩
      · exact absurd hsigned (hplain digits)

end Editorial.Text
