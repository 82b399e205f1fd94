/-!
# White space

A name, a container or a setting is refused when nothing of it is left after
its white space is taken away. White space here is every character with
Unicode's `White_Space` property, of which ASCII has only six.

## Main results

* `trimList_eq_nil_iff` — a text trims to nothing exactly when it is blank.
-/

namespace Editorial.Text

/-! ## The class -/

/-- The code points with the `White_Space` property, as closed ranges. -/
def blankRanges : List (Nat × Nat) :=
  [(0x09, 0x0D), (0x20, 0x20), (0x85, 0x85), (0xA0, 0xA0), (0x1680, 0x1680),
   (0x2000, 0x200A), (0x2028, 0x2029), (0x202F, 0x202F), (0x205F, 0x205F),
   (0x3000, 0x3000)]

/-- Whether `c` is white space. -/
def isBlank (c : Char) : Bool :=
  blankRanges.any fun range => range.1 ≤ c.toNat && c.toNat ≤ range.2

/-! ## Trimming -/

/-- `cs` without its leading white space. -/
def trimLeading (cs : List Char) : List Char := cs.dropWhile isBlank

/-- `cs` without its leading and trailing white space. -/
def trimList (cs : List Char) : List Char :=
  (trimLeading (trimLeading cs).reverse).reverse

/-- `s` without its leading and trailing white space. -/
def trim (s : String) : String := String.ofList (trimList s.toList)

/-- Whether `s` holds white space only. -/
def allBlank (s : String) : Bool := s.toList.all isBlank

theorem trimLeading_eq_nil_iff (cs : List Char) :
    trimLeading cs = [] ↔ cs.all isBlank = true := by
  induction cs with
  | nil => simp [trimLeading]
  | cons c rest ih =>
      by_cases h : isBlank c = true
      · rw [trimLeading, List.dropWhile_cons_of_pos h, List.all_cons, h, Bool.true_and]
        exact ih
      · simp [trimLeading, h]

theorem trimList_eq_nil_iff (cs : List Char) :
    trimList cs = [] ↔ cs.all isBlank = true := by
  rw [trimList, List.reverse_eq_nil_iff, trimLeading_eq_nil_iff,
    List.all_reverse]
  constructor
  · intro h
    rw [← trimLeading_eq_nil_iff]
    induction cs with
    | nil => rfl
    | cons c rest ih =>
        by_cases hc : isBlank c = true
        · simp only [trimLeading, List.dropWhile_cons, hc, if_true] at h ih ⊢
          exact ih h
        · simp [trimLeading, hc] at h
  · intro h
    rw [(trimLeading_eq_nil_iff cs).2 h]; rfl

end Editorial.Text
