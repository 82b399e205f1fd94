import Editorial.Proofs.Json.Tokens
import Editorial.Toml.Reader
import Editorial.Toml.Writer

/-!
# Values are read back from what is written for them

The reader of a value tries its forms one after the other, and their order matters: a whole
number also starts like a date, like a number with a fraction, and, if it starts with a zero,
like a number in another base. A string may be written between either kind of quotes, and two
quotes in a row may be an empty string or the start of one of several lines. For what the
writer writes each of these is decided by what comes next: after the last digit of a number
and after the closing quote of a string there is a line feed.

`Denotes text node` says that a text is read as a value wherever a line ends after it. The
integers and the strings that are written are of this kind, a string of any characters
included.

## Main results

* `denotes_integer` — an integer of 64 bits is read back from its digits.
* `denotes_quote` — every string is read back, whichever quotes are put around it.
-/

namespace Editorial.Toml

open Text Scan

variable {c : Char} {cs rest : List Char} {bound : Nat}

/-- The text is read as the value if the line ends after it. -/
structure Denotes (text : String) (node : Node) : Prop where
  /-- It does not start with a blank. -/
  starts : ∀ rest, Stops isGap (text.toList ++ '\n' :: rest)
  /-- It is read up to the end of the line, at the depth of a document's fields. -/
  reads : ∀ bound rest, text.toList.length ≤ bound →
    scanValue bound depthLimit (text.toList ++ '\n' :: rest) = some (node, '\n' :: rest)

/-- What starts with no bracket and no brace is a scalar. -/
theorem scanValue_of_scalar {depth : Nat} (hbracket : c ≠ '[') (hbrace : c ≠ '\x7b') :
    scanValue bound depth (c :: cs) = scanScalar bound (c :: cs) := by
  cases depth with
  | zero => rfl
  | succ depth =>
      have hpeek : peek (c :: cs) = some (some c, c :: cs) := rfl
      rw [scanValue, eval_bind hpeek]
      refine congrFun ?_ (c :: cs)
      split
      · rename_i hc
        exact absurd (Option.some.inj hc) hbracket
      · rename_i hc
        exact absurd (Option.some.inj hc) hbrace
      · rfl

/-! ## Strings -/

/-- A string of several lines starts with three quotes. -/
theorem scanBlock_of_not_isPrefix {quote : Char} {piece : Scan (List Char)}
    (h : ¬ [quote, quote, quote] <+: cs) : scanBlock bound quote piece cs = none :=
  eval_bind_none (word_of_not_isPrefix (by rwa [String.toList_ofList]))

/-- No string starts with anything but a quote. -/
theorem scanString_of_ne (hdouble : cs.head? ≠ some '"') (hsingle : cs.head? ≠ some '\'') :
    scanString bound cs = none := by
  have hblock {quote : Char} (hquote : cs.head? ≠ some quote) : ¬ [quote, quote, quote] <+: cs := by
    rintro ⟨rest, rfl⟩
    exact hquote rfl
  have hbasic : scanBasic bound cs = none := eval_bind_none (char_of_ne hdouble)
  have hliteral : scanLiteral cs = none := eval_bind_none (char_of_ne hsingle)
  rw [scanString, orElse_of_none (scanBlock_of_not_isPrefix (hblock hdouble)),
    orElse_of_none hbasic, orElse_of_none (scanBlock_of_not_isPrefix (hblock hsingle)), hliteral]

/-- A string that is closed at the end of a line does not start with three quotes. -/
theorem not_isPrefix_block {quote : Char} (hquote : quote ≠ '\n') (h : cs.head? ≠ some quote) :
    ¬ [quote, quote, quote] <+: quote :: (cs ++ quote :: '\n' :: rest) := by
  cases cs with
  | nil => simpa using hquote
  | cons c cs =>
      have hne : quote ≠ c := fun hc => h (by rw [hc]; rfl)
      simp [hne]

/-- A character is read back from how it stands between double quotes. -/
theorem scanBasicChar_escape (c : Char) (rest : List Char) :
    scanBasicChar (escape c ++ rest) = some (c, rest) := by
  unfold escape
  split
  · rename_i hquote
    rw [hquote]
    rfl
  · rename_i hquote
    split
    · rename_i hslash
      rw [hslash]
      rfl
    · rename_i hslash
      split
      · rename_i hplain
        have hnext : next ([c] ++ rest) = some (c, rest) := rfl
        rw [scanBasicChar, eval_bind hnext]
        split
        · contradiction
        · contradiction
        · exact eval_bind (eval_guard hplain rest)
      · -- What is written with digits is one of the first 128 characters.
        rename_i hplain
        have hcode : c.toNat < 256 := by
          simp only [isPlain, Bool.or_eq_true, Bool.and_eq_true, decide_eq_true_eq] at hplain
          omega
        have hunicode : (do (Json.charOfCode? (← Json.scanHex 4) : Option Char) : Scan Char)
            ('0' :: '0' :: Json.hexDigit (c.toNat / 16) :: Json.hexDigit (c.toNat % 16) :: rest) =
              (liftM (Json.charOfCode? c.toNat) : Scan Char) rest :=
          eval_bind (Json.scanHex_toNat hcode)
        refine Eq.trans ?_ (hunicode.trans ?_)
        · rfl
        · rw [Json.charOfCode?_toNat]
          rfl

theorem escape_ne_nil (c : Char) : escape c ≠ [] := by
  unfold escape
  repeat' split
  all_goals simp

/-- Between double quotes no string starts with a double quote. -/
theorem head?_flatMap_escape (cs : List Char) : (cs.flatMap escape).head? ≠ some '"' := by
  cases cs with
  | nil => simp
  | cons c cs =>
      have hhead : (escape c).head? ≠ some '"' := by
        unfold escape
        repeat' split
        all_goals simp_all
      obtain ⟨d, ds, hescape⟩ := List.exists_cons_of_ne_nil (escape_ne_nil c)
      rw [hescape] at hhead
      rw [List.flatMap_cons, hescape]
      exact hhead

/-- A string is read back from between double quotes. -/
theorem scanString_basic (hbound : cs.length ≤ bound) :
    scanString bound ('"' :: (cs.flatMap escape ++ '"' :: '\n' :: rest)) =
      some (String.ofList cs, '\n' :: rest) := by
  have hblock : ¬ ['"', '"', '"'] <+: '"' :: (cs.flatMap escape ++ '"' :: '\n' :: rest) :=
    not_isPrefix_block (by decide) (head?_flatMap_escape cs)
  have hchars : many scanBasicChar bound (cs.flatMap escape ++ '"' :: '\n' :: rest) =
      some (cs, '"' :: '\n' :: rest) := many_flatMap scanBasicChar_escape rfl hbound
  rw [scanString, orElse_of_none (scanBlock_of_not_isPrefix hblock)]
  refine orElse_of_some ?_
  rw [scanBasic, eval_bind (char_cons _ _), eval_bind hchars, eval_bind (char_cons _ _)]
  rfl

/-- A string that can stand between single quotes is read back from there. -/
theorem scanString_literal (h : ∀ c ∈ cs, isPlain c = true ∧ c ≠ '\'') :
    scanString bound ('\'' :: (cs ++ '\'' :: '\n' :: rest)) =
      some (String.ofList cs, '\n' :: rest) := by
  have hhead : cs.head? ≠ some '\'' := fun hc => (h _ (List.mem_of_head? hc)).2 rfl
  have hdouble : ¬ ['"', '"', '"'] <+: '\'' :: (cs ++ '\'' :: '\n' :: rest) := by simp
  have hblock : ¬ ['\'', '\'', '\''] <+: '\'' :: (cs ++ '\'' :: '\n' :: rest) :=
    not_isPrefix_block (by decide) hhead
  have hrun : run (fun c => isPlain c && c ≠ '\'') (cs ++ '\'' :: '\n' :: rest) =
      some (cs, '\'' :: '\n' :: rest) :=
    run_append (fun c hc => by simpa using h c hc) (by simp)
  have hbasic : scanBasic bound ('\'' :: (cs ++ '\'' :: '\n' :: rest)) = none :=
    eval_bind_none (char_of_ne (by simp))
  rw [scanString, orElse_of_none (scanBlock_of_not_isPrefix hdouble), orElse_of_none hbasic,
    orElse_of_none (scanBlock_of_not_isPrefix hblock), scanLiteral, eval_bind (char_cons _ _),
    eval_bind hrun, eval_bind (char_cons _ _)]
  rfl

/-- What is read as a string and starts with a quote denotes it. -/
theorem denotes_string {text s : String} {quote : Char} {inner : List Char}
    (htext : text.toList = quote :: inner) (hquote : quote = '"' ∨ quote = '\'')
    (hread : ∀ bound rest, text.toList.length ≤ bound →
      scanString bound (text.toList ++ '\n' :: rest) = some (s, '\n' :: rest)) :
    Denotes text (.string s) := by
  constructor
  · intro rest
    rw [htext, List.cons_append, stops_cons]
    rcases hquote with rfl | rfl <;> decide
  · intro bound rest hbound
    have hscalar := hread bound rest hbound
    rw [htext, List.cons_append] at hscalar ⊢
    rw [scanValue_of_scalar (by rcases hquote with rfl | rfl <;> decide)
      (by rcases hquote with rfl | rfl <;> decide), scanScalar]
    refine orElse_of_some ?_
    rw [eval_bind hscalar]
    rfl

/-- Every string is read back, whichever quotes are put around it. -/
theorem denotes_quote (s : String) : Denotes (quote s) (.string s) := by
  unfold quote
  split
  · rename_i hform
    have hliteral : ∀ c ∈ s.toList, isPlain c = true ∧ c ≠ '\'' := by
      simpa [isLiteral] using (Bool.and_eq_true_iff.1 hform).2
    have htext : ("'" ++ s ++ "'").toList = '\'' :: (s.toList ++ ['\'']) := by simp
    refine denotes_string htext (.inr rfl) fun bound rest _ => ?_
    rw [htext, List.cons_append, List.append_assoc]
    exact (scanString_literal hliteral).trans (by rw [String.ofList_toList])
  · have htext : ("\"" ++ String.ofList (s.toList.flatMap escape) ++ "\"").toList =
        '"' :: (s.toList.flatMap escape ++ ['"']) := by simp
    refine denotes_string htext (.inl rfl) fun bound rest hbound => ?_
    have hlength := length_le_length_flatMap escape_ne_nil s.toList
    rw [htext, List.length_cons, List.length_append] at hbound
    rw [htext, List.cons_append, List.append_assoc]
    exact (scanString_basic (by omega)).trans (by rw [String.ofList_toList])

/-! ## Integers -/

/-- The largest integer of a document. -/
def maxInteger : Nat := 2 ^ 63 - 1

theorem integer?_of_le {n : Nat} (h : n ≤ maxInteger) : integer? n = some (toString (n : Int)) := by
  have hmin : Int64.minValue.toInt = -2 ^ 63 := by decide
  have hmax : Int64.maxValue.toInt = 2 ^ 63 - 1 := by decide
  rw [maxInteger] at h
  rw [integer?, if_pos (by omega)]

theorem integer?_of_lt {n : Nat} (h : maxInteger < n) : integer? n = none := by
  have hmax : Int64.maxValue.toInt = 2 ^ 63 - 1 := by decide
  rw [maxInteger] at h
  rw [integer?, if_neg (by omega)]

/-- Digits at the end of a line are followed by another digit or by the line feed. -/
theorem head?_digits_ne {digits : List Char} (hdigits : ∀ c ∈ digits, c.isDigit = true)
    {mark : Char} (hmark : mark.isDigit = false) (hline : mark ≠ '\n') :
    (digits ++ '\n' :: rest).head? ≠ some mark := by
  intro h
  cases digits with
  | nil => exact hline (Option.some.inj h).symm
  | cons d ds =>
      obtain rfl : d = mark := Option.some.inj h
      rw [hdigits d List.mem_cons_self] at hmark
      cases hmark

section Digits

variable {digits : List Char} (hdigits : ∀ c ∈ digits, c.isDigit = true)
include hdigits

theorem run_digits : run Char.isDigit (digits ++ '\n' :: rest) = some (digits, '\n' :: rest) :=
  run_append hdigits (by simp)

/-- A field takes some of the digits and leaves the others, if it is there at all. -/
theorem scanField_digits (width low high : Nat) :
    scanField width low high (digits ++ '\n' :: rest) = none ∨
      ∃ n, scanField width low high (digits ++ '\n' :: rest) =
        some (n, digits.drop width ++ '\n' :: rest) := by
  have hget : (get : Scan (List Char)) ('\n' :: rest) = some ('\n' :: rest, '\n' :: rest) := rfl
  have hset : (set (digits.drop width ++ '\n' :: rest) : Scan Unit) ('\n' :: rest) =
      some ((), digits.drop width ++ '\n' :: rest) := rfl
  rw [scanField, eval_bind (run_digits hdigits), eval_bind hget]
  by_cases hwidth : width ≤ digits.length
  · rw [eval_bind (eval_guard hwidth _), eval_bind hset]
    by_cases hrange : low ≤ ofDigits (digits.take width) ∧ ofDigits (digits.take width) ≤ high
    · exact .inr ⟨_, eval_bind (eval_guard hrange _)⟩
    · exact .inl (eval_bind_none (guard_of_not hrange _))
  · exact .inl (eval_bind_none (guard_of_not hwidth _))

/-- No field of a date that goes on with a mark is found there. -/
theorem scanField_mark {width low high : Nat} {mark : Char} {α : Type} (next : Nat → Scan α)
    (hmark : mark.isDigit = false) (hline : mark ≠ '\n') :
    (do let n ← scanField width low high; char mark; next n : Scan α) (digits ++ '\n' :: rest) =
      none := by
  have hcases : scanField width low high (digits ++ '\n' :: rest) = none ∨ _ :=
    scanField_digits hdigits width low high
  rcases hcases with hfield | ⟨n, hfield⟩
  · exact eval_bind_none hfield
  · have hleft : ∀ c ∈ digits.drop width, c.isDigit = true :=
      fun c hc => hdigits c (List.mem_of_mem_drop hc)
    rw [eval_bind hfield]
    exact eval_bind_none (char_of_ne (head?_digits_ne hleft hmark hline))

/-- Digits at the end of a line are no date. -/
theorem scanDate_digits : scanDate (digits ++ '\n' :: rest) = none := by
  have hclock : scanClock (digits ++ '\n' :: rest) = none :=
    scanField_mark hdigits _ (by decide) (by decide)
  have hday : scanDay (digits ++ '\n' :: rest) = none :=
    scanField_mark hdigits _ (by decide) (by decide)
  exact eval_bind_none ((orElse_of_none hclock).trans (eval_bind_none hday))

/-- No sign stands before digits. -/
theorem scanSign_digits :
    scanSign (digits ++ '\n' :: rest) = some (false, digits ++ '\n' :: rest) := by
  have hstops : Stops (fun c => c = '+' || c = '-') (digits ++ '\n' :: rest) := by
    intro c hc
    have hplus : c ≠ '+' := fun h => head?_digits_ne hdigits (by decide) (by decide) (h ▸ hc)
    have hminus : c ≠ '-' := fun h => head?_digits_ne hdigits (by decide) (by decide) (h ▸ hc)
    simp [hplus, hminus]
  exact eval_bind (takeIf_of_stops hstops)

/-- All digits belong to the number. -/
theorem scanDigits_digits (hne : digits ≠ []) :
    scanDigits bound Char.isDigit (digits ++ '\n' :: rest) = some (digits, '\n' :: rest) := by
  have hunderscore :
      (do char '_'; run1 Char.isDigit : Scan (List Char)) ('\n' :: rest) = none :=
    eval_bind_none (char_of_ne (by simp))
  rw [scanDigits, eval_bind (run1_append hne hdigits (by simp)),
    eval_bind (many_of_none hunderscore bound)]
  simp only [List.flatten_nil, List.append_nil]
  rfl

theorem scanWhole_digits (hne : digits ≠ [])
    (hzero : digits.length = 1 ∨ digits.head? ≠ some '0') :
    scanWhole bound (digits ++ '\n' :: rest) = some (digits, '\n' :: rest) := by
  rw [scanWhole, eval_bind (scanDigits_digits hdigits hne)]
  exact eval_bind (eval_guard hzero _)

/-- Without a point and without a power of ten there is no fraction. -/
theorem scanFraction_digits (hne : digits ≠ [])
    (hzero : digits.length = 1 ∨ digits.head? ≠ some '0') :
    scanFraction bound (digits ++ '\n' :: rest) = none := by
  have hpoint : (do char '.'; scanDigits bound Char.isDigit : Scan (List Char)) ('\n' :: rest) =
      none := eval_bind_none (char_of_ne (by simp))
  have hnext : next ('\n' :: rest) = some ('\n', rest) := rfl
  have hexponent : scanExponent bound ('\n' :: rest) = none := by
    rw [scanExponent, eval_bind hnext]
    exact eval_bind_none (guard_of_not (by decide) _)
  rw [scanFraction, eval_bind (scanSign_digits hdigits),
    eval_bind (scanWhole_digits hdigits hne hzero), eval_bind (maybe_of_none hpoint),
    eval_bind (maybe_of_none hexponent)]
  exact eval_bind_none (guard_of_not (by simp) _)

theorem scanSpecial_digits : scanSpecial (digits ++ '\n' :: rest) = none := by
  have hword {s : String} (mark : Char) (cs : List Char) (hs : s.toList = mark :: cs)
      (hmark : mark.isDigit = false) (hline : mark ≠ '\n') :
      word s (digits ++ '\n' :: rest) = none := by
    refine word_of_not_isPrefix fun ⟨after, hafter⟩ => ?_
    rw [hs] at hafter
    exact head?_digits_ne hdigits hmark hline (by rw [← hafter]; rfl)
  have hinf : word "inf" (digits ++ '\n' :: rest) = none :=
    hword 'i' ['n', 'f'] rfl (by decide) (by decide)
  have hnan : word "nan" (digits ++ '\n' :: rest) = none :=
    hword 'n' ['a', 'n'] rfl (by decide) (by decide)
  rw [scanSpecial, eval_bind (scanSign_digits hdigits)]
  exact eval_bind_none ((orElse_of_none hinf).trans hnan)

/-- The letter for another base does not come second. -/
theorem scanBased_digits {mark : Char} {base : Nat} (hmark : mark.isDigit = false)
    (hline : mark ≠ '\n') : scanBased bound mark base (digits ++ '\n' :: rest) = none := by
  cases digits with
  | nil => exact eval_bind_none (char_of_ne (by simp))
  | cons d ds =>
      have hds : ∀ c ∈ ds, c.isDigit = true := fun c hc => hdigits c (List.mem_cons_of_mem _ hc)
      by_cases hd : d = '0'
      · subst hd
        rw [scanBased, List.cons_append, eval_bind (char_cons _ _)]
        exact eval_bind_none (char_of_ne (head?_digits_ne hds hmark hline))
      · exact eval_bind_none (char_of_ne (by simpa using hd))

/-- Digits at the end of a line are a number in base ten. -/
theorem scanScalar_digits (hne : digits ≠ [])
    (hzero : digits.length = 1 ∨ digits.head? ≠ some '0')
    (hfits : (ofDigits digits : Int) ≤ Int64.maxValue.toInt) :
    scanScalar bound (digits ++ '\n' :: rest) =
      some (.integer (ofDigits digits), '\n' :: rest) := by
  have hstring : (do return .string (← scanString bound) : Scan Node) (digits ++ '\n' :: rest) =
      none := eval_bind_none (scanString_of_ne (head?_digits_ne hdigits (by decide) (by decide))
        (head?_digits_ne hdigits (by decide) (by decide)))
  have hlow : Int64.minValue.toInt ≤ (ofDigits digits : Int) := by
    have hmin : Int64.minValue.toInt ≤ 0 := by decide
    omega
  have hnarrow : narrow? (ofDigits digits) = some (.integer (ofDigits digits)) := by
    rw [narrow?, if_pos ⟨hlow, hfits⟩]
  have hdecimal : scanDecimal bound (digits ++ '\n' :: rest) =
      some (.integer (ofDigits digits), '\n' :: rest) := by
    rw [scanDecimal, eval_bind (scanSign_digits hdigits),
      eval_bind (scanWhole_digits hdigits hne hzero)]
    simp only [Bool.false_eq_true, if_false, hnarrow]
    rfl
  rw [scanScalar, orElse_of_none hstring, orElse_of_none (scanDate_digits hdigits),
    orElse_of_none (scanFraction_digits hdigits hne hzero),
    orElse_of_none (scanSpecial_digits hdigits),
    orElse_of_none (scanBased_digits hdigits (by decide) (by decide)),
    orElse_of_none (scanBased_digits hdigits (by decide) (by decide)),
    orElse_of_none (scanBased_digits hdigits (by decide) (by decide))]
  exact orElse_of_some hdecimal

end Digits

/-- An integer of 64 bits is read back from its digits. -/
theorem denotes_integer {n : Nat} {text : String} (h : integer? n = some text) :
    Denotes text (.integer n) := by
  unfold integer? at h
  split at h
  · rename_i hfits
    have htext : text.toList = Nat.toDigits 10 n := by
      rw [← Option.some.inj h]
      exact String.toList_ofList
    have hdigits : ∀ c ∈ Nat.toDigits 10 n, c.isDigit = true := fun c => isDigit_of_mem_toDigits
    have hne : Nat.toDigits 10 n ≠ [] := Nat.toDigits_ne_nil
    obtain ⟨d, ds, hcons⟩ := List.exists_cons_of_ne_nil hne
    have hd : d.isDigit = true := hdigits d (hcons ▸ List.mem_cons_self)
    have hother {c : Char} (hc : c.isDigit = false) : d ≠ c := fun hdc => by simp [hdc, hc] at hd
    constructor
    · intro rest
      rw [htext, hcons, List.cons_append, stops_cons]
      have hspace : d ≠ ' ' := hother (by decide)
      have htab : d ≠ '\t' := hother (by decide)
      simp [isGap, hspace, htab]
    · intro bound rest _
      have hscalar : scanScalar bound (Nat.toDigits 10 n ++ '\n' :: rest) =
          some (.integer n, '\n' :: rest) := by
        rw [scanScalar_digits hdigits hne (toDigits_leading n)
          (by rw [ofDigits_toDigits]; exact hfits.2), ofDigits_toDigits]
      rw [htext, ← hscalar, hcons, List.cons_append]
      exact scanValue_of_scalar (hother (by decide)) (hother (by decide))
  · cases h

end Editorial.Toml
