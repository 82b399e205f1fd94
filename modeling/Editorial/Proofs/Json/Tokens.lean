import Editorial.Json.Reread
import Editorial.Json.Writer
import Editorial.Proofs.Text.Alternatives
import Mathlib.Algebra.Group.Int.Defs
import Mathlib.Data.List.TakeWhile

/-!
# Tokens that were written are read back

Strings and words say themselves where they end: a string at its closing quote, a word with
its last letter. A number does not. It goes on as long as there are digits, a point or a
power of ten, so it is read back only in front of something else, and what is read of a
number on its own says what is read of it in front of that. `EndsBefore` is this property of
a scan, and it is put together from the parts of the scan.

A double has a value only if it is not too large, and of the values that the type of integers
has only those of 64 bits, signed or unsigned, are read as integers.

## Main results

* `scanString_writeString` — a string is read back from between its quotes.
* `endsBefore_scanNumber` — a number is read alike in front of anything that is not part of it.
* `scanScalar_write` — a value that is no container is read from its text.
-/

namespace Editorial

/-! ## Scans that take as much as they can -/

namespace Text.Scan

variable {α β : Type} {q : Char → Bool}

/-- What the scan reads of a text it reads of the text in front of another one, too, unless
that starts with a character of `q`. -/
structure EndsBefore (q : Char → Bool) (p : Scan α) : Prop where
  reads : ∀ {cs left rest : List Char} {a : α}, Stops q rest → p cs = some (a, left) →
    p (cs ++ rest) = some (a, left ++ rest)

theorem endsBefore_pure (a : α) : EndsBefore q (pure a) := by
  refine ⟨fun {cs left rest b} _ h => ?_⟩
  cases h
  rfl

theorem endsBefore_guard (prop : Prop) [Decidable prop] : EndsBefore q (guard prop) := by
  refine ⟨fun {cs left rest a} _ h => ?_⟩
  by_cases hprop : prop
  · rw [eval_guard hprop] at h
    cases h
    exact eval_guard hprop _
  · rw [guard_of_not hprop] at h
    cases h

theorem endsBefore_lift (a? : Option α) : EndsBefore q (liftM a? : Scan α) := by
  refine ⟨fun {cs left rest a} _ h => ?_⟩
  cases a? with
  | none => cases h
  | some b =>
      cases h
      rfl

/-- One scan after another ends where the second one does. -/
theorem EndsBefore.bind {p : Scan α} {next : α → Scan β} (hp : EndsBefore q p)
    (hnext : ∀ a, EndsBefore q (next a)) : EndsBefore q (p >>= next) := by
  refine ⟨fun {cs left rest b} hstop h => ?_⟩
  cases hfirst : p cs with
  | none =>
      rw [eval_bind_none hfirst] at h
      cases h
  | some taken =>
      obtain ⟨a, between⟩ := taken
      rw [eval_bind hfirst] at h
      rw [eval_bind (hp.reads hstop hfirst)]
      exact (hnext a).reads hstop h

theorem endsBefore_takeIf {p : Char → Bool} (hp : ∀ c, p c = true → q c = true) :
    EndsBefore q (takeIf p) := by
  refine ⟨fun {cs left rest c?} hstop h => ?_⟩
  cases cs with
  | nil =>
      cases h
      exact takeIf_of_stops (hstop.of_imp hp)
  | cons c cs =>
      cases hc : p c with
      | true =>
          have hcs : takeIf p (c :: cs) = some (some c, cs) := by rw [takeIf, hc]; rfl
          cases hcs.symm.trans h
          rw [List.cons_append, takeIf, hc]
          rfl
      | false =>
          have hcs : takeIf p (c :: cs) = some (none, c :: cs) := by rw [takeIf, hc]; rfl
          cases hcs.symm.trans h
          rw [List.cons_append, takeIf, hc]
          rfl

theorem endsBefore_run {p : Char → Bool} (hp : ∀ c, p c = true → q c = true) :
    EndsBefore q (run p) := by
  refine ⟨fun {cs left rest taken} hstop h => ?_⟩
  cases h
  have hsplit : cs ++ rest = cs.takeWhile p ++ (cs.dropWhile p ++ rest) := by
    rw [← List.append_assoc, List.takeWhile_append_dropWhile]
  rw [hsplit]
  refine run_append (fun c hc => List.mem_takeWhile_imp hc) ?_
  rcases eq_or_ne (cs.dropWhile p) [] with hend | hmore
  · rw [hend]
    exact hstop.of_imp hp
  · exact (stops_dropWhile p cs).append hmore rest

theorem endsBefore_run1 {p : Char → Bool} (hp : ∀ c, p c = true → q c = true) :
    EndsBefore q (run1 p) :=
  (endsBefore_run hp).bind fun _ => (endsBefore_guard _).bind fun _ => endsBefore_pure _

end Text.Scan

/-- Whether the text of a double is read as a double, which a number that is too large is
not. -/
def Double.isRead (d : Double) : Bool :=
  match Json.scanNumber d.write with
  | some (.double _, []) => true
  | _ => false

namespace Json

open Text Scan

variable {bound : Nat} {rest : List Char}

/-! ## Strings -/

theorem hexValue?_hexDigit {n : Nat} (h : n < 16) : hexValue? (hexDigit n) = some n := by
  have hall : ∀ n : Fin 16, hexValue? (hexDigit n) = some n.val := by decide
  exact hall ⟨n, h⟩

theorem charOfCode?_toNat (c : Char) : charOfCode? c.toNat = some c := by
  have hvalid : c.toNat.isValidChar := c.valid
  rw [charOfCode?, dif_pos hvalid]
  rfl

/-- Four hexadecimal digits, of which the first two are zeros. -/
theorem scanHex_four {high low : Nat} (hhigh : high < 16) (hlow : low < 16) :
    scanHex 4 ('0' :: '0' :: hexDigit high :: hexDigit low :: rest) =
      some (16 * high + low, rest) := by
  have hlift {n : Nat} {cs : List Char} (d : Char) (h : hexValue? d = some n) :
      (liftM (hexValue? d) : Scan Nat) cs = some (n, cs) := by rw [h]; rfl
  have hzero : hexValue? '0' = some 0 := by decide
  have hdigit {n count low : Nat} {d : Char} {cs : List Char} (h : hexValue? d = some n)
      (hrest : scanHex count cs = some (low, rest)) :
      scanHex (count + 1) (d :: cs) = some (n * Nat.pow 16 count + low, rest) := by
    have hnext : next (d :: cs) = some (d, cs) := rfl
    rw [scanHex, eval_bind hnext, eval_bind (hlift d h), eval_bind hrest]
    rfl
  have hlast := hdigit (hexValue?_hexDigit hlow) (rfl : scanHex 0 rest = some (0, rest))
  rw [hdigit hzero (hdigit hzero (hdigit (hexValue?_hexDigit hhigh) hlast))]
  simp [Nat.mul_comm]

/-- The code of one of the first 256 characters is read back from its digits. -/
theorem scanHex_toNat {c : Char} (hc : c.toNat < 256) :
    scanHex 4 ('0' :: '0' :: hexDigit (c.toNat / 16) :: hexDigit (c.toNat % 16) :: rest) =
      some (c.toNat, rest) := by
  have hwhole : 16 * (c.toNat / 16) + c.toNat % 16 = c.toNat := Nat.div_add_mod _ _
  rw [scanHex_four (by omega) (by omega), hwhole]

/-- Such a character is no half of another one. -/
theorem scanUnicode_toNat {c : Char} (hc : c.toNat < 256) :
    scanUnicode ('0' :: '0' :: hexDigit (c.toNat / 16) :: hexDigit (c.toNat % 16) :: rest) =
      some (c, rest) := by
  have hhalf : ¬ (0xD800 ≤ c.toNat ∧ c.toNat < 0xDC00) := by omega
  rw [scanUnicode, eval_bind (scanHex_toNat hc), if_neg hhalf, charOfCode?_toNat]
  rfl

/-- A character is read back from how it stands in a string. -/
theorem scanStringChar_escape (c : Char) (rest : List Char) :
    scanStringChar (escape c ++ rest) = some (c, rest) := by
  unfold escape
  split
  · subst c; rfl
  split
  · subst c; rfl
  split
  · subst c; rfl
  split
  · subst c; rfl
  split
  · subst c; rfl
  split
  · rename_i hcode
    obtain rfl : c = '\x08' := Char.toNat_inj.1 hcode
    rfl
  split
  · rename_i hcode
    obtain rfl : c = '\x0c' := Char.toNat_inj.1 hcode
    rfl
  split
  · rename_i hcontrol
    exact scanUnicode_toNat (by omega)
  · rename_i hquote hslash _ _ _ _ _ hplain
    have hnext : next ([c] ++ rest) = some (c, rest) := rfl
    rw [scanStringChar, eval_bind hnext]
    split
    · contradiction
    · contradiction
    · exact eval_bind (eval_guard (by omega) rest)

theorem escape_ne_nil (c : Char) : escape c ≠ [] := by
  unfold escape
  repeat' split
  all_goals simp

theorem toList_writeString (s : String) :
    (writeString s).toList = '"' :: (s.toList.flatMap escape ++ ['"']) := by
  simp [writeString]

/-- A string is read back from between its quotes. -/
theorem scanString_writeString {s : String} (hbound : (writeString s).toList.length ≤ bound) :
    scanString bound ((writeString s).toList ++ rest) = some (s, rest) := by
  rw [toList_writeString] at hbound ⊢
  rw [List.length_cons, List.length_append] at hbound
  have hlength := length_le_length_flatMap escape_ne_nil s.toList
  have hchars : many scanStringChar bound (s.toList.flatMap escape ++ '"' :: rest) =
      some (s.toList, '"' :: rest) := many_flatMap scanStringChar_escape rfl (by omega)
  rw [List.cons_append, List.append_assoc, scanString, eval_bind (char_cons _ _)]
  refine (eval_bind hchars).trans ((eval_bind (char_cons _ _)).trans ?_)
  rw [String.ofList_toList]
  rfl

/-! ## Numbers -/

/-- What a number may go on with. -/
def isNumeric (c : Char) : Bool := c.isDigit || ".eE+-".toList.contains c

theorem isNumeric_of_isDigit {c : Char} (h : c.isDigit = true) : isNumeric c = true := by
  rw [isNumeric, h, Bool.true_or]

/-- Either of two marks is part of a number if both are. -/
theorem isNumeric_of_or {c d e : Char} (hd : isNumeric d = true) (he : isNumeric e = true)
    (h : (c = d || c = e) = true) : isNumeric c = true := by
  rcases Bool.or_eq_true_iff.1 h with h | h <;> rwa [of_decide_eq_true h]

theorem endsBefore_scanNumeral : EndsBefore isNumeric scanNumeral := by
  have hmark {d : Char} (hd : isNumeric d = true) (c : Char) (h : decide (c = d) = true) :
      isNumeric c = true := by rwa [of_decide_eq_true h]
  have hdigits : EndsBefore isNumeric (run1 Char.isDigit) :=
    endsBefore_run1 fun _ => isNumeric_of_isDigit
  have hwhole : EndsBefore isNumeric scanWhole :=
    hdigits.bind fun _ => (endsBefore_guard _).bind fun _ => endsBefore_pure _
  have hplaces : EndsBefore isNumeric scanPlaces := by
    refine (endsBefore_takeIf (hmark (by decide))).bind fun point? => ?_
    cases point? with
    | none => exact endsBefore_pure _
    | some point => exact hdigits.bind fun _ => endsBefore_pure _
  have hexponent : EndsBefore isNumeric scanExponent := by
    refine (endsBefore_takeIf fun c => isNumeric_of_or (by decide) (by decide)).bind fun mark? => ?_
    cases mark? with
    | none => exact endsBefore_pure _
    | some mark =>
        exact (endsBefore_takeIf fun c => isNumeric_of_or (by decide) (by decide)).bind fun _ =>
          hdigits.bind fun _ => endsBefore_pure _
  exact (endsBefore_takeIf (hmark (by decide))).bind fun _ => hwhole.bind fun _ =>
    hplaces.bind fun _ => hexponent.bind fun _ => endsBefore_pure _

/-- A number is read alike in front of anything that is not part of it. -/
theorem endsBefore_scanNumber : EndsBefore isNumeric scanNumber :=
  endsBefore_scanNumeral.bind fun _ => endsBefore_lift _

/-- Digits are a number, with a minus in front or without, and nothing else is part of it. -/
theorem scanNumeral_toDigits (negative : Bool) (n : Nat) :
    scanNumeral ((if negative then ['-'] else []) ++ Nat.toDigits 10 n) =
      some (⟨negative, Nat.toDigits 10 n, none, none⟩, []) := by
  have hne : Nat.toDigits 10 n ≠ [] := Nat.toDigits_ne_nil
  have hdigits : run1 Char.isDigit (Nat.toDigits 10 n) = some (Nat.toDigits 10 n, []) := by
    have hrun := run1_append hne (fun c => isDigit_of_mem_toDigits) (stops_nil Char.isDigit)
    rwa [List.append_nil] at hrun
  have hwhole : scanWhole (Nat.toDigits 10 n) = some (Nat.toDigits 10 n, []) := by
    rw [scanWhole, eval_bind hdigits, eval_bind (eval_guard (toDigits_leading n) _)]
    rfl
  have hsign : takeIf (· = '-') ((if negative then ['-'] else []) ++ Nat.toDigits 10 n) =
      some (if negative then some '-' else none, Nat.toDigits 10 n) := by
    cases negative with
    | true => rfl
    | false =>
        refine takeIf_of_stops fun c hc => decide_eq_false fun hminus => ?_
        have hdigit := isDigit_of_mem_toDigits (List.mem_of_mem_head? hc)
        rw [hminus] at hdigit
        exact absurd hdigit (by decide)
  rw [scanNumeral, eval_bind hsign, eval_bind hwhole]
  cases negative <;> rfl

/-- An integer of 64 bits, signed or unsigned, is read back from its digits. -/
theorem scanNumber_integer {n : Int} (hlow : -2 ^ 63 ≤ n) (hhigh : n < 2 ^ 64)
    (hstop : Stops isNumeric rest) :
    scanNumber ((toString n).toList ++ rest) = some (.integer n, rest) := by
  have hread : scanNumber (toString n).toList = some (.integer n, []) := by
    cases n with
    | ofNat m =>
        have htext : (toString (Int.ofNat m)).toList = Nat.toDigits 10 m := String.toList_ofList
        have hvalue : Numeral.value? ⟨false, Nat.toDigits 10 m, none, none⟩ =
            some (.integer (Int.ofNat m)) := by
          have hfits : m < UInt64.size := Int.ofNat_lt.1 hhigh
          simp [Numeral.value?, ofDigits_toDigits, hfits]
        rw [htext]
        refine (eval_bind (scanNumeral_toDigits false m)).trans ?_
        rw [hvalue]
        rfl
    | negSucc m =>
        have htext : (toString (Int.negSucc m)).toList = '-' :: Nat.toDigits 10 (m + 1) := by
          show ("-" ++ String.ofList (Nat.toDigits 10 (m + 1))).toList = _
          simp
        have hvalue : Numeral.value? ⟨true, Nat.toDigits 10 (m + 1), none, none⟩ =
            some (.integer (Int.negSucc m)) := by
          have hfits : m + 1 ≤ UInt64.size / 2 := by
            rw [show UInt64.size / 2 = 2 ^ 63 from rfl]
            omega
          simp [Numeral.value?, ofDigits_toDigits, hfits, Int.negSucc_eq]
        rw [htext]
        refine (eval_bind (scanNumeral_toDigits true (m + 1))).trans ?_
        rw [hvalue]
        rfl
  exact endsBefore_scanNumber.reads hstop hread

/-- A double is read from its text, and nothing of what follows. -/

theorem scanNumber_double {d : Double} (h : d.isRead = true) (hstop : Stops isNumeric rest) :
    scanNumber (d.write ++ rest) = some (.double d.reread, rest) := by
  unfold Double.isRead at h
  split at h
  · rename_i e hread
    rw [Double.reread, hread]
    exact endsBefore_scanNumber.reads hstop hread
  · cases h

/-! ## Scalars -/

/-- What does not start with a minus or a digit is no number. -/
theorem scanNumber_of_stops {cs : List Char} (h : Stops (fun c => c = '-' || c.isDigit) cs) :
    scanNumber cs = none := by
  have hsign : takeIf (· = '-') cs = some (none, cs) :=
    takeIf_of_stops (h.of_imp fun c hc => by simp [of_decide_eq_true hc])
  have hdigits : run1 Char.isDigit cs = none :=
    run1_of_stops (h.of_imp fun c hc => by simp [hc])
  have hnumeral : scanNumeral cs = none :=
    (eval_bind hsign).trans (eval_bind_none (eval_bind_none hdigits))
  exact eval_bind_none hnumeral

/-- A number is a scalar. -/
theorem scanScalar_of_scanNumber {cs left : List Char} {j : Json}
    (h : scanNumber cs = some (j, left)) : scanScalar bound cs = some (j, left) := by
  have hpeek : peek cs = some (cs.head?, cs) := rfl
  have hnot {c : Char} (hc : (decide (c = '-') || c.isDigit) = false) : cs.head? ≠ some c := by
    intro hhead
    have hstops : Stops (fun c => c = '-' || c.isDigit) cs := by
      rintro d hd
      cases hhead.symm.trans hd
      exact hc
    rw [scanNumber_of_stops hstops] at h
    cases h
  rw [scanScalar, eval_bind hpeek]
  refine (congrFun ?_ cs).trans h
  split
  · rename_i hhead
    exact absurd hhead (hnot (by decide))
  · rename_i hhead
    exact absurd hhead (hnot (by decide))
  · rename_i hhead
    exact absurd hhead (hnot (by decide))
  · rename_i hhead
    exact absurd hhead (hnot (by decide))
  · rfl

end Json

end Editorial
