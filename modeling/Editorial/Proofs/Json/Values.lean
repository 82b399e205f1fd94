import Editorial.Proofs.Json.Reread
import Editorial.Proofs.Json.Tokens

/-!
# Values are read back from their texts

The reader of a value goes down its containers as far as it is allowed to and fails in front
of the first one that is too deep. What it reads before that does not help: a list ends where
an item fails, with the comma before the item, and there has to be a bracket. So a text is
read if its containers are not nested too deep, and then its value is the one that was written,
read again.

Two things are asked of the value besides. Its numbers have to be such as can be read, and the
shape that the text is read for must have no field to pass over.

## Main results

* `reads_scanItems` — a container is read if all its items are.
* `reads_write` — a value is read back if it is not nested too deep.
* `readAs?_write` — so it is from a text that holds the value and nothing else, for a shape
  that passes over no field of it.
* `read?_write` — so it is where the text is read with all its fields.
-/

namespace Editorial.Json

open Text Scan

/-! ## Values that can be read -/

mutual

/-- Whether every number in a value is read from its text: the integers have 64 bits, signed
or unsigned, and no double is too large. -/
def numbersRead : Json → Bool
  | .integer n => -2 ^ 63 ≤ n && n < 2 ^ 64
  | .double d => d.isRead
  | .array items => numbersReadItems items
  | .object fields => numbersReadFields fields
  | .null | .boolean _ | .string _ => true

/-- `numbersRead` for every item. -/
def numbersReadItems : List Json → Bool
  | [] => true
  | item :: items => numbersRead item && numbersReadItems items

/-- `numbersRead` for every field. -/
def numbersReadFields : List (String × Json) → Bool
  | [] => true
  | (_, value) :: fields => numbersRead value && numbersReadFields fields

end

mutual

/-- Whether no field of a value is passed over where it is read for a shape. -/
def isCovered : Json → Shape → Bool
  | .array items, shape => isCoveredItems items shape 0
  | .object fields, shape => isCoveredFields fields shape
  | .null, _ | .boolean _, _ | .integer _, _ | .double _, _ | .string _, _ => true

/-- `isCovered` for the items at the places from `i` on. -/
def isCoveredItems : List Json → Shape → Nat → Bool
  | [], _, _ => true
  | item :: items, shape, i => isCovered item (shape.item i) && isCoveredItems items shape (i + 1)

/-- `isCovered` for every field. -/
def isCoveredFields : List (String × Json) → Shape → Bool
  | [], _ => true
  | (name, value) :: fields, shape =>
      (match shape.field? name with
        | some inner => isCovered value inner
        | none => false) && isCoveredFields fields shape

end

mutual

/-- What is kept as it is has no field that is passed over. -/
theorem isCovered_value : (j : Json) → j.isCovered .value = true
  | .array items => isCoveredItems_value items 0
  | .object fields => isCoveredFields_value fields
  | .null => rfl
  | .boolean _ => rfl
  | .integer _ => rfl
  | .double _ => rfl
  | .string _ => rfl

theorem isCoveredItems_value : (items : List Json) → (i : Nat) →
    isCoveredItems items .value i = true
  | [], _ => rfl
  | item :: items, i =>
      Bool.and_eq_true_iff.2 ⟨isCovered_value item, isCoveredItems_value items (i + 1)⟩

theorem isCoveredFields_value : (fields : List (String × Json)) →
    isCoveredFields fields .value = true
  | [] => rfl
  | (_, value) :: fields =>
      Bool.and_eq_true_iff.2 ⟨isCovered_value value, isCoveredFields_value fields⟩

end

/-! ## Texts -/

theorem writeItems_eq_map (items : List Json) : writeItems items = items.map write := by
  induction items with
  | nil => rfl
  | cons item items ih => rw [writeItems, ih, List.map_cons]

theorem writeFields_eq_map (fields : List (String × Json)) :
    writeFields fields = fields.map fun field => writeString field.1 ++ ":" ++ write field.2 := by
  induction fields with
  | nil => rfl
  | cons field fields ih => rw [writeFields, ih, List.map_cons]

/-- The text of a value, character by character. -/
def text (j : Json) : List Char := j.write.toList

/-- The text of a field. -/
def fieldText (field : String × Json) : List Char :=
  (writeString field.1).toList ++ ':' :: field.2.text

theorem text_array (items : List Json) :
    (array items).text = '[' :: ([','].intercalate (items.map text) ++ [']']) := by
  rw [text, write, writeItems_eq_map, String.toList_append, String.toList_append,
    String.toList_intercalate, List.map_map]
  rfl

theorem text_object (fields : List (String × Json)) :
    (object fields).text = '\x7b' :: ([','].intercalate (fields.map fieldText) ++ ['\x7d']) := by
  have hfield : (String.toList ∘ fun field : String × Json =>
      writeString field.1 ++ ":" ++ write field.2) = fieldText :=
    funext fun field => by simp [fieldText, text]
  rw [text, write, writeFields_eq_map, String.toList_append, String.toList_append,
    String.toList_intercalate, List.map_map, hfield]
  rfl

/-- A list of texts is its first one and the others, each after a comma. -/
theorem intercalate_cons (first : List Char) (others : List (List Char)) :
    [','].intercalate (first :: others) = first ++ others.flatMap (',' :: ·) := by
  induction others generalizing first with
  | nil => simp
  | cons second others ih =>
      rw [List.intercalate_cons_cons, ih, List.flatMap_cons]
      simp

/-! ## Loops -/

variable {α : Type}

/-- What a scan makes of a text wherever it is not followed by more of a number: it reads
`a?`, and it fails if that is nothing. -/
def Reads (p : Scan α) (text : List Char) (a? : Option α) : Prop :=
  ∀ rest, Stops isNumeric rest → p (text ++ rest) = a?.map fun a => (a, rest)

/-- What a scan for items makes of texts, from the place `i` on. -/
inductive ReadsEach (item : Nat → Scan α) : Nat → List (List Char) → List (Option α) → Prop
  | nil {i : Nat} : ReadsEach item i [] []
  | cons {i : Nat} {text : List Char} {texts : List (List Char)} {a? : Option α}
      {as? : List (Option α)} (hfirst : Reads (item i) text a?)
      (hothers : ReadsEach item (i + 1) texts as?) : ReadsEach item i (text :: texts) (a? :: as?)

variable {item : Nat → Scan α} {i bound : Nat} {close : Char} {rest : List Char}
  {texts : List (List Char)} {as? : List (Option α)}

theorem spaces_of_stops {cs : List Char} (h : Stops isSpace cs) : spaces cs = some ((), cs) := by
  have hrun : run isSpace ([] ++ cs) = some ([], cs) := run_append (by simp) h
  exact eval_bind hrun

/-- The text starts with something, and with nothing that stands between items or after
them. -/
structure Starts (text : List Char) : Prop where
  nonempty : text ≠ []
  stops : Stops (fun c => isSpace c || c = ']' || c = '\x7d') text

theorem Starts.spaces_append {text : List Char} (h : Starts text) (cs : List Char) :
    spaces (text ++ cs) = some ((), text ++ cs) :=
  spaces_of_stops ((h.stops.append h.nonempty cs).of_imp fun c hc => by simp [hc])

/-- What follows an item is no part of a number. -/
theorem stops_items (hclose : close = ']' ∨ close = '\x7d') :
    Stops isNumeric (texts.flatMap (',' :: ·) ++ close :: rest) := by
  cases texts with
  | nil => rcases hclose with rfl | rfl <;> exact stops_cons.2 (by decide)
  | cons text texts => exact stops_cons.2 (by decide)

/-- The loop for the other items takes all of them, or it ends at the comma before one that
cannot be read. -/
theorem manyFrom_of_readsEach (h : ReadsEach item i texts as?) (hbound : texts.length ≤ bound)
    (hstarts : ∀ text ∈ texts, Starts text) (hclose : close = ']' ∨ close = '\x7d') :
    ∃ as left, manyFrom (fun i => do spaces; char ','; spaces; item i) bound i
        (texts.flatMap (',' :: ·) ++ close :: rest) = some (as, left) ∧
      ((as?.mapM id = some as ∧ left = close :: rest) ∨
        (as?.mapM id = none ∧ left.head? = some ',')) := by
  have hspace : Stops isSpace (close :: rest) := by
    rcases hclose with rfl | rfl <;> exact stops_cons.2 (by decide)
  have hcomma : (close :: rest).head? ≠ some ',' := by
    rcases hclose with rfl | rfl <;> simp
  induction h generalizing bound with
  | @nil i =>
      have hnone : (do spaces; char ','; spaces; item i : Scan α) (close :: rest) = none :=
        (eval_bind (spaces_of_stops hspace)).trans (eval_bind_none (char_of_ne hcomma))
      refine ⟨[], close :: rest, ?_, .inl ⟨rfl, rfl⟩⟩
      cases bound with
      | zero => rfl
      | succ bound => exact eval_bind (maybe_of_none hnone)
  | @cons i text texts a? as? hfirst hothers ih =>
      obtain ⟨bound, rfl⟩ : ∃ fewer, bound = fewer + 1 :=
        ⟨bound - 1, by simp only [List.length_cons] at hbound; omega⟩
      have hstart := hstarts text (List.mem_cons_self ..)
      let after := texts.flatMap (',' :: ·) ++ close :: rest
      have htext : (text :: texts).flatMap (',' :: ·) ++ close :: rest =
          ',' :: (text ++ after) := by simp [after]
      have hitem : (do spaces; char ','; spaces; item i : Scan α) (',' :: (text ++ after)) =
          a?.map fun a => (a, after) := by
        have hstop : Stops isSpace (',' :: (text ++ after)) := stops_cons.2 (by decide)
        refine (eval_bind (spaces_of_stops hstop)).trans ((eval_bind (char_cons _ _)).trans ?_)
        exact (eval_bind (hstart.spaces_append after)).trans (hfirst after (stops_items hclose))
      rw [htext, manyFrom]
      cases a? with
      | none =>
          refine ⟨[], ',' :: (text ++ after), eval_bind (maybe_of_none hitem), .inr ⟨rfl, rfl⟩⟩
      | some a =>
          obtain ⟨as, left, hmany, hends⟩ := ih (by simpa using hbound)
            fun text hm => hstarts text (List.mem_cons_of_mem _ hm)
          refine ⟨a :: as, left, (eval_bind (maybe_of_some hitem)).trans (eval_bind hmany), ?_⟩
          rcases hends with ⟨hall, hleft⟩ | ⟨hnone, hleft⟩
          · exact .inl ⟨by rw [List.mapM_cons, hall]; rfl, hleft⟩
          · exact .inr ⟨by rw [List.mapM_cons, hnone]; rfl, hleft⟩

/-- A container is read if all its items are. -/
theorem reads_scanItems (h : ReadsEach item 0 texts as?) (hbound : texts.length ≤ bound + 1)
    (hstarts : ∀ text ∈ texts, Starts text) (hclose : close = ']' ∨ close = '\x7d') :
    scanItems bound item close ([','].intercalate texts ++ close :: rest) =
      (as?.mapM id).map fun as => (as, rest) := by
  have hspace : Stops isSpace (close :: rest) := by
    rcases hclose with rfl | rfl <;> exact stops_cons.2 (by decide)
  cases h with
  | nil =>
      have hend : takeIf (· = close) (close :: rest) = some (some close, rest) := by simp [takeIf]
      exact (eval_bind (spaces_of_stops hspace)).trans (eval_bind hend)
  | @cons _ text texts a? as? hfirst hothers =>
      have hstart := hstarts text (List.mem_cons_self ..)
      let after := texts.flatMap (',' :: ·) ++ close :: rest
      have htext : [','].intercalate (text :: texts) ++ close :: rest = text ++ after := by
        rw [intercalate_cons, List.append_assoc]
      have hmore : takeIf (· = close) (text ++ after) = some (none, text ++ after) := by
        refine takeIf_of_stops ((hstart.stops.append hstart.nonempty after).of_imp fun c hc => ?_)
        rcases hclose with rfl | rfl <;> simp [of_decide_eq_true hc]
      have hitem := hfirst after (stops_items hclose)
      rw [htext, scanItems, eval_bind (hstart.spaces_append after), eval_bind hmore]
      cases a? with
      | none => exact eval_bind_none hitem
      | some a =>
          obtain ⟨as, left, hmany, hends⟩ := manyFrom_of_readsEach hothers
            (Nat.le_of_succ_le_succ hbound)
            (fun text hm => hstarts text (List.mem_cons_of_mem _ hm)) hclose
          refine (eval_bind hitem).trans ((eval_bind hmany).trans ?_)
          rcases hends with ⟨hall, rfl⟩ | ⟨hnone, hleft⟩
          · rw [List.mapM_cons, hall, eval_bind (spaces_of_stops hspace),
              eval_bind (char_cons _ _)]
            rfl
          · have hstop : Stops isSpace left := fun c hc => by
              cases hleft.symm.trans hc
              decide
            have hnot : left.head? ≠ some close := by
              rw [hleft]
              rcases hclose with rfl | rfl <;> decide
            rw [List.mapM_cons, hnone, eval_bind (spaces_of_stops hstop)]
            exact eval_bind_none (char_of_ne hnot)

/-! ## Scalars and fields -/

/-- A number starts with a minus or a digit. -/
theorem starts_of_scanNumber {cs left : List Char} {j : Json}
    (h : scanNumber cs = some (j, left)) : Starts cs := by
  have hhead : ¬ Stops (fun c => c = '-' || c.isDigit) cs := fun hstops => by
    rw [scanNumber_of_stops hstops] at h
    cases h
  cases cs with
  | nil => exact absurd (stops_nil _) hhead
  | cons c cs =>
      refine ⟨List.cons_ne_nil c cs, stops_cons.2 (Bool.eq_false_iff.2 fun hc => hhead ?_)⟩
      simp only [isSpace, Bool.or_eq_true, decide_eq_true_eq] at hc
      rcases hc with ((((rfl | rfl) | rfl) | rfl) | rfl) | rfl <;> exact stops_cons.2 (by decide)

theorem starts_cons {c : Char} (hc : (isSpace c || c = ']' || c = '\x7d') = false)
    (cs : List Char) : Starts (c :: cs) := ⟨List.cons_ne_nil c cs, stops_cons.2 hc⟩

theorem starts_text {j : Json} (h : j.numbersRead = true) : Starts j.text := by
  cases j with
  | null => exact starts_cons (by decide) _
  | boolean value => cases value <;> exact starts_cons (by decide) _
  | integer n =>
      obtain ⟨hlow, hhigh⟩ : -2 ^ 63 ≤ n ∧ n < 2 ^ 64 := by simpa [numbersRead] using h
      have hread := scanNumber_integer hlow hhigh (stops_nil _)
      rw [List.append_nil] at hread
      exact starts_of_scanNumber hread
  | double d =>
      have hread := scanNumber_double h (stops_nil _)
      rw [List.append_nil] at hread
      rw [text, write, String.toList_ofList]
      exact starts_of_scanNumber hread
  | string s =>
      rw [text, write, toList_writeString]
      exact starts_cons (by decide) _
  | array items =>
      rw [text_array]
      exact starts_cons (by decide) _
  | object fields =>
      rw [text_object]
      exact starts_cons (by decide) _

theorem starts_fieldText (field : String × Json) : Starts (fieldText field) := by
  rw [fieldText, toList_writeString]
  exact starts_cons (by decide) _

/-- What starts with a bracket or a brace is no scalar. -/
theorem scanScalar_of_container {c : Char} (hc : c = '[' ∨ c = '\x7b') (cs : List Char) :
    scanScalar bound (c :: cs) = none := by
  have hnumber : scanNumber (c :: cs) = none := by
    refine scanNumber_of_stops (stops_cons.2 ?_)
    rcases hc with rfl | rfl <;> decide
  rcases hc with rfl | rfl <;> exact hnumber

/-- What is read as a scalar is read as a value, at any depth. -/
theorem scanValue_of_scanScalar {depth : Nat} {shape : Shape} {cs left : List Char} {j : Json}
    (h : scanScalar bound cs = some (j, left)) :
    scanValue bound depth shape cs = some (j, left) := by
  have hnot {c : Char} (hc : c = '[' ∨ c = '\x7b') : cs.head? ≠ some c := by
    intro hhead
    obtain ⟨tail, rfl⟩ := List.head?_eq_some_iff.1 hhead
    rw [scanScalar_of_container hc] at h
    cases h
  cases depth with
  | zero => exact h
  | succ depth =>
      have hpeek : peek cs = some (cs.head?, cs) := rfl
      rw [scanValue, eval_bind hpeek]
      refine (congrFun ?_ cs).trans h
      split
      · rename_i hhead
        exact absurd hhead (hnot (.inl rfl))
      · rename_i hhead
        exact absurd hhead (hnot (.inr rfl))
      · rfl

/-- A field is read if its value is, unless it is passed over. -/
theorem reads_scanField {shape inner : Shape} {depth : Nat} {name : String} {value : Json}
    {j? : Option Json} (hname : (writeString name).toList.length ≤ bound)
    (hshape : shape.field? name = some inner)
    (hvalue : Reads (scanValue bound depth inner) value.text j?) (hstarts : Starts value.text) :
    Reads (scanField bound (scanValue bound depth) shape) (fieldText (name, value))
      (j?.map fun j => some (name, j)) := by
  intro rest hstop
  have hcolon : Stops isSpace (':' :: (value.text ++ rest)) := stops_cons.2 (by decide)
  rw [fieldText, List.append_assoc, List.cons_append, scanField,
    eval_bind (scanString_writeString hname), eval_bind (spaces_of_stops hcolon),
    eval_bind (char_cons _ _), eval_bind (hstarts.spaces_append rest), hshape]
  have hread := hvalue rest hstop
  cases j? with
  | none => exact eval_bind_none hread
  | some j => exact eval_bind hread

/-- What the reader of scalars makes of a value that is none of the containers. -/
theorem scanScalar_text {j : Json} (h : j.numbersRead = true) (hflat : j.depth = 0)
    (hbound : j.text.length ≤ bound) (hstop : Stops isNumeric rest) :
    scanScalar bound (j.text ++ rest) = some (j.reread, rest) := by
  cases j with
  | null => rfl
  | boolean value => cases value <;> rfl
  | integer n =>
      obtain ⟨hlow, hhigh⟩ : -2 ^ 63 ≤ n ∧ n < 2 ^ 64 := by simpa [numbersRead] using h
      exact scanScalar_of_scanNumber (scanNumber_integer hlow hhigh hstop)
  | double d =>
      rw [text, write, String.toList_ofList]
      exact scanScalar_of_scanNumber (scanNumber_double h hstop)
  | string s =>
      have hread : scanString bound ((writeString s).toList ++ rest) = some (s, rest) :=
        scanString_writeString hbound
      have hhead : (writeString s).toList ++ rest =
          '"' :: (s.toList.flatMap escape ++ ['"'] ++ rest) := by
        rw [toList_writeString, List.cons_append]
      have hpeek : peek ('"' :: (s.toList.flatMap escape ++ ['"'] ++ rest)) =
          some (some '"', '"' :: (s.toList.flatMap escape ++ ['"'] ++ rest)) := rfl
      rw [text, write]
      rw [hhead] at hread ⊢
      rw [scanScalar, eval_bind hpeek]
      exact eval_bind hread
  | array items => cases hflat
  | object fields => cases hflat

/-! ## Values -/

/-- A list of readings has a value if all of them have one. -/
theorem mapM_ite {β γ : Type} (l : List β) (p : β → Prop) [DecidablePred p] (f : β → γ) :
    (l.map fun b => if p b then some (f b) else none).mapM id =
      if ∀ b ∈ l, p b then some (l.map f) else none := by
  induction l with
  | nil => rfl
  | cons b l ih =>
      rw [List.map_cons, List.mapM_cons, ih]
      by_cases hb : p b
      · by_cases hl : ∀ b ∈ l, p b
        · rw [if_pos hb, if_pos hl, if_pos (List.forall_mem_cons.2 ⟨hb, hl⟩)]
          rfl
        · rw [if_pos hb, if_neg hl, if_neg fun h => hl (List.forall_mem_cons.1 h).2]
          rfl
      · rw [if_neg hb, if_neg fun h => hb (List.forall_mem_cons.1 h).1]
        rfl

theorem rereadItems_eq_map (items : List Json) : rereadItems items = items.map reread := by
  induction items with
  | nil => rfl
  | cons item items ih => rw [rereadItems, ih, List.map_cons]

theorem numbersRead_of_mem {items : List Json} (h : numbersReadItems items = true) :
    ∀ item ∈ items, item.numbersRead = true := by
  induction items with
  | nil => exact List.forall_mem_nil _
  | cons item items ih =>
      obtain ⟨hitem, hitems⟩ := Bool.and_eq_true_iff.1 h
      exact List.forall_mem_cons.2 ⟨hitem, ih hitems⟩

/-- Every item is part of the text. -/
theorem length_le_of_mem {text : List Char} (hm : text ∈ texts) :
    text.length ≤ ([','].intercalate texts).length := by
  cases texts with
  | nil => cases hm
  | cons first others =>
      rw [intercalate_cons, List.length_append]
      rcases List.mem_cons.1 hm with rfl | hm
      · exact Nat.le_add_right ..
      · have hpart : (',' :: text) <:+: others.flatMap (',' :: ·) :=
          List.infix_of_mem_flatten (List.mem_map_of_mem hm)
        have hlength := hpart.length_le
        rw [List.length_cons] at hlength
        omega

/-- There is a comma for every item but one. -/
theorem length_le_intercalate (texts : List (List Char)) :
    texts.length ≤ ([','].intercalate texts).length + 1 := by
  cases texts with
  | nil => exact Nat.zero_le _
  | cons first others =>
      have hcommas : others.length ≤ (others.flatMap (',' :: ·)).length :=
        length_le_length_flatMap (fun text => List.cons_ne_nil ',' text) others
      rw [intercalate_cons, List.length_append, List.length_cons]
      omega

section

variable {opening close : Char}
  (hbound : (opening :: ([','].intercalate texts ++ [close])).length ≤ bound)
include hbound

/-- No item is longer than its container. -/
theorem length_le_of_container {text : List Char} (hm : text ∈ texts) : text.length ≤ bound := by
  have hpart := length_le_of_mem hm
  rw [List.length_cons, List.length_append] at hbound
  omega

/-- The bound for the loop lets all items of a container pass. -/
theorem count_le_of_container : texts.length ≤ bound + 1 := by
  have hcommas := length_le_intercalate texts
  rw [List.length_cons, List.length_append] at hbound
  omega

end

/-- The items of a container are read by the loop for them. -/
theorem scan_container {opening close : Char} {inner rest : List Char} {wrap : List α → Json}
    {as? : Option (List α)}
    (h : scanItems bound item close (inner ++ close :: rest) = as?.map fun as => (as, rest)) :
    (do char opening; return wrap (← scanItems bound item close) : Scan Json)
        (opening :: (inner ++ [close] ++ rest)) = (as?.map wrap).map fun j => (j, rest) := by
  rw [List.append_assoc, List.singleton_append, eval_bind (char_cons _ _)]
  cases as? with
  | none => exact eval_bind_none h
  | some as => exact eval_bind h

section

variable {depth : Nat} {shape : Shape}

theorem reads_array {items : List Json} (hnumbers : numbersReadItems items = true)
    (hbound : (array items).text.length ≤ bound)
    (h : ReadsEach (fun i => scanValue bound depth (shape.item i)) 0 (items.map text)
      (items.map fun j => if j.depth ≤ depth then some j.reread else none)) :
    Reads (scanValue bound (depth + 1) shape) (array items).text
      (if (array items).depth ≤ depth + 1 then some (array items).reread else none) := by
  intro rest _
  rw [text_array] at hbound ⊢
  have hstarts : ∀ part ∈ items.map text, Starts part := List.forall_mem_map.2 fun item hm =>
    starts_text (numbersRead_of_mem hnumbers item hm)
  have hpeek {cs : List Char} : peek ('[' :: cs) = some (some '[', '[' :: cs) := rfl
  rw [List.cons_append, scanValue, eval_bind hpeek]
  refine (scan_container
    (reads_scanItems h (count_le_of_container hbound) hstarts (.inl rfl))).trans ?_
  rw [mapM_ite]
  by_cases hdeep : ∀ item ∈ items, item.depth ≤ depth
  · rw [if_pos hdeep, if_pos (depth_array_le_iff.2 hdeep), reread, rereadItems_eq_map]
    rfl
  · rw [if_neg hdeep, if_neg (mt depth_array_le_iff.1 hdeep)]
    rfl

theorem reads_object {fields : List (String × Json)} (hbound : (object fields).text.length ≤ bound)
    (h : ReadsEach (fun _ => scanField bound (scanValue bound depth) shape) 0
      (fields.map fieldText) (fields.map fun field =>
        if field.2.depth ≤ depth then some (some (field.1, field.2.reread)) else none)) :
    Reads (scanValue bound (depth + 1) shape) (object fields).text
      (if (object fields).depth ≤ depth + 1 then some (object fields).reread else none) := by
  intro rest _
  rw [text_object] at hbound ⊢
  have hstarts : ∀ part ∈ fields.map fieldText, Starts part := List.forall_mem_map.2 fun field _ =>
    starts_fieldText field
  have hpeek {cs : List Char} : peek ('\x7b' :: cs) = some (some '\x7b', '\x7b' :: cs) := rfl
  rw [List.cons_append, scanValue, eval_bind hpeek]
  refine (scan_container
    (reads_scanItems h (count_le_of_container hbound) hstarts (.inr rfl))).trans ?_
  rw [mapM_ite]
  by_cases hdeep : ∀ field ∈ fields, field.2.depth ≤ depth
  · rw [if_pos hdeep, if_pos (depth_object_le_iff.2 hdeep), reread, rereadFields_eq_map]
    simp [List.filterMap_map]
  · rw [if_neg hdeep, if_neg (mt depth_object_le_iff.1 hdeep)]
    rfl

end

mutual

/-- A value is read back if it is not nested too deep, and else its text cannot be read. -/
theorem reads_write : (j : Json) → ∀ (bound depth : Nat) (shape : Shape),
    j.isCovered shape = true → j.numbersRead = true → j.text.length ≤ bound →
    Reads (scanValue bound depth shape) j.text (if j.depth ≤ depth then some j.reread else none)
  | .array items => by
      intro bound depth shape hcovered hnumbers hbound
      cases depth with
      | zero =>
          intro rest _
          rw [text_array]
          exact scanScalar_of_container (.inl rfl) _
      | succ depth =>
          refine reads_array hnumbers hbound ?_
          refine readsEach_items items bound depth 0 shape hcovered hnumbers fun item hm => ?_
          rw [text_array] at hbound
          exact length_le_of_container hbound (List.mem_map_of_mem hm)
  | .object fields => by
      intro bound depth shape hcovered hnumbers hbound
      cases depth with
      | zero =>
          intro rest _
          rw [text_object]
          exact scanScalar_of_container (.inr rfl) _
      | succ depth =>
          refine reads_object hbound ?_
          refine readsEach_fields fields bound depth 0 shape hcovered hnumbers fun field hm => ?_
          rw [text_object] at hbound
          exact length_le_of_container hbound (List.mem_map_of_mem hm)
  | .null => fun _ _ _ _ h hb rest hr => scanValue_of_scanScalar (scanScalar_text h rfl hb hr)
  | .boolean _ => fun _ _ _ _ h hb rest hr => scanValue_of_scanScalar (scanScalar_text h rfl hb hr)
  | .integer _ => fun _ _ _ _ h hb rest hr => scanValue_of_scanScalar (scanScalar_text h rfl hb hr)
  | .double _ => fun _ _ _ _ h hb rest hr => scanValue_of_scanScalar (scanScalar_text h rfl hb hr)
  | .string _ => fun _ _ _ _ h hb rest hr => scanValue_of_scanScalar (scanScalar_text h rfl hb hr)

theorem readsEach_items : (items : List Json) → ∀ (bound depth i : Nat) (shape : Shape),
    isCoveredItems items shape i = true → numbersReadItems items = true →
    (∀ item ∈ items, item.text.length ≤ bound) →
    ReadsEach (fun i => scanValue bound depth (shape.item i)) i (items.map text)
      (items.map fun j => if j.depth ≤ depth then some j.reread else none)
  | [] => fun _ _ _ _ _ _ _ => .nil
  | item :: items => by
      intro bound depth i shape hcovered hnumbers hbound
      obtain ⟨hcovers, hcovered⟩ := Bool.and_eq_true_iff.1 hcovered
      obtain ⟨hnumber, hnumbers⟩ := Bool.and_eq_true_iff.1 hnumbers
      obtain ⟨hlength, hbound⟩ := List.forall_mem_cons.1 hbound
      exact .cons (reads_write item bound depth _ hcovers hnumber hlength)
        (readsEach_items items bound depth (i + 1) shape hcovered hnumbers hbound)

theorem readsEach_fields : (fields : List (String × Json)) →
    ∀ (bound depth i : Nat) (shape : Shape),
    isCoveredFields fields shape = true → numbersReadFields fields = true →
    (∀ field ∈ fields, (fieldText field).length ≤ bound) →
    ReadsEach (fun _ => scanField bound (scanValue bound depth) shape) i (fields.map fieldText)
      (fields.map fun field =>
        if field.2.depth ≤ depth then some (some (field.1, field.2.reread)) else none)
  | [] => fun _ _ _ _ _ _ _ => .nil
  | (name, value) :: fields => by
      intro bound depth i shape hcovered hnumbers hbound
      obtain ⟨hcovers, hcovered⟩ := Bool.and_eq_true_iff.1 hcovered
      obtain ⟨hnumber, hnumbers⟩ := Bool.and_eq_true_iff.1 hnumbers
      obtain ⟨hlength, hbound⟩ := List.forall_mem_cons.1 hbound
      refine .cons ?_ (readsEach_fields fields bound depth (i + 1) shape hcovered hnumbers hbound)
      replace hlength : (writeString name).toList.length + (value.text.length + 1) ≤ bound := by
        simpa [fieldText] using hlength
      split at hcovers
      · rename_i inner hshape
        have hvalue := reads_write value bound depth inner hcovers hnumber (by omega)
        have hname : (writeString name).toList.length ≤ bound := by omega
        have hfield := reads_scanField hname hshape hvalue (starts_text hnumber)
        show Reads _ _ (if value.depth ≤ depth then some (some (name, value.reread)) else none)
        by_cases hdepth : value.depth ≤ depth
        · rw [if_pos hdepth] at hfield ⊢
          exact hfield
        · rw [if_neg hdepth] at hfield ⊢
          exact hfield
      · cases hcovers

end

/-- A text that holds a value and nothing else is read if the value is not nested too deep. -/
theorem readAs?_write {j : Json} {shape : Shape} (hcovered : j.isCovered shape = true)
    (hnumbers : j.numbersRead = true) :
    readAs? shape j.write = if j.depth ≤ depthLimit then some j.reread else none := by
  have hbound : j.text.length ≤ j.write.length := Nat.le_of_eq String.length_toList
  have hread :=
    reads_write j j.write.length depthLimit shape hcovered hnumbers hbound [] (stops_nil _)
  have hspaces := (starts_text hnumbers).spaces_append []
  rw [List.append_nil] at hread hspaces
  have hscan : (do spaces; let j ← scanValue j.write.length depthLimit shape; spaces; return j :
      Scan Json) j.text = if j.depth ≤ depthLimit then some (j.reread, []) else none := by
    rw [eval_bind hspaces]
    by_cases hdepth : j.depth ≤ depthLimit
    · rw [if_pos hdepth] at hread ⊢
      exact eval_bind hread
    · rw [if_neg hdepth] at hread ⊢
      exact eval_bind_none hread
  rw [readAs?, whole, show j.write.toList = j.text from rfl, hscan]
  by_cases hdepth : j.depth ≤ depthLimit
  · rw [if_pos hdepth, if_pos hdepth]
  · rw [if_neg hdepth, if_neg hdepth]

/-- A value is the one that was written, read again, unless it is nested too deep. -/
theorem read?_write {j : Json} (hnumbers : j.numbersRead = true) :
    read? j.write = if j.depth ≤ depthLimit then some j.reread else none :=
  readAs?_write j.isCovered_value hnumbers

/-- A minus belongs to a number, a comma and a brace do not. -/
example :
    let j := array [integer (-7), object [("a\n", string "é"), ("b", integer 0)], array []]
    read? j.write = some j := by
  decide +kernel

end Editorial.Json
