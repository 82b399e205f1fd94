import Editorial.Proofs.Toml.Scalar

/-!
# Documents of plain fields are read back

A file that is written here is a list of lines, each with a name, an equals sign and a value.
Reading it the reader goes through keys, values and line ends, and adds each field to the
document it has so far. It refuses a name that is there already, so the names have to differ.

## Main results

* `scanLine_field` — a line adds its field to the document.
* `exists_read?_fields` — a document of such lines is read, and every field is in it.
-/

namespace Editorial.Toml

open Text Scan

variable {cs rest : List Char} {bound : Nat} {doc : Document}

/-- Whether a key needs no quotes. -/
def IsName (name : String) : Prop := name ≠ "" ∧ ∀ c ∈ name.toList, isBare c = true

instance (name : String) : Decidable (IsName name) :=
  decidable_of_iff (name ≠ "" ∧ name.toList.all isBare = true) (by rw [IsName, List.all_eq_true])

/-- A field as it stands on a line. -/
structure Field where
  name : String
  /-- What is written after the equals sign. -/
  value : String
  node : Node
  isName : IsName name
  denotes : Denotes value node

namespace Field

/-- A field with a number. -/
def ofNat (name : String) (hname : IsName name) (n : Nat) (h : n ≤ maxInteger) : Field :=
  ⟨name, toString (n : Int), .integer n, hname, denotes_integer (integer?_of_le h)⟩

/-- A field with a text. -/
def ofText (name : String) (hname : IsName name) (s : String) : Field :=
  ⟨name, quote s, .string s, hname, denotes_quote s⟩

/-- The characters of the line. -/
def chars (f : Field) : List Char := (line f.name f.value).toList

theorem chars_eq (f : Field) :
    f.chars = f.name.toList ++ ' ' :: '=' :: ' ' :: (f.value.toList ++ ['\n']) := by
  simp [chars, line]

theorem exists_chars_eq_cons (f : Field) : ∃ c cs, f.chars = c :: cs ∧ isBare c = true := by
  have hname : f.name.toList ≠ [] := by simpa using f.isName.1
  obtain ⟨c, cs, hcons⟩ := List.exists_cons_of_ne_nil hname
  exact ⟨c, _, by rw [chars_eq, hcons, List.cons_append], f.isName.2 c (hcons ▸ List.mem_cons_self)⟩

/-- The document with the field. -/
def addTo (f : Field) (doc : Document) : Document :=
  { doc with fields := Entries.insert f.name f.node doc.fields }

end Field

/-! ## Parts of a line -/

theorem gap_of_stops (h : Stops isGap cs) : gap cs = some ((), cs) := by
  have hrun : run isGap ([] ++ cs) = some ([], cs) := run_append (by simp) h
  exact eval_bind hrun

theorem gap_cons (h : Stops isGap cs) : gap (' ' :: cs) = some ((), cs) := by
  have hrun : run isGap ([' '] ++ cs) = some ([' '], cs) := run_append (by simp [isGap]) h
  exact eval_bind hrun

theorem ne_of_isBare {c d : Char} (h : isBare c = true) (hd : isBare d = false) : c ≠ d := by
  rintro rfl
  rw [h] at hd
  cases hd

theorem isGap_of_isBare {c : Char} (h : isBare c = true) : isGap c = false := by
  have hspace : c ≠ ' ' := ne_of_isBare h (by decide)
  have htab : c ≠ '\t' := ne_of_isBare h (by decide)
  simp [isGap, hspace, htab]

/-- A part of a key that starts with no quote has none. -/
theorem scanPart_of_isBare {c : Char} (h : isBare c = true) :
    scanPart bound (c :: cs) =
      (do return String.ofList (← run1 isBare) : Scan String) (c :: cs) := by
  have hpeek : peek (c :: cs) = some (some c, c :: cs) := rfl
  rw [scanPart, eval_bind hpeek]
  refine congrFun ?_ (c :: cs)
  split
  · rename_i hc; cases hc; exact absurd h (by decide)
  · rename_i hc; cases hc; exact absurd h (by decide)
  · rfl

/-- A name is read up to the blank after it. -/
theorem scanPart_name (f : Field) :
    scanPart bound (f.name.toList ++ ' ' :: rest) = some (f.name, ' ' :: rest) := by
  have hne : f.name.toList ≠ [] := by simpa using f.isName.1
  have hrun : run1 isBare (f.name.toList ++ ' ' :: rest) = some (f.name.toList, ' ' :: rest) :=
    run1_append hne f.isName.2 (stops_cons.2 (by decide))
  obtain ⟨c, cs, hcons⟩ := List.exists_cons_of_ne_nil hne
  have hc : isBare c = true := f.isName.2 c (hcons ▸ List.mem_cons_self)
  rw [hcons, List.cons_append] at hrun ⊢
  rw [scanPart_of_isBare hc, eval_bind hrun, ← hcons, String.ofList_toList]
  rfl

/-- The name is a key of one part. -/
theorem scanKey_name (f : Field) :
    scanKey bound (f.name.toList ++ ' ' :: '=' :: rest) = some (([], f.name), '=' :: rest) := by
  have hstops : Stops isGap (f.name.toList ++ ' ' :: '=' :: rest) := by
    have hne : f.name.toList ≠ [] := by simpa using f.isName.1
    obtain ⟨c, cs, hcons⟩ := List.exists_cons_of_ne_nil hne
    rw [hcons, List.cons_append, stops_cons]
    exact isGap_of_isBare (f.isName.2 c (hcons ▸ List.mem_cons_self))
  have hpart : (do gap; let name ← scanPart bound; gap; return name : Scan String)
      (f.name.toList ++ ' ' :: '=' :: rest) = some (f.name, '=' :: rest) := by
    rw [eval_bind (gap_of_stops hstops), eval_bind (scanPart_name f),
      eval_bind (gap_cons (stops_cons.2 (by decide)))]
    rfl
  have hdot : (do char '.'; gap; let name ← scanPart bound; gap; return name : Scan String)
      ('=' :: rest) = none := eval_bind_none (char_of_ne (by simp))
  rw [scanKey, eval_bind hpart, eval_bind (many_of_none hdot bound)]
  exact eval_bind (eval_guard (by decide) _)

/-- Name, equals sign and value are read up to the end of the line. -/
theorem scanPair_field (f : Field) (hbound : f.value.toList.length ≤ bound) :
    scanPair bound (scanValue bound depthLimit) (f.chars ++ rest) =
      some ((([], f.name), f.node), '\n' :: rest) := by
  have hchars : f.chars ++ rest =
      f.name.toList ++ ' ' :: '=' :: ' ' :: (f.value.toList ++ '\n' :: rest) := by
    simp [f.chars_eq]
  rw [hchars, scanPair, eval_bind (scanKey_name f), eval_bind (char_cons _ _),
    eval_bind (gap_cons (f.denotes.starts rest)), eval_bind (f.denotes.reads bound rest hbound),
    eval_bind (gap_of_stops (stops_cons.2 (by decide)))]
  rfl

theorem scanLineEnd_newline : scanLineEnd ('\n' :: rest) = some ((), rest) := by
  have hcomment : scanComment ('\n' :: rest) = none := eval_bind_none (char_of_ne (by simp))
  have hpeek : peek ('\n' :: rest) = some (some '\n', '\n' :: rest) := rfl
  rw [scanLineEnd, eval_bind (gap_of_stops (stops_cons.2 (by decide))),
    eval_bind (maybe_of_none hcomment), eval_bind hpeek]
  exact orElse_of_some (char_cons _ _)

/-! ## Lines -/

/-- A name that is not there yet is added. -/
theorem add_eq_addTo (f : Field) (hheader : doc.header = [])
    (hnew : Entries.lookup f.name doc.fields = none) :
    doc.add ([], f.name) f.node = some (f.addTo doc) := by
  rw [Document.add, Document.change, hheader]
  simp [descend, addAt, addField, hnew, hheader, Field.addTo]

/-- A line that starts with a name has a field. -/
theorem scanLine_of_isBare {c : Char} (h : isBare c = true) :
    scanLine bound doc (c :: cs) = scanEntry bound doc (c :: cs) := by
  have hpeek : peek (c :: cs) = some (some c, c :: cs) := rfl
  rw [scanLine, eval_bind (gap_of_stops (stops_cons.2 (isGap_of_isBare h))), eval_bind hpeek]
  refine congrFun ?_ (c :: cs)
  split
  · rename_i hc; cases hc; exact absurd h (by decide)
  · rename_i hc; cases hc; exact absurd h (by decide)
  · rename_i hc; cases hc; exact absurd h (by decide)
  · rename_i hc; cases hc; exact absurd h (by decide)
  · rfl

/-- A line adds its field to the document. -/
theorem scanLine_field (f : Field) (hbound : f.value.toList.length ≤ bound)
    (hheader : doc.header = []) (hnew : Entries.lookup f.name doc.fields = none) :
    scanLine bound doc (f.chars ++ rest) = some (f.addTo doc, rest) := by
  have hpair : scanPair bound (scanValue bound depthLimit) (f.chars ++ rest) =
      some ((([], f.name), f.node), '\n' :: rest) := scanPair_field f hbound
  obtain ⟨c, cs, hcons, hc⟩ := f.exists_chars_eq_cons
  rw [hcons, List.cons_append] at hpair ⊢
  rw [scanLine_of_isBare hc, scanEntry, eval_bind hpair]
  dsimp only
  rw [eval_bind scanLineEnd_newline, add_eq_addTo f hheader hnew]
  rfl

/-- One line after the other is read, and no field is lost again. -/
theorem exists_scanLines_fields {fields : List Field} {rounds : Nat}
    (hnames : (fields.map Field.name).Nodup)
    (hbound : ∀ f ∈ fields, f.value.toList.length ≤ bound)
    (hrounds : fields.length ≤ rounds) (hheader : doc.header = [])
    (hnew : ∀ f ∈ fields, Entries.lookup f.name doc.fields = none) :
    ∃ last, scanLines bound rounds doc (fields.flatMap Field.chars) = some (last, []) ∧
      (∀ f ∈ fields, Entries.lookup f.name last.fields = some f.node) ∧
      ∀ name, name ∉ fields.map Field.name →
        Entries.lookup name last.fields = Entries.lookup name doc.fields := by
  induction fields generalizing rounds doc with
  | nil =>
      have hend : scanLines bound rounds doc [] = some (doc, []) := by cases rounds <;> rfl
      exact ⟨doc, hend, by simp, fun name _ => rfl⟩
  | cons f fields ih =>
      obtain ⟨rounds, rfl⟩ : ∃ fewer, rounds = fewer + 1 :=
        ⟨rounds - 1, by simp only [List.length_cons] at hrounds; omega⟩
      rw [List.map_cons, List.nodup_cons] at hnames
      have hother : ∀ g ∈ fields, g.name ≠ f.name := fun g hg hname =>
        hnames.1 (hname ▸ List.mem_map_of_mem hg)
      have hnext : ∀ g ∈ fields, Entries.lookup g.name (f.addTo doc).fields = none := fun g hg =>
        (Entries.lookup_insert_ne _ (hother g hg) _).trans (hnew g (List.mem_cons_of_mem f hg))
      have hopen : (f.addTo doc).header = [] := hheader
      obtain ⟨last, hread, hmem, hkeep⟩ := ih hnames.2
        (fun g hg => hbound g (List.mem_cons_of_mem f hg)) (by simpa using hrounds) hopen hnext
      have hline : scanLine bound doc (f.chars ++ fields.flatMap Field.chars) =
          some (f.addTo doc, fields.flatMap Field.chars) :=
        scanLine_field f (hbound f List.mem_cons_self) hheader (hnew f List.mem_cons_self)
      refine ⟨last, ?_, ?_, ?_⟩
      · obtain ⟨c, cs, hcons, hc⟩ := f.exists_chars_eq_cons
        have hpeek : peek (c :: (cs ++ fields.flatMap Field.chars)) =
            some (some c, c :: (cs ++ fields.flatMap Field.chars)) := rfl
        rw [List.flatMap_cons]
        rw [hcons, List.cons_append] at hline ⊢
        rw [scanLines, eval_bind (gap_of_stops (stops_cons.2 (isGap_of_isBare hc))),
          eval_bind hpeek]
        dsimp only
        rw [eval_bind hline]
        exact hread
      · intro g hg
        rcases List.mem_cons.1 hg with rfl | hg
        · rw [hkeep g.name hnames.1]
          exact Entries.lookup_insert_self _ _ _
        · exact hmem g hg
      · intro name hname
        rw [List.map_cons, List.mem_cons, not_or] at hname
        rw [hkeep name hname.2]
        exact Entries.lookup_insert_ne _ hname.1 _

/-- The text is at least as long as it has lines, and as each of its values is. -/
theorem length_le_flatMap_chars (fields : List Field) :
    fields.length ≤ (fields.flatMap Field.chars).length ∧
      ∀ f ∈ fields, f.value.toList.length ≤ (fields.flatMap Field.chars).length := by
  induction fields with
  | nil => simp
  | cons f fields ih =>
      obtain ⟨hlines, hvalues⟩ := ih
      have hline : f.value.toList.length + 1 ≤ f.chars.length := by
        rw [f.chars_eq]
        simp only [List.length_append, List.length_cons]
        omega
      rw [List.flatMap_cons, List.length_append, List.length_cons]
      refine ⟨by omega, fun g hg => ?_⟩
      rcases List.mem_cons.1 hg with rfl | hg
      · omega
      · have hvalue := hvalues g hg
        omega

/-- A document of such lines is read, and every field is in it. -/
theorem exists_read?_fields {fields : List Field} (hnames : (fields.map Field.name).Nodup) :
    ∃ read, read? (String.ofList (fields.flatMap Field.chars)) = some read ∧
      ∀ f ∈ fields, Entries.lookup f.name read = some f.node := by
  obtain ⟨hlines, hvalues⟩ := length_le_flatMap_chars fields
  have hmark : char '\uFEFF' (fields.flatMap Field.chars) = none := by
    refine char_of_ne ?_
    cases fields with
    | nil => simp
    | cons f fields =>
        obtain ⟨c, cs, hcons, hc⟩ := f.exists_chars_eq_cons
        rw [List.flatMap_cons, hcons, List.cons_append]
        simpa using ne_of_isBare hc (by decide : isBare '\uFEFF' = false)
  have hopen : ({} : Document).header = [] := rfl
  obtain ⟨last, hread, hmem, -⟩ := exists_scanLines_fields hnames hvalues hlines hopen
    fun _ _ => rfl
  refine ⟨last.fields, ?_, hmem⟩
  rw [read?, whole, String.toList_ofList, String.length_ofList, eval_bind (maybe_of_none hmark),
    eval_bind hread]
  rfl

end Editorial.Toml
