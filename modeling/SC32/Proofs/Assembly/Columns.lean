import SC32.Assembly.Listing
import SC32.Proofs.Assembly.Line
import SC32.Proofs.Assembly.Unlabelled

/-!
# The columns of a listing

A row that shows a word can be cut into its columns, whatever the label is and however long the
numbers are. Main statements: the columns of one row, and of all rows of a listing.
-/
namespace SC32.Assembly

open Text

/-- The parts of a row that show its word. -/
structure Columns where
  hexadecimal : List Char
  /-- With spaces between the fields and behind them. -/
  bits : List Char
  /-- In colour. -/
  body : List Char
  deriving DecidableEq

/-- Cut a row where its columns stand: eight digits behind the address in brackets, the bits behind
the number of the line and its colon, and the body behind the label, if there is one, and blanks. -/
def Columns.ofRow (row : List Char) : Columns :=
  let digits := (row.dropWhile (· ≠ ']')).drop 2
  let bits := (digits.dropWhile (· ≠ ':')).drop 2
  let label := bits.drop 35
  ⟨digits.take 8, bits.take 34, (label.dropWhile (! isBlank ·)).dropWhile isBlank⟩

/-- The body as a source line. -/
def Columns.source (c : Columns) : String := String.ofList (uncoloured c.body)

/-- A row shows a word if it begins with an address in brackets. -/
def isWordRow (row : String) : Bool := row.toList.head? = some '['

/-- The columns of the rows that show a word. -/
def columns (listing : List String) : List Columns :=
  (listing.filter isWordRow).map fun row => Columns.ofRow row.toList

/-- The columns of a line with its word. -/
def columnsOf (l : Line) (w : Word) : Columns :=
  ⟨(Field.hexadecimal w).toList, (alignLeft 34 (bitColumn l w)).toList, (bodyColumn l w).toList⟩

theorem hexadecimal_columnsOf (l : Line) (w : Word) :
    (columnsOf l w).hexadecimal = (Field.hexadecimal w).toList := by
  rw [columnsOf]

theorem bits_columnsOf (l : Line) (w : Word) :
    (columnsOf l w).bits = (alignLeft 34 (bitColumn l w)).toList := by
  rw [columnsOf]

theorem source_columnsOf (l : Line) (w : Word) :
    (columnsOf l w).source = String.ofList (uncoloured (bodyColumn l w).toList) := by
  rw [Columns.source, columnsOf]

/-! ### One row -/

theorem render_blank (n : Nat) : (Row.blank n).render = rule 16 ' ' ++ lineNumber n := rfl

theorem render_word (n a : Nat) (l : Line) (w : Word) :
    (Row.word n a l w).render =
      "[" ++ zeroFill 4 (Decimal.ofNat a) ++ "] " ++ Field.hexadecimal w ++ " " ++ lineNumber n ++
        " " ++ alignLeft 34 (bitColumn l w) ++ " " ++ labelColumn l ++ " " ++ bodyColumn l w := rfl

/-- What is dropped ends where the first character is kept. -/
theorem dropWhile_append_of_head? {p : Char → Bool} {s rest : List Char}
    (hs : ∀ c ∈ s, p c = true) (hrest : ∀ c ∈ rest.head?, p c = false) :
    (s ++ rest).dropWhile p = rest := by
  rw [List.dropWhile_append_of_pos hs]
  cases rest with
  | nil => rfl
  | cons c rest => rw [List.dropWhile_cons_of_neg (by simp [hrest c rfl])]

theorem dropWhile_ne_append {c : Char} {s : List Char} (h : c ∉ s) (rest : List Char) :
    (s ++ c :: rest).dropWhile (· ≠ c) = c :: rest := by
  refine dropWhile_append_of_head? ?_ (by simp)
  intro d hd
  refine decide_eq_true ?_
  rintro rfl
  exact h hd

/-- A numeral that is padded contains no other character. -/
theorem not_mem_leftpad_ofNat {c pad : Char} (hc : c.isDigit = false) (hpad : c ≠ pad)
    (width n : Nat) : c ∉ (String.ofList ((Decimal.ofNat n).toList.leftpad width pad)).toList := by
  rw [String.toList_ofList, List.leftpad, List.mem_append, Decimal.toList_ofNat]
  rintro (h | h)
  · exact hpad (List.eq_of_mem_replicate h)
  · rw [(Decimal.isRun_toDigits n).2 c h] at hc
    cases hc

theorem not_mem_hexadecimal {c : Char} (h : ∀ d < 16, d.digitChar.toUpper ≠ c) (w : Word) :
    c ∉ (Field.hexadecimal w).toList := by
  rw [Field.hexadecimal, String.toList_ofList, List.mem_map]
  rintro ⟨i, -, hi⟩
  exact h _ (w.extractLsb' (4 * i) 4).isLt hi

theorem length_bitColumn (l : Line) (w : Word) :
    (alignLeft 34 (bitColumn l w)).toList.length = 34 := by
  have hle : (bitColumn l w).toList.length ≤ 34 := by
    unfold bitColumn
    split
    · exact Instruction.length_fieldListing_le _
    · rw [Field.toList_encode, Field.length_bits]
      decide
  rw [toList_alignLeft, List.length_append, List.length_replicate]
  omega

theorem head?_on_append (c : Colour) (s : String) : (c.on ++ s).toList.head? = some '\x1b' := by
  rw [String.toList_append, Colour.on, toList_rendition]
  rfl

/-- The body begins with a colour. -/
theorem head?_bodyColumn (l : Line) (w : Word) :
    (bodyColumn l w).toList.head? = some '\x1b' := by
  unfold bodyColumn
  split
  · next i _ =>
    obtain ⟨s, hs⟩ := i.exists_display_eq
    rw [hs, head?_on_append]
  · simp only [String.append_assoc, head?_on_append]

theorem mem_tokens_of_label {raw name : String} {l : Line} (h : Line.parse? raw = some l)
    (hname : l.label = some name) : name ∈ tokens raw := by
  obtain ⟨htokens, -⟩ := (ofTokens?_eq_some_iff _ l).mp h
  rw [htokens]
  simp [Line.tokens, hname]

/-- The label column is one run of characters, it may be empty, and spaces behind it. -/
theorem exists_labelColumn_eq {raw : String} {l : Line} (h : Line.parse? raw = some l) :
    ∃ s n, (labelColumn l).toList = s ++ List.replicate n ' ' ∧ ∀ c ∈ s, isBlank c = false := by
  refine ⟨_, _, toList_alignLeft 8 _, ?_⟩
  cases hl : l.label with
  | none => exact List.forall_mem_nil _
  | some name =>
    have hname := (isToken_of_mem_tokens (mem_tokens_of_label h hl)).2
    have hon : ∀ c ∈ Colour.green.on.toList, isBlank c = false := not_isBlank_of_all (by decide)
    have hplain : ∀ c ∈ plain.toList, isBlank c = false := not_isBlank_of_all (by decide)
    intro c hc
    simp only [coloured, String.toList_append, List.mem_append] at hc
    rcases hc with (hc | hc) | hc
    · exact hon c hc
    · exact hname c hc
    · exact hplain c hc

/-- Behind the label there is nothing but spaces up to the body. -/
theorem dropWhile_label {label body : List Char} (hlabel : ∀ c ∈ label, isBlank c = false)
    (hbody : body.head? = some '\x1b') (spaces : Nat) :
    ((label ++ (List.replicate spaces ' ' ++ ' ' :: body)).dropWhile (! isBlank ·)).dropWhile
      isBlank = body := by
  have hspaces : List.replicate spaces ' ' ++ ' ' :: body =
      List.replicate (spaces + 1) ' ' ++ body := by
    rw [List.replicate_succ', List.append_assoc, List.singleton_append]
  have hfirst : ∀ c ∈ (List.replicate (spaces + 1) ' ' ++ body).head?, (! isBlank c) = false := by
    rintro c ⟨⟩
    rfl
  have hlast : ∀ c ∈ body.head?, isBlank c = false := by
    rw [hbody]
    rintro c ⟨⟩
    rfl
  rw [hspaces, dropWhile_append_of_head? (by simpa using hlabel) hfirst,
    dropWhile_append_of_head? (fun _ => isBlank_of_mem_replicate) hlast]

theorem ofRow_eq {before digits number bits label body : List Char} (hbefore : ']' ∉ before)
    (hdigits : digits.length = 8) (hnumber : ':' ∉ digits ++ number) (hbits : bits.length = 34)
    (hlabel : ∀ c ∈ label, isBlank c = false) (hbody : body.head? = some '\x1b') (spaces : Nat) :
    Columns.ofRow (before ++ ']' :: ' ' :: (digits ++ number ++ ':' :: ' ' ::
      (bits ++ ' ' :: (label ++ (List.replicate spaces ' ' ++ ' ' :: body))))) =
      ⟨digits, bits, body⟩ := by
  have hcolumn : (bits ++ ' ' :: (label ++ (List.replicate spaces ' ' ++ ' ' :: body))).drop 35 =
      label ++ (List.replicate spaces ' ' ++ ' ' :: body) := by
    rw [List.drop_append, hbits, List.drop_of_length_le (by omega)]
    rfl
  simp only [Columns.ofRow, dropWhile_ne_append hbefore, dropWhile_ne_append hnumber,
    List.drop_succ_cons, List.drop_zero, hcolumn, dropWhile_label hlabel hbody]
  rw [List.append_assoc, List.take_left' hdigits, List.take_left' hbits]

theorem ofRow_render {raw : String} {l : Line} (h : Line.parse? raw = some l) (n a : Nat)
    (w : Word) : Columns.ofRow (Row.word n a l w).render.toList = columnsOf l w := by
  obtain ⟨label, spaces, hlabel, hsolid⟩ := exists_labelColumn_eq h
  have hrow : (Row.word n a l w).render.toList =
      '[' :: (zeroFill 4 (Decimal.ofNat a)).toList ++ ']' :: ' ' ::
        ((Field.hexadecimal w).toList ++
            (" | ".toList ++ (alignRight 4 (Decimal.ofNat n)).toList) ++
          ':' :: ' ' :: ((alignLeft 34 (bitColumn l w)).toList ++ ' ' ::
            (label ++ (List.replicate spaces ' ' ++ ' ' :: (bodyColumn l w).toList)))) := by
    simp [render_word, lineNumber, hlabel]
  have hbracket : ']' ∉ '[' :: (zeroFill 4 (Decimal.ofNat a)).toList := by
    rw [List.mem_cons]
    rintro (hc | hc)
    · cases hc
    · exact not_mem_leftpad_ofNat rfl (by decide) 4 a hc
  have hcolon : ':' ∉ (Field.hexadecimal w).toList ++
      (" | ".toList ++ (alignRight 4 (Decimal.ofNat n)).toList) := by
    rw [List.mem_append, List.mem_append]
    rintro (hc | hc | hc)
    · exact not_mem_hexadecimal (by decide) w hc
    · exact absurd hc (by decide)
    · exact not_mem_leftpad_ofNat rfl (by decide) 4 n hc
  rw [hrow]
  exact ofRow_eq hbracket (Field.length_hexadecimal w) hcolon (length_bitColumn l w) hsolid
    (head?_bodyColumn l w) spaces

/-! ### All rows -/

theorem isWordRow_blank (n : Nat) : isWordRow (Row.blank n).render = false := by
  rw [isWordRow, render_blank, String.toList_append]
  rfl

theorem isWordRow_word (n a : Nat) (l : Line) (w : Word) :
    isWordRow (Row.word n a l w).render = true := by
  simp [isWordRow, render_word]

theorem columns_rows (source : List String) (ws : List Word) (n a : Nat) :
    columns ((rows n a source ws).map Row.render) =
      ((addressed source).zip ws).map fun x => columnsOf x.1 x.2 := by
  induction source generalizing n a ws with
  | nil => rfl
  | cons raw source ih =>
    cases hraw : Line.parse? raw with
    | none =>
      have hsource : addressed (raw :: source) = addressed source := List.filterMap_cons_none hraw
      rw [hsource, ← ih ws (n + 1) a, columns, columns]
      simp only [rows, hraw, List.map_cons, List.filter_cons, isWordRow_blank]
      rfl
    | some l =>
      have hsource : addressed (raw :: source) = l :: addressed source :=
        List.filterMap_cons_some hraw
      cases ws with
      | nil =>
        rw [hsource]
        simp [columns, rows, hraw]
      | cons w ws =>
        rw [hsource, List.zip_cons_cons, List.map_cons, ← ih ws (n + 1) (a + 1), columns, columns]
        simp only [rows, hraw, List.map_cons, List.filter_cons, isWordRow_word, if_true,
          ofRow_render hraw]

theorem isWordRow_heading (path : String) : isWordRow (heading path) = false := by
  simp only [isWordRow, heading, String.append_assoc, String.toList_append]
  rfl

theorem isWordRow_separator : isWordRow separator = false := by decide

theorem isWordRow_symbolRow (l : String) (d : Definition) : isWordRow (symbolRow l d) = false := by
  simp only [isWordRow, symbolRow, String.append_assoc, String.toList_append]
  rfl

theorem listing_eq (path : String) (source : List String) (ws : List Word) (t : SymbolTable) :
    listing path source ws t = heading path :: ((rows 1 0 source ws).map Row.render ++
      separator :: t.entries.map fun e => symbolRow e.1 e.2) := rfl

/-- Around the rows for the lines, no row shows a word. -/
theorem columns_listing (path : String) (source : List String) (ws : List Word) (t : SymbolTable) :
    columns (listing path source ws t) =
      ((addressed source).zip ws).map fun x => columnsOf x.1 x.2 := by
  have hsymbols : (t.entries.map fun e => symbolRow e.1 e.2).filter isWordRow = [] := by
    rw [List.filter_eq_nil_iff, List.forall_mem_map]
    intro e _
    simp [isWordRow_symbolRow]
  have hbehind : (separator :: t.entries.map fun e => symbolRow e.1 e.2).filter isWordRow = [] := by
    rw [List.filter_cons_of_neg (by simp [isWordRow_separator]), hsymbols]
  rw [← columns_rows source ws 1 0, columns, columns, listing_eq,
    List.filter_cons_of_neg (by simp [isWordRow_heading]), List.filter_append, hbehind,
    List.append_nil]

end SC32.Assembly
