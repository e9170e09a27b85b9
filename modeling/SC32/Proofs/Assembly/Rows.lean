import SC32.Proofs.Assembly.Listing
import SC32.Proofs.Assembly.Table

/-!
# Which rows a listing has

A listing counts addresses for itself, and its words may be those of another text. There is a row
for each line up to the first one for which no word is left, and its address is the number of lines
before it that are not blank. Main statements: where the rows for lines end, what the row of a line
says, what the rows above and below those say, and all of it for the words of the text itself.
-/
namespace SC32.Assembly

open Text

/-- The number of the line: between the bar and the colon, behind blanks. -/
def numberColumn (row : String) : List Char :=
  (((row.toList.dropWhile (· ≠ '|')).drop 1).dropWhile isBlank).takeWhile (· ≠ ':')

/-- The address in brackets at the beginning of a row. -/
def addressColumn (row : String) : List Char := (row.toList.drop 1).takeWhile (· ≠ ']')

/-- What stands behind the first `a` and in front of the last `b` there is then. -/
def between (a b : Char) (cs : List Char) : List Char :=
  ((((cs.dropWhile (· ≠ a)).drop 1).reverse.dropWhile (· ≠ b)).drop 1).reverse

/-- The path: between the brackets of the top row. -/
def pathColumn (row : String) : List Char := between '[' ']' row.toList

/-- The label: behind the sequence that sets a colour, up to the one that takes it back. -/
def labelText (row : String) : List Char := between 'm' '\x1b' row.toList

/-- What stands behind the last space. -/
def lastColumn (row : String) : List Char := (row.toList.reverse.takeWhile (· ≠ ' ')).reverse

/-- The word is shown as data that a line fills in. -/
structure Columns.IsData (c : Columns) (w : Word) : Prop where
  bits : c.bits = (alignLeft 34 (Field.encode w 32)).toList
  body : tokens c.source = [fill, Decimal.ofInt w.toInt]

/-- An instruction is shown. -/
structure Columns.IsCode (c : Columns) (i : Instruction Offset) : Prop where
  bits : c.bits = (alignLeft 34 i.fieldListing).toList
  body : tokens c.source = i.mnemonic.name :: i.operands

/-- Line number `i` is not blank, and as many such lines as there are words stand before it. -/
structure RunsOut (source : List String) (count i : Nat) : Prop where
  text : ∃ raw, source[i]? = some raw ∧ hasText raw = true
  count : count ≤ textBefore source i

/-- Line number `n` is the first one for which no word is left. If there is none, `n` is the number
of all lines. -/
structure Cut (source : List String) (count n : Nat) : Prop where
  le_length : n ≤ source.length
  before : ∀ i < n, ¬ RunsOut source count i
  behind : n < source.length → RunsOut source count n

/-- The row shows the word `w` of the line `l` at address `a`. -/
structure WordRow (row : String) (a : Nat) (l : Line) (w : Word) : Prop where
  begins : isWordRow row = true
  address : Decimal.Spells (addressColumn row) a
  word : Field.readDigits Field.hexadecimalDigits (Columns.ofRow row.toList).hexadecimal =
    some w.toNat
  data : (Columns.ofRow row.toList).IsData w ↔
    l.operation = some fill ∨ ∀ i, Instruction.decode w ≠ .ok i
  code : ∀ i, l.operation ≠ some fill → Instruction.decode w = .ok i →
    (Columns.ofRow row.toList).IsCode i

/-- The row is the one for line number `i`, which is `raw`. -/
structure LineRow (source : List String) (ws : List Word) (i : Nat) (raw row : String) : Prop where
  number : Decimal.Spells (numberColumn row) (i + 1)
  blank : hasText raw = false → isWordRow row = false
  word : ∀ l, Line.parse? raw = some l → ∃ w, ws[textBefore source i]? = some w ∧
    WordRow row (textBefore source i) l w

/-- The row is the top of the listing of a file. -/
structure TopRow (row path : String) : Prop where
  begins : isWordRow row = false
  path : pathColumn row = path.toList

/-- The row shows the label `name`, in a column of its own, and the address that it stands for. -/
structure SymbolRow (row name : String) (a : Nat) : Prop where
  begins : isWordRow row = false
  name : labelText row = name.toList ++ List.replicate (12 - name.toList.length) ' '
  address : Decimal.Spells (lastColumn row) a

/-! ### Where the rows end -/

@[simp] theorem textBefore_zero (source : List String) : textBefore source 0 = 0 := rfl

theorem textBefore_cons_succ (raw : String) (source : List String) (i : Nat) :
    textBefore (raw :: source) (i + 1) =
      textBefore source i + if hasText raw then 1 else 0 := by
  rw [textBefore, List.take_succ_cons, List.countP_cons, textBefore]

theorem runsOut_cons_succ_iff (raw : String) (source : List String) (count i : Nat) :
    RunsOut (raw :: source) (count + if hasText raw then 1 else 0) (i + 1) ↔
      RunsOut source count i := by
  constructor
  · intro h
    have hcount := h.count
    rw [textBefore_cons_succ] at hcount
    exact ⟨h.text, Nat.le_of_add_le_add_right hcount⟩
  · intro h
    refine ⟨h.text, ?_⟩
    rw [textBefore_cons_succ]
    exact Nat.add_le_add_right h.count _

/-- One more line with its word, or a blank one. -/
theorem Cut.cons {source : List String} {count n : Nat} (h : Cut source count n) (raw : String) :
    Cut (raw :: source) (count + if hasText raw then 1 else 0) (n + 1) := by
  constructor
  case le_length => exact Nat.succ_le_succ h.le_length
  case before =>
    intro i hi
    cases i with
    | zero =>
      rintro ⟨⟨raw', hraw', htext⟩, hcount⟩
      cases hraw'
      rw [textBefore_zero, if_pos htext] at hcount
      exact Nat.not_succ_le_zero _ hcount
    | succ i =>
      rw [runsOut_cons_succ_iff]
      exact h.before i (Nat.lt_of_succ_lt_succ hi)
  case behind =>
    intro hlt
    rw [runsOut_cons_succ_iff]
    exact h.behind (Nat.lt_of_succ_lt_succ hlt)

theorem Cut.unique {source : List String} {count n k : Nat} (hn : Cut source count n)
    (hk : Cut source count k) : n = k := by
  rcases Nat.lt_trichotomy n k with h | h | h
  · exact absurd (hn.behind (Nat.lt_of_lt_of_le h hk.le_length)) (hk.before n h)
  · exact h
  · exact absurd (hk.behind (Nat.lt_of_lt_of_le h hn.le_length)) (hn.before k h)

theorem hasText_of_parse? {raw : String} {l : Line} (h : Line.parse? raw = some l) :
    hasText raw = true := by
  rw [← isSome_parse?, h]
  rfl

theorem hasText_of_parse?_none {raw : String} (h : Line.parse? raw = none) :
    hasText raw = false := by
  rw [← isSome_parse?, h]
  rfl

theorem cut_rows (source : List String) (ws : List Word) (n a : Nat) :
    Cut source ws.length (rows n a source ws).length := by
  induction source generalizing n a ws with
  | nil => exact ⟨Nat.le_refl 0, fun i hi => absurd hi (Nat.not_lt_zero i), fun h => nomatch h⟩
  | cons raw source ih =>
    cases hraw : Line.parse? raw with
    | none =>
      have hcut := (ih ws (n + 1) a).cons raw
      simpa [rows, hraw, hasText_of_parse?_none hraw] using hcut
    | some l =>
      have htext := hasText_of_parse? hraw
      cases ws with
      | nil =>
        have hrows : rows n a (raw :: source) [] = [] := by simp only [rows, hraw]
        rw [hrows]
        exact ⟨Nat.zero_le _, fun i hi => absurd hi (Nat.not_lt_zero i),
          fun _ => ⟨⟨raw, rfl, htext⟩, Nat.zero_le _⟩⟩
      | cons w ws =>
        have hcut := (ih ws (n + 1) (a + 1)).cons raw
        simpa [rows, hraw, htext] using hcut

/-! ### The row of a line -/

/-- The rows count lines and addresses from where they begin. -/
theorem getElem?_rows {source : List String} {ws : List Word} {n a i : Nat} {raw : String} {r : Row}
    (hraw : source[i]? = some raw) (hr : (rows n a source ws)[i]? = some r) :
    (Line.parse? raw = none ∧ r = .blank (n + i)) ∨
      ∃ l w, Line.parse? raw = some l ∧ ws[textBefore source i]? = some w ∧
        r = .word (n + i) (a + textBefore source i) l w := by
  induction source generalizing n a i ws with
  | nil => cases hraw
  | cons first source ih =>
    have hnumber : ∀ i, n + 1 + i = n + (i + 1) := fun i => by omega
    cases hfirst : Line.parse? first with
    | none =>
      simp only [rows, hfirst] at hr
      cases i with
      | zero =>
        cases hraw
        cases hr
        exact .inl ⟨hfirst, rfl⟩
      | succ i =>
        have htext : textBefore (first :: source) (i + 1) = textBefore source i := by
          simp [textBefore_cons_succ, hasText_of_parse?_none hfirst]
        have hrest := ih hraw hr
        rw [hnumber] at hrest
        rwa [htext]
    | some l =>
      cases ws with
      | nil =>
        simp only [rows, hfirst] at hr
        cases hr
      | cons w ws =>
        simp only [rows, hfirst] at hr
        cases i with
        | zero =>
          cases hraw
          cases hr
          exact .inr ⟨l, w, hfirst, rfl, rfl⟩
        | succ i =>
          have htext : textBefore (first :: source) (i + 1) = textBefore source i + 1 := by
            simp [textBefore_cons_succ, hasText_of_parse? hfirst]
          have hrest := ih hraw hr
          rw [hnumber, Nat.add_right_comm] at hrest
          rwa [htext, List.getElem?_cons_succ, ← Nat.add_assoc]

/-! ### What a row says -/

theorem takeWhile_ne_append {c : Char} {s : List Char} (h : c ∉ s) (rest : List Char) :
    (s ++ c :: rest).takeWhile (· ≠ c) = s := by
  have hs : ∀ d ∈ s, decide (d ≠ c) = true := by
    intro d hd
    refine decide_eq_true ?_
    rintro rfl
    exact h hd
  rw [List.takeWhile_append_of_pos hs, List.takeWhile_cons_of_neg (by simp), List.append_nil]

/-- Whatever stands around the number of the line, it is in its column. -/
theorem spells_numberColumn {front : String} (hfront : '|' ∉ front.toList) (n : Nat)
    (rest : String) : Decimal.Spells (numberColumn (front ++ lineNumber n ++ rest)) n := by
  have hspells : Decimal.Spells (Decimal.ofNat n).toList n := Decimal.spells_ofInt n
  have hrow : (front ++ lineNumber n ++ rest).toList = front.toList ++ '|' ::
      (List.replicate (4 - (Decimal.ofNat n).toList.length + 1) ' ' ++
        ((Decimal.ofNat n).toList ++ ':' :: rest.toList)) := by
    simp [lineNumber, alignRight, List.leftpad, List.replicate_succ]
  have hfirst : ∀ c ∈ ((Decimal.ofNat n).toList ++ ':' :: rest.toList).head?,
      isBlank c = false := by
    rw [List.head?_append_of_ne_nil _ hspells.ne_nil]
    exact fun c hc => (isToken_of_spells hspells).2 c (List.mem_of_mem_head? hc)
  have hcolon : ':' ∉ (Decimal.ofNat n).toList := by
    rw [Decimal.toList_ofNat]
    intro hc
    cases (Decimal.isRun_toDigits n).2 ':' hc
  rwa [numberColumn, hrow, dropWhile_ne_append hfront, List.drop_one, List.tail_cons,
    dropWhile_append_of_head? (fun _ => isBlank_of_mem_replicate) hfirst,
    takeWhile_ne_append hcolon]

theorem numberColumn_blank (n : Nat) : Decimal.Spells (numberColumn (Row.blank n).render) n := by
  have hbar : '|' ∉ (rule 16 ' ').toList := by decide
  have hnumber := spells_numberColumn hbar n ""
  rwa [String.append_empty] at hnumber

theorem numberColumn_word (n a : Nat) (l : Line) (w : Word) :
    Decimal.Spells (numberColumn (Row.word n a l w).render) n := by
  have hbar : '|' ∉ ("[" ++ zeroFill 4 (Decimal.ofNat a) ++ "] " ++ Field.hexadecimal w ++
      " ").toList := by
    simp only [String.toList_append, List.mem_append, not_or]
    exact ⟨⟨⟨⟨by decide, not_mem_leftpad_ofNat rfl (by decide) 4 a⟩, by decide⟩,
      not_mem_hexadecimal (by decide) w⟩, by decide⟩
  have hnumber := spells_numberColumn hbar n
    (" " ++ alignLeft 34 (bitColumn l w) ++ " " ++ labelColumn l ++ " " ++ bodyColumn l w)
  rw [render_word]
  simpa only [String.append_assoc] using hnumber

theorem addressColumn_word (n a : Nat) (l : Line) (w : Word) :
    Decimal.Spells (addressColumn (Row.word n a l w).render) a := by
  have hbracket : ']' ∉ (zeroFill 4 (Decimal.ofNat a)).toList :=
    not_mem_leftpad_ofNat rfl (by decide) 4 a
  have hrow : ∃ rest, (Row.word n a l w).render.toList =
      '[' :: ((zeroFill 4 (Decimal.ofNat a)).toList ++ ']' :: rest) := by
    simp [render_word]
  obtain ⟨rest, hrow⟩ := hrow
  rw [addressColumn, hrow, List.drop_one, List.tail_cons, takeWhile_ne_append hbracket]
  exact Decimal.spells_zeroFill 4 a

/-! ### Above and below the lines -/

theorem between_append {a b : Char} {front back : List Char} (hfront : a ∉ front) (hback : b ∉ back)
    (s : List Char) : between a b (front ++ a :: (s ++ b :: back)) = s := by
  have hreverse : (s ++ b :: back).reverse = back.reverse ++ b :: s.reverse := by simp
  have hbehind : b ∉ back.reverse := by rwa [List.mem_reverse]
  simp only [between, dropWhile_ne_append hfront, List.drop_succ_cons, List.drop_zero, hreverse,
    dropWhile_ne_append hbehind, List.reverse_reverse]

theorem lastColumn_append {s : String} (h : ' ' ∉ s.toList) (front : String) :
    lastColumn (front ++ " " ++ s) = s.toList := by
  have hreverse : (front ++ " " ++ s).toList.reverse =
      s.toList.reverse ++ ' ' :: front.toList.reverse := by simp
  have hspace : ' ' ∉ s.toList.reverse := by rwa [List.mem_reverse]
  rw [lastColumn, hreverse, takeWhile_ne_append hspace, List.reverse_reverse]

theorem topRow_heading (path : String) : TopRow (heading path) path := by
  refine ⟨isWordRow_heading path, ?_⟩
  have hrow : (heading path).toList = "----------------+------".toList ++
      '[' :: (path.toList ++ ']' :: List.replicate (60 - path.utf8ByteSize) '-') := by
    simp [heading, rule, List.replicate]
  have hfront : '[' ∉ "----------------+------".toList := by decide
  have hback : ']' ∉ List.replicate (60 - path.utf8ByteSize) '-' := by simp
  rw [pathColumn, hrow, between_append hfront hback]

theorem symbolRow_symbolRow (l : String) (d : Definition) :
    SymbolRow (symbolRow l d) l d.address := by
  have haddress : Decimal.Spells (Decimal.ofNat d.address).toList d.address :=
    Decimal.spells_ofInt d.address
  refine ⟨isWordRow_symbolRow l d, ?_, ?_⟩
  · have hrow : (symbolRow l d).toList = "                | \x1b[32".toList ++
        'm' :: ((alignLeft 12 l).toList ++
          '\x1b' :: ("[39m = ".toList ++ (Decimal.ofNat d.address).toList)) := by
      have hon : Colour.green.on = "\x1b[32m" := by decide
      have hplain : plain = "\x1b[39m" := by decide
      simp [symbolRow, hon, hplain, rule, List.replicate]
    have hfront : 'm' ∉ "                | \x1b[32".toList := by decide
    have hback : '\x1b' ∉ "[39m = ".toList ++ (Decimal.ofNat d.address).toList := by
      rw [List.mem_append, not_or]
      exact ⟨by decide, isPlain_ofInt d.address⟩
    rw [labelText, hrow, between_append hfront hback, toList_alignLeft]
  · have hspace : ' ' ∉ (Decimal.ofNat d.address).toList := by
      intro h
      cases (isToken_of_spells haddress).2 ' ' h
    have hrow : symbolRow l d =
        rule 16 ' ' ++ "| " ++ Colour.green.on ++ alignLeft 12 l ++ plain ++ " =" ++ " " ++
          Decimal.ofNat d.address := by
      have hequals : " = " = " =" ++ " " := by decide
      rw [symbolRow, hequals, ← String.append_assoc]
    rwa [hrow, lastColumn_append hspace]

/-! ### How a word is shown -/

theorem shown?_eq_some_iff (l : Line) (w : Word) (i : Instruction Offset) :
    shown? l w = some i ↔ l.operation ≠ some fill ∧ Instruction.decode w = .ok i := by
  unfold shown?
  by_cases hfill : l.operation = some fill
  · simp [hfill]
  · cases h : Instruction.decode w <;> simp [hfill]

theorem shown?_eq_none_iff (l : Line) (w : Word) :
    shown? l w = none ↔ l.operation = some fill ∨ ∀ i, Instruction.decode w ≠ .ok i := by
  rw [Option.eq_none_iff_forall_ne_some]
  simp only [Ne, shown?_eq_some_iff, not_and]
  constructor
  · intro h
    by_cases hfill : l.operation = some fill
    · exact .inl hfill
    · exact .inr fun i => h i hfill
  · rintro (hfill | hnone) i hop
    · exact absurd hfill hop
    · exact hnone i

theorem isData_of_none {l : Line} {w : Word} (h : shown? l w = none) :
    (columnsOf l w).IsData w := by
  refine ⟨?_, tokens_columnsOf_of_none h⟩
  rw [bits_columnsOf, bitColumn, h]

theorem isCode_of_some {l : Line} {w : Word} {i : Instruction Offset} (h : shown? l w = some i) :
    (columnsOf l w).IsCode i := by
  refine ⟨?_, tokens_columnsOf_of_some h⟩
  rw [bits_columnsOf, bitColumn, h]

/-- Nothing is shown as data and as an instruction. -/
theorem Columns.IsCode.not_isData {c : Columns} {i : Instruction Offset} (h : c.IsCode i)
    (w : Word) : ¬ c.IsData w := by
  intro hdata
  have hbody := h.body
  rw [hdata.body, List.cons.injEq] at hbody
  exact name_ne_fill i.mnemonic hbody.1.symm

theorem isData_columnsOf_iff (l : Line) (w : Word) :
    (columnsOf l w).IsData w ↔ l.operation = some fill ∨ ∀ i, Instruction.decode w ≠ .ok i := by
  rw [← shown?_eq_none_iff]
  cases h : shown? l w with
  | none => simpa using isData_of_none h
  | some i => simpa using (isCode_of_some h).not_isData w

theorem wordRow_render {raw : String} {l : Line} (h : Line.parse? raw = some l) (n a : Nat)
    (w : Word) : WordRow (Row.word n a l w).render a l w := by
  constructor
  case begins => exact isWordRow_word n a l w
  case address => exact addressColumn_word n a l w
  case word => rw [ofRow_render h, hexadecimal_columnsOf, Field.readDigits_hexadecimal]
  case data =>
    rw [ofRow_render h]
    exact isData_columnsOf_iff l w
  case code =>
    intro i hop hi
    rw [ofRow_render h]
    exact isCode_of_some ((shown?_eq_some_iff l w i).mpr ⟨hop, hi⟩)

/-- The rows that a listing begins with are those of its lines. -/
theorem lineRow_of_rows {source : List String} {ws : List Word} {i : Nat} {raw : String} {r : Row}
    (hraw : source[i]? = some raw) (hr : (rows 1 0 source ws)[i]? = some r) :
    LineRow source ws i raw r.render := by
  obtain ⟨hblank, rfl⟩ | ⟨l, w, hl, hw, rfl⟩ := getElem?_rows hraw hr
  · constructor
    case number =>
      rw [Nat.add_comm]
      exact numberColumn_blank (i + 1)
    case blank => exact fun _ => isWordRow_blank (1 + i)
    case word =>
      intro l hl
      rw [hblank] at hl
      cases hl
  · have htext := hasText_of_parse? hl
    constructor
    case number =>
      rw [Nat.add_comm]
      exact numberColumn_word (i + 1) _ l w
    case blank =>
      intro hblank
      rw [htext] at hblank
      cases hblank
    case word =>
      intro l' hl'
      rw [hl, Option.some.injEq] at hl'
      subst hl'
      refine ⟨w, hw, ?_⟩
      rw [Nat.zero_add]
      exact wordRow_render hl _ _ w

/-! ### The rows of a listing -/

/-- The words of a text do not run out for any of its lines. -/
theorem not_runsOut_of_assemble {source : List String} {ws : List Word}
    (h : assemble source = .ok ws) (i : Nat) : ¬ RunsOut source ws.length i := by
  rintro ⟨⟨raw, hraw, htext⟩, hcount⟩
  rw [← isSome_parse?] at htext
  obtain ⟨l, hl⟩ := Option.isSome_iff_exists.mp htext
  have hline : LineAt source i l := ⟨raw, hraw, hl⟩
  have hlt := (List.getElem?_eq_some_iff.mp hline.getElem?_addressed).1
  rw [length_of_assemble h, ← addressOf_eq] at hcount
  exact absurd hlt (Nat.not_lt.mpr hcount)

theorem cut_of_assemble {source : List String} {ws : List Word} (h : assemble source = .ok ws) :
    Cut source ws.length source.length :=
  ⟨Nat.le_refl _, fun i _ => not_runsOut_of_assemble h i, fun hlt => absurd hlt (Nat.lt_irrefl _)⟩

/-- A listing of whatever lines and words. Between its top and the line above the symbols, there is
a row for each line before the cut, with the number of the line, and with its address and its word
if it is not blank. The top shows the path, and below the line each row shows a label and its
address. If the words are those of the lines, then nothing is cut off, and just the lines on which
`.fill` is the operation are shown as data. -/
theorem rows_exact (path : String) (source : List String) (ws : List Word) (t : SymbolTable) :
    (∃ n body, Cut source ws.length n ∧ body.length = n ∧
      listing path source ws t =
        heading path :: (body ++ separator :: t.entries.map fun e => symbolRow e.1 e.2) ∧
      ∀ i raw row, source[i]? = some raw → body[i]? = some row → LineRow source ws i raw row) ∧
    (TopRow (heading path) path ∧
      separator = "----------------+" ++
        "--------------------------------------------------------------------" ∧
      ∀ e ∈ t.entries, SymbolRow (symbolRow e.1 e.2) e.1 e.2.address) ∧
    (assemble source = .ok ws →
      Cut source ws.length source.length ∧
      (listing path source ws t).length = source.length + t.size + 2 ∧
      ∀ i l, LineAt source i l → ∃ row w, (listing path source ws t)[i + 1]? = some row ∧
        ws[textBefore source i]? = some w ∧ WordRow row (textBefore source i) l w ∧
        ((Columns.ofRow row.toList).IsData w ↔ l.operation = some fill)) := by
  have hcut := cut_rows source ws 1 0
  have hrow : ∀ i raw row, source[i]? = some raw →
      ((rows 1 0 source ws).map Row.render)[i]? = some row → LineRow source ws i raw row := by
    intro i raw row hraw hbody
    rw [List.getElem?_map, Option.map_eq_some_iff] at hbody
    obtain ⟨r, hr, rfl⟩ := hbody
    exact lineRow_of_rows hraw hr
  refine ⟨⟨_, _, hcut, List.length_map _, listing_eq path source ws t, hrow⟩,
    ⟨topRow_heading path, by decide, fun e _ => symbolRow_symbolRow e.1 e.2⟩, ?_⟩
  intro h
  have hlength := hcut.unique (cut_of_assemble h)
  refine ⟨cut_of_assemble h, ?_, ?_⟩
  · simp [listing_eq, hlength, SymbolTable.size]
    omega
  · rintro i l ⟨raw, hraw, hl⟩
    have hi : i < ((rows 1 0 source ws).map Row.render).length := by
      rw [List.length_map, hlength]
      exact (List.getElem?_eq_some_iff.mp hraw).1
    have hbody := List.getElem?_eq_getElem hi
    obtain ⟨w, hw, hshown⟩ := (hrow i raw _ hraw hbody).word l hl
    refine ⟨_, w, ?_, hw, hshown, ?_⟩
    · rw [listing_eq, List.getElem?_cons_succ, List.getElem?_append_left hi, hbody]
    · have hline : LineAt source i l := ⟨raw, hraw, hl⟩
      have haddressed := hline.getElem?_addressed
      rw [addressOf_eq] at haddressed
      rw [hshown.data]
      rcases operation_of_assemble h haddressed hw with ⟨hop, -⟩ | ⟨hop, -, j, rfl⟩
      · exact ⟨fun _ => hop, .inl⟩
      · constructor
        · rintro (hfill | hnone)
          · exact hfill
          · exact absurd (Instruction.decode_encode j) (hnone j)
        · exact .inl

/-- The labels of that program. -/
def almanacTable : SymbolTable := (SymbolTable.empty.insert "start" ⟨0, 0⟩).insert "data" ⟨3, 2⟩

/-- The filled word of that program could be an instruction, and is shown as data. -/
theorem rows_exact_almanac :
    assemble almanac = .ok almanacWords ∧
    (listing "almanac.as" almanac almanacWords .empty).length = 6 ∧
    (∃ row, (listing "almanac.as" almanac almanacWords .empty)[4]? = some row ∧
      (Columns.ofRow row.toList).IsData 0x10002 ∧
      Instruction.decode 0x10002 = .ok (.add 0 1 2)) ∧
    ∃ row, (listing "almanac.as" almanac almanacWords almanacTable)[7]? = some row ∧
      SymbolRow row "data" 2 := by
  have h : assemble almanac = .ok almanacWords := rfl
  obtain ⟨-, hlength, hrow⟩ :=
    (rows_exact "almanac.as" almanac almanacWords .empty).2.2 h
  have hsymbols := (rows_exact "almanac.as" almanac almanacWords almanacTable).2.1.2.2
  have hline : LineAt almanac 3 ⟨some "data", some fill, ["65538"]⟩ := ⟨_, rfl, rfl⟩
  obtain ⟨row, w, hat, hw, -, hdata⟩ := hrow 3 _ hline
  cases hw
  refine ⟨h, hlength, ⟨row, hat, hdata.mpr rfl, rfl⟩, _, rfl, hsymbols ("data", ⟨3, 2⟩) ?_⟩
  exact List.mem_of_getElem? (i := 1) rfl

/-- With its first word only, the rows for its lines end behind the blank one. -/
example : rows 1 0 almanac [0x810002] =
    [.word 1 0 ⟨some "start", some "lw", ["0", "1", "data"]⟩ 0x810002, .blank 2] := by
  decide +kernel

end SC32.Assembly
