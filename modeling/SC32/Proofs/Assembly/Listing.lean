import SC32.Proofs.Assembly.Columns
import SC32.Proofs.Assembly.Exact

/-!
# A listing shows its words

The columns of a row of an assembled source are three ways of writing one word, and the last of them
is source text. Main statements: the columns of a word that a line fills in and of an instruction,
and the listing of a source.
-/
namespace SC32.Assembly

open Text

/-- Each of the columns shows the word `w`: as eight hexadecimal digits, in two's complement, as a
binary number of so many bits, and as a line of source text. -/
structure Columns.Shows (c : Columns) (width : Nat) (w : Word) : Prop where
  digits : c.hexadecimal.length = 8
  hexadecimal : (Field.readDigits Field.hexadecimalDigits c.hexadecimal).map (BitVec.ofNat 32) =
    some w
  width : (c.bits.filter (· ≠ ' ')).length = width
  bits : Field.readDigits Field.binaryDigits (c.bits.filter (· ≠ ' ')) = some w.toNat
  body : assemble [c.source] = .ok [w]

/-- A line on which `.fill` is the operation has a word that is filled in, and no other line has. -/
theorem operation_eq_fill_iff {l : Line} {s : Statement} (h : l.statement = .ok s) :
    l.operation = some fill ↔ ∃ x, s = .fill x := by
  rw [Line.statement] at h
  cases hop : l.operation with
  | none =>
    rw [hop] at h
    cases h
  | some op =>
    rw [hop] at h
    simp only [Statement.ofOperation] at h
    rw [Option.some.injEq]
    by_cases hfill : op = fill
    · rw [if_pos hfill] at h
      split at h
      · cases h
        constructor
        · intro _
          exact ⟨_, rfl⟩
        · intro _
          exact hfill
      · cases h
    · rw [if_neg hfill] at h
      split at h
      · obtain ⟨i, -, rfl⟩ := (map_eq_ok_iff _ _ _).mp h
        constructor
        · intro hop
          exact absurd hop hfill
        · rintro ⟨x, hx⟩
          cases hx
      · cases h

/-! ### The columns of a word -/

theorem filter_alignLeft (width : Nat) (s : String) :
    (alignLeft width s).toList.filter (· ≠ ' ') = s.toList.filter (· ≠ ' ') := by
  have hpad : (List.replicate (width - s.toList.length) ' ').filter (· ≠ ' ') = [] := by simp
  rw [toList_alignLeft, List.filter_append, hpad, List.append_nil]

theorem assemble_of_emits {raw : String} {w : Word} (h : Emits raw w) :
    assemble [raw] = .ok [w] := by
  have hone : ∀ v ∈ [w], Emits raw v := by simpa using h
  exact assemble_map_of_emits hone

/-- Bits that are those of the word, and a body that means it. -/
theorem shows_of_emits {l : Line} {w : Word} {width : Nat}
    (hbits : (bitColumn l w).toList.filter (· ≠ ' ') = Field.bits w width)
    (hlt : w.toNat < 2 ^ width) (hbody : Emits (columnsOf l w).source w) :
    (columnsOf l w).Shows width w := by
  have hcolumn : (columnsOf l w).bits.filter (· ≠ ' ') = Field.bits w width := by
    rw [bits_columnsOf, filter_alignLeft, hbits]
  constructor
  case digits => rw [hexadecimal_columnsOf, Field.length_hexadecimal]
  case hexadecimal =>
    rw [hexadecimal_columnsOf, Field.readDigits_hexadecimal, Option.map_some, BitVec.ofNat_toNat,
      BitVec.setWidth_eq]
  case width => rw [hcolumn, Field.length_bits]
  case bits => rw [hcolumn, Field.readDigits_bits, Nat.mod_eq_of_lt hlt]
  case body => exact assemble_of_emits hbody

theorem shown?_of_fill {l : Line} (h : l.operation = some fill) (w : Word) : shown? l w = none :=
  if_pos h

theorem shown?_encode {l : Line} (h : l.operation ≠ some fill) (i : Instruction Offset) :
    shown? l i.encode = some i := by
  rw [shown?, if_neg h, Instruction.decode_encode]

/-- The body of a word that is filled in, without colours. -/
theorem uncoloured_fill (w : Word) :
    uncoloured (Colour.cyan.on ++ alignLeft 6 fill ++ Colour.yellow.on ++ Decimal.ofInt w.toInt ++
      plain).toList = (alignLeft 6 fill ++ Decimal.ofInt w.toInt).toList := by
  have hfill : IsPlain fill.toList := by decide
  have hend : uncoloured (rendition 39).toList = [] := by decide
  simp only [Colour.on, plain, String.toList_append, List.append_assoc, uncoloured_rendition]
  rw [uncoloured_append (hfill.alignLeft 6), uncoloured_rendition,
    uncoloured_append (isPlain_ofInt _), hend, List.append_nil]

theorem tokens_columnsOf_of_none {l : Line} {w : Word} (h : shown? l w = none) :
    tokens (columnsOf l w).source = [fill, Decimal.ofInt w.toInt] := by
  have htoken : IsToken fill.toList := ⟨by decide, not_isBlank_of_all (by decide)⟩
  have hwide : fill.toList.length < 6 := by decide
  have hbody : bodyColumn l w = Colour.cyan.on ++ alignLeft 6 fill ++ Colour.yellow.on ++
      Decimal.ofInt w.toInt ++ plain := by
    rw [bodyColumn, h]
  rw [source_columnsOf, hbody, uncoloured_fill, String.ofList_toList,
    tokens_alignLeft htoken (.inl hwide), tokens_of_isToken (isToken_ofInt _)]

theorem tokens_columnsOf_of_some {l : Line} {w : Word} {i : Instruction Offset}
    (h : shown? l w = some i) :
    tokens (columnsOf l w).source = i.mnemonic.name :: i.operands := by
  have hbody : bodyColumn l w = i.display := by
    rw [bodyColumn, h]
  rw [source_columnsOf, hbody]
  exact i.tokens_display

theorem emits_of_fill {l : Line} (h : l.operation = some fill) (w : Word) :
    Emits (columnsOf l w).source w :=
  emits_of_tokens_fill (tokens_columnsOf_of_none (shown?_of_fill h w))

theorem emits_encode {l : Line} (h : l.operation ≠ some fill) (i : Instruction Offset) :
    Emits (columnsOf l i.encode).source i.encode :=
  emits_of_tokens (tokens_columnsOf_of_some (shown?_encode h i))

theorem shows_of_fill {l : Line} (h : l.operation = some fill) (w : Word) :
    (columnsOf l w).Shows 32 w := by
  have hcolumn : bitColumn l w = Field.encode w 32 := by
    rw [bitColumn, shown?_of_fill h]
  refine shows_of_emits ?_ w.isLt (emits_of_fill h w)
  rw [hcolumn, Field.toList_encode, Field.filter_bits]

theorem shows_encode {l : Line} (h : l.operation ≠ some fill) (i : Instruction Offset) :
    (columnsOf l i.encode).Shows 25 i.encode := by
  have hcolumn : bitColumn l i.encode = i.fieldListing := by
    rw [bitColumn, shown?_encode h]
  refine shows_of_emits ?_ i.toNat_encode_lt (emits_encode h i)
  rw [hcolumn, Instruction.filter_fieldListing]

/-! ### The listing of a source -/

theorem operation_of_assemble {source : List String} {ws : List Word}
    (h : assemble source = .ok ws) {a : Nat} {l : Line} {w : Word}
    (hl : (addressed source)[a]? = some l) (hw : ws[a]? = some w) :
    (l.operation = some fill ∧ FillAt source a) ∨
      (l.operation ≠ some fill ∧ ¬ FillAt source a ∧ ∃ i : Instruction Offset, i.encode = w) := by
  have hline : ∀ s, StatementAt source a s → (l.operation = some fill ↔ ∃ x, s = .fill x) := by
    rintro s ⟨k, hk, hs⟩
    rw [hl, Option.some.injEq] at hk
    exact operation_eq_fill_iff (hk ▸ hs)
  obtain ⟨x, hx⟩ | ⟨i, j, hi, hj⟩ := fillAt_or_encode_of_assemble h hw
  · exact .inl ⟨(hline _ hx).mpr ⟨x, rfl⟩, x, hx⟩
  · refine .inr ⟨?_, ?_, j, hj⟩
    · intro hfill
      obtain ⟨x, hx⟩ := (hline _ hi).mp hfill
      cases hx
    · rintro ⟨x, hx⟩
      cases hi.unique hx

/-- The listing of an assembled source, whatever its name and the symbols below it: there is a row
for each word, the columns of the row all show that word, with 32 bits for a word that is filled in
and 25 for an instruction, and the bodies, without their colours, are a source text that has the
same words. -/
theorem listing_exact (source : List String) (ws : List Word) (h : assemble source = .ok ws)
    (path : String) (t : SymbolTable) :
    (columns (listing path source ws t)).length = ws.length ∧
    (∀ a c w, (columns (listing path source ws t))[a]? = some c → ws[a]? = some w →
      (FillAt source a → c.Shows 32 w) ∧ (¬ FillAt source a → c.Shows 25 w)) ∧
    assemble ((columns (listing path source ws t)).map Columns.source) = .ok ws := by
  have hlength := length_of_assemble h
  rw [columns_listing]
  refine ⟨?_, ?_, ?_⟩
  · rw [List.length_map, List.length_zip, hlength, Nat.min_self]
  · intro a c w hc hw
    rw [List.getElem?_map, Option.map_eq_some_iff] at hc
    obtain ⟨⟨l, v⟩, hpair, rfl⟩ := hc
    obtain ⟨hl, hv⟩ := List.getElem?_zip_eq_some.mp hpair
    rw [hv, Option.some.injEq] at hw
    subst hw
    rcases operation_of_assemble h hl hv with ⟨hop, hfill⟩ | ⟨hop, hfill, i, rfl⟩
    · exact ⟨fun _ => shows_of_fill hop v, fun hnot => absurd hfill hnot⟩
    · exact ⟨fun hyes => absurd hyes hfill, fun _ => shows_encode hop i⟩
  · have hemits : ∀ x ∈ (addressed source).zip ws, Emits (columnsOf x.1 x.2).source x.2 := by
      rintro ⟨l, v⟩ hmem
      obtain ⟨a, ha⟩ := List.mem_iff_getElem?.mp hmem
      obtain ⟨hl, hv⟩ := List.getElem?_zip_eq_some.mp ha
      rcases operation_of_assemble h hl hv with ⟨hop, -⟩ | ⟨hop, -, i, rfl⟩
      · exact emits_of_fill hop v
      · exact emits_encode hop i
    have hwords : ((addressed source).zip ws).map Prod.snd = ws :=
      List.map_snd_zip (Nat.le_of_eq hlength)
    rw [List.map_map]
    exact (assemble_map_of_emits hemits).trans (congrArg _ hwords)

/-- A branch to a label, a blank line, and a filled word that could be an instruction. -/
def almanac : List String := ["start lw 0 1 data", "", " beq 1 0 start", "data .fill 65538"]

def almanacWords : List Word := [0x810002, 0x108FFFE, 0x10002]

theorem listing_exact_almanac :
    assemble almanac = .ok almanacWords ∧ ∃ t, collect almanac = .ok t ∧
      (columns (listing "almanac.as" almanac almanacWords t)).length = 3 ∧
      (∀ c, (columns (listing "almanac.as" almanac almanacWords t))[2]? = some c →
        c.Shows 32 0x10002) ∧
      assemble ((columns (listing "almanac.as" almanac almanacWords t)).map Columns.source) =
        .ok almanacWords := by
  have h : assemble almanac = .ok almanacWords := rfl
  obtain ⟨t, ht, -⟩ := (assemble_eq_ok_iff almanac almanacWords).mp h
  obtain ⟨hlength, hshows, hsource⟩ := listing_exact almanac almanacWords h "almanac.as" t
  have hfill : FillAt almanac 2 := ⟨"65538", _, rfl, rfl⟩
  have hword : almanacWords[2]? = some 0x10002 := rfl
  exact ⟨h, t, ht, hlength, fun c hc => (hshows 2 c 0x10002 hc hword).1 hfill, hsource⟩

end SC32.Assembly
