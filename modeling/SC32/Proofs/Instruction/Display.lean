import SC32.Instruction.Display
import SC32.Proofs.BitString
import SC32.Proofs.MachineCode.RoundTrip
import SC32.Proofs.Text.Colour
import SC32.Proofs.Text.Tokens

/-!
# Reading what is shown of an instruction

The two texts for an instruction say what it is: the bits of the one are those of its word, and the
tokens of the other are its mnemonic and its operands. Main statements: the listed fields without
the spaces, and the source form without the colours.
-/
namespace SC32

open Text

theorem Mnemonic.isToken_name (k : Mnemonic) : IsToken k.name.toList := by
  cases k <;> exact ⟨by decide, not_isBlank_of_all (by decide)⟩

theorem Mnemonic.isPlain_name (k : Mnemonic) : IsPlain k.name.toList := by
  cases k <;> decide

theorem Mnemonic.length_name_lt (k : Mnemonic) : k.name.toList.length < 6 := by
  cases k <;> decide

theorem Text.isToken_of_spells {cs : List Char} {n : Int} (h : Decimal.Spells cs n) : IsToken cs :=
  ⟨h.ne_nil, fun _ hc => MachineCode.not_isBlank_of_mem_of_spells h hc⟩

theorem Text.isToken_ofInt (n : Int) : IsToken (Decimal.ofInt n).toList :=
  isToken_of_spells (Decimal.spells_ofInt n)

theorem Reg.isToken_render (r : Reg) : IsToken r.render.toList := isToken_ofInt r.val

theorem Reg.isPlain_render (r : Reg) : IsPlain r.render.toList := isPlain_ofInt r.val

namespace Instruction

/-! ### Fields -/

/-- The fields leave out the bits above the opcode and no others. -/
theorem filter_fieldListing (i : Instruction Offset) :
    i.fieldListing.toList.filter (· ≠ ' ') = Field.bits i.encode 25 := by
  have hspace : (" ".toList).filter (· ≠ ' ') = [] := rfl
  have hhead : Field.bits i.encode 25 =
      Field.bits (Field.extract i.encode 22 3) 3 ++ (Field.bits (Field.extract i.encode 19 3) 3 ++
        (Field.bits (Field.extract i.encode 16 3) 3 ++ Field.bits i.encode 16)) := by
    rw [← Field.bits_add i.encode (by decide), ← Field.bits_add i.encode (by decide),
      ← Field.bits_add i.encode (by decide)]
  have hlow : Field.bits (Field.extract i.encode 0 16) 16 = Field.bits i.encode 16 :=
    Field.bits_extract_zero i.encode (by decide)
  have hdest : Field.bits (Field.extract i.encode 3 13) 13 ++
      Field.bits (Field.extract i.encode 0 3) 3 = Field.bits i.encode 16 := by
    rw [Field.bits_extract_zero i.encode (by decide), ← Field.bits_add i.encode (by decide)]
  unfold fieldListing
  split
  · simp only [String.toList_append, List.filter_append, Field.toList_encode, Field.filter_bits,
      hspace, List.nil_append, List.append_assoc, hdest, hhead]
  · simp only [String.toList_append, List.filter_append, Field.toList_encode, Field.filter_bits,
      hspace, List.nil_append, List.append_assoc, hlow, hhead]

theorem length_fieldListing_le (i : Instruction Offset) : i.fieldListing.toList.length ≤ 34 := by
  unfold fieldListing
  split <;> simp [Field.toList_encode]

/-! ### Source form -/

/-- The operands that the source form shows. -/
def operands : Instruction Offset → List String
  | add a b d | nand a b d => [a.render, b.render, d.render]
  | lw a b off | sw a b off | beq a b off => [a.render, b.render, Decimal.ofInt off.toInt]
  | jalr a b => [a.render, b.render]
  | halt | noop => []

/-- The source form without colours: the mnemonic and three operands, of which some may be empty. -/
def plainForm (k : Mnemonic) (a b d : String) : String :=
  alignLeft 6 k.name ++ alignLeft 2 a ++ " " ++ alignLeft 2 b ++ " " ++ alignLeft 6 d

/-- The source form begins with a colour. -/
theorem exists_display_eq (i : Instruction Offset) : ∃ s, i.display = Colour.red.on ++ s := by
  cases i <;> simp only [display, threeColumns, withOffset, opening, String.append_assoc] <;>
    exact ⟨_, rfl⟩

/-- All forms begin with the mnemonic and two operands. -/
theorem uncoloured_opening (i : Instruction Offset) {a b : String} (ha : IsPlain a.toList)
    (hb : IsPlain b.toList) (rest : String) :
    uncoloured (i.opening ++ alignLeft 2 a ++ " " ++ alignLeft 2 b ++ " " ++ rest).toList =
      (alignLeft 6 i.mnemonic.name ++ alignLeft 2 a ++ " " ++ alignLeft 2 b ++ " ").toList ++
        uncoloured rest.toList := by
  have hspace : IsPlain " ".toList := by decide
  simp only [opening, Colour.on, String.toList_append, List.append_assoc, uncoloured_rendition]
  rw [uncoloured_append (i.mnemonic.isPlain_name.alignLeft 6), uncoloured_rendition,
    uncoloured_append (ha.alignLeft 2), uncoloured_append hspace,
    uncoloured_append (hb.alignLeft 2), uncoloured_append hspace]

/-- All forms end with the third operand. -/
theorem uncoloured_last {d : String} (hd : IsPlain d.toList) :
    uncoloured (alignLeft 6 d ++ plain).toList = (alignLeft 6 d).toList := by
  have hend : uncoloured (rendition 39).toList = [] := by decide
  rw [String.toList_append, uncoloured_append (hd.alignLeft 6), plain, hend, List.append_nil]

theorem uncoloured_threeColumns (i : Instruction Offset) {a b d : String} (ha : IsPlain a.toList)
    (hb : IsPlain b.toList) (hd : IsPlain d.toList) :
    uncoloured (i.threeColumns a b d).toList = (plainForm i.mnemonic a b d).toList := by
  have h := uncoloured_opening i ha hb (alignLeft 6 d ++ plain)
  rw [uncoloured_last hd, ← String.toList_append, ← String.append_assoc] at h
  exact h

theorem uncoloured_withOffset (i : Instruction Offset) (a b : Reg) (off : Offset) :
    uncoloured (i.withOffset a b off).toList =
      (plainForm i.mnemonic a.render b.render (Decimal.ofInt off.toInt)).toList := by
  have hlast : uncoloured (Colour.yellow.on ++ (alignLeft 6 (Decimal.ofInt off.toInt) ++
      plain)).toList = (alignLeft 6 (Decimal.ofInt off.toInt)).toList := by
    rw [String.toList_append, Colour.on, uncoloured_rendition, uncoloured_last (isPlain_ofInt _)]
  have h := uncoloured_opening i a.isPlain_render b.isPlain_render
    (Colour.yellow.on ++ (alignLeft 6 (Decimal.ofInt off.toInt) ++ plain))
  rw [hlast, ← String.toList_append, ← String.append_assoc, ← String.append_assoc] at h
  exact h

/-- The columns are wide enough to keep the tokens apart. -/
theorem tokens_plainForm (k : Mnemonic) {a b d : String} (ha : a = "" ∨ IsToken a.toList)
    (hb : b = "" ∨ IsToken b.toList) (hd : d = "" ∨ IsToken d.toList) :
    tokens (plainForm k a b d) = k.name :: [a, b, d].filter (· ≠ "") := by
  have hlast : tokens (alignLeft 6 d ++ "") = [d].filter (· ≠ "") ++ tokens "" :=
    tokens_alignLeft_of_breaks hd (by rintro c ⟨⟩)
  rw [String.append_empty] at hlast
  simp only [plainForm, String.append_assoc]
  rw [tokens_alignLeft k.isToken_name (.inl k.length_name_lt),
    tokens_alignLeft_of_breaks ha (breaks_space _), tokens_space,
    tokens_alignLeft_of_breaks hb (breaks_space _), tokens_space, hlast, ← List.append_assoc,
    ← List.append_assoc, ← List.filter_append, ← List.filter_append]
  exact congrArg _ (List.append_nil _)

theorem tokens_display (i : Instruction Offset) :
    tokens (String.ofList (uncoloured i.display.toList)) = i.mnemonic.name :: i.operands := by
  have hempty : IsPlain "".toList := by decide
  cases i with
  | add a b d | nand a b d =>
    rw [display, uncoloured_threeColumns _ a.isPlain_render b.isPlain_render d.isPlain_render,
      String.ofList_toList, tokens_plainForm _ (.inr a.isToken_render) (.inr b.isToken_render)
        (.inr d.isToken_render)]
    simp [operands, a.isToken_render.ne_empty, b.isToken_render.ne_empty, d.isToken_render.ne_empty]
  | lw a b off | sw a b off | beq a b off =>
    have hoff := isToken_ofInt off.toInt
    rw [display, uncoloured_withOffset, String.ofList_toList,
      tokens_plainForm _ (.inr a.isToken_render) (.inr b.isToken_render) (.inr hoff)]
    simp [operands, a.isToken_render.ne_empty, b.isToken_render.ne_empty, hoff.ne_empty]
  | jalr a b =>
    rw [display, uncoloured_threeColumns _ a.isPlain_render b.isPlain_render hempty,
      String.ofList_toList, tokens_plainForm _ (.inr a.isToken_render) (.inr b.isToken_render)
        (.inl rfl)]
    simp [operands, a.isToken_render.ne_empty, b.isToken_render.ne_empty]
  | halt | noop =>
    rw [display, uncoloured_threeColumns _ hempty hempty hempty, String.ofList_toList,
      tokens_plainForm _ (.inl rfl) (.inl rfl) (.inl rfl)]
    rfl

end Instruction
end SC32
