import Mathlib.Algebra.Group.Int.Defs
import Mathlib.Algebra.Group.Nat.Defs
import SC32.Instruction

/-!
# Instructions and their words

Which bits of a word say what, as numbers. The writer puts every field at its own bits and zeros
everywhere else; the reader accepts exactly the nonnegative words below 2^25 and looks at exactly
the bits that the instruction's shape has a use for.
-/
namespace SC32

/-- Bits `hi` down to `lo` of a word, as a number. -/
def Word.bits (w : Word) (hi lo : Nat) : Nat := w.toNat / 2 ^ lo % 2 ^ (hi + 1 - lo)

/-- Bits that an instruction of the given shape has no use for. -/
def Shape.ignores : Shape → Nat → Bool
  | .registerTriple, n => 3 ≤ n && n ≤ 15
  | .registerPairOffset, _ => false
  | .registerPair, n => n ≤ 15
  | .noOperand, n => n ≤ 21

theorem Mnemonic.ofOpcode?_eq_some_iff (n : Int) (k : Mnemonic) :
    ofOpcode? n = some k ↔ n = k.opcode.toNat := by
  constructor
  · intro h
    cases n with
    | negSucc n => simp [ofOpcode?] at h
    | ofNat n =>
      simp only [ofOpcode?] at h
      obtain ⟨hn, rfl⟩ := List.getElem?_eq_some_iff.mp h
      have hn : n < 8 := hn
      match n, hn with
      | 0, _ | 1, _ | 2, _ | 3, _ | 4, _ | 5, _ | 6, _ | 7, _ => rfl
  · rintro rfl
    exact ofOpcode?_opcode k

theorem Mnemonic.opcode_injective {k l : Mnemonic} (h : k.opcode.toNat = l.opcode.toNat) :
    k = l := by
  have hk := ofOpcode?_opcode k
  rw [h, ofOpcode?_opcode l] at hk
  exact (Option.some.inj hk).symm

namespace Instruction

/-- What stands in bits 21 to 19: a register, 0 where an instruction takes none. -/
def first : Instruction ι → Nat
  | add a _ _ | nand a _ _ | lw a _ _ | sw a _ _ | beq a _ _ | jalr a _ => a
  | halt | noop => 0

/-- What stands in bits 18 to 16. -/
def second : Instruction ι → Nat
  | add _ b _ | nand _ b _ | lw _ b _ | sw _ b _ | beq _ b _ | jalr _ b => b
  | halt | noop => 0

/-- What stands in bits 15 to 0: the destination, the offset, or nothing. -/
def low : Instruction Offset → BitVec 16
  | add _ _ d | nand _ _ d => BitVec.ofNat 16 d
  | lw _ _ off | sw _ _ off | beq _ _ off => off
  | jalr _ _ | halt | noop => 0

theorem first_lt (i : Instruction ι) : i.first < 8 := by
  cases i with
  | add a | nand a | lw a | sw a | beq a | jalr a => exact a.isLt
  | halt | noop => exact Nat.succ_pos 7

theorem second_lt (i : Instruction ι) : i.second < 8 := by
  cases i with
  | add _ b | nand _ b | lw _ b | sw _ b | beq _ b | jalr _ b => exact b.isLt
  | halt | noop => exact Nat.succ_pos 7

theorem toNat_encode (i : Instruction Offset) :
    (encode i).toNat =
      i.mnemonic.opcode.toNat * 4194304 + i.first * 524288 + i.second * 65536 + i.low.toNat := by
  cases i <;> exact toNat_pack _ _ _ _

theorem toNat_encode_lt (i : Instruction Offset) : (encode i).toNat < 2 ^ 25 := by
  have hk := i.mnemonic.opcode.isLt
  have ha := i.first_lt
  have hb := i.second_lt
  have hl := i.low.isLt
  rw [toNat_encode]
  omega

/-- The five fields, which cover the whole word. -/
theorem bits_encode (i : Instruction Offset) :
    (encode i).bits 31 25 = 0 ∧ (encode i).bits 24 22 = i.mnemonic.opcode.toNat ∧
    (encode i).bits 21 19 = i.first ∧ (encode i).bits 18 16 = i.second ∧
    (encode i).bits 15 0 = i.low.toNat := by
  have hk := i.mnemonic.opcode.isLt
  have ha := i.first_lt
  have hb := i.second_lt
  have hl := i.low.isLt
  simp only [Word.bits, toNat_encode]
  omega

/-- A negative word has a bit above the opcode field, so its unsigned quotient is no opcode. -/
theorem opcode_eq_iff (w : Word) (k : Mnemonic) :
    opcode w = k.opcode.toNat ↔ w.toNat / 2 ^ 22 = k.opcode.toNat := by
  have hk := k.opcode.isLt
  have hw := w.isLt
  simp only [opcode, Word.signed_eq, BitVec.toInt_eq_toNat_cond]
  split <;> omega

theorem decode_eq_ok_iff (w : Word) (i : Instruction Offset) :
    decode w = .ok i ↔ ∃ k : Mnemonic, w.toNat / 2 ^ 22 = k.opcode.toNat ∧ i = ofFields k w := by
  unfold decode
  constructor
  · intro h
    cases hk : Mnemonic.ofOpcode? (opcode w) with
    | none => simp [hk] at h
    | some k =>
      simp only [hk, Except.ok.injEq] at h
      exact ⟨k, (opcode_eq_iff w k).mp ((Mnemonic.ofOpcode?_eq_some_iff _ k).mp hk), h.symm⟩
  · intro h'
    obtain ⟨k, hk, rfl⟩ := h'
    rw [(Mnemonic.ofOpcode?_eq_some_iff _ k).mpr ((opcode_eq_iff w k).mpr hk)]

theorem word_of_decode_error {w : Word} {e : UnknownOpcode} (h : decode w = .error e) :
    e.word = w := by
  unfold decode at h
  split at h
  · cases h
  · cases h
    rfl

theorem mnemonic_ofFields (k : Mnemonic) (w : Word) : (ofFields k w).mnemonic = k := by
  cases k <;> rfl

theorem decode_encode (i : Instruction Offset) : decode (encode i) = .ok i := by
  have hk := i.mnemonic.opcode.isLt
  have ha := i.first_lt
  have hb := i.second_lt
  have hl := i.low.isLt
  have hw := toNat_encode i
  have hfirst : (registerAt (encode i) 19).val = i.first := by
    simp only [registerAt, hw, Nat.shiftRight_eq_div_pow]
    omega
  have hsecond : (registerAt (encode i) 16).val = i.second := by
    simp only [registerAt, hw, Nat.shiftRight_eq_div_pow]
    omega
  have hlow : offsetOf (encode i) = i.low := by
    apply BitVec.eq_of_toNat_eq
    simp only [offsetOf_eq, BitVec.toNat_setWidth, hw]
    omega
  have hdest : (registerAt (encode i) 0).val = i.low.toNat % 8 := by
    simp only [registerAt, hw, Nat.shiftRight_zero]
    omega
  refine (decode_eq_ok_iff _ i).mpr ⟨i.mnemonic, by omega, ?_⟩
  cases i with
  | add a b d | nand a b d =>
    have hd : registerAt (encode _) 0 = d := Fin.ext (by rw [hdest]; simp [low])
    simp only [ofFields, mnemonic, Fin.ext hfirst, Fin.ext hsecond, hd]
  | lw a b off | sw a b off | beq a b off | jalr a b =>
    simp only [ofFields, mnemonic, Fin.ext hfirst, Fin.ext hsecond, hlow, low]
  | halt | noop => rfl

theorem encode_injective : Function.Injective encode := by
  intro i j h
  have hi := decode_encode i
  rw [h, decode_encode j] at hi
  exact (Except.ok.inj hi).symm

theorem getLsbD_encode (i : Instruction Offset) (n : Nat) :
    (encode i).getLsbD n =
      if n < 16 then i.low.getLsbD n
      else if n < 19 then i.second.testBit (n - 16)
      else if n < 22 then i.first.testBit (n - 19)
      else i.mnemonic.opcode.getLsbD (n - 22) := by
  have hw : (encode i).toNat =
      2 ^ 16 * (2 ^ 3 * (2 ^ 3 * i.mnemonic.opcode.toNat + i.first) + i.second) + i.low.toNat := by
    rw [toNat_encode]
    omega
  rw [← BitVec.testBit_toNat, hw, Nat.testBit_two_pow_mul_add _ i.low.isLt,
    Nat.testBit_two_pow_mul_add _ i.second_lt, Nat.testBit_two_pow_mul_add _ i.first_lt,
    BitVec.testBit_toNat, BitVec.testBit_toNat]
  by_cases h16 : n < 16
  · rw [if_pos h16, if_pos h16]
  by_cases h19 : n < 19
  · rw [if_neg h16, if_neg h16, if_pos h19, if_pos (by omega)]
  rw [if_neg h16, if_neg h16, if_neg h19, if_neg (by omega), show n - 16 - 3 = n - 19 by omega]
  by_cases h22 : n < 22
  · rw [if_pos h22, if_pos (by omega)]
  · rw [if_neg h22, if_neg (by omega), show n - 19 - 3 = n - 22 by omega]

theorem testBit_registerAt (w : Word) (lo n : Nat) :
    (registerAt w lo).val.testBit n = (decide (n < 3) && w.getLsbD (lo + n)) := by
  change ((w.toNat >>> lo) % 2 ^ 3).testBit n = _
  rw [Nat.testBit_mod_two_pow, Nat.testBit_shiftRight, BitVec.testBit_toNat]

theorem getLsbD_low_ofFields (k : Mnemonic) (w : Word) (n : Nat) (h : n < 16) :
    (ofFields k w).low.getLsbD n = (w.getLsbD n && !k.shape.ignores n) := by
  cases k with
  | add | nand =>
    simp only [ofFields, low, BitVec.getLsbD_ofNat, testBit_registerAt, Mnemonic.shape,
      Shape.ignores, Nat.zero_add]
    by_cases h3 : n < 3
    · simp [h, h3, show ¬ 3 ≤ n by omega]
    · simp [h3, show 3 ≤ n by omega, show n ≤ 15 by omega]
  | lw | sw | beq => simp [ofFields, low, h, Mnemonic.shape, Shape.ignores]
  | jalr => simp [ofFields, low, Mnemonic.shape, Shape.ignores, show n ≤ 15 by omega]
  | halt | noop => simp [ofFields, low, Mnemonic.shape, Shape.ignores, show n ≤ 21 by omega]

theorem testBit_second_ofFields (k : Mnemonic) (w : Word) (n : Nat) (h : n < 3) :
    (ofFields k w).second.testBit n = (w.getLsbD (16 + n) && !k.shape.ignores (16 + n)) := by
  cases k <;>
    simp [-registerAt_eq, ofFields, second, testBit_registerAt, Mnemonic.shape, Shape.ignores, h,
      show ¬ 16 + n ≤ 15 by omega, show 16 + n ≤ 21 by omega]

theorem testBit_first_ofFields (k : Mnemonic) (w : Word) (n : Nat) (h : n < 3) :
    (ofFields k w).first.testBit n = (w.getLsbD (19 + n) && !k.shape.ignores (19 + n)) := by
  cases k <;>
    simp [-registerAt_eq, ofFields, first, testBit_registerAt, Mnemonic.shape, Shape.ignores, h,
      show ¬ 19 + n ≤ 15 by omega, show 19 + n ≤ 21 by omega]

theorem ignores_of_opcode (s : Shape) (n : Nat) (h : 22 ≤ n) : s.ignores n = false := by
  cases s <;> simp [Shape.ignores] <;> omega

/-- Writing back what was read clears the bits that the shape has no use for, and only those. -/
theorem getLsbD_encode_of_decode {w : Word} {i : Instruction Offset} (h : decode w = .ok i)
    (n : Nat) : (encode i).getLsbD n = (w.getLsbD n && !i.mnemonic.shape.ignores n) := by
  obtain ⟨k, hk, rfl⟩ := (decode_eq_ok_iff w i).mp h
  rw [getLsbD_encode, mnemonic_ofFields]
  by_cases h16 : n < 16
  · rw [if_pos h16, getLsbD_low_ofFields k w n h16]
  by_cases h19 : n < 19
  · rw [if_neg h16, if_pos h19, testBit_second_ofFields k w _ (by omega),
      show 16 + (n - 16) = n by omega]
  by_cases h22 : n < 22
  · rw [if_neg h16, if_neg h19, if_pos h22, testBit_first_ofFields k w _ (by omega),
      show 19 + (n - 19) = n by omega]
  · rw [if_neg h16, if_neg h19, if_neg h22, ignores_of_opcode _ n (by omega), Bool.not_false,
      Bool.and_true, ← BitVec.testBit_toNat, ← hk, Nat.testBit_div_two_pow, BitVec.testBit_toNat,
      show n - 22 + 22 = n by omega]

/-- What reading and writing back makes of a word. -/
def reencode (w : Word) : Except UnknownOpcode Word := (decode w).map encode

theorem reencode_idempotent (w : Word) : reencode w >>= reencode = reencode w := by
  unfold reencode
  cases h : decode w with
  | error e => rfl
  | ok i =>
    change (decode (encode i)).map encode = _
    rw [decode_encode]

/-- Of the unsigned word, a nonnegative signed word below 2^25 has the bits 31 to 25 clear. -/
theorem bits_high_eq_zero_iff (w : Word) :
    w.toNat < 2 ^ 25 ↔ 0 ≤ w.toInt ∧ w.toInt < 2 ^ 25 := by
  have hw := w.isLt
  rw [BitVec.toInt_eq_toNat_cond]
  split <;> omega

/-- Each of the eight opcodes is taken, so only the bits above the opcode decide. -/
theorem exists_opcode_iff (n : Nat) : (∃ k : Mnemonic, n = k.opcode.toNat) ↔ n < 8 := by
  constructor
  · intro h'
    obtain ⟨k, rfl⟩ := h'
    exact k.opcode.isLt
  · intro h
    match n, h with
    | 0, _ => exact ⟨.add, rfl⟩
    | 1, _ => exact ⟨.nand, rfl⟩
    | 2, _ => exact ⟨.lw, rfl⟩
    | 3, _ => exact ⟨.sw, rfl⟩
    | 4, _ => exact ⟨.beq, rfl⟩
    | 5, _ => exact ⟨.jalr, rfl⟩
    | 6, _ => exact ⟨.halt, rfl⟩
    | 7, _ => exact ⟨.noop, rfl⟩

theorem exists_decode_iff (w : Word) :
    (∃ i, decode w = .ok i) ↔ 0 ≤ w.toInt ∧ w.toInt < 2 ^ 25 := by
  have hk := exists_opcode_iff (w.toNat / 2 ^ 22)
  rw [← bits_high_eq_zero_iff]
  constructor
  · intro h'
    obtain ⟨i, hi⟩ := h'
    obtain ⟨k, hw, -⟩ := (decode_eq_ok_iff w i).mp hi
    have := hk.mp ⟨k, hw⟩
    omega
  · intro h
    obtain ⟨k, hw⟩ := hk.mpr (by omega)
    exact ⟨_, (decode_eq_ok_iff w _).mpr ⟨k, hw, rfl⟩⟩

theorem decode_eq_error (w : Word) (h : ¬ (0 ≤ w.toInt ∧ w.toInt < 2 ^ 25)) :
    decode w = .error ⟨w⟩ := by
  rw [← exists_decode_iff] at h
  unfold decode at h ⊢
  split
  · next k hk => exact absurd ⟨_, by rw [hk]⟩ h
  · rfl

/-- A word is read as a mnemonic when it is in range and has the opcode in bits 24 to 22. -/
theorem bits_opcode_of_decode {w : Word} {i : Instruction Offset} (h : decode w = .ok i) :
    w.bits 24 22 = i.mnemonic.opcode.toNat := by
  obtain ⟨k, hk, rfl⟩ := (decode_eq_ok_iff w i).mp h
  have := k.opcode.isLt
  rw [mnemonic_ofFields, ← hk, Word.bits]
  omega

theorem decode_same_iff (v w : Word) :
    (∃ i, decode v = .ok i ∧ decode w = .ok i) ↔
      (0 ≤ v.toInt ∧ v.toInt < 2 ^ 25) ∧ (0 ≤ w.toInt ∧ w.toInt < 2 ^ 25) ∧
      ∃ k : Mnemonic, v.bits 24 22 = k.opcode.toNat ∧ w.bits 24 22 = k.opcode.toNat ∧
        ∀ n < 32, k.shape.ignores n = false → v.getLsbD n = w.getLsbD n := by
  constructor
  · intro h'
    obtain ⟨i, hv, hw⟩ := h'
    refine ⟨(exists_decode_iff v).mp ⟨i, hv⟩, (exists_decode_iff w).mp ⟨i, hw⟩, i.mnemonic,
      bits_opcode_of_decode hv, bits_opcode_of_decode hw, ?_⟩
    intro n _ hn
    have h := getLsbD_encode_of_decode hv n
    rw [getLsbD_encode_of_decode hw n, hn] at h
    simpa using h.symm
  · intro h'
    obtain ⟨hv, hw, k, hkv, hkw, hbits⟩ := h'
    obtain ⟨i, hi⟩ := (exists_decode_iff v).mpr hv
    obtain ⟨j, hj⟩ := (exists_decode_iff w).mpr hw
    have hki := Mnemonic.opcode_injective (hkv.symm.trans (bits_opcode_of_decode hi))
    have hkj := Mnemonic.opcode_injective (hkw.symm.trans (bits_opcode_of_decode hj))
    have hij : encode i = encode j := by
      apply BitVec.eq_of_getLsbD_eq
      intro n hn
      rw [getLsbD_encode_of_decode hi, getLsbD_encode_of_decode hj, ← hki, ← hkj]
      cases hs : k.shape.ignores n with
      | true => simp
      | false => rw [hbits n hn hs]
    exact ⟨i, hi, encode_injective hij ▸ hj⟩

/-- Writing and reading are inverse on instructions, and on words up to the bits that the shape of
the instruction has no use for. -/
theorem codec_exact :
    (∀ i : Instruction Offset, decode (encode i) = .ok i ∧
      (encode i).bits 31 25 = 0 ∧ (encode i).bits 24 22 = i.mnemonic.opcode.toNat ∧
      (encode i).bits 21 19 = i.first ∧ (encode i).bits 18 16 = i.second ∧
      (encode i).bits 15 0 = i.low.toNat) ∧
    (∀ w : Word, ((∃ i, decode w = .ok i) ↔ 0 ≤ w.toInt ∧ w.toInt < 2 ^ 25) ∧
      (¬ (0 ≤ w.toInt ∧ w.toInt < 2 ^ 25) → decode w = .error ⟨w⟩)) ∧
    (∀ (w : Word) (i : Instruction Offset), decode w = .ok i → ∀ n,
      (encode i).getLsbD n = (w.getLsbD n && !i.mnemonic.shape.ignores n)) ∧
    (∀ v w : Word, (∃ i, decode v = .ok i ∧ decode w = .ok i) ↔
      (0 ≤ v.toInt ∧ v.toInt < 2 ^ 25) ∧ (0 ≤ w.toInt ∧ w.toInt < 2 ^ 25) ∧
      ∃ k : Mnemonic, v.bits 24 22 = k.opcode.toNat ∧ w.bits 24 22 = k.opcode.toNat ∧
        ∀ n < 32, k.shape.ignores n = false → v.getLsbD n = w.getLsbD n) ∧
    Function.Injective (encode : Instruction Offset → Word) ∧
    ∀ w : Word, reencode w >>= reencode = reencode w :=
  ⟨fun i => ⟨decode_encode i, bits_encode i⟩,
    fun w => ⟨exists_decode_iff w, decode_eq_error w⟩,
    fun _ _ h n => getLsbD_encode_of_decode h n, decode_same_iff, encode_injective,
    reencode_idempotent⟩

end Instruction
end SC32
