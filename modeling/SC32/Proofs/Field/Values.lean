import Mathlib.Data.Int.ModEq
import SC32.Word

/-!
# Fields as numbers

A field is a word under a mask, a field that is read as signed is shifted up to the sign and back,
and both are arithmetic modulo a power of two. Main statements: a signed field is the one integer
of its range that is congruent to the word, and an unsigned field is a remainder of a quotient.
-/
namespace SC32.Field

variable {w : Nat}

theorem ofWidth_of_fits (h : Fits w) (answer : Fits w → α) : ofWidth w answer = .ok (answer h) :=
  dif_pos h

/-! ### Masks and shifts -/

/-- The word whose low `w` bits are set. -/
def mask (w : Nat) : Word := BitVec.allOnes 32 >>> (32 - w)

theorem getLsbD_mask (h : w ≤ 32) (i : Nat) : (mask w).getLsbD i = decide (i < w) := by
  rw [mask, BitVec.getLsbD_ushiftRight, BitVec.getLsbD_allOnes, decide_eq_decide]
  omega

theorem extract_eq_and (h : w ≤ 32) (v : Word) (lo : Nat) :
    extract v lo w = (v >>> lo) &&& mask w := by
  apply BitVec.eq_of_getLsbD_eq
  intro i hi
  simp only [extract, BitVec.getLsbD_setWidth, BitVec.getLsbD_extractLsb', BitVec.getLsbD_and,
    BitVec.getLsbD_ushiftRight, getLsbD_mask h, hi, decide_true, Bool.true_and]
  exact Bool.and_comm _ _

theorem truncate_eq_extract (v : Word) (w : Nat) : truncate v w = extract v 0 w := by
  have hlow : v.setWidth w = v.extractLsb' 0 w := by
    apply BitVec.eq_of_toNat_eq
    rw [BitVec.toNat_setWidth, BitVec.extractLsb'_toNat, Nat.shiftRight_zero]
  rw [truncate, extract, hlow]

theorem truncate_eq_and (h : w ≤ 32) (v : Word) : truncate v w = v &&& mask w := by
  rw [truncate_eq_extract, extract_eq_and h, BitVec.ushiftRight_zero]

/-- From its sign upwards a signed field repeats the sign. -/
theorem getLsbD_signExtend (h : Fits w) (b : Word) {i : Nat} (hi : i < 32) :
    (signExtend b w).getLsbD i = b.getLsbD (min i (w - 1)) := by
  have hpos : 0 < w := h.1
  rw [signExtend, BitVec.getLsbD_signExtend, BitVec.getLsbD_setWidth, BitVec.msb_setWidth,
    decide_eq_true hi, Bool.true_and]
  by_cases hlt : i < w
  · rw [if_pos hlt, decide_eq_true hlt, Bool.true_and, Nat.min_eq_left (by omega)]
  · rw [if_neg hlt, decide_eq_true hpos, Bool.true_and, Nat.min_eq_right (by omega)]

/-- The shift to the left takes the sign of the field to where the shift to the right repeats it. -/
theorem signExtend_eq_sshiftRight (h : Fits w) (b : Word) :
    signExtend b w = ((b &&& mask w) <<< (32 - w)).sshiftRight (32 - w) := by
  obtain ⟨hpos, hle⟩ := h
  have hshifted : ∀ j < w, ((b &&& mask w) <<< (32 - w)).getLsbD (32 - w + j) = b.getLsbD j := by
    intro j hj
    rw [BitVec.getLsbD_shiftLeft, BitVec.getLsbD_and, getLsbD_mask hle, Nat.add_sub_cancel_left,
      decide_eq_true (by omega), decide_eq_false (by omega), decide_eq_true hj]
    simp
  apply BitVec.eq_of_getLsbD_eq
  intro i hi
  rw [getLsbD_signExtend ⟨hpos, hle⟩ b hi, BitVec.getLsbD_sshiftRight,
    decide_eq_false (by omega), Bool.not_false, Bool.true_and]
  by_cases hlt : i < w
  · rw [if_pos (by omega), hshifted i hlt, Nat.min_eq_left (by omega)]
  · rw [if_neg (by omega), BitVec.msb_eq_getLsbD_last, Nat.min_eq_right (by omega),
      ← hshifted (w - 1) (by omega), show 32 - w + (w - 1) = 32 - 1 by omega]

/-! ### Unsigned values -/

theorem toNat_extract (v : Word) (lo w : Nat) :
    (extract v lo w).toNat = v.toNat / 2 ^ lo % 2 ^ w := by
  have hlt : v.toNat / 2 ^ lo % 2 ^ w < 2 ^ 32 :=
    Nat.lt_of_le_of_lt (Nat.mod_le _ _) (Nat.lt_of_le_of_lt (Nat.div_le_self _ _) v.isLt)
  rw [extract, BitVec.toNat_setWidth, BitVec.extractLsb'_toNat, Nat.shiftRight_eq_div_pow,
    Nat.mod_eq_of_lt hlt]

theorem toNat_truncate (v : Word) (w : Nat) : (truncate v w).toNat = v.toNat % 2 ^ w := by
  rw [truncate_eq_extract, toNat_extract, Nat.pow_zero, Nat.div_one]

/-- The unsigned value of a word, from its signed one. -/
theorem toNat_eq_emod (v : Word) : (v.toNat : Int) = v.toInt % 2 ^ 32 := by
  rw [BitVec.toInt_eq_toNat_bmod]
  have hlt := v.isLt
  have hmod := Int.bmod_emod (x := v.toNat) (m := 2 ^ 32)
  omega

theorem toNat_mod_eq_emod (h : w ≤ 32) (v : Word) :
    ((v.toNat % 2 ^ w : Nat) : Int) = v.toInt % 2 ^ w := by
  have hdvd : (2 ^ w : Int) ∣ 2 ^ 32 := by exact_mod_cast Nat.pow_dvd_pow 2 h
  rw [Int.natCast_emod, toNat_eq_emod, Nat.cast_pow, Nat.cast_ofNat, Int.emod_emod_of_dvd _ hdvd]

/-! ### Signed values -/

/-- The integers that a signed field of width `w` has room for. -/
def Holds (w : Nat) (n : Int) : Prop := lowest w ≤ n ∧ n ≤ highest w

theorem lowest_eq (h : Fits w) : lowest w = -(2 ^ (w - 1)) := by
  have hlt : 2 ^ (w - 1) < 2 ^ w := Nat.pow_lt_pow_right (by decide) (by have := h.1; omega)
  rw [lowest, BitVec.toInt_intMin, Nat.mod_eq_of_lt hlt, Nat.cast_pow, Nat.cast_ofNat]

theorem highest_eq (w : Nat) : highest w = 2 ^ (w - 1) - 1 := BitVec.toInt_intMax

theorem holds_iff (h : Fits w) (n : Int) :
    Holds w n ↔ -(2 ^ (w - 1)) ≤ n ∧ n ≤ 2 ^ (w - 1) - 1 := by
  rw [Holds, lowest_eq h, highest_eq]

theorem toInt_signExtend (h : w ≤ 32) (b : Word) :
    (signExtend b w).toInt = b.toInt.bmod (2 ^ w) := by
  rw [signExtend, BitVec.toInt_signExtend_of_le h, BitVec.toInt_setWidth,
    BitVec.toInt_eq_toNat_bmod b, Int.bmod_bmod_of_dvd (Nat.pow_dvd_pow 2 h)]

/-- A signed field is told by its range and its residue. -/
theorem toInt_signExtend_eq_iff (h : Fits w) (b : Word) (n : Int) :
    (signExtend b w).toInt = n ↔ Holds w n ∧ n ≡ b.toInt [ZMOD 2 ^ w] := by
  have htwo : 2 ^ w = 2 * 2 ^ (w - 1) := by
    rw [← Nat.pow_succ', Nat.succ_eq_add_one, Nat.sub_add_cancel h.1]
  have hrange : -(((2 ^ w : Nat) : Int) / 2) ≤ n ∧ n < (((2 ^ w : Nat) : Int) + 1) / 2 ↔
      Holds w n := by
    rw [holds_iff h, htwo]
    push_cast
    omega
  rw [toInt_signExtend h.2, Int.bmod_eq_iff (Nat.two_pow_pos w), ← and_assoc, hrange,
    Int.modEq_comm, Int.modEq_iff_dvd, Nat.cast_pow, Nat.cast_ofNat]

theorem holds_signExtend (h : Fits w) (b : Word) : Holds w (signExtend b w).toInt :=
  ((toInt_signExtend_eq_iff h b _).mp rfl).1

theorem signExtend_modEq (h : Fits w) (b : Word) :
    (signExtend b w).toInt ≡ b.toInt [ZMOD 2 ^ w] :=
  ((toInt_signExtend_eq_iff h b _).mp rfl).2

theorem signExtend_eq_self_iff (h : Fits w) (v : Word) :
    signExtend v w = v ↔ Holds w v.toInt := by
  rw [← BitVec.toInt_inj, toInt_signExtend_eq_iff h]
  exact and_iff_left (Int.ModEq.refl _)

/-! ### Reading what was written -/

theorem signExtend_truncate (h : w ≤ 32) (v : Word) :
    signExtend (truncate v w) w = signExtend v w := by
  rw [signExtend, truncate, BitVec.setWidth_setWidth_of_le _ h, BitVec.setWidth_eq, signExtend]

theorem truncate_signExtend (h : Fits w) (b : Word) :
    truncate (signExtend b w) w = truncate b w := by
  apply BitVec.eq_of_getLsbD_eq
  intro i hi
  rw [truncate_eq_and h.2, truncate_eq_and h.2, BitVec.getLsbD_and, BitVec.getLsbD_and,
    getLsbD_mask h.2, getLsbD_signExtend h b hi]
  by_cases hlt : i < w
  · rw [Nat.min_eq_left (by omega)]
  · rw [decide_eq_false hlt, Bool.and_false, Bool.and_false]

/-- Bits above a field are not looked at, and all others are. -/
theorem signExtend_eq_signExtend_iff (h : Fits w) (b c : Word) :
    signExtend b w = signExtend c w ↔ b.toNat % 2 ^ w = c.toNat % 2 ^ w := by
  rw [← toNat_truncate, ← toNat_truncate, BitVec.toNat_inj]
  constructor
  · intro heq
    rw [← truncate_signExtend h b, heq, truncate_signExtend h]
  · intro heq
    rw [← signExtend_truncate h.2 b, heq, signExtend_truncate h.2]

end SC32.Field
