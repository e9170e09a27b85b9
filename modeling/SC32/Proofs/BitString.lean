import Mathlib.Algebra.Group.Nat.Defs
import SC32.BitString

/-!
# Reading words that are written out

The bits of a word, and its hexadecimal digits, are read as the number that they were written for,
and the bits of adjacent fields, one after the other, are those of both together. Main statements:
reading of digits in any base, and of bits and hexadecimal digits as cases of it.
-/
namespace SC32.Field

/-- The number of some digits, the most significant one first. Which digit a character is, is its
place in the alphabet. -/
def readDigits (alphabet : List Char) (cs : List Char) : Option Nat :=
  cs.foldlM (fun n c => (alphabet.idxOf? c).map (alphabet.length * n + ·)) 0

def binaryDigits : List Char := "01".toList

def hexadecimalDigits : List Char := "0123456789ABCDEF".toList

/-- Digits that are read behind others move these to the left. -/
theorem foldlM_digits {alphabet : List Char} {digit : Nat → Char} (hpos : 0 < alphabet.length)
    (h : ∀ d < alphabet.length, alphabet.idxOf? (digit d) = some d) (x n m : Nat) :
    ((List.range n).reverse.map fun i =>
        digit (x / alphabet.length ^ i % alphabet.length)).foldlM
      (fun n c => (alphabet.idxOf? c).map (alphabet.length * n + ·)) m =
      some (m * alphabet.length ^ n + x % alphabet.length ^ n) := by
  induction n generalizing m with
  | zero => simp [Nat.mod_one]
  | succ n ih =>
    have hdigit := h _ (Nat.mod_lt (x / alphabet.length ^ n) hpos)
    rw [List.range_succ, List.reverse_concat, List.map_cons, List.foldlM_cons, hdigit]
    change List.foldlM _ (alphabet.length * m + _) _ = _
    rw [ih, Nat.mod_pow_succ, Nat.pow_succ]
    grind

theorem readDigits_map (alphabet : List Char) (digit : Nat → Char) (hpos : 0 < alphabet.length)
    (h : ∀ d < alphabet.length, alphabet.idxOf? (digit d) = some d) (x n : Nat) :
    readDigits alphabet ((List.range n).reverse.map fun i =>
      digit (x / alphabet.length ^ i % alphabet.length)) = some (x % alphabet.length ^ n) := by
  rw [readDigits, foldlM_digits hpos h, Nat.zero_mul, Nat.zero_add]

/-! ### Bits -/

@[simp] theorem length_bits (v : Word) (w : Nat) : (bits v w).length = w := by
  rw [bits, List.length_map, List.length_reverse, List.length_range]

theorem mem_bits {v : Word} {w : Nat} {c : Char} (h : c ∈ bits v w) : c = '0' ∨ c = '1' := by
  obtain ⟨i, -, rfl⟩ := List.mem_map.mp h
  cases v.getLsbD i
  · exact .inl rfl
  · exact .inr rfl

theorem toList_encode (v : Word) (w : Nat) : (Field.encode v w).toList = bits v w :=
  String.toList_ofList

/-- There is no space among bits. -/
theorem filter_bits (v : Word) (w : Nat) : (bits v w).filter (· ≠ ' ') = bits v w := by
  rw [List.filter_eq_self]
  intro c hc
  rcases mem_bits hc with rfl | rfl <;> rfl

/-- The upper part of some bits is a field, and so is the lower part. -/
theorem bits_add (v : Word) {lo w : Nat} (h : lo + w ≤ 32) :
    bits v (lo + w) = bits (extract v lo w) w ++ bits v lo := by
  have hupper : ∀ i ∈ (List.range w).reverse,
      bitChar (v.getLsbD (lo + i)) = bitChar ((extract v lo w).getLsbD i) := by
    intro i hi
    have hlt : i < w := by simpa using hi
    have h32 : i < 32 := by omega
    simp [extract, hlt, h32]
  rw [bits, List.range_add, List.reverse_append, List.map_append, ← List.map_reverse,
    List.map_map, Function.comp_def, List.map_congr_left hupper, bits, bits]

theorem bits_extract_zero (v : Word) {w : Nat} (h : w ≤ 32) :
    bits (extract v 0 w) w = bits v w := by
  have hadd : bits v (0 + w) = bits (extract v 0 w) w ++ bits v 0 := bits_add v (by omega)
  rw [Nat.zero_add] at hadd
  rw [hadd]
  exact (List.append_nil _).symm

theorem readDigits_bits (v : Word) (w : Nat) :
    readDigits binaryDigits (bits v w) = some (v.toNat % 2 ^ w) := by
  have hdigit : ∀ i, bitChar (v.getLsbD i) = bitChar (decide (v.toNat / 2 ^ i % 2 = 1)) := by
    intro i
    rw [← BitVec.testBit_toNat, Nat.testBit_eq_decide_div_mod_eq]
  have hread := readDigits_map binaryDigits (fun d => bitChar (decide (d = 1))) (by decide)
    (by decide) v.toNat w
  rw [bits]
  simp only [hdigit]
  exact hread

/-! ### Hexadecimal digits -/

theorem length_hexadecimal (v : Word) : (hexadecimal v).toList.length = 8 := by
  rw [hexadecimal, String.toList_ofList, List.length_map, List.length_reverse, List.length_range]

theorem readDigits_hexadecimal (v : Word) :
    readDigits hexadecimalDigits (hexadecimal v).toList = some v.toNat := by
  have hdigit : ∀ i, (v.extractLsb' (4 * i) 4).toNat = v.toNat / 16 ^ i % 16 := by
    intro i
    rw [BitVec.extractLsb'_toNat, Nat.shiftRight_eq_div_pow, Nat.pow_mul]
  have hread := readDigits_map hexadecimalDigits (fun d => d.digitChar.toUpper) (by decide)
    (by decide) v.toNat 8
  have hlt : v.toNat % 16 ^ 8 = v.toNat := Nat.mod_eq_of_lt v.isLt
  rw [hexadecimal, String.toList_ofList]
  simp only [hdigit]
  exact hread.trans (congrArg some hlt)

end SC32.Field
