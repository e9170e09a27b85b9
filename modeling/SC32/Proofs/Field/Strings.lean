import SC32.Proofs.BitString
import SC32.Proofs.Field.Values

/-!
# Bit strings

Writing a field and reading a bit string undo each other. Main statements: a text is read exactly
if it is a bit string of the width, from what is read the same text is written again, and what is
written is read as the one value of the field's range with the same residue.
-/
namespace SC32.Field

def IsBit (c : Char) : Prop := c = '0' ∨ c = '1'

instance (c : Char) : Decidable (IsBit c) := inferInstanceAs (Decidable (_ ∨ _))

/-- A text that can be read as a field of width `w`. -/
structure IsBitString (w : Nat) (s : String) : Prop where
  fits : Fits w
  size : s.utf8ByteSize = w
  bits : ∀ c ∈ s.toList, IsBit c

/-! ### The number of a bit string -/

/-- Bits that are read behind others move these to the left. -/
theorem foldl_value (cs : List Char) (n : Nat) :
    cs.foldl (fun n c => 2 * n + if c = '1' then 1 else 0) n =
      n * 2 ^ cs.length + value cs := by
  induction cs generalizing n with
  | nil => simp [value]
  | cons c cs ih =>
    rw [value, List.foldl_cons, List.foldl_cons, ih, ih (2 * 0 + _), List.length_cons,
      Nat.pow_succ]
    grind

theorem value_cons (c : Char) (cs : List Char) :
    value (c :: cs) = (if c = '1' then 1 else 0) * 2 ^ cs.length + value cs := by
  rw [value, List.foldl_cons, foldl_value, Nat.mul_zero, Nat.zero_add]

theorem value_zero_cons (cs : List Char) : value ('0' :: cs) = value cs := by
  rw [value_cons, if_neg (by decide), Nat.zero_mul, Nat.zero_add]

theorem value_one_cons (cs : List Char) : value ('1' :: cs) = 2 ^ cs.length + value cs := by
  rw [value_cons, if_pos rfl, Nat.one_mul]

theorem value_lt {cs : List Char} (h : ∀ c ∈ cs, IsBit c) : value cs < 2 ^ cs.length := by
  induction cs with
  | nil => exact Nat.one_pos
  | cons c cs ih =>
    obtain ⟨hc, hcs⟩ := List.forall_mem_cons.mp h
    have hlt := ih hcs
    rw [List.length_cons, Nat.pow_succ]
    rcases hc with rfl | rfl
    · rw [value_zero_cons]
      omega
    · rw [value_one_cons]
      omega

/-- The first bit is told from the rest, which is too small to make up for it. -/
theorem value_injective {cs ds : List Char} (hcs : ∀ c ∈ cs, IsBit c) (hds : ∀ d ∈ ds, IsBit d)
    (hlength : cs.length = ds.length) (hvalue : value cs = value ds) : cs = ds := by
  induction cs generalizing ds with
  | nil => exact (List.length_eq_zero_iff.mp hlength.symm).symm
  | cons c cs ih =>
    cases ds with
    | nil => cases hlength
    | cons d ds =>
      obtain ⟨hc, hctail⟩ := List.forall_mem_cons.mp hcs
      obtain ⟨hd, hdtail⟩ := List.forall_mem_cons.mp hds
      have hrest : cs.length = ds.length := Nat.succ.inj hlength
      have hcslt : value cs < 2 ^ ds.length := hrest ▸ value_lt hctail
      have hdslt := value_lt hdtail
      rcases hc with rfl | rfl <;> rcases hd with rfl | rfl <;>
        simp only [value_zero_cons, value_one_cons, hrest] at hvalue
      · rw [ih hctail hdtail hrest hvalue]
      · omega
      · omega
      · rw [ih hctail hdtail hrest (Nat.add_left_cancel hvalue)]

theorem readDigits_of_isBit {cs : List Char} (h : ∀ c ∈ cs, IsBit c) :
    readDigits binaryDigits cs = some (value cs) := by
  have hfold : ∀ n : Nat, cs.foldlM
      (fun n c => (binaryDigits.idxOf? c).map (binaryDigits.length * n + ·)) n =
        some (cs.foldl (fun n c => 2 * n + if c = '1' then 1 else 0) n) := by
    induction cs with
    | nil => exact fun _ => rfl
    | cons c cs ih =>
      obtain ⟨hc, hcs⟩ := List.forall_mem_cons.mp h
      intro n
      rw [List.foldlM_cons, List.foldl_cons, ← ih hcs]
      rcases hc with rfl | rfl <;> rfl
  exact hfold 0

theorem value_bits (v : Word) (w : Nat) : value (bits v w) = v.toNat % 2 ^ w := by
  have hread := readDigits_bits v w
  rw [readDigits_of_isBit fun _ => mem_bits] at hread
  exact Option.some.inj hread

/-! ### Reading -/

/-- A bit takes one byte. -/
theorem utf8ByteSize_ofList {cs : List Char} (h : ∀ c ∈ cs, IsBit c) :
    (String.ofList cs).utf8ByteSize = cs.length := by
  induction cs with
  | nil => rfl
  | cons c cs ih =>
    obtain ⟨hc, hcs⟩ := List.forall_mem_cons.mp h
    rw [String.ofList_cons, String.utf8ByteSize_append, String.utf8ByteSize_singleton, ih hcs,
      List.length_cons, Nat.add_comm]
    rcases hc with rfl | rfl <;> rfl

theorem isBitString_iff (w : Nat) (s : String) :
    IsBitString w s ↔
      Fits w ∧ s.utf8ByteSize = w ∧ s.toList.all (fun c => c = '0' || c = '1') := by
  have hall : (s.toList.all fun c => c = '0' || c = '1') = true ↔ ∀ c ∈ s.toList, IsBit c := by
    simp [IsBit]
  rw [hall]
  exact ⟨fun h => ⟨h.fits, h.size, h.bits⟩, fun h => ⟨h.1, h.2.1, h.2.2⟩⟩

theorem decode_of_isBitString {w : Nat} {s : String} (h : IsBitString w s) :
    decode s w = .ok (signExtend (BitVec.ofNat 32 (value s.toList)) w) :=
  if_pos ((isBitString_iff w s).mp h)

theorem decode_of_not_isBitString {w : Nat} {s : String} (h : ¬ IsBitString w s) :
    decode s w = .error (.bits s w) :=
  if_neg (mt (isBitString_iff w s).mpr h)

theorem exists_decode_iff (w : Nat) (s : String) :
    (∃ v, decode s w = .ok v) ↔ IsBitString w s := by
  constructor
  · intro h'
    obtain ⟨v, hv⟩ := h'
    by_contra h
    rw [decode_of_not_isBitString h] at hv
    cases hv
  · exact fun h => ⟨_, decode_of_isBitString h⟩

/-! ### Writing and reading -/

theorem isBitString_encode {w : Nat} (h : Fits w) (v : Word) : IsBitString w (encode v w) := by
  constructor
  case fits => exact h
  case size => rw [encode, utf8ByteSize_ofList fun _ => mem_bits, length_bits]
  case bits =>
    rw [toList_encode]
    exact fun _ => mem_bits

theorem decode_encode {w : Nat} (h : Fits w) (v : Word) :
    decode (encode v w) w = .ok (signExtend v w) := by
  have hsame : signExtend (BitVec.ofNat 32 (value (encode v w).toList)) w =
      signExtend v w := by
    rw [signExtend_eq_signExtend_iff h, toList_encode, value_bits, BitVec.toNat_ofNat,
      Nat.mod_mod_of_dvd _ (Nat.pow_dvd_pow 2 h.2), Nat.mod_mod]
  rw [decode_of_isBitString (isBitString_encode h v), hsame]

theorem encode_of_decode {w : Nat} {s : String} {v : Word} (h : decode s w = .ok v) :
    encode v w = s := by
  have hs : IsBitString w s := (exists_decode_iff w s).mp ⟨v, h⟩
  have hlength : s.toList.length = w := by
    rw [← utf8ByteSize_ofList hs.bits, String.ofList_toList, hs.size]
  have hlt : value s.toList < 2 ^ w := hlength ▸ value_lt hs.bits
  rw [decode_of_isBitString hs] at h
  cases h
  have hvalue : value (bits (signExtend (BitVec.ofNat 32 (value s.toList)) w) w) =
      value s.toList := by
    rw [value_bits, ← toNat_truncate, truncate_signExtend hs.fits, toNat_truncate,
      BitVec.toNat_ofNat, Nat.mod_mod_of_dvd _ (Nat.pow_dvd_pow 2 hs.fits.2), Nat.mod_eq_of_lt hlt]
  apply String.toList_injective
  rw [toList_encode]
  exact value_injective (fun _ => mem_bits) hs.bits (by rw [length_bits, hlength]) hvalue

/-- What is written has one bit for each of the width, the most significant one first. A text is
read if and only if it is a bit string of the width, and then it is what is written of its value.
What is written is read as the one value of the range that has the same residue. -/
theorem bitString_exact :
    (∀ w : Nat, Fits w → ∀ v : Word,
      ofWidth w (fun _ => encode v w) = .ok (encode v w) ∧
      (encode v w).toList.length = w ∧ (∀ c ∈ (encode v w).toList, IsBit c) ∧
      readDigits binaryDigits (encode v w).toList = some (v.toInt % 2 ^ w).toNat ∧
      ∃ u : Word, decode (encode v w) w = .ok u ∧
        (∀ n : Int, u.toInt = n ↔
          (-(2 ^ (w - 1)) ≤ n ∧ n ≤ 2 ^ (w - 1) - 1) ∧ n ≡ v.toInt [ZMOD 2 ^ w]) ∧
        (u = v ↔ -(2 ^ (w - 1)) ≤ v.toInt ∧ v.toInt ≤ 2 ^ (w - 1) - 1)) ∧
    ∀ (s : String) (w : Nat),
      ((∃ v, decode s w = .ok v) ↔ IsBitString w s) ∧
      (¬ IsBitString w s → decode s w = .error (.bits s w)) ∧
      ∀ v, decode s w = .ok v → encode v w = s := by
  constructor
  · intro w h v
    have hbits := isBitString_encode h v
    refine ⟨ofWidth_of_fits h _, ?_, hbits.bits, ?_, signExtend v w, decode_encode h v, ?_, ?_⟩
    · rw [toList_encode, length_bits]
    · rw [toList_encode, readDigits_bits, ← toNat_mod_eq_emod h.2, Int.toNat_natCast]
    · intro n
      rw [toInt_signExtend_eq_iff h, holds_iff h]
    · rw [signExtend_eq_self_iff h, holds_iff h]
  · intro s w
    exact ⟨exists_decode_iff w s, decode_of_not_isBitString, fun _ => encode_of_decode⟩

/-- Three bits hold -5 as 3. A sign is no bit, and neither is a character of two bytes. -/
theorem bitString_exact_three :
    Fits 3 ∧ (∃ u : Word, decode (encode (-5) 3) 3 = .ok u ∧ u.toInt = 3 ∧ u ≠ -5) ∧
    decode "100" 3 = .ok (-4) ∧ encode (-4) 3 = "100" ∧
    ¬ IsBitString 3 "+11" ∧ decode "+11" 3 = .error (.bits "+11" 3) ∧
    ¬ IsBitString 3 "1é" ∧ decode "1é" 3 = .error (.bits "1é" 3) := by
  obtain ⟨hwritten, hread⟩ := bitString_exact
  obtain ⟨-, -, -, -, u, hu, hvalue, hself⟩ := hwritten 3 (by decide) (-5)
  have hfour : decode "100" 3 = .ok (-4) := by decide
  have hsign : ¬ IsBitString 3 "+11" := fun h => absurd (h.bits '+' (by decide)) (by decide)
  have hwide : ¬ IsBitString 3 "1é" := fun h => absurd (h.bits 'é' (by decide)) (by decide)
  refine ⟨by decide, ⟨u, hu, (hvalue 3).mpr (by decide), mt hself.mp (by decide)⟩, hfour,
    (hread "100" 3).2.2 _ hfour, hsign, (hread _ _).2.1 hsign, hwide, (hread _ _).2.1 hwide⟩

end SC32.Field
