import SC32.Proofs.Field.Values

/-!
# A word and its fields

Fields that divide the bits of a word among themselves are taken out of it and written back where
they stood. Main statements: what is written back is the word, and, since no bit is written twice,
the word is also the sum of its fields, each at its power of two.
-/
namespace SC32.Field

/-- Where a field stands: bits `lo` to `lo + width - 1` of a word. -/
structure Place where
  lo : Nat
  width : Nat
  fits : Fits width
  le : lo + width ≤ 32

namespace Place

def Covers (p : Place) (n : Nat) : Prop := p.lo ≤ n ∧ n < p.lo + p.width

instance (p : Place) (n : Nat) : Decidable (p.Covers n) := inferInstanceAs (Decidable (_ ∧ _))

/-- The two have no bit in common. -/
def Apart (p q : Place) : Prop := p.lo + p.width ≤ q.lo ∨ q.lo + q.width ≤ p.lo

instance (p q : Place) : Decidable (p.Apart q) := inferInstanceAs (Decidable (_ ∨ _))

def get (p : Place) (v : Word) : Word := extract v p.lo p.width

/-- The word that holds `x` at this place and is clear elsewhere. -/
def put (p : Place) (x : Word) : Word := x <<< p.lo

theorem Apart.not_covers {p q : Place} (h : p.Apart q) {n : Nat} (hp : p.Covers n) :
    ¬ q.Covers n := by
  unfold Apart at h
  unfold Covers at hp ⊢
  omega

theorem getLsbD_put_get (p : Place) (v : Word) (n : Nat) :
    (p.put (p.get v)).getLsbD n = (decide (p.Covers n) && v.getLsbD n) := by
  have hle := p.le
  rw [put, get, extract_eq_and p.fits.2, BitVec.getLsbD_shiftLeft, BitVec.getLsbD_and,
    BitVec.getLsbD_ushiftRight, getLsbD_mask p.fits.2]
  by_cases hc : p.Covers n
  · obtain ⟨hlo, hhi⟩ := hc
    rw [decide_eq_true (by omega), decide_eq_false (by omega), decide_eq_true (by omega),
      decide_eq_true ⟨hlo, hhi⟩, Nat.add_sub_cancel' hlo]
    simp
  · rw [decide_eq_false hc]
    by_cases hlo : n < p.lo
    · simp [hlo]
    · have hhi : ¬ n - p.lo < p.width := fun hlt => hc ⟨by omega, by omega⟩
      simp [hhi]

/-- A field has room at its place, so no bit of it is shifted out. -/
theorem toNat_put_get (p : Place) (v : Word) :
    (p.put (p.get v)).toNat = (p.get v).toNat * 2 ^ p.lo := by
  have hfield : (p.get v).toNat < 2 ^ p.width := by
    rw [get, toNat_extract]
    exact Nat.mod_lt _ (Nat.two_pow_pos _)
  have hlt : (p.get v).toNat * 2 ^ p.lo < 2 ^ 32 := calc
    _ < 2 ^ p.width * 2 ^ p.lo := Nat.mul_lt_mul_of_pos_right hfield (Nat.two_pow_pos _)
    _ = 2 ^ (p.lo + p.width) := by rw [← Nat.pow_add, Nat.add_comm]
    _ ≤ 2 ^ 32 := Nat.pow_le_pow_right (by decide) p.le
  rw [put, BitVec.toNat_shiftLeft, Nat.shiftLeft_eq, Nat.mod_eq_of_lt hlt]

end Place

open Place

/-- Every bit of a word belongs to exactly one of the places. -/
structure IsPartition (ps : List Place) : Prop where
  apart : ps.Pairwise Apart
  total : ∀ n < 32, ∃ p ∈ ps, p.Covers n

/-- The fields of `v` at the given places, each written where it stood. -/
def gather (ps : List Place) (v : Word) : Word :=
  ps.foldr (fun p u => p.put (p.get v) ||| u) 0

@[simp] theorem gather_nil (v : Word) : gather [] v = 0 := rfl

@[simp] theorem gather_cons (p : Place) (ps : List Place) (v : Word) :
    gather (p :: ps) v = p.put (p.get v) ||| gather ps v := rfl

theorem getLsbD_gather (ps : List Place) (v : Word) (n : Nat) :
    (gather ps v).getLsbD n = (ps.any (·.Covers n) && v.getLsbD n) := by
  induction ps with
  | nil => simp
  | cons p ps ih =>
    rw [gather_cons, BitVec.getLsbD_or, getLsbD_put_get, ih, List.any_cons,
      Bool.and_or_distrib_right]

theorem gather_of_total {ps : List Place} (h : ∀ n < 32, ∃ p ∈ ps, p.Covers n) (v : Word) :
    gather ps v = v := by
  apply BitVec.eq_of_getLsbD_eq
  intro n hn
  obtain ⟨p, hp, hc⟩ := h n hn
  have hany : ps.any (·.Covers n) = true := List.any_eq_true.mpr ⟨p, hp, decide_eq_true hc⟩
  rw [getLsbD_gather, hany, Bool.true_and]

/-- Nothing is carried from one field to another. -/
theorem toNat_gather {ps : List Place} (h : ps.Pairwise Apart) (v : Word) :
    (gather ps v).toNat = (ps.map fun p => (p.get v).toNat * 2 ^ p.lo).sum := by
  induction ps with
  | nil => rfl
  | cons p ps ih =>
    obtain ⟨hp, hps⟩ := List.pairwise_cons.mp h
    have hdisjoint : p.put (p.get v) &&& gather ps v = 0#32 := by
      apply BitVec.eq_of_getLsbD_eq
      intro n hn
      rw [BitVec.getLsbD_and, getLsbD_put_get, getLsbD_gather, BitVec.getLsbD_zero]
      by_cases hc : p.Covers n
      · have hrest : ps.any (·.Covers n) = false := by
          simpa using fun q hq => (hp q hq).not_covers hc
        rw [hrest, Bool.false_and, Bool.and_false]
      · rw [decide_eq_false hc, Bool.false_and, Bool.false_and]
    rw [gather_cons, ← BitVec.add_eq_or_of_and_eq_zero _ _ hdisjoint,
      BitVec.toNat_add_of_and_eq_zero hdisjoint, toNat_put_get, ih hps, List.map_cons,
      List.sum_cons]

/-- Fields of every width are answered for, and are what masks and shifts make of a word. Written
and read again, a signed value comes back into range without leaving its residue; read and written
again, a field loses what stands above it; and a word is neither more nor less than its fields. -/
theorem field_exact :
    (∀ (w : Nat) (h : Fits w),
      (∀ (α : Type) (answer : Fits w → α), ofWidth w answer = .ok (answer h)) ∧
      (lowest w = -(2 ^ (w - 1)) ∧ highest w = 2 ^ (w - 1) - 1) ∧
      (∀ v : Word, truncate v w = v &&& mask w ∧
        signExtend v w = ((v &&& mask w) <<< (32 - w)).sshiftRight (32 - w) ∧
        ∀ lo : Nat, extract v lo w = (v >>> lo) &&& mask w) ∧
      (∀ v : Word, Holds w (signExtend (truncate v w) w).toInt ∧
        (signExtend (truncate v w) w).toInt ≡ v.toInt [ZMOD 2 ^ w] ∧
        (signExtend (truncate v w) w = v ↔ Holds w v.toInt)) ∧
      (∀ b : Word, (truncate (signExtend b w) w).toNat = b.toNat % 2 ^ w) ∧
      (∀ b c : Word, signExtend b w = signExtend c w ↔ b.toNat % 2 ^ w = c.toNat % 2 ^ w) ∧
      ∀ (v : Word) (lo : Nat), lo + w ≤ 32 →
        ((extract v lo w).toNat : Int) = v.toInt % 2 ^ 32 / 2 ^ lo % 2 ^ w) ∧
    ∀ ps : List Place, IsPartition ps → ∀ v : Word,
      gather ps v = v ∧ (ps.map fun p => (p.get v).toNat * 2 ^ p.lo).sum = v.toNat := by
  refine ⟨fun w h => ⟨?answered, ?range, ?masks, ?signed, ?unsigned, ?same, ?extracted⟩, ?parts⟩
  case answered => exact fun _ answer => ofWidth_of_fits h answer
  case range => exact ⟨lowest_eq h, highest_eq w⟩
  case masks =>
    exact fun v => ⟨truncate_eq_and h.2 v, signExtend_eq_sshiftRight h v, extract_eq_and h.2 v⟩
  case signed =>
    intro v
    rw [signExtend_truncate h.2]
    exact ⟨holds_signExtend h v, signExtend_modEq h v, signExtend_eq_self_iff h v⟩
  case unsigned =>
    intro b
    rw [truncate_signExtend h, toNat_truncate]
  case same => exact signExtend_eq_signExtend_iff h
  case extracted =>
    intro v lo _
    rw [toNat_extract, ← toNat_eq_emod]
    push_cast
    rfl
  case parts =>
    intro ps hps v
    have hgather := gather_of_total hps.total v
    exact ⟨hgather, by rw [← toNat_gather hps.apart, hgather]⟩

/-- The fields of an instruction and the bits above them, in no particular order. -/
def instructionPlaces : List Place :=
  [⟨22, 3, by decide, by decide⟩, ⟨0, 16, by decide, by decide⟩, ⟨25, 7, by decide, by decide⟩,
    ⟨16, 3, by decide, by decide⟩, ⟨19, 3, by decide, by decide⟩]

theorem isPartition_instructionPlaces : IsPartition instructionPlaces :=
  ⟨by decide, by decide⟩

/-- One past the greatest offset comes back changed, with the same residue; a field of all 32 bits
is the word; and a word with bits above the opcode is the sum of its fields. -/
theorem field_exact_edges :
    Fits 16 ∧ (signExtend (truncate 32768 16) 16).toInt ≡ 32768 [ZMOD 2 ^ 16] ∧
    signExtend (truncate 32768 16) 16 ≠ 32768 ∧
    Fits 32 ∧ signExtend (truncate (-2) 32) 32 = -2 ∧
    Fits 1 ∧ 31 + 1 ≤ 32 ∧ ((extract (-2) 31 1).toNat : Int) = (-2) % 2 ^ 32 / 2 ^ 31 % 2 ^ 1 ∧
    IsPartition instructionPlaces ∧
    (instructionPlaces.map fun p => (p.get (-17)).toNat * 2 ^ p.lo).sum = 4294967279 := by
  obtain ⟨hfields, hparts⟩ := field_exact
  obtain ⟨-, -, -, hhalf, -⟩ := hfields 16 (by decide)
  obtain ⟨-, -, -, hfull, -⟩ := hfields 32 (by decide)
  obtain ⟨-, -, -, -, -, -, hbit⟩ := hfields 1 (by decide)
  refine ⟨by decide, (hhalf 32768).2.1, ?_, by decide, ?_, by decide, by decide,
    hbit (-2) 31 (by decide), isPartition_instructionPlaces,
    (hparts _ isPartition_instructionPlaces (-17)).2⟩
  · rw [Ne, (hhalf 32768).2.2, holds_iff (by decide)]
    decide
  · rw [(hfull (-2)).2.2, holds_iff (by decide)]
    decide

end SC32.Field
