import SC32.Proofs.Outcome
import SC32.Text.Align
import SC32.Text.Decimal

/-!
# What a numeral stands for

The grammar of decimal numerals, and that reading accepts exactly the numerals whose value is in
range and answers with that value. What is written for an integer spells it.
-/
namespace SC32.Text.Decimal

/-- One or more ASCII digits. -/
def IsRun (cs : List Char) : Prop := cs ≠ [] ∧ ∀ c ∈ cs, c.isDigit

/-- The characters spell the integer: digits behind at most one sign. -/
inductive Spells : List Char → Int → Prop where
  | plain {cs : List Char} (h : IsRun cs) : Spells cs (Nat.ofDigitChars 10 cs 0)
  | plus {cs : List Char} (h : IsRun cs) : Spells ('+' :: cs) (Nat.ofDigitChars 10 cs 0)
  | minus {cs : List Char} (h : IsRun cs) : Spells ('-' :: cs) (-Nat.ofDigitChars 10 cs 0)

theorem push_eq_ok_iff (limit : Nat) (e : Fault) (m : Nat) (c : Char) (n : Nat) :
    push limit e m c = .ok n ↔ c.isDigit ∧ n = 10 * m + digitValue c ∧ n ≤ limit := by
  unfold push
  by_cases hc : c.isDigit
  · by_cases hl : 10 * m + digitValue c ≤ limit
    · rw [if_pos hc, if_pos hl, Except.ok.injEq]
      exact ⟨fun h => ⟨hc, h.symm, h ▸ hl⟩, fun h => h.2.1.symm⟩
    · rw [if_pos hc, if_neg hl]
      exact ⟨fun h => (nomatch h), fun h => absurd (h.2.1 ▸ h.2.2) hl⟩
  · rw [if_neg hc]
    exact ⟨fun h => (nomatch h), fun h => absurd h.1 hc⟩

theorem le_ofDigitChars (cs : List Char) (m : Nat) : m ≤ Nat.ofDigitChars 10 cs m := by
  induction cs generalizing m with
  | nil => simp
  | cons c cs ih =>
    rw [Nat.ofDigitChars_cons]
    have := ih (10 * m + (c.toNat - '0'.toNat))
    omega

/-- Digits only make the number larger, so it is enough that the last value fits. -/
theorem foldlM_push_eq_ok_iff (limit : Nat) (e : Fault) (cs : List Char) (m n : Nat)
    (hm : m ≤ limit) :
    cs.foldlM (push limit e) m = .ok n ↔
      (∀ c ∈ cs, c.isDigit) ∧ n = Nat.ofDigitChars 10 cs m ∧ n ≤ limit := by
  induction cs generalizing m with
  | nil =>
    simp only [List.foldlM_nil, pure, Except.pure, Except.ok.injEq, Nat.ofDigitChars_nil,
      List.not_mem_nil, false_implies, implies_true, true_and]
    omega
  | cons c cs ih =>
    rw [List.foldlM_cons, bind_eq_ok_iff, List.forall_mem_cons, Nat.ofDigitChars_cons]
    constructor
    · intro h'
      obtain ⟨m', h, h'⟩ := h'
      obtain ⟨hc, rfl, hl⟩ := (push_eq_ok_iff _ _ _ _ _).mp h
      obtain ⟨hcs, hn⟩ := (ih _ hl).mp h'
      exact ⟨⟨hc, hcs⟩, hn⟩
    · intro h'
      obtain ⟨⟨hc, hcs⟩, hn, hl⟩ := h'
      have hle := le_ofDigitChars cs (10 * m + digitValue c)
      have hl' : 10 * m + digitValue c ≤ limit := by
        rw [digitValue] at hle ⊢
        omega
      exact ⟨_, (push_eq_ok_iff _ _ _ _ _).mpr ⟨hc, rfl, hl'⟩, (ih _ hl').mpr ⟨hcs, hn, hl⟩⟩

theorem digits_eq_ok_iff (limit : Nat) (e : Fault) (cs : List Char) (n : Nat) :
    digits limit e cs = .ok n ↔ IsRun cs ∧ n = Nat.ofDigitChars 10 cs 0 ∧ n ≤ limit := by
  cases cs with
  | nil => simp [digits, IsRun]
  | cons c cs =>
    rw [digits, foldlM_push_eq_ok_iff limit e _ 0 n (Nat.zero_le _)]
    · simp [IsRun]
    · simp

theorem map_digits_eq_ok_iff (limit : Nat) (e : Fault) (cs : List Char) (g : Nat → Int) (n : Int) :
    (digits limit e cs).map g = .ok n ↔
      IsRun cs ∧ n = g (Nat.ofDigitChars 10 cs 0) ∧ Nat.ofDigitChars 10 cs 0 ≤ limit := by
  rw [map_eq_ok_iff]
  constructor
  · intro h
    obtain ⟨m, hm, rfl⟩ := h
    obtain ⟨hr, rfl, hl⟩ := (digits_eq_ok_iff _ _ _ _).mp hm
    exact ⟨hr, rfl, hl⟩
  · intro h
    obtain ⟨hr, rfl, hl⟩ := h
    exact ⟨_, (digits_eq_ok_iff _ _ _ _).mpr ⟨hr, rfl, hl⟩, rfl⟩

theorem not_isRun_of_sign {c : Char} (cs : List Char) (h : c.isDigit = false) :
    ¬ IsRun (c :: cs) := by
  intro hr
  have hc := hr.2 c List.mem_cons_self
  rw [h] at hc
  cases hc

theorem spells_minus_iff (cs : List Char) (n : Int) :
    Spells ('-' :: cs) n ↔ IsRun cs ∧ n = -Nat.ofDigitChars 10 cs 0 := by
  constructor
  · intro h
    cases h with
    | plain h => exact absurd h (not_isRun_of_sign cs rfl)
    | minus h => exact ⟨h, rfl⟩
  · intro h'
    obtain ⟨h, rfl⟩ := h'
    exact .minus h

theorem spells_plus_iff (cs : List Char) (n : Int) :
    Spells ('+' :: cs) n ↔ IsRun cs ∧ n = Nat.ofDigitChars 10 cs 0 := by
  constructor
  · intro h
    cases h with
    | plain h => exact absurd h (not_isRun_of_sign cs rfl)
    | plus h => exact ⟨h, rfl⟩
  · intro h'
    obtain ⟨h, rfl⟩ := h'
    exact .plus h

theorem spells_iff_of_no_sign (cs : List Char) (n : Int) (hm : ∀ ds, cs ≠ '-' :: ds)
    (hp : ∀ ds, cs ≠ '+' :: ds) : Spells cs n ↔ IsRun cs ∧ n = Nat.ofDigitChars 10 cs 0 := by
  constructor
  · intro h
    cases h with
    | plain h => exact ⟨h, rfl⟩
    | plus h => exact absurd rfl (hp _)
    | minus h => exact absurd rfl (hm _)
  · intro h'
    obtain ⟨h, rfl⟩ := h'
    exact .plain h

/-- A text spells one integer at most. -/
theorem Spells.unique {cs : List Char} {n k : Int} (h : Spells cs n) (h' : Spells cs k) :
    n = k := by
  cases h with
  | plain h =>
    cases h' with
    | plain _ => rfl
    | plus _ | minus _ => exact absurd h (not_isRun_of_sign _ rfl)
  | plus _ => exact ((spells_plus_iff _ _).mp h').2.symm
  | minus _ => exact ((spells_minus_iff _ _).mp h').2.symm

/-- The number is made an integer before it is negated; one map does both. -/
theorem neg_digits (limit : Nat) (e : Fault) (cs : List Char) :
    (Except.map (fun k : Int => -k) do
      let m ← digits limit e cs
      pure (m : Int)) = (digits limit e cs).map fun m : Nat => -(m : Int) := by
  cases digits limit e cs <;> rfl

/-- A sign is no digit, so a numeral is read in one way only. -/
theorem signed32_eq_ok_iff (s : String) (n : Int) :
    signed32 s = .ok n ↔ Spells s.toList n ∧ -2147483648 ≤ n ∧ n ≤ 2147483647 := by
  unfold signed32
  split
  · next cs hs =>
    rw [hs, spells_minus_iff, neg_digits, map_digits_eq_ok_iff, and_assoc]
    refine and_congr_right fun _ => and_congr_right fun _ => ?_
    omega
  · next cs hs =>
    rw [hs, spells_plus_iff, map_digits_eq_ok_iff, and_assoc]
    refine and_congr_right fun _ => and_congr_right fun hn => ?_
    simp only [Int.ofNat_eq_natCast] at hn
    omega
  · next hm hp =>
    rw [spells_iff_of_no_sign _ _ hm hp, map_digits_eq_ok_iff, and_assoc]
    refine and_congr_right fun _ => and_congr_right fun hn => ?_
    simp only [Int.ofNat_eq_natCast] at hn
    omega

/-- Of an unsigned numeral only a plus sign may stand in front. -/
theorem unsigned_eq_ok_iff (limit : Nat) (s : String) (n : Nat) :
    unsigned limit s = .ok n ↔
      ∃ cs, IsRun cs ∧ (s.toList = cs ∨ s.toList = '+' :: cs) ∧ n = Nat.ofDigitChars 10 cs 0 ∧
        n ≤ limit := by
  unfold unsigned
  split
  · next cs hs =>
    rw [digits_eq_ok_iff, hs]
    constructor
    · intro h
      exact ⟨cs, h.1, .inr rfl, h.2⟩
    · rintro ⟨ds, hds, rfl | h, hn⟩
      · exact absurd hds (not_isRun_of_sign cs rfl)
      · obtain rfl := (List.cons.inj h).2
        exact ⟨hds, hn⟩
  · next hp =>
    rw [digits_eq_ok_iff]
    constructor
    · intro h
      exact ⟨_, h.1, .inl rfl, h.2⟩
    · rintro ⟨ds, hds, h | h, hn⟩
      · rw [h]
        exact ⟨hds, hn⟩
      · exact absurd h (hp ds)

/-! ### Numerals that are refused -/

/-- The first character at which the digits of a number up to `limit` cannot go on: it is no digit,
or it makes the number too large. Without a character, a digit is missing. -/
inductive Stumbles (limit : Nat) (excess : Fault) : List Char → Fault → Prop where
  | missing : Stumbles limit excess [] .invalidDigit
  | digit {before : List Char} {c : Char} (h : ∀ d ∈ before, d.isDigit)
    (hv : Nat.ofDigitChars 10 before 0 ≤ limit) (hc : c.isDigit = false) (behind : List Char) :
    Stumbles limit excess (before ++ c :: behind) .invalidDigit
  | excess {before : List Char} {c : Char} (h : ∀ d ∈ before, d.isDigit)
    (hv : Nat.ofDigitChars 10 before 0 ≤ limit) (hc : c.isDigit)
    (hover : limit < Nat.ofDigitChars 10 (before ++ [c]) 0) (behind : List Char) :
    Stumbles limit excess (before ++ c :: behind) excess

/-- The text is no numeral of 32 bits, and where it goes wrong first. -/
inductive Misspelt : List Char → Fault → Prop where
  | minus {cs : List Char} {f : Fault} (h : Stumbles 2147483648 .tooSmall cs f) :
    Misspelt ('-' :: cs) f
  | plus {cs : List Char} {f : Fault} (h : Stumbles 2147483647 .tooLarge cs f) :
    Misspelt ('+' :: cs) f
  | plain {cs : List Char} {f : Fault} (hm : ∀ ds, cs ≠ '-' :: ds) (hp : ∀ ds, cs ≠ '+' :: ds)
    (h : Stumbles 2147483647 .tooLarge cs f) : Misspelt cs f

theorem push_eq_error_iff (limit : Nat) (e : Fault) (m : Nat) (c : Char) (f : Fault) :
    push limit e m c = .error f ↔
      c.isDigit = false ∧ f = .invalidDigit ∨
        c.isDigit ∧ limit < 10 * m + digitValue c ∧ f = e := by
  unfold push
  cases hc : c.isDigit with
  | false => simp [eq_comm]
  | true =>
    by_cases hl : 10 * m + digitValue c ≤ limit
    · simp [hl, Nat.not_lt_of_le hl]
    · simp [hl, Nat.lt_of_not_le hl, eq_comm]

theorem ofDigitChars_concat (cs : List Char) (c : Char) :
    Nat.ofDigitChars 10 (cs ++ [c]) 0 = 10 * Nat.ofDigitChars 10 cs 0 + digitValue c := by
  rw [Nat.ofDigitChars_append, Nat.ofDigitChars_cons, Nat.ofDigitChars_nil, digitValue]

theorem digits_eq_error_iff (limit : Nat) (e : Fault) (cs : List Char) (f : Fault) :
    digits limit e cs = .error f ↔ Stumbles limit e cs f := by
  constructor
  · intro h
    cases cs with
    | nil =>
      cases h
      exact .missing
    | cons c cs =>
      rw [digits, foldlM_eq_error_iff] at h
      · obtain ⟨before, d, behind, m, hcut, hm, hd⟩ := h
        obtain ⟨hdigits, rfl, hv⟩ :=
          (foldlM_push_eq_ok_iff limit e before 0 m (Nat.zero_le _)).mp hm
        rw [hcut]
        rcases (push_eq_error_iff _ _ _ _ _).mp hd with ⟨hc, rfl⟩ | ⟨hc, hover, rfl⟩
        · exact .digit hdigits hv hc behind
        · exact .excess hdigits hv hc (by rwa [ofDigitChars_concat]) behind
      · simp
  · -- Up to the character in question everything is read.
    have hread : ∀ {before : List Char} {c : Char} (behind : List Char),
        (∀ d ∈ before, d.isDigit) → Nat.ofDigitChars 10 before 0 ≤ limit →
        push limit e (Nat.ofDigitChars 10 before 0) c = .error f →
        digits limit e (before ++ c :: behind) = .error f := by
      intro before c behind hdigits hv hc
      rw [digits, foldlM_eq_error_iff]
      · exact ⟨before, c, behind, _, rfl,
          (foldlM_push_eq_ok_iff limit e before 0 _ (Nat.zero_le _)).mpr ⟨hdigits, rfl, hv⟩, hc⟩
      · simp
    intro h
    cases h with
    | missing => rfl
    | digit h hv hc behind =>
      exact hread behind h hv ((push_eq_error_iff _ _ _ _ _).mpr (.inl ⟨hc, rfl⟩))
    | excess h hv hc hover behind =>
      rw [ofDigitChars_concat] at hover
      exact hread behind h hv ((push_eq_error_iff _ _ _ _ _).mpr (.inr ⟨hc, hover, rfl⟩))

theorem misspelt_minus_iff (cs : List Char) (f : Fault) :
    Misspelt ('-' :: cs) f ↔ Stumbles 2147483648 .tooSmall cs f := by
  constructor
  · intro h
    cases h with
    | minus h => exact h
    | plain hm _ _ => exact absurd rfl (hm cs)
  · exact .minus

theorem misspelt_plus_iff (cs : List Char) (f : Fault) :
    Misspelt ('+' :: cs) f ↔ Stumbles 2147483647 .tooLarge cs f := by
  constructor
  · intro h
    cases h with
    | plus h => exact h
    | plain _ hp _ => exact absurd rfl (hp cs)
  · exact .plus

theorem misspelt_iff_of_no_sign (cs : List Char) (f : Fault) (hm : ∀ ds, cs ≠ '-' :: ds)
    (hp : ∀ ds, cs ≠ '+' :: ds) : Misspelt cs f ↔ Stumbles 2147483647 .tooLarge cs f := by
  constructor
  · intro h
    cases h with
    | minus _ => exact absurd rfl (hm _)
    | plus _ => exact absurd rfl (hp _)
    | plain _ _ h => exact h
  · exact .plain hm hp

/-- Reading fails at the first character that does not fit, and for what is wrong with it. -/
theorem signed32_eq_error_iff (s : String) (f : Fault) :
    signed32 s = .error f ↔ Misspelt s.toList f := by
  unfold signed32
  split
  · next cs hs =>
    rw [hs, misspelt_minus_iff, neg_digits, map_eq_error_iff, digits_eq_error_iff]
  · next cs hs => rw [hs, misspelt_plus_iff, map_eq_error_iff, digits_eq_error_iff]
  · next hm hp =>
    rw [misspelt_iff_of_no_sign _ _ hm hp, map_eq_error_iff, digits_eq_error_iff]

/-- What is no numeral in range goes wrong in one way. -/
theorem misspelt_iff (cs : List Char) :
    (¬ ∃ n, Spells cs n ∧ -2147483648 ≤ n ∧ n ≤ 2147483647) ↔
      ∃ f, ∀ g, Misspelt cs g ↔ g = f := by
  have hok := signed32_eq_ok_iff (String.ofList cs)
  have herror := signed32_eq_error_iff (String.ofList cs)
  rw [String.toList_ofList] at hok herror
  simp only [← hok, ← herror]
  cases signed32 (String.ofList cs) with
  | ok n => simp
  | error f => simp [eq_comm]

/-! ### Numerals that are written -/

theorem toList_ofNat (n : Nat) : (ofNat n).toList = Nat.toDigits 10 n := String.toList_ofList

theorem toList_ofInt_negSucc (n : Nat) :
    (ofInt (.negSucc n)).toList = '-' :: Nat.toDigits 10 (n + 1) := by
  rw [ofInt, String.toList_append, toList_ofNat]
  rfl

theorem isRun_toDigits (n : Nat) : IsRun (Nat.toDigits 10 n) := by
  refine ⟨Nat.toDigits_ne_nil, ?_⟩
  intro c hc
  exact Nat.isDigit_of_mem_toDigits (by decide) (by decide) hc

theorem ofDigitChars_zeros (k : Nat) (cs : List Char) :
    Nat.ofDigitChars 10 (List.replicate k '0' ++ cs) 0 = Nat.ofDigitChars 10 cs 0 := by
  induction k with
  | zero => rfl
  | succ k ih =>
    rw [List.replicate_succ, List.cons_append, Nat.ofDigitChars_cons]
    exact ih

/-- Zeros in front of digits change nothing. -/
theorem spells_zeroFill (width n : Nat) : Spells (zeroFill width (ofNat n)).toList n := by
  have hrun : IsRun (List.replicate (width - (Nat.toDigits 10 n).length) '0' ++
      Nat.toDigits 10 n) := by
    refine ⟨List.append_ne_nil_of_right_ne_nil _ (isRun_toDigits n).1, ?_⟩
    intro c hc
    rcases List.mem_append.mp hc with hc | hc
    · rw [List.eq_of_mem_replicate hc]
      rfl
    · exact (isRun_toDigits n).2 c hc
  have h := Spells.plain hrun
  rw [ofDigitChars_zeros, Nat.ofDigitChars_ten_toDigits] at h
  rw [zeroFill, String.toList_ofList, toList_ofNat]
  exact h

/-- What is written for an integer spells it. -/
theorem spells_ofInt (n : Int) : Spells (ofInt n).toList n := by
  cases n with
  | ofNat n =>
    have h := Spells.plain (isRun_toDigits n)
    rw [Nat.ofDigitChars_ten_toDigits] at h
    rw [ofInt, toList_ofNat]
    exact h
  | negSucc n =>
    have h := Spells.minus (isRun_toDigits (n + 1))
    rw [Nat.ofDigitChars_ten_toDigits] at h
    rw [toList_ofInt_negSucc]
    exact h

theorem signed32_ofInt {n : Int} (hlo : -2147483648 ≤ n) (hhi : n ≤ 2147483647) :
    signed32 (ofInt n) = .ok n :=
  (signed32_eq_ok_iff _ _).mpr ⟨spells_ofInt n, hlo, hhi⟩

/-- A numeral has digits behind its sign. -/
theorem Spells.sign_or_isDigit_of_mem {cs : List Char} {n : Int} (h : Spells cs n) {c : Char}
    (hc : c ∈ cs) : c = '+' ∨ c = '-' ∨ c.isDigit := by
  cases h with
  | plain h => exact .inr (.inr (h.2 c hc))
  | plus h =>
    rcases List.mem_cons.mp hc with rfl | hc
    · exact .inl rfl
    · exact .inr (.inr (h.2 c hc))
  | minus h =>
    rcases List.mem_cons.mp hc with rfl | hc
    · exact .inr (.inl rfl)
    · exact .inr (.inr (h.2 c hc))

theorem Spells.ne_nil {cs : List Char} {n : Int} (h : Spells cs n) : cs ≠ [] := by
  cases h with
  | plain h => exact h.1
  | plus h => exact List.cons_ne_nil _ _
  | minus h => exact List.cons_ne_nil _ _

end SC32.Text.Decimal
