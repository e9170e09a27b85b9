import SC32.Proofs.Assembly.Passes
import SC32.Proofs.Instruction.Codec

/-!
# Assembly is exact

A text is assembled exactly when it is well formed, and every word then is what its statement means
over the integers: no address and no offset is cut on the way.
-/
namespace SC32.Assembly

variable {t : SymbolTable} {source : List String}

/-! ### What a word says -/

theorem Denotes.fits_word {x : Operand} {n : Int} (h : Denotes source 0 x n)
    (hlen : (addressed source).length < 2 ^ 31) : -2147483648 ≤ n ∧ n ≤ 2147483647 := by
  rcases h with ⟨a, ha, rfl⟩ | ⟨-, -, hn⟩
  · have hlt := ha.lt_length
    omega
  · exact hn

/-- The word of a statement says what the statement means. -/
theorem means_of_word (h : Agrees t source) (hlen : (addressed source).length < 2 ^ 31) {a : Nat}
    {s : Statement} {w : Word} (hw : s.word t a = .ok w) : Means source a w s := by
  cases s with
  | fill x =>
    obtain ⟨n, hn, rfl⟩ := (word_fill_eq_ok_iff h a x w).mp hw
    have hfit := hn.fits_word hlen
    have hval : (BitVec.ofInt 32 n).toInt = n :=
      BitVec.toInt_ofInt_eq_self (by decide) (by omega) (by omega)
    rw [Means, hval]
    exact hn
  | code i =>
    obtain ⟨j, hj, rfl⟩ := (word_code_eq_ok_iff h a i w).mp hw
    exact ⟨j, Instruction.decode_encode j, hj⟩

/-! ### When there is a word -/

/-- A defined operand denotes a number from every origin. -/
theorem exists_denotes_iff (source : List String) (origin : Int) (x : Operand) :
    (∃ n, Denotes source origin x n) ↔ (∃ a, Defines source x a) ∨ ∃ n, Literal x n := by
  constructor
  · rintro ⟨n, ⟨a, ha, -⟩ | ⟨-, hn⟩⟩
    · exact .inl ⟨a, ha⟩
    · exact .inr ⟨n, hn⟩
  · intro h
    by_cases hx : ∃ a, Defines source x a
    · obtain ⟨a, ha⟩ := hx
      exact ⟨_, .inl ⟨a, ha, rfl⟩⟩
    · obtain ⟨n, hn⟩ := h.resolve_left hx
      exact ⟨n, .inr ⟨not_exists.mp hx, hn⟩⟩

/-- An operand denotes one number, for a table has one address for a label. -/
theorem Denotes.unique (h : Agrees t source) {origin : Int} {x : Operand} {n m : Int}
    (hn : Denotes source origin x n) (hm : Denotes source origin x m) : n = m := by
  obtain ⟨v, hv, rfl⟩ := (denotes_iff h origin x n).mp hn
  obtain ⟨u, hu, rfl⟩ := (denotes_iff h origin x m).mp hm
  rw [hv, Except.ok.injEq] at hu
  rw [hu]

/-- There is a 16-bit offset exactly for operands that denote a number that fits. -/
theorem exists_denotes_offset_iff (h : Agrees t source) (origin : Int) (x : Operand) :
    (∃ off : Offset, Denotes source origin x off.toInt) ↔
      (∃ n, Denotes source origin x n) ∧
        ∀ n, Denotes source origin x n → -32768 ≤ n ∧ n ≤ 32767 := by
  constructor
  · intro h'
    obtain ⟨off, hoff⟩ := h'
    refine ⟨⟨_, hoff⟩, ?_⟩
    intro n hn
    rw [hn.unique h hoff, ← exists_offset_iff]
    exact ⟨off, (offset_eq_ok_iff _ off).mpr rfl⟩
  · intro h'
    obtain ⟨⟨n, hn⟩, hfit⟩ := h'
    obtain ⟨off, hoff⟩ := (exists_offset_iff n).mpr (hfit n hn)
    rw [offset_eq_ok_iff] at hoff
    exact ⟨off, hoff ▸ hn⟩

/-- An instruction resolves when its offset operand, if it has one, denotes a number that fits. -/
theorem exists_resolves_iff (source : List String) (a : Nat) (i : Instruction Operand) :
    (∃ j, Resolves source a i j) ↔
      ∀ x origin, offset? a i = some (x, origin) →
        ∃ off : Offset, Denotes source origin x off.toInt := by
  cases i with
  | add | nand | jalr | halt | noop =>
    constructor
    · intro _ x origin hx
      cases hx
    · intro _
      apply Exists.intro
      constructor
  | lw y z s | sw y z s | beq y z s =>
    constructor
    · rintro ⟨_, ⟨⟩⟩ x origin ⟨⟩
      exact ⟨_, ‹_›⟩
    · intro hx
      obtain ⟨off, hoff⟩ := hx s _ rfl
      apply Exists.intro
      constructor
      exact hoff

/-- Which token an offset operand is does not depend on the address of its instruction. -/
theorem immediate?_code_eq_some_iff (a : Nat) (i : Instruction Operand) (x : Operand) :
    (Statement.code i).immediate? = some x ↔ ∃ origin, offset? a i = some (x, origin) := by
  cases i <;> simp [Statement.immediate?, offset?]

/-- A statement has a word when its operand is known and its offset fits. -/
theorem exists_word_iff (h : Agrees t source) (a : Nat) (s : Statement) :
    (∃ w, s.word t a = .ok w) ↔
      (∀ x, s.immediate? = some x → (∃ b, Defines source x b) ∨ ∃ n, Literal x n) ∧
      ∀ i x origin n, s = .code i → offset? a i = some (x, origin) →
        Denotes source origin x n → -32768 ≤ n ∧ n ≤ 32767 := by
  cases s with
  | fill x =>
    simp only [word_fill_eq_ok_iff h]
    constructor
    · intro h'
      obtain ⟨w, n, hn, -⟩ := h'
      refine ⟨?_, fun i _ _ _ hi => nomatch hi⟩
      rintro _ ⟨⟩
      exact (exists_denotes_iff source 0 x).mp ⟨n, hn⟩
    · intro h'
      obtain ⟨hx, -⟩ := h'
      obtain ⟨n, hn⟩ := (exists_denotes_iff source 0 x).mpr (hx x rfl)
      exact ⟨_, n, hn, rfl⟩
  | code i =>
    have hword : (∃ w, (Statement.code i).word t a = .ok w) ↔ ∃ j, Resolves source a i j := by
      simp only [word_code_eq_ok_iff h]
      constructor
      · intro h'
        obtain ⟨w, j, hj, -⟩ := h'
        exact ⟨j, hj⟩
      · intro h'
        obtain ⟨j, hj⟩ := h'
        exact ⟨_, j, hj, rfl⟩
    rw [hword, exists_resolves_iff]
    simp only [exists_denotes_offset_iff h, exists_denotes_iff, immediate?_code_eq_some_iff a]
    constructor
    · intro hi
      constructor
      · rintro x ⟨origin, hx⟩
        exact (hi x origin hx).1
      · rintro _ x origin n ⟨⟩ hx hn
        exact (hi x origin hx).2 n hn
    · intro h' x origin hx
      obtain ⟨hknown, hfit⟩ := h'
      exact ⟨hknown x ⟨origin, hx⟩, fun n hn => hfit i x origin n rfl hx hn⟩

/-- The conditions on a well-formed text, once its labels are known to be unique. -/
theorem exists_emit_iff_of_agrees (h : Agrees t source) :
    (∃ ws, emit t source = .ok ws) ↔
      (∀ a < (addressed source).length, ∃ s, StatementAt source a s) ∧
      (∀ a s x, StatementAt source a s → s.immediate? = some x →
        (∃ b, Defines source x b) ∨ ∃ n, Literal x n) ∧
      ∀ a i x origin n, StatementAt source a (.code i) → offset? a i = some (x, origin) →
        Denotes source origin x n → -32768 ≤ n ∧ n ≤ 32767 := by
  rw [exists_emit_iff, forall_exists_statementAt_iff]
  simp only [exists_word_iff h]
  constructor
  · intro h'
    obtain ⟨hstatement, hword⟩ := h'
    refine ⟨hstatement, ?_, ?_⟩
    · intro a s x hs hx
      exact (hword a s hs).1 x hx
    · intro a i x origin n hs hx hn
      exact (hword a _ hs).2 i x origin n rfl hx hn
  · intro h'
    obtain ⟨hstatement, hknown, hfit⟩ := h'
    refine ⟨hstatement, ?_⟩
    intro a s hs
    refine ⟨fun x hx => hknown a s x hs hx, ?_⟩
    rintro i x origin n rfl hx hn
    exact hfit a i x origin n hs hx hn

theorem exists_assemble_iff (source : List String) :
    (∃ ws, assemble source = .ok ws) ↔ WellFormed source := by
  simp only [assemble_eq_ok_iff]
  constructor
  · intro h'
    obtain ⟨ws, t, ht, hws⟩ := h'
    have hunique := (exists_collect_iff source).mp ⟨t, ht⟩
    obtain ⟨hstatements, hoperands, hoffsets⟩ :=
      (exists_emit_iff_of_agrees (agrees_of_collect ht)).mp ⟨ws, hws⟩
    exact ⟨hunique, hstatements, hoperands, hoffsets⟩
  · intro h
    obtain ⟨t, ht⟩ := (exists_collect_iff source).mpr h.unique
    obtain ⟨ws, hws⟩ := (exists_emit_iff_of_agrees (agrees_of_collect ht)).mpr
      ⟨h.statements, h.operands, h.offsets⟩
    exact ⟨ws, t, ht, hws⟩

/-- Word number `a` of an assembled text is what the statement at address `a` means. -/
theorem means_of_assemble {ws : List Word} (h : assemble source = .ok ws)
    (hlen : (addressed source).length < 2 ^ 31) {a : Nat} {w : Word} (hw : ws[a]? = some w) :
    ∃ s, StatementAt source a s ∧ Means source a w s := by
  obtain ⟨t, ht, hws⟩ := (assemble_eq_ok_iff source ws).mp h
  obtain ⟨s, hs, hsw⟩ := word_of_emit hws hw
  exact ⟨s, hs, means_of_word (agrees_of_collect ht) hlen hsw⟩

/-- A word is filled in by its line or is that of an instruction. -/
theorem fillAt_or_encode_of_assemble {ws : List Word} (h : assemble source = .ok ws) {a : Nat}
    {w : Word} (hw : ws[a]? = some w) :
    FillAt source a ∨ ∃ i j, StatementAt source a (.code i) ∧ Instruction.encode j = w := by
  obtain ⟨t, ht, hemit⟩ := (assemble_eq_ok_iff source ws).mp h
  obtain ⟨s, hs, hword⟩ := word_of_emit hemit hw
  cases s with
  | fill x => exact .inl ⟨x, hs⟩
  | code i =>
    obtain ⟨j, -, hj⟩ := (word_code_eq_ok_iff (agrees_of_collect ht) a i w).mp hword
    exact .inr ⟨i, j, hs, hj⟩

theorem length_of_assemble {ws : List Word} (h : assemble source = .ok ws) :
    ws.length = (addressed source).length := by
  obtain ⟨t, -, hws⟩ := (assemble_eq_ok_iff source ws).mp h
  exact length_of_emit hws

/-- Assembly against the meaning of the text over the integers. -/
theorem assemble_exact (source : List String) (hlen : (addressed source).length < 2 ^ 31) :
    ((∃ ws, assemble source = .ok ws) ↔ WellFormed source) ∧
    ∀ ws, assemble source = .ok ws →
      ws.length = (addressed source).length ∧
      ∀ a < (addressed source).length, ∃ s w,
        StatementAt source a s ∧ ws[a]? = some w ∧ Means source a w s := by
  refine ⟨exists_assemble_iff source, ?_⟩
  intro ws h
  have hcount := length_of_assemble h
  refine ⟨hcount, ?_⟩
  intro a ha
  have hw := List.getElem?_eq_getElem (hcount ▸ ha)
  obtain ⟨s, hs, hmeans⟩ := means_of_assemble h hlen hw
  exact ⟨s, _, hs, hw, hmeans⟩

/-- A label used before its line and a branch to a label behind it. -/
theorem assemble_exact_loop :
    (addressed ["loop lw 0 1 five", "  beq 0 0 loop", "", "five .fill 5"]).length < 2 ^ 31 ∧
    WellFormed ["loop lw 0 1 five", "  beq 0 0 loop", "", "five .fill 5"] ∧
    ∃ s w, StatementAt ["loop lw 0 1 five", "  beq 0 0 loop", "", "five .fill 5"] 1 s ∧
      [(0x810002 : Word), 0x100FFFE, 5][1]? = some w ∧
      Means ["loop lw 0 1 five", "  beq 0 0 loop", "", "five .fill 5"] 1 w s := by
  have hlen : (addressed ["loop lw 0 1 five", "  beq 0 0 loop", "", "five .fill 5"]).length
      < 2 ^ 31 := by decide +kernel
  have hexact := assemble_exact _ hlen
  exact ⟨hlen, hexact.1.mp ⟨_, rfl⟩, (hexact.2 _ rfl).2 1 (by decide +kernel)⟩

end SC32.Assembly
