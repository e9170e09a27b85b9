import SC32.Proofs.Assembly.Line
import SC32.Proofs.Assembly.Placement
import SC32.Proofs.Instruction.Display

/-!
# Sources without labels

Where no label is defined, a line has its word for itself: the line means the same at every address
and among any other such lines. Main statements: assembly line by line, and the lines that show an
instruction or a filled word in numbers.
-/
namespace SC32.Assembly

open Text

/-- The line defines no label, and its word is `w` where no label is defined. -/
def Emits (raw : String) (w : Word) : Prop :=
  ∃ l, Line.parse? raw = some l ∧ l.label = none ∧ l.word .empty 0 = .ok w

theorem foldlM_define_of_unlabelled {ps : List Placed} (h : ∀ p ∈ ps, p.content.label = none)
    (t : SymbolTable) : ps.foldlM define t = .ok t := by
  induction ps with
  | nil => rfl
  | cons p ps ih =>
    obtain ⟨hp, hps⟩ := List.forall_mem_cons.mp h
    have hdefine : define t p = .ok t := (define_eq_ok_iff t t p).mpr (.inl ⟨hp, rfl⟩)
    rw [List.foldlM_cons, hdefine]
    exact ih hps

/-- Literals count from nowhere, so the address does not matter. -/
theorem word_empty (l : Line) (a : Nat) : l.word .empty a = l.word .empty 0 := by
  have hmove : ∀ s : Statement, s.word .empty (0 + a) = s.word .empty 0 :=
    fun s => word_move a 0 (fun _ _ => rfl) fun _ _ => target_move rfl
  rw [Line.word, Line.word]
  cases l.statement with
  | error e => rfl
  | ok s =>
    have hs := hmove s
    rw [Nat.zero_add] at hs
    exact hs

theorem assemble_of_unlabelled {source : List String}
    (h : ∀ l ∈ addressed source, l.label = none) (ws : List Word) :
    assemble source = .ok ws ↔ (addressed source).map (Line.word .empty 0) = ws.map .ok := by
  have hcollect : collect source = .ok .empty :=
    foldlM_define_of_unlabelled (fun p hp => h p.content (content_mem_addressed hp)) .empty
  have hword : (fun x : Placed => x.content.word .empty x.address) =
      Line.word .empty 0 ∘ Placed.content :=
    funext fun x => word_empty x.content x.address
  rw [assemble, hcollect]
  change emit .empty source = .ok ws ↔ _
  rw [emit_eq_ok_iff, hword, ← map_content_place, List.map_map]

/-- Lines that have their words for themselves, one behind the other. -/
theorem assemble_map_of_emits {α : Type} {xs : List α} {raw : α → String} {word : α → Word}
    (h : ∀ x ∈ xs, Emits (raw x) (word x)) : assemble (xs.map raw) = .ok (xs.map word) := by
  have hall : (∀ l ∈ addressed (xs.map raw), l.label = none) ∧
      (addressed (xs.map raw)).map (Line.word .empty 0) = (xs.map word).map .ok := by
    induction xs with
    | nil => exact ⟨List.forall_mem_nil _, rfl⟩
    | cons x xs ih =>
      obtain ⟨⟨l, hl, hlabel, hw⟩, hxs⟩ := List.forall_mem_cons.mp h
      obtain ⟨hlabels, hwords⟩ := ih hxs
      have hcons : addressed ((x :: xs).map raw) = l :: addressed (xs.map raw) :=
        List.filterMap_cons_some hl
      rw [hcons, List.forall_mem_cons, List.map_cons, hw, hwords]
      exact ⟨⟨hlabel, hlabels⟩, rfl⟩
  exact (assemble_of_unlabelled hall.1 _).mpr hall.2

/-! ### Lines in numbers -/

theorem parse?_render (r : Reg) : Reg.parse? r.render = some r := by
  revert r
  decide

theorem agrees_empty : Agrees .empty [] := by
  intro l a
  constructor
  · intro h
    cases h
  · rintro ⟨line, hline, -⟩
    cases hline

/-- A numeral stands for its number wherever it is counted from. -/
theorem denotes_ofInt {n : Int} (hlo : -2147483648 ≤ n) (hhi : n ≤ 2147483647) (origin : Int) :
    Denotes [] origin (Decimal.ofInt n) n := by
  refine .inr ⟨?_, Decimal.spells_ofInt n, hlo, hhi⟩
  rintro a ⟨line, hline, -⟩
  cases hline

theorem emits_of_tokens_fill {raw : String} {w : Word}
    (h : tokens raw = [fill, Decimal.ofInt w.toInt]) : Emits raw w := by
  have hlo := BitVec.le_toInt w
  have hhi := @BitVec.toInt_lt 32 w
  refine ⟨⟨none, some fill, [Decimal.ofInt w.toInt]⟩, ?_, rfl, ?_⟩
  · rw [Line.parse?, h]
    rfl
  · change (Statement.fill (Decimal.ofInt w.toInt)).word .empty 0 = _
    rw [word_fill_eq_ok_iff agrees_empty]
    exact ⟨w.toInt, denotes_ofInt hlo (by omega) 0, BitVec.ofInt_toInt⟩

/-- The instruction with its offset as a numeral. -/
def written : Instruction Offset → Instruction Operand
  | .add a b d => .add a b d
  | .nand a b d => .nand a b d
  | .lw a b off => .lw a b (Decimal.ofInt off.toInt)
  | .sw a b off => .sw a b (Decimal.ofInt off.toInt)
  | .beq a b off => .beq a b (Decimal.ofInt off.toInt)
  | .jalr a b => .jalr a b
  | .halt => .halt
  | .noop => .noop

theorem instruction_operands (i : Instruction Offset) :
    Statement.instruction i.mnemonic i.operands = .ok (written i) := by
  have hregister : ∀ r : Reg, Statement.register r.render = .ok r := by
    intro r
    rw [Statement.register, parse?_render]
  cases i <;> simp [Instruction.mnemonic, Instruction.operands, Statement.instruction, written,
    hregister, bind, Except.bind, pure, Except.pure]

theorem resolves_written (a : Nat) (i : Instruction Offset) : Resolves [] a (written i) i := by
  have hoffset : ∀ (off : Offset) (origin : Int),
      Denotes [] origin (Decimal.ofInt off.toInt) off.toInt := by
    intro off origin
    have hlo := BitVec.le_toInt off
    have hhi := @BitVec.toInt_lt 16 off
    exact denotes_ofInt (by omega) (by omega) origin
  cases i with
  | add | nand | jalr | halt | noop => constructor
  | lw x y off | sw x y off | beq x y off =>
    constructor
    exact hoffset off _

theorem emits_of_tokens {raw : String} {i : Instruction Offset}
    (h : tokens raw = i.mnemonic.name :: i.operands) : Emits raw i.encode := by
  refine ⟨⟨none, some i.mnemonic.name, i.operands⟩, ?_, rfl, ?_⟩
  · rw [Line.parse?, h, Line.ofTokens?, if_pos (isOperation_name i.mnemonic)]
  · have hstatement : Statement.ofOperation i.mnemonic.name i.operands =
        .ok (.code (written i)) := by
      unfold Statement.ofOperation
      rw [if_neg (name_ne_fill i.mnemonic), Mnemonic.ofName_name]
      simp only [instruction_operands]
      rfl
    rw [Line.word, Line.statement]
    simp only [hstatement]
    change (Statement.code (written i)).word .empty 0 = _
    rw [word_code_eq_ok_iff agrees_empty]
    exact ⟨i, resolves_written 0 i, rfl⟩

end SC32.Assembly
