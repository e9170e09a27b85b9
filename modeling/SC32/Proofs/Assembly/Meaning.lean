import SC32.Assembly.Program
import SC32.Proofs.Text.Numeral

/-!
# What a source text means

Addresses, labels and operands of a source text as plain relations, with unbounded integers and
without a symbol table. A label means its address before and after the line that defines it.
-/
namespace SC32.Assembly

/-- The lines that are not blank; the line at address `a` is number `a` of them. -/
def addressed (source : List String) : List Line := source.filterMap Line.parse?

/-- The line at address `a` begins with the label `l`. -/
def Defines (source : List String) (l : String) (a : Nat) : Prop :=
  ∃ line, (addressed source)[a]? = some line ∧ line.label = some l

/-- The line at address `a` is the statement `s`. -/
def StatementAt (source : List String) (a : Nat) (s : Statement) : Prop :=
  ∃ line, (addressed source)[a]? = some line ∧ line.statement = .ok s

/-- A line that fills in its word stands at address `a`. -/
def FillAt (source : List String) (a : Nat) : Prop := ∃ x, StatementAt source a (.fill x)

/-- The operand spells the number, which 32 bits hold. -/
def Literal (x : Operand) (n : Int) : Prop :=
  Text.Decimal.Spells x.toList n ∧ -2147483648 ≤ n ∧ n ≤ 2147483647

/-- What an operand stands for when labels are counted from `origin`. A label wins over a literal
of the same spelling. -/
def Denotes (source : List String) (origin : Int) (x : Operand) (n : Int) : Prop :=
  (∃ a : Nat, Defines source x a ∧ n = a - origin) ∨
  ((∀ a, ¬ Defines source x a) ∧ Literal x n)

/-- The offset operand of an instruction at address `a` and what its labels are counted from:
`lw` and `sw` take the address itself, `beq` starts behind the instruction. -/
def offset? (a : Nat) : Instruction Operand → Option (Operand × Int)
  | .lw _ _ x | .sw _ _ x => some (x, 0)
  | .beq _ _ x => some (x, a + 1)
  | .add .. | .nand .. | .jalr .. | .halt | .noop => none

/-- The operand that is a number or names a label. -/
def Statement.immediate? : Statement → Option Operand
  | .code i => (offset? 0 i).map Prod.fst
  | .fill x => some x

/-- A source text that means a list of words. -/
structure WellFormed (source : List String) : Prop where
  /-- No label is defined at two addresses. -/
  unique : ∀ l a b, Defines source l a → Defines source l b → a = b
  /-- Every line is a statement. -/
  statements : ∀ a < (addressed source).length, ∃ s, StatementAt source a s
  /-- Every immediate operand is a label of the text or a literal. -/
  operands : ∀ a s x, StatementAt source a s → s.immediate? = some x →
    (∃ b, Defines source x b) ∨ ∃ n, Literal x n
  /-- Every offset fits 16 bits. -/
  offsets : ∀ a i x origin n, StatementAt source a (.code i) → offset? a i = some (x, origin) →
    Denotes source origin x n → -32768 ≤ n ∧ n ≤ 32767

/-- `j` is the instruction `i` at address `a` with its registers and its exact offset. -/
inductive Resolves (source : List String) (a : Nat) :
    Instruction Operand → Instruction Offset → Prop where
  | add (x y d : Reg) : Resolves source a (.add x y d) (.add x y d)
  | nand (x y d : Reg) : Resolves source a (.nand x y d) (.nand x y d)
  | lw {t : Operand} {off : Offset} (x y : Reg) (h : Denotes source 0 t off.toInt) :
    Resolves source a (.lw x y t) (.lw x y off)
  | sw {t : Operand} {off : Offset} (x y : Reg) (h : Denotes source 0 t off.toInt) :
    Resolves source a (.sw x y t) (.sw x y off)
  | beq {t : Operand} {off : Offset} (x y : Reg) (h : Denotes source (a + 1) t off.toInt) :
    Resolves source a (.beq x y t) (.beq x y off)
  | jalr (x y : Reg) : Resolves source a (.jalr x y) (.jalr x y)
  | halt : Resolves source a .halt .halt
  | noop : Resolves source a .noop .noop

/-- The word `w` is what the statement at address `a` means. -/
def Means (source : List String) (a : Nat) (w : Word) : Statement → Prop
  | .fill x => Denotes source 0 x w.toInt
  | .code i => ∃ j, Instruction.decode w = .ok j ∧ Resolves source a i j

theorem Defines.lt_length {source : List String} {l : String} {a : Nat}
    (h : Defines source l a) : a < (addressed source).length := by
  obtain ⟨line, hl, -⟩ := h
  exact (List.getElem?_eq_some_iff.mp hl).1

theorem StatementAt.lt_length {source : List String} {a : Nat} {s : Statement}
    (h : StatementAt source a s) : a < (addressed source).length := by
  obtain ⟨line, hl, -⟩ := h
  exact (List.getElem?_eq_some_iff.mp hl).1

theorem StatementAt.unique {source : List String} {a : Nat} {s t : Statement}
    (hs : StatementAt source a s) (ht : StatementAt source a t) : s = t := by
  obtain ⟨l, hl, hs⟩ := hs
  obtain ⟨k, hk, ht⟩ := ht
  rw [hl, Option.some.injEq] at hk
  subst hk
  rw [hs, Except.ok.injEq] at ht
  exact ht

/-- Every address has a statement with the property when every line is a statement and has it. -/
theorem forall_exists_statementAt_iff (source : List String) (p : Nat → Statement → Prop) :
    (∀ a < (addressed source).length, ∃ s, StatementAt source a s ∧ p a s) ↔
      (∀ a < (addressed source).length, ∃ s, StatementAt source a s) ∧
      ∀ a s, StatementAt source a s → p a s := by
  constructor
  · intro h
    constructor
    · intro a ha
      obtain ⟨s, hs, -⟩ := h a ha
      exact ⟨s, hs⟩
    · intro a s hs
      obtain ⟨s', hs', hp⟩ := h a hs.lt_length
      rw [hs.unique hs']
      exact hp
  · intro h' a ha
    obtain ⟨hall, hp⟩ := h'
    obtain ⟨s, hs⟩ := hall a ha
    exact ⟨s, hs, hp a s hs⟩

end SC32.Assembly
