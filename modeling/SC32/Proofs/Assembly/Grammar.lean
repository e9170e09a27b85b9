import SC32.Proofs.Assembly.Layout

/-!
# The grammar of a line

Which lines are statements, and which statements they are: behind the label, if there is one, stands
an operation with the registers that it takes and its immediate operand, and behind these anything.
Main statements: what a register operand names, what an operation makes of its operands, and how a
line is read, with the fault of a line that is no statement.
-/
namespace SC32

/-- How many operands name registers. They come first. -/
def Shape.registers : Shape → Nat
  | registerTriple => 3
  | registerPairOffset => 2
  | registerPair => 2
  | noOperand => 0

theorem Shape.registers_le_arity (s : Shape) : s.registers ≤ s.arity := by
  cases s <;> decide

namespace Instruction

variable {ι : Type}

/-- In source order. -/
def registers : Instruction ι → List Reg
  | add a b d | nand a b d => [a, b, d]
  | lw a b _ | sw a b _ | beq a b _ | jalr a b => [a, b]
  | halt | noop => []

def immediate? : Instruction ι → Option ι
  | lw _ _ x | sw _ _ x | beq _ _ x => some x
  | add .. | nand .. | jalr .. | halt | noop => none

/-- The instruction with mnemonic `k`, the registers and the immediate operand, if it takes one. -/
def ofParts (k : Mnemonic) (x : ι) (rs : List Reg) : Instruction ι :=
  let r n := rs.getD n ⟨0, by decide⟩
  match k with
  | .add => add (r 0) (r 1) (r 2)
  | .nand => nand (r 0) (r 1) (r 2)
  | .lw => lw (r 0) (r 1) x
  | .sw => sw (r 0) (r 1) x
  | .beq => beq (r 0) (r 1) x
  | .jalr => jalr (r 0) (r 1)
  | .halt => halt
  | .noop => noop

@[simp] theorem mnemonic_ofParts (k : Mnemonic) (x : ι) (rs : List Reg) :
    (ofParts k x rs).mnemonic = k := by
  cases k <;> rfl

theorem length_registers (i : Instruction ι) :
    i.registers.length = i.mnemonic.shape.registers := by
  cases i <;> rfl

theorem registers_ofParts {k : Mnemonic} {rs : List Reg} (h : rs.length = k.shape.registers)
    (x : ι) : (ofParts k x rs).registers = rs := by
  match rs with
  | [] | [_] | [_, _] | [_, _, _] => cases k <;> first | rfl | cases h
  | _ :: _ :: _ :: _ :: _ => cases k <;> cases h

/-- An instruction is made of its parts. -/
theorem ofParts_registers {i : Instruction ι} {x : ι} (h : ∀ y ∈ i.immediate?, x = y) :
    ofParts i.mnemonic x i.registers = i := by
  cases i with
  | lw a b y | sw a b y | beq a b y =>
    rw [h y rfl]
    rfl
  | add | nand | jalr | halt | noop => rfl

theorem arity_eq (i : Instruction ι) :
    i.mnemonic.shape.arity = i.registers.length + i.immediate?.toList.length := by
  cases i <;> rfl

/-- The immediate operand is the third one. -/
theorem registers_of_mem_immediate? {i : Instruction ι} {x : ι} (h : x ∈ i.immediate?) :
    i.mnemonic.shape.registers = 2 := by
  cases i with
  | lw | sw | beq => rfl
  | add | nand | jalr | halt | noop => cases h

end Instruction

namespace Assembly

open Text

/-- The token names a register: one or more ASCII digits of that value, perhaps behind a plus
sign. -/
def Names (x : String) (r : Reg) : Prop :=
  ∃ cs, Decimal.IsRun cs ∧ (x.toList = cs ∨ x.toList = '+' :: cs) ∧
    Nat.ofDigitChars 10 cs 0 = r.val

/-- The tokens from the operation on are the statement. -/
inductive IsStatement : List String → Statement → Prop where
  | fill (x : Operand) (behind : List String) : IsStatement (".fill" :: x :: behind) (.fill x)
  | code {i : Instruction Operand} {names : List String} (h : List.Forall₂ Names names i.registers)
    (behind : List String) :
    IsStatement (i.mnemonic.name :: (names ++ i.immediate?.toList ++ behind)) (.code i)

/-- The tokens from the operation on are some statement: there are enough operands, and registers
where registers are needed. -/
inductive Accepted : List String → Prop where
  | fill {xs : List String} (h : 1 ≤ xs.length) : Accepted (".fill" :: xs)
  | code (k : Mnemonic) {xs : List String} (hn : k.shape.arity ≤ xs.length)
    (h : ∀ x ∈ xs.take k.shape.registers, ∃ r, Names x r) : Accepted (k.name :: xs)

/-- What is wrong with the tokens from the operation on, behind that label. -/
inductive Refused (label : String) : List String → Fault → Prop where
  | missingOperation : Refused label [] (.missingOperation label)
  | invalidOpcode {op : String} (h : op ∉ operationNames) (xs : List String) :
    Refused label (op :: xs) (.invalidOpcode op)
  | missingValue : Refused label [".fill"] (.missingArgument ".fill")
  /-- Whatever the operands are that there are. -/
  | missingOperand {k : Mnemonic} {xs : List String} (h : xs.length < k.shape.arity) :
    Refused label (k.name :: xs) (.missingArgument k.name)
  /-- All operands before this one name registers. -/
  | invalidRegister {k : Mnemonic} {before behind : List String} {x : String}
    (hn : k.shape.arity ≤ (before ++ x :: behind).length)
    (hlt : before.length < k.shape.registers) (hbefore : ∀ y ∈ before, ∃ r, Names y r)
    (hx : ∀ r, ¬ Names x r) :
    Refused label (k.name :: (before ++ x :: behind)) (.invalidRegister x)

/-- The tokens of a line from the operation on. -/
def phrase (head : String) (rest : List String) : List String :=
  if head ∈ operationNames then head :: rest else rest

/-- How a line with these tokens is read. -/
structure ReadAs (head : String) (rest : List String) (l : Line) : Prop where
  /-- The first token is the label unless it is an operation. -/
  label : l.label = if head ∈ operationNames then none else some head
  accepted : (∃ s, l.statement = .ok s) ↔ Accepted (phrase head rest)
  statement : ∀ s, l.statement = .ok s ↔ IsStatement (phrase head rest) s
  /-- Two lines with one operation and the operands that it needs are the same statement. -/
  needed : ∀ (op : String) (n : Nat) (l' : Line), l.operation = some op → arity? op = some n →
    l'.operation = some op → l'.operands.take n = l.operands.take n → l'.statement = l.statement
  fault : ∀ e, l.statement = .error e ↔ Refused head (phrase head rest) e

/-! ### Registers -/

theorem parse?_eq_some_iff (x : String) (r : Reg) : Reg.parse? x = some r ↔ Names x r := by
  have hread := Decimal.unsigned_eq_ok_iff 7 x
  unfold Reg.parse?
  constructor
  · intro h
    cases hn : Decimal.unsigned 7 x with
    | error e =>
      simp only [hn] at h
      cases h
    | ok n =>
      obtain ⟨cs, hcs, hx, hval, -⟩ := (hread n).mp hn
      simp only [hn, Reg.ofNat?, Option.dite_none_right_eq_some, Option.some.injEq] at h
      obtain ⟨-, rfl⟩ := h
      exact ⟨cs, hcs, hx, hval.symm⟩
  · rintro ⟨cs, hcs, hx, hval⟩
    have hlt := r.isLt
    have hn := (hread r.val).mpr ⟨cs, hcs, hx, hval.symm, by omega⟩
    simp only [hn, Reg.ofNat?, hlt, dif_pos]

theorem register_eq_ok_iff (x : String) (r : Reg) :
    Statement.register x = .ok r ↔ Names x r := by
  rw [← parse?_eq_some_iff, Statement.register]
  cases Reg.parse? x <;> simp

theorem register_eq_error_iff (x : String) (e : Fault) :
    Statement.register x = .error e ↔ (∀ r, ¬ Names x r) ∧ e = .invalidRegister x := by
  simp only [← parse?_eq_some_iff, Statement.register]
  cases Reg.parse? x <;> simp [eq_comm]

/-- A list of register operands, read one by one. -/
theorem mapM_register_eq_ok_iff (xs : List String) (rs : List Reg) :
    xs.mapM Statement.register = .ok rs ↔ List.Forall₂ Names xs rs := by
  rw [mapM_eq_ok_iff]
  induction xs generalizing rs with
  | nil => cases rs <;> simp
  | cons x xs ih =>
    cases rs with
    | nil => simp
    | cons r rs =>
      rw [List.map_cons, List.map_cons, List.cons.injEq, ih, register_eq_ok_iff,
        List.forall₂_cons]

/-! ### Instructions -/

theorem instruction_of_lt {k : Mnemonic} {xs : List String} (h : xs.length < k.shape.arity) :
    Statement.instruction k xs = .error (.missingArgument k.name) := by
  match xs with
  | [] | [_] | [_, _] =>
    cases k <;> first | rfl | exact absurd h (Nat.not_lt_of_le (Nat.le_add_left _ _))
  | _ :: _ :: _ :: _ =>
    have harity : k.shape.arity ≤ 3 := by cases k <;> decide
    simp only [List.length_cons] at h
    omega

/-- With enough operands, an instruction is made of its registers as they are read. -/
theorem instruction_of_arity_le {k : Mnemonic} {xs : List String} (h : k.shape.arity ≤ xs.length) :
    Statement.instruction k xs =
      ((xs.take k.shape.registers).mapM Statement.register).map
        (Instruction.ofParts k (xs.getD 2 "")) := by
  cases k with
  | add | nand =>
    match xs, h with
    | a :: b :: d :: _, _ =>
      simp only [Statement.instruction, Mnemonic.shape, Shape.registers, List.take_succ_cons,
        List.take_zero, List.mapM_cons, List.mapM_nil]
      cases Statement.register a <;> cases Statement.register b <;> cases Statement.register d <;>
        rfl
  | lw | sw | beq =>
    match xs, h with
    | a :: b :: _ :: _, _ =>
      simp only [Statement.instruction, Mnemonic.shape, Shape.registers, List.take_succ_cons,
        List.take_zero, List.mapM_cons, List.mapM_nil]
      cases Statement.register a <;> cases Statement.register b <;> rfl
  | jalr =>
    match xs, h with
    | a :: b :: _, _ =>
      simp only [Statement.instruction, Mnemonic.shape, Shape.registers, List.take_succ_cons,
        List.take_zero, List.mapM_cons, List.mapM_nil]
      cases Statement.register a <;> cases Statement.register b <;> rfl
  | halt | noop => rfl

/-- The operands that an instruction takes are its registers and its immediate operand. -/
theorem operands_eq {k : Mnemonic} {xs : List String} (h : k.shape.arity ≤ xs.length)
    (rs : List Reg) :
    xs = xs.take k.shape.registers ++
      (Instruction.ofParts k (xs.getD 2 "") rs).immediate?.toList ++ xs.drop k.shape.arity := by
  cases k with
  | lw | sw | beq =>
    match xs, h with
    | _ :: _ :: _ :: _, _ => rfl
  | add | nand | jalr | halt | noop =>
    simp [Instruction.ofParts, Instruction.immediate?, Mnemonic.shape, Shape.registers, Shape.arity]

/-- The tokens behind the mnemonic of an instruction name its registers, and then comes its
immediate operand. -/
theorem instruction_eq_ok_iff (k : Mnemonic) (xs : List String) (i : Instruction Operand) :
    Statement.instruction k xs = .ok i ↔
      i.mnemonic = k ∧ ∃ names behind, List.Forall₂ Names names i.registers ∧
        xs = names ++ i.immediate?.toList ++ behind := by
  constructor
  · intro h
    by_cases hn : k.shape.arity ≤ xs.length
    · rw [instruction_of_arity_le hn, map_eq_ok_iff] at h
      obtain ⟨rs, hrs, rfl⟩ := h
      have hnames := (mapM_register_eq_ok_iff _ rs).mp hrs
      have hlength : rs.length = k.shape.registers := by
        have hle := k.shape.registers_le_arity
        rw [← hnames.length_eq, List.length_take]
        omega
      rw [Instruction.registers_ofParts hlength]
      exact ⟨Instruction.mnemonic_ofParts k _ rs, _, _, hnames, operands_eq hn rs⟩
    · rw [instruction_of_lt (Nat.lt_of_not_le hn)] at h
      cases h
  · rintro ⟨rfl, names, behind, hnames, rfl⟩
    have hlength := hnames.length_eq.trans i.length_registers
    have hn : i.mnemonic.shape.arity ≤ (names ++ i.immediate?.toList ++ behind).length := by
      rw [i.arity_eq, List.length_append, List.length_append, hnames.length_eq]
      omega
    have htake :
        (names ++ i.immediate?.toList ++ behind).take i.mnemonic.shape.registers = names := by
      rw [List.append_assoc, List.take_left' hlength]
    rw [instruction_of_arity_le hn, htake, (mapM_register_eq_ok_iff _ _).mpr hnames]
    refine congrArg Except.ok (i.ofParts_registers ?_)
    intro x hx
    have htwo := hlength.trans (i.registers_of_mem_immediate? hx)
    simp [Option.mem_def.mp hx, htwo]

/-- Too few operands are reported first, and then the first operand that should name a register and
does not. -/
theorem instruction_eq_error_iff (k : Mnemonic) (xs : List String) (e : Fault) :
    Statement.instruction k xs = .error e ↔
      (xs.length < k.shape.arity ∧ e = .missingArgument k.name) ∨
      k.shape.arity ≤ xs.length ∧ ∃ before x behind, xs = before ++ x :: behind ∧
        before.length < k.shape.registers ∧ (∀ y ∈ before, ∃ r, Names y r) ∧
        (∀ r, ¬ Names x r) ∧ e = .invalidRegister x := by
  by_cases hn : k.shape.arity ≤ xs.length
  · have hmap : ∀ (y : Except Fault (List Reg)) (f : List Reg → Instruction Operand),
        y.map f = .error e ↔ y = .error e := by
      intro y f
      cases y <;> simp [Except.map]
    simp only [instruction_of_arity_le hn, hmap, mapM_eq_error_iff, register_eq_ok_iff,
      register_eq_error_iff, Nat.not_lt_of_le hn, hn, false_and, false_or, true_and]
    constructor
    · rintro ⟨before, x, behind, htake, hbefore, hx⟩
      refine ⟨before, x, behind ++ xs.drop k.shape.registers, ?_, ?_, hbefore, hx⟩
      · rw [← List.cons_append, ← List.append_assoc, ← htake, List.take_append_drop]
      · have hlength := congrArg List.length htake
        rw [List.length_take, List.length_append, List.length_cons] at hlength
        omega
    · rintro ⟨before, x, behind, rfl, hlt, hbefore, hx⟩
      refine ⟨before, x, behind.take (k.shape.registers - before.length - 1), ?_, hbefore, hx⟩
      rw [List.take_append, List.take_of_length_le (Nat.le_of_lt hlt)]
      obtain ⟨m, hm⟩ := Nat.exists_eq_add_of_lt hlt
      have hm' : k.shape.registers - before.length = m + 1 := by omega
      rw [hm', List.take_succ_cons]
      rfl
  · simp [instruction_of_lt (Nat.lt_of_not_le hn), hn, Nat.lt_of_not_le hn, eq_comm]

/-! ### Operations -/

/-- A token is an operation or none. -/
theorem operation_cases (op : String) :
    op = ".fill" ∨ (∃ k : Mnemonic, op = k.name) ∨ op ∉ operationNames := by
  by_cases h : op ∈ operationNames
  · rw [← isOperation_iff, isOperation, Bool.or_eq_true, Mnemonic.isName_iff, beq_iff_eq] at h
    rcases h with ⟨k, rfl⟩ | rfl
    · exact .inr (.inl ⟨k, rfl⟩)
    · exact .inl rfl
  · exact .inr (.inr h)

theorem name_mem_operationNames (k : Mnemonic) : k.name ∈ operationNames :=
  (isOperation_iff _).mp (isOperation_name k)

theorem ofOperation_name (k : Mnemonic) (xs : List String) :
    Statement.ofOperation k.name xs = (Statement.instruction k xs).map .code := by
  unfold Statement.ofOperation
  rw [if_neg (name_ne_fill k), Mnemonic.ofName_name]

theorem ofOperation_of_not_mem {op : String} (h : op ∉ operationNames) (xs : List String) :
    Statement.ofOperation op xs = .error (.invalidOpcode op) := by
  have hfill : op ≠ fill := by
    rintro rfl
    exact h (by decide)
  unfold Statement.ofOperation
  rw [if_neg hfill]
  cases hk : Mnemonic.ofName op with
  | ok k =>
    rw [Mnemonic.ofName_eq_ok_iff] at hk
    exact absurd (hk ▸ name_mem_operationNames k) h
  | error _ => rfl

theorem isStatement_name_iff (k : Mnemonic) (xs : List String) (s : Statement) :
    IsStatement (k.name :: xs) s ↔ ∃ i, Statement.instruction k xs = .ok i ∧ .code i = s := by
  simp only [instruction_eq_ok_iff]
  constructor
  · intro h
    generalize hp : k.name :: xs = p at h
    cases h with
    | fill => exact absurd (List.cons.inj hp).1 (name_ne_fill k)
    | @code i names h behind =>
      obtain ⟨hname, rfl⟩ := List.cons.inj hp
      exact ⟨i, ⟨(Mnemonic.name_injective hname).symm, names, behind, h, rfl⟩, rfl⟩
  · rintro ⟨i, ⟨rfl, names, behind, h, rfl⟩, rfl⟩
    exact .code h behind

theorem ofOperation_eq_ok_iff (op : String) (xs : List String) (s : Statement) :
    Statement.ofOperation op xs = .ok s ↔ IsStatement (op :: xs) s := by
  rcases operation_cases op with rfl | ⟨k, rfl⟩ | hop
  · constructor
    · intro h
      cases xs with
      | nil => cases h
      | cons x xs =>
        cases h
        exact .fill x xs
    · intro h
      generalize hp : ".fill" :: xs = p at h
      cases h with
      | fill x behind =>
        obtain ⟨-, rfl⟩ := List.cons.inj hp
        rfl
      | @code i => exact absurd (List.cons.inj hp).1.symm (name_ne_fill _)
  · rw [ofOperation_name, isStatement_name_iff, map_eq_ok_iff]
  · rw [ofOperation_of_not_mem hop]
    constructor
    · intro h
      cases h
    · intro h
      cases h with
      | fill => exact absurd (by decide) hop
      | code => exact absurd (name_mem_operationNames _) hop

theorem refused_name_iff (label : String) (k : Mnemonic) (xs : List String) (e : Fault) :
    Refused label (k.name :: xs) e ↔ Statement.instruction k xs = .error e := by
  rw [instruction_eq_error_iff]
  constructor
  · intro h
    generalize hp : k.name :: xs = p at h
    cases h with
    | missingOperation => cases hp
    | invalidOpcode h => exact absurd ((List.cons.inj hp).1 ▸ name_mem_operationNames k) h
    | missingValue => exact absurd (List.cons.inj hp).1 (name_ne_fill k)
    | missingOperand h =>
      obtain ⟨hname, rfl⟩ := List.cons.inj hp
      obtain rfl := Mnemonic.name_injective hname
      exact .inl ⟨h, rfl⟩
    | invalidRegister hn hlt hbefore hx =>
      obtain ⟨hname, rfl⟩ := List.cons.inj hp
      obtain rfl := Mnemonic.name_injective hname
      exact .inr ⟨hn, _, _, _, rfl, hlt, hbefore, hx, rfl⟩
  · rintro (⟨h, rfl⟩ | ⟨hn, before, x, behind, rfl, hlt, hbefore, hx, rfl⟩)
    · exact .missingOperand h
    · exact .invalidRegister hn hlt hbefore hx

theorem ofOperation_eq_error_iff (label op : String) (xs : List String) (e : Fault) :
    Statement.ofOperation op xs = .error e ↔ Refused label (op :: xs) e := by
  rcases operation_cases op with rfl | ⟨k, rfl⟩ | hop
  · constructor
    · intro h
      cases xs with
      | nil =>
        cases h
        exact .missingValue
      | cons x xs => cases h
    · intro h
      generalize hp : ".fill" :: xs = p at h
      cases h with
      | missingOperation => cases hp
      | invalidOpcode h =>
        obtain ⟨rfl, -⟩ := List.cons.inj hp
        exact absurd (by decide) h
      | missingValue =>
        obtain ⟨-, rfl⟩ := List.cons.inj hp
        rfl
      | missingOperand | invalidRegister =>
        exact absurd (List.cons.inj hp).1.symm (name_ne_fill _)
  · rw [ofOperation_name, refused_name_iff]
    cases Statement.instruction k xs <;> simp [Except.map]
  · rw [ofOperation_of_not_mem hop]
    constructor
    · intro h
      cases h
      exact .invalidOpcode hop xs
    · intro h
      cases h with
      | invalidOpcode => rfl
      | missingValue => exact absurd (by decide) hop
      | missingOperand | invalidRegister => exact absurd (name_mem_operationNames _) hop

/-- Enough operands with registers in their places are enough. -/
theorem exists_instruction_iff (k : Mnemonic) (xs : List String) :
    (∃ i, Statement.instruction k xs = .ok i) ↔
      k.shape.arity ≤ xs.length ∧ ∀ x ∈ xs.take k.shape.registers, ∃ r, Names x r := by
  by_cases hn : k.shape.arity ≤ xs.length
  · simp only [instruction_of_arity_le hn, map_eq_ok_iff, hn, true_and, ← register_eq_ok_iff,
      ← exists_mapM_iff]
    constructor
    · rintro ⟨_, rs, hrs, -⟩
      exact ⟨rs, hrs⟩
    · rintro ⟨rs, hrs⟩
      exact ⟨_, rs, hrs, rfl⟩
  · simp [instruction_of_lt (Nat.lt_of_not_le hn), hn]

theorem exists_isStatement_iff (p : List String) : (∃ s, IsStatement p s) ↔ Accepted p := by
  constructor
  · rintro ⟨s, h⟩
    cases h with
    | fill x behind => exact .fill (Nat.succ_le_of_lt (Nat.succ_pos _))
    | @code i names h behind =>
      obtain ⟨i', hi, -⟩ := (isStatement_name_iff _ _ _).mp (.code h behind)
      obtain ⟨hn, hnames⟩ := (exists_instruction_iff _ _).mp ⟨i', hi⟩
      exact .code _ hn hnames
  · intro h
    cases h with
    | @fill xs h =>
      cases xs with
      | nil => cases h
      | cons x xs => exact ⟨_, .fill x xs⟩
    | code k hn h =>
      obtain ⟨i, hi⟩ := (exists_instruction_iff k _).mpr ⟨hn, h⟩
      exact ⟨.code i, (isStatement_name_iff k _ _).mpr ⟨i, hi, rfl⟩⟩

/-! ### Lines -/

/-- The statement of a line is that of its tokens from the operation on. -/
theorem exists_ofTokens?_cons (head : String) (rest : List String) :
    ∃ l, Line.ofTokens? (head :: rest) = some l ∧
      l.label = (if head ∈ operationNames then none else some head) ∧
      l.statement = match phrase head rest with
        | [] => .error (.missingOperation head)
        | op :: xs => Statement.ofOperation op xs := by
  by_cases h : head ∈ operationNames
  · simp only [Line.ofTokens?, phrase, (isOperation_iff head).mpr h, h, if_true]
    exact ⟨_, rfl, rfl, rfl⟩
  · have hname : isOperation head = false := Bool.eq_false_iff.mpr (mt (isOperation_iff head).mp h)
    simp only [Line.ofTokens?, phrase, hname, h, Bool.false_eq_true, if_false]
    refine ⟨_, rfl, rfl, ?_⟩
    cases rest <;> rfl

theorem statement_congr {l l' : Line} {op : String} {n : Nat} (hop : l.operation = some op)
    (hn : arity? op = some n) (hop' : l'.operation = some op)
    (h : l'.operands.take n = l.operands.take n) : l'.statement = l.statement := by
  rw [← statement_needed l', ← statement_needed l]
  simp only [Line.statement, Line.needed, hop, hop', Option.bind_some, hn, h]

theorem readAs_of_statement {head : String} {rest : List String} {l : Line}
    (hlabel : l.label = if head ∈ operationNames then none else some head)
    (hstatement : l.statement = match phrase head rest with
      | [] => .error (.missingOperation head)
      | op :: xs => Statement.ofOperation op xs) : ReadAs head rest l := by
  have hok : ∀ s, l.statement = .ok s ↔ IsStatement (phrase head rest) s := by
    intro s
    rw [hstatement]
    cases phrase head rest with
    | nil => exact ⟨fun h => (nomatch h), fun h => (nomatch h)⟩
    | cons op xs => exact ofOperation_eq_ok_iff op xs s
  constructor
  case label => exact hlabel
  case accepted => rw [← exists_isStatement_iff, exists_congr hok]
  case statement => exact hok
  case needed => exact fun op n l' hop hn hop' h => statement_congr hop hn hop' h
  case fault =>
    intro e
    rw [hstatement]
    cases phrase head rest with
    | nil =>
      constructor
      · intro h
        cases h
        exact .missingOperation
      · rintro ⟨⟩
        rfl
    | cons op xs => exact ofOperation_eq_error_iff head op xs e

/-- A text is cut into tokens at its blanks. A line without tokens is blank; any other is read from
its tokens as the grammar says. -/
theorem grammar_exact (raw : String) :
    (∀ ts, tokens raw = ts ↔ Tokenized raw.toList (ts.map String.toList)) ∧
    (Line.parse? raw = none ↔ tokens raw = []) ∧
    ∀ head rest, tokens raw = head :: rest →
      ∃ l, Line.parse? raw = some l ∧ ReadAs head rest l := by
  refine ⟨tokens_eq_iff raw, ?_, ?_⟩
  · unfold Line.parse?
    cases tokens raw with
    | nil => simp [Line.ofTokens?]
    | cons head rest =>
      obtain ⟨l, hl, -⟩ := exists_ofTokens?_cons head rest
      simp [hl]
  · intro head rest h
    obtain ⟨l, hl, hlabel, hstatement⟩ := exists_ofTokens?_cons head rest
    rw [Line.parse?, h]
    exact ⟨l, hl, readAs_of_statement hlabel hstatement⟩

/-- Behind its operands a line may say anything, but a capital letter makes an operation a label. -/
theorem grammar_exact_spellings :
    tokens "loop\u2003lw +1 007 data here" = ["loop", "lw", "+1", "007", "data", "here"] ∧
    tokens "ADD 1 2 3" = ["ADD", "1", "2", "3"] ∧
    ∃ l l' : Line,
      (ReadAs "loop" ["lw", "+1", "007", "data", "here"] l ∧ l.label = some "loop" ∧
        l.statement = .ok (.code (.lw 1 7 "data"))) ∧
      ReadAs "ADD" ["1", "2", "3"] l' ∧ l'.label = some "ADD" ∧
        l'.statement = .error (.invalidOpcode "1") := by
  have hloop : tokens "loop\u2003lw +1 007 data here" =
      ["loop", "lw", "+1", "007", "data", "here"] := by decide +kernel
  have hadd : tokens "ADD 1 2 3" = ["ADD", "1", "2", "3"] := by decide +kernel
  obtain ⟨l, -, h⟩ := (grammar_exact _).2.2 _ _ hloop
  obtain ⟨l', -, h'⟩ := (grammar_exact _).2.2 _ _ hadd
  have hone : Names "+1" 1 :=
    ⟨['1'], ⟨List.cons_ne_nil _ _, List.all_eq_true.mp rfl⟩, .inr rfl, rfl⟩
  have hseven : Names "007" 7 :=
    ⟨['0', '0', '7'], ⟨List.cons_ne_nil _ _, List.all_eq_true.mp rfl⟩, .inl rfl, rfl⟩
  have hregs : List.Forall₂ Names ["+1", "007"] (Instruction.lw 1 7 "data").registers :=
    .cons hone (.cons hseven .nil)
  exact ⟨hloop, hadd, l, l', ⟨h, h.label, (h.statement _).mpr (.code hregs ["here"])⟩, h', h'.label,
    (h'.fault _).mpr (.invalidOpcode (by decide) ["2", "3"])⟩

end Assembly
end SC32
