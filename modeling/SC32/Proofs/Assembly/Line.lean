import SC32.Assembly.Line

/-!
# Lines and their tokens

A line that is not blank has its tokens in one order: the label, the operation, the operands. Main
statement: which tokens are read as a given line.
-/
namespace SC32

theorem Mnemonic.ofName_eq_ok_iff (s : String) (k : Mnemonic) : ofName s = .ok k ↔ k.name = s := by
  constructor
  · intro h
    unfold ofName at h
    split at h
    · next j hj =>
      cases h
      simpa using List.find?_some hj
    · cases h
  · rintro rfl
    exact ofName_name k

theorem Mnemonic.name_injective {j k : Mnemonic} (h : j.name = k.name) : j = k := by
  have hj := ofName_name j
  rw [h, ofName_name, Except.ok.injEq] at hj
  exact hj.symm

theorem Mnemonic.isName_iff (s : String) : isName s = true ↔ ∃ k : Mnemonic, k.name = s := by
  simp only [← ofName_eq_ok_iff]
  unfold isName
  cases ofName s <;> simp [Except.isOk, Except.toBool]

namespace Assembly

/-- How the operations are spelled. -/
def operationNames : List String :=
  ["add", "nand", "lw", "sw", "beq", "jalr", "halt", "noop", ".fill"]

theorem isOperation_iff (t : String) : isOperation t = true ↔ t ∈ operationNames := by
  have hnames : operationNames = Mnemonic.all.map Mnemonic.name ++ [fill] := rfl
  rw [isOperation, Bool.or_eq_true, Mnemonic.isName_iff, beq_iff_eq, hnames, List.mem_append,
    List.mem_map, List.mem_singleton]
  simp only [Mnemonic.mem_all, true_and]

theorem isOperation_name (k : Mnemonic) : isOperation k.name = true := by
  rw [isOperation, Mnemonic.isName, Mnemonic.ofName_name]
  rfl

theorem name_ne_fill (k : Mnemonic) : k.name ≠ fill := by
  cases k <;> decide

namespace Line

def tokens (l : Line) : List String := l.label.toList ++ l.operation.toList ++ l.operands

/-- Where there is no label there is an operation, and operands only follow an operation. -/
structure Proper (l : Line) : Prop where
  label : ∀ x ∈ l.label, isOperation x = false
  operation : l.label = none → ∃ op, l.operation = some op ∧ isOperation op = true
  operands : l.operation = none → l.operands = []

end Line

theorem ofTokens?_tokens {l : Line} (h : l.Proper) : Line.ofTokens? l.tokens = some l := by
  obtain ⟨label, operation, operands⟩ := l
  cases label with
  | none =>
    obtain ⟨op, hop, hname⟩ := h.operation rfl
    simp only at hop
    simp [Line.tokens, Line.ofTokens?, hop, hname]
  | some x =>
    have hx := h.label x rfl
    cases operation with
    | some op => simp [Line.tokens, Line.ofTokens?, hx]
    | none =>
      have hnil := h.operands rfl
      simp only at hnil
      simp [Line.tokens, Line.ofTokens?, hx, hnil]

/-- A proper line is read from its tokens, and every line that is read is proper. -/
theorem ofTokens?_eq_some_iff (ts : List String) (l : Line) :
    Line.ofTokens? ts = some l ↔ ts = l.tokens ∧ l.Proper := by
  constructor
  · intro h
    cases ts with
    | nil => cases h
    | cons head rest =>
      cases hname : isOperation head with
      | true =>
        simp only [Line.ofTokens?, hname, if_true, Option.some.injEq] at h
        subst h
        exact ⟨rfl, by simp, fun _ => ⟨head, rfl, hname⟩, by simp⟩
      | false =>
        simp only [Line.ofTokens?, hname, Bool.false_eq_true, if_false, Option.some.injEq] at h
        subst h
        cases rest with
        | nil => exact ⟨rfl, by simp [hname], by simp, by simp⟩
        | cons op rest => exact ⟨rfl, by simp [hname], by simp, by simp⟩
  · rintro ⟨rfl, h⟩
    exact ofTokens?_tokens h

end Assembly
end SC32
