import SC32.Proofs.Assembly.Correspondence
import SC32.Proofs.Assembly.Line
import SC32.Proofs.Text.Substitution

/-!
# Other names for labels

Labels may have any other names, as long as they are kept apart from each other, from operations and
from the numbers of the program. The new name of a label stands where the label is defined and where
an immediate operand names it; a register operand that is spelled like a label stays. Main
statements: how a renamed line reads, and what a renamed program is assembled to.
-/
namespace SC32

/-- The place of the immediate operand among the operands. -/
def Shape.immediateIndex? : Shape → Option Nat
  | registerPairOffset => some 2
  | registerTriple | registerPair | noOperand => none

namespace Assembly

open Text

def immediateIndex? (op : String) : Option Nat :=
  if op = fill then some 0
  else (Mnemonic.ofName op).toOption.bind fun k => k.shape.immediateIndex?

namespace Line

/-- The operand that is a number or names a label, if it is there. -/
def immediate? (l : Line) : Option String :=
  (l.operation.bind immediateIndex?).bind fun i => l.operands[i]?

/-- The line with another label and another immediate operand. -/
def rename (f g : String → String) (l : Line) : Line where
  label := l.label.map f
  operation := l.operation
  operands := l.operands.mapIdx fun i x =>
    if l.operation.bind immediateIndex? = some i then g x else x

end Line

/-- What is wrong with the same line under other labels. -/
def LineFault.rename (f : String → String) (x : LineFault) : LineFault :=
  ⟨x.line, x.fault.rename f⟩

/-- The immediate operands of a text, also of lines that are no statements. -/
def immediates (source : List String) : List String :=
  (addressed source).filterMap Line.immediate?

/-- The image of a label of the text; another name stays. -/
def image (f : String → String) (source : List String) (x : String) : String :=
  if x ∈ defined source then f x else x

/-- The line with other tokens between the same blanks. -/
def renameLine (f g : String → String) (raw : String) : String :=
  match Line.parse? raw with
  | some l => refill (l.rename f g).tokens raw
  | none => raw

/-- The text with the labels renamed by `f`. -/
def rename (f : String → String) (source : List String) : List String :=
  source.map (renameLine f (image f source))

/-- The labels of the text keep apart under `f`. Each comes to be a token that is no operation and no
immediate operand of the text, unless that operand is itself a label. -/
structure Renaming (f : String → String) (source : List String) : Prop where
  injective : ∀ l ∈ defined source, ∀ k ∈ defined source, f l = f k → l = k
  token : ∀ l ∈ defined source, IsToken (f l).toList
  name : ∀ l ∈ defined source, isOperation (f l) = false
  free : ∀ l ∈ defined source, ∀ x ∈ immediates source, x ∉ defined source → f l ≠ x

variable {f g : String → String} {source : List String}

/-! ### Reading a renamed line -/

theorem proper_rename {l : Line} (h : l.Proper) (hf : ∀ x ∈ l.label, isOperation (f x) = false) :
    (l.rename f g).Proper := by
  constructor
  case label =>
    intro y hy
    obtain ⟨x, hx, rfl⟩ := Option.map_eq_some_iff.mp hy
    exact hf x hx
  case operation => exact fun hnone => h.operation (Option.map_eq_none_iff.mp hnone)
  case operands =>
    intro hnone
    rw [Line.rename, h.operands hnone, List.mapIdx_nil]

theorem length_tokens_rename (l : Line) : (l.rename f g).tokens.length = l.tokens.length := by
  cases hl : l.label <;> simp [Line.tokens, Line.rename, hl]

theorem isToken_of_mem_tokens_rename {l : Line} (h : ∀ t ∈ l.tokens, IsToken t.toList)
    (hf : ∀ x ∈ l.label, IsToken (f x).toList) (hg : ∀ t ∈ l.tokens, IsToken (g t).toList) :
    ∀ t ∈ (l.rename f g).tokens, IsToken t.toList := by
  have hoperand : ∀ x ∈ l.operands, x ∈ l.tokens := by
    intro x hx
    simp [Line.tokens, hx]
  intro t ht
  simp only [Line.tokens, Line.rename, List.append_assoc, List.mem_append, Option.mem_toList,
    List.mem_mapIdx] at ht
  rcases ht with hlabel | hop | ⟨i, hi, rfl⟩
  · obtain ⟨x, hx, rfl⟩ := Option.map_eq_some_iff.mp hlabel
    exact hf x hx
  · exact h t (by simp [Line.tokens, Option.mem_def.mp hop])
  · split
    · exact hg _ (hoperand _ (List.getElem_mem hi))
    · exact h _ (hoperand _ (List.getElem_mem hi))

/-- What is made of a line reads as the renamed line. -/
theorem parse?_renameLine {raw : String}
    (hlabel : ∀ l, Line.parse? raw = some l → ∀ x ∈ l.label,
      IsToken (f x).toList ∧ isOperation (f x) = false)
    (hg : ∀ t ∈ Text.tokens raw, IsToken (g t).toList) :
    Line.parse? (renameLine f g raw) = (Line.parse? raw).map (Line.rename f g) := by
  unfold renameLine
  cases h : Line.parse? raw with
  | none => exact h
  | some l =>
    obtain ⟨htokens, hproper⟩ := (ofTokens?_eq_some_iff _ l).mp h
    have hl := hlabel l h
    have hall : ∀ t ∈ (l.rename f g).tokens, IsToken t.toList := by
      refine isToken_of_mem_tokens_rename ?_ (fun x hx => (hl x hx).1) ?_
      · rw [← htokens]
        exact fun t => isToken_of_mem_tokens
      · rwa [← htokens]
    simp only
    rw [Line.parse?, tokens_refill (by rw [length_tokens_rename, htokens]) hall,
      ofTokens?_tokens (proper_rename hproper fun x hx => (hl x hx).2)]
    rfl

/-! ### What a renamed line says -/

/-- That an operand is no register has nothing to do with labels. -/
theorem register_bind (x : String) (k : Reg → Except Fault (Instruction Operand)) :
    ((Statement.register x >>= k).map (Instruction.map g)).mapError (Fault.rename f) =
      Statement.register x >>= fun r => ((k r).map (Instruction.map g)).mapError (Fault.rename f) := by
  unfold Statement.register
  cases Reg.parse? x <;> rfl

/-- Registers are read off the same operands. -/
theorem instruction_mapIdx (k : Mnemonic) (xs : List String) :
    Statement.instruction k
        (xs.mapIdx fun i x => if k.shape.immediateIndex? = some i then g x else x) =
      ((Statement.instruction k xs).map (Instruction.map g)).mapError (Fault.rename f) := by
  match xs with
  | a :: b :: d :: xs =>
    cases k <;> simp only [List.mapIdx_cons, Statement.instruction, register_bind] <;> rfl
  | [a, b] =>
    cases k <;> simp only [List.mapIdx_cons, Statement.instruction, register_bind] <;> rfl
  | [] | [a] => cases k <;> rfl

theorem immediateIndex?_fill : immediateIndex? fill = some 0 := if_pos rfl

theorem immediateIndex?_of_ne_fill {op : String} (h : op ≠ fill) {k : Mnemonic}
    (hk : Mnemonic.ofName op = .ok k) : immediateIndex? op = k.shape.immediateIndex? := by
  rw [immediateIndex?, if_neg h, hk]
  rfl

theorem ofOperation_mapIdx (op : String) (xs : List String) :
    Statement.ofOperation op
        (xs.mapIdx fun i x => if immediateIndex? op = some i then g x else x) =
      ((Statement.ofOperation op xs).map (Statement.map g)).mapError (Fault.rename f) := by
  unfold Statement.ofOperation
  by_cases hfill : op = fill
  · subst hfill
    rw [if_pos rfl, if_pos rfl, immediateIndex?_fill]
    cases xs with
    | nil => rfl
    | cons x xs =>
      rw [List.mapIdx_cons]
      rfl
  · rw [if_neg hfill, if_neg hfill]
    cases hk : Mnemonic.ofName op with
    | error e => rfl
    | ok k =>
      simp only [immediateIndex?_of_ne_fill hfill hk, instruction_mapIdx (f := f)]
      cases Statement.instruction k xs <;> rfl

theorem statement_rename {l : Line} (h : l.Proper) :
    (l.rename f g).statement =
      (l.statement.map (Statement.map g)).mapError (Fault.rename f) := by
  cases hop : l.operation with
  | some op =>
    have h' := ofOperation_mapIdx (f := f) (g := g) op l.operands
    simpa only [Line.statement, Line.rename, hop, Option.bind_some] using h'
  | none =>
    cases hlabel : l.label with
    | none =>
      obtain ⟨op, hop', -⟩ := h.operation hlabel
      rw [hop] at hop'
      cases hop'
    | some x =>
      simp only [Line.statement, Line.rename, hop, hlabel]
      rfl

theorem immediate?_of_instruction {k : Mnemonic} {xs : List String} {i : Instruction Operand}
    {x : Operand} (h : Statement.instruction k xs = .ok i)
    (hx : (Statement.code i).immediate? = some x) :
    (k.shape.immediateIndex?.bind fun n => xs[n]?) = some x := by
  unfold Statement.instruction at h
  split at h
  case h_1 | h_2 =>
    obtain ⟨_, -, h⟩ := (bind_eq_ok_iff _ _ _).mp h
    obtain ⟨_, -, h⟩ := (bind_eq_ok_iff _ _ _).mp h
    obtain ⟨_, -, h⟩ := (bind_eq_ok_iff _ _ _).mp h
    cases h
    cases hx
  case h_3 | h_4 | h_5 =>
    obtain ⟨_, -, h⟩ := (bind_eq_ok_iff _ _ _).mp h
    obtain ⟨_, -, h⟩ := (bind_eq_ok_iff _ _ _).mp h
    cases h
    exact hx
  case h_6 =>
    obtain ⟨_, -, h⟩ := (bind_eq_ok_iff _ _ _).mp h
    obtain ⟨_, -, h⟩ := (bind_eq_ok_iff _ _ _).mp h
    cases h
    cases hx
  case h_7 | h_8 =>
    cases h
    cases hx
  case h_9 => cases h

/-- The operand of a statement is the immediate operand of its line. -/
theorem immediate?_of_statement {l : Line} {s : Statement} (h : l.statement = .ok s) {x : Operand}
    (hx : s.immediate? = some x) : l.immediate? = some x := by
  cases hop : l.operation with
  | none =>
    rw [Line.statement, hop] at h
    cases h
  | some op =>
    rw [Line.statement, hop] at h
    simp only [Statement.ofOperation] at h
    rw [Line.immediate?, hop, Option.bind_some]
    by_cases hfill : op = fill
    · rw [if_pos hfill] at h
      rw [hfill, immediateIndex?_fill]
      split at h
      · next v vs hxs =>
        cases h
        rw [hxs]
        exact hx
      · cases h
    · rw [if_neg hfill] at h
      split at h
      · next k hk =>
        obtain ⟨i, hi, rfl⟩ := (map_eq_ok_iff _ _ _).mp h
        rw [immediateIndex?_of_ne_fill hfill hk]
        exact immediate?_of_instruction hi hx
      · cases h

theorem mem_immediates_of_mem_operands {x : Operand}
    (h : x ∈ operands Statement.immediate? source) : x ∈ immediates source := by
  obtain ⟨l, hl, hs⟩ := List.mem_filterMap.mp h
  refine List.mem_filterMap.mpr ⟨l, hl, ?_⟩
  cases hstmt : l.statement with
  | error e =>
    rw [hstmt] at hs
    cases hs
  | ok s =>
    rw [hstmt] at hs
    exact immediate?_of_statement hstmt hs

/-! ### A renamed program -/

theorem consistent_of_renaming (h : Renaming f source) :
    Consistent f (image f source) source := by
  constructor
  case injective => exact h.injective
  case label =>
    intro x _ hx
    rw [image, if_pos hx]
  case literal =>
    intro x hx hd
    exact ⟨by rw [image, if_neg hd],
      fun l hl => h.free l hl x (mem_immediates_of_mem_operands hx) hd⟩

theorem mem_defined_of_label {raw : String} (hraw : raw ∈ source) {l : Line}
    (hl : Line.parse? raw = some l) {x : String} (hx : l.label = some x) : x ∈ defined source :=
  List.mem_filterMap.mpr ⟨l, List.mem_filterMap.mpr ⟨raw, hraw, hl⟩, hx⟩

theorem parse?_of_renaming (h : Renaming f source) {raw : String} (hraw : raw ∈ source) :
    Line.parse? (renameLine f (image f source) raw) =
      (Line.parse? raw).map (Line.rename f (image f source)) := by
  refine parse?_renameLine ?_ ?_
  · intro l hl x hx
    have hd := mem_defined_of_label hraw hl hx
    exact ⟨h.token x hd, h.name x hd⟩
  · intro t ht
    unfold image
    split
    · next hd => exact h.token t hd
    · exact isToken_of_mem_tokens ht

theorem lineAt_rename (h : Renaming f source) {i : Nat} {l : Line} (hl : LineAt source i l) :
    LineAt (rename f source) i (l.rename f (image f source)) := by
  obtain ⟨raw, hraw, hparse⟩ := hl
  refine ⟨renameLine f (image f source) raw, ?_, ?_⟩
  · rw [rename, List.getElem?_map, hraw]
    rfl
  · rw [parse?_of_renaming h (List.mem_of_getElem? hraw), hparse]
    rfl

/-- Lines stay where they are. -/
theorem place_rename (h : Renaming f source) :
    place (rename f source) = (place source).map fun p =>
      ⟨p.line, p.address, p.content.rename f (image f source)⟩ := by
  have hnumbered : numbered (rename f source) =
      (numbered source).map fun x => (x.1, x.2.rename f (image f source)) := by
    rw [numbered, rename, List.zipIdx_map, List.filterMap_map, numbered, List.map_filterMap]
    refine List.filterMap_congr ?_
    intro x hx
    have hraw : x.1 ∈ source := List.fst_mem_of_mem_zipIdx hx
    simp [parse?_of_renaming h hraw, Function.comp_def]
  rw [place, hnumbered, List.zipIdx_map, place, List.map_map, List.map_map]
  rfl

theorem LineAt.proper {i : Nat} {l : Line} (h : LineAt source i l) : l.Proper := by
  obtain ⟨raw, -, hl⟩ := h
  exact ((ofTokens?_eq_some_iff _ l).mp hl).2

theorem eq_rename_of_corresponds {x y : LineFault} (h : x.Corresponds f Eq y) :
    y = x.rename f := by
  obtain ⟨n, e⟩ := x
  obtain ⟨n', e'⟩ := y
  obtain ⟨hline, hfault⟩ := h
  simp only at hline hfault
  subst hline
  cases hfault with
  | redefined l h => rw [h, LineFault.rename, Fault.rename]
  | own => rfl

theorem assemble_rename (h : Renaming f source) :
    assemble (rename f source) = (assemble source).mapError (LineFault.rename f) := by
  have hplace : List.Forall₂ (Placed.Corresponds f (image f source) Eq) (place source)
      (place (rename f source)) := by
    rw [place_rename h, List.forall₂_map_right_iff, List.forall₂_same]
    intro p hp
    have hl := ((mem_place_iff source p).mp hp).1
    exact ⟨rfl, rfl, rfl, statement_rename hl.proper⟩
  have halike := assemble_corresponds (consistent_of_renaming h) hplace
  generalize assemble source = x at halike
  generalize assemble (rename f source) = y at halike
  cases halike with
  | ok h =>
    rw [h]
    rfl
  | error h =>
    rw [eq_rename_of_corresponds h]
    rfl

/-- Under a renaming a program has the same words, or the same fault at the same line, up to the name
of the label that the fault is about. Every line keeps its operation and all operands but the
immediate one, so its registers are the same. -/
theorem renaming_exact (f : String → String) (source : List String) (h : Renaming f source) :
    assemble (rename f source) = (assemble source).mapError (LineFault.rename f) ∧
    ∀ i l, LineAt source i l →
      LineAt (rename f source) i (l.rename f (image f source)) ∧
      (l.rename f (image f source)).statement =
        (l.statement.map (Statement.map (image f source))).mapError (Fault.rename f) := by
  refine ⟨assemble_rename h, ?_⟩
  intro i l hl
  exact ⟨lineAt_rename h hl, statement_rename hl.proper⟩

/-- A program with a label that is spelled like a register and like a number. -/
def numeric : List String := ["7   lw 0 7 7", "", "x\tbeq 7 0 x", "add 7 7 7", ".fill 5"]

/-- The labels of that program under other names, one of which is taken over by the other label. -/
def numericNames (l : String) : String := if l = "7" then "seven" else if l = "x" then "7" else l

theorem renaming_exact_numeric :
    Renaming numericNames numeric ∧
    rename numericNames numeric =
      ["seven   lw 0 7 seven", "", "7\tbeq 7 0 7", "add 7 7 7", ".fill 5"] ∧
    assemble numeric = .ok [0x870000, 0x138FFFF, 0x3F0007, 5] ∧
    assemble (rename numericNames numeric) = assemble numeric := by
  have hdefined : defined numeric = ["7", "x"] := by decide +kernel
  have himmediates : immediates numeric = ["7", "x", "5"] := by decide +kernel
  have hrenaming : Renaming numericNames numeric := by
    constructor
    case injective =>
      rw [hdefined]
      decide +kernel
    case token =>
      rw [hdefined, List.forall_mem_cons, List.forall_mem_singleton]
      exact ⟨⟨by decide, not_isBlank_of_all (by decide)⟩, ⟨by decide, not_isBlank_of_all (by decide)⟩⟩
    case name =>
      rw [hdefined]
      decide +kernel
    case free =>
      rw [hdefined, himmediates]
      decide +kernel
  have hwords : assemble numeric = .ok [0x870000, 0x138FFFF, 0x3F0007, 5] := by decide +kernel
  refine ⟨hrenaming, by decide +kernel, hwords, ?_⟩
  rw [(renaming_exact numericNames numeric hrenaming).1, hwords]
  rfl

end Assembly
end SC32
