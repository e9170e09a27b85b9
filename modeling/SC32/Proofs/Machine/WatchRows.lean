import SC32.Machine.Watch
import SC32.Proofs.Instruction.Display

/-!
# Reading what a watch list shows

The rows of a watch list are read by their tokens: a row says which register or cell it is about,
and what is in it. Main statements: a row says one thing, and what the rows of a watch say of a
machine.
-/
namespace SC32

open Text
open Decimal (Spells)

namespace Watch

/-- What a row can be about. -/
inductive Shown where
  /-- The address that is watched, and the program counter behind it. -/
  | heading (a : Nat) (pc : Word)
  | register (r : Reg) (w : Word)
  /-- There is no word where there is no cell. -/
  | cell (a : Nat) (w : Option Word)
  deriving DecidableEq, Repr

/-- What stands at the end of the row of a cell. -/
inductive Fills : Option Word → String → Prop where
  | word {s : String} {w : Word} (h : Spells s.toList w.toInt) : Fills (some w) s
  | missing {s : String} (h : s = "-") : Fills none s

/-- What a row says, by its tokens. -/
inductive Says (row : String) : Shown → Prop where
  | heading {s t : String} {a : Nat} {pc : Word}
    (h : tokens row = ["*", "watch", "@", s, "pc=" ++ t]) (ha : Spells s.toList a)
    (hpc : Spells t.toList pc.toInt) : Says row (.heading a pc)
  | register {s t : String} {r : Reg} {w : Word} (h : tokens row = ["reg[", s, "]", t])
    (hr : Spells s.toList r.val) (hw : Spells t.toList w.toInt) : Says row (.register r w)
  | cell {s t : String} {a : Nat} {w : Option Word} (h : tokens row = ["mem[", s, "]", t])
    (ha : Spells s.toList a) (hw : Fills w t) : Says row (.cell a w)

theorem word_of_spells {cs : List Char} {v w : Word} (h : Spells cs v.toInt)
    (h' : Spells cs w.toInt) : v = w := BitVec.eq_of_toInt_eq (h.unique h')

theorem number_of_spells {cs : List Char} {a b : Nat} (h : Spells cs a) (h' : Spells cs b) :
    a = b := Int.ofNat_inj.mp (h.unique h')

/-- A dash is no numeral. -/
theorem Fills.unique {s : String} {v w : Option Word} (h : Fills v s) (h' : Fills w s) :
    v = w := by
  have hdash : ∀ n, ¬ Spells "-".toList n := fun n hn =>
    ((Decimal.spells_minus_iff [] n).mp hn).1.1 rfl
  cases h with
  | word h =>
    cases h' with
    | word h' => rw [word_of_spells h h']
    | missing h' =>
      rw [h'] at h
      exact absurd h (hdash _)
  | missing h =>
    cases h' with
    | word h' =>
      rw [h] at h'
      exact absurd h' (hdash _)
    | missing _ => rfl

theorem Says.unique {row : String} {x y : Shown} (h : Says row x) (h' : Says row y) : x = y := by
  cases h with
  | heading h ha hpc =>
    cases h' with
    | heading h' ha' hpc' =>
      rw [h] at h'
      simp only [List.cons.injEq, String.append_right_inj, true_and, and_true] at h'
      obtain ⟨rfl, rfl⟩ := h'
      rw [number_of_spells ha ha', word_of_spells hpc hpc']
    | register h' | cell h' =>
      rw [h] at h'
      simp at h'
  | register h hr hw =>
    cases h' with
    | register h' hr' hw' =>
      rw [h] at h'
      cases h'
      rw [Fin.ext (number_of_spells hr hr'), word_of_spells hw hw']
    | heading h' | cell h' =>
      rw [h] at h'
      simp at h'
  | cell h ha hw =>
    cases h' with
    | cell h' ha' hw' =>
      rw [h] at h'
      cases h'
      rw [number_of_spells ha ha', hw.unique hw']
    | heading h' | register h' =>
      rw [h] at h'
      simp at h'

/-! ### The rows of a watch -/

/-- What a watch at address `a` shows of a machine. -/
def shown (w : Watch) (a : Nat) (m : Machine) : List Shown :=
  .heading a m.pc :: ((w.registers.map fun r => .register r (m.register r)) ++
    w.cells.map fun c => .cell c (if c < m.capacity then some (m.memory.read c) else none))

/-- The tokens of a row about a register or a cell. -/
theorem tokens_entry {margin name s t : String} (hname : tokens margin = [name])
    (hs : IsToken s.toList) (ht : IsToken t.toList) :
    tokens (margin ++ " " ++ (s ++ (" ] " ++ t))) = [name, s, "]", t] := by
  have hbracket : " ] " = " " ++ "]" ++ " " := by decide
  have hone : tokens (" " ++ "]") = ["]"] := by decide
  have hbehind : tokens (" ] " ++ t) = ["]", t] := by
    rw [hbracket, tokens_append_space, hone, tokens_of_isToken ht]
    rfl
  have hbreaks : Breaks (" ] " ++ t).toList := by
    rw [hbracket, String.append_assoc, String.append_assoc]
    exact breaks_space _
  rw [tokens_append_space, hname, tokens_append hs hbreaks, hbehind]
  rfl

theorem says_registerRow (m : Machine) (r : Reg) :
    Says (registerRow m r) (.register r (m.register r)) := by
  have hmargin : "   reg[ " = "   reg[" ++ " " := by decide
  have hname : tokens "   reg[" = ["reg["] := by decide
  refine .register ?_ (Decimal.spells_ofInt r.val) (Decimal.spells_ofInt (m.register r).toInt)
  rw [registerRow, hmargin, String.append_assoc, String.append_assoc]
  exact tokens_entry hname r.isToken_render (isToken_ofInt _)

/-- A cell beyond the capacity has a dash in its row, and no other cell has one. -/
theorem says_cellRow (m : Machine) (c : Nat) :
    Says (cellRow m c) (.cell c (if c < m.capacity then some (m.memory.read c) else none)) := by
  have hmargin : "   mem[ " = "   mem[" ++ " " := by decide
  have hname : tokens "   mem[" = ["mem["] := by decide
  have hc : IsToken (Decimal.ofNat c).toList := isToken_ofInt c
  have hcell : m.cell? c = if c < m.capacity then some (m.memory.read c) else none := rfl
  rw [cellRow, hmargin, String.append_assoc, String.append_assoc, hcell]
  by_cases h : c < m.capacity
  · rw [if_pos h]
    exact .cell (tokens_entry hname hc (isToken_ofInt _)) (Decimal.spells_ofInt c)
      (.word (Decimal.spells_ofInt _))
  · have hdash : IsToken "-".toList := ⟨by decide, not_isBlank_of_all (by decide)⟩
    rw [if_neg h]
    exact .cell (tokens_entry hname hc hdash) (Decimal.spells_ofInt c) (.missing rfl)

theorem says_heading (m : Machine) (a : Nat) :
    Says (" * watch @ " ++ zeroFill 4 (Decimal.ofNat a) ++ " pc=" ++ Decimal.ofInt m.pc.toInt)
      (.heading a m.pc) := by
  have hmargin : " * watch @ " = " * watch @" ++ " " := by decide
  have hname : tokens " * watch @" = ["*", "watch", "@"] := by decide
  have hpc : " pc=" = " " ++ "pc=" := by decide
  have ha := Decimal.spells_zeroFill 4 a
  have htoken : IsToken ("pc=" ++ Decimal.ofInt m.pc.toInt).toList := by
    have hplain := isToken_ofInt m.pc.toInt
    rw [String.toList_append]
    refine ⟨List.append_ne_nil_of_right_ne_nil _ hplain.1, ?_⟩
    exact List.forall_mem_append.mpr ⟨not_isBlank_of_all (by decide), hplain.2⟩
  refine .heading ?_ ha (Decimal.spells_ofInt m.pc.toInt)
  rw [hmargin, hpc, String.append_assoc, String.append_assoc, tokens_append_space, hname,
    String.append_assoc, tokens_append (isToken_of_spells ha) (breaks_space _), tokens_space,
    tokens_of_isToken htoken]
  rfl

/-- The rows of a watch say what it shows, and nothing else. -/
theorem forall₂_says_rows_iff (w : Watch) (a : Nat) (m : Machine) (xs : List Shown) :
    List.Forall₂ Says (w.rows a m) xs ↔ xs = w.shown a m := by
  have hsays : List.Forall₂ Says (w.rows a m) (w.shown a m) := by
    have hregisters : List.Forall₂ Says (w.registers.map (registerRow m))
        (w.registers.map fun r => .register r (m.register r)) := by
      rw [List.forall₂_map_left_iff, List.forall₂_map_right_iff, List.forall₂_same]
      exact fun r _ => says_registerRow m r
    have hcells : List.Forall₂ Says (w.cells.map (cellRow m)) (w.cells.map fun c =>
        .cell c (if c < m.capacity then some (m.memory.read c) else none)) := by
      rw [List.forall₂_map_left_iff, List.forall₂_map_right_iff, List.forall₂_same]
      exact fun c _ => says_cellRow m c
    exact .cons (says_heading m a) (List.rel_append hregisters hcells)
  have hunique : Relator.RightUnique Says := fun _ _ _ => Says.unique
  constructor
  · intro h
    exact hunique.forall₂ h hsays
  · rintro rfl
    exact hsays

end Watch
end SC32
