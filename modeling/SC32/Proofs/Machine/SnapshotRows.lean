import SC32.Proofs.Machine.Snapshot
import SC32.Proofs.Machine.WatchRows

/-!
# Reading a snapshot

A snapshot is read as the rows of a watch list are: each row by its tokens, which say what register
or cell it is about and what is in it. Main statement: a snapshot has the rows of its machine.
-/
namespace SC32.Machine

open Text
open Decimal (Spells)

/-- The rows of a snapshot that are not the same for all machines. -/
structure SnapshotRows where
  pc : String
  cells : List String
  registers : List String
  count : String

namespace SnapshotRows

/-- The rows with what stands around them, a line each. -/
def text (r : SnapshotRows) : String :=
  String.join ((["@@@", "state:", r.pc, "\tmemory:"] ++ (r.cells ++
    "\tregisters:" :: (r.registers ++ [r.count, "end state"]))).map (· ++ "\n"))

/-- The rows show the machine: each loaded word under its address, each register under its number,
and between them and around them the program counter and the number of the loaded words. -/
structure Show (r : SnapshotRows) (m : Machine) : Prop where
  pc : ∃ s, tokens r.pc = ["pc", s] ∧ Spells s.toList m.pc.toInt
  cells : List.Forall₂ Watch.Says r.cells ((List.range m.loaded).map fun a => .cell a (m.cell? a))
  registers : List.Forall₂ Watch.Says r.registers
    ((List.finRange 8).map fun i => .register i (m.register i))
  count : ∃ s, tokens r.count = ["numMemory:", s] ∧ Spells s.toList m.loaded

end SnapshotRows

/-- Blanks in front of a number in its column separate no more than one does. -/
theorem tokens_alignRight_append (width : Nat) (s rest : String) :
    tokens (alignRight width s ++ rest) = tokens (s ++ rest) := by
  rw [tokens, alignRight_eq, String.append_assoc, String.toList_append, rule, String.toList_ofList,
    words_replicate_append, tokens]

/-- The tokens of the line for a word. -/
theorem tokens_entryLine {name token : String} (hname : tokens ("\t" ++ name ++ "[") = [token])
    (n : Nat) (w : Word) : tokens (entryLine name n w) =
      [token, Decimal.ofNat n, "]", Decimal.ofInt w.toInt] := by
  have hmargin : "[ " = "[" ++ " " := by decide
  have hpad : tokens (entryLine name n w) = tokens ("\t" ++ name ++ "[" ++ " " ++
      (Decimal.ofNat n ++ (" ] " ++ Decimal.ofInt w.toInt))) := by
    rw [tokens_append_space, ← tokens_alignRight_append 2 (Decimal.ofNat n), ← tokens_append_space,
      entryLine, hmargin]
    simp only [String.append_assoc]
  rw [hpad]
  exact Watch.tokens_entry hname (isToken_ofInt n) (isToken_ofInt w.toInt)

theorem says_cellLine (a : Nat) (w : Word) :
    Watch.Says (entryLine "mem" a w) (.cell a (some w)) :=
  .cell (tokens_entryLine (by decide) a w) (Decimal.spells_ofInt a)
    (.word (Decimal.spells_ofInt w.toInt))

theorem says_registerLine (r : Reg) (w : Word) :
    Watch.Says (entryLine "reg" r w) (.register r w) :=
  .register (tokens_entryLine (by decide) r w) (Decimal.spells_ofInt r.val)
    (Decimal.spells_ofInt w.toInt)

theorem registerLines_eq (m : Machine) :
    m.registerLines = (List.finRange 8).map fun i : Reg => entryLine "reg" i (m.register i) := by
  refine List.ext_getElem (by simp) fun i hi _ => ?_
  simp [registerLines, register]

/-- A number behind its name. -/
theorem tokens_numbered {margin name : String} (hname : tokens margin = [name]) (n : Int) :
    tokens (margin ++ " " ++ Decimal.ofInt n) = [name, Decimal.ofInt n] := by
  rw [tokens_append_space, hname, tokens_of_isToken (isToken_ofInt n)]
  rfl

/-- Every snapshot is made of rows that show its machine. -/
theorem exists_snapshotRows {m : Machine} (h : m.loaded ≤ m.capacity) :
    ∃ r : SnapshotRows, m.snapshot = r.text ∧ r.Show m := by
  refine ⟨⟨"\tpc " ++ Decimal.ofInt m.pc.toInt, m.memoryLines, m.registerLines,
    "\tnumMemory: " ++ Decimal.ofNat m.loaded⟩, m.snapshot_eq, ?_⟩
  constructor
  case pc =>
    have hmargin : "\tpc " = "\tpc" ++ " " := by decide
    refine ⟨_, ?_, Decimal.spells_ofInt m.pc.toInt⟩
    rw [hmargin]
    exact tokens_numbered (by decide) m.pc.toInt
  case cells =>
    rw [memoryLines, List.forall₂_map_left_iff, List.forall₂_map_right_iff, List.forall₂_same]
    intro a ha
    have hcell : m.cell? a = some (m.memory.read a) :=
      if_pos (Nat.lt_of_lt_of_le (List.mem_range.mp ha) h)
    rw [hcell]
    exact says_cellLine a _
  case registers =>
    rw [registerLines_eq, List.forall₂_map_left_iff, List.forall₂_map_right_iff, List.forall₂_same]
    exact fun i _ => says_registerLine i _
  case count =>
    have hmargin : "\tnumMemory: " = "\tnumMemory:" ++ " " := by decide
    refine ⟨_, ?_, Decimal.spells_ofInt m.loaded⟩
    rw [hmargin]
    exact tokens_numbered (by decide) m.loaded

end SC32.Machine
