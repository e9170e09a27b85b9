import SC32.Machine.Report
import SC32.Proofs.MachineCode.RoundTrip

/-!
# What a snapshot tells of a machine

A snapshot is a list of lines with one number on each, and how many lines there are depends on how
many words are loaded. So the numbers can be read off the text, and nothing else of the machine is
in it. Main statements: the lines of a snapshot, and when two machines have the same one.
-/
namespace SC32

open Text MachineCode

namespace Machine

/-- The line for a word under its number. -/
def entryLine (name : String) (n : Nat) (w : Word) : String :=
  "\t" ++ name ++ "[ " ++ alignRight 2 (Decimal.ofNat n) ++ " ] " ++ Decimal.ofInt w.toInt

def memoryLines (m : Machine) : List String :=
  (List.range m.loaded).map fun a => entryLine "mem" a (m.memory.read a)

def registerLines (m : Machine) : List String :=
  m.registers.toList.zipIdx.map fun (w, n) => entryLine "reg" n w

def snapshotLines (m : Machine) : List String :=
  ["@@@", "state:", "\tpc " ++ Decimal.ofInt m.pc.toInt, "\tmemory:"] ++ (m.memoryLines ++
    "\tregisters:" :: (m.registerLines ++ ["\tnumMemory: " ++ Decimal.ofNat m.loaded, "end state"]))

/-- The machines have the same program counter, registers and loaded words. -/
structure LooksLike (m n : Machine) : Prop where
  pc : m.pc = n.pc
  loaded : m.loaded = n.loaded
  cells : ∀ a < m.loaded, m.cell? a = n.cell? a
  registers : ∀ r, m.register r = n.register r

/-! ### Lines -/

theorem indexed_eq (name : String) (n : Nat) (w : Word) :
    indexed name n w = entryLine name n w ++ "\n" := rfl

theorem snapshot_eq (m : Machine) :
    m.snapshot = String.join (m.snapshotLines.map (· ++ "\n")) := by
  have hmemory : (List.range m.loaded).map (fun a => indexed "mem" a (m.memory.read a)) =
      m.memoryLines.map (· ++ "\n") := by
    simp only [memoryLines, List.map_map, Function.comp_def, indexed_eq]
  have hregisters : m.registers.toList.zipIdx.map (fun (w, n) => indexed "reg" n w) =
      m.registerLines.map (· ++ "\n") := by
    simp only [registerLines, List.map_map, Function.comp_def, indexed_eq]
  have hopening : "@@@\nstate:\n\tpc " = "@@@" ++ "\n" ++ ("state:" ++ "\n") ++ "\tpc " := by decide
  have hcells : "\n\tmemory:\n" = "\n" ++ ("\tmemory:" ++ "\n") := by decide
  have hbelow : "\tregisters:\n" = "\tregisters:" ++ "\n" := by decide
  have hend : "\nend state\n" = "\n" ++ ("end state" ++ "\n") := by decide
  unfold snapshot
  rw [hmemory, hregisters, hopening, hcells, hbelow, hend, snapshotLines]
  simp only [List.map_append, List.map_cons, List.map_nil, String.join_append, String.join_cons,
    String.join_nil, String.append_assoc, String.append_empty]

theorem alignRight_eq (width : Nat) (s : String) :
    alignRight width s = rule (width - s.toList.length) ' ' ++ s := by
  rw [alignRight, List.leftpad, String.ofList_append, String.ofList_toList, rule]

theorem oneLine_alignRight {s : String} (h : OneLine s) (width : Nat) :
    OneLine (alignRight width s) := by
  have hpad : OneLine (rule (width - s.toList.length) ' ') := by
    simp [rule, OneLine, List.mem_replicate]
  rw [alignRight_eq]
  exact hpad.append h

theorem oneLine_entryLine {name : String} (h : OneLine name) (n : Nat) (w : Word) :
    OneLine (entryLine name n w) := by
  have hnumber : OneLine (alignRight 2 (Decimal.ofNat n)) := oneLine_alignRight (oneLine_ofInt n) 2
  have hmargin : OneLine "\t" := by decide
  have hopen : OneLine "[ " := by decide
  have hclose : OneLine " ] " := by decide
  exact ((((hmargin.append h).append hopen).append hnumber).append hclose).append (oneLine_ofInt _)

theorem oneLine_of_mem_snapshotLines (m : Machine) : ∀ l ∈ m.snapshotLines, OneLine l := by
  have hpc : OneLine ("\tpc " ++ Decimal.ofInt m.pc.toInt) :=
    OneLine.append (by decide) (oneLine_ofInt _)
  have hcount : OneLine ("\tnumMemory: " ++ Decimal.ofNat m.loaded) :=
    OneLine.append (by decide) (oneLine_ofInt m.loaded)
  have hmemory : ∀ l ∈ m.memoryLines, OneLine l :=
    List.forall_mem_map.mpr fun a _ => oneLine_entryLine (by decide) a _
  have hregisters : ∀ l ∈ m.registerLines, OneLine l :=
    List.forall_mem_map.mpr fun x _ => oneLine_entryLine (by decide) x.2 x.1
  simp only [snapshotLines, List.cons_append, List.nil_append, List.forall_mem_cons,
    List.forall_mem_append]
  exact ⟨by decide, by decide, hpc, by decide, hmemory, by decide, hregisters, hcount, by decide⟩

/-- A snapshot is cut into its lines again. -/
theorem snapshot_eq_iff (m n : Machine) :
    m.snapshot = n.snapshot ↔ m.snapshotLines = n.snapshotLines := by
  constructor
  · intro h
    have hlines := congrArg lines h
    rwa [snapshot_eq, snapshot_eq, lines_join m.oneLine_of_mem_snapshotLines,
      lines_join n.oneLine_of_mem_snapshotLines] at hlines
  · intro h
    rw [snapshot_eq, h, snapshot_eq]

/-! ### Numbers -/

theorem word_of_ofInt {v w : Word} (h : Decimal.ofInt v.toInt = Decimal.ofInt w.toInt) :
    v = w := by
  have hv := Decimal.spells_ofInt v.toInt
  rw [h] at hv
  exact BitVec.eq_of_toInt_eq (hv.unique (Decimal.spells_ofInt w.toInt))

theorem entryLine_inj {name : String} {n : Nat} {v w : Word} :
    entryLine name n v = entryLine name n w ↔ v = w := by
  constructor
  · intro h
    rw [entryLine, entryLine, String.append_right_inj] at h
    exact word_of_ofInt h
  · rintro rfl
    rfl

@[simp] theorem length_memoryLines (m : Machine) : m.memoryLines.length = m.loaded := by
  simp [memoryLines]

@[simp] theorem length_registerLines (m : Machine) : m.registerLines.length = 8 := by
  simp [registerLines]

theorem length_snapshotLines (m : Machine) : m.snapshotLines.length = m.loaded + 15 := by
  simp only [snapshotLines, List.length_append, List.length_cons, List.length_nil,
    length_memoryLines, length_registerLines]
  omega

theorem memoryLines_eq_iff {m n : Machine} (hm : m.loaded ≤ m.capacity)
    (hn : n.loaded ≤ n.capacity) (h : m.loaded = n.loaded) :
    m.memoryLines = n.memoryLines ↔ ∀ a < m.loaded, m.cell? a = n.cell? a := by
  have hcell : ∀ a < m.loaded,
      m.cell? a = some (m.memory.read a) ∧ n.cell? a = some (n.memory.read a) := by
    intro a ha
    exact ⟨if_pos (Nat.lt_of_lt_of_le ha hm), if_pos (Nat.lt_of_lt_of_le (h ▸ ha) hn)⟩
  rw [memoryLines, memoryLines, ← h, List.map_inj_left]
  simp only [List.mem_range, entryLine_inj]
  refine forall_congr' fun a => forall_congr' fun ha => ?_
  rw [(hcell a ha).1, (hcell a ha).2, Option.some.injEq]

theorem registerLines_eq_iff (m n : Machine) :
    m.registerLines = n.registerLines ↔ ∀ r, m.register r = n.register r := by
  constructor
  · intro h r
    have hr := congrArg (·[r.val]?) h
    simpa [registerLines, entryLine_inj, register] using hr
  · intro h
    have hregisters : m.registers = n.registers := Vector.ext fun i hi => h ⟨i, hi⟩
    rw [registerLines, hregisters, registerLines]

theorem snapshotLines_eq_iff {m n : Machine} (hm : m.loaded ≤ m.capacity)
    (hn : n.loaded ≤ n.capacity) : m.snapshotLines = n.snapshotLines ↔ m.LooksLike n := by
  constructor
  · intro h
    -- The number of lines tells where the registers begin.
    have hloaded : m.loaded = n.loaded := by
      have hlength := congrArg List.length h
      rw [length_snapshotLines, length_snapshotLines] at hlength
      omega
    rw [snapshotLines, snapshotLines] at h
    obtain ⟨hhead, htail⟩ := List.append_inj h (by simp)
    obtain ⟨hmemory, hrest⟩ := List.append_inj htail (by simp [hloaded])
    obtain ⟨hregisters, -⟩ := List.append_inj (List.cons.inj hrest).2 (by simp)
    constructor
    case pc =>
      simp only [List.cons.injEq, String.append_right_inj, true_and, and_true] at hhead
      exact word_of_ofInt hhead
    case loaded => exact hloaded
    case cells => exact (memoryLines_eq_iff hm hn hloaded).mp hmemory
    case registers => exact (registerLines_eq_iff m n).mp hregisters
  · intro h
    rw [snapshotLines, h.pc, h.loaded, (memoryLines_eq_iff hm hn h.loaded).mpr h.cells,
      (registerLines_eq_iff m n).mpr h.registers, snapshotLines]

/-- Two machines have the same snapshot when they look like each other. So cells behind the loaded
words, how many cells there are, and what has been executed and how it ended are not in it. -/
theorem snapshot_exact (m : Machine) (hm : m.loaded ≤ m.capacity) :
    (∀ n : Machine, n.loaded ≤ n.capacity → (m.snapshot = n.snapshot ↔ m.LooksLike n)) ∧
    ∀ (memory : Memory) (executed : Nat) (exit : Option Exit), m.loaded ≤ memory.size →
      (∀ a < m.loaded, memory.cell? a = m.cell? a) →
      { m with memory := memory, executed := executed, exit := exit }.snapshot = m.snapshot := by
  have hexact : ∀ n : Machine, n.loaded ≤ n.capacity →
      (m.snapshot = n.snapshot ↔ m.LooksLike n) := by
    intro n hn
    rw [snapshot_eq_iff, snapshotLines_eq_iff hm hn]
  refine ⟨hexact, ?_⟩
  intro memory executed exit hsize hcells
  have hlooks : m.LooksLike { m with memory := memory, executed := executed, exit := exit } :=
    ⟨rfl, rfl, fun a ha => (hcells a ha).symm, fun _ => rfl⟩
  exact ((hexact _ hsize).mpr hlooks).symm

/-- Two words are loaded over four others, of which two are left behind them. -/
def overwritten : Machine := ((blank 4).load [9, 9, 9, 5]).load [7, 0xFFFFFFF9]

/-- The same words in a smaller machine that has halted. -/
def finished : Machine :=
  { (blank 2).load [7, 0xFFFFFFF9] with executed := 12, exit := some .halted }

/-- A zero that is loaded is shown, and a zero that is there anyway is not. -/
theorem snapshot_exact_overwritten :
    overwritten.loaded ≤ overwritten.capacity ∧ finished.loaded ≤ finished.capacity ∧
    overwritten.snapshot = finished.snapshot ∧
    ((blank 4).load [7, 0xFFFFFFF9, 0]).loaded ≤ ((blank 4).load [7, 0xFFFFFFF9, 0]).capacity ∧
    overwritten.snapshot ≠ ((blank 4).load [7, 0xFFFFFFF9, 0]).snapshot ∧
    { overwritten with memory := finished.memory, executed := 3, exit := none }.snapshot =
      overwritten.snapshot := by
  have hloaded : overwritten.loaded ≤ overwritten.capacity := by decide +kernel
  have hfinished : finished.loaded ≤ finished.capacity := by decide +kernel
  have hlonger : ((blank 4).load [7, 0xFFFFFFF9, 0]).loaded ≤
      ((blank 4).load [7, 0xFFFFFFF9, 0]).capacity := by decide +kernel
  have hcells : ∀ a < 2, overwritten.cell? a = finished.cell? a := by decide +kernel
  obtain ⟨hexact, hfree⟩ := snapshot_exact overwritten hloaded
  refine ⟨hloaded, hfinished, (hexact _ hfinished).mpr ?_, hlonger, ?_, ?_⟩
  · exact ⟨rfl, by decide +kernel, hcells, by decide +kernel⟩
  · intro h
    have hcount := ((hexact _ hlonger).mp h).loaded
    exact absurd hcount (by decide +kernel)
  · exact hfree finished.memory 3 none (by decide +kernel) fun a ha => (hcells a ha).symm

end Machine
end SC32
