import SC32.Command.Simulator
import SC32.Proofs.Command.AllOrNothing
import SC32.Proofs.Machine.ObservedRun
import SC32.Proofs.Machine.SnapshotRows
import SC32.Proofs.MachineCode.RoundTrip

/-!
# From source to final state through a file

The simulator command runs a machine that it has loaded from a file, and its exit code and what it
prints depend on nothing but that run. Since machine code is read as it has been written, the
assembler and then the simulator on its output run the machine into which the words of the source
are loaded directly. Main statements: what the simulator does with a text, which text it prints, and
what the two commands do with a source.
-/
namespace SC32.Command

open Text Assembly

namespace Simulator

/-- The capacity of the memory in words. -/
def Settings.memorySize (s : Settings) : Nat := s.capacity.getD Machine.defaultCapacity

/-! ### What is printed -/

/-- The title over the run of a file. -/
def titleText (path : String) : String :=
  "SC32 Simulator\n+-----------------------------------------------+\n| " ++
    String.ofList (path.toList.rightpad 45 ' ') ++
    " |\n+-----------------------------------------------+\n"

/-- A line that begins with a warning, in yellow. -/
def warningText (s : String) : String :=
  "\x1b[33m\x1b[1mwarn\x1b[39m\x1b[22m: " ++ s ++ "\n"

/-- The warning that a memory has no room for some of the words. -/
def overflowText (discarded capacity : Nat) : String :=
  warningText ("Memory overflow: ignored " ++ discarded.repr ++ " additional words (capacity " ++
    capacity.repr ++ ")")

/-- What stands over the last snapshot. -/
def totalText (executed : Nat) : String :=
  "=================================================\nfinal state of machine:\ntotal of " ++
    executed.repr ++ " instructions executed\n"

/-- The warning that a run has not ended by itself. -/
def limitText : String := warningText "step limit reached before halt"

/-- What is printed about a run: what the hooks say, and `snapshot` with the total of the machine
that the run ends with. -/
def runText (output : List String) (final : Machine) (snapshot : String) : String :=
  "[INIT]\n" ++ String.join output ++ (totalText final.executed ++ snapshot) ++
    if final.exit = none then limitText else ""

theorem block_nil : block [] = "" := rfl

theorem block_banner (path : String) : block (banner path) = titleText path := by
  have hborder : "+" ++ rule 47 '-' ++ "+" =
      "+-----------------------------------------------+" := by decide
  have htop : "SC32 Simulator\n+-----------------------------------------------+\n| " =
      "SC32 Simulator" ++ "\n" ++ ("+-----------------------------------------------+" ++ "\n") ++
        "| " := by decide +kernel
  have hbottom : " |\n+-----------------------------------------------+\n" =
      " |" ++ "\n" ++ ("+-----------------------------------------------+" ++ "\n") := by
    decide +kernel
  unfold titleText
  rw [htop, hbottom]
  simp only [banner, hborder, alignLeft, block_cons, block_nil, String.append_assoc,
    String.append_empty]

theorem block_warningLine (s : String) : block [warningLine s] = warningText s := by
  have hwarn : bold .yellow "warn" ++ ": " = "\x1b[33m\x1b[1mwarn\x1b[39m\x1b[22m: " := by
    decide +kernel
  rw [block_cons, block_nil, String.append_empty, warningLine, hwarn]
  rfl

theorem block_overflow (d c : Nat) :
    block ([LoadWarning.overflow d c].map fun e => warningLine e.message) = overflowText d c :=
  block_warningLine _

theorem summary_eq (m : Machine) : summary m = totalText m.executed ++ m.snapshot := by
  have hrule : rule 49 '=' ++ "\nfinal state of machine:\ntotal of " =
      "=================================================\nfinal state of machine:\ntotal of " := by
    decide +kernel
  rw [summary, hrule]
  rfl

theorem block_verdict (exit : Option Exit) :
    block (verdict exit).2 = if exit = none then limitText else "" := by
  rcases exit with _ | _ | _
  · exact block_warningLine _
  · rfl
  · rfl

section

variable {disk : Disk} {args : List String} {s : Settings} {d : Desk} {text : String}

theorem run_simulate (hwatch : s.watch = none) (m : Machine) (d : Desk) :
    let r := m.run [Report.hook (! s.quiet)] s.budget
    (simulate s m : DiskM disk _).run d =
      ((verdict r.final.exit).1, d.print (runText r.output r.final r.final.snapshot)) := by
  simp only [simulate, hwatch, watchHooks, DiskM.run_bind, DiskM.run_say, DiskM.run_pure,
    DiskM.run_print, DiskM.run_sayAll, Desk.print_print, summary_eq, block_verdict]
  rfl

theorem run_command (hargs : grammar.parse .default args = .run s)
    (hread : disk.read d.files s.inputPath = .ok text) (h : addressable s.memorySize = true) :
    let m := Machine.blank s.memorySize
    (command args : DiskM disk _).run d = (simulate s (m.loadText text) : DiskM disk _).run
      (d.print (titleText s.inputPath ++
        block ((m.loadWarnings text).map fun e => warningLine e.message))) := by
  unfold Settings.memorySize at h
  simp only [command, hargs, run, DiskM.run_bind, DiskM.run_sayAll, DiskM.run_read,
    Desk.files_print, hread, h, if_true, Desk.print_print, block_banner, Settings.memorySize]

/-- A memory that has no addresses is not made. -/
theorem run_command_of_not_addressable (hargs : grammar.parse .default args = .run s)
    (hread : disk.read d.files s.inputPath = .ok text) (h : addressable s.memorySize = false) :
    (command args : DiskM disk _).run d = (101, d.print (titleText s.inputPath)) := by
  unfold Settings.memorySize at h
  simp only [command, hargs, run, DiskM.run_bind, DiskM.run_sayAll, DiskM.run_read,
    Desk.files_print, hread, h, Bool.false_eq_true, if_false, DiskM.run_pure, block_banner]

theorem verdict_fst (exit : Option Exit) :
    (verdict exit).1 = if exit = some .halted then 0 else 1 := by
  rcases exit with _ | _ | _ <;> rfl

end

/-- Where a run without hooks ends, of a machine into which words are loaded directly. -/
def Settings.direct (s : Settings) (ws : List Word) : Machine :=
  (((Machine.blank s.memorySize).load ws).run ([] : List (Hook String)) s.budget).final

/-- The run of that machine under the report. -/
def Settings.reported (s : Settings) (ws : List Word) : Run String :=
  ((Machine.blank s.memorySize).load ws).run [Report.hook (! s.quiet)] s.budget

theorem final_reported (s : Settings) (ws : List Word) : (s.reported ws).final = s.direct ws :=
  Machine.final_observers [.report (! s.quiet)] s.budget _

theorem loaded_le_direct (s : Settings) (ws : List Word) :
    (s.direct ws).loaded ≤ (s.direct ws).capacity := by
  have hnone : ((Machine.blank s.memorySize).load ws).exit = none := rfl
  rw [Settings.direct, Machine.run_of_observes (List.forall_mem_nil _) hnone,
    Machine.loaded_steps, Machine.capacity_steps, Machine.loaded_load, Machine.capacity_load]
  exact Nat.min_le_right _ _

/-- What is printed before the run: the title, and one warning if not all words can be loaded. -/
def openingText (s : Settings) (ws : List Word) : String :=
  titleText s.inputPath ++ if ws.length ≤ s.memorySize then "" else
    overflowText (ws.length - s.memorySize) s.memorySize

/-- The command has run the words in memory, and tells how that ended: with the total and the
snapshot of the final state, behind what the report says of the steps. -/
structure Simulates (disk : Disk) (s : Settings) (ws : List Word) (d : Desk) (r : Nat × Desk) :
    Prop where
  files : r.2.files = d.files
  simulated (h : 4 * s.memorySize < 2 ^ 63) :
    r = (simulate s ((Machine.blank s.memorySize).load ws) : DiskM disk _).run
      (d.print (openingText s ws))
  final : (s.reported ws).final = s.direct ws
  code (h : 4 * s.memorySize < 2 ^ 63) :
    r.1 = if (s.direct ws).exit = some .halted then 0 else 1
  printed (h : 4 * s.memorySize < 2 ^ 63) : ∃ rows : Machine.SnapshotRows,
    rows.Show (s.direct ws) ∧
    r.2.printed = d.printed ++ openingText s ws ++
      runText (s.reported ws).output (s.direct ws) rows.text
  /-- Such a memory has bytes without an address. -/
  unmade (h : 2 ^ 63 ≤ 4 * s.memorySize) :
    r.1 = 101 ∧ r.2.printed = d.printed ++ titleText s.inputPath

section

variable {disk : Disk} {args : List String} {s : Settings} {d : Desk} {ws : List Word}

/-- Machine code is loaded as the words that it was written from. -/
theorem run_command_render (hargs : grammar.parse .default args = .run s)
    (hread : disk.read d.files s.inputPath = .ok (MachineCode.render ws))
    (h : addressable s.memorySize = true) :
    (command args : DiskM disk _).run d =
      (simulate s ((Machine.blank s.memorySize).load ws) : DiskM disk _).run
        (d.print (openingText s ws)) := by
  have hwarnings : block (((Machine.blank s.memorySize).loadWarnings
      (MachineCode.render ws)).map fun e => warningLine e.message) =
      if ws.length ≤ s.memorySize then "" else
        overflowText (ws.length - s.memorySize) s.memorySize := by
    rw [Machine.loadWarnings_render, Machine.capacity_blank]
    split
    · rfl
    · exact block_overflow _ _
  rw [run_command hargs hread h, hwarnings, Machine.loadText, MachineCode.words_render]
  rfl

theorem run_simulate_load (hwatch : s.watch = none) (ws : List Word) (d : Desk) :
    (simulate s ((Machine.blank s.memorySize).load ws) : DiskM disk _).run d =
      ((verdict (s.direct ws).exit).1,
        d.print (runText (s.reported ws).output (s.direct ws) (s.direct ws).snapshot)) := by
  rw [run_simulate hwatch, ← final_reported]
  rfl

theorem simulates (hargs : grammar.parse .default args = .run s) (hwatch : s.watch = none)
    (hread : disk.read d.files s.inputPath = .ok (MachineCode.render ws)) :
    Simulates disk s ws d ((command args : DiskM disk _).run d) where
  files := by
    cases h : addressable s.memorySize with
    | true => rw [run_command_render hargs hread h, run_simulate_load hwatch, Desk.files_print,
        Desk.files_print]
    | false => rw [run_command_of_not_addressable hargs hread h, Desk.files_print]
  simulated h := run_command_render hargs hread (decide_eq_true h)
  final := final_reported s ws
  code h := by
    rw [run_command_render hargs hread (decide_eq_true h), run_simulate_load hwatch, verdict_fst]
  printed h := by
    obtain ⟨rows, hsnapshot, hrows⟩ := Machine.exists_snapshotRows (loaded_le_direct s ws)
    refine ⟨rows, hrows, ?_⟩
    rw [run_command_render hargs hread (decide_eq_true h), run_simulate_load hwatch, hsnapshot,
      Desk.print, Desk.print]
  unmade h := by
    rw [run_command_of_not_addressable hargs hread (decide_eq_false (Nat.not_lt.mpr h))]
    exact ⟨rfl, rfl⟩

end

end Simulator

/-- The simulator on the output of the assembler runs the machine that has the words of the source
in its memory, however they come there. -/
theorem assemble_then_simulate (disk : Disk) {args args' : List String} {s : Assembler.Settings}
    {s' : Simulator.Settings} (hargs : Assembler.grammar.parse .default args = .run s)
    (hargs' : Simulator.grammar.parse .default args' = .run s') (hwatch : s'.watch = none)
    {d d₁ : Desk} {code : Nat} {text name : String} {ws : List Word}
    (hread : disk.read d.files s.inputPath = .ok text) (hws : assemble (lines text) = .ok ws)
    (hout : disk.file? s.outputPath = some name)
    (hsaves : disk.Saves d.files s.outputPath (MachineCode.render ws))
    (hin : disk.file? s'.inputPath = some name)
    (hfirst : (Assembler.command args : DiskM disk _).run d = (code, d₁))
    (hagain : ∃ text', disk.read d₁.files s'.inputPath = .ok text') :
    code = 0 ∧
      Simulator.Simulates disk s' ws d₁ ((Simulator.command args' : DiskM disk _).run d₁) := by
  have hattempted := Assembler.command_of_assemble hargs hread hws
  rw [hfirst] at hattempted
  obtain ⟨hsaved, ⟨-, hcode⟩ | ⟨hnot, -⟩⟩ := hattempted
  · obtain ⟨text', hread'⟩ := hagain
    have htext : text' = MachineCode.render ws := by
      rw [hsaved] at hread'
      exact Disk.read_of_saves hout hsaves hin hread'
    rw [htext] at hread'
    exact ⟨hcode, Simulator.simulates hargs' hwatch hread'⟩
  · exact absurd hsaves hnot

/-- A source of three words, assembled beside an older output. -/
def assembled : Nat × Desk :=
  (Assembler.command ["-o", "out.mc", "prog.as"] : DeskM Nat).run
    (Assembler.stale "halt\nnoop\n.fill 5\n")

/-- The output, simulated with a memory of two words. -/
def simulated : Nat × Desk :=
  (Simulator.command ["-m", "2", "-t9", "-q", "out.mc"] : DeskM Nat).run assembled.2

theorem assemble_then_simulate_overflowing :
    assembled.1 = 0 ∧ simulated.1 = 0 ∧ simulated.2.files = assembled.2.files ∧
    (∃ rows : Machine.SnapshotRows,
      rows.Show ((Machine.blank 2).load [0x1800000, 0x1C00000]).step.2 ∧
      simulated.2.printed = assembled.2.printed ++
        (Simulator.titleText "out.mc" ++ Simulator.overflowText 1 2) ++
        Simulator.runText ["\x1b[32m\x1b[1mmachine halted\x1b[39m\x1b[22m\n"]
          ((Machine.blank 2).load [0x1800000, 0x1C00000]).step.2 rows.text) ∧
    simulated.2.printed = assembled.2.printed ++ String.join [
      "SC32 Simulator\n",
      "+-----------------------------------------------+\n",
      "| out.mc                                        |\n",
      "+-----------------------------------------------+\n",
      "\x1b[33m\x1b[1mwarn\x1b[39m\x1b[22m: ",
      "Memory overflow: ignored 1 additional words (capacity 2)\n",
      "[INIT]\n",
      "\x1b[32m\x1b[1mmachine halted\x1b[39m\x1b[22m\n",
      "=================================================\n",
      "final state of machine:\n",
      "total of 1 instructions executed\n",
      "@@@\nstate:\n\tpc 1\n",
      "\tmemory:\n\tmem[  0 ] 25165824\n\tmem[  1 ] 29360128\n",
      "\tregisters:\n\treg[  0 ] 0\n\treg[  1 ] 0\n\treg[  2 ] 0\n\treg[  3 ] 0\n",
      "\treg[  4 ] 0\n\treg[  5 ] 0\n\treg[  6 ] 0\n\treg[  7 ] 0\n",
      "\tnumMemory: 2\nend state\n"] := by
  have hfirst : (Assembler.command ["-o", "out.mc", "prog.as"] : DiskM FileSystem.disk _).run
      (Assembler.stale "halt\nnoop\n.fill 5\n") = (assembled.1, assembled.2) :=
    (FileSystem.run_eq (fun m => Assembler.command (m := m) _) _).symm
  have hsecond : simulated = (Simulator.command ["-m", "2", "-t9", "-q", "out.mc"] :
      DiskM FileSystem.disk _).run assembled.2 :=
    FileSystem.run_eq (fun m => Simulator.command (m := m) _) _
  have hread : FileSystem.disk.read (Assembler.stale "halt\nnoop\n.fill 5\n").files "prog.as" =
      .ok "halt\nnoop\n.fill 5\n" := by decide +kernel
  have hws : assemble (lines "halt\nnoop\n.fill 5\n") = .ok [0x1800000, 0x1C00000, 5] := by
    decide +kernel
  have hname : FileSystem.disk.file? "out.mc" = some "out.mc" := by decide +kernel
  have hsaves : FileSystem.disk.Saves (Assembler.stale "halt\nnoop\n.fill 5\n").files "out.mc"
      (MachineCode.render [0x1800000, 0x1C00000, 5]) := by
    constructor
    · decide +kernel
    · decide +kernel
  have hagain : FileSystem.disk.read assembled.2.files "out.mc" =
      .ok "25165824\n29360128\n5\n" := by decide +kernel
  have hargs : Assembler.grammar.parse .default ["-o", "out.mc", "prog.as"] =
      .run ⟨some "prog.as", some "out.mc", false⟩ := rfl
  have hargs' : Simulator.grammar.parse .default ["-m", "2", "-t9", "-q", "out.mc"] =
      .run ⟨some "out.mc", some 9, some 2, true, none⟩ := rfl
  obtain ⟨hcode, h⟩ := assemble_then_simulate FileSystem.disk hargs hargs' rfl hread hws hname
    hsaves hname hfirst ⟨_, hagain⟩
  rw [← hsecond] at h
  have hdirect : Simulator.Settings.direct ⟨some "out.mc", some 9, some 2, true, none⟩
      [0x1800000, 0x1C00000, 5] = ((Machine.blank 2).load [0x1800000, 0x1C00000]).step.2 := by
    decide +kernel
  have houtput : (Simulator.Settings.reported ⟨some "out.mc", some 9, some 2, true, none⟩
      [0x1800000, 0x1C00000, 5]).output =
        ["\x1b[32m\x1b[1mmachine halted\x1b[39m\x1b[22m\n"] := by decide +kernel
  obtain ⟨rows, hrows, hprinted⟩ := h.printed (by decide)
  rw [hdirect] at hrows hprinted
  rw [houtput] at hprinted
  refine ⟨hcode, ?_, h.files, ⟨rows, hrows, hprinted⟩, ?_⟩
  · rw [h.code (by decide), hdirect]
    decide +kernel
  · decide +kernel

end SC32.Command
