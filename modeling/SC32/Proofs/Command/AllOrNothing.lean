import SC32.Command.Assembler
import SC32.Proofs.Assembly.FirstFault
import SC32.Proofs.Command.Disk

/-!
# What the assembler leaves on a disk

The assembler command writes its output after both passes. So a source that is no text or has a
fault leaves every file as it is, and otherwise at most the output is another file than before, and
holds all words when the command succeeds. Main statements: what each part of the command does to
the files, and the exit code and the files of the whole.
-/
namespace SC32.Command.Assembler

open Text Assembly

/-- There is no machine code for the source in a file. -/
inductive Unusable (disk : Disk) (files : FileSystem) (path : String) : Prop where
  | unreadable {e : FileFault} (h : disk.read files path = .error e)
  | notText {name : String} {bytes : ByteArray} (hn : disk.file? path = some name)
    (hbytes : files name = some bytes) (h : String.fromUTF8? bytes = none)
  | redefined {text l : String} {i j : Nat} (h : disk.read files path = .ok text) (hij : i < j)
    (hi : Labels (lines text) i l) (hj : Labels (lines text) j l)
  | faulty {text : String} {t : SymbolTable} {i : Nat} {e : Fault}
    (h : disk.read files path = .ok text) (ht : Agrees t (lines text))
    (he : Fails (lines text) t i e)

/-- The output is written as a whole, or the command fails and no other file is written. -/
structure AllOrNothing (disk : Disk) (s : Settings) (d : Desk) (r : Nat × Desk) : Prop where
  unusable (h : Unusable disk d.files s.inputPath) : r.1 = 1 ∧ r.2.files = d.files
  usable (h : ¬ Unusable disk d.files s.inputPath) :
    ∃ text ws, disk.read d.files s.inputPath = .ok text ∧ assemble (lines text) = .ok ws
  written {text : String} {ws : List Word} (hread : disk.read d.files s.inputPath = .ok text)
    (hws : assemble (lines text) = .ok ws)
    (h : disk.Saves d.files s.outputPath (MachineCode.render ws)) :
    r.1 = 0 ∧ r.2.files = ((disk.file? s.outputPath).map fun name =>
      d.files.put name (MachineCode.render ws).toUTF8).getD d.files
  unwritten {text : String} {ws : List Word} (hread : disk.read d.files s.inputPath = .ok text)
    (hws : assemble (lines text) = .ok ws)
    (h : ¬ disk.Saves d.files s.outputPath (MachineCode.render ws)) :
    r.1 = 1 ∧ ∀ n, disk.file? s.outputPath ≠ some n → r.2.files n = d.files n

variable {disk : Disk}

/-- A command has tried to save a text, and its exit code tells with what success. -/
structure Attempted (disk : Disk) (files : FileSystem) (path text : String) (r : Nat × Desk) :
    Prop where
  saved : r.2.files = disk.saved files path text
  code : disk.Saves files path text ∧ r.1 = 0 ∨ ¬ disk.Saves files path text ∧ r.1 = 1

/-- A text is saved, or there is a complaint. -/
theorem run_save (disk : Disk) (path text : String) (d : Desk) :
    ((save path text : DiskM disk _).run d).2.files = disk.saved d.files path text ∧
      (((save path text : DiskM disk _).run d).1 = .ok () ↔ disk.Saves d.files path text) := by
  rw [save, DiskM.run_bind, DiskM.run_create, Disk.saved, Disk.Saves]
  cases (disk.create d.files path).1 with
  | error e => simp
  | ok u =>
    simp only [DiskM.run_bind, DiskM.run_write, Desk.files_keep]
    cases (disk.write (disk.create d.files path).2 path text).1 with
    | error e => simp
    | ok u => simp

theorem run_finish (disk : Disk) (s : Settings) (source : List String) (t : SymbolTable)
    (ws : List Word) (d : Desk) :
    Attempted disk d.files s.outputPath (MachineCode.render ws)
      ((finish s source t ws : DiskM disk _).run d) := by
  have hsave := run_save disk s.outputPath (MachineCode.render ws)
    (d.print ("  > " ++ s.outputPath ++ "\n"))
  rw [Desk.files_print] at hsave
  simp only [finish, DiskM.run_bind, DiskM.run_say]
  generalize (save s.outputPath (MachineCode.render ws) : DiskM disk _).run _ = r at hsave
  obtain ⟨answer, d'⟩ := r
  obtain ⟨hfiles, hanswer⟩ := hsave
  cases answer with
  | error complaint =>
    have hsaves : ¬ disk.Saves d.files s.outputPath (MachineCode.render ws) := by
      rw [← hanswer]
      simp
    exact ⟨by simpa using hfiles, .inr ⟨hsaves, rfl⟩⟩
  | ok u =>
    have hsaves := hanswer.mp rfl
    cases s.listing with
    | true => exact ⟨by simpa using hfiles, .inl ⟨hsaves, rfl⟩⟩
    | false => exact ⟨by simpa using hfiles, .inl ⟨hsaves, rfl⟩⟩

theorem run_process_ok {source : List String} {ws : List Word} (h : assemble source = .ok ws)
    (s : Settings) (d : Desk) :
    Attempted disk d.files s.outputPath (MachineCode.render ws)
      ((process s source : DiskM disk _).run d) := by
  obtain ⟨t, ht, hws⟩ := (bind_eq_ok_iff _ _ _).mp h
  have hfinish (d' : Desk) (hd : d'.files = d.files) :=
    hd ▸ run_finish disk s source t ws d'
  simp only [process, DiskM.run_bind, DiskM.run_say, ht, hws]
  exact hfinish _ rfl

/-- A source that does not assemble leaves the files as they are. -/
theorem run_process_error {source : List String} {f : LineFault} (h : assemble source = .error f)
    (s : Settings) (d : Desk) :
    ((process s source : DiskM disk _).run d).1 = 1 ∧
      ((process s source : DiskM disk _).run d).2.files = d.files := by
  simp only [process, DiskM.run_bind, DiskM.run_say]
  obtain ht | ⟨t, ht, hws⟩ := (bind_eq_error_iff _ _ _).mp h
  · simp [ht]
  · simp [ht, hws]

/-! ### Sources without machine code -/

theorem not_fails_of_emit {source : List String} {t : SymbolTable} {ws : List Word}
    (h : emit t source = .ok ws) (i : Nat) (e : Fault) : ¬ Fails source t i e := by
  rintro ⟨l, hl, he⟩
  have hp := (mem_place_iff source ⟨i, addressOf source i, l⟩).mpr ⟨hl, rfl⟩
  obtain ⟨w, hw⟩ := (exists_mapM_iff _ _).mp ⟨ws, h⟩ _ hp
  rw [(placed_word_eq_error_iff t _ i e).mpr ⟨rfl, he⟩] at hw
  cases hw

theorem not_unusable {disk : Disk} {files : FileSystem} {path text : String} {ws : List Word}
    (hread : disk.read files path = .ok text) (h : assemble (lines text) = .ok ws) :
    ¬ Unusable disk files path := by
  obtain ⟨t, ht, hws⟩ := (bind_eq_ok_iff _ _ _).mp h
  intro hunusable
  cases hunusable with
  | unreadable he =>
    rw [hread] at he
    cases he
  | notText hn hbytes hnot =>
    have htext := disk.read_file hn hread
    rw [hbytes, Option.bind_some, hnot] at htext
    cases htext
  | @redefined text' l i j hread' hij hi hj =>
    cases hread.symm.trans hread'
    have hlength : j < (lines text).length := by
      obtain ⟨line, hline, -⟩ := (labels_iff _ j l).mp hj
      exact hline.lt_length
    exact (exists_table_iff _).mp ⟨t, ht⟩ j hlength i hij l hj hi
  | faulty hread' ht' he =>
    cases hread.symm.trans hread'
    exact not_fails_of_emit hws _ _ ((fails_congr ht' (agrees_of_collect ht) _ _).mpr he)

/-- A source has machine code, unless a label is defined twice or a line has a fault. -/
theorem unusable_iff (disk : Disk) (files : FileSystem) (path : String) :
    Unusable disk files path ↔
      ¬ ∃ text ws, disk.read files path = .ok text ∧ assemble (lines text) = .ok ws := by
  constructor
  · rintro h ⟨text, ws, hread, hws⟩
    exact not_unusable hread hws h
  · intro h
    cases hread : disk.read files path with
    | error e => exact .unreadable hread
    | ok text =>
      cases hf : assemble (lines text) with
      | ok ws => exact absurd ⟨text, ws, hread, hf⟩ h
      | error f =>
        obtain ⟨i, e⟩ := f
        cases (assemble_eq_error_iff _ i e).mp hf with
        | redefined h => exact .redefined hread h.earlier h.first h.again
        | own _ ht he => exact .faulty hread ht he

/-! ### The command -/

section

variable {args : List String} {s : Settings} (hargs : grammar.parse .default args = .run s)
include hargs

theorem run_command_error {d : Desk} {e : FileFault}
    (hread : disk.read d.files s.inputPath = .error e) :
    ((command args : DiskM disk _).run d).1 = 1 ∧
      ((command args : DiskM disk _).run d).2.files = d.files := by
  simp [command, hargs, run, hread]

theorem run_command_ok {d : Desk} {text : String}
    (hread : disk.read d.files s.inputPath = .ok text) :
    ∃ d' : Desk, d'.files = d.files ∧
      (command args : DiskM disk _).run d = (process s (lines text) : DiskM disk _).run d' := by
  simp only [command, hargs, run, DiskM.run_bind, DiskM.run_say, DiskM.run_read, Desk.files_print,
    hread]
  refine ⟨_, ?_, rfl⟩
  rfl

theorem command_of_assemble {d : Desk} {text : String} {ws : List Word}
    (hread : disk.read d.files s.inputPath = .ok text) (hws : assemble (lines text) = .ok ws) :
    Attempted disk d.files s.outputPath (MachineCode.render ws)
      ((command args : DiskM disk _).run d) := by
  obtain ⟨d', hfiles, hrun⟩ := run_command_ok hargs hread
  rw [hrun, ← hfiles]
  exact run_process_ok hws s d'

theorem command_of_unusable {d : Desk} (h : Unusable disk d.files s.inputPath) :
    ((command args : DiskM disk _).run d).1 = 1 ∧
      ((command args : DiskM disk _).run d).2.files = d.files := by
  cases hread : disk.read d.files s.inputPath with
  | error e => exact run_command_error hargs hread
  | ok text =>
    cases hf : assemble (lines text) with
    | ok ws => exact absurd h (not_unusable hread hf)
    | error f =>
      obtain ⟨d', hfiles, hrun⟩ := run_command_ok hargs hread
      rw [hrun, ← hfiles]
      exact run_process_error hf s d'

end

/-- Whatever the disk, the files and the source are, the assembler writes the whole output or leaves
all other files as they are, and its exit code tells which. -/
theorem command_all_or_nothing (disk : Disk) (args : List String) (s : Settings)
    (hargs : grammar.parse .default args = .run s) (d : Desk) :
    AllOrNothing disk s d ((command args : DiskM disk _).run d) := by
  constructor
  case unusable => exact command_of_unusable hargs
  case usable =>
    intro h
    rwa [unusable_iff, not_not] at h
  case written =>
    intro text ws hread hws hsaves
    obtain ⟨hsaved, ⟨-, hcode⟩ | ⟨hnot, -⟩⟩ := command_of_assemble hargs hread hws
    · refine ⟨hcode, ?_⟩
      rw [hsaved]
      cases hname : disk.file? s.outputPath with
      | none => exact Disk.saved_of_none _ _ hname
      | some name => exact Disk.saved_of_saves hname hsaves
    · exact absurd hsaves hnot
  case unwritten =>
    intro text ws hread hws hnot
    obtain ⟨hsaved, ⟨hsaves, -⟩ | ⟨-, hcode⟩⟩ := command_of_assemble hargs hread hws
    · exact absurd hsaves hnot
    · refine ⟨hcode, ?_⟩
      intro n hn
      rw [hsaved]
      exact Disk.saved_other _ _ hn

/-- A source, with an output that is left from another one. -/
def stale (source : String) : Desk :=
  ⟨(FileSystem.empty.put "prog.as" source.toUTF8).put "out.mc" "7\n".toUTF8, ""⟩

/-- What assembling it comes to. -/
def renewed (source : String) : Nat × Desk :=
  (command ["-d", "-o", "out.mc", "prog.as"] : DeskM Nat).run (stale source)

/-- A label that is defined twice leaves the old output, and two good lines replace it. -/
theorem command_all_or_nothing_stale :
    ((renewed "a noop\na halt\n").1 = 1 ∧
      (renewed "a noop\na halt\n").2.files = (stale "a noop\na halt\n").files) ∧
    (renewed "noop\nhalt\n").1 = 0 ∧ (renewed "noop\nhalt\n").2.files =
      (stale "noop\nhalt\n").files.put "out.mc" "29360128\n25165824\n".toUTF8 := by
  have h (source : String) := command_all_or_nothing FileSystem.disk
    ["-d", "-o", "out.mc", "prog.as"] ⟨some "prog.as", some "out.mc", true⟩ rfl (stale source)
  have hrun (source : String) : renewed source =
      (command ["-d", "-o", "out.mc", "prog.as"] : DiskM FileSystem.disk _).run (stale source) :=
    FileSystem.run_eq (fun m => command (m := m) _) _
  rw [hrun, hrun]
  constructor
  · have hread : FileSystem.disk.read (stale "a noop\na halt\n").files "prog.as" =
        .ok "a noop\na halt\n" := by decide +kernel
    have hlines : lines "a noop\na halt\n" = ["a noop", "a halt"] := by decide +kernel
    have hfirst : Labels (lines "a noop\na halt\n") 0 "a" := by
      rw [hlines]
      exact ⟨"a noop", rfl, rfl, rfl⟩
    have hagain : Labels (lines "a noop\na halt\n") 1 "a" := by
      rw [hlines]
      exact ⟨"a halt", rfl, rfl, rfl⟩
    exact (h _).unusable (.redefined hread Nat.zero_lt_one hfirst hagain)
  · have hread : FileSystem.disk.read (stale "noop\nhalt\n").files "prog.as" =
        .ok "noop\nhalt\n" := by decide +kernel
    have hws : assemble (lines "noop\nhalt\n") = .ok [0x1C00000, 0x1800000] := by decide +kernel
    have hrender : MachineCode.render [0x1C00000, 0x1800000] = "29360128\n25165824\n" := by
      decide +kernel
    have hsaves : FileSystem.disk.Saves (stale "noop\nhalt\n").files "out.mc"
        (MachineCode.render [0x1C00000, 0x1800000]) := by
      constructor
      · decide +kernel
      · decide +kernel
    have hname : FileSystem.disk.file? "out.mc" = some "out.mc" := by decide +kernel
    obtain ⟨hcode, hfiles⟩ := (h _).written hread hws hsaves
    refine ⟨hcode, hfiles.trans ?_⟩
    rw [Settings.outputPath, Option.getD_some, hname, hrender, Option.map_some, Option.getD_some]

end SC32.Command.Assembler
