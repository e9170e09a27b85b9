import Mathlib.Tactic.Common
import SC32.Command.FileSystem
import SC32.Command.Message
import SC32.Proofs.Outcome

/-!
# Disks

What may be relied on when files are read and written, and no more: any request may be refused, and
writing may stop in the middle of a file, but no request touches a file that it does not name. The
host that keeps files as a map from names to contents is one of these. Main statements: what the
requests of a command do, and that this host runs commands as its disk does.
-/
namespace SC32.Command

/-- How the files of a system answer requests. -/
structure Disk where
  /-- The file that a path leads to, or that would be made there. -/
  file? : String → Option String
  read : FileSystem → String → Except FileFault String
  create : FileSystem → String → Except FileFault Unit × FileSystem
  write : FileSystem → String → String → Except FileFault Unit × FileSystem
  /-- What is printed when a text is written; some paths lead to a screen. -/
  shown : FileSystem → String → String → String
  /-- What is read from a file is the text that its bytes are in UTF-8. -/
  read_file {files : FileSystem} {path name text : String} (hn : file? path = some name)
    (h : read files path = .ok text) : (files name).bind String.fromUTF8? = some text
  /-- A file that is created is empty, whatever was in it. -/
  create_file {files : FileSystem} {path name : String} (hn : file? path = some name)
    (h : (create files path).1 = .ok ()) : (create files path).2 = files.put name .empty
  create_other (files : FileSystem) {path n : String} (hn : file? path ≠ some n) :
    (create files path).2 n = files n
  /-- An empty file to which a text is written without a fault holds that text. -/
  write_file {files : FileSystem} {path name text : String} (hn : file? path = some name)
    (hempty : files name = some .empty) (h : (write files path text).1 = .ok ()) :
    (write files path text).2 = files.put name text.toUTF8
  write_other (files : FileSystem) {path n : String} (text : String) (hn : file? path ≠ some n) :
    (write files path text).2 n = files n

theorem fromUTF8?_toUTF8 (s : String) : String.fromUTF8? s.toUTF8 = some s :=
  dif_pos s.isValidUTF8

namespace FileSystem

@[simp] theorem put_put (fs : FileSystem) (name : String) (a b : ByteArray) :
    (fs.put name a).put name b = fs.put name b := by
  funext n
  unfold put
  split <;> rfl

end FileSystem

namespace Disk

variable (disk : Disk)

/-- The files after a text has been saved, or after the attempt. -/
def saved (files : FileSystem) (path text : String) : FileSystem :=
  match (disk.create files path).1 with
  | .ok _ => (disk.write (disk.create files path).2 path text).2
  | .error _ => (disk.create files path).2

/-- The file can be made, and the text can then be written to it. -/
def Saves (files : FileSystem) (path text : String) : Prop :=
  (disk.create files path).1 = .ok () ∧ (disk.write (disk.create files path).2 path text).1 = .ok ()

variable {disk}

theorem saved_other (files : FileSystem) {path n : String} (text : String)
    (hn : disk.file? path ≠ some n) : disk.saved files path text n = files n := by
  have hcreate := disk.create_other files hn
  unfold saved
  cases (disk.create files path).1 with
  | ok => exact (disk.write_other _ text hn).trans hcreate
  | error => exact hcreate

/-- What is saved to a path that leads to no file leaves all files alone. -/
theorem saved_of_none (files : FileSystem) {path : String} (text : String)
    (hn : disk.file? path = none) : disk.saved files path text = files := by
  funext n
  exact saved_other files text (by simp [hn])

/-- A file holds the text that has been saved to it, and nothing else. -/
theorem saved_of_saves {files : FileSystem} {path name text : String}
    (hn : disk.file? path = some name) (h : disk.Saves files path text) :
    disk.saved files path text = files.put name text.toUTF8 := by
  obtain ⟨hcreate, hwrite⟩ := h
  have hmade := disk.create_file hn hcreate
  have hempty : (disk.create files path).2 name = some ByteArray.empty := by
    rw [hmade, FileSystem.put_same]
  have hfile := disk.write_file hn hempty hwrite
  simp only [saved, hcreate]
  rw [hfile, hmade, FileSystem.put_put]

/-- What is read from a file to which a text has been saved is that text. -/
theorem read_of_saves {files : FileSystem} {path path' name text text' : String}
    (hout : disk.file? path = some name) (hsaves : disk.Saves files path text)
    (hin : disk.file? path' = some name)
    (h : disk.read (disk.saved files path text) path' = .ok text') : text' = text := by
  have hread := disk.read_file hin h
  rw [saved_of_saves hout hsaves, FileSystem.put_same, Option.bind_some, fromUTF8?_toUTF8] at hread
  exact (Option.some.inj hread).symm

end Disk

/-! ### Commands on a disk -/

/-- What a command does on the disk. -/
def DiskM (_ : Disk) (α : Type) : Type := StateM Desk α

namespace DiskM

variable {disk : Disk} {α β : Type}

instance : Monad (DiskM disk) := inferInstanceAs (Monad (StateM Desk))

def run (x : DiskM disk α) (d : Desk) : α × Desk := StateT.run (m := Id) x d

end DiskM

/-- With more text printed. -/
def Desk.print (d : Desk) (text : String) : Desk := { d with printed := d.printed ++ text }

/-- With other files. -/
def Desk.keep (d : Desk) (files : FileSystem) : Desk := { d with files := files }

instance (disk : Disk) : Host (DiskM disk) where
  read path := show StateM Desk _ from fun d => (disk.read d.files path, d)
  create path := show StateM Desk _ from fun d =>
    ((disk.create d.files path).1, d.keep (disk.create d.files path).2)
  write path text := show StateM Desk _ from fun d =>
    ((disk.write d.files path text).1,
      (d.print (disk.shown d.files path text)).keep (disk.write d.files path text).2)
  print text := show StateM Desk _ from fun d => ((), d.print text)

namespace Desk

@[simp] theorem files_print (d : Desk) (text : String) : (d.print text).files = d.files := rfl

@[simp] theorem files_keep (d : Desk) (files : FileSystem) : (d.keep files).files = files := rfl

@[simp] theorem print_print (d : Desk) (s t : String) : (d.print s).print t = d.print (s ++ t) := by
  simp [print, String.append_assoc]

@[simp] theorem print_empty (d : Desk) : d.print "" = d := by
  simp [print]

end Desk

/-- A text of these lines. -/
def block (ls : List String) : String := String.join (ls.map (· ++ "\n"))

theorem block_cons (l : String) (ls : List String) : block (l :: ls) = l ++ "\n" ++ block ls := by
  simp [block]

namespace DiskM

variable {disk : Disk} {α β : Type}

@[simp] theorem run_pure (a : α) (d : Desk) : (pure a : DiskM disk α).run d = (a, d) := rfl

@[simp] theorem run_bind (x : DiskM disk α) (f : α → DiskM disk β) (d : Desk) :
    (x >>= f).run d = (f (x.run d).1).run (x.run d).2 := rfl

@[simp] theorem run_read (path : String) (d : Desk) :
    (Host.read path : DiskM disk _).run d = (disk.read d.files path, d) := rfl

@[simp] theorem run_create (path : String) (d : Desk) :
    (Host.create path : DiskM disk _).run d =
      ((disk.create d.files path).1, d.keep (disk.create d.files path).2) := rfl

@[simp] theorem run_write (path text : String) (d : Desk) :
    (Host.write path text : DiskM disk _).run d =
      ((disk.write d.files path text).1,
        (d.print (disk.shown d.files path text)).keep (disk.write d.files path text).2) := rfl

@[simp] theorem run_print (text : String) (d : Desk) :
    (print text : DiskM disk _).run d = ((), d.print text) := rfl

@[simp] theorem run_say (line : String) (d : Desk) :
    (say line : DiskM disk _).run d = ((), d.print (line ++ "\n")) := rfl

@[simp] theorem run_sayAll (ls : List String) (d : Desk) :
    (sayAll ls : DiskM disk _).run d = ((), d.print (block ls)) := by
  induction ls generalizing d with
  | nil => exact Prod.ext rfl (Desk.print_empty d).symm
  | cons l ls ih =>
    have hcons : (sayAll (l :: ls) : DiskM disk Unit) = say l >>= fun _ => sayAll ls := rfl
    rw [hcons, run_bind, run_say, ih, Desk.print_print, block_cons]

end DiskM

/-! ### Files as a map -/

namespace FileSystem

/-- The file that stands under a name, or that would be made there. -/
def Entry.file? : Entry → Option String
  | .file name => some name
  | .vacant name => some name
  | _ => none

/-- What stands under a name that stands for `e` where there are no files. -/
def Entry.among (fs : FileSystem) : Entry → Entry
  | .vacant name => if (fs name).isSome then .file name else .vacant name
  | e => e

theorem Entry.file?_among (fs : FileSystem) (e : Entry) : (e.among fs).file? = e.file? := by
  cases e with
  | vacant name =>
    simp only [Entry.among]
    split <;> rfl
  | directory | device | file | unnamable => rfl

theorem Entry.eq_none_of_among {fs : FileSystem} {e : Entry} {name : String}
    (h : e.among fs = .vacant name) : fs name = none := by
  cases e with
  | vacant n =>
    simp only [Entry.among] at h
    split at h
    case isTrue => cases h
    case isFalse hn =>
      cases h
      exact Option.not_isSome_iff_eq_none.mp hn
  | directory | device | file | unnamable => cases h

theorem entryFor_eq (fs : FileSystem) (d : Directory) (name : String) :
    fs.entryFor d name = (empty.entryFor d name).among fs := by
  unfold entryFor
  dsimp only
  split
  · rfl
  · cases d with
    | work => rfl
    | system path =>
      dsimp only
      split
      · rfl
      · split <;> rfl

theorem walk_toOption (fs : FileSystem) (d : Directory) (names : List String) :
    (fs.walk d names).toOption = (empty.walk d names).toOption.map (Entry.among fs) := by
  induction names generalizing d with
  | nil => rfl
  | cons name rest ih =>
    unfold walk
    split
    · exact ih d
    · split
      · exact ih d.parent
      · split
        · rw [entryFor_eq]
          rfl
        · rw [entryFor_eq fs]
          cases empty.entryFor d name with
          | directory e => exact ih e
          | device | file | unnamable => rfl
          | vacant n =>
            -- A file on the way stops the walk like a name that stands for nothing.
            cases h : (fs n).isSome <;> simp [Entry.among, h] <;> rfl

/-- Where a path leads does not depend on the files, except that they are there or not. -/
theorem entry_toOption (fs : FileSystem) (path : String) :
    (fs.entry path).toOption = (empty.entry path).toOption.map (Entry.among fs) := by
  unfold entry
  split
  · rfl
  · split
    · rfl
    · exact walk_toOption fs _ _

/-- The file that a path leads to, or that would be made there. -/
def file? (path : String) : Option String := (empty.entry path).toOption.bind Entry.file?

theorem file?_eq (fs : FileSystem) (path : String) :
    file? path = (fs.entry path).toOption.bind Entry.file? := by
  rw [entry_toOption, file?]
  cases (empty.entry path).toOption with
  | none => rfl
  | some e => exact (Entry.file?_among fs e).symm

theorem eq_none_of_entry {fs : FileSystem} {path name : String}
    (h : fs.entry path = .ok (.vacant name)) : fs name = none := by
  have hoption := entry_toOption fs path
  rw [h] at hoption
  obtain ⟨e, -, he⟩ := Option.map_eq_some_iff.mp hoption.symm
  exact Entry.eq_none_of_among he

theorem read_eq_ok {fs : FileSystem} {path name text : String} (hn : file? path = some name)
    (h : fs.read path = .ok text) : (fs name).bind String.fromUTF8? = some text := by
  obtain ⟨e, he, h⟩ := (bind_eq_ok_iff _ _ _).mp h
  rw [file?_eq fs, he] at hn
  cases e with
  | directory | device | unnamable => cases hn
  | vacant n => cases h
  | file n =>
    cases hn
    dsimp only at h
    split at h
    · cases h
    · split at h
      case h_1 text' htext =>
        cases h
        exact htext
      case h_2 => cases h

theorem create_eq_ok {fs fs' : FileSystem} {path : String} (h : fs.create path = .ok fs') :
    fs' = ((file? path).map (fs.put · .empty)).getD fs := by
  obtain ⟨e, he, h⟩ := (bind_eq_ok_iff _ _ _).mp h
  rw [file?_eq fs, he]
  dsimp only at h
  split at h
  · cases h
  · cases e with
    | directory | unnamable => cases h
    | device | file | vacant =>
      cases h
      rfl

theorem create_other {fs fs' : FileSystem} {path n : String} (hn : file? path ≠ some n)
    (h : fs.create path = .ok fs') : fs' n = fs n := by
  rw [create_eq_ok h]
  cases hname : file? path with
  | none => rfl
  | some name => exact put_other fs name n _ (by rintro rfl; exact hn hname)

theorem write_file {fs fs' : FileSystem} {path name text : String} {bytes : ByteArray}
    (hn : file? path = some name) (hbytes : fs name = some bytes)
    (h : fs.write path text = .ok fs') : fs' = fs.put name text.toUTF8 := by
  obtain ⟨e, he, h⟩ := (bind_eq_ok_iff _ _ _).mp h
  rw [file?_eq fs, he] at hn
  cases e with
  | directory | unnamable | device => cases hn
  | vacant n =>
    cases hn
    rw [eq_none_of_entry he] at hbytes
    cases hbytes
  | file n =>
    cases hn
    cases h
    rfl

theorem write_other {fs fs' : FileSystem} {path n text : String} (hn : file? path ≠ some n)
    (h : fs.write path text = .ok fs') : fs' n = fs n := by
  obtain ⟨e, he, h⟩ := (bind_eq_ok_iff _ _ _).mp h
  rw [file?_eq fs, he] at hn
  cases e with
  | directory | vacant | unnamable =>
    cases h
    rfl
  | file name =>
    cases h
    exact put_other fs name n _ (by rintro rfl; exact hn rfl)
  | device d =>
    cases d with
    | sink | screen =>
      cases h
      rfl
    | full =>
      dsimp only at h
      split at h
      · cases h
        rfl
      · cases h

/-- The answer to a request, and the files after it. -/
def answered (fs : FileSystem) : Except FileFault FileSystem → Except FileFault Unit × FileSystem
  | .ok fs' => (.ok (), fs')
  | .error e => (.error e, fs)

theorem answered_ok {fs : FileSystem} {x : Except FileFault FileSystem}
    (h : (fs.answered x).1 = .ok ()) : x = .ok (fs.answered x).2 := by
  cases x with
  | ok fs' => rfl
  | error e => cases h

/-- What holds of the files after a request that succeeds holds after any request. -/
theorem answered_other {fs : FileSystem} {x : Except FileFault FileSystem} {n : String}
    (h : ∀ fs', x = .ok fs' → fs' n = fs n) : (fs.answered x).2 n = fs n := by
  cases x with
  | ok fs' => exact h fs' rfl
  | error e => rfl

/-- Files as a map from names to contents make a disk. -/
def disk : Disk where
  file? := file?
  read := read
  create fs path := fs.answered (fs.create path)
  write fs path text := fs.answered (fs.write path text)
  shown := shown
  read_file hn h := read_eq_ok hn h
  create_file hn h := by
    have hcreate := create_eq_ok (answered_ok h)
    rwa [hn] at hcreate
  create_other _ _ _ hn := answered_other fun _ => create_other hn
  write_file hn hempty h := write_file hn hempty (answered_ok h)
  write_other _ _ _ _ hn := answered_other fun _ => write_other hn

theorem answered_eq_settle (x : Except FileFault FileSystem) (d : Desk) :
    StateT.run (m := Id) (settle x) d =
      ((d.files.answered x).1, d.keep (d.files.answered x).2) := by
  cases x <;> rfl

theorem host_eq : (inferInstance : Host DeskM) = (inferInstance : Host (DiskM disk)) := by
  have hcreate : (Host.create : String → DeskM _) = (Host.create : String → DiskM disk _) := by
    funext path d
    exact answered_eq_settle (d.files.create path) d
  have hwrite : (Host.write : String → String → DeskM _) =
      (Host.write : String → String → DiskM disk _) := by
    funext path text d
    exact answered_eq_settle (d.files.write path text) _
  exact congrArg₂ (fun create write => Host.mk (m := DeskM) Host.read create write print)
    hcreate hwrite

/-- Commands run as on that disk. -/
theorem run_eq {α : Type} (x : ∀ (m : Type → Type) [Monad m] [Host m], m α) (d : Desk) :
    (x DeskM).run d = (x (DiskM disk)).run d :=
  congrArg (fun host : Host DeskM => StateT.run (m := Id) (@x DeskM _ host) d) host_eq

end FileSystem

end SC32.Command
