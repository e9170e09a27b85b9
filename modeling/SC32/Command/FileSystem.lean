import SC32.Command.Host

/-!
A file system as a map from names to contents, and the host whose files it holds. Relative paths
start from one directory, which has no other directory in it. Of the rest there are only some
well-known directories and a few devices.
-/
namespace SC32.Command

/-- The bytes of each file. -/
abbrev FileSystem := String → Option ByteArray

namespace FileSystem

def empty : FileSystem := fun _ => none

/-- Give the file `name` its contents. -/
def put (fs : FileSystem) (name : String) (bytes : ByteArray) : FileSystem :=
  fun n => if n = name then some bytes else fs n

@[simp] theorem put_same (fs : FileSystem) (name : String) (b : ByteArray) :
    fs.put name b name = some b := by simp [put]

@[simp] theorem put_other (fs : FileSystem) (name n : String) (b : ByteArray) (h : n ≠ name) :
    fs.put name b n = fs n := by simp [put, h]

/-- The directory in which paths start, or one that every system has. -/
inductive Directory where
  | work
  | system (path : List String)
  deriving DecidableEq, Repr

/-- System directories outside which there are none, each as its path from the root. -/
def systemDirectories : List (List String) :=
  [[], ["bin"], ["boot"], ["dev"], ["etc"], ["home"], ["lib"], ["lib64"], ["media"], ["mnt"],
    ["opt"], ["proc"], ["root"], ["run"], ["sbin"], ["srv"], ["sys"], ["tmp"], ["usr"], ["var"],
    ["dev", "fd"], ["dev", "shm"], ["usr", "bin"], ["usr", "lib"], ["usr", "local"],
    ["usr", "share"], ["var", "lib"], ["var", "log"], ["var", "tmp"]]

inductive Device where
  /-- Reads as empty and swallows what is written. -/
  | sink
  /-- Has no room for a single byte. -/
  | full
  /-- Shows what is written among what is printed. -/
  | screen
  deriving DecidableEq, Repr

def devices : List (List String × Device) :=
  [(["dev", "null"], .sink), (["dev", "full"], .full), (["dev", "stdin"], .sink),
    (["dev", "stdout"], .screen), (["dev", "stderr"], .sink), (["dev", "fd", "0"], .sink),
    (["dev", "fd", "1"], .screen), (["dev", "fd", "2"], .sink)]

namespace Directory

/-- The working directory is one of those for passing files. -/
def parent : Directory → Directory
  | work => system ["tmp"]
  | system path => system path.dropLast

/-- The name of a file in a directory, as the file system knows it. -/
def fileName (name : String) : Directory → String
  | work => name
  | system path => String.join ((path ++ [name]).map ("/" ++ ·))

end Directory

/-- What a name stands for in a directory. -/
inductive Entry where
  | directory (d : Directory)
  | device (d : Device)
  | file (name : String)
  /-- Nothing as yet. -/
  | vacant (name : String)
  /-- The name is too long for any file. -/
  | unnamable
  deriving DecidableEq, Repr

def entryFor (fs : FileSystem) (d : Directory) (name : String) : Entry :=
  let known := d.fileName name
  let otherwise := if (fs known).isSome then .file known else .vacant known
  if 255 < name.utf8ByteSize then .unnamable
  else match d with
    | .work => otherwise
    | .system path =>
      let path := path ++ [name]
      if systemDirectories.contains path then .directory (.system path)
      else match devices.lookup path with
        | some device => .device device
        | none => otherwise

/-- Follow the components of a path from a directory on. -/
def walk (fs : FileSystem) : Directory → List String → Except FileFault Entry
  | d, [] => .ok (.directory d)
  | d, name :: rest =>
    if name = "." then walk fs d rest
    else if name = ".." then walk fs d.parent rest
    else if rest.isEmpty then .ok (fs.entryFor d name)
    else match fs.entryFor d name with
      | .directory e => walk fs e rest
      | .vacant _ => .error .noEntry
      | .unnamable => .error .nameTooLong
      | _ => .error .notDirectory

/-- What stands between the slashes of a path. -/
def components (path : String) : List String :=
  ((path.toList.splitOnP (· == '/')).filter (! ·.isEmpty)).map String.ofList

/-- Where a path leads. One with a slash at its front starts from the root. -/
def entry (fs : FileSystem) (path : String) : Except FileFault Entry :=
  if path = "" then .error .noEntry
  else if 4096 ≤ path.utf8ByteSize then .error .nameTooLong
  else
    fs.walk (if path.toList.head? = some '/' then .system [] else .work) (components path)

/-- Whether a path asks for a directory by a slash at its end. -/
def endsInSlash (path : String) : Bool := path.toList.getLast? == some '/'

def read (fs : FileSystem) (path : String) : Except FileFault String := do
  match ← fs.entry path with
  | .directory _ => throw .isDirectory
  | .vacant _ => throw .noEntry
  | .unnamable => throw .nameTooLong
  | .device d =>
    if endsInSlash path then throw .notDirectory
    if d = .full then throw (.other "Cannot allocate memory (os error 12)")
    return ""
  | .file name =>
    if endsInSlash path then throw .notDirectory
    match (fs name).bind String.fromUTF8? with
    | some text => return text
    | none => throw .notText

def create (fs : FileSystem) (path : String) : Except FileFault FileSystem := do
  let entry ← fs.entry path
  if endsInSlash path then throw .isDirectory
  match entry with
  | .directory _ => throw .isDirectory
  | .unnamable => throw .nameTooLong
  | .device _ => return fs
  | .vacant name => return fs.put name ByteArray.empty
  | .file name => return fs.put name ByteArray.empty

def write (fs : FileSystem) (path text : String) : Except FileFault FileSystem := do
  match ← fs.entry path with
  | .device .full => if text = "" then return fs else throw .noSpace
  | .file name => return fs.put name text.toUTF8
  | _ => return fs

/-- What is printed when a text is written. -/
def shown (fs : FileSystem) (path text : String) : String :=
  match fs.entry path with
  | .ok (.device .screen) => text
  | _ => ""

end FileSystem

/-- A file system and what has been printed. -/
structure Desk where
  files : FileSystem
  printed : String

abbrev DeskM := StateM Desk

/-- Replace the files, unless there is a fault. -/
def settle : Except FileFault FileSystem → DeskM (Except FileFault Unit)
  | .ok fs => do
    modify fun d => { d with files := fs }
    return .ok ()
  | .error e => return .error e

instance : Host DeskM where
  read path := return (← get).files.read path
  create path := do settle ((← get).files.create path)
  write path text := do
    let d ← get
    set { d with printed := d.printed ++ d.files.shown path text }
    settle (d.files.write path text)
  print text := modify fun d => { d with printed := d.printed ++ text }

end SC32.Command
