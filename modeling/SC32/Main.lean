import SC32.Command.Assembler
import SC32.Command.Simulator

/-!
The program: the first argument names the command, `scasm` or `scemu`, and the others are its own.
-/
namespace SC32.Command

/-- A system's number of an error, which may come negated. -/
def errorNumber (code : UInt32) : Nat := min code.toNat (4294967296 - code.toNat)

def numberedFault? : Nat → Option FileFault
  | 2 => some .noEntry
  | 12 => some (.other "Cannot allocate memory (os error 12)")
  | 13 => some (.other "Permission denied (os error 13)")
  | 20 => some .notDirectory
  | 21 => some .isDirectory
  | 28 => some .noSpace
  | 36 => some .nameTooLong
  | 40 => some (.other "Too many levels of symbolic links (os error 40)")
  | _ => none

def fileFault (e : IO.Error) : FileFault :=
  let number := match e with
    | .noFileOrDirectory _ code _ => some code
    | .inappropriateType _ code _ => some code
    | .invalidArgument _ code _ => some code
    | .permissionDenied _ code _ => some code
    | .resourceExhausted _ code _ => some code
    | .otherError code _ => some code
    | _ => none
  ((number.map errorNumber).bind numberedFault?).getD (.other e.toString)

def attempt (action : IO α) : IO (Except FileFault α) := do
  try
    return .ok (← action)
  catch e => return .error (fileFault e)

instance : Host IO where
  read path := do
    match ← attempt (IO.FS.readBinFile path) with
    | .error e => return .error e
    | .ok bytes =>
      match String.fromUTF8? bytes with
      | some text => return .ok text
      | none => return .error .notText
  create path := attempt (IO.FS.writeFile path "")
  write path text := attempt do
    let file ← IO.FS.Handle.mk path .write
    file.putStr text
    file.flush
  print text := do
    let out ← IO.getStdout
    out.putStr text
    out.flush

end SC32.Command

def main (args : List String) : IO UInt32 := do
  match args with
  | "scasm" :: rest => return UInt32.ofNat (← SC32.Command.Assembler.command rest)
  | "scemu" :: rest => return UInt32.ofNat (← SC32.Command.Simulator.command rest)
  | _ =>
    IO.eprintln SC32.Command.Assembler.usage
    IO.eprintln SC32.Command.Simulator.usage
    return 2
