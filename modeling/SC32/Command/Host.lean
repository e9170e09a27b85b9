/-!
What a command asks of its surroundings: to read and write files by path, and to print.
-/
namespace SC32.Command

/-- Why a file cannot be used. -/
inductive FileFault where
  | noEntry
  | notDirectory
  | isDirectory
  | noSpace
  | nameTooLong
  /-- The file opens but its bytes are no text. -/
  | notText
  | other (text : String)
  deriving DecidableEq, Repr

def FileFault.message : FileFault → String
  | .noEntry => "No such file or directory (os error 2)"
  | .notDirectory => "Not a directory (os error 20)"
  | .isDirectory => "Is a directory (os error 21)"
  | .noSpace => "No space left on device (os error 28)"
  | .nameTooLong => "File name too long (os error 36)"
  | .notText => "stream did not contain valid UTF-8"
  | .other text => text

/-- Whether the fault shows only when an open file is read. -/
def FileFault.afterOpening : FileFault → Bool
  | .isDirectory => true
  | .notText => true
  | _ => false

class Host (m : Type → Type) where
  /-- The text of a file. -/
  read : String → m (Except FileFault String)
  /-- Make a file empty, whether or not it exists. -/
  create : String → m (Except FileFault Unit)
  /-- Put a text into an empty file. -/
  write : String → String → m (Except FileFault Unit)
  print : String → m Unit

export Host (print)

def say [Host m] (line : String) : m Unit := print (line ++ "\n")

end SC32.Command
