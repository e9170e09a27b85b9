import SC32.Yaml.Cursor

/-!
Gaps between the words of a scalar. Blanks at the ends of lines do not count, and line breaks fold:
one stands for a space, and each further one for itself.
-/
namespace SC32.Yaml

/-- A run of blanks and line breaks. -/
structure Gap where
  text : List Char

namespace Gap

def breaks (g : Gap) : List Char := g.text.filter isBreak

def hasBreak (g : Gap) : Bool := g.text.any isBreak

/-- What line breaks in a row stand for. A first one that is no line feed stays. -/
def fold : List Char → List Char
  | [] => []
  | ['\n'] => [' ']
  | '\n' :: bs => bs
  | bs => bs

/-- What a gap stands for. -/
def folded (g : Gap) : List Char := if g.hasBreak then fold g.breaks else g.text

/-- Whether a tab stands left of column `least`, from `column` on. -/
def tabFrom (least : Nat) : (column : Nat) → List Char → Bool
  | _, [] => false
  | column, c :: cs =>
    if isBreak c then tabFrom least 0 cs
    else (c = '\t' && column < least) || tabFrom least (column + 1) cs

/-- Whether a tab stands left of column `least` in a line that begins in the gap. -/
def indentsByTab (least : Nat) (g : Gap) : Bool := tabFrom least least (g.text.dropWhile isBlank)

end Gap

def Cursor.gap (c : Cursor) : Gap × Cursor :=
  let (text, d) := c.span isGap
  (⟨text⟩, d)

end SC32.Yaml
