import SC32.Text.Decimal

/-!
Terminal colours: escape sequences that select a graphic rendition.
-/
namespace SC32.Text

/-- The sequence that selects rendition `n`. -/
def rendition (n : Nat) : String :=
  "\x1b[" ++ Decimal.ofNat n ++ "m"

inductive Colour where
  | red | green | yellow | blue | cyan
  deriving DecidableEq, Repr

def Colour.code : Colour → Nat
  | .red => 31
  | .green => 32
  | .yellow => 33
  | .blue => 34
  | .cyan => 36

/-- Switch to a colour and leave it switched on. -/
def Colour.on (c : Colour) : String := rendition c.code

/-- Back to the terminal's own colour. -/
def plain : String := rendition 39

def coloured (c : Colour) (s : String) : String := c.on ++ s ++ plain

def bold (c : Colour) (s : String) : String := c.on ++ rendition 1 ++ s ++ plain ++ rendition 22

def underlined (s : String) : String := rendition 4 ++ s ++ rendition 24

end SC32.Text
