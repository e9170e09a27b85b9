/-!
Columns of a fixed least width. Widths count characters, and a text that is too long is kept whole.
-/
namespace SC32.Text

/-- At the left of a column `width` wide. -/
def alignLeft (width : Nat) (s : String) : String :=
  String.ofList (s.toList.rightpad width ' ')

/-- At the right of a column `width` wide. -/
def alignRight (width : Nat) (s : String) : String :=
  String.ofList (s.toList.leftpad width ' ')

/-- At the right of a column `width` wide that is filled up with zeros. -/
def zeroFill (width : Nat) (s : String) : String :=
  String.ofList (s.toList.leftpad width '0')

/-- The character `c`, `n` times. -/
def rule (n : Nat) (c : Char) : String :=
  String.ofList (List.replicate n c)

end SC32.Text
