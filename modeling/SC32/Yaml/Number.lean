/-!
Unsigned integers of 64 bits as YAML writes them.
-/
namespace SC32.Yaml

/-- The greatest unsigned integer, of 64 bits. -/
def maxUnsigned : Nat := 18446744073709551615

/-- The value of `c` as a digit, up to 35. -/
def digit (c : Char) : Nat :=
  if c.isDigit then c.toNat - '0'.toNat
  else if c.isLower then c.toNat - 'a'.toNat + 10
  else if c.isUpper then c.toNat - 'A'.toNat + 10
  else 36

/-- A non-empty run of digits in base `b`. -/
def inBase? (b : Nat) (cs : List Char) : Option Nat :=
  if ! cs.isEmpty && cs.all (digit · < b) then
    let n := cs.foldl (fun n c => b * n + digit c) 0
    if n ≤ maxUnsigned then some n else none
  else none

/-- Digits after a leading zero make no decimal number. -/
def decimal? : List Char → Option Nat
  | '0' :: _ :: _ => none
  | cs => inBase? 10 cs

/-- A number in decimal, or in another base after `0x`, `0o` or `0b`; a plus sign may stand in
front. -/
def unsigned? (s : String) : Option Nat :=
  let cs := match s.toList with
    | '+' :: cs => cs
    | cs => cs
  match cs with
  | '0' :: 'x' :: ds => inBase? 16 ds
  | '0' :: 'o' :: ds => inBase? 8 ds
  | '0' :: 'b' :: ds => inBase? 2 ds
  | ds => decimal? ds

end SC32.Yaml
