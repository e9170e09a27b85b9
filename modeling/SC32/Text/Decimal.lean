/-!
Decimal numerals. A numeral is an optional sign and one or more ASCII digits; leading zeros are
allowed. It is read from the left and the first fault is reported, so a character that is no digit
wins over the overflow that the same character would cause.
-/
namespace SC32.Text.Decimal

inductive Fault where
  | invalidDigit
  | tooLarge
  | tooSmall
  deriving DecidableEq, Repr

def Fault.message : Fault → String
  | .invalidDigit => "invalid digit found in string"
  | .tooLarge => "number too large to fit in target type"
  | .tooSmall => "number too small to fit in target type"

def digitValue (c : Char) : Nat := c.toNat - '0'.toNat

/-- Append the digit `c` to `n`; a result above `limit` is the fault `excess`. -/
def push (limit : Nat) (excess : Fault) (n : Nat) (c : Char) : Except Fault Nat :=
  if c.isDigit then
    if 10 * n + digitValue c ≤ limit then .ok (10 * n + digitValue c) else .error excess
  else .error .invalidDigit

/-- A non-empty run of digits with a value up to `limit`. -/
def digits (limit : Nat) (excess : Fault) : List Char → Except Fault Nat
  | [] => .error .invalidDigit
  | cs => cs.foldlM (push limit excess) 0

/-- A numeral from 0 to `limit`; only `+` may stand in front. -/
def unsigned (limit : Nat) (s : String) : Except Fault Nat :=
  match s.toList with
  | '+' :: cs => digits limit .tooLarge cs
  | cs => digits limit .tooLarge cs

/-- A numeral from -2147483648 to 2147483647, which is what 32 bits hold. -/
def signed32 (s : String) : Except Fault Int :=
  match s.toList with
  | '-' :: cs => (digits 2147483648 .tooSmall cs).map fun n => -(n : Int)
  | '+' :: cs => (digits 2147483647 .tooLarge cs).map Int.ofNat
  | cs => (digits 2147483647 .tooLarge cs).map Int.ofNat

/-- Without leading zeros. -/
def ofNat (n : Nat) : String :=
  String.ofList (Nat.toDigits 10 n)

/-- With a minus sign below zero. -/
def ofInt : Int → String
  | .ofNat n => ofNat n
  | .negSucc n => "-" ++ ofNat (n + 1)

end SC32.Text.Decimal
