import SC32.Text.Decimal

/-!
The eight general registers. None of them is special.
-/
namespace SC32

/-- A register's index. -/
abbrev Reg := Fin 8

namespace Reg

def all : List Reg := List.finRange 8

def ofNat? (n : Nat) : Option Reg :=
  if h : n < 8 then some ⟨n, h⟩ else none

/-- A register operand is a numeral from 0 to 7. -/
def parse? (s : String) : Option Reg :=
  match Text.Decimal.unsigned 7 s with
  | .ok n => ofNat? n
  | .error _ => none

def render (r : Reg) : String := Text.Decimal.ofNat r.val

end Reg

/-- There is no register `index`. -/
structure UnknownRegister where
  index : Nat

def UnknownRegister.message (e : UnknownRegister) : String :=
  "Unknown register: " ++ Text.Decimal.ofNat e.index

def Reg.ofNat (n : Nat) : Except UnknownRegister Reg :=
  match ofNat? n with
  | some r => .ok r
  | none => .error ⟨n⟩

end SC32
