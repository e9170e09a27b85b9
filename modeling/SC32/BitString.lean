import SC32.Text.Decimal
import SC32.Word

/-!
Fields written out as `0` and `1`, the most significant bit first. A field of width `w` is written
with exactly `w` characters.
-/
namespace SC32.Field

def Fault.message : Fault → String
  | .width w => "width out of range: " ++ Text.Decimal.ofNat w
  | .bits s w =>
    "Cannot decode `" ++ s ++ "` as a " ++ Text.Decimal.ofNat w ++ "-bit field"

def bitChar (b : Bool) : Char := if b then '1' else '0'

/-- The low `w` bits of `v`. -/
def bits (v : Word) (w : Nat) : List Char :=
  (List.range w).reverse.map fun i => bitChar (v.getLsbD i)

def encode (v : Word) (w : Nat) : String := String.ofList (bits v w)

/-- The number that a bit string stands for. -/
def value (cs : List Char) : Nat :=
  cs.foldl (fun n c => 2 * n + if c = '1' then 1 else 0) 0

/-- The signed value of a bit string. Its length is counted in bytes, as the width is. -/
def decode (s : String) (w : Nat) : Except Fault Word :=
  if Fits w ∧ s.utf8ByteSize = w ∧ s.toList.all (fun c => c = '0' || c = '1') then
    .ok (signExtend (BitVec.ofNat 32 (value s.toList)) w)
  else .error (.bits s w)

/-- The eight hexadecimal digits of a word, in upper case. -/
def hexadecimal (v : Word) : String :=
  String.ofList ((List.range 8).reverse.map fun i =>
    (v.extractLsb' (4 * i) 4).toNat.digitChar.toUpper)

end SC32.Field
