/-!
Machine words and their bit fields. A field is `w` bits wide, `1 ≤ w ≤ 32`, and stands in two's
complement wherever it is read as signed.
-/
namespace SC32

/-- A 32-bit word. Arithmetic wraps, and `BitVec.toInt` is its signed value. -/
abbrev Word := BitVec 32

/-! What a machine does in every step is done on fixed-width integers, which costs far less than to
reduce a natural number by a power of two. -/
namespace Word

def signed (w : Word) : Int := (Int32.ofUInt32 (.ofBitVec w)).toInt

def add (v w : Word) : Word := (UInt32.ofBitVec v + .ofBitVec w).toBitVec

def nand (v w : Word) : Word := (~~~(UInt32.ofBitVec v &&& .ofBitVec w)).toBitVec

@[simp] theorem signed_eq (w : Word) : w.signed = w.toInt := rfl

@[simp] theorem add_eq (v w : Word) : v.add w = v + w := rfl

@[simp] theorem nand_eq (v w : Word) : v.nand w = ~~~(v &&& w) := rfl

end Word

namespace Field

inductive Fault where
  /-- No field is that wide. -/
  | width (w : Nat)
  /-- The text is not a bit string for a field of width `w`. -/
  | bits (s : String) (w : Nat)
  deriving DecidableEq, Repr

/-- The widths that a field may have. -/
def Fits (w : Nat) : Prop := 1 ≤ w ∧ w ≤ 32

instance (w : Nat) : Decidable (Fits w) := inferInstanceAs (Decidable (_ ∧ _))

/-- The low `w` bits of `v`, the others cleared. -/
def truncate (v : Word) (w : Nat) : Word := (v.setWidth w).setWidth 32

/-- The low `w` bits of `b` read as signed. -/
def signExtend (b : Word) (w : Nat) : Word := (b.setWidth w).signExtend 32

/-- The `w` bits of `v` from bit `lo` upwards. -/
def extract (v : Word) (lo w : Nat) : Word := (v.extractLsb' lo w).setWidth 32

/-- The least signed value of `w` bits. -/
def lowest (w : Nat) : Int := (BitVec.intMin w).toInt

/-- The greatest signed value of `w` bits. -/
def highest (w : Nat) : Int := (BitVec.intMax w).toInt

/-- An answer about fields of width `w`, if there are such fields. -/
def ofWidth (w : Nat) (answer : Fits w → α) : Except Fault α :=
  if h : Fits w then .ok (answer h) else .error (.width w)

end Field
end SC32
