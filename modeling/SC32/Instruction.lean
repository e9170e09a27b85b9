import SC32.Mnemonic
import SC32.Register
import SC32.Text.Decimal
import SC32.Word

/-!
Instructions and their words. A word holds the opcode in bits 24 to 22, the two registers in bits
21 to 19 and 18 to 16, and below them the destination register or the offset. Unused bits are
written as zeros and ignored when read.
-/
namespace SC32

/-- A signed displacement. -/
abbrev Offset := BitVec 16

namespace Offset

def signed (off : Offset) : Int := (Int16.ofUInt16 (.ofBitVec off)).toInt

/-- The word of the same signed value. -/
def extend (off : Offset) : Word := (Int16.ofUInt16 (.ofBitVec off)).toInt32.toBitVec

@[simp] theorem signed_eq (off : Offset) : off.signed = off.toInt := rfl

@[simp] theorem extend_eq (off : Offset) : off.extend = off.signExtend 32 := rfl

end Offset

/-- An instruction whose offset, if it takes one, is an `ι`: a token in source text, a number in a
word. Registers stand in source order. -/
inductive Instruction (ι : Type) where
  | add (a b d : Reg)
  | nand (a b d : Reg)
  | lw (a b : Reg) (offset : ι)
  | sw (a b : Reg) (offset : ι)
  | beq (a b : Reg) (offset : ι)
  | jalr (a b : Reg)
  | halt
  | noop
  deriving DecidableEq, Repr

/-- The word's opcode field names no instruction. -/
structure UnknownOpcode where
  word : Word
  deriving DecidableEq, Repr

/-- The opcode field together with the bits above it, which are the sign. -/
def opcode (w : Word) : Int := w.signed / 4194304

def UnknownOpcode.message (e : UnknownOpcode) : String :=
  "Unknown opcode " ++ Text.Decimal.ofInt (opcode e.word) ++ " in word " ++
    Text.Decimal.ofInt e.word.toInt

namespace Instruction

def mnemonic : Instruction ι → Mnemonic
  | add .. => .add
  | nand .. => .nand
  | lw .. => .lw
  | sw .. => .sw
  | beq .. => .beq
  | jalr .. => .jalr
  | halt => .halt
  | noop => .noop

/-- The word with the given fields. -/
def pack (k : Mnemonic) (a b : Reg) (low : BitVec 16) : Word :=
  0#7 ++ k.opcode ++ BitVec.ofNat 3 a ++ BitVec.ofNat 3 b ++ low

/-- The fields do not overlap: each has its own bits of the word. -/
theorem toNat_pack (k : Mnemonic) (a b : Reg) (low : BitVec 16) :
    (pack k a b low).toNat =
      k.opcode.toNat * 4194304 + a.val * 524288 + b.val * 65536 + low.toNat := by
  unfold pack
  have hk := k.opcode.isLt
  have ha := a.isLt
  have hb := b.isLt
  have hl := low.isLt
  simp only [BitVec.toNat_append, BitVec.toNat_ofNat, Nat.zero_mod, Nat.zero_shiftLeft,
    Nat.zero_or, Nat.mod_eq_of_lt ha, Nat.mod_eq_of_lt hb]
  rw [← Nat.shiftLeft_add_eq_or_of_lt (by omega), ← Nat.shiftLeft_add_eq_or_of_lt (by omega),
    ← Nat.shiftLeft_add_eq_or_of_lt (by omega)]
  simp only [Nat.shiftLeft_eq]
  omega

def encode (i : Instruction Offset) : Word :=
  match i with
  | add a b d => pack i.mnemonic a b (BitVec.ofNat 16 d)
  | nand a b d => pack i.mnemonic a b (BitVec.ofNat 16 d)
  | lw a b off => pack i.mnemonic a b off
  | sw a b off => pack i.mnemonic a b off
  | beq a b off => pack i.mnemonic a b off
  | jalr a b => pack i.mnemonic a b 0#16
  | halt => pack i.mnemonic 0 0 0#16
  | noop => pack i.mnemonic 0 0 0#16

/-- The register field that starts at bit `lo`. -/
def registerAt (w : Word) (lo : Nat) : Reg := ⟨(w.toNat >>> lo) % 8, Nat.mod_lt _ (by decide)⟩

/-- The offset field. -/
def offsetOf (w : Word) : Offset := (UInt32.ofBitVec w).toUInt16.toBitVec

@[simp] theorem registerAt_eq (w : Word) (lo : Nat) :
    registerAt w lo = (w.extractLsb' lo 3).toFin := rfl

@[simp] theorem offsetOf_eq (w : Word) : offsetOf w = w.setWidth 16 := rfl

/-- The instruction with mnemonic `k` and its operands from the fields of `w`. -/
def ofFields (k : Mnemonic) (w : Word) : Instruction Offset :=
  let a := registerAt w 19
  let b := registerAt w 16
  match k with
  | .add => add a b (registerAt w 0)
  | .nand => nand a b (registerAt w 0)
  | .lw => lw a b (offsetOf w)
  | .sw => sw a b (offsetOf w)
  | .beq => beq a b (offsetOf w)
  | .jalr => jalr a b
  | .halt => halt
  | .noop => noop

def decode (w : Word) : Except UnknownOpcode (Instruction Offset) :=
  match Mnemonic.ofOpcode? (opcode w) with
  | some k => .ok (ofFields k w)
  | none => .error ⟨w⟩

end Instruction
end SC32
