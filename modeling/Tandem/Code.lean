import Tandem.Opcode
/-!
Instruction streams. A stream is a sequence of bytes; an instruction in it is an opcode byte
followed by its operands, each of them big-endian in the width that the opcode announces. Streams
grow by appending instructions, and the operand of an instruction that has exactly one can be
changed in place, which is how a jump receives its target once the target is known.
-/
namespace Tandem

/-- The last `width` bytes of `n`, the most significant one first. Higher bytes are dropped. -/
def bigEndian : Nat → Nat → List UInt8
  | 0, _ => []
  | width + 1, n => UInt8.ofNat (n >>> (8 * width)) :: bigEndian width n

@[simp]
theorem length_bigEndian (width n : Nat) : (bigEndian width n).length = width := by
  induction width with
  | zero => rfl
  | succ width ih => simp [bigEndian, ih]

/-- The number whose bytes are given, the most significant one first. -/
def ofBigEndian (bytes : List UInt8) : Nat :=
  bytes.foldl (fun n byte => n * 256 + byte.toNat) 0

/-- The number in the first `width` bytes, unless there are fewer. -/
def readNumber? (width : Nat) (bytes : List UInt8) : Option Nat :=
  if bytes.length < width then none else some (ofBigEndian (bytes.take width))

/-- Numbers of the given widths that stand one after the other, unless the bytes run out. -/
def readNumbers? : List Nat → List UInt8 → Option (List Nat)
  | [], _ => some []
  | width :: widths, bytes => do
    let n ← readNumber? width bytes
    let ns ← readNumbers? widths (bytes.drop width)
    return n :: ns

namespace Opcode

/-- The bytes of one instruction. Operands are paired with the widths of the opcode: surplus
operands are dropped, missing ones leave the instruction short, and each one is reduced to its
width. -/
def encode (op : Opcode) (operands : List Nat) : List UInt8 :=
  op.toByte ::
    (operands.zip op.operandWidths).flatMap fun (operand, width) => bigEndian width operand

/-- The operands of `op` at the start of `bytes`, unless the bytes run out. -/
def readOperands? (op : Opcode) (bytes : List UInt8) : Option (List Nat) :=
  readNumbers? op.operandWidths bytes

end Opcode

/-- A stream of encoded instructions. -/
structure Code where
  bytes : Array UInt8 := #[]
  deriving DecidableEq, Repr, Inhabited

/-- Why an operand cannot be changed in place. -/
inductive PatchError where
  /-- The position lies outside the stream. -/
  | outside
  /-- The byte at the position starts no instruction with exactly one operand. -/
  | notSingleOperand (position : Nat)
  /-- The operand bytes would run past the end of the stream. -/
  | cutShort
  deriving DecidableEq, Repr

def PatchError.message? : PatchError → Option String
  | outside => none
  | notSingleOperand position =>
    some ("no single-operand instruction at offset " ++ toString position)
  | cutShort => none

namespace Code

def ofList (bytes : List UInt8) : Code := ⟨bytes.toArray⟩

def toList (code : Code) : List UInt8 := code.bytes.toList

@[simp]
theorem toList_ofList (bytes : List UInt8) : (ofList bytes).toList = bytes := by
  simp [ofList, toList]

/-- The number of bytes, which is also the offset of the next instruction appended. -/
def size (code : Code) : Nat := code.bytes.size

@[simp]
theorem length_toList (code : Code) : code.toList.length = code.size := by
  simp [toList, size]

def assemble (instructions : List (Opcode × List Nat)) : Code :=
  ofList (instructions.flatMap fun (op, operands) => op.encode operands)

/-- Appends an instruction. The first result is the offset at which it starts. -/
def emit (code : Code) (op : Opcode) (operands : List Nat) : Nat × Code :=
  (code.size, ⟨code.bytes ++ op.encode operands⟩)

@[simp]
theorem toList_emit (code : Code) (op : Opcode) (operands : List Nat) :
    (code.emit op operands).2.toList = code.toList ++ op.encode operands := by
  simp [emit, toList]

/-- The stream with the bytes from `position` on replaced by those given. -/
def overwrite (code : Code) (position : Nat) (bytes : List UInt8) : Code :=
  ofList (code.toList.take position ++ bytes ++ code.toList.drop (position + bytes.length))

/-- A change of a stream that may be refused. Either way it tells which stream is left. -/
abbrev Edit (α : Type) := ExceptT PatchError (StateM Code) α

/-- Changes the operand of the single-operand instruction at `position` in place. -/
def changeOperand (position operand : Nat) : Edit Unit := do
  let code ← get
  match code.bytes[position]? with
  | none => throw .outside
  | some byte =>
    match (Opcode.ofByte? byte).filter fun op => op.operandWidths.length == 1 with
    | none => throw (.notSingleOperand position)
    | some op =>
      let bytes := op.encode [operand]
      if position + bytes.length ≤ code.size then set (code.overwrite position bytes)
      else throw .cutShort

/-- The stream with the operand of the single-operand instruction at `position` changed. -/
def patch (code : Code) (position operand : Nat) : Except PatchError Code :=
  match changeOperand position operand code with
  | (.ok (), changed) => .ok changed
  | (.error cause, _) => .error cause

def byteAt? (code : Code) (offset : Nat) : Option UInt8 := code.bytes[offset]?

/-- The number in the two bytes from an offset on, the more significant one first. -/
def wordAt? (code : Code) (offset : Nat) : Option Nat := do
  let high ← code.byteAt? offset
  let low ← code.byteAt? (offset + 1)
  return high.toNat * 256 + low.toNat

end Code

end Tandem
