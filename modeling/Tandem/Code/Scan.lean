import Tandem.Code
/-!
Reading a stream from one end to the other. A scan visits the offsets at which items start: a
known opcode with its operands, or a byte that is no opcode and counts as an item of its own. It
fails when the last opcode lacks some of its operand bytes.
-/
namespace Tandem.Code

/-- What a scan meets at an offset. -/
inductive Item where
  /-- A byte that is no opcode. -/
  | unknown (byte : UInt8)
  | instruction (op : Opcode) (operands : List Nat)
  deriving DecidableEq, Repr

namespace Item

def size : Item → Nat
  | unknown _ => 1
  | instruction op _ => 1 + op.operandSize

/-- The item at the start of the given bytes. There is none at the end of a stream and none where
an opcode lacks operand bytes. -/
def ofBytes? : List UInt8 → Option Item
  | [] => none
  | byte :: rest =>
    match Opcode.ofByte? byte with
    | none => some (unknown byte)
    | some op => (op.readOperands? rest).map (instruction op)

end Item

/-- An item and the offset at which it starts. -/
structure Entry where
  offset : Nat
  item : Item
  deriving DecidableEq, Repr

def Entry.next (entry : Entry) : Nat := entry.offset + entry.item.size

def entryAt? (code : Code) (offset : Nat) : Option Entry :=
  (Item.ofBytes? (code.toList.drop offset)).map fun item => ⟨offset, item⟩

/-- The entries of the bytes that start at `offset`, of which the first `skip` belong to an item
that was met before. -/
def scanFrom (offset : Nat) : (skip : Nat) → List UInt8 → Option (List Entry)
  | _, [] => some []
  | skip + 1, _ :: rest => scanFrom (offset + 1) skip rest
  | 0, byte :: rest => do
    let item ← Item.ofBytes? (byte :: rest)
    let entries ← scanFrom (offset + 1) (item.size - 1) rest
    return ⟨offset, item⟩ :: entries

def scan? (code : Code) : Option (List Entry) := scanFrom 0 0 code.toList

end Tandem.Code
