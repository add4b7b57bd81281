import Tandem.Code.Scan
import Tandem.Machine.Instruction
/-!
The instructions that a machine finds in a stream. It reads operand bytes by its own rule, while
listings and trace messages read them by the widths that the opcode announces. Both find the same
operands, or both find that bytes are missing.
-/
namespace Tandem

namespace Instruction

/-- The opcode with which the instruction is written. -/
def opcode : Instruction → Opcode
  | constant _ => .constant
  | pop => .pop
  | boolean true => .pushTrue
  | boolean false => .pushFalse
  | null => .pushNull
  | arithmetic op => op.opcode
  | comparison op => op.opcode
  | negate => .negate
  | not => .not
  | jumpUnlessTruthy _ => .jumpUnlessTruthy
  | jump _ => .jump
  | getGlobal _ => .getGlobal
  | setGlobal _ => .setGlobal
  | getLocal _ => .getLocal
  | setLocal _ => .setLocal
  | getBuiltin _ => .getBuiltin
  | getFree _ => .getFree
  | array _ => .array
  | hash _ => .hash
  | index => .index
  | call _ => .call
  | returnValue => .returnValue
  | returnNull => .returnNull
  | closure _ _ => .closure
  | currentClosure => .currentClosure

/-- The numbers that are written after the opcode. -/
def numbers : Instruction → List Nat
  | constant n | jumpUnlessTruthy n | jump n | getGlobal n | setGlobal n | getLocal n | setLocal n
  | getBuiltin n | getFree n | array n | hash n | call n => [n]
  | closure place free => [place, free]
  | _ => []

/-- The item that a listing shows for the instruction. -/
def item (i : Instruction) : Code.Item := .instruction i.opcode i.numbers

/-- The listing takes an instruction to be as long as the machine does. -/
theorem size_item (i : Instruction) : i.item.size = i.length := by
  cases i with
  | boolean b => cases b <;> rfl
  | arithmetic op => cases op <;> rfl
  | comparison op => cases op <;> rfl
  | _ => rfl

end Instruction

namespace Code

/-- The instruction that starts at an offset. There is none where the byte is no opcode or operand
bytes are missing. -/
def instructionAt? (code : Code) (offset : Nat) : Option Instruction := do
  let byte ← code.byteAt? offset
  let op ← Opcode.ofByte? byte
  Instruction.decode? code op (offset + 1)

/-- The byte at an offset, if it is no opcode. -/
def unknownAt? (code : Code) (offset : Nat) : Option UInt8 :=
  (code.byteAt? offset).filter fun byte => (Opcode.ofByte? byte).isNone

theorem lt_size_of_instructionAt? {code : Code} {offset : Nat} {i : Instruction}
    (h : code.instructionAt? offset = some i) : offset < code.size := by
  cases hByte : code.byteAt? offset with
  | none => simp [instructionAt?, hByte] at h
  | some byte => exact (Array.getElem?_eq_some_iff.mp hByte).1

theorem byteAt?_eq_getElem? (code : Code) (offset : Nat) :
    code.byteAt? offset = code.toList[offset]? := by
  simp [byteAt?, toList]

theorem byteAt?_eq_head? (code : Code) (offset : Nat) :
    code.byteAt? offset = (code.toList.drop offset).head? := by
  simp [byteAt?, toList]

theorem readNumber?_one (code : Code) (start : Nat) :
    readNumber? 1 (code.toList.drop start) = (code.byteAt? start).map UInt8.toNat := by
  rw [byteAt?_eq_head?]
  cases code.toList.drop start with
  | nil => rfl
  | cons byte rest => simp [readNumber?, ofBigEndian]

theorem readNumber?_two (code : Code) (start : Nat) :
    readNumber? 2 (code.toList.drop start) = code.wordAt? start := by
  rw [wordAt?, byteAt?_eq_head?, byteAt?_eq_head?, ← List.drop_drop]
  cases code.toList.drop start with
  | nil => rfl
  | cons high rest =>
      cases rest with
      | nil => rfl
      | cons low rest => simp [readNumber?, ofBigEndian]

theorem readNumbers?_singleton (width : Nat) (bytes : List UInt8) :
    readNumbers? [width] bytes = (readNumber? width bytes).map fun n => [n] := by
  rw [readNumbers?]
  cases readNumber? width bytes <;> rfl

/-- The machine finds the operands that the widths of the opcode announce. -/
theorem readOperands?_eq (code : Code) (op : Opcode) (start : Nat) :
    op.readOperands? (code.toList.drop start) =
      (Instruction.decode? code op start).map Instruction.numbers := by
  cases op with
  | getLocal | setLocal | getBuiltin | getFree | call =>
      simp only [Opcode.readOperands?, Opcode.operandWidths, readNumbers?_singleton,
        readNumber?_one, Instruction.decode?, Option.map_map]
      rfl
  | constant | jumpUnlessTruthy | jump | getGlobal | setGlobal | array | hash =>
      simp only [Opcode.readOperands?, Opcode.operandWidths, readNumbers?_singleton,
        readNumber?_two, Instruction.decode?, Option.map_map]
      rfl
  | closure =>
      simp only [Opcode.readOperands?, Opcode.operandWidths, readNumbers?, readNumber?_two,
        List.drop_drop, readNumber?_one, Instruction.decode?]
      cases code.wordAt? start with
      | none => rfl
      | some place => cases code.byteAt? (start + 2) <;> rfl
  | _ => rfl

/-- An instruction is decoded only where its opcode stands. -/
theorem opcode_of_decode? {code : Code} {op : Opcode} {start : Nat} {i : Instruction}
    (h : Instruction.decode? code op start = some i) : i.opcode = op := by
  cases op with
  | getLocal | setLocal | getBuiltin | getFree | call | constant | jumpUnlessTruthy | jump
  | getGlobal | setGlobal | array | hash =>
      obtain ⟨n, _, rfl⟩ := Option.map_eq_some_iff.mp h
      rfl
  | closure =>
      obtain ⟨place, _, h⟩ := Option.bind_eq_some_iff.mp h
      obtain ⟨free, _, h⟩ := Option.bind_eq_some_iff.mp h
      cases h
      rfl
  | _ =>
      cases h
      rfl

/-- The bytes from an offset on start with the one that stands there. -/
theorem drop_eq_of_byteAt? {code : Code} {offset : Nat} {byte : UInt8}
    (h : code.byteAt? offset = some byte) :
    code.toList.drop offset = byte :: code.toList.drop (offset + 1) := by
  have hHead : (code.toList.drop offset).head? = some byte := byteAt?_eq_head? code offset ▸ h
  obtain ⟨rest, hBytes⟩ := List.head?_eq_some_iff.mp hHead
  rw [← List.drop_drop, hBytes]
  rfl

/-- Where an opcode stands, an entry shows it with the operands that are read after it. -/
theorem entryAt?_of_opcode {code : Code} {offset : Nat} {byte : UInt8} {op : Opcode}
    (hByte : code.byteAt? offset = some byte) (hOp : Opcode.ofByte? byte = some op) :
    code.entryAt? offset = (op.readOperands? (code.toList.drop (offset + 1))).map fun operands =>
      ⟨offset, .instruction op operands⟩ := by
  rw [entryAt?, drop_eq_of_byteAt? hByte, Item.ofBytes?, hOp, Option.map_map]
  rfl

/-- What a listing shows at an offset at which an opcode stands is the instruction that the machine
decodes there. Where the machine lacks operand bytes, there is nothing to show. -/
theorem entryAt?_of_byteAt? {code : Code} {offset : Nat} {byte : UInt8} {op : Opcode}
    (hByte : code.byteAt? offset = some byte) (hOp : Opcode.ofByte? byte = some op) :
    code.entryAt? offset = (code.instructionAt? offset).map fun i => ⟨offset, i.item⟩ := by
  have hInstruction : code.instructionAt? offset = Instruction.decode? code op (offset + 1) := by
    simp [instructionAt?, hByte, hOp]
  rw [entryAt?_of_opcode hByte hOp, readOperands?_eq, Option.map_map, hInstruction]
  cases hDecode : Instruction.decode? code op (offset + 1) with
  | none => rfl
  | some i =>
      rw [← opcode_of_decode? hDecode]
      rfl

/-- The trace message of an instruction is made of the instruction that the machine has found. -/
theorem entryAt?_of_instructionAt? {code : Code} {offset : Nat} {i : Instruction}
    (h : code.instructionAt? offset = some i) : code.entryAt? offset = some ⟨offset, i.item⟩ := by
  obtain ⟨byte, hByte, hDecode⟩ := Option.bind_eq_some_iff.mp h
  obtain ⟨op, hOp, _⟩ := Option.bind_eq_some_iff.mp hDecode
  rw [entryAt?_of_byteAt? hByte hOp, h]
  rfl

end Code

end Tandem
