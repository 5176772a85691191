import Mikage.Arm.State

/-!
# Thumb instructions and their ARM equivalents

`DecodeThumb` turns most Thumb instructions into an ARM instruction. The bits that the ARM
instruction has in every case are the `base` of a format; the others are fields of the Thumb
instruction, shifted into place.
-/

namespace Mikage.Arm

structure ThumbInstr where
  raw : BitVec 16
  deriving DecidableEq, Repr

/-- The bit fields of `ThumbInstr` that go into an ARM instruction. -/
inductive ThumbField where
  | rdLow | rm | rn | rdHigh | rmUpperbit | rdUpperbit
  | immedMid5 | immedMid5Lower3 | immedMid5Upper2 | immedLow7 | immedLow8 | registerList | pushLr
  deriving DecidableEq, Repr

namespace ThumbField

/-- The lowest bit and the width. -/
def span : ThumbField → Nat × Nat
  | rdLow => (0, 3)
  | rm => (3, 3)
  | rn => (6, 3)
  | rdHigh => (8, 3)
  | rmUpperbit => (6, 1)
  | rdUpperbit => (7, 1)
  | immedMid5 => (6, 5)
  | immedMid5Lower3 => (6, 3)
  | immedMid5Upper2 => (9, 2)
  | immedLow7 => (0, 7)
  | immedLow8 => (0, 8)
  | registerList => (0, 8)
  | pushLr => (8, 1)

def get (field : ThumbField) (instr : ThumbInstr) : BitVec 32 :=
  (instr.raw.extractLsb' field.span.1 field.span.2).setWidth 32

/-- All bits that the field can have. -/
def bound (field : ThumbField) : BitVec 32 := (BitVec.allOnes field.span.2).setWidth 32

end ThumbField

namespace ThumbInstr

variable (instr : ThumbInstr)

/-- `opcode_upperN`, the highest `n` bits. -/
def opcodeUpper (n : Nat) : Nat := instr.raw.toNat / 2 ^ (16 - n)

def cond : BitVec 4 := instr.raw.extractLsb' 8 4
def signedImmedLow8 : BitVec 32 := (instr.raw.extractLsb' 0 8).signExtend 32
def signedImmed11 : BitVec 32 := (instr.raw.extractLsb' 0 11).signExtend 32
def unsignedImmed11 : BitVec 32 := (instr.raw.extractLsb' 0 11).setWidth 32

def idxRdHigh : BitVec 4 := (instr.raw.extractLsb' 8 3).setWidth 4

/-- `idx_rm | (idx_rm_upperbit << 3)` -/
def idxRmFull : BitVec 4 := instr.raw.extractLsb' 3 4

/-- `idx_rd_low | (idx_rd_upperbit << 3)` -/
def idxRdFull : BitVec 4 := instr.raw.extractLsb' 7 1 ++ instr.raw.extractLsb' 0 3

end ThumbInstr

structure ThumbFormat where
  opcodeBits : Nat
  opcode : Nat
  base : BitVec 32
  fields : List (ThumbField × Nat)

namespace ThumbFormat

def admits (f : ThumbFormat) (instr : ThumbInstr) : Bool := instr.opcodeUpper f.opcodeBits == f.opcode

def encode (f : ThumbFormat) (instr : ThumbInstr) : ARMInstr :=
  ⟨f.fields.foldl (fun raw field => raw ||| field.1.get instr <<< field.2) f.base⟩

end ThumbFormat

/-- The formats whose ARM equivalents neither read nor write PC. No two of them, and none of those
below, admit the same instruction. -/
def thumbFormats : List ThumbFormat := [
  -- LSL (1)
  ⟨5, 0b00000, 0xE1B00000, [(.rdLow, 12), (.immedMid5, 7), (.rm, 0)]⟩,
  -- ASR (1)
  ⟨5, 0b00010, 0xE1B00040, [(.rdLow, 12), (.immedMid5, 7), (.rm, 0)]⟩,
  -- AND
  ⟨10, 0b0100000000, 0xE0100000, [(.rdLow, 16), (.rdLow, 12), (.rm, 0)]⟩,
  -- ADC
  ⟨10, 0b0100000101, 0xE0B00000, [(.rdLow, 16), (.rdLow, 12), (.rm, 0)]⟩,
  -- ADD (1)
  ⟨7, 0b0001110, 0xE2900000, [(.rm, 16), (.rdLow, 12), (.immedMid5Lower3, 0)]⟩,
  -- ADD (2)
  ⟨5, 0b00110, 0xE2900000, [(.rdHigh, 16), (.rdHigh, 12), (.immedLow8, 0)]⟩,
  -- ADD (3)
  ⟨7, 0b0001100, 0xE0900000, [(.rm, 16), (.rdLow, 12), (.rn, 0)]⟩,
  -- ADD (6)
  ⟨5, 0b10101, 0xE28D0F00, [(.rdHigh, 12), (.immedLow8, 0)]⟩,
  -- ADD (7)
  ⟨9, 0b101100000, 0xE28DDF00, [(.immedLow7, 0)]⟩,
  -- BIC
  ⟨10, 0b0100001110, 0xE1D00000, [(.rdLow, 16), (.rdLow, 12), (.rm, 0)]⟩,
  -- TST
  ⟨10, 0b0100001000, 0xE1100000, [(.rdLow, 16), (.rm, 0)]⟩,
  -- SUB (1)
  ⟨7, 0b0001111, 0xE2500000, [(.rm, 16), (.rdLow, 12), (.immedMid5Lower3, 0)]⟩,
  -- SUB (2)
  ⟨5, 0b00111, 0xE2500000, [(.rdHigh, 16), (.rdHigh, 12), (.immedLow8, 0)]⟩,
  -- SUB (3)
  ⟨7, 0b0001101, 0xE0500000, [(.rm, 16), (.rdLow, 12), (.rn, 0)]⟩,
  -- SUB (4)
  ⟨9, 0b101100001, 0xE24DDF00, [(.immedLow7, 0)]⟩,
  -- SBC
  ⟨10, 0b0100000110, 0xE0D00000, [(.rdLow, 16), (.rdLow, 12), (.rm, 0)]⟩,
  -- ORR
  ⟨10, 0b0100001100, 0xE1900000, [(.rdLow, 16), (.rdLow, 12), (.rm, 0)]⟩,
  -- EOR
  ⟨10, 0b0100000001, 0xE0300000, [(.rdLow, 16), (.rdLow, 12), (.rm, 0)]⟩,
  -- MOV (1)
  ⟨5, 0b00100, 0xE3B00000, [(.rdHigh, 12), (.immedLow8, 0)]⟩,
  -- MVN
  ⟨10, 0b0100001111, 0xE1F00000, [(.rdLow, 12), (.rm, 0)]⟩,
  -- LSL (2)
  ⟨10, 0b0100000010, 0xE1B00010, [(.rdLow, 12), (.rm, 8), (.rdLow, 0)]⟩,
  -- LSR (1)
  ⟨5, 0b00001, 0xE1B00020, [(.rdLow, 12), (.immedMid5, 7), (.rm, 0)]⟩,
  -- LSR (2)
  ⟨10, 0b0100000011, 0xE1B00030, [(.rdLow, 12), (.rm, 8), (.rdLow, 0)]⟩,
  -- NEG
  ⟨10, 0b0100001001, 0xE2700000, [(.rm, 16), (.rdLow, 12)]⟩,
  -- MUL
  ⟨10, 0b0100001101, 0xE0100090, [(.rdLow, 16), (.rdLow, 8), (.rm, 0)]⟩,
  -- REV
  ⟨10, 0b1011101000, 0xE6BF0F30, [(.rdLow, 12), (.rm, 0)]⟩,
  -- ROR
  ⟨10, 0b0100000111, 0xE1B00070, [(.rdLow, 12), (.rm, 8), (.rdLow, 0)]⟩,
  -- SXTB
  ⟨10, 0b1011001001, 0xE6AF0070, [(.rdLow, 12), (.rm, 0)]⟩,
  -- SXTH
  ⟨10, 0b1011001000, 0xE6BF0070, [(.rdLow, 12), (.rm, 0)]⟩,
  -- UXTH
  ⟨10, 0b1011001010, 0xE6FF0070, [(.rdLow, 12), (.rm, 0)]⟩,
  -- UXTB
  ⟨10, 0b1011001011, 0xE6EF0070, [(.rdLow, 12), (.rm, 0)]⟩,
  -- LDR (1)
  ⟨5, 0b01101, 0xE5900000, [(.rm, 16), (.rdLow, 12), (.immedMid5, 2)]⟩,
  -- LDR (2)
  ⟨7, 0b0101100, 0xE7900000, [(.rm, 16), (.rdLow, 12), (.rn, 0)]⟩,
  -- LDR (4)
  ⟨5, 0b10011, 0xE59D0000, [(.rdHigh, 12), (.immedLow8, 2)]⟩,
  -- LDRB (1)
  ⟨5, 0b01111, 0xE5D00000, [(.rm, 16), (.rdLow, 12), (.immedMid5, 0)]⟩,
  -- LDRB (2)
  ⟨7, 0b0101110, 0xE7D00000, [(.rm, 16), (.rdLow, 12), (.rn, 0)]⟩,
  -- LDRSB
  ⟨7, 0b0101011, 0xE19000D0, [(.rm, 16), (.rdLow, 12), (.rn, 0)]⟩,
  -- LDRSH
  ⟨7, 0b0101111, 0xE19000F0, [(.rm, 16), (.rdLow, 12), (.rn, 0)]⟩,
  -- LDRH (1)
  ⟨5, 0b10001, 0xE1D000B0, [(.rm, 16), (.rdLow, 12), (.immedMid5Upper2, 8), (.immedMid5Lower3, 1)]⟩,
  -- LDRH (2)
  ⟨7, 0b0101101, 0xE19000B0, [(.rm, 16), (.rdLow, 12), (.rn, 0)]⟩,
  -- CMP (1)
  ⟨5, 0b00101, 0xE3500000, [(.rdHigh, 16), (.immedLow8, 0)]⟩,
  -- CMP (2)
  ⟨10, 0b0100001010, 0xE1500000, [(.rdLow, 16), (.rm, 0)]⟩,
  -- STMIA
  ⟨5, 0b11000, 0xE8A00000, [(.rdHigh, 16), (.registerList, 0)]⟩,
  -- STR (1)
  ⟨5, 0b01100, 0xE5800000, [(.rm, 16), (.rdLow, 12), (.immedMid5, 2)]⟩,
  -- STR (2)
  ⟨7, 0b0101000, 0xE7800000, [(.rm, 16), (.rdLow, 12), (.rn, 0)]⟩,
  -- STR (3)
  ⟨5, 0b10010, 0xE58D0000, [(.rdHigh, 12), (.immedLow8, 2)]⟩,
  -- STRB (1)
  ⟨5, 0b01110, 0xE5C00000, [(.rm, 16), (.rdLow, 12), (.immedMid5, 0)]⟩,
  -- STRB (2)
  ⟨7, 0b0101010, 0xE7C00000, [(.rm, 16), (.rdLow, 12), (.rn, 0)]⟩,
  -- STRH (1)
  ⟨5, 0b10000, 0xE1C000B0, [(.rm, 16), (.rdLow, 12), (.immedMid5Upper2, 8), (.immedMid5Lower3, 1)]⟩,
  -- STRH (2)
  ⟨7, 0b0101001, 0xE18000B0, [(.rm, 16), (.rdLow, 12), (.rn, 0)]⟩,
  -- PUSH
  ⟨7, 0b1011010, 0xE92D0000, [(.pushLr, 14), (.registerList, 0)]⟩]

/-- ADD (4) -/
def addHiFormat : ThumbFormat :=
  ⟨8, 0b01000100, 0xE0800000, [(.rdLow, 16), (.rdUpperbit, 19), (.rdLow, 12), (.rdUpperbit, 15),
    (.rm, 0), (.rmUpperbit, 3)]⟩

/-- MOV (3) -/
def movHiFormat : ThumbFormat :=
  ⟨8, 0b01000110, 0xE1A00000, [(.rdLow, 12), (.rdUpperbit, 15), (.rm, 0), (.rmUpperbit, 3)]⟩

/-- CMP (3) -/
def cmpHiFormat : ThumbFormat :=
  ⟨8, 0b01000101, 0xE1500000, [(.rdUpperbit, 19), (.rdLow, 16), (.rmUpperbit, 3), (.rm, 0)]⟩

/-- LDMIA, with the base register among those loaded or not. -/
def ldmiaFormat (hasRd : Bool) : ThumbFormat :=
  ⟨5, 0b11001, if hasRd then 0xE8900000 else 0xE8B00000, [(.rdHigh, 16), (.registerList, 0)]⟩

structure DecodedThumbInstr where
  armEquivalent : Option ARMInstr
  mayReadPC : Bool
  mayModifyPC : Bool
  deriving DecidableEq, Repr

def decodeThumb (instr : ThumbInstr) : Except Fault DecodedThumbInstr :=
  match thumbFormats.find? (·.admits instr) with
  | some f => .ok ⟨some (f.encode instr), false, false⟩
  | none =>
    if addHiFormat.admits instr then
      .ok ⟨some (addHiFormat.encode instr), true, instr.idxRdFull = 15⟩
    else if movHiFormat.admits instr then
      .ok ⟨some (movHiFormat.encode instr), true, instr.idxRdFull = 15⟩
    else if (ldmiaFormat true).admits instr then
      let hasRd := instr.raw.getLsbD instr.idxRdHigh.toNat
      .ok ⟨some ((ldmiaFormat hasRd).encode instr), false, false⟩
    else if cmpHiFormat.admits instr then
      if ThumbField.rdUpperbit.get instr = 0 ∧ ThumbField.rmUpperbit.get instr = 0 then
        .error (.thrown (.invalid "Unpredictable configuration"))
      else if instr.idxRmFull = 15 then
        .error (.thrown (.invalid "Unpredictable configuration"))
      else if instr.idxRdFull = 15 then
        .error (.thrown (.runtimeError "Cannot use PC for this instruction, yet"))
      else .ok ⟨some (cmpHiFormat.encode instr), false, false⟩
    else .ok ⟨none, false, false⟩

end Mikage.Arm
