import Mathlib
import Mikage.Framework.Exceptions

/-!
# Recompiling a vertex shader to micro code

The translation of the analysed blocks of a PICA200 vertex shader to micro ops. A micro op holds
everything it needs of the instruction it comes from: the registers, the swizzle pattern, the bool
uniforms that decide a branch, and the integer uniforms a loop counts with. Nothing of that is looked
up again when the shader runs.

- `Instruction`: the fields of an instruction word.
- `recompileToMicroCode`: the blocks of an analysed program, one after the other.
- `MicroCode.link`: where blocks refer to each other, the micro op their target starts with.
-/

namespace Mikage.Pica.VertexShader

/-! ## Instructions -/

/-- An offset in a shader, in words. -/
abbrev ShaderCodeOffset := BitVec 32

abbrev Instruction := BitVec 32

/-- `OpCode::Id`, as `EffectiveOpCode` gives it. -/
inductive OpCode where
  | add | dp3 | dp4 | dph | ex2 | lg2 | mul | sge | slt | flr | max | min | rcp | rsq
  | mova | mov | dphi | sgei | slti
  | nop | end' | breakc | call | callc | callu | ifu | ifc | loop | emit | setemit | jmpc | jmpu
  | cmp | madi | mad | unknown
  deriving DecidableEq, Repr

namespace OpCode

def ofValue : Nat → OpCode
  | 0x00 => add | 0x01 => dp3 | 0x02 => dp4 | 0x03 => dph | 0x05 => ex2 | 0x06 => lg2
  | 0x08 => mul | 0x09 => sge | 0x0a => slt | 0x0b => flr | 0x0c => max | 0x0d => min
  | 0x0e => rcp | 0x0f => rsq | 0x12 => mova | 0x13 => mov | 0x18 => dphi | 0x1a => sgei
  | 0x1b => slti | 0x21 => nop | 0x22 => end' | 0x23 => breakc | 0x24 => call | 0x25 => callc
  | 0x26 => callu | 0x27 => ifu | 0x28 => ifc | 0x29 => loop | 0x2a => emit | 0x2b => setemit
  | 0x2c => jmpc | 0x2d => jmpu | 0x2e => cmp | 0x2f => cmp
  | value => if 0x30 ≤ value ∧ value < 0x38 then madi
    else if 0x38 ≤ value ∧ value < 0x40 then mad else unknown

/-- The types `Arithmetic` and `MultiplyAdd` of the table of opcodes. -/
def isArithmetic : OpCode → Bool
  | add | dp3 | dp4 | dph | ex2 | lg2 | mul | sge | slt | flr | max | min | rcp | rsq => true
  | mova | mov | dphi | sgei | slti | cmp | madi | mad => true
  | _ => false

/-- `OpCode::Info::SrcInversed`. -/
def isInverted : OpCode → Bool
  | dphi | sgei | slti | madi => true
  | _ => false

end OpCode

namespace Instruction

def field (hex : Instruction) (position length : Nat) : BitVec 32 :=
  hex >>> position &&& BitVec.ofNat 32 (2 ^ length - 1)

def opcode (instr : Instruction) : OpCode := .ofValue (field instr 0x1a 6).toNat

/-! The format of arithmetic instructions and comparisons. -/

def operandDescId (instr : Instruction) : BitVec 32 := field instr 0x00 7
def getSrc1 (instr : Instruction) (inverted : Bool) : BitVec 32 :=
  if inverted then field instr 0x0e 5 else field instr 0x0c 7
def getSrc2 (instr : Instruction) (inverted : Bool) : BitVec 32 :=
  if inverted then field instr 0x07 7 else field instr 0x07 5
def addressRegisterIndex (instr : Instruction) : BitVec 32 := field instr 0x13 2
def compareOpX (instr : Instruction) : BitVec 32 := field instr 0x18 3
def compareOpY (instr : Instruction) : BitVec 32 := field instr 0x15 3
def dest (instr : Instruction) : BitVec 32 := field instr 0x15 5

/-! The format of multiply-add instructions. -/

def madOperandDescId (instr : Instruction) : BitVec 32 := field instr 0x00 5
def madSrc1 (instr : Instruction) : BitVec 32 := field instr 0x11 5
def madSrc2 (instr : Instruction) (inverted : Bool) : BitVec 32 :=
  if inverted then field instr 0x0c 5 else field instr 0x0a 7
def madSrc3 (instr : Instruction) (inverted : Bool) : BitVec 32 :=
  if inverted then field instr 0x05 7 else field instr 0x05 5
def madAddressRegisterIndex (instr : Instruction) : BitVec 32 := field instr 0x16 2
def madDest (instr : Instruction) : BitVec 32 := field instr 0x18 5

/-! The format of control flow. -/

def numInstructions (instr : Instruction) : BitVec 32 := field instr 0x00 8
def destOffset (instr : Instruction) : ShaderCodeOffset := field instr 0x0a 0xc
def conditionOp (instr : Instruction) : BitVec 32 := field instr 0x16 2
def boolUniformId (instr : Instruction) : Nat := (field instr 0x16 4).toNat
def intUniformId (instr : Instruction) : BitVec 32 := field instr 0x16 2
def refy (instr : Instruction) : Bool := instr.getLsbD 0x18
def refx (instr : Instruction) : Bool := instr.getLsbD 0x19

end Instruction

/-! ## The analysed program -/

inductive SuccessionVia where
  | branchToIf | branchToElse | fallthrough | return | jumpTo | exitLoop | loopEnd | condJumpTo
  deriving DecidableEq, Repr

/-- What the end of a block does besides falling through. -/
inductive PostExecJump where
  | none
  | popCallStack
  | returnTo (target : ShaderCodeOffset)
  deriving DecidableEq, Repr

structure BlockInfo where
  /-- 0xffffffff where no end is known. -/
  length : BitVec 32 := 0xffffffff
  successors : List (ShaderCodeOffset × SuccessionVia) := []
  postExecJump : PostExecJump := .none
  deriving DecidableEq, Repr

/-- The blocks in the order of their offsets. -/
structure AnalyzedProgram where
  blocks : List (ShaderCodeOffset × BlockInfo)
  deriving DecidableEq, Repr

/-! ## Micro ops -/

inductive MicroOpType where
  | add | mul | max | min | dot3 | dot4 | mov | floor | movToAddressReg | rcp | rsq | mad
  | compareEq | compareNeq | compareLess | compareLeq | compareGt | compareGeq
  | goto | branch | call | popCallStack | prepareLoop | enterLoop
  | evalConditionOr | evalConditionAnd | evalConditionJustX | evalConditionJustY
  | predicateNext | end'
  deriving DecidableEq, Repr

structure MicroOp where
  type : MicroOpType
  arg0 : BitVec 32 := 0
  arg1 : BitVec 32 := 0
  arg2 : BitVec 32 := 0
  deriving DecidableEq, Repr

structure MicroCode where
  /-- The first micro op of each block. -/
  blockOffsets : List (ShaderCodeOffset × Nat) := []
  ops : List MicroOp := []
  glsl : String := ""
  deriving DecidableEq, Repr

/-- `AddMicroOp`. -/
def MicroCode.addMicroOp (code : MicroCode) (type : MicroOpType) (arg0 arg1 arg2 : BitVec 32) :
    MicroCode :=
  { code with ops := code.ops ++ [⟨type, arg0, arg1, arg2⟩] }

/-- The micro op `operation` places behind `Compare`. Past the last comparison come the jumps. -/
def compareType (operation : Nat) : MicroOpType :=
  match operation with
  | 0 => .compareEq | 1 => .compareNeq | 2 => .compareLess | 3 => .compareLeq | 4 => .compareGt
  | 5 => .compareGeq | 6 => .goto | _ => .branch

def evalConditionType (operation : Nat) : MicroOpType :=
  match operation with
  | 0 => .evalConditionOr | 1 => .evalConditionAnd | 2 => .evalConditionJustX
  | _ => .evalConditionJustY

/-- The index of the conditional code that holds the result. -/
def emitMicroOpEvalCondition (code : MicroCode) (instr : Instruction) : MicroCode × BitVec 32 :=
  if instr.conditionOp = 2 ∧ instr.refx then (code, 0)
  else if instr.conditionOp = 3 ∧ instr.refy then (code, 1)
  else (code.addMicroOp (evalConditionType instr.conditionOp.toNat)
    (if instr.refx then 1 else 0) (if instr.refy then 1 else 0) 0, 2)

/-! ## Recompilation -/

/-- The shader memory and the table of swizzle patterns. -/
abbrev ShaderMemory := Fin 1024 → BitVec 32

/-- `ReadFrom`. The array has 1024 words; what lies behind it is not defined. -/
def ShaderMemory.readFrom (memory : ShaderMemory) (offset : ShaderCodeOffset) :
    Except Exception Instruction :=
  if h : offset.toNat < 1024 then .ok (memory ⟨offset.toNat, h⟩)
  else .error (.contractViolated "offset < shader_memory.size()")

/-- An identifier of a swizzle pattern has at most 7 bits. -/
def swizzlePattern (swizzleData : ShaderMemory) (id : BitVec 32) : BitVec 32 :=
  swizzleData (id.setWidth 10).toFin

/-- Output registers are relocated to 0x80. -/
def relocated (dest : BitVec 32) : BitVec 32 := if dest < 0x10 then dest + 0x80 else dest

/-- The micro ops of an instruction that is no control flow. Some opcodes have none. -/
def emitArithmetic (swizzleData : ShaderMemory) (code : MicroCode) (instr : Instruction) :
    MicroCode :=
  let inverted := instr.opcode.isInverted
  let address := instr.addressRegisterIndex
  let srcInfo := instr.getSrc1 inverted ||| instr.getSrc2 inverted <<< 16 |||
    (if inverted then 0 else address) <<< 8 ||| (if inverted then address else 0) <<< 24
  let dst := relocated instr.dest
  let swizzle := swizzlePattern swizzleData
    (if instr.opcode = .mad then instr.madOperandDescId else instr.operandDescId)
  match instr.opcode with
  | .add => code.addMicroOp .add srcInfo dst swizzle
  | .mul => code.addMicroOp .mul srcInfo dst swizzle
  | .max => code.addMicroOp .max srcInfo dst swizzle
  | .min => code.addMicroOp .min srcInfo dst swizzle
  | .dp3 => code.addMicroOp .dot3 srcInfo dst swizzle
  | .dp4 => code.addMicroOp .dot4 srcInfo dst swizzle
  | .mov => code.addMicroOp .mov srcInfo dst swizzle
  | .flr => code.addMicroOp .floor srcInfo dst swizzle
  | .mova => code.addMicroOp .movToAddressReg srcInfo dst swizzle
  | .cmp =>
    let pattern := swizzlePattern swizzleData instr.operandDescId
    (code.addMicroOp (compareType instr.compareOpX.toNat) srcInfo 0 pattern).addMicroOp
      (compareType instr.compareOpY.toNat) srcInfo 1 pattern
  | .rcp => code.addMicroOp .rcp srcInfo dst swizzle
  | .rsq => code.addMicroOp .rsq srcInfo dst swizzle
  | .mad | .madi =>
    let address := instr.madAddressRegisterIndex
    let srcInfo := instr.madSrc1 ||| instr.madSrc2 inverted <<< 16 |||
      (if inverted then 0 else address) <<< 8 ||| (if inverted then address else 0) <<< 24
    code.addMicroOp .mad srcInfo (relocated instr.madDest ||| instr.madSrc3 inverted <<< 16) swizzle
  | _ => code

/-- What the recompiler is given besides the analysed program. -/
structure Recompiler where
  shaderMemory : ShaderMemory
  swizzleData : ShaderMemory
  boolUniforms : BitVec 16
  /-- The registers of the integer uniforms: the components x, y, z and w from the lowest byte. -/
  intUniforms : Fin 4 → BitVec 32

namespace Recompiler

def bool (r : Recompiler) (instr : Instruction) : Bool := r.boolUniforms.getLsbD instr.boolUniformId

/-- A component of the integer uniform a loop uses. -/
def int (r : Recompiler) (instr : Instruction) (component : Nat) : BitVec 32 :=
  r.intUniforms (instr.intUniformId.setWidth 2).toFin >>> (8 * component) &&& 0xff

/-- The micro ops of one instruction, and whether the next block is not linked behind it. -/
def emit (r : Recompiler) (code : MicroCode) (offset : ShaderCodeOffset) (dontLink : Bool) :
    Except Exception (MicroCode × Bool) := do
  let instr ← r.shaderMemory.readFrom offset
  let next := offset + 1
  if instr.opcode.isArithmetic then return (emitArithmetic r.swizzleData code instr, dontLink)
  match instr.opcode with
  | .nop | .breakc => return (code, dontLink)
  | .end' => return (code.addMicroOp .end' 0 0 0, true)
  | .call =>
    return (code.addMicroOp .call instr.destOffset instr.numInstructions next, true)
  | .callc =>
    let (code, predicate) := emitMicroOpEvalCondition code instr
    return ((code.addMicroOp .predicateNext predicate offset 0).addMicroOp .call instr.destOffset
      instr.numInstructions next, false)
  | .callu =>
    if r.bool instr then
      return (code.addMicroOp .call instr.destOffset instr.numInstructions next, false)
    return (code, false)
  | .ifc =>
    let (code, predicate) := emitMicroOpEvalCondition code instr
    -- A true condition jumps to the if-body, past the jump to the else-body.
    return (((code.addMicroOp .predicateNext predicate offset 0).addMicroOp .goto next next 0).addMicroOp
      .goto instr.destOffset instr.destOffset 0, true)
  | .ifu =>
    let target := if r.bool instr then next else instr.destOffset
    return (code.addMicroOp .goto target target 0, true)
  | .jmpc =>
    let (code, predicate) := emitMicroOpEvalCondition code instr
    return (code.addMicroOp .branch predicate instr.destOffset next, true)
  | .jmpu =>
    -- The lowest bit of `num_instructions` inverts the condition.
    let target := if r.bool instr = !instr.numInstructions.getLsbD 0 then instr.destOffset else next
    return (code.addMicroOp .goto target target 0, true)
  | .loop =>
    return ((code.addMicroOp .prepareLoop (r.int instr 0) (r.int instr 1) (r.int instr 2)).addMicroOp
      .enterLoop next (instr.destOffset - offset) (instr.destOffset + 1), true)
  | _ => throw (.runtimeError "TODO: Unrecognized instruction at offset")

/-- The instructions of a block. -/
def emitRange (r : Recompiler) (code : MicroCode) (offset : ShaderCodeOffset) (dontLink : Bool) :
    Nat → Except Exception (MicroCode × Bool)
  | 0 => .ok (code, dontLink)
  | length + 1 => do
    let (code, dontLink) ← r.emit code offset dontLink
    emitRange r code (offset + 1) dontLink length

/-- A block and what its end does. -/
def emitBlock (r : Recompiler) (last : Bool) (code : MicroCode) (start : ShaderCodeOffset)
    (block : BlockInfo) : Except Exception MicroCode := do
  if (code.blockOffsets.lookup start).isSome then
    throw (.runtimeError "Already processed block at pica byte offset")
  let code := { code with blockOffsets := code.blockOffsets ++ [(start, code.ops.length)] }
  if block.length = 0xffffffff then throw (.runtimeError "Unknown block length for block starting at")
  let (code, dontLink) ← r.emitRange code start false block.length.toNat
  let blockEnd := start + block.length
  let (code, dontLink) ← match block.postExecJump with
    | .popCallStack =>
      -- A loop's last block has one successor, any other block that returns has none.
      if block.successors.all (·.2 = .loopEnd) ∧ block.successors.length ≤ 1 then
        pure (code.addMicroOp .popCallStack (BitVec.ofNat 32 code.ops.length) start 0, true)
      else throw (.contractViolated "successors.empty() || successors.size() == 1")
    | .returnTo target => pure (code.addMicroOp .goto target target 0, true)
    | .none => pure (code, dontLink)
  let code := if !dontLink ∧ !last then code.addMicroOp .goto blockEnd blockEnd 0 else code
  if code.ops.isEmpty then throw (.runtimeError "No micro ops generated for block")
  return code

def emitBlocks (r : Recompiler) (code : MicroCode) :
    List (ShaderCodeOffset × BlockInfo) → Except Exception MicroCode
  | [] => .ok code
  | (start, block) :: blocks => do
    let code ← r.emitBlock blocks.isEmpty code start block
    emitBlocks r code blocks

end Recompiler

/-- `RecompileToMicroCode`. -/
def recompileToMicroCode (r : Recompiler) (program : AnalyzedProgram) : Except Exception MicroCode :=
  r.emitBlocks {} program.blocks

/-! ## The engine's constructor -/

namespace MicroCode

/-- `block_offsets.at`. -/
def offsetAt (code : MicroCode) (block : ShaderCodeOffset) : Except Exception (BitVec 32) :=
  match code.blockOffsets.lookup block with
  | some offset => .ok (BitVec.ofNat 32 offset)
  | none => .error (.runtimeError "map::at")

/-- Patches the offsets of the shader in a micro op up to offsets in the micro code. -/
def linkOp (code : MicroCode) (op : MicroOp) : Except Exception MicroOp :=
  match op.type with
  | .goto => do return { op with arg0 := ← code.offsetAt op.arg0 }
  | .branch => do return { op with arg1 := ← code.offsetAt op.arg1, arg2 := ← code.offsetAt op.arg2 }
  | .call | .enterLoop => do
    let target ← code.offsetAt op.arg0
    let returnTo ← code.offsetAt op.arg2
    -- The counter this compares with is never advanced: it stays before the first micro op.
    if target = 0xffffffff then throw (.runtimeError "Detected infinite loop")
    return { op with arg0 := target, arg2 := returnTo }
  | _ => .ok op

/-- `MicroCodeRecompilerEngine`. -/
def link (code : MicroCode) : Except Exception MicroCode := do
  return { code with ops := ← code.ops.mapM code.linkOp }

end MicroCode

end Mikage.Pica.VertexShader
