import Mikage.Lib.Machine
import Mikage.Video.ShaderEngine

/-!
# The shader interpreter

The engine that runs a vertex shader from the words in the shader memory. Each round of its loop
leaves the innermost scope if the program counter is where that one ends, or executes the instruction
at the program counter. Calls, branches and loops all are scopes on one call stack of 16 elements.

- `Context.interpret`: an instruction that computes, `LegacyInterpretShaderOpcode`.
- `Context.step`: a round of `ProcessShaderCode`.
- `Context.run`: `ShaderInterpreter::Run`.
-/

namespace Mikage.Pica.VertexShader.Interpreter

variable {F : Type}

/-! ## The state of a run -/

structure CallStackElement where
  /-- Where the scope is left for `returnAddress`. -/
  finalAddress : ShaderCodeOffset
  returnAddress : ShaderCodeOffset
  /-- How often to repeat until this element is removed. -/
  repeatCounter : BitVec 8
  loopIncrement : BitVec 8
  loopBeginAddress : ShaderCodeOffset
  deriving DecidableEq, Repr

structure Registers (F : Type) where
  outputRegisters : BitVec 4 → Vec4 F
  temporaryRegisters : BitVec 4 → Vec4 F
  conditionalCode : BitVec 1 → Bool
  /-- Two address registers and the loop counter. -/
  addressRegisters : BitVec 2 → BitVec 32

structure State (F : Type) where
  registers : Registers F
  programCounter : ShaderCodeOffset
  /-- The top of the stack comes first. -/
  callStack : List CallStackElement

/-- What the interpreter reads during a run: of the context, the shader and its uniforms; and the
attributes that are mapped to the input registers. -/
structure Context (F : Type) extends Recompiler where
  floatUniforms : Fin 96 → Vec4 F
  inputRegisters : Fin 16 → Vec4 F

namespace Registers

def setAddress (regs : Registers F) (index : BitVec 2) (value : BitVec 32) : Registers F :=
  { regs with addressRegisters := Function.update regs.addressRegisters index value }

def setCondition (regs : Registers F) (index : BitVec 1) (value : Bool) : Registers F :=
  { regs with conditionalCode := Function.update regs.conditionalCode index value }

/-- A destination has five bits: it is an output register or a temporary one. -/
def write (regs : Registers F) (dest swizzle : BitVec 32) (value : Vec4 F) : Registers F :=
  let index : BitVec 4 := dest.setWidth 4
  if dest < 0x10 then
    let value := masked swizzle (regs.outputRegisters index) value
    { regs with outputRegisters := Function.update regs.outputRegisters index value }
  else
    let value := masked swizzle (regs.temporaryRegisters index) value
    { regs with temporaryRegisters := Function.update regs.temporaryRegisters index value }

def addressOffset (regs : Registers F) (index : BitVec 32) : BitVec 32 :=
  if index = 0 then 0 else regs.addressRegisters ((index - 1).setWidth 2)

end Registers

/-! ## Instructions that compute -/

namespace Context

/-- `LookupSourceRegister`. There are 96 float uniforms; what lies behind them is not defined. -/
def lookupSourceRegister (c : Context F) (regs : Registers F) (source : BitVec 32) :
    Except Exception (Vec4 F) :=
  if h : source.toNat < 16 then .ok (c.inputRegisters ⟨source.toNat, h⟩)
  else if source.toNat < 32 then .ok (regs.temporaryRegisters (source.setWidth 4))
  else if h : source.toNat - 32 < 96 then .ok (c.floatUniforms ⟨source.toNat - 32, h⟩)
  else .error (.contractViolated "index < shader_uniforms.f.size()")

variable [Float24 F]

/-- The comparison of a `compare_op`. There is none for the last two values. -/
def comparison (operation : Nat) : Option (F → F → Bool) :=
  match operation with
  | 0 => some Float24.equal
  | 1 => some fun a b => !Float24.equal a b
  | 2 => some Float24.less
  | 3 => some fun a b => Float24.less a b || Float24.equal a b
  | 4 => some fun a b => Float24.less b a
  | 5 => some fun a b => Float24.less b a || Float24.equal a b
  | _ => none

/-- `CMP`, for one of the two components. -/
def compare (operation : BitVec 32) (code : BitVec 1) (src1 src2 : Vec4 F) (regs : Registers F) :
    Registers F :=
  match comparison operation.toNat with
  | some holds => regs.setCondition code (holds (src1 (code.setWidth 2)) (src2 (code.setWidth 2)))
  | none => regs

/-- `MOVA`. -/
def moveToAddress (swizzle : BitVec 32) (src1 : Vec4 F) (regs : Registers F) : Registers F :=
  let regs := if SwizzlePattern.destComponentEnabled swizzle 0 then
    regs.setAddress 0 (Float24.toInt (src1 0)) else regs
  if SwizzlePattern.destComponentEnabled swizzle 1 then
    regs.setAddress 1 (Float24.toInt (src1 1)) else regs

/-- What the case `Arithmetic` does with its swizzled sources. -/
def arithmetic (instr : Instruction) (swizzle : BitVec 32) (src1 src2 : Vec4 F)
    (regs : Registers F) : Registers F :=
  let write := regs.write instr.dest swizzle
  match instr.opcode with
  | .add => write fun i => Float24.add (src1 i) (src2 i)
  | .mul => write fun i => Float24.mul (src1 i) (src2 i)
  | .max => write fun i => if Float24.less (src2 i) (src1 i) then src1 i else src2 i
  | .min => write fun i => if Float24.less (src1 i) (src2 i) then src1 i else src2 i
  | .dp3 => write (dot 3 src1 src2)
  | .dp4 => write (dot 4 src1 src2)
  | .rcp => write fun _ => Float24.rcp (src1 0)
  | .rsq => write fun _ => Float24.rsq (src1 0)
  | .mova => moveToAddress swizzle src1 regs
  | .mov => write src1
  | .cmp => compare instr.compareOpY 1 src1 src2 (compare instr.compareOpX 0 src1 src2 regs)
  | _ => regs  -- "Unhandled arithmetic instruction"

/-- The case `Arithmetic`. The inverted instructions end the program. -/
def interpretArithmetic (c : Context F) (instr : Instruction) (regs : Registers F) :
    Except Exception (Registers F) :=
  if instr.opcode.isInverted then .error (.contractViolated "Bad condition...") else do
    let swizzle := swizzlePattern c.swizzleData instr.operandDescId
    let offset := regs.addressOffset instr.addressRegisterIndex
    let src1 ← c.lookupSourceRegister regs (instr.getSrc1 false + offset)
    let src2 ← c.lookupSourceRegister regs (instr.getSrc2 false)
    return arithmetic instr swizzle (swizzled 1 swizzle src1) (swizzled 2 swizzle src2) regs

/-- The case `MultiplyAdd`. -/
def interpretMultiplyAdd (c : Context F) (instr : Instruction) (regs : Registers F) :
    Except Exception (Registers F) := do
  let swizzle := swizzlePattern c.swizzleData instr.madOperandDescId
  let inverted := instr.opcode.isInverted
  let offset := regs.addressOffset instr.madAddressRegisterIndex
  let src1 ← c.lookupSourceRegister regs instr.madSrc1
  let src2 ← c.lookupSourceRegister regs (instr.madSrc2 inverted + if inverted then 0 else offset)
  let src3 ← c.lookupSourceRegister regs (instr.madSrc3 inverted + if inverted then offset else 0)
  return regs.write instr.madDest swizzle fun i => Float24.add
    (Float24.mul (swizzled 1 swizzle src1 i) (swizzled 2 swizzle src2 i)) (swizzled 3 swizzle src3 i)

/-- `LegacyInterpretShaderOpcode`. -/
def interpret (c : Context F) (instr : Instruction) (regs : Registers F) :
    Except Exception (Registers F) :=
  match instr.opcode with
  | .mad | .madi => c.interpretMultiplyAdd instr regs
  | _ => c.interpretArithmetic instr regs

end Context

/-! ## Scopes -/

/-- `evaluate_condition`. -/
def Registers.evaluateCondition (regs : Registers F) (operation : BitVec 32) (refx refy : Bool) :
    Bool :=
  let x := refx == regs.conditionalCode 0
  let y := refy == regs.conditionalCode 1
  match operation.toNat with
  | 0 => x || y
  | 1 => x && y
  | 2 => x
  | _ => y

namespace State

/-- What the loop tries before it reads an instruction. -/
def leaveScope (s : State F) : Option (State F) :=
  match s.callStack with
  | [] => none
  | top :: rest =>
    if s.programCounter = top.finalAddress then
      let registers := s.registers.setAddress 2
        (s.registers.addressRegisters 2 + top.loopIncrement.setWidth 32)
      if top.repeatCounter = 0 then some ⟨registers, top.returnAddress, rest⟩
      else some ⟨registers, top.loopBeginAddress,
        { top with repeatCounter := top.repeatCounter - 1 } :: rest⟩
    else none

/-- The lambda `call`. The program counter is advanced behind every instruction, hence the
decrement. -/
def call (s : State F) (offset numInstructions returnOffset : ShaderCodeOffset)
    (repeatCount loopIncrement : BitVec 8) : Except Exception (State F) :=
  if s.callStack.length ≥ 16 then .error (.runtimeError "Shader call stack exhausted")
  else .ok { s with
    programCounter := offset - 1
    callStack := ⟨offset + numInstructions, returnOffset, repeatCount, loopIncrement, offset⟩ ::
      s.callStack }

/-- `IFU` and `IFC`: either body is a scope of its own. -/
def branch (s : State F) (instr : Instruction) (condition : Bool) : Except Exception (State F) :=
  let next := s.programCounter + 1
  if condition then
    s.call next (instr.destOffset - next) (instr.destOffset + instr.numInstructions) 0 0
  else
    s.call instr.destOffset instr.numInstructions (instr.destOffset + instr.numInstructions) 0 0

end State

variable [Float24 F]

namespace Context

/-- An instruction that does not compute: the state before the program counter is advanced, or none
after `END`. -/
def executeControl (c : Context F) (s : State F) (instr : Instruction) :
    Except Exception (Option (State F)) :=
  let next := s.programCounter + 1
  let condition := s.registers.evaluateCondition instr.conditionOp instr.refx instr.refy
  match instr.opcode with
  | .end' => .ok none
  | .jmpc => .ok (some (if condition then { s with programCounter := instr.destOffset - 1 } else s))
  | .jmpu =>
    -- The lowest bit of `num_instructions` inverts the condition.
    .ok (some (if c.bool instr = !instr.numInstructions.getLsbD 0 then
      { s with programCounter := instr.destOffset - 1 } else s))
  | .call => (s.call instr.destOffset instr.numInstructions next 0 0).map some
  | .callu =>
    if c.bool instr then (s.call instr.destOffset instr.numInstructions next 0 0).map some
    else .ok (some s)
  | .callc =>
    if condition then (s.call instr.destOffset instr.numInstructions next 0 0).map some
    else .ok (some s)
  | .ifu => (s.branch instr (c.bool instr)).map some
  | .ifc => (s.branch instr condition).map some
  | .loop =>
    let s := { s with registers := s.registers.setAddress 2 (c.int instr 1) }
    (s.call next (instr.destOffset - s.programCounter) (instr.destOffset + 1)
      ((c.int instr 0).setWidth 8) ((c.int instr 2).setWidth 8)).map some
  | _ => .ok (some s)  -- "Unhandled instruction"

def execute (c : Context F) (s : State F) (instr : Instruction) :
    Except Exception (Option (State F)) :=
  if instr.opcode.isArithmetic then
    (c.interpret instr s.registers).map fun registers => some { s with registers }
  else c.executeControl s instr

/-- Where the loop goes on after an instruction. What a run leaves behind is in the registers. -/
def advance (s : State F) : Except Exception (Option (State F)) →
    State F ⊕ Except Exception (Registers F)
  | .error e => .inr (.error e)
  | .ok none => .inr (.ok s.registers)
  | .ok (some s) => .inl { s with programCounter := s.programCounter + 1 }

/-- A round of `ProcessShaderCode`. -/
def step (c : Context F) (s : State F) : State F ⊕ Except Exception (Registers F) :=
  match s.leaveScope with
  | some s => .inl s
  | none => advance s (do c.execute s (← c.shaderMemory.readFrom s.programCounter))

/-- `ProcessShaderCode`, up to a number of rounds. -/
def processShaderCode (c : Context F) (steps : Nat) (s : State F) :
    Option (Except Exception (Registers F)) :=
  Machine.run c.step steps s

end Context

/-- `Run` starts with what the last run has left in the output and temporary registers. -/
def Registers.atStart (regs : Registers F) : Registers F :=
  { regs with conditionalCode := fun _ => false, addressRegisters := fun _ => 0 }

/-- `ShaderInterpreter::Run`: the output vertex, from what the memory it is built in holds before.
None where the run takes more rounds, or where the search for output registers does not end. -/
def Context.run (c : Context F) (config : OutputConfiguration) (entryPoint : ShaderCodeOffset)
    (regs : Registers F) (vertex : Nat → F) (steps : Nat) : Except Exception (Option (Nat → F)) :=
  match c.processShaderCode steps ⟨regs.atStart, entryPoint, []⟩ with
  | none => .ok none
  | some (.error e) => .error e
  | some (.ok regs) =>
    .ok (config.outputVertex (fun i => regs.outputRegisters (i.setWidth 4)) vertex)

end Mikage.Pica.VertexShader.Interpreter
