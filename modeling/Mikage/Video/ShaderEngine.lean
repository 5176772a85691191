import Mikage.Video.MicroCode

/-!
# Shader engines

How a vertex goes through an engine. The recompiler's engine runs its micro code on registers of its
own; the float uniforms, the vertex and the output configuration come from the context at the time of
the run. The interpreter has nothing but its registers: it reads the shader from the context as well.

- `MicroOp.execute`: the handlers of the micro ops.
- `Engine.run`: an engine's `Run`, up to a number of micro ops.
-/

namespace Mikage.Pica.VertexShader

/-- The operations on `float24` the handlers use. -/
class Float24 (F : Type) where
  add : F → F → F
  mul : F → F → F
  less : F → F → Bool
  equal : F → F → Bool
  floor : F → F
  rcp : F → F
  rsq : F → F
  toInt : F → BitVec 32
  fromFloat32 : BitVec 32 → F
  fromRawFloat : BitVec 24 → F
  zero : F
  minusOne : F

variable {F : Type} [Float24 F]

/-- A register of four components x, y, z and w. -/
abbrev Vec4 (F : Type) := BitVec 2 → F

/-! ## Swizzle patterns -/

namespace SwizzlePattern

/-- The component of a source that is read for `comp`, where `position` is where the selectors of that
source begin. -/
def selector (swizzle : BitVec 32) (position : Nat) (comp : BitVec 2) : BitVec 2 :=
  (swizzle >>> (position - 2 * comp.toNat)).setWidth 2

def destComponentEnabled (swizzle : BitVec 32) (comp : BitVec 2) : Bool :=
  swizzle.getLsbD (3 - comp.toNat)

end SwizzlePattern

/-- `GetSwizzledSourceRegister`: the selectors of source `n` begin at bit 2 + 9 * n, and its sign is
bit 9 * n - 5. -/
def swizzled (n : Nat) (swizzle : BitVec 32) (register : Vec4 F) : Vec4 F := fun comp =>
  let value := register (SwizzlePattern.selector swizzle (9 * n + 2) comp)
  if swizzle.getLsbD (9 * n - 5) then Float24.mul value Float24.minusOne else value

/-- What a destination holds after a write of `value`. -/
def masked (swizzle : BitVec 32) (register value : Vec4 F) : Vec4 F := fun comp =>
  if SwizzlePattern.destComponentEnabled swizzle comp then value comp else register comp

/-! ## The state of a run -/

structure CallStackElement where
  returnAddress : BitVec 32
  /-- How often to repeat until this element is removed. -/
  repeatCounter : BitVec 8
  loopIncrement : BitVec 8
  loopBeginAddress : BitVec 32
  deriving DecidableEq, Repr

structure RuntimeContext (F : Type) where
  /-- One block: input registers, temporary registers from 0x10, float uniforms from 0x20, output
  registers from 0x80. -/
  registers : BitVec 32 → Vec4 F
  /-- Two conditional codes of the PICA200 and one for internal use. -/
  conditionalCode : BitVec 32 → Bool
  /-- Zero, the two address registers and the loop counter. -/
  addressRegisters : BitVec 32 → BitVec 32
  nextRepeatCounter : BitVec 8 := 0
  nextLoopIncrement : BitVec 8 := 0
  /-- The top of the stack comes first. -/
  callStack : List CallStackElement := []
  nextMicroOp : Nat := 0

namespace RuntimeContext

def setRegister (ctx : RuntimeContext F) (index : BitVec 32) (value : Vec4 F) : RuntimeContext F :=
  { ctx with registers := Function.update ctx.registers index value }

def setCondition (ctx : RuntimeContext F) (index : BitVec 32) (value : Bool) : RuntimeContext F :=
  { ctx with conditionalCode := Function.update ctx.conditionalCode index value }

def setAddress (ctx : RuntimeContext F) (index value : BitVec 32) : RuntimeContext F :=
  { ctx with addressRegisters := Function.update ctx.addressRegisters index value }

/-- A register addressed relative to an address register, not beyond the float uniforms. -/
def relative (ctx : RuntimeContext F) (register address : BitVec 32) : BitVec 32 :=
  let index := register + ctx.addressRegisters address
  if index < 127 then index else 127

def jump (ctx : RuntimeContext F) (target : BitVec 32) : RuntimeContext F :=
  { ctx with nextMicroOp := target.toNat }

end RuntimeContext

/-! ## The handlers -/

/-- The bytes of a micro op's `src_info`. -/
def byte (info : BitVec 32) (n : Nat) : BitVec 32 := info >>> (8 * n) &&& 0xff

/-- `DotHelper`. -/
def dot (n : Nat) (src1 src2 : Vec4 F) : Vec4 F := fun _ =>
  ([0, 1, 2, 3].take n).foldl (fun sum i => Float24.add sum (Float24.mul (src1 i) (src2 i)))
    Float24.zero

/-- `BinaryArithmetic`. -/
def binaryArithmetic (operation : Vec4 F → Vec4 F → Vec4 F) (op : MicroOp) (ctx : RuntimeContext F) :
    RuntimeContext F :=
  let src1 := swizzled 1 op.arg2 (ctx.registers (ctx.relative (byte op.arg0 0) (byte op.arg0 1)))
  let src2 := swizzled 2 op.arg2 (ctx.registers (byte op.arg0 2))
  ctx.setRegister op.arg1 (masked op.arg2 (ctx.registers op.arg1) (operation src1 src2))

/-- `UnaryArithmetic`, `Rcp` and `Rsq`. -/
def unaryArithmetic (operation : Vec4 F → Vec4 F) (op : MicroOp) (ctx : RuntimeContext F) :
    RuntimeContext F :=
  let src1 := swizzled 1 op.arg2 (ctx.registers (ctx.relative (byte op.arg0 0) (byte op.arg0 1)))
  ctx.setRegister op.arg1 (masked op.arg2 (ctx.registers op.arg1) (operation src1))

/-- `Mad`. -/
def mad (op : MicroOp) (ctx : RuntimeContext F) : RuntimeContext F :=
  let src1 := swizzled 1 op.arg2 (ctx.registers (byte op.arg0 0))
  let src2 := swizzled 2 op.arg2 (ctx.registers (ctx.relative (byte op.arg0 2) (byte op.arg0 1)))
  let src3 := swizzled 3 op.arg2 (ctx.registers (ctx.relative (byte op.arg1 2) (byte op.arg0 3)))
  ctx.setRegister (byte op.arg1 0) (masked op.arg2 (ctx.registers (byte op.arg1 0))
    fun i => Float24.add (Float24.mul (src1 i) (src2 i)) (src3 i))

/-- `MovToAddressReg`. The second component is read after the first one is written; neither write
changes which register is read. -/
def movToAddressReg (op : MicroOp) (ctx : RuntimeContext F) : RuntimeContext F :=
  let src1 := swizzled 1 op.arg2 (ctx.registers (ctx.relative (byte op.arg0 0) (byte op.arg0 1)))
  let ctx := if SwizzlePattern.destComponentEnabled op.arg2 0 then
    ctx.setAddress 1 (Float24.toInt (src1 0)) else ctx
  if SwizzlePattern.destComponentEnabled op.arg2 1 then
    ctx.setAddress 2 (Float24.toInt (src1 1)) else ctx

/-- `Cmp`, for the component the micro op names. -/
def cmp (compare : F → F → Bool) (op : MicroOp) (ctx : RuntimeContext F) : RuntimeContext F :=
  let comp := op.arg1.setWidth 2
  let src1 := swizzled 1 op.arg2
    (ctx.registers (byte op.arg0 0 + ctx.addressRegisters (byte op.arg0 1))) comp
  let src2 := swizzled 2 op.arg2 (ctx.registers (byte op.arg0 2)) comp
  ctx.setCondition op.arg1 (compare src1 src2)

/-- `EvalCondition`. -/
def evalCondition (combine : Bool → Bool → Bool) (op : MicroOp) (ctx : RuntimeContext F) :
    RuntimeContext F :=
  ctx.setCondition 2 (combine
    (op.arg0 = if ctx.conditionalCode 0 then 1 else 0)
    (op.arg1 = if ctx.conditionalCode 1 then 1 else 0))

/-- `Call`. -/
def call (isLoopBegin : Bool) (op : MicroOp) (ctx : RuntimeContext F) :
    Except Exception (RuntimeContext F) :=
  if ctx.callStack.length ≥ 16 then .error (.runtimeError "Shader call stack exhausted")
  else .ok { ctx.jump op.arg0 with callStack := {
    returnAddress := op.arg2
    repeatCounter := if isLoopBegin then ctx.nextRepeatCounter else 0
    loopIncrement := if isLoopBegin then ctx.nextLoopIncrement else 0
    loopBeginAddress := op.arg0 } :: ctx.callStack }

/-- `PopCallStack`. -/
def popCallStack (ctx : RuntimeContext F) : Except Exception (RuntimeContext F) :=
  match ctx.callStack with
  | top :: second :: rest =>
    let ctx := ctx.setAddress 3 (ctx.addressRegisters 3 + top.loopIncrement.setWidth 32)
    if top.repeatCounter = 0 then
      .ok { ctx.jump top.returnAddress with callStack := second :: rest }
    else
      .ok { ctx.jump top.loopBeginAddress with
        callStack := { top with repeatCounter := top.repeatCounter - 1 } :: second :: rest }
  | _ => .error (.runtimeError "yo wtf")

/-- `PrepareLoop`. -/
def prepareLoop (op : MicroOp) (ctx : RuntimeContext F) : RuntimeContext F :=
  { ctx.setAddress 3 op.arg1 with
    nextRepeatCounter := op.arg0.setWidth 8
    nextLoopIncrement := op.arg2.setWidth 8 }

/-- A micro op's handler: the state in which the next one is fetched, or none after `End`. -/
def MicroOp.execute (op : MicroOp) (ctx : RuntimeContext F) :
    Except Exception (Option (RuntimeContext F)) :=
  match op.type with
  | .add => .ok (binaryArithmetic (fun a b i => Float24.add (a i) (b i)) op ctx)
  | .mul => .ok (binaryArithmetic (fun a b i => Float24.mul (a i) (b i)) op ctx)
  | .max => .ok (binaryArithmetic (fun a b i => if Float24.less (b i) (a i) then a i else b i) op ctx)
  | .min => .ok (binaryArithmetic (fun a b i => if Float24.less (a i) (b i) then a i else b i) op ctx)
  | .dot3 => .ok (binaryArithmetic (dot 3) op ctx)
  | .dot4 => .ok (binaryArithmetic (dot 4) op ctx)
  | .mov => .ok (unaryArithmetic id op ctx)
  | .floor => .ok (unaryArithmetic (fun a i => Float24.floor (a i)) op ctx)
  | .movToAddressReg => .ok (movToAddressReg op ctx)
  | .rcp => .ok (unaryArithmetic (fun a _ => Float24.rcp (a 0)) op ctx)
  | .rsq => .ok (unaryArithmetic (fun a _ => Float24.rsq (a 0)) op ctx)
  | .mad => .ok (mad op ctx)
  | .compareEq => .ok (cmp Float24.equal op ctx)
  | .compareNeq => .ok (cmp (fun a b => !Float24.equal a b) op ctx)
  | .compareLess => .ok (cmp Float24.less op ctx)
  | .compareLeq => .ok (cmp (fun a b => Float24.less a b || Float24.equal a b) op ctx)
  | .compareGt => .ok (cmp (fun a b => Float24.less b a) op ctx)
  | .compareGeq => .ok (cmp (fun a b => Float24.less b a || Float24.equal a b) op ctx)
  | .goto => .ok (ctx.jump op.arg0)
  | .branch => .ok (ctx.jump (if ctx.conditionalCode op.arg0 then op.arg1 else op.arg2))
  | .call => do return some (← call false op ctx)
  | .enterLoop => do return some (← call true op ctx)
  | .popCallStack => do return some (← popCallStack ctx)
  | .prepareLoop => .ok (prepareLoop op ctx)
  | .evalConditionOr => .ok (evalCondition (· || ·) op ctx)
  | .evalConditionAnd => .ok (evalCondition (· && ·) op ctx)
  | .evalConditionJustX => .ok (evalCondition (fun x _ => x) op ctx)
  | .evalConditionJustY => .ok (evalCondition (fun _ y => y) op ctx)
  | .predicateNext => .ok (some (if ctx.conditionalCode op.arg0 then ctx
      else { ctx with nextMicroOp := ctx.nextMicroOp + 1 }))
  | .end' => .ok none

/-- At most `n` micro ops, the first of them at `nextMicroOp`. None where that is not enough. -/
def MicroCode.execute (code : MicroCode) (ctx : RuntimeContext F) :
    Nat → Except Exception (Option (RuntimeContext F))
  | 0 => .ok none
  | n + 1 =>
    match code.ops[ctx.nextMicroOp]? with
    | none => .error (.contractViolated "next_micro_op < ops.size()")
    | some op => do
      match ← op.execute { ctx with nextMicroOp := ctx.nextMicroOp + 1 } with
      | none => return some ctx
      | some ctx => code.execute ctx n

/-! ## Output -/

/-- The registers that map output registers to attributes of the vertex. -/
structure OutputConfiguration where
  outputAttributesMinus1 : BitVec 32
  outputAttributesMinus1Copy : BitVec 32
  registerMask : BitVec 16
  numOutputAttributes : BitVec 3
  semantics : Fin 7 → BitVec 32

namespace OutputConfiguration

def activeRegisters (config : OutputConfiguration) : List Nat :=
  (List.range 16).filter (config.registerMask.getLsbD ·)

/-- `ValidateOutputConfiguration`. -/
def validate (config : OutputConfiguration) : Except Exception Unit :=
  if config.outputAttributesMinus1 ≠ config.outputAttributesMinus1Copy then
    .error (.invalid "Inconsistent VS output attribute counts")
  else if config.outputAttributesMinus1.toNat ≥ config.activeRegisters.length then
    .error (.invalid "Requested {} output attributes, but only {} were output by the shader")
  else .ok ()

/-- A component of an attribute: where in the vertex it goes. 31 is `INVALID`. -/
def semantic (config : OutputConfiguration) (attrib : Fin 7) (comp : BitVec 2) : Nat :=
  (config.semantics attrib >>> (8 * comp.toNat)).toNat % 32

/-- An attribute's four components, written one after the other. -/
def writeAttribute (config : OutputConfiguration) (attrib : Fin 7) (register : Vec4 F)
    (vertex : Nat → F) : Nat → F :=
  [0, 1, 2, 3].foldl (fun vertex comp =>
    let semantic := config.semantic attrib comp
    Function.update vertex semantic (if semantic = 31 then Float24.zero else register comp)) vertex

/-- The vertex, from what it holds before. None where the mask names too few registers: then the
search for the next one does not end. -/
def outputVertex (config : OutputConfiguration) (registers : BitVec 32 → Vec4 F) (vertex : Nat → F) :
    Option (Nat → F) :=
  let attributes := (List.finRange 7).take config.numOutputAttributes.toNat
  if attributes.length ≤ config.activeRegisters.length then
    some ((attributes.zip config.activeRegisters).foldl (fun vertex (attrib, register) =>
      config.writeAttribute attrib (registers (0x80 + BitVec.ofNat 32 register)) vertex) vertex)
  else none

end OutputConfiguration

/-! ## Engines -/

/-- What a run gets besides the engine: the registers the engine holds, where the vertex's attributes
have been mapped to the input registers, the memory the output vertex is built in, and how many micro
ops the run may take. -/
structure Invocation (F : Type) where
  state : RuntimeContext F
  inputRegisters : Fin 16 → Vec4 F
  vertex : Nat → F
  steps : Nat

/-- What a draw sees of a run. Where vertices are processed on the GPU, it takes the shader's text. -/
structure Outcome (F : Type) where
  glsl : Option String
  /-- None where the run has not ended. -/
  vertex : Except Exception (Option (Nat → F))

/-- A `ShaderEngine`. -/
inductive Engine where
  | interpreter
  | microCodeRecompiler (code : MicroCode)
  deriving DecidableEq, Repr

/-- What an engine reads from the context during a run. -/
structure RunContext (F : Type) where
  entryPoint : ShaderCodeOffset
  floatUniforms : Fin 96 → Vec4 F
  output : OutputConfiguration

/-- The registers at the start of a run: `UpdateUniforms`, and what `Run` sets up itself. -/
def RuntimeContext.prepare (state : RuntimeContext F) (context : RunContext F)
    (inputRegisters : Fin 16 → Vec4 F) (start : Nat) : RuntimeContext F :=
  { state with
    registers := fun i =>
      if h : i.toNat < 16 then inputRegisters ⟨i.toNat, h⟩
      else if h : 32 ≤ i.toNat ∧ i.toNat < 128 then context.floatUniforms ⟨i.toNat - 32, by omega⟩
      else state.registers i
    callStack := [⟨0, 0, 0, 0⟩]
    nextMicroOp := start }

/-- `MicroCodeRecompilerEngine::Run`. -/
def MicroCode.run (code : MicroCode) (context : RunContext F) (i : Invocation F) :
    Except Exception (Option (Nat → F)) := do
  let start ← code.offsetAt context.entryPoint
  let some ctx ← code.execute (i.state.prepare context i.inputRegisters start.toNat) i.steps
    | return none
  context.output.validate
  return context.output.outputVertex ctx.registers i.vertex

end Mikage.Pica.VertexShader
