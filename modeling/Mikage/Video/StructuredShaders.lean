import Mikage.Video.EnginePool
import Mikage.Video.ShaderInterpreter

/-!
# Structured shaders

A shader as its author sees it: blocks, branches, calls and counted loops, with nothing of program
counters or of the call stack but how deep it is. Where the words of such a shader lie in the shader
memory, the interpreter does what the structure says, to the end of the shader.

- `Code.exec`: what a structured piece of code does.
- `Laid`: where its instructions are in the shader memory.
- `Laid.leads`: the interpreter, from a piece's first offset to its last one.
-/

namespace Mikage.Pica.VertexShader.Interpreter

open Machine (Leads)

/-! ## Structured code -/

/-- What a branch depends on. -/
inductive Condition where
  | always
  /-- The conditional codes, combined by an operation of `flow_control`. -/
  | codes (operation : BitVec 32) (refx refy : Bool)
  /-- A bool uniform has this value. -/
  | uniform (id : Nat) (value : Bool)
  deriving DecidableEq, Repr

inductive Code where
  | skip
  | op (instr : Instruction)
  /-- The end of the shader, wherever it is reached. -/
  | stop
  | seq (first second : Code)
  /-- A body that is jumped over under a condition. -/
  | jumpOver (condition : Condition) (body : Code)
  | call (condition : Condition) (body : Code)
  | ite (condition : Condition) (thenBody elseBody : Code)
  /-- A loop that counts with an integer uniform. -/
  | loop (uniform : Fin 4) (body : Code)
  deriving DecidableEq, Repr

/-- How a piece of code ends: behind its last instruction, or with the shader. -/
inductive Flow (σ : Type) where
  | next (s : σ)
  | ended (s : σ)

namespace Flow

variable {ε σ : Type}

def andThen (x : Except ε (Flow σ)) (f : σ → Except ε (Flow σ)) : Except ε (Flow σ) :=
  match x with
  | .error e => .error e
  | .ok (.ended s) => .ok (.ended s)
  | .ok (.next s) => f s

/-- The body, `n` times, with `after` following each time. -/
def repeated (body : σ → Except ε (Flow σ)) (after : σ → σ) : Nat → σ → Except ε (Flow σ)
  | 0, s => .ok (.next s)
  | n + 1, s => andThen (body s) fun s => repeated body after n (after s)

end Flow

variable {F : Type}

namespace Context

def holds (c : Context F) (regs : Registers F) : Condition → Bool
  | .always => true
  | .codes operation refx refy => regs.evaluateCondition operation refx refy
  | .uniform id value => c.boolUniforms.getLsbD id == value

/-- A byte of an integer uniform. -/
def intByte (c : Context F) (uniform : Fin 4) (component : Nat) : BitVec 32 :=
  c.intUniforms uniform >>> (8 * component) &&& 0xff

end Context

/-- Adds to the loop counter. -/
def Registers.count (regs : Registers F) (increment : BitVec 8) : Registers F :=
  regs.setAddress 2 (regs.addressRegisters 2 + increment.setWidth 32)

/-- A scope is entered where there is room for it. -/
def enter (depth : Nat) (body : Except Exception (Flow (Registers F))) :
    Except Exception (Flow (Registers F)) :=
  if depth ≥ 16 then .error (.runtimeError "Shader call stack exhausted") else body

/-- What the code does within `depth` scopes. The first component of an integer uniform says how often
a loop is repeated after the first time, the second and third where its counter starts and how far it
advances. -/
def Code.exec [Float24 F] (c : Context F) :
    Code → Nat → Registers F → Except Exception (Flow (Registers F))
  | .skip, _, regs => .ok (.next regs)
  | .op instr, _, regs =>
    if instr.opcode.isArithmetic then (c.interpret instr regs).map .next else .ok (.next regs)
  | .stop, _, regs => .ok (.ended regs)
  | .seq first second, depth, regs => Flow.andThen (first.exec c depth regs) (second.exec c depth)
  | .jumpOver condition body, depth, regs =>
    if c.holds regs condition then .ok (.next regs) else body.exec c depth regs
  | .call condition body, depth, regs =>
    if c.holds regs condition then enter depth (body.exec c (depth + 1) regs) else .ok (.next regs)
  | .ite condition thenBody elseBody, depth, regs =>
    enter depth (if c.holds regs condition then thenBody.exec c (depth + 1) regs
      else elseBody.exec c (depth + 1) regs)
  | .loop uniform body, depth, regs =>
    enter depth (Flow.repeated (body.exec c (depth + 1))
      (·.count ((c.intByte uniform 2).setWidth 8))
      (((c.intByte uniform 0).setWidth 8).toNat + 1) (regs.setAddress 2 (c.intByte uniform 1)))

section

variable [Float24 F] (c : Context F) (instr : Instruction) (condition : Condition) (body other : Code)
  (depth : Nat) (regs : Registers F)

theorem Code.exec_op : (Code.op instr).exec c depth regs =
    if instr.opcode.isArithmetic then (c.interpret instr regs).map .next else .ok (.next regs) :=
  rfl

theorem Code.exec_seq : (body.seq other).exec c depth regs =
    Flow.andThen (body.exec c depth regs) (other.exec c depth) := rfl

theorem Code.exec_jumpOver : (Code.jumpOver condition body).exec c depth regs =
    if c.holds regs condition then .ok (.next regs) else body.exec c depth regs := rfl

theorem Code.exec_call : (Code.call condition body).exec c depth regs =
    if c.holds regs condition then enter depth (body.exec c (depth + 1) regs)
    else .ok (.next regs) := rfl

theorem Code.exec_ite : (Code.ite condition body other).exec c depth regs =
    enter depth (if c.holds regs condition then body.exec c (depth + 1) regs
      else other.exec c (depth + 1) regs) := rfl

theorem Code.exec_loop (uniform : Fin 4) : (Code.loop uniform body).exec c depth regs =
    enter depth (Flow.repeated (body.exec c (depth + 1))
      (·.count ((c.intByte uniform 2).setWidth 8))
      (((c.intByte uniform 0).setWidth 8).toNat + 1) (regs.setAddress 2 (c.intByte uniform 1))) :=
  rfl

end

/-! ## Where the instructions are -/

/-- The condition of the code that the flow control fields name. -/
def codes (instr : Instruction) : Condition :=
  .codes instr.conditionOp instr.refx instr.refy

def jumpCondition (instr : Instruction) : Option Condition :=
  match instr.opcode with
  | .jmpc => some (codes instr)
  | .jmpu => some (.uniform instr.boolUniformId (!instr.numInstructions.getLsbD 0))
  | _ => none

def callCondition (instr : Instruction) : Option Condition :=
  match instr.opcode with
  | .call => some .always
  | .callc => some (codes instr)
  | .callu => some (.uniform instr.boolUniformId true)
  | _ => none

def ifCondition (instr : Instruction) : Option Condition :=
  match instr.opcode with
  | .ifc => some (codes instr)
  | .ifu => some (.uniform instr.boolUniformId true)
  | _ => none

/-- Neither the end nor a change of the program counter. -/
def isPlain (instr : Instruction) : Bool :=
  match instr.opcode with
  | .end' | .jmpc | .jmpu | .call | .callc | .callu | .ifc | .ifu | .loop => false
  | _ => true

/-- The code's instructions begin at the first offset and end before the second one. A called body may
be anywhere; the bodies of a branch follow it one after the other, and that of a loop follows the
loop. -/
inductive Laid (memory : ShaderMemory) : Code → ShaderCodeOffset → ShaderCodeOffset → Prop where
  | skip (start : ShaderCodeOffset) : Laid memory .skip start start
  | op {start : ShaderCodeOffset} {instr : Instruction} :
    memory.readFrom start = .ok instr → isPlain instr →
    Laid memory (.op instr) start (start + 1)
  | stop {start : ShaderCodeOffset} {instr : Instruction} :
    memory.readFrom start = .ok instr → instr.opcode = .end' → Laid memory .stop start (start + 1)
  | seq {first second : Code} {start middle last : ShaderCodeOffset} :
    Laid memory first start middle → Laid memory second middle last →
    Laid memory (.seq first second) start last
  | jumpOver {start : ShaderCodeOffset} {instr : Instruction} {condition : Condition} {body : Code} :
    memory.readFrom start = .ok instr → jumpCondition instr = some condition →
    Laid memory body (start + 1) instr.destOffset →
    Laid memory (.jumpOver condition body) start instr.destOffset
  | call {start : ShaderCodeOffset} {instr : Instruction} {condition : Condition} {body : Code} :
    memory.readFrom start = .ok instr → callCondition instr = some condition →
    Laid memory body instr.destOffset (instr.destOffset + instr.numInstructions) →
    Laid memory (.call condition body) start (start + 1)
  | ite {start : ShaderCodeOffset} {instr : Instruction} {condition : Condition}
    {thenBody elseBody : Code} :
    memory.readFrom start = .ok instr → ifCondition instr = some condition →
    Laid memory thenBody (start + 1) instr.destOffset →
    Laid memory elseBody instr.destOffset (instr.destOffset + instr.numInstructions) →
    Laid memory (.ite condition thenBody elseBody) start (instr.destOffset + instr.numInstructions)
  | loop {start : ShaderCodeOffset} {instr : Instruction} {body : Code} :
    memory.readFrom start = .ok instr → instr.opcode = .loop →
    Laid memory body (start + 1) (instr.destOffset + 1) →
    Laid memory (.loop (instr.intUniformId.setWidth 2).toFin body) start (instr.destOffset + 1)

/-! ## Offsets -/

theorem readFrom_lt {memory : ShaderMemory} {offset : ShaderCodeOffset} {instr : Instruction}
    (h : memory.readFrom offset = .ok instr) : offset.toNat < 1024 := by
  unfold ShaderMemory.readFrom at h
  split at h
  · assumption
  · cases h

theorem toNat_next {memory : ShaderMemory} {offset : ShaderCodeOffset} {instr : Instruction}
    (h : memory.readFrom offset = .ok instr) : (offset + 1).toNat = offset.toNat + 1 := by
  have := readFrom_lt h
  rw [BitVec.toNat_add_of_lt (by simp; omega)]
  rfl

variable {memory : ShaderMemory} {code : Code} {start last : ShaderCodeOffset}

/-- Code is laid out forwards. -/
theorem Laid.le (h : Laid memory code start last) : start.toNat ≤ last.toNat := by
  induction h with
  | skip => exact Nat.le_refl _
  | op hr | stop hr | call hr =>
    rw [toNat_next hr]
    exact Nat.le_succ _
  | seq _ _ ih₁ ih₂ => exact Nat.le_trans ih₁ ih₂
  | jumpOver hr _ _ ih | loop hr _ _ ih =>
    rw [toNat_next hr] at ih
    exact Nat.le_of_succ_le ih
  | ite hr _ _ _ ih₁ ih₂ =>
    rw [toNat_next hr] at ih₁
    exact Nat.le_trans (Nat.le_of_succ_le ih₁) ih₂

/-- The scope the code is in does not end within the code. -/
def Within (stack : List CallStackElement) (start last : ShaderCodeOffset) : Prop :=
  ∀ top ∈ stack.head?, ¬ (start.toNat ≤ top.finalAddress.toNat ∧
    top.finalAddress.toNat < last.toNat)

theorem Within.mono {stack : List CallStackElement} {start' last' : ShaderCodeOffset}
    (h : Within stack start last) (hs : start.toNat ≤ start'.toNat)
    (hl : last'.toNat ≤ last.toNat) : Within stack start' last' :=
  fun top ht ⟨h₁, h₂⟩ => h top ht ⟨Nat.le_trans hs h₁, Nat.lt_of_lt_of_le h₂ hl⟩

/-- Code in a scope of its own. -/
theorem within_scope (returnAddress begin' : ShaderCodeOffset) (count increment : BitVec 8)
    (stack : List CallStackElement) :
    Within (⟨last, returnAddress, count, increment, begin'⟩ :: stack) start last := by
  rintro _ ⟨⟩ ⟨_, h⟩
  exact Nat.lt_irrefl _ h

theorem Within.leaveScope_none {stack : List CallStackElement} {regs : Registers F}
    (h : Within stack start last) (hlt : start.toNat < last.toNat) :
    (⟨regs, start, stack⟩ : State F).leaveScope = none := by
  cases stack with
  | nil => rfl
  | cons top rest =>
    have hne : start ≠ top.finalAddress := by
      rintro rfl
      exact h top rfl ⟨Nat.le_refl _, hlt⟩
    exact if_neg hne

/-! ## Rounds -/

/-- Where the interpreter is when a piece of code has ended. -/
def arrival (last : ShaderCodeOffset) (stack : List CallStackElement) :
    Except Exception (Flow (Registers F)) → State F ⊕ Except Exception (Registers F)
  | .error e => .inr (.error e)
  | .ok (.ended regs) => .inr (.ok regs)
  | .ok (.next regs) => .inl ⟨regs, last, stack⟩

variable {c : Context F} {s : State F} {instr : Instruction} {regs : Registers F}
  {stack : List CallStackElement} {condition : Condition}

theorem executeControl_plain (h : isPlain instr) (ha : ¬ instr.opcode.isArithmetic) :
    c.executeControl s instr = .ok (some s) := by
  unfold Context.executeControl
  cases ho : instr.opcode <;> simp_all [isPlain, OpCode.isArithmetic]

@[simp] theorem Registers.count_zero (regs : Registers F) : regs.count 0#8 = regs := by
  simp [Registers.count, Registers.setAddress]

theorem repeated_once (f : Registers F → Except Exception (Flow (Registers F))) :
    Flow.repeated f (·.count 0) 1 regs = f regs := by
  rcases hx : f regs with _ | _ | _ <;> simp [Flow.repeated, Flow.andThen, hx]

variable [Float24 F]

theorem step_execute (hl : s.leaveScope = none)
    (hr : c.shaderMemory.readFrom s.programCounter = .ok instr) :
    c.step s = Context.advance s (c.execute s instr) := by
  rw [Context.step, hl, hr]
  rfl

/-- An instruction of a piece of code that has not ended. -/
theorem step_within (regs : Registers F) (hw : Within stack start last)
    (hlt : start.toNat < last.toNat)
    (hr : c.shaderMemory.readFrom start = .ok instr) :
    c.step ⟨regs, start, stack⟩ =
      Context.advance ⟨regs, start, stack⟩ (c.execute ⟨regs, start, stack⟩ instr) :=
  step_execute (hw.leaveScope_none hlt) hr

/-- An instruction that does not compute. -/
theorem execute_control {opcode : OpCode} (ho : instr.opcode = opcode) (h : ¬ opcode.isArithmetic) :
    c.execute s instr = c.executeControl s instr :=
  if_neg (ho ▸ h)

theorem execute_jump (h : jumpCondition instr = some condition) :
    c.execute s instr = .ok (some (if c.holds s.registers condition then
      { s with programCounter := instr.destOffset - 1 } else s)) := by
  unfold jumpCondition at h
  cases ho : instr.opcode <;> rw [ho] at h <;> cases h
  all_goals
    rw [execute_control ho nofun]
    unfold Context.executeControl
    rw [ho]
  · rfl
  · unfold Context.holds
    simp only [beq_iff_eq]
    rfl

theorem execute_call (h : callCondition instr = some condition) :
    c.execute s instr = if c.holds s.registers condition then
      (s.call instr.destOffset instr.numInstructions (s.programCounter + 1) 0 0).map some
      else .ok (some s) := by
  unfold callCondition at h
  cases ho : instr.opcode <;> rw [ho] at h <;> cases h
  all_goals
    rw [execute_control ho nofun]
    unfold Context.executeControl Context.holds
    rw [ho]
  · rfl
  · rfl
  · simp only [beq_true]
    rfl

theorem execute_if (h : ifCondition instr = some condition) :
    c.execute s instr = (s.branch instr (c.holds s.registers condition)).map some := by
  unfold ifCondition at h
  cases ho : instr.opcode <;> rw [ho] at h <;> cases h
  all_goals
    rw [execute_control ho nofun]
    unfold Context.executeControl
    rw [ho]
  · rw [Context.holds, beq_true]
    rfl
  · rfl

/-! ## Scopes -/

/-- The round that leaves a scope or starts over. -/
theorem step_leave (top : CallStackElement) :
    c.step ⟨regs, top.finalAddress, top :: stack⟩ = .inl (if top.repeatCounter = 0 then
      ⟨regs.count top.loopIncrement, top.returnAddress, stack⟩
      else ⟨regs.count top.loopIncrement, top.loopBeginAddress,
        { top with repeatCounter := top.repeatCounter - 1 } :: stack⟩) := by
  unfold Context.step State.leaveScope
  simp only [if_true]
  split_ifs <;> rfl

theorem Leads.andThen {x : Except Exception (Flow (Registers F))}
    {f : Registers F → Except Exception (Flow (Registers F))} {middle last : ShaderCodeOffset}
    {stack stack' : List CallStackElement} (h : Leads c.step s (arrival middle stack x))
    (hf : ∀ regs, x = .ok (.next regs) →
      Leads c.step ⟨regs, middle, stack⟩ (arrival last stack' (f regs))) :
    Leads c.step s (arrival last stack' (Flow.andThen x f)) := by
  cases x with
  | error e => exact h
  | ok flow =>
    cases flow with
    | ended regs => exact h
    | next regs => exact h.trans (hf regs rfl)

/-- A scope that is entered with a repeat counter: what its body does is done once more than the
counter says. -/
theorem leads_repeated {f : Registers F → Except Exception (Flow (Registers F))}
    {finalAddress returnAddress begin' : ShaderCodeOffset} {increment : BitVec 8}
    (hf : ∀ regs counter, let top := ⟨finalAddress, returnAddress, counter, increment, begin'⟩
      Leads c.step ⟨regs, begin', top :: stack⟩ (arrival finalAddress (top :: stack) (f regs)))
    (n : Nat) (hn : n < 256) (regs : Registers F) :
    Leads c.step
      ⟨regs, begin', ⟨finalAddress, returnAddress, BitVec.ofNat 8 n, increment, begin'⟩ :: stack⟩
      (arrival returnAddress stack (Flow.repeated f (·.count increment) (n + 1) regs)) := by
  induction n generalizing regs with
  | zero =>
    refine Leads.andThen (hf regs _) fun regs _ => ?_
    exact .of_step (step_leave ⟨finalAddress, returnAddress, 0, increment, begin'⟩)
  | succ n ih =>
    refine Leads.andThen (hf regs _) fun regs _ => ?_
    let top : CallStackElement :=
      ⟨finalAddress, returnAddress, BitVec.ofNat 8 (n + 1), increment, begin'⟩
    refine .next (step_leave top) ?_
    have hne : BitVec.ofNat 8 (n + 1) ≠ 0 := by
      simp [← BitVec.toNat_inj]; omega
    have hpred : BitVec.ofNat 8 (n + 1) - 1 = BitVec.ofNat 8 n := by
      simp [← BitVec.toNat_inj]; omega
    rw [if_neg hne, hpred]
    exact ih (by omega) _

/-- An instruction that calls: a scope, where there is room for one. -/
theorem leads_enter {f : Registers F → Except Exception (Flow (Registers F))} {s₀ : State F}
    {offset numInstructions returnAddress : ShaderCodeOffset} {counter increment : BitVec 8}
    (hs : c.step s₀ = Context.advance s₀
      ((s.call offset numInstructions returnAddress counter increment).map some))
    (hf : ∀ regs counter,
      let top := ⟨offset + numInstructions, returnAddress, counter, increment, offset⟩
      Leads c.step ⟨regs, offset, top :: s.callStack⟩
        (arrival (offset + numInstructions) (top :: s.callStack) (f regs))) :
    Leads c.step s₀ (arrival returnAddress s.callStack (enter s.callStack.length
      (Flow.repeated f (·.count increment) (counter.toNat + 1) s.registers))) := by
  unfold State.call at hs
  unfold enter
  split_ifs at hs ⊢ with hd
  · exact .of_step hs
  · refine .next hs ?_
    have hscope := leads_repeated hf counter.toNat counter.isLt s.registers
    simp only [BitVec.ofNat_toNat, BitVec.setWidth_eq] at hscope
    simpa only [BitVec.sub_add_cancel] using hscope

/-- The same for a body that is not repeated. -/
theorem leads_enter_once {f : Registers F → Except Exception (Flow (Registers F))} {s₀ : State F}
    {offset numInstructions returnAddress : ShaderCodeOffset}
    (hs : c.step s₀ = Context.advance s₀
      ((s.call offset numInstructions returnAddress 0 0).map some))
    (hf : ∀ regs counter,
      let top := ⟨offset + numInstructions, returnAddress, counter, 0, offset⟩
      Leads c.step ⟨regs, offset, top :: s.callStack⟩
        (arrival (offset + numInstructions) (top :: s.callStack) (f regs))) :
    Leads c.step s₀ (arrival returnAddress s.callStack
      (enter s.callStack.length (f s.registers))) := by
  have h := leads_enter hs hf
  rwa [show (0 : BitVec 8).toNat + 1 = 1 from rfl, repeated_once] at h

/-! ## The simulation -/

theorem leads_plain (hr : c.shaderMemory.readFrom start = .ok instr) (hp : isPlain instr)
    (hw : Within stack start (start + 1)) :
    Leads c.step ⟨regs, start, stack⟩
      (arrival (start + 1) stack ((Code.op instr).exec c stack.length regs)) := by
  refine .of_step ((step_within regs hw (by rw [toNat_next hr]; omega) hr).trans ?_)
  rw [Code.exec_op]
  unfold Context.execute
  split_ifs with ha
  · cases c.interpret instr regs <;> rfl
  · rw [executeControl_plain hp ha]
    rfl

theorem leads_call {body : Code} (hr : c.shaderMemory.readFrom start = .ok instr)
    (hc : callCondition instr = some condition) (hw : Within stack start (start + 1))
    (ih : ∀ regs stack, Within stack instr.destOffset (instr.destOffset + instr.numInstructions) →
      Leads c.step ⟨regs, instr.destOffset, stack⟩
        (arrival (instr.destOffset + instr.numInstructions) stack (body.exec c stack.length regs))) :
    Leads c.step ⟨regs, start, stack⟩
      (arrival (start + 1) stack ((Code.call condition body).exec c stack.length regs)) := by
  have hstep := step_within regs hw (by rw [toNat_next hr]; omega) hr
  rw [execute_call hc] at hstep
  rw [Code.exec_call]
  by_cases ht : c.holds regs condition
  · simp only [ht, if_true] at hstep ⊢
    exact leads_enter_once hstep fun _ _ => ih _ _ (within_scope _ _ _ _ _)
  · simp only [ht] at hstep ⊢
    exact .of_step hstep

theorem leads_ite {thenBody elseBody : Code} (hr : c.shaderMemory.readFrom start = .ok instr)
    (hc : ifCondition instr = some condition)
    (hlt : start.toNat < (instr.destOffset + instr.numInstructions).toNat)
    (hw : Within stack start (instr.destOffset + instr.numInstructions))
    (ih₁ : ∀ regs stack, Within stack (start + 1) instr.destOffset →
      Leads c.step ⟨regs, start + 1, stack⟩
        (arrival instr.destOffset stack (thenBody.exec c stack.length regs)))
    (ih₂ : ∀ regs stack, Within stack instr.destOffset (instr.destOffset + instr.numInstructions) →
      Leads c.step ⟨regs, instr.destOffset, stack⟩ (arrival
        (instr.destOffset + instr.numInstructions) stack (elseBody.exec c stack.length regs))) :
    Leads c.step ⟨regs, start, stack⟩ (arrival (instr.destOffset + instr.numInstructions) stack
      ((Code.ite condition thenBody elseBody).exec c stack.length regs)) := by
  have hstep := step_within regs hw hlt hr
  rw [execute_if hc] at hstep
  unfold State.branch at hstep
  rw [Code.exec_ite]
  by_cases ht : c.holds regs condition
  · simp only [ht, if_true] at hstep ⊢
    refine leads_enter_once (f := fun regs => thenBody.exec c (stack.length + 1) regs) hstep ?_
    have hend : start + 1 + (instr.destOffset - (start + 1)) = instr.destOffset := by
      rw [BitVec.add_comm, BitVec.sub_add_cancel]
    rw [hend]
    exact fun _ _ => ih₁ _ _ (within_scope _ _ _ _ _)
  · simp only [ht] at hstep ⊢
    exact leads_enter_once hstep fun _ _ => ih₂ _ _ (within_scope _ _ _ _ _)

theorem leads_loop {body : Code} (hr : c.shaderMemory.readFrom start = .ok instr)
    (ho : instr.opcode = .loop) (hlt : start.toNat < (instr.destOffset + 1).toNat)
    (hw : Within stack start (instr.destOffset + 1))
    (ih : ∀ regs stack, Within stack (start + 1) (instr.destOffset + 1) →
      Leads c.step ⟨regs, start + 1, stack⟩
        (arrival (instr.destOffset + 1) stack (body.exec c stack.length regs))) :
    Leads c.step ⟨regs, start, stack⟩ (arrival (instr.destOffset + 1) stack
      ((Code.loop (instr.intUniformId.setWidth 2).toFin body).exec c stack.length regs)) := by
  have hstep := step_within regs hw hlt hr
  rw [execute_control ho nofun] at hstep
  unfold Context.executeControl at hstep
  rw [ho] at hstep
  rw [Code.exec_loop]
  refine leads_enter (f := fun regs => body.exec c (stack.length + 1) regs) hstep ?_
  -- The loop's last instruction is the one at the destination.
  have hend : start + 1 + (instr.destOffset - start) = instr.destOffset + 1 := by
    bv_omega
  rw [hend]
  exact fun _ _ => ih _ _ (within_scope _ _ _ _ _)

theorem leads_jumpOver {body : Code} (hr : c.shaderMemory.readFrom start = .ok instr)
    (hc : jumpCondition instr = some condition) (hlt : start.toNat < instr.destOffset.toNat)
    (hw : Within stack start instr.destOffset)
    (ih : ∀ regs stack, Within stack (start + 1) instr.destOffset →
      Leads c.step ⟨regs, start + 1, stack⟩
        (arrival instr.destOffset stack (body.exec c stack.length regs))) :
    Leads c.step ⟨regs, start, stack⟩ (arrival instr.destOffset stack
      ((Code.jumpOver condition body).exec c stack.length regs)) := by
  have hstep := step_within regs hw hlt hr
  rw [execute_jump hc] at hstep
  rw [Code.exec_jumpOver]
  by_cases ht : c.holds regs condition
  · simp only [ht, if_true] at hstep ⊢
    rw [Context.advance, BitVec.sub_add_cancel] at hstep
    exact .of_step hstep
  · simp only [ht] at hstep ⊢
    refine .next hstep (ih _ _ (hw.mono ?_ (Nat.le_refl _)))
    rw [toNat_next hr]
    exact Nat.le_succ _

/-- From the first offset of a piece of code, in any scope that ends elsewhere, the interpreter does
what the code does and gets to its last offset. -/
theorem Laid.leads (h : Laid c.shaderMemory code start last) (regs : Registers F)
    (stack : List CallStackElement) (hw : Within stack start last) :
    Leads c.step ⟨regs, start, stack⟩ (arrival last stack (code.exec c stack.length regs)) := by
  induction h generalizing regs stack with
  | skip start => exact .here _
  | op hr hp => exact leads_plain hr hp hw
  | stop hr ho =>
    refine .of_step ((step_within regs hw (by rw [toNat_next hr]; omega) hr).trans ?_)
    rw [execute_control ho nofun]
    unfold Context.executeControl
    rw [ho]
    rfl
  | seq h₁ h₂ ih₁ ih₂ =>
    exact Leads.andThen (ih₁ regs stack (hw.mono (Nat.le_refl _) h₂.le))
      fun regs _ => ih₂ regs stack (hw.mono h₁.le (Nat.le_refl _))
  | jumpOver hr hc hb ih =>
    have hle := hb.le
    rw [toNat_next hr] at hle
    exact leads_jumpOver hr hc hle hw ih
  | call hr hc _ ih => exact leads_call hr hc hw ih
  | ite hr hc h₁ h₂ ih₁ ih₂ =>
    have hle := h₁.le
    rw [toNat_next hr] at hle
    exact leads_ite hr hc (Nat.lt_of_lt_of_le hle h₂.le) hw ih₁ ih₂
  | loop hr ho hb ih =>
    have hle := hb.le
    rw [toNat_next hr] at hle
    exact leads_loop hr ho hle hw ih

/-! ## Whole runs -/

/-- A vertex from what a structured shader leaves in the output registers. -/
def Flow.vertex (config : OutputConfiguration) (vertex : Nat → F) :
    Except Exception (Flow (Registers F)) → Except Exception (Option (Nat → F))
  | .error e => .error e
  | .ok (.ended regs) | .ok (.next regs) =>
    .ok (config.outputVertex (fun i => regs.outputRegisters (i.setWidth 4)) vertex)

/-- Where a structured shader and the instruction that ends it lie at the entry point, every
sufficiently long run of the interpreter ends as the structure says: with the vertex of the output
registers, or with the exception of the instruction or the scope that has one. -/
theorem run_structured (h : Laid c.shaderMemory (code.seq .stop) start last)
    (config : OutputConfiguration) (regs : Registers F) (vertex : Nat → F) :
    ∃ n, ∀ steps ≥ n, c.run config start regs vertex steps =
      Flow.vertex config vertex (code.exec c 0 regs.atStart) := by
  have hl := h.leads regs.atStart [] (by nofun)
  rw [Code.exec_seq, List.length_nil] at hl
  rcases hx : code.exec c 0 regs.atStart with e | flow
  · rw [hx] at hl
    obtain ⟨n, hn⟩ := hl.run
    exact ⟨n, fun steps hs => by rw [Context.run, Context.processShaderCode, hn steps hs]; rfl⟩
  · rcases flow with regs' | regs' <;> rw [hx] at hl <;> obtain ⟨n, hn⟩ := hl.run
    all_goals
      exact ⟨n, fun steps hs => by rw [Context.run, Context.processShaderCode, hn steps hs]; rfl⟩

/-- A LOOP that adds input register 0 to temporary register 0, a MOV of the sum to output register 0,
and END. -/
def sumLoop : Context Int where
  shaderMemory := fun i => if i.val = 0 then 0xa4000400 else if i.val = 1 then 0x02010000
    else if i.val = 2 then 0x4c010000 else if i.val = 3 then 0x88000000 else 0
  swizzleData := fun i => if i.val = 0 then 0x6c36f else 0
  boolUniforms := 0
  intUniforms := fun _ => 0x00010002
  floatUniforms := fun _ _ => 0
  inputRegisters := fun _ _ => 7

/-- Three times through the loop. -/
theorem run_structured_sumLoop : ∃ n, ∀ steps ≥ n,
    (sumLoop.run ⟨0, 0, 1, 1, fun _ => 0x03020100⟩ 0
      ⟨fun _ _ => 0, fun _ _ => 0, fun _ => false, fun _ => 0⟩ (fun _ => 0) steps).map
        (·.map (· 0)) = .ok (some 21) := by
  have hlaid : Laid sumLoop.shaderMemory
      (((Code.loop 0 (.op 0x02010000)).seq (.op 0x4c010000)).seq .stop) 0 4 :=
    .seq (.seq (@Laid.loop sumLoop.shaderMemory 0 0xa4000400 _ rfl rfl (.op rfl rfl)) (.op rfl rfl))
      (.stop rfl rfl)
  obtain ⟨n, hn⟩ := run_structured hlaid ⟨0, 0, 1, 1, fun _ => 0x03020100⟩
    ⟨fun _ _ => 0, fun _ _ => 0, fun _ => false, fun _ => 0⟩ (fun _ => 0)
  exact ⟨n, fun steps hs => by rw [hn steps hs]; rfl⟩

end Mikage.Pica.VertexShader.Interpreter
