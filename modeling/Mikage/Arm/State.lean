import Mathlib
import Mikage.Framework.Exceptions

/-!
# Registers, instructions and conditions

The part of `ARM::State` the handlers below read and write, the bit fields of `ARM::ARMInstr`, and
what every handler of the interpreter begins or ends with (`EvalCond`, `NextInstr`, the stubs).
-/

namespace Mikage.Arm

/-- The flags of a `ProgramStatusRegister`. -/
structure PSR where
  neg : Bool
  zero : Bool
  carry : Bool
  overflow : Bool
  thumb : Bool
  deriving DecidableEq, Repr

structure State where
  reg : BitVec 4 → BitVec 32
  cpsr : PSR

namespace State

variable (s : State)

def pc : BitVec 32 := s.reg 15

def lr : BitVec 32 := s.reg 14

def fetchReg (index : BitVec 4) : BitVec 32 := if index = 15 then s.pc + 8 else s.reg index

/-- `reg[index] = value` -/
def set (index : BitVec 4) (value : BitVec 32) : State :=
  { s with reg := Function.update s.reg index value }

def setPsr (f : PSR → PSR) : State := { s with cpsr := f s.cpsr }

def bit (b : Bool) : BitVec 32 := if b then 1 else 0

@[simp] theorem set_cpsr (i v) : (s.set i v).cpsr = s.cpsr := rfl
@[simp] theorem set_reg_self (i v) : (s.set i v).reg i = v := Function.update_self ..
@[simp] theorem setPsr_reg (f) : (s.setPsr f).reg = s.reg := rfl
@[simp] theorem setPsr_cpsr (f) : (s.setPsr f).cpsr = f s.cpsr := rfl

theorem set_reg_of_ne {i j : BitVec 4} (h : j ≠ i) (v) : (s.set i v).reg j = s.reg j :=
  Function.update_of_ne h ..

end State

structure ARMInstr where
  raw : BitVec 32
  deriving DecidableEq, Repr

namespace ARMInstr

variable (instr : ARMInstr)

def cond : BitVec 4 := instr.raw.extractLsb' 28 4
def idxRm : BitVec 4 := instr.raw.extractLsb' 0 4
def idxRs : BitVec 4 := instr.raw.extractLsb' 8 4
def idxRd : BitVec 4 := instr.raw.extractLsb' 12 4
def idxRn : BitVec 4 := instr.raw.extractLsb' 16 4
def immed8 : BitVec 32 := (instr.raw.extractLsb' 0 8).setWidth 32
def addr1ShiftImm : BitVec 32 := (instr.raw.extractLsb' 7 5).setWidth 32
def rotateImm : BitVec 32 := (instr.raw.extractLsb' 8 4).setWidth 32
def addr1S : Bool := instr.raw.getLsbD 20

end ARMInstr

/-- How a handler ends when it does not return: an exception, or a computation that C++ leaves
undefined. -/
inductive Fault where
  | thrown (e : Exception)
  | undefined
  deriving DecidableEq, Repr

/-- A state, and the address of the next instruction. -/
abbrev Handled := Except Fault (State × BitVec 32)

/-- What a sequence that returns has returned on the way. -/
theorem ok_of_bind {α β : Type} {x : Except Fault α} {f : α → Except Fault β} {r : β}
    (h : x >>= f = .ok r) : ∃ a, x = .ok a ∧ f a = .ok r := by
  cases x with
  | error e => cases h
  | ok a => exact ⟨a, rfl, h⟩

def hex (v : BitVec 32) : String := String.ofList (Nat.toDigits 16 v.toNat)

def hex8 (v : BitVec 32) : String :=
  let digits := hex v
  "".pushn '0' (8 - digits.length) ++ digits

def handlerStubWithMessage {α : Type} (ctx : State) (instr : ARMInstr) (message : String) :
    Except Fault α :=
  let error := "Unknown instruction 0x" ++ hex8 instr.raw ++ " (PC is 0x" ++ hex ctx.pc ++ ")"
  let error := if message.isEmpty then error else error ++ ": " ++ message
  .error (.thrown (.runtimeError (error ++ "\n")))

def nextInstr (ctx : State) : BitVec 32 := ctx.pc + 4

def evalCond (ctx : State) (cond : BitVec 4) : Except Fault Bool :=
  let p := ctx.cpsr
  if cond = 0xE then .ok true
  else if cond = 0x0 then .ok p.zero
  else if cond = 0x1 then .ok !p.zero
  else if cond = 0x2 then .ok p.carry
  else if cond = 0x3 then .ok !p.carry
  else if cond = 0x4 then .ok p.neg
  else if cond = 0x5 then .ok !p.neg
  else if cond = 0x6 then .ok p.overflow
  else if cond = 0x7 then .ok !p.overflow
  else if cond = 0x8 then .ok (p.carry && !p.zero)
  else if cond = 0x9 then .ok (!p.carry || p.zero)
  else if cond = 0xa then .ok (p.neg == p.overflow)
  else if cond = 0xb then .ok (p.neg != p.overflow)
  else if cond = 0xc then .ok (!p.zero && p.neg == p.overflow)
  else if cond = 0xd then .ok (p.zero || p.neg != p.overflow)
  else .error (.thrown (.runtimeError "Condition not implemented"))

/-- `if (!EvalCond(ctx, instr.cond)) return NextInstr(ctx);` and then the rest. -/
def conditional {C : Type} (cpu : State) (instr : ARMInstr) (ctx : C)
    (body : Except Fault (C × BitVec 32)) : Except Fault (C × BitVec 32) := do
  if ← evalCond cpu instr.cond then body else pure (ctx, nextInstr cpu)

section

variable {C : Type} {cpu : State} {instr : ARMInstr} {ctx : C} {body : Except Fault (C × BitVec 32)}

theorem conditional_true (h : evalCond cpu instr.cond = .ok true) :
    conditional cpu instr ctx body = body := by
  rw [conditional, h]
  rfl

end

/-- Registers that all hold 0, and clear flags. -/
def State.zero : State := ⟨fun _ => 0, ⟨false, false, false, false, false⟩⟩

end Mikage.Arm
