import Mikage.Arm.Shifter
import Mikage.Arm.State

/-!
# Arithmetic data processing

The handlers of `ADD`, `ADC`, `SUB`, `SBC`, `RSB`, `RSC`, `CMP` and `CMN`, with the operand fetch of
addressing mode 1 and the flag helpers, against sums and differences of integers.
-/

namespace Mikage.Arm

open State

/-! ## Addressing mode 1 -/

inductive AddrMode1Encoding where
  | imm | shiftByImm | shiftByReg | unknown
  deriving DecidableEq, Repr

def getAddrMode1Encoding (instr : ARMInstr) : AddrMode1Encoding :=
  if instr.raw.extractLsb' 26 2 ≠ 0 then .unknown
  else if instr.raw.getLsbD 25 then .imm
  else if !instr.raw.getLsbD 4 then .shiftByImm
  else if !instr.raw.getLsbD 7 then .shiftByReg
  else .unknown

def ARMInstr.addr1Shift (instr : ARMInstr) : OperandShifterMode :=
  match instr.raw.getLsbD 6, instr.raw.getLsbD 5 with
  | false, false => .lsl
  | false, true => .lsr
  | true, false => .asr
  | true, true => .rorRrx

def defined {α : Type} : Option α → Except Fault α
  | some a => .ok a
  | none => .error .undefined

def getAddr1ShifterOperand (ctx : State) (instr : ARMInstr) :
    Except Fault (Option ShifterOperand) :=
  match getAddrMode1Encoding instr with
  | .imm => do
    let result ← defined (rotateRight instr.immed8 (2 * instr.rotateImm))
    let carryOut := if truthy instr.rotateImm then truthy (result >>> 31) else ctx.cpsr.carry
    pure (some ⟨result, carryOut⟩)
  | .shiftByImm => do
    let reg := ctx.fetchReg instr.idxRm
    let operand ← defined
      (calcShifterOperandFromImmediate reg instr.addr1ShiftImm instr.addr1Shift ctx.cpsr.carry)
    pure (some operand)
  | .shiftByReg => do
    let reg := ctx.fetchReg instr.idxRm
    let operand ← defined
      (calcShifterOperand reg (ctx.fetchReg instr.idxRs) instr.addr1Shift ctx.cpsr.carry)
    pure (some operand)
  | .unknown => pure none

/-! ## Flags -/

def updateCpsrN (ctx : State) (val : BitVec 32) : State :=
  ctx.setPsr fun p => { p with neg := truthy (val >>> 31) }

def updateCpsrZ (ctx : State) (val : BitVec 32) : State :=
  ctx.setPsr fun p => { p with zero := val = 0 }

def updateCpsrC (ctx : State) (val : Bool) : State := ctx.setPsr fun p => { p with carry := val }

def updateCpsrV (ctx : State) (val : Bool) : State := ctx.setPsr fun p => { p with overflow := val }

def getCarry (left right : BitVec 32) : Bool :=
  (left >>> 31) + (right >>> 31) > ((left + right) >>> 31)

/-- `GetCarry` with the carry flag. -/
def getCarryC (left right : BitVec 32) (c : Bool) : Bool :=
  (left >>> 31) + (right >>> 31) > ((left + right + bit c) >>> 31)

def borrow (left right : BitVec 32) : Bool := left < right

/-- The comparison is one of 64-bit numbers. -/
def borrowC (left right : BitVec 32) (c : Bool) : Bool :=
  left.setWidth 64 < right.setWidth 64 + (bit !c).setWidth 64

def getOverflowFromAdd (left right result : BitVec 32) : Bool :=
  truthy ((~~~(left ^^^ right) &&& (left ^^^ result) &&& (right ^^^ result)) >>> 31)

def overflowFromSub (left right result : BitVec 32) : Bool :=
  truthy (((left ^^^ right) &&& (left ^^^ result)) >>> 31)

def overflowFromSubC (left right result : BitVec 32) (c : Bool) : Bool :=
  result.signExtend 64 ≠ left.signExtend 64 + (~~~right).signExtend 64 + (bit c).setWidth 64

/-! ## Handlers -/

/-- What tells the handlers apart: the result, and the updates of C and V. -/
structure Alu where
  result : (rn operand : BitVec 32) → (carry : Bool) → BitVec 32
  updateCV : State → (rn operand result : BitVec 32) → State

def Alu.flags (alu : Alu) (ctx : State) (rn operand result : BitVec 32) : State :=
  alu.updateCV (updateCpsrZ (updateCpsrN ctx result) result) rn operand result

def unpredictablePC := "Using PC as Rd yields unpredictable behavior in some cases"

def unknownOperand := "Unknown shifter operand format"

def withShifterOperand (ctx : State) (instr : ARMInstr) (body : ShifterOperand → Handled) :
    Handled := do
  match ← getAddr1ShifterOperand ctx instr with
  | none => handlerStubWithMessage ctx instr unknownOperand
  | some operand => body operand

/-- The common text of the handlers that write a register other than PC. -/
def handlerArithmetic (alu : Alu) (ctx : State) (instr : ARMInstr) : Handled :=
  conditional ctx instr ctx <|
    if instr.idxRd = 15 then handlerStubWithMessage ctx instr unpredictablePC
    else withShifterOperand ctx instr fun operand =>
      let rn := ctx.fetchReg instr.idxRn
      let result := alu.result rn operand.value ctx.cpsr.carry
      let ctx := ctx.set instr.idxRd result
      let ctx := if instr.addr1S then alu.flags ctx rn operand.value result else ctx
      .ok (ctx, nextInstr ctx)

/-- The common text of the comparisons, which read Rn without `FetchReg`. -/
def handlerCompare (alu : Alu) (ctx : State) (instr : ARMInstr) : Handled :=
  conditional ctx instr ctx <|
    withShifterOperand ctx instr fun operand =>
      let rn := ctx.reg instr.idxRn
      let aluOut := alu.result rn operand.value ctx.cpsr.carry
      let ctx := alu.flags ctx rn operand.value aluOut
      .ok (ctx, nextInstr ctx)

def aluAdd : Alu where
  result rn operand _ := rn + operand
  updateCV ctx rn operand result :=
    let ctx := updateCpsrC ctx (getCarry rn operand)
    updateCpsrV ctx (getOverflowFromAdd rn operand result)

def aluAdc : Alu where
  result rn operand carry := rn + operand + bit carry
  updateCV ctx rn operand result :=
    let ctx := updateCpsrC ctx (getCarryC rn operand ctx.cpsr.carry)
    updateCpsrV ctx (getOverflowFromAdd rn operand result)

def aluSub : Alu where
  result rn operand _ := rn - operand
  updateCV ctx rn operand result :=
    let ctx := updateCpsrC ctx (!borrow rn operand)
    updateCpsrV ctx (overflowFromSub rn operand result)

def aluSbc : Alu where
  result rn operand carry := rn - operand - bit !carry
  updateCV ctx rn operand result :=
    let ctx := updateCpsrV ctx (overflowFromSubC rn operand result ctx.cpsr.carry)
    updateCpsrC ctx (!borrowC rn operand ctx.cpsr.carry)

def aluRsb : Alu where
  result rn operand _ := operand - rn
  updateCV ctx rn operand result :=
    let ctx := updateCpsrC ctx (!borrow operand rn)
    updateCpsrV ctx (overflowFromSub operand rn result)

def aluRsc : Alu where
  result rn operand carry := operand - rn - bit !carry
  updateCV ctx rn operand result :=
    let ctx := updateCpsrV ctx (overflowFromSubC operand rn result ctx.cpsr.carry)
    updateCpsrC ctx (!borrowC operand rn ctx.cpsr.carry)

/-- `ADD` may write PC when it does not set the flags. -/
def handlerAdd (ctx : State) (instr : ARMInstr) : Handled :=
  conditional ctx instr ctx <|
    if instr.addr1S ∧ instr.idxRd = 15 then handlerStubWithMessage ctx instr unpredictablePC
    else withShifterOperand ctx instr fun operand =>
      let rn := ctx.fetchReg instr.idxRn
      let result := aluAdd.result rn operand.value ctx.cpsr.carry
      let ctx := ctx.set instr.idxRd result
      let ctx := if instr.addr1S then aluAdd.flags ctx rn operand.value result else ctx
      .ok (ctx, if instr.idxRd = 15 then ctx.pc else nextInstr ctx)

def handlerAdc := handlerArithmetic aluAdc
def handlerSub := handlerArithmetic aluSub
def handlerSbc := handlerArithmetic aluSbc
def handlerRsb := handlerArithmetic aluRsb
def handlerRsc := handlerArithmetic aluRsc
def handlerCmp := handlerCompare aluSub
def handlerCmn := handlerCompare aluAdd

/-! ## The reference -/

inductive Arith where
  | add | adc | sub | sbc | rsb | rsc | cmp | cmn
  deriving DecidableEq, Repr

namespace Arith

def handler : Arith → State → ARMInstr → Handled
  | add => handlerAdd
  | adc => handlerAdc
  | sub => handlerSub
  | sbc => handlerSbc
  | rsb => handlerRsb
  | rsc => handlerRsc
  | cmp => handlerCmp
  | cmn => handlerCmn

def compares : Arith → Bool
  | cmp | cmn => true
  | _ => false

/-- The handlers that end with a message when they are to write PC. -/
def refusesPC (op : Arith) (instr : ARMInstr) : Bool :=
  match op with
  | cmp | cmn => false
  | add => instr.addr1S && instr.idxRd = 15
  | _ => instr.idxRd = 15

/-- The sum or difference as an integer. -/
def exact (op : Arith) (rn operand : Int) (carry : Bool) : Int :=
  match op with
  | add | cmn => rn + operand
  | adc => rn + operand + carry.toInt
  | sub | cmp => rn - operand
  | sbc => rn - operand - (!carry).toInt
  | rsb => operand - rn
  | rsc => operand - rn - (!carry).toInt

def result (op : Arith) (rn operand : BitVec 32) (carry : Bool) : BitVec 32 :=
  BitVec.ofInt 32 (op.exact rn.toNat operand.toNat carry)

/-- The carry of a sum, or the negated borrow of a difference. -/
def carryOut (op : Arith) (rn operand : BitVec 32) (carry : Bool) : Bool :=
  match op with
  | add | adc | cmn => 2 ^ 32 ≤ op.exact rn.toNat operand.toNat carry
  | _ => 0 ≤ op.exact rn.toNat operand.toNat carry

/-- Not a signed 32-bit number. -/
def outOfRange (x : Int) : Bool := !(-2 ^ 31 ≤ x ∧ x < 2 ^ 31)

def overflows (op : Arith) (rn operand : BitVec 32) (carry : Bool) : Bool :=
  outOfRange (op.exact rn.toInt operand.toInt carry)

def psr (op : Arith) (p : PSR) (rn operand : BitVec 32) : PSR :=
  { p with
    neg := (op.result rn operand p.carry).msb
    zero := op.result rn operand p.carry = 0
    carry := op.carryOut rn operand p.carry
    overflow := op.overflows rn operand p.carry }

end Arith

namespace Reference

/-- The second operand of addressing mode 1. -/
def operand (ctx : State) (instr : ARMInstr) : Option ShifterOperand :=
  match getAddrMode1Encoding instr with
  | .imm =>
    let value := instr.immed8.rotateRight (2 * instr.rotateImm.toNat)
    some ⟨value, if instr.rotateImm = 0 then ctx.cpsr.carry else value.msb⟩
  | .shiftByImm =>
    some (shiftImm (ctx.fetchReg instr.idxRm) instr.addr1ShiftImm.toNat instr.addr1Shift
      ctx.cpsr.carry)
  | .shiftByReg =>
    some (shift (ctx.fetchReg instr.idxRm) (ctx.fetchReg instr.idxRs &&& 0xFF).toNat
      instr.addr1Shift ctx.cpsr.carry)
  | .unknown => none

end Reference

/-- The operand is an `ASR` by 1. -/
def asrByOne (ctx : State) (instr : ARMInstr) : Bool :=
  match getAddrMode1Encoding instr with
  | .shiftByImm => instr.addr1Shift = .asr ∧ instr.addr1ShiftImm = 1
  | .shiftByReg => instr.addr1Shift = .asr ∧ ctx.fetchReg instr.idxRs &&& 0xFF = 1
  | _ => false


/-! ## The operand -/

variable {ctx : State} {instr : ARMInstr}

theorem toNat_two_mul {v : BitVec 32} (h : v.toNat < 16) : (2 * v).toNat = 2 * v.toNat := by
  rw [BitVec.toNat_mul, show (2 : BitVec 32).toNat = 2 from rfl]
  omega

theorem rotateImm_lt (instr : ARMInstr) : instr.rotateImm.toNat < 16 := by
  rw [ARMInstr.rotateImm, BitVec.toNat_setWidth]
  have h := (instr.raw.extractLsb' 8 4).isLt
  omega

theorem addr1ShiftImm_lt (instr : ARMInstr) : instr.addr1ShiftImm < 32 := by
  show instr.addr1ShiftImm.toNat < 32
  rw [ARMInstr.addr1ShiftImm, BitVec.toNat_setWidth]
  have h := (instr.raw.extractLsb' 7 5).isLt
  omega

theorem getAddr1ShifterOperand_eq (h : asrByOne ctx instr = false) :
    getAddr1ShifterOperand ctx instr = .ok (Reference.operand ctx instr) := by
  unfold getAddr1ShifterOperand Reference.operand
  unfold asrByOne at h
  cases he : getAddrMode1Encoding instr with
  | imm =>
    have hlt := rotateImm_lt instr
    have htwo := toNat_two_mul hlt
    have hrot : rotateRight instr.immed8 (2 * instr.rotateImm) =
        some (instr.immed8.rotateRight (2 * instr.rotateImm.toNat)) := by
      rw [rotateRight_eq (show (2 * instr.rotateImm).toNat < 32 by omega), htwo]
    have hcarry : truthy instr.rotateImm = !decide (instr.rotateImm = 0) := by simp [truthy]
    simp only [hrot, defined, truthy_shiftRight_31, hcarry]
    by_cases h0 : instr.rotateImm = 0
    · simp only [h0]
      rfl
    · simp only [h0]
      rfl
  | shiftByImm =>
    simp only [he, decide_eq_false_iff_not] at h
    simp only [calcShifterOperandFromImmediate_eq _ _ (addr1ShiftImm_lt instr), if_neg h, defined]
    rfl
  | shiftByReg =>
    simp only [he, decide_eq_false_iff_not] at h
    simp only [calcShifterOperand_eq, if_neg h, defined]
    rfl
  | unknown => rfl

/-! ## The flags are those of the exact result -/

variable {l r result : BitVec 32} {c : Bool}

theorem toNat_bit (b : Bool) : (bit b).toNat = b.toNat := by cases b <;> rfl

theorem toInt_eq_toNat_sub (v : BitVec 32) :
    v.toInt = if 2 ^ 31 ≤ v.toNat then (v.toNat : Int) - 2 ^ 32 else (v.toNat : Int) := by
  rw [BitVec.toInt_eq_msb_cond, BitVec.msb_eq_decide]
  simp

theorem signBits_carry (h : result.toNat = (l.toNat + r.toNat + c.toNat) % 2 ^ 32) :
    decide ((l >>> 31) + (r >>> 31) > result >>> 31) =
      decide (2 ^ 32 ≤ l.toNat + r.toNat + c.toNat) := by
  have hl := l.isLt
  have hr := r.isLt
  have hc := Bool.toNat_le c
  rw [decide_eq_decide, gt_iff_lt, BitVec.lt_def, BitVec.toNat_add]
  simp only [BitVec.toNat_ushiftRight, Nat.shiftRight_eq_div_pow]
  omega

theorem getCarry_eq (l r : BitVec 32) :
    getCarry l r = decide (2 ^ 32 ≤ l.toNat + r.toNat) :=
  signBits_carry (c := false) (BitVec.toNat_add l r)

theorem getCarryC_eq (l r : BitVec 32) (c : Bool) :
    getCarryC l r c = decide (2 ^ 32 ≤ l.toNat + r.toNat + c.toNat) := by
  refine signBits_carry ?_
  rw [BitVec.toNat_add, BitVec.toNat_add, toNat_bit]
  omega

theorem borrowC_eq (l r : BitVec 32) (c : Bool) :
    borrowC l r c = decide (l.toNat < r.toNat + (!c).toNat) := by
  have hl := l.isLt
  have hr := r.isLt
  have hc := Bool.toNat_le (!c)
  rw [borrowC, decide_eq_decide, BitVec.lt_def, BitVec.toNat_add]
  simp only [BitVec.toNat_setWidth, toNat_bit]
  omega

theorem getOverflowFromAdd_eq (h : result.toNat = (l.toNat + r.toNat + c.toNat) % 2 ^ 32) :
    getOverflowFromAdd l r result =
      Arith.outOfRange (l.toInt + r.toInt + c.toInt) := by
  have hl := l.isLt
  have hr := r.isLt
  have hc : c.toInt = c.toNat := by cases c <;> rfl
  have hc1 := Bool.toNat_le c
  rw [getOverflowFromAdd, truthy_shiftRight_31]
  simp only [BitVec.msb_and, BitVec.msb_xor, BitVec.msb_not]
  simp only [Arith.outOfRange, BitVec.msb_eq_decide, toInt_eq_toNat_sub, hc]
  rw [Bool.eq_iff_iff]
  by_cases h1 : 2 ^ 31 ≤ l.toNat <;> by_cases h2 : 2 ^ 31 ≤ r.toNat <;>
    by_cases h3 : 2 ^ 31 ≤ result.toNat <;> simp <;> omega

theorem overflowFromSub_eq (h : (result.toNat : Int) = ((l.toNat : Int) - r.toNat) % 2 ^ 32) :
    overflowFromSub l r result =
      Arith.outOfRange (l.toInt - r.toInt) := by
  have hl := l.isLt
  have hr := r.isLt
  rw [overflowFromSub, truthy_shiftRight_31]
  simp only [BitVec.msb_and, BitVec.msb_xor]
  simp only [Arith.outOfRange, BitVec.msb_eq_decide, toInt_eq_toNat_sub]
  rw [Bool.eq_iff_iff]
  by_cases h1 : 2 ^ 31 ≤ l.toNat <;> by_cases h2 : 2 ^ 31 ≤ r.toNat <;>
    by_cases h3 : 2 ^ 31 ≤ result.toNat <;> simp <;> omega

theorem ofInt_64_eq {a b : Int} (ha : -2 ^ 40 ≤ a ∧ a < 2 ^ 40) (hb : -2 ^ 40 ≤ b ∧ b < 2 ^ 40) :
    BitVec.ofInt 64 a = BitVec.ofInt 64 b ↔ a = b := by
  have hself : ∀ x : Int, -2 ^ 40 ≤ x ∧ x < 2 ^ 40 → (BitVec.ofInt 64 x).toInt = x := by
    intro x hx
    exact BitVec.toInt_ofInt_eq_self (by decide) (by omega) (by omega)
  rw [← BitVec.toInt_inj, hself a ha, hself b hb]

theorem overflowFromSubC_eq
    (h : (result.toNat : Int) = ((l.toNat : Int) - r.toNat - (!c).toInt) % 2 ^ 32) :
    overflowFromSubC l r result c =
      Arith.outOfRange (l.toInt - r.toInt - (!c).toInt) := by
  have hl := l.isLt
  have hr := r.isLt
  have hlt := result.isLt
  have hn : (~~~r).toNat = 2 ^ 32 - 1 - r.toNat := BitVec.toNat_not
  have hbit : (bit c).setWidth 64 = BitVec.ofInt 64 c.toInt := by cases c <;> rfl
  have hc : c.toInt = 1 - (!c).toInt := by cases c <;> rfl
  have hc1 : 0 ≤ (!c).toInt ∧ (!c).toInt ≤ 1 := by cases c <;> decide
  have hsum : l.signExtend 64 + (~~~r).signExtend 64 + (bit c).setWidth 64 =
      BitVec.ofInt 64 (l.toInt + (~~~r).toInt + c.toInt) := by
    rw [BitVec.ofInt_add, BitVec.ofInt_add, hbit]
    rfl
  have hres : result.signExtend 64 = BitVec.ofInt 64 result.toInt := rfl
  rw [overflowFromSubC, Arith.outOfRange, hsum, hres, ← decide_not, decide_eq_decide, ne_eq, not_iff_not,
    ofInt_64_eq (by simp only [toInt_eq_toNat_sub]; omega)
      (by simp only [toInt_eq_toNat_sub]; omega)]
  simp only [toInt_eq_toNat_sub, hn, hc]
  omega

theorem Arith.toNat_result (op : Arith) (rn o : BitVec 32) (c : Bool) :
    ((op.result rn o c).toNat : Int) = op.exact rn.toNat o.toNat c % 2 ^ 32 := by
  rw [Arith.result, BitVec.toNat_ofInt]
  show ((_ % (2 : Int) ^ 32).toNat : Int) = _
  omega

/-- What an `Alu` must do to stand for an operation. -/
structure Alu.Computes (alu : Alu) (op : Arith) : Prop where
  result : ∀ rn o c, alu.result rn o c = op.result rn o c
  carryOut : ∀ ctx rn o, (alu.updateCV ctx rn o (op.result rn o ctx.cpsr.carry)) =
    ctx.setPsr fun p => { p with
      carry := op.carryOut rn o p.carry, overflow := op.overflows rn o p.carry }

theorem Alu.Computes.flags {alu : Alu} {op : Arith} (h : alu.Computes op) (ctx : State)
    (rn o : BitVec 32) : alu.flags ctx rn o (op.result rn o ctx.cpsr.carry) =
      ctx.setPsr fun p => op.psr p rn o := by
  unfold Alu.flags
  have hcarry : (updateCpsrZ (updateCpsrN ctx (op.result rn o ctx.cpsr.carry))
      (op.result rn o ctx.cpsr.carry)).cpsr.carry = ctx.cpsr.carry := rfl
  have hcv := h.carryOut (updateCpsrZ (updateCpsrN ctx (op.result rn o ctx.cpsr.carry))
      (op.result rn o ctx.cpsr.carry)) rn o
  rw [hcarry] at hcv
  rw [hcv]
  simp only [updateCpsrZ, updateCpsrN, setPsr, truthy_shiftRight_31]
  rfl

theorem Alu.Computes.flags_set {alu : Alu} {op : Arith} (h : alu.Computes op) (ctx : State)
    (i : BitVec 4) (v rn o : BitVec 32) :
    alu.flags (ctx.set i v) rn o (op.result rn o ctx.cpsr.carry) =
      (ctx.set i v).setPsr fun p => op.psr p rn o :=
  h.flags (ctx.set i v) rn o

theorem aluAdd_computes : aluAdd.Computes .add where
  result rn o c := by
    apply BitVec.eq_of_toNat_eq
    have h := Arith.toNat_result .add rn o c
    simp only [Arith.exact] at h
    simp only [aluAdd, BitVec.toNat_add]
    omega
  carryOut ctx rn o := by
    have h := Arith.toNat_result .add rn o ctx.cpsr.carry
    simp only [Arith.exact] at h
    have hc : getCarry rn o = Arith.carryOut .add rn o ctx.cpsr.carry := by
      rw [getCarry_eq, Arith.carryOut, Arith.exact, decide_eq_decide]
      omega
    have hv : getOverflowFromAdd rn o (Arith.result .add rn o ctx.cpsr.carry) =
        Arith.overflows .add rn o ctx.cpsr.carry := by
      rw [getOverflowFromAdd_eq (c := false) (by simp only [Bool.toNat_false]; omega)]
      rw [Bool.toInt_false, Int.add_zero]
      rfl
    simp only [aluAdd, updateCpsrC, updateCpsrV, setPsr, hv, hc]

theorem aluAdc_computes : aluAdc.Computes .adc where
  result rn o c := by
    apply BitVec.eq_of_toNat_eq
    have h := Arith.toNat_result .adc rn o c
    have hc : c.toInt = c.toNat := by cases c <;> rfl
    simp only [Arith.exact] at h
    simp only [aluAdc, BitVec.toNat_add, toNat_bit]
    omega
  carryOut ctx rn o := by
    have h := Arith.toNat_result .adc rn o ctx.cpsr.carry
    have hc : ctx.cpsr.carry.toInt = ctx.cpsr.carry.toNat := by cases ctx.cpsr.carry <;> rfl
    simp only [Arith.exact] at h
    have hcarry : getCarryC rn o ctx.cpsr.carry = Arith.carryOut .adc rn o ctx.cpsr.carry := by
      rw [getCarryC_eq, Arith.carryOut, Arith.exact, decide_eq_decide]
      omega
    have hv : getOverflowFromAdd rn o (Arith.result .adc rn o ctx.cpsr.carry) =
        Arith.overflows .adc rn o ctx.cpsr.carry := by
      rw [getOverflowFromAdd_eq (c := ctx.cpsr.carry) (by omega)]
      rfl
    simp only [aluAdc, updateCpsrC, updateCpsrV, setPsr, hv, hcarry]

/-! `RSB` and `RSC` are `SUB` and `SBC` with the operands swapped. -/

theorem sub_result (l r : BitVec 32) (c : Bool) : l - r = Arith.result .sub l r c := by
  apply BitVec.eq_of_toNat_eq
  have h := Arith.toNat_result .sub l r c
  have hr := r.isLt
  simp only [Arith.exact] at h
  rw [BitVec.toNat_sub]
  omega

theorem sub_carry (l r : BitVec 32) (c : Bool) : (!borrow l r) = Arith.carryOut .sub l r c := by
  show _ = decide (0 ≤ (l.toNat : Int) - r.toNat)
  rw [borrow, ← decide_not, decide_eq_decide, BitVec.lt_def]
  omega

theorem sub_overflow (l r : BitVec 32) (c : Bool) :
    overflowFromSub l r (Arith.result .sub l r c) = Arith.overflows .sub l r c := by
  rw [overflowFromSub_eq (Arith.toNat_result .sub l r c)]
  rfl

theorem sbc_result (l r : BitVec 32) (c : Bool) :
    l - r - bit (!c) = Arith.result .sbc l r c := by
  apply BitVec.eq_of_toNat_eq
  have h := Arith.toNat_result .sbc l r c
  have hc : (!c).toInt = (!c).toNat := by cases c <;> rfl
  have hc1 := Bool.toNat_le (!c)
  have hl := l.isLt
  have hr := r.isLt
  simp only [Arith.exact] at h
  rw [BitVec.toNat_sub, BitVec.toNat_sub, toNat_bit]
  omega

theorem sbc_carry (l r : BitVec 32) (c : Bool) : (!borrowC l r c) = Arith.carryOut .sbc l r c := by
  have hc : (!c).toInt = (!c).toNat := by cases c <;> rfl
  show _ = decide (0 ≤ (l.toNat : Int) - r.toNat - (!c).toInt)
  rw [borrowC_eq, ← decide_not, decide_eq_decide]
  omega

theorem sbc_overflow (l r : BitVec 32) (c : Bool) :
    overflowFromSubC l r (Arith.result .sbc l r c) c = Arith.overflows .sbc l r c := by
  rw [overflowFromSubC_eq (Arith.toNat_result .sbc l r c)]
  rfl

theorem aluSub_computes : aluSub.Computes .sub where
  result rn o c := sub_result rn o c
  carryOut ctx rn o := by
    simp only [aluSub, updateCpsrC, updateCpsrV, setPsr, sub_carry rn o ctx.cpsr.carry,
      sub_overflow]

theorem aluSbc_computes : aluSbc.Computes .sbc where
  result rn o c := sbc_result rn o c
  carryOut ctx rn o := by
    simp only [aluSbc, updateCpsrC, updateCpsrV, setPsr, sbc_carry, sbc_overflow]

theorem exact_rsb (a b : Int) (c : Bool) : Arith.exact .rsb a b c = Arith.exact .sub b a c := rfl

theorem exact_rsc (a b : Int) (c : Bool) : Arith.exact .rsc a b c = Arith.exact .sbc b a c := rfl

theorem aluRsb_computes : aluRsb.Computes .rsb where
  result rn o c := by
    rw [Arith.result, exact_rsb, ← Arith.result, ← sub_result]
    rfl
  carryOut ctx rn o := by
    have hc : (!borrow o rn) = Arith.carryOut .rsb rn o ctx.cpsr.carry := by
      rw [sub_carry o rn ctx.cpsr.carry]
      simp only [Arith.carryOut, exact_rsb]
      exact decide_eq_decide.2 Iff.rfl
    have hv : overflowFromSub o rn (Arith.result .rsb rn o ctx.cpsr.carry) =
        Arith.overflows .rsb rn o ctx.cpsr.carry := by
      rw [Arith.overflows, Arith.result, exact_rsb, exact_rsb, ← Arith.result, sub_overflow,
        Arith.overflows]
    simp only [aluRsb, updateCpsrC, updateCpsrV, setPsr, hc, hv]

theorem aluRsc_computes : aluRsc.Computes .rsc where
  result rn o c := by
    rw [Arith.result, exact_rsc, ← Arith.result, ← sbc_result]
    rfl
  carryOut ctx rn o := by
    have hc : (!borrowC o rn ctx.cpsr.carry) = Arith.carryOut .rsc rn o ctx.cpsr.carry := by
      rw [sbc_carry o rn ctx.cpsr.carry]
      simp only [Arith.carryOut, exact_rsc]
      exact decide_eq_decide.2 Iff.rfl
    have hv : overflowFromSubC o rn (Arith.result .rsc rn o ctx.cpsr.carry) ctx.cpsr.carry =
        Arith.overflows .rsc rn o ctx.cpsr.carry := by
      rw [Arith.overflows, Arith.result, exact_rsc, exact_rsc, ← Arith.result, sbc_overflow,
        Arith.overflows]
    simp only [aluRsc, updateCpsrC, updateCpsrV, setPsr, hc, hv]

theorem aluSub_computes_cmp : aluSub.Computes .cmp :=
  ⟨aluSub_computes.result, aluSub_computes.carryOut⟩

theorem aluAdd_computes_cmn : aluAdd.Computes .cmn :=
  ⟨aluAdd_computes.result, aluAdd_computes.carryOut⟩

/-! ## The handlers -/

section

variable {alu : Alu} {op : Arith} {o : ShifterOperand}
  (hcond : evalCond ctx instr.cond = .ok true) (hop : Reference.operand ctx instr = some o)
  (hasr : asrByOne ctx instr = false)

include hop hasr in
theorem withShifterOperand_eq (body : ShifterOperand → Handled) :
    withShifterOperand ctx instr body = body o := by
  rw [withShifterOperand, getAddr1ShifterOperand_eq hasr, hop]
  rfl

include hcond hop hasr

theorem handlerArithmetic_eq (h : alu.Computes op) (hrd : instr.idxRd ≠ 15) :
    handlerArithmetic alu ctx instr =
      let rn := ctx.fetchReg instr.idxRn
      let ctx' := ctx.set instr.idxRd (op.result rn o.value ctx.cpsr.carry)
      .ok (if instr.addr1S then ctx'.setPsr fun p => op.psr p rn o.value else ctx',
        ctx.pc + 4) := by
  have hpc : ∀ v, (ctx.set instr.idxRd v).reg 15 = ctx.reg 15 := set_reg_of_ne ctx hrd.symm
  rw [handlerArithmetic, conditional_true hcond, if_neg hrd, withShifterOperand_eq hop hasr]
  simp only [h.result, h.flags_set]
  split <;> simp only [nextInstr, pc, setPsr_reg, hpc]

theorem handlerAdd_eq (hrd : ¬ (instr.addr1S ∧ instr.idxRd = 15)) :
    handlerAdd ctx instr =
      let rn := ctx.fetchReg instr.idxRn
      let result := Arith.result .add rn o.value ctx.cpsr.carry
      let ctx' := ctx.set instr.idxRd result
      .ok (if instr.addr1S then ctx'.setPsr fun p => Arith.psr .add p rn o.value else ctx',
        if instr.idxRd = 15 then result else ctx.pc + 4) := by
  rw [handlerAdd, conditional_true hcond, if_neg hrd, withShifterOperand_eq hop hasr]
  simp only [aluAdd_computes.result, aluAdd_computes.flags_set]
  by_cases h15 : instr.idxRd = 15
  · have hs : instr.addr1S = false := by simpa [h15] using hrd
    simp only [h15, hs, Bool.false_eq_true, if_false, if_true, pc, set_reg_self]
  · have hpc : ∀ v, (ctx.set instr.idxRd v).reg 15 = ctx.reg 15 :=
      set_reg_of_ne ctx (Ne.symm h15)
    simp only [h15, if_false, nextInstr, pc]
    split <;> simp only [setPsr_reg, hpc]

theorem handlerCompare_eq (h : alu.Computes op) :
    handlerCompare alu ctx instr =
      .ok (ctx.setPsr fun p => op.psr p (ctx.reg instr.idxRn) o.value, ctx.pc + 4) := by
  rw [handlerCompare, conditional_true hcond, withShifterOperand_eq hop hasr]
  simp only [h.result, h.flags]
  rfl

end

/-- What an executed instruction leaves: the exact result modulo `2 ^ 32` in the destination, the
flags of the exact result, and every other register and flag as it was. -/
structure Arith.Executed (op : Arith) (ctx : State) (instr : ARMInstr) (o : ShifterOperand)
    (ctx' : State) (next : BitVec 32) : Prop where
  destination : op.compares = false →
    ctx'.reg instr.idxRd = op.result (ctx.fetchReg instr.idxRn) o.value ctx.cpsr.carry
  others : ∀ i, op.compares ∨ i ≠ instr.idxRd → ctx'.reg i = ctx.reg i
  flags : ctx'.cpsr =
    if op.compares ∨ instr.addr1S then op.psr ctx.cpsr (ctx.fetchReg instr.idxRn) o.value
    else ctx.cpsr
  next : next = if op.compares = false ∧ instr.idxRd = 15 then ctx'.reg 15 else ctx.pc + 4

section

variable {alu : Alu} {op : Arith} {o : ShifterOperand}
  (hcond : evalCond ctx instr.cond = .ok true) (hop : Reference.operand ctx instr = some o)
  (hasr : asrByOne ctx instr = false)

include hcond hop hasr

theorem executed_arithmetic (h : alu.Computes op) (hc : op.compares = false)
    (hrd : instr.idxRd ≠ 15) : ∃ ctx' next,
      handlerArithmetic alu ctx instr = .ok (ctx', next) ∧ op.Executed ctx instr o ctx' next := by
  refine ⟨_, _, handlerArithmetic_eq hcond hop hasr h hrd, ⟨fun _ => ?_, fun i hi => ?_, ?_, ?_⟩⟩
  · split <;> simp
  · have hi : i ≠ instr.idxRd := by simpa [hc] using hi
    split <;> simp [set_reg_of_ne ctx hi]
  · split <;> simp_all
  · rw [if_neg (fun h => hrd h.2)]

theorem executed_add (hrd : ¬ (instr.addr1S ∧ instr.idxRd = 15)) : ∃ ctx' next,
    handlerAdd ctx instr = .ok (ctx', next) ∧ Arith.Executed .add ctx instr o ctx' next := by
  refine ⟨_, _, handlerAdd_eq hcond hop hasr hrd, ⟨fun _ => ?_, fun i hi => ?_, ?_, ?_⟩⟩
  · split <;> simp
  · have hi : i ≠ instr.idxRd := by simpa [Arith.compares] using hi
    split <;> simp [set_reg_of_ne ctx hi]
  · split <;> simp_all [Arith.compares]
  · by_cases h15 : instr.idxRd = 15
    · have hs : instr.addr1S = false := by simpa [h15] using hrd
      simp [Arith.compares, h15, hs]
    · rw [if_neg h15, if_neg (fun h => h15 h.2)]

theorem executed_compare (h : alu.Computes op) (hc : op.compares = true)
    (hrn : instr.idxRn ≠ 15) : ∃ ctx' next,
      handlerCompare alu ctx instr = .ok (ctx', next) ∧ op.Executed ctx instr o ctx' next := by
  have hrn : ctx.fetchReg instr.idxRn = ctx.reg instr.idxRn := if_neg hrn
  refine ⟨_, _, handlerCompare_eq hcond hop hasr h, ⟨fun h => ?_, fun i hi => ?_, ?_, ?_⟩⟩
  · exact absurd hc (by simp [h])
  · rfl
  · simp [hc, hrn]
  · simp [hc]

/-- The arithmetic instructions, for every register, operand and carry. -/
theorem arithmetic_exact (op : Arith) (hrd : op.refusesPC instr = false)
    (hrn : op.compares = true → instr.idxRn ≠ 15) : ∃ ctx' next,
      op.handler ctx instr = .ok (ctx', next) ∧ op.Executed ctx instr o ctx' next := by
  have hne : ∀ {p : Prop} [Decidable p], decide p = false → ¬ p := fun h => of_decide_eq_false h
  cases op with
  | add => exact executed_add hcond hop hasr (by simpa [Arith.refusesPC] using hrd)
  | adc => exact executed_arithmetic hcond hop hasr aluAdc_computes rfl (hne hrd)
  | sub => exact executed_arithmetic hcond hop hasr aluSub_computes rfl (hne hrd)
  | sbc => exact executed_arithmetic hcond hop hasr aluSbc_computes rfl (hne hrd)
  | rsb => exact executed_arithmetic hcond hop hasr aluRsb_computes rfl (hne hrd)
  | rsc => exact executed_arithmetic hcond hop hasr aluRsc_computes rfl (hne hrd)
  | cmp => exact executed_compare hcond hop hasr aluSub_computes_cmp rfl (hrn rfl)
  | cmn => exact executed_compare hcond hop hasr aluAdd_computes_cmn rfl (hrn rfl)

end

/-- `SUBS R0, R0, #1` -/
theorem arithmetic_exact_subs : ∃ ctx' next,
    Arith.handler .sub .zero ⟨0xE2500001⟩ = .ok (ctx', next) ∧
      Arith.Executed .sub .zero ⟨0xE2500001⟩ ⟨1, false⟩ ctx' next :=
  arithmetic_exact (by decide) (by decide) (by decide) .sub (by decide) (by decide)

/-- `ADC PC, R0, R1` -/
theorem adc_pc_refused : ¬ ∃ ctx' next,
    Arith.handler .adc .zero ⟨0xE0A0F001⟩ = .ok (ctx', next) := by
  rintro ⟨ctx', next, h⟩
  have hstub : Arith.handler .adc .zero ⟨0xE0A0F001⟩ =
      handlerStubWithMessage .zero ⟨0xE0A0F001⟩ unpredictablePC := by
    show conditional _ _ _ _ = _
    rw [conditional_true (by decide), if_pos (by decide)]
  rw [hstub] at h
  cases h

end Mikage.Arm
