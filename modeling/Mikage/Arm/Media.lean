import Mikage.Arm.DataProcessing

/-!
# Signed multiplies and saturation

`SMULxy`, `SMLAxy`, `SSAT` and `USAT`, against products, sums and clamps of integers.

Arithmetic on `int32_t` that overflows is undefined in C++ (`signed`). So `SMLAxy` has no defined
result where it would set Q, and neither has `SSAT` with the position 31.
-/

namespace Mikage.Arm

/-- The registers with all flags of the CPSR that the media instructions use. -/
structure Cpu extends State where
  q : Bool
  ge : Fin 4 → Bool

namespace Cpu

variable (ctx : Cpu)

/-- `reg[index] = value` -/
def put (index : BitVec 4) (value : BitVec 32) : Cpu := { ctx with toState := ctx.set index value }

/-- `if (changed) cpsr.q = 1` -/
def saturates (changed : Bool) : Cpu := { ctx with q := ctx.q || changed }

@[simp] theorem put_q (i v) : (ctx.put i v).q = ctx.q := rfl
@[simp] theorem put_ge (i v) : (ctx.put i v).ge = ctx.ge := rfl
@[simp] theorem put_reg_self (i v) : (ctx.put i v).reg i = v := ctx.set_reg_self i v
@[simp] theorem put_cpsr (i v) : (ctx.put i v).cpsr = ctx.cpsr := rfl
@[simp] theorem saturates_reg (c) : (ctx.saturates c).reg = ctx.reg := rfl
@[simp] theorem saturates_q (c) : (ctx.saturates c).q = (ctx.q || c) := rfl
@[simp] theorem saturates_false : ctx.saturates false = ctx := by simp [saturates]

theorem put_reg_of_ne {i j : BitVec 4} (h : j ≠ i) (v) : (ctx.put i v).reg j = ctx.reg j :=
  ctx.set_reg_of_ne h v

theorem put_put (i v w) : (ctx.put i v).put i w = ctx.put i w := by
  simp [put, State.set]

/-- Registers that all hold 0, and clear flags. -/
def zero : Cpu := ⟨.zero, false, fun _ => false⟩

end Cpu

/-- A processor, and the address of the next instruction. -/
abbrev Executed := Except Fault (Cpu × BitVec 32)

def stubAnnotated {α : Type} (ctx : State) (instr : ARMInstr) (line : Nat) : Except Fault α :=
  handlerStubWithMessage ctx instr ("(at line " ++ toString line ++ ")")

/-- The end of a handler. -/
def done (ctx : Cpu) : Executed := .ok (ctx, nextInstr ctx.toState)

theorem done_inj {ctx ctx' : Cpu} : done ctx = done ctx' ↔ ctx = ctx' := by
  constructor
  · intro h
    exact (Prod.mk.inj (Except.ok.inj h)).1
  · rintro rfl
    rfl

/-- The result of an operation on `int32_t`. -/
def signed (x : Int) : Except Fault (BitVec 32) :=
  if Arith.outOfRange x then .error .undefined else .ok (BitVec.ofInt 32 x)

theorem outOfRange_iff {x : Int} : Arith.outOfRange x = false ↔ -2 ^ 31 ≤ x ∧ x < 2 ^ 31 := by
  simp [Arith.outOfRange]

theorem signed_ok {x : Int} (h : Arith.outOfRange x = false) :
    signed x = .ok (BitVec.ofInt 32 x) := if_neg (by simp [h])

theorem toInt_ofInt {x : Int} (h : Arith.outOfRange x = false) : (BitVec.ofInt 32 x).toInt = x := by
  obtain ⟨hlow, hhigh⟩ := outOfRange_iff.1 h
  rw [BitVec.toInt_ofInt]
  exact Int.bmod_eq_of_le hlow (by omega)

/-- Numbers in the range are equal if their words are. -/
theorem ofInt_inj {x y : Int} (hx : Arith.outOfRange x = false) (hy : Arith.outOfRange y = false) :
    BitVec.ofInt 32 x = BitVec.ofInt 32 y ↔ x = y := by
  constructor
  · intro h
    rw [← toInt_ofInt hx, h, toInt_ofInt hy]
  · rintro rfl
    rfl

/-! ## Multiplies of halfwords -/

/-- `int16_t` of `v >> shift`, as an `int32_t`. -/
def halfwordAt (v : BitVec 32) (shift : Nat) : BitVec 32 :=
  ((v >>> shift).setWidth 16).signExtend 32

namespace ARMInstr

variable (instr : ARMInstr)

/-- The selector of the halfword of Rm. -/
def mulX : Bool := instr.raw.getLsbD 5

/-- The selector of the halfword of Rs. -/
def mulY : Bool := instr.raw.getLsbD 6

end ARMInstr

/-- The operands, and their product. `input2_shift` is a `bool`, and so the shift is by 0 or 1. -/
def multiplyHalfwords (ctx : Cpu) (instr : ARMInstr) : Except Fault (BitVec 32) :=
  let input1Shift := 16 * instr.mulX.toNat
  let input1 := halfwordAt (ctx.fetchReg instr.idxRm) input1Shift
  let input2Shift := instr.mulY.toNat
  let input2 := halfwordAt (ctx.fetchReg instr.idxRs) input2Shift
  signed (input1.toInt * input2.toInt)

def handlerSmulxx (ctx : Cpu) (instr : ARMInstr) : Executed :=
  conditional ctx.toState instr ctx <|
    if instr.idxRn = 15 ∨ instr.idxRs = 15 ∨ instr.idxRm = 15 then
      stubAnnotated ctx.toState instr 1023
    else do
      let result ← multiplyHalfwords ctx instr
      done (ctx.put instr.idxRn result)

def handlerSmlaxx (ctx : Cpu) (instr : ARMInstr) : Executed :=
  conditional ctx.toState instr ctx <|
    if instr.idxRd = 15 ∨ instr.idxRn = 15 ∨ instr.idxRs = 15 ∨ instr.idxRm = 15 then
      stubAnnotated ctx.toState instr 1125
    else do
      let product ← multiplyHalfwords ctx instr
      let accumulator := ctx.fetchReg instr.idxRd
      let result ← signed (product.toInt + accumulator.toInt)
      let ctx := ctx.saturates (getOverflowFromAdd product accumulator result)
      done (ctx.put instr.idxRn result)

namespace Reference

/-- The bottom or the top halfword, as a signed number. -/
def halfword (v : BitVec 32) (top : Bool) : Int :=
  ((if top then v.extractLsb' 16 16 else v.extractLsb' 0 16) : BitVec 16).toInt

def halfwordProduct (ctx : Cpu) (instr : ARMInstr) : Int :=
  halfword (ctx.reg instr.idxRm) instr.mulX * halfword (ctx.reg instr.idxRs) instr.mulY

def halfwordSum (ctx : Cpu) (instr : ARMInstr) : Int :=
  halfwordProduct ctx instr + (ctx.reg instr.idxRd).toInt

/-- `SMULxy` -/
def smul (ctx : Cpu) (instr : ARMInstr) : Cpu :=
  ctx.put instr.idxRn (BitVec.ofInt 32 (halfwordProduct ctx instr))

/-- `SMLAxy` -/
def smla (ctx : Cpu) (instr : ARMInstr) : Cpu :=
  (ctx.saturates (Arith.outOfRange (halfwordSum ctx instr))).put instr.idxRn
    (BitVec.ofInt 32 (halfwordSum ctx instr))

end Reference

/-- The product of `multiplyHalfwords`, as a number. -/
def selectedProduct (ctx : Cpu) (instr : ARMInstr) : Int :=
  Reference.halfword (ctx.reg instr.idxRm) instr.mulX *
    if instr.mulY then ((ctx.reg instr.idxRs).extractLsb' 1 16).toInt
    else Reference.halfword (ctx.reg instr.idxRs) false

/-- Where the shift by 1 takes the place of the shift by 16, it finds the same number, or the other
factor is 0. -/
def SelectsHalfword (ctx : Cpu) (instr : ARMInstr) : Prop :=
  instr.mulY = true → Reference.halfword (ctx.reg instr.idxRm) instr.mulX = 0 ∨
    (ctx.reg instr.idxRs).extractLsb' 1 16 = (ctx.reg instr.idxRs).extractLsb' 16 16

instance (ctx : Cpu) (instr : ARMInstr) : Decidable (SelectsHalfword ctx instr) :=
  inferInstanceAs (Decidable (_ → _))

theorem halfwordAt_toInt (v : BitVec 32) (shift : Nat) :
    (halfwordAt v shift).toInt = (v.extractLsb' shift 16).toInt := by
  have hext : (v >>> shift).setWidth 16 = v.extractLsb' shift 16 := by
    apply BitVec.eq_of_toNat_eq
    simp
  rw [halfwordAt, hext, BitVec.toInt_signExtend_of_le (by decide)]

theorem halfword_range (h : BitVec 16) : -2 ^ 15 ≤ h.toInt ∧ h.toInt < 2 ^ 15 :=
  ⟨BitVec.le_toInt h, BitVec.toInt_lt⟩

theorem abs_mul_halfwords (a b : BitVec 16) : |a.toInt * b.toInt| ≤ 2 ^ 30 := by
  obtain ⟨halow, hahigh⟩ := halfword_range a
  obtain ⟨hblow, hbhigh⟩ := halfword_range b
  have ha : |a.toInt| ≤ 2 ^ 15 := abs_le.2 ⟨halow, hahigh.le⟩
  have hb : |b.toInt| ≤ 2 ^ 15 := abs_le.2 ⟨hblow, hbhigh.le⟩
  calc |a.toInt * b.toInt| = |a.toInt| * |b.toInt| := abs_mul ..
    _ ≤ 2 ^ 15 * 2 ^ 15 := mul_le_mul ha hb (abs_nonneg _) (by decide)
    _ = 2 ^ 30 := by decide

theorem abs_halfwordProduct (ctx : Cpu) (instr : ARMInstr) :
    |Reference.halfwordProduct ctx instr| ≤ 2 ^ 30 := abs_mul_halfwords ..

theorem abs_selectedProduct (ctx : Cpu) (instr : ARMInstr) :
    |selectedProduct ctx instr| ≤ 2 ^ 30 := by
  rw [selectedProduct]
  split <;> exact abs_mul_halfwords ..

theorem selectedProduct_eq_iff (ctx : Cpu) (instr : ARMInstr) :
    selectedProduct ctx instr = Reference.halfwordProduct ctx instr ↔
      SelectsHalfword ctx instr := by
  rw [selectedProduct, Reference.halfwordProduct, SelectsHalfword, mul_eq_mul_left_iff]
  cases instr.mulY with
  | false => simp
  | true =>
    simp only [if_true, Reference.halfword, BitVec.toInt_inj, true_implies]
    exact or_comm

theorem inRange_of_abs {x : Int} (h : |x| ≤ 2 ^ 30) : Arith.outOfRange x = false := by
  obtain ⟨hlow, hhigh⟩ := abs_le.1 h
  exact outOfRange_iff.2 ⟨by omega, by omega⟩

/-- Numbers that lie close together are equal if their words are. -/
theorem eq_of_ofInt_eq {x y : Int} (hdist : |x - y| < 2 ^ 32)
    (h : BitVec.ofInt 32 x = BitVec.ofInt 32 y) : x = y := by
  obtain ⟨hlow, hhigh⟩ := abs_lt.1 hdist
  have hnat := congrArg BitVec.toNat h
  simp only [BitVec.toNat_ofInt] at hnat
  omega

section

variable {ctx : Cpu} {instr : ARMInstr}

theorem multiplyHalfwords_eq (hrs : instr.idxRs ≠ 15) (hrm : instr.idxRm ≠ 15) :
    multiplyHalfwords ctx instr = .ok (BitVec.ofInt 32 (selectedProduct ctx instr)) := by
  have hproduct : (halfwordAt (ctx.fetchReg instr.idxRm) (16 * instr.mulX.toNat)).toInt *
      (halfwordAt (ctx.fetchReg instr.idxRs) instr.mulY.toNat).toInt =
        selectedProduct ctx instr := by
    rw [State.fetchReg, if_neg hrm, State.fetchReg, if_neg hrs, halfwordAt_toInt, halfwordAt_toInt,
      selectedProduct, Reference.halfword]
    cases instr.mulX <;> cases instr.mulY <;> rfl
  simp only [multiplyHalfwords, hproduct]
  exact signed_ok (inRange_of_abs (abs_selectedProduct ctx instr))

variable (hcond : evalCond ctx.toState instr.cond = .ok true)

include hcond

theorem handlerSmulxx_eq (hrn : instr.idxRn ≠ 15) (hrs : instr.idxRs ≠ 15)
    (hrm : instr.idxRm ≠ 15) : handlerSmulxx ctx instr =
      done (ctx.put instr.idxRn (BitVec.ofInt 32 (selectedProduct ctx instr))) := by
  rw [handlerSmulxx, conditional_true hcond, if_neg (by tauto),
    multiplyHalfwords_eq hrs hrm]
  rfl

/-- `SMLAxy` has a result where the sum is in the range, and then leaves Q alone. -/
theorem handlerSmlaxx_eq (hrd : instr.idxRd ≠ 15) (hrn : instr.idxRn ≠ 15)
    (hrs : instr.idxRs ≠ 15) (hrm : instr.idxRm ≠ 15) : handlerSmlaxx ctx instr =
      if Arith.outOfRange (selectedProduct ctx instr + (ctx.reg instr.idxRd).toInt) then
        .error .undefined
      else done (ctx.put instr.idxRn
        (BitVec.ofInt 32 (selectedProduct ctx instr + (ctx.reg instr.idxRd).toInt))) := by
  have hp := toInt_ofInt (inRange_of_abs (abs_selectedProduct ctx instr))
  rw [handlerSmlaxx, conditional_true hcond, if_neg (by tauto),
    multiplyHalfwords_eq hrs hrm, State.fetchReg, if_neg hrd]
  show (do
    let result ← signed
      ((BitVec.ofInt 32 (selectedProduct ctx instr)).toInt + (ctx.reg instr.idxRd).toInt)
    done ((ctx.saturates (getOverflowFromAdd (BitVec.ofInt 32 (selectedProduct ctx instr))
      (ctx.reg instr.idxRd) result)).put instr.idxRn result)) = _
  rw [hp]
  generalize hsum : selectedProduct ctx instr + (ctx.reg instr.idxRd).toInt = sum
  cases hout : Arith.outOfRange sum with
  | true =>
    rw [signed, if_pos hout]
    rfl
  | false =>
    have hv : getOverflowFromAdd (BitVec.ofInt 32 (selectedProduct ctx instr))
        (ctx.reg instr.idxRd) (BitVec.ofInt 32 sum) = false := by
      rw [getOverflowFromAdd_eq (c := false), hp, hsum]
      · simpa using hout
      · rw [← hsum, BitVec.ofInt_add, BitVec.ofInt_toInt, BitVec.toNat_add]
        simp
    rw [signed_ok hout]
    show done ((ctx.saturates (getOverflowFromAdd _ _ _)).put _ _) = _
    rw [hv, Cpu.saturates_false]
    rfl

/-- **Multiplies of halfwords**: `SMULxy` writes the product where the shift by 1 selects the
right number, `SMLAxy` the sum (with Q) exactly where in addition the sum is in the range. -/
theorem halfwordMultiply_exact (hrn : instr.idxRn ≠ 15) (hrs : instr.idxRs ≠ 15)
    (hrm : instr.idxRm ≠ 15) :
    (handlerSmulxx ctx instr = done (Reference.smul ctx instr) ↔ SelectsHalfword ctx instr) ∧
    (instr.idxRd ≠ 15 → (handlerSmlaxx ctx instr = done (Reference.smla ctx instr) ↔
      SelectsHalfword ctx instr ∧
        Arith.outOfRange (Reference.halfwordSum ctx instr) = false)) := by
  have hsel := selectedProduct_eq_iff ctx instr
  have habs := abs_le.1 (abs_selectedProduct ctx instr)
  have habs' := abs_le.1 (abs_halfwordProduct ctx instr)
  constructor
  · rw [handlerSmulxx_eq hcond hrn hrs hrm, done_inj, ← hsel]
    constructor
    · intro h
      have hreg := congrArg (fun c : Cpu => c.reg instr.idxRn) h
      simp only [Reference.smul, Cpu.put_reg_self] at hreg
      exact eq_of_ofInt_eq (abs_lt.2 ⟨by omega, by omega⟩) hreg
    · intro h
      rw [h, Reference.smul]
  · intro hrd
    rw [handlerSmlaxx_eq hcond hrd hrn hrs hrm, ← hsel]
    constructor
    · intro h
      split at h
      next => cases h
      next hout =>
        have hreg := congrArg (fun c : Cpu => c.reg instr.idxRn) (done_inj.1 h)
        simp only [Reference.smla, Cpu.put_reg_self, Reference.halfwordSum] at hreg
        have hsum := eq_of_ofInt_eq (abs_lt.2 ⟨by omega, by omega⟩) hreg
        refine ⟨by omega, ?_⟩
        rw [Reference.halfwordSum, ← hsum]
        simpa using hout
    · rintro ⟨h, hout⟩
      rw [h, Reference.smla, hout, Cpu.saturates_false]
      exact if_neg (by simpa [Reference.halfwordSum] using hout)

end

/-- Registers with the given values in R1 and R2, and 0 in the others. -/
def Cpu.withOperands (r1 r2 : BitVec 32) : Cpu := (Cpu.zero.put 1 r1).put 2 r2

/-- `SMULBB R0, R1, R2` -/
theorem halfwordMultiply_exact_smulbb :
    handlerSmulxx (.withOperands 0xFFFF 3) ⟨0xE1600281⟩ =
      done (Reference.smul (.withOperands 0xFFFF 3) ⟨0xE1600281⟩) :=
  (halfwordMultiply_exact (by decide) (by decide) (by decide) (by decide)).1.2 (by decide)

/-- `SMULBT R0, R1, R2` of 1 and 0x10000 -/
theorem smulbt_selects_shifted : handlerSmulxx (.withOperands 1 0x10000) ⟨0xE16002C1⟩ ≠
    done (Reference.smul (.withOperands 1 0x10000) ⟨0xE16002C1⟩) := by
  rw [handlerSmulxx_eq (by decide) (by decide) (by decide) (by decide), ne_eq, done_inj]
  intro h
  exact absurd (congrArg (fun c : Cpu => c.reg 0) h) (by decide)

/-! ## Saturation -/

def ARMInstr.satImm (instr : ARMInstr) : Nat := (instr.raw.extractLsb' 16 5).toNat

/-- `boost::algorithm::clamp<int32_t>` -/
def clampSigned (val low high : BitVec 32) : BitVec 32 :=
  if val.slt low then low else if high.slt val then high else val

/-- The common end of `HandlerUsat` and `HandlerSsat`. -/
def saturateTo (ctx : Cpu) (instr : ARMInstr) (operand minValue maxValue : BitVec 32) : Cpu :=
  let ctx := ctx.put instr.idxRd (clampSigned operand minValue maxValue)
  ctx.saturates (ctx.reg instr.idxRd ≠ operand)

/-- The shifted register, by the function for shifts by a register. -/
def satOperand (ctx : Cpu) (instr : ARMInstr) : Except Fault (BitVec 32) :=
  (·.value) <$> defined (calcShifterOperand (ctx.fetchReg instr.idxRm) instr.addr1ShiftImm
    instr.addr1Shift false)

def handlerUsat (ctx : Cpu) (instr : ARMInstr) : Executed :=
  conditional ctx.toState instr ctx <|
    if instr.idxRd = 15 ∨ instr.idxRm = 15 then stubAnnotated ctx.toState instr 1932
    else do
      let operand ← satOperand ctx instr
      let maxValue : BitVec 32 := (1 : BitVec 32) <<< instr.satImm - 1
      done (saturateTo ctx instr operand 0 maxValue)

def handlerSsat (ctx : Cpu) (instr : ARMInstr) : Executed :=
  conditional ctx.toState instr ctx <|
    if instr.idxRd = 15 ∨ instr.idxRm = 15 then stubAnnotated ctx.toState instr 1954
    else do
      let operand ← satOperand ctx instr
      -- at position 31 this is the least number, which has no negative
      let bound : BitVec 32 := (1 : BitVec 32) <<< instr.satImm
      let minValue ← signed (-bound.toInt)
      let maxValue ← signed (bound.toInt - 1)
      done (saturateTo ctx instr operand minValue maxValue)

inductive Saturation where
  | usat | ssat
  deriving DecidableEq, Repr

namespace Saturation

def handler : Saturation → Cpu → ARMInstr → Executed
  | usat => handlerUsat
  | ssat => handlerSsat

/-- The lower bound for a position. -/
def low : Saturation → Nat → Int
  | usat, _ => 0
  | ssat, n => -2 ^ n

end Saturation

namespace Reference

def clamp (x low high : Int) : Int := max low (min x high)

/-- The register holds the clamped number, and Q is set if that is another one. -/
def saturated (ctx : Cpu) (instr : ARMInstr) (x low high : Int) : Cpu :=
  (ctx.put instr.idxRd (BitVec.ofInt 32 (clamp x low high))).saturates (clamp x low high ≠ x)

/-- The shifted operand, where a shift by 0 is one by 32 for `ASR`. -/
def satOperand (ctx : Cpu) (instr : ARMInstr) : Int :=
  (shiftImm (ctx.reg instr.idxRm) instr.addr1ShiftImm.toNat instr.addr1Shift
    false).value.toInt

def saturate (op : Saturation) (ctx : Cpu) (instr : ARMInstr) : Cpu :=
  saturated ctx instr (satOperand ctx instr) (op.low instr.satImm) (2 ^ instr.satImm - 1)

end Reference

/-- No shift instead of one by 32: it makes no difference to numbers that are their own sign, for
`USAT` to no negative number, and at position 0 none behind an instruction that has set Q. -/
def Saturation.KeepsSign (op : Saturation) (ctx : Cpu) (instr : ARMInstr) : Prop :=
  (match op with
    | usat => (ctx.reg instr.idxRm).toInt ≤ 0
    | ssat => (ctx.reg instr.idxRm).toInt = 0 ∨ (ctx.reg instr.idxRm).toInt = -1) ∨
  instr.satImm = 0 ∧ ctx.q = true

/-- The shift is defined and the one that is encoded, and so are the bounds. -/
def Saturation.Shifts (op : Saturation) (ctx : Cpu) (instr : ARMInstr) : Prop :=
  (instr.addr1Shift = .asr → instr.addr1ShiftImm ≠ 1 ∧
    (instr.addr1ShiftImm = 0 → op.KeepsSign ctx instr)) ∧
  (op = .ssat → instr.satImm ≠ 31)

instance (op : Saturation) (ctx : Cpu) (instr : ARMInstr) : Decidable (op.KeepsSign ctx instr) := by
  unfold Saturation.KeepsSign
  cases op <;> infer_instance

instance (op : Saturation) (ctx : Cpu) (instr : ARMInstr) : Decidable (op.Shifts ctx instr) := by
  unfold Saturation.Shifts
  infer_instance

theorem satImm_lt (instr : ARMInstr) : instr.satImm < 32 := BitVec.isLt _

theorem two_pow_satImm (instr : ARMInstr) : instr.satImm = 0 ∧ (2 : Int) ^ instr.satImm = 1 ∨
    0 < instr.satImm ∧ (2 : Int) ≤ 2 ^ instr.satImm := by
  rcases Nat.eq_zero_or_pos instr.satImm with h | h
  · exact .inl ⟨h, by rw [h]; rfl⟩
  · refine .inr ⟨h, ?_⟩
    calc (2 : Int) = 2 ^ 1 := by decide
      _ ≤ 2 ^ instr.satImm := pow_le_pow_right₀ (by decide) h

theorem two_pow_satImm_le (instr : ARMInstr) : (2 : Int) ^ instr.satImm ≤ 2 ^ 31 :=
  pow_le_pow_right₀ (by decide) (by have := satImm_lt instr; omega)

/-- Clamping words is clamping their numbers. -/
theorem clampSigned_eq {val : BitVec 32} {low high : Int} (hlow : Arith.outOfRange low = false)
    (hhigh : Arith.outOfRange high = false) (h : low ≤ high) :
    clampSigned val (BitVec.ofInt 32 low) (BitVec.ofInt 32 high) =
      BitVec.ofInt 32 (Reference.clamp val.toInt low high) := by
  simp only [clampSigned, BitVec.slt, toInt_ofInt hlow, toInt_ofInt hhigh, decide_eq_true_eq,
    Reference.clamp]
  split
  next h' => rw [max_eq_left (by omega)]
  next h' =>
    split
    next h'' => rw [min_eq_right (by omega), max_eq_right h]
    next h'' => rw [min_eq_left (by omega), max_eq_right (by omega), BitVec.ofInt_toInt]

theorem clamp_inRange {x low high : Int} (hlow : Arith.outOfRange low = false)
    (hhigh : Arith.outOfRange high = false) :
    Arith.outOfRange (Reference.clamp x low high) = false := by
  have hl := outOfRange_iff.1 hlow
  have hh := outOfRange_iff.1 hhigh
  rw [Reference.clamp]
  exact outOfRange_iff.2 ⟨by omega, by omega⟩

section

variable {op : Saturation} {ctx : Cpu} {instr : ARMInstr} {low high : Int}

theorem saturateTo_eq {operand : BitVec 32} (hlow : Arith.outOfRange low = false)
    (hhigh : Arith.outOfRange high = false) (h : low ≤ high) :
    saturateTo ctx instr operand (BitVec.ofInt 32 low) (BitVec.ofInt 32 high) =
      Reference.saturated ctx instr operand.toInt low high := by
  have hne : BitVec.ofInt 32 (Reference.clamp operand.toInt low high) = operand ↔
      Reference.clamp operand.toInt low high = operand.toInt := by
    constructor
    · intro heq
      have hint := congrArg BitVec.toInt heq
      rwa [toInt_ofInt (clamp_inRange hlow hhigh)] at hint
    · intro heq
      rw [heq, BitVec.ofInt_toInt]
  simp only [saturateTo, clampSigned_eq hlow hhigh h, Cpu.put_reg_self, Reference.saturated, ne_eq,
    hne]

theorem saturated_inj {x y : Int} (hlow : Arith.outOfRange low = false)
    (hhigh : Arith.outOfRange high = false) :
    Reference.saturated ctx instr x low high = Reference.saturated ctx instr y low high ↔
      Reference.clamp x low high = Reference.clamp y low high ∧
        (ctx.q = true ∨ (Reference.clamp x low high ≠ x ↔ Reference.clamp y low high ≠ y)) := by
  constructor
  · intro h
    have hreg := congrArg (fun c : Cpu => c.reg instr.idxRd) h
    have hq := congrArg Cpu.q h
    simp only [Reference.saturated, Cpu.saturates_reg, Cpu.put_reg_self] at hreg
    simp only [Reference.saturated, Cpu.saturates_q, Cpu.put_q] at hq
    refine ⟨(ofInt_inj (clamp_inRange hlow hhigh) (clamp_inRange hlow hhigh)).1 hreg, ?_⟩
    cases hctx : ctx.q with
    | true => exact .inl rfl
    | false =>
      rw [hctx, Bool.false_or, Bool.false_or, decide_eq_decide] at hq
      exact .inr hq
  · rintro ⟨hc, hq⟩
    rw [Reference.saturated, Reference.saturated, ← hc]
    rcases hq with hq | hq
    · simp [Cpu.saturates, hq]
    · rw [← hc] at hq
      rw [decide_eq_decide.2 hq]

theorem unsigned_bound : ∀ n < 32, (1 : BitVec 32) <<< n - 1 = BitVec.ofInt 32 (2 ^ n - 1) := by
  decide

theorem signed_bound : ∀ n < 31, ((1 : BitVec 32) <<< n).toInt = 2 ^ n := by
  decide

theorem satOperand_eq (hrm : instr.idxRm ≠ 15) : satOperand ctx instr =
    if instr.addr1Shift = .asr ∧ instr.addr1ShiftImm = 1 then .error .undefined
    else .ok (Reference.shift (ctx.reg instr.idxRm) instr.addr1ShiftImm.toNat instr.addr1Shift
      false).value := by
  have hlt := addr1ShiftImm_lt instr
  rw [satOperand, State.fetchReg, if_neg hrm, calcShifterOperand_eq, and_byte (by bv_omega)]
  split <;> rfl

theorem low_inRange (op : Saturation) (h : op = .ssat → instr.satImm ≠ 31) :
    Arith.outOfRange (op.low instr.satImm) = false ∧
      Arith.outOfRange (2 ^ instr.satImm - 1) = false ∧
        op.low instr.satImm ≤ 2 ^ instr.satImm - 1 := by
  have hle := two_pow_satImm_le instr
  have hpos := two_pow_satImm instr
  refine ⟨outOfRange_iff.2 ?_, outOfRange_iff.2 ⟨by omega, by omega⟩, ?_⟩ <;>
    cases op <;> simp only [Saturation.low] <;> omega

variable (hcond : evalCond ctx.toState instr.cond = .ok true) (hrd : instr.idxRd ≠ 15)
  (hrm : instr.idxRm ≠ 15)

include hcond hrd hrm

theorem saturation_handler_eq (op : Saturation) : op.handler ctx instr =
    if instr.addr1Shift = .asr ∧ instr.addr1ShiftImm = 1 ∨ op = .ssat ∧ instr.satImm = 31 then
      .error .undefined
    else done (Reference.saturated ctx instr (Reference.shift (ctx.reg instr.idxRm)
      instr.addr1ShiftImm.toNat instr.addr1Shift false).value.toInt (op.low instr.satImm)
        (2 ^ instr.satImm - 1)) := by
  by_cases hone : instr.addr1Shift = .asr ∧ instr.addr1ShiftImm = 1
  · rw [if_pos (.inl hone)]
    cases op <;>
      simp only [Saturation.handler, handlerUsat, handlerSsat] <;>
      rw [conditional_true hcond, if_neg (by tauto), satOperand_eq hrm, if_pos hone] <;> rfl
  have hlt := satImm_lt instr
  cases op with
  | usat =>
    obtain ⟨hlow, hhigh, hle⟩ := @low_inRange instr .usat (by simp)
    have hok : ¬ (instr.addr1Shift = .asr ∧ instr.addr1ShiftImm = 1 ∨
        Saturation.usat = .ssat ∧ instr.satImm = 31) := by
      rintro (h | ⟨h, -⟩)
      · exact hone h
      · cases h
    rw [if_neg hok, Saturation.handler, handlerUsat, conditional_true hcond,
      if_neg (by tauto), satOperand_eq hrm, if_neg hone, ← saturateTo_eq hlow hhigh hle,
      ← unsigned_bound _ hlt]
    rfl
  | ssat =>
    rw [Saturation.handler, handlerSsat, conditional_true hcond, if_neg (by tauto),
      satOperand_eq hrm, if_neg hone]
    by_cases h31 : instr.satImm = 31
    · rw [if_pos (.inr ⟨rfl, h31⟩), h31]
      rfl
    · obtain ⟨hlow, hhigh, hle⟩ := @low_inRange instr .ssat fun _ => h31
      rw [if_neg (by tauto), ← saturateTo_eq hlow hhigh hle]
      show (do
        let minValue ← signed (-((1 : BitVec 32) <<< instr.satImm).toInt)
        let maxValue ← signed (((1 : BitVec 32) <<< instr.satImm).toInt - 1)
        done (saturateTo ctx instr _ minValue maxValue)) = _
      rw [Saturation.low] at hlow
      rw [signed_bound _ (by omega), signed_ok hlow, signed_ok hhigh]
      rfl

omit hcond hrd hrm in
/-- What a shift by 32 leaves is the sign. -/
theorem asr_zero_toInt (v : BitVec 32) : (Reference.shift v 32 .asr false).value.toInt =
    if v.toInt < 0 then -1 else 0 := by
  have hrange := And.intro (BitVec.le_toInt v) (BitVec.toInt_lt (x := v))
  show (v.sshiftRight 32).toInt = _
  rw [BitVec.toInt_sshiftRight, Int.shiftRight_eq_div_pow]
  split <;> omega

omit hcond hrd hrm in
/-- Without a shift by 0, both functions find the same operand. -/
theorem satOperand_reference (hkind : instr.addr1Shift = .lsl ∨ instr.addr1Shift = .asr)
    (h : ¬ (instr.addr1Shift = .asr ∧ instr.addr1ShiftImm = 0)) : Reference.satOperand ctx instr =
      (Reference.shift (ctx.reg instr.idxRm) instr.addr1ShiftImm.toNat instr.addr1Shift
        false).value.toInt := by
  rw [Reference.satOperand]
  rcases hkind with hs | hs
  · rw [hs]
    cases instr.addr1ShiftImm.toNat <;> rfl
  · have hne : instr.addr1ShiftImm.toNat ≠ 0 := by
      have : instr.addr1ShiftImm ≠ 0 := fun h0 => h ⟨hs, h0⟩
      bv_omega
    obtain ⟨k, hk⟩ := Nat.exists_eq_succ_of_ne_zero hne
    rw [hs, hk]
    rfl

omit hcond hrd hrm in
theorem keepsSign_iff (op : Saturation) (h : op = .ssat → instr.satImm ≠ 31) :
    Reference.saturated ctx instr (ctx.reg instr.idxRm).toInt (op.low instr.satImm)
        (2 ^ instr.satImm - 1) =
      Reference.saturated ctx instr (if (ctx.reg instr.idxRm).toInt < 0 then -1 else 0)
        (op.low instr.satImm) (2 ^ instr.satImm - 1) ↔ op.KeepsSign ctx instr := by
  obtain ⟨hlow, hhigh, -⟩ := low_inRange op h
  rw [saturated_inj hlow hhigh]
  have hpow := two_pow_satImm instr
  cases op <;> cases hq : ctx.q <;>
    simp only [Saturation.KeepsSign, Reference.clamp, Saturation.low, hq, true_or, and_true,
      Bool.false_eq_true, false_or, and_false, or_false] <;>
    generalize (ctx.reg instr.idxRm).toInt = x at * <;>
    generalize (2 : Int) ^ instr.satImm = p at * <;> split <;> omega

/-- **Saturation**: `SSAT` and `USAT` clamp the shifted operand and set Q exactly where the shift is
the one that is encoded, or makes no difference. Both encodings have a 0 in bit 5. -/
theorem saturation_exact (op : Saturation)
    (hkind : instr.addr1Shift = .lsl ∨ instr.addr1Shift = .asr) :
    op.handler ctx instr = done (Reference.saturate op ctx instr) ↔ op.Shifts ctx instr := by
  rw [saturation_handler_eq hcond hrd hrm, Reference.saturate]
  by_cases hfault : instr.addr1Shift = .asr ∧ instr.addr1ShiftImm = 1 ∨
      op = .ssat ∧ instr.satImm = 31
  · rw [if_pos hfault]
    refine iff_of_false (by rintro ⟨⟩) fun h => ?_
    rcases hfault with ⟨hs, h1⟩ | ⟨ho, h31⟩
    · exact (h.1 hs).1 h1
    · exact h.2 ho h31
  · rw [if_neg hfault, done_inj]
    have h31 : op = .ssat → instr.satImm ≠ 31 := fun ho h => hfault (.inr ⟨ho, h⟩)
    by_cases hzero : instr.addr1Shift = .asr ∧ instr.addr1ShiftImm = 0
    · have hcode : (Reference.shift (ctx.reg instr.idxRm) instr.addr1ShiftImm.toNat
          instr.addr1Shift false).value = ctx.reg instr.idxRm := by
        rw [hzero.2]
        rfl
      have href : Reference.satOperand ctx instr =
          if (ctx.reg instr.idxRm).toInt < 0 then -1 else 0 := by
        rw [Reference.satOperand, hzero.1, hzero.2]
        exact asr_zero_toInt _
      rw [hcode, href, keepsSign_iff op h31]
      refine ⟨fun h => ⟨fun _ => ⟨?_, fun _ => h⟩, h31⟩, fun h => (h.1 hzero.1).2 hzero.2⟩
      rw [hzero.2]
      decide
    · rw [satOperand_reference hkind hzero]
      refine iff_of_true rfl ⟨fun hs => ⟨fun h1 => hfault (.inl ⟨hs, h1⟩), fun h0 => ?_⟩, h31⟩
      exact absurd ⟨hs, h0⟩ hzero

end

/-- `USAT R0, #4, R1, LSL #1` -/
theorem saturation_exact_usat :
    handlerUsat (.withOperands 9 0) ⟨0xE6E40091⟩ =
      done (Reference.saturate .usat (.withOperands 9 0) ⟨0xE6E40091⟩) :=
  (saturation_exact (by decide) (by decide) (by decide) .usat (by decide)).2 (by decide)

/-- `SSAT R0, #9, R1, ASR #32` of 5 -/
theorem ssat_asr_zero_unshifted : handlerSsat (.withOperands 5 0) ⟨0xE6A80051⟩ ≠
    done (Reference.saturate .ssat (.withOperands 5 0) ⟨0xE6A80051⟩) := by
  have h := @saturation_handler_eq (.withOperands 5 0) ⟨0xE6A80051⟩ (by decide) (by decide)
    (by decide) .ssat
  rw [Saturation.handler] at h
  rw [h, if_neg (by decide), ne_eq, done_inj]
  intro heq
  exact absurd (congrArg (fun c : Cpu => c.reg 0) heq) (by decide)

end Mikage.Arm
