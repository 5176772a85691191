import Mathlib

/-!
# The shifter operand

`CalcShifterOperand` and `CalcShifterOperandFromImmediate` of the interpreter, and the shifts of the
ARM reference (`Reference.shift`, `Reference.shiftImm`).

A C++ shift of a 32-bit value by 32 or more is undefined. `shl` and `shr` are `none` there, so that a
result of `none` is a computation without a meaning.
-/

namespace Mikage.Arm

inductive OperandShifterMode where
  | lsl | lsr | asr | rorRrx
  deriving DecidableEq, Repr

structure ShifterOperand where
  value : BitVec 32
  carryOut : Bool
  deriving DecidableEq, Repr

/-- `v << n` -/
def shl (v n : BitVec 32) : Option (BitVec 32) := if n < 32 then some (v <<< n) else none

/-- `v >> n` -/
def shr (v n : BitVec 32) : Option (BitVec 32) := if n < 32 then some (v >>> n) else none

def rotateRight (value bits : BitVec 32) : Option (BitVec 32) :=
  if bits = 0 ∨ bits = 32 then some value
  else do pure ((← shr value bits) ||| (← shl value (32 - bits)))

/-- Documented for `0 < bits < 32`. -/
def arithmeticShiftRight (val bits : BitVec 32) : Option (BitVec 32) := do
  let msb := val >>> 31
  pure ((← shr val bits) ||| (msb * (← shl 0xFFFFFFFF (32 - bits))))

/-- A number as a condition. -/
def truthy (v : BitVec 32) : Bool := v ≠ 0

/-- The operand, if both of its parts have a meaning. -/
def operandOf (value : Option (BitVec 32)) (carryOut : Option Bool) :
    Option ShifterOperand := do pure ⟨← value, ← carryOut⟩

def calcShifterOperand (value shiftValue : BitVec 32) (mode : OperandShifterMode) (carry : Bool) :
    Option ShifterOperand :=
  let n := shiftValue &&& 0xFF
  match mode with
  | .lsl => operandOf
      (if n < 32 then shl value n else some 0)
      (if n = 0 then some carry
        else if n ≤ 32 then (shl value (n - 1)).map fun v : BitVec 32 => truthy (v >>> 31)
        else some false)
  | .lsr => operandOf
      (if n < 32 then shr value n else some 0)
      (if n = 0 then some carry
        else if n ≤ 32 then (shr value (n - 1)).map fun v => truthy (v &&& 1)
        else some false)
  | .asr => operandOf
      (if n = 0 then some value
        else if n ≤ 31 then arithmeticShiftRight value n
        else some ((0xFFFFFFFF : BitVec 32) * (value >>> 31)))
      (if n = 0 then some carry
        else if n < 32 then (arithmeticShiftRight value (n - 1)).map fun v => truthy (v &&& 1)
        else some (truthy (value >>> 31)))
  | .rorRrx => operandOf
      (if n &&& 0x1F = 0 then some value else rotateRight value (n &&& 0x1F))
      (if n = 0 then some carry
        else if n &&& 0x1F = 0 then some (truthy (value >>> 31))
        else (rotateRight value ((n &&& 0x1F) - 1)).map fun v => truthy (v &&& 1))

def calcShifterOperandFromImmediate (value shiftValue : BitVec 32) (mode : OperandShifterMode)
    (carry : Bool) : Option ShifterOperand :=
  match mode with
  | .lsl => calcShifterOperand value shiftValue mode carry
  | .lsr | .asr => calcShifterOperand value (if shiftValue ≠ 0 then shiftValue else 32) mode carry
  | .rorRrx =>
    if shiftValue ≠ 0 then calcShifterOperand value shiftValue mode carry
    else some ⟨((if carry then 1 else 0 : BitVec 32) <<< 31) ||| (value >>> 1), truthy (value &&& 1)⟩

/-! ## The reference -/

namespace Reference

/-- A shift by `n`, as for an amount in the low byte of a register. -/
def shift (value : BitVec 32) (n : Nat) (mode : OperandShifterMode) (carry : Bool) :
    ShifterOperand :=
  if n = 0 then ⟨value, carry⟩
  else match mode with
  | .lsl => ⟨value <<< n, decide (n ≤ 32) && value.getLsbD (32 - n)⟩
  | .lsr => ⟨value >>> n, value.getLsbD (n - 1)⟩
  | .asr => ⟨value.sshiftRight n, if n < 32 then value.getLsbD (n - 1) else value.msb⟩
  | .rorRrx => ⟨value.rotateRight n, (value.rotateRight n).msb⟩

/-- A shift by an immediate: 0 is 32 for `LSR` and `ASR`, and `RRX` for `ROR`. -/
def shiftImm (value : BitVec 32) (imm : Nat) (mode : OperandShifterMode) (carry : Bool) :
    ShifterOperand :=
  match mode, imm with
  | .lsr, 0 | .asr, 0 => shift value 32 mode carry
  | .rorRrx, 0 => ⟨(BitVec.cons carry value).extractLsb' 1 32, value.getLsbD 0⟩
  | _, _ => shift value imm mode carry

end Reference

/-! ## Bits -/

variable {value n : BitVec 32} {carry : Bool}

theorem truthy_eq (v : BitVec 32) : truthy v = decide (v.toNat ≠ 0) := by
  simp only [truthy, ne_eq, decide_eq_decide, BitVec.toNat_eq]
  rfl

theorem truthy_shiftRight_31 (v : BitVec 32) : truthy (v >>> 31) = v.msb := by
  have hv := v.isLt
  rw [truthy_eq, BitVec.msb_eq_decide, BitVec.toNat_ushiftRight, Nat.shiftRight_eq_div_pow,
    decide_eq_decide]
  omega

theorem truthy_and_one (v : BitVec 32) : truthy (v &&& 1) = v.getLsbD 0 := by
  have hand : (v &&& 1).toNat = v.toNat % 2 := by
    rw [BitVec.toNat_and]
    exact Nat.and_one_is_mod _
  rw [truthy_eq, hand, BitVec.getLsbD, Nat.testBit_zero, decide_eq_decide]
  omega

theorem sign_eq (value : BitVec 32) : value >>> 31 = if value.msb then 1 else 0 := by
  apply BitVec.eq_of_toNat_eq
  have hv := value.isLt
  rw [BitVec.toNat_ushiftRight, Nat.shiftRight_eq_div_pow, BitVec.msb_eq_decide]
  by_cases h : 2 ^ (32 - 1) ≤ value.toNat
  · simp only [h, decide_true, if_true]
    show value.toNat / 2 ^ 31 = 1
    omega
  · simp only [h, decide_false, Bool.false_eq_true, if_false]
    show value.toNat / 2 ^ 31 = 0
    omega

theorem shl_eq (h : n < 32) : shl value n = some (value <<< n.toNat) := by
  rw [shl, if_pos h, BitVec.shiftLeft_eq']

theorem shr_eq (h : n < 32) : shr value n = some (value >>> n.toNat) := by
  rw [shr, if_pos h, BitVec.ushiftRight_eq']

theorem arithmeticShiftRight_eq (h0 : 0 < n) (h : n < 32) :
    arithmeticShiftRight value n = some (value.sshiftRight n.toNat) := by
  have hn : (32 - n).toNat = 32 - n.toNat := by bv_omega
  have h' : 32 - n < 32 := by bv_omega
  have hlt : n.toNat < 32 := h
  have hpos : 0 < n.toNat := h0
  simp only [arithmeticShiftRight, shr_eq h, shl_eq h', hn]
  show some _ = some _
  congr 1
  rw [sign_eq]
  cases hm : value.msb with
  | false => simp [BitVec.sshiftRight_eq_of_msb_false hm]
  | true =>
    apply BitVec.eq_of_getLsbD_eq
    intro i hi
    rw [BitVec.getLsbD_sshiftRight, hm]
    have hones : (0xFFFFFFFF : BitVec 32) = BitVec.allOnes 32 := by decide
    have hmul : (if true = true then 1 else 0) * ((0xFFFFFFFF : BitVec 32) <<< (32 - n.toNat)) =
        BitVec.allOnes 32 <<< (32 - n.toNat) := by rw [hones]; exact BitVec.one_mul _
    rw [hmul, BitVec.getLsbD_or, BitVec.getLsbD_ushiftRight, BitVec.getLsbD_shiftLeft,
      BitVec.getLsbD_allOnes]
    by_cases hin : n.toNat + i < 32
    · simp [hin, hi, show i < 32 - n.toNat by omega]
    · have hout : value.getLsbD (n.toNat + i) = false := BitVec.getLsbD_of_ge _ _ (by omega)
      simp [hin, hi, hout, show ¬ i < 32 - n.toNat by omega, show i - (32 - n.toNat) < 32 by omega]

theorem rotateRight_eq (h : n < 32) : rotateRight value n = some (value.rotateRight n.toNat) := by
  have hlt : n.toNat < 32 := h
  by_cases h0 : n = 0
  · subst h0
    have hz : value.rotateRight (0 : BitVec 32).toNat = value := by
      rw [BitVec.rotateRight_def]
      simp
    rw [rotateRight, if_pos (.inl rfl), hz]
  · have hn : (32 - n).toNat = 32 - n.toNat := by bv_omega
    have h' : 32 - n < 32 := by bv_omega
    have hne : n ≠ 32 := by bv_omega
    simp only [rotateRight, h0, hne, or_self, if_false, shr_eq h, shl_eq h', hn]
    show some _ = some _
    rw [BitVec.rotateRight_def, Nat.mod_eq_of_lt hlt]

/-! ## The shifts are those of the reference -/

@[simp] theorem operandOf_some (v : BitVec 32) (c : Bool) :
    operandOf (some v) (some c) = some ⟨v, c⟩ := rfl

@[simp] theorem operandOf_none (v : Option (BitVec 32)) :
    operandOf v none = none := by cases v <;> rfl

theorem arithmeticShiftRight_zero : arithmeticShiftRight value 0 = none := by
  simp [arithmeticShiftRight, shl, shr]

/-- What an `ASR` by 32 or more leaves. -/
theorem mul_sign (value : BitVec 32) (h : 32 ≤ n.toNat) :
    (0xFFFFFFFF : BitVec 32) * (value >>> 31) = value.sshiftRight n.toNat := by
  apply BitVec.eq_of_getLsbD_eq
  intro i hi
  have hout : ¬ n.toNat + i < 32 := by omega
  have hones : (0xFFFFFFFF : BitVec 32) = BitVec.allOnes 32 := by decide
  rw [BitVec.getLsbD_sshiftRight, sign_eq, hones]
  cases value.msb with
  | false =>
    have hmul : BitVec.allOnes 32 * (if false = true then 1 else 0) = 0 := by decide
    rw [hmul]
    simp [hout]
  | true =>
    have hmul : BitVec.allOnes 32 * (if true = true then 1 else 0) = BitVec.allOnes 32 := by decide
    rw [hmul, BitVec.getLsbD_allOnes]
    simp [hi, hout, show ¬ 32 ≤ i by omega]

/-! One lemma for each column of `CalcShifterOperand`, once the amount is masked and not 0. -/

theorem lsl_value : (if n < 32 then shl value n else some 0) = some (value <<< n.toNat) := by
  by_cases h : n < 32
  · rw [if_pos h, shl_eq h]
  · rw [if_neg h, BitVec.shiftLeft_eq_zero (show 32 ≤ n.toNat by bv_omega)]
    rfl

theorem lsl_carry (h0 : 0 < n) :
    (if n ≤ 32 then (shl value (n - 1)).map fun v : BitVec 32 => truthy (v >>> 31)
      else some false) = some (decide (n.toNat ≤ 32) && value.getLsbD (32 - n.toNat)) := by
  have hpred : (n - 1).toNat = n.toNat - 1 := by bv_omega
  have hpos : 0 < n.toNat := h0
  by_cases h : n ≤ 32
  · have hle : n.toNat ≤ 32 := h
    rw [if_pos h, shl_eq (by bv_omega), hpred, Option.map_some, truthy_shiftRight_31,
      BitVec.msb_eq_getLsbD_last, BitVec.getLsbD_shiftLeft]
    simp [show ¬ 31 < n.toNat - 1 by omega, show 31 - (n.toNat - 1) = 32 - n.toNat by omega, hle]
  · have hle : ¬ n.toNat ≤ 32 := h
    rw [if_neg h]
    simp [hle]

theorem lsr_value : (if n < 32 then shr value n else some 0) = some (value >>> n.toNat) := by
  by_cases h : n < 32
  · rw [if_pos h, shr_eq h]
  · rw [if_neg h, BitVec.ushiftRight_eq_zero (show 32 ≤ n.toNat by bv_omega)]
    rfl

theorem lsr_carry (h0 : 0 < n) :
    (if n ≤ 32 then (shr value (n - 1)).map fun v => truthy (v &&& 1) else some false) =
      some (value.getLsbD (n.toNat - 1)) := by
  have hpred : (n - 1).toNat = n.toNat - 1 := by bv_omega
  by_cases h : n ≤ 32
  · rw [if_pos h, shr_eq (by bv_omega), hpred, Option.map_some, truthy_and_one,
      BitVec.getLsbD_ushiftRight, Nat.add_zero]
  · have hout : value.getLsbD (n.toNat - 1) = false :=
      BitVec.getLsbD_of_ge _ _ (show 32 ≤ n.toNat - 1 by bv_omega)
    rw [if_neg h, hout]

theorem asr_value (h0 : 0 < n) :
    (if n ≤ 31 then arithmeticShiftRight value n else some ((0xFFFFFFFF : BitVec 32) * (value >>> 31))) =
      some (value.sshiftRight n.toNat) := by
  by_cases h : n ≤ 31
  · rw [if_pos h, arithmeticShiftRight_eq h0 (by bv_omega)]
  · have hle : 32 ≤ n.toNat := by bv_omega
    rw [if_neg h, mul_sign value hle]

theorem asr_carry (h0 : 1 < n) :
    (if n < 32 then (arithmeticShiftRight value (n - 1)).map fun v => truthy (v &&& 1)
      else some (truthy (value >>> 31))) =
      some (if n.toNat < 32 then value.getLsbD (n.toNat - 1) else value.msb) := by
  have hpred : (n - 1).toNat = n.toNat - 1 := by bv_omega
  by_cases h : n < 32
  · have hlt : n.toNat < 32 := h
    have h0' : 0 < n - 1 := by bv_omega
    have h' : n - 1 < 32 := by bv_omega
    rw [if_pos h, if_pos hlt, arithmeticShiftRight_eq h0' h', hpred, Option.map_some,
      truthy_and_one, BitVec.getLsbD_sshiftRight]
    simp [show n.toNat - 1 < 32 by omega]
  · have hlt : ¬ n.toNat < 32 := h
    rw [if_neg h, if_neg hlt, truthy_shiftRight_31]

theorem toNat_and_31 (n : BitVec 32) : (n &&& 0x1F).toNat = n.toNat % 32 := by
  rw [BitVec.toNat_and]
  exact Nat.and_two_pow_sub_one_eq_mod n.toNat 5

theorem rotateRight_mod (value : BitVec 32) (m : Nat) :
    value.rotateRight (m % 32) = value.rotateRight m := by
  rw [BitVec.rotateRight_def, BitVec.rotateRight_def, Nat.mod_mod]

theorem ror_value (value n : BitVec 32) :
    (if n &&& 0x1F = 0 then some value else rotateRight value (n &&& 0x1F)) =
      some (value.rotateRight n.toNat) := by
  have hm := toNat_and_31 n
  rw [← rotateRight_mod, ← hm]
  by_cases h : n &&& 0x1F = 0
  · rw [if_pos h, h]
    have hz : value.rotateRight (0 : BitVec 32).toNat = value := by
      rw [BitVec.rotateRight_def]
      simp
    rw [hz]
  · rw [if_neg h, rotateRight_eq (show (n &&& 0x1F).toNat < 32 by omega)]

theorem ror_carry (value n : BitVec 32) :
    (if n &&& 0x1F = 0 then some (truthy (value >>> 31))
      else (rotateRight value ((n &&& 0x1F) - 1)).map fun v => truthy (v &&& 1)) =
      some (value.rotateRight n.toNat).msb := by
  have hm := toNat_and_31 n
  rw [← rotateRight_mod, ← hm]
  generalize n &&& 0x1F = m at hm
  have hlt : m.toNat < 32 := by omega
  by_cases h : m = 0
  · have hz : value.rotateRight (0 : BitVec 32).toNat = value := by
      rw [BitVec.rotateRight_def]
      simp
    rw [if_pos h, h, hz, truthy_shiftRight_31]
  · have hpos : 0 < m.toNat := by bv_omega
    have hpred : (m - 1).toNat = m.toNat - 1 := by bv_omega
    rw [if_neg h, rotateRight_eq (by bv_omega), hpred, Option.map_some, truthy_and_one,
      BitVec.msb_eq_getLsbD_last, BitVec.getLsbD_rotateRight, BitVec.getLsbD_rotateRight]
    rw [Nat.mod_eq_of_lt hlt, Nat.mod_eq_of_lt (show m.toNat - 1 < 32 by omega),
      decide_eq_true (show 0 < 32 - (m.toNat - 1) by omega),
      decide_eq_false (show ¬ 32 - 1 < 32 - m.toNat by omega),
      show m.toNat - 1 + 0 = 32 - 1 - (32 - m.toNat) by omega]
    simp

/-- An amount of 1 makes `arithmeticShiftRight` shift by 0 for the carry. -/
theorem calcShifterOperand_eq (value shiftValue : BitVec 32) (mode : OperandShifterMode)
    (carry : Bool) : calcShifterOperand value shiftValue mode carry =
      if mode = .asr ∧ shiftValue &&& 0xFF = 1 then none
      else some (Reference.shift value (shiftValue &&& 0xFF).toNat mode carry) := by
  unfold calcShifterOperand
  generalize shiftValue &&& 0xFF = n
  by_cases h0 : n = 0
  · subst h0
    cases mode <;> simp [Reference.shift, shl, shr]
  have hne : n.toNat ≠ 0 := by bv_omega
  have hpos : 0 < n := by bv_omega
  simp only [Reference.shift, hne, h0, if_false]
  cases mode with
  | lsl =>
    simp only [lsl_value, lsl_carry hpos, operandOf_some, reduceCtorEq, false_and, if_false]
  | lsr =>
    simp only [lsr_value, lsr_carry hpos, operandOf_some, reduceCtorEq, false_and, if_false]
  | asr =>
    simp only [asr_value hpos, true_and]
    by_cases h1 : n = 1
    · have hcarry : arithmeticShiftRight value (n - 1) = none := by
        rw [h1]
        exact arithmeticShiftRight_zero
      rw [if_pos h1, if_pos (show n < 32 by bv_omega), hcarry, Option.map_none, operandOf_none]
    · rw [asr_carry (by bv_omega), if_neg h1, operandOf_some]
  | rorRrx =>
    simp only [ror_value, ror_carry, operandOf_some, reduceCtorEq, false_and, if_false]

theorem and_byte (h : n < 256) : n &&& 0xFF = n := by
  apply BitVec.eq_of_toNat_eq
  rw [BitVec.toNat_and]
  show n.toNat &&& 2 ^ 8 - 1 = n.toNat
  rw [Nat.and_two_pow_sub_one_eq_mod, Nat.mod_eq_of_lt (show n.toNat < 2 ^ 8 from h)]

theorem rrx_eq (value : BitVec 32) (carry : Bool) :
    ((if carry then 1 else 0 : BitVec 32) <<< 31) ||| (value >>> 1) =
      (BitVec.cons carry value).extractLsb' 1 32 := by
  apply BitVec.eq_of_getLsbD_eq
  intro i hi
  rw [BitVec.getLsbD_or, BitVec.getLsbD_ushiftRight, BitVec.getLsbD_shiftLeft,
    BitVec.getLsbD_extractLsb', BitVec.getLsbD_cons]
  by_cases h31 : i = 31
  · subst h31
    cases carry <;> simp
  · have hlt : i < 31 := by omega
    simp [hi, hlt, show ¬ 1 + i = 32 by omega]

theorem calcShifterOperandFromImmediate_eq (value imm : BitVec 32) (h : imm < 32)
    (mode : OperandShifterMode) (carry : Bool) :
    calcShifterOperandFromImmediate value imm mode carry =
      if mode = .asr ∧ imm = 1 then none
      else some (Reference.shiftImm value imm.toNat mode carry) := by
  have hbyte : imm &&& 0xFF = imm := and_byte (by bv_omega)
  by_cases h0 : imm = 0
  · subst h0
    cases mode with
    | rorRrx =>
      simp only [calcShifterOperandFromImmediate, rrx_eq, truthy_and_one]
      rfl
    | _ => simp [calcShifterOperandFromImmediate, calcShifterOperand_eq, Reference.shiftImm]
  · have hne : imm.toNat ≠ 0 := by bv_omega
    have himm : Reference.shiftImm value imm.toNat mode carry =
        Reference.shift value imm.toNat mode carry := by
      unfold Reference.shiftImm
      split
      next hz => exact absurd hz hne
      next hz => exact absurd hz hne
      next hz => exact absurd hz hne
      next => rfl
    rw [himm]
    cases mode <;>
      simp only [calcShifterOperandFromImmediate, calcShifterOperand_eq, ne_eq, h0, not_false_eq_true,
        if_true, hbyte]

theorem arithmeticShiftRight_defined (val bits : BitVec 32) :
    (arithmeticShiftRight val bits).isSome ↔ 0 < bits ∧ bits < 32 := by
  by_cases h0 : bits = 0
  · rw [h0, arithmeticShiftRight_zero]
    simp
  · by_cases h : bits < 32
    · rw [arithmeticShiftRight_eq (by bv_omega) h]
      simp only [Option.isSome_some, h, and_true, true_iff]
      bv_omega
    · have hshr : shr val bits = none := by rw [shr, if_neg h]
      simp only [arithmeticShiftRight, hshr, h, and_false]
      simp

/-- Both entry points compute the operand and the carry of the reference, with every call of
`ArithmeticShiftRight` inside its precondition, unless the shift is an `ASR` by 1. -/
theorem shifterOperand_exact (value : BitVec 32) (mode : OperandShifterMode) (carry : Bool) :
    (∀ amount : BitVec 32, calcShifterOperand value amount mode carry =
        some (Reference.shift value (amount &&& 0xFF).toNat mode carry) ↔
      ¬ (mode = .asr ∧ amount &&& 0xFF = 1)) ∧
    (∀ imm : BitVec 32, imm < 32 → (calcShifterOperandFromImmediate value imm mode carry =
        some (Reference.shiftImm value imm.toNat mode carry) ↔ ¬ (mode = .asr ∧ imm = 1))) ∧
    ∀ val bits, (arithmeticShiftRight val bits).isSome ↔ 0 < bits ∧ bits < 32 := by
  refine ⟨fun amount => ?_, fun imm h => ?_, arithmeticShiftRight_defined⟩
  · rw [calcShifterOperand_eq]
    split <;> simp_all
  · rw [calcShifterOperandFromImmediate_eq value imm h]
    split <;> simp_all

theorem shifterOperand_exact_one (carry : Bool) :
    calcShifterOperandFromImmediate 6 1 .lsr carry = some ⟨3, false⟩ :=
  ((shifterOperand_exact 6 .lsr carry).2.1 1 (by decide)).2 (by decide)

/-- `ASR #1` -/
theorem asr_one_undefined :
    calcShifterOperandFromImmediate 2 1 .asr false ≠ some (Reference.shiftImm 2 1 .asr false) ∧
    ¬ (arithmeticShiftRight 2 (1 - 1)).isSome := by
  decide

end Mikage.Arm
