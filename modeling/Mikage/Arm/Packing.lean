import Mikage.Arm.ParallelBytes

/-!
# Packing and extension

`PKHBT`, `PKHTB`, `REV`, `REV16`, and the extensions `SXTB`, `SXTAB`, `SXTAH`, `UXTB`, `UXTAB`,
`UXTAH` and `UXTB16` (`SXTH` and `UXTH` are `SXTAH` and `UXTAH` with PC for Rn), against their values on the
registers before the instruction.

`PKHBT` and `PKHTB` write Rd before they have read their sources, and `PKHTB` does not mask what it
shifts.
-/

namespace Mikage.Arm

/-! ## Halves of a word -/

def bottom (v : BitVec 32) : BitVec 16 := v.extractLsb' 0 16

def top (v : BitVec 32) : BitVec 16 := v.extractLsb' 16 16

section

variable (v w : BitVec 32)

theorem halves_ext {v w : BitVec 32} : v = w ↔ bottom v = bottom w ∧ top v = top w := by
  constructor
  · rintro rfl
    exact ⟨rfl, rfl⟩
  · rintro ⟨hb, ht⟩
    apply BitVec.eq_of_getLsbD_eq
    intro i hi
    by_cases h : i < 16
    · have hbit := congrArg (fun b => BitVec.getLsbD b i) hb
      simpa [bottom, h] using hbit
    · have hbit := congrArg (fun b => BitVec.getLsbD b (i - 16)) ht
      simpa [top, show i - 16 < 16 by omega, show 16 + (i - 16) = i by omega] using hbit

@[simp] theorem bottom_or : bottom (v ||| w) = bottom v ||| bottom w := BitVec.extractLsb'_or
@[simp] theorem top_or : top (v ||| w) = top v ||| top w := BitVec.extractLsb'_or
@[simp] theorem bottom_zero : bottom 0 = 0#16 := rfl
@[simp] theorem top_zero : top 0 = 0#16 := rfl

@[simp] theorem bottom_and_low : bottom (v &&& 0xFFFF) = bottom v := by
  rw [bottom, BitVec.extractLsb'_and]
  exact BitVec.and_allOnes

@[simp] theorem top_and_low : top (v &&& 0xFFFF) = 0#16 := by
  rw [top, BitVec.extractLsb'_and]
  exact BitVec.and_zero

@[simp] theorem bottom_and_high : bottom (v &&& 0xFFFF0000) = 0#16 := by
  rw [bottom, BitVec.extractLsb'_and]
  exact BitVec.and_zero

@[simp] theorem top_and_high : top (v &&& 0xFFFF0000) = top v := by
  rw [top, BitVec.extractLsb'_and]
  exact BitVec.and_allOnes

@[simp] theorem bottom_append (x y : BitVec 16) : bottom (x ++ y) = y := by
  apply BitVec.eq_of_getLsbD_eq
  intro i hi
  simp only [bottom, BitVec.getLsbD_extractLsb', hi, decide_true, Bool.true_and,
    BitVec.getLsbD_append, Nat.zero_add, if_true]

@[simp] theorem top_append (x y : BitVec 16) : top (x ++ y) = x := by
  apply BitVec.eq_of_getLsbD_eq
  intro i hi
  simp only [top, BitVec.getLsbD_extractLsb', hi, decide_true, Bool.true_and,
    BitVec.getLsbD_append, show ¬ 16 + i < 16 by omega, if_false, Nat.add_sub_cancel_left]

end

/-! ## Handlers -/

def ARMInstr.uxtbRotate (instr : ARMInstr) : BitVec 32 :=
  (instr.raw.extractLsb' 10 2).setWidth 32

/-- `RotateRight(ctx.cpu.FetchReg(instr.idx_rm), 8 * instr.uxtb_rotate)` -/
def rotatedRm (ctx : Cpu) (instr : ARMInstr) : Except Fault (BitVec 32) :=
  defined (rotateRight (ctx.fetchReg instr.idxRm) (8 * instr.uxtbRotate))

/-- `(int8_t)(uint8_t)` -/
def signExtend8 (v : BitVec 32) : BitVec 32 := (v.setWidth 8).signExtend 32

/-- `(int16_t)(uint16_t)` -/
def signExtend16 (v : BitVec 32) : BitVec 32 := (v.setWidth 16).signExtend 32

/-- The common text of the extensions, from the rotated Rm. -/
def extend (line : Nat) (value : Cpu → BitVec 32 → BitVec 32) (ctx : Cpu) (instr : ARMInstr) :
    Executed :=
  conditional ctx.toState instr ctx <|
    if instr.idxRd = 15 ∨ instr.idxRm = 15 then stubAnnotated ctx.toState instr line
    else do
      let rotated ← rotatedRm ctx instr
      done (ctx.put instr.idxRd (value ctx rotated))

def handlerUxtb16 (ctx : Cpu) (instr : ARMInstr) : Executed :=
  extend 1977 (fun _ v => v &&& 0xFF00FF) ctx instr

def handlerUxtb (ctx : Cpu) (instr : ARMInstr) : Executed :=
  extend 1991 (fun _ v => v &&& 0xFF) ctx instr

def handlerSxtb (ctx : Cpu) (instr : ARMInstr) : Executed :=
  extend 2022 (fun _ v => signExtend8 (v &&& 0xFF)) ctx instr

/-- With PC this is `UXTH` or `SXTH`, without the offset. -/
def halfwordOffset (instr : ARMInstr) (ctx : Cpu) : BitVec 32 :=
  if instr.idxRn = 15 then 0 else ctx.reg instr.idxRn

def handlerUxtah (ctx : Cpu) (instr : ARMInstr) : Executed :=
  extend 2036 (fun ctx v => halfwordOffset instr ctx + (v &&& 0xFFFF)) ctx instr

def handlerSxtah (ctx : Cpu) (instr : ARMInstr) : Executed :=
  extend 2073 (fun ctx v => halfwordOffset instr ctx + signExtend16 v) ctx instr

def incorrectlyRecognized := "UXTB incorrectly recognized as UXTAB!"

/-- `HandlerUxtab` and `HandlerSxtab` refuse PC for Rn. -/
def extendByte (line : Nat) (refuse : Except Fault (Cpu × BitVec 32))
    (value : BitVec 32 → BitVec 32) (ctx : Cpu) (instr : ARMInstr) : Executed :=
  conditional ctx.toState instr ctx <|
    if instr.idxRd = 15 ∨ instr.idxRm = 15 then stubAnnotated ctx.toState instr line
    else if instr.idxRn = 15 then refuse
    else do
      let rotated ← rotatedRm ctx instr
      done (ctx.put instr.idxRd (ctx.reg instr.idxRn + value rotated))

def handlerUxtab (ctx : Cpu) (instr : ARMInstr) : Executed :=
  extendByte 2004 (handlerStubWithMessage ctx.toState instr incorrectlyRecognized) (· &&& 0xFF)
    ctx instr

def handlerSxtab (ctx : Cpu) (instr : ARMInstr) : Executed :=
  extendByte 2055 (stubAnnotated ctx.toState instr 2059) signExtend8 ctx instr

def handlerPkhbt (ctx : Cpu) (instr : ARMInstr) : Executed :=
  conditional ctx.toState instr ctx <|
    if instr.idxRd = 15 ∨ instr.idxRm = 15 ∨ instr.idxRn = 15 then
      stubAnnotated ctx.toState instr 2094
    else
      let ctx := ctx.put instr.idxRd (ctx.reg instr.idxRn &&& 0xFFFF)
      let ctx := ctx.put instr.idxRd (ctx.reg instr.idxRd |||
        (ctx.reg instr.idxRm <<< instr.addr1ShiftImm) &&& 0xFFFF0000)
      done ctx

/-- A shift by 0 encodes one by 32, hence only the sign of Rm is relevant. -/
def pkhtbOperand (instr : ARMInstr) (rm : BitVec 32) : Except Fault (BitVec 32) :=
  if instr.addr1ShiftImm = 0 then .ok (rm.sshiftRight 31 &&& 0xFFFF)
  else defined (arithmeticShiftRight rm instr.addr1ShiftImm)

def handlerPkhtb (ctx : Cpu) (instr : ARMInstr) : Executed :=
  conditional ctx.toState instr ctx <|
    if instr.idxRd = 15 ∨ instr.idxRm = 15 ∨ instr.idxRn = 15 then
      stubAnnotated ctx.toState instr 2109
    else do
      let ctx := ctx.put instr.idxRd 0
      let shifted ← pkhtbOperand instr (ctx.reg instr.idxRm)
      let ctx := ctx.put instr.idxRd (ctx.reg instr.idxRd ||| shifted)
      let ctx := ctx.put instr.idxRd (ctx.reg instr.idxRd |||
        ctx.reg instr.idxRn &&& 0xFFFF0000)
      done ctx

/-- `bytes[]` of `HandlerRev` and `HandlerRev16`, all read before the first write. -/
def bytesOf (v : BitVec 32) (k : Fin 4) : BitVec 32 := (v >>> (8 * k.val)) &&& 0xFF

/-- The common text of `HandlerRev` and `HandlerRev16`. -/
def reverseBytes (line : Nat) (value : (Fin 4 → BitVec 32) → BitVec 32) (ctx : Cpu)
    (instr : ARMInstr) : Executed :=
  conditional ctx.toState instr ctx <|
    if instr.idxRd = 15 ∨ instr.idxRm = 15 then stubAnnotated ctx.toState instr line
    else done (ctx.put instr.idxRd (value (bytesOf (ctx.reg instr.idxRm))))

def handlerRev (ctx : Cpu) (instr : ARMInstr) : Executed :=
  reverseBytes 2130 (fun bytes => bytes 3 ||| bytes 2 <<< 8 ||| bytes 1 <<< 16 ||| bytes 0 <<< 24)
    ctx instr

def handlerRev16 (ctx : Cpu) (instr : ARMInstr) : Executed :=
  reverseBytes 2153 (fun bytes =>
    (bytes 1 ||| bytes 0 <<< 8) ||| (bytes 3 ||| bytes 2 <<< 8) <<< 16) ctx instr

/-! ## The reference -/

inductive PackOp where
  | pkhbt | pkhtb | rev | rev16 | sxtb | sxtab | sxtah | uxtb | uxtab | uxtah | uxtb16
  deriving DecidableEq, Repr

namespace PackOp

def handler : PackOp → Cpu → ARMInstr → Executed
  | pkhbt => handlerPkhbt
  | pkhtb => handlerPkhtb
  | rev => handlerRev
  | rev16 => handlerRev16
  | sxtb => handlerSxtb
  | sxtab => handlerSxtab
  | sxtah => handlerSxtah
  | uxtb => handlerUxtb
  | uxtab => handlerUxtab
  | uxtah => handlerUxtah
  | uxtb16 => handlerUxtb16

/-- PC for Rn is another instruction, or unpredictable. -/
def refusesRn : PackOp → Bool
  | pkhbt | pkhtb | sxtab | uxtab => true
  | _ => false

/-- The second operand of `PKHTB`, where 0 encodes a shift by 32. -/
def shiftedTop (instr : ARMInstr) (rm : BitVec 32) : BitVec 32 :=
  rm.sshiftRight (if instr.addr1ShiftImm = 0 then 32 else instr.addr1ShiftImm.toNat)

/-- The value of the instruction on those of its sources. -/
def value (op : PackOp) (instr : ARMInstr) (rn rm : BitVec 32) : BitVec 32 :=
  let rotated := rm.rotateRight (8 * instr.uxtbRotate.toNat)
  let offset := if instr.idxRn = 15 then 0 else rn
  match op with
  | pkhbt => top (rm <<< instr.addr1ShiftImm.toNat) ++ bottom rn
  | pkhtb => top rn ++ bottom (shiftedTop instr rm)
  | rev => ofBytes fun k => byte rm (3 - k)
  | rev16 => ofBytes ![byte rm 1, byte rm 0, byte rm 3, byte rm 2]
  | sxtb => (byte rotated 0).signExtend 32
  | sxtab => rn + (byte rotated 0).signExtend 32
  | sxtah => offset + (bottom rotated).signExtend 32
  | uxtb => (byte rotated 0).setWidth 32
  | uxtab => rn + (byte rotated 0).setWidth 32
  | uxtah => offset + (bottom rotated).setWidth 32
  | uxtb16 => ofBytes ![byte rotated 0, 0, byte rotated 2, 0]

def execute (op : PackOp) (ctx : Cpu) (instr : ARMInstr) : Cpu :=
  ctx.put instr.idxRd (op.value instr (ctx.reg instr.idxRn) (ctx.reg instr.idxRm))

/-- What `PKHTB` shifts into the upper half. -/
def leaked (ctx : Cpu) (instr : ARMInstr) : BitVec 16 :=
  if instr.idxRm = instr.idxRd ∨ instr.addr1ShiftImm = 0 then 0
  else top ((ctx.reg instr.idxRm).sshiftRight instr.addr1ShiftImm.toNat)

/-- The sources for which it makes no difference that they are overwritten, and for `PKHTB` that the
upper half of what is shifted is not masked. -/
def Intact (op : PackOp) (ctx : Cpu) (instr : ARMInstr) : Prop :=
  match op with
  | pkhbt => instr.idxRm = instr.idxRd →
    top ((ctx.reg instr.idxRn &&& 0xFFFF) <<< instr.addr1ShiftImm.toNat) =
      top (ctx.reg instr.idxRm <<< instr.addr1ShiftImm.toNat)
  | pkhtb => (instr.idxRm = instr.idxRd → bottom (shiftedTop instr (ctx.reg instr.idxRm)) = 0) ∧
    leaked ctx instr ||| (if instr.idxRn = instr.idxRd then 0 else top (ctx.reg instr.idxRn)) =
      top (ctx.reg instr.idxRn)
  | _ => True

instance (op : PackOp) (ctx : Cpu) (instr : ARMInstr) : Decidable (op.Intact ctx instr) := by
  unfold Intact
  cases op <;> infer_instance

end PackOp

/-! ## What the handlers compute -/

section

variable {ctx : Cpu} {instr : ARMInstr}

theorem put_reg_eq (i j : BitVec 4) (v : BitVec 32) :
    (ctx.put i v).reg j = if j = i then v else ctx.reg j := by
  split
  next h => rw [h, Cpu.put_reg_self]
  next h => exact ctx.put_reg_of_ne h v

theorem uxtbRotate_lt (instr : ARMInstr) : instr.uxtbRotate < 4 := by
  have h := (instr.raw.extractLsb' 10 2).isLt
  rw [BitVec.lt_def, ARMInstr.uxtbRotate, BitVec.toNat_setWidth]
  show _ < 4
  omega

theorem rotatedRm_eq (hrm : instr.idxRm ≠ 15) : rotatedRm ctx instr =
    .ok ((ctx.reg instr.idxRm).rotateRight (8 * instr.uxtbRotate.toNat)) := by
  have hlt := uxtbRotate_lt instr
  have hn : (8 * instr.uxtbRotate).toNat = 8 * instr.uxtbRotate.toNat := by
    rw [BitVec.lt_def] at hlt
    rw [BitVec.toNat_mul]
    show 8 * instr.uxtbRotate.toNat % 2 ^ 32 = _
    have h4 : (4 : BitVec 32).toNat = 4 := rfl
    omega
  have h32 : 8 * instr.uxtbRotate < 32 := by
    rw [BitVec.lt_def] at hlt ⊢
    rw [hn]
    have h4 : (4 : BitVec 32).toNat = 4 := rfl
    show _ < 32
    omega
  rw [rotatedRm, State.fetchReg, if_neg hrm, rotateRight_eq h32, hn]
  rfl

theorem and_low_byte (v : BitVec 32) : v &&& 0xFF = (byte v 0).setWidth 32 := by
  rw [and_mask_0, atByte_zero_eq]

theorem signExtend8_eq (v : BitVec 32) : signExtend8 v = (byte v 0).signExtend 32 := by
  rw [signExtend8, byte_eq_setWidth]
  rfl

theorem signExtend8_and (v : BitVec 32) :
    signExtend8 (v &&& 0xFF) = (byte v 0).signExtend 32 := by
  have hbyte : byte (v &&& 0xFF) 0 = byte v 0 := by
    rw [and_mask_0, byte_atByte, if_pos rfl]
  rw [signExtend8_eq, hbyte]

theorem and_low_half (v : BitVec 32) : v &&& 0xFFFF = (bottom v).setWidth 32 := by
  have hbits : ∀ i < 32, (0xFFFF : BitVec 32).getLsbD i = decide (i < 16) := by decide
  apply BitVec.eq_of_getLsbD_eq
  intro i hi
  rw [BitVec.getLsbD_and, hbits i hi, BitVec.getLsbD_setWidth, bottom, BitVec.getLsbD_extractLsb']
  simp [hi, Bool.and_comm]

theorem signExtend16_eq (v : BitVec 32) : signExtend16 v = (bottom v).signExtend 32 := by
  have h : v.setWidth 16 = bottom v := by
    apply BitVec.eq_of_toNat_eq
    simp [bottom]
  rw [signExtend16, h]

/-- Words with the same bytes. -/
theorem byte_ext {v w : BitVec 32} (h : ∀ k, byte v k = byte w k) : v = w := by
  apply BitVec.eq_of_getLsbD_eq
  intro i hi
  have hbit := congrArg (fun b => BitVec.getLsbD b (i % 8)) (h ⟨i / 8, by omega⟩)
  simpa [byte, show i % 8 < 8 by omega, show 8 * (i / 8) + i % 8 = i by omega] using hbit

theorem byte_and (v w : BitVec 32) (k : Fin 4) : byte (v &&& w) k = byte v k &&& byte w k :=
  BitVec.extractLsb'_and

theorem uxtb16_eq (v : BitVec 32) :
    v &&& 0xFF00FF = ofBytes ![byte v 0, 0, byte v 2, 0] := by
  refine byte_ext fun k => ?_
  rw [byte_and, byte_ofBytes]
  fin_cases k
  · exact BitVec.and_allOnes
  · exact BitVec.and_zero
  · exact BitVec.and_allOnes
  · exact BitVec.and_zero

theorem bytesOf_eq (v : BitVec 32) (k : Fin 4) : bytesOf v k = (byte v k).setWidth 32 :=
  shifted_and k v

theorem rev_eq (v : BitVec 32) : bytesOf v 3 ||| bytesOf v 2 <<< 8 ||| bytesOf v 1 <<< 16 |||
    bytesOf v 0 <<< 24 = ofBytes fun k => byte v (3 - k) := by
  simp only [bytesOf_eq, ofBytes, atByte_zero_eq]
  rfl

theorem rev16_eq (v : BitVec 32) :
    (bytesOf v 1 ||| bytesOf v 0 <<< 8) ||| (bytesOf v 3 ||| bytesOf v 2 <<< 8) <<< 16 =
      ofBytes ![byte v 1, byte v 0, byte v 3, byte v 2] := by
  have hshift : (bytesOf v 2 <<< 8) <<< 16 = bytesOf v 2 <<< 24 := by
    rw [← BitVec.shiftLeft_add]
  rw [BitVec.shiftLeft_or_distrib, hshift, ← BitVec.or_assoc]
  simp only [bytesOf_eq, ofBytes, atByte_zero_eq]
  rfl

theorem put_inj {i : BitVec 4} {v w : BitVec 32} : ctx.put i v = ctx.put i w ↔ v = w := by
  constructor
  · intro h
    simpa using congrArg (fun c : Cpu => c.reg i) h
  · rintro rfl
    rfl

theorem sign_shift (v : BitVec 32) : v.sshiftRight 31 = v.sshiftRight 32 := by
  have hrange := And.intro (BitVec.le_toInt v) (BitVec.toInt_lt (x := v))
  apply BitVec.eq_of_toInt_eq
  rw [BitVec.toInt_sshiftRight, BitVec.toInt_sshiftRight, Int.shiftRight_eq_div_pow,
    Int.shiftRight_eq_div_pow]
  omega

/-- What `PKHTB` has shifted when it reads Rn. -/
def shiftedBy (ctx : Cpu) (instr : ARMInstr) : BitVec 32 :=
  let rm := if instr.idxRm = instr.idxRd then 0 else ctx.reg instr.idxRm
  if instr.addr1ShiftImm = 0 then rm.sshiftRight 31 &&& 0xFFFF
  else rm.sshiftRight instr.addr1ShiftImm.toNat

theorem zero_sshiftRight (n : Nat) : (0 : BitVec 32).sshiftRight n = 0 := by
  simp

theorem bottom_shiftedBy : bottom (shiftedBy ctx instr) =
    if instr.idxRm = instr.idxRd then 0
    else bottom (PackOp.shiftedTop instr (ctx.reg instr.idxRm)) := by
  simp only [shiftedBy, PackOp.shiftedTop]
  by_cases hrm : instr.idxRm = instr.idxRd
  · rw [if_pos hrm, if_pos hrm, zero_sshiftRight, zero_sshiftRight]
    split <;> rfl
  · rw [if_neg hrm, if_neg hrm]
    split
    next => rw [bottom_and_low, sign_shift]
    next => rfl

theorem top_shiftedBy : top (shiftedBy ctx instr) = PackOp.leaked ctx instr := by
  simp only [shiftedBy, PackOp.leaked]
  by_cases hrm : instr.idxRm = instr.idxRd
  · rw [if_pos hrm, if_pos (Or.inl hrm), zero_sshiftRight, zero_sshiftRight]
    split <;> rfl
  · rw [if_neg hrm]
    by_cases h0 : instr.addr1ShiftImm = 0
    · rw [if_pos h0, if_pos (Or.inr h0), top_and_low]
      rfl
    · rw [if_neg h0, if_neg (not_or.2 ⟨hrm, h0⟩)]

variable (hcond : evalCond ctx.toState instr.cond = .ok true) (hrd : instr.idxRd ≠ 15)
  (hrm : instr.idxRm ≠ 15)

include hcond hrd hrm

theorem extend_eq (line : Nat) (value : Cpu → BitVec 32 → BitVec 32) :
    extend line value ctx instr = done (ctx.put instr.idxRd
      (value ctx ((ctx.reg instr.idxRm).rotateRight (8 * instr.uxtbRotate.toNat)))) := by
  rw [extend, conditional_true hcond, if_neg (by tauto), rotatedRm_eq hrm]
  rfl

theorem extendByte_eq (line : Nat) (refuse : Executed) (value : BitVec 32 → BitVec 32)
    (hrn : instr.idxRn ≠ 15) :
    extendByte line refuse value ctx instr = done (ctx.put instr.idxRd (ctx.reg instr.idxRn +
      value ((ctx.reg instr.idxRm).rotateRight (8 * instr.uxtbRotate.toNat)))) := by
  rw [extendByte, conditional_true hcond, if_neg (by tauto), if_neg hrn, rotatedRm_eq hrm]
  rfl

theorem reverseBytes_eq (line : Nat) (value : (Fin 4 → BitVec 32) → BitVec 32) :
    reverseBytes line value ctx instr =
      done (ctx.put instr.idxRd (value (bytesOf (ctx.reg instr.idxRm)))) := by
  rw [reverseBytes, conditional_true hcond, if_neg (by tauto)]

theorem handlerPkhbt_eq (hrn : instr.idxRn ≠ 15) : handlerPkhbt ctx instr =
    done (ctx.put instr.idxRd ((ctx.reg instr.idxRn &&& 0xFFFF) |||
      ((if instr.idxRm = instr.idxRd then ctx.reg instr.idxRn &&& 0xFFFF
        else ctx.reg instr.idxRm) <<< instr.addr1ShiftImm.toNat) &&& 0xFFFF0000)) := by
  rw [handlerPkhbt, conditional_true hcond, if_neg (by tauto)]
  simp only [put_reg_eq, if_true, Cpu.put_put, BitVec.shiftLeft_eq']

theorem handlerPkhtb_eq (hrn : instr.idxRn ≠ 15) : handlerPkhtb ctx instr =
    done (ctx.put instr.idxRd (shiftedBy ctx instr |||
      (if instr.idxRn = instr.idxRd then shiftedBy ctx instr else ctx.reg instr.idxRn) &&&
        0xFFFF0000)) := by
  have hlt := addr1ShiftImm_lt instr
  have hshift : pkhtbOperand instr ((ctx.put instr.idxRd 0).reg instr.idxRm) =
      .ok (shiftedBy ctx instr) := by
    rw [shiftedBy, put_reg_eq, pkhtbOperand]
    split
    next => rfl
    next h0 =>
      rw [arithmeticShiftRight_eq (by bv_omega) hlt]
      rfl
  rw [handlerPkhtb, conditional_true hcond, if_neg (by tauto)]
  simp only [hshift]
  show done _ = _
  simp only [put_reg_eq, if_true, Cpu.put_put]
  rw [show (0 : BitVec 32) ||| shiftedBy ctx instr = shiftedBy ctx instr from BitVec.zero_or]

end

end Mikage.Arm
