import Mikage.Arm.Media

/-!
# Parallel arithmetic on bytes

`UADD8`, `UQADD8`, `UHADD8`, `SSUB8`, `USUB8`, `QSUB8`, `UQSUB8` and `SEL`, against the operation
on each of the four bytes.

`ofBytes` puts four bytes together, `byte` takes one out. Each handler's result is `ofBytes` of its
`codeByte`, and words are equal if their bytes are. In `UADD8`, `UHADD8` and the subtractions the
cast to `uint8_t` drops a sum that is still in place of the upper byte.
-/

namespace Mikage.Arm

/-! ## Bytes of a word -/

scoped instance neZero_four : NeZero 4 := ⟨by decide⟩

def byte (v : BitVec 32) (k : Fin 4) : BitVec 8 := v.extractLsb' (8 * k) 8

/-- `uint32_t { b } << 8 * k` -/
def atByte (k : Fin 4) (b : BitVec 8) : BitVec 32 := b.setWidth 32 <<< (8 * k.val)

def ofBytes (f : Fin 4 → BitVec 8) : BitVec 32 :=
  atByte 0 (f 0) ||| atByte 1 (f 1) ||| atByte 2 (f 2) ||| atByte 3 (f 3)

theorem byte_atByte (j k : Fin 4) (b : BitVec 8) :
    byte (atByte j b) k = if j = k then b else 0 := by
  apply BitVec.eq_of_getLsbD_eq
  intro i hi
  have hj := j.isLt
  have hk := k.isLt
  simp only [byte, atByte, BitVec.getLsbD_extractLsb', BitVec.getLsbD_shiftLeft,
    BitVec.getLsbD_setWidth, hi, decide_true, Bool.true_and]
  by_cases h : j = k
  · subst h
    simp [show 8 * j.val + i < 32 by omega, show i < 32 by omega]
  · have hne : j.val ≠ k.val := fun he => h (Fin.ext he)
    rcases Nat.lt_or_gt_of_ne hne with hlt | hgt
    · simp [h, BitVec.getLsbD_of_ge b (8 * k.val + i - 8 * j.val) (by omega)]
    · simp [h, show 8 * k.val + i < 8 * j.val by omega]

theorem byte_or (v w : BitVec 32) (k : Fin 4) : byte (v ||| w) k = byte v k ||| byte w k := by
  apply BitVec.eq_of_getLsbD_eq
  intro i hi
  simp [byte, hi]

theorem byte_ofBytes (f : Fin 4 → BitVec 8) (k : Fin 4) : byte (ofBytes f) k = f k := by
  simp only [ofBytes, byte_or, byte_atByte]
  fin_cases k <;> simp

theorem ofBytes_inj {f g : Fin 4 → BitVec 8} : ofBytes f = ofBytes g ↔ ∀ k, f k = g k := by
  constructor
  · intro h k
    rw [← byte_ofBytes f, h, byte_ofBytes]
  · intro h
    rw [funext h]

theorem ones_bit : ∀ j < 32, (0xFF : BitVec 32).getLsbD j = decide (j < 8) := by
  decide

/-- A mask leaves a byte in its place. -/
theorem and_mask (v : BitVec 32) (k : Fin 4) :
    v &&& (0xFF : BitVec 32) <<< (8 * k.val) = atByte k (byte v k) := by
  apply BitVec.eq_of_getLsbD_eq
  intro i hi
  have hk := k.isLt
  simp only [byte, atByte, BitVec.getLsbD_extractLsb', BitVec.getLsbD_shiftLeft, BitVec.getLsbD_and,
    BitVec.getLsbD_setWidth, hi, decide_true, Bool.true_and]
  by_cases h : i < 8 * k.val
  · simp [h]
  · have hsum : 8 * k.val + (i - 8 * k.val) = i := by omega
    have hlt : i - 8 * k.val < 32 := by omega
    rw [ones_bit _ hlt, hsum]
    simp [h, hlt, Bool.and_comm]

theorem and_mask_0 (v : BitVec 32) : v &&& 0xFF = atByte 0 (byte v 0) := and_mask v 0
theorem and_mask_1 (v : BitVec 32) : v &&& 0xFF00 = atByte 1 (byte v 1) := and_mask v 1
theorem and_mask_2 (v : BitVec 32) : v &&& 0xFF0000 = atByte 2 (byte v 2) := and_mask v 2
theorem and_mask_3 (v : BitVec 32) : v &&& 0xFF000000 = atByte 3 (byte v 3) := and_mask v 3

theorem toNat_atByte (k : Fin 4) (b : BitVec 8) :
    (atByte k b).toNat = b.toNat * 2 ^ (8 * k.val) := by
  have hb := b.isLt
  have hlt : b.toNat * 2 ^ (8 * k.val) < 2 ^ 32 := by
    fin_cases k <;> simp <;> omega
  rw [atByte, BitVec.toNat_shiftLeft, BitVec.toNat_setWidth, Nat.shiftLeft_eq,
    Nat.mod_eq_of_lt (by omega : b.toNat < 2 ^ 32), Nat.mod_eq_of_lt hlt]

theorem byte_eq_setWidth (v : BitVec 32) (k : Fin 4) :
    byte v k = (v >>> (8 * k.val)).setWidth 8 := by
  apply BitVec.eq_of_toNat_eq
  simp [byte]

/-! ## Handlers -/

/-- `result |= static_cast<uint8_t>(sum) << 8 * k` -/
def castAt (k : Fin 4) (sum : BitVec 32) : BitVec 32 := atByte k (sum.setWidth 8)

/-- `cpsr.ge0 = value`, and so on. -/
def Cpu.setGe (ctx : Cpu) (k : Fin 4) (value : Bool) : Cpu :=
  { ctx with ge := Function.update ctx.ge k value }

/-- `GetCarryT<uint8_t>` -/
def getCarry8 (left right : BitVec 8) : Bool :=
  (left >>> 7).toNat + (right >>> 7).toNat > ((left + right) >>> 7).toNat

/-- The common text of the handlers. -/
def parallel (line : Nat) (body : Cpu → BitVec 32 → BitVec 32 → Cpu) (ctx : Cpu)
    (instr : ARMInstr) : Executed :=
  conditional ctx.toState instr ctx <|
    if instr.idxRn = 15 ∨ instr.idxRm = 15 ∨ instr.idxRd = 15 then
      stubAnnotated ctx.toState instr line
    else
      done (body ctx (ctx.fetchReg instr.idxRn) (ctx.fetchReg instr.idxRm))

def uadd8Result (rn rm : BitVec 32) : BitVec 32 :=
  castAt 0 ((rn &&& 0xFF) + (rm &&& 0xFF)) |||
  castAt 1 ((rn &&& 0xFF00) + (rm &&& 0xFF00)) |||
  castAt 2 ((rn &&& 0xFF0000) + (rm &&& 0xFF0000)) |||
  castAt 3 ((rn &&& 0xFF000000) + (rm &&& 0xFF000000))

def handlerUadd8 (ctx : Cpu) (instr : ARMInstr) : Executed :=
  parallel 1746 (fun ctx rn rm =>
    let ctx := ctx.put instr.idxRd (uadd8Result rn rm)
    let ctx := ctx.setGe 0 (getCarry8 (rn.setWidth 8) (rm.setWidth 8))
    let ctx := ctx.setGe 1 (getCarry8 ((rn >>> 8).setWidth 8) ((rm >>> 8).setWidth 8))
    let ctx := ctx.setGe 2 (getCarry8 ((rn >>> 16).setWidth 8) ((rm >>> 16).setWidth 8))
    ctx.setGe 3 (getCarry8 ((rn >>> 24).setWidth 8) ((rm >>> 24).setWidth 8))) ctx instr

/-- `std::min(uint32_t { 255 }, sum & 0xFF)` -/
def saturated8 (sum : BitVec 32) : BitVec 32 := if sum &&& 0xFF < 255 then sum &&& 0xFF else 255

def uqadd8Result (rn rm : BitVec 32) : BitVec 32 :=
  saturated8 (rn + rm) |||
  saturated8 (rn >>> 8 + rm >>> 8) <<< 8 |||
  saturated8 (rn >>> 16 + rm >>> 16) <<< 16 |||
  saturated8 (rn >>> 24 + rm >>> 24) <<< 24

def handlerUqadd8 (ctx : Cpu) (instr : ARMInstr) : Executed :=
  parallel 1776 (fun ctx rn rm => ctx.put instr.idxRd (uqadd8Result rn rm)) ctx instr

def uhadd8Result (rn rm : BitVec 32) : BitVec 32 :=
  castAt 0 (((rn &&& 0xFF) + (rm &&& 0xFF)) / 2) |||
  castAt 1 (((rn &&& 0xFF00) + (rm &&& 0xFF00)) / 2) |||
  castAt 2 (((rn &&& 0xFF0000) + (rm &&& 0xFF0000)) / 2) |||
  castAt 3 (((rn &&& 0xFF000000) + (rm &&& 0xFF000000)) / 2)

def handlerUhadd8 (ctx : Cpu) (instr : ARMInstr) : Executed :=
  parallel 1800 (fun ctx rn rm => ctx.put instr.idxRd (uhadd8Result rn rm)) ctx instr

def xsub8Result (rn rm : BitVec 32) : BitVec 32 :=
  castAt 0 ((rn &&& 0xFF) - (rm &&& 0xFF)) |||
  castAt 1 ((rn &&& 0xFF00) - (rm &&& 0xFF00)) |||
  castAt 2 ((rn &&& 0xFF0000) - (rm &&& 0xFF0000)) |||
  castAt 3 ((rn &&& 0xFF000000) - (rm &&& 0xFF000000))

/-- Comparison as `int8_t` or as `uint8_t`. -/
def notLess8 (isSigned : Bool) (left right : BitVec 8) : Bool :=
  if isSigned then right.sle left else right.ule left

/-- All four comparisons are assigned to `ge0`. -/
def handlerXsub8 (isSigned : Bool) (ctx : Cpu) (instr : ARMInstr) : Executed :=
  parallel 1826 (fun ctx rn rm =>
    let ctx := ctx.put instr.idxRd (xsub8Result rn rm)
    let ctx := ctx.setGe 0 (notLess8 isSigned ((rn >>> 0).setWidth 8) ((rm >>> 0).setWidth 8))
    let ctx := ctx.setGe 0 (notLess8 isSigned ((rn >>> 8).setWidth 8) ((rm >>> 8).setWidth 8))
    let ctx := ctx.setGe 0 (notLess8 isSigned ((rn >>> 16).setWidth 8) ((rm >>> 16).setWidth 8))
    ctx.setGe 0 (notLess8 isSigned ((rn >>> 24).setWidth 8) ((rm >>> 24).setWidth 8))) ctx instr

def qsub8Result (rn rm : BitVec 32) : BitVec 32 :=
  (if (rm &&& 0xFF) ≤ (rn &&& 0xFF) + 0x80 then ((rn &&& 0xFF) - (rm &&& 0xFF)) &&& 0xFF
    else 0) |||
  (if (rm >>> 8) &&& (0xFF : BitVec 32) ≤ ((rn >>> 8) &&& (0xFF : BitVec 32)) + 0x80 then
    ((rn &&& 0xFF00) - (rm &&& 0xFF00)) &&& 0xFF00 else 0) |||
  (if (rm >>> 16) &&& (0xFF : BitVec 32) ≤ ((rn >>> 16) &&& (0xFF : BitVec 32)) + 0x80 then
    ((rn &&& 0xFF0000) - (rm &&& 0xFF0000)) &&& 0xFF0000 else 0) |||
  (if rm >>> 24 ≤ rn >>> 24 + 0x80 then
    ((rn &&& 0xFF000000) - (rm &&& 0xFF000000)) &&& 0xFF000000 else 0)

def handlerQsub8 (ctx : Cpu) (instr : ARMInstr) : Executed :=
  parallel 1857 (fun ctx rn rm => ctx.put instr.idxRd (qsub8Result rn rm)) ctx instr

def uqsub8Result (rn rm : BitVec 32) : BitVec 32 :=
  (if (rm &&& 0xFF) ≤ (rn &&& 0xFF) then (rn &&& 0xFF) - (rm &&& 0xFF) else 0) |||
  (if (rm &&& 0xFF00) ≤ (rn &&& 0xFF00) then (rn &&& 0xFF00) - (rm &&& 0xFF00) else 0) |||
  (if (rm &&& 0xFF0000) ≤ (rn &&& 0xFF0000) then (rn &&& 0xFF0000) - (rm &&& 0xFF0000)
    else 0) |||
  (if (rm &&& 0xFF000000) ≤ (rn &&& 0xFF000000) then (rn &&& 0xFF000000) - (rm &&& 0xFF000000)
    else 0)

def handlerUqsub8 (ctx : Cpu) (instr : ARMInstr) : Executed :=
  parallel 1885 (fun ctx rn rm => ctx.put instr.idxRd (uqsub8Result rn rm)) ctx instr

/-- `SEL` reads the registers one byte at a time. -/
def selResult (ge : Fin 4 → Bool) (rn rm : BitVec 32) : BitVec 32 :=
  (0xFF &&& if ge 0 then rn else rm) |||
  (0xFF00 &&& if ge 1 then rn else rm) |||
  (0xFF0000 &&& if ge 2 then rn else rm) |||
  (0xFF000000 &&& if ge 3 then rn else rm)

def handlerSel (ctx : Cpu) (instr : ARMInstr) : Executed :=
  parallel 1913 (fun ctx _ _ =>
    ctx.put instr.idxRd (selResult ctx.ge (ctx.reg instr.idxRn) (ctx.reg instr.idxRm))) ctx instr

/-! ## The reference -/

inductive ParallelOp where
  | uadd8 | uqadd8 | uhadd8 | ssub8 | usub8 | qsub8 | uqsub8
  deriving DecidableEq, Repr

namespace ParallelOp

def handler : ParallelOp → Cpu → ARMInstr → Executed
  | uadd8 => handlerUadd8
  | uqadd8 => handlerUqadd8
  | uhadd8 => handlerUhadd8
  | ssub8 => handlerXsub8 true
  | usub8 => handlerXsub8 false
  | qsub8 => handlerQsub8
  | uqsub8 => handlerUqsub8

/-- The result in one byte. -/
def reference (op : ParallelOp) (a b : BitVec 8) : BitVec 8 :=
  match op with
  | uadd8 => .ofNat 8 (a.toNat + b.toNat)
  | uqadd8 => .ofNat 8 (min 255 (a.toNat + b.toNat))
  | uhadd8 => .ofNat 8 ((a.toNat + b.toNat) / 2)
  | ssub8 => .ofInt 8 (a.toInt - b.toInt)
  | usub8 => .ofInt 8 (a.toNat - b.toNat)
  | qsub8 => .ofInt 8 (max (-128) (min (a.toInt - b.toInt) 127))
  | uqsub8 => .ofInt 8 (max 0 (a.toNat - b.toNat : Int))

/-- The GE flag of one byte, which was `ge`. -/
def referenceGe (op : ParallelOp) (a b : BitVec 8) (ge : Bool) : Bool :=
  match op with
  | uadd8 => 256 ≤ a.toNat + b.toNat
  | ssub8 => 0 ≤ a.toInt - b.toInt
  | usub8 => 0 ≤ (a.toNat : Int) - b.toNat
  | _ => ge

/-- What the instruction does, byte by byte. -/
def execute (op : ParallelOp) (ctx : Cpu) (instr : ARMInstr) : Cpu :=
  let a := byte (ctx.reg instr.idxRn)
  let b := byte (ctx.reg instr.idxRm)
  { ctx.put instr.idxRd (ofBytes fun k => op.reference (a k) (b k)) with
    ge := fun k => op.referenceGe (a k) (b k) (ctx.ge k) }

/-- The operands, and for the subtractions with GE the flags, for which the result is right. -/
def InPlace (op : ParallelOp) (a b : Fin 4 → BitVec 8) (ge : Fin 4 → Bool) : Prop :=
  match op with
  | uadd8 => ∀ k, k ≠ 0 → a k + b k = 0
  | uqadd8 => ∀ k, (a k).toNat + (b k).toNat < 256
  | uhadd8 => ((a 1).toNat + (b 1).toNat = 0 ∨ (a 1).toNat + (b 1).toNat = 257) ∧
    (a 2).toNat + (b 2).toNat ≤ 1 ∧ (a 3).toNat + (b 3).toNat ≤ 1
  | ssub8 => (∀ k, k ≠ 0 → a k = b k ∧ ge k = true) ∧ (b 0).toInt ≤ (a 0).toInt
  | usub8 => (∀ k, k ≠ 0 → a k = b k ∧ ge k = true) ∧ (b 0).toNat ≤ (a 0).toNat
  | qsub8 => ∀ k, (b k).toNat ≤ (a k).toNat + 128 ∧ -128 ≤ (a k).toInt - (b k).toInt ∧
    (a k).toInt - (b k).toInt ≤ 127
  | uqsub8 => True

instance (op : ParallelOp) (a b : Fin 4 → BitVec 8) (ge : Fin 4 → Bool) :
    Decidable (op.InPlace a b ge) := by
  unfold InPlace
  cases op <;> infer_instance

end ParallelOp

/-- Each byte from the one or the other register, by its flag. -/
def selected (ctx : Cpu) (instr : ARMInstr) : Cpu :=
  ctx.put instr.idxRd (ofBytes fun k =>
    if ctx.ge k then byte (ctx.reg instr.idxRn) k else byte (ctx.reg instr.idxRm) k)

/-! ## The bytes of the results -/

section

variable (k : Fin 4) (a b : BitVec 8) (rn rm : BitVec 32)

theorem cast_add : (atByte k a + atByte k b).setWidth 8 = if k = 0 then a + b else 0 := by
  have ha := a.isLt
  have hb := b.isLt
  apply BitVec.eq_of_toNat_eq
  rw [BitVec.toNat_setWidth, BitVec.toNat_add, toNat_atByte, toNat_atByte]
  fin_cases k <;> simp <;> omega

theorem cast_sub : (atByte k a - atByte k b).setWidth 8 = if k = 0 then a - b else 0 := by
  have ha := a.isLt
  have hb := b.isLt
  apply BitVec.eq_of_toNat_eq
  rw [BitVec.toNat_setWidth, BitVec.toNat_sub, toNat_atByte, toNat_atByte]
  fin_cases k <;> simp <;> omega

/-- The low bit of the sum of the second bytes is the high bit of its half below the place. -/
theorem cast_half : ((atByte k a + atByte k b) / 2).setWidth 8 = BitVec.ofNat 8
    (if k = 0 then (a.toNat + b.toNat) / 2
      else if k = 1 then 128 * ((a.toNat + b.toNat) % 2) else 0) := by
  have ha := a.isLt
  have hb := b.isLt
  apply BitVec.eq_of_toNat_eq
  rw [BitVec.toNat_setWidth, BitVec.toNat_udiv, BitVec.toNat_add, toNat_atByte, toNat_atByte,
    BitVec.toNat_ofNat]
  fin_cases k <;> simp <;> omega

theorem uadd8Result_eq : uadd8Result rn rm =
    ofBytes fun k => if k = 0 then byte rn k + byte rm k else 0 := by
  simp only [uadd8Result, castAt, and_mask_0, and_mask_1, and_mask_2, and_mask_3, cast_add]
  rfl

theorem xsub8Result_eq : xsub8Result rn rm =
    ofBytes fun k => if k = 0 then byte rn k - byte rm k else 0 := by
  simp only [xsub8Result, castAt, and_mask_0, and_mask_1, and_mask_2, and_mask_3, cast_sub]
  rfl

theorem uhadd8Result_eq : uhadd8Result rn rm = ofBytes fun k => BitVec.ofNat 8
    (if k = 0 then ((byte rn k).toNat + (byte rm k).toNat) / 2
      else if k = 1 then 128 * (((byte rn k).toNat + (byte rm k).toNat) % 2) else 0) := by
  simp only [uhadd8Result, castAt, and_mask_0, and_mask_1, and_mask_2, and_mask_3, cast_half]
  rfl

/-- The mask leaves nothing to saturate. -/
theorem saturated8_eq (sum : BitVec 32) : saturated8 sum = (sum.setWidth 8).setWidth 32 := by
  have hmask : sum &&& 0xFF = (sum.setWidth 8).setWidth 32 := by
    rw [and_mask_0, byte_eq_setWidth]
    simp [atByte]
  have hlt := (sum.setWidth 8).isLt
  rw [saturated8, hmask]
  split
  next => rfl
  next h =>
    apply BitVec.eq_of_toNat_eq
    rw [BitVec.lt_def, BitVec.toNat_setWidth] at h
    rw [BitVec.toNat_setWidth]
    show 255 = _
    have h255 : (255 : BitVec 32).toNat = 255 := rfl
    omega

theorem uqadd8Result_eq : uqadd8Result rn rm = ofBytes fun k => byte rn k + byte rm k := by
  have hbyte : ∀ k, byte rn k + byte rm k =
      (rn >>> (8 * k.val) + rm >>> (8 * k.val)).setWidth 8 := by
    intro k
    rw [byte_eq_setWidth, byte_eq_setWidth, BitVec.setWidth_add _ _ (by decide)]
  simp only [uqadd8Result, saturated8_eq, ofBytes, hbyte, atByte]
  simp

theorem atByte_le : atByte k b ≤ atByte k a ↔ b.toNat ≤ a.toNat := by
  rw [BitVec.le_def, toNat_atByte, toNat_atByte]
  exact Nat.mul_le_mul_right_iff (Nat.pow_pos (by decide))

theorem atByte_sub (h : b.toNat ≤ a.toNat) : atByte k a - atByte k b = atByte k (a - b) := by
  have ha := a.isLt
  apply BitVec.eq_of_toNat_eq
  rw [BitVec.toNat_sub, toNat_atByte, toNat_atByte, toNat_atByte, BitVec.toNat_sub]
  fin_cases k <;> simp <;> omega

theorem atByte_zero : atByte k 0 = 0 := by
  fin_cases k <;> rfl

theorem uqsub8_byte : (if atByte k b ≤ atByte k a then atByte k a - atByte k b else 0) =
    atByte k (if b.toNat ≤ a.toNat then a - b else 0) := by
  simp only [atByte_le]
  split
  next h => exact atByte_sub k a b h
  next => exact (atByte_zero k).symm

theorem uqsub8Result_eq : uqsub8Result rn rm = ofBytes fun k =>
    if (byte rm k).toNat ≤ (byte rn k).toNat then byte rn k - byte rm k else 0 := by
  simp only [uqsub8Result, and_mask_0, and_mask_1, and_mask_2, and_mask_3, uqsub8_byte]
  rfl

/-- A difference in place, cut to its byte. -/
theorem byte_atByte_sub : byte (atByte k a - atByte k b) k = a - b := by
  have ha := a.isLt
  have hb := b.isLt
  apply BitVec.eq_of_toNat_eq
  rw [byte_eq_setWidth, BitVec.toNat_setWidth, BitVec.toNat_ushiftRight, BitVec.toNat_sub,
    toNat_atByte, toNat_atByte, BitVec.toNat_sub, Nat.shiftRight_eq_div_pow]
  fin_cases k <;> simp <;> omega

theorem qsub8_compare (v w : BitVec 8) :
    w.setWidth 32 ≤ v.setWidth 32 + (0x80 : BitVec 32) ↔ w.toNat ≤ v.toNat + 128 := by
  have hv := v.isLt
  have hw := w.isLt
  rw [BitVec.le_def, BitVec.toNat_add, BitVec.toNat_setWidth, BitVec.toNat_setWidth]
  show w.toNat % 2 ^ 32 ≤ (v.toNat % 2 ^ 32 + 128) % 2 ^ 32 ↔ _
  omega

theorem shifted_and (v : BitVec 32) :
    (v >>> (8 * k.val)) &&& 0xFF = (byte v k).setWidth 32 := by
  rw [and_mask_0, byte_eq_setWidth, byte_eq_setWidth]
  simp [atByte]

theorem shiftRight_24 (v : BitVec 32) : v >>> 24 = (byte v 3).setWidth 32 := by
  have hv := v.isLt
  apply BitVec.eq_of_toNat_eq
  rw [byte_eq_setWidth, BitVec.toNat_setWidth, BitVec.toNat_setWidth]
  show (v >>> 24).toNat = (v >>> 24).toNat % 2 ^ 8 % 2 ^ 32
  rw [BitVec.toNat_ushiftRight, Nat.shiftRight_eq_div_pow]
  omega

theorem atByte_if (p : Prop) [Decidable p] :
    (if p then atByte k a else 0) = atByte k (if p then a else 0) := by
  split
  next => rfl
  next => exact (atByte_zero k).symm

theorem qsub8_byte : (if b.setWidth 32 ≤ a.setWidth 32 + (0x80 : BitVec 32) then
      atByte k (byte (atByte k a - atByte k b) k) else 0) =
    atByte k (if b.toNat ≤ a.toNat + 128 then a - b else 0) := by
  simp only [qsub8_compare, byte_atByte_sub, atByte_if]

theorem atByte_zero_eq : atByte 0 a = a.setWidth 32 := by
  simp [atByte]

theorem qsub8Result_eq : qsub8Result rn rm = ofBytes fun k =>
    if (byte rm k).toNat ≤ (byte rn k).toNat + 128 then byte rn k - byte rm k else 0 := by
  have h1 : ∀ v : BitVec 32, v >>> 8 &&& 0xFF = (byte v 1).setWidth 32 := shifted_and 1
  have h2 : ∀ v : BitVec 32, v >>> 16 &&& 0xFF = (byte v 2).setWidth 32 := shifted_and 2
  have h0 := qsub8_byte 0 (byte rn 0) (byte rm 0)
  simp only [atByte_zero_eq] at h0
  simp only [ofBytes, ← qsub8_byte 1, ← qsub8_byte 2, ← qsub8_byte 3, atByte_zero_eq, ← h0]
  simp only [qsub8Result, h1, h2, shiftRight_24, and_mask_0, and_mask_1, and_mask_2, and_mask_3,
    atByte_zero_eq]

theorem selResult_eq (ge : Fin 4 → Bool) : selResult ge rn rm =
    ofBytes fun k => if ge k then byte rn k else byte rm k := by
  have hbyte : ∀ k, byte (if ge k then rn else rm) k = if ge k then byte rn k else byte rm k := by
    intro k
    split <;> rfl
  simp only [selResult, BitVec.and_comm, and_mask_0, and_mask_1, and_mask_2, and_mask_3, hbyte]
  rfl

end

/-! ## Each instruction -/

section

variable {ctx : Cpu} {instr : ARMInstr}

theorem getCarry8_eq (a b : BitVec 8) : getCarry8 a b = decide (256 ≤ a.toNat + b.toNat) := by
  have ha := a.isLt
  have hb := b.isLt
  rw [getCarry8, decide_eq_decide, BitVec.toNat_ushiftRight, BitVec.toNat_ushiftRight,
    BitVec.toNat_ushiftRight, BitVec.toNat_add]
  simp only [Nat.shiftRight_eq_div_pow]
  omega

theorem setGe_all (ctx : Cpu) (f : Fin 4 → Bool) :
    (((ctx.setGe 0 (f 0)).setGe 1 (f 1)).setGe 2 (f 2)).setGe 3 (f 3) = { ctx with ge := f } := by
  have hge : Function.update (Function.update (Function.update (Function.update ctx.ge 0 (f 0))
      1 (f 1)) 2 (f 2)) 3 (f 3) = f := by
    funext k
    fin_cases k <;> simp [Function.update]
  simp only [Cpu.setGe, hge]

theorem setGe_setGe (ctx : Cpu) (k : Fin 4) (c d : Bool) :
    (ctx.setGe k c).setGe k d = ctx.setGe k d := by
  simp [Cpu.setGe]

theorem parallel_eq {line : Nat} {body : Cpu → BitVec 32 → BitVec 32 → Cpu}
    (hcond : evalCond ctx.toState instr.cond = .ok true) (hrn : instr.idxRn ≠ 15)
    (hrm : instr.idxRm ≠ 15) (hrd : instr.idxRd ≠ 15) : parallel line body ctx instr =
      done (body ctx (ctx.reg instr.idxRn) (ctx.reg instr.idxRm)) := by
  rw [parallel, conditional_true hcond, if_neg (by tauto), State.fetchReg, if_neg hrn,
    State.fetchReg, if_neg hrm]

/-- The result of the code in one byte. -/
def ParallelOp.codeByte (op : ParallelOp) (k : Fin 4) (a b : BitVec 8) : BitVec 8 :=
  match op with
  | uadd8 => if k = 0 then a + b else 0
  | uqadd8 => a + b
  | uhadd8 => .ofNat 8 (if k = 0 then (a.toNat + b.toNat) / 2
    else if k = 1 then 128 * ((a.toNat + b.toNat) % 2) else 0)
  | ssub8 | usub8 => if k = 0 then a - b else 0
  | qsub8 => if b.toNat ≤ a.toNat + 128 then a - b else 0
  | uqsub8 => if b.toNat ≤ a.toNat then a - b else 0

/-- The GE flags of the code. -/
def ParallelOp.codeGe (op : ParallelOp) (a b : Fin 4 → BitVec 8) (ge : Fin 4 → Bool) :
    Fin 4 → Bool :=
  match op with
  | uadd8 => fun k => decide (256 ≤ (a k).toNat + (b k).toNat)
  | ssub8 => Function.update ge 0 (notLess8 true (a 3) (b 3))
  | usub8 => Function.update ge 0 (notLess8 false (a 3) (b 3))
  | _ => ge

theorem ParallelOp.handler_eq (op : ParallelOp)
    (hcond : evalCond ctx.toState instr.cond = .ok true) (hrn : instr.idxRn ≠ 15)
    (hrm : instr.idxRm ≠ 15) (hrd : instr.idxRd ≠ 15) : op.handler ctx instr =
      done { ctx.put instr.idxRd (ofBytes fun k => op.codeByte k (byte (ctx.reg instr.idxRn) k)
          (byte (ctx.reg instr.idxRm) k)) with
        ge := op.codeGe (byte (ctx.reg instr.idxRn)) (byte (ctx.reg instr.idxRm)) ctx.ge } := by
  have h0 : ∀ v : BitVec 32, v.setWidth 8 = byte v 0 := fun v => (byte_eq_setWidth v 0).symm
  have h1 : ∀ v : BitVec 32, (v >>> 8).setWidth 8 = byte v 1 := fun v => (byte_eq_setWidth v 1).symm
  have h2 : ∀ v : BitVec 32, (v >>> 16).setWidth 8 = byte v 2 :=
    fun v => (byte_eq_setWidth v 2).symm
  have h3 : ∀ v : BitVec 32, (v >>> 24).setWidth 8 = byte v 3 := fun v =>
    (byte_eq_setWidth v 3).symm
  cases op with
  | uadd8 =>
    rw [handler, handlerUadd8, parallel_eq hcond hrn hrm hrd, uadd8Result_eq]
    simp only [h1, h2, h3, h0, getCarry8_eq]
    exact congrArg done (setGe_all _
      (uadd8.codeGe (byte (ctx.reg instr.idxRn)) (byte (ctx.reg instr.idxRm)) ctx.ge))
  | uqadd8 =>
    rw [handler, handlerUqadd8, parallel_eq hcond hrn hrm hrd, uqadd8Result_eq]
    rfl
  | uhadd8 =>
    rw [handler, handlerUhadd8, parallel_eq hcond hrn hrm hrd, uhadd8Result_eq]
    rfl
  | ssub8 =>
    rw [handler, handlerXsub8, parallel_eq hcond hrn hrm hrd, xsub8Result_eq]
    simp only [setGe_setGe, h3]
    rfl
  | usub8 =>
    rw [handler, handlerXsub8, parallel_eq hcond hrn hrm hrd, xsub8Result_eq]
    simp only [setGe_setGe, h3]
    rfl
  | qsub8 =>
    rw [handler, handlerQsub8, parallel_eq hcond hrn hrm hrd, qsub8Result_eq]
    rfl
  | uqsub8 =>
    rw [handler, handlerUqsub8, parallel_eq hcond hrn hrm hrd, uqsub8Result_eq]
    rfl

theorem executed_inj {i : BitVec 4} {f f' : Fin 4 → BitVec 8} {g g' : Fin 4 → Bool} :
    { ctx.put i (ofBytes f) with ge := g } = { ctx.put i (ofBytes f') with ge := g' } ↔
      (∀ k, f k = f' k) ∧ ∀ k, g k = g' k := by
  constructor
  · intro h
    have hreg := congrArg (fun c : Cpu => c.reg i) h
    simp only [Cpu.put_reg_self] at hreg
    exact ⟨ofBytes_inj.1 hreg, fun k => congrFun (congrArg Cpu.ge h) k⟩
  · rintro ⟨hf, hg⟩
    rw [funext hf, funext hg]

end

/-! ## One byte -/

section

variable (a b : BitVec 8)

theorem toInt_byte : a.toInt = if a.toNat < 128 then (a.toNat : Int) else a.toNat - 256 := by
  have ha := a.isLt
  rw [BitVec.toInt_eq_toNat_cond]
  split <;> split <;> omega

theorem reference_uadd8 : ParallelOp.uadd8.reference a b = a + b := by
  simp [ParallelOp.reference, BitVec.ofNat_add]

theorem reference_ssub8 : ParallelOp.ssub8.reference a b = a - b := by
  apply BitVec.eq_of_toInt_eq
  rw [ParallelOp.reference, BitVec.toInt_ofInt, BitVec.toInt_sub]

theorem reference_usub8 : ParallelOp.usub8.reference a b = a - b := by
  have ha := a.isLt
  have hb := b.isLt
  apply BitVec.eq_of_toNat_eq
  rw [ParallelOp.reference, BitVec.toNat_ofInt, BitVec.toNat_sub]
  omega

theorem uqadd8_byte : a + b = ParallelOp.uqadd8.reference a b ↔ a.toNat + b.toNat < 256 := by
  have ha := a.isLt
  have hb := b.isLt
  rw [← BitVec.toNat_inj, ParallelOp.reference, BitVec.toNat_ofNat, BitVec.toNat_add]
  omega

theorem uhadd8_byte (s : Nat) :
    BitVec.ofNat 8 s = ParallelOp.uhadd8.reference a b ↔ s % 256 = (a.toNat + b.toNat) / 2 := by
  have ha := a.isLt
  have hb := b.isLt
  rw [← BitVec.toNat_inj, ParallelOp.reference, BitVec.toNat_ofNat, BitVec.toNat_ofNat]
  omega

theorem uhadd8_second (s : Nat) :
    128 * (s % 2) % 256 = s / 2 ↔ s = 0 ∨ s = 257 := by
  rcases Nat.mod_two_eq_zero_or_one s with h2 | h2 <;> rw [h2] <;> omega

theorem qsub8_byte_iff : (if b.toNat ≤ a.toNat + 128 then a - b else 0) =
      ParallelOp.qsub8.reference a b ↔
    b.toNat ≤ a.toNat + 128 ∧ -128 ≤ a.toInt - b.toInt ∧ a.toInt - b.toInt ≤ 127 := by
  have ha := a.isLt
  have hb := b.isLt
  have hbit : (if b.toNat ≤ a.toNat + 128 then a - b else 0).toNat =
      if b.toNat ≤ a.toNat + 128 then (256 - b.toNat + a.toNat) % 256 else 0 := by
    split
    next => exact BitVec.toNat_sub ..
    next => rfl
  rw [← BitVec.toNat_inj, hbit, ParallelOp.reference, BitVec.toNat_ofInt, toInt_byte, toInt_byte]
  split <;> omega

theorem uqsub8_byte_eq : (if b.toNat ≤ a.toNat then a - b else 0) =
    ParallelOp.uqsub8.reference a b := by
  have ha := a.isLt
  have hb := b.isLt
  have hbit : (if b.toNat ≤ a.toNat then a - b else 0).toNat =
      if b.toNat ≤ a.toNat then (256 - b.toNat + a.toNat) % 256 else 0 := by
    split
    next => exact BitVec.toNat_sub ..
    next => rfl
  rw [← BitVec.toNat_inj, hbit, ParallelOp.reference, BitVec.toNat_ofInt]
  split <;> omega

theorem notLess8_signed : notLess8 true a b = decide (0 ≤ a.toInt - b.toInt) := by
  simp [notLess8, BitVec.sle]

theorem notLess8_unsigned : notLess8 false a b = decide (0 ≤ (a.toNat : Int) - b.toNat) := by
  simp [notLess8, BitVec.ule]

end

/-! ## All bytes -/

/-- The upper bytes are 0, and the flag of the top byte stands in place of the first. -/
theorem sub_inPlace {a b : Fin 4 → BitVec 8} {ge : Fin 4 → Bool} {f : BitVec 8 → BitVec 8 → Bool}
    (hrefl : ∀ x, f x x = true) :
    ((∀ k, (if k = 0 then a k - b k else 0) = a k - b k) ∧
      ∀ k, Function.update ge 0 (f (b 3) (a 3)) k = f (b k) (a k)) ↔
    (∀ k, k ≠ 0 → a k = b k ∧ ge k = true) ∧ f (b 0) (a 0) = true := by
  constructor
  · rintro ⟨hbyte, hge⟩
    have heq : ∀ k, k ≠ 0 → a k = b k := by
      intro k hk
      have h := hbyte k
      rw [if_neg hk] at h
      exact sub_eq_zero.1 h.symm
    refine ⟨fun k hk => ⟨heq k hk, ?_⟩, ?_⟩
    · have h := hge k
      rw [Function.update_of_ne hk, heq k hk, hrefl] at h
      exact h
    · have h := hge 0
      rw [Function.update_self, heq 3 (by decide), hrefl] at h
      exact h.symm
  · rintro ⟨hk, h0⟩
    refine ⟨fun k => ?_, fun k => ?_⟩
    · by_cases h : k = 0
      · rw [if_pos h]
      · rw [if_neg h, (hk k h).1, sub_self]
    · by_cases h : k = 0
      · rw [h, Function.update_self, h0, (hk 3 (by decide)).1, hrefl]
      · rw [Function.update_of_ne h, (hk k h).1, (hk k h).2, hrefl]

theorem ParallelOp.inPlace_iff (op : ParallelOp) (a b : Fin 4 → BitVec 8) (ge : Fin 4 → Bool) :
    ((∀ k, op.codeByte k (a k) (b k) = op.reference (a k) (b k)) ∧
      ∀ k, op.codeGe a b ge k = op.referenceGe (a k) (b k) (ge k)) ↔ op.InPlace a b ge := by
  cases op with
  | uadd8 =>
    simp only [codeByte, reference_uadd8, codeGe, referenceGe, implies_true, and_true, InPlace]
    refine forall_congr' fun k => ?_
    by_cases h : k = 0
    · simp [h]
    · simp [h, eq_comm]
  | uqadd8 =>
    simp only [codeByte, uqadd8_byte, codeGe, referenceGe, implies_true, and_true, InPlace]
  | uhadd8 =>
    have ha := (a 0).isLt
    have hb := (b 0).isLt
    have h1 := uhadd8_second ((a 1).toNat + (b 1).toNat)
    simp only [codeByte, uhadd8_byte, codeGe, referenceGe, implies_true, and_true, InPlace,
      Fin.forall_fin_succ]
    simp [h1]
    omega
  | ssub8 =>
    simp only [codeByte, reference_ssub8, codeGe, referenceGe, ← notLess8_signed]
    rw [sub_inPlace (f := fun x y => notLess8 true y x) (by simp [notLess8, BitVec.sle])]
    simp [InPlace, notLess8, BitVec.sle]
  | usub8 =>
    simp only [codeByte, reference_usub8, codeGe, referenceGe, ← notLess8_unsigned]
    rw [sub_inPlace (f := fun x y => notLess8 false y x) (by simp [notLess8, BitVec.ule])]
    simp [InPlace, notLess8, BitVec.ule]
  | qsub8 =>
    simp only [codeByte, qsub8_byte_iff, codeGe, referenceGe, implies_true, and_true, InPlace]
  | uqsub8 =>
    simp only [codeByte, uqsub8_byte_eq, codeGe, referenceGe, implies_true, and_true, InPlace]

theorem handlerSel_eq {ctx : Cpu} {instr : ARMInstr}
    (hcond : evalCond ctx.toState instr.cond = .ok true) (hrn : instr.idxRn ≠ 15)
    (hrm : instr.idxRm ≠ 15) (hrd : instr.idxRd ≠ 15) :
    handlerSel ctx instr = done (selected ctx instr) := by
  rw [handlerSel, parallel_eq hcond hrn hrm hrd, selResult_eq]
  rfl

/-- What is promised of an instruction: each byte and its flag, and behind it `SEL` by the flags. -/
def ParallelOp.Exact (op : ParallelOp) (ctx : Cpu) (instr : ARMInstr) : Prop :=
  op.handler ctx instr = done (op.execute ctx instr) ∧
  ∀ sel : ARMInstr, evalCond (op.execute ctx instr).toState sel.cond = .ok true →
    sel.idxRn ≠ 15 → sel.idxRm ≠ 15 → sel.idxRd ≠ 15 →
      handlerSel (op.execute ctx instr) sel = done (selected (op.execute ctx instr) sel)

/-- **Parallel arithmetic**: the result and the flags are those of the bytes exactly where the sums
that are cast in place happen to be 0 (or nothing saturates). `UQSUB8` and `SEL` are right. -/
theorem parallelBytes_exact (op : ParallelOp) {ctx : Cpu} {instr : ARMInstr}
    (hcond : evalCond ctx.toState instr.cond = .ok true) (hrn : instr.idxRn ≠ 15)
    (hrm : instr.idxRm ≠ 15) (hrd : instr.idxRd ≠ 15) : op.Exact ctx instr ↔
      op.InPlace (byte (ctx.reg instr.idxRn)) (byte (ctx.reg instr.idxRm)) ctx.ge := by
  rw [ParallelOp.Exact, op.handler_eq hcond hrn hrm hrd, done_inj, ParallelOp.execute, executed_inj,
    op.inPlace_iff]
  exact and_iff_left fun _ => handlerSel_eq

/-- `UADD8 R0, R1, R2` of 5 and 7 -/
theorem parallelBytes_exact_uadd8 : ParallelOp.uadd8.Exact (.withOperands 5 7) ⟨0xE6510F92⟩ :=
  (parallelBytes_exact .uadd8 (by decide) (by decide) (by decide) (by decide)).2 (by decide)

/-- `UADD8 R0, R1, R2` of 0x100 and 0x200 -/
theorem uadd8_drops_upper_bytes :
    ¬ ParallelOp.uadd8.Exact (.withOperands 0x100 0x200) ⟨0xE6510F92⟩ := by
  rw [ParallelOp.Exact,
    ParallelOp.handler_eq .uadd8 (by decide) (by decide) (by decide) (by decide),
    done_inj]
  rintro ⟨h, -⟩
  exact absurd (congrArg (fun c : Cpu => c.reg 0) h) (by decide)

end Mikage.Arm
