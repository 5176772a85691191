import Mikage.Arm.Media

/-!
# Multiplies

`MUL`, `MLA`, and the multiplies with a result of 64 bits, against products and sums of integers.
The high word of such a result is in Rn and the low word in Rd; `MUL` and `MLA` write Rn.

`long_exact` is what a long multiply leaves, for every register and flag.
-/

namespace Mikage.Arm

/-! ## The handlers -/

/-- The common text of `MUL` and `MLA`. -/
def handlerMultiply (result : State → ARMInstr → BitVec 32) (ctx : State) (instr : ARMInstr) :
    Handled :=
  conditional ctx instr ctx <|
    if instr.idxRd = 15 then handlerStubWithMessage ctx instr unpredictablePC
    else
      let ctx := ctx.set instr.idxRn (result ctx instr)
      let ctx :=
        if instr.addr1S then
          updateCpsrZ (updateCpsrN ctx (ctx.reg instr.idxRn)) (ctx.reg instr.idxRn)
        else ctx
      .ok (ctx, nextInstr ctx)

def handlerMul :=
  handlerMultiply fun ctx instr => ctx.fetchReg instr.idxRm * ctx.fetchReg instr.idxRs

def handlerMla :=
  handlerMultiply fun ctx instr =>
    ctx.fetchReg instr.idxRm * ctx.fetchReg instr.idxRs + ctx.fetchReg instr.idxRd

/-- The two writes of a result of 64 bits. -/
def setLong (ctx : State) (instr : ARMInstr) (result : BitVec 64) : State :=
  (ctx.set instr.idxRd (result.setWidth 32)).set instr.idxRn ((result >>> 32).setWidth 32)

def longFlags (ctx : State) (instr : ARMInstr) : State :=
  updateCpsrZ (updateCpsrN ctx (ctx.reg instr.idxRn)) (ctx.reg instr.idxRd ||| ctx.reg instr.idxRn)

/-- The common text of the long multiplies with flags. -/
def handlerLong (product : BitVec 32 → BitVec 32 → BitVec 64) (accumulates : Bool)
    (linePC lineEqual : Nat) (ctx : State) (instr : ARMInstr) : Handled :=
  conditional ctx instr ctx <|
    if instr.idxRd = 15 ∨ instr.idxRn = 15 then stubAnnotated ctx instr linePC
    else if instr.idxRd = instr.idxRn then stubAnnotated ctx instr lineEqual
    else
      let result := product (ctx.fetchReg instr.idxRs) (ctx.fetchReg instr.idxRm)
      let result :=
        if accumulates then
          result + (ctx.reg instr.idxRd).setWidth 64 + (ctx.reg instr.idxRn).setWidth 64 <<< 32
        else result
      let ctx := setLong ctx instr result
      let ctx := if instr.addr1S then longFlags ctx instr else ctx
      .ok (ctx, nextInstr ctx)

def unsignedProduct (rs rm : BitVec 32) : BitVec 64 := rs.setWidth 64 * rm.setWidth 64

/-- The product of two `int32_t` as `int64_t`, which cannot overflow. -/
def signedProduct (rs rm : BitVec 32) : BitVec 64 := rs.signExtend 64 * rm.signExtend 64

def handlerSmull := handlerLong signedProduct false 1072 1076
def handlerUmull := handlerLong unsignedProduct false 1099 1103
def handlerSmlal := handlerLong signedProduct true 1155 1159
def handlerUmlal := handlerLong unsignedProduct true 1183 1187

def handlerUmaal (ctx : State) (instr : ARMInstr) : Handled :=
  conditional ctx instr ctx <|
    if instr.idxRm = 15 ∨ instr.idxRs = 15 ∨ instr.idxRd = 15 ∨ instr.idxRn = 15 then
      stubAnnotated ctx instr 1049
    else if instr.idxRd = instr.idxRn then stubAnnotated ctx instr 1053
    else
      let result := unsignedProduct (ctx.fetchReg instr.idxRs) (ctx.fetchReg instr.idxRm)
      let result := result + (ctx.reg instr.idxRd).setWidth 64
      let result := result + (ctx.reg instr.idxRn).setWidth 64
      let ctx := setLong ctx instr result
      .ok (ctx, nextInstr ctx)

/-! ## The reference -/

inductive LongOp where
  | umull | smull | umlal | smlal | umaal
  deriving DecidableEq, Repr

namespace LongOp

def handler : LongOp → State → ARMInstr → Handled
  | umull => handlerUmull
  | smull => handlerSmull
  | umlal => handlerUmlal
  | smlal => handlerSmlal
  | umaal => handlerUmaal

/-- The handlers refuse PC as a destination, `UMAAL` also as a factor, and one destination. -/
def refuses (op : LongOp) (instr : ARMInstr) : Bool :=
  instr.idxRd = 15 || instr.idxRn = 15 || instr.idxRd = instr.idxRn ||
    (op = umaal && (instr.idxRm = 15 || instr.idxRs = 15))

/-- The result as an integer, from the factors and the words in Rd and Rn. -/
def exact (op : LongOp) (rs rm low high : BitVec 32) : Int :=
  match op with
  | umull => rs.toNat * rm.toNat
  | smull => rs.toInt * rm.toInt
  | umlal => rs.toNat * rm.toNat + (low.toNat + 2 ^ 32 * high.toNat)
  | smlal => rs.toInt * rm.toInt + (low.toNat + 2 ^ 32 * high.toNat)
  | umaal => rs.toNat * rm.toNat + low.toNat + high.toNat

end LongOp

/-- The exact result of an instruction in a state. -/
def LongOp.result (op : LongOp) (ctx : State) (instr : ARMInstr) : Int :=
  op.exact (ctx.fetchReg instr.idxRs) (ctx.fetchReg instr.idxRm) (ctx.reg instr.idxRd)
    (ctx.reg instr.idxRn)

/-- What an executed instruction leaves: the exact result modulo `2 ^ 64`, which is the exact result
itself where the instruction does not accumulate and for `UMAAL`, its sign and whether it is 0, and
every other register and flag as it was. -/
structure LongOp.Executed (op : LongOp) (ctx : State) (instr : ARMInstr) (ctx' : State)
    (next : BitVec 32) : Prop where
  pair : ctx'.reg instr.idxRn ++ ctx'.reg instr.idxRd = BitVec.ofInt 64 (op.result ctx instr)
  unsigned : op = .umull ∨ op = .umaal →
    ((ctx'.reg instr.idxRn ++ ctx'.reg instr.idxRd).toNat : Int) = op.result ctx instr
  signed : op = .smull →
    (ctx'.reg instr.idxRn ++ ctx'.reg instr.idxRd).toInt = op.result ctx instr
  others : ∀ i, i ≠ instr.idxRd → i ≠ instr.idxRn → ctx'.reg i = ctx.reg i
  flags : ctx'.cpsr =
    if op ≠ .umaal ∧ instr.addr1S then
      { ctx.cpsr with
        neg := (BitVec.ofInt 64 (op.result ctx instr)).msb
        zero := BitVec.ofInt 64 (op.result ctx instr) = 0 }
    else ctx.cpsr
  next : next = ctx.pc + 4

/-! ## The results -/

section

variable {ctx : State} {instr : ARMInstr} {v : BitVec 64} {rs rm : BitVec 32}

theorem append_words (v : BitVec 64) : (v >>> 32).setWidth 32 ++ v.setWidth 32 = v := by
  apply BitVec.eq_of_toNat_eq
  rw [BitVec.toNat_append, BitVec.toNat_setWidth, BitVec.toNat_setWidth, BitVec.toNat_ushiftRight,
    ← Nat.shiftLeft_add_eq_or_of_lt (Nat.mod_lt _ (by decide)), Nat.shiftLeft_eq,
    Nat.shiftRight_eq_div_pow]
  have := v.isLt
  omega

theorem setWidth_eq_ofInt (x : BitVec 32) : x.setWidth 64 = BitVec.ofInt 64 x.toNat := by
  rw [BitVec.ofInt_natCast, BitVec.ofNat_toNat]

theorem ofInt_unsignedProduct (rs rm : BitVec 32) :
    unsignedProduct rs rm = BitVec.ofInt 64 (rs.toNat * rm.toNat) := by
  rw [BitVec.ofInt_mul, ← setWidth_eq_ofInt, ← setWidth_eq_ofInt, unsignedProduct]

theorem ofInt_signedProduct (rs rm : BitVec 32) :
    signedProduct rs rm = BitVec.ofInt 64 (rs.toInt * rm.toInt) := by
  rw [BitVec.ofInt_mul]
  rfl

theorem shiftLeft_eq_ofInt (x : BitVec 32) :
    x.setWidth 64 <<< 32 = BitVec.ofInt 64 (2 ^ 32 * x.toNat) := by
  rw [BitVec.ofInt_mul, ← setWidth_eq_ofInt]
  apply BitVec.eq_of_toNat_eq
  rw [BitVec.toNat_shiftLeft, BitVec.toNat_mul, Nat.shiftLeft_eq, Nat.mul_comm]
  rfl

/-- The products cannot reach the end of the words. -/
theorem product_lt (rs rm : BitVec 32) :
    (rs.toNat : Int) * rm.toNat ≤ (2 ^ 32 - 1) * (2 ^ 32 - 1) := by
  have hs : (rs.toNat : Int) ≤ 2 ^ 32 - 1 := by
    have := rs.isLt
    omega
  have hm : (rm.toNat : Int) ≤ 2 ^ 32 - 1 := by
    have := rm.isLt
    omega
  exact Int.mul_le_mul hs hm (Int.natCast_nonneg _) (by decide)

theorem abs_signed_product_le (rs rm : BitVec 32) : |rs.toInt * rm.toInt| ≤ 2 ^ 62 := by
  have habs (x : BitVec 32) : |x.toInt| ≤ 2 ^ 31 := by
    have h1 := BitVec.le_toInt x
    have h2 := BitVec.toInt_lt (x := x)
    rw [abs_le]
    omega
  rw [abs_mul]
  exact Int.mul_le_mul (habs rs) (habs rm) (abs_nonneg _) (by decide)

theorem toNat_ofInt_of_lt {x : Int} (h0 : 0 ≤ x) (h : x < 2 ^ 64) :
    ((BitVec.ofInt 64 x).toNat : Int) = x := by
  rw [BitVec.toNat_ofInt]
  omega

/-- A result that fits is exact. -/
theorem LongOp.result_bounds (op : LongOp) (ctx : State) (instr : ARMInstr) :
    (op = .umull ∨ op = .umaal → 0 ≤ op.result ctx instr ∧ op.result ctx instr < 2 ^ 64) ∧
      (op = .smull → -2 ^ 63 ≤ op.result ctx instr ∧ op.result ctx instr < 2 ^ 63) := by
  have hp := product_lt (ctx.fetchReg instr.idxRs) (ctx.fetchReg instr.idxRm)
  have hs := abs_signed_product_le (ctx.fetchReg instr.idxRs) (ctx.fetchReg instr.idxRm)
  have hl := (ctx.reg instr.idxRd).isLt
  have hh := (ctx.reg instr.idxRn).isLt
  have h0 : 0 ≤ ((ctx.fetchReg instr.idxRs).toNat : Int) * (ctx.fetchReg instr.idxRm).toNat :=
    by positivity
  rw [abs_le] at hs
  cases op with
  | umull =>
    refine ⟨fun _ => ?_, nofun⟩
    simp only [LongOp.result, LongOp.exact]
    omega
  | smull =>
    refine ⟨by simp, fun _ => ?_⟩
    simp only [LongOp.result, LongOp.exact]
    omega
  | umlal => exact ⟨by simp, nofun⟩
  | smlal => exact ⟨by simp, nofun⟩
  | umaal =>
    refine ⟨fun _ => ?_, nofun⟩
    simp only [LongOp.result, LongOp.exact]
    omega

variable {op : LongOp}

theorem setLong_pair (hne : instr.idxRd ≠ instr.idxRn) :
    (setLong ctx instr v).reg instr.idxRn ++ (setLong ctx instr v).reg instr.idxRd = v := by
  rw [setLong, State.set_reg_self, State.set_reg_of_ne _ hne, State.set_reg_self, append_words]

theorem setLong_others {i : BitVec 4} (hd : i ≠ instr.idxRd) (hn : i ≠ instr.idxRn) :
    (setLong ctx instr v).reg i = ctx.reg i := by
  rw [setLong, State.set_reg_of_ne _ hn, State.set_reg_of_ne _ hd]

/-- The flags of the two words are those of the pair. -/
theorem long_negative (high low : BitVec 32) : truthy (high >>> 31) = (high ++ low).msb := by
  rw [truthy_shiftRight_31, BitVec.msb_append]
  rfl

theorem long_zero (high low : BitVec 32) :
    low ||| high = 0 ↔ (high ++ low : BitVec 64) = 0 := by
  have hor : low ||| high = 0 ↔ low.toNat = 0 ∧ high.toNat = 0 := by
    rw [← BitVec.toNat_inj, BitVec.toNat_or]
    exact Nat.or_eq_zero_iff
  have happend : (high ++ low : BitVec 64) = 0 ↔ high.toNat * 2 ^ 32 + low.toNat = 0 := by
    rw [← BitVec.toNat_inj, BitVec.toNat_append, ← Nat.shiftLeft_add_eq_or_of_lt low.isLt,
      Nat.shiftLeft_eq]
    rfl
  rw [hor, happend]
  omega

/-- The word of 64 bits that a handler computes is the exact result modulo `2 ^ 64`. -/
theorem LongOp.ofInt_result (op : LongOp) (ctx : State) (instr : ARMInstr) :
    BitVec.ofInt 64 (op.result ctx instr) =
      match op with
      | .umull => unsignedProduct (ctx.fetchReg instr.idxRs) (ctx.fetchReg instr.idxRm)
      | .smull => signedProduct (ctx.fetchReg instr.idxRs) (ctx.fetchReg instr.idxRm)
      | .umlal =>
        unsignedProduct (ctx.fetchReg instr.idxRs) (ctx.fetchReg instr.idxRm) +
          (ctx.reg instr.idxRd).setWidth 64 + (ctx.reg instr.idxRn).setWidth 64 <<< 32
      | .smlal =>
        signedProduct (ctx.fetchReg instr.idxRs) (ctx.fetchReg instr.idxRm) +
          (ctx.reg instr.idxRd).setWidth 64 + (ctx.reg instr.idxRn).setWidth 64 <<< 32
      | .umaal =>
        unsignedProduct (ctx.fetchReg instr.idxRs) (ctx.fetchReg instr.idxRm) +
          (ctx.reg instr.idxRd).setWidth 64 + (ctx.reg instr.idxRn).setWidth 64 := by
  cases op with
  | umull => exact (ofInt_unsignedProduct _ _).symm
  | smull => exact (ofInt_signedProduct _ _).symm
  | umlal =>
    simp only [result, exact, BitVec.ofInt_add, ← ofInt_unsignedProduct, ← setWidth_eq_ofInt,
      ← shiftLeft_eq_ofInt, BitVec.add_assoc]
  | smlal =>
    simp only [result, exact, BitVec.ofInt_add, ← ofInt_signedProduct, ← setWidth_eq_ofInt,
      ← shiftLeft_eq_ofInt, BitVec.add_assoc]
  | umaal =>
    simp only [result, exact, BitVec.ofInt_add, ← ofInt_unsignedProduct, ← setWidth_eq_ofInt]

theorem handlerLong_eq {product : BitVec 32 → BitVec 32 → BitVec 64} {acc : Bool} {m n : Nat}
    (h : evalCond ctx instr.cond = .ok true) (hpc : ¬(instr.idxRd = 15 ∨ instr.idxRn = 15))
    (hne : instr.idxRd ≠ instr.idxRn) :
    handlerLong product acc m n ctx instr =
      let result := product (ctx.fetchReg instr.idxRs) (ctx.fetchReg instr.idxRm)
      let ctx' := setLong ctx instr <| if acc then
        result + (ctx.reg instr.idxRd).setWidth 64 + (ctx.reg instr.idxRn).setWidth 64 <<< 32
        else result
      let ctx' := if instr.addr1S then longFlags ctx' instr else ctx'
      .ok (ctx', nextInstr ctx') := by
  rw [handlerLong, conditional_true h, if_neg hpc, if_neg hne]

/-- The state that an executed long multiply leaves. -/
theorem LongOp.handler_eq (h : evalCond ctx instr.cond = .ok true)
    (hr : op.refuses instr = false) :
    op.handler ctx instr =
      let ctx' := setLong ctx instr (BitVec.ofInt 64 (op.result ctx instr))
      let ctx' := if op ≠ .umaal ∧ instr.addr1S then longFlags ctx' instr else ctx'
      .ok (ctx', nextInstr ctx') := by
  simp only [LongOp.refuses, Bool.or_eq_false_iff, decide_eq_false_iff_not] at hr
  obtain ⟨⟨⟨hd, hn⟩, hne⟩, hm⟩ := hr
  have hpc : ¬(instr.idxRd = 15 ∨ instr.idxRn = 15) := not_or.2 ⟨hd, hn⟩
  rw [op.ofInt_result]
  cases op with
  | umull => simp [LongOp.handler, handlerUmull, handlerLong_eq h hpc hne]
  | smull => simp [LongOp.handler, handlerSmull, handlerLong_eq h hpc hne]
  | umlal => simp [LongOp.handler, handlerUmlal, handlerLong_eq h hpc hne]
  | smlal => simp [LongOp.handler, handlerSmlal, handlerLong_eq h hpc hne]
  | umaal =>
    have hm : ¬instr.idxRm = 15 ∧ ¬instr.idxRs = 15 := by simpa using hm
    have hany : ¬(instr.idxRm = 15 ∨ instr.idxRs = 15 ∨ instr.idxRd = 15 ∨ instr.idxRn = 15) :=
      fun hor => hor.elim hm.1 fun hor => hor.elim hm.2 hpc
    simp only [LongOp.handler, handlerUmaal, conditional_true h, if_neg hany, if_neg hne]
    rfl

theorem longFlags_cpsr (hne : instr.idxRd ≠ instr.idxRn) :
    (longFlags (setLong ctx instr v) instr).cpsr =
      { ctx.cpsr with neg := v.msb, zero := v = 0 } := by
  have hpair : (setLong ctx instr v).reg instr.idxRn ++ (setLong ctx instr v).reg instr.idxRd = v :=
    setLong_pair hne
  have hneg := long_negative ((setLong ctx instr v).reg instr.idxRn)
    ((setLong ctx instr v).reg instr.idxRd)
  have hzero := long_zero ((setLong ctx instr v).reg instr.idxRn)
    ((setLong ctx instr v).reg instr.idxRd)
  rw [hpair] at hneg hzero
  simp only [longFlags, updateCpsrZ, updateCpsrN, State.setPsr_cpsr, hneg, hzero]
  rfl

/-- A long multiply that is executed and not refused. -/
theorem long_exact (h : evalCond ctx instr.cond = .ok true) (hr : op.refuses instr = false) :
    ∃ ctx' next, op.handler ctx instr = .ok (ctx', next) ∧ op.Executed ctx instr ctx' next := by
  have hr' := hr
  simp only [LongOp.refuses, Bool.or_eq_false_iff, decide_eq_false_iff_not] at hr'
  obtain ⟨⟨⟨hd, hn⟩, hne⟩, -⟩ := hr'
  set ctx₁ := setLong ctx instr (BitVec.ofInt 64 (op.result ctx instr)) with hctx₁
  set ctx' := if op ≠ .umaal ∧ instr.addr1S then longFlags ctx₁ instr else ctx₁ with hctx'
  have hreg : ctx'.reg = ctx₁.reg := by
    rw [hctx']
    split <;> rfl
  have hpair :
      ctx'.reg instr.idxRn ++ ctx'.reg instr.idxRd = BitVec.ofInt 64 (op.result ctx instr) := by
    rw [hreg]
    exact setLong_pair hne
  obtain ⟨hu, hs⟩ := op.result_bounds ctx instr
  refine ⟨ctx', nextInstr ctx', LongOp.handler_eq h hr, hpair, ?_, ?_, ?_, ?_, ?_⟩
  · intro hop
    rw [hpair]
    exact toNat_ofInt_of_lt (hu hop).1 (hu hop).2
  · intro hop
    rw [hpair, BitVec.toInt_ofInt]
    exact Int.bmod_eq_of_le (hs hop).1 (hs hop).2
  · intro i hid hin
    rw [hreg]
    exact setLong_others hid hin
  · rw [hctx']
    split
    · exact longFlags_cpsr hne
    · rfl
  · rw [nextInstr, State.pc, hreg]
    exact congrArg (· + 4) (setLong_others (Ne.symm hd) (Ne.symm hn))

/-- `MUL` computes the low word of both long products. -/
theorem low_word (rs rm : BitVec 32) :
    (unsignedProduct rs rm).setWidth 32 = rm * rs ∧
      (signedProduct rs rm).setWidth 32 = rm * rs := by
  have hlow (x : BitVec 32) :
      (x.setWidth 64).setWidth 32 = x ∧ (x.signExtend 64).setWidth 32 = x := by
    constructor
    · exact (BitVec.setWidth_setWidth_of_le _ (by decide)).trans (BitVec.setWidth_eq x)
    · ext i hi
      rw [BitVec.getElem_setWidth, BitVec.getLsbD_signExtend]
      simp [hi, Nat.lt_trans hi (show 32 < 64 by decide)]
  rw [unsignedProduct, signedProduct, BitVec.setWidth_mul _ _ (by decide),
    BitVec.setWidth_mul _ _ (by decide), (hlow rs).1, (hlow rm).1, (hlow rs).2, (hlow rm).2]
  exact ⟨BitVec.mul_comm _ _, BitVec.mul_comm _ _⟩

/-- `MUL` leaves in its destination what the long multiplies of the same factors leave in Rd. -/
theorem handlerMul_low {long : ARMInstr} (h : evalCond ctx instr.cond = .ok true)
    (hd : instr.idxRd ≠ 15) (hn : instr.idxRn ≠ 15) (hm : instr.idxRm = long.idxRm)
    (hs : instr.idxRs = long.idxRs) : ∃ ctx' next, handlerMul ctx instr = .ok (ctx', next) ∧
      ctx'.reg instr.idxRn = (BitVec.ofInt 64 (LongOp.umull.result ctx long)).setWidth 32 ∧
      ctx'.reg instr.idxRn = (BitVec.ofInt 64 (LongOp.smull.result ctx long)).setWidth 32 ∧
      next = ctx.pc + 4 := by
  have hreg : ((ctx.set instr.idxRn (ctx.fetchReg instr.idxRm * ctx.fetchReg instr.idxRs)).reg
      instr.idxRn) = ctx.fetchReg long.idxRm * ctx.fetchReg long.idxRs := by
    rw [State.set_reg_self, hm, hs]
  rw [LongOp.ofInt_result, LongOp.ofInt_result]
  simp only [(low_word _ _).1, (low_word _ _).2]
  rw [handlerMul, handlerMultiply, conditional_true h, if_neg hd]
  refine ⟨_, _, rfl, ?_, ?_, ?_⟩
  · split
    · exact hreg
    · exact hreg
  · split
    · exact hreg
    · exact hreg
  · have hpc := congrArg (· + 4) (ctx.set_reg_of_ne (Ne.symm hn)
      (ctx.fetchReg instr.idxRm * ctx.fetchReg instr.idxRs))
    split
    · exact hpc
    · exact hpc

end

/-- `UMULLS R0, R1, R2, R3` of two largest words -/
theorem long_exact_umull : ∃ ctx' next,
    LongOp.umull.handler ((State.zero.set 2 0xFFFFFFFF).set 3 0xFFFFFFFF) ⟨0xE0910392⟩ =
        .ok (ctx', next) ∧
      LongOp.umull.Executed ((State.zero.set 2 0xFFFFFFFF).set 3 0xFFFFFFFF) ⟨0xE0910392⟩ ctx'
        next :=
  long_exact (by decide) (by decide)

end Mikage.Arm
