import Mathlib
import Mikage.Arm.Interpreter
import Mikage.Lib.Run

/-!
# Alignment of PC

PC is even in Thumb state and a multiple of four in ARM state. Code that follows the rules for
interworking (`Interworking`) is not enough for this: `SparesPC` names the instructions that break
it all the same.

- `Handler.run_kept`: the handlers that leave PC and the Thumb bit alone.
- `Handler.run_aligned`: every handler in ARM state.
- `decodeThumb_cases`: the ARM equivalents of Thumb instructions have no field through which they
  could write PC, two formats apart.
- `step_aligned`, `pc_aligned`: a step, and a run.
-/

namespace Mikage.Arm

open State

/-! ## The invariant -/

/-- `pc` is a possible address of the next instruction. -/
def State.AlignedAt (s : State) (pc : BitVec 32) : Prop :=
  if s.cpsr.thumb then 2 ∣ pc.toNat else 4 ∣ pc.toNat

def State.Aligned (s : State) : Prop := s.AlignedAt s.pc

instance (s : State) (pc : BitVec 32) : Decidable (s.AlignedAt pc) :=
  inferInstanceAs (Decidable (if s.cpsr.thumb then 2 ∣ pc.toNat else 4 ∣ pc.toNat))

instance (s : State) : Decidable s.Aligned := inferInstanceAs (Decidable (s.AlignedAt s.pc))

/-- An address that selects ARM state with its lowest bit is a multiple of four. -/
def interworks (target : BitVec 32) : Prop := target.getLsbD 0 = false → 4 ∣ target.toNat

section

variable {M : Type} (env : Environment M)

/-- What a branch in ARM state relies on. -/
def Handler.Interworking (h : Handler) (s : Machine M) (instr : ARMInstr) : Prop :=
  match h with
  | mov => instr.idxRd = 15 →
    ∀ o, getAddr1ShifterOperand s.cpu instr = .ok (some o) → 4 ∣ o.value.toNat
  | add => instr.idxRd = 15 →
    ∀ o, getAddr1ShifterOperand s.cpu instr = .ok (some o) →
      4 ∣ (s.cpu.fetchReg instr.idxRn + o.value).toNat
  | branchExchange _ => interworks (s.cpu.reg instr.idxRm)
  | ldmStm true => instr.raw.getLsbD 15 = true →
    ∀ t addr t' value,
      transfer env true (registersBelowPC instr) s (lowestAddr s instr) = .ok (t, addr) →
      loadPC env t instr addr = .ok (t', value) →
      t'.cpu.cpsr.thumb = false → value.getLsbD 1 = false
  | _ => True

/-- The targets of branches into ARM state are multiples of four. -/
def Interworking (s : Machine M) : Prop :=
  if s.cpu.cpsr.thumb then
    ∀ instr, env.fetchThumb s.cpu s.rest = .ok instr →
      (instr.opcodeUpper 8 = 0b01000111 → interworks (s.cpu.reg instr.idxRmFull)) ∧
      (instr.opcodeUpper 7 = 0b1011110 →
        Handler.Interworking env (.ldmStm true) s (popInstr instr))
  else
    ∀ instr, env.fetchArm s.cpu s.rest = .ok instr → evalCond s.cpu instr.cond = .ok true →
      (dispatch instr).Interworking env s instr

/-- A `Plain` handler does not count PC among its results, an `ADD` or `MOV` into PC in Thumb state
adds or moves an even value, and `BL` finds in LR what its first half left there. -/
def SparesPC (s : Machine M) : Prop :=
  if s.cpu.cpsr.thumb then
    ∀ instr, env.fetchThumb s.cpu s.rest = .ok instr →
      (addHiFormat.admits instr ∨ movHiFormat.admits instr → instr.idxRdFull = 15 →
        instr.idxRmFull ≠ 15 → 2 ∣ (s.cpu.reg instr.idxRmFull).toNat) ∧
      (instr.opcodeUpper 5 = 0b11111 → 2 ∣ s.cpu.lr.toNat)
  else
    ∀ instr, env.fetchArm s.cpu s.rest = .ok instr → evalCond s.cpu instr.cond = .ok true →
      ∀ k, dispatch instr = .plain k → k.refuses instr = false →
        15 ∉ k.writes instr (env.switchesBank instr s.cpu s.rest)

end

/-! ## Multiples of two and four -/

theorem getLsbD_zero_iff {v : BitVec 32} : v.getLsbD 0 = false ↔ 2 ∣ v.toNat := by
  rw [BitVec.getLsbD, Nat.testBit_zero, decide_eq_false_iff_not]
  omega

theorem getLsbD_one_iff {v : BitVec 32} (h : 2 ∣ v.toNat) : v.getLsbD 1 = false ↔ 4 ∣ v.toNat := by
  rw [BitVec.getLsbD, Nat.testBit_succ, Nat.testBit_zero, decide_eq_false_iff_not]
  omega

theorem even_of_bit {v : BitVec 32} (h : v.getLsbD 0 = false) : 2 ∣ v.toNat := getLsbD_zero_iff.1 h

theorem four_dvd_of_bits {v : BitVec 32} (h0 : v.getLsbD 0 = false) (h1 : v.getLsbD 1 = false) :
    4 ∣ v.toNat := (getLsbD_one_iff (even_of_bit h0)).1 h1

theorem even_and {v mask : BitVec 32} (h : mask.getLsbD 0 = false) : 2 ∣ (v &&& mask).toNat :=
  even_of_bit (by rw [BitVec.getLsbD_and, h, Bool.and_false])

theorem four_dvd_and {v mask : BitVec 32} (h : 4 ∣ mask.toNat) : 4 ∣ (v &&& mask).toNat := by
  have h0 : mask.getLsbD 0 = false := getLsbD_zero_iff.2 (by omega)
  have h1 : mask.getLsbD 1 = false := (getLsbD_one_iff (by omega)).2 h
  exact four_dvd_of_bits (by rw [BitVec.getLsbD_and, h0, Bool.and_false])
    (by rw [BitVec.getLsbD_and, h1, Bool.and_false])

theorem even_add {a b : BitVec 32} (ha : 2 ∣ a.toNat) (hb : 2 ∣ b.toNat) : 2 ∣ (a + b).toNat := by
  rw [BitVec.toNat_add]
  omega

theorem four_dvd_add {a b : BitVec 32} (ha : 4 ∣ a.toNat) (hb : 4 ∣ b.toNat) :
    4 ∣ (a + b).toNat := by
  rw [BitVec.toNat_add]
  omega

theorem toNat_and_three (v : BitVec 32) : (v &&& 3).toNat = v.toNat % 4 := by
  rw [BitVec.toNat_and]
  exact Nat.and_two_pow_sub_one_eq_mod _ 2

theorem interworks_of_and_three {v : BitVec 32} (h : v &&& 3 ≠ 2) : interworks v := by
  intro h0
  have h2 := even_of_bit h0
  have h3 : (v &&& 3).toNat ≠ 2 := fun hv => h (BitVec.eq_of_toNat_eq hv)
  rw [toNat_and_three] at h3
  omega

theorem even_shiftLeft (v : BitVec 32) {n : Nat} (h : 0 < n) : 2 ∣ (v <<< n).toNat :=
  even_of_bit (by simp [h])

theorem four_dvd_four_mul (v : BitVec 32) : 4 ∣ (4 * v).toNat := by
  have four : (4 : BitVec 32).toNat = 4 := rfl
  rw [BitVec.toNat_mul, four]
  omega

theorem State.AlignedAt.even {s : State} {pc : BitVec 32} (h : s.AlignedAt pc) : 2 ∣ pc.toNat := by
  rw [AlignedAt] at h
  split at h <;> omega

/-- A branch that takes the state from the lowest bit of its target. -/
theorem State.alignedAt_of_interworks {s : State} {target mask : BitVec 32}
    (hi : interworks target) (ht : s.cpsr.thumb = target.getLsbD 0)
    (hm : mask.getLsbD 0 = false) : s.AlignedAt (target &&& mask) := by
  rw [AlignedAt]
  split
  next h => exact even_and hm
  next h =>
    have h0 : target.getLsbD 0 = false := by simpa [ht] using h
    have h1 : target.getLsbD 1 = false :=
      (getLsbD_one_iff (even_of_bit h0)).2 (hi h0)
    exact four_dvd_of_bits (by rw [BitVec.getLsbD_and, hm, Bool.and_false])
      (by rw [BitVec.getLsbD_and, h1, Bool.false_and])

/-! ## What leaves PC and the Thumb bit alone -/

structure Kept (s t : State) : Prop where
  pc : t.reg 15 = s.reg 15
  thumb : t.cpsr.thumb = s.cpsr.thumb

namespace Kept

variable {s t u : State}

theorem refl (s : State) : Kept s s := ⟨rfl, rfl⟩

theorem trans (h : Kept s t) (h' : Kept t u) : Kept s u :=
  ⟨h'.pc.trans h.pc, h'.thumb.trans h.thumb⟩

theorem set (h : Kept s t) {i : BitVec 4} (hi : i ≠ 15) (v : BitVec 32) : Kept s (t.set i v) :=
  ⟨(set_reg_of_ne t (Ne.symm hi) v).trans h.pc, h.thumb⟩

theorem writeRegs (h : Kept s t) (value : BitVec 4 → BitVec 32) {l : List (BitVec 4)}
    (hl : 15 ∉ l) : Kept s (writeRegs t value l) := by
  induction l generalizing t with
  | nil => exact h
  | cons i l ih =>
    obtain ⟨hi, hl⟩ := not_or.1 (mt List.mem_cons.2 hl)
    exact ih (h.set (Ne.symm hi) _) hl

/-- The next instruction is aligned where this one is. -/
theorem alignedAt_add (h : Kept s t) (ha : s.Aligned) {d : BitVec 32}
    (hd : if s.cpsr.thumb then 2 ∣ d.toNat else 4 ∣ d.toNat) : t.AlignedAt (s.pc + d) := by
  rw [Aligned, AlignedAt] at ha
  rw [AlignedAt, h.thumb]
  split
  next ht =>
    rw [if_pos ht] at ha hd
    exact even_add ha hd
  next ht =>
    rw [if_neg ht] at ha hd
    exact four_dvd_add ha hd

end Kept

/-! ## Handlers -/

section

variable {M : Type} {env : Environment M} {s t : Machine M} {instr : ARMInstr} {next : BitVec 32}

theorem stub_ne_ok {α : Type} {r : α} : stub s instr ≠ .ok r := by
  simp [stub, handlerStubWithMessage]

/-- A handler passes the test of its condition, or does nothing. -/
theorem conditional_cases {cpu : State} {C : Type} {c c' : C} {body : Except Fault (C × BitVec 32)}
    (h : conditional cpu instr c body = .ok (c', next)) :
    (c' = c ∧ next = cpu.pc + 4) ∨
      (evalCond cpu instr.cond = .ok true ∧ body = .ok (c', next)) := by
  obtain ⟨b, hb, h⟩ := ok_of_bind h
  cases b with
  | true => exact .inr ⟨hb, h⟩
  | false =>
    obtain ⟨rfl, rfl⟩ := Prod.mk.inj (Except.ok.inj h)
    exact .inl ⟨rfl, rfl⟩

theorem withShifterOperand_ok {ctx : State} {body : ShifterOperand → Handled}
    {r : State × BitVec 32} (h : withShifterOperand ctx instr body = .ok r) :
    ∃ o, getAddr1ShifterOperand ctx instr = .ok (some o) ∧ body o = .ok r := by
  obtain ⟨o, ho, h⟩ := ok_of_bind h
  cases o with
  | none => simp [handlerStubWithMessage] at h
  | some o => exact ⟨o, ho, h⟩

theorem Machine.lift_ok {r : Handled} (h : s.lift r = .ok (t, next)) : r = .ok (t.cpu, next) := by
  obtain ⟨⟨cpu, n⟩, hr, h⟩ := ok_of_bind h
  obtain ⟨rfl, rfl⟩ := Prod.mk.inj (Except.ok.inj h)
  exact hr

/-- A handler goes on with the next instruction. -/
structure Continues (s t : Machine M) (next : BitVec 32) : Prop where
  kept : Kept s.cpu t.cpu
  next : next = s.cpu.pc + 4

theorem Continues.refl (s : Machine M) : Continues s s (s.cpu.pc + 4) := ⟨.refl _, rfl⟩

theorem Plain.handler_continues {k : Plain} (h : k.handler env s instr = .ok (t, next))
    (hw : evalCond s.cpu instr.cond = .ok true → k.refuses instr = false →
      15 ∉ k.writes instr (env.switchesBank instr s.cpu s.rest)) : Continues s t next := by
  rw [handler] at h
  split at h
  · exact absurd h stub_ne_ok
  obtain ⟨rfl, rfl⟩ | ⟨hc, h⟩ := conditional_cases h
  · exact .refl _
  split at h
  · exact absurd h stub_ne_ok
  next hr =>
    obtain ⟨c, -, h⟩ := ok_of_bind h
    obtain ⟨rfl, rfl⟩ := Prod.mk.inj (Except.ok.inj h)
    have kept := (Kept.refl s.cpu).writeRegs c.value (hw hc (by simpa using hr))
    exact ⟨⟨kept.pc, kept.thumb⟩, congrArg (· + 4) kept.pc⟩

/-- The common text of `MOV` and `ADD`. -/
def writeOperand (value : ShifterOperand → BitVec 32) (flags : ShifterOperand → State → State)
    (ctx : State) (instr : ARMInstr) : Handled :=
  conditional ctx instr ctx <|
    if instr.addr1S ∧ instr.idxRd = 15 then handlerStubWithMessage ctx instr unpredictablePC
    else withShifterOperand ctx instr fun operand =>
      let ctx := ctx.set instr.idxRd (value operand)
      let ctx := if instr.addr1S then flags operand ctx else ctx
      .ok (ctx, if instr.idxRd = 15 then ctx.pc else nextInstr ctx)

section

variable {value : ShifterOperand → BitVec 32} {flags : ShifterOperand → State → State}

theorem writeOperand_continues (hf : ∀ o c, Kept c (flags o c))
    (h : s.lift (writeOperand value flags s.cpu instr) = .ok (t, next))
    (hrd : instr.idxRd ≠ 15) : Continues s t next := by
  obtain ⟨hcpu, rfl⟩ | ⟨-, h⟩ := conditional_cases (Machine.lift_ok h)
  · exact ⟨hcpu ▸ .refl _, rfl⟩
  rw [if_neg fun h => hrd h.2] at h
  obtain ⟨o, -, h⟩ := withShifterOperand_ok h
  obtain ⟨hcpu, hnext⟩ := Prod.mk.inj (Except.ok.inj h)
  have kept : Kept s.cpu t.cpu := by
    have hset := (Kept.refl s.cpu).set hrd (value o)
    rw [← hcpu]
    split
    · exact hset.trans (hf o _)
    · exact hset
  rw [if_neg hrd, hcpu] at hnext
  exact ⟨kept, hnext ▸ congrArg (· + 4) kept.pc⟩

/-- A result that goes to PC. -/
theorem writeOperand_pc (h : s.lift (writeOperand value flags s.cpu instr) = .ok (t, next))
    (hrd : instr.idxRd = 15) :
    Continues s t next ∨ evalCond s.cpu instr.cond = .ok true ∧
      ∃ o, getAddr1ShifterOperand s.cpu instr = .ok (some o) ∧
        t.cpu = s.cpu.set 15 (value o) ∧ next = value o := by
  obtain ⟨hcpu, rfl⟩ | ⟨hc, h⟩ := conditional_cases (Machine.lift_ok h)
  · exact .inl ⟨hcpu ▸ .refl _, rfl⟩
  split at h
  · simp [handlerStubWithMessage] at h
  next hs =>
    obtain ⟨o, ho, h⟩ := withShifterOperand_ok h
    obtain ⟨hcpu, hnext⟩ := Prod.mk.inj (Except.ok.inj h)
    have hs : instr.addr1S = false := by simpa [hrd] using hs
    simp only [hrd, hs, Bool.false_eq_true, if_false, pc, set_reg_self] at hcpu hnext
    exact .inr ⟨hc, o, ho, hcpu.symm, hnext.symm⟩

end

def movValue : ShifterOperand → BitVec 32 := ShifterOperand.value

def movFlags (o : ShifterOperand) (ctx : State) : State :=
  updateCpsrC (updateCpsrZ (updateCpsrN ctx o.value) o.value) o.carryOut

theorem handlerMov_eq : handlerMov = writeOperand movValue movFlags := rfl

theorem movFlags_kept (o : ShifterOperand) (ctx : State) : Kept ctx (movFlags o ctx) := ⟨rfl, rfl⟩

def addValue (cpu : State) (instr : ARMInstr) (o : ShifterOperand) : BitVec 32 :=
  cpu.fetchReg instr.idxRn + o.value

def addFlags (cpu : State) (instr : ARMInstr) (o : ShifterOperand) (ctx : State) : State :=
  aluAdd.flags ctx (cpu.fetchReg instr.idxRn) o.value (addValue cpu instr o)

theorem handlerAdd_eq_writeOperand (cpu : State) (instr : ARMInstr) :
    handlerAdd cpu instr = writeOperand (addValue cpu instr) (addFlags cpu instr) cpu instr := rfl

theorem addFlags_kept (cpu : State) (instr : ARMInstr) (o : ShifterOperand) (ctx : State) :
    Kept ctx (addFlags cpu instr o ctx) := ⟨rfl, rfl⟩

theorem handlerMov_continues (h : s.lift (handlerMov s.cpu instr) = .ok (t, next))
    (hrd : instr.idxRd ≠ 15) : Continues s t next :=
  writeOperand_continues movFlags_kept h hrd

theorem handlerAdd_continues (h : s.lift (handlerAdd s.cpu instr) = .ok (t, next))
    (hrd : instr.idxRd ≠ 15) : Continues s t next :=
  writeOperand_continues (addFlags_kept s.cpu instr) h hrd

theorem handlerMov_pc (h : s.lift (handlerMov s.cpu instr) = .ok (t, next))
    (hrd : instr.idxRd = 15) :
    Continues s t next ∨ evalCond s.cpu instr.cond = .ok true ∧
      ∃ o, getAddr1ShifterOperand s.cpu instr = .ok (some o) ∧
        t.cpu = s.cpu.set 15 (movValue o) ∧ next = movValue o := by
  rw [handlerMov_eq] at h
  exact writeOperand_pc h hrd

theorem handlerAdd_pc (h : s.lift (handlerAdd s.cpu instr) = .ok (t, next))
    (hrd : instr.idxRd = 15) :
    Continues s t next ∨ evalCond s.cpu instr.cond = .ok true ∧
      ∃ o, getAddr1ShifterOperand s.cpu instr = .ok (some o) ∧
        t.cpu = s.cpu.set 15 (addValue s.cpu instr o) ∧ next = addValue s.cpu instr o := by
  rw [handlerAdd_eq_writeOperand] at h
  exact writeOperand_pc h hrd

theorem handlerBranch_aligned {withLink : Bool}
    (h : handlerBranch withLink s instr = .ok (t, next)) :
    Kept s.cpu t.cpu ∧ ∃ d, next = s.cpu.pc + d ∧ 4 ∣ d.toNat := by
  obtain ⟨rfl, rfl⟩ | ⟨-, h⟩ := conditional_cases h
  · exact ⟨.refl _, 4, rfl, by decide⟩
  obtain ⟨rfl, rfl⟩ := Prod.mk.inj (Except.ok.inj h)
  have kept : Kept s.cpu (if withLink then { s with cpu := link s.cpu } else s).cpu := by
    cases withLink with
    | false => exact .refl _
    | true => exact (Kept.refl _).set (by decide) _
  refine ⟨kept, 8 + 4 * instr.branchTarget, ?_, four_dvd_add (by decide) (four_dvd_four_mul _)⟩
  rw [State.pc, kept.pc, BitVec.add_assoc]
  rfl

theorem handlerBranchExchange_aligned {withLink : Bool}
    (h : handlerBranchExchange withLink s instr = .ok (t, next)) (ha : s.cpu.Aligned)
    (ht : s.cpu.cpsr.thumb = false)
    (hi : evalCond s.cpu instr.cond = .ok true → interworks (s.cpu.reg instr.idxRm)) :
    t.cpu.AlignedAt next := by
  rw [handlerBranchExchange] at h
  split at h
  · exact absurd h stub_ne_ok
  obtain ⟨rfl, rfl⟩ | ⟨hc, h⟩ := conditional_cases h
  · exact (Kept.refl _).alignedAt_add ha (by rw [ht]; decide)
  obtain ⟨rfl, rfl⟩ := Prod.mk.inj (Except.ok.inj h)
  exact alignedAt_of_interworks (hi hc) rfl (by decide)

/-! ## Memory accesses -/

theorem accessMemory_kept {byteAccess store : Bool} {base : BitVec 32}
    (h : accessMemory env byteAccess store base s instr = .ok t)
    (hrd : store = true ∨ instr.idxRd ≠ 15) : Kept s.cpu t.cpu := by
  rw [accessMemory] at h
  split at h
  · obtain ⟨rest, -, h⟩ := ok_of_bind h
    cases h
    exact .refl _
  next hst =>
    obtain ⟨⟨value, rest⟩, -, h⟩ := ok_of_bind h
    have hrd : instr.idxRd ≠ 15 := hrd.resolve_left hst
    simp only [if_pos hrd] at h
    cases h
    exact (Kept.refl _).set hrd _

/-- A load into PC takes the state from its lowest bit, and refuses a value that would select an
address between two ARM instructions. -/
theorem accessMemory_pc {byteAccess : Bool} {base : BitVec 32}
    (h : accessMemory env byteAccess false base s instr = .ok t) (hrd : instr.idxRd = 15) :
    t.cpu.Aligned := by
  rw [accessMemory] at h
  obtain ⟨⟨value, rest⟩, -, h⟩ := ok_of_bind h
  simp only [hrd, ne_eq, not_true, if_false] at h
  split at h
  · exact absurd h stub_ne_ok
  next hv =>
    cases h
    have hi : interworks value := interworks_of_and_three hv
    exact alignedAt_of_interworks hi rfl (by decide)

theorem writeBack_kept {base : BitVec 32} (h : writeBack base s instr = .ok t) :
    Kept s.cpu t.cpu := by
  rw [writeBack] at h
  split at h
  · split at h
    · exact absurd h stub_ne_ok
    next hrn =>
      cases h
      exact (Kept.refl _).set hrn _
  · cases h
    exact .refl _

/-- The stages of a memory access: the access itself, then the base register. -/
theorem handlerMemoryAccess_cases {byteAccess store : Bool}
    (h : handlerMemoryAccess env byteAccess store s instr = .ok (t, next)) :
    (t = s ∧ next = s.cpu.pc + 4) ∨
      ∃ base u, accessMemory env byteAccess store base s instr = .ok u ∧ Kept u.cpu t.cpu ∧
        next = if !store ∧ instr.idxRd = 15 then t.cpu.pc else nextInstr t.cpu := by
  obtain ⟨rfl, rfl⟩ | ⟨-, h⟩ := conditional_cases h
  · exact .inl ⟨rfl, rfl⟩
  split at h
  · exact absurd h stub_ne_ok
  split at h
  · exact absurd h stub_ne_ok
  obtain ⟨amount, -, h⟩ := ok_of_bind h
  obtain ⟨u, hu, h⟩ := ok_of_bind h
  obtain ⟨w, hw, h⟩ := ok_of_bind h
  obtain ⟨rfl, rfl⟩ := Prod.mk.inj (Except.ok.inj h)
  exact .inr ⟨_, u, hu, writeBack_kept hw, rfl⟩

theorem handlerMemoryAccess_continues {byteAccess store : Bool}
    (h : handlerMemoryAccess env byteAccess store s instr = .ok (t, next))
    (hrd : store = true ∨ instr.idxRd ≠ 15) : Continues s t next := by
  obtain ⟨rfl, rfl⟩ | ⟨base, u, hu, kept, rfl⟩ := handlerMemoryAccess_cases h
  · exact .refl _
  have kept := (accessMemory_kept hu hrd).trans kept
  refine ⟨kept, ?_⟩
  rw [if_neg (by cases hrd <;> simp_all)]
  exact congrArg (· + 4) kept.pc

theorem handlerMemoryAccess_pc {byteAccess : Bool}
    (h : handlerMemoryAccess env byteAccess false s instr = .ok (t, next))
    (hrd : instr.idxRd = 15) : Continues s t next ∨ t.cpu.AlignedAt next := by
  obtain ⟨rfl, rfl⟩ | ⟨base, u, hu, kept, rfl⟩ := handlerMemoryAccess_cases h
  · exact .inl (.refl _)
  rw [if_pos ⟨rfl, hrd⟩]
  have ha := accessMemory_pc hu hrd
  rw [Aligned, AlignedAt, ← kept.thumb, State.pc, ← kept.pc] at ha
  exact .inr ha

/-! ## Multiple registers -/

theorem registersBelowPC_ne {i : BitVec 4} (h : i ∈ registersBelowPC instr) : i ≠ 15 := by
  have hi := (List.mem_filter.1 h).1
  rintro rfl
  simp at hi

theorem transfer_kept {load : Bool} {l : List (BitVec 4)} {addr addr' : BitVec 32}
    (hl : ∀ i ∈ l, i ≠ 15) (h : transfer env load l s addr = .ok (t, addr')) :
    Kept s.cpu t.cpu := by
  induction l generalizing s addr with
  | nil =>
    cases h
    exact .refl _
  | cons i l ih =>
    obtain ⟨hi, hl⟩ := List.forall_mem_cons.1 hl
    rw [transfer] at h
    split at h
    · obtain ⟨⟨value, rest⟩, -, h⟩ := ok_of_bind h
      exact ((Kept.refl s.cpu).set hi value).trans (ih hl h)
    · obtain ⟨rest, -, h⟩ := ok_of_bind h
      have kept := ih hl h
      exact kept

/-- PC is in the list of a `LDM`. -/
def loadsPC (load : Bool) (instr : ARMInstr) : Prop := load = true ∧ instr.raw.getLsbD 15 = true

theorem transferPC_kept {load : Bool} {pc addr : BitVec 32}
    (h : transferPC env load pc s instr addr = .ok (t, next)) (hl : ¬ loadsPC load instr) :
    Kept s.cpu t.cpu ∧ next = pc + 4 := by
  rw [transferPC] at h
  split at h
  · cases h
    exact ⟨.refl _, rfl⟩
  next h15 =>
    have h15 : instr.raw.getLsbD 15 = true := by simpa using h15
    rw [if_neg fun h => hl ⟨h, h15⟩] at h
    obtain ⟨rest, -, h⟩ := ok_of_bind h
    cases h
    exact ⟨.refl _, rfl⟩

theorem transferPC_loads {load : Bool} {pc addr : BitVec 32}
    (h : transferPC env load pc s instr addr = .ok (t, next)) (hl : loadsPC load instr) :
    ∃ value, loadPC env s instr addr = .ok (t, value) ∧ next = value &&& ~~~1 := by
  obtain ⟨rfl, h15⟩ := hl
  simp only [transferPC, h15, Bool.not_true, Bool.false_eq_true, if_false, if_true] at h
  obtain ⟨⟨u, value⟩, hu, h⟩ := ok_of_bind h
  cases h
  exact ⟨value, hu, rfl⟩

/-- The stages of a transfer: the registers below PC, PC, and the base register. -/
theorem handlerLdmStm_cases {load : Bool} (h : handlerLdmStm env load s instr = .ok (t, next)) :
    Continues s t next ∨ evalCond s.cpu instr.cond = .ok true ∧
      ∃ u addr v,
        transfer env load (registersBelowPC instr) s (lowestAddr s instr) = .ok (u, addr) ∧
        transferPC env load s.cpu.pc u instr addr = .ok (v, next) ∧
        t.cpu.cpsr.thumb = v.cpu.cpsr.thumb ∧
        (instr.idxRn ≠ 15 → t.cpu.reg 15 = v.cpu.reg 15) := by
  obtain ⟨rfl, rfl⟩ | ⟨hc, h⟩ := conditional_cases h
  · exact .inl (.refl _)
  split at h
  · exact absurd h stub_ne_ok
  split at h
  · exact absurd h stub_ne_ok
  obtain ⟨⟨u, addr⟩, hu, h⟩ := ok_of_bind h
  obtain ⟨⟨v, n⟩, hv, h⟩ := ok_of_bind h
  obtain ⟨rfl, rfl⟩ := Prod.mk.inj (Except.ok.inj h)
  refine .inr ⟨hc, u, addr, v, hu, hv, by split <;> rfl, fun hrn => ?_⟩
  split
  · exact set_reg_of_ne _ (Ne.symm hrn) _
  · rfl

/-- Without PC in its list a transfer goes on with the next instruction. A base register PC is
overwritten with the address of the next instruction in the end. -/
theorem handlerLdmStm_continues {load : Bool}
    (h : handlerLdmStm env load s instr = .ok (t, next)) (hl : ¬ loadsPC load instr) :
    t.cpu.cpsr.thumb = s.cpu.cpsr.thumb ∧ (instr.idxRn ≠ 15 → Kept s.cpu t.cpu) ∧
      next = s.cpu.pc + 4 := by
  obtain ⟨kept, rfl⟩ | ⟨-, u, addr, v, hu, hv, hthumb, hpc⟩ := handlerLdmStm_cases h
  · exact ⟨kept.thumb, fun _ => kept, rfl⟩
  obtain ⟨kept, rfl⟩ := transferPC_kept hv hl
  have kept := (transfer_kept (fun _ => registersBelowPC_ne) hu).trans kept
  have hthumb := hthumb.trans kept.thumb
  exact ⟨hthumb, fun hrn => ⟨(hpc hrn).trans kept.pc, hthumb⟩, rfl⟩

/-- With PC in its list a `LDM` goes to the value loaded. -/
theorem handlerLdmStm_loads {load : Bool} (h : handlerLdmStm env load s instr = .ok (t, next))
    (hl : loadsPC load instr)
    (hi : evalCond s.cpu instr.cond = .ok true → Handler.Interworking env (.ldmStm load) s instr) :
    Continues s t next ∨ t.cpu.AlignedAt next := by
  obtain h | ⟨hc, u, addr, v, hu, hv, hthumb, -⟩ := handlerLdmStm_cases h
  · exact .inl h
  obtain ⟨value, hw, rfl⟩ := transferPC_loads hv hl
  obtain ⟨rfl, h15⟩ := hl
  refine .inr ?_
  rw [AlignedAt, hthumb]
  split
  next ht => exact even_and (by decide)
  next ht =>
    have h1 := hi hc h15 u addr v value hu hw (by simpa using ht)
    exact four_dvd_of_bits (by rw [BitVec.getLsbD_and]; simp) (by rw [BitVec.getLsbD_and, h1]; simp)

/-! ## One instruction in ARM state -/

theorem State.Aligned.four_dvd {cpu : State} (ha : cpu.Aligned) (ht : cpu.cpsr.thumb = false) :
    4 ∣ cpu.pc.toNat := by
  rwa [Aligned, AlignedAt, if_neg (by simp [ht])] at ha

theorem Continues.alignedAt (h : Continues s t next) (ha : s.cpu.Aligned)
    (ht : s.cpu.cpsr.thumb = false) : t.cpu.AlignedAt next := by
  rw [h.next]
  exact h.kept.alignedAt_add ha (by rw [ht]; decide)

/-- A branch that keeps ARM state. -/
theorem alignedAt_of_four_dvd {cpu : State} (ht : cpu.cpsr.thumb = false) (h : 4 ∣ next.toNat) :
    cpu.AlignedAt next := by
  rwa [AlignedAt, if_neg (by simp [ht])]

theorem Handler.run_aligned {h : Handler} (ha : s.cpu.Aligned) (ht : s.cpu.cpsr.thumb = false)
    (hi : evalCond s.cpu instr.cond = .ok true → h.Interworking env s instr)
    (hp : evalCond s.cpu instr.cond = .ok true → ∀ k, h = .plain k → k.refuses instr = false →
      15 ∉ k.writes instr (env.switchesBank instr s.cpu s.rest))
    (hr : h.run env s instr = .ok (t, next)) : t.cpu.AlignedAt next := by
  cases h with
  | plain k => exact (Plain.handler_continues hr fun hc => hp hc k rfl).alignedAt ha ht
  | mov =>
    by_cases hrd : instr.idxRd = 15
    · obtain h | ⟨hc, o, ho, hcpu, rfl⟩ := handlerMov_pc hr hrd
      · exact h.alignedAt ha ht
      · exact alignedAt_of_four_dvd (by rw [hcpu]; exact ht) (hi hc hrd o ho)
    · exact (handlerMov_continues hr hrd).alignedAt ha ht
  | add =>
    by_cases hrd : instr.idxRd = 15
    · obtain h | ⟨hc, o, ho, hcpu, rfl⟩ := handlerAdd_pc hr hrd
      · exact h.alignedAt ha ht
      · exact alignedAt_of_four_dvd (by rw [hcpu]; exact ht) (hi hc hrd o ho)
    · exact (handlerAdd_continues hr hrd).alignedAt ha ht
  | branch withLink =>
    obtain ⟨kept, d, rfl, hd⟩ := handlerBranch_aligned hr
    exact kept.alignedAt_add ha (by rw [ht]; exact hd)
  | branchExchange withLink => exact handlerBranchExchange_aligned hr ha ht hi
  | memoryAccess byteAccess store =>
    cases store with
    | true => exact (handlerMemoryAccess_continues hr (.inl rfl)).alignedAt ha ht
    | false =>
      by_cases hrd : instr.idxRd = 15
      · obtain h | h := handlerMemoryAccess_pc hr hrd
        · exact h.alignedAt ha ht
        · exact h
      · exact (handlerMemoryAccess_continues hr (.inr hrd)).alignedAt ha ht
  | ldmStm load =>
    by_cases hl : loadsPC load instr
    · obtain h | h := handlerLdmStm_loads hr hl hi
      · exact h.alignedAt ha ht
      · exact h
    · obtain ⟨hthumb, -, rfl⟩ := handlerLdmStm_continues hr hl
      exact alignedAt_of_four_dvd (hthumb.trans ht) (four_dvd_add (ha.four_dvd ht) (by decide))
  | stub => exact absurd hr stub_ne_ok

end

/-! ## The bits of an instruction that tell the handlers apart -/

/-- Bits 20 to 27. -/
def opBits (raw : BitVec 32) : BitVec 8 := raw.extractLsb' 20 8

/-- A mask and a value: what `opBits` has in common for the instructions of a handler. It is given
for the handlers that can write PC through a field other than Rd. -/
def Handler.opClass : Handler → BitVec 8 × BitVec 8
  | ldmStm _ => (0xE0, 0x80)
  | plain .mul | plain .mla => (0xF0, 0x00)
  | plain .msr => (0xDB, 0x12)
  | _ => (0, 0)

def Handler.InClass (h : Handler) (op : BitVec 8) : Prop := op &&& h.opClass.1 = h.opClass.2

/-- The bits under `mask` being `value` puts an instruction in the class. -/
def Handler.classFixed (h : Handler) (mask value : BitVec 8) : Bool :=
  mask &&& h.opClass.1 == h.opClass.1 && value &&& h.opClass.1 == h.opClass.2

theorem Handler.inClass_of_fixed {h : Handler} {op mask value : BitVec 8}
    (hf : h.classFixed mask value = true) (hop : op &&& mask = value) : h.InClass op := by
  obtain ⟨hm, hv⟩ : mask &&& h.opClass.1 = h.opClass.1 ∧ value &&& h.opClass.1 = h.opClass.2 := by
    simpa [classFixed] using hf
  calc op &&& h.opClass.1
      = (op &&& mask) &&& h.opClass.1 := by rw [BitVec.and_assoc, hm]
    _ = h.opClass.2 := by rw [hop, hv]

theorem inClass_stub (op : BitVec 8) : Handler.stub.InClass op := BitVec.and_zero

def Rule.classFixed (r : Rule) : Bool := r.handler.classFixed (opBits r.mask) (opBits r.value)

theorem firstMatch_inClass {rules : List Rule} (hf : rules.all Rule.classFixed = true)
    (instr : ARMInstr) : (firstMatch rules instr).InClass (opBits instr.raw) := by
  rw [firstMatch]
  split
  next r hr =>
    have hmask : instr.raw &&& r.mask = r.value := by simpa using List.find?_some hr
    refine Handler.inClass_of_fixed (List.all_eq_true.1 hf r (List.mem_of_find?_eq_some hr)) ?_
    rw [opBits, opBits, opBits, ← hmask, BitVec.extractLsb'_and]
  next => exact inClass_stub _

theorem legacyHandler_inClass (instr : ARMInstr) :
    (legacyHandler instr).InClass (opBits instr.raw) := by
  rw [legacyHandler]
  split
  all_goals first
    | exact firstMatch_inClass (by decide +kernel) instr
    | exact BitVec.and_zero

def MetaRow.classFixed (row : MetaRow) : Bool :=
  row.handler.all fun h => h.classFixed (row.mask.extractLsb' 4 8) (row.value.extractLsb' 4 8)

theorem metaTable_classFixed : metaTable.all MetaRow.classFixed = true := by decide +kernel

theorem buildDispatchTableKey_opBits (instr : ARMInstr) :
    (buildDispatchTableKey instr).extractLsb' 4 8 = opBits instr.raw :=
  (BitVec.extractLsb'_append_eq_of_le (Nat.le_refl 4)).trans BitVec.extractLsb'_append_eq_right

theorem dispatch_inClass (instr : ARMInstr) : (dispatch instr).InClass (opBits instr.raw) := by
  rw [dispatch]
  split
  next h _ mask value hrow =>
    have hmem := List.mem_reverse.1 (List.mem_of_find?_eq_some hrow)
    have hadmits := List.find?_some hrow
    have hmask : buildDispatchTableKey instr &&& mask = value := by
      simp only [MetaRow.admits, Bool.and_eq_true, beq_iff_eq] at hadmits
      exact hadmits.1
    have hf : h.classFixed (mask.extractLsb' 4 8) (value.extractLsb' 4 8) = true :=
      List.all_eq_true.1 metaTable_classFixed _ hmem
    refine Handler.inClass_of_fixed hf ?_
    rw [← buildDispatchTableKey_opBits, ← hmask, BitVec.extractLsb'_and]
  next => exact legacyHandler_inClass instr

/-! ## Instructions that spare PC -/

/-- An instruction that has PC in no field through which its handler could write it. -/
structure Sparing (instr : ARMInstr) : Prop where
  rd : ¬ (instr.raw.getLsbD 13 = true ∧ instr.raw.getLsbD 15 = true)
  msr : opBits instr.raw &&& 0xDB ≠ 0x12
  multiple : opBits instr.raw &&& 0xE0 = 0x80 → instr.raw.getLsbD 15 = false ∧ instr.idxRn ≠ 15
  multiply : opBits instr.raw &&& 0xF0 = 0x00 → instr.idxRn ≠ 15

namespace Sparing

variable {instr : ARMInstr} (h : Sparing instr)

theorem getLsbD_idxRd (instr : ARMInstr) {i : Nat} (hi : i < 4) :
    instr.idxRd.getLsbD i = instr.raw.getLsbD (12 + i) := by
  simp [ARMInstr.idxRd, hi]

include h

theorem idxRd_ne {r : BitVec 4} (h1 : r.getLsbD 1 = true) (h3 : r.getLsbD 3 = true) :
    instr.idxRd ≠ r := by
  intro hr
  have b1 := getLsbD_idxRd instr (i := 1) (by decide)
  have b3 := getLsbD_idxRd instr (i := 3) (by decide)
  rw [hr] at b1 b3
  exact h.rd ⟨b1.symm.trans h1, b3.symm.trans h3⟩

/-- `BX` has ones in the place of Rd. -/
theorem branchExchange_ne_ok {M : Type} {s : Machine M} {r : Machine M × BitVec 32}
    (withLink : Bool) : handlerBranchExchange withLink s instr ≠ .ok r := by
  intro hr
  rw [handlerBranchExchange] at hr
  split at hr
  · exact stub_ne_ok hr
  next hid =>
    have hid : instr.identifier4to23 &&& ~~~2#20 = 0x2FFF1 := not_not.1 hid
    have bit (i : Nat) : ((instr.identifier4to23 &&& ~~~2#20).getLsbD i) = (0x2FFF1#20).getLsbD i :=
      congrArg (·.getLsbD i) hid
    have b9 := bit 9
    have b11 := bit 11
    simp [ARMInstr.identifier4to23] at b9 b11
    exact h.rd ⟨b9, b11⟩

theorem pc_not_mem_writes {k : Plain} {switches : Bool} (hk : dispatch instr = .plain k)
    (hr : k.refuses instr = false) : 15 ∉ k.writes instr switches := by
  have hrd : 15#4 ≠ instr.idxRd := (h.idxRd_ne rfl rfl).symm
  have hrd1 : 15#4 ≠ instr.idxRd + 1#4 := by
    have := h.idxRd_ne (r := 14) rfl rfl
    bv_omega
  have hclass := dispatch_inClass instr
  rw [hk] at hclass
  by_cases hrn : instr.idxRn = 15
  · cases k with
    | mul => exact absurd hrn (h.multiply hclass)
    | mla => exact absurd hrn (h.multiply hclass)
    | msr => exact absurd hclass h.msr
    | addrMode3 type =>
      cases type <;> simp_all [Plain.refuses, Plain.writes, AddrMode3AccessType.loads]
    | _ => simp_all [Plain.refuses, Plain.writes]
  · have hrn : 15#4 ≠ instr.idxRn := Ne.symm hrn
    cases k with
    | msr => exact absurd hclass h.msr
    | addrMode3 type =>
      cases type <;> simp [Plain.writes, AddrMode3AccessType.loads, hrd, hrd1, hrn]
    | _ => simp [Plain.writes, hrd, hrd1, hrn]

end Sparing

/-- A handler whose instruction spares PC. -/
theorem Handler.run_kept {M : Type} {env : Environment M} {s t : Machine M} {instr : ARMInstr}
    {next : BitVec 32} (h : Sparing instr)
    (hr : (dispatch instr).run env s instr = .ok (t, next)) : Kept s.cpu t.cpu := by
  have hrd : instr.idxRd ≠ 15 := h.idxRd_ne rfl rfl
  have hclass := dispatch_inClass instr
  cases hd : dispatch instr with
  | plain k =>
    rw [hd] at hr
    exact (Plain.handler_continues hr fun _ => h.pc_not_mem_writes hd).kept
  | mov => rw [hd] at hr; exact (handlerMov_continues hr hrd).kept
  | add => rw [hd] at hr; exact (handlerAdd_continues hr hrd).kept
  | branch withLink => rw [hd] at hr; exact (handlerBranch_aligned hr).1
  | branchExchange withLink =>
    rw [hd] at hr
    exact absurd hr (h.branchExchange_ne_ok withLink)
  | memoryAccess byteAccess store =>
    rw [hd] at hr
    exact (handlerMemoryAccess_continues hr (.inr hrd)).kept
  | ldmStm load =>
    rw [hd] at hr hclass
    obtain ⟨h15, hrn⟩ := h.multiple hclass
    exact (handlerLdmStm_continues hr fun hl => Bool.false_ne_true (h15.symm.trans hl.2)).2.1 hrn
  | stub => rw [hd] at hr; exact absurd hr stub_ne_ok

/-! ## The ARM equivalents of Thumb instructions -/

/-- Every bit of `a` is one of `b`. -/
def Within (a b : BitVec 32) : Prop := ∀ i, a.getLsbD i = true → b.getLsbD i = true

namespace Within

variable {a b c d : BitVec 32}

theorem or (h : Within a b) (h' : Within c d) : Within (a ||| c) (b ||| d) := by
  intro i hi
  rw [BitVec.getLsbD_or, Bool.or_eq_true] at hi ⊢
  exact hi.imp (h i) (h' i)

theorem or_left (h : Within a b) (c : BitVec 32) : Within a (b ||| c) := by
  intro i hi
  rw [BitVec.getLsbD_or, h i hi, Bool.true_or]

theorem shiftLeft (h : Within a b) (n : Nat) : Within (a <<< n) (b <<< n) := by
  intro i hi
  rw [BitVec.getLsbD_shiftLeft, Bool.and_eq_true] at hi ⊢
  exact ⟨hi.1, h _ hi.2⟩

/-- A field between two words that agree in it. -/
theorem extractLsb'_eq (h : Within a b) (h' : Within b c) {start len : Nat}
    (hac : a.extractLsb' start len = c.extractLsb' start len) :
    b.extractLsb' start len = c.extractLsb' start len := by
  ext i hi
  have bits := congrArg (·.getLsbD i) hac
  simp only [BitVec.getLsbD_extractLsb', hi, decide_true, Bool.true_and] at bits
  rw [BitVec.getElem_extractLsb', BitVec.getElem_extractLsb', Bool.eq_iff_iff]
  exact ⟨h' _, fun hc => h _ (bits ▸ hc)⟩

theorem extractLsb'_allOnes (h : Within a b) {start len : Nat}
    (ha : a.extractLsb' start len = BitVec.allOnes len) :
    b.extractLsb' start len = BitVec.allOnes len := by
  ext i hi
  have bits := congrArg (·.getLsbD i) ha
  simp only [BitVec.getLsbD_extractLsb', BitVec.getLsbD_allOnes, hi, decide_true,
    Bool.true_and] at bits
  rw [BitVec.getElem_extractLsb', BitVec.getElem_allOnes]
  exact h _ bits

end Within

theorem ThumbField.get_within (field : ThumbField) (instr : ThumbInstr) :
    Within (field.get instr) field.bound := by
  intro i hi
  simp only [get, bound, BitVec.getLsbD_setWidth, BitVec.getLsbD_extractLsb', Bool.and_eq_true,
    decide_eq_true_eq, BitVec.getLsbD_allOnes] at hi ⊢
  exact ⟨hi.1, hi.2.1⟩

namespace ThumbFormat

/-- All bits that an encoding can have. -/
def upper (f : ThumbFormat) : BitVec 32 :=
  f.fields.foldl (fun raw field => raw ||| field.1.bound <<< field.2) f.base

theorem foldl_within (instr : ThumbInstr) (fields : List (ThumbField × Nat))
    {low raw high : BitVec 32} (hl : Within low raw) (hh : Within raw high) :
    let get := fields.foldl (fun raw field => raw ||| field.1.get instr <<< field.2) raw
    Within low get ∧
      Within get (fields.foldl (fun raw field => raw ||| field.1.bound <<< field.2) high) := by
  induction fields generalizing raw high with
  | nil => exact ⟨hl, hh⟩
  | cons field fields ih =>
    exact ih (hl.or_left _) (hh.or ((field.1.get_within instr).shiftLeft field.2))

theorem encode_within (f : ThumbFormat) (instr : ThumbInstr) :
    Within f.base (f.encode instr).raw ∧ Within (f.encode instr).raw f.upper :=
  foldl_within instr f.fields (fun _ => id) fun _ => id

/-- `Sparing`, of all encodings. -/
def sparing (f : ThumbFormat) : Bool :=
  let op := opBits f.base
  let notRn := f.upper.extractLsb' 16 4 != 15
  op == opBits f.upper && !(f.upper.getLsbD 13 && f.upper.getLsbD 15) && op &&& 0xDB != 0x12 &&
    (op &&& 0xE0 != 0x80 || (!f.upper.getLsbD 15 && notRn)) && (op &&& 0xF0 != 0x00 || notRn)

theorem encode_sparing {f : ThumbFormat} (h : f.sparing = true) (instr : ThumbInstr) :
    Sparing (f.encode instr) := by
  obtain ⟨hlow, hhigh⟩ := f.encode_within instr
  simp only [sparing, Bool.and_eq_true, Bool.or_eq_true, beq_iff_eq, bne_iff_ne, Bool.not_eq_true',
    Bool.and_eq_false_iff] at h
  obtain ⟨⟨⟨⟨hop, hrd⟩, hmsr⟩, hmultiple⟩, hmultiply⟩ := h
  have hop : opBits (f.encode instr).raw = opBits f.base := by
    rw [hop]
    exact hlow.extractLsb'_eq hhigh hop
  have clear {i : Nat} (hi : f.upper.getLsbD i = false) : (f.encode instr).raw.getLsbD i = false :=
    Bool.eq_false_iff.2 fun h => Bool.false_ne_true (hi.symm.trans (hhigh i h))
  have notRn (h : f.upper.extractLsb' 16 4 ≠ 15) : (f.encode instr).idxRn ≠ 15 :=
    fun hrn => h (hhigh.extractLsb'_allOnes hrn)
  refine ⟨?_, ?_, ?_, ?_⟩
  · rintro ⟨h13, h15⟩
    obtain h | h := hrd
    · exact Bool.false_ne_true ((clear h).symm.trans h13)
    · exact Bool.false_ne_true ((clear h).symm.trans h15)
  · rw [hop]
    exact hmsr
  · rw [hop]
    intro hm
    obtain ⟨h15, hrn⟩ := hmultiple.resolve_left (not_not.2 hm)
    exact ⟨clear h15, notRn hrn⟩
  · rw [hop]
    intro hm
    exact notRn (hmultiply.resolve_left (not_not.2 hm))

end ThumbFormat

theorem thumbFormats_sparing : thumbFormats.all ThumbFormat.sparing = true := by decide +kernel

/-- The ARM equivalent that takes the way of `ForwardThumbToARM` spares PC; the others are `ADD (4)`
and `MOV (3)`. -/
theorem decodeThumb_cases {instr : ThumbInstr} {decoded : DecodedThumbInstr} {arm : ARMInstr}
    (h : decodeThumb instr = .ok decoded) (harm : decoded.armEquivalent = some arm) :
    (Sparing arm ∧ decoded.mayReadPC = false ∧ decoded.mayModifyPC = false) ∨
      decoded.mayReadPC = true ∧ decoded.mayModifyPC = decide (instr.idxRdFull = 15) ∧
        (addHiFormat.admits instr = true ∧ arm = addHiFormat.encode instr ∨
          movHiFormat.admits instr = true ∧ arm = movHiFormat.encode instr) := by
  rw [decodeThumb] at h
  split at h
  next f hf =>
    cases h
    cases harm
    have hmem := List.mem_of_find?_eq_some hf
    exact .inl ⟨f.encode_sparing (List.all_eq_true.1 thumbFormats_sparing f hmem) instr, rfl, rfl⟩
  split at h
  next hadd =>
    cases h
    cases harm
    exact .inr ⟨rfl, rfl, .inl ⟨hadd, rfl⟩⟩
  split at h
  next hmov =>
    cases h
    cases harm
    exact .inr ⟨rfl, rfl, .inr ⟨hmov, rfl⟩⟩
  split at h
  · cases h
    cases harm
    refine .inl ⟨ThumbFormat.encode_sparing ?_ instr, rfl, rfl⟩
    cases instr.raw.getLsbD instr.idxRdHigh.toNat <;> decide +kernel
  split at h
  · split at h
    · cases h
    split at h
    · cases h
    split at h
    · cases h
    cases h
    cases harm
    exact .inl ⟨ThumbFormat.encode_sparing (by decide +kernel) instr, rfl, rfl⟩
  · cases h
    cases harm

theorem ThumbFormat.encode_fixed (f : ThumbFormat) (instr : ThumbInstr) {start len : Nat}
    {v : BitVec len} (hb : f.base.extractLsb' start len = v)
    (hu : f.upper.extractLsb' start len = v) : (f.encode instr).raw.extractLsb' start len = v :=
  hu ▸ (f.encode_within instr).1.extractLsb'_eq (f.encode_within instr).2 (hb.trans hu.symm)

theorem ThumbFormat.encode_fixedBit (f : ThumbFormat) (instr : ThumbInstr) {i : Nat}
    (h : f.upper.getLsbD i = false) : (f.encode instr).raw.getLsbD i = false :=
  Bool.eq_false_iff.2 fun hi => Bool.false_ne_true (h.symm.trans ((f.encode_within instr).2 i hi))

theorem ThumbInstr.getLsbD_idxRdFull (instr : ThumbInstr) {i : Nat} (hi : i < 4) :
    instr.idxRdFull.getLsbD i = instr.raw.getLsbD (if i < 3 then i else 7) := by
  refine BitVec.getLsbD_append.trans ?_
  interval_cases i <;> simp

section
variable {f : ThumbFormat} (hf : f = addHiFormat ∨ f = movHiFormat) (instr : ThumbInstr)
include hf

theorem hi_operand (cpu : State) : getAddr1ShifterOperand cpu (f.encode instr) =
    .ok (some ⟨cpu.fetchReg (f.encode instr).idxRm, cpu.cpsr.carry⟩) := by
  have zero (i : Nat) (hi : i ∈ [4, 5, 6, 25]) : (f.encode instr).raw.getLsbD i = false :=
    f.encode_fixedBit instr (by obtain rfl | rfl := hf <;> revert i <;> decide)
  have h26 : (f.encode instr).raw.extractLsb' 26 2 = 0 := by
    obtain rfl | rfl := hf <;> exact ThumbFormat.encode_fixed _ instr rfl rfl
  have h7 : (f.encode instr).raw.extractLsb' 7 5 = 0 := by
    obtain rfl | rfl := hf <;> exact ThumbFormat.encode_fixed _ instr rfl rfl
  have hencoding : getAddrMode1Encoding (f.encode instr) = .shiftByImm := by
    rw [getAddrMode1Encoding, h26, zero 25 (by decide), zero 4 (by decide)]
    rfl
  have hmode : (f.encode instr).addr1Shift = .lsl := by
    rw [ARMInstr.addr1Shift, zero 6 (by decide), zero 5 (by decide)]
  have hamount : (f.encode instr).addr1ShiftImm = 0 := by
    rw [ARMInstr.addr1ShiftImm, h7]
    rfl
  have hshift (v : BitVec 32) : calcShifterOperandFromImmediate v 0 .lsl cpu.cpsr.carry =
      some ⟨v, cpu.cpsr.carry⟩ := by
    simp [calcShifterOperandFromImmediate, calcShifterOperand, shl, operandOf]
  rw [getAddr1ShifterOperand, hencoding, hmode, hamount]
  simp only [hshift]
  rfl

theorem hi_cond : (f.encode instr).cond = 0xE := by
  obtain rfl | rfl := hf <;> exact ThumbFormat.encode_fixed _ instr rfl rfl

theorem hi_buildDispatchTableKey :
    buildDispatchTableKey (f.encode instr) = 0#1 ++ opBits f.base ++ 0#4 := by
  have h20 : (f.encode instr).raw.extractLsb' 20 8 = opBits f.base := by
    obtain rfl | rfl := hf <;> exact ThumbFormat.encode_fixed _ instr rfl rfl
  have h4 : (f.encode instr).raw.extractLsb' 4 4 = 0 := by
    obtain rfl | rfl := hf <;> exact ThumbFormat.encode_fixed _ instr rfl rfl
  have h24 : (f.encode instr).raw.extractLsb' 24 4 ≠ 14 := by
    have h : (f.encode instr).raw.extractLsb' 24 4 = 0 ∨
        (f.encode instr).raw.extractLsb' 24 4 = 1 := by
      obtain rfl | rfl := hf
      · exact .inl (ThumbFormat.encode_fixed _ instr rfl rfl)
      · exact .inr (ThumbFormat.encode_fixed _ instr rfl rfl)
    obtain h | h := h <;> rw [h] <;> decide
  have h25 : (f.encode instr).raw.extractLsb' 25 3 = 0 := by
    obtain rfl | rfl := hf <;> exact ThumbFormat.encode_fixed _ instr rfl rfl
  rw [buildDispatchTableKey, hi_cond hf, h20, h4, h25]
  simp only [if_neg (not_or.2 ⟨(by decide : (0 : BitVec 3) ≠ 6), h24⟩)]
  rfl

theorem hi_idxRd : (f.encode instr).idxRd = instr.idxRdFull := by
  apply BitVec.eq_of_getLsbD_eq
  intro i hi
  rw [instr.getLsbD_idxRdFull hi]
  obtain rfl | rfl := hf <;> interval_cases i <;>
    simp [ThumbFormat.encode, addHiFormat, movHiFormat, ThumbField.get, ThumbField.span,
      ARMInstr.idxRd]

theorem hi_idxRm : (f.encode instr).idxRm = instr.idxRmFull := by
  ext i hi
  obtain rfl | rfl := hf <;> interval_cases i <;>
    simp [ThumbFormat.encode, addHiFormat, movHiFormat, ThumbField.get, ThumbField.span,
      ARMInstr.idxRm, ThumbInstr.idxRmFull]

end

theorem hi_idxRn (instr : ThumbInstr) : (addHiFormat.encode instr).idxRn = instr.idxRdFull := by
  apply BitVec.eq_of_getLsbD_eq
  intro i hi
  rw [instr.getLsbD_idxRdFull hi]
  interval_cases i <;>
    simp [ThumbFormat.encode, addHiFormat, ThumbField.get, ThumbField.span, ARMInstr.idxRn]

theorem dispatch_addHi (instr : ThumbInstr) : dispatch (addHiFormat.encode instr) = .add :=
  dispatch_of_lookup (by rw [hi_buildDispatchTableKey (.inl rfl)]; decide +kernel)

theorem dispatch_movHi (instr : ThumbInstr) : dispatch (movHiFormat.encode instr) = .mov :=
  dispatch_of_lookup (by rw [hi_buildDispatchTableKey (.inr rfl)]; decide +kernel)



/-! ## One instruction in Thumb state -/

section

variable {M : Type} {env : Environment M} {s t : Machine M} {instr : ThumbInstr} {next : BitVec 32}

theorem alignedAt_of_even {cpu : State} (ht : cpu.cpsr.thumb = true) (h : 2 ∣ next.toNat) :
    cpu.AlignedAt next := by
  rwa [AlignedAt, if_pos ht]

theorem even_sub_four {v : BitVec 32} (h : 2 ∣ v.toNat) : 2 ∣ (v - 4).toNat := by
  have four : (4 : BitVec 32).toNat = 4 := rfl
  rw [BitVec.toNat_sub, four]
  omega

theorem even_sub_two {v : BitVec 32} (h : 2 ∣ v.toNat) : 2 ∣ (v - 2).toNat := by
  have two : (2 : BitVec 32).toNat = 2 := rfl
  rw [BitVec.toNat_sub, two]
  omega

/-- What a hi-register instruction reads. -/
theorem even_fetchReg {cpu : State} {i : BitVec 4} (hpc : 2 ∣ cpu.pc.toNat)
    (hi : i ≠ 15 → 2 ∣ (cpu.reg i).toNat) :
    2 ∣ ((cpu.set 15 (cpu.pc - 4)).fetchReg i).toNat := by
  rw [fetchReg]
  split
  · rw [pc, set_reg_self]
    exact even_add (even_sub_four hpc) (by decide)
  next h =>
    rw [set_reg_of_ne cpu h]
    exact hi h

theorem forwardThumbToARM_sparing {decoded : DecodedThumbInstr} {arm : ARMInstr} (hs : Sparing arm)
    (hread : decoded.mayReadPC = false) (hmodify : decoded.mayModifyPC = false)
    (h : forwardThumbToARM env decoded s arm = .ok (t, next)) :
    Kept s.cpu t.cpu ∧ next = s.cpu.pc + 2 := by
  obtain ⟨⟨u, n⟩, hu, h⟩ := ok_of_bind h
  rw [hread] at hu
  cases h
  have kept := Handler.run_kept hs hu
  refine ⟨kept, ?_⟩
  rw [hread, hmodify]
  exact congrArg (· + 2) kept.pc

/-- `ADD (4)` and `MOV (3)`. -/
theorem forwardThumbToARM_hi {decoded : DecodedThumbInstr} {arm : ARMInstr}
    (hread : decoded.mayReadPC = true)
    (hmodify : decoded.mayModifyPC = decide (instr.idxRdFull = 15))
    (harm : addHiFormat.admits instr = true ∧ arm = addHiFormat.encode instr ∨
      movHiFormat.admits instr = true ∧ arm = movHiFormat.encode instr)
    (ht : s.cpu.cpsr.thumb = true) (hpc : 2 ∣ s.cpu.pc.toNat)
    (hrm : instr.idxRdFull = 15 → instr.idxRmFull ≠ 15 →
      2 ∣ (s.cpu.reg instr.idxRmFull).toNat)
    (h : forwardThumbToARM env decoded s arm = .ok (t, next)) : t.cpu.AlignedAt next := by
  obtain ⟨⟨u, n⟩, hu, h⟩ := ok_of_bind h
  simp only [hread, if_true] at hu
  simp only [hread, hmodify, if_true, decide_eq_true_eq] at h
  cases h
  have hnext : 2 ∣ (s.cpu.pc + 2).toNat := even_add hpc (by decide)
  -- the value of PC after an instruction that writes it
  have hval (hrd : instr.idxRdFull = 15) := even_fetchReg hpc (hrm hrd)
  have hskip (hk : Continues (s.set 15 (s.cpu.pc - 4)) t n) : 2 ∣ t.cpu.pc.toNat := by
    rw [State.pc, hk.kept.pc]
    exact (set_reg_self s.cpu 15 _).symm ▸ even_sub_four hpc
  obtain ⟨-, rfl⟩ | ⟨-, rfl⟩ := harm
  · have hrd := hi_idxRd (.inl rfl) instr
    rw [dispatch_addHi] at hu
    by_cases h15 : instr.idxRdFull = 15
    · rw [if_pos h15]
      obtain h | ⟨-, o, ho, hcpu, -⟩ := handlerAdd_pc hu (hrd.trans h15)
      · exact alignedAt_of_even (h.kept.thumb.trans ht) (hskip h)
      · rw [hi_operand (.inl rfl)] at ho
        cases ho
        rw [addValue, hi_idxRn, hi_idxRm (.inl rfl), h15] at hcpu
        rw [hcpu]
        refine alignedAt_of_even ht ?_
        rw [pc, set_reg_self]
        exact even_add (even_fetchReg hpc fun h => absurd rfl h) (hval h15)
    · rw [if_neg h15]
      have kept := (handlerAdd_continues hu (hrd ▸ h15)).kept
      exact alignedAt_of_even (kept.thumb.trans ht) hnext
  · have hrd := hi_idxRd (.inr rfl) instr
    rw [dispatch_movHi] at hu
    by_cases h15 : instr.idxRdFull = 15
    · rw [if_pos h15]
      obtain h | ⟨-, o, ho, hcpu, -⟩ := handlerMov_pc hu (hrd.trans h15)
      · exact alignedAt_of_even (h.kept.thumb.trans ht) (hskip h)
      · rw [hi_operand (.inr rfl)] at ho
        cases ho
        rw [movValue, hi_idxRm (.inr rfl)] at hcpu
        rw [hcpu]
        refine alignedAt_of_even ht ?_
        rw [pc, set_reg_self]
        exact hval h15
    · rw [if_neg h15]
      have kept := (handlerMov_continues hu (hrd ▸ h15)).kept
      exact alignedAt_of_even (kept.thumb.trans ht) hnext

theorem branchThumb_aligned (ht : s.cpu.cpsr.thumb = true) (hpc : 2 ∣ s.cpu.pc.toNat)
    (hlr : instr.raw.getLsbD 12 = true → instr.raw.getLsbD 11 = true → 2 ∣ s.cpu.lr.toNat)
    (h : branchThumb s instr = .ok (t, next)) : t.cpu.AlignedAt next := by
  rw [branchThumb] at h
  split at h
  · cases h
    exact alignedAt_of_even ht
      (even_add (even_add hpc (by decide)) (even_shiftLeft _ (by decide)))
  · cases h
    exact alignedAt_of_even ht (even_add hpc (by decide))
  next _ _ h11 =>
    cases h12 : instr.raw.getLsbD 12 with
    | true =>
      rw [h12] at h
      cases h
      exact alignedAt_of_even rfl (even_add (hlr h12 h11) (even_shiftLeft _ (by decide)))
    | false =>
      rw [h12] at h
      cases h
      refine alignedAt_of_four_dvd rfl (four_dvd_and ?_)
      decide

theorem branchExchangeThumb_aligned {withLink : Bool}
    (hi : interworks (s.cpu.reg instr.idxRmFull))
    (h : branchExchangeThumb withLink s instr = .ok (t, next)) : t.cpu.AlignedAt next := by
  rw [branchExchangeThumb] at h
  split at h
  · simp [stubThumb] at h
  · cases h
    exact alignedAt_of_interworks hi rfl (by decide)

theorem popInstr_loadsPC (instr : ThumbInstr) :
    loadsPC true (popInstr instr) ↔ instr.raw.getLsbD 8 = true := by
  simp [loadsPC, popInstr, ThumbField.get, ThumbField.span]

theorem ldrPCInstr_idxRd (instr : ThumbInstr) : (ldrPCInstr instr).idxRd ≠ 15 := by
  intro h
  have h3 := Sparing.getLsbD_idxRd (ldrPCInstr instr) (i := 3) (by decide)
  rw [h] at h3
  simp [ldrPCInstr, ThumbField.get, ThumbField.span] at h3

theorem getLsbD_eq_decide {w i : Nat} {v : BitVec w} :
    v.getLsbD i = decide (v.toNat / 2 ^ i % 2 = 1) :=
  Nat.testBit_eq_decide_div_mod_eq

theorem dispatchThumb_aligned (ht : s.cpu.cpsr.thumb = true) (hpc : 2 ∣ s.cpu.pc.toNat)
    (hbx : instr.opcodeUpper 8 = 0b01000111 → interworks (s.cpu.reg instr.idxRmFull))
    (hpop : instr.opcodeUpper 7 = 0b1011110 →
      Handler.Interworking env (.ldmStm true) s (popInstr instr))
    (hrm : addHiFormat.admits instr ∨ movHiFormat.admits instr → instr.idxRdFull = 15 →
      instr.idxRmFull ≠ 15 → 2 ∣ (s.cpu.reg instr.idxRmFull).toNat)
    (hlr : instr.opcodeUpper 5 = 0b11111 → 2 ∣ s.cpu.lr.toNat)
    (h : dispatchThumb env s instr = .ok (t, next)) : t.cpu.AlignedAt next := by
  have hnext : 2 ∣ (s.cpu.pc + 2).toNat := even_add hpc (by decide)
  obtain ⟨decoded, hdecoded, h⟩ := ok_of_bind h
  split at h
  next arm harm =>
    obtain ⟨hs, hread, hmodify⟩ | ⟨hread, hmodify, harm⟩ := decodeThumb_cases hdecoded harm
    · obtain ⟨kept, rfl⟩ := forwardThumbToARM_sparing hs hread hmodify h
      exact alignedAt_of_even (kept.thumb.trans ht) hnext
    · exact forwardThumbToARM_hi hread hmodify harm ht hpc
        (hrm (harm.imp And.left And.left)) h
  split at h
  · cases h
    exact alignedAt_of_even ht hnext
  split at h
  · obtain ⟨⟨u, n⟩, hu, h⟩ := ok_of_bind h
    cases h
    have kept := (handlerMemoryAccess_continues hu (.inr (ldrPCInstr_idxRd instr))).kept
    exact alignedAt_of_even (kept.thumb.trans ht) hnext
  split at h
  · obtain ⟨b, hb, h⟩ := ok_of_bind h
    cases b with
    | true =>
      cases h
      exact alignedAt_of_even ht
        (even_add (even_add hpc (by decide)) (even_shiftLeft _ (by decide)))
    | false =>
      cases h
      exact alignedAt_of_even ht hnext
  split at h
  next h3 =>
    refine branchThumb_aligned ht hpc (fun h12 h11 => hlr ?_) h
    rw [getLsbD_eq_decide, decide_eq_true_eq] at h12 h11
    rw [ThumbInstr.opcodeUpper] at h3 ⊢
    omega
  split at h
  next h9 =>
    refine branchExchangeThumb_aligned (hbx ?_) h
    rw [ThumbInstr.opcodeUpper] at h9 ⊢
    omega
  split at h
  next h9 =>
    refine branchExchangeThumb_aligned (hbx ?_) h
    rw [ThumbInstr.opcodeUpper] at h9 ⊢
    omega
  split at h
  next h7 =>
    obtain ⟨⟨u, n⟩, hu, h⟩ := ok_of_bind h
    by_cases h8 : instr.raw.getLsbD 8 = true
    · simp only [h8, if_true] at h
      cases h
      obtain hc | ha := handlerLdmStm_loads hu ((popInstr_loadsPC instr).2 h8) fun _ => hpop h7
      · exact alignedAt_of_even (hc.kept.thumb.trans ht) (hc.next ▸ even_add hpc (by decide))
      · exact ha
    · simp only [h8] at h
      cases h
      obtain ⟨hthumb, -, rfl⟩ := handlerLdmStm_continues hu (mt (popInstr_loadsPC instr).1 h8)
      exact alignedAt_of_even (hthumb.trans ht) (even_sub_two (even_add hpc (by decide)))
  · simp [stubThumb] at h

/-! ## A step and a run -/

theorem link_pc (cpu : State) : (link cpu).pc = cpu.pc := set_reg_of_ne cpu (by decide) _

theorem unconditional_aligned {s t : Machine M} {arm : ARMInstr} (ha : s.cpu.Aligned)
    (ht : s.cpu.cpsr.thumb = false) (h : unconditional env s arm = .ok (t, next)) :
    t.cpu.AlignedAt next := by
  rw [unconditional] at h
  split at h
  · cases h
    have htarget :
        2 ∣ ((4 * arm.branchTarget : BitVec 32) ||| ((arm.raw &&& 0x1000000) >>> 23)).toNat := by
      have h4 := four_dvd_four_mul arm.branchTarget
      have h0 : (4 * arm.branchTarget).getLsbD 0 = false := getLsbD_zero_iff.2 (by omega)
      refine even_of_bit ?_
      rw [BitVec.getLsbD_or, h0]
      simp
    have hpc : 2 ∣ (link s.cpu).pc.toNat := by
      rw [link_pc]
      exact ha.even
    exact alignedAt_of_even rfl (even_add (even_add hpc (by decide)) htarget)
  split at h
  · cases h
    exact Continues.alignedAt ⟨⟨rfl, rfl⟩, rfl⟩ ha ht
  split at h
  · cases h
    exact (Continues.refl _).alignedAt ha ht
  · cases h

theorem Machine.set_pc (v : BitVec 32) : (s.set 15 v).cpu.pc = v := set_reg_self ..

/-- A step is the instruction, and then the move of PC. -/
theorem step_ok (h : step env s = .ok t) : ∃ u n,
    (if s.cpu.cpsr.thumb then stepThumb env s else stepArm env s) = .ok (u, n) ∧
      t = u.set 15 n := by
  rw [step] at h
  split at h
  next ht =>
    obtain ⟨⟨u, n⟩, hu, h⟩ := ok_of_bind h
    cases h
    exact ⟨u, n, by rw [if_pos ht]; exact hu, rfl⟩
  next ht =>
    obtain ⟨⟨u, n⟩, hu, h⟩ := ok_of_bind h
    cases h
    exact ⟨u, n, by rw [if_neg ht]; exact hu, rfl⟩

theorem step_aligned (ha : s.cpu.Aligned) (hi : Interworking env s) (hp : SparesPC env s)
    (h : step env s = .ok t) : t.cpu.Aligned := by
  obtain ⟨u, n, hu, rfl⟩ := step_ok h
  suffices hn : u.cpu.AlignedAt n by
    rw [Aligned, Machine.set_pc]
    exact hn
  rw [Interworking] at hi
  rw [SparesPC] at hp
  split at hu
  next ht =>
    rw [if_pos ht] at hi hp
    obtain ⟨instr, hf, hu⟩ := ok_of_bind hu
    obtain ⟨hbx, hpop⟩ := hi instr hf
    obtain ⟨hrm, hlr⟩ := hp instr hf
    exact dispatchThumb_aligned ht ha.even hbx hpop hrm hlr hu
  next ht =>
    rw [if_neg ht] at hi hp
    have ht : s.cpu.cpsr.thumb = false := by simpa using ht
    obtain ⟨instr, hf, hu⟩ := ok_of_bind hu
    split at hu
    · exact Handler.run_aligned ha ht (hi instr hf) (fun hc k => hp instr hf hc k) hu
    · exact unconditional_aligned ha ht hu

end

/-- In every run from an aligned state in which each step keeps to `Interworking` and `SparesPC`, PC
is aligned. -/
theorem pc_aligned {M : Type} (env : Environment M) (s : Machine M)
    (h : Run.Reachable (fun s : Machine M => s.cpu.Aligned)
      (fun s s' => Interworking env s ∧ SparesPC env s ∧ step env s = .ok s') s) :
    s.cpu.Aligned :=
  Run.Reachable.invariant (I := fun s : Machine M => s.cpu.Aligned) (fun _ => id)
    (fun _ _ ha hs => step_aligned ha hs.1 hs.2.1 hs.2.2) h

/-- A memory that holds one Thumb instruction everywhere, and nothing else. -/
def Environment.always (instr : ThumbInstr) : Environment Unit where
  fetchThumb _ _ := .ok instr
  fetchArm _ _ := .error .undefined
  compute _ _ s _ := .ok ⟨s.reg, s.cpsr, ()⟩
  readVirtualMemory _ _ _ := .ok (0, ())
  writeVirtualMemory _ _ _ _ := .ok ()
  hasSPSR _ := false
  storedReg s _ i := s.reg i
  restoreSPSR s _ := ⟨s.reg, s.cpsr, ()⟩
  switchesBank _ _ _ := false
  clearExclusive _ := ()

/-- Thumb state at `0x8000`, with `target` in the other registers. -/
def thumbAt (target : BitVec 32) : Machine Unit :=
  ⟨⟨fun i => if i = 15 then 0x8000 else target, { State.zero.cpsr with thumb := true }⟩, ()⟩

/-- `MOV PC, R0` with an even address. -/
theorem pc_aligned_mov :
    ∃ s', step (.always ⟨0x4687⟩) (thumbAt 0x9000) = .ok s' ∧ s'.cpu.Aligned := by
  refine ⟨_, rfl, pc_aligned (.always ⟨0x4687⟩) _
    (.next (.start (s := thumbAt 0x9000) ?_) ⟨?_, ?_, rfl⟩)⟩
  · decide
  · rintro _ ⟨rfl⟩
    exact ⟨fun h => absurd h (by decide), fun h => absurd h (by decide)⟩
  · rintro _ ⟨rfl⟩
    exact ⟨fun _ _ _ => by decide, fun h => absurd h (by decide)⟩

/-- `MOV PC, R0` with a return address of Thumb code, whose lowest bit is set. -/
theorem pc_odd_after_mov : ∃ s' : Machine Unit,
    Run.Reachable (fun s : Machine Unit => s.cpu.Aligned)
      (fun s s' => Interworking (.always ⟨0x4687⟩) s ∧ step (.always ⟨0x4687⟩) s = .ok s') s' ∧
    ¬ s'.cpu.Aligned := by
  refine ⟨_, .next (.start (s := thumbAt 0x9001) ?_) ⟨?_, rfl⟩, ?_⟩
  · decide
  · rintro _ ⟨rfl⟩
    exact ⟨fun h => absurd h (by decide), fun h => absurd h (by decide)⟩
  · decide

end Mikage.Arm
