import Mikage.Arm.Exclusive
import Mikage.Arm.Interpreter

/-!
# Loads and stores

`HandlerAddrMode3` and `HandlerMemoryAccess`, against one rule for the accessed address, the base
register and the data (`Reference.loadStore`).

Addressing mode 3 reads its base from the register itself, which for PC is not 8 bytes ahead.
Addressing mode 2 shifts its offset as data processing does, with no result for `ASR` by 1.
-/

namespace Mikage.Arm

def Width.bits : Width → Nat
  | byte => 8
  | half => 16
  | word => 32

/-- `ReadVirtualMemory` and `WriteVirtualMemory`, which may change the memory and all behind it. -/
structure DataMemory (M : Type) where
  read (w : Width) : BitVec 32 → M → Except Fault (BitVec w.bits × M)
  write (w : Width) : BitVec 32 → BitVec w.bits → M → Except Fault M

variable {M : Type}

/-- The environment with this memory. -/
def Environment.withMemory (env : Environment M) (mem : DataMemory M) : Environment M :=
  { env with
    readVirtualMemory := fun byteAccess addr m => do
      if byteAccess then
        let (value, m) ← mem.read .byte addr m
        pure (value.setWidth 32, m)
      else
        let (value, m) ← mem.read .word addr m
        pure (value.setWidth 32, m)
    writeVirtualMemory := fun byteAccess addr value m =>
      if byteAccess then mem.write .byte addr (value.setWidth _) m
      else mem.write .word addr (value.setWidth _) m }

/-! ## Addressing mode 3 -/

namespace ARMInstr

variable (instr : ARMInstr)

def addr3ImmedLo : BitVec 32 := (instr.raw.extractLsb' 0 4).setWidth 32
def addr3ImmedHi : BitVec 32 := (instr.raw.extractLsb' 8 4).setWidth 32

/-- Bit 22 of addressing mode 3. -/
def addr3Imm : Bool := instr.raw.getLsbD 22

end ARMInstr

namespace AddrMode3

def notImplemented := "Configuration not implemented"
def maybeNot := "Unpredictable configuration - maybe this isn't LDR/STR?"

/-- The offset without its sign. -/
def amount (cpu : State) (instr : ARMInstr) : BitVec 32 :=
  if instr.addr3Imm then (instr.addr3ImmedHi <<< 4) ||| instr.addr3ImmedLo else cpu.reg instr.idxRm

def offset (cpu : State) (instr : ARMInstr) : BitVec 32 :=
  (if instr.ldrU then 1 else -1) * amount cpu instr

/-- `instr.idx_rd % 2 && instr.idx_rd != 14 && (address & 7) != 0` -/
def unaligned (instr : ARMInstr) (address : BitVec 32) : Bool :=
  instr.idxRd.getLsbD 0 && instr.idxRd ≠ 14 && (address &&& 7) ≠ 0

def load (mem : DataMemory M) (w : Width) (value : BitVec w.bits → BitVec 32) (address : BitVec 32)
    (index : BitVec 4) (s : Machine M) : Except Fault (Machine M) := do
  let (v, rest) ← mem.read w address s.rest
  pure ({ s with rest := rest }.set index (value v))

def store (mem : DataMemory M) (w : Width) (address value : BitVec 32) (s : Machine M) :
    Except Fault (Machine M) := do
  let rest ← mem.write w address (value.setWidth w.bits) s.rest
  pure { s with rest := rest }

/-- The cases of the switch. -/
def access (mem : DataMemory M) (type : AddrMode3AccessType) (address : BitVec 32) (s : Machine M)
    (instr : ARMInstr) : Except Fault (Machine M) :=
  let rd := instr.idxRd
  match type with
  | .loadSignedByte => load mem .byte (·.signExtend 32) address rd s
  | .loadSignedHalfword => load mem .half (·.signExtend 32) address rd s
  | .loadUnsignedHalfword => load mem .half (·.setWidth 32) address rd s
  | .storeHalfword => store mem .half address (s.cpu.reg rd) s
  | .loadDoubleword =>
    if unaligned instr address then handlerStubWithMessage s.cpu instr unpredictableConfiguration
    else do
      let s ← load mem .word (·.setWidth 32) address rd s
      load mem .word (·.setWidth 32) (address + 4) (rd + 1) s
  | .storeDoubleword =>
    if unaligned instr address then handlerStubWithMessage s.cpu instr unpredictableConfiguration
    else do
      let s ← store mem .word address (s.cpu.reg rd) s
      store mem .word (address + 4) (s.cpu.reg (rd + 1)) s

end AddrMode3

open AddrMode3

def handlerAddrMode3 (mem : DataMemory M) (type : AddrMode3AccessType) (s : Machine M)
    (instr : ARMInstr) : Except Fault (Machine M × BitVec 32) :=
  conditional s.cpu instr s <|
    if instr.idxRd = 15 then handlerStubWithMessage s.cpu instr notImplemented
    else if !instr.ldrP ∧ instr.ldrW then handlerStubWithMessage s.cpu instr maybeNot
    else do
      let address := s.cpu.reg instr.idxRn
      let offset := offset s.cpu instr
      let address := if instr.ldrP then address + offset else address
      let s ← access mem type address s instr
      let address := if instr.ldrP then address else address + offset
      if instr.writesBack then
        if instr.idxRn = 15 then stub s instr
        else
          let s := s.set instr.idxRn address
          pure (s, nextInstr s.cpu)
      else pure (s, nextInstr s.cpu)

/-! ## The reference -/

/-- What is transferred, and which way. -/
inductive Transfer where
  | load (w : Width) (isSigned : Bool)
  | store (w : Width)
  | loadPair
  | storePair
  deriving DecidableEq, Repr

def Transfer.loads : Transfer → Bool
  | load .. | loadPair => true
  | _ => false

def AddrMode3AccessType.transfer : AddrMode3AccessType → Transfer
  | loadSignedByte => .load .byte true
  | loadSignedHalfword => .load .half true
  | loadUnsignedHalfword => .load .half false
  | loadDoubleword => .loadPair
  | storeHalfword => .store .half
  | storeDoubleword => .storePair

/-- `LDR`, `LDRB`, `STR` and `STRB`. -/
def mode2Transfer (byteAccess isStore : Bool) : Transfer :=
  let w := if byteAccess then Width.byte else .word
  if isStore then .store w else .load w false

namespace Reference

/-- A loaded value in its register. PC takes bit 0 for the state, and refuses 0b10. -/
def writeLoaded (index : BitVec 4) (value : BitVec 32) (s : Machine M) (instr : ARMInstr) :
    Except Fault (Machine M) :=
  if index ≠ 15 then .ok (s.set index value)
  else if value &&& 3 = 2 then stub s instr
  else .ok ((s.setThumb (value.getLsbD 0)).set 15 (value &&& ~~~1))

/-- The data at an address, with the width and the extension that are encoded. -/
def perform (mem : DataMemory M) (t : Transfer) (address : BitVec 32) (s : Machine M)
    (instr : ARMInstr) : Except Fault (Machine M) :=
  let rd := instr.idxRd
  match t with
  | .load w isSigned => do
    let (v, rest) ← mem.read w address s.rest
    writeLoaded rd (if isSigned then v.signExtend 32 else v.setWidth 32) { s with rest := rest } instr
  | .store w => do
    let rest ← mem.write w address ((s.cpu.fetchReg rd).setWidth w.bits) s.rest
    .ok { s with rest := rest }
  | .loadPair => do
    let (low, rest) ← mem.read .word address s.rest
    let (high, rest) ← mem.read .word (address + 4) rest
    .ok (({ s with rest := rest }.set rd (low.setWidth 32)).set (rd + 1) (high.setWidth 32))
  | .storePair => do
    let rest ← mem.write .word address ((s.cpu.reg rd).setWidth _) s.rest
    let rest ← mem.write .word (address + 4) ((s.cpu.reg (rd + 1)).setWidth _) rest
    .ok { s with rest := rest }

/-- The base with the offset added or subtracted. PC reads 8 bytes ahead. -/
def updated (amount : BitVec 32) (cpu : State) (instr : ARMInstr) : BitVec 32 :=
  let base := cpu.fetchReg instr.idxRn
  if instr.ldrU then base + amount else base - amount

/-- The updated base, or with post-indexing the base. -/
def address (amount : BitVec 32) (cpu : State) (instr : ARMInstr) : BitVec 32 :=
  if instr.ldrP then updated amount cpu instr else cpu.fetchReg instr.idxRn

/-- Every load and store. Behind it the base is the updated one with write-back or post-indexing. -/
def loadStore (mem : DataMemory M) (t : Transfer) (amount : BitVec 32) (s : Machine M)
    (instr : ARMInstr) : Except Fault (Machine M × BitVec 32) := do
  let u ← perform mem t (address amount s.cpu instr) s instr
  let u := if instr.writesBack then u.set instr.idxRn (updated amount s.cpu instr) else u
  .ok (u, if instr.idxRd = 15 ∧ t.loads then u.cpu.pc else nextInstr u.cpu)

/-- The offset of addressing mode 2, without its sign. -/
def mode2Amount (cpu : State) (instr : ARMInstr) : BitVec 32 :=
  if instr.ldrI then
    (shiftImm (cpu.fetchReg instr.idxRm) instr.addr1ShiftImm.toNat instr.addr1Shift
      cpu.cpsr.carry).value
  else instr.ldrOffset

end Reference

/-- What `HandlerAddrMode3` does not refuse. -/
def AddrMode3.Handled (type : AddrMode3AccessType) (cpu : State) (instr : ARMInstr) : Prop :=
  instr.idxRd ≠ 15 ∧ ¬ (instr.ldrP = false ∧ instr.ldrW = true) ∧
  (instr.writesBack = true → instr.idxRn ≠ 15) ∧
  (type = .loadDoubleword ∨ type = .storeDoubleword → unaligned instr
    (if instr.ldrP then cpu.reg instr.idxRn + offset cpu instr else cpu.reg instr.idxRn) = false)

/-- What `HandlerMemoryAccess` does not refuse. -/
def AddrMode2Handled (instr : ARMInstr) : Prop :=
  ¬ (instr.ldrI = true ∧ instr.raw.getLsbD 4 = true) ∧
  ¬ (instr.idxRn = instr.idxRd ∧ instr.writesBack = true) ∧
  (instr.writesBack = true → instr.idxRn ≠ 15)

instance (type : AddrMode3AccessType) (cpu : State) (instr : ARMInstr) :
    Decidable (AddrMode3.Handled type cpu instr) := by
  unfold AddrMode3.Handled
  infer_instance

instance (instr : ARMInstr) : Decidable (AddrMode2Handled instr) := by
  unfold AddrMode2Handled
  infer_instance

/-! ## Addressing mode 3 follows the rule -/

section

variable {mem : DataMemory M} {type : AddrMode3AccessType} {s : Machine M} {instr : ARMInstr}

theorem add_offset (base : BitVec 32) (cpu : State) (instr : ARMInstr) :
    base + offset cpu instr =
      if instr.ldrU then base + amount cpu instr else base - amount cpu instr := by
  rw [offset]
  split
  next => rw [one_mul]
  next => rw [neg_one_mul, sub_eq_add_neg]

theorem access_eq (hrd : instr.idxRd ≠ 15) {addr : BitVec 32}
    (h : type = .loadDoubleword ∨ type = .storeDoubleword → unaligned instr addr = false) :
    access mem type addr s instr = Reference.perform mem type.transfer addr s instr := by
  have hfetch : s.cpu.fetchReg instr.idxRd = s.cpu.reg instr.idxRd := if_neg hrd
  cases type with
  | loadSignedByte | loadSignedHalfword | loadUnsignedHalfword =>
    simp only [access, load, AddrMode3AccessType.transfer, Reference.perform, Reference.writeLoaded,
      ne_eq, hrd, not_false_eq_true, if_true, Bool.false_eq_true, if_false]
    rfl
  | storeHalfword =>
    simp only [access, store, AddrMode3AccessType.transfer, Reference.perform, hfetch]
    rfl
  | loadDoubleword =>
    simp only [access, h (.inl rfl), Bool.false_eq_true, if_false, AddrMode3AccessType.transfer,
      Reference.perform, load]
    cases mem.read .word addr s.rest with
    | error e => rfl
    | ok low =>
      show (do
        let r ← mem.read .word (addr + 4) low.2
        pure _) = (do
        let r ← mem.read .word (addr + 4) low.2
        _)
      cases mem.read .word (addr + 4) low.2 <;> rfl
  | storeDoubleword =>
    simp only [access, h (.inr rfl), Bool.false_eq_true, if_false, AddrMode3AccessType.transfer,
      Reference.perform, store]
    cases mem.write .word addr ((s.cpu.reg instr.idxRd).setWidth _) s.rest with
    | error e => rfl
    | ok rest =>
      show (do
        let r ← mem.write .word (addr + 4) _ rest
        pure _) = (do
        let r ← mem.write .word (addr + 4) _ rest
        _)
      cases mem.write .word (addr + 4) _ rest <;> rfl

theorem handlerAddrMode3_eq (hcond : evalCond s.cpu instr.cond = .ok true)
    (h : AddrMode3.Handled type s.cpu instr) (hrn : instr.idxRn ≠ 15) :
    handlerAddrMode3 mem type s instr =
      Reference.loadStore mem type.transfer (amount s.cpu instr) s instr := by
  obtain ⟨hrd, hpw, -, haligned⟩ := h
  have hfetch : s.cpu.fetchReg instr.idxRn = s.cpu.reg instr.idxRn := if_neg hrn
  have hpw : ¬ ((!instr.ldrP) = true ∧ instr.ldrW = true) := by simpa using hpw
  rw [handlerAddrMode3, conditional_true hcond, if_neg hrd, if_neg hpw]
  simp only [access_eq hrd haligned]
  simp only [Reference.loadStore, Reference.address, Reference.updated, hfetch, add_offset, hrd,
    false_and, if_false, hrn]
  cases hp : instr.ldrP <;> simp only [Bool.false_eq_true, if_false, if_true]
  all_goals
    generalize Reference.perform mem type.transfer _ s instr = r
    cases r with
    | error e => rfl
    | ok u =>
      cases hw : instr.writesBack
      · rfl
      · rfl

/-- A memory with one address that cannot be accessed. -/
def faultsAt (bad : BitVec 32) : DataMemory Unit where
  read _ addr m := if addr = bad then .error .undefined else .ok (0, m)
  write _ addr _ m := if addr = bad then .error .undefined else .ok m

theorem access_faults {s : Machine Unit} {a : BitVec 32}
    (h : type = .loadDoubleword ∨ type = .storeDoubleword → unaligned instr a = false) :
    access (faultsAt a) type a s instr = .error .undefined := by
  have hread : ∀ (w : Width) (value : BitVec w.bits → BitVec 32) (i : BitVec 4),
      load (faultsAt a) w value a i s = .error .undefined := by
    intro w value i
    simp only [load, faultsAt, if_true]
    rfl
  have hwrite : ∀ (w : Width) (value : BitVec 32),
      store (faultsAt a) w a value s = .error .undefined := by
    intro w value
    simp only [store, faultsAt, if_true]
    rfl
  cases type with
  | loadDoubleword =>
    simp only [access, h (.inl rfl), Bool.false_eq_true, if_false, hread]
    rfl
  | storeDoubleword =>
    simp only [access, h (.inr rfl), Bool.false_eq_true, if_false, hwrite]
    rfl
  | loadSignedByte | loadSignedHalfword | loadUnsignedHalfword => exact hread ..
  | storeHalfword => exact hwrite ..

theorem writeLoaded_zero (index : BitVec 4) (s : Machine M) {i : ARMInstr} :
    ∃ u, Reference.writeLoaded index 0 s i = .ok u := by
  rw [Reference.writeLoaded]
  split
  next => exact ⟨_, rfl⟩
  next => exact ⟨_, rfl⟩

theorem perform_runs {t : Transfer} {bad addr : BitVec 32} {s : Machine Unit} (h : addr ≠ bad)
    (h4 : addr + 4 ≠ bad) : ∃ u, Reference.perform (faultsAt bad) t addr s instr = .ok u := by
  cases t with
  | load w isSigned =>
    have hzero : (if isSigned then (0 : BitVec w.bits).signExtend 32
        else (0 : BitVec w.bits).setWidth 32) = 0 := by
      cases isSigned <;> cases w <;> rfl
    obtain ⟨u, hu⟩ := writeLoaded_zero instr.idxRd s (i := instr)
    refine ⟨u, ?_⟩
    simp only [Reference.perform, faultsAt, if_neg h]
    show Reference.writeLoaded _ _ _ _ = _
    rw [hzero]
    exact hu
  | store w =>
    simp only [Reference.perform, faultsAt, if_neg h]
    exact ⟨_, rfl⟩
  | loadPair =>
    simp only [Reference.perform, faultsAt, if_neg h, if_neg h4]
    exact ⟨_, rfl⟩
  | storePair =>
    simp only [Reference.perform, faultsAt, if_neg h, if_neg h4]
    exact ⟨_, rfl⟩

theorem loadStore_runs {t : Transfer} {b x : BitVec 32} {s : Machine Unit} {i : ARMInstr}
    (h : Reference.address x s.cpu i ≠ b) (h4 : Reference.address x s.cpu i + 4 ≠ b) :
    ∃ r, Reference.loadStore (faultsAt b) t x s i = .ok r := by
  obtain ⟨u, hu⟩ := perform_runs (t := t) (s := s) h h4
  rw [Reference.loadStore, hu]
  exact ⟨_, rfl⟩

/-- PC as the base of addressing mode 3 is not 8 bytes ahead. -/
theorem handlerAddrMode3_pc {s : Machine Unit} (hcond : evalCond s.cpu instr.cond = .ok true)
    (h : AddrMode3.Handled type s.cpu instr) (hrn : instr.idxRn = 15) :
    handlerAddrMode3 (faultsAt (s.cpu.pc + offset s.cpu instr)) type s instr ≠
      Reference.loadStore (faultsAt (s.cpu.pc + offset s.cpu instr)) type.transfer
        (amount s.cpu instr) s instr := by
  obtain ⟨hrd, hpw, hback, haligned⟩ := h
  have hp : instr.ldrP = true := by
    by_contra hp
    exact hback (by simp [ARMInstr.writesBack, hp]) hrn
  have hfault : handlerAddrMode3 (faultsAt (s.cpu.pc + offset s.cpu instr)) type s instr =
      .error .undefined := by
    rw [hp, if_pos rfl, hrn] at haligned
    rw [handlerAddrMode3, conditional_true hcond, if_neg hrd, if_neg (by simp [hp]), hrn]
    simp only [hp, if_true]
    show (do
      let u ← access (faultsAt (s.cpu.pc + offset s.cpu instr)) type
        (s.cpu.pc + offset s.cpu instr) s instr
      _) = _
    rw [access_faults (a := s.cpu.pc + offset s.cpu instr) haligned]
    rfl
  have haddr : Reference.address (amount s.cpu instr) s.cpu instr =
      s.cpu.pc + offset s.cpu instr + 8 := by
    have hfetch : s.cpu.fetchReg instr.idxRn = s.cpu.pc + 8 := by rw [State.fetchReg, if_pos hrn]
    simp only [Reference.address, hp, if_true, Reference.updated, hfetch, add_offset]
    split <;> bv_omega
  have h8 : Reference.address (amount s.cpu instr) s.cpu instr ≠ s.cpu.pc + offset s.cpu instr := by
    rw [haddr]
    bv_omega
  have h12 : Reference.address (amount s.cpu instr) s.cpu instr + 4 ≠
      s.cpu.pc + offset s.cpu instr := by
    rw [haddr]
    bv_omega
  obtain ⟨r, hr⟩ := loadStore_runs (t := type.transfer) h8 h12
  rw [hfault, hr]
  rintro ⟨⟩

end

/-! ## Addressing mode 2 follows the rule -/

section

variable {env : Environment M} {mem : DataMemory M} {byteAccess isStore : Bool} {s : Machine M}
  {instr : ARMInstr}

/-- The offset is a register shifted by `ASR` by 1. -/
def AddrMode2Undefined (instr : ARMInstr) : Prop :=
  instr.ldrI = true ∧ instr.addr1Shift = .asr ∧ instr.addr1ShiftImm = 1

instance (instr : ARMInstr) : Decidable (AddrMode2Undefined instr) :=
  inferInstanceAs (Decidable (_ ∧ _))

theorem addrOffset_eq (cpu : State) (instr : ARMInstr) : addrOffset cpu instr =
    if AddrMode2Undefined instr then .error .undefined
    else .ok (Reference.mode2Amount cpu instr) := by
  rw [addrOffset, Reference.mode2Amount,
    calcShifterOperandFromImmediate_eq _ _ (addr1ShiftImm_lt instr)]
  cases hi : instr.ldrI with
  | false =>
    rw [if_neg (by simp), if_neg (by simp [AddrMode2Undefined, hi]), if_neg (by simp)]
    rfl
  | true =>
    by_cases hone : instr.addr1Shift = .asr ∧ instr.addr1ShiftImm = 1
    · rw [if_pos rfl, if_pos hone, if_pos ⟨hi, hone⟩]
      rfl
    · rw [if_pos rfl, if_neg hone, if_neg fun h => hone h.2, if_pos rfl]
      rfl

theorem accessMemory_eq (base : BitVec 32) :
    accessMemory (env.withMemory mem) byteAccess isStore base s instr =
      Reference.perform mem (mode2Transfer byteAccess isStore) base s instr := by
  have hmask : (0xFFFFFFFE : BitVec 32) = ~~~1 := rfl
  have hload : ∀ (v : BitVec 32) (rest : M), (do
      let s : Machine M := { s with rest := rest }
      if instr.idxRd ≠ 15 then pure (s.set instr.idxRd v)
      else if v &&& 3 = 2 then stub s instr
      else pure ((s.setThumb (v.getLsbD 0)).set 15 (v &&& 0xFFFFFFFE))) =
      Reference.writeLoaded instr.idxRd v { s with rest := rest } instr := fun _ _ => rfl
  cases isStore with
  | true => cases byteAccess <;> rfl
  | false =>
    cases byteAccess with
    | true =>
      simp only [accessMemory, Environment.withMemory, Bool.false_eq_true, if_false, if_true,
        mode2Transfer, Reference.perform]
      cases mem.read .byte base s.rest with
      | error e => rfl
      | ok r => exact hload ..
    | false =>
      simp only [accessMemory, Environment.withMemory, Bool.false_eq_true, if_false,
        mode2Transfer, Reference.perform]
      cases mem.read .word base s.rest with
      | error e => rfl
      | ok r => exact hload ..

theorem mode2Transfer_loads : (mode2Transfer byteAccess isStore).loads = !isStore := by
  cases isStore <;> rfl

theorem handlerMemoryAccess_eq (hcond : evalCond s.cpu instr.cond = .ok true)
    (h : AddrMode2Handled instr) :
    handlerMemoryAccess (env.withMemory mem) byteAccess isStore s instr =
      if AddrMode2Undefined instr then .error .undefined
      else Reference.loadStore mem (mode2Transfer byteAccess isStore)
        (Reference.mode2Amount s.cpu instr) s instr := by
  obtain ⟨hbit, hsame, hback⟩ := h
  rw [handlerMemoryAccess, conditional_true hcond, if_neg hbit, if_neg hsame, addrOffset_eq]
  by_cases hundef : AddrMode2Undefined instr
  · rw [if_pos hundef, if_pos hundef]
    rfl
  · rw [if_neg hundef, if_neg hundef]
    have hbase : ∀ x, s.cpu.fetchReg instr.idxRn + (if instr.ldrU then x else -x) =
        Reference.updated x s.cpu instr := by
      intro x
      rw [Reference.updated]
      split
      next => rfl
      next => exact (BitVec.sub_eq_add_neg ..).symm
    have hrun : ∀ base offset : BitVec 32, offset = (if instr.ldrU then
          Reference.mode2Amount s.cpu instr else -Reference.mode2Amount s.cpu instr) →
        base = s.cpu.fetchReg instr.idxRn → (do
          let u ← accessMemory (env.withMemory mem) byteAccess isStore
            (if instr.ldrP then base + offset else base) s instr
          let w ← writeBack (base + offset) u instr
          pure (w, if !isStore ∧ instr.idxRd = 15 then w.cpu.pc else nextInstr w.cpu)) =
        Reference.loadStore mem (mode2Transfer byteAccess isStore)
          (Reference.mode2Amount s.cpu instr) s instr := by
      rintro base offset rfl rfl
      rw [hbase, accessMemory_eq, Reference.loadStore, Reference.address]
      generalize Reference.perform mem _ _ s instr = r
      cases r with
      | error e => rfl
      | ok u =>
        rw [mode2Transfer_loads]
        simp only [writeBack, and_comm (b := instr.idxRd = 15)]
        cases hw : instr.writesBack with
        | false => rfl
        | true =>
          simp only [if_true, if_neg (hback hw)]
          rfl
    exact hrun _ _ rfl rfl

end

/-! ## All loads and stores -/

/-- An environment that does nothing. -/
def Environment.idle : Environment Unit where
  fetchThumb _ _ := .error .undefined
  fetchArm _ _ := .error .undefined
  compute _ _ _ _ := .error .undefined
  readVirtualMemory _ _ m := .ok (0, m)
  writeVirtualMemory _ _ _ m := .ok m
  hasSPSR _ := false
  storedReg cpu _ i := cpu.reg i
  restoreSPSR cpu m := ⟨cpu.reg, cpu.cpsr, m⟩
  switchesBank _ _ _ := false
  clearExclusive m := m

/-- The instruction follows the rule over every memory. -/
def Mode3Follows (type : AddrMode3AccessType) (cpu : State) (instr : ARMInstr) : Prop :=
  ∀ (M : Type) (mem : DataMemory M) (rest : M), handlerAddrMode3 mem type ⟨cpu, rest⟩ instr =
    Reference.loadStore mem type.transfer (amount cpu instr) ⟨cpu, rest⟩ instr

def Mode2Follows (byteAccess isStore : Bool) (cpu : State) (instr : ARMInstr) : Prop :=
  ∀ (M : Type) (env : Environment M) (mem : DataMemory M) (rest : M),
    handlerMemoryAccess (env.withMemory mem) byteAccess isStore ⟨cpu, rest⟩ instr =
      Reference.loadStore mem (mode2Transfer byteAccess isStore)
        (Reference.mode2Amount cpu instr) ⟨cpu, rest⟩ instr

/-- **Loads and stores** follow the rule exactly where the base of addressing mode 3 is not PC, and
the offset of addressing mode 2 not shifted by `ASR` by 1. -/
theorem addressing_exact {cpu : State} {instr : ARMInstr}
    (hcond : evalCond cpu instr.cond = .ok true) :
    (∀ type, AddrMode3.Handled type cpu instr →
      (Mode3Follows type cpu instr ↔ instr.idxRn ≠ 15)) ∧
    ∀ byteAccess isStore, AddrMode2Handled instr →
      (Mode2Follows byteAccess isStore cpu instr ↔ ¬ AddrMode2Undefined instr) := by
  constructor
  · intro type h
    refine ⟨fun hall hrn => ?_, fun hrn M mem rest => ?_⟩
    · exact handlerAddrMode3_pc (s := ⟨cpu, ()⟩) hcond h hrn (hall Unit _ ())
    · exact handlerAddrMode3_eq (s := ⟨cpu, rest⟩) hcond h hrn
  · intro byteAccess isStore h
    refine ⟨fun hall hundef => ?_, fun hundef M env mem rest => ?_⟩
    · -- a memory that answers at the accessed address
      have hrun := hall Unit .idle
        (faultsAt (Reference.address (Reference.mode2Amount cpu instr) cpu instr + 8)) ()
      rw [handlerMemoryAccess_eq (s := ⟨cpu, ()⟩) hcond h, if_pos hundef] at hrun
      obtain ⟨r, hr⟩ := loadStore_runs (s := (⟨cpu, ()⟩ : Machine Unit)) (i := instr)
        (t := mode2Transfer byteAccess isStore) (x := Reference.mode2Amount cpu instr)
        (b := Reference.address (Reference.mode2Amount cpu instr) cpu instr + 8)
        (by show _ ≠ _ + 8; bv_omega) (by show _ + 4 ≠ _ + 8; bv_omega)
      rw [hr] at hrun
      cases hrun
    · rw [handlerMemoryAccess_eq (s := ⟨cpu, rest⟩) hcond h, if_neg hundef]

/-- `LDRH R0, [R1, #2]` -/
theorem addressing_exact_ldrh : Mode3Follows .loadUnsignedHalfword .zero ⟨0xE1D100B2⟩ :=
  ((addressing_exact (by decide)).1 .loadUnsignedHalfword (by decide)).2 (by decide)

/-- `LDRH R0, [PC]` -/
theorem ldrh_pc_not_ahead : ¬ Mode3Follows .loadUnsignedHalfword .zero ⟨0xE1DF00B0⟩ :=
  fun h => handlerAddrMode3_pc (s := ⟨.zero, ()⟩) (by decide) (by decide) (by decide)
    (h Unit _ ())

end Mikage.Arm
