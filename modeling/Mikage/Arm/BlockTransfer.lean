import Mikage.Arm.Interpreter
import Mikage.Arm.Banks
import Mikage.Lib.Masks
import Mikage.Lib.Words

/-!
# Block transfers

A block of registers that `STM` stores and the `LDM` of the opposite direction loads again. The
environment is `Environment.withModes`: words in memory, and the registers of the user that `STM`
stores in every other mode.
-/

namespace Mikage.Arm

open Lib.Words

/-- `ReadVirtualMemory` and `WriteVirtualMemory` of words. A plain address is that of a word which
lies in memory, without devices or hooks. -/
structure WordMemory (M : Type) where
  read : BitVec 32 → M → Except Fault (BitVec 32 × M)
  write : BitVec 32 → BitVec 32 → M → Except Fault M
  bytes : M → Bytes 32
  plain : BitVec 32 → Prop
  read_plain : ∀ a m, plain a → read a m = .ok (word (bytes m) a, m)
  write_plain : ∀ a v m, plain a →
    ∃ m', write a v m = .ok m' ∧ bytes m' = putWords (bytes m) a [v]

/-- A memory of bytes, all of it plain. -/
def WordMemory.flat : WordMemory (Bytes 32) where
  read a m := .ok (word m a, m)
  write a v m := .ok (putWords m a [v])
  bytes m := m
  plain _ := True
  read_plain _ _ _ := rfl
  write_plain _ _ _ _ := ⟨_, rfl, rfl⟩

/-- The memory, the mode of the processor, and `banked_regs_user` by the register that an element is
for. -/
structure ModeRest (M : Type) where
  mode : Mode
  bankedRegsUser : BitVec 4 → BitVec 32
  memory : M

variable {M : Type}

def ModeRest.hasSPSR (rest : ModeRest M) : Bool := rest.mode ≠ .user ∧ rest.mode ≠ .system

/-- The value that `STM` stores for a register. -/
def storedValue (cpu : State) (rest : ModeRest M) (i : BitVec 4) : BitVec 32 :=
  if i = 15 then cpu.fetchReg i
  else if 8 ≤ i ∧ rest.mode ≠ .user then rest.bankedRegsUser i
  else cpu.fetchReg i

def Environment.withModes (env : Environment (ModeRest M)) (mem : WordMemory M) :
    Environment (ModeRest M) :=
  { env with
    readVirtualMemory := fun byteAccess addr rest => do
      if byteAccess then env.readVirtualMemory true addr rest
      else
        let (value, m) ← mem.read addr rest.memory
        pure (value, { rest with memory := m })
    writeVirtualMemory := fun byteAccess addr value rest => do
      if byteAccess then env.writeVirtualMemory true addr value rest
      else
        let m ← mem.write addr value rest.memory
        pure { rest with memory := m }
    hasSPSR := ModeRest.hasSPSR
    storedReg := storedValue }

/-- A base register, a list of registers, and the bits U and P of the addressing mode. -/
structure Block where
  registers : BitVec 16
  base : BitVec 4
  up : Bool
  before : Bool
  deriving DecidableEq, Repr

def ARMInstr.block (instr : ARMInstr) : Block :=
  ⟨instr.raw.extractLsb' 0 16, instr.idxRn, instr.ldrU, instr.ldrP⟩

namespace Block

variable (b : Block)

/-- The mode that loads what this one stores. -/
def opposite : Block := ⟨b.registers, b.base, !b.up, !b.before⟩

/-- The registers, in ascending order. -/
def listed : List (BitVec 4) :=
  [0, 1, 2, 3, 4, 5, 6, 7, 8, 9, 10, 11, 12, 13, 14, 15].filter fun i =>
    b.registers.getLsbD i.toNat

def size : BitVec 32 := 4 * BitVec.ofNat 32 b.listed.length

/-- The lowest address, by the value of the base register. -/
def start (base : BitVec 32) : BitVec 32 :=
  match b.up, b.before with
  | true, false => base
  | true, true => base + 4
  | false, false => base - b.size + 4
  | false, true => base - b.size

/-- The value of the base register after the transfer. -/
def updated (base : BitVec 32) : BitVec 32 := if b.up then base + b.size else base - b.size

/-- The address of the `j`th register. -/
def slot (base : BitVec 32) (j : Nat) : BitVec 32 := b.start base + BitVec.ofNat 32 (4 * j)

end Block

/-- An `STM` with writeback and the `LDM` of the opposite direction, neither for the registers of
another mode. -/
structure Opposite (stm ldm : ARMInstr) : Prop where
  block : ldm.block = stm.block.opposite
  writeBack : stm.ldrW = true ∧ ldm.ldrW = true
  ownMode : stm.addr4S = false ∧ ldm.addr4S = false

/-- What a block transfer to memory leaves: the values of the registers from the lowest address on,
nothing else in memory changed, and the base register updated. -/
structure Stored (mem : WordMemory M) (b : Block) (value : BitVec 4 → BitVec 32)
    (s t : Machine (ModeRest M)) : Prop where
  word : ∀ j (h : j < b.listed.length), Lib.Words.word (mem.bytes t.rest.memory)
    (b.slot (s.cpu.fetchReg b.base) j) = value (b.listed.get ⟨j, h⟩)
  beside : ∀ x, (∀ k < 4 * b.listed.length,
    x ≠ b.start (s.cpu.fetchReg b.base) + BitVec.ofNat 32 k) →
      mem.bytes t.rest.memory x = mem.bytes s.rest.memory x
  base : t.cpu.reg b.base = b.updated (s.cpu.fetchReg b.base)
  reg : ∀ r, r ≠ b.base → t.cpu.reg r = s.cpu.reg r
  cpsr : t.cpu.cpsr = s.cpu.cpsr
  modes : t.rest.mode = s.rest.mode ∧ t.rest.bankedRegsUser = s.rest.bankedRegsUser

/-- What the transfer back leaves, with PC at the next instruction: the registers of before, PC
apart, and the memory of the transfer to it. -/
structure Restored (b : Block) (s t u : Machine (ModeRest M)) : Prop where
  reg : ∀ r, r ≠ 15 → u.cpu.reg r = s.cpu.reg r
  base : u.cpu.reg b.base = s.cpu.reg b.base
  rest : u.rest = t.rest

/-- The last word of the block is loaded to PC, and its lowest bit to the Thumb bit. -/
def LoadsPC (mem : WordMemory M) (b : Block) (s t u : Machine (ModeRest M)) : Prop :=
  ∃ v, v = word (mem.bytes t.rest.memory)
      (b.slot (s.cpu.fetchReg b.base) (b.listed.length - 1)) ∧
    u.cpu.pc = v &&& ~~~1 ∧ u.cpu.cpsr = { s.cpu.cpsr with thumb := v.getLsbD 0 }

/-- `STM` and then `LDM`, with PC set to the next instruction after each. -/
def RoundTrips (env : Environment (ModeRest M)) (mem : WordMemory M) (s : Machine (ModeRest M))
    (stm ldm : ARMInstr) : Prop :=
  ∃ t u next, handlerLdmStm (env.withModes mem) false s stm = .ok (t, s.cpu.pc + 4) ∧
    handlerLdmStm (env.withModes mem) true (t.set 15 (s.cpu.pc + 4)) ldm = .ok (u, next) ∧
    Stored mem stm.block s.cpu.fetchReg s t ∧ Restored stm.block s t (u.set 15 next) ∧
    if stm.block.registers.getLsbD 15 then LoadsPC mem stm.block s t (u.set 15 next)
    else next = s.cpu.pc + 8 ∧ u.cpu.cpsr = s.cpu.cpsr

/-- Every register that is stored has its own value in the bank of the user, if it is looked up
there. -/
def StoresOwn (s : Machine (ModeRest M)) (registers : BitVec 16) : Prop :=
  s.rest.mode = .user ∨ ∀ i : BitVec 4, registers.getLsbD i.toNat = true → 8 ≤ i → i ≠ 15 →
    s.rest.bankedRegsUser i = s.cpu.reg i

/-! ## Runs of the loop -/

section

variable {env : Environment (ModeRest M)} {mem : WordMemory M} {s : Machine (ModeRest M)}

def Machine.withMemory (s : Machine (ModeRest M)) (m : M) : Machine (ModeRest M) :=
  { s with rest := { s.rest with memory := m } }

theorem writeRegs_reg (cpu : State) (f : BitVec 4 → BitVec 32) (l : List (BitVec 4))
    (r : BitVec 4) : (writeRegs cpu f l).reg r = if r ∈ l then f r else cpu.reg r := by
  induction l generalizing cpu with
  | nil => rfl
  | cons i l ih =>
    rw [writeRegs, ih]
    by_cases hr : r = i
    · subst hr
      by_cases hl : r ∈ l
      · rw [if_pos hl, if_pos (.tail _ hl)]
      · rw [if_neg hl, if_pos (.head _), State.set_reg_self]
    · rw [State.set_reg_of_ne _ hr]
      simp only [List.mem_cons, hr, false_or]

theorem writeRegs_cpsr (cpu : State) (f : BitVec 4 → BitVec 32) (l : List (BitVec 4)) :
    (writeRegs cpu f l).cpsr = cpu.cpsr := by
  induction l generalizing cpu with
  | nil => rfl
  | cons i l ih => rw [writeRegs, ih, State.set_cpsr]

/-- The words from `a` on are plain. -/
def PlainFrom (mem : WordMemory M) (a : BitVec 32) (n : Nat) : Prop :=
  ∀ j < n, mem.plain (a + BitVec.ofNat 32 (4 * j))

theorem slot_succ (a : BitVec 32) (j : Nat) :
    a + 4 + BitVec.ofNat 32 (4 * j) = a + BitVec.ofNat 32 (4 * (j + 1)) := by
  rw [BitVec.add_assoc, Nat.mul_succ, Nat.add_comm, BitVec.ofNat_add]
  rfl

theorem PlainFrom.head {a : BitVec 32} {n : Nat} (h : PlainFrom mem a (n + 1)) : mem.plain a := by
  have h0 := h 0 (by omega)
  rwa [show a + BitVec.ofNat 32 (4 * 0) = a from BitVec.add_zero a] at h0

theorem PlainFrom.tail {a : BitVec 32} {n : Nat} (h : PlainFrom mem a (n + 1)) :
    PlainFrom mem (a + 4) n := by
  intro j hj
  rw [slot_succ]
  exact h (j + 1) (by omega)

theorem transfer_store {l : List (BitVec 4)} {a : BitVec 32} (h : PlainFrom mem a l.length)
    (hfit : l.length ≤ 16) :
    ∃ m, transfer (env.withModes mem) false l s a =
        .ok (s.withMemory m, a + BitVec.ofNat 32 (4 * l.length)) ∧
      mem.bytes m = putWords (mem.bytes s.rest.memory) a (l.map (storedValue s.cpu s.rest)) := by
  induction l generalizing s a with
  | nil => exact ⟨s.rest.memory, by rw [List.length_nil, Nat.mul_zero, BitVec.add_zero]; rfl, rfl⟩
  | cons i l ih =>
    simp only [List.length_cons] at h hfit
    obtain ⟨m, hwrite, hbytes⟩ :=
      mem.write_plain a (storedValue s.cpu s.rest i) s.rest.memory h.head
    obtain ⟨m', hrun, hbytes'⟩ := ih (s := s.withMemory m) h.tail (by omega)
    refine ⟨m', ?_, ?_⟩
    · have hstep : (env.withModes mem).writeVirtualMemory false a
          ((env.withModes mem).storedReg s.cpu s.rest i) s.rest =
            .ok (s.withMemory m).rest := by
        show (do
          let m ← mem.write a (storedValue s.cpu s.rest i) s.rest.memory
          pure { s.rest with memory := m }) = _
        rw [hwrite]
        rfl
      rw [transfer, if_neg (by decide), hstep, List.length_cons, ← slot_succ]
      exact hrun
    · rw [hbytes', List.map_cons, ← putWords_cons (by rw [List.length_map]; omega), ← hbytes]
      rfl

theorem withModes_read {a : BitVec 32} {rest : ModeRest M} (h : mem.plain a) :
    (env.withModes mem).readVirtualMemory false a rest =
      .ok (word (mem.bytes rest.memory) a, rest) := by
  simp only [Environment.withModes, Bool.false_eq_true, if_false, mem.read_plain a rest.memory h]
  rfl

theorem transfer_load {l : List (BitVec 4)} {a : BitVec 32} {f : BitVec 4 → BitVec 32}
    (h : PlainFrom mem a l.length)
    (hword : ∀ j (hj : j < l.length), word (mem.bytes s.rest.memory)
      (a + BitVec.ofNat 32 (4 * j)) = f (l.get ⟨j, hj⟩)) :
    transfer (env.withModes mem) true l s a =
      .ok ({ s with cpu := writeRegs s.cpu f l }, a + BitVec.ofNat 32 (4 * l.length)) := by
  induction l generalizing s a with
  | nil => rw [List.length_nil, Nat.mul_zero, BitVec.add_zero]; rfl
  | cons i l ih =>
    simp only [List.length_cons] at h
    have h0 : word (mem.bytes s.rest.memory) a = f i := by
      have h0 := hword 0 (by simp)
      rwa [show a + BitVec.ofNat 32 (4 * 0) = a from BitVec.add_zero a] at h0
    have hrun := ih (s := s.set i (f i)) h.tail fun j hj => by
      rw [slot_succ]
      exact hword (j + 1) (by simpa using hj)
    rw [transfer, if_pos rfl, withModes_read h.head, h0, List.length_cons, ← slot_succ]
    exact hrun

/-! ## The handlers -/

theorem transfer_append {env : Environment (ModeRest M)} (load : Bool) (l l' : List (BitVec 4))
    (s : Machine (ModeRest M)) (a : BitVec 32) : transfer env load (l ++ l') s a =
      transfer env load l s a >>= fun r => transfer env load l' r.1 r.2 := by
  induction l generalizing s a with
  | nil => rfl
  | cons i l ih =>
    cases load with
    | true =>
      simp only [List.cons_append, transfer, if_true, ih, bind_assoc]
    | false =>
      simp only [List.cons_append, transfer, Bool.false_eq_true, if_false, ih, bind_assoc]

theorem listed_eq (instr : ARMInstr) : instr.block.listed =
    registersBelowPC instr ++ if instr.raw.getLsbD 15 then [15] else [] := by
  have hbit : ∀ i : BitVec 4,
      instr.block.registers.getLsbD i.toNat = instr.raw.getLsbD i.toNat := by
    intro i
    have hi := i.isLt
    rw [ARMInstr.block, BitVec.getLsbD_extractLsb', Nat.zero_add]
    simp only [hi, decide_true, Bool.true_and]
  simp only [Block.listed, hbit]
  rw [show ([0, 1, 2, 3, 4, 5, 6, 7, 8, 9, 10, 11, 12, 13, 14, 15] : List (BitVec 4)) =
    [0, 1, 2, 3, 4, 5, 6, 7, 8, 9, 10, 11, 12, 13, 14] ++ [15] from rfl, List.filter_append]
  rw [registersBelowPC, List.append_cancel_left_eq, List.filter_cons, List.filter_nil]
  rfl

theorem registersAccessed_eq (instr : ARMInstr) :
    registersAccessed instr = instr.block.listed.length := by
  rw [listed_eq, List.length_append, registersAccessed]
  cases instr.raw.getLsbD 15 <;> rfl

theorem length_listed_le (b : Block) : b.listed.length ≤ 16 := List.length_filter_le ..

theorem mem_listed {b : Block} {i : BitVec 4} :
    i ∈ b.listed ↔ b.registers.getLsbD i.toNat = true := by
  rw [Block.listed, List.mem_filter, and_iff_right]
  revert i
  decide

theorem listed_pos {b : Block} (h : b.registers ≠ 0) : 0 < b.listed.length := by
  by_contra hlen
  refine h (BitVec.eq_of_getLsbD_eq fun i hi => ?_)
  have hnil := List.eq_nil_of_length_eq_zero (Nat.eq_zero_of_not_pos hlen)
  have hmem : ¬ BitVec.ofNat 4 i ∈ b.listed := by rw [hnil]; exact List.not_mem_nil
  rw [mem_listed, BitVec.toNat_ofNat, Nat.mod_eq_of_lt hi] at hmem
  rw [show (0 : BitVec 16).getLsbD i = false from BitVec.getLsbD_zero, Bool.eq_false_iff]
  exact hmem

theorem lowestAddr_eq {instr : ARMInstr} (h : instr.block.registers ≠ 0) :
    lowestAddr s instr = instr.block.start (s.cpu.fetchReg instr.idxRn) := by
  obtain ⟨n, hn⟩ : ∃ n, instr.block.listed.length = n + 1 :=
    ⟨_, (Nat.succ_pred_eq_of_pos (listed_pos h)).symm⟩
  have hsize : instr.block.size = 4 * BitVec.ofNat 32 n + 4 := by
    rw [Block.size, hn, BitVec.ofNat_add, mul_add]
    rfl
  rw [lowestAddr, registersAccessed_eq, Block.start, hsize, hn, Nat.add_sub_cancel]
  rw [show instr.block.up = instr.ldrU from rfl, show instr.block.before = instr.ldrP from rfl]
  generalize s.cpu.fetchReg instr.idxRn = base
  generalize 4 * BitVec.ofNat 32 n = k
  cases instr.ldrU <;> cases instr.ldrP <;>
    simp only [if_true, if_false, Bool.false_eq_true] <;> ring

theorem handlerStm_eq {instr : ARMInstr} (hcond : evalCond s.cpu instr.cond = .ok true)
    (hne : instr.block.registers ≠ 0) (hw : instr.ldrW = true)
    (hplain : PlainFrom mem (instr.block.start (s.cpu.fetchReg instr.idxRn))
      instr.block.listed.length) :
    ∃ m, handlerLdmStm (env.withModes mem) false s instr =
        .ok ((s.withMemory m).set instr.idxRn
          (instr.block.updated (s.cpu.fetchReg instr.idxRn)), s.cpu.pc + 4) ∧
      mem.bytes m = putWords (mem.bytes s.rest.memory)
        (instr.block.start (s.cpu.fetchReg instr.idxRn))
        (instr.block.listed.map (storedValue s.cpu s.rest)) := by
  obtain ⟨m, hrun, hbytes⟩ := @transfer_store _ env _ s _ _ hplain (length_listed_le _)
  refine ⟨m, ?_, hbytes⟩
  rw [listed_eq, transfer_append] at hrun
  obtain ⟨⟨t, a'⟩, hbelow, hpc⟩ := ok_of_bind hrun
  have hlast : transferPC (env.withModes mem) false s.cpu.pc t instr a' =
      .ok (s.withMemory m, s.cpu.pc + 4) := by
    rw [transferPC]
    cases h15 : instr.raw.getLsbD 15 with
    | false =>
      rw [h15] at hpc
      cases hpc
      rfl
    | true =>
      simp only [h15, if_true, transfer, Bool.false_eq_true, if_false] at hpc
      obtain ⟨rest, hwrite, hpc⟩ := ok_of_bind hpc
      have hstate := (Prod.mk.inj (Except.ok.inj hpc)).1
      simp only [Bool.not_true, Bool.false_eq_true, if_false, hwrite, ← hstate]
      rfl
  have hregs : ¬ instr.raw.extractLsb' 0 16 = 0 := hne
  simp only [handlerLdmStm, conditional_true hcond, if_neg hregs, Bool.false_eq_true, false_and,
    if_false, lowestAddr_eq hne, hbelow, hw, if_true, registersAccessed_eq]
  simp only [bind, Except.bind, hlast]
  rfl

/-- The registers and flags that the words of `LDM` give, `f r` for register `r`. -/
def loaded (cpu : State) (f : BitVec 4 → BitVec 32) (instr : ARMInstr) : State :=
  let cpu' := writeRegs cpu f (registersBelowPC instr)
  if instr.raw.getLsbD 15 then cpu'.setPsr fun p => { p with thumb := (f 15).getLsbD 0 } else cpu'

theorem handlerLdm_eq {instr : ARMInstr} {f : BitVec 4 → BitVec 32}
    (hcond : evalCond s.cpu instr.cond = .ok true) (hne : instr.block.registers ≠ 0)
    (hw : instr.ldrW = true) (hown : instr.addr4S = false)
    (hplain : PlainFrom mem (instr.block.start (s.cpu.fetchReg instr.idxRn))
      instr.block.listed.length)
    (hword : ∀ j (hj : j < instr.block.listed.length), word (mem.bytes s.rest.memory)
      (instr.block.slot (s.cpu.fetchReg instr.idxRn) j) =
        f (instr.block.listed.get ⟨j, hj⟩)) :
    handlerLdmStm (env.withModes mem) true s instr =
      .ok (⟨(loaded s.cpu f instr).set instr.idxRn
          (instr.block.updated (s.cpu.fetchReg instr.idxRn)), s.rest⟩,
        if instr.raw.getLsbD 15 then f 15 &&& ~~~1 else s.cpu.pc + 4) := by
  have hregs : ¬ instr.raw.extractLsb' 0 16 = 0 := hne
  have hlist := listed_eq instr
  generalize hstart : instr.block.start (s.cpu.fetchReg instr.idxRn) = a at hplain
  have hbelow : transfer (env.withModes mem) true (registersBelowPC instr) s a =
      .ok (⟨writeRegs s.cpu f (registersBelowPC instr), s.rest⟩,
        a + BitVec.ofNat 32 (4 * (registersBelowPC instr).length)) := by
    rw [hlist, List.length_append] at hplain
    refine transfer_load (fun j hj => hplain j (by omega)) fun j hj => ?_
    have hj' : j < instr.block.listed.length := by
      rw [hlist, List.length_append]
      omega
    rw [← hstart]
    refine (hword j hj').trans ?_
    simp only [List.get_eq_getElem, hlist, List.getElem_append_left hj]
  have hlast : transferPC (env.withModes mem) true s.cpu.pc
      ⟨writeRegs s.cpu f (registersBelowPC instr), s.rest⟩ instr
      (a + BitVec.ofNat 32 (4 * (registersBelowPC instr).length)) =
        .ok (⟨loaded s.cpu f instr, s.rest⟩,
          if instr.raw.getLsbD 15 then f 15 &&& ~~~1 else s.cpu.pc + 4) := by
    rw [transferPC, loaded]
    cases h15 : instr.raw.getLsbD 15 with
    | false => rfl
    | true =>
      rw [h15, if_pos rfl] at hlist
      have hlen : (registersBelowPC instr).length < instr.block.listed.length := by
        rw [hlist, List.length_append]
        exact Nat.lt_succ_self _
      have hval := hword _ hlen
      rw [Block.slot, hstart] at hval
      simp only [List.get_eq_getElem, hlist, List.getElem_concat_length] at hval
      simp only [Bool.not_true, Bool.false_eq_true, if_false, if_true, loadPC,
        withModes_read (hplain _ hlen), hval, hown]
      rfl
  simp only [handlerLdmStm, conditional_true hcond, if_neg hregs, hown, Bool.false_eq_true,
    false_and, and_false, if_false, lowestAddr_eq hne, hstart, hbelow, hw, if_true,
    registersAccessed_eq]
  simp only [bind, Except.bind, hlast]
  rfl

/-- `STM` stores what it looks up. -/
theorem handlerStm_stored {stm : ARMInstr} (hcond : evalCond s.cpu stm.cond = .ok true)
    (hne : stm.block.registers ≠ 0) (hw : stm.ldrW = true)
    (hplain : PlainFrom mem (stm.block.start (s.cpu.fetchReg stm.idxRn))
      stm.block.listed.length) :
    ∃ t, handlerLdmStm (env.withModes mem) false s stm = .ok (t, s.cpu.pc + 4) ∧
      Stored mem stm.block (storedValue s.cpu s.rest) s t := by
  obtain ⟨m, hrun, hbytes⟩ := @handlerStm_eq _ env _ _ _ hcond hne hw hplain
  refine ⟨_, hrun, ?_⟩
  have hfit := length_listed_le stm.block
  have hmem : mem.bytes ((s.withMemory m).set stm.idxRn
      (stm.block.updated (s.cpu.fetchReg stm.idxRn))).rest.memory = _ := hbytes
  constructor
  · intro j hj
    rw [hmem, Block.slot, show s.cpu.fetchReg stm.block.base = s.cpu.fetchReg stm.idxRn from rfl,
      word_putWords (by rw [List.length_map]; omega) (by rwa [List.length_map]), List.getElem_map]
    rfl
  · intro x hx
    rw [hmem]
    exact putWords_beside (by rwa [List.length_map])
  · exact State.set_reg_self ..
  · intro r hr
    exact State.set_reg_of_ne _ hr _
  · rfl
  · exact ⟨rfl, rfl⟩

theorem start_opposite (b : Block) (base : BitVec 32) :
    b.opposite.start (b.updated base) = b.start base := by
  have hsize : b.opposite.size = b.size := rfl
  rw [Block.start, Block.start, Block.updated, hsize, show b.opposite.up = !b.up from rfl,
    show b.opposite.before = !b.before from rfl]
  cases b.up <;> cases b.before <;> simp only [Bool.not_true, Bool.not_false, if_true, if_false,
    Bool.false_eq_true] <;> ring

theorem updated_opposite (b : Block) (base : BitVec 32) :
    b.opposite.updated (b.updated base) = base := by
  have hsize : b.opposite.size = b.size := rfl
  rw [Block.updated, Block.updated, hsize, show b.opposite.up = !b.up from rfl]
  cases b.up <;> simp only [Bool.not_true, Bool.not_false, if_true, if_false,
    Bool.false_eq_true] <;> ring

theorem start_congr {b c : Block} (hup : b.up = c.up) (hbefore : b.before = c.before)
    (hlen : b.listed.length = c.listed.length) (base : BitVec 32) :
    b.start base = c.start base ∧ b.updated base = c.updated base := by
  constructor
  · rw [Block.start, Block.start, Block.size, Block.size, hup, hbefore, hlen]
  · rw [Block.updated, Block.updated, Block.size, Block.size, hup, hlen]

/-- The transfer back of what has been stored, `f` for the registers loaded being `g` for the
registers stored. -/
theorem handlerLdm_back {stm ldm : ARMInstr} {t t' : Machine (ModeRest M)}
    {f g : BitVec 4 → BitVec 32} (hstored : Stored mem stm.block g s t) (hrest : t'.rest = t.rest)
    (hrn : stm.idxRn ≠ 15) (hbase : t'.cpu.reg stm.idxRn = t.cpu.reg stm.idxRn)
    (hcond : evalCond t'.cpu ldm.cond = .ok true) (hne : ldm.block.registers ≠ 0)
    (hw : ldm.ldrW = true) (hown : ldm.addr4S = false)
    (hsame : ldm.idxRn = stm.idxRn) (hup : ldm.ldrU = !stm.ldrU) (hbefore : ldm.ldrP = !stm.ldrP)
    (hplain : PlainFrom mem (stm.block.start (s.cpu.fetchReg stm.idxRn))
      stm.block.listed.length)
    (hf : ldm.block.listed.map f = stm.block.listed.map g) :
    handlerLdmStm (env.withModes mem) true t' ldm =
      .ok (⟨(loaded t'.cpu f ldm).set stm.idxRn (s.cpu.reg stm.idxRn), t.rest⟩,
        if ldm.raw.getLsbD 15 then f 15 &&& ~~~1 else t'.cpu.pc + 4) := by
  have hlen : ldm.block.listed.length = stm.block.listed.length := by
    simpa using congrArg List.length hf
  have hfetch : t'.cpu.fetchReg ldm.idxRn =
      stm.block.updated (s.cpu.fetchReg stm.idxRn) := by
    rw [State.fetchReg, hsame, if_neg hrn, hbase]
    exact hstored.base
  have hcongr := @start_congr ldm.block stm.block.opposite hup hbefore hlen
  have hstart : ldm.block.start (t'.cpu.fetchReg ldm.idxRn) =
      stm.block.start (s.cpu.fetchReg stm.idxRn) := by
    rw [hfetch, (hcongr _).1, start_opposite]
  have hupdated : ldm.block.updated (t'.cpu.fetchReg ldm.idxRn) = s.cpu.reg stm.idxRn := by
    rw [hfetch, (hcongr _).2, updated_opposite, State.fetchReg, if_neg hrn]
  rw [handlerLdm_eq hcond hne hw hown (f := f), hupdated, hsame, hrest]
  · rwa [hstart, hlen]
  · intro j hj
    have hj' : j < stm.block.listed.length := by omega
    have hval : f (ldm.block.listed.get ⟨j, hj⟩) = g (stm.block.listed.get ⟨j, hj'⟩) := by
      have hmap := List.getElem_of_eq hf (by rwa [List.length_map])
      simpa only [List.getElem_map, List.get_eq_getElem] using hmap
    rw [Block.slot, hstart, hrest, hval]
    exact hstored.word j hj'

theorem loaded_reg (cpu : State) (f : BitVec 4 → BitVec 32) (instr : ARMInstr) (r : BitVec 4) :
    (loaded cpu f instr).reg r = if r ∈ registersBelowPC instr then f r else cpu.reg r := by
  rw [← writeRegs_reg, loaded]
  cases instr.raw.getLsbD 15 <;> rfl

theorem loaded_cpsr (cpu : State) (f : BitVec 4 → BitVec 32) (instr : ARMInstr) :
    (loaded cpu f instr).cpsr = if instr.raw.getLsbD 15 then
      { cpu.cpsr with thumb := (f 15).getLsbD 0 } else cpu.cpsr := by
  rw [loaded]
  cases instr.raw.getLsbD 15 with
  | false => exact writeRegs_cpsr ..
  | true =>
    simp only [if_true, State.setPsr_cpsr, writeRegs_cpsr]

/-- The state after the transfer back, with PC at the next instruction. -/
def broughtBack (s t t' : Machine (ModeRest M)) (f : BitVec 4 → BitVec 32) (stm ldm : ARMInstr)
    (next : BitVec 32) : Machine (ModeRest M) :=
  Machine.set ⟨(loaded t'.cpu f ldm).set stm.idxRn (s.cpu.reg stm.idxRn), t.rest⟩ 15 next

theorem broughtBack_restored {stm ldm : ARMInstr} {t t' : Machine (ModeRest M)}
    {f g : BitVec 4 → BitVec 32} {next : BitVec 32} (hstored : Stored mem stm.block g s t)
    (hreg : ∀ r, r ≠ 15 → t'.cpu.reg r = t.cpu.reg r) (hrn : stm.idxRn ≠ 15)
    (hf : ∀ r ∈ registersBelowPC ldm, f r = s.cpu.reg r) :
    Restored stm.block s t (broughtBack s t t' f stm ldm next) := by
  have hall : ∀ r, r ≠ 15 → (broughtBack s t t' f stm ldm next).cpu.reg r = s.cpu.reg r := by
    intro r hr
    rw [broughtBack, Machine.set, State.set_reg_of_ne _ hr]
    by_cases hbase : r = stm.idxRn
    · rw [hbase, State.set_reg_self]
    · rw [State.set_reg_of_ne _ hbase, loaded_reg]
      split
      next hmem => exact hf r hmem
      next => rw [hreg r hr, hstored.reg r hbase]
  exact ⟨hall, hall _ hrn, rfl⟩

theorem broughtBack_loadsPC {stm ldm : ARMInstr} {t t' : Machine (ModeRest M)}
    {f g : BitVec 4 → BitVec 32} (hstored : Stored mem stm.block g s t)
    (hcpsr : t'.cpu.cpsr = s.cpu.cpsr) (h15 : ldm.raw.getLsbD 15 = true)
    {l : List (BitVec 4)} {i : BitVec 4} (hlast : stm.block.listed = l ++ [i]) (hf : f 15 = g i) :
    LoadsPC mem stm.block s t (broughtBack s t t' f stm ldm (f 15 &&& ~~~1)) := by
  have hlen : stm.block.listed.length - 1 = l.length := by
    rw [hlast, List.length_append]
    rfl
  have hlt : l.length < stm.block.listed.length := by
    rw [hlast, List.length_append]
    exact Nat.lt_succ_self _
  have hword := hstored.word _ hlt
  simp only [List.get_eq_getElem, hlast, List.getElem_concat_length] at hword
  refine ⟨f 15, ?_, State.set_reg_self .., ?_⟩
  · rw [hlen, hf, ← hword]
  · show (loaded t'.cpu f ldm).cpsr = _
    rw [loaded_cpsr, if_pos h15, hcpsr]

theorem storesOwn_iff {b : Block} : StoresOwn s b.registers ↔
    ∀ i ∈ b.listed, storedValue s.cpu s.rest i = s.cpu.fetchReg i := by
  simp only [mem_listed]
  constructor
  · rintro h i hi
    rw [storedValue]
    split
    · rfl
    next h15 =>
      split
      next hbank =>
        rw [State.fetchReg, if_neg h15]
        exact (h.resolve_left hbank.2) i hi hbank.1 h15
      · rfl
  · intro h
    by_cases huser : s.rest.mode = .user
    · exact .inl huser
    · refine .inr fun i hi h8 h15 => ?_
      have hi := h i hi
      rwa [storedValue, if_neg h15, if_pos ⟨h8, huser⟩, State.fetchReg, if_neg h15] at hi

/-- What has been stored is what the registers hold only if it is looked up there. -/
theorem Stored.own {b : Block} {g : BitVec 4 → BitVec 32} {t : Machine (ModeRest M)}
    (h : Stored mem b s.cpu.fetchReg s t) (hg : Stored mem b g s t) :
    ∀ i ∈ b.listed, g i = s.cpu.fetchReg i := by
  intro i hi
  obtain ⟨j, hj, rfl⟩ := List.getElem_of_mem hi
  exact (hg.word j hj).symm.trans (h.word j hj)

theorem Stored.congr {b : Block} {f g : BitVec 4 → BitVec 32} {t : Machine (ModeRest M)}
    (h : Stored mem b g s t) (hg : ∀ i ∈ b.listed, g i = f i) : Stored mem b f s t :=
  { h with word := fun j hj => (h.word j hj).trans (hg _ (List.get_mem ..)) }

/-! ## ARM -/

theorem evalCond_cpsr {cpu cpu' : State} (h : cpu'.cpsr = cpu.cpsr) (cond : BitVec 4) :
    evalCond cpu' cond = evalCond cpu cond := by
  rw [evalCond, evalCond, h]

theorem pc_ahead_ne (pc : BitVec 32) : (pc + 8) &&& ~~~1 ≠ pc := by
  intro h
  have hnat := congrArg BitVec.toNat h
  rw [show (1 : BitVec 32) = BitVec.ofNat 32 (2 ^ 1 - 1) from rfl, BitVec.toNat_and_not_mask,
    BitVec.toNat_add, show (8 : BitVec 32).toNat = 8 from rfl] at hnat
  have := pc.isLt
  omega

theorem below_listed {instr : ARMInstr} {r : BitVec 4} (h : r ∈ registersBelowPC instr) :
    r ∈ instr.block.listed ∧ r ≠ 15 := by
  constructor
  · rw [listed_eq]
    exact List.mem_append_left _ h
  · rintro rfl
    exact absurd (List.mem_filter.1 h).1 (by decide)

theorem block_getLsbD_15 (instr : ARMInstr) :
    instr.block.registers.getLsbD 15 = instr.raw.getLsbD 15 := by
  rw [ARMInstr.block, BitVec.getLsbD_extractLsb']
  rfl

theorem roundTrips_iff {stm ldm : ARMInstr} (h : Opposite stm ldm)
    (hstm : evalCond s.cpu stm.cond = .ok true) (hldm : evalCond s.cpu ldm.cond = .ok true)
    (hne : stm.block.registers ≠ 0)
    (hplain : PlainFrom mem (stm.block.start (s.cpu.fetchReg stm.idxRn))
      stm.block.listed.length) :
    RoundTrips env mem s stm ldm ↔ stm.idxRn ≠ 15 ∧ StoresOwn s stm.block.registers := by
  obtain ⟨t, hrun, hstored⟩ := @handlerStm_stored _ env _ _ _ hstm hne h.writeBack.1 hplain
  have hlast : stm.raw.getLsbD 15 = true →
      stm.block.listed = registersBelowPC stm ++ [15] := by
    intro h15
    rw [listed_eq, if_pos h15]
  rw [RoundTrips, block_getLsbD_15]
  constructor
  · rintro ⟨t', u, next, hrun', -, hown, hback, hpc⟩
    have hsame : t' = t := (Prod.mk.inj (Except.ok.inj (hrun'.symm.trans hrun))).1
    subst hsame
    refine ⟨fun hrn => ?_, storesOwn_iff.2 (hown.own hstored)⟩
    -- the base is PC, which has gone on
    have hbase : next = s.cpu.pc := by
      have hbase := hback.base
      rw [show stm.block.base = 15 from hrn] at hbase
      exact (State.set_reg_self ..).symm.trans hbase
    split at hpc
    next h15 =>
      obtain ⟨v, hv, hload, -⟩ := hpc
      have hlen : stm.block.listed.length - 1 < stm.block.listed.length :=
        Nat.sub_lt (listed_pos hne) (by decide)
      have hword := hown.word _ hlen
      rw [← hv, List.get_eq_getElem, List.getElem_of_eq (hlast h15)] at hword
      simp only [hlast h15, List.length_append, List.length_singleton, Nat.add_sub_cancel,
        List.getElem_concat_length] at hword
      have hnext : next = v &&& ~~~1 := (State.set_reg_self ..).symm.trans hload
      rw [hnext, hword] at hbase
      exact absurd hbase (pc_ahead_ne _)
    next =>
      rw [hbase] at hpc
      exact absurd hpc.1 (by simp)
  · rintro ⟨hrn, hown⟩
    have hregs : ldm.block.registers = stm.block.registers := by
      rw [h.block]
      rfl
    have hsame : ldm.idxRn = stm.idxRn := congrArg Block.base h.block
    have hlisted : ldm.block.listed = stm.block.listed := by
      rw [h.block]
      rfl
    have h15 : ldm.raw.getLsbD 15 = stm.raw.getLsbD 15 := by
      rw [← block_getLsbD_15, hregs, block_getLsbD_15]
    have hval := storesOwn_iff.1 hown
    have hkept : ∀ r, r ≠ 15 → (t.set 15 (s.cpu.pc + 4)).cpu.reg r = t.cpu.reg r :=
      fun r hr => State.set_reg_of_ne _ hr _
    have hback := @handlerLdm_back _ env _ _ _ _ _ (t.set 15 (s.cpu.pc + 4)) _ _ hstored rfl hrn
      (hkept _ hrn) ((evalCond_cpsr hstored.cpsr _).trans hldm) (hregs ▸ hne) h.writeBack.2
      h.ownMode.2 hsame (congrArg Block.up h.block) (congrArg Block.before h.block) hplain
      (congrArg _ hlisted)
    refine ⟨t, _, _, hrun, hback, hstored.congr hval, ?_, ?_⟩
    · refine broughtBack_restored hstored hkept hrn fun r hr => ?_
      obtain ⟨hmem, hpc⟩ := below_listed hr
      rw [hval r (hlisted ▸ hmem), State.fetchReg, if_neg hpc]
    · rw [h15]
      split
      next hpc => exact broughtBack_loadsPC hstored hstored.cpsr (h15.trans hpc) (hlast hpc) rfl
      next hpc =>
        refine ⟨?_, ?_⟩
        · show s.cpu.pc + 4 + 4 = _
          rw [BitVec.add_assoc]
          rfl
        · show (loaded _ _ _).cpsr = _
          rw [loaded_cpsr, if_neg (h15 ▸ hpc)]
          exact hstored.cpsr

end

end Mikage.Arm
