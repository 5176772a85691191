import Mikage.Arm.DataProcessing
import Mikage.Arm.Dispatch
import Mikage.Arm.Thumb

/-!
# The interpreter

`StepWithDispatchTable` and `DispatchThumb`. What an instruction does to PC, to the Thumb bit and to
the choice of the registers it writes is that of the source. What does not bear on these is a
parameter, `Environment`: memory, the other processor modes, and the values that the `Plain`
handlers compute.
-/

namespace Mikage.Arm

/-- A processor and everything else. -/
structure Machine (M : Type) where
  cpu : State
  rest : M

namespace Machine

variable {M : Type} (s : Machine M)

def set (index : BitVec 4) (value : BitVec 32) : Machine M :=
  { s with cpu := s.cpu.set index value }

def setThumb (thumb : Bool) : Machine M :=
  { s with cpu := s.cpu.setPsr fun p => { p with thumb := thumb } }

end Machine

/-- The values a handler computes: one for each register it writes, and the flags. -/
structure Computed (M : Type) where
  value : BitVec 4 → BitVec 32
  flags : PSR
  rest : M

structure Environment (M : Type) where
  fetchThumb : State → M → Except Fault ThumbInstr
  fetchArm : State → M → Except Fault ARMInstr
  compute : Plain → ARMInstr → State → M → Except Fault (Computed M)
  readVirtualMemory (byteAccess : Bool) (addr : BitVec 32) : M → Except Fault (BitVec 32 × M)
  writeVirtualMemory (byteAccess : Bool) (addr value : BitVec 32) : M → Except Fault M
  hasSPSR : M → Bool
  /-- The value `STM` stores, which in a privileged mode is that of a banked register. -/
  storedReg : State → M → BitVec 4 → BitVec 32
  /-- `ReplaceCPSR(GetSPSR(mode))`; `flags` is the whole of the new CPSR. -/
  restoreSPSR : State → M → Computed M
  /-- `MSR` writes a mode other than the current one, which has registers of its own. -/
  switchesBank : ARMInstr → State → M → Bool
  clearExclusive : M → M

variable {M : Type} (env : Environment M)

def stub {α : Type} (s : Machine M) (instr : ARMInstr) : Except Fault α :=
  handlerStubWithMessage s.cpu instr ""

/-! ## Handlers that go on with the next instruction -/

namespace ARMInstr

variable (instr : ARMInstr)

def ldrW : Bool := instr.raw.getLsbD 21
def ldrU : Bool := instr.raw.getLsbD 23
def ldrP : Bool := instr.raw.getLsbD 24
def ldrI : Bool := instr.raw.getLsbD 25
def ldrOffset : BitVec 32 := (instr.raw.extractLsb' 0 12).setWidth 32
def addr4S : Bool := instr.raw.getLsbD 22
def branchTarget : BitVec 32 := (instr.raw.extractLsb' 0 24).signExtend 32
def identifier4to23 : BitVec 20 := instr.raw.extractLsb' 4 20

/-- The base register is updated. -/
def writesBack : Bool := !instr.ldrP || instr.ldrW

end ARMInstr

def AddrMode3AccessType.loads : AddrMode3AccessType → Bool
  | storeHalfword | storeDoubleword => false
  | _ => true

namespace Plain

/-- The checks on the instruction that end in a stub, those in front of the first write and those
behind the last. -/
def refuses (k : Plain) (instr : ARMInstr) : Bool :=
  let pc (index : BitVec 4) : Bool := index = 15
  let rd := instr.idxRd
  let rn := instr.idxRn
  let rs := instr.idxRs
  let rm := instr.idxRm
  match k with
  | and | eor | sub | rsb | adc | sbc | rsc | orr | bic | mvn | tst | teq => pc rd
  | cmp | cmn => false
  -- the result goes to Rn
  | mul | mla => pc rd
  | umaal | smlaxx => pc rd || pc rn || pc rs || pc rm
  | smull | smlal | umull | umlal => pc rd || pc rn
  | smulxx => pc rn || pc rs || pc rm
  | clz => pc rd || pc rm
  | ldrex | ldrexb | ldrexh | strex | strexb | strexh => false
  | ldrexd => rd.getLsbD 0 || rd = 14 || pc rn
  | strexd => rm.getLsbD 0 || rm = 14 || pc rn || pc rd || rd = rn || rd = rm || rd = rm + 1
  | addrMode3 _ => pc rd || (!instr.ldrP && instr.ldrW) || (instr.writesBack && pc rn)
  | uadd8 | uqadd8 | uhadd8 | xsub8 | qsub8 | uqsub8 | sel | pkhbt | pkhtb | uxtab | sxtab =>
    pc rd || pc rm || pc rn
  | usat | ssat | uxtb16 | uxtb | sxtb | uxtah | sxtah | rev | rev16 => pc rd || pc rm
  | loadStoreFloatSingle => false
  | loadStoreFloatMultiple => instr.ldrW && pc rn
  | fmdrr | fmrdd => pc rn || pc rd
  | mrc | mcr => pc rd
  -- `FMRS` and `FMDHR`
  | vfp =>
    let op := instr.raw.extractLsb' 20 4
    instr.raw.getLsbD 4 && (op = 1 || op = 2) && pc rd
  | mrs => pc rd
  | msr | pld | swi => false

/-- The registers written, in order. -/
def writes (k : Plain) (instr : ARMInstr) (switchesBank : Bool) : List (BitVec 4) :=
  let rd := instr.idxRd
  let rn := instr.idxRn
  match k with
  | and | eor | sub | rsb | adc | sbc | rsc | orr | bic | mvn => [rd]
  | tst | teq | cmp | cmn => []
  | mul | mla | smlaxx | smulxx => [rn]
  | umaal | smull | smlal | umull | umlal => [rd, rn]
  | clz | ldrex | ldrexb | ldrexh | strex | strexb | strexh | strexd => [rd]
  | ldrexd => [rd, rd + 1]
  | addrMode3 type =>
    (match type with
      | .loadDoubleword => [rd, rd + 1]
      | _ => if type.loads then [rd] else []) ++ if instr.writesBack then [rn] else []
  | uadd8 | uqadd8 | uhadd8 | xsub8 | qsub8 | uqsub8 | sel | pkhbt | pkhtb | uxtab | sxtab => [rd]
  | usat | ssat | uxtb16 | uxtb | sxtb | uxtah | sxtah | rev | rev16 => [rd]
  | loadStoreFloatSingle => []
  | loadStoreFloatMultiple => if instr.ldrW then [rn] else []
  | fmrdd => [rn, rd]
  | fmdrr | mcr => []
  | mrc | mrs => [rd]
  -- `FMRS`, and `FMRX` unless it is an `FMSTAT`
  | vfp =>
    if instr.raw.getLsbD 4 ∧ (instr.raw.extractLsb' 20 4 = 1 ∨ instr.raw.extractLsb' 20 4 = 15) ∧
      rd ≠ 15 then [rd] else []
  -- a bank that is copied in has one word more than it has registers
  | msr => [8, 9, 10, 11, 12, 13, 14] ++ if switchesBank then [15] else []
  | pld => []
  -- the results of the system call
  | swi => [0, 1, 2, 3, 4, 5, 6, 7, 8, 9, 10, 11, 12]

end Plain

def writeRegs (s : State) (value : BitVec 4 → BitVec 32) : List (BitVec 4) → State
  | [] => s
  | i :: l => writeRegs (s.set i (value i)) value l

def Plain.handler (k : Plain) (s : Machine M) (instr : ARMInstr) :
    Except Fault (Machine M × BitVec 32) :=
  let body : Except Fault (Machine M × BitVec 32) := do
    let c ← env.compute k instr s.cpu s.rest
    let cpu := writeRegs s.cpu c.value (k.writes instr (env.switchesBank instr s.cpu s.rest))
    let cpu := cpu.setPsr fun p => { c.flags with thumb := p.thumb }
    pure (⟨cpu, c.rest⟩, nextInstr cpu)
  -- `MRS` makes its check whether the condition holds or not
  if k = .mrs ∧ k.refuses instr then stub s instr
  else conditional s.cpu instr s (if k.refuses instr then stub s instr else body)

/-! ## Handlers that may write PC -/

/-- A handler that knows only registers and flags. -/
def Machine.lift (s : Machine M) (r : Handled) : Except Fault (Machine M × BitVec 32) := do
  let (cpu, next) ← r
  pure ({ s with cpu := cpu }, next)

def handlerMov (ctx : State) (instr : ARMInstr) : Handled :=
  conditional ctx instr ctx <|
    if instr.addr1S ∧ instr.idxRd = 15 then handlerStubWithMessage ctx instr unpredictablePC
    else withShifterOperand ctx instr fun operand =>
      let ctx := ctx.set instr.idxRd operand.value
      let ctx := if instr.addr1S then
          updateCpsrC (updateCpsrZ (updateCpsrN ctx operand.value) operand.value) operand.carryOut
        else ctx
      .ok (ctx, if instr.idxRd = 15 then ctx.pc else nextInstr ctx)

def link (cpu : State) : State := cpu.set 14 (cpu.pc + 4)

def handlerBranch (withLink : Bool) (s : Machine M) (instr : ARMInstr) :
    Except Fault (Machine M × BitVec 32) :=
  conditional s.cpu instr s <|
    let s := if withLink then { s with cpu := link s.cpu } else s
    .ok (s, s.cpu.pc + 8 + 4 * instr.branchTarget)

def handlerBranchExchange (withLink : Bool) (s : Machine M) (instr : ARMInstr) :
    Except Fault (Machine M × BitVec 32) :=
  if instr.identifier4to23 &&& ~~~2#20 ≠ 0x2FFF1 then stub s instr
  else conditional s.cpu instr s <|
    let target := s.cpu.reg instr.idxRm
    let s := if withLink then { s with cpu := link s.cpu } else s
    .ok (s.setThumb (target.getLsbD 0), target &&& ~~~1)

/-- The memory access itself; for a load into PC with the state that the value selects. -/
def accessMemory (byteAccess store : Bool) (base : BitVec 32) (s : Machine M) (instr : ARMInstr) :
    Except Fault (Machine M) := do
  if store then
    let rest ← env.writeVirtualMemory byteAccess base (s.cpu.fetchReg instr.idxRd) s.rest
    pure { s with rest := rest }
  else
    let (value, rest) ← env.readVirtualMemory byteAccess base s.rest
    let s := { s with rest := rest }
    if instr.idxRd ≠ 15 then pure (s.set instr.idxRd value)
    else if value &&& 3 = 2 then stub s instr
    else pure ((s.setThumb (value.getLsbD 0)).set 15 (value &&& 0xFFFFFFFE))

/-- The offset without its sign. -/
def addrOffset (cpu : State) (instr : ARMInstr) : Except Fault (BitVec 32) :=
  if instr.ldrI then
    (·.value) <$> defined (calcShifterOperandFromImmediate (cpu.fetchReg instr.idxRm)
      instr.addr1ShiftImm instr.addr1Shift cpu.cpsr.carry)
  else pure instr.ldrOffset

/-- The update of the base register. -/
def writeBack (base : BitVec 32) (s : Machine M) (instr : ARMInstr) : Except Fault (Machine M) :=
  if instr.writesBack then
    if instr.idxRn = 15 then stub s instr else pure (s.set instr.idxRn base)
  else pure s

def handlerMemoryAccess (byteAccess store : Bool) (s : Machine M) (instr : ARMInstr) :
    Except Fault (Machine M × BitVec 32) :=
  conditional s.cpu instr s <|
    if instr.ldrI ∧ instr.raw.getLsbD 4 then stub s instr
    else if instr.idxRn = instr.idxRd ∧ instr.writesBack then stub s instr
    else do
      let rn := s.cpu.fetchReg instr.idxRn
      let amount ← addrOffset s.cpu instr
      let offset := if instr.ldrU then amount else -amount
      let s ← accessMemory env byteAccess store (if instr.ldrP then rn + offset else rn) s instr
      let s ← writeBack (rn + offset) s instr
      pure (s, if !store ∧ instr.idxRd = 15 then s.cpu.pc else nextInstr s.cpu)

/-- The registers in the list of a `LDM` or `STM`, PC apart. -/
def registersBelowPC (instr : ARMInstr) : List (BitVec 4) :=
  [0, 1, 2, 3, 4, 5, 6, 7, 8, 9, 10, 11, 12, 13, 14].filter fun i => instr.raw.getLsbD i.toNat

/-- The loop over the registers other than PC. Returns the next address. -/
def transfer (load : Bool) : List (BitVec 4) → Machine M → BitVec 32 →
    Except Fault (Machine M × BitVec 32)
  | [], s, addr => pure (s, addr)
  | i :: l, s, addr => do
    if load then
      let (value, rest) ← env.readVirtualMemory false addr s.rest
      transfer load l ({ s with rest := rest }.set i value) (addr + 4)
    else
      let rest ← env.writeVirtualMemory false addr (env.storedReg s.cpu s.rest i) s.rest
      transfer load l { s with rest := rest } (addr + 4)

/-- The number of registers transferred. -/
def registersAccessed (instr : ARMInstr) : Nat :=
  (registersBelowPC instr).length + (instr.raw.getLsbD 15).toNat

/-- The lowest address of the transfer. -/
def lowestAddr (s : Machine M) (instr : ARMInstr) : BitVec 32 :=
  s.cpu.fetchReg instr.idxRn -
    (if instr.ldrU then 0 else 4 * BitVec.ofNat 32 (registersAccessed instr - 1)) +
    (if instr.ldrP then if instr.ldrU then 4 else -4 else 0)

/-- PC, the last register in the list of a `LDM`: its value, and what is left to do. -/
def loadPC (s : Machine M) (instr : ARMInstr) (addr : BitVec 32) :
    Except Fault (Machine M × BitVec 32) := do
  let (value, rest) ← env.readVirtualMemory false addr s.rest
  let s := { s with rest := rest }.setThumb (value.getLsbD 0)
  let s :=
    if instr.addr4S then
      let c := env.restoreSPSR s.cpu s.rest
      let cpu := writeRegs s.cpu c.value [8, 9, 10, 11, 12, 13, 14, 15]
      ⟨cpu.setPsr fun _ => c.flags, c.rest⟩
    else s
  pure (s, value)

/-- PC, if it is in the list, and the address of the next instruction. -/
def transferPC (load : Bool) (pc : BitVec 32) (s : Machine M) (instr : ARMInstr)
    (addr : BitVec 32) : Except Fault (Machine M × BitVec 32) :=
  if !instr.raw.getLsbD 15 then pure (s, pc + 4)
  else if load then do
    let (s, value) ← loadPC env s instr addr
    pure (s, value &&& ~~~1)
  else do
    let rest ← env.writeVirtualMemory false addr (env.storedReg s.cpu s.rest 15) s.rest
    pure ({ s with rest := rest }, pc + 4)

def handlerLdmStm (load : Bool) (s : Machine M) (instr : ARMInstr) :
    Except Fault (Machine M × BitVec 32) :=
  conditional s.cpu instr s <|
    if instr.raw.extractLsb' 0 16 = 0 then stub s instr
    else if load ∧ instr.addr4S ∧ !env.hasSPSR s.rest then stub s instr
    else do
      let rn := s.cpu.fetchReg instr.idxRn
      let bytes := 4 * BitVec.ofNat 32 (registersAccessed instr)
      let (t, addr) ← transfer env load (registersBelowPC instr) s (lowestAddr s instr)
      let (t, next) ← transferPC env load s.cpu.pc t instr addr
      let t := if instr.ldrW then t.set instr.idxRn (if instr.ldrU then rn + bytes else rn - bytes)
        else t
      pure (t, next)

def Handler.run (h : Handler) (s : Machine M) (instr : ARMInstr) :
    Except Fault (Machine M × BitVec 32) :=
  match h with
  | plain k => k.handler env s instr
  | mov => s.lift (handlerMov s.cpu instr)
  | add => s.lift (handlerAdd s.cpu instr)
  | branch withLink => handlerBranch withLink s instr
  | branchExchange withLink => handlerBranchExchange withLink s instr
  | memoryAccess byteAccess store => handlerMemoryAccess env byteAccess store s instr
  | ldmStm load => handlerLdmStm env load s instr
  | stub => Arm.stub s instr

/-! ## Thumb -/

def stubThumb {α : Type} : Except Fault α :=
  .error (.thrown (.runtimeError "Unknown Thumb instruction"))

/-- `ForwardThumbToARM`, and `ForwardThumbToARMMayReadPC` where the instruction may read PC. -/
def forwardThumbToARM (decoded : DecodedThumbInstr) (s : Machine M) (instr : ARMInstr) :
    Except Fault (Machine M × BitVec 32) := do
  let oldPC := s.cpu.pc
  let s := if decoded.mayReadPC then s.set 15 (oldPC - 4) else s
  let (s, _) ← (dispatch instr).run env s instr
  let nextInstr := if decoded.mayReadPC then oldPC + 2 else s.cpu.pc + 2
  pure (s, if decoded.mayModifyPC then s.cpu.pc else nextInstr)

/-- `B (2)`, and the two halves of `BL` and `BLX (1)`, by bits 11 and 12. -/
def branchThumb (s : Machine M) (instr : ThumbInstr) : Except Fault (Machine M × BitVec 32) :=
  let pc := s.cpu.pc
  match instr.raw.getLsbD 12, instr.raw.getLsbD 11 with
  | false, false => .ok (s, pc + (4 : BitVec 32) + instr.signedImmed11 <<< 1)
  | true, false => .ok (s.set 14 (pc + (4 : BitVec 32) + instr.signedImmed11 <<< 12), pc + 2)
  | thumb, true =>
    let target := s.cpu.lr + instr.unsignedImmed11 <<< 1
    let target := if thumb then target else target &&& 0xFFFFFFFC
    .ok ((s.set 14 ((pc + 2) ||| 1)).setThumb thumb, target)

/-- `BX` and `BLX (2)`. -/
def branchExchangeThumb (withLink : Bool) (s : Machine M) (instr : ThumbInstr) :
    Except Fault (Machine M × BitVec 32) :=
  if instr.idxRmFull = 15 then stubThumb
  else
    let target := s.cpu.reg instr.idxRmFull
    let s := if withLink then s.set 14 ((s.cpu.pc + 2) ||| 1) else s
    .ok (s.setThumb (target.getLsbD 0), target &&& 0xFFFFFFFE)

/-- The `LDM` that a `POP` stands for. -/
def popInstr (instr : ThumbInstr) : ARMInstr :=
  let base : BitVec 32 := 0xE8BD0000
  ⟨base ||| ThumbField.pushLr.get instr <<< 15 ||| ThumbField.registerList.get instr⟩

/-- The `LDR` that an `LDR (3)` stands for. -/
def ldrPCInstr (instr : ThumbInstr) : ARMInstr :=
  let base : BitVec 32 := 0xE59F0000
  ⟨base ||| ThumbField.rdHigh.get instr <<< 12 ||| ThumbField.immedLow8.get instr <<< 2⟩

def dispatchThumb (s : Machine M) (instr : ThumbInstr) : Except Fault (Machine M × BitVec 32) := do
  let decoded ← decodeThumb instr
  let pc := s.cpu.pc
  match decoded.armEquivalent with
  | some armInstr => forwardThumbToARM env decoded s armInstr
  | none =>
    if instr.opcodeUpper 5 = 0b10100 then
      -- ADD (5)
      let result := ((pc + 4) &&& 0xFFFFFFFC) + ThumbField.immedLow8.get instr * 4
      pure (s.set instr.idxRdHigh result, pc + 2)
    else if instr.opcodeUpper 5 = 0b01001 then do
      -- LDR (3)
      let s := s.set 15 ((pc &&& ~~~2) - 4)
      let (s, _) ← handlerMemoryAccess env false false s (ldrPCInstr instr)
      pure (s, pc + 2)
    else if instr.opcodeUpper 4 = 0b1101 then do
      -- B (1)
      let target := pc + (4 : BitVec 32) + instr.signedImmedLow8 <<< 1
      if ← evalCond s.cpu instr.cond then pure (s, target)
      else pure (s, pc + 2)
    else if instr.opcodeUpper 3 = 0b111 then branchThumb s instr
    else if instr.opcodeUpper 9 = 0b010001111 then branchExchangeThumb true s instr
    else if instr.opcodeUpper 9 = 0b010001110 then branchExchangeThumb false s instr
    else if instr.opcodeUpper 7 = 0b1011110 then do
      -- POP
      let (s, next) ← handlerLdmStm env true s (popInstr instr)
      pure (s, if instr.raw.getLsbD 8 then next else next - 2)
    else stubThumb

/-! ## One step -/

/-- The instructions with condition 0xF. -/
def unconditional (s : Machine M) (instr : ARMInstr) : Except Fault (Machine M × BitVec 32) :=
  if instr.raw.extractLsb' 25 3 = 0b101 then
    -- BLX (1): bit 24 is bit 1 of the target
    let s := ({ s with cpu := link s.cpu } : Machine M).setThumb true
    let offset : BitVec 32 := 4 * instr.branchTarget
    let offset := offset ||| ((instr.raw &&& 0x1000000) >>> 23)
    .ok (s, s.cpu.pc + 8 + offset)
  else if instr.raw = 0xf57ff01f then
    .ok ({ s with rest := env.clearExclusive s.rest }, nextInstr s.cpu)
  else if instr.raw &&& 0xFD70F000 = 0xF550F000 then .ok (s, nextInstr s.cpu)
  else .error (.thrown (.runtimeError "Unknown unconditional instruction"))

def stepThumb (s : Machine M) : Except Fault (Machine M × BitVec 32) := do
  dispatchThumb env s (← env.fetchThumb s.cpu s.rest)

def stepArm (s : Machine M) : Except Fault (Machine M × BitVec 32) := do
  let instr ← env.fetchArm s.cpu s.rest
  if instr.cond ≠ 0xF then (dispatch instr).run env s instr else unconditional env s instr

def step (s : Machine M) : Except Fault (Machine M) := do
  let (s, next) ← if s.cpu.cpsr.thumb then stepThumb env s else stepArm env s
  pure (s.set 15 next)

end Mikage.Arm
