import Mikage.Video.StructuredShaders

/-!
# Where the two engines agree

A block of instructions that only compute, run by the interpreter from the shader memory and by the
recompiler's engine from the micro ops emitted for it. From registers that hold the same values both
get to registers that hold the same values, where the instructions are among those the two engines
treat alike: not `FLR`, which the interpreter ignores, nor a comparison with an operation of which
there is none, nor a `MADI` whose swizzle pattern depends on the width of its identifier.

- `Related`: the registers of the two engines.
- `Alike`: the instructions.
- `straight_block_agrees`: a block of a recompiled program.
-/

namespace Mikage.Pica.VertexShader.Interpreter

open Machine (Leads)

variable {F : Type} {c : Context F} {regs regs' : Registers F} {ctx : RuntimeContext F}
  {instr : Instruction}

/-! ## The registers of the two engines -/

/-- The interpreter's registers in the order of the recompiler's block of registers. -/
def Context.block (c : Context F) (regs : Registers F) (i : BitVec 32) : Vec4 F :=
  if h : i.toNat < 16 then c.inputRegisters ⟨i.toNat, h⟩
  else if i.toNat < 32 then regs.temporaryRegisters (i.setWidth 4)
  else if h : i.toNat - 32 < 96 then c.floatUniforms ⟨i.toNat - 32, h⟩
  else regs.outputRegisters (i.setWidth 4)

structure Related (c : Context F) (regs : Registers F) (ctx : RuntimeContext F) : Prop where
  registers : ∀ i : BitVec 32, i.toNat < 0x90 → ctx.registers i = c.block regs i
  conditions : ∀ i : BitVec 1, ctx.conditionalCode (i.setWidth 32) = regs.conditionalCode i
  addresses : ∀ i : BitVec 32, i.toNat < 4 → ctx.addressRegisters i = regs.addressOffset i

theorem block_temporary {i : BitVec 32} (h : 16 ≤ i.toNat) (h' : i.toNat < 32) :
    c.block regs i = regs.temporaryRegisters (i.setWidth 4) := by
  rw [Context.block, dif_neg (by omega), if_pos h']

theorem block_output {i : BitVec 32} (h : 0x80 ≤ i.toNat) :
    c.block regs i = regs.outputRegisters (i.setWidth 4) := by
  rw [Context.block, dif_neg (by omega), if_neg (by omega), dif_neg (by omega)]

/-- The block after a write. -/
theorem block_write {dest : BitVec 32} (hd : dest.toNat < 32) {swizzle : BitVec 32} {value : Vec4 F}
    {i : BitVec 32} (hi : i.toNat < 0x90) :
    c.block (regs.write dest swizzle value) i = if i = relocated dest then
      masked swizzle (c.block regs (relocated dest)) value else c.block regs i := by
  unfold Registers.write relocated
  split_ifs with hlt heq heq
  · rw [heq, block_output (by bv_omega), block_output (by bv_omega),
      show BitVec.setWidth 4 (dest + 0x80) = BitVec.setWidth 4 dest by bv_omega]
    exact Function.update_self _ _ _
  · unfold Context.block
    split_ifs with h₁ h₂ h₃ <;> try rfl
    exact Function.update_of_ne (by bv_omega) _ _
  · rw [heq, block_temporary (by bv_omega) hd, block_temporary (by bv_omega) hd]
    exact Function.update_self _ _ _
  · unfold Context.block
    split_ifs with h₁ h₂ h₃ <;> try rfl
    exact Function.update_of_ne (by bv_omega) _ _

theorem write_conditions {dest swizzle : BitVec 32} {value : Vec4 F} :
    (regs.write dest swizzle value).conditionalCode = regs.conditionalCode := by
  unfold Registers.write
  split_ifs <;> rfl

theorem write_addresses {dest swizzle : BitVec 32} {value : Vec4 F} :
    (regs.write dest swizzle value).addressRegisters = regs.addressRegisters := by
  unfold Registers.write
  split_ifs <;> rfl

/-- A register that can be a source is where its index says. -/
theorem lookupSourceRegister_iff {source : BitVec 32} {v : Vec4 F} :
    c.lookupSourceRegister regs source = .ok v ↔ source.toNat < 128 ∧ v = c.block regs source := by
  unfold Context.lookupSourceRegister Context.block
  split_ifs with h₁ h₂ h₃
  · rw [Except.ok.injEq, eq_comm]
    exact ⟨fun h => ⟨by omega, h⟩, And.right⟩
  · rw [Except.ok.injEq, eq_comm]
    exact ⟨fun h => ⟨by omega, h⟩, And.right⟩
  · rw [Except.ok.injEq, eq_comm]
    exact ⟨fun h => ⟨by omega, h⟩, And.right⟩
  · exact ⟨nofun, fun h => absurd h.1 (by omega)⟩

namespace Related

theorem nextMicroOp (h : Related c regs ctx) (n : Nat) :
    Related c regs { ctx with nextMicroOp := n } :=
  ⟨h.registers, h.conditions, h.addresses⟩

theorem source (h : Related c regs ctx) {source : BitVec 32} {v : Vec4 F}
    (hv : c.lookupSourceRegister regs source = .ok v) : ctx.registers source = v := by
  obtain ⟨hlt, rfl⟩ := lookupSourceRegister_iff.mp hv
  exact h.registers source (by omega)

/-- The clamp of a relative index changes none that is the index of a register. -/
theorem relative (h : Related c regs ctx) {source address : BitVec 32} {v : Vec4 F}
    (ha : address.toNat < 4)
    (hv : c.lookupSourceRegister regs (source + regs.addressOffset address) = .ok v) :
    ctx.registers (ctx.relative source address) = v := by
  have hlt := (lookupSourceRegister_iff.mp hv).1
  have hrel : ctx.relative source address = source + regs.addressOffset address := by
    unfold RuntimeContext.relative
    rw [h.addresses address ha]
    simp only
    split_ifs with hc
    · rfl
    · bv_omega
  rw [hrel]
  exact h.source hv

theorem setCondition (h : Related c regs ctx) (i : BitVec 1) (value : Bool) :
    Related c (regs.setCondition i value) (ctx.setCondition (i.setWidth 32) value) := by
  refine ⟨h.registers, fun j => ?_, h.addresses⟩
  unfold RuntimeContext.setCondition Registers.setCondition
  simp only [Function.update_apply]
  rw [h.conditions j]
  have hij : BitVec.setWidth 32 j = BitVec.setWidth 32 i ↔ j = i := by
    rw [← BitVec.toNat_inj, ← BitVec.toNat_inj]
    simp
    omega
  simp only [hij]

theorem setAddress (h : Related c regs ctx) {i : BitVec 2} {j : BitVec 32} (value : BitVec 32)
    (hj : j = i.setWidth 32 + 1) :
    Related c (regs.setAddress i value) (ctx.setAddress j value) := by
  refine ⟨h.registers, h.conditions, fun k hk => ?_⟩
  have hk' := h.addresses k hk
  unfold RuntimeContext.setAddress Registers.setAddress
  simp only [Function.update_apply]
  unfold Registers.addressOffset at hk' ⊢
  simp only [Function.update_apply]
  subst hj
  by_cases hz : k = 0
  · subst hz
    rw [if_neg (by bv_omega)]
    exact hk'
  · rw [if_neg hz] at hk' ⊢
    have hki : k = i.setWidth 32 + 1 ↔ (k - 1).setWidth 2 = i := by bv_omega
    rw [hk']
    simp only [hki]

theorem write (h : Related c regs ctx) {dest : BitVec 32} (hd : dest.toNat < 32)
    (swizzle : BitVec 32) (value : Vec4 F) :
    Related c (regs.write dest swizzle value) (ctx.setRegister (relocated dest)
      (masked swizzle (ctx.registers (relocated dest)) value)) := by
  have hrel : (relocated dest).toNat < 0x90 := by
    unfold relocated
    split_ifs <;> bv_omega
  refine ⟨fun i hi => ?_, fun j => ?_, fun k hk => ?_⟩
  · rw [block_write hd hi, ← h.registers _ hrel, ← h.registers i hi]
    exact Function.update_apply _ _ _ _
  · rw [write_conditions]
    exact h.conditions j
  · rw [Registers.addressOffset, write_addresses]
    exact h.addresses k hk

end Related

/-! ## The fields of a micro op -/

theorem field_lt (instr : Instruction) (position length : Nat) :
    (instr.field position length).toNat < 2 ^ length := by
  unfold Instruction.field
  rw [BitVec.toNat_and]
  refine lt_of_le_of_lt Nat.and_le_right ?_
  rw [BitVec.toNat_ofNat]
  exact lt_of_le_of_lt (Nat.mod_le _ _) (Nat.sub_lt (Nat.two_pow_pos _) Nat.one_pos)

theorem byte_eq (info : BitVec 32) (n : Nat) :
    byte info n = (info.extractLsb' (8 * n) 8).setWidth 32 := by
  have hmask : (0xff : BitVec 32) = BitVec.ofNat 32 (2 ^ 8 - 1) := rfl
  unfold byte
  rw [hmask]
  refine BitVec.eq_of_getLsbD_eq fun i hi => ?_
  simp only [BitVec.getLsbD_and, BitVec.getLsbD_ushiftRight, BitVec.getLsbD_ofNat,
    Nat.testBit_two_pow_sub_one, BitVec.getLsbD_setWidth, BitVec.getLsbD_extractLsb', hi,
    decide_true, Bool.true_and]
  exact Bool.and_comm _ _

/-- The registers of a micro op's sources and their address registers, as `src_info` packs them. -/
theorem byte_pack {a b d e : BitVec 32} (ha : a.toNat < 256) (hb : b.toNat < 256)
    (hd : d.toNat < 256) (he : e.toNat < 256) :
    byte (a ||| b <<< 16 ||| d <<< 8 ||| e <<< 24) 0 = a ∧
    byte (a ||| b <<< 16 ||| d <<< 8 ||| e <<< 24) 1 = d ∧
    byte (a ||| b <<< 16 ||| d <<< 8 ||| e <<< 24) 2 = b ∧
    byte (a ||| b <<< 16 ||| d <<< 8 ||| e <<< 24) 3 = e := by
  obtain ⟨a, rfl⟩ : ∃ x : BitVec 8, a = x.setWidth 32 := ⟨a.setWidth 8, by bv_omega⟩
  obtain ⟨b, rfl⟩ : ∃ x : BitVec 8, b = x.setWidth 32 := ⟨b.setWidth 8, by bv_omega⟩
  obtain ⟨d, rfl⟩ : ∃ x : BitVec 8, d = x.setWidth 32 := ⟨d.setWidth 8, by bv_omega⟩
  obtain ⟨e, rfl⟩ : ∃ x : BitVec 8, e = x.setWidth 32 := ⟨e.setWidth 8, by bv_omega⟩
  simp only [byte_eq]
  refine ⟨?_, ?_, ?_, ?_⟩ <;> congr 1 <;> ext i hi <;> simp <;> grind

/-- The same for the destination of a multiply-add, which its third source is packed with. -/
theorem byte_pack_pair {a b : BitVec 32} (ha : a.toNat < 256) (hb : b.toNat < 256) :
    byte (a ||| b <<< 16) 0 = a ∧ byte (a ||| b <<< 16) 2 = b := by
  have h := byte_pack (d := 0#32) (e := 0#32) ha hb (by decide) (by decide)
  rw [BitVec.zero_shiftLeft, BitVec.or_zero, BitVec.zero_shiftLeft, BitVec.or_zero] at h
  exact ⟨h.1, h.2.2.1⟩

/-! ## The handlers -/

/-- The address register of the second source, or of the third. -/
def madAddress (instr : Instruction) (third : Bool) : BitVec 32 :=
  if instr.opcode.isInverted = third then instr.madAddressRegisterIndex else 0

/-- The offset of a source that is not relative is zero. -/
theorem madAddress_offset (instr : Instruction) :
    regs.addressOffset (madAddress instr false) = (if instr.opcode.isInverted then 0
      else regs.addressOffset instr.madAddressRegisterIndex) ∧
    regs.addressOffset (madAddress instr true) = (if instr.opcode.isInverted then
      regs.addressOffset instr.madAddressRegisterIndex else 0) := by
  unfold madAddress
  cases instr.opcode.isInverted <;> exact ⟨rfl, rfl⟩

/-- `src_info` of an instruction whose first source may be relative. -/
def packed (instr : Instruction) : BitVec 32 :=
  instr.getSrc1 false ||| instr.getSrc2 false <<< 16 ||| instr.addressRegisterIndex <<< 8 |||
    0 <<< 24

theorem byte_packed (instr : Instruction) :
    byte (packed instr) 0 = instr.getSrc1 false ∧
    byte (packed instr) 1 = instr.addressRegisterIndex ∧
    byte (packed instr) 2 = instr.getSrc2 false := by
  have h₁ : (instr.getSrc1 false).toNat < 2 ^ 7 := field_lt _ _ _
  have h₂ : (instr.getSrc2 false).toNat < 2 ^ 5 := field_lt _ _ _
  have h₃ : instr.addressRegisterIndex.toNat < 2 ^ 2 := field_lt _ _ _
  obtain ⟨hb₀, hb₁, hb₂, -⟩ := byte_pack (a := instr.getSrc1 false) (b := instr.getSrc2 false)
    (d := instr.addressRegisterIndex) (e := 0) (by omega) (by omega) (by omega) (by decide)
  exact ⟨hb₀, hb₁, hb₂⟩

theorem dest_lt (instr : Instruction) : instr.dest.toNat < 32 := field_lt _ _ 5

theorem addressRegisterIndex_lt (instr : Instruction) : instr.addressRegisterIndex.toNat < 4 :=
  field_lt _ _ 2

/-- The values of the two sources of an instruction. -/
structure Sources (c : Context F) (regs : Registers F) (instr : Instruction) (v₁ v₂ : Vec4 F) :
    Prop where
  first : c.lookupSourceRegister regs
    (instr.getSrc1 false + regs.addressOffset instr.addressRegisterIndex) = .ok v₁
  second : c.lookupSourceRegister regs (instr.getSrc2 false) = .ok v₂

variable [Float24 F] {v₁ v₂ : Vec4 F}

namespace Related

theorem binary (h : Related c regs ctx) (hv : Sources c regs instr v₁ v₂)
    (operation : Vec4 F → Vec4 F → Vec4 F) (type : MicroOpType) (swizzle : BitVec 32) :
    Related c (regs.write instr.dest swizzle
        (operation (swizzled 1 swizzle v₁) (swizzled 2 swizzle v₂)))
      (binaryArithmetic operation ⟨type, packed instr, relocated instr.dest, swizzle⟩ ctx) := by
  obtain ⟨hb₀, hb₁, hb₂⟩ := byte_packed instr
  unfold binaryArithmetic
  simp only [hb₀, hb₁, hb₂]
  rw [h.relative (addressRegisterIndex_lt instr) hv.first, h.source hv.second]
  exact h.write (dest_lt instr) _ _

theorem unary (h : Related c regs ctx) (hv : Sources c regs instr v₁ v₂)
    (operation : Vec4 F → Vec4 F) (type : MicroOpType) (swizzle : BitVec 32) :
    Related c (regs.write instr.dest swizzle (operation (swizzled 1 swizzle v₁)))
      (unaryArithmetic operation ⟨type, packed instr, relocated instr.dest, swizzle⟩ ctx) := by
  obtain ⟨hb₀, hb₁, -⟩ := byte_packed instr
  unfold unaryArithmetic
  simp only [hb₀, hb₁]
  rw [h.relative (addressRegisterIndex_lt instr) hv.first]
  exact h.write (dest_lt instr) _ _

theorem movToAddressReg (h : Related c regs ctx) (hv : Sources c regs instr v₁ v₂)
    (swizzle : BitVec 32) :
    Related c (Context.moveToAddress swizzle (swizzled 1 swizzle v₁) regs)
      (movToAddressReg ⟨.movToAddressReg, packed instr, relocated instr.dest, swizzle⟩ ctx) := by
  obtain ⟨hb₀, hb₁, -⟩ := byte_packed instr
  unfold VertexShader.movToAddressReg Context.moveToAddress
  simp only [hb₀, hb₁]
  rw [h.relative (addressRegisterIndex_lt instr) hv.first]
  split_ifs
  · exact (h.setAddress _ rfl).setAddress _ rfl
  · exact h.setAddress _ rfl
  · exact h.setAddress _ rfl
  · exact h

theorem compare (h : Related c regs ctx) (hv : Sources c regs instr v₁ v₂) {operation : BitVec 32}
    {holds : F → F → Bool} (ho : Context.comparison operation.toNat = some holds) (code : BitVec 1)
    (type : MicroOpType) (swizzle : BitVec 32) :
    Related c (Context.compare operation code (swizzled 1 swizzle v₁) (swizzled 2 swizzle v₂) regs)
      (cmp holds ⟨type, packed instr, code.setWidth 32, swizzle⟩ ctx) := by
  obtain ⟨hb₀, hb₁, hb₂⟩ := byte_packed instr
  unfold cmp Context.compare
  simp only [hb₀, hb₁, hb₂, ho]
  rw [h.addresses _ (addressRegisterIndex_lt instr), h.source hv.first, h.source hv.second]
  rw [show BitVec.setWidth 2 (BitVec.setWidth 32 code) = code.setWidth 2 by bv_omega]
  exact h.setCondition _ _

end Related

/-! ## The micro ops of an instruction -/

def emitted (swizzleData : ShaderMemory) (instr : Instruction) : List MicroOp :=
  if instr.opcode.isArithmetic then (emitArithmetic swizzleData {} instr).ops else []

theorem emitArithmetic_eq (swizzleData : ShaderMemory) (code : MicroCode)
    (ha : instr.opcode.isArithmetic) :
    emitArithmetic swizzleData code instr =
      { code with ops := code.ops ++ emitted swizzleData instr } := by
  unfold emitted
  rw [if_pos ha]
  unfold emitArithmetic
  cases instr.opcode <;> simp [MicroCode.addMicroOp]

/-- The micro ops, one after the other, take the one state to the other. None of them jumps. -/
inductive Performs : List MicroOp → RuntimeContext F → RuntimeContext F → Prop where
  | nil (ctx : RuntimeContext F) : Performs [] ctx ctx
  | cons {op : MicroOp} {ops : List MicroOp} {ctx next last : RuntimeContext F} :
    op.execute { ctx with nextMicroOp := ctx.nextMicroOp + 1 } = .ok (some next) →
    next.nextMicroOp = ctx.nextMicroOp + 1 → Performs ops next last → Performs (op :: ops) ctx last

namespace Performs

variable {op : MicroOp} {ops ops' : List MicroOp} {mid last : RuntimeContext F}

theorem single {next : RuntimeContext F}
    (h : op.execute { ctx with nextMicroOp := ctx.nextMicroOp + 1 } = .ok (some next))
    (hn : next.nextMicroOp = ctx.nextMicroOp + 1) : Performs [op] ctx next :=
  .cons h hn (.nil _)

theorem append (h : Performs ops ctx mid) (h' : Performs ops' mid last) :
    Performs (ops ++ ops') ctx last := by
  induction h with
  | nil => exact h'
  | cons he hn _ ih => exact .cons he hn (ih h')

theorem nextMicroOp (h : Performs ops ctx last) :
    last.nextMicroOp = ctx.nextMicroOp + ops.length := by
  induction h with
  | nil => rfl
  | cons _ hn _ ih =>
    rw [ih, hn, List.length_cons]
    omega

/-- Where the micro ops are part of a program, it performs them. -/
theorem execute {program : MicroCode} (h : Performs ops ctx last)
    (hp : ops <+: program.ops.drop ctx.nextMicroOp) (n : Nat) :
    program.execute ctx (ops.length + n) = program.execute last n := by
  induction h with
  | nil => rw [List.length_nil, Nat.zero_add]
  | @cons op ops ctx next last he hn _ ih =>
    obtain ⟨rest, hrest⟩ := hp
    have hget : program.ops[ctx.nextMicroOp]? = some op := by
      have h₀ : (program.ops.drop ctx.nextMicroOp)[0]? = some op := by rw [← hrest]; rfl
      rwa [List.getElem?_drop, Nat.add_zero] at h₀
    have htail : ops <+: program.ops.drop next.nextMicroOp := by
      refine ⟨rest, ?_⟩
      rw [hn, ← List.drop_drop, ← hrest]
      rfl
    rw [List.length_cons, Nat.succ_add, MicroCode.execute, hget]
    simp only [he]
    exact ih htail

end Performs

/-! ## One instruction -/

/-- The instructions both engines treat alike. -/
structure Alike (c : Context F) (instr : Instruction) : Prop where
  plain : isPlain instr
  notFloor : instr.opcode ≠ .flr
  compares : instr.opcode = .cmp → instr.compareOpX.toNat < 6 ∧ instr.compareOpY.toNat < 6
  /-- The recompiler takes the identifier to have seven bits, the interpreter five. -/
  pattern : instr.opcode = .madi → swizzlePattern c.swizzleData instr.operandDescId =
    swizzlePattern c.swizzleData instr.madOperandDescId

theorem interpretArithmetic_ok (h : c.interpretArithmetic instr regs = .ok regs') :
    instr.opcode.isInverted = false ∧ ∃ v₁ v₂, Sources c regs instr v₁ v₂ ∧
      let swizzle := swizzlePattern c.swizzleData instr.operandDescId
      Context.arithmetic instr swizzle (swizzled 1 swizzle v₁) (swizzled 2 swizzle v₂) regs =
        regs' := by
  unfold Context.interpretArithmetic at h
  split at h
  · cases h
  · rename_i hinv
    obtain ⟨v₁, h₁, h⟩ := bind_ok h
    obtain ⟨v₂, h₂, h⟩ := bind_ok h
    exact ⟨by simpa using hinv, v₁, v₂, ⟨h₁, h₂⟩, Except.ok.inj h⟩

/-- The micro op of an instruction of two sources and what it computes. -/
def binaryOf : OpCode → Option (MicroOpType × (Vec4 F → Vec4 F → Vec4 F))
  | .add => some (.add, fun a b i => Float24.add (a i) (b i))
  | .mul => some (.mul, fun a b i => Float24.mul (a i) (b i))
  | .max => some (.max, fun a b i => if Float24.less (b i) (a i) then a i else b i)
  | .min => some (.min, fun a b i => if Float24.less (a i) (b i) then a i else b i)
  | .dp3 => some (.dot3, dot 3)
  | .dp4 => some (.dot4, dot 4)
  | _ => none

def unaryOf : OpCode → Option (MicroOpType × (Vec4 F → Vec4 F))
  | .rcp => some (.rcp, fun a _ => Float24.rcp (a 0))
  | .rsq => some (.rsq, fun a _ => Float24.rsq (a 0))
  | .mov => some (.mov, id)
  | _ => none

/-- A comparison has a micro op of its own. -/
theorem execute_compare {operation : Nat} (h : operation < 6) :
    ∃ holds : F → F → Bool, Context.comparison operation = some holds ∧
      ∀ (op : MicroOp) (ctx : RuntimeContext F), op.type = compareType operation →
        op.execute ctx = .ok (some (cmp holds op ctx)) := by
  interval_cases operation
  all_goals
    refine ⟨_, rfl, fun op ctx ht => ?_⟩
    rw [MicroOp.execute, ht]
    rfl

namespace Related

theorem performs_binary (h : Related c regs ctx) (hv : Sources c regs instr v₁ v₂)
    {type : MicroOpType} {operation : Vec4 F → Vec4 F → Vec4 F}
    (ho : binaryOf instr.opcode = some (type, operation)) :
    ∃ last, Performs (emitted c.swizzleData instr) ctx last ∧
      let swizzle := swizzlePattern c.swizzleData instr.operandDescId
      Related c (Context.arithmetic instr swizzle (swizzled 1 swizzle v₁) (swizzled 2 swizzle v₂) regs)
        last := by
  let swizzle := swizzlePattern c.swizzleData instr.operandDescId
  have hr := (h.nextMicroOp (ctx.nextMicroOp + 1)).binary hv operation type swizzle
  unfold emitted emitArithmetic Context.arithmetic
  cases hc : instr.opcode <;> rw [hc] at ho <;> cases ho
  all_goals exact ⟨_, .single rfl rfl, hr⟩

theorem performs_unary (h : Related c regs ctx) (hv : Sources c regs instr v₁ v₂)
    {type : MicroOpType} {operation : Vec4 F → Vec4 F}
    (ho : unaryOf instr.opcode = some (type, operation)) :
    ∃ last, Performs (emitted c.swizzleData instr) ctx last ∧
      let swizzle := swizzlePattern c.swizzleData instr.operandDescId
      Related c (Context.arithmetic instr swizzle (swizzled 1 swizzle v₁) (swizzled 2 swizzle v₂) regs)
        last := by
  let swizzle := swizzlePattern c.swizzleData instr.operandDescId
  have hr := (h.nextMicroOp (ctx.nextMicroOp + 1)).unary hv operation type swizzle
  unfold emitted emitArithmetic Context.arithmetic
  cases hc : instr.opcode <;> rw [hc] at ho <;> cases ho
  all_goals exact ⟨_, .single rfl rfl, hr⟩

theorem performs_mova (h : Related c regs ctx) (hv : Sources c regs instr v₁ v₂)
    (ho : instr.opcode = .mova) :
    ∃ last, Performs (emitted c.swizzleData instr) ctx last ∧
      let swizzle := swizzlePattern c.swizzleData instr.operandDescId
      Related c (Context.arithmetic instr swizzle (swizzled 1 swizzle v₁) (swizzled 2 swizzle v₂) regs)
        last := by
  let swizzle := swizzlePattern c.swizzleData instr.operandDescId
  have hr := (h.nextMicroOp (ctx.nextMicroOp + 1)).movToAddressReg hv swizzle
  unfold emitted emitArithmetic Context.arithmetic
  rw [ho]
  refine ⟨_, .single rfl ?_, hr⟩
  unfold VertexShader.movToAddressReg
  simp only
  split_ifs <;> rfl

theorem performs_cmp (h : Related c regs ctx) (hv : Sources c regs instr v₁ v₂)
    (ho : instr.opcode = .cmp) (hc : instr.compareOpX.toNat < 6 ∧ instr.compareOpY.toNat < 6) :
    ∃ last, Performs (emitted c.swizzleData instr) ctx last ∧
      let swizzle := swizzlePattern c.swizzleData instr.operandDescId
      Related c (Context.arithmetic instr swizzle (swizzled 1 swizzle v₁) (swizzled 2 swizzle v₂) regs)
        last := by
  obtain ⟨holdsX, hX, heX⟩ := execute_compare (F := F) hc.1
  obtain ⟨holdsY, hY, heY⟩ := execute_compare (F := F) hc.2
  let swizzle := swizzlePattern c.swizzleData instr.operandDescId
  have h₁ := (h.nextMicroOp (ctx.nextMicroOp + 1)).compare hv hX 0
    (compareType instr.compareOpX.toNat) swizzle
  have hv' : Sources c (Context.compare instr.compareOpX 0 (swizzled 1 swizzle v₁)
      (swizzled 2 swizzle v₂) regs) instr v₁ v₂ := by
    rw [Context.compare, hX]
    exact ⟨hv.first, hv.second⟩
  have h₂ := (h₁.nextMicroOp (ctx.nextMicroOp + 1 + 1)).compare hv' hY 1
    (compareType instr.compareOpY.toNat) swizzle
  unfold emitted emitArithmetic Context.arithmetic
  rw [ho]
  exact ⟨_, .cons (heX _ _ rfl) rfl (.single (heY _ _ rfl) rfl), h₂⟩

/-- An instruction of the case `Arithmetic`. -/
theorem performs_arithmetic (h : Related c regs ctx) (ha : Alike c instr)
    (hi : c.interpretArithmetic instr regs = .ok regs') (hm : instr.opcode ≠ .mad) :
    ∃ last, Performs (emitted c.swizzleData instr) ctx last ∧ Related c regs' last := by
  obtain ⟨hinv, v₁, v₂, hv, rfl⟩ := interpretArithmetic_ok hi
  rcases hb : binaryOf (F := F) instr.opcode with _ | ⟨type, operation⟩
  · rcases hu : unaryOf (F := F) instr.opcode with _ | ⟨type, operation⟩
    · by_cases hc : instr.opcode = .cmp
      · exact h.performs_cmp hv hc (ha.compares hc)
      by_cases hmova : instr.opcode = .mova
      · exact h.performs_mova hv hmova
      -- What is left has no effect in either engine.
      have hnf := ha.notFloor
      have hem : emitted c.swizzleData instr = [] := by
        unfold emitted emitArithmetic
        cases ho : instr.opcode <;> simp_all [binaryOf, unaryOf, OpCode.isInverted]
      have har : ∀ swizzle src1 src2, Context.arithmetic instr swizzle src1 src2 regs = regs := by
        intro swizzle src1 src2
        unfold Context.arithmetic
        cases ho : instr.opcode <;> simp_all [binaryOf, unaryOf]
      exact ⟨ctx, hem ▸ .nil ctx, by simpa only [har] using h⟩
    · exact h.performs_unary hv hu
  · exact h.performs_binary hv hb

end Related

/-! ## Multiply-add -/

def madOp (instr : Instruction) (swizzle : BitVec 32) : MicroOp :=
  ⟨.mad, instr.madSrc1 ||| instr.madSrc2 instr.opcode.isInverted <<< 16 |||
      madAddress instr false <<< 8 ||| madAddress instr true <<< 24,
    relocated instr.madDest ||| instr.madSrc3 instr.opcode.isInverted <<< 16, swizzle⟩

omit [Float24 F] in
theorem emitted_mad (ha : Alike c instr) (ho : instr.opcode = .mad ∨ instr.opcode = .madi) :
    emitted c.swizzleData instr =
      [madOp instr (swizzlePattern c.swizzleData instr.madOperandDescId)] := by
  have hp := ha.pattern
  unfold emitted emitArithmetic madOp madAddress
  rcases ho with ho | ho
  · simp only [ho]
    rfl
  · simp only [ho] at hp ⊢
    rw [← hp trivial]
    rfl

theorem madAddress_lt (instr : Instruction) (third : Bool) : (madAddress instr third).toNat < 4 := by
  unfold madAddress
  split_ifs
  · exact field_lt _ _ 2
  · decide

/-- The fields of the micro op of a multiply-add. -/
theorem byte_madOp (instr : Instruction) (swizzle : BitVec 32) :
    let op := madOp instr swizzle
    byte op.arg0 0 = instr.madSrc1 ∧ byte op.arg0 1 = madAddress instr false ∧
    byte op.arg0 2 = instr.madSrc2 instr.opcode.isInverted ∧
    byte op.arg0 3 = madAddress instr true ∧ byte op.arg1 0 = relocated instr.madDest ∧
    byte op.arg1 2 = instr.madSrc3 instr.opcode.isInverted := by
  have h₁ : instr.madSrc1.toNat < 2 ^ 5 := field_lt _ _ _
  have h₂ : (instr.madSrc2 instr.opcode.isInverted).toNat < 2 ^ 7 := by
    unfold Instruction.madSrc2
    split_ifs
    · exact lt_trans (field_lt _ _ _) (by decide)
    · exact field_lt _ _ _
  have h₃ : (instr.madSrc3 instr.opcode.isInverted).toNat < 2 ^ 7 := by
    unfold Instruction.madSrc3
    split_ifs
    · exact field_lt _ _ _
    · exact lt_trans (field_lt _ _ _) (by decide)
  have hd : instr.madDest.toNat < 2 ^ 5 := field_lt _ _ _
  have hrel : (relocated instr.madDest).toNat < 256 := by
    unfold relocated
    split_ifs <;> bv_omega
  obtain ⟨hb₀, hb₁, hb₂, hb₃⟩ := byte_pack (a := instr.madSrc1) (d := madAddress instr false)
    (e := madAddress instr true) (by omega) (Nat.lt_trans h₂ (by decide))
    (Nat.lt_trans (madAddress_lt instr false) (by decide))
    (Nat.lt_trans (madAddress_lt instr true) (by decide))
  obtain ⟨hd₀, hd₂⟩ := byte_pack_pair hrel (Nat.lt_trans h₃ (by decide))
  exact ⟨hb₀, hb₁, hb₂, hb₃, hd₀, hd₂⟩

namespace Related

/-- `MAD` and `MADI`. -/
theorem performs_multiplyAdd (h : Related c regs ctx) (ha : Alike c instr)
    (ho : instr.opcode = .mad ∨ instr.opcode = .madi)
    (hi : c.interpretMultiplyAdd instr regs = .ok regs') :
    ∃ last, Performs (emitted c.swizzleData instr) ctx last ∧ Related c regs' last := by
  let swizzle := swizzlePattern c.swizzleData instr.madOperandDescId
  obtain ⟨v₁, h₁, hi⟩ := bind_ok hi
  obtain ⟨v₂, h₂, hi⟩ := bind_ok hi
  obtain ⟨v₃, h₃, hi⟩ := bind_ok hi
  rw [← (madAddress_offset instr).1] at h₂
  rw [← (madAddress_offset instr).2] at h₃
  obtain ⟨hb₀, hb₁, hb₂, hb₃, hd₀, hd₂⟩ := byte_madOp instr swizzle
  have hn := h.nextMicroOp (ctx.nextMicroOp + 1)
  rw [emitted_mad ha ho]
  refine ⟨mad (madOp instr swizzle) _, .single rfl rfl, ?_⟩
  unfold mad
  simp only [hb₀, hb₁, hb₂, hb₃, hd₀, hd₂]
  rw [hn.source h₁, hn.relative (madAddress_lt instr false) h₂,
    hn.relative (madAddress_lt instr true) h₃, ← Except.ok.inj hi]
  exact hn.write (field_lt _ _ 5) _ _

theorem performs (h : Related c regs ctx) (ha : Alike c instr)
    (hi : c.interpret instr regs = .ok regs') :
    ∃ last, Performs (emitted c.swizzleData instr) ctx last ∧ Related c regs' last := by
  unfold Context.interpret at hi
  split at hi
  · exact h.performs_multiplyAdd ha (.inl ‹_›) hi
  · exact h.performs_multiplyAdd ha (.inr ‹_›) hi
  · exact h.performs_arithmetic ha hi ‹_›

end Related

/-! ## A block -/

/-- The words of the instructions, one after the other. -/
def Holds (memory : ShaderMemory) : ShaderCodeOffset → List Instruction → Prop
  | _, [] => True
  | start, instr :: instrs => memory.readFrom start = .ok instr ∧ Holds memory (start + 1) instrs

def straight : List Instruction → Code
  | [] => .skip
  | instr :: instrs => .seq (.op instr) (straight instrs)

theorem Holds.laid {memory : ShaderMemory} {instrs : List Instruction} {start : ShaderCodeOffset}
    (h : Holds memory start instrs) (hp : ∀ instr ∈ instrs, isPlain instr) :
    Laid memory (straight instrs) start (start + BitVec.ofNat 32 instrs.length) := by
  induction instrs generalizing start with
  | nil =>
    rw [List.length_nil, BitVec.add_zero]
    exact .skip start
  | cons instr instrs ih =>
    have hrest := ih h.2 fun i hi => hp i (List.mem_cons_of_mem _ hi)
    rw [show start + 1 + BitVec.ofNat 32 instrs.length =
      start + BitVec.ofNat 32 (instrs.length + 1) by bv_omega] at hrest
    exact .seq (.op h.1 (hp instr List.mem_cons_self)) hrest

/-- The micro ops of the instructions do what the instructions do. -/
theorem Related.performs_straight {instrs : List Instruction} (h : Related c regs ctx)
    (ha : ∀ instr ∈ instrs, Alike c instr) {depth : Nat}
    (hx : (straight instrs).exec c depth regs = .ok (.next regs')) :
    ∃ last, Performs (instrs.flatMap (emitted c.swizzleData)) ctx last ∧ Related c regs' last := by
  induction instrs generalizing regs ctx with
  | nil =>
    cases hx
    exact ⟨ctx, .nil ctx, h⟩
  | cons instr instrs ih =>
    have hrest : ∀ i ∈ instrs, Alike c i := fun i hi => ha i (List.mem_cons_of_mem _ hi)
    rw [straight, Code.exec_seq, Code.exec_op] at hx
    rw [List.flatMap_cons]
    split_ifs at hx with hc
    · rcases hi : c.interpret instr regs with e | next <;> rw [hi] at hx
      · cases hx
      · obtain ⟨mid, hm, hr⟩ := h.performs (ha instr List.mem_cons_self) hi
        obtain ⟨last, hl, hr⟩ := ih hr hrest hx
        exact ⟨last, hm.append hl, hr⟩
    · rw [show emitted c.swizzleData instr = [] from if_neg hc, List.nil_append]
      exact ih h hrest hx

/-! ## A recompiled program -/

section

variable {r : Recompiler} {code code' : MicroCode} {offset start : ShaderCodeOffset} {d d' : Bool}

/-- The code with more micro ops behind it. -/
def Extends (code code' : MicroCode) : Prop :=
  ∃ more, code' = { code with ops := code.ops ++ more }

theorem Extends.refl (code : MicroCode) : Extends code code := ⟨[], by simp⟩

theorem Extends.trans {code'' : MicroCode} (h : Extends code code') (h' : Extends code' code'') :
    Extends code code'' := by
  obtain ⟨more, rfl⟩ := h
  obtain ⟨more', rfl⟩ := h'
  exact ⟨more ++ more', by simp⟩

theorem Extends.addMicroOp (h : Extends code code') (type : MicroOpType) (a₀ a₁ a₂ : BitVec 32) :
    Extends code (code'.addMicroOp type a₀ a₁ a₂) :=
  h.trans ⟨[⟨type, a₀, a₁, a₂⟩], rfl⟩

theorem emitMicroOpEvalCondition_extends (code : MicroCode) (instr : Instruction) :
    Extends code (emitMicroOpEvalCondition code instr).1 := by
  unfold emitMicroOpEvalCondition
  split_ifs
  · exact .refl code
  · exact .refl code
  all_goals exact (Extends.refl code).addMicroOp _ _ _ _

theorem emit_extends (h : r.emit code offset d = .ok (code', d')) : Extends code code' := by
  obtain ⟨instr, -, h⟩ := bind_ok h
  simp only at h
  split at h
  · rename_i ha
    cases h
    exact ⟨_, emitArithmetic_eq _ _ ha⟩
  have hcond := emitMicroOpEvalCondition_extends code instr
  have hadd := (Extends.refl code).addMicroOp
  split at h
  case h_1 | h_2 => cases h; exact .refl _
  case h_5 => cases h; exact (hcond.addMicroOp _ _ _ _).addMicroOp _ _ _ _
  case h_6 =>
    split at h <;> cases h
    · exact hadd _ _ _ _
    · exact .refl code
  case h_7 => cases h; exact ((hcond.addMicroOp _ _ _ _).addMicroOp _ _ _ _).addMicroOp _ _ _ _
  case h_9 => cases h; exact hcond.addMicroOp _ _ _ _
  case h_11 => cases h; exact (hadd _ _ _ _).addMicroOp _ _ _ _
  case h_12 => cases h
  all_goals cases h; exact hadd _ _ _ _

theorem emitRange_extends {length : Nat} (h : r.emitRange code offset d length = .ok (code', d')) :
    Extends code code' := by
  induction length generalizing code offset d with
  | zero =>
    cases h
    exact .refl _
  | succ length ih =>
    obtain ⟨⟨mid, dm⟩, he, h⟩ := bind_ok h
    exact (emit_extends he).trans (ih h)

/-- A plain instruction leaves its own micro ops. -/
theorem emit_plain {instr : Instruction} (hr : r.shaderMemory.readFrom offset = .ok instr)
    (hp : isPlain instr) (h : r.emit code offset d = .ok (code', d')) :
    code' = { code with ops := code.ops ++ emitted r.swizzleData instr } ∧ d' = d := by
  unfold Recompiler.emit at h
  rw [hr] at h
  obtain ⟨_, ⟨⟩, h⟩ := bind_ok h
  simp only at h
  split at h
  · rename_i ha
    cases h
    exact ⟨emitArithmetic_eq _ _ ha, rfl⟩
  · rename_i ha
    rw [show emitted r.swizzleData instr = [] from if_neg ha, List.append_nil]
    cases ho : instr.opcode <;> simp only [isPlain, ho, Bool.false_eq_true] at hp
    all_goals
      rw [ho] at h
      cases h
    all_goals exact ⟨rfl, rfl⟩

theorem emitRange_straight {instrs : List Instruction} (hh : Holds r.shaderMemory offset instrs)
    (hp : ∀ instr ∈ instrs, isPlain instr)
    (h : r.emitRange code offset d instrs.length = .ok (code', d')) :
    code' = { code with ops := code.ops ++ instrs.flatMap (emitted r.swizzleData) } ∧ d' = d := by
  induction instrs generalizing code offset d with
  | nil =>
    cases h
    exact ⟨by simp, rfl⟩
  | cons instr instrs ih =>
    rw [List.length_cons, Recompiler.emitRange] at h
    obtain ⟨⟨mid, dm⟩, he, hrest⟩ := bind_ok h
    obtain ⟨rfl, rfl⟩ := emit_plain hh.1 (hp instr List.mem_cons_self) he
    obtain ⟨rfl, rfl⟩ := ih hh.2 (fun i hi => hp i (List.mem_cons_of_mem _ hi)) hrest
    exact ⟨by simp, rfl⟩

/-- A block: its offset is that of the first micro op behind the code before it. -/
theorem emitBlock_ok {last : Bool} {info : BlockInfo}
    (h : r.emitBlock last code start info = .ok code') :
    code.blockOffsets.lookup start = none ∧ ∃ mid dm,
      r.emitRange { code with blockOffsets := code.blockOffsets ++ [(start, code.ops.length)] } start
        false info.length.toNat = .ok (mid, dm) ∧ Extends mid code' := by
  by_cases hs : (code.blockOffsets.lookup start).isSome
  · simp only [Recompiler.emitBlock, hs, if_true] at h
    cases h
  by_cases hl : info.length = 0xffffffff
  · simp only [Recompiler.emitBlock, hs, hl, if_true] at h
    cases h
  refine ⟨Option.not_isSome_iff_eq_none.mp hs, ?_⟩
  have hend : ∀ {next : MicroCode}, (if next.ops.isEmpty then
      throw (.runtimeError "No micro ops generated for block") else pure next :
      Except Exception MicroCode) = .ok code' → next = code' := by
    intro next h
    split at h <;> cases h
    rfl
  have hgoto : ∀ (mid : MicroCode) (dm : Bool) (e : ShaderCodeOffset),
      Extends mid (if !dm ∧ !last then mid.addMicroOp .goto e e 0 else mid) := by
    intro mid dm e
    split
    · exact (Extends.refl mid).addMicroOp _ _ _ _
    · exact .refl mid
  cases hpost : info.postExecJump with
  | none =>
    simp only [Recompiler.emitBlock, hs, hl, hpost] at h
    obtain ⟨⟨mid, dm⟩, he, h⟩ := bind_ok h
    exact ⟨mid, dm, he, hend h ▸ hgoto _ _ _⟩
  | popCallStack =>
    simp only [Recompiler.emitBlock, hs, hl, hpost] at h
    obtain ⟨⟨mid, dm⟩, he, h⟩ := bind_ok h
    simp only at h
    split at h
    · exact ⟨mid, dm, he, ((Extends.refl mid).addMicroOp _ _ _ _).trans (hend h ▸ hgoto _ _ _)⟩
    · cases h
  | returnTo target =>
    simp only [Recompiler.emitBlock, hs, hl, hpost] at h
    obtain ⟨⟨mid, dm⟩, he, h⟩ := bind_ok h
    exact ⟨mid, dm, he, ((Extends.refl mid).addMicroOp _ _ _ _).trans (hend h ▸ hgoto _ _ _)⟩

/-- The blocks that follow move no block and add only micro ops. -/
theorem emitBlocks_keeps {blocks : List (ShaderCodeOffset × BlockInfo)} {first : Nat}
    (h : r.emitBlocks code blocks = .ok code')
    (hs : code.blockOffsets.lookup start = some first) :
    code'.blockOffsets.lookup start = some first ∧ code.ops <+: code'.ops := by
  induction blocks generalizing code with
  | nil =>
    cases h
    exact ⟨hs, List.prefix_rfl⟩
  | cons block blocks ih =>
    obtain ⟨mid, he, h⟩ := bind_ok h
    obtain ⟨-, mid', dm, hr, more, rfl⟩ := emitBlock_ok he
    obtain ⟨more', rfl⟩ := emitRange_extends hr
    obtain ⟨hl, hp⟩ := ih h (by rw [List.lookup_append, hs]; rfl)
    exact ⟨hl, ((List.prefix_append _ _).trans (List.prefix_append _ _)).trans hp⟩

/-- A block of plain instructions is compiled to their micro ops. -/
theorem emitBlocks_straight {blocks : List (ShaderCodeOffset × BlockInfo)} {info : BlockInfo}
    {instrs : List Instruction} (h : r.emitBlocks code blocks = .ok code')
    (hb : (start, info) ∈ blocks) (hh : Holds r.shaderMemory start instrs)
    (hlen : instrs.length = info.length.toNat) (hp : ∀ instr ∈ instrs, isPlain instr) :
    ∃ before after, code'.ops = before ++ instrs.flatMap (emitted r.swizzleData) ++ after ∧
      code'.blockOffsets.lookup start = some before.length := by
  induction blocks generalizing code with
  | nil => cases hb
  | cons block blocks ih =>
    obtain ⟨mid, he, h⟩ := bind_ok h
    rcases List.mem_cons.mp hb with rfl | hb
    · obtain ⟨hnone, mid', dm, hr, more, rfl⟩ := emitBlock_ok he
      rw [← hlen] at hr
      obtain ⟨rfl, rfl⟩ := emitRange_straight hh hp hr
      have hl : (code.blockOffsets ++ [(start, code.ops.length)]).lookup start =
          some code.ops.length := by
        simp [List.lookup_append, hnone]
      obtain ⟨hl, after, hafter⟩ := emitBlocks_keeps h hl
      exact ⟨code.ops, more ++ after, by rw [← hafter]; simp, hl⟩
    · exact ih h hb

theorem mapM_append_ok {α β ε : Type} {f : α → Except ε β} {l l' : List α} {m : List β}
    (h : (l ++ l').mapM f = .ok m) :
    ∃ k k', l.mapM f = .ok k ∧ l'.mapM f = .ok k' ∧ m = k ++ k' := by
  rw [List.mapM_append] at h
  obtain ⟨k, hk, h⟩ := bind_ok h
  obtain ⟨k', hk', h⟩ := bind_ok h
  exact ⟨k, k', hk, hk', (Except.ok.inj h).symm⟩

theorem mapM_length {α β ε : Type} {f : α → Except ε β} {l : List α} {m : List β}
    (h : l.mapM f = .ok m) : m.length = l.length := by
  induction l generalizing m with
  | nil =>
    cases h
    rfl
  | cons a l ih =>
    rw [List.mapM_cons] at h
    obtain ⟨b, -, h⟩ := bind_ok h
    obtain ⟨m, hm, h⟩ := bind_ok h
    cases h
    rw [List.length_cons, List.length_cons, ih hm]

theorem mapM_self {α ε : Type} {f : α → Except ε α} {l m : List α}
    (hf : ∀ a ∈ l, f a = .ok a) (h : l.mapM f = .ok m) : m = l := by
  induction l generalizing m with
  | nil =>
    cases h
    rfl
  | cons a l ih =>
    rw [List.mapM_cons, hf a List.mem_cons_self] at h
    obtain ⟨_, ⟨⟩, h⟩ := bind_ok h
    obtain ⟨m, hm, h⟩ := bind_ok h
    cases h
    rw [ih (fun b hb => hf b (List.mem_cons_of_mem _ hb)) hm]

/-- Micro ops that hold no offsets of the shader are not patched. -/
theorem link_keeps {linked : MicroCode} {before ops after : List MicroOp}
    (h : code.link = .ok linked) (ho : code.ops = before ++ ops ++ after)
    (hf : ∀ op ∈ ops, code.linkOp op = .ok op) :
    linked.blockOffsets = code.blockOffsets ∧ ∃ before' after',
      linked.ops = before' ++ ops ++ after' ∧ before'.length = before.length := by
  obtain ⟨m, hm, h⟩ := bind_ok h
  cases h
  rw [ho] at hm
  obtain ⟨k, after', hk, -, rfl⟩ := mapM_append_ok hm
  obtain ⟨before', ops', hb, hops, rfl⟩ := mapM_append_ok hk
  exact ⟨rfl, before', after', by rw [mapM_self hf hops], mapM_length hb⟩

theorem linkOp_compare {operation : Nat} (h : operation < 6) (a₀ a₁ a₂ : BitVec 32) :
    code.linkOp ⟨compareType operation, a₀, a₁, a₂⟩ = .ok ⟨compareType operation, a₀, a₁, a₂⟩ := by
  interval_cases operation <;> rfl

omit [Float24 F] in
theorem linkOp_emitted (ha : Alike c instr) {op : MicroOp} (ho : op ∈ emitted c.swizzleData instr) :
    code.linkOp op = .ok op := by
  have hc := ha.compares
  unfold emitted emitArithmetic at ho
  cases hi : instr.opcode <;> simp only [hi] at ho hc
  case cmp =>
    obtain ⟨hx, hy⟩ := hc trivial
    rcases List.mem_cons.mp ho with rfl | ho
    · exact linkOp_compare hx _ _ _
    · rw [List.mem_singleton.mp ho]
      exact linkOp_compare hy _ _ _
  all_goals first
    | cases ho
      done
    | rw [List.mem_singleton.mp ho]
      rfl

end

/-! ## The agreement -/

/-- The instructions one after the other. -/
def Context.interpretAll (c : Context F) : List Instruction → Registers F →
    Except Exception (Registers F)
  | [], regs => .ok regs
  | instr :: instrs, regs => do
    c.interpretAll instrs (← if instr.opcode.isArithmetic then c.interpret instr regs else .ok regs)

theorem exec_straight (instrs : List Instruction) (depth : Nat) (regs : Registers F) :
    (straight instrs).exec c depth regs = (c.interpretAll instrs regs).map .next := by
  induction instrs generalizing regs with
  | nil => rfl
  | cons instr instrs ih =>
    rw [straight, Code.exec_seq, Code.exec_op, Context.interpretAll]
    split_ifs
    · cases c.interpret instr regs with
      | error e => rfl
      | ok next => exact ih next
    · exact ih regs

/-- In a recompiled program, a block of instructions both engines treat alike: where the interpreter
goes through it without an exception, both engines go from registers that hold the same values to
registers that hold the same values. -/
theorem straight_block_agrees {program : AnalyzedProgram} {code linked : MicroCode}
    (hc : recompileToMicroCode c.toRecompiler program = .ok code) (hl : code.link = .ok linked)
    {start : ShaderCodeOffset} {info : BlockInfo} (hb : (start, info) ∈ program.blocks)
    {instrs : List Instruction} (hh : Holds c.shaderMemory start instrs)
    (hlen : instrs.length = info.length.toNat) (ha : ∀ instr ∈ instrs, Alike c instr)
    (hi : c.interpretAll instrs regs = .ok regs') (hr : Related c regs ctx)
    (hn : linked.blockOffsets.lookup start = some ctx.nextMicroOp) :
    (∀ stack, Within stack start (start + info.length) →
      Leads c.step ⟨regs, start, stack⟩ (.inl ⟨regs', start + info.length, stack⟩)) ∧
    ∃ last, Related c regs' last ∧
      ∃ count, ∀ n, linked.execute ctx (count + n) = linked.execute last n := by
  have hx := fun depth => (exec_straight (c := c) instrs depth regs).trans (congrArg _ hi)
  have hlast : start + info.length = start + BitVec.ofNat 32 instrs.length := by
    rw [hlen, BitVec.ofNat_toNat, BitVec.setWidth_eq]
  constructor
  · intro stack hw
    rw [hlast] at hw ⊢
    have hleads := (hh.laid fun i hi => (ha i hi).plain).leads regs stack hw
    rwa [hx] at hleads
  · obtain ⟨last, hp, hrel⟩ := hr.performs_straight ha (hx 0)
    obtain ⟨before, after, ho, hlook⟩ :=
      emitBlocks_straight hc hb hh hlen fun i hi => (ha i hi).plain
    obtain ⟨hoff, before', after', hops, hbl⟩ := link_keeps hl ho fun op hop => by
      obtain ⟨instr, hm, hop⟩ := List.mem_flatMap.mp hop
      exact linkOp_emitted (ha instr hm) hop
    have hnext : ctx.nextMicroOp = before'.length := by
      rw [hoff, hlook] at hn
      rw [hbl]
      exact (Option.some.inj hn).symm
    refine ⟨last, hrel, _, hp.execute ?_⟩
    rw [hnext, hops, List.append_assoc, List.drop_left]
    exact List.prefix_append _ _

/-- Registers of the recompiler's engine that hold what the interpreter's hold. -/
def runtimeContext (c : Context F) (regs : Registers F) (first : Nat) : RuntimeContext F where
  registers := c.block regs
  conditionalCode := fun i => regs.conditionalCode (i.setWidth 1)
  addressRegisters := regs.addressOffset
  nextMicroOp := first

omit [Float24 F] in
theorem related_runtimeContext (c : Context F) (regs : Registers F) (first : Nat) :
    Related c regs (runtimeContext c regs first) :=
  ⟨fun _ _ => rfl, fun i =>
    congrArg regs.conditionalCode (show (i.setWidth 32).setWidth 1 = i by bv_omega), fun _ _ => rfl⟩

/-- The instructions of `sumLoop` as blocks, without the loop. -/
def sumBlocks : AnalyzedProgram :=
  ⟨[(1, { length := 1 }), (2, { length := 1 }), (3, { length := 1 })]⟩

def sumStart : Registers Int := ⟨fun _ _ => 0, fun _ _ => 5, fun _ => false, fun _ => 0⟩

/-- The addition, in both engines. -/
theorem straight_block_agrees_add : ∃ code linked,
    recompileToMicroCode sumLoop.toRecompiler sumBlocks = .ok code ∧ code.link = .ok linked ∧
    ∃ last : RuntimeContext Int, last.registers 0x10 0 = 12 ∧ ∃ count, ∀ n,
      linked.execute (runtimeContext sumLoop sumStart 0) (count + n) = linked.execute last n := by
  have hb : ((1 : ShaderCodeOffset), ({ length := 1 } : BlockInfo)) ∈ sumBlocks.blocks :=
    List.mem_cons_self
  have ha : ∀ instr ∈ [(0x02010000 : Instruction)], Alike sumLoop instr := by
    intro instr hi
    rw [List.mem_singleton.mp hi]
    exact ⟨rfl, by decide, by decide, by decide⟩
  have hh : Holds sumLoop.shaderMemory 1 [(0x02010000 : Instruction)] := ⟨rfl, trivial⟩
  obtain ⟨-, last, hlast, hrun⟩ := straight_block_agrees rfl rfl hb hh rfl ha rfl
    (related_runtimeContext sumLoop sumStart 0) rfl
  exact ⟨_, _, rfl, rfl, last, by rw [hlast.registers _ (by decide)]; rfl, hrun⟩

end Mikage.Pica.VertexShader.Interpreter
