import Mikage.Arm.BlockTransfer

/-!
# `PUSH` and `POP`

The `STM` and the `LDM` that they stand for differ in one register: `PUSH` stores LR where `POP` loads
PC. With this the round trip of both is that of `Mikage.Arm.BlockTransfer`.
-/

namespace Mikage.Arm

open Lib.Words

variable {M : Type}

/-- `PUSH` of the registers in bits 0 to 7, and of LR if bit 8 is set. -/
def push (list : BitVec 9) : ThumbInstr := ⟨(0b1011010 : BitVec 7) ++ list⟩

/-- `POP`, of PC if bit 8 is set. -/
def pop (list : BitVec 9) : ThumbInstr := ⟨(0b1011110 : BitVec 7) ++ list⟩

/-- The `STM` that a `PUSH` stands for. -/
def pushInstr (instr : ThumbInstr) : ARMInstr :=
  let base : BitVec 32 := 0xE92D0000
  ⟨base ||| ThumbField.pushLr.get instr <<< 14 ||| ThumbField.registerList.get instr⟩

/-- The registers below SP. -/
def pushBlock (list : BitVec 9) : Block :=
  ⟨0#1 ++ list.extractLsb' 8 1 ++ 0#6 ++ list.extractLsb' 0 8, 13, false, true⟩

/-- `PUSH` and then `POP` of one list, with PC set to the next instruction after each. -/
def ThumbRoundTrips (env : Environment (ModeRest M)) (mem : WordMemory M)
    (s : Machine (ModeRest M)) (list : BitVec 9) : Prop :=
  ∃ t u next, dispatchThumb (env.withModes mem) s (push list) = .ok (t, s.cpu.pc + 2) ∧
    dispatchThumb (env.withModes mem) (t.set 15 (s.cpu.pc + 2)) (pop list) = .ok (u, next) ∧
    Stored mem (pushBlock list) s.cpu.fetchReg s t ∧
    Restored (pushBlock list) s t (u.set 15 next) ∧
    if list.getLsbD 8 then LoadsPC mem (pushBlock list) s t (u.set 15 next)
    else next = s.cpu.pc + 4 ∧ u.cpu.cpsr = s.cpu.cpsr

/-- The bits of the instruction that a `PUSH` or a `POP` stands for, with bit 8 of the list at
`k`. -/
def thumbBits (base : BitVec 16) (k : Nat) (list : BitVec 9) (i : Nat) : Bool :=
  if i < 8 then list.getLsbD i
  else if i = k then list.getLsbD 8
  else if i < 16 then false else base.getLsbD (i - 16)

theorem thumbField_get (upper : BitVec 7) (list : BitVec 9) :
    ThumbField.pushLr.get ⟨upper ++ list⟩ = (list.extractLsb' 8 1).setWidth 32 ∧
      ThumbField.registerList.get ⟨upper ++ list⟩ = (list.extractLsb' 0 8).setWidth 32 := by
  simp only [ThumbField.get, ThumbField.span]
  rw [BitVec.extractLsb'_append_eq_of_add_le (by decide),
    BitVec.extractLsb'_append_eq_of_add_le (by decide)]
  exact ⟨rfl, rfl⟩

theorem pushInstr_bits (list : BitVec 9) :
    ∀ i < 32, (pushInstr (push list)).raw.getLsbD i = thumbBits 0xE92D 14 list i := by
  intro i hi
  obtain ⟨hlr, hlow⟩ := thumbField_get 0b1011010 list
  simp only [pushInstr, push, hlr, hlow, BitVec.getLsbD_or, BitVec.getLsbD_shiftLeft,
    BitVec.getLsbD_setWidth, BitVec.getLsbD_extractLsb']
  interval_cases i <;> simp [thumbBits]

theorem popInstr_bits (list : BitVec 9) :
    ∀ i < 32, (popInstr (pop list)).raw.getLsbD i = thumbBits 0xE8BD 15 list i := by
  intro i hi
  obtain ⟨hpc, hlow⟩ := thumbField_get 0b1011110 list
  simp only [popInstr, pop, hpc, hlow, BitVec.getLsbD_or, BitVec.getLsbD_shiftLeft,
    BitVec.getLsbD_setWidth, BitVec.getLsbD_extractLsb']
  interval_cases i <;> simp [thumbBits]

section

variable {instr : ARMInstr} {base : BitVec 16} {k : Nat} {list : BitVec 9}
  (h : ∀ i < 32, instr.raw.getLsbD i = thumbBits base k list i)
include h

theorem thumbBits_extract (hk : k < 16) {start len : Nat} (hlow : 16 ≤ start)
    (hhigh : start + len ≤ 32) :
    instr.raw.extractLsb' start len = base.extractLsb' (start - 16) len := by
  apply BitVec.eq_of_getLsbD_eq
  intro i hi
  rw [BitVec.getLsbD_extractLsb', BitVec.getLsbD_extractLsb', h _ (by omega), thumbBits,
    if_neg (by omega), if_neg (by omega), if_neg (by omega), Nat.sub_add_comm hlow]

theorem thumbBits_getLsbD (hk : k < 16) {i : Nat} (hlow : 16 ≤ i) (hhigh : i < 32) :
    instr.raw.getLsbD i = base.getLsbD (i - 16) := by
  rw [h _ hhigh, thumbBits, if_neg (by omega), if_neg (by omega), if_neg (by omega)]

/-- The registers R0 to R7 of the list. -/
def lowList (list : BitVec 9) : List (BitVec 4) :=
  [0, 1, 2, 3, 4, 5, 6, 7].filter fun i => list.getLsbD i.toNat

theorem thumbBits_listed (hk : k = 14 ∨ k = 15) : instr.block.listed =
    lowList list ++ if list.getLsbD 8 then [BitVec.ofNat 4 k] else [] := by
  have hbit : ∀ i : BitVec 4,
      instr.block.registers.getLsbD i.toNat = thumbBits base k list i.toNat := by
    intro i
    have hi := i.isLt
    rw [ARMInstr.block, BitVec.getLsbD_extractLsb', Nat.zero_add, h _ (by omega)]
    simp only [hi, decide_true, Bool.true_and]
  have hlow : ([0, 1, 2, 3, 4, 5, 6, 7] : List (BitVec 4)).filter
      (fun i => thumbBits base k list i.toNat) = lowList list := by
    refine List.filter_congr fun i hi => ?_
    have hi : i.toNat < 8 := by
      revert i
      decide
    rw [thumbBits, if_pos hi]
  have hmiddle : ([8, 9, 10, 11, 12, 13] : List (BitVec 4)).filter
      (fun i => thumbBits base k list i.toNat) = [] := by
    refine List.filter_eq_nil_iff.2 fun i hi => ?_
    have hi : 8 ≤ i.toNat ∧ i.toNat < 14 := by
      revert i
      decide
    rw [thumbBits, if_neg (by omega), if_neg (by omega), if_pos (by omega)]
    exact Bool.false_ne_true
  have hlast : ([14, 15] : List (BitVec 4)).filter (fun i => thumbBits base k list i.toNat) =
      if list.getLsbD 8 then [BitVec.ofNat 4 k] else [] := by
    rw [List.filter_cons, List.filter_cons, List.filter_nil]
    rcases hk with rfl | rfl
    · show (if list.getLsbD 8 then 14 :: (if false then _ else []) else if false then _ else []) = _
      rfl
    · show (if false then _ else if list.getLsbD 8 then [15] else []) = _
      rfl
  have hsplit : ([0, 1, 2, 3, 4, 5, 6, 7, 8, 9, 10, 11, 12, 13, 14, 15] : List (BitVec 4)) =
    [0, 1, 2, 3, 4, 5, 6, 7] ++ ([8, 9, 10, 11, 12, 13] ++ [14, 15]) := rfl
  simp only [Block.listed, hbit]
  rw [hsplit, List.filter_append, List.filter_append, hlow, hmiddle, hlast, List.nil_append]

end

theorem pushInstr_fields (list : BitVec 9) : (pushInstr (push list)).idxRn = 13 ∧
    (pushInstr (push list)).ldrU = false ∧ (pushInstr (push list)).ldrP = true ∧
    (pushInstr (push list)).ldrW = true ∧ (pushInstr (push list)).cond = 0xE := by
  have hbits := pushInstr_bits list
  exact ⟨thumbBits_extract hbits (by decide) (by decide) (by decide),
    thumbBits_getLsbD hbits (by decide) (by decide) (by decide),
    thumbBits_getLsbD hbits (by decide) (by decide) (by decide),
    thumbBits_getLsbD hbits (by decide) (by decide) (by decide),
    thumbBits_extract hbits (by decide) (by decide) (by decide)⟩

theorem popInstr_fields (list : BitVec 9) : (popInstr (pop list)).idxRn = 13 ∧
    (popInstr (pop list)).ldrU = true ∧ (popInstr (pop list)).ldrP = false ∧
    (popInstr (pop list)).ldrW = true ∧ (popInstr (pop list)).addr4S = false ∧
    (popInstr (pop list)).cond = 0xE := by
  have hbits := popInstr_bits list
  exact ⟨thumbBits_extract hbits (by decide) (by decide) (by decide),
    thumbBits_getLsbD hbits (by decide) (by decide) (by decide),
    thumbBits_getLsbD hbits (by decide) (by decide) (by decide),
    thumbBits_getLsbD hbits (by decide) (by decide) (by decide),
    thumbBits_getLsbD hbits (by decide) (by decide) (by decide),
    thumbBits_extract hbits (by decide) (by decide) (by decide)⟩

/-! ## Decoding -/

theorem opcodeUpper_append (upper : BitVec 7) (list : BitVec 9) (n : Nat) :
    (n ≤ 7 → ThumbInstr.opcodeUpper ⟨upper ++ list⟩ n = upper.toNat / 2 ^ (7 - n)) ∧
      (7 ≤ n → n ≤ 16 →
        ThumbInstr.opcodeUpper ⟨upper ++ list⟩ n / 2 ^ (n - 7) = upper.toNat) := by
  have hraw : (upper ++ list).toNat / 2 ^ 9 = upper.toNat := by
    rw [BitVec.toNat_append, ← Nat.shiftLeft_add_eq_or_of_lt list.isLt, Nat.shiftLeft_eq]
    have := list.isLt
    omega
  refine ⟨fun hn => ?_, fun hn hn' => ?_⟩
  · rw [ThumbInstr.opcodeUpper, ← hraw, Nat.div_div_eq_div_mul, ← Nat.pow_add]
    congr 2
    omega
  · rw [ThumbInstr.opcodeUpper, ← hraw, Nat.div_div_eq_div_mul, ← Nat.pow_add]
    congr 2
    omega

/-- The seven upper bits of the opcode of a format, or as many as it has. -/
def ThumbFormat.startsWith (f : ThumbFormat) (upper : BitVec 7) : Bool :=
  if f.opcodeBits ≤ 7 then upper.toNat / 2 ^ (7 - f.opcodeBits) == f.opcode
  else f.opcode / 2 ^ (f.opcodeBits - 7) == upper.toNat

theorem ThumbFormat.not_admits {f : ThumbFormat} {upper : BitVec 7} (list : BitVec 9)
    (hbits : f.opcodeBits ≤ 16) (h : f.startsWith upper = false) :
    f.admits ⟨upper ++ list⟩ = false := by
  obtain ⟨hle, hge⟩ := opcodeUpper_append upper list f.opcodeBits
  rw [ThumbFormat.startsWith] at h
  rw [ThumbFormat.admits, beq_eq_false_iff_ne]
  intro heq
  split at h
  next hn =>
    rw [← hle hn, heq, beq_self_eq_true] at h
    cases h
  next hn =>
    rw [← heq, hge (by omega) hbits, beq_self_eq_true] at h
    cases h

theorem push_decoded (list : BitVec 9) :
    decodeThumb (push list) = .ok ⟨some (pushInstr (push list)), false, false⟩ := by
  have hothers : thumbFormats.dropLast.all
      (fun f => f.opcodeBits ≤ 16 && !f.startsWith 0b1011010) = true := by decide +kernel
  have hfind : thumbFormats.find? (·.admits (push list)) = some ⟨7, 0b1011010, 0xE92D0000,
      [(.pushLr, 14), (.registerList, 0)]⟩ := by
    refine List.find?_eq_some_iff_append.2 ⟨?_, thumbFormats.dropLast, [], rfl, fun f hf => ?_⟩
    · exact beq_iff_eq.2 ((opcodeUpper_append 0b1011010 list 7).1 (le_refl 7))
    · have hf' := List.all_eq_true.1 hothers f hf
      rw [Bool.and_eq_true, decide_eq_true_eq, Bool.not_eq_true'] at hf'
      rw [push, ThumbFormat.not_admits list hf'.1 hf'.2]
      rfl
  rw [decodeThumb, hfind]
  simp only [ThumbFormat.encode, List.foldl_cons, List.foldl_nil, BitVec.shiftLeft_zero, pushInstr]

theorem push_dispatched (list : BitVec 9) : dispatch (pushInstr (push list)) = .ldmStm false := by
  have hrows : ∀ low : BitVec 4,
      (lookupRow (0#1 ++ 0x92#8 ++ low)).bind (·.handler) = some (.ldmStm false) := by
    decide +kernel
  have hbits := pushInstr_bits list
  refine dispatch_of_lookup ?_
  have h20 : (pushInstr (push list)).raw.extractLsb' 20 8 = 0x92 :=
    thumbBits_extract hbits (by decide) (by decide) (by decide)
  have h25 : (pushInstr (push list)).raw.extractLsb' 25 3 = 4 :=
    thumbBits_extract hbits (by decide) (by decide) (by decide)
  have h24 : (pushInstr (push list)).raw.extractLsb' 24 4 = 9 :=
    thumbBits_extract hbits (by decide) (by decide) (by decide)
  obtain ⟨-, -, -, -, hcond⟩ := pushInstr_fields list
  rw [buildDispatchTableKey, h20, h25, h24, hcond, if_neg (by decide)]
  exact hrows _

theorem pop_decoded (list : BitVec 9) : decodeThumb (pop list) = .ok ⟨none, false, false⟩ := by
  have hothers : (thumbFormats ++ [addHiFormat, movHiFormat, ldmiaFormat true, cmpHiFormat]).all
      (fun f => f.opcodeBits ≤ 16 && !f.startsWith 0b1011110) = true := by decide +kernel
  have hnone : ∀ f ∈ thumbFormats ++ [addHiFormat, movHiFormat, ldmiaFormat true, cmpHiFormat],
      f.admits (pop list) = false := by
    intro f hf
    have hf' := List.all_eq_true.1 hothers f hf
    rw [Bool.and_eq_true, decide_eq_true_eq, Bool.not_eq_true'] at hf'
    exact ThumbFormat.not_admits list hf'.1 hf'.2
  have hfind : thumbFormats.find? (·.admits (pop list)) = none := by
    refine List.find?_eq_none.2 fun f hf => ?_
    rw [hnone f (List.mem_append_left _ hf)]
    exact Bool.false_ne_true
  simp only [decodeThumb, hfind, hnone addHiFormat (by simp), hnone movHiFormat (by simp),
    hnone (ldmiaFormat true) (by simp), hnone cmpHiFormat (by simp), Bool.false_eq_true, if_false]

theorem dispatchThumb_push (env : Environment M) (s : Machine M) (list : BitVec 9) :
    dispatchThumb env s (push list) = handlerLdmStm env false s (pushInstr (push list)) >>=
      fun r => pure (r.1, r.1.cpu.pc + 2) := by
  rw [dispatchThumb, push_decoded]
  show forwardThumbToARM env ⟨some (pushInstr (push list)), false, false⟩ s _ = _
  simp only [forwardThumbToARM, Bool.false_eq_true, if_false, push_dispatched]
  rfl

theorem dispatchThumb_pop (env : Environment M) (s : Machine M) (list : BitVec 9) :
    dispatchThumb env s (pop list) = handlerLdmStm env true s (popInstr (pop list)) >>=
      fun r => pure (r.1, if list.getLsbD 8 then r.2 else r.2 - 2) := by
  have hbit : (pop list).raw.getLsbD 8 = list.getLsbD 8 := by
    rw [pop, BitVec.getLsbD_append]
    rfl
  have hupper := opcodeUpper_append 0b1011110 list
  have h5 : (pop list).opcodeUpper 5 = 0b10111 := (hupper 5).1 (by decide)
  have h4 : (pop list).opcodeUpper 4 = 0b1011 := (hupper 4).1 (by decide)
  have h3 : (pop list).opcodeUpper 3 = 0b101 := (hupper 3).1 (by decide)
  have h7 : (pop list).opcodeUpper 7 = 0b1011110 := (hupper 7).1 (by decide)
  have h9 : (pop list).opcodeUpper 9 / 4 = 0b1011110 := (hupper 9).2 (by decide) (by decide)
  have hblx : ¬ (pop list).opcodeUpper 9 = 0b010001111 := by omega
  have hbx : ¬ (pop list).opcodeUpper 9 = 0b010001110 := by omega
  rw [dispatchThumb, pop_decoded]
  simp only [bind, Except.bind, h5, h4, h3, h7, if_neg hblx, if_neg hbx, hbit]
  rfl

theorem pushInstr_block (list : BitVec 9) : (pushInstr (push list)).block = pushBlock list := by
  obtain ⟨hrn, hup, hbefore, -, -⟩ := pushInstr_fields list
  rw [ARMInstr.block, pushBlock, hrn, hup, hbefore]
  congr 1
  apply BitVec.eq_of_getLsbD_eq
  intro i hi
  rw [BitVec.getLsbD_extractLsb', Nat.zero_add, pushInstr_bits list _ (by omega)]
  simp only [BitVec.getLsbD_append, BitVec.getLsbD_extractLsb', BitVec.getLsbD_zero]
  interval_cases i <;> simp [thumbBits]

theorem listed_pushBlock (list : BitVec 9) :
    (pushBlock list).listed = lowList list ++ if list.getLsbD 8 then [14] else [] := by
  rw [← pushInstr_block]
  exact thumbBits_listed (pushInstr_bits list) (.inl rfl)

theorem listed_popInstr (list : BitVec 9) :
    (popInstr (pop list)).block.listed = lowList list ++ if list.getLsbD 8 then [15] else [] :=
  thumbBits_listed (popInstr_bits list) (.inr rfl)

theorem lowList_lt {list : BitVec 9} {i : BitVec 4} (h : i ∈ lowList list) : i < 8 := by
  have hmem := (List.mem_filter.1 h).1
  clear h
  revert i
  decide

theorem lowList_ne {list : BitVec 9} {i : BitVec 4} (h : i ∈ lowList list) : i ≠ 15 := by
  rintro rfl
  exact absurd (lowList_lt h) (by decide)

theorem pushBlock_registers_ne {list : BitVec 9} (h : list ≠ 0) :
    (pushBlock list).registers ≠ 0 := by
  intro hzero
  have hbit : ∀ i < 16, thumbBits 0xE92D 14 list i = false := by
    intro i hi
    have hget := congrArg (fun r : BitVec 16 => r.getLsbD i) hzero
    rw [← pushInstr_block, ARMInstr.block] at hget
    simp only [BitVec.getLsbD_extractLsb', hi, decide_true, Bool.true_and, Nat.zero_add] at hget
    rw [pushInstr_bits list _ (by omega)] at hget
    exact hget.trans BitVec.getLsbD_zero
  refine h (BitVec.eq_of_getLsbD_eq fun i hi => ?_)
  rw [show (0 : BitVec 9).getLsbD i = false from BitVec.getLsbD_zero]
  by_cases hlt : i < 8
  · have hlow := hbit i (by omega)
    rwa [thumbBits, if_pos hlt] at hlow
  · rw [show i = 8 by omega]
    exact hbit 14 (by decide)

section

variable {env : Environment (ModeRest M)} {mem : WordMemory M} {s : Machine (ModeRest M)}

theorem thumbRoundTrips_iff {list : BitVec 9} (hne : list ≠ 0)
    (hplain : PlainFrom mem ((pushBlock list).start (s.cpu.reg 13))
      (pushBlock list).listed.length) :
    ThumbRoundTrips env mem s list ↔ StoresOwn s (pushBlock list).registers := by
  obtain ⟨hrn, hup, hbefore, hw, hcond⟩ := pushInstr_fields list
  obtain ⟨hrn', hup', hbefore', hw', hown', hcond'⟩ := popInstr_fields list
  have hblock := pushInstr_block list
  have halways : ∀ (cpu : State) (instr : ARMInstr), instr.cond = 0xE →
      evalCond cpu instr.cond = .ok true := by
    rintro cpu instr h
    rw [h]
    rfl
  have hfetch : s.cpu.fetchReg (pushInstr (push list)).idxRn = s.cpu.reg 13 := by
    rw [hrn]
    rfl
  have hstm_ne : (pushInstr (push list)).block.registers ≠ 0 := by
    rw [hblock]
    exact pushBlock_registers_ne hne
  have hstm_plain : PlainFrom mem ((pushInstr (push list)).block.start
      (s.cpu.fetchReg (pushInstr (push list)).idxRn))
      (pushInstr (push list)).block.listed.length := by
    rwa [hfetch, hblock]
  obtain ⟨t, hrun, hstored⟩ := @handlerStm_stored _ env _ _ _ (halways s.cpu _ hcond) hstm_ne hw
    hstm_plain
  have hbase : (pushInstr (push list)).block.base = 13 := hrn
  have hpush : dispatchThumb (env.withModes mem) s (push list) = .ok (t, s.cpu.pc + 2) := by
    have hpc : t.cpu.pc = s.cpu.pc := hstored.reg 15 (by rw [hbase]; decide)
    rw [dispatchThumb_push, hrun, ← hpc]
    rfl
  rw [ThumbRoundTrips, ← hblock]
  constructor
  · rintro ⟨t', u, next, hpush', -, hown, -, -⟩
    have hsame : t' = t := (Prod.mk.inj (Except.ok.inj (hpush'.symm.trans hpush))).1
    subst hsame
    exact storesOwn_iff.2 (hown.own hstored)
  · intro hown
    have hval := storesOwn_iff.1 hown
    -- `POP` loads to PC what `PUSH` has stored for LR
    let f : BitVec 4 → BitVec 32 := fun r => storedValue s.cpu s.rest (if r = 15 then 14 else r)
    have hfne : ∀ r, r ≠ 15 → f r = storedValue s.cpu s.rest r := by
      intro r h
      show storedValue s.cpu s.rest (if r = 15 then 14 else r) = _
      rw [if_neg h]
    have hf : (popInstr (pop list)).block.listed.map f =
        (pushInstr (push list)).block.listed.map (storedValue s.cpu s.rest) := by
      rw [listed_popInstr, hblock, listed_pushBlock, List.map_append, List.map_append]
      congr 1
      · refine List.map_congr_left fun i hi => ?_
        exact hfne i (lowList_ne hi)
      · cases list.getLsbD 8 <;> rfl
    have hkept : ∀ r, r ≠ 15 → (t.set 15 (s.cpu.pc + 2)).cpu.reg r = t.cpu.reg r :=
      fun r hr => State.set_reg_of_ne _ hr _
    have hrn15 : (pushInstr (push list)).idxRn ≠ 15 := by
      rw [hrn]
      decide
    have hldm_ne : (popInstr (pop list)).block.registers ≠ 0 := by
      intro hzero
      have hnil : (popInstr (pop list)).block.listed = [] := by
        rw [Block.listed, hzero]
        rfl
      rw [hnil] at hf
      have hpos := listed_pos hstm_ne
      rw [List.map_eq_nil_iff.1 hf.symm] at hpos
      exact absurd hpos (by decide)
    have hpc : (popInstr (pop list)).raw.getLsbD 15 = list.getLsbD 8 :=
      popInstr_bits list 15 (by decide)
    have hback := @handlerLdm_back _ env _ _ _ _ _ (t.set 15 (s.cpu.pc + 2)) _ _ hstored rfl hrn15
      (hkept _ hrn15) (halways _ _ hcond') hldm_ne hw' hown' (hrn'.trans hrn.symm)
      (by rw [hup', hup]; rfl) (by rw [hbefore', hbefore]; rfl) hstm_plain hf
    refine ⟨t, _, _, hpush, by rw [dispatchThumb_pop, hback]; rfl, hstored.congr hval, ?_, ?_⟩
    · refine broughtBack_restored hstored hkept hrn15 fun r hr => ?_
      obtain ⟨hmem, h15⟩ := below_listed hr
      have hlow : r ∈ lowList list := by
        rw [listed_popInstr, List.mem_append] at hmem
        refine hmem.resolve_right fun hlast => h15 ?_
        split at hlast
        · exact List.mem_singleton.1 hlast
        · cases hlast
      have hr := hval r (by rw [hblock, listed_pushBlock]; exact List.mem_append_left _ hlow)
      rw [hfne r h15, hr, State.fetchReg, if_neg h15]
    · cases hb : list.getLsbD 8 with
      | false =>
        rw [hb] at hpc
        simp only [Bool.false_eq_true, if_false, hpc]
        refine ⟨?_, ?_⟩
        · show s.cpu.pc + 2 + 4 - 2 = _
          ring
        · show (loaded _ _ _).cpsr = _
          rw [loaded_cpsr, hpc]
          exact hstored.cpsr
      | true =>
        rw [hb] at hpc
        simp only [if_true, hpc]
        refine broughtBack_loadsPC hstored hstored.cpsr hpc (l := lowList list) (i := 14) ?_ rfl
        rw [hblock, listed_pushBlock, hb]
        rfl

end

/-! ## The claim -/

/-- **Block transfers**: a transfer to memory and the one back restore the registers exactly where
the base is not PC and the registers that are looked up in the bank of the user have their own value
there, as in User mode; `PUSH` and `POP` likewise. -/
theorem blockTransfer_exact (env : Environment (ModeRest M)) (mem : WordMemory M)
    (s : Machine (ModeRest M)) :
    (∀ stm ldm : ARMInstr, Opposite stm ldm → evalCond s.cpu stm.cond = .ok true →
      evalCond s.cpu ldm.cond = .ok true → stm.block.registers ≠ 0 →
      PlainFrom mem (stm.block.start (s.cpu.fetchReg stm.idxRn)) stm.block.listed.length →
      (RoundTrips env mem s stm ldm ↔ stm.idxRn ≠ 15 ∧ StoresOwn s stm.block.registers)) ∧
    ∀ list : BitVec 9, list ≠ 0 →
      PlainFrom mem ((pushBlock list).start (s.cpu.reg 13)) (pushBlock list).listed.length →
      (ThumbRoundTrips env mem s list ↔ StoresOwn s (pushBlock list).registers) :=
  ⟨fun _ _ h hstm hldm hne hplain => roundTrips_iff h hstm hldm hne hplain,
    fun _ hne hplain => thumbRoundTrips_iff hne hplain⟩

/-- An environment that does nothing. -/
def Environment.inert : Environment M where
  fetchThumb _ _ := .error .undefined
  fetchArm _ _ := .error .undefined
  compute _ _ _ _ := .error .undefined
  readVirtualMemory _ _ m := .ok (0, m)
  writeVirtualMemory _ _ _ m := .ok m
  hasSPSR _ := false
  storedReg cpu _ i := cpu.reg i
  restoreSPSR cpu m := ⟨cpu.reg, cpu.cpsr, m⟩
  switchesBank _ _ _ := false
  clearExclusive m := m

/-- R8 holds 1, and the bank of the user 0. -/
def withR8 (mode : Mode) : Machine (ModeRest (Bytes 32)) :=
  ⟨State.zero.set 8 1, ⟨mode, fun _ => 0, fun _ => 0⟩⟩

/-- `STMDB SP!, {R8}` and `LDMIA SP!, {R8}` -/
theorem opposite_r8 : Opposite ⟨0xE92D0100⟩ ⟨0xE8BD0100⟩ where
  block := by decide
  writeBack := by decide
  ownMode := by decide

/-- In User mode, and `PUSH {R0, LR}` with `POP {R0, PC}`. -/
theorem blockTransfer_exact_user :
    RoundTrips .inert .flat (withR8 .user) ⟨0xE92D0100⟩ ⟨0xE8BD0100⟩ ∧
      ThumbRoundTrips .inert .flat (withR8 .user) 0x101 :=
  ⟨((blockTransfer_exact .inert .flat (withR8 .user)).1 _ _ opposite_r8 rfl rfl (by decide)
      fun _ _ => trivial).2 ⟨by decide, .inl rfl⟩,
    ((blockTransfer_exact .inert .flat (withR8 .user)).2 0x101 (by decide)
      fun _ _ => trivial).2 (.inl rfl)⟩

/-- In Supervisor mode, R8 is stored as the user's. -/
theorem stm_stores_banked : ¬ RoundTrips .inert .flat (withR8 .supervisor) ⟨0xE92D0100⟩
    ⟨0xE8BD0100⟩ := by
  rw [roundTrips_iff opposite_r8 rfl rfl (by decide) fun _ _ => trivial]
  rintro ⟨-, h | h⟩
  · cases h
  · exact absurd (h 8 (by decide) (by decide) (by decide)) (by decide)

end Mikage.Arm
