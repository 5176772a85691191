import Mikage.Arm.Dispatch
import Mikage.Lib.Lists

/-!
# Generating the dispatch table

`GenerateDispatchTable` for any list of encodings: which keys a row fills, with the row's don't-care
bits enumerated, and which row a key ends up with.

- `mem_filledKeys`: a row fills the keys that agree with it in the bits the key is made of.
- `generateDispatchTable_eq`: a key has the handler of the last row that fills it.
- `table_decoding`: decoding by the table against scanning the rows with all their bits.
- `dispatch_eq`: the table of the interpreter, `metaTable`, is the one generated from `encodings`.
-/

namespace Mikage.Arm

/-! ## Encodings -/

/-- `ARM::Instr` -/
inductive Instr where
  | and | eor | sub | rsb | add | adc | sbc | rsc | tst | teq | cmp | cmn | orr | mov | bic | mvn
  | mul
  | ssub8 | qsub8 | uadd8 | usub8 | uqadd8 | uqsub8 | uhadd8 | ssat | usat
  | sxtah | uxtb16 | uxtah
  | b | bl | bx | blx | blxImm
  | ldr | ldrb | ldrh | ldrsh | ldrsb | ldrd | str | strb | strh | strd
  | ldm | stm | msr | mrrc | mcrr | vldr | vstr | vldm | vstm | vfpS | vfpD | mrrcVfp | mcrrVfp
  | swi | unknown
  deriving DecidableEq, Repr

/-- The meaning of each bit, from bit 31 down to bit 0. -/
structure InstrMetaInfo where
  bitEncoding : List Char
  length_eq : bitEncoding.length = 32

abbrev Encoding := Instr × InstrMetaInfo

namespace InstrMetaInfo

/-- The character of a bit of the instruction. -/
def bit (info : InstrMetaInfo) (i : Nat) : Char := info.bitEncoding.getD (31 - i) ' '

def contains (info : InstrMetaInfo) (c : Char) : Bool := info.bitEncoding.contains c

def isAddressingMode1 (info : InstrMetaInfo) : Bool := info.contains 'A'

def isAddressingMode2 (info : InstrMetaInfo) : Bool := info.contains 'B'

def isAddressingMode5 (info : InstrMetaInfo) : Bool := info.contains 'E'

def isCoprocessorOp (info : InstrMetaInfo) : Bool :=
  info.isAddressingMode5 || info.contains 'P'

/-- The first four characters are `1111`. -/
def isUnconditional (info : InstrMetaInfo) : Bool :=
  info.bit 31 == '1' && info.bit 30 == '1' && info.bit 29 == '1' && info.bit 28 == '1'

/-- The bit of the instruction that a bit of the key stands for: bits 27 to 20, and 7 to 4 or, for
coprocessor instructions, 11 to 8. -/
def instrBit (info : InstrMetaInfo) (keyBit : Nat) : Nat :=
  if 4 ≤ keyBit then keyBit + 16 else if info.isCoprocessorOp then keyBit + 8 else keyBit + 4

/-- The character for a bit of the key. -/
def keyChar (info : InstrMetaInfo) (keyBit : Nat) : Char := info.bit (info.instrBit keyBit)

end InstrMetaInfo

/-- What a character fixes its bit to. -/
def fixedBit : Char → Option Bool
  | '0' | 'o' => some false
  | '1' | '/' => some true
  | _ => none

/-- `key | (1 << bit)` -/
def setKeyBit (key : BitVec 13) (bit : Nat) : BitVec 13 := key ||| 1#13 <<< bit

/-- The bits of the key that a row fixes to 1. -/
def outputKey (info : InstrMetaInfo) : BitVec 13 :=
  (List.range 12).foldl (fun key b =>
    if fixedBit (info.keyChar b) == some true then setKeyBit key b else key) 0#13

/-- The bits of the key that a row leaves open. -/
def dynamicBits (info : InstrMetaInfo) : List Nat :=
  (List.range 12).filter fun b => fixedBit (info.keyChar b) = none

/-- The key for an index of the enumeration: bit `i` of the index is the value of the `i`-th open
bit. -/
def dynamicKey (info : InstrMetaInfo) (encodingIndex : Nat) : BitVec 13 :=
  (dynamicBits info).zipIdx.foldl (fun key b =>
    if encodingIndex.testBit b.2 then setKeyBit key b.1 else key) (outputKey info)

/-- The keys that a row leaves out because of its addressing mode. -/
def discarded (row : Encoding) (key : BitVec 13) : Bool :=
  -- bits 4 and 7 of the instruction are set and bit 25 is not
  (row.2.isAddressingMode1 && key.getLsbD 0 && key.getLsbD 3 && !key.getLsbD 9) ||
  -- bits 4 and 25 are set
  (row.2.isAddressingMode2 && key.getLsbD 0 && key.getLsbD 9) ||
  -- W is set, and U and P are equal
  (row.2.isAddressingMode5 && decide (row.1 ∈ [.vldm, .vstm, .vldr, .vstr]) &&
    key.getLsbD 5 && key.getLsbD 7 == key.getLsbD 8)

/-- The keys a row fills, one after the other. -/
def filledKeys (row : Encoding) : List (BitVec 13) :=
  (((List.range (2 ^ (dynamicBits row.2).length)).map (dynamicKey row.2)).filter
    fun key => !discarded row key).map fun key =>
      if row.2.isUnconditional then setKeyBit key 12 else key

/-- `GenerateDispatchTable`. The array has an entry for each key. -/
def generateDispatchTable {α : Type} (table : List Encoding) (f : Instr → α) (defaultValue : α) :
    BitVec 13 → α :=
  table.foldl (fun entries row =>
    (filledKeys row).foldl (fun entries key => Function.update entries key (f row.1)) entries)
    fun _ => defaultValue

/-! ## The keys of a row -/

/-- The key agrees with the row. -/
def KeyFits (row : Encoding) (key : BitVec 13) : Prop :=
  key.getLsbD 12 = row.2.isUnconditional ∧
  (∀ b < 12, ∀ v ∈ fixedBit (row.2.keyChar b), key.getLsbD b = v) ∧ discarded row key = false

instance (row : Encoding) (key : BitVec 13) : Decidable (KeyFits row key) :=
  inferInstanceAs (Decidable (_ ∧ (∀ b < 12, _) ∧ _))

variable {α : Type} {row : Encoding} {info : InstrMetaInfo} {key : BitVec 13} {table : List Encoding}

theorem getLsbD_setKeyBit {b j : Nat} (hj : j < 13) :
    (setKeyBit key b).getLsbD j = (key.getLsbD j || decide (j = b)) := by
  have hone : (1#13 <<< b).getLsbD j = decide (j = b) := by
    rw [Bool.eq_iff_iff, BitVec.getLsbD_shiftLeft, BitVec.getLsbD_one]
    simp only [hj, decide_true, Bool.true_and, Bool.and_eq_true, Bool.not_eq_true',
      decide_eq_false_iff_not, decide_eq_true_eq]
    omega
  rw [setKeyBit, BitVec.getLsbD_or, hone]

/-- A loop that sets bits of a key sets those whose condition holds. -/
theorem getLsbD_setBits {β : Type} {p : β → Bool} {f : β → Nat} {j : Nat} (hj : j < 13)
    (l : List β) (key : BitVec 13) :
    (l.foldl (fun key x => if p x then setKeyBit key (f x) else key) key).getLsbD j =
      (key.getLsbD j || l.any fun x => p x && decide (j = f x)) := by
  induction l generalizing key with
  | nil => simp
  | cons x l ih =>
    rw [List.foldl_cons, ih, List.any_cons]
    cases hp : p x
    · simp
    · rw [if_pos rfl, getLsbD_setKeyBit hj, Bool.true_and, Bool.or_assoc]

theorem getLsbD_outputKey {j : Nat} (hj : j < 13) : (outputKey info).getLsbD j =
    decide (j < 12 ∧ fixedBit (info.keyChar j) = some true) := by
  rw [outputKey, getLsbD_setBits (f := fun b => b) hj, Bool.eq_iff_iff]
  simp only [BitVec.getLsbD_zero, Bool.false_or, List.any_eq_true, List.mem_range,
    Bool.and_eq_true, beq_iff_eq, decide_eq_true_eq]
  constructor
  · rintro ⟨b, hb, hc, rfl⟩
    exact ⟨hb, hc⟩
  · rintro ⟨hb, hc⟩
    exact ⟨j, hb, hc, rfl⟩

theorem getLsbD_dynamicKey {j index : Nat} (hj : j < 13) : (dynamicKey info index).getLsbD j =
    ((outputKey info).getLsbD j ||
      (dynamicBits info).zipIdx.any fun b => index.testBit b.2 && decide (j = b.1)) := by
  rw [dynamicKey, getLsbD_setBits (p := fun b : Nat × Nat => index.testBit b.2)
    (f := fun b => b.1) hj]

theorem mem_dynamicBits {b : Nat} :
    b ∈ dynamicBits info ↔ b < 12 ∧ fixedBit (info.keyChar b) = none := by
  simp [dynamicBits]

/-- The bits of a key of the enumeration: those of the row where it fixes them, those of the index
where it does not. -/
theorem dynamicKey_fixed {index j : Nat} {v : Bool} (hj : j < 12)
    (h : fixedBit (info.keyChar j) = some v) : (dynamicKey info index).getLsbD j = v := by
  rw [getLsbD_dynamicKey (Nat.lt_succ_of_lt hj), getLsbD_outputKey (Nat.lt_succ_of_lt hj)]
  have hnone : ((dynamicBits info).zipIdx.any fun b => index.testBit b.2 && decide (j = b.1)) =
      false := by
    rw [List.any_eq_false]
    rintro ⟨b, i⟩ hb hand
    simp only [Bool.and_eq_true, decide_eq_true_eq] at hand
    have hmem := mem_dynamicBits.1 (List.fst_mem_of_mem_zipIdx hb)
    rw [← hand.2, h] at hmem
    exact absurd hmem.2 (Option.some_ne_none _)
  rw [hnone, Bool.or_false, h, Bool.eq_iff_iff]
  simp [hj]

theorem dynamicKey_open {index j i : Nat} (hi : (dynamicBits info)[i]? = some j) :
    (dynamicKey info index).getLsbD j = index.testBit i := by
  have hj := mem_dynamicBits.1 (List.mem_of_getElem? hi)
  rw [getLsbD_dynamicKey (Nat.lt_succ_of_lt hj.1), getLsbD_outputKey (Nat.lt_succ_of_lt hj.1)]
  have hnot : decide (j < 12 ∧ fixedBit (info.keyChar j) = some true) = false := by
    simp [hj.2]
  rw [hnot, Bool.false_or, Bool.eq_iff_iff, List.any_eq_true]
  constructor
  · rintro ⟨⟨b, i'⟩, hb, hand⟩
    simp only [Bool.and_eq_true, decide_eq_true_eq] at hand
    obtain ⟨htest, rfl⟩ := hand
    have hi' := List.mem_zipIdx_iff_getElem?.1 hb
    have hlt := (List.getElem?_eq_some_iff.1 hi).1
    have hnodup : (dynamicBits info).Nodup := List.nodup_range.filter _
    rwa [(List.getElem?_inj hlt hnodup).1 (hi.trans hi'.symm)]
  · intro htest
    refine ⟨(j, i), List.mem_zipIdx_iff_getElem?.2 hi, ?_⟩
    simpa using htest

theorem dynamicKey_high {index : Nat} : (dynamicKey info index).getLsbD 12 = false := by
  rw [getLsbD_dynamicKey (by decide), getLsbD_outputKey (by decide)]
  simp only [Nat.lt_irrefl, false_and, decide_false, Bool.false_or, List.any_eq_false]
  rintro ⟨b, i⟩ hb hand
  simp only [Bool.and_eq_true, decide_eq_true_eq] at hand
  have hmem := mem_dynamicBits.1 (List.fst_mem_of_mem_zipIdx hb)
  omega

/-- The enumeration gives the keys that agree with the fixed bits of the row, and only these. -/
theorem mem_dynamicKeys : key ∈ (List.range (2 ^ (dynamicBits info).length)).map (dynamicKey info) ↔
    key.getLsbD 12 = false ∧ ∀ b < 12, ∀ v ∈ fixedBit (info.keyChar b), key.getLsbD b = v := by
  rw [List.mem_map]
  constructor
  · rintro ⟨index, -, rfl⟩
    exact ⟨dynamicKey_high, fun b hb v hv => dynamicKey_fixed hb hv⟩
  · rintro ⟨hhigh, hfixed⟩
    -- the index whose bits are the open bits of the key
    let bits : Fin (dynamicBits info).length → Bool := fun i => key.getLsbD (dynamicBits info)[i]
    refine ⟨Nat.ofBits bits, List.mem_range.2 (Nat.ofBits_lt_two_pow _), ?_⟩
    refine BitVec.eq_of_getLsbD_eq fun j hj => ?_
    rcases Nat.lt_succ_iff_lt_or_eq.1 hj with hj | rfl
    · cases hc : fixedBit (info.keyChar j) with
      | some v => rw [dynamicKey_fixed hj hc, hfixed j hj v hc]
      | none =>
        obtain ⟨i, hi, hij⟩ := List.getElem_of_mem (mem_dynamicBits.2 ⟨hj, hc⟩)
        have hopen : (dynamicBits info)[i]? = some j := List.getElem?_eq_some_iff.2 ⟨hi, hij⟩
        rw [dynamicKey_open hopen, Nat.testBit_ofBits_lt _ _ hi]
        show key.getLsbD (dynamicBits info)[i] = _
        rw [hij]
    · rw [dynamicKey_high, hhigh]

theorem discarded_setKeyBit : discarded row (setKeyBit key 12) = discarded row key := by
  simp only [discarded, getLsbD_setKeyBit (by decide : 0 < 13), getLsbD_setKeyBit (by decide : 3 < 13),
    getLsbD_setKeyBit (by decide : 5 < 13), getLsbD_setKeyBit (by decide : 7 < 13),
    getLsbD_setKeyBit (by decide : 8 < 13), getLsbD_setKeyBit (by decide : 9 < 13)]
  simp

theorem mem_filledKeys : key ∈ filledKeys row ↔ KeyFits row key := by
  unfold filledKeys KeyFits
  rw [List.mem_map]
  simp only [List.mem_filter, mem_dynamicKeys, Bool.not_eq_true']
  constructor
  · rintro ⟨key, ⟨⟨hhigh, hfixed⟩, hkept⟩, rfl⟩
    cases hu : row.2.isUnconditional
    · exact ⟨hhigh, hfixed, hkept⟩
    · simp only [if_true]
      refine ⟨by rw [getLsbD_setKeyBit (by decide)]; simp, fun b hb v hv => ?_,
        discarded_setKeyBit.trans hkept⟩
      rw [getLsbD_setKeyBit (Nat.lt_succ_of_lt hb), hfixed b hb v hv]
      simp [Nat.ne_of_lt hb]
  · rintro ⟨hhigh, hfixed, hkept⟩
    cases hu : row.2.isUnconditional
    · exact ⟨key, ⟨⟨hhigh.trans hu, hfixed⟩, hkept⟩, rfl⟩
    · -- the key without its highest bit
      have hlow (b : Nat) (hb : b < 13) :
          (key &&& ~~~(1#13 <<< 12)).getLsbD b = (key.getLsbD b && decide (b ≠ 12)) := by
        rw [BitVec.getLsbD_and, BitVec.getLsbD_not, BitVec.getLsbD_shiftLeft, BitVec.getLsbD_one]
        congr 1
        rw [Bool.eq_iff_iff]
        simp only [hb, decide_true, Bool.true_and, Bool.and_eq_false_imp,
          decide_eq_true_eq, decide_eq_false_iff_not, Bool.not_eq_eq_eq_not, Bool.not_true]
        omega
      have hback : setKeyBit (key &&& ~~~(1#13 <<< 12)) 12 = key := by
        refine BitVec.eq_of_getLsbD_eq fun b hb => ?_
        rw [getLsbD_setKeyBit hb, hlow b hb]
        by_cases h : b = 12
        · subst h
          simp [hhigh.trans hu]
        · simp [h]
      refine ⟨key &&& ~~~(1#13 <<< 12), ⟨⟨by rw [hlow 12 (by decide)]; simp, fun b hb v hv => ?_⟩,
        ?_⟩, by rw [if_pos rfl, hback]⟩
      · rw [hlow b (Nat.lt_succ_of_lt hb), hfixed b hb v hv]
        simp [Nat.ne_of_lt hb]
      · rw [← discarded_setKeyBit, hback, hkept]

/-! ## The entry of a key -/

theorem update_all (entries : BitVec 13 → α) (x : α) (keys : List (BitVec 13)) :
    keys.foldl (fun entries key => Function.update entries key x) entries key =
      if key ∈ keys then x else entries key := by
  induction keys generalizing entries with
  | nil => simp
  | cons k keys ih =>
    rw [List.foldl_cons, ih]
    by_cases hmem : key ∈ keys
    · rw [if_pos hmem, if_pos (List.mem_cons_of_mem _ hmem)]
    · by_cases hk : key = k
      · subst hk
        rw [if_neg hmem, if_pos List.mem_cons_self, Function.update_self]
      · rw [if_neg hmem, if_neg (by simp [hk, hmem]), Function.update_of_ne hk]

/-- The rows in the order of the table, the last one first. -/
def lastRow (p : Encoding → Bool) (table : List Encoding) : Option Encoding :=
  table.reverse.find? p

/-- The handler of a row, or the default. -/
def handlerOf (f : Instr → α) (defaultValue : α) (row : Option Encoding) : α :=
  (row.map fun row => f row.1).getD defaultValue

/-- Each key has the handler of the last row it agrees with. -/
theorem generateDispatchTable_eq (table : List Encoding) (f : Instr → α) (defaultValue : α)
    (key : BitVec 13) : generateDispatchTable table f defaultValue key =
      handlerOf f defaultValue (lastRow (fun row => decide (KeyFits row key)) table) := by
  unfold generateDispatchTable lastRow
  induction table using List.reverseRecOn with
  | nil => rfl
  | append_singleton table row ih =>
    rw [List.foldl_append, List.foldl_cons, List.foldl_nil, update_all, List.reverse_append,
      List.reverse_singleton, List.singleton_append, List.find?_cons, ih]
    by_cases hfits : KeyFits row key
    · rw [if_pos (mem_filledKeys.2 hfits), decide_eq_true hfits]
      rfl
    · rw [if_neg fun h => hfits (mem_filledKeys.1 h), decide_eq_false hfits]

/-! ## Scanning with all bits -/

/-- The instruction has the bits the row fixes, its condition is 1111 exactly if the row says so, and
it is of the row's addressing mode. -/
def Fits (row : Encoding) (instr : ARMInstr) : Prop :=
  decide (instr.cond = 0xF) = row.2.isUnconditional ∧
  (∀ i < 32, ∀ v ∈ fixedBit (row.2.bit i), instr.raw.getLsbD i = v) ∧
  discarded row (buildDispatchTableKey instr) = false

instance (row : Encoding) (instr : ARMInstr) : Decidable (Fits row instr) :=
  inferInstanceAs (Decidable (_ ∧ (∀ i < 32, _) ∧ _))

/-- What `BuildDispatchTableKey` takes for a coprocessor instruction. -/
def isCoprocessor (instr : ARMInstr) : Prop :=
  instr.raw.extractLsb' 25 3 = 6 ∨ instr.raw.extractLsb' 24 4 = 14

instance (instr : ARMInstr) : Decidable (isCoprocessor instr) :=
  inferInstanceAs (Decidable (_ ∨ _))

/-- The row is marked for a coprocessor exactly if its instructions are for one. -/
def Classified (row : Encoding) : Prop :=
  ∀ instr, Fits row instr → (row.2.isCoprocessorOp ↔ isCoprocessor instr)

variable {instr : ARMInstr}

theorem getLsbD_key {b : Nat} (hb : b < 12) : (buildDispatchTableKey instr).getLsbD b =
    instr.raw.getLsbD (if 4 ≤ b then b + 16 else if isCoprocessor instr then b + 8 else b + 4) := by
  unfold buildDispatchTableKey
  rw [BitVec.getLsbD_append]
  by_cases h4 : 4 ≤ b
  · rw [if_neg (Nat.not_lt.2 h4), if_pos h4, BitVec.getLsbD_append, if_pos (by omega),
      BitVec.getLsbD_extractLsb', decide_eq_true (by omega), Bool.true_and,
      show 20 + (b - 4) = b + 16 by omega]
  · rw [if_pos (Nat.not_le.1 h4), if_neg h4]
    have hlt : decide (b < 4) = true := decide_eq_true (by omega)
    by_cases hco : isCoprocessor instr
    · have hbits : instr.raw.extractLsb' 25 3 = 6 ∨ instr.raw.extractLsb' 24 4 = 14 := hco
      rw [if_pos hbits, if_pos hco, BitVec.getLsbD_extractLsb', hlt, Bool.true_and, Nat.add_comm]
    · have hbits : ¬(instr.raw.extractLsb' 25 3 = 6 ∨ instr.raw.extractLsb' 24 4 = 14) := hco
      rw [if_neg hbits, if_neg hco, BitVec.getLsbD_extractLsb', hlt, Bool.true_and, Nat.add_comm]

theorem getLsbD_key_high :
    (buildDispatchTableKey instr).getLsbD 12 = decide (instr.cond = 0xF) := by
  unfold buildDispatchTableKey
  rw [BitVec.getLsbD_append, if_neg (by decide), BitVec.getLsbD_append, if_neg (by decide)]
  by_cases h : instr.cond = 0xF
  · rw [if_pos h, decide_eq_true h]
    rfl
  · rw [if_neg h, decide_eq_false h]
    rfl

theorem Fits.keyFits (h : Fits row instr) (hrow : Classified row) :
    KeyFits row (buildDispatchTableKey instr) := by
  have hco := hrow instr h
  refine ⟨getLsbD_key_high.trans h.1, fun b hb v hv => ?_, h.2.2⟩
  have hbit : row.2.instrBit b =
      if 4 ≤ b then b + 16 else if isCoprocessor instr then b + 8 else b + 4 := by
    simp only [InstrMetaInfo.instrBit, hco]
  rw [getLsbD_key hb, ← hbit]
  refine h.2.1 _ ?_ v hv
  unfold InstrMetaInfo.instrBit
  split
  · omega
  · split <;> omega

/-- **Decoding by the table.** A key has the handler of the last row that agrees with the instruction
in the bits the key is made of. Where the rows are classified, it is the row that a scan with all
bits gives exactly if this row agrees with the instruction in all bits. -/
theorem table_decoding {α : Type} (table : List Encoding) (f : Instr → α) (defaultValue : α)
    (instr : ARMInstr) :
    let found := lastRow (fun row => decide (KeyFits row (buildDispatchTableKey instr))) table
    generateDispatchTable table f defaultValue (buildDispatchTableKey instr) =
      handlerOf f defaultValue found ∧
    ((∀ row ∈ table, Classified row) →
      (lastRow (fun row => decide (Fits row instr)) table = found ↔
        ∀ row ∈ found, Fits row instr)) := by
  refine ⟨generateDispatchTable_eq table f defaultValue _, fun htable => ⟨fun h row hrow => ?_, ?_⟩⟩
  · rw [← h] at hrow
    exact of_decide_eq_true (List.find?_some (p := fun row => decide (Fits row instr)) hrow)
  · intro hfound
    refine List.find?_eq_of_imp (fun row hrow h => ?_) fun row hrow => decide_eq_true (hfound row hrow)
    have hfits : Fits row instr := of_decide_eq_true h
    exact decide_eq_true (hfits.keyFits (htable row (List.mem_reverse.1 hrow)))

/-! ## The table of the interpreter -/

/-- An encoding written down; a text of another length fixes nothing. -/
def encoding (s : String) : InstrMetaInfo :=
  if h : s.toList.length = 32 then ⟨s.toList, h⟩ else ⟨List.replicate 32 ' ', rfl⟩

/-- `meta_table` -/
def encodings : List Encoding := [
  (.and, encoding "cccc00A0000SnnnnddddAAAAAAAAAAAA"),
  (.eor, encoding "cccc00A0001SnnnnddddAAAAAAAAAAAA"),
  (.sub, encoding "cccc00A0010SnnnnddddAAAAAAAAAAAA"),
  (.rsb, encoding "cccc00A0011SnnnnddddAAAAAAAAAAAA"),
  (.add, encoding "cccc00A0100SnnnnddddAAAAAAAAAAAA"),
  (.adc, encoding "cccc00A0101SnnnnddddAAAAAAAAAAAA"),
  (.sbc, encoding "cccc00A0110SnnnnddddAAAAAAAAAAAA"),
  (.rsc, encoding "cccc00A0111SnnnnddddAAAAAAAAAAAA"),
  (.tst, encoding "cccc00A10001nnnnooooAAAAAAAAAAAA"),
  (.teq, encoding "cccc00A10011nnnnooooAAAAAAAAAAAA"),
  (.cmp, encoding "cccc00A10101nnnnooooAAAAAAAAAAAA"),
  (.cmn, encoding "cccc00A10111nnnnooooAAAAAAAAAAAA"),
  (.orr, encoding "cccc00A1100SnnnnddddAAAAAAAAAAAA"),
  (.mov, encoding "cccc00A1101SooooddddAAAAAAAAAAAA"),
  (.bic, encoding "cccc00A1110SnnnnddddAAAAAAAAAAAA"),
  (.mvn, encoding "cccc00A1111SooooddddAAAAAAAAAAAA"),
  (.mul, encoding "cccc0000000Sddddoooossss1001mmmm"),
  (.ssub8, encoding "cccc01100001nnnndddd////1111mmmm"),
  (.qsub8, encoding "cccc01100010nnnndddd////1111mmmm"),
  (.uadd8, encoding "cccc01100101nnnndddd////1001mmmm"),
  (.usub8, encoding "cccc01100101nnnndddd////1111mmmm"),
  (.uqadd8, encoding "cccc01100110nnnndddd////1001mmmm"),
  (.uqsub8, encoding "cccc01100110nnnndddd////1111mmmm"),
  (.uhadd8, encoding "cccc01100111nnnndddd////1001mmmm"),
  (.ssat, encoding "cccc0110101-----dddd------01mmmm"),
  (.usat, encoding "cccc0110111-----dddd------01mmmm"),
  (.sxtah, encoding "cccc01101011nnnndddd--oo0111mmmm"),
  (.uxtb16, encoding "cccc011011001111dddd--oo0111mmmm"),
  (.uxtah, encoding "cccc01101111nnnndddd--oo0111mmmm"),
  (.b, encoding "cccc1010------------------------"),
  (.bl, encoding "cccc1011------------------------"),
  (.bx, encoding "cccc00010010////////////0001mmmm"),
  (.blx, encoding "cccc00010010////////////0011mmmm"),
  (.blxImm, encoding "1111101-------------------------"),
  (.ldr, encoding "cccc01BBB0B1nnnnddddBBBBBBBBBBBB"),
  (.str, encoding "cccc01BBB0B0nnnnddddBBBBBBBBBBBB"),
  (.ldrb, encoding "cccc01BBB1B1nnnnddddBBBBBBBBBBBB"),
  (.strb, encoding "cccc01BBB1B0nnnnddddBBBBBBBBBBBB"),
  (.strh, encoding "cccc000CCCC0nnnnddddCCCC1011CCCC"),
  (.ldrd, encoding "cccc000CCCC0nnnnddddCCCC1101CCCC"),
  (.strd, encoding "cccc000CCCC0nnnnddddCCCC1111CCCC"),
  (.ldrh, encoding "cccc000CCCC1nnnnddddCCCC1011CCCC"),
  (.ldrsb, encoding "cccc000CCCC1nnnnddddCCCC1101CCCC"),
  (.ldrsh, encoding "cccc000CCCC1nnnnddddCCCC1111CCCC"),
  (.ldm, encoding "cccc100DDDD1nnnnDDDDDDDDDDDDDDDD"),
  (.stm, encoding "cccc100DDDD0nnnnDDDDDDDDDDDDDDDD"),
  (.msr, encoding "cccc00110-10----////------------"),
  (.msr, encoding "cccc00010-10----////oooo0000mmmm"),
  (.mrrc, encoding "cccc11000101nnnnddddPPPPPPPPmmmm"),
  (.mcrr, encoding "cccc11000100nnnnddddPPPPPPPPmmmm"),
  (.swi, encoding "cccc1111------------------------"),
  (.vldm, encoding "cccc110PPPP1nnnndddd101PEEEEEEEE"),
  (.vstm, encoding "cccc110PPPP0nnnndddd101PEEEEEEEE"),
  (.mrrcVfp, encoding "cccc11000101nnnndddd101P00P1mmmm"),
  (.mcrrVfp, encoding "cccc11000100nnnndddd101P00P1mmmm"),
  (.vldr, encoding "cccc1101EE01nnnndddd101PPPPPPPPP"),
  (.vstr, encoding "cccc1101EE00nnnndddd101PPPPPPPPP"),
  (.vfpS, encoding "cccc1110PdPPnnnndddd1010nPm0mmmm"),
  (.vfpD, encoding "cccc1110PdPPnnnndddd1011nPm0mmmm")]

/-- A row is marked as its fixed bits 27 to 24 say. -/
def classifiedBits (row : Encoding) : Bool :=
  let fixed := fun i => fixedBit (row.2.bit i)
  if row.2.isCoprocessorOp then
    fixed 27 == some true && fixed 26 == some true && (fixed 25 == some false || fixed 24 == some false)
  else
    fixed 27 == some false || fixed 26 == some false || fixed 25 == some true && fixed 24 == some true

theorem isCoprocessor_iff : isCoprocessor instr ↔ instr.raw.getLsbD 27 = true ∧
    instr.raw.getLsbD 26 = true ∧ (instr.raw.getLsbD 25 = false ∨ instr.raw.getLsbD 24 = false) := by
  have hbits : ∀ y : BitVec 4, (y.extractLsb' 1 3 = 6 ∨ y = 14) ↔ y.getLsbD 3 = true ∧
      y.getLsbD 2 = true ∧ (y.getLsbD 1 = false ∨ y.getLsbD 0 = false) := by decide
  have hbit (i : Nat) (hi : i < 4) :
      (instr.raw.extractLsb' 24 4).getLsbD i = instr.raw.getLsbD (24 + i) := by
    rw [BitVec.getLsbD_extractLsb', decide_eq_true hi, Bool.true_and]
  have hthree : instr.raw.extractLsb' 25 3 = (instr.raw.extractLsb' 24 4).extractLsb' 1 3 := by
    refine BitVec.eq_of_getLsbD_eq fun i hi => ?_
    rw [BitVec.getLsbD_extractLsb', BitVec.getLsbD_extractLsb', BitVec.getLsbD_extractLsb',
      decide_eq_true (by omega : 1 + i < 4), Bool.true_and, ← Nat.add_assoc]
  rw [isCoprocessor, hthree, hbits, hbit 3 (by decide), hbit 2 (by decide), hbit 1 (by decide),
    hbit 0 (by decide)]

theorem classified_of_bits (h : classifiedBits row = true) : Classified row := by
  intro instr hfits
  have hbit (i : Nat) (hi : i < 32) (v : Bool) (hv : fixedBit (row.2.bit i) = some v) :
      instr.raw.getLsbD i = v := hfits.2.1 i hi v hv
  rw [isCoprocessor_iff]
  unfold classifiedBits at h
  simp only at h
  split at h
  next hco =>
    simp only [Bool.and_eq_true, Bool.or_eq_true, beq_iff_eq] at h
    obtain ⟨⟨h27, h26⟩, h25 | h24⟩ := h
    · exact iff_of_true hco ⟨hbit 27 (by decide) _ h27, hbit 26 (by decide) _ h26,
        .inl (hbit 25 (by decide) _ h25)⟩
    · exact iff_of_true hco ⟨hbit 27 (by decide) _ h27, hbit 26 (by decide) _ h26,
        .inr (hbit 24 (by decide) _ h24)⟩
  next hco =>
    refine iff_of_false hco ?_
    rintro ⟨h27, h26, hlow⟩
    simp only [Bool.and_eq_true, Bool.or_eq_true, beq_iff_eq] at h
    rcases h with (h | h) | ⟨h25, h24⟩
    · rw [hbit 27 (by decide) _ h] at h27
      cases h27
    · rw [hbit 26 (by decide) _ h] at h26
      cases h26
    · rw [hbit 25 (by decide) _ h25, hbit 24 (by decide) _ h24] at hlow
      rcases hlow with h | h <;> cases h

/-- The row is of at most one addressing mode. -/
def singleMode (row : Encoding) : Bool :=
  !(row.2.isAddressingMode1 && row.2.isAddressingMode2) &&
    !(row.2.isAddressingMode1 && row.2.isAddressingMode5) &&
    !(row.2.isAddressingMode2 && row.2.isAddressingMode5)

/-- `LookupHandler` -/
def lookupHandler : Instr → Option Handler
  | .and => some (.plain .and)
  | .eor => some (.plain .eor)
  | .sub => some (.plain .sub)
  | .rsb => some (.plain .rsb)
  | .add => some .add
  | .adc => some (.plain .adc)
  | .sbc => some (.plain .sbc)
  | .rsc => some (.plain .rsc)
  | .tst => some (.plain .tst)
  | .teq => some (.plain .teq)
  | .cmp => some (.plain .cmp)
  | .cmn => some (.plain .cmn)
  | .orr => some (.plain .orr)
  | .mov => some .mov
  | .bic => some (.plain .bic)
  | .mvn => some (.plain .mvn)
  | .mul => some (.plain .mul)
  | .ssub8 | .usub8 => some (.plain .xsub8)
  | .qsub8 => some (.plain .qsub8)
  | .uadd8 => some (.plain .uadd8)
  | .uqadd8 => some (.plain .uqadd8)
  | .uqsub8 => some (.plain .uqsub8)
  | .uhadd8 => some (.plain .uhadd8)
  | .ssat => some (.plain .ssat)
  | .usat => some (.plain .usat)
  | .sxtah => some (.plain .sxtah)
  | .uxtb16 => some (.plain .uxtb16)
  | .uxtah => some (.plain .uxtah)
  | .b => some (.branch false)
  | .bl => some (.branch true)
  | .bx => some (.branchExchange false)
  | .ldr => some (.memoryAccess false false)
  | .ldrb => some (.memoryAccess true false)
  | .ldrh => some (.plain (.addrMode3 .loadUnsignedHalfword))
  | .ldrsh => some (.plain (.addrMode3 .loadSignedHalfword))
  | .ldrsb => some (.plain (.addrMode3 .loadSignedByte))
  | .ldrd => some (.plain (.addrMode3 .loadDoubleword))
  | .str => some (.memoryAccess false true)
  | .strb => some (.memoryAccess true true)
  | .strh => some (.plain (.addrMode3 .storeHalfword))
  | .strd => some (.plain (.addrMode3 .storeDoubleword))
  | .ldm => some (.ldmStm true)
  | .stm => some (.ldmStm false)
  | .msr => some (.plain .msr)
  | .vldr | .vstr => some (.plain .loadStoreFloatSingle)
  | .vldm | .vstm => some (.plain .loadStoreFloatMultiple)
  | .vfpS | .vfpD => some (.plain .vfp)
  | .mrrcVfp => some (.plain .fmrdd)
  | .mcrrVfp => some (.plain .fmdrr)
  | .swi => some (.plain .swi)
  | .blx | .blxImm | .mrrc | .mcrr | .unknown => none

/-- The rule for the keys that a row leaves out. -/
def keyRule (row : Encoding) : KeyRule :=
  if row.2.isAddressingMode1 then .mode1
  else if row.2.isAddressingMode2 then .mode2
  else if row.2.isAddressingMode5 && decide (row.1 ∈ [.vldm, .vstm, .vldr, .vstr]) then .mode5
  else .free

/-- The bits of the key that a row fixes. -/
def keyMask (info : InstrMetaInfo) : BitVec 13 :=
  (List.range 13).foldl (fun key b =>
    if b == 12 || (fixedBit (info.keyChar b)).isSome then setKeyBit key b else key) 0#13

def keyValue (info : InstrMetaInfo) : BitVec 13 :=
  if info.isUnconditional then setKeyBit (outputKey info) 12 else outputKey info

/-- The row in the form of `metaTable`. -/
def metaRow (row : Encoding) : MetaRow :=
  ⟨lookupHandler row.1, keyRule row, keyMask row.2, keyValue row.2⟩

/-- The checks of the rows, made at once: reading the texts is what takes the time. -/
theorem encodings_checked : (∀ row ∈ encodings, classifiedBits row = true ∧ singleMode row = true) ∧
    metaTable = encodings.map metaRow := by
  decide +kernel

theorem encodings_classified : ∀ row ∈ encodings, Classified row :=
  fun row hrow => classified_of_bits (encodings_checked.1 row hrow).1

theorem getLsbD_keyMask {j : Nat} (hj : j < 13) : (keyMask info).getLsbD j =
    (j == 12 || (fixedBit (info.keyChar j)).isSome) := by
  rw [keyMask, getLsbD_setBits (f := fun b => b) hj, Bool.eq_iff_iff]
  simp only [BitVec.getLsbD_zero, Bool.false_or, List.any_eq_true, List.mem_range,
    Bool.and_eq_true, decide_eq_true_eq]
  constructor
  · rintro ⟨b, -, hb, rfl⟩
    exact hb
  · intro h
    exact ⟨j, hj, h, rfl⟩

theorem getLsbD_keyValue_low {j : Nat} (hj : j < 12) :
    (keyValue info).getLsbD j = decide (fixedBit (info.keyChar j) = some true) := by
  have hlow : (outputKey info).getLsbD j = decide (fixedBit (info.keyChar j) = some true) := by
    rw [getLsbD_outputKey (Nat.lt_succ_of_lt hj)]
    simp only [hj, true_and]
  unfold keyValue
  split
  · rw [getLsbD_setKeyBit (Nat.lt_succ_of_lt hj), hlow, decide_eq_false (Nat.ne_of_lt hj),
      Bool.or_false]
  · exact hlow

theorem getLsbD_keyValue_high : (keyValue info).getLsbD 12 = info.isUnconditional := by
  have hzero : (outputKey info).getLsbD 12 = false := by
    rw [getLsbD_outputKey (by decide)]
    simp only [Nat.lt_irrefl, false_and, decide_false]
  unfold keyValue
  split
  next h => rw [getLsbD_setKeyBit (by decide), hzero, h, decide_eq_true rfl, Bool.or_true]
  next h => rw [hzero, Bool.eq_false_iff.2 h]

theorem and_keyMask_eq_iff : key &&& keyMask info = keyValue info ↔
    key.getLsbD 12 = info.isUnconditional ∧
      ∀ b < 12, ∀ v ∈ fixedBit (info.keyChar b), key.getLsbD b = v := by
  constructor
  · intro h
    have hbit (j : Nat) (hj : j < 13) : (key.getLsbD j &&
        (j == 12 || (fixedBit (info.keyChar j)).isSome)) = (keyValue info).getLsbD j := by
      rw [← h, BitVec.getLsbD_and, getLsbD_keyMask hj]
    refine ⟨?_, fun b hb v hv => ?_⟩
    · rw [← getLsbD_keyValue_high, ← hbit 12 (by decide), beq_self_eq_true, Bool.true_or,
        Bool.and_true]
    · have hv : fixedBit (info.keyChar b) = some v := hv
      have := hbit b (Nat.lt_succ_of_lt hb)
      rw [getLsbD_keyValue_low hb, hv, Option.isSome_some, Bool.or_true, Bool.and_true] at this
      rw [this]
      cases v <;> rfl
  · rintro ⟨hhigh, hfixed⟩
    refine BitVec.eq_of_getLsbD_eq fun j hj => ?_
    rw [BitVec.getLsbD_and, getLsbD_keyMask hj]
    rcases Nat.lt_succ_iff_lt_or_eq.1 hj with hj | rfl
    · rw [getLsbD_keyValue_low hj, beq_false_of_ne (Nat.ne_of_lt hj), Bool.false_or]
      cases hc : fixedBit (info.keyChar j) with
      | none => rw [Option.isSome_none, Bool.and_false, decide_eq_false (Option.some_ne_none _).symm]
      | some v =>
        rw [hfixed j hj v hc, Option.isSome_some, Bool.and_true]
        cases v <;> rfl
    · rw [getLsbD_keyValue_high, beq_self_eq_true, Bool.true_or, Bool.and_true, hhigh]

theorem admits_keyRule (h : singleMode row = true) :
    (keyRule row).admits key = !discarded row key := by
  unfold singleMode at h
  unfold keyRule discarded
  cases h1 : row.2.isAddressingMode1 <;> cases h2 : row.2.isAddressingMode2 <;>
    cases h5 : row.2.isAddressingMode5 <;> simp only [h1, h2, h5] at h ⊢ <;> try cases h
  · simp [KeyRule.admits]
  · generalize decide (row.1 ∈ [Instr.vldm, .vstm, .vldr, .vstr]) = multiple
    cases multiple <;> simp [KeyRule.admits]
  · simp [KeyRule.admits]
  · simp [KeyRule.admits]

theorem admits_metaRow (h : singleMode row = true) :
    (metaRow row).admits key = decide (KeyFits row key) := by
  rw [Bool.eq_iff_iff, decide_eq_true_eq]
  unfold MetaRow.admits metaRow KeyFits
  rw [admits_keyRule h, Bool.and_eq_true, beq_iff_eq, and_keyMask_eq_iff, Bool.not_eq_true',
    and_assoc]

/-- The dispatch of the interpreter goes by the table generated from the encodings. -/
theorem dispatch_eq (instr : ARMInstr) : dispatch instr =
    (generateDispatchTable encodings lookupHandler none (buildDispatchTableKey instr)).getD
      (legacyHandler instr) := by
  have hrow : lookupRow (buildDispatchTableKey instr) =
      (lastRow (fun row => decide (KeyFits row (buildDispatchTableKey instr))) encodings).map
        metaRow := by
    unfold lookupRow lastRow
    rw [encodings_checked.2, ← List.map_reverse, List.find?_map]
    congr 1
    refine List.find?_congr fun row hrow => ?_
    exact admits_metaRow (encodings_checked.1 row (List.mem_reverse.1 hrow)).2
  rw [generateDispatchTable_eq, dispatch, hrow]
  cases lastRow (fun row => decide (KeyFits row (buildDispatchTableKey instr))) encodings with
  | none => rfl
  | some row =>
    simp only [Option.map_some, handlerOf, metaRow, Option.getD_some]
    cases lookupHandler row.1 <;> rfl

/-- The table decodes a `BX` whose bits 8 to 19 are clear, but the scan does not know it. -/
theorem table_ignores_bits : ¬ ∀ (α : Type) (table : List Encoding) (f : Instr → α)
    (defaultValue : α) (instr : ARMInstr),
    generateDispatchTable table f defaultValue (buildDispatchTableKey instr) =
      handlerOf f defaultValue (lastRow (fun row => decide (Fits row instr)) table) := by
  intro h
  have hbx := h (Option Handler) encodings lookupHandler none ⟨0xE1200010⟩
  rw [generateDispatchTable_eq] at hbx
  exact absurd hbx (by decide +kernel)

/-- Of the interpreter's rows, `BX` is found for `bx lr`, by the key and by all bits. -/
theorem table_decoding_bx : lastRow (fun row => decide (Fits row ⟨0xE12FFF1E⟩)) encodings =
    lastRow (fun row => decide (KeyFits row (buildDispatchTableKey ⟨0xE12FFF1E⟩))) encodings := by
  refine ((table_decoding encodings id .unknown ⟨0xE12FFF1E⟩).2 encodings_classified).2 ?_
  decide +kernel

end Mikage.Arm
