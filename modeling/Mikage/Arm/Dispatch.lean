import Mikage.Arm.State

/-!
# Dispatch of ARM instructions

`BuildDispatchTableKey` takes 13 bits of an instruction. The table that `GenerateDispatchTable`
fills from `meta_table` holds, for each key, the handler of the last row that admits it, and
`LegacyHandler` where no row does or the row's instruction has no handler of its own. A row is
given here by the bits its encoding fixes among those of the key.
-/

namespace Mikage.Arm

/-! ## Handlers -/

inductive AddrMode3AccessType where
  | loadSignedByte | loadSignedHalfword | loadUnsignedHalfword | loadDoubleword
  | storeHalfword | storeDoubleword
  deriving DecidableEq, Repr

/-- The handlers that write registers and flags and go on with the next instruction. -/
inductive Plain where
  | and | eor | sub | rsb | adc | sbc | rsc | tst | teq | cmp | cmn | orr | bic | mvn
  | mul | mla | umaal | smull | smlal | umull | umlal | smlaxx | smulxx | clz
  | ldrex | strex | ldrexd | strexd | ldrexb | strexb | ldrexh | strexh
  | addrMode3 (type : AddrMode3AccessType)
  | uadd8 | uqadd8 | uhadd8 | xsub8 | qsub8 | uqsub8 | sel | usat | ssat | uxtb16 | uxtb | uxtab
  | sxtb | uxtah | sxtab | sxtah | pkhbt | pkhtb | rev | rev16
  | loadStoreFloatSingle | loadStoreFloatMultiple | fmdrr | fmrdd | mrc | mcr | vfp
  | mrs | msr | pld | swi
  deriving DecidableEq, Repr

inductive Handler where
  | plain (k : Plain)
  | mov
  | add
  | branch (link : Bool)
  | branchExchange (link : Bool)
  | memoryAccess (byteAccess store : Bool)
  | ldmStm (load : Bool)
  | stub
  deriving DecidableEq, Repr

/-! ## Masks -/

/-- The instructions whose bits under `mask` are `value`. -/
structure Rule where
  mask : BitVec 32
  value : BitVec 32
  handler : Handler

/-- A chain of `if ((instr.raw & mask) == value) … else …`. -/
def firstMatch (rules : List Rule) (instr : ARMInstr) : Handler :=
  match rules.find? fun r => instr.raw &&& r.mask == r.value with
  | some r => r.handler
  | none => .stub

def handler00x0 : List Rule := [
  ⟨0x0FE000F0, 0x00200090, .plain .mla⟩,
  ⟨0x0FF000F0, 0x00400090, .plain .umaal⟩,
  ⟨0x0FE000F0, 0x00C00090, .plain .smull⟩,
  ⟨0x0FE000F0, 0x00E00090, .plain .smlal⟩,
  ⟨0x0FE000F0, 0x00800090, .plain .umull⟩,
  ⟨0x0FE000F0, 0x00A00090, .plain .umlal⟩]

def handler0001 : List Rule := [
  ⟨0x0FFF0FF0, 0x016F0F10, .plain .clz⟩,
  ⟨0x0FF00FF0, 0x01800F90, .plain .strex⟩,
  ⟨0x0FF00FFF, 0x01900F9F, .plain .ldrex⟩,
  ⟨0x0FF00FF0, 0x01A00F90, .plain .strexd⟩,
  ⟨0x0FF00FFF, 0x01B00F9F, .plain .ldrexd⟩,
  ⟨0x0FF00FF0, 0x01C00F90, .plain .strexb⟩,
  ⟨0x0FF00FFF, 0x01D00F9F, .plain .ldrexb⟩,
  ⟨0x0FF00FF0, 0x01E00F90, .plain .strexh⟩,
  ⟨0x0FF00FFF, 0x01F00F9F, .plain .ldrexh⟩,
  -- "Should not be hit anymore with new dispatcher"
  ⟨0x0F400F90, 0x01000090, .stub⟩,
  ⟨0x0F400090, 0x01400090, .stub⟩,
  ⟨0x00FFFFF0, 0x002FFF30, .branchExchange true⟩,
  ⟨0x00FFFFF0, 0x002FFF10, .branchExchange false⟩,
  ⟨0x0FBF0FFF, 0x010F0000, .plain .mrs⟩,
  ⟨0x0FB0FFF0, 0x0120F000, .plain .msr⟩,
  ⟨0x0FF0F000, 0x01500000, .plain .cmp⟩,
  ⟨0x0FF0F000, 0x01700000, .plain .cmn⟩,
  ⟨0x0FEF0000, 0x01A00000, .mov⟩,
  ⟨0x0FEF0000, 0x01E00000, .plain .mvn⟩,
  ⟨0x0FE00000, 0x01800000, .plain .orr⟩,
  ⟨0x0FE00000, 0x01C00000, .plain .bic⟩,
  ⟨0x0FF0F000, 0x01100000, .plain .tst⟩,
  ⟨0x0FF0F000, 0x01300000, .plain .teq⟩,
  ⟨0x0FF0F000, 0x01200000, .plain .teq⟩,
  ⟨0x0FF00090, 0x01000080, .plain .smlaxx⟩,
  ⟨0x0FF0F090, 0x01600080, .plain .smulxx⟩]

def handler0011 : List Rule := [
  ⟨0x0FEF0000, 0x03A00000, .mov⟩,
  ⟨0x0FEF0000, 0x03E00000, .plain .mvn⟩,
  ⟨0x0FE00000, 0x03800000, .plain .orr⟩,
  ⟨0x0FE00000, 0x03C00000, .plain .bic⟩,
  ⟨0x0FF0F000, 0x03100000, .plain .tst⟩,
  ⟨0x0FF0F000, 0x03300000, .plain .teq⟩,
  ⟨0x0FF0F000, 0x03200000, .plain .teq⟩,
  ⟨0x0FB0F000, 0x0320F000, .plain .msr⟩,
  ⟨0x0FF0F000, 0x03500000, .plain .cmp⟩,
  ⟨0x0FF0F000, 0x03700000, .plain .cmn⟩]

def handler01xx : List Rule := [
  ⟨0xFD70F000, 0xF550F000, .plain .pld⟩,
  ⟨0xF0000000, 0xF0000000, .stub⟩,
  ⟨0x0FE00030, 0x06E00010, .plain .usat⟩,
  -- "Should not be hit anymore with new dispatcher", here and below
  ⟨0x0FFF03F0, 0x06CF0070, .stub⟩,
  ⟨0x0FFF03F0, 0x06EF0070, .plain .uxtb⟩,
  ⟨0x0FF003F0, 0x06E00070, .plain .uxtab⟩,
  ⟨0x0FFF03F0, 0x06FF0070, .stub⟩,
  ⟨0x0FFF03F0, 0x06AF0070, .plain .sxtb⟩,
  ⟨0x0FFF03F0, 0x06BF0070, .stub⟩,
  ⟨0x0FF003F0, 0x06A00070, .plain .sxtab⟩,
  ⟨0x0FF003F0, 0x06B00070, .stub⟩,
  ⟨0x0FF00FF0, 0x06500F90, .stub⟩,
  ⟨0x0FF00FF0, 0x06600F90, .stub⟩,
  ⟨0x0FF00FF0, 0x06700F90, .stub⟩,
  ⟨0x0FF00FF0, 0x06100FF0, .stub⟩,
  ⟨0x0FF00FF0, 0x06500FF0, .stub⟩,
  ⟨0x0FF00FF0, 0x06600FF0, .stub⟩,
  ⟨0x0FF00FF0, 0x06800FB0, .plain .sel⟩,
  ⟨0x0FF00070, 0x06800010, .plain .pkhbt⟩,
  ⟨0x0FF00070, 0x06800050, .plain .pkhtb⟩,
  ⟨0x0FFF0FF0, 0x06BF0F30, .plain .rev⟩,
  ⟨0x0FFF0FF0, 0x06BF0FB0, .plain .rev16⟩]

def handler1110 : List Rule := [
  ⟨0x0F000F10, 0x0E000A00, .plain .vfp⟩,
  ⟨0x0F000F10, 0x0E000B00, .plain .vfp⟩,
  ⟨0x0F000E7F, 0x0E000A10, .plain .vfp⟩,
  ⟨0x00100010, 0x00100010, .plain .mrc⟩,
  ⟨0x00100010, 0x00000010, .plain .mcr⟩]

/-- `handlers_arm_prim`, by bits 24 to 27. -/
def legacyHandler (instr : ARMInstr) : Handler :=
  match (instr.raw.extractLsb' 24 4).toNat with
  | 0 | 2 => firstMatch handler00x0 instr
  | 1 => firstMatch handler0001 instr
  | 3 => firstMatch handler0011 instr
  | 4 | 5 | 6 | 7 => firstMatch handler01xx instr
  | 10 => .branch false
  | 11 => .branch true
  | 14 => firstMatch handler1110 instr
  | _ => .stub

/-! ## The table -/

/-- The keys that a row leaves out. -/
inductive KeyRule where
  | free | mode1 | mode2 | mode5
  deriving DecidableEq, Repr

/-- A row of `meta_table` with its handler. -/
structure MetaRow where
  handler : Option Handler
  rule : KeyRule
  mask : BitVec 13
  value : BitVec 13
  deriving DecidableEq, Repr

def KeyRule.admits (rule : KeyRule) (key : BitVec 13) : Bool :=
  match rule with
  | .free => true
  -- bits 4 and 7 of the instruction are set and bit 25 is not
  | .mode1 => !(key.getLsbD 0 && key.getLsbD 3 && !key.getLsbD 9)
  -- bits 4 and 25 are set
  | .mode2 => !(key.getLsbD 0 && key.getLsbD 9)
  -- W is set, and U and P are equal
  | .mode5 => !(key.getLsbD 5 && key.getLsbD 7 == key.getLsbD 8)

def MetaRow.admits (row : MetaRow) (key : BitVec 13) : Bool :=
  key &&& row.mask == row.value && row.rule.admits key

/-- Rows further down have priority. -/
def metaTable : List MetaRow := [
  ⟨some (.plain .and), .mode1, 0x1DE0, 0x0000⟩,
  ⟨some (.plain .eor), .mode1, 0x1DE0, 0x0020⟩,
  ⟨some (.plain .sub), .mode1, 0x1DE0, 0x0040⟩,
  ⟨some (.plain .rsb), .mode1, 0x1DE0, 0x0060⟩,
  ⟨some .add, .mode1, 0x1DE0, 0x0080⟩,
  ⟨some (.plain .adc), .mode1, 0x1DE0, 0x00A0⟩,
  ⟨some (.plain .sbc), .mode1, 0x1DE0, 0x00C0⟩,
  ⟨some (.plain .rsc), .mode1, 0x1DE0, 0x00E0⟩,
  ⟨some (.plain .tst), .mode1, 0x1DF0, 0x0110⟩,
  ⟨some (.plain .teq), .mode1, 0x1DF0, 0x0130⟩,
  ⟨some (.plain .cmp), .mode1, 0x1DF0, 0x0150⟩,
  ⟨some (.plain .cmn), .mode1, 0x1DF0, 0x0170⟩,
  ⟨some (.plain .orr), .mode1, 0x1DE0, 0x0180⟩,
  ⟨some .mov, .mode1, 0x1DE0, 0x01A0⟩,
  ⟨some (.plain .bic), .mode1, 0x1DE0, 0x01C0⟩,
  ⟨some (.plain .mvn), .mode1, 0x1DE0, 0x01E0⟩,
  ⟨some (.plain .mul), .free, 0x1FEF, 0x0009⟩,
  ⟨some (.plain .xsub8), .free, 0x1FFF, 0x061F⟩,
  ⟨some (.plain .qsub8), .free, 0x1FFF, 0x062F⟩,
  ⟨some (.plain .uadd8), .free, 0x1FFF, 0x0659⟩,
  ⟨some (.plain .xsub8), .free, 0x1FFF, 0x065F⟩,
  ⟨some (.plain .uqadd8), .free, 0x1FFF, 0x0669⟩,
  ⟨some (.plain .uqsub8), .free, 0x1FFF, 0x066F⟩,
  ⟨some (.plain .uhadd8), .free, 0x1FFF, 0x0679⟩,
  ⟨some (.plain .ssat), .free, 0x1FE3, 0x06A1⟩,
  ⟨some (.plain .usat), .free, 0x1FE3, 0x06E1⟩,
  ⟨some (.plain .sxtah), .free, 0x1FFF, 0x06B7⟩,
  ⟨some (.plain .uxtb16), .free, 0x1FFF, 0x06C7⟩,
  ⟨some (.plain .uxtah), .free, 0x1FFF, 0x06F7⟩,
  ⟨some (.branch false), .free, 0x1F00, 0x0A00⟩,
  ⟨some (.branch true), .free, 0x1F00, 0x0B00⟩,
  ⟨some (.branchExchange false), .free, 0x1FFF, 0x0121⟩,
  ⟨none, .free, 0x1FFF, 0x0123⟩,
  ⟨none, .free, 0x1E00, 0x1A00⟩,
  ⟨some (.memoryAccess false false), .mode2, 0x1C50, 0x0410⟩,
  ⟨some (.memoryAccess false true), .mode2, 0x1C50, 0x0400⟩,
  ⟨some (.memoryAccess true false), .mode2, 0x1C50, 0x0450⟩,
  ⟨some (.memoryAccess true true), .mode2, 0x1C50, 0x0440⟩,
  ⟨some (.plain (.addrMode3 .storeHalfword)), .free, 0x1E1F, 0x000B⟩,
  ⟨some (.plain (.addrMode3 .loadDoubleword)), .free, 0x1E1F, 0x000D⟩,
  ⟨some (.plain (.addrMode3 .storeDoubleword)), .free, 0x1E1F, 0x000F⟩,
  ⟨some (.plain (.addrMode3 .loadUnsignedHalfword)), .free, 0x1E1F, 0x001B⟩,
  ⟨some (.plain (.addrMode3 .loadSignedByte)), .free, 0x1E1F, 0x001D⟩,
  ⟨some (.plain (.addrMode3 .loadSignedHalfword)), .free, 0x1E1F, 0x001F⟩,
  ⟨some (.ldmStm true), .free, 0x1E10, 0x0810⟩,
  ⟨some (.ldmStm false), .free, 0x1E10, 0x0800⟩,
  ⟨some (.plain .msr), .free, 0x1FB0, 0x0320⟩,
  ⟨some (.plain .msr), .free, 0x1FBF, 0x0120⟩,
  ⟨none, .free, 0x1FF0, 0x0C50⟩,
  ⟨none, .free, 0x1FF0, 0x0C40⟩,
  ⟨some (.plain .swi), .free, 0x1F00, 0x0F00⟩,
  ⟨some (.plain .loadStoreFloatMultiple), .mode5, 0x1E1E, 0x0C1A⟩,
  ⟨some (.plain .loadStoreFloatMultiple), .mode5, 0x1E1E, 0x0C0A⟩,
  ⟨some (.plain .fmrdd), .free, 0x1FFE, 0x0C5A⟩,
  ⟨some (.plain .fmdrr), .free, 0x1FFE, 0x0C4A⟩,
  ⟨some (.plain .loadStoreFloatSingle), .mode5, 0x1F3E, 0x0D1A⟩,
  ⟨some (.plain .loadStoreFloatSingle), .mode5, 0x1F3E, 0x0D0A⟩,
  ⟨some (.plain .vfp), .free, 0x1F0F, 0x0E0A⟩,
  ⟨some (.plain .vfp), .free, 0x1F0F, 0x0E0B⟩]

def buildDispatchTableKey (instr : ARMInstr) : BitVec 13 :=
  let isCoprocessor := instr.raw.extractLsb' 25 3 = 6 ∨ instr.raw.extractLsb' 24 4 = 14
  let lowerKey := if isCoprocessor then instr.raw.extractLsb' 8 4 else instr.raw.extractLsb' 4 4
  (if instr.cond = 0xF then 1#1 else 0#1) ++ instr.raw.extractLsb' 20 8 ++ lowerKey

def lookupRow (key : BitVec 13) : Option MetaRow := metaTable.reverse.find? (·.admits key)

def dispatch (instr : ARMInstr) : Handler :=
  match lookupRow (buildDispatchTableKey instr) with
  | some ⟨some handler, _, _, _⟩ => handler
  | _ => legacyHandler instr

theorem dispatch_of_lookup {arm : ARMInstr} {h : Handler}
    (hl : (lookupRow (buildDispatchTableKey arm)).bind (·.handler) = some h) :
    dispatch arm = h := by
  obtain ⟨row, hrow, hh⟩ := Option.bind_eq_some_iff.1 hl
  obtain ⟨handler, rule, mask, value⟩ := row
  rw [dispatch, hrow]
  cases hh
  rfl

end Mikage.Arm
