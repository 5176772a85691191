import Mikage.Memory.Regions
import Mikage.Memory.UnmapProof

/-!
# Code sets

`SVCCreateCodeSet` takes the three sections of a program image out of the calling process. The memory
of a section may lie in several chunks of physical memory: the code set keeps the list of chunks, and
the caller loses the addresses.

- `reparent`: the loop over the chunks of one section.
- `createCodeSet`: the call, for images that are not those of FIRM modules.
- `createCodeSet_moves`: byte for byte, the chunks are what the caller had, they belong to the code
  set, and the caller has lost the addresses of the sections and nothing else.
-/

namespace Mikage

open MemoryManager

def pageSize : BitVec 32 := 0x1000

/-- `ResolveVirtualAddrWithSize`: where an address is, and how many bytes its mapping has from there. -/
def resolveVirtualAddrWithSize (m : VirtualMemory) (addr : VAddr) : Option (PAddr × BitVec 32) :=
  (resolveBlock m addr).map fun e => (e.2.physStart + (addr - e.1), e.2.size - (addr - e.1))

structure CodeSetInfo where
  appName : String
  textStart : VAddr
  textPages : BitVec 32
  roStart : VAddr
  roPages : BitVec 32
  dataStart : VAddr
  /-- Without bss. -/
  dataPages : BitVec 32
  textSize : BitVec 32
  roSize : BitVec 32
  /-- With bss. -/
  dataSize : BitVec 32
  deriving DecidableEq, Repr

/-- `CodeSet::Mapping`. -/
structure Chunk where
  physStart : PAddr
  numPages : BitVec 32
  deriving DecidableEq, Repr

structure CodeSet where
  appName : String
  textPhys : List Chunk
  textVaddr : VAddr
  roPhys : List Chunk
  roVaddr : VAddr
  dataPhys : List Chunk
  dataVaddr : VAddr
  bssPaddr : PAddr
  /-- In pages. -/
  bssSize : BitVec 32
  deriving DecidableEq, Repr

/-! ## The call -/

section

variable {Owner : Type} [DecidableEq Owner] (alive : Owner → Bool)

/-- The chunks of the section `[start, start + total)` from `vaddr` on. A round takes a page at least,
so that the bound `createCodeSet` starts with is never reached (`reparent_bound`). -/
def reparent (source codeset : Owner) (m : VirtualMemory) (start total : BitVec 32) :
    Nat → VAddr → Regions Owner → Except Exception (List Chunk × Regions Owner)
  | 0, _, regions => .ok ([], regions)
  | rounds + 1, vaddr, regions =>
    if vaddr < start + total then
      let (paddr, size) := (resolveVirtualAddrWithSize m vaddr).getD (0, 0)
      if paddr = 0 ∨ size = 0 then .error (.invalid "CodeSet source addresses not mapped")
      else if size % pageSize ≠ 0 then .error (.contractViolated "(size % page_size) == 0")
      else do
        let rest := total - (vaddr - start)
        let size := if rest < size then rest else size
        let regions ← regions.transferOwnership alive source codeset paddr size
        let (chunks, regions) ← reparent source codeset m start total rounds (vaddr + size) regions
        return (⟨paddr, size / pageSize⟩ :: chunks, regions)
    else .ok ([], regions)

def reparentSection (source codeset : Owner) (m : VirtualMemory) (start numPages : BitVec 32)
    (regions : Regions Owner) : Except Exception (List Chunk × Regions Owner) :=
  reparent alive source codeset m start (numPages * pageSize) (numPages.toNat + 1) start regions

/-- `UnmapVirtualMemory` and the assertion of its success. -/
def unmapOrAssert (m : VirtualMemory) (vaddr : VAddr) (size : BitVec 32) :
    Except Exception VirtualMemory :=
  let r := unmapVirtualMemory m vaddr size
  match r.outcome with
  | .ok true => .ok r.memory
  | .ok false => .error (.contractViolated "success")
  | .error e => .error e

/-- What the call works on: the map of the calling process, the regions, and physical memory. -/
structure ImageState (Owner : Type) where
  memory : VirtualMemory
  regions : Regions Owner
  data : PAddr → BitVec 8

/-- The memory for bss, in the region of the data section. -/
def allocateBss (codeset : Owner) (m : VirtualMemory) (dataAddr : VAddr) (numPages : BitVec 32)
    (regions : Regions Owner) : Except Exception (PAddr × Regions Owner) :=
  match resolveVirtualAddr m dataAddr with
  | none => .error (.runtimeError "bad_optional_access")
  | some paddr =>
    if numPages = 0 then regions.update paddr 1 fun r => .ok (0, r) else do
      match ← regions.update paddr 1 fun r =>
          r.allocateBlock alive codeset (numPages * pageSize) with
      | (some bss, regions) => return (bss, regions)
      | (none, _) => throw (.runtimeError "Failed to allocate bss memory")

/-- Zeroes from `start` on. -/
def clearBytes (data : PAddr → BitVec 8) (start : PAddr) (numBytes : BitVec 32) : PAddr → BitVec 8 :=
  fun a => if a - start < numBytes then 0 else data a

/-- The sections leave the memory of the calling process. -/
def unmapSections (m : VirtualMemory) (info : CodeSetInfo) (textAddr roAddr dataAddr : VAddr) :
    Except Exception VirtualMemory := do
  let m ← unmapOrAssert m textAddr (info.textPages * pageSize)
  let m ← unmapOrAssert m roAddr (info.roPages * pageSize)
  unmapOrAssert m dataAddr (info.dataPages * pageSize)

/-- `SVCCreateCodeSet`. `boot` is the process that starts the FIRM modules; it keeps the addresses. -/
def createCodeSet (source codeset : Owner) (boot : Bool) (info : CodeSetInfo)
    (textAddr roAddr dataAddr : VAddr) (s : ImageState Owner) :
    Except Exception (CodeSet × ImageState Owner) :=
  if info.textPages ≠ info.textSize ∨ info.roPages ≠ info.roSize ∨ info.dataSize < info.dataPages then
    .error (.invalid "Invalid arguments for CodeSet creation")
  else if textAddr % pageSize ≠ 0 ∨ roAddr % pageSize ≠ 0 ∨ dataAddr % pageSize ≠ 0 then
    .error (.invalid "Unaligned source addresses for SVCCreateCodeSet")
  else do
    let (textPhys, regions) ←
      reparentSection alive source codeset s.memory textAddr info.textPages s.regions
    let (roPhys, regions) ← reparentSection alive source codeset s.memory roAddr info.roPages regions
    let (dataPhys, regions) ←
      reparentSection alive source codeset s.memory dataAddr info.dataPages regions
    let bssSize := info.dataSize - info.dataPages
    let (bssPaddr, regions) ← allocateBss alive codeset s.memory dataAddr bssSize regions
    let data := clearBytes s.data bssPaddr (bssSize * pageSize)
    let memory ←
      if boot then .ok s.memory else unmapSections s.memory info textAddr roAddr dataAddr
    let codeset : CodeSet := {
      appName := info.appName
      textPhys, textVaddr := info.textStart, roPhys, roVaddr := info.roStart
      dataPhys, dataVaddr := info.dataStart, bssPaddr, bssSize }
    return (codeset, { memory, regions, data })

end

/-! ## The chunks of a section -/

/-- The physical address of a byte of a section. -/
def physAt : List Chunk → Nat → Option PAddr
  | [], _ => none
  | c :: cs, i =>
    let bytes := c.numPages.toNat * 0x1000
    if i < bytes then some (c.physStart + BitVec.ofNat 32 i) else physAt cs (i - bytes)

/-- How many bytes a section has. -/
def chunkBytes : List Chunk → Nat
  | [] => 0
  | c :: cs => c.numPages.toNat * 0x1000 + chunkBytes cs

/-- The chunks are the memory behind `n` addresses, in order. -/
structure Gathers (m : VirtualMemory) (vaddr : VAddr) (n : Nat) (chunks : List Chunk) : Prop where
  nonempty : ∀ c ∈ chunks, 0 < c.numPages.toNat
  below_top : ∀ c ∈ chunks, c.physStart.toNat + c.numPages.toNat * 0x1000 < 2 ^ 32
  bytes : chunkBytes chunks = n
  phys : ∀ i < n, ∃ p, physAt chunks i = some p ∧
    resolveVirtualAddr m (vaddr + BitVec.ofNat 32 i) = some p

/-- The position is behind one of `n` addresses. -/
def Backs (m : VirtualMemory) (vaddr : VAddr) (n : Nat) (x : Nat) : Prop :=
  ∃ i < n, ∃ p, resolveVirtualAddr m (vaddr + BitVec.ofNat 32 i) = some p ∧ p.toNat = x

section

variable {m : VirtualMemory} {vaddr : VAddr} {p : PAddr} {size n k : BitVec 32} {x : Nat}

theorem add_ofNat (i : Nat) (j : BitVec 32) :
    vaddr + j + BitVec.ofNat 32 i = vaddr + BitVec.ofNat 32 (j.toNat + i) := by
  rw [BitVec.ofNat_add, BitVec.ofNat_toNat, BitVec.setWidth_eq, BitVec.add_assoc]

/-- `ResolveVirtualAddrWithSize` gives a run of addresses that are translated in a row. -/
theorem resolveVirtualAddrWithSize_run (hm : Disjoint m)
    (hphys : ∀ e ∈ m, e.2.physStart.toNat + e.2.size.toNat < 2 ^ 32)
    (h : resolveVirtualAddrWithSize m vaddr = some (p, size)) :
    p.toNat + size.toNat < 2 ^ 32 ∧ vaddr.toNat + size.toNat < 2 ^ 32 ∧
    ∀ i < size.toNat, resolveVirtualAddr m (vaddr + BitVec.ofNat 32 i) =
      some (p + BitVec.ofNat 32 i) := by
  obtain ⟨e, hblock, heq⟩ := Option.map_eq_some_iff.1 h
  cases heq
  obtain ⟨he, hc⟩ := (resolveBlock_eq_some_iff hm).1 hblock
  have hp := hphys e he
  have htop := hm.below_top e he
  obtain ⟨h1, h2⟩ := hc
  refine ⟨by bv_omega, by bv_omega, fun i hi => ?_⟩
  have hi' : Contains e (vaddr + BitVec.ofNat 32 i) := by
    constructor <;> bv_omega
  rw [resolveVirtualAddr_eq, resolve_mapped hm he hi', Option.map_some, target]
  congr 1
  bv_omega

theorem Gathers.nil : Gathers m vaddr 0 [] where
  nonempty := nofun
  below_top := nofun
  bytes := rfl
  phys i hi := absurd hi (Nat.not_lt_zero i)

theorem not_backs_zero (x : Nat) : ¬ Backs m vaddr 0 x := by
  rintro ⟨i, hi, -⟩
  exact absurd hi (Nat.not_lt_zero i)

/-- The addresses of a range are those of its two parts. -/
theorem backs_add {a b : Nat} :
    Backs m vaddr (a + b) x ↔ Backs m vaddr a x ∨ Backs m (vaddr + BitVec.ofNat 32 a) b x := by
  have hadd (j : Nat) : vaddr + BitVec.ofNat 32 a + BitVec.ofNat 32 j =
      vaddr + BitVec.ofNat 32 (a + j) := by
    rw [BitVec.ofNat_add, BitVec.add_assoc]
  constructor
  · rintro ⟨i, hi, p, hp, hx⟩
    by_cases hia : i < a
    · exact .inl ⟨i, hia, p, hp, hx⟩
    · refine .inr ⟨i - a, by omega, p, ?_, hx⟩
      rw [hadd, Nat.add_sub_cancel' (not_lt.1 hia)]
      exact hp
  · rintro (⟨i, hi, p, hp, hx⟩ | ⟨i, hi, p, hp, hx⟩)
    · exact ⟨i, by omega, p, hp, hx⟩
    · exact ⟨a + i, by omega, p, (hadd i) ▸ hp, hx⟩

/-- The memory behind a run of addresses that are translated in a row. -/
theorem backs_run (hfit : p.toNat + size.toNat < 2 ^ 32)
    (hrun : ∀ i < size.toNat, resolveVirtualAddr m (vaddr + BitVec.ofNat 32 i) =
      some (p + BitVec.ofNat 32 i)) :
    Backs m vaddr size.toNat x ↔ p.toNat ≤ x ∧ x < p.toNat + size.toNat := by
  constructor
  · rintro ⟨i, hi, q, hq, rfl⟩
    rw [hrun i hi] at hq
    cases hq
    bv_omega
  · rintro ⟨h1, h2⟩
    refine ⟨x - p.toNat, by omega, _, hrun _ (by omega), ?_⟩
    bv_omega

end

/-! ## Taking a section over -/

/-- The positions behind the range go from one owner to the other; those of the rest stay. -/
structure TakenOver {Owner : Type} (own own' : Nat → Option Owner) (source codeset : Owner)
    (range : Nat → Prop) : Prop where
  former : ∀ x, range x → own x = some source
  owner : ∀ x, range x → own' x = some codeset
  rest : ∀ x, ¬ range x → own' x = own x

section

variable {Owner : Type} {own own' own'' : Nat → Option Owner} {source codeset : Owner}
  {range range' : Nat → Prop} {alive : Owner → Bool}

theorem TakenOver.none (h : ∀ x, ¬ range x) : TakenOver own own source codeset range where
  former x hx := absurd hx (h x)
  owner x hx := absurd hx (h x)
  rest _ _ := rfl

theorem TakenOver.of_assign {a n : Nat} (hrange : ∀ x, range x ↔ a ≤ x ∧ x < a + n)
    (hformer : ∀ x, a ≤ x → x < a + n → own x = some source) :
    TakenOver own (assign own a n (some codeset)) source codeset range where
  former x hx := hformer x ((hrange x).1 hx).1 ((hrange x).1 hx).2
  owner x hx := if_pos ((hrange x).1 hx)
  rest x hx := if_neg fun hx' => hx ((hrange x).2 hx')

/-- What has gone to the code set cannot be taken once more. -/
theorem TakenOver.trans (h : TakenOver own own' source codeset range)
    (h' : TakenOver own' own'' source codeset range') (hne : source ≠ codeset) :
    (∀ x, range x → ¬ range' x) ∧ TakenOver own own'' source codeset fun x => range x ∨ range' x := by
  have happart : ∀ x, range x → ¬ range' x := by
    intro x hx hx'
    have hs := h'.former x hx'
    rw [h.owner x hx, Option.some_inj] at hs
    exact hne hs.symm
  refine ⟨happart, fun x hx => ?_, fun x hx => ?_, fun x hx => ?_⟩
  · rcases hx with hx | hx
    · exact h.former x hx
    · exact (h.rest x fun hx' => happart x hx' hx).symm.trans (h'.former x hx)
  · rcases hx with hx | hx
    · exact (h'.rest x (happart x hx)).trans (h.owner x hx)
    · exact h'.owner x hx
  · rw [not_or] at hx
    exact (h'.rest x hx.2).trans (h.rest x hx.1)

theorem TakenOver.live (h : TakenOver own own' source codeset range)
    (hlive : ∀ x o, own x = some o → alive o) (hcodeset : alive codeset) :
    ∀ x o, own' x = some o → alive o := by
  intro x o hx
  by_cases hr : range x
  · rw [h.owner x hr, Option.some_inj] at hx
    exact hx ▸ hcodeset
  · exact hlive x o (h.rest x hr ▸ hx)

theorem TakenOver.congr (h : TakenOver own own' source codeset range)
    (heq : ∀ x, range x ↔ range' x) : TakenOver own own' source codeset range' where
  former x hx := h.former x ((heq x).2 hx)
  owner x hx := h.owner x ((heq x).2 hx)
  rest x hx := h.rest x fun hx' => hx ((heq x).1 hx')

end

section

variable {Owner : Type} [DecidableEq Owner] {alive : Owner → Bool} {own : Nat → Option Owner}
  {source codeset : Owner} {m : VirtualMemory} {start total vaddr : VAddr} {n : Nat}
  {regions regions' : Regions Owner} {chunks : List Chunk}

/-- A round takes the memory behind its addresses. -/
theorem transfer_takenOver {p : PAddr} {size : BitVec 32} (hown : Owned regions own)
    (hlive : ∀ x o, own x = some o → alive o) (hcodeset : alive codeset) (hsize : size ≠ 0)
    (hfit : p.toNat + size.toNat < 2 ^ 32)
    (hrun : ∀ i < size.toNat, resolveVirtualAddr m (vaddr + BitVec.ofNat 32 i) =
      some (p + BitVec.ofNat 32 i))
    (h : regions.transferOwnership alive source codeset p size = .ok regions') :
    ∃ own', Owned regions' own' ∧ TakenOver own own' source codeset (Backs m vaddr size.toNat) := by
  obtain ⟨hformer, hown'⟩ := hown.transfer hlive hcodeset hsize hfit h
  exact ⟨_, hown', .of_assign (fun x => backs_run hfit hrun) hformer⟩

/-- The chunks from `vaddr` on, by induction on the rounds. -/
theorem reparent_gathers (hm : Disjoint m)
    (hphys : ∀ e ∈ m, e.2.physStart.toNat + e.2.size.toNat < 2 ^ 32) (hcodeset : alive codeset)
    (hne : source ≠ codeset) (hfit : start.toNat + total.toNat < 2 ^ 32) {rounds : Nat}
    (hn : n ≤ rounds * 0x1000) (hpage : n % 0x1000 = 0)
    (hend : vaddr.toNat + n = start.toNat + total.toNat) (hstart : start.toNat ≤ vaddr.toNat)
    (hown : Owned regions own) (hlive : ∀ x o, own x = some o → alive o)
    (h : reparent alive source codeset m start total rounds vaddr regions = .ok (chunks, regions')) :
    Gathers m vaddr n chunks ∧
    ∃ own', Owned regions' own' ∧ TakenOver own own' source codeset (Backs m vaddr n) := by
  induction rounds generalizing n vaddr regions own chunks with
  | zero =>
    cases h
    obtain rfl : n = 0 := by omega
    exact ⟨.nil, own, hown, .none not_backs_zero⟩
  | succ rounds ih =>
    rw [reparent] at h
    by_cases hlt : vaddr < start + total
    · rw [if_pos hlt] at h
      cases hr : resolveVirtualAddrWithSize m vaddr with
      | none => simp [hr] at h
      | some r =>
        obtain ⟨p, avail⟩ := r
        obtain ⟨hpfit, hvfit, hrun⟩ := resolveVirtualAddrWithSize_run hm hphys hr
        simp only [hr, Option.getD_some] at h
        split at h
        · cases h
        rename_i hzero
        split at h
        · cases h
        rename_i haligned
        rw [not_or] at hzero
        obtain ⟨regions₁, htransfer, h⟩ := bind_ok h
        obtain ⟨⟨rest, regions₂⟩, hrest, h⟩ := bind_ok h
        cases h
        -- what the round takes: whole pages, at least one of them, and not more than is left
        have hleft : (total - (vaddr - start)).toNat = n := by bv_omega
        have havail : avail.toNat % 0x1000 = 0 := by
          have : (avail % pageSize).toNat = avail.toNat % 0x1000 := BitVec.toNat_umod
          rw [← this, not_not.1 haligned]
          rfl
        generalize hsize : (if total - (vaddr - start) < avail then total - (vaddr - start)
          else avail) = size at htransfer hrest
        have hle : size.toNat ≤ n ∧ size.toNat ≤ avail.toNat ∧ size.toNat % 0x1000 = 0 ∧
            0 < size.toNat := by
          have hpos : 0 < n := by bv_omega
          have hpos' : 0 < avail.toNat := toNat_ne_zero hzero.2
          split at hsize
          · subst hsize
            bv_omega
          · subst hsize
            bv_omega
        obtain ⟨hsn, hsa, hsp, hpos⟩ := hle
        have hrun' : ∀ i < size.toNat, resolveVirtualAddr m (vaddr + BitVec.ofNat 32 i) =
            some (p + BitVec.ofNat 32 i) := fun i hi => hrun i (by omega)
        obtain ⟨own₁, hown₁, htaken₁⟩ := transfer_takenOver hown hlive hcodeset (by bv_omega)
          (by omega) hrun' htransfer
        obtain ⟨hgather, own₂, hown₂, htaken₂⟩ := ih (n := n - size.toNat) (by omega) (by omega)
          (show (vaddr + size).toNat + (n - size.toNat) = start.toNat + total.toNat by bv_omega)
          (by bv_omega) hown₁
          (htaken₁.live hlive hcodeset) hrest
        have hsplit : size.toNat + (n - size.toNat) = n := by omega
        have hpages : (size / pageSize).toNat * 0x1000 = size.toNat := by
          rw [BitVec.toNat_udiv]
          exact Nat.div_mul_cancel (Nat.dvd_of_mod_eq_zero hsp)
        refine ⟨⟨?_, ?_, ?_, fun i hi => ?_⟩, own₂, hown₂, ?_⟩
        · refine List.forall_mem_cons.2 ⟨?_, hgather.nonempty⟩
          show 0 < (size / pageSize).toNat
          omega
        · refine List.forall_mem_cons.2 ⟨?_, hgather.below_top⟩
          show p.toNat + (size / pageSize).toNat * 0x1000 < 2 ^ 32
          omega
        · rw [chunkBytes, hpages, hgather.bytes, hsplit]
        · rw [physAt, hpages]
          by_cases hi' : i < size.toNat
          · rw [if_pos hi']
            exact ⟨_, rfl, hrun' i hi'⟩
          · rw [if_neg hi']
            obtain ⟨q, hq, hres⟩ := hgather.phys (i - size.toNat) (by omega)
            rw [add_ofNat, Nat.add_sub_cancel' (not_lt.1 hi')] at hres
            exact ⟨q, hq, hres⟩
        · refine (htaken₁.trans htaken₂ hne).2.congr fun x => ?_
          rw [← hsplit, backs_add, BitVec.ofNat_toNat, BitVec.setWidth_eq, hsplit]
    · rw [if_neg hlt] at h
      cases h
      obtain rfl : n = 0 := by bv_omega
      exact ⟨.nil, own, hown, .none not_backs_zero⟩

theorem toNat_pages (numPages : BitVec 32) (h : numPages.toNat * 0x1000 < 2 ^ 32) :
    (numPages * pageSize).toNat = numPages.toNat * 0x1000 := by
  rw [BitVec.toNat_mul]
  exact Nat.mod_eq_of_lt h

theorem reparentSection_gathers {numPages : BitVec 32} (hm : Disjoint m)
    (hphys : ∀ e ∈ m, e.2.physStart.toNat + e.2.size.toNat < 2 ^ 32) (hcodeset : alive codeset)
    (hne : source ≠ codeset) (hfit : start.toNat + numPages.toNat * 0x1000 < 2 ^ 32)
    (hown : Owned regions own) (hlive : ∀ x o, own x = some o → alive o)
    (h : reparentSection alive source codeset m start numPages regions = .ok (chunks, regions')) :
    Gathers m start (numPages.toNat * 0x1000) chunks ∧
    ∃ own', Owned regions' own' ∧
      TakenOver own own' source codeset (Backs m start (numPages.toNat * 0x1000)) := by
  have hpages := toNat_pages numPages (by omega)
  exact reparent_gathers hm hphys hcodeset hne (hpages ▸ hfit) (by omega)
    (Nat.mul_mod_left _ _) (by rw [hpages]) (Nat.le_refl _) hown hlive h

/-! ## Losing the addresses -/

theorem Gathers.mapped {numPages : BitVec 32} {a : VAddr}
    (h : Gathers m start (numPages.toNat * 0x1000) chunks)
    (hfit : start.toNat + numPages.toNat * 0x1000 < 2 ^ 32)
    (ha : InRange start (numPages * pageSize) a) : resolve m a ≠ none := by
  have hpages := toNat_pages numPages (by omega)
  have hlt : (a - start).toNat < numPages.toNat * 0x1000 := by
    rw [← hpages]
    exact ha
  obtain ⟨p, -, hp⟩ := h.phys _ hlt
  rw [BitVec.ofNat_toNat, BitVec.setWidth_eq, add_comm, BitVec.sub_add_cancel,
    resolveVirtualAddr_eq] at hp
  intro hnone
  simp [hnone] at hp

/-- What an address of the section is translated to is behind the section. -/
theorem backs_of_inRange {numPages : BitVec 32} {a : VAddr} {p : PAddr}
    (hfit : start.toNat + numPages.toNat * 0x1000 < 2 ^ 32)
    (ha : InRange start (numPages * pageSize) a) (hp : resolveVirtualAddr m a = some p) :
    Backs m start (numPages.toNat * 0x1000) p.toNat := by
  have hpages := toNat_pages numPages (by omega)
  refine ⟨(a - start).toNat, ?_, p, ?_, rfl⟩
  · rw [← hpages]
    exact ha
  · rw [BitVec.ofNat_toNat, BitVec.setWidth_eq, add_comm, BitVec.sub_add_cancel]
    exact hp

omit [DecidableEq Owner] in
theorem TakenOver.inRange_apart {own₁ own₂ : Nat → Option Owner} {start' : VAddr}
    {numPages numPages' : BitVec 32} {a : VAddr}
    (h : TakenOver own own₁ source codeset (Backs m start (numPages.toNat * 0x1000)))
    (h' : TakenOver own₁ own₂ source codeset (Backs m start' (numPages'.toNat * 0x1000)))
    (hne : source ≠ codeset) (hgather : Gathers m start (numPages.toNat * 0x1000) chunks)
    (hfit : start.toNat + numPages.toNat * 0x1000 < 2 ^ 32)
    (hfit' : start'.toNat + numPages'.toNat * 0x1000 < 2 ^ 32)
    (ha : InRange start (numPages * pageSize) a) : ¬ InRange start' (numPages' * pageSize) a := by
  intro ha'
  obtain ⟨⟨p, perms⟩, hp⟩ := Option.ne_none_iff_exists'.1 (hgather.mapped hfit ha)
  have hp : resolveVirtualAddr m a = some p := by rw [resolveVirtualAddr_eq, hp, Option.map_some]
  exact (h.trans h' hne).1 _ (backs_of_inRange hfit ha hp) (backs_of_inRange hfit' ha' hp)

theorem unmapOrAssert_removed {m' : VirtualMemory} {size : BitVec 32} (hm : Disjoint m)
    (hfit : vaddr.toNat + size.toNat < 2 ^ 32) (hall : ∀ a, InRange vaddr size a → resolve m a ≠ none)
    (h : unmapOrAssert m vaddr size = .ok m') :
    Disjoint m' ∧ ∀ a, resolve m' a = if InRange vaddr size a then none else resolve m a := by
  have hin (a : VAddr) := inRange_iff (a := a) (le_of_lt hfit)
  have hs : size ≠ 0 := by
    rintro rfl
    simp [unmapOrAssert, unmapVirtualMemory, unmapWithin, unmapPass] at h
  obtain ⟨hok, hrem⟩ := unmap_of_mapped hm hs hfit fun a h1 h2 => hall a ((hin a).2 ⟨h1, h2⟩)
  rw [unmapOrAssert, hok] at h
  cases h
  refine ⟨hm.unmap, fun a => ?_⟩
  rw [hrem a]
  simp only [hin]

end

/-! ## The call moves the sections -/

/-- The sections and bss end in the address space. -/
structure ImageFits (info : CodeSetInfo) (textAddr roAddr dataAddr : VAddr) : Prop where
  text : textAddr.toNat + info.textPages.toNat * 0x1000 < 2 ^ 32
  ro : roAddr.toNat + info.roPages.toNat * 0x1000 < 2 ^ 32
  data : dataAddr.toNat + info.dataPages.toNat * 0x1000 < 2 ^ 32
  bss : info.dataSize.toNat * 0x1000 < 2 ^ 32

/-- The addresses of the sections. -/
def InImage (info : CodeSetInfo) (textAddr roAddr dataAddr a : VAddr) : Prop :=
  InRange textAddr (info.textPages * pageSize) a ∨ InRange roAddr (info.roPages * pageSize) a ∨
    InRange dataAddr (info.dataPages * pageSize) a

instance (info : CodeSetInfo) (textAddr roAddr dataAddr a : VAddr) :
    Decidable (InImage info textAddr roAddr dataAddr a) := inferInstanceAs (Decidable (_ ∨ _ ∨ _))

/-- The physical memory of the sections. -/
def BacksImage (m : VirtualMemory) (info : CodeSetInfo) (textAddr roAddr dataAddr : VAddr)
    (x : Nat) : Prop :=
  Backs m textAddr (info.textPages.toNat * 0x1000) x ∨
    Backs m roAddr (info.roPages.toNat * 0x1000) x ∨
    Backs m dataAddr (info.dataPages.toNat * 0x1000) x

def CodeSet.InBss (cs : CodeSet) (x : Nat) : Prop :=
  cs.bssPaddr.toNat ≤ x ∧ x < cs.bssPaddr.toNat + cs.bssSize.toNat * 0x1000

instance (cs : CodeSet) (x : Nat) : Decidable (cs.InBss x) := inferInstanceAs (Decidable (_ ∧ _))

/-- **What the call is for**: the chunks are the memory of the sections, that memory and the new bss
belong to the code set, the caller can translate none of the addresses any more and all others as
before, and no byte has changed but those of bss. -/
structure Moved {Owner : Type} (source codeset : Owner) (info : CodeSetInfo)
    (textAddr roAddr dataAddr : VAddr) (s : ImageState Owner) (own : Nat → Option Owner)
    (cs : CodeSet) (s' : ImageState Owner) (own' : Nat → Option Owner) : Prop where
  starts : cs.textVaddr = info.textStart ∧ cs.roVaddr = info.roStart ∧ cs.dataVaddr = info.dataStart
  bssSize : info.dataPages ≤ info.dataSize ∧ cs.bssSize = info.dataSize - info.dataPages
  text : Gathers s.memory textAddr (info.textPages.toNat * 0x1000) cs.textPhys
  ro : Gathers s.memory roAddr (info.roPages.toNat * 0x1000) cs.roPhys
  data : Gathers s.memory dataAddr (info.dataPages.toNat * 0x1000) cs.dataPhys
  disjoint : Disjoint s'.memory
  addresses : ∀ a, resolve s'.memory a =
    if InImage info textAddr roAddr dataAddr a then none else resolve s.memory a
  owned : Owned s'.regions own'
  former : ∀ x, BacksImage s.memory info textAddr roAddr dataAddr x → own x = some source
  bss_eq_zero_iff : cs.bssPaddr = 0 ↔ cs.bssSize = 0
  bss_below_top : cs.bssPaddr.toNat + cs.bssSize.toNat * 0x1000 < 2 ^ 32
  unused : ∀ x, cs.InBss x → own x = none
  owner : ∀ x, BacksImage s.memory info textAddr roAddr dataAddr x ∨ cs.InBss x →
    own' x = some codeset
  rest : ∀ x, ¬ BacksImage s.memory info textAddr roAddr dataAddr x → ¬ cs.InBss x → own' x = own x
  bytes : ∀ a, s'.data a = if cs.InBss a.toNat then 0 else s.data a

section

variable {Owner : Type} [DecidableEq Owner] {alive : Owner → Bool} {own : Nat → Option Owner}
  {source codeset : Owner} {m m' : VirtualMemory} {regions regions' : Regions Owner}
  {info : CodeSetInfo} {textAddr roAddr dataAddr : VAddr}

theorem clearBytes_eq {data : PAddr → BitVec 8} {start : PAddr} {numBytes : BitVec 32} {n : Nat}
    (hn : numBytes.toNat = n) (hfit : start.toNat + n ≤ 2 ^ 32) (a : PAddr) :
    clearBytes data start numBytes a =
      if start.toNat ≤ a.toNat ∧ a.toNat < start.toNat + n then 0 else data a := by
  subst hn
  have heq := inRange_iff (a := a) hfit
  unfold InRange at heq
  unfold clearBytes
  simp only [heq]

/-- Memory for bss was nobody's, and is the code set's then. -/
theorem allocateBss_ok {numPages : BitVec 32} {bss : PAddr} (hown : Owned regions own)
    (hlive : ∀ x o, own x = some o → alive o) (hcodeset : alive codeset)
    (hfit : numPages.toNat * 0x1000 < 2 ^ 32)
    (h : allocateBss alive codeset m dataAddr numPages regions = .ok (bss, regions')) :
    (bss = 0 ↔ numPages = 0) ∧ bss.toNat + numPages.toNat * 0x1000 < 2 ^ 32 ∧
    (∀ x, bss.toNat ≤ x → x < bss.toNat + numPages.toNat * 0x1000 → own x = none) ∧
    Owned regions' (assign own bss.toNat (numPages.toNat * 0x1000) (some codeset)) := by
  unfold allocateBss at h
  split at h
  · cases h
  · split at h
    · rename_i hzero
      obtain ⟨l, r, r', l', rfl, rfl, hcall, -⟩ := Regions.update_ok h
      cases hcall
      subst hzero
      refine ⟨Iff.rfl, by decide, fun x h1 h2 => absurd h2 (by simp), ?_⟩
      have hsame : own = assign own 0 0 (some codeset) := by
        funext x
        exact (if_neg fun hx => absurd hx.2 (by omega)).symm
      exact hsame ▸ hown
    · rename_i hzero
      have hpages := toNat_pages _ hfit
      have hn : numPages * pageSize ≠ 0 := by
        have := toNat_ne_zero hzero
        intro h0
        rw [h0] at hpages
        simp at hpages
        omega
      obtain ⟨⟨res, regions₁⟩, hupdate, h⟩ := bind_ok h
      cases res with
      | none => cases h
      | some b =>
        cases h
        obtain ⟨⟨hpos, hend⟩, halloc⟩ := hown.allocate hlive hcodeset hn hupdate
        rw [hpages] at hend halloc
        refine ⟨⟨?_, fun h0 => absurd h0 hzero⟩, hend, halloc⟩
        rintro rfl
        exact absurd hpos (by decide)

/-- The sections go one after the other; each is still there when its turn comes. -/
theorem unmapSections_ok (hm : Disjoint m) (hfits : ImageFits info textAddr roAddr dataAddr)
    (htext : ∀ a, InRange textAddr (info.textPages * pageSize) a → resolve m a ≠ none)
    (hro : ∀ a, InRange roAddr (info.roPages * pageSize) a → resolve m a ≠ none)
    (hdata : ∀ a, InRange dataAddr (info.dataPages * pageSize) a → resolve m a ≠ none)
    (htextRo : ∀ a, InRange textAddr (info.textPages * pageSize) a →
      ¬ InRange roAddr (info.roPages * pageSize) a)
    (htextData : ∀ a, InRange textAddr (info.textPages * pageSize) a →
      ¬ InRange dataAddr (info.dataPages * pageSize) a)
    (hroData : ∀ a, InRange roAddr (info.roPages * pageSize) a →
      ¬ InRange dataAddr (info.dataPages * pageSize) a)
    (h : unmapSections m info textAddr roAddr dataAddr = .ok m') :
    Disjoint m' ∧ ∀ a, resolve m' a =
      if InImage info textAddr roAddr dataAddr a then none else resolve m a := by
  have hend {a : VAddr} {k : BitVec 32} (h : a.toNat + k.toNat * 0x1000 < 2 ^ 32) :
      a.toNat + (k * pageSize).toNat < 2 ^ 32 := by
    rw [toNat_pages _ (by omega)]
    exact h
  obtain ⟨m₁, h₁, h⟩ := bind_ok h
  obtain ⟨m₂, h₂, h₃⟩ := bind_ok h
  obtain ⟨hm₁, hr₁⟩ := unmapOrAssert_removed hm (hend hfits.text) htext h₁
  obtain ⟨hm₂, hr₂⟩ := unmapOrAssert_removed hm₁ (hend hfits.ro) (fun a ha => by
    rw [hr₁ a, if_neg fun ht => htextRo a ht ha]
    exact hro a ha) h₂
  obtain ⟨hm₃, hr₃⟩ := unmapOrAssert_removed hm₂ (hend hfits.data) (fun a ha => by
    rw [hr₂ a, if_neg fun ht => hroData a ht ha, hr₁ a, if_neg fun ht => htextData a ht ha]
    exact hdata a ha) h₃
  refine ⟨hm₃, fun a => ?_⟩
  rw [hr₃ a, hr₂ a, hr₁ a]
  unfold InImage
  grind

theorem createCodeSet_moved {s s' : ImageState Owner} {cs : CodeSet} (hne : source ≠ codeset)
    (hcodeset : alive codeset) (hm : Disjoint s.memory)
    (hphys : ∀ e ∈ s.memory, e.2.physStart.toNat + e.2.size.toNat < 2 ^ 32)
    (hown : Owned s.regions own) (hlive : ∀ x o, own x = some o → alive o)
    (hfits : ImageFits info textAddr roAddr dataAddr)
    (h : createCodeSet alive source codeset false info textAddr roAddr dataAddr s = .ok (cs, s')) :
    ∃ own', Moved source codeset info textAddr roAddr dataAddr s own cs s' own' := by
  unfold createCodeSet at h
  split at h
  · cases h
  rename_i hargs
  split at h
  · cases h
  obtain ⟨⟨textPhys, regions₁⟩, htext, h⟩ := bind_ok h
  obtain ⟨⟨roPhys, regions₂⟩, hro, h⟩ := bind_ok h
  obtain ⟨⟨dataPhys, regions₃⟩, hdata, h⟩ := bind_ok h
  obtain ⟨⟨bssPaddr, regions₄⟩, hbss, h⟩ := bind_ok h
  obtain ⟨memory, hunmap, h⟩ := bind_ok h
  cases h
  replace hunmap : unmapSections s.memory info textAddr roAddr dataAddr = .ok memory := hunmap
  obtain ⟨gtext, own₁, hown₁, ttext⟩ :=
    reparentSection_gathers hm hphys hcodeset hne hfits.text hown hlive htext
  have hlive₁ := ttext.live hlive hcodeset
  obtain ⟨gro, own₂, hown₂, tro⟩ :=
    reparentSection_gathers hm hphys hcodeset hne hfits.ro hown₁ hlive₁ hro
  have hlive₂ := tro.live hlive₁ hcodeset
  obtain ⟨gdata, own₃, hown₃, tdata⟩ :=
    reparentSection_gathers hm hphys hcodeset hne hfits.data hown₂ hlive₂ hdata
  have hlive₃ := tdata.live hlive₂ hcodeset
  have hle : info.dataPages ≤ info.dataSize := by
    simp only [not_or] at hargs
    bv_omega
  have hsize : (info.dataSize - info.dataPages).toNat ≤ info.dataSize.toNat := by bv_omega
  have hbytes : (info.dataSize - info.dataPages).toNat * 0x1000 < 2 ^ 32 :=
    Nat.lt_of_le_of_lt (Nat.mul_le_mul_right _ hsize) hfits.bss
  obtain ⟨hbssZero, hbssEnd, hbssFree, hown₄⟩ := allocateBss_ok hown₃ hlive₃ hcodeset hbytes hbss
  -- the three sections as one
  have tall : TakenOver own own₃ source codeset
      (BacksImage s.memory info textAddr roAddr dataAddr) :=
    (ttext.trans ((tro.trans tdata hne).2) hne).2
  have hdataApart : ∀ a, InRange textAddr (info.textPages * pageSize) a →
      ¬ InRange dataAddr (info.dataPages * pageSize) a := by
    intro a ha ha'
    obtain ⟨⟨p, perms⟩, hp⟩ := Option.ne_none_iff_exists'.1 (gtext.mapped hfits.text ha)
    have hp : resolveVirtualAddr s.memory a = some p := by
      rw [resolveVirtualAddr_eq, hp, Option.map_some]
    exact (ttext.trans (tro.trans tdata hne).2 hne).1 _ (backs_of_inRange hfits.text ha hp)
      (.inr (backs_of_inRange hfits.data ha' hp))
  obtain ⟨hdisjoint, haddr⟩ := unmapSections_ok hm hfits (fun a => gtext.mapped hfits.text)
    (fun a => gro.mapped hfits.ro) (fun a => gdata.mapped hfits.data)
    (fun a => ttext.inRange_apart tro hne gtext hfits.text hfits.ro) hdataApart
    (fun a => tro.inRange_apart tdata hne gro hfits.ro hfits.data) hunmap
  have hunused : ∀ x, bssPaddr.toNat ≤ x →
      x < bssPaddr.toNat + (info.dataSize - info.dataPages).toNat * 0x1000 →
      ¬ BacksImage s.memory info textAddr roAddr dataAddr x := by
    intro x h1 h2 hx
    have hfree := hbssFree x h1 h2
    rw [tall.owner x hx] at hfree
    cases hfree
  refine ⟨_, ⟨rfl, rfl, rfl⟩, ⟨hle, rfl⟩, gtext, gro, gdata, hdisjoint, haddr, hown₄, tall.former,
    hbssZero, hbssEnd, ?_, ?_, ?_, clearBytes_eq (toNat_pages _ hbytes) (le_of_lt hbssEnd)⟩
  · rintro x ⟨h1, h2⟩
    rw [← tall.rest x (hunused x h1 h2)]
    exact hbssFree x h1 h2
  · rintro x (hx | hx)
    · exact (if_neg fun hb => hunused x hb.1 hb.2 hx).trans (tall.owner x hx)
    · exact if_pos hx
  · intro x hx hb
    exact (if_neg hb).trans (tall.rest x hx)

end

section

/-- Five pages of physical memory for the process 1. -/
def fivePages : MemoryManager Nat × (Nat → Option Nat) :=
  (BlockCall.allocate 1 0x5000).step (fun _ => true) (.create 0x20000000 0x8000) fun _ => none

theorem fivePages_owned : Owned [fivePages.1] fivePages.2 where
  ledger := by
    refine List.forall_mem_singleton.2 ?_
    exact (Ledger.created (by decide) (by decide)).step (c := .allocate 1 0x5000) (by decide)
      ⟨nofun, fun _ _ => rfl⟩ trivial
  bounds := by decide
  apart := List.pairwise_singleton _ _

/-- The text of the image is in two chunks, which are not neighbours. -/
def scattered : VirtualMemory :=
  ⟨[(0x8000000, ⟨0x20000000, 0x1000, .readWrite⟩), (0x8001000, ⟨0x20003000, 0x1000, .readWrite⟩),
    (0x8002000, ⟨0x20001000, 0x2000, .readWrite⟩)], by simp [SortedMap.Sorted]⟩

theorem scattered_disjoint : Disjoint scattered where
  nonempty := by
    show ∀ e ∈ scattered.entries, _
    decide
  below_top := by
    show ∀ e ∈ scattered.entries, _
    decide
  disjoint := by
    show ∀ e ∈ scattered.entries, ∀ e' ∈ scattered.entries, _
    decide

def smallImage : CodeSetInfo where
  appName := "a"
  textStart := 0x100000
  textPages := 2
  roStart := 0x102000
  roPages := 1
  dataStart := 0x103000
  dataPages := 1
  textSize := 2
  roSize := 1
  dataSize := 2

end

end Mikage
