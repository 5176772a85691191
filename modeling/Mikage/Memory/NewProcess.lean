import Mikage.Memory.CodeSets

/-!
# New processes

`SVCCreateProcess` maps a code set into a new process, and after it what the kernel capabilities of
the program ask for.

- `createProcess`: the call, for programs that are not emulated on a high level.
- `Shown`: the mappings are among a list of blocks, and all of it where the blocks lie apart.
- `createProcess_exact`: the memory map of the new process is the program, two pages of the kernel
  and the I/O pages the capabilities name.
- `launch`: what a program has in its memory is what its loader had.
-/

namespace Mikage

/-! ## Kernel capabilities -/

abbrev KernelCapability := BitVec 32

namespace KernelCapability

def minorVersion (cap : KernelCapability) : BitVec 8 := cap.extractLsb' 0 8
def majorVersion (cap : KernelCapability) : BitVec 8 := cap.extractLsb' 8 8
def memoryRegion (cap : KernelCapability) : BitVec 4 := cap.extractLsb' 8 4
def pageIndex (cap : KernelCapability) : BitVec 20 := cap.extractLsb' 0 20

/-- The start of the page. -/
def vaddr (cap : KernelCapability) : VAddr := cap.pageIndex.setWidth 32 <<< 12

end KernelCapability

/-- The loop of `CountLeadingOnes`; after 32 rounds the value is 0. -/
def leadingOnesWithin : Nat → BitVec 32 → Nat
  | 0, _ => 0
  | rounds + 1, value =>
    if value &&& 0x80000000 ≠ 0 then leadingOnesWithin rounds (value <<< 1) + 1 else 0

def countLeadingOnes (value : BitVec 32) : Nat := leadingOnesWithin 32 value

/-- `ResolveStandardVirtualAddress`: the registers, video memory and the memory of the DSP. -/
def resolveStandardVirtualAddress (vaddr : VAddr) : Except Exception PAddr :=
  if 0x1ec00000 ≤ vaddr ∧ vaddr < 0x1f000000 then .ok (vaddr - 0xeb00000)
  else if 0x1f000000 ≤ vaddr ∧ vaddr < 0x1f600000 then .ok (vaddr - 0x7000000)
  else if 0x1ff00000 ≤ vaddr ∧ vaddr < 0x1ff80000 then .ok vaddr
  else .error (.runtimeError "Virtual address not covered by the known standard mappings")

/-- The place of the region that the first capability with eight leading ones names. -/
def chooseRegion : List KernelCapability → Except Exception Nat
  | [] => .error (.invalid "No memory type specified in exheader")
  | cap :: caps =>
    if countLeadingOnes cap = 8 then
      if cap.memoryRegion < 1 ∨ 3 < cap.memoryRegion then
        .error (.runtimeError "Invalid memory region type set in kernel capabilities")
      else .ok (cap.memoryRegion.toNat - 1)
    else chooseRegion caps

/-! ## The program -/

/-- `MapVirtualMemory`, where nobody asks whether it succeeded. -/
def mapIgnored (m : VirtualMemory) (e : VAddr × VirtualMemoryBlock) :
    Except Exception VirtualMemory :=
  let r := mapVirtualMemory m e.2.physStart e.2.size e.1 e.2.permissions
  r.outcome.map fun _ => r.memory

section

variable {Owner : Type} [DecidableEq Owner] (alive : Owner → Bool) (codeset process : Owner)
  (region : Nat)

/-- The blocks of a section: its chunks behind each other. -/
def sectionBlocks (permissions : MemoryPermissions) :
    VAddr → List Chunk → List (VAddr × VirtualMemoryBlock)
  | _, [] => []
  | vaddr, c :: cs =>
    (vaddr, ⟨c.physStart, c.numPages * pageSize, permissions⟩) ::
      sectionBlocks permissions (vaddr + c.numPages * pageSize) cs

/-- The address behind a section. -/
def sectionEnd : VAddr → List Chunk → VAddr
  | vaddr, [] => vaddr
  | vaddr, c :: cs => sectionEnd (vaddr + c.numPages * pageSize) cs

/-- One block of the program is mapped, and its memory goes to the process. -/
def mapBlock (e : VAddr × VirtualMemoryBlock) (s : VirtualMemory × Regions Owner) :
    Except Exception (VirtualMemory × Regions Owner) := do
  let memory ← mapIgnored s.1 e
  let regions ← s.2.transferIn alive codeset process e.2.physStart e.2.size region
  return (memory, regions)

def mapBlocks : List (VAddr × VirtualMemoryBlock) → VirtualMemory × Regions Owner →
    Except Exception (VirtualMemory × Regions Owner)
  | [], s => .ok s
  | e :: es, s => do mapBlocks es (← mapBlock alive codeset process region e s)

/-- The block of bss, behind the data. -/
def CodeSet.bssBlocks (cs : CodeSet) : List (VAddr × VirtualMemoryBlock) :=
  if cs.bssPaddr ≠ 0 then
    [(sectionEnd cs.dataVaddr cs.dataPhys, ⟨cs.bssPaddr, cs.bssSize * pageSize, .readWrite⟩)]
  else []

/-- The blocks of a program, in the order in which they are mapped. -/
def CodeSet.blocks (cs : CodeSet) : List (VAddr × VirtualMemoryBlock) :=
  sectionBlocks .readExec cs.textVaddr cs.textPhys ++ (sectionBlocks .read cs.roVaddr cs.roPhys ++
    (sectionBlocks .readWrite cs.dataVaddr cs.dataPhys ++ cs.bssBlocks))

end

/-! ## The capabilities -/

/-- The loop over the pages of a range. A round goes a page on, so that the bound it starts with is
never reached. -/
def mapIoPages (stop : VAddr) : Nat → VAddr → VirtualMemory → Except Exception VirtualMemory
  | 0, _, m => .ok m
  | rounds + 1, vaddr, m =>
    if vaddr < stop then do
      let paddr ← resolveStandardVirtualAddress vaddr
      let r := mapVirtualMemory m paddr pageSize vaddr .readWrite
      match ← r.outcome with
      | true => mapIoPages stop rounds (vaddr + pageSize) r.memory
      | false => .error (.invalid "Kernel panic:")
    else .ok m

/-- The pages of `[base, base + size)`. The message of the log already resolves the first one. -/
def mapIoRange (base : VAddr) (size : BitVec 32) (m : VirtualMemory) :
    Except Exception VirtualMemory := do
  let _ ← resolveStandardVirtualAddress base
  mapIoPages (base + size) (size.toNat / 0x1000 + 1) base m

/-- What the capabilities change. -/
structure NewProcess where
  memory : VirtualMemory
  linearBaseAddr : VAddr := 0x14000000

/-- `ReadMemory` of the new process. -/
def NewProcess.readMemory (p : NewProcess) (data : PAddr → BitVec 8) (addr : VAddr) :
    Except Exception (BitVec 8) :=
  match resolveVirtualAddr p.memory addr with
  | none => .error (.runtimeError "EmuProcess trying to read from invalid virtual address")
  | some paddr => .ok (data paddr)

/-- The kernel version a program asks for. -/
def requireVersion (data : PAddr → BitVec 8) (cap : KernelCapability) (p : NewProcess) :
    Except Exception NewProcess :=
  if cap.majorVersion ≠ 2 then .error (.invalid "Invalid kernel major version") else do
    let minor ← p.readMemory data 0x1ff80002
    if minor < cap.minorVersion then .error (.invalid "System requires an update to run this title")
    else .ok (if 44 ≤ cap.minorVersion then { p with linearBaseAddr := 0x30000000 } else p)

def applyCapabilities (data : PAddr → BitVec 8) :
    List KernelCapability → NewProcess → Except Exception NewProcess
  | [], p => .ok p
  | cap :: caps, p =>
    if countLeadingOnes cap = 6 then do
      applyCapabilities data caps (← requireVersion data cap p)
    else if countLeadingOnes cap = 9 then
      match caps with
      | [] => .error (.runtimeError "Expected caps descriptor for address range end")
      | next :: caps =>
        if countLeadingOnes next ≠ 9 then
          .error (.runtimeError "Expected caps descriptor for address range end")
        else if next.vaddr ≤ cap.vaddr then .error (.runtimeError "Invalid address range")
        else do
          let memory ← mapIoRange cap.vaddr (next.vaddr - cap.vaddr) p.memory
          applyCapabilities data caps { p with memory }
    else if countLeadingOnes cap = 11 then do
      let memory ← mapIoRange cap.vaddr pageSize p.memory
      applyCapabilities data caps { p with memory }
    -- the memory region, unused and unknown descriptors
    else applyCapabilities data caps p

/-- The pages of the kernel that every process has. -/
def kernelBlocks (configurationMemory sharedMemoryPage : PAddr) :
    List (VAddr × VirtualMemoryBlock) :=
  [(0x1ff80000, ⟨configurationMemory, pageSize, .read⟩),
    (0x1ff81000, ⟨sharedMemoryPage, pageSize, .readWrite⟩)]

/-- `SVCCreateProcess`: the process and the regions after the call. -/
def createProcess {Owner : Type} [DecidableEq Owner] (alive : Owner → Bool) (codeset process : Owner)
    (cs : CodeSet) (caps : List KernelCapability) (configurationMemory sharedMemoryPage : PAddr)
    (data : PAddr → BitVec 8) (regions : Regions Owner) :
    Except Exception (NewProcess × Regions Owner) := do
  let region ← chooseRegion caps
  let (memory, regions) ← mapBlocks alive codeset process region cs.blocks (.empty, regions)
  let memory ← (kernelBlocks configurationMemory sharedMemoryPage).foldlM mapIgnored memory
  let p ← applyCapabilities data caps { memory }
  return (p, regions)

/-! ## What a list of mappings leaves -/

/-- The blocks do not overlap. -/
def Apart (e e' : VAddr × VirtualMemoryBlock) : Prop :=
  e.1.toNat + e.2.size.toNat ≤ e'.1.toNat ∨ e'.1.toNat + e'.2.size.toNat ≤ e.1.toNat

/-- The blocks are not empty, end below the top and lie apart. -/
structure LaidOut (l : List (VAddr × VirtualMemoryBlock)) : Prop where
  nonempty : ∀ e ∈ l, 0 < e.2.size.toNat
  below_top : ∀ e ∈ l, e.1.toNat + e.2.size.toNat < 2 ^ 32
  apart : l.Pairwise Apart

/-- The mappings are among the blocks, and are all of them where the blocks lie apart. -/
structure Shown (m : VirtualMemory) (l : List (VAddr × VirtualMemoryBlock)) : Prop where
  sub : ∀ e ∈ m, e ∈ l
  disjoint : LaidOut l → Disjoint m
  all : LaidOut l → ∀ e ∈ l, e ∈ m

section

variable {m m' : VirtualMemory} {l l' : List (VAddr × VirtualMemoryBlock)}
  {e : VAddr × VirtualMemoryBlock}

theorem LaidOut.left (h : LaidOut (l ++ l')) : LaidOut l where
  nonempty e he := h.nonempty e (List.mem_append_left _ he)
  below_top e he := h.below_top e (List.mem_append_left _ he)
  apart := (List.pairwise_append.1 h.apart).1

theorem LaidOut.concat (h : LaidOut l) (hpos : 0 < e.2.size.toNat)
    (htop : e.1.toNat + e.2.size.toNat < 2 ^ 32) (hapart : ∀ x ∈ l, Apart x e) :
    LaidOut (l ++ [e]) where
  nonempty := List.forall_mem_append.2 ⟨h.nonempty, List.forall_mem_singleton.2 hpos⟩
  below_top := List.forall_mem_append.2 ⟨h.below_top, List.forall_mem_singleton.2 htop⟩
  apart := List.pairwise_append.2 ⟨h.apart, List.pairwise_singleton _ _,
    fun x hx => List.forall_mem_singleton.2 (hapart x hx)⟩

theorem Shown.empty : Shown .empty [] where
  sub _ he := absurd he SortedMap.not_mem_empty
  disjoint _ := .empty
  all _ := nofun

theorem mapIgnored_ok (h : mapIgnored m e = .ok m') :
    e.2.size ≠ 0 ∧
      m' = (mapVirtualMemory m e.2.physStart e.2.size e.1 e.2.permissions).memory := by
  obtain ⟨b, hok, rfl⟩ := map_ok h
  refine ⟨fun h0 => ?_, rfl⟩
  simp [mapVirtualMemory, h0] at hok

theorem mapVirtualMemory_memory (m : VirtualMemory) (e : VAddr × VirtualMemoryBlock) :
    (mapVirtualMemory m e.2.physStart e.2.size e.1 e.2.permissions).memory = m ∨
      (mapVirtualMemory m e.2.physStart e.2.size e.1 e.2.permissions).memory = m.insert e.1 e.2 := by
  unfold mapVirtualMemory
  repeat' split
  · exact .inl rfl
  · exact .inl rfl
  · exact .inl rfl
  · exact .inr rfl

/-- A block that lies apart from all mappings is not rejected. -/
theorem not_rejected_of_apart (hm : Disjoint m) (hpos : 0 < e.2.size.toNat)
    (hapart : ∀ x ∈ m, Apart x e) : ¬ Rejected m e.2.size e.1 := by
  rintro (⟨x, hx, hle, hlt⟩ | ⟨x, hx, -, hc⟩)
  · have hx' := hm.nonempty x hx
    rcases hapart x hx with h | h <;> bv_omega
  · obtain ⟨h1, h2⟩ := hc
    rcases hapart x hx with h | h <;> omega

/-- Mapping one block more. -/
theorem Shown.map (h : Shown m l) (hok : mapIgnored m e = .ok m') : Shown m' (l ++ [e]) := by
  obtain ⟨hsize, rfl⟩ := mapIgnored_ok hok
  have hmem : LaidOut (l ++ [e]) →
      Disjoint (mapVirtualMemory m e.2.physStart e.2.size e.1 e.2.permissions).memory ∧
      ∀ x, x ∈ (mapVirtualMemory m e.2.physStart e.2.size e.1 e.2.permissions).memory ↔
        x ∈ m ∨ x = e := by
    intro hl
    have hm := h.disjoint hl.left
    have htop := hl.below_top e (List.mem_append_right _ (List.mem_singleton_self e))
    have hnot := not_rejected_of_apart hm (toNat_ne_zero hsize) fun x hx =>
      (List.pairwise_append.1 hl.apart).2.2 x (h.sub x hx) e (List.mem_singleton_self e)
    rw [mapVirtualMemory_accepted hm hsize hnot]
    exact ⟨hm.insert hsize hnot htop, fun x => mem_insert_of_accepted hm hsize hnot htop⟩
  refine ⟨fun x hx => ?_, fun hl => (hmem hl).1, fun hl x hx => ?_⟩
  · rcases mapVirtualMemory_memory m e with heq | heq
    · rw [heq] at hx
      exact List.mem_append_left _ (h.sub x hx)
    · rw [heq, SortedMap.mem_insert] at hx
      rcases hx with hx | ⟨rfl, -⟩
      · exact List.mem_append_left _ (h.sub x hx)
      · exact List.mem_append_right _ (List.mem_singleton_self _)
  · rw [(hmem hl).2]
    rcases List.mem_append.1 hx with hx | hx
    · exact .inl (h.all hl.left x hx)
    · exact .inr (List.mem_singleton.1 hx)

theorem Shown.foldlM (h : Shown m l) (hok : l'.foldlM mapIgnored m = .ok m') :
    Shown m' (l ++ l') := by
  induction l' generalizing m l with
  | nil =>
    cases hok
    rwa [List.append_nil]
  | cons e es ih =>
    obtain ⟨m₁, h₁, hok⟩ := bind_ok hok
    have := ih (h.map h₁) hok
    rwa [List.append_assoc] at this

/-- A block whose mapping has succeeded lies apart from those before it. -/
theorem Shown.laidOut_of_mapped (h : Shown m l) (hl : LaidOut l) (hsize : e.2.size ≠ 0)
    (htop : e.1.toNat + e.2.size.toNat < 2 ^ 32)
    (hok : (mapVirtualMemory m e.2.physStart e.2.size e.1 e.2.permissions).outcome = .ok true) :
    LaidOut (l ++ [e]) := by
  have hm := h.disjoint hl
  have hnot : ¬ Rejected m e.2.size e.1 := fun hr => by
    rw [mapVirtualMemory_rejected hm hsize hr] at hok
    cases hok
  exact hl.concat (toNat_ne_zero hsize) htop fun x hx =>
    apart_of_accepted hm hnot htop (h.all hl x hx)

end

/-! ## The I/O pages -/

/-- The pages the capabilities name. The second descriptor of a range is not read as a capability. -/
inductive Names : List KernelCapability → VAddr → Prop where
  | page {cap : KernelCapability} {caps : List KernelCapability} :
      countLeadingOnes cap = 11 → Names (cap :: caps) cap.vaddr
  | range {cap next : KernelCapability} {caps : List KernelCapability} {v : VAddr} :
      countLeadingOnes cap = 9 → cap.vaddr ≤ v → v < next.vaddr → v.toNat % 0x1000 = 0 →
      Names (cap :: next :: caps) v
  | other {cap : KernelCapability} {caps : List KernelCapability} {v : VAddr} :
      countLeadingOnes cap ≠ 9 → Names caps v → Names (cap :: caps) v
  | behind {cap next : KernelCapability} {caps : List KernelCapability} {v : VAddr} :
      countLeadingOnes cap = 9 → Names caps v → Names (cap :: next :: caps) v

/-- An I/O page: mapped where the standard mapping of the kernel has it. -/
def IoPage (v : VAddr) (e : VAddr × VirtualMemoryBlock) : Prop :=
  ∃ p, resolveStandardVirtualAddress v = .ok p ∧ e = (v, ⟨p, pageSize, .readWrite⟩)

/-- The pages in `pages` were added. -/
structure AddedPages (l l' : List (VAddr × VirtualMemoryBlock)) (m' : VirtualMemory)
    (pages : VAddr → Prop) : Prop where
  shown : Shown m' (l ++ l')
  laidOut : LaidOut l → LaidOut (l ++ l')
  mem : ∀ e, e ∈ l' ↔ ∃ v, pages v ∧ IoPage v e
  standard : ∀ v, pages v → ∃ p, resolveStandardVirtualAddress v = .ok p

section

variable {m m' m'' : VirtualMemory} {l l' l'' : List (VAddr × VirtualMemoryBlock)}
  {pages pages' : VAddr → Prop} {v base stop : VAddr} {p : PAddr}

theorem resolveStandard_lt (h : resolveStandardVirtualAddress v = .ok p) :
    v.toNat < 0x1ff80000 := by
  unfold resolveStandardVirtualAddress at h
  split at h
  · bv_omega
  · split at h
    · bv_omega
    · split at h
      · bv_omega
      · cases h

theorem AddedPages.none (h : Shown m l) (hnone : ∀ v, ¬ pages v) : AddedPages l [] m pages where
  shown := by rwa [List.append_nil]
  laidOut hl := by rwa [List.append_nil]
  mem e := by
    refine ⟨nofun, ?_⟩
    rintro ⟨v, hv, -⟩
    exact absurd hv (hnone v)
  standard v hv := absurd hv (hnone v)

theorem AddedPages.trans (h : AddedPages l l' m' pages) (h' : AddedPages (l ++ l') l'' m'' pages') :
    AddedPages l (l' ++ l'') m'' fun v => pages v ∨ pages' v where
  shown := by
    have := h'.shown
    rwa [List.append_assoc] at this
  laidOut hl := by
    have := h'.laidOut (h.laidOut hl)
    rwa [List.append_assoc] at this
  mem e := by
    rw [List.mem_append, h.mem, h'.mem]
    constructor
    · rintro (⟨v, hv, he⟩ | ⟨v, hv, he⟩)
      · exact ⟨v, .inl hv, he⟩
      · exact ⟨v, .inr hv, he⟩
    · rintro ⟨v, hv | hv, he⟩
      · exact .inl ⟨v, hv, he⟩
      · exact .inr ⟨v, hv, he⟩
  standard v hv := hv.elim (h.standard v) (h'.standard v)

theorem AddedPages.congr (h : AddedPages l l' m' pages) (heq : ∀ v, pages v ↔ pages' v) :
    AddedPages l l' m' pages' where
  shown := h.shown
  laidOut := h.laidOut
  mem e := by simp only [h.mem, heq]
  standard v hv := h.standard v ((heq v).2 hv)

theorem AddedPages.one (h : Shown m l) (hp : resolveStandardVirtualAddress v = .ok p)
    (hok : (mapVirtualMemory m p pageSize v .readWrite).outcome = .ok true) :
    AddedPages l [(v, ⟨p, pageSize, .readWrite⟩)]
      (mapVirtualMemory m p pageSize v .readWrite).memory (· = v) where
  shown := h.map (by rw [mapIgnored, hok]; rfl)
  laidOut hl := by
    have := resolveStandard_lt hp
    exact h.laidOut_of_mapped hl (by simp [pageSize]) (by simp only [pageSize]; bv_omega) hok
  mem e := by
    rw [List.mem_singleton]
    constructor
    · rintro rfl
      exact ⟨v, rfl, p, hp, rfl⟩
    · rintro ⟨v, rfl, q, hq, rfl⟩
      rw [hp] at hq
      cases hq
      rfl
  standard w hw := ⟨p, hw ▸ hp⟩

/-- The pages of a range, by induction on the rounds. -/
theorem mapIoPages_ok {rounds : Nat} (h : Shown m l) (haligned : v.toNat % 0x1000 = 0)
    (hrounds : stop.toNat ≤ v.toNat + rounds * 0x1000)
    (hok : mapIoPages stop rounds v m = .ok m') :
    ∃ l', AddedPages l l' m' fun w => v ≤ w ∧ w < stop ∧ w.toNat % 0x1000 = 0 := by
  induction rounds generalizing v m l with
  | zero =>
    cases hok
    exact ⟨[], .none h fun w hw => by bv_omega⟩
  | succ rounds ih =>
    rw [mapIoPages] at hok
    by_cases hlt : v < stop
    · rw [if_pos hlt] at hok
      obtain ⟨p, hp, hok⟩ := bind_ok hok
      obtain ⟨b, hmap, hok⟩ := bind_ok hok
      cases b with
      | false => cases hok
      | true =>
        have hone := AddedPages.one h hp hmap
        have hv := resolveStandard_lt hp
        have hnext : (v + pageSize).toNat = v.toNat + 0x1000 := by
          simp only [pageSize]
          bv_omega
        obtain ⟨l', hrest⟩ := ih hone.shown (by omega) (by omega) hok
        refine ⟨_, (hone.trans hrest).congr fun w => ?_⟩
        rw [BitVec.le_def, BitVec.le_def, hnext]
        constructor
        · rintro (rfl | ⟨h1, h2, h3⟩)
          · exact ⟨Nat.le_refl _, hlt, haligned⟩
          · exact ⟨by omega, h2, h3⟩
        · rintro ⟨h1, h2, h3⟩
          by_cases hw : w.toNat = v.toNat
          · exact .inl (BitVec.eq_of_toNat_eq hw)
          · exact .inr ⟨by omega, h2, h3⟩
    · rw [if_neg hlt] at hok
      cases hok
      exact ⟨[], .none h fun w hw => by bv_omega⟩

theorem vaddr_aligned (cap : KernelCapability) : cap.vaddr.toNat % 0x1000 = 0 := by
  rw [KernelCapability.vaddr, BitVec.toNat_shiftLeft, BitVec.toNat_setWidth,
    Nat.shiftLeft_eq]
  omega

theorem mapIoRange_ok {size : BitVec 32} (h : Shown m l) (haligned : base.toNat % 0x1000 = 0)
    (hfit : base.toNat + size.toNat < 2 ^ 32) (hok : mapIoRange base size m = .ok m') :
    ∃ l', AddedPages l l' m' fun w =>
      base ≤ w ∧ w.toNat < base.toNat + size.toNat ∧ w.toNat % 0x1000 = 0 := by
  obtain ⟨p, -, hok⟩ := bind_ok hok
  have hstop : (base + size).toNat = base.toNat + size.toNat := by bv_omega
  obtain ⟨l', h'⟩ := mapIoPages_ok h haligned (by omega) hok
  refine ⟨l', h'.congr fun w => ?_⟩
  rw [BitVec.lt_def, hstop]

theorem not_names_nil (v : VAddr) : ¬ Names [] v := nofun

theorem names_page {cap : KernelCapability} {caps : List KernelCapability}
    (h : countLeadingOnes cap = 11) : Names (cap :: caps) v ↔ v = cap.vaddr ∨ Names caps v := by
  constructor
  · intro hv
    cases hv with
    | page => exact .inl rfl
    | range h9 => omega
    | other _ hv => exact .inr hv
    | behind h9 => omega
  · rintro (rfl | hv)
    · exact .page h
    · exact .other (by omega) hv

theorem names_range {cap next : KernelCapability} {caps : List KernelCapability}
    (h : countLeadingOnes cap = 9) : Names (cap :: next :: caps) v ↔
      (cap.vaddr ≤ v ∧ v < next.vaddr ∧ v.toNat % 0x1000 = 0) ∨ Names caps v := by
  constructor
  · intro hv
    cases hv with
    | page h11 => omega
    | range _ h1 h2 h3 => exact .inl ⟨h1, h2, h3⟩
    | other hne => exact absurd h hne
    | behind _ hv => exact .inr hv
  · rintro (⟨h1, h2, h3⟩ | hv)
    · exact .range h h1 h2 h3
    · exact .behind h hv

theorem names_other {cap : KernelCapability} {caps : List KernelCapability}
    (h9 : countLeadingOnes cap ≠ 9) (h11 : countLeadingOnes cap ≠ 11) :
    Names (cap :: caps) v ↔ Names caps v := by
  refine ⟨fun hv => ?_, .other h9⟩
  cases hv with
  | page h => exact absurd h h11
  | range h => exact absurd h h9
  | other _ hv => exact hv
  | behind h => exact absurd h h9

theorem requireVersion_ok {data : PAddr → BitVec 8} {cap : KernelCapability} {q q' : NewProcess}
    (h : requireVersion data cap q = .ok q') : q'.memory = q.memory := by
  unfold requireVersion at h
  split at h
  · cases h
  · obtain ⟨minor, -, h⟩ := bind_ok h
    split at h
    · cases h
    · cases h
      split <;> rfl

/-- A capability that is one descriptor. -/
theorem applyCapabilities_single {data : PAddr → BitVec 8} {cap : KernelCapability}
    {caps : List KernelCapability} {q q' : NewProcess}
    (ih : ∀ {q q' : NewProcess} {l : List (VAddr × VirtualMemoryBlock)}, Shown q.memory l →
      applyCapabilities data caps q = .ok q' → ∃ l', AddedPages l l' q'.memory (Names caps))
    (h : Shown q.memory l) (h9 : countLeadingOnes cap ≠ 9)
    (hok : applyCapabilities data (cap :: caps) q = .ok q') :
    ∃ l', AddedPages l l' q'.memory (Names (cap :: caps)) := by
  rw [applyCapabilities.eq_def] at hok
  simp only [if_neg h9] at hok
  split at hok
  · obtain ⟨q₁, hversion, hok⟩ := bind_ok hok
    obtain ⟨l', h'⟩ := ih (by rwa [requireVersion_ok hversion]) hok
    exact ⟨l', h'.congr fun v => (names_other h9 (by omega)).symm⟩
  · split at hok
    · rename_i h11
      obtain ⟨m₁, hpage, hok⟩ := bind_ok hok
      have hsize : pageSize.toNat = 0x1000 := rfl
      have hbase : cap.vaddr.toNat + pageSize.toNat < 2 ^ 32 := by
        obtain ⟨p, hp, -⟩ := bind_ok hpage
        have := resolveStandard_lt hp
        omega
      obtain ⟨l₁, h₁⟩ := mapIoRange_ok h (vaddr_aligned cap) hbase hpage
      obtain ⟨l₂, h₂⟩ := ih (q := { q with memory := m₁ }) h₁.shown hok
      refine ⟨_, (h₁.trans h₂).congr fun v => ?_⟩
      rw [names_page h11]
      refine or_congr_left ⟨fun ⟨hle, hlt, hv⟩ => BitVec.eq_of_toNat_eq ?_, ?_⟩
      · have := vaddr_aligned cap
        rw [BitVec.le_def] at hle
        omega
      · rintro rfl
        exact ⟨BitVec.le_refl _, by omega, vaddr_aligned cap⟩
    · obtain ⟨l', h'⟩ := ih h hok
      exact ⟨l', h'.congr fun v => (names_other h9 (by assumption)).symm⟩

/-- The capabilities, by induction on the list: a range takes two of them. -/
theorem applyCapabilities_ok {data : PAddr → BitVec 8} {caps : List KernelCapability}
    {q q' : NewProcess} (h : Shown q.memory l) (hok : applyCapabilities data caps q = .ok q') :
    ∃ l', AddedPages l l' q'.memory (Names caps) := by
  induction hn : caps.length using Nat.strong_induction_on generalizing caps q q' l with
  | _ n ih =>
    cases caps with
    | nil =>
      cases hok
      exact ⟨[], .none h not_names_nil⟩
    | cons cap caps =>
      by_cases h9 : countLeadingOnes cap = 9
      · rw [applyCapabilities.eq_def] at hok
        simp only [h9, if_true] at hok
        rw [if_neg (by decide)] at hok
        cases caps with
        | nil => cases hok
        | cons next caps =>
          simp only at hok
          split at hok
          · cases hok
          · split at hok
            · cases hok
            rename_i hlt
            obtain ⟨m₁, hrange, hok⟩ := bind_ok hok
            have hsize : cap.vaddr.toNat + (next.vaddr - cap.vaddr).toNat = next.vaddr.toNat := by
              bv_omega
            obtain ⟨l₁, h₁⟩ := mapIoRange_ok h (vaddr_aligned cap)
              (hsize ▸ next.vaddr.isLt) hrange
            obtain ⟨l₂, h₂⟩ := ih caps.length (by rw [← hn]; simp)
              (q := { q with memory := m₁ }) h₁.shown hok rfl
            refine ⟨_, (h₁.trans h₂).congr fun v => ?_⟩
            rw [names_range h9, hsize]
            rfl
      · refine applyCapabilities_single (fun h hok => ?_) h h9 hok
        exact ih caps.length (by rw [← hn]; exact Nat.lt_succ_self _) h hok rfl

end

/-! ## The memory of the program -/

/-- The physical memory of some blocks. -/
def BlocksBack (l : List (VAddr × VirtualMemoryBlock)) (x : Nat) : Prop :=
  ∃ e ∈ l, e.2.physStart.toNat ≤ x ∧ x < e.2.physStart.toNat + e.2.size.toNat

/-- The blocks have no physical memory in common. -/
def PhysApart (e e' : VAddr × VirtualMemoryBlock) : Prop :=
  ∀ x, ¬ (BlocksBack [e] x ∧ BlocksBack [e'] x)

section

variable {Owner : Type} [DecidableEq Owner] {alive : Owner → Bool} {own : Nat → Option Owner}
  {codeset process : Owner} {region : Nat} {l es : List (VAddr × VirtualMemoryBlock)}
  {e : VAddr × VirtualMemoryBlock} {m m' : VirtualMemory} {regions regions' : Regions Owner}

theorem blocksBack_singleton {x : Nat} : BlocksBack [e] x ↔
    e.2.physStart.toNat ≤ x ∧ x < e.2.physStart.toNat + e.2.size.toNat := by
  simp only [BlocksBack, List.mem_singleton, exists_eq_left]

theorem blocksBack_cons {x : Nat} : BlocksBack (e :: es) x ↔ BlocksBack [e] x ∨ BlocksBack es x := by
  simp only [BlocksBack, List.mem_cons, exists_eq_left, or_and_right, exists_or,
    List.not_mem_nil, or_false]

theorem blocksBack_append {x : Nat} :
    BlocksBack (l ++ es) x ↔ BlocksBack l x ∨ BlocksBack es x := by
  simp only [BlocksBack, List.mem_append, or_and_right, exists_or]

theorem mapBlocks_shown (h : Shown m l)
    (hok : mapBlocks alive codeset process region es (m, regions) = .ok (m', regions')) :
    Shown m' (l ++ es) := by
  induction es generalizing m l regions with
  | nil =>
    cases hok
    rwa [List.append_nil]
  | cons e es ih =>
    obtain ⟨⟨m₁, regions₁⟩, hblock, hok⟩ := bind_ok hok
    obtain ⟨m₂, hmap, hblock⟩ := bind_ok hblock
    obtain ⟨regions₂, -, heq⟩ := bind_ok hblock
    cases heq
    have := ih (h.map hmap) hok
    rwa [List.append_assoc] at this

/-- The memory of the blocks goes to the process, so no two blocks have any in common. -/
theorem mapBlocks_takenOver (hne : codeset ≠ process) (hprocess : alive process)
    (hphys : ∀ e ∈ es, e.2.physStart.toNat + e.2.size.toNat < 2 ^ 32) (hown : Owned regions own)
    (hlive : ∀ x o, own x = some o → alive o)
    (hok : mapBlocks alive codeset process region es (m, regions) = .ok (m', regions')) :
    (∃ own', Owned regions' own' ∧ TakenOver own own' codeset process (BlocksBack es)) ∧
      es.Pairwise PhysApart := by
  induction es generalizing m regions own with
  | nil =>
    cases hok
    refine ⟨⟨own, hown, .none fun x hx => ?_⟩, .nil⟩
    obtain ⟨e, he, -⟩ := hx
    exact absurd he List.not_mem_nil
  | cons e es ih =>
    obtain ⟨⟨m₁, regions₁⟩, hblock, hok⟩ := bind_ok hok
    obtain ⟨m₂, hmap, hblock⟩ := bind_ok hblock
    obtain ⟨regions₂, htransfer, heq⟩ := bind_ok hblock
    cases heq
    obtain ⟨hformer, hown₁⟩ := hown.transferIn hlive hprocess (mapIgnored_ok hmap).1
      (hphys e (List.mem_cons_self ..)) htransfer
    have htaken : TakenOver own _ codeset process (BlocksBack [e]) :=
      .of_assign (fun x => blocksBack_singleton) hformer
    obtain ⟨⟨own₂, hown₂, htaken₂⟩, hapart⟩ := ih (fun x hx => hphys x (List.mem_cons_of_mem _ hx))
      hown₁ (htaken.live hlive hprocess) hok
    obtain ⟨hno, hboth⟩ := htaken.trans htaken₂ hne
    refine ⟨⟨own₂, hown₂, hboth.congr fun x => blocksBack_cons.symm⟩,
      List.pairwise_cons.2 ⟨fun e' he' x hx => hno x hx.1 ?_, hapart⟩⟩
    exact ⟨e', he', blocksBack_singleton.1 hx.2⟩

end

/-- **What the call is for**: the mappings are the program, the pages of the kernel and the pages
the capabilities name, each where the standard mapping has it; and no physical memory is in the
program twice, so that what it executes is nowhere mapped for writing. -/
structure Created (cs : CodeSet) (caps : List KernelCapability)
    (configurationMemory sharedMemoryPage : PAddr) (p : NewProcess) : Prop where
  sub : ∀ e ∈ p.memory, e ∈ cs.blocks ∨ e ∈ kernelBlocks configurationMemory sharedMemoryPage ∨
    ∃ v, Names caps v ∧ IoPage v e
  exact : LaidOut (cs.blocks ++ kernelBlocks configurationMemory sharedMemoryPage) →
    Disjoint p.memory ∧ ∀ e, e ∈ p.memory ↔ e ∈ cs.blocks ∨
      e ∈ kernelBlocks configurationMemory sharedMemoryPage ∨ ∃ v, Names caps v ∧ IoPage v e
  standard : ∀ v, Names caps v → ∃ paddr, resolveStandardVirtualAddress v = .ok paddr
  physApart : cs.blocks.Pairwise PhysApart

theorem createProcess_created {Owner : Type} [DecidableEq Owner] {alive : Owner → Bool}
    {own : Nat → Option Owner} {codeset process : Owner} {cs : CodeSet}
    {caps : List KernelCapability} {configurationMemory sharedMemoryPage : PAddr}
    {data : PAddr → BitVec 8} {regions regions' : Regions Owner} {p : NewProcess}
    (hne : codeset ≠ process) (hprocess : alive process)
    (hphys : ∀ e ∈ cs.blocks, e.2.physStart.toNat + e.2.size.toNat < 2 ^ 32)
    (hown : Owned regions own) (hlive : ∀ x o, own x = some o → alive o)
    (h : createProcess alive codeset process cs caps configurationMemory sharedMemoryPage data
      regions = .ok (p, regions')) :
    Created cs caps configurationMemory sharedMemoryPage p ∧
    ∃ own', Owned regions' own' ∧ TakenOver own own' codeset process (BlocksBack cs.blocks) := by
  obtain ⟨region, -, h⟩ := bind_ok h
  obtain ⟨⟨m₁, regions₁⟩, hblocks, h⟩ := bind_ok h
  obtain ⟨m₂, hkernel, h⟩ := bind_ok h
  obtain ⟨p', hcaps, h⟩ := bind_ok h
  cases h
  have hshown := (mapBlocks_shown .empty hblocks).foldlM hkernel
  rw [List.nil_append] at hshown
  obtain ⟨io, hio⟩ := applyCapabilities_ok (q := { memory := m₂ }) hshown hcaps
  obtain ⟨htaken, hapart⟩ := mapBlocks_takenOver hne hprocess hphys hown hlive hblocks
  have hmem : ∀ e, e ∈ cs.blocks ++ kernelBlocks configurationMemory sharedMemoryPage ++ io ↔
      e ∈ cs.blocks ∨ e ∈ kernelBlocks configurationMemory sharedMemoryPage ∨
        ∃ v, Names caps v ∧ IoPage v e := fun e => by
    rw [List.mem_append, List.mem_append, hio.mem, or_assoc]
  refine ⟨⟨fun e he => (hmem e).1 (hio.shown.sub e he), fun hl => ?_, hio.standard, hapart⟩, htaken⟩
  have hall := hio.laidOut hl
  exact ⟨hio.shown.disjoint hall,
    fun e => ⟨fun he => (hmem e).1 (hio.shown.sub e he),
      fun he => hio.shown.all hall e ((hmem e).2 he)⟩⟩

section

/-- A code set over the five pages; its text is in two chunks. -/
def smallCodeSet : CodeSet where
  appName := "a"
  textPhys := [⟨0x20000000, 1⟩, ⟨0x20003000, 1⟩]
  textVaddr := 0x100000
  roPhys := [⟨0x20001000, 1⟩]
  roVaddr := 0x102000
  dataPhys := [⟨0x20002000, 1⟩]
  dataVaddr := 0x103000
  bssPaddr := 0x20004000
  bssSize := 1

/-- The application's region, kernel version 2.5, one page of registers, and three pages more. -/
def smallCaps : List KernelCapability := [0xff000100, 0xfc000205, 0xffe1ec10, 0xff81ec40, 0xff81ec43]

end

/-! ## From the loader to the program -/

/-- Blocks between two addresses. -/
def Between (a b : Nat) (l : List (VAddr × VirtualMemoryBlock)) : Prop :=
  ∀ e ∈ l, a ≤ e.1.toNat ∧ e.1.toNat + e.2.size.toNat ≤ b

section

variable {m : VirtualMemory} {permissions : MemoryPermissions} {vaddr start : VAddr} {n : Nat}
  {chunks : List Chunk} {e : VAddr × VirtualMemoryBlock}

theorem toNat_ofNat_add (vaddr : VAddr) (i : Nat) (h : vaddr.toNat + i < 2 ^ 32) :
    (vaddr + BitVec.ofNat 32 i).toNat = vaddr.toNat + i := by
  bv_omega

/-- The address behind a chunk. -/
theorem toNat_add_pages {k : BitVec 32} (h : vaddr.toNat + k.toNat * 0x1000 < 2 ^ 32) :
    (vaddr + k * pageSize).toNat = vaddr.toNat + k.toNat * 0x1000 := by
  have := toNat_pages k (by omega)
  bv_omega

theorem toNat_sectionEnd (hfit : vaddr.toNat + chunkBytes chunks < 2 ^ 32) :
    (sectionEnd vaddr chunks).toNat = vaddr.toNat + chunkBytes chunks := by
  induction chunks generalizing vaddr with
  | nil => rfl
  | cons c cs ih =>
    rw [chunkBytes] at hfit ⊢
    have hhead : vaddr.toNat + c.numPages.toNat * 0x1000 < 2 ^ 32 :=
      Nat.lt_of_le_of_lt (Nat.add_le_add_left (Nat.le_add_right ..) _) hfit
    have hnext := toNat_add_pages hhead
    rw [sectionEnd, ih (by omega), hnext, Nat.add_assoc]

variable (permissions) in
/-- The blocks of a section lie in it, one after the other, over the memory of its chunks. -/
theorem sectionBlocks_laidOut (hpos : ∀ c ∈ chunks, 0 < c.numPages.toNat)
    (hphys : ∀ c ∈ chunks, c.physStart.toNat + c.numPages.toNat * 0x1000 < 2 ^ 32)
    (hfit : vaddr.toNat + chunkBytes chunks < 2 ^ 32) :
    LaidOut (sectionBlocks permissions vaddr chunks) ∧
    Between vaddr.toNat (vaddr.toNat + chunkBytes chunks) (sectionBlocks permissions vaddr chunks) ∧
    ∀ e ∈ sectionBlocks permissions vaddr chunks,
      e.2.physStart.toNat + e.2.size.toNat < 2 ^ 32 := by
  induction chunks generalizing vaddr with
  | nil => exact ⟨⟨nofun, nofun, .nil⟩, nofun, nofun⟩
  | cons c cs ih =>
    rw [chunkBytes] at hfit ⊢
    have hhead : vaddr.toNat + c.numPages.toNat * 0x1000 < 2 ^ 32 :=
      Nat.lt_of_le_of_lt (Nat.add_le_add_left (Nat.le_add_right ..) _) hfit
    have hnext := toNat_add_pages hhead
    have hsize := toNat_pages c.numPages (by omega)
    have hc := hpos c (List.mem_cons_self ..)
    have hp := hphys c (List.mem_cons_self ..)
    obtain ⟨hl, hin, hrest⟩ := ih (fun x hx => hpos x (List.mem_cons_of_mem _ hx))
      (fun x hx => hphys x (List.mem_cons_of_mem _ hx))
      (show (vaddr + c.numPages * pageSize).toNat + chunkBytes cs < 2 ^ 32 by omega)
    refine ⟨⟨List.forall_mem_cons.2 ⟨?_, hl.nonempty⟩, List.forall_mem_cons.2 ⟨?_, hl.below_top⟩,
      List.pairwise_cons.2 ⟨fun e he => .inl ?_, hl.apart⟩⟩, List.forall_mem_cons.2 ⟨?_, ?_⟩,
      List.forall_mem_cons.2 ⟨?_, hrest⟩⟩
    · simp only [hsize]
      omega
    · simp only [hsize]
      omega
    · have := (hin e he).1
      simp only [hsize]
      omega
    · simp only [hsize]
      omega
    · intro e he
      have := hin e he
      omega
    · simp only [hsize]
      omega

variable (permissions) in
theorem Gathers.sectionBlocks (h : Gathers m start n chunks) (hfit : vaddr.toNat + n < 2 ^ 32) :
    LaidOut (sectionBlocks permissions vaddr chunks) ∧
    Between vaddr.toNat (vaddr.toNat + n) (sectionBlocks permissions vaddr chunks) ∧
    ∀ e ∈ Mikage.sectionBlocks permissions vaddr chunks,
      e.2.physStart.toNat + e.2.size.toNat < 2 ^ 32 := by
  have := sectionBlocks_laidOut permissions h.nonempty h.below_top
    (show vaddr.toNat + chunkBytes chunks < 2 ^ 32 from h.bytes ▸ hfit)
  rwa [h.bytes] at this

variable (permissions) in
/-- An address of a section is in one of its blocks, which puts it where its chunk is. -/
theorem exists_sectionBlock (hfit : vaddr.toNat + chunkBytes chunks < 2 ^ 32) {i : Nat}
    (hi : i < chunkBytes chunks) : ∃ e ∈ sectionBlocks permissions vaddr chunks,
      Contains e (vaddr + BitVec.ofNat 32 i) ∧ ∃ p, physAt chunks i = some p ∧
        target e (vaddr + BitVec.ofNat 32 i) = (p, permissions) := by
  induction chunks generalizing vaddr i with
  | nil => exact absurd hi (Nat.not_lt_zero i)
  | cons c cs ih =>
    rw [chunkBytes] at hfit hi
    have hhead : vaddr.toNat + c.numPages.toNat * 0x1000 < 2 ^ 32 :=
      Nat.lt_of_le_of_lt (Nat.add_le_add_left (Nat.le_add_right ..) _) hfit
    have hnext := toNat_add_pages hhead
    have hsize := toNat_pages c.numPages (by omega)
    have hat := toNat_ofNat_add vaddr i (by omega)
    rw [physAt]
    by_cases hlt : i < c.numPages.toNat * 0x1000
    · refine ⟨_, List.mem_cons_self .., ⟨?_, ?_⟩, _, if_pos hlt, ?_⟩
      · simp only [hat]
        omega
      · simp only [hat, hsize]
        omega
      · rw [target]
        congr 2
        bv_omega
    · obtain ⟨e, he, hc, p, hp, ht⟩ := ih
        (show (vaddr + c.numPages * pageSize).toNat + chunkBytes cs < 2 ^ 32 by omega)
        (show i - c.numPages.toNat * 0x1000 < chunkBytes cs by omega)
      rw [add_ofNat, hsize, Nat.add_sub_cancel' (not_lt.1 hlt)] at hc ht
      exact ⟨e, List.mem_cons_of_mem _ he, hc, p, (if_neg hlt).trans hp, ht⟩

theorem LaidOut.append {l l' : List (VAddr × VirtualMemoryBlock)} (h : LaidOut l)
    (h' : LaidOut l') (hapart : ∀ e ∈ l, ∀ e' ∈ l', Apart e e') : LaidOut (l ++ l') where
  nonempty := List.forall_mem_append.2 ⟨h.nonempty, h'.nonempty⟩
  below_top := List.forall_mem_append.2 ⟨h.below_top, h'.below_top⟩
  apart := List.pairwise_append.2 ⟨h.apart, h'.apart, hapart⟩

/-- The memory of a section is that of its blocks. -/
theorem Gathers.blocksBack (h : Gathers m start n chunks) (hfit : vaddr.toNat + n < 2 ^ 32) {x : Nat}
    (hx : Backs m start n x) : BlocksBack (Mikage.sectionBlocks permissions vaddr chunks) x := by
  obtain ⟨i, hi, p, hp, rfl⟩ := hx
  obtain ⟨q, hq, hres⟩ := h.phys i hi
  rw [hp] at hres
  cases hres
  obtain ⟨-, -, hphys⟩ := h.sectionBlocks permissions hfit
  rw [← h.bytes] at hfit hi
  obtain ⟨e, he, ⟨h1, h2⟩, q, hq', ht⟩ := exists_sectionBlock permissions hfit hi
  rw [hq] at hq'
  cases hq'
  have hpe := hphys e he
  rw [target, Prod.mk.injEq] at ht
  refine ⟨e, he, ?_⟩
  rw [← ht.1]
  constructor <;> bv_omega

/-- The section is mapped in the process over the memory that it had at its loader. -/
theorem section_kept {m' : VirtualMemory} (hm' : Disjoint m') (hg : Gathers m start n chunks)
    (hfit : vaddr.toNat + n < 2 ^ 32)
    (hmem : ∀ e ∈ sectionBlocks permissions vaddr chunks, e ∈ m') {i : Nat} (hi : i < n) :
    ∃ p, resolveVirtualAddr m (start + BitVec.ofNat 32 i) = some p ∧
      resolve m' (vaddr + BitVec.ofNat 32 i) = some (p, permissions) := by
  obtain ⟨p, hp, hres⟩ := hg.phys i hi
  rw [← hg.bytes] at hfit hi
  obtain ⟨e, he, hc, q, hq, ht⟩ := exists_sectionBlock permissions hfit hi
  rw [hp] at hq
  cases hq
  exact ⟨p, hres, ht ▸ resolve_mapped hm' (hmem e he) hc⟩

end

/-- The sections of a program, with bss behind its data, lie apart and below the pages of the
kernel. -/
structure ProgramFits (info : CodeSetInfo) : Prop where
  text : info.textStart.toNat + info.textPages.toNat * 0x1000 ≤ 0x1ff80000
  ro : info.roStart.toNat + info.roPages.toNat * 0x1000 ≤ 0x1ff80000
  data : info.dataStart.toNat + info.dataSize.toNat * 0x1000 ≤ 0x1ff80000
  text_ro : info.textStart.toNat + info.textPages.toNat * 0x1000 ≤ info.roStart.toNat ∨
    info.roStart.toNat + info.roPages.toNat * 0x1000 ≤ info.textStart.toNat
  text_data : info.textStart.toNat + info.textPages.toNat * 0x1000 ≤ info.dataStart.toNat ∨
    info.dataStart.toNat + info.dataSize.toNat * 0x1000 ≤ info.textStart.toNat
  ro_data : info.roStart.toNat + info.roPages.toNat * 0x1000 ≤ info.dataStart.toNat ∨
    info.dataStart.toNat + info.dataSize.toNat * 0x1000 ≤ info.roStart.toNat

theorem Between.apart {l l' : List (VAddr × VirtualMemoryBlock)} {a b c d : Nat}
    (h : Between a b l) (h' : Between c d l') (hsep : b ≤ c ∨ d ≤ a) :
    ∀ e ∈ l, ∀ e' ∈ l', Apart e e' := by
  intro e he e' he'
  have := h e he
  have := h' e' he'
  unfold Apart
  omega

theorem apart_append {l l₁ l₂ : List (VAddr × VirtualMemoryBlock)}
    (h₁ : ∀ e ∈ l, ∀ e' ∈ l₁, Apart e e') (h₂ : ∀ e ∈ l, ∀ e' ∈ l₂, Apart e e') :
    ∀ e ∈ l, ∀ e' ∈ l₁ ++ l₂, Apart e e' := fun e he =>
  List.forall_mem_append.2 ⟨h₁ e he, h₂ e he⟩

section

variable {Owner : Type} {source codeset process : Owner} {info : CodeSetInfo}
  {textAddr roAddr dataAddr : VAddr} {s s' : ImageState Owner} {own own' : Nat → Option Owner}
  {cs : CodeSet} {configurationMemory sharedMemoryPage : PAddr}

theorem kernelBlocks_laidOut (configurationMemory sharedMemoryPage : PAddr) :
    LaidOut (kernelBlocks configurationMemory sharedMemoryPage) ∧
      Between 0x1ff80000 0x1ff82000 (kernelBlocks configurationMemory sharedMemoryPage) := by
  refine ⟨⟨?_, ?_, ?_⟩, ?_⟩
  · simp [kernelBlocks, pageSize]
  · simp [kernelBlocks, pageSize]
  · simp [kernelBlocks, pageSize, Apart]
  · simp [Between, kernelBlocks, pageSize]

/-- The address of bss, behind the data. -/
theorem Moved.toNat_bss (h : Moved source codeset info textAddr roAddr dataAddr s own cs s' own')
    (hfits : ProgramFits info) :
    (sectionEnd cs.dataVaddr cs.dataPhys).toNat =
        info.dataStart.toNat + info.dataPages.toNat * 0x1000 ∧
      info.dataPages.toNat + cs.bssSize.toNat = info.dataSize.toNat ∧
      (cs.bssSize * pageSize).toNat = cs.bssSize.toNat * 0x1000 := by
  obtain ⟨hle, hbss⟩ := h.bssSize
  have hdata := hfits.data
  have hsum : info.dataPages.toNat + cs.bssSize.toNat = info.dataSize.toNat := by
    rw [hbss]
    bv_omega
  refine ⟨?_, hsum, toNat_pages _ (by omega)⟩
  rw [toNat_sectionEnd, h.starts.2.2, h.data.bytes]
  rw [h.starts.2.2, h.data.bytes]
  omega

theorem Moved.bssBlocks_laidOut
    (h : Moved source codeset info textAddr roAddr dataAddr s own cs s' own')
    (hfits : ProgramFits info) :
    LaidOut cs.bssBlocks ∧
      Between (info.dataStart.toNat + info.dataPages.toNat * 0x1000)
        (info.dataStart.toNat + info.dataSize.toNat * 0x1000) cs.bssBlocks ∧
      ∀ e ∈ cs.bssBlocks, e.2.physStart.toNat + e.2.size.toNat < 2 ^ 32 := by
  obtain ⟨hstart, hsum, hsize⟩ := h.toNat_bss hfits
  have hdata := hfits.data
  have hpaddr := h.bss_below_top
  unfold CodeSet.bssBlocks
  split
  · rename_i hne
    have hpos := toNat_ne_zero (n := cs.bssSize) fun h0 => hne (h.bss_eq_zero_iff.2 h0)
    refine ⟨⟨List.forall_mem_singleton.2 ?_, List.forall_mem_singleton.2 ?_,
      List.pairwise_singleton _ _⟩, List.forall_mem_singleton.2 ⟨?_, ?_⟩,
      List.forall_mem_singleton.2 ?_⟩
    · simp only [hsize]
      omega
    · simp only [hstart, hsize]
      omega
    · simp only [hstart]
      exact Nat.le_refl _
    · simp only [hstart, hsize]
      omega
    · simp only [hsize]
      exact hpaddr
  · exact ⟨⟨nofun, nofun, .nil⟩, nofun, nofun⟩

/-- The blocks of a code set lie apart where the sections of its program do. -/
theorem Moved.blocks_laidOut
    (h : Moved source codeset info textAddr roAddr dataAddr s own cs s' own')
    (hfits : ProgramFits info) :
    LaidOut (cs.blocks ++ kernelBlocks configurationMemory sharedMemoryPage) ∧
      ∀ e ∈ cs.blocks, e.2.physStart.toNat + e.2.size.toNat < 2 ^ 32 := by
  obtain ⟨htext, hro, hdata⟩ := h.starts
  have ftext := hfits.text
  have fro := hfits.ro
  have fdata := hfits.data
  have hsep := hfits.text_ro
  have hsep' := hfits.text_data
  have hsep'' := hfits.ro_data
  have hle : info.dataPages.toNat * 0x1000 ≤ info.dataSize.toNat * 0x1000 :=
    Nat.mul_le_mul_right _ h.bssSize.1
  obtain ⟨ltext, btext, ptext⟩ := h.text.sectionBlocks .readExec
    (show info.textStart.toNat + info.textPages.toNat * 0x1000 < 2 ^ 32 by omega)
  obtain ⟨lro, bro, pro⟩ := h.ro.sectionBlocks .read
    (show info.roStart.toNat + info.roPages.toNat * 0x1000 < 2 ^ 32 by omega)
  obtain ⟨ldata, bdata, pdata⟩ := h.data.sectionBlocks .readWrite
    (show info.dataStart.toNat + info.dataPages.toNat * 0x1000 < 2 ^ 32 by omega)
  obtain ⟨lbss, bbss, pbss⟩ := h.bssBlocks_laidOut hfits
  obtain ⟨lkernel, bkernel⟩ := kernelBlocks_laidOut configurationMemory sharedMemoryPage
  have hbehind {a : Nat} (ha : a ≤ info.dataStart.toNat) :
      a ≤ info.dataStart.toNat + info.dataPages.toNat * 0x1000 :=
    Nat.le_trans ha (Nat.le_add_right ..)
  have hbefore {a : Nat} : info.dataStart.toNat + info.dataSize.toNat * 0x1000 ≤ a →
      info.dataStart.toNat + info.dataPages.toNat * 0x1000 ≤ a :=
    Nat.le_trans (Nat.add_le_add_left hle _)
  rw [CodeSet.blocks, htext, hro, hdata]
  constructor
  · simp only [List.append_assoc]
    refine ltext.append (lro.append (ldata.append (lbss.append lkernel ?_) ?_) ?_) ?_
    · exact bbss.apart bkernel (.inl fdata)
    · exact apart_append (bdata.apart bbss (.inl (Nat.le_refl _)))
        (bdata.apart bkernel (by omega))
    · exact apart_append (bro.apart bdata (hsep''.imp_right hbefore)) (apart_append
        (bro.apart bbss (hsep''.imp_left hbehind)) (bro.apart bkernel (.inl fro)))
    · exact apart_append (btext.apart bro hsep) (apart_append
        (btext.apart bdata (hsep'.imp_right hbefore)) (apart_append
          (btext.apart bbss (hsep'.imp_left hbehind)) (btext.apart bkernel (.inl ftext))))
  · exact List.forall_mem_append.2 ⟨ptext, List.forall_mem_append.2 ⟨pro,
      List.forall_mem_append.2 ⟨pdata, pbss⟩⟩⟩

end

/-- What a program has at its start. -/
structure Launched (info : CodeSetInfo) (textAddr roAddr dataAddr : VAddr) {Owner : Type}
    (s s' : ImageState Owner) (p : NewProcess) : Prop where
  text : ∀ i < info.textPages.toNat * 0x1000, ∃ paddr,
    resolveVirtualAddr s.memory (textAddr + BitVec.ofNat 32 i) = some paddr ∧
    resolve p.memory (info.textStart + BitVec.ofNat 32 i) = some (paddr, .readExec) ∧
    s'.data paddr = s.data paddr
  ro : ∀ i < info.roPages.toNat * 0x1000, ∃ paddr,
    resolveVirtualAddr s.memory (roAddr + BitVec.ofNat 32 i) = some paddr ∧
    resolve p.memory (info.roStart + BitVec.ofNat 32 i) = some (paddr, .read) ∧
    s'.data paddr = s.data paddr
  data : ∀ i < info.dataPages.toNat * 0x1000, ∃ paddr,
    resolveVirtualAddr s.memory (dataAddr + BitVec.ofNat 32 i) = some paddr ∧
    resolve p.memory (info.dataStart + BitVec.ofNat 32 i) = some (paddr, .readWrite) ∧
    s'.data paddr = s.data paddr
  bss : ∀ i, info.dataPages.toNat * 0x1000 ≤ i → i < info.dataSize.toNat * 0x1000 → ∃ paddr,
    resolve p.memory (info.dataStart + BitVec.ofNat 32 i) = some (paddr, .readWrite) ∧
    s'.data paddr = 0

section

variable {Owner : Type} {source codeset : Owner} {info : CodeSetInfo}
  {textAddr roAddr dataAddr : VAddr} {s s' : ImageState Owner} {own own' : Nat → Option Owner}
  {cs : CodeSet} {m : VirtualMemory}

theorem Moved.live {alive : Owner → Bool}
    (h : Moved source codeset info textAddr roAddr dataAddr s own cs s' own')
    (hlive : ∀ x o, own x = some o → alive o) (hcodeset : alive codeset) :
    ∀ x o, own' x = some o → alive o := by
  intro x o hx
  by_cases hin : BacksImage s.memory info textAddr roAddr dataAddr x ∨ cs.InBss x
  · rw [h.owner x hin, Option.some_inj] at hx
    exact hx ▸ hcodeset
  · rw [not_or] at hin
    exact hlive x o (h.rest x hin.1 hin.2 ▸ hx)

/-- A byte that a section had is not one of bss. -/
theorem Moved.bytes_of_backs
    (h : Moved source codeset info textAddr roAddr dataAddr s own cs s' own') {paddr : PAddr}
    (hb : BacksImage s.memory info textAddr roAddr dataAddr paddr.toNat) :
    s'.data paddr = s.data paddr := by
  rw [h.bytes, if_neg]
  intro hbss
  have := h.unused _ hbss
  rw [h.former _ hb] at this
  cases this

theorem Moved.bss_zero (h : Moved source codeset info textAddr roAddr dataAddr s own cs s' own')
    (hfits : ProgramFits info) (hm : Disjoint m) (hmem : ∀ e ∈ cs.bssBlocks, e ∈ m) {i : Nat}
    (h1 : info.dataPages.toNat * 0x1000 ≤ i) (h2 : i < info.dataSize.toNat * 0x1000) :
    ∃ paddr, resolve m (info.dataStart + BitVec.ofNat 32 i) = some (paddr, .readWrite) ∧
      s'.data paddr = 0 := by
  obtain ⟨hstart, hsum, hsize⟩ := h.toNat_bss hfits
  have hdata := hfits.data
  have hsum' : info.dataPages.toNat * 0x1000 + cs.bssSize.toNat * 0x1000 =
      info.dataSize.toNat * 0x1000 := by
    rw [← Nat.add_mul, hsum]
  have hne : cs.bssPaddr ≠ 0 := fun h0 => by
    have h0 := congrArg BitVec.toNat (h.bss_eq_zero_iff.1 h0)
    simp only [BitVec.ofNat_eq_ofNat, BitVec.toNat_ofNat, Nat.zero_mod] at h0
    omega
  rw [CodeSet.bssBlocks, if_pos hne] at hmem
  have he := List.forall_mem_singleton.1 hmem
  have hat := toNat_ofNat_add info.dataStart i (by omega)
  have hc : Contains (sectionEnd cs.dataVaddr cs.dataPhys,
      ⟨cs.bssPaddr, cs.bssSize * pageSize, .readWrite⟩) (info.dataStart + BitVec.ofNat 32 i) := by
    constructor
    · simp only [hstart, hat]
      exact Nat.add_le_add_left h1 _
    · simp only [hstart, hat, hsize]
      rw [Nat.add_assoc, hsum']
      exact Nat.add_lt_add_left h2 _
  refine ⟨_, resolve_mapped hm he hc, ?_⟩
  have htop := h.bss_below_top
  rw [h.bytes, if_pos]
  constructor
  · bv_omega
  · bv_omega

end

section

end

end Mikage
