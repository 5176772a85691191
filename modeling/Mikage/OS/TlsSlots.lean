import Mikage.Memory.Allocation
import Mikage.Memory.FirstFit

/-!
# Slots of thread-local storage

`TLSManager` of a process, with the memory map and the physical memory it takes its pages from. A
slot is the address a live `TLSSlot` object holds: moving the object moves the address, and the
object that holds it gives the slot back when it is destroyed.

- `getFreePage`, `release`: the two updates.
- `SlotsExact`: how slots lie in the pages that were mapped for them.
- `SpawnExact`: what a new slot is, after a call that returned one.
-/

namespace Mikage.Tls

open MemoryManager

def pageSize : BitVec 32 := 0x1000
def tlsSize : BitVec 32 := 0x200
def slotsPerPage : ℕ := 8
def firstTlsAddr : VAddr := 0x1ff82000

/-- `BaseMemorySize`, by the memory type of the settings. -/
def baseMemorySize (appMemType : ℕ) : Except Exception (BitVec 32) :=
  if appMemType = 0 then pure 0x01400000
  else if appMemType = 3 then pure 0x01400000
  else if appMemType = 7 then pure 0x02000000
  else throw (.runtimeError "Unknown APPMEMTYPE")

structure TLSManager where
  nextTlsAddr : VAddr := firstTlsAddr
  slotOccupied : List Bool := []

namespace TLSManager

def nextSlotNeedsNewPage (tls : TLSManager) : Bool := tls.slotOccupied.length % slotsPerPage = 0

def slotAddr (i : ℕ) : VAddr := firstTlsAddr + BitVec.ofNat 32 i * tlsSize

def release (tls : TLSManager) (addr : VAddr) : TLSManager :=
  { tls with
    slotOccupied := tls.slotOccupied.set ((addr - firstTlsAddr) / tlsSize).toNat false }

end TLSManager

open TLSManager

/-- A process with its threads' slots. `live` are the addresses the threads hold, `mapped` the pages
`getFreePage` has mapped, in that order. -/
structure TlsProcess (Owner : Type) where
  tls : TLSManager := {}
  memory : VirtualMemory
  base : MemoryManager Owner
  live : List VAddr := []
  mapped : List VAddr := []

variable {Owner : Type}

/-- Slot number `i` for a new thread. -/
def TlsProcess.hold (p : TlsProcess Owner) (i : ℕ) : TlsProcess Owner :=
  { p with live := slotAddr i :: p.live }

/-- A new slot at the end. -/
def TlsProcess.append (p : TlsProcess Owner) : TlsProcess Owner :=
  { p with tls := ⟨p.tls.nextTlsAddr + tlsSize, p.tls.slotOccupied ++ [true]⟩ }

/-- The destructor of a `TLSSlot`. -/
def TlsProcess.destroy (p : TlsProcess Owner) (addr : VAddr) : TlsProcess Owner :=
  { p with
    tls := if addr ≠ 0 then p.tls.release addr else p.tls
    live := p.live.erase addr }

variable [DecidableEq Owner] (alive : Owner → Bool) (owner : Owner)

/-- The page for a first slot. -/
def mapPage (p : TlsProcess Owner) : Except Exception Unit × TlsProcess Owner :=
  match p.base.allocateBlock alive owner pageSize with
  | .error e => (.error e, p)
  | .ok (tlsPaddr, base) =>
    let p := { p with base := base }
    match findAvailableVirtualMemory p.memory pageSize p.tls.nextTlsAddr
        (p.tls.nextTlsAddr + pageSize) with
    | none => (.error (.runtimeError "Failed to map TLS memory!"), p)
    | some tlsVaddr =>
      match tlsPaddr with
      | none => (.error (.nullPointer "tls_paddr_opt"), p)
      | some tlsPaddr =>
        let r := mapVirtualMemory p.memory tlsPaddr pageSize tlsVaddr .readWrite
        match r.outcome with
        | .error e => (.error e, { p with memory := r.memory })
        | .ok false =>
          (.error (.runtimeError "Failed to map TLS memory!"), { p with memory := r.memory })
        | .ok true => (.ok (), { p with memory := r.memory, mapped := p.mapped ++ [tlsVaddr] })

def getFreePage (p : TlsProcess Owner) : Except Exception VAddr × TlsProcess Owner :=
  match p.tls.slotOccupied.findIdx? (· = false) with
  | some i =>
    let p := { p with tls := { p.tls with slotOccupied := p.tls.slotOccupied.set i true } }
    (.ok (slotAddr i), p.hold i)
  | none =>
    let i := p.tls.slotOccupied.length
    if p.tls.nextSlotNeedsNewPage then
      match mapPage alive owner p with
      | (.error e, p) => (.error e, p)
      | (.ok _, p) => (.ok (slotAddr i), p.append.hold i)
    else (.ok (slotAddr i), p.append.hold i)

/-! ## What holds of the slots -/

/-- Slots are disjoint and lie in pages that were mapped once for them. -/
structure SlotsExact (p : TlsProcess Owner) : Prop where
  disjoint : p.live.Pairwise fun a b =>
    a.toNat + tlsSize.toNat ≤ b.toNat ∨ b.toNat + tlsSize.toNat ≤ a.toNat
  inside : ∀ a ∈ p.live, ∃ page ∈ p.mapped, page.toNat ≤ a.toNat ∧
    a.toNat + tlsSize.toNat ≤ page.toNat + pageSize.toNat
  mapped : ∀ page ∈ p.mapped, ∃ paddr, (page, ⟨paddr, pageSize, .readWrite⟩) ∈ p.memory
  once : p.mapped.Nodup

/-- The slots that have been appended so far. -/
def TlsProcess.slots (p : TlsProcess Owner) : List VAddr :=
  (List.range p.tls.slotOccupied.length).map slotAddr

/-- A call that returns a slot reuses one that no thread holds, or appends one while threads hold
all there are; then it maps the page of the slot if the slot is the first in it, and no other. -/
def SpawnExact (p p' : TlsProcess Owner) (a : VAddr) : Prop :=
  (a ∈ p.slots ∧ a ∉ p.live ∧ p'.slots = p.slots ∧ p'.mapped = p.mapped) ∨
  (p'.slots = p.slots ++ [a] ∧ (∀ b ∈ p.slots, b ∈ p.live) ∧
    p'.mapped = if p.slots.length % slotsPerPage = 0 then p.mapped ++ [a] else p.mapped)

/-- When a page is needed, there is room for one behind the pages so far, or the search for it ends
at its limit. -/
def PageRoom (p : TlsProcess Owner) : Prop :=
  (∀ b ∈ p.tls.slotOccupied, b = true) → p.tls.nextSlotNeedsNewPage →
    Roomy p.memory pageSize p.tls.nextTlsAddr (p.tls.nextTlsAddr + pageSize)

/-- Threads come and go. -/
inductive Step : TlsProcess Owner → TlsProcess Owner → Prop where
  | spawn {p : TlsProcess Owner} : PageRoom p → Step p (getFreePage alive owner p).2
  | destroy {p : TlsProcess Owner} {a : VAddr} : a ∈ p.live → Step p (p.destroy a)

/-- A process before its first thread: its mappings are disjoint, and the physical memory is that of
the base region, whose owners are alive. -/
structure Initial (p : TlsProcess Owner) : Prop where
  owner : alive owner
  tls : p.tls = {}
  live : p.live = []
  mapped : p.mapped = []
  memory : Disjoint p.memory
  base : ∃ own, Ledger p.base own ∧ ∀ x o, own x = some o → alive o
  size : ∃ appMemType, baseMemorySize appMemType = .ok p.base.regionSizeBytes

/-! ## Physical memory runs out in time -/

section

variable {alive : Owner → Bool} {owner : Owner} {m : MemoryManager Owner}
  {own : ℕ → Option Owner}

/-- The bytes of the region that nobody owns. -/
def unowned (m : MemoryManager Owner) (own : ℕ → Option Owner) : ℕ :=
  ((Finset.range m.regionSizeBytes.toNat).filter
    fun i => (own (m.regionStartPaddr.toNat + i)).isNone).card

omit [DecidableEq Owner] in
theorem unowned_assign {a : ℕ} {n : BitVec 32} (h : Unallocated m own a n) :
    unowned m (assign own a n.toNat (some owner)) + n.toNat ≤ unowned m own := by
  rcases Nat.eq_zero_or_pos n.toNat with hzero | hpos
  · have hsame : assign own a n.toNat (some owner) = own := by
      funext x
      unfold assign
      rw [if_neg (by omega)]
    rw [hsame, hzero, Nat.add_zero]
  have hstart : m.regionStartPaddr.toNat ≤ a := (h 0 hpos).1.1
  let before := (Finset.range m.regionSizeBytes.toNat).filter
    fun i => (own (m.regionStartPaddr.toNat + i)).isNone
  let taken := (Finset.range n.toNat).image fun i => a - m.regionStartPaddr.toNat + i
  have hcard : taken.card = n.toNat := by
    rw [Finset.card_image_of_injective _ (fun _ _ h => Nat.add_left_cancel h), Finset.card_range]
  have htaken : taken ⊆ before := by
    intro x hx
    obtain ⟨i, hi, rfl⟩ := Finset.mem_image.1 hx
    obtain ⟨⟨-, hlt⟩, hown⟩ := h i (Finset.mem_range.1 hi)
    have hx : m.regionStartPaddr.toNat + (a - m.regionStartPaddr.toNat + i) = a + i := by omega
    refine Finset.mem_filter.2 ⟨Finset.mem_range.2 (by omega), ?_⟩
    rw [hx, hown]
    rfl
  have hafter : ((Finset.range m.regionSizeBytes.toNat).filter fun i =>
      (assign own a n.toNat (some owner) (m.regionStartPaddr.toNat + i)).isNone) ⊆
        before \ taken := by
    intro x hx
    obtain ⟨hx, hnone⟩ := Finset.mem_filter.1 hx
    unfold assign at hnone
    split at hnone
    next => cases hnone
    next hout =>
      refine Finset.mem_sdiff.2 ⟨Finset.mem_filter.2 ⟨hx, hnone⟩, fun hx => hout ?_⟩
      obtain ⟨i, hi, rfl⟩ := Finset.mem_image.1 hx
      have hi := Finset.mem_range.1 hi
      omega
  calc unowned m (assign own a n.toNat (some owner)) + n.toNat
      ≤ (before \ taken).card + taken.card := by
        rw [hcard]
        exact Nat.add_le_add_right (Finset.card_le_card hafter) _
    _ = unowned m own := Finset.card_sdiff_add_card_eq_card htaken

/-- What the manager is after an attempt to take a page, and that there is a page less if it
succeeds. -/
theorem allocate_page (h : Ledger m own) (hlive : ∀ x o, own x = some o → alive o)
    (howner : alive owner) : ∃ r m' own', m.allocateBlock alive owner pageSize = .ok (r, m') ∧
      Ledger m' own' ∧ (∀ x o, own' x = some o → alive o) ∧
      m'.regionSizeBytes = m.regionSizeBytes ∧
      unowned m' own' + (if r.isSome then pageSize.toNat else 0) ≤ unowned m own := by
  have hsize : pageSize ≠ 0 := by decide
  obtain ⟨r, m', hrun, hexact⟩ : ∃ r m', m.allocateBlock alive owner pageSize = .ok (r, m') ∧
      AllocationExact m own pageSize r := h.allocation hsize
  let c : BlockCall Owner := .allocate owner pageSize
  have hstep : c.step alive m own = (m', c.assigns own r) := by
    rw [BlockCall.step, BlockCall.run, hrun]
  have hregion : (c.step alive m own).1.regionStartPaddr = m.regionStartPaddr ∧
      (c.step alive m own).1.regionSizeBytes = m.regionSizeBytes := BlockCall.step_region
  have hcall : c.Live alive own := ⟨hlive, fun o ho => List.mem_singleton.1 ho ▸ howner⟩
  have hledger := h.step (c := c) hsize hcall trivial
  rw [hstep] at hregion hledger
  refine ⟨r, m', c.assigns own r, hrun, hledger, ?_, hregion.2, ?_⟩
  · cases r with
    | none => exact hlive
    | some a => exact assign_alive hlive fun p hp => Option.some.inj hp ▸ howner
  · have hsame : unowned m' (c.assigns own r) = unowned m (c.assigns own r) := by
      unfold unowned
      rw [hregion.1, hregion.2]
    rw [hsame]
    cases r with
    | none => exact Nat.le_refl _
    | some a => exact unowned_assign (hexact.block a rfl)

end

/-! ## The run -/

section

theorem slotAddr_toNat {i : ℕ} (h : i ≤ 0x10000) :
    (slotAddr i).toNat = 0x1ff82000 + 0x200 * i := by
  have hfirst : firstTlsAddr.toNat = 0x1ff82000 := rfl
  have hsize : tlsSize.toNat = 0x200 := rfl
  rw [slotAddr, BitVec.toNat_add, BitVec.toNat_mul, BitVec.toNat_ofNat, hfirst, hsize]
  omega

theorem slotAddr_succ (i : ℕ) : slotAddr (i + 1) = slotAddr i + tlsSize := by
  unfold slotAddr
  rw [BitVec.ofNat_add, BitVec.add_mul, BitVec.add_assoc]
  rfl

/-- The pages that `count` slots take. -/
def pagesOf (count : ℕ) : ℕ := (count + 7) / 8

/-- The pages still to come are fewer than the region's: each is an allocation of its own. -/
def Backed (alive : Owner → Bool) (base : MemoryManager Owner) (pages : ℕ) : Prop :=
  ∃ own, Ledger base own ∧ (∀ x o, own x = some o → alive o) ∧
    pageSize.toNat * pages + unowned base own ≤ 0x2000000

/-- The invariant. Every appended slot is held or free, and pages have been taken for all of them
from a region that has not that many. -/
structure Inv (alive : Owner → Bool) (owner : Owner) (p : TlsProcess Owner) : Prop where
  owner : alive owner
  next : p.tls.nextTlsAddr = slotAddr p.tls.slotOccupied.length
  live : ∀ a, a ∈ p.live ↔ ∃ i, p.tls.slotOccupied[i]? = some true ∧ a = slotAddr i
  nodup : p.live.Nodup
  memory : Disjoint p.memory
  mapped : p.mapped = (List.range (pagesOf p.tls.slotOccupied.length)).map fun i => slotAddr (8 * i)
  pages : ∀ page ∈ p.mapped, ∃ paddr, (page, ⟨paddr, pageSize, .readWrite⟩) ∈ p.memory
  base : Backed alive p.base p.mapped.length

variable {alive : Owner → Bool} {owner : Owner} {p p' : TlsProcess Owner}

omit [DecidableEq Owner] in
theorem Inv.count_le (h : Inv alive owner p) : p.tls.slotOccupied.length ≤ 0x10000 := by
  obtain ⟨own, -, -, hroom⟩ := h.base
  rw [h.mapped, List.length_map, List.length_range, pagesOf] at hroom
  have hpage : pageSize.toNat = 0x1000 := rfl
  rw [hpage] at hroom
  omega

omit [DecidableEq Owner] in
theorem Inv.slot_toNat (h : Inv alive owner p) {i : ℕ} (hi : i ≤ p.tls.slotOccupied.length) :
    (slotAddr i).toNat = 0x1ff82000 + 0x200 * i :=
  slotAddr_toNat (hi.trans h.count_le)

omit [DecidableEq Owner] in
theorem Inv.exact (h : Inv alive owner p) : SlotsExact p where
  disjoint := by
    refine h.nodup.imp_of_mem ?_
    intro a b ha hb hne
    obtain ⟨i, hi, rfl⟩ := (h.live a).1 ha
    obtain ⟨j, hj, rfl⟩ := (h.live b).1 hb
    have hilt := (List.getElem?_eq_some_iff.1 hi).1
    have hjlt := (List.getElem?_eq_some_iff.1 hj).1
    have hij : i ≠ j := fun he => hne (he ▸ rfl)
    rw [h.slot_toNat hilt.le, h.slot_toNat hjlt.le, show tlsSize.toNat = 0x200 from rfl]
    omega
  inside := by
    intro a ha
    obtain ⟨i, hi, rfl⟩ := (h.live a).1 ha
    have hlt := (List.getElem?_eq_some_iff.1 hi).1
    refine ⟨slotAddr (8 * (i / 8)), ?_, ?_⟩
    · rw [h.mapped]
      refine List.mem_map_of_mem (f := fun i => slotAddr (8 * i)) (List.mem_range.2 ?_)
      unfold pagesOf
      omega
    · rw [h.slot_toNat hlt.le, h.slot_toNat (by omega), show tlsSize.toNat = 0x200 from rfl,
        show pageSize.toNat = 0x1000 from rfl]
      omega
  mapped := h.pages
  once := by
    rw [h.mapped]
    refine List.nodup_range.map_on fun i hi j hj hij => ?_
    have hi := List.mem_range.1 hi
    have hj := List.mem_range.1 hj
    have hcount := h.count_le
    unfold pagesOf at hi hj
    have htoNat := congrArg BitVec.toNat hij
    rw [slotAddr_toNat (by omega), slotAddr_toNat (by omega)] at htoNat
    omega

theorem slot_index {i : ℕ} (h : i ≤ 0x10000) :
    ((slotAddr i - firstTlsAddr) / tlsSize).toNat = i := by
  have hsize : tlsSize.toNat = 0x200 := rfl
  have hsub : slotAddr i - firstTlsAddr = BitVec.ofNat 32 i * tlsSize := by
    rw [slotAddr, BitVec.add_comm, BitVec.add_sub_cancel]
  rw [hsub, BitVec.toNat_udiv, BitVec.toNat_mul, BitVec.toNat_ofNat, hsize]
  omega

omit [DecidableEq Owner] in
theorem Inv.slot_injective (h : Inv alive owner p) {i j : ℕ}
    (hi : i ≤ p.tls.slotOccupied.length) (hj : j ≤ p.tls.slotOccupied.length)
    (hij : slotAddr i = slotAddr j) : i = j := by
  have htoNat := congrArg BitVec.toNat hij
  rw [h.slot_toNat hi, h.slot_toNat hj] at htoNat
  omega

omit [DecidableEq Owner] in
theorem Inv.destroy (h : Inv alive owner p) {a : VAddr} (ha : a ∈ p.live) :
    Inv alive owner (p.destroy a) := by
  obtain ⟨i, hi, rfl⟩ := (h.live a).1 ha
  have hlt := (List.getElem?_eq_some_iff.1 hi).1
  have hne : slotAddr i ≠ 0 := by
    intro hzero
    have htoNat := h.slot_toNat hlt.le
    rw [hzero] at htoNat
    simp at htoNat
    omega
  have hdestroy : p.destroy (slotAddr i) = { p with
      tls := { p.tls with slotOccupied := p.tls.slotOccupied.set i false }
      live := p.live.erase (slotAddr i) } := by
    rw [TlsProcess.destroy, if_pos hne, TLSManager.release,
      slot_index (hlt.le.trans h.count_le)]
  rw [hdestroy]
  refine ⟨h.owner, ?_, fun b => ?_, h.nodup.erase _, h.memory, ?_, h.pages, h.base⟩
  · simpa using h.next
  · simp only [h.nodup.mem_erase_iff, h.live b, List.getElem?_set]
    constructor
    · rintro ⟨hb, j, hj, rfl⟩
      refine ⟨j, ?_, rfl⟩
      rw [if_neg fun hij : i = j => hb (hij ▸ rfl), hj]
    · rintro ⟨j, hj, rfl⟩
      split at hj
      next => cases hj
      next hij =>
        have hjlt := (List.getElem?_eq_some_iff.1 hj).1
        exact ⟨fun he => hij (h.slot_injective hjlt.le hlt.le he).symm, j, hj, rfl⟩
  · simpa using h.mapped

omit [DecidableEq Owner] in
/-- A free slot is taken again. -/
theorem Inv.reuse (h : Inv alive owner p) {i : ℕ} (hi : p.tls.slotOccupied[i]? = some false) :
    slotAddr i ∉ p.live ∧ Inv alive owner (TlsProcess.hold
      { p with tls := { p.tls with slotOccupied := p.tls.slotOccupied.set i true } } i) := by
  have hlt := (List.getElem?_eq_some_iff.1 hi).1
  have hfree : slotAddr i ∉ p.live := by
    intro hmem
    obtain ⟨j, hj, hij⟩ := (h.live _).1 hmem
    have hjlt := (List.getElem?_eq_some_iff.1 hj).1
    rw [h.slot_injective hlt.le hjlt.le hij, hj] at hi
    cases hi
  refine ⟨hfree, h.owner, ?_, fun b => ?_, List.nodup_cons.2 ⟨hfree, h.nodup⟩, h.memory, ?_,
    h.pages, h.base⟩
  · simpa [TlsProcess.hold] using h.next
  · simp only [TlsProcess.hold, List.mem_cons, h.live b, List.getElem?_set]
    constructor
    · rintro (rfl | ⟨j, hj, rfl⟩)
      · exact ⟨i, by rw [if_pos rfl, if_pos hlt], rfl⟩
      · refine ⟨j, ?_, rfl⟩
        split
        next => rfl
        next => exact hj
    · rintro ⟨j, hj, rfl⟩
      split at hj
      next hij => exact .inl (hij ▸ rfl)
      next => exact .inr ⟨j, hj, rfl⟩
  · simpa [TlsProcess.hold] using h.mapped

omit [DecidableEq Owner] in
/-- A slot at the end is taken, where its page is mapped. -/
theorem Inv.extend (h : Inv alive owner p) {memory : VirtualMemory} {base : MemoryManager Owner}
    {mapped : List VAddr} (hmemory : Disjoint memory)
    (hmapped : mapped = (List.range (pagesOf (p.tls.slotOccupied.length + 1))).map
      fun i => slotAddr (8 * i))
    (hpages : ∀ page ∈ mapped, ∃ paddr, (page, ⟨paddr, pageSize, .readWrite⟩) ∈ memory)
    (hbase : Backed alive base mapped.length) :
    Inv alive owner (TlsProcess.hold (TlsProcess.append
      { p with memory := memory, base := base, mapped := mapped }) p.tls.slotOccupied.length) := by
  have hfree : slotAddr p.tls.slotOccupied.length ∉ p.live := by
    intro hmem
    obtain ⟨j, hj, hij⟩ := (h.live _).1 hmem
    have hjlt := (List.getElem?_eq_some_iff.1 hj).1
    exact hjlt.ne' (h.slot_injective (Nat.le_refl _) hjlt.le hij)
  refine ⟨h.owner, ?_, fun b => ?_, ?_, hmemory, ?_, hpages, hbase⟩
  · simp only [TlsProcess.hold, TlsProcess.append, List.length_append, List.length_singleton]
    rw [h.next, slotAddr_succ]
  · simp only [TlsProcess.hold, TlsProcess.append, List.mem_cons, h.live b]
    constructor
    · rintro (rfl | ⟨j, hj, rfl⟩)
      · exact ⟨p.tls.slotOccupied.length, List.getElem?_concat_length .., rfl⟩
      · refine ⟨j, ?_, rfl⟩
        rw [List.getElem?_append_left (List.getElem?_eq_some_iff.1 hj).1, hj]
    · rintro ⟨j, hj, rfl⟩
      by_cases hlt : j < p.tls.slotOccupied.length
      · rw [List.getElem?_append_left hlt] at hj
        exact .inr ⟨j, hj, rfl⟩
      · have hlast := (List.getElem?_eq_some_iff.1 hj).1
        rw [List.length_append, List.length_singleton] at hlast
        exact .inl (congrArg slotAddr (by omega))
  · simpa only [TlsProcess.hold, TlsProcess.append, List.nodup_cons] using ⟨hfree, h.nodup⟩
  · simpa [TlsProcess.hold, TlsProcess.append] using hmapped

/-- The next page of slots is mapped where the slots go on, or a call throws before it is. -/
theorem Inv.mapPage (h : Inv alive owner p) (hroom : Roomy p.memory pageSize p.tls.nextTlsAddr
    (p.tls.nextTlsAddr + pageSize)) : ∃ base,
    (Backed alive base p.mapped.length ∧
      ∃ e, Tls.mapPage alive owner p = (.error e, { p with base := base })) ∨
    Backed alive base (p.mapped.length + 1) ∧ ¬ Rejected p.memory pageSize p.tls.nextTlsAddr ∧
      ∃ paddr, Tls.mapPage alive owner p = (.ok (), { p with
        base := base
        memory := p.memory.insert p.tls.nextTlsAddr ⟨paddr, pageSize, .readWrite⟩
        mapped := p.mapped ++ [p.tls.nextTlsAddr] }) := by
  obtain ⟨own, hledger, hlive, hbacked⟩ := h.base
  obtain ⟨r, base, own', hrun, hledger', hlive', hregion, hcount⟩ :=
    allocate_page hledger hlive h.owner
  have hpage : pageSize.toNat = 0x1000 := rfl
  have hnext : p.tls.nextTlsAddr.toNat = 0x1ff82000 + 0x200 * p.tls.slotOccupied.length := by
    rw [h.next, h.slot_toNat (Nat.le_refl _)]
  have hlow := h.count_le
  have hend : (p.tls.nextTlsAddr + pageSize).toNat = p.tls.nextTlsAddr.toNat + 0x1000 := by
    rw [BitVec.toNat_add, hpage]
    omega
  have hne : pageSize ≠ 0 := by decide
  have hexact := (findExact_iff h.memory.intervals hne (by omega)).2 hroom
  have hkept : Backed alive base p.mapped.length :=
    ⟨own', hledger', hlive', by omega⟩
  refine ⟨base, ?_⟩
  unfold Tls.mapPage
  rw [hrun]
  simp only
  cases hfind : findAvailableVirtualMemory p.memory pageSize p.tls.nextTlsAddr
      (p.tls.nextTlsAddr + pageSize) with
  | none => exact .inl ⟨hkept, _, rfl⟩
  | some a =>
    cases r with
    | none => exact .inl ⟨hkept, _, rfl⟩
    | some paddr =>
      have ha := ((hexact.1 a).1 hfind).1
      have hstart := BitVec.le_def.1 ha.start
      have hlimit := ha.limit
      have haddr : a = p.tls.nextTlsAddr := BitVec.eq_of_toNat_eq (by omega)
      subst haddr
      have hfree : ¬ Rejected p.memory pageSize p.tls.nextTlsAddr :=
        ha.unmapped.not_rejected h.memory hne (by omega)
      rw [if_pos (by rfl)] at hcount
      refine .inr ⟨⟨own', hledger', hlive', by rw [Nat.mul_succ]; omega⟩, hfree, paddr, ?_⟩
      simp only
      rw [mapVirtualMemory_accepted h.memory hne hfree]

theorem pagesOf_succ (count : ℕ) : pagesOf (count + 1) =
    if count % slotsPerPage = 0 then pagesOf count + 1 else pagesOf count := by
  have hslots : slotsPerPage = 8 := rfl
  rw [hslots]
  unfold pagesOf
  split <;> omega

/-- Appending a slot in the page of the one before it, or with a page of its own. -/
theorem Inv.append (h : Inv alive owner p) (hroom : p.tls.nextSlotNeedsNewPage →
    Roomy p.memory pageSize p.tls.nextTlsAddr (p.tls.nextTlsAddr + pageSize))
    (hfull : p.tls.slotOccupied.findIdx? (· = false) = none) :
    Inv alive owner (getFreePage alive owner p).2 ∧
      ∀ a p', getFreePage alive owner p = (.ok a, p') → a = slotAddr p.tls.slotOccupied.length ∧
        p'.tls.slotOccupied = p.tls.slotOccupied ++ [true] ∧ p'.mapped =
          if p.tls.slotOccupied.length % slotsPerPage = 0 then p.mapped ++ [a] else p.mapped := by
  have hpages := pagesOf_succ p.tls.slotOccupied.length
  unfold getFreePage
  rw [hfull]
  simp only
  by_cases hnew : p.tls.nextSlotNeedsNewPage
  · have hmod : p.tls.slotOccupied.length % slotsPerPage = 0 := of_decide_eq_true hnew
    have hmod8 : p.tls.slotOccupied.length % 8 = 0 := hmod
    rw [if_pos hmod] at hpages
    rw [if_pos hnew]
    obtain ⟨base, ⟨hbase, e, hrun⟩ | ⟨hbase, hfree, paddr, hrun⟩⟩ := h.mapPage (hroom hnew)
    · rw [hrun]
      exact ⟨⟨h.owner, h.next, h.live, h.nodup, h.memory, h.mapped, h.pages, hbase⟩, nofun⟩
    · have hlow := h.count_le
      have hnext : p.tls.nextTlsAddr.toNat = 0x1ff82000 + 0x200 * p.tls.slotOccupied.length := by
        rw [h.next, h.slot_toNat (Nat.le_refl _)]
      have hfit : p.tls.nextTlsAddr.toNat + pageSize.toNat < 2 ^ 32 := by
        rw [show pageSize.toNat = 0x1000 from rfl]
        omega
      have hne : pageSize ≠ 0 := by decide
      have hmem : ∀ e, e ∈ p.memory.insert p.tls.nextTlsAddr ⟨paddr, pageSize, .readWrite⟩ ↔
          e ∈ p.memory ∨ e = (p.tls.nextTlsAddr, ⟨paddr, pageSize, .readWrite⟩) :=
        fun _ => mem_insert_of_accepted h.memory hne hfree hfit
      have hlast : 8 * pagesOf p.tls.slotOccupied.length = p.tls.slotOccupied.length := by
        unfold pagesOf
        omega
      rw [hrun]
      refine ⟨h.extend (h.memory.insert hne hfree hfit) ?_ ?_ ?_, ?_⟩
      · rw [hpages, List.range_succ, List.map_append, ← h.mapped, List.map_singleton, hlast, h.next]
      · intro page hin
        rcases List.mem_append.1 hin with hin | hin
        · obtain ⟨paddr', hold⟩ := h.pages page hin
          exact ⟨paddr', (hmem _).2 (.inl hold)⟩
        · rw [List.mem_singleton.1 hin]
          exact ⟨paddr, (hmem _).2 (.inr rfl)⟩
      · rwa [List.length_append, List.length_singleton]
      · rintro a p' ⟨⟩
        exact ⟨rfl, rfl, by rw [if_pos hmod, ← h.next]; rfl⟩
  · have hmod : ¬ p.tls.slotOccupied.length % slotsPerPage = 0 :=
      fun hmod => hnew (decide_eq_true hmod)
    rw [if_neg hmod] at hpages
    rw [if_neg hnew]
    refine ⟨h.extend h.memory (by rw [hpages, ← h.mapped]) h.pages h.base, ?_⟩
    rintro a p' ⟨⟩
    exact ⟨rfl, rfl, by simp only [if_neg hmod, TlsProcess.hold, TlsProcess.append]⟩

omit [DecidableEq Owner] in
theorem length_slots (p : TlsProcess Owner) : p.slots.length = p.tls.slotOccupied.length := by
  rw [TlsProcess.slots, List.length_map, List.length_range]

/-- One thread more. -/
theorem Inv.spawn (h : Inv alive owner p) (hroom : PageRoom p) :
    Inv alive owner (getFreePage alive owner p).2 ∧
      ∀ a p', getFreePage alive owner p = (.ok a, p') → SpawnExact p p' a := by
  cases hfind : p.tls.slotOccupied.findIdx? (· = false) with
  | some i =>
    obtain ⟨hlt, hfalse, -⟩ := List.findIdx?_eq_some_iff_getElem.1 hfind
    have hi : p.tls.slotOccupied[i]? = some false :=
      List.getElem?_eq_some_iff.2 ⟨hlt, of_decide_eq_true hfalse⟩
    obtain ⟨hfree, hinv⟩ := h.reuse hi
    unfold getFreePage
    rw [hfind]
    refine ⟨hinv, ?_⟩
    rintro a p' ⟨⟩
    refine .inl ⟨List.mem_map_of_mem (List.mem_range.2 hlt), hfree, ?_, rfl⟩
    simp only [TlsProcess.slots, TlsProcess.hold, List.length_set]
  | none =>
    have hall : ∀ b ∈ p.tls.slotOccupied, b = true := by
      intro b hb
      have hfalse := List.findIdx?_eq_none_iff.1 hfind b hb
      cases b with
      | true => rfl
      | false => cases hfalse
    obtain ⟨hinv, hexact⟩ := h.append (hroom hall) hfind
    refine ⟨hinv, fun a p' hrun => ?_⟩
    obtain ⟨rfl, hslots, hmapped⟩ := hexact a p' hrun
    refine .inr ⟨?_, fun b hb => ?_, ?_⟩
    · rw [TlsProcess.slots, hslots, List.length_append, List.length_singleton, List.range_succ,
        List.map_append]
      rfl
    · obtain ⟨i, hi, rfl⟩ := List.mem_map.1 hb
      have hlt := List.mem_range.1 hi
      exact (h.live _).2 ⟨i, List.getElem?_eq_some_iff.2 ⟨hlt, hall _ (List.getElem_mem hlt)⟩, rfl⟩
    · rw [hmapped, length_slots]

theorem baseMemorySize_le {appMemType : ℕ} {size : BitVec 32}
    (h : baseMemorySize appMemType = .ok size) : size.toNat ≤ 0x2000000 := by
  unfold baseMemorySize at h
  split at h
  · cases h
    decide
  split at h
  · cases h
    decide
  split at h
  · cases h
    decide
  · cases h

omit [DecidableEq Owner] in
theorem Initial.inv (h : Initial alive owner p) : Inv alive owner p := by
  obtain ⟨own, hledger, halive⟩ := h.base
  obtain ⟨appMemType, hsize⟩ := h.size
  have hunowned : unowned p.base own ≤ p.base.regionSizeBytes.toNat :=
    (Finset.card_filter_le _ _).trans (Finset.card_range _).le
  have hle := hunowned.trans (baseMemorySize_le hsize)
  refine ⟨h.owner, ?_, fun a => ?_, ?_, h.memory, ?_, ?_, own, hledger, halive, ?_⟩
  · rw [h.tls]
    decide
  · rw [h.live, h.tls]
    simp
  · rw [h.live]
    exact List.nodup_nil
  · rw [h.mapped, h.tls]
    rfl
  · rw [h.mapped]
    exact nofun
  · rw [h.mapped]
    simpa using hle

theorem Inv.step (h : Inv alive owner p) (hstep : Step alive owner p p') : Inv alive owner p' := by
  cases hstep with
  | spawn hroom => exact (h.spawn hroom).1
  | destroy ha => exact h.destroy ha

/-- **Slots stay exact** while threads come and go, where every page has room. -/
theorem slots_exact (p : TlsProcess Owner)
    (hrun : Run.Reachable (Initial alive owner) (Step alive owner) p) : SlotsExact p ∧
      (PageRoom p → ∀ a p', getFreePage alive owner p = (.ok a, p') → SpawnExact p p' a) := by
  have hinv : Inv alive owner p :=
    Run.Reachable.invariant (fun _ h => Initial.inv h) (fun _ _ h hstep => h.step hstep) hrun
  exact ⟨hinv.exact, fun hroom => (hinv.spawn hroom).2⟩

end

/-- A process with a given memory map, whose pages come from the smallest base region. -/
def newProcess (memory : VirtualMemory) : TlsProcess Unit :=
  { memory, base := .create 0x26c00000 0x01400000 }

theorem initial_newProcess {memory : VirtualMemory} (h : Disjoint memory) :
    Initial (fun _ => true) () (newProcess memory) where
  owner := rfl
  tls := rfl
  live := rfl
  mapped := rfl
  memory := h
  base := ⟨fun _ => none, Ledger.created (by decide) (by decide), nofun⟩
  size := ⟨0, rfl⟩

/-- The second thread's slot is behind the first's. -/
theorem slots_exact_second :
    let p := (getFreePage (fun _ => true) () (newProcess .empty)).2
    SlotsExact p ∧ (PageRoom p → ∀ a p', getFreePage (fun _ => true) () p = (.ok a, p') →
      SpawnExact p p' a) := by
  refine slots_exact _ (.next (.start (initial_newProcess .empty)) (.spawn fun _ _ => .inl ?_))
  exact ⟨firstTlsAddr, by decide, by decide, fun _ _ _ e he => absurd he SortedMap.not_mem_empty⟩

/-- One mapping from the first slot to the middle of the last page. -/
def fullMap : VirtualMemory :=
  ⟨[(0x1ff82000, ⟨0x20000000, 0xE007D800, .readWrite⟩)], List.pairwise_singleton _ _⟩

/-- Behind a mapping up to the last page, a page is "found" that wraps, and is mapped where the slot
is not. -/
theorem slot_outside : ¬ ∀ p : TlsProcess Unit, Initial (fun _ => true) () p →
    SlotsExact (getFreePage (fun _ => true) () p).2 := by
  intro h
  have hdisjoint : Disjoint fullMap := .singleton (by decide) (by decide)
  have hexact := h _ (initial_newProcess hdisjoint)
  have hlive : (getFreePage (fun _ => true) () (newProcess fullMap)).2.live = [0x1ff82000] := by
    decide
  have hmapped : (getFreePage (fun _ => true) () (newProcess fullMap)).2.mapped = [0xFFFFF800] := by
    decide
  obtain ⟨page, hpage, hle, -⟩ := hexact.inside 0x1ff82000 (by rw [hlive]; exact .head _)
  rw [hmapped] at hpage
  rw [List.mem_singleton.1 hpage] at hle
  exact absurd hle (by decide)

end Mikage.Tls
