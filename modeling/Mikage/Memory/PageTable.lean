import Mikage.Memory.Hooks

/-!
# The page table of the interpreter

`PageTable`, and the processor as a subscriber of the hooks. A pointer to host memory is modelled by
the physical address whose storage it points to, `bus.data + (address - bus.start)`.

`Insert` and `Remove` are modelled for ranges that do not go past the end of the address space; the
source says of `Remove` that it should check that.
-/

namespace Mikage

structure PageTable where
  hostMemory : BitVec 20 → Option PAddr
  physicalAddresses : BitVec 20 → PAddr
  virtualAddressesFor : BitVec 20 → List VAddr

/-- `address >> 12` -/
def pageIndex (address : BitVec 32) : BitVec 20 := address.extractLsb' 12 20

/-- `page << 12` -/
def pageStart (page : BitVec 20) : BitVec 32 := page.setWidth 32 <<< 12

/-- What marks an unmapped page. -/
def unmappedAddress : PAddr := 0xffffffff

/-- `IsMemoryBus`: the bus is not a proxy. -/
def Bus.isMemoryBus (b : Bus) : Bool := b = fcram ∨ b = vram ∨ b = axi

def lookupMemoryBackedPage (address : PAddr) : Option PAddr :=
  match Bus.find address with
  | some bus => if bus.isMemoryBus then some address else none
  | none => none

namespace PageTable

def create : PageTable := ⟨fun _ => none, fun _ => unmappedAddress, fun _ => []⟩

def insertPage (t : PageTable) (page : BitVec 20) (physicalAddress : PAddr) : PageTable where
  hostMemory := match lookupMemoryBackedPage physicalAddress with
    | some memory => Function.update t.hostMemory page (some memory)
    | none => t.hostMemory
  physicalAddresses := Function.update t.physicalAddresses page physicalAddress
  virtualAddressesFor := Function.update t.virtualAddressesFor (pageIndex physicalAddress)
    (t.virtualAddressesFor (pageIndex physicalAddress) ++ [pageStart page])

def insertPages : Nat → BitVec 20 → PAddr → PageTable → PageTable
  | 0, _, _, t => t
  | k + 1, page, physicalAddress, t =>
    insertPages k (page + 1) (physicalAddress + 0x1000) (t.insertPage page physicalAddress)

/-- `Insert`, up to the page of the last byte. -/
def insert (t : PageTable) (vstart : VAddr) (pstart : PAddr) (size : BitVec 32) : PageTable :=
  insertPages ((pageIndex (vstart + size - 1)).toNat - (pageIndex vstart).toNat + 1)
    (pageIndex vstart) pstart t

def removePage (t : PageTable) (page : BitVec 20) : PageTable :=
  { t with
    physicalAddresses := Function.update t.physicalAddresses page unmappedAddress
    virtualAddressesFor :=
      Function.update t.virtualAddressesFor (pageIndex (t.physicalAddresses page)) [] }

def removePages : Nat → BitVec 20 → PageTable → Ended PageTable
  | 0, _, t => (.ok (), t)
  | k + 1, page, t =>
    if t.physicalAddresses page = unmappedAddress then
      (.error (.runtimeError "Couldn't find virtual memory mapping for removal"), t)
    else removePages k (page + 1) (t.removePage page)

/-- `Remove`, up to the page of the first byte behind the range. -/
def remove (t : PageTable) (vstart : VAddr) (size : BitVec 32) : Ended PageTable :=
  let first := pageIndex vstart
  let last := pageIndex (vstart + size)
  (removePages (last.toNat - first.toNat) first t).andThen fun t =>
    (.ok (), { t with hostMemory := fun page =>
      if first ≤ page ∧ page < last then none else t.hostMemory page })

def lookupHostMemory (t : PageTable) (vaddr : VAddr) : Option PAddr := t.hostMemory (pageIndex vaddr)

def translateVirtualAddress (t : PageTable) (vaddr : VAddr) : Except Exception PAddr :=
  if t.physicalAddresses (pageIndex vaddr) = unmappedAddress then
    .error (.runtimeError "Virtual address is not mapped")
  else .ok (t.physicalAddresses (pageIndex vaddr) + (vaddr &&& 0xfff))

/-! ## The processor -/

/-- `OnVirtualMemoryMapped` and `OnVirtualMemoryUnmapped` -/
def onNotice (t : PageTable) : MapNotice → Ended PageTable
  | .mapped physAddr size vaddr => (.ok (), t.insert vaddr physAddr size)
  | .unmapped vaddr size => t.remove vaddr size

def onNotices : List MapNotice → PageTable → Ended PageTable
  | [], t => (.ok (), t)
  | n :: notices, t => (t.onNotice n).andThen (onNotices notices)

def setHostMemory (t : PageTable) (page : BitVec 20) (memory : Option PAddr) : PageTable :=
  { t with hostMemory := Function.update t.hostMemory page memory }

def backPages (physicalAddress : PAddr) : List VAddr → PageTable → PageTable
  | [], t => t
  | vaddr :: l, t =>
    backPages physicalAddress l (t.setHostMemory (pageIndex vaddr) (some physicalAddress))

def unbackPages : List VAddr → PageTable → Ended PageTable
  | [], t => (.ok (), t)
  | vaddr :: l, t =>
    if t.hostMemory (pageIndex vaddr) = none then
      (.error (.runtimeError "Attempted to remove page table cache entry that does not exist"), t)
    else unbackPages l (t.setHostMemory (pageIndex vaddr) none)

def subscriber : Subscribers PageTable where
  onBackedByHostMemory address t :=
    (.ok (), backPages address (t.virtualAddressesFor (pageIndex address)) t)
  onUnbackedByHostMemory address t :=
    unbackPages (t.virtualAddressesFor (pageIndex address)) t

end PageTable

end Mikage
