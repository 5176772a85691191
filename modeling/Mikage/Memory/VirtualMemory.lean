import Mikage.Framework.Exceptions
import Mikage.Lib.SortedMap

/-!
# The memory map of a process

`Process::virtual_memory` maps the start of each mapping to its block. All sums are 32 bits wide,
as in the source, so the end of a mapping at the top of the address space wraps to 0.

- `mapVirtualMemory`, `unmapVirtualMemory`: the two updates. Both return the new map together with
  the outcome, since `unmapVirtualMemory` can return `false` or throw after it has removed a part.
- `resolveVirtualAddr`: the translation of an address; `resolve` also gives the permissions of the
  block it goes through.
-/

namespace Mikage

abbrev VAddr := BitVec 32
abbrev PAddr := BitVec 32

instance : LinearOrder VAddr where
  le_refl := BitVec.le_refl
  le_trans _ _ _ := BitVec.le_trans
  le_antisymm _ _ := BitVec.le_antisymm
  le_total := BitVec.le_total
  lt_iff_le_not_ge _ _ := by bv_omega
  toDecidableLE := inferInstance
  toDecidableEq := inferInstance
  toDecidableLT := inferInstance

inductive MemoryPermissions where
  | none | read | write | readWrite | exec | readExec
  deriving DecidableEq, Repr

structure VirtualMemoryBlock where
  physStart : PAddr
  size : BitVec 32
  permissions : MemoryPermissions
  deriving DecidableEq, Repr

/-- The mappings by start address. -/
abbrev VirtualMemory := SortedMap VAddr VirtualMemoryBlock

/-- The calls of the implementation-specific hooks. -/
inductive MapNotice where
  | mapped (physAddr : PAddr) (size : BitVec 32) (vaddr : VAddr)
  | unmapped (vaddr : VAddr) (size : BitVec 32)
  deriving DecidableEq, Repr

/-- How an update of the map ends: its outcome, the map it leaves and the hooks it called. -/
structure MapResult where
  outcome : Except Exception Bool
  memory : VirtualMemory
  notices : List MapNotice

def mapVirtualMemory (m : VirtualMemory) (physAddr : PAddr) (size : BitVec 32) (vaddr : VAddr)
    (permissions : MemoryPermissions) : MapResult :=
  if size = 0 then
    ⟨.error (.runtimeError "Tried to map zero-sized memory block"), m, []⟩
  else if (m.lowerBound vaddr).any (·.1 < vaddr + size) then ⟨.ok false, m, []⟩
  else if (m.prevLowerBound vaddr).any (fun e => vaddr < e.1 + e.2.size) then ⟨.ok false, m, []⟩
  else ⟨.ok true, m.insert vaddr ⟨physAddr, size, permissions⟩, [.mapped physAddr size vaddr]⟩

/-- One call of `UnmapVirtualMemory` up to its recursive call: it ends without touching the map, or
it has cut the chunk `[vstart, vstart + size)` out of it. -/
inductive UnmapPass where
  | ended (outcome : Except Exception Bool)
  | cut (memory : VirtualMemory) (vstart : VAddr) (size : BitVec 32)

/-- The mapping `UnmapVirtualMemory` works on: the one around `vaddr`, else the next one. -/
def unmapTarget (m : VirtualMemory) (vaddr : VAddr) (size : BitVec 32) :
    Option (VAddr × VirtualMemoryBlock) :=
  match m.prevUpperBound vaddr with
  | some e => if vaddr < e.1 + e.2.size ∧ e.1 < vaddr + size then some e else m.upperBound vaddr
  | none => m.upperBound vaddr

/-- The part of a chunk below `vaddr` goes back into the map. -/
def keepFront (m : VirtualMemory) (vaddr vstart : VAddr) (chunk : VirtualMemoryBlock) :
    VirtualMemory × VAddr × VirtualMemoryBlock :=
  if vstart < vaddr then
    let delta := vaddr - vstart
    (m.insert vstart { chunk with size := delta }, vstart + delta,
      { chunk with physStart := chunk.physStart + delta, size := chunk.size - delta })
  else (m, vstart, chunk)

/-- What the chunk has beyond `size` bytes goes back into the map. -/
def keepBack (m : VirtualMemory) (vaddr : VAddr) (size : BitVec 32) (chunk : VirtualMemoryBlock) :
    VirtualMemory × VirtualMemoryBlock :=
  if size < chunk.size then
    (m.insert (vaddr + size)
      { chunk with physStart := chunk.physStart + size, size := chunk.size - size },
      { chunk with size := size })
  else (m, chunk)

def unmapPass (m : VirtualMemory) (vaddr : VAddr) (size : BitVec 32) : UnmapPass :=
  if size = 0 then .ended (.error (.runtimeError "Tried to unmap zero-sized memory block"))
  else match unmapTarget m vaddr size with
    | none => .ended (.ok false)
    | some (vstart, chunk) =>
      if vaddr + size < vstart then .ended (.ok false)
      else if vstart + chunk.size < vaddr then .ended (.ok false)
      else if ¬ vstart < vaddr + size then
        .ended (.error (.contractViolated "unmapped_chunk_vstart < vaddr + size"))
      else if ¬ vaddr < vstart + chunk.size then
        .ended (.error (.contractViolated "unmapped_chunk_vstart + unmapped_chunk.size > vaddr"))
      else
        let front := keepFront (m.erase vstart) vaddr vstart chunk
        let back := keepBack front.1 vaddr size front.2.2
        .cut back.1 front.2.1 back.2.size

/-- `UnmapVirtualMemory` with a bound on the recursion depth. The bound `unmapVirtualMemory` starts
with is never reached (`unmap_induction`). -/
def unmapWithin : Nat → VirtualMemory → VAddr → BitVec 32 → MapResult
  | 0, m, _, _ => ⟨.ok false, m, []⟩
  | depth + 1, m, vaddr, size =>
    match unmapPass m vaddr size with
    | .ended outcome => ⟨outcome, m, []⟩
    | .cut m' vstart cutSize =>
      if cutSize < size then
        let r := unmapWithin depth m' (vaddr + cutSize) (size - cutSize)
        { r with notices := .unmapped vstart cutSize :: r.notices }
      else ⟨.ok true, m', [.unmapped vstart cutSize]⟩

def unmapVirtualMemory (m : VirtualMemory) (vaddr : VAddr) (size : BitVec 32) : MapResult :=
  unmapWithin (size.toNat + m.size + 1) m vaddr size

/-- The block an address is translated through. -/
def resolveBlock (m : VirtualMemory) (addr : VAddr) : Option (VAddr × VirtualMemoryBlock) :=
  (m.prevUpperBound addr).filter (fun e => ¬ e.1 + e.2.size ≤ addr)

/-- `ResolveVirtualAddr`, with the permissions of the block. -/
def resolve (m : VirtualMemory) (addr : VAddr) : Option (PAddr × MemoryPermissions) :=
  (resolveBlock m addr).map (fun e => (e.2.physStart + (addr - e.1), e.2.permissions))

def resolveVirtualAddr (m : VirtualMemory) (addr : VAddr) : Option PAddr :=
  (resolveBlock m addr).map (fun e => e.2.physStart + (addr - e.1))

end Mikage
