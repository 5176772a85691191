import Mikage.Memory.VirtualMemory

/-!
# The physical memory of a region

`MemoryManager` keeps the blocks of a region in two maps by start address. Sums are 32 bits wide, as
in the source. An owner is a `weak_ptr`: `alive` tells which owners it can still be locked for.

Every check of a call precedes its first update, so an exception leaves the manager as it was.
-/

namespace Mikage

structure MemoryBlock (Owner : Type) where
  sizeBytes : BitVec 32
  owner : Option Owner
  deriving DecidableEq, Repr

abbrev BlockMap (Owner : Type) := SortedMap PAddr (MemoryBlock Owner)

structure MemoryManager (Owner : Type) where
  regionStartPaddr : PAddr
  regionSizeBytes : BitVec 32
  free : BlockMap Owner
  taken : BlockMap Owner

namespace MemoryManager

variable {Owner : Type}

def create (startAddress : PAddr) (size : BitVec 32) : MemoryManager Owner where
  regionStartPaddr := startAddress
  regionSizeBytes := size
  free := SortedMap.empty.set startAddress ⟨size, none⟩
  taken := .empty

variable [DecidableEq Owner] (alive : Owner → Bool)

def lock (owner : Option Owner) : Option Owner := owner.filter alive

def expired (owner : Option Owner) : Bool := (lock alive owner).isNone

/-- The loop that merges neighbours, from a block on. -/
def mergeFrom (e : PAddr × MemoryBlock Owner) :
    List (PAddr × MemoryBlock Owner) → List (PAddr × MemoryBlock Owner)
  | [] => [e]
  | e' :: l =>
    if e.1 + e.2.sizeBytes = e'.1 ∧ lock alive e.2.owner = lock alive e'.2.owner then
      mergeFrom (e.1, { e.2 with sizeBytes := e.2.sizeBytes + e'.2.sizeBytes }) l
    else e :: mergeFrom e' l

def mergeNeighbours : List (PAddr × MemoryBlock Owner) → List (PAddr × MemoryBlock Owner)
  | [] => []
  | e :: l => mergeFrom alive e l

theorem mergeFrom_keys (e : PAddr × MemoryBlock Owner) (l : List (PAddr × MemoryBlock Owner)) :
    List.Sublist ((mergeFrom alive e l).map Prod.fst) ((e :: l).map Prod.fst) := by
  fun_induction mergeFrom alive e l with
  | case1 => exact .refl _
  | case2 e e' l _ ih => exact ih.trans (List.Sublist.cons_cons _ (List.sublist_cons_self _ _))
  | case3 e e' l _ ih => exact ih.cons_cons _

theorem mergeNeighbours_keys :
    ∀ l, List.Sublist ((mergeNeighbours alive l).map Prod.fst) (l.map Prod.fst)
  | [] => .slnil
  | e :: l => mergeFrom_keys alive e l

def defragment (m : BlockMap Owner) : BlockMap Owner where
  entries := mergeNeighbours alive m.entries
  sorted := by
    have hkeys : (m.entries.map Prod.fst).Pairwise (· < ·) := List.pairwise_map.2 m.sorted
    exact List.pairwise_map.1 (hkeys.sublist (mergeNeighbours_keys alive m.entries))

/-- The first block that passes the test; each block on the way is checked. -/
def search (valid : Option Owner → Bool) (condition : String)
    (test : PAddr × MemoryBlock Owner → Bool) :
    List (PAddr × MemoryBlock Owner) → Except Exception (Option (PAddr × MemoryBlock Owner))
  | [] => .ok none
  | e :: l =>
    if ¬ valid e.2.owner then .error (.contractViolated condition)
    else if test e then .ok (some e)
    else search valid condition test l

/-- A block of `free`, found to be large enough, is split. -/
def take (m : MemoryManager Owner) (owner : Owner) (sizeBytes : BitVec 32)
    (e : PAddr × MemoryBlock Owner) : MemoryManager Owner :=
  let free := m.free.erase e.1
  let taken := m.taken.set e.1 ⟨sizeBytes, some owner⟩
  let free := if e.2.sizeBytes ≠ sizeBytes then
    free.set (e.1 + sizeBytes) ⟨e.2.sizeBytes - sizeBytes, none⟩ else free
  { m with free := defragment alive free, taken := defragment alive taken }

def allocateBlock (m : MemoryManager Owner) (owner : Owner) (sizeBytes : BitVec 32) :
    Except Exception (Option PAddr × MemoryManager Owner) := do
  match ← search (expired alive) "block_it->second.owner.expired()"
      (fun e => ¬ e.2.sizeBytes < sizeBytes) m.free.entries with
  | none => pure (none, m)
  | some e => pure (some e.1, m.take alive owner sizeBytes e)

/-- What a chunk of `taken` has in front of and behind a range stays with its owner. -/
def keepRest (taken : BlockMap Owner) (owner : Owner) (startAddr : PAddr) (sizeBytes : BitVec 32)
    (e : PAddr × MemoryBlock Owner) : BlockMap Owner :=
  let chunkEnd := e.1 + e.2.sizeBytes
  let taken := if e.1 < startAddr then taken.set e.1 ⟨startAddr - e.1, some owner⟩ else taken
  if startAddr + sizeBytes < chunkEnd then
    taken.set (startAddr + sizeBytes) ⟨chunkEnd - startAddr - sizeBytes, some owner⟩ else taken

def notExpired := "!block_it->second.owner.expired()"

def deallocateBlock (m : MemoryManager Owner) (owner : Owner) (startAddr : PAddr)
    (sizeBytes : BitVec 32) : Except Exception (MemoryManager Owner) := do
  match ← search (fun o => !expired alive o) notExpired
      (fun e => e.1 ≤ startAddr ∧ startAddr < e.1 + e.2.sizeBytes) m.taken.entries with
  | none => .error (.runtimeError "No suitable block found to free")
  | some e =>
    if lock alive e.2.owner ≠ some owner then
      .error (.contractViolated "block_it->second.owner.lock() == owner")
    else if e.1 + e.2.sizeBytes < startAddr + sizeBytes then
      .error (.invalid "Size to free is larger than allocated block")
    else
      let free := m.free.set startAddr ⟨sizeBytes, none⟩
      let taken := keepRest (m.taken.erase e.1) owner startAddr sizeBytes e
      .ok { m with free := defragment alive free, taken := defragment alive taken }

def transferOwnership (m : MemoryManager Owner) (oldOwner newOwner : Owner) (startAddr : PAddr)
    (sizeBytes : BitVec 32) : Except Exception (MemoryManager Owner) := do
  match ← search (fun o => !expired alive o) notExpired
      (fun e => e.1 ≤ startAddr ∧ startAddr + sizeBytes ≤ e.1 + e.2.sizeBytes) m.taken.entries with
  | none => .error (.runtimeError "No suitable block found to transfer ownership of")
  | some e =>
    if lock alive e.2.owner ≠ some oldOwner then
      .error (.contractViolated "block_it->second.owner.lock() == old_owner")
    else if e.1 + e.2.sizeBytes < startAddr + sizeBytes then
      .error (.invalid "Size to transfer is larger than allocated block")
    else
      let taken := (m.taken.erase e.1).set startAddr ⟨sizeBytes, some newOwner⟩
      let taken := keepRest taken oldOwner startAddr sizeBytes e
      .ok { m with taken := defragment alive taken }

def getTotalSizeOfMemoryBlocks (m : BlockMap Owner) : BitVec 32 :=
  m.entries.foldl (fun total e => total + e.2.sizeBytes) 0

def usedMemory (m : MemoryManager Owner) : BitVec 32 := getTotalSizeOfMemoryBlocks m.taken

def totalSize (m : MemoryManager Owner) : BitVec 32 :=
  m.usedMemory + getTotalSizeOfMemoryBlocks m.free

end MemoryManager

end Mikage
