import Mikage.Memory.VirtualMemory

/-!
# Memory hooks

`SetHook` and `ClearHook` on the hook lists of physical memory. The lists of all busses are in one
function, by the address of the page (`(page << 12) + bus.start`, what the subscribers are told). A
range keeps the documented precondition that it does not cross the end of its bus.

The subscribers are a parameter: the state `S` they keep, and what they do when they are told of a
page. A call ends with an outcome and the state it leaves, since it can throw after some pages.
-/

namespace Mikage

structure Bus where
  start : PAddr
  size : BitVec 32
  deriving DecidableEq, Repr

namespace Bus

def fcram : Bus := ⟨0x20000000, 0x08000000⟩
def vram : Bus := ⟨0x18000000, 0x00600000⟩
def dsp : Bus := ⟨0x1ff00000, 0x00080000⟩
def axi : Bus := ⟨0x1ff80000, 0x00080000⟩

/-- `PhysicalMemory::Busses` -/
def busses : List Bus := [fcram, vram, dsp, axi,
  ⟨0x10146000, 0x1000⟩, ⟨0x10202000, 0x1000⟩, ⟨0x1020F000, 0x1000⟩, ⟨0x10400000, 0x2000⟩,
  ⟨0x10101000, 0x1000⟩, ⟨0x10140000, 0x2000⟩, ⟨0x10103000, 0x1000⟩, ⟨0x10142000, 0x1000⟩,
  ⟨0x10143000, 0x1000⟩, ⟨0x10301000, 0x1000⟩, ⟨0x10147000, 0x1000⟩, ⟨0x10160000, 0x1000⟩,
  ⟨0x10203000, 0x1000⟩, ⟨0x17e00000, 0x00002000⟩]

def isInside (b : Bus) (address : PAddr) : Bool := b.start ≤ address ∧ address < b.start + b.size

/-- The bus `ForEachMemoryBus` stops at. -/
def find (address : PAddr) : Option Bus := busses.find? (·.isInside address)

def pageAddr (b : Bus) (page : BitVec 32) : PAddr := (page <<< 12) + b.start

end Bus

/-- The two lists of a page. -/
inductive Access where
  | read | write
  deriving DecidableEq, Repr

inductive HookKind where
  | read | write | readWrite
  deriving DecidableEq, Repr

def HookKind.has : HookKind → Access → Bool
  | read, .read | write, .write | readWrite, _ => true
  | _, _ => false

structure Hook (H : Type) where
  start : PAddr
  numBytes : BitVec 32
  handler : H
  deriving DecidableEq, Repr

/-- `range.start + range.num_bytes` -/
def Hook.stop {H : Type} (h : Hook H) : PAddr := h.start + h.numBytes

/-- The hook lists by kind and page. -/
abbrev Hooks (H : Type) := Access → PAddr → List (Hook H)

namespace Hooks

variable {H : Type}

def set (m : Hooks H) (kind : Access) (page : PAddr) (l : List (Hook H)) : Hooks H :=
  fun k p => if k = kind ∧ p = page then l else m k p

def hasAnyHooks (m : Hooks H) (page : PAddr) : Bool :=
  !(m .write page).isEmpty || !(m .read page).isEmpty

end Hooks

/-- How a call ends, and the state it leaves. -/
abbrev Ended (S : Type) := Except Exception Unit × S

namespace Ended

variable {S : Type}

def andThen (r : Ended S) (f : S → Ended S) : Ended S :=
  match r.1 with
  | .ok _ => f r.2
  | .error _ => r

/-- `for (; page < end_page; ++page)`, for a number of pages. -/
def forPages (f : BitVec 32 → S → Ended S) : Nat → BitVec 32 → S → Ended S
  | 0, _, s => (.ok (), s)
  | k + 1, page, s => (f page s).andThen (forPages f k (page + 1))

end Ended

structure Subscribers (S : Type) where
  onUnbackedByHostMemory : PAddr → S → Ended S
  onBackedByHostMemory : PAddr → S → Ended S

variable {H S : Type}

def firstPage (bus : Bus) (start : PAddr) : BitVec 32 := (start - bus.start) >>> 12

def endPage (bus : Bus) (start : PAddr) (numBytes : BitVec 32) : BitVec 32 :=
  (start - bus.start + 0x1000 + numBytes - 1) >>> 12

def numPages (bus : Bus) (start : PAddr) (numBytes : BitVec 32) : Nat :=
  (endPage bus start numBytes).toNat - (firstPage bus start).toNat

def overlapsExisting := "Attempted to set Hook overlapping with existing hook"

/-- The list of a page once the hook is set. -/
def insertHook (bus : Bus) (page : BitVec 32) (start : PAddr) (numBytes : BitVec 32) (handler : H)
    (l : List (Hook H)) : Except Exception (List (Hook H)) :=
  let front := l.takeWhile (·.start < start)
  let back := l.dropWhile (·.start < start)
  let before := front.getLast?
  let after := back.head?
  if before.any (start < ·.stop) then .error (.runtimeError overlapsExisting)
  else if after.any (·.start < start + numBytes) then .error (.runtimeError overlapsExisting)
  else match before.filter (·.stop = start), after.filter (·.start = start + numBytes) with
  | some b, none => .ok (front.dropLast ++ { b with numBytes := b.numBytes + numBytes } :: back)
  | some b, some a =>
    .ok (front.dropLast ++
      { b with numBytes := b.numBytes + numBytes + a.numBytes } :: back.tail)
  | none, some a =>
    .ok (front ++
      { a with start := a.start - numBytes, numBytes := a.numBytes + numBytes } :: back.tail)
  | none, none =>
    let hookStart := max start (page <<< 12)
    let hookEnd := min (bus.start + (page + 1) * 0x1000) (start + numBytes)
    .ok (front ++ ⟨hookStart, hookEnd - hookStart, handler⟩ :: back)

def setHookPage (sub : Subscribers S) (bus : Bus) (kind : Access) (start : PAddr)
    (numBytes : BitVec 32) (handler : H) (page : BitVec 32) (s : Hooks H × S) :
    Ended (Hooks H × S) :=
  let addr := bus.pageAddr page
  let alreadyUnbacked := s.1.hasAnyHooks addr
  match insertHook bus page start numBytes handler (s.1 kind addr) with
  | .error e => (.error e, s)
  | .ok l =>
    let m := s.1.set kind addr l
    if alreadyUnbacked then (.ok (), m, s.2)
    else
      let r := sub.onUnbackedByHostMemory addr s.2
      (r.1, m, r.2)

def setHook (sub : Subscribers S) (kind : Access) (start : PAddr) (numBytes : BitVec 32)
    (handler : H) (s : Hooks H × S) : Ended (Hooks H × S) :=
  if ¬ start < start + numBytes then
    (.error (.contractViolated "start < start + num_bytes"), s)
  else match Bus.find start with
  | none => (.ok (), s)
  | some bus =>
    Ended.forPages (setHookPage sub bus kind start numBytes handler)
      (numPages bus start numBytes) (firstPage bus start) s

/-- `Overlaps` with the range. -/
def Hook.overlaps (h : Hook H) (start : PAddr) (numBytes : BitVec 32) : Bool :=
  !(h.stop ≤ start || start + numBytes ≤ h.start)

/-- The list of a page once the range is cleared. The loop looks at the two parts of a split hook
again, and neither overlaps. -/
def removeHooks (start : PAddr) (numBytes : BitVec 32) : List (Hook H) → List (Hook H)
  | [] => []
  | h :: l =>
    if h.overlaps start numBytes then
      if h.start < start ∧ start + numBytes < h.stop then
        { h with numBytes := start - h.start } ::
          ⟨start + numBytes, h.stop - (start + numBytes), h.handler⟩ ::
          removeHooks start numBytes l
      else if h.start < start then
        { h with numBytes := start - h.start } :: removeHooks start numBytes l
      else if start + numBytes < h.stop then
        let diff := start + numBytes - h.start
        { h with start := h.start + diff, numBytes := h.numBytes - diff } ::
          removeHooks start numBytes l
      else removeHooks start numBytes l
    else h :: removeHooks start numBytes l

def hookName : Access → String
  | .read => "Read"
  | .write => "Write"

def clearList (kind : Access) (start : PAddr) (numBytes : BitVec 32) (addr : PAddr)
    (s : Hooks H × S) : Ended (Hooks H × S) :=
  if (s.1 kind addr).isEmpty then
    (.error (.runtimeError
      ("Attempted to clear " ++ hookName kind ++ "Hook from a page that had none set")), s)
  else (.ok (), s.1.set kind addr (removeHooks start numBytes (s.1 kind addr)), s.2)

def clearHookPage (sub : Subscribers S) (bus : Bus) (kind : HookKind) (start : PAddr)
    (numBytes : BitVec 32) (page : BitVec 32) (s : Hooks H × S) : Ended (Hooks H × S) :=
  let addr := bus.pageAddr page
  let read := if kind.has .read then clearList .read start numBytes addr s else (.ok (), s)
  let write := read.andThen fun s =>
    if kind.has .write then clearList .write start numBytes addr s else (.ok (), s)
  write.andThen fun s =>
    if s.1.hasAnyHooks addr then (.ok (), s)
    else
      let r := sub.onBackedByHostMemory addr s.2
      (r.1, s.1, r.2)

def clearHook (sub : Subscribers S) (kind : HookKind) (start : PAddr) (numBytes : BitVec 32)
    (s : Hooks H × S) : Ended (Hooks H × S) :=
  match Bus.find start with
  | none => (.ok (), s)
  | some bus =>
    Ended.forPages (clearHookPage sub bus kind start numBytes)
      (numPages bus start numBytes) (firstPage bus start) s

end Mikage
