import Mikage.Memory.ByteAccess
import Mikage.Lib.Account

/-!
# Memory of a fake process

A `FakeProcess` has the emulated memory that its map translates to, and buffers of its own at
addresses with the top bit set. `WriteMemory32` writes the word to where its first byte is, and
before that byte by byte if the address is not aligned.

- `Cell`: what holds a byte.
- `WriteExact`: what a word written is, read back byte by byte and as a word.
- `WritesThrough`: the addresses for which it is that.

The size of a buffer is kept in the map of the buffers, its bytes beside it by start and index.
-/

namespace Mikage.Fake

structure FakeProcess (σ : Type) where
  memory : VirtualMemory
  staticBuffers : SortedMap VAddr ℕ
  data : VAddr → ℕ → BitVec 8
  physical : PhysicalMemory σ

abbrev FakeM (σ : Type) := EStateM Exception (FakeProcess σ)

variable {H σ : Type}

/-- The access that the bus of a physical address makes. -/
def physicalSpot (hooks : Hooks H) (access : Access) (paddr : PAddr) : Except Exception (Spot H) :=
  match Bus.find paddr with
  | none => .error (.runtimeError (match access with
    | .read => "Read from unknown physical address"
    | .write => "Write to unknown physical address"))
  | some bus =>
    if bus.isMemoryBus then
      match hooks access (bus.pageAddr ((paddr - bus.start) >>> 12)) with
      | [] => .ok (.memory paddr)
      | hook :: _ => .ok (.hooked hook.handler paddr)
    else .ok (.device bus paddr)

def readLegacy (handlers : Handlers H σ) (hooks : Hooks H) (n : ℕ) (paddr : PAddr) :
    MemoryM σ ℕ :=
  match physicalSpot hooks .read paddr with
  | .error e => throw e
  | .ok (.memory location) => load n location
  | .ok (.hooked handler paddr) => do
    handlers.onRead handler paddr n
    load n paddr
  | .ok (.device bus paddr) => handlers.deviceRead bus paddr n

def writeLegacy (handlers : Handlers H σ) (hooks : Hooks H) (n : ℕ) (paddr : PAddr) (value : ℕ) :
    MemoryM σ Unit :=
  match physicalSpot hooks .write paddr with
  | .error e => throw e
  | .ok (.memory location) => store n location value
  | .ok (.hooked handler paddr) => do
    handlers.onWrite handler paddr n value
    store n paddr value
  | .ok (.device bus paddr) => handlers.deviceWrite bus paddr n value

def onPhysical {α : Type} (x : MemoryM σ α) : FakeM σ α := fun p =>
  match x p.physical with
  | .ok a m => .ok a { p with physical := m }
  | .error e m => .error e { p with physical := m }

/-- Use the MSB to indicate internal memory. -/
def isInternalAddress (addr : VAddr) : Bool := addr >>> 31 ≠ 0

/-- The first buffer with `n` bytes from `addr` on. -/
def FakeProcess.bufferAt (p : FakeProcess σ) (n : ℕ) (addr : VAddr) : Option (VAddr × ℕ) :=
  p.staticBuffers.entries.find? fun e => e.1 ≤ addr ∧ addr.toNat + n - 1 < e.1.toNat + e.2

/-- A byte of a word. -/
def byteOf (value : BitVec 32) (i : ℕ) : BitVec 8 := (value >>> (8 * i)).setWidth 8

def FakeProcess.setByte (p : FakeProcess σ) (start index : BitVec 32) (value : BitVec 8) :
    FakeProcess σ :=
  { p with
    data := Function.update p.data start (Function.update (p.data start) index.toNat value) }

section

variable (handlers : Handlers H σ) (hooks : Hooks H)

def writeMemory (addr : VAddr) (value : BitVec 8) : FakeM σ Unit := do
  if isInternalAddress addr then
    match (← get).bufferAt 1 addr with
    | some (start, _) => modify fun p => p.setByte start (addr - start) value
    | none => throw (.runtimeError "Tried to write outside the fake address range")
  else
    match resolveVirtualAddr (← get).memory addr with
    | some physAddr => onPhysical (writeLegacy handlers hooks 1 physAddr value.toNat)
    | none => throw (.runtimeError "Tried to write outside the fake address range")

/-- `Process::WriteMemory32` -/
def writeMemory32ByBytes (addr : VAddr) (value : BitVec 32) : FakeM σ Unit := do
  writeMemory handlers hooks addr (byteOf value 0)
  writeMemory handlers hooks (addr + 1) (byteOf value 1)
  writeMemory handlers hooks (addr + 2) (byteOf value 2)
  writeMemory handlers hooks (addr + 3) (byteOf value 3)

/-- The part of `FakeProcess::WriteMemory32` that every address comes to. -/
def writeMemory32AtOnce (addr : VAddr) (value : BitVec 32) : FakeM σ Unit := do
  if isInternalAddress addr then
    match (← get).bufferAt 4 addr with
    | some (start, _) =>
      modify fun p => p.setByte start (addr - start) (byteOf value 0)
      modify fun p => p.setByte start (addr - start + 1) (byteOf value 1)
      modify fun p => p.setByte start (addr - start + 2) (byteOf value 2)
      modify fun p => p.setByte start (addr - start + 3) (byteOf value 3)
    | none => throw (.runtimeError "Tried to write outside the fake address range")
  else
    match resolveVirtualAddr (← get).memory addr with
    | some physAddr => onPhysical (writeLegacy handlers hooks 4 physAddr value.toNat)
    | none => throw (.runtimeError "Tried to write outside the fake address range")

/-- `FakeProcess::WriteMemory32`. After the bytes the word is written once more. -/
def writeMemory32 (addr : VAddr) (value : BitVec 32) : FakeM σ Unit := do
  if addr % 4 ≠ 0 then writeMemory32ByBytes handlers hooks addr value
  writeMemory32AtOnce handlers hooks addr value

def readMemory (addr : VAddr) : FakeM σ (BitVec 8) := do
  if isInternalAddress addr then
    match (← get).bufferAt 1 addr with
    | some (start, _) => return (← get).data start (addr - start).toNat
    | none => throw (.runtimeError "Tried to read outside the fake address range")
  else
    match resolveVirtualAddr (← get).memory addr with
    | some physAddr => return BitVec.ofNat 8 (← onPhysical (readLegacy handlers hooks 1 physAddr))
    | none => throw (.runtimeError "Tried to read outside the fake address range")

/-- `Process::ReadMemory32` -/
def readMemory32 (addr : VAddr) : FakeM σ (BitVec 32) := do
  let b₀ ← readMemory handlers hooks addr
  let b₁ ← readMemory handlers hooks (addr + 1)
  let b₂ ← readMemory handlers hooks (addr + 2)
  let b₃ ← readMemory handlers hooks (addr + 3)
  return b₀.setWidth 32 ||| b₁.setWidth 32 <<< 8 ||| b₂.setWidth 32 <<< 16 ||| b₃.setWidth 32 <<< 24

end

/-! ## What holds a byte -/

/-- A byte of emulated memory or of a buffer. -/
inductive Cell where
  | ram (location : PAddr)
  | buffer (start : VAddr) (index : ℕ)
  deriving DecidableEq, Inhabited

namespace FakeProcess

def contents (p : FakeProcess σ) : Cell → BitVec 8
  | .ram location => p.physical.data location
  | .buffer start index => p.data start index

/-- The process with other bytes. -/
def withContents (p : FakeProcess σ) (f : Cell → BitVec 8) : FakeProcess σ :=
  { p with
    data := fun start index => f (.buffer start index)
    physical := { p.physical with data := fun location => f (.ram location) } }

/-- The byte at an address, wherever it is memory. -/
def cellAt (p : FakeProcess σ) (addr : VAddr) : Option Cell :=
  if isInternalAddress addr then
    (p.bufferAt 1 addr).map fun e => .buffer e.1 (addr - e.1).toNat
  else ((resolveVirtualAddr p.memory addr).filter (Stored · 1)).map .ram

/-- The byte an access reaches without a hook. -/
def plainCell (hooks : Hooks H) (access : Access) (p : FakeProcess σ) (addr : VAddr) :
    Option Cell :=
  if isInternalAddress addr then p.cellAt addr
  else match resolveVirtualAddr p.memory addr with
    | some physAddr =>
      match physicalSpot hooks access physAddr with
      | .ok (.memory location) => some (.ram location)
      | _ => none
    | none => none

/-- The bytes of a word written at once. -/
def wideCells (hooks : Hooks H) (p : FakeProcess σ) (addr : VAddr) : Option (ℕ → Cell) :=
  if isInternalAddress addr then
    (p.bufferAt 4 addr).map fun e i => .buffer e.1 (addr - e.1 + BitVec.ofNat 32 i).toNat
  else match resolveVirtualAddr p.memory addr with
    | some physAddr =>
      match physicalSpot hooks .write physAddr with
      | .ok (.memory location) =>
        if Stored location 4 then some fun i => .ram (location + BitVec.ofNat 32 i) else none
      | _ => none
    | none => none

end FakeProcess

open FakeProcess

/-- **What a word written is**: the write returns, its bytes and the word are read back, and no byte
mapped elsewhere changes. -/
def WriteExact (handlers : Handlers H σ) (hooks : Hooks H) (p : FakeProcess σ) (addr : VAddr)
    (value : BitVec 32) : Prop :=
  ∃ p', writeMemory32 handlers hooks addr value p = .ok () p' ∧
    (∀ i < 4, readMemory handlers hooks (addr + BitVec.ofNat 32 i) p' = .ok (byteOf value i) p') ∧
    readMemory32 handlers hooks addr p' = .ok value p' ∧
    ∀ a cell, p.cellAt a = some cell →
      (∀ i < 4, p.cellAt (addr + BitVec.ofNat 32 i) ≠ some cell) →
        p'.contents cell = p.contents cell

/-- The last write to each byte is its own: where the bytes of the word written at once, `w`, meet
the bytes of the address, `c`, the two are the same, and the others are written before, one by one,
each after those it shares its place with. No other byte that is mapped is among `w`. -/
structure OwnBytesLast (p : FakeProcess σ) (addr : VAddr) (c w : ℕ → Cell) : Prop where
  same : ∀ i < 4, ∀ j < 4, c i = w j → i = j
  before : ∀ i < 4, (∀ j < 4, c i ≠ w j) → addr % 4 ≠ 0 ∧ ∀ k < 4, i < k → c k ≠ c i
  others : ∀ a cell, p.cellAt a = some cell → ∀ j < 4, cell = w j → ∃ i < 4, cell = c i

/-- The accesses of the bytes reach memory without a hook, all in the order that keeps them. -/
def WritesThrough (hooks : Hooks H) (p : FakeProcess σ) (addr : VAddr) : Prop :=
  ∃ c w : ℕ → Cell, wideCells hooks p addr = some w ∧
    (∀ i < 4, plainCell hooks .read p (addr + BitVec.ofNat 32 i) = some (c i)) ∧
    (addr % 4 ≠ 0 → ∀ i < 4, plainCell hooks .write p (addr + BitVec.ofNat 32 i) = some (c i)) ∧
    OwnBytesLast p addr c w

section

variable {handlers : Handlers H σ} {hooks : Hooks H} {p p' : FakeProcess σ} {addr : VAddr}
  {access : Access} {cell : Cell} {c w : ℕ → Cell} {b : BitVec 8} {value : BitVec 32}
  {f : Cell → BitVec 8}

/-! ## Bytes -/

@[simp] theorem contents_withContents : (p.withContents f).contents = f := by
  funext cell
  cases cell <;> rfl

@[simp] theorem withContents_withContents {g : Cell → BitVec 8} :
    (p.withContents f).withContents g = p.withContents g := rfl

@[simp] theorem cellAt_withContents : (p.withContents f).cellAt = p.cellAt := rfl

@[simp] theorem plainCell_withContents :
    plainCell hooks access (p.withContents f) = plainCell hooks access p := rfl

@[simp] theorem wideCells_withContents :
    wideCells hooks (p.withContents f) = wideCells hooks p := rfl

theorem setByte_eq {start index : BitVec 32} : p.setByte start index b =
    p.withContents (Function.update p.contents (.buffer start index.toNat) b) := by
  have hdata : Function.update p.data start (Function.update (p.data start) index.toNat b) =
      fun a i => Function.update p.contents (.buffer start index.toNat) b (.buffer a i) := by
    funext a i
    by_cases ha : a = start
    · subst ha
      by_cases hi : i = index.toNat
      · subst hi
        rw [Function.update_self, Function.update_self, Function.update_self]
      · rw [Function.update_self, Function.update_of_ne hi,
          Function.update_of_ne (by simpa using hi)]
        rfl
    · rw [Function.update_of_ne ha, Function.update_of_ne (by simp [ha])]
      rfl
  have hram : (fun l => Function.update p.contents (.buffer start index.toNat) b (.ram l)) =
      p.physical.data := by
    funext l
    rw [Function.update_of_ne (by simp)]
    rfl
  rw [setByte, withContents, hdata, hram]

theorem physicalSpot_memory {paddr location : PAddr}
    (h : physicalSpot hooks access paddr = .ok (.memory location)) :
    location = paddr ∧ Stored paddr 1 := by
  unfold physicalSpot at h
  split at h
  · cases h
  next bus hfind =>
    split at h
    next hmem =>
      split at h
      next =>
        cases h
        exact ⟨rfl, stored_of_find hfind hmem⟩
      next => cases h
    next => cases h

theorem onPhysical_store {n k : ℕ} {location : PAddr} (h : Stored location n)
    (hram : ∀ l, storeBytes n location k p.physical.data l = f (.ram l))
    (hbuffer : ∀ start i, f (.buffer start i) = p.data start i) :
    onPhysical (store n location k) p = .ok () (p.withContents f) := by
  unfold onPhysical store
  rw [if_pos h]
  simp only [modify, modifyGet, MonadStateOf.modifyGet, EStateM.modifyGet]
  rw [funext hram, ← funext fun start => funext (hbuffer start)]
  rfl

theorem plainCell_cellAt (h : plainCell hooks access p addr = some cell) :
    p.cellAt addr = some cell := by
  unfold plainCell at h
  split at h
  next => exact h
  next hext =>
    split at h
    next physAddr hres =>
      split at h
      next location hspot =>
        obtain ⟨rfl, hstored⟩ := physicalSpot_memory hspot
        cases h
        rw [cellAt, if_neg hext, hres, Option.filter_some, if_pos (by simpa using hstored)]
        rfl
      next => cases h
    next => cases h

theorem writeMemory_plain (h : plainCell hooks .write p addr = some cell) :
    writeMemory handlers hooks addr b p =
      .ok () (p.withContents (Function.update p.contents cell b)) := by
  unfold plainCell at h
  unfold writeMemory
  split at h
  next hint =>
    rw [cellAt, if_pos hint] at h
    obtain ⟨⟨start, size⟩, hbuffer, rfl⟩ := Option.map_eq_some_iff.1 h
    rw [if_pos hint]
    simp only [bind, EStateM.bind, get, getThe, MonadStateOf.get, EStateM.get, hbuffer]
    rw [← setByte_eq]
    rfl
  next hext =>
    split at h
    next physAddr hres =>
      split at h
      next location hspot =>
        obtain ⟨rfl, hstored⟩ := physicalSpot_memory hspot
        cases h
        rw [if_neg hext]
        simp only [bind, EStateM.bind, get, getThe, MonadStateOf.get, EStateM.get, hres,
          writeLegacy, hspot]
        refine onPhysical_store hstored (fun l => ?_) fun _ _ =>
          Function.update_of_ne Cell.noConfusion _ _
        rw [storeBytes, storeBytes, BitVec.ofNat_toNat, BitVec.setWidth_eq]
        by_cases hl : l = location
        · rw [hl, Function.update_self, Function.update_self]
        · rw [Function.update_of_ne hl, Function.update_of_ne (by simpa using hl)]
          rfl
      next => cases h
    next => cases h

theorem readMemory_plain (h : plainCell hooks .read p addr = some cell) :
    readMemory handlers hooks addr p = .ok (p.contents cell) p := by
  unfold plainCell at h
  unfold readMemory
  split at h
  next hint =>
    rw [cellAt, if_pos hint] at h
    obtain ⟨⟨start, size⟩, hbuffer, rfl⟩ := Option.map_eq_some_iff.1 h
    rw [if_pos hint]
    simp only [bind, EStateM.bind, get, getThe, MonadStateOf.get, EStateM.get, hbuffer]
    rfl
  next hext =>
    split at h
    next physAddr hres =>
      split at h
      next location hspot =>
        obtain ⟨rfl, hstored⟩ := physicalSpot_memory hspot
        cases h
        rw [if_neg hext]
        simp only [bind, EStateM.bind, get, getThe, MonadStateOf.get, EStateM.get, hres,
          readLegacy, hspot, onPhysical, load, if_pos hstored, littleEndian]
        simp [contents, pure, EStateM.pure]
      next => cases h
    next => cases h

/-! ## Words -/

/-- Four bytes written one after the other. -/
def putWord (c : ℕ → Cell) (value : BitVec 32) (f : Cell → BitVec 8) : Cell → BitVec 8 :=
  Function.update (Function.update (Function.update (Function.update f
    (c 0) (byteOf value 0)) (c 1) (byteOf value 1)) (c 2) (byteOf value 2)) (c 3) (byteOf value 3)

theorem putWord_last {i : ℕ} (hi : i < 4) (hlater : ∀ k < 4, i < k → c k ≠ c i) :
    putWord c value f (c i) = byteOf value i := by
  have later {k : ℕ} (hk : k < 4) (hik : i < k) : c i ≠ c k := (hlater k hk hik).symm
  unfold putWord
  interval_cases i
  · rw [Function.update_of_ne (later (by omega) (by omega)),
      Function.update_of_ne (later (by omega) (by omega)),
      Function.update_of_ne (later (by omega) (by omega)), Function.update_self]
  · rw [Function.update_of_ne (later (by omega) (by omega)),
      Function.update_of_ne (later (by omega) (by omega)), Function.update_self]
  · rw [Function.update_of_ne (later (by omega) (by omega)), Function.update_self]
  · rw [Function.update_self]

theorem putWord_other (h : ∀ i < 4, cell ≠ c i) : putWord c value f cell = f cell := by
  unfold putWord
  rw [Function.update_of_ne (h 3 (by omega)), Function.update_of_ne (h 2 (by omega)),
    Function.update_of_ne (h 1 (by omega)), Function.update_of_ne (h 0 (by omega))]

/-- The byte is one of those written to its place. -/
theorem putWord_some {i : ℕ} (hi : i < 4) :
    ∃ k < 4, i ≤ k ∧ c k = c i ∧ putWord c value f (c i) = byteOf value k := by
  by_cases hlater : ∀ k < 4, i < k → c k ≠ c i
  · exact ⟨i, hi, Nat.le_refl i, rfl, putWord_last hi hlater⟩
  · push Not at hlater
    obtain ⟨k, hk, hik, hki⟩ := hlater
    obtain ⟨k', hk', hkk', heq, hval⟩ := putWord_some hk
    exact ⟨k', hk', hik.le.trans hkk', heq.trans hki, hki ▸ hval⟩
termination_by 4 - i

theorem byteOf_eq (value : BitVec 32) (i : ℕ) :
    byteOf value i = BitVec.ofNat 8 (value.toNat / 256 ^ i) := by
  apply BitVec.eq_of_toNat_eq
  rw [byteOf, BitVec.toNat_setWidth, BitVec.toNat_ushiftRight, BitVec.toNat_ofNat,
    Nat.shiftRight_eq_div_pow, Nat.pow_mul]

theorem writeByBytes_plain
    (h : ∀ i < 4, plainCell hooks .write p (addr + BitVec.ofNat 32 i) = some (c i)) :
    writeMemory32ByBytes handlers hooks addr value p =
      .ok () (p.withContents (putWord c value p.contents)) := by
  have h₀ : plainCell hooks .write p addr = some (c 0) := by
    simpa using h 0 (by omega)
  have h₁ : plainCell hooks .write p (addr + 1) = some (c 1) := h 1 (by omega)
  have h₂ : plainCell hooks .write p (addr + 2) = some (c 2) := h 2 (by omega)
  have h₃ : plainCell hooks .write p (addr + 3) = some (c 3) := h 3 (by omega)
  unfold writeMemory32ByBytes
  refine (EStateM.bind_of_ok (writeMemory_plain h₀)).trans ?_
  refine (EStateM.bind_of_ok (writeMemory_plain (p := p.withContents _) h₁)).trans ?_
  refine (EStateM.bind_of_ok (writeMemory_plain (p := p.withContents _) h₂)).trans ?_
  refine (writeMemory_plain (p := p.withContents _) h₃).trans ?_
  simp only [contents_withContents, withContents_withContents]
  rfl

theorem ofNat_injective {a : BitVec 32} {i j : ℕ} (hi : i < 4) (hj : j < 4)
    (h : a + BitVec.ofNat 32 i = a + BitVec.ofNat 32 j) : i = j := by
  bv_omega

theorem wideCells_injective (h : wideCells hooks p addr = some w) {i j : ℕ} (hi : i < 4)
    (hj : j < 4) (hij : w i = w j) : i = j := by
  unfold wideCells at h
  split at h
  · obtain ⟨e, -, rfl⟩ := Option.map_eq_some_iff.1 h
    exact ofNat_injective hi hj (BitVec.eq_of_toNat_eq (Cell.buffer.inj hij).2)
  · split at h
    · split at h
      · split at h
        · cases h
          exact ofNat_injective hi hj (Cell.ram.inj hij)
        · cases h
      · cases h
    · cases h

theorem writeAtOnce_wide (h : wideCells hooks p addr = some w) :
    writeMemory32AtOnce handlers hooks addr value p =
      .ok () (p.withContents (putWord w value p.contents)) := by
  have hinjective := @wideCells_injective _ _ _ _ _ _ h
  unfold wideCells at h
  unfold writeMemory32AtOnce
  split at h
  next hint =>
    obtain ⟨⟨start, size⟩, hbuffer, rfl⟩ := Option.map_eq_some_iff.1 h
    rw [if_pos hint]
    simp only [bind, EStateM.bind, get, getThe, MonadStateOf.get, EStateM.get, hbuffer, modify,
      modifyGet, MonadStateOf.modifyGet, EStateM.modifyGet, setByte_eq, contents_withContents,
      withContents_withContents, putWord, BitVec.add_zero]
    rfl
  next hext =>
    split at h
    next physAddr hres =>
      split at h
      next location hspot =>
        split at h
        next hstored =>
          obtain ⟨rfl, -⟩ := physicalSpot_memory hspot
          cases h
          rw [if_neg hext]
          simp only [bind, EStateM.bind, get, getThe, MonadStateOf.get, EStateM.get, hres,
            writeLegacy, hspot]
          refine onPhysical_store hstored (fun l => ?_) fun _ _ => putWord_other fun _ _ => nofun
          by_cases hl : ∃ i < 4, l = location + BitVec.ofNat 32 i
          · obtain ⟨i, hi, rfl⟩ := hl
            rw [storeBytes_digit hi (by omega), ← byteOf_eq]
            exact (putWord_last hi fun k hk hik hki =>
              hik.ne (hinjective hi hk hki.symm)).symm
          · push Not at hl
            rw [storeBytes_below hl, putWord_other fun i hi heq => hl i hi (Cell.ram.inj heq)]
            rfl
        next => cases h
      next => cases h
    next => cases h

theorem byteOf_word (value : BitVec 32) : (byteOf value 0).setWidth 32 |||
    (byteOf value 1).setWidth 32 <<< 8 ||| (byteOf value 2).setWidth 32 <<< 16 |||
    (byteOf value 3).setWidth 32 <<< 24 = value := by
  ext i hi
  simp only [byteOf, BitVec.getElem_or, BitVec.getElem_shiftLeft, BitVec.getElem_setWidth,
    BitVec.getLsbD_setWidth, BitVec.getLsbD_ushiftRight]
  rw [← BitVec.getLsbD_eq_getElem]
  interval_cases i <;> simp

theorem readMemory32_plain
    (h : ∀ i < 4, plainCell hooks .read p (addr + BitVec.ofNat 32 i) = some (c i))
    (hc : ∀ i < 4, p.contents (c i) = byteOf value i) :
    readMemory32 handlers hooks addr p = .ok value p := by
  have h₀ : plainCell hooks .read p addr = some (c 0) := by
    simpa using h 0 (by omega)
  have h₁ : plainCell hooks .read p (addr + 1) = some (c 1) := h 1 (by omega)
  have h₂ : plainCell hooks .read p (addr + 2) = some (c 2) := h 2 (by omega)
  have h₃ : plainCell hooks .read p (addr + 3) = some (c 3) := h 3 (by omega)
  unfold readMemory32
  refine (EStateM.bind_of_ok (readMemory_plain h₀)).trans ?_
  refine (EStateM.bind_of_ok (readMemory_plain h₁)).trans ?_
  refine (EStateM.bind_of_ok (readMemory_plain h₂)).trans ?_
  refine (EStateM.bind_of_ok (readMemory_plain h₃)).trans ?_
  rw [hc 0 (by omega), hc 1 (by omega), hc 2 (by omega), hc 3 (by omega), byteOf_word]
  rfl

/-- The bytes before the word is written at once. -/
def bytesFirst (addr : VAddr) (c : ℕ → Cell) (value : BitVec 32) (f : Cell → BitVec 8) :
    Cell → BitVec 8 :=
  if addr % 4 ≠ 0 then putWord c value f else f

theorem writeMemory32_plain (hw : wideCells hooks p addr = some w) (hc : addr % 4 ≠ 0 →
    ∀ i < 4, plainCell hooks .write p (addr + BitVec.ofNat 32 i) = some (c i)) :
    writeMemory32 handlers hooks addr value p =
      .ok () (p.withContents (putWord w value (bytesFirst addr c value p.contents))) := by
  unfold writeMemory32 bytesFirst
  by_cases h : addr % 4 ≠ 0
  · rw [if_pos h, if_pos h]
    refine (EStateM.bind_of_ok (writeByBytes_plain (hc h))).trans ?_
    refine (writeAtOnce_wide (p := p.withContents _) hw).trans ?_
    rw [contents_withContents, withContents_withContents]
  · rw [if_neg h, if_neg h]
    exact writeAtOnce_wide hw

/-! ## Where a word is written right -/

theorem OwnBytesLast.contents (h : OwnBytesLast p addr c w)
    (hw : ∀ i < 4, ∀ j < 4, w i = w j → i = j) {i : ℕ} (hi : i < 4) :
    putWord w value (bytesFirst addr c value f) (c i) = byteOf value i := by
  by_cases hmeet : ∃ j < 4, c i = w j
  · obtain ⟨j, hj, hij⟩ := hmeet
    obtain rfl := h.same i hi j hj hij
    rw [hij]
    exact putWord_last hi fun k hk hik hki => hik.ne' (hw k hk i hi hki)
  · push Not at hmeet
    obtain ⟨halign, hlater⟩ := h.before i hi hmeet
    rw [putWord_other hmeet, bytesFirst, if_pos halign]
    exact putWord_last hi hlater

theorem OwnBytesLast.frame (h : OwnBytesLast p addr c w) {a : VAddr} (ha : p.cellAt a = some cell)
    (hc : ∀ i < 4, cell ≠ c i) :
    putWord w value (bytesFirst addr c value f) cell = f cell := by
  have hw : ∀ j < 4, cell ≠ w j := by
    intro j hj heq
    obtain ⟨i, hi, hcell⟩ := h.others a cell ha j hj heq
    exact hc i hi hcell
  rw [putWord_other hw, bytesFirst]
  split
  · exact putWord_other hc
  · rfl

theorem writeExact_of_writesThrough (h : WritesThrough hooks p addr) :
    WriteExact handlers hooks p addr value := by
  obtain ⟨c, w, hw, hread, hwrite, horder⟩ := h
  have hinjective : ∀ i < 4, ∀ j < 4, w i = w j → i = j :=
    fun i hi j hj => wideCells_injective hw hi hj
  have hcontents : ∀ i < 4, putWord w value (bytesFirst addr c value p.contents) (c i) =
      byteOf value i := fun i hi => horder.contents hinjective hi
  refine ⟨_, writeMemory32_plain hw hwrite, fun i hi => ?_, ?_, fun a cell ha hne => ?_⟩
  · let p' := p.withContents (putWord w value (bytesFirst addr c value p.contents))
    have hbyte : readMemory handlers hooks (addr + BitVec.ofNat 32 i) p' =
        .ok (p'.contents (c i)) p' := readMemory_plain (hread i hi)
    rwa [contents_withContents, hcontents i hi] at hbyte
  · refine readMemory32_plain hread fun i hi => ?_
    rw [contents_withContents, hcontents i hi]
  · rw [contents_withContents]
    refine horder.frame ha fun i hi heq => hne i hi ?_
    rw [heq]
    exact plainCell_cellAt (hread i hi)

/-! ## Where it is not -/

/-- Hooks and devices that let nothing through. -/
def rejecting : Handlers H σ where
  onRead _ _ _ := throw (.invalid "access")
  onWrite _ _ _ _ := throw (.invalid "access")
  deviceRead _ _ _ := throw (.invalid "access")
  deviceWrite _ _ _ _ := throw (.invalid "access")

theorem plain_of_writeMemory (h : writeMemory rejecting hooks addr b p = .ok () p') :
    ∃ cell, plainCell hooks .write p addr = some cell := by
  unfold writeMemory at h
  unfold plainCell
  split at h
  next hint =>
    rw [if_pos hint, cellAt, if_pos hint]
    simp only [bind, EStateM.bind, get, getThe, MonadStateOf.get, EStateM.get] at h
    cases hbuffer : p.bufferAt 1 addr with
    | some e => exact ⟨_, rfl⟩
    | none =>
      rw [hbuffer] at h
      cases h
  next hext =>
    rw [if_neg hext]
    simp only [bind, EStateM.bind, get, getThe, MonadStateOf.get, EStateM.get] at h
    cases hres : resolveVirtualAddr p.memory addr with
    | none =>
      rw [hres] at h
      cases h
    | some physAddr =>
      rw [hres] at h
      simp only [onPhysical, writeLegacy] at h ⊢
      cases hspot : physicalSpot hooks .write physAddr with
      | error e =>
        rw [hspot] at h
        cases h
      | ok spot =>
        rw [hspot] at h
        cases spot with
        | memory location => exact ⟨_, rfl⟩
        | hooked handler paddr => cases h
        | device bus paddr => cases h

theorem plain_of_readMemory (h : readMemory rejecting hooks addr p = .ok b p') :
    ∃ cell, plainCell hooks .read p addr = some cell := by
  unfold readMemory at h
  unfold plainCell
  split at h
  next hint =>
    rw [if_pos hint, cellAt, if_pos hint]
    simp only [bind, EStateM.bind, get, getThe, MonadStateOf.get, EStateM.get] at h
    cases hbuffer : p.bufferAt 1 addr with
    | some e => exact ⟨_, rfl⟩
    | none =>
      rw [hbuffer] at h
      cases h
  next hext =>
    rw [if_neg hext]
    simp only [bind, EStateM.bind, get, getThe, MonadStateOf.get, EStateM.get] at h
    cases hres : resolveVirtualAddr p.memory addr with
    | none =>
      rw [hres] at h
      cases h
    | some physAddr =>
      rw [hres] at h
      simp only [readLegacy] at h ⊢
      cases hspot : physicalSpot hooks .read physAddr with
      | error e =>
        rw [hspot] at h
        cases h
      | ok spot =>
        rw [hspot] at h
        cases spot with
        | memory location => exact ⟨_, rfl⟩
        | hooked handler paddr => cases h
        | device bus paddr => cases h

theorem wide_of_writeAtOnce (h : writeMemory32AtOnce rejecting hooks addr value p = .ok () p') :
    ∃ w, wideCells hooks p addr = some w := by
  unfold writeMemory32AtOnce at h
  unfold wideCells
  split at h
  next hint =>
    rw [if_pos hint]
    simp only [bind, EStateM.bind, get, getThe, MonadStateOf.get, EStateM.get] at h
    cases hbuffer : p.bufferAt 4 addr with
    | some e => exact ⟨_, rfl⟩
    | none =>
      rw [hbuffer] at h
      cases h
  next hext =>
    rw [if_neg hext]
    simp only [bind, EStateM.bind, get, getThe, MonadStateOf.get, EStateM.get] at h
    cases hres : resolveVirtualAddr p.memory addr with
    | none =>
      rw [hres] at h
      cases h
    | some physAddr =>
      rw [hres] at h
      simp only [onPhysical, writeLegacy] at h ⊢
      cases hspot : physicalSpot hooks .write physAddr with
      | error e =>
        rw [hspot] at h
        cases h
      | ok spot =>
        rw [hspot] at h
        cases spot with
        | memory location =>
          by_cases hstored : Stored location 4
          · exact ⟨_, if_pos hstored⟩
          · simp only [store, if_neg hstored] at h
            cases h
        | hooked handler paddr => cases h
        | device bus paddr => cases h

theorem plain_of_writeByBytes
    (h : writeMemory32ByBytes rejecting hooks addr value p = .ok () p') :
    ∀ i < 4, ∃ cell, plainCell hooks .write p (addr + BitVec.ofNat 32 i) = some cell := by
  unfold writeMemory32ByBytes at h
  obtain ⟨⟨⟩, p₁, h₀, h⟩ := EStateM.bind_eq_ok_iff.1 h
  obtain ⟨cell₀, hcell₀⟩ := plain_of_writeMemory h₀
  cases (writeMemory_plain hcell₀).symm.trans h₀
  obtain ⟨⟨⟩, p₂, h₁, h⟩ := EStateM.bind_eq_ok_iff.1 h
  obtain ⟨cell₁, hcell₁⟩ := plain_of_writeMemory h₁
  cases (writeMemory_plain hcell₁).symm.trans h₁
  obtain ⟨⟨⟩, p₃, h₂, h⟩ := EStateM.bind_eq_ok_iff.1 h
  obtain ⟨cell₂, hcell₂⟩ := plain_of_writeMemory h₂
  cases (writeMemory_plain hcell₂).symm.trans h₂
  obtain ⟨cell₃, hcell₃⟩ := plain_of_writeMemory h
  intro i hi
  interval_cases i
  · exact ⟨cell₀, by simpa using hcell₀⟩
  · exact ⟨cell₁, hcell₁⟩
  · exact ⟨cell₂, hcell₂⟩
  · exact ⟨cell₃, hcell₃⟩

theorem write_of_ok (h : writeMemory32 rejecting hooks addr value p = .ok () p') :
    ∃ c w : ℕ → Cell, wideCells hooks p addr = some w ∧
      (addr % 4 ≠ 0 → ∀ i < 4,
        plainCell hooks .write p (addr + BitVec.ofNat 32 i) = some (c i)) := by
  unfold writeMemory32 at h
  by_cases halign : addr % 4 ≠ 0
  · rw [if_pos halign] at h
    obtain ⟨⟨⟩, p₁, hbytes, hword⟩ := EStateM.bind_eq_ok_iff.1 h
    choose! c hc using plain_of_writeByBytes hbytes
    cases (writeByBytes_plain hc).symm.trans hbytes
    obtain ⟨w, hw⟩ := wide_of_writeAtOnce hword
    exact ⟨c, w, hw, fun _ => hc⟩
  · rw [if_neg halign] at h
    obtain ⟨w, hw⟩ := wide_of_writeAtOnce h
    exact ⟨w, w, hw, fun h => absurd h halign⟩

/-- What an exact write says of the bytes it writes and of the others. -/
structure BytesExact (p : FakeProcess σ) (addr : VAddr) (c w : ℕ → Cell) (value : BitVec 32) :
    Prop where
  own : ∀ i < 4, putWord w value (bytesFirst addr c value p.contents) (c i) = byteOf value i
  others : ∀ a cell, p.cellAt a = some cell → (∀ i < 4, cell ≠ c i) →
    putWord w value (bytesFirst addr c value p.contents) cell = p.contents cell

theorem WriteExact.bytes (h : WriteExact rejecting hooks p addr value)
    (hw : wideCells hooks p addr = some w) (hwrite : addr % 4 ≠ 0 →
      ∀ i < 4, plainCell hooks .write p (addr + BitVec.ofNat 32 i) = some (c i))
    (hread : ∀ i < 4, plainCell hooks .read p (addr + BitVec.ofNat 32 i) = some (c i)) :
    BytesExact p addr c w value := by
  obtain ⟨p', hok, hbytes, -, hframe⟩ := h
  cases (writeMemory32_plain hw hwrite).symm.trans hok
  constructor
  · intro i hi
    have hbyte := (readMemory_plain (p := p.withContents _) (hread i hi)).symm.trans (hbytes i hi)
    rw [contents_withContents] at hbyte
    exact (EStateM.Result.ok.inj hbyte).1
  · intro a cell ha hne
    have hother := hframe a cell ha fun i hi heq => by
      rw [plainCell_cellAt (hread i hi)] at heq
      exact hne i hi (Option.some.inj heq).symm
    rwa [contents_withContents] at hother

theorem digits_differ : ∀ i < 4, ∀ j < 4, byteOf 0x04030201 i = byteOf 0x04030201 j → i = j := by
  decide

theorem ones_differ : ∀ i < 4, byteOf 0 i ≠ byteOf 0xFFFFFFFF i := by
  decide

theorem ownBytesLast_of_exact (h : ∀ value, BytesExact p addr c w value)
    (hinjective : ∀ i < 4, ∀ j < 4, w i = w j → i = j) : OwnBytesLast p addr c w := by
  have hlast {value : BitVec 32} {f : Cell → BitVec 8} {j : ℕ} (hj : j < 4) :
      putWord w value f (w j) = byteOf value j :=
    putWord_last hj fun k hk hjk hkj => hjk.ne' (hinjective k hk j hj hkj)
  constructor
  · intro i hi j hj hij
    have hbyte := (h 0x04030201).own i hi
    rw [hij, hlast hj] at hbyte
    exact (digits_differ j hj i hi hbyte).symm
  · intro i hi hmeet
    have hbyte (value : BitVec 32) : bytesFirst addr c value p.contents (c i) = byteOf value i := by
      rw [← (h value).own i hi, putWord_other hmeet]
    by_cases halign : addr % 4 ≠ 0
    · refine ⟨halign, fun k hk hik hki => ?_⟩
      have hfirst := hbyte 0x04030201
      rw [bytesFirst, if_pos halign, ← hki] at hfirst
      obtain ⟨k', hk', hkk', -, hval⟩ := putWord_some hk
      have := digits_differ k' hk' i hi (hval.symm.trans hfirst)
      omega
    · have hzero := hbyte 0
      have hones := hbyte 0xFFFFFFFF
      rw [bytesFirst, if_neg halign] at hzero hones
      exact absurd (hzero.symm.trans hones) (ones_differ i hi)
  · intro a cell ha j hj heq
    by_contra hnone
    push Not at hnone
    have hzero := (h 0).others a cell ha hnone
    have hones := (h 0xFFFFFFFF).others a cell ha hnone
    rw [heq, hlast hj] at hzero hones
    exact absurd (hzero.trans hones.symm) (ones_differ j hj)

theorem writesThrough_of_exact (h : ∀ value, WriteExact rejecting hooks p addr value) :
    WritesThrough hooks p addr := by
  obtain ⟨p', hok, hbytes, -, -⟩ := h 0
  obtain ⟨c', w, hw, hwrite⟩ := write_of_ok hok
  cases (writeMemory32_plain hw hwrite).symm.trans hok
  have hplain : ∀ i < 4, ∃ cell, plainCell hooks .read p (addr + BitVec.ofNat 32 i) = some cell :=
    fun i hi => plain_of_readMemory (p := p.withContents _) (hbytes i hi)
  choose! c hread using hplain
  have hwrite : addr % 4 ≠ 0 →
      ∀ i < 4, plainCell hooks .write p (addr + BitVec.ofNat 32 i) = some (c i) := by
    intro halign i hi
    have hsame := (plainCell_cellAt (hwrite halign i hi)).symm.trans (plainCell_cellAt (hread i hi))
    rw [hwrite halign i hi, hsame]
  exact ⟨c, w, hw, hread, hwrite, ownBytesLast_of_exact
    (fun value => (h value).bytes hw hwrite hread) fun i hi j hj => wideCells_injective hw hi hj⟩

end

/-- **A word is written right** at exactly the addresses at which its own bytes are written last. -/
theorem write_word_exact (hooks : Hooks H) (p : FakeProcess σ) (addr : VAddr) :
    (∀ (handlers : Handlers H σ) (value : BitVec 32), WriteExact handlers hooks p addr value) ↔
      WritesThrough hooks p addr :=
  ⟨fun h => writesThrough_of_exact (h rejecting), fun h _ _ => writeExact_of_writesThrough h⟩

/-- Three pages, of which the second is behind the third in memory. -/
def threePages : FakeProcess Unit where
  memory := ⟨[(0x08000000, ⟨0x20000000, 0x1000, .readWrite⟩),
    (0x08001000, ⟨0x20002000, 0x1000, .readWrite⟩),
    (0x08002000, ⟨0x20001000, 0x1000, .readWrite⟩)], by unfold SortedMap.Sorted; decide⟩
  staticBuffers := .empty
  data := fun _ _ => 0
  physical := ⟨fun _ => 0, ()⟩

/-- A word across the first two pages is also written to the third. -/
theorem word_spills : ¬ ∀ (p : FakeProcess Unit) (addr : VAddr), (∀ i < 4,
    (p.cellAt (addr + BitVec.ofNat 32 i)).isSome) → ∀ (handlers : Handlers Unit Unit) value,
      WriteExact handlers (fun _ _ => []) p addr value := by
  intro h
  obtain ⟨c, w, hw, hread, -, horder⟩ :=
    writesThrough_of_exact (h threePages 0x08000ffe (by decide) rejecting)
  have hwide : wideCells (fun _ _ => ([] : List (Hook Unit))) threePages 0x08000ffe =
      some fun i => .ram (0x20000ffe + BitVec.ofNat 32 i) := by
    have hres : resolveVirtualAddr threePages.memory 0x08000ffe = some 0x20000ffe := by decide
    have hstored : Stored 0x20000ffe 4 := by decide
    rw [wideCells, if_neg (by decide), hres]
    simp only
    rw [show physicalSpot (fun _ _ => ([] : List (Hook Unit))) .write 0x20000ffe =
      .ok (.memory 0x20000ffe) from rfl]
    exact if_pos hstored
  cases hwide.symm.trans hw
  obtain ⟨i, hi, heq⟩ := horder.others 0x08002000 (.ram 0x20001000) (by decide) 2 (by decide) rfl
  have hown : ∀ i < 4, threePages.cellAt (0x08000ffe + BitVec.ofNat 32 i) ≠
      some (.ram 0x20001000) := by decide
  exact hown i hi (heq ▸ plainCell_cellAt (hread i hi))

end Mikage.Fake
