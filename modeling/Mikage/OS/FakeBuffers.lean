import Mikage.OS.FakeProcess
import Mikage.Memory.FirstFit
import Mikage.Lib.Masks
import Mikage.Lib.Run

/-!
# Buffers of a fake process

A buffer is placed behind the last live one, or where the memory map has room, and is entered into
the map under an address that nothing reads. Freeing it leaves that entry.

- `allocateStaticBuffer`, `allocateBuffer`, `freeBuffer`: the updates.
- `BuffersExact`: live buffers are disjoint and keep what was written to them.
- `StaticRoom`, `BufferRoom`: where an allocation finds its place free.
-/

namespace Mikage.Fake

variable {H σ : Type}

/-- To whole pages, in 32 bits. -/
def roundSize (size : BitVec 32) : BitVec 32 := (size + 0xfff) &&& ~~~0xfff#32

namespace FakeProcess

/-- Behind the last buffer. -/
def staticStart (p : FakeProcess σ) : VAddr :=
  match p.staticBuffers.entries.getLast? with
  | none => 0x80000000
  | some (start, size) => start + BitVec.ofNat 32 size

/-- `insert` of a buffer of zeros, which leaves a buffer that is there already. -/
def insertBuffer (p : FakeProcess σ) (start : VAddr) (size : ℕ) : FakeProcess σ :=
  { p with
    staticBuffers := p.staticBuffers.insert start size
    data := if ∃ e ∈ p.staticBuffers.entries, e.1 = start then p.data
      else Function.update p.data start fun _ => 0 }

/-- `resize` of a buffer that is there already, or of a new one. -/
def resizeBuffer (p : FakeProcess σ) (start : VAddr) (size : ℕ) : FakeProcess σ :=
  let old := (p.staticBuffers.entries.find? (·.1 = start)).elim 0 (·.2)
  { p with
    staticBuffers := p.staticBuffers.set start size
    data := Function.update p.data start fun i => if i < old then p.data start i else 0 }

end FakeProcess

open FakeProcess

def mapInternal (size : BitVec 32) (startAddr : VAddr) : FakeM σ Unit := do
  let r := mapVirtualMemory (← get).memory 0xdeadbeef size startAddr .readWrite
  modify fun p => { p with memory := r.memory }
  match r.outcome with
  | .error e => throw e
  | .ok false => throw (.runtimeError "Failed to map internal memory")
  | .ok true => return ()

def allocateStaticBuffer (size : BitVec 32) : FakeM σ VAddr := do
  let size := roundSize size
  let startAddr := (← get).staticStart
  mapInternal size startAddr
  if ¬ isInternalAddress startAddr then
    throw (.runtimeError "Integer overflow while allocating internal memory")
  modify (·.insertBuffer startAddr size.toNat)
  return startAddr

def allocateBuffer (size : BitVec 32) : FakeM σ VAddr := do
  let size := roundSize size
  match findAvailableVirtualMemory (← get).memory size 0x80000000 (0xFFFFFFFF - size + 1) with
  | none => throw (.nullPointer "FindAvailableVirtualMemory")
  | some startAddr =>
    mapInternal size startAddr
    modify (·.resizeBuffer startAddr size.toNat)
    return startAddr

/-- `FreeBuffer` and `FreeStaticBuffer` -/
def freeBuffer (addr : VAddr) : FakeM σ Unit :=
  modify fun p => { p with staticBuffers := p.staticBuffers.erase addr }

/-! ## Runs -/

/-- An address of a buffer. -/
def InBuffer (start : VAddr) (size : ℕ) (x : VAddr) : Prop :=
  start.toNat ≤ x.toNat ∧ x.toNat < start.toNat + size

instance (start : VAddr) (size : ℕ) (x : VAddr) : Decidable (InBuffer start size x) :=
  inferInstanceAs (Decidable (_ ∧ _))

/-- A fake process and the byte last written to each address since it was allocated. -/
structure BufferRun (σ : Type) where
  process : FakeProcess σ
  written : VAddr → Option (BitVec 8)

/-- A static buffer has its place behind the last live buffer, below the top of the address space,
and nothing is mapped there. -/
def StaticRoom (p : FakeProcess σ) (size : BitVec 32) : Prop :=
  roundSize size ≠ 0 ∧ p.staticStart.toNat + (roundSize size).toNat < 2 ^ 32 ∧
    Unmapped p.memory p.staticStart (roundSize size)

/-- A buffer has a free range among the internal addresses that ends its own size below the top. -/
def BufferRoom (p : FakeProcess σ) (size : BitVec 32) : Prop :=
  roundSize size ≠ 0 ∧ ∃ a, Available p.memory (roundSize size) 0x80000000
    (0xFFFFFFFF - roundSize size + 1) a

/-- What was written to a new buffer's range is gone. -/
def forget (written : VAddr → Option (BitVec 8)) (start : VAddr) (size : ℕ) (x : VAddr) :
    Option (BitVec 8) :=
  if InBuffer start size x then none else written x

/-- The bytes of a word written at once, which all go to where the first one is. -/
def wordWritten (written : VAddr → Option (BitVec 8)) (x : VAddr) (value : BitVec 32) :
    VAddr → Option (BitVec 8) :=
  if isInternalAddress x then
    Function.update (Function.update (Function.update (Function.update written
      x (some (byteOf value 0))) (x + 1) (some (byteOf value 1)))
      (x + 2) (some (byteOf value 2))) (x + 3) (some (byteOf value 3))
  else written

section

variable (handlers : Handlers H σ) (hooks : Hooks H)

/-- Allocations where there is room, frees of live buffers, and writes, through `WriteMemory` and
the rest of `WriteMemory32`, or the pointer to the bytes. -/
inductive BufferStep : BufferRun σ → BufferRun σ → Prop where
  | allocateStatic {p p' : FakeProcess σ} {written size a} : StaticRoom p size →
      allocateStaticBuffer size p = .ok a p' →
      BufferStep ⟨p, written⟩ ⟨p', forget written a (roundSize size).toNat⟩
  | allocate {p p' : FakeProcess σ} {written size a} : BufferRoom p size →
      allocateBuffer size p = .ok a p' →
      BufferStep ⟨p, written⟩ ⟨p', forget written a (roundSize size).toNat⟩
  | free {p p' : FakeProcess σ} {written a n} : (a, n) ∈ p.staticBuffers →
      freeBuffer a p = .ok () p' → BufferStep ⟨p, written⟩ ⟨p', written⟩
  | write {p p' : FakeProcess σ} {written x b} : writeMemory handlers hooks x b p = .ok () p' →
      BufferStep ⟨p, written⟩ ⟨p', Function.update written x (some b)⟩
  | writeThrows {p p' : FakeProcess σ} {written x b e} :
      writeMemory handlers hooks x b p = .error e p' → BufferStep ⟨p, written⟩ ⟨p', written⟩
  | writeWord {p p' : FakeProcess σ} {written x value} :
      writeMemory32AtOnce handlers hooks x value p = .ok () p' →
      BufferStep ⟨p, written⟩ ⟨p', wordWritten written x value⟩
  | writeWordThrows {p p' : FakeProcess σ} {written x value e} :
      writeMemory32AtOnce handlers hooks x value p = .error e p' →
      BufferStep ⟨p, written⟩ ⟨p', written⟩
  | poke {p : FakeProcess σ} {written a n b} {i : BitVec 32} : (a, n) ∈ p.staticBuffers →
      i.toNat < n →
      BufferStep ⟨p, written⟩ ⟨p.setByte a i b, Function.update written (a + i) (some b)⟩

/-- Live buffers are disjoint, and an address of one reads the byte last written to it. -/
structure BuffersExact (s : BufferRun σ) : Prop where
  disjoint : ∀ e ∈ s.process.staticBuffers, ∀ e' ∈ s.process.staticBuffers, e.1 ≠ e'.1 →
    e.1.toNat + e.2 ≤ e'.1.toNat ∨ e'.1.toNat + e'.2 ≤ e.1.toNat
  reads : ∀ e ∈ s.process.staticBuffers, ∀ x, InBuffer e.1 e.2 x → ∀ b, s.written x = some b →
    readMemory handlers hooks x s.process = .ok b s.process

end

/-- A process without buffers, whatever it has mapped. -/
structure NoBuffers (s : BufferRun σ) : Prop where
  memory : Disjoint s.process.memory
  buffers : s.process.staticBuffers = .empty
  written : ∀ x, s.written x = none

section

variable {handlers : Handlers H σ} {hooks : Hooks H} {p p' : FakeProcess σ} {s s' : BufferRun σ}
  {written : VAddr → Option (BitVec 8)} {start : VAddr} {size : BitVec 32}

theorem roundSize_ge (h : roundSize size ≠ 0) : size.toNat ≤ (roundSize size).toNat := by
  have hround : (roundSize size).toNat = (size + 0xfff).toNat / 4096 * 4096 :=
    BitVec.toNat_and_not_mask (size + 0xfff) 12
  have hne : (roundSize size).toNat ≠ 0 := fun heq => h (BitVec.eq_of_toNat_eq heq)
  have hsum : (size + 0xfff).toNat = (size.toNat + 0xfff) % 2 ^ 32 := BitVec.toNat_add ..
  omega

/-! ## The invariant -/

/-- A live buffer is internal and has an entry in the map that is as large. -/
structure Live (p : FakeProcess σ) (e : VAddr × ℕ) : Prop where
  internal : 0x80000000 ≤ e.1.toNat
  mapped : ∃ block, (e.1, block) ∈ p.memory ∧ block.size.toNat = e.2

/-- The invariant. Entries of freed buffers stay, so it says nothing of what else is mapped. -/
structure Inv (s : BufferRun σ) : Prop where
  memory : Disjoint s.process.memory
  live : ∀ e ∈ s.process.staticBuffers, Live s.process e
  written : ∀ e ∈ s.process.staticBuffers, ∀ x, InBuffer e.1 e.2 x → ∀ b, s.written x = some b →
    s.process.data e.1 (x - e.1).toNat = b

theorem Live.below_top (hm : Disjoint p.memory) {e : VAddr × ℕ} (he : Live p e) :
    0 < e.2 ∧ e.1.toNat + e.2 < 2 ^ 32 := by
  obtain ⟨block, hblock, hsize⟩ := he.mapped
  rw [← hsize]
  exact ⟨hm.nonempty _ hblock, hm.below_top _ hblock⟩

theorem Live.disjoint (hm : Disjoint p.memory) {e e' : VAddr × ℕ} (he : Live p e)
    (he' : Live p e') (hne : e.1 ≠ e'.1) :
    e.1.toNat + e.2 ≤ e'.1.toNat ∨ e'.1.toNat + e'.2 ≤ e.1.toNat := by
  obtain ⟨block, hblock, hsize⟩ := he.mapped
  obtain ⟨block', hblock', hsize'⟩ := he'.mapped
  rw [← hsize, ← hsize']
  rcases lt_or_gt_of_ne hne with h | h
  · exact .inl (hm.disjoint _ hblock _ hblock' h)
  · exact .inr (hm.disjoint _ hblock' _ hblock h)

theorem Live.apart (hm : Disjoint p.memory) (hs : size ≠ 0) (hfree : Unmapped p.memory start size)
    {e : VAddr × ℕ} (he : Live p e) :
    e.1.toNat + e.2 ≤ start.toNat ∨ start.toNat + size.toNat ≤ e.1.toNat := by
  obtain ⟨block, hblock, hsize⟩ := he.mapped
  rw [← hsize]
  exact (unmapped_iff hm.intervals hs).1 hfree _ hblock

theorem isInternalAddress_iff {x : VAddr} : isInternalAddress x ↔ 0x80000000 ≤ x.toNat := by
  have hzero : x >>> 31 = 0 ↔ x.toNat < 0x80000000 := by
    rw [← BitVec.toNat_inj, BitVec.toNat_ushiftRight, Nat.shiftRight_eq_div_pow]
    show x.toNat / 2 ^ 31 = 0 ↔ _
    omega
  rw [isInternalAddress, decide_eq_true_iff, ne_eq, hzero, not_lt]

theorem Inv.bufferAt (h : Inv s) {e : VAddr × ℕ} (he : e ∈ s.process.staticBuffers) {x : VAddr}
    (hx : InBuffer e.1 e.2 x) : s.process.bufferAt 1 x = some e := by
  have hcontains : decide (e.1 ≤ x ∧ x.toNat + 1 - 1 < e.1.toNat + e.2) = true :=
    decide_eq_true ⟨BitVec.le_def.2 hx.1, by have := hx.2; omega⟩
  cases hfind : s.process.bufferAt 1 x with
  | none =>
    have hnone := List.find?_eq_none.1 hfind e he
    exact absurd hcontains hnone
  | some e' =>
    have he' : e' ∈ s.process.staticBuffers := List.mem_of_find?_eq_some hfind
    have hin : e'.1 ≤ x ∧ x.toNat + 1 - 1 < e'.1.toNat + e'.2 := by
      unfold FakeProcess.bufferAt at hfind
      simpa using List.find?_some hfind
    have hle := BitVec.le_def.1 hin.1
    by_cases hne : e.1 = e'.1
    · rw [SortedMap.eq_of_fst_eq he he' hne]
    · have hlow := hx.1
      have hhigh := hx.2
      rcases (h.live e he).disjoint h.memory (h.live e' he') hne with hd | hd <;> omega

theorem Inv.exact (h : Inv s) : BuffersExact handlers hooks s where
  disjoint e he e' he' hne := (h.live e he).disjoint h.memory (h.live e' he') hne
  reads e he x hx b hb := by
    have hint : isInternalAddress x := isInternalAddress_iff.2 ((h.live e he).internal.trans hx.1)
    have hcell : plainCell hooks .read s.process x = some (.buffer e.1 (x - e.1).toNat) := by
      rw [plainCell, if_pos hint, cellAt, if_pos hint, h.bufferAt he hx]
      rfl
    have hread : readMemory handlers hooks x s.process =
        .ok (s.process.data e.1 (x - e.1).toNat) s.process := readMemory_plain hcell
    rwa [h.written e he x hx b hb] at hread

/-! ## Allocations -/

theorem mapInternal_unmapped (hm : Disjoint p.memory) (hs : size ≠ 0)
    (hfit : start.toNat + size.toNat < 2 ^ 32) (hfree : Unmapped p.memory start size) :
    ¬ Rejected p.memory size start ∧ mapInternal size start p = .ok () { p with
      memory := p.memory.insert start ⟨0xdeadbeef, size, .readWrite⟩ } := by
  have haccepted := hfree.not_rejected hm hs hfit
  refine ⟨haccepted, ?_⟩
  unfold mapInternal
  refine (EStateM.bind_of_ok rfl).trans ?_
  simp only [mapVirtualMemory_accepted hm hs haccepted]
  rfl

theorem mapInternal_rejected (hm : Disjoint p.memory) (hs : size ≠ 0)
    (h : Rejected p.memory size start) : mapInternal size start p =
      .error (.runtimeError "Failed to map internal memory") p := by
  unfold mapInternal
  refine (EStateM.bind_of_ok rfl).trans ?_
  simp only [mapVirtualMemory_rejected hm hs h]
  rfl

/-- What an allocation has done: the buffer is live, its range was free and is mapped now. -/
structure Placed (p p' : FakeProcess σ) (start : VAddr) (size : BitVec 32) : Prop where
  internal : 0x80000000 ≤ start.toNat
  unmapped : Unmapped p.memory start size
  accepted : ¬ Rejected p.memory size start
  fits : start.toNat + size.toNat < 2 ^ 32
  memory : p'.memory = p.memory.insert start ⟨0xdeadbeef, size, .readWrite⟩
  buffers : ∀ e, e ∈ p'.staticBuffers ↔ e ∈ p.staticBuffers ∨ e = (start, size.toNat)
  data : ∀ a ≠ start, p'.data a = p.data a

/-- The range of an allocation starts at no live buffer. -/
theorem Inv.fresh (h : Inv ⟨p, written⟩) (hs : size ≠ 0) (hfree : Unmapped p.memory start size) :
    ∀ e ∈ p.staticBuffers, e.1 ≠ start := by
  intro e he heq
  have hpos := ((h.live e he).below_top h.memory).1
  have hsize : 0 < size.toNat := by bv_omega
  rcases (h.live e he).apart h.memory hs hfree with hd | hd <;> rw [heq] at hd <;> omega

theorem Inv.placed (h : Inv ⟨p, written⟩) (hs : size ≠ 0) (hp : Placed p p' start size) :
    Inv ⟨p', forget written start size.toNat⟩ := by
  have hm : Disjoint p.memory := h.memory
  have hmem : ∀ e, e ∈ p'.memory ↔ e ∈ p.memory ∨ e = (start, ⟨0xdeadbeef, size, .readWrite⟩) := by
    intro e
    rw [hp.memory]
    exact mem_insert_of_accepted hm hs hp.accepted hp.fits
  constructor
  · show Disjoint p'.memory
    rw [hp.memory]
    exact hm.insert hs hp.accepted hp.fits
  · intro e he
    rcases (hp.buffers e).1 he with hold | rfl
    · obtain ⟨block, hblock, hsize⟩ := (h.live e hold).mapped
      exact ⟨(h.live e hold).internal, block, (hmem _).2 (.inl hblock), hsize⟩
    · exact ⟨hp.internal, _, (hmem _).2 (.inr rfl), rfl⟩
  · intro e he x hx b hb
    have hb : (if InBuffer start size.toNat x then none else written x) = some b := hb
    split at hb
    · cases hb
    next hout =>
      rcases (hp.buffers e).1 he with hold | rfl
      · have hne := h.fresh hs hp.unmapped e hold
        show p'.data e.1 _ = b
        rw [hp.data e.1 hne]
        exact h.written e hold x hx b hb
      · exact absurd hx hout

theorem Inv.staticStart_internal (h : Inv ⟨p, written⟩) : 0x80000000 ≤ p.staticStart.toNat := by
  unfold staticStart
  cases hlast : p.staticBuffers.entries.getLast? with
  | none => exact Nat.le_refl _
  | some e =>
    have he : e ∈ p.staticBuffers := List.mem_of_getLast? hlast
    have hint := (h.live e he).internal
    have htop := ((h.live e he).below_top h.memory).2
    show _ ≤ (e.1 + BitVec.ofNat 32 e.2).toNat
    rw [BitVec.toNat_add, BitVec.toNat_ofNat]
    omega

theorem Inv.allocateStatic (h : Inv ⟨p, written⟩) (hroom : StaticRoom p size) :
    ∃ p', allocateStaticBuffer size p = .ok p.staticStart p' ∧
      Placed p p' p.staticStart (roundSize size) := by
  obtain ⟨hs, hfit, hfree⟩ := hroom
  obtain ⟨haccepted, hmap⟩ := mapInternal_unmapped h.memory hs hfit hfree
  have hint := h.staticStart_internal
  have hfresh := h.fresh hs hfree
  have hnew : ¬ ∃ e ∈ p.staticBuffers.entries, e.1 = p.staticStart :=
    fun ⟨e, he, heq⟩ => hfresh e he heq
  let p₁ : FakeProcess σ :=
    { p with memory := p.memory.insert p.staticStart ⟨0xdeadbeef, roundSize size, .readWrite⟩ }
  refine ⟨p₁.insertBuffer p.staticStart (roundSize size).toNat, ?_, hint, hfree, haccepted, hfit,
    rfl, fun e => ?_, fun a ha => ?_⟩
  · unfold allocateStaticBuffer
    refine (EStateM.bind_of_ok rfl).trans ?_
    refine (EStateM.bind_of_ok hmap).trans ?_
    rw [if_neg (not_not.2 (isInternalAddress_iff.2 hint))]
    rfl
  · exact SortedMap.mem_insert_of_fresh hfresh
  · show (if _ then p.data else _) a = _
    rw [if_neg hnew, Function.update_of_ne ha]

theorem Inv.allocate (h : Inv ⟨p, written⟩) (hroom : BufferRoom p size) :
    ∃ a p', allocateBuffer size p = .ok a p' ∧ Placed p p' a (roundSize size) := by
  obtain ⟨hs, a, ha⟩ := hroom
  have hpos : 0 < (roundSize size).toNat := by bv_omega
  have hlimit : (0xFFFFFFFF - roundSize size + 1).toNat = 2 ^ 32 - (roundSize size).toNat := by
    bv_omega
  have hstart : (0x80000000 : BitVec 32).toNat + (roundSize size).toNat < 2 ^ 32 := by
    have hle := ha.start
    have hend := ha.limit
    bv_omega
  have hbelow : a.toNat + (roundSize size).toNat < 2 ^ 32 := by
    have hend := ha.limit
    rw [hlimit] at hend
    omega
  have hexact : FindExact p.memory (roundSize size) 0x80000000 (0xFFFFFFFF - roundSize size + 1) :=
    (findExact_iff h.memory.intervals hs hstart).2 (.inl ⟨a, ha.start, hbelow, ha.unmapped⟩)
  cases hfind : findAvailableVirtualMemory p.memory (roundSize size) 0x80000000
      (0xFFFFFFFF - roundSize size + 1) with
  | none => exact absurd ha (hexact.2.1.1 hfind a)
  | some start =>
    have hstart := ((hexact.1 start).1 hfind).1
    have hint := BitVec.le_def.1 hstart.start
    have hend := hstart.limit
    have hfit : start.toNat + (roundSize size).toNat < 2 ^ 32 := by omega
    obtain ⟨haccepted, hmap⟩ := mapInternal_unmapped h.memory hs hfit hstart.unmapped
    let p₁ : FakeProcess σ :=
      { p with memory := p.memory.insert start ⟨0xdeadbeef, roundSize size, .readWrite⟩ }
    refine ⟨start, p₁.resizeBuffer start (roundSize size).toNat, ?_, hint, hstart.unmapped,
      haccepted, hfit, rfl, fun e => ?_, fun b hb => ?_⟩
    · unfold allocateBuffer
      refine (EStateM.bind_of_ok rfl).trans ?_
      rw [hfind]
      refine (EStateM.bind_of_ok hmap).trans ?_
      rfl
    · have hfresh := h.fresh hs hstart.unmapped
      refine SortedMap.mem_set.trans (or_congr_left ?_)
      exact ⟨fun he => he.1, fun he => ⟨he, hfresh e he⟩⟩
    · exact Function.update_of_ne hb ..

/-! ## Frees and writes -/

theorem Inv.free (h : Inv ⟨p, written⟩) (hfree : freeBuffer start p = .ok () p') :
    Inv ⟨p', written⟩ := by
  cases hfree
  have still {e : VAddr × ℕ} (he : e ∈ p.staticBuffers.erase start) : e ∈ p.staticBuffers :=
    (SortedMap.mem_erase.1 he).1
  refine ⟨h.memory, fun e he => ?_, fun e he => h.written e (still he)⟩
  obtain ⟨hint, hmapped⟩ := h.live e (still he)
  exact ⟨hint, hmapped⟩

theorem Inv.physical (h : Inv ⟨p, written⟩) (m : PhysicalMemory σ) :
    Inv ⟨{ p with physical := m }, written⟩ := by
  refine ⟨h.memory, fun e he => ?_, h.written⟩
  obtain ⟨hint, hmapped⟩ := h.live e he
  exact ⟨hint, hmapped⟩

theorem Inv.setByte (h : Inv ⟨p, written⟩) {n : ℕ} (hin : (start, n) ∈ p.staticBuffers)
    {i : BitVec 32} (hi : i.toNat < n) (b : BitVec 8) :
    Inv ⟨p.setByte start i b, Function.update written (start + i) (some b)⟩ := by
  refine ⟨h.memory, fun e he => ?_, fun e he x hx c hc => ?_⟩
  · obtain ⟨hint, hmapped⟩ := h.live e he
    exact ⟨hint, hmapped⟩
  have hc : Function.update written (start + i) (some b) x = some c := hc
  show Function.update p.data start (Function.update (p.data start) i.toNat b) e.1
    (x - e.1).toNat = c
  by_cases hx' : x = start + i
  · subst hx'
    rw [Function.update_self] at hc
    have htop : start.toNat + n < 2 ^ 32 := ((h.live _ hin).below_top h.memory).2
    have hsum : (start + i).toNat = start.toNat + i.toNat := by
      rw [BitVec.toNat_add]
      omega
    obtain rfl : e = (start, n) := by
      by_cases hne : e.1 = start
      · exact SortedMap.eq_of_fst_eq he hin hne
      · have hlow := hx.1
        have hhigh := hx.2
        have hd : e.1.toNat + e.2 ≤ start.toNat ∨ start.toNat + n ≤ e.1.toNat :=
          (h.live e he).disjoint h.memory (h.live _ hin) hne
        omega
    rw [show start + i - start = i from by rw [BitVec.add_comm, BitVec.add_sub_cancel],
      Function.update_self, Function.update_self]
    exact Option.some.inj hc
  · rw [Function.update_of_ne hx'] at hc
    have hold := h.written e he x hx c hc
    by_cases hstart : e.1 = start
    · have hne : (x - start).toNat ≠ i.toNat := by
        intro heq
        have hi : x - start = i := BitVec.eq_of_toNat_eq heq
        exact hx' (by rw [← hi, BitVec.add_comm, BitVec.sub_add_cancel])
      rw [hstart] at hold ⊢
      rw [Function.update_self, Function.update_of_ne hne]
      exact hold
    · rw [Function.update_of_ne hstart]
      exact hold

/-- A write goes to the physical memory, or into the buffer that has the address. -/
theorem writeMemory_cases {x : VAddr} {b : BitVec 8}
    {r : EStateM.Result Exception (FakeProcess σ) Unit}
    (h : writeMemory handlers hooks x b p = r) :
    (∃ m, ¬ isInternalAddress x ∧ r = .ok () { p with physical := m }) ∨
    (∃ e m, r = .error e { p with physical := m }) ∨
    ∃ e ∈ p.staticBuffers, InBuffer e.1 e.2 x ∧ r = .ok () (p.setByte e.1 (x - e.1) b) := by
  subst h
  unfold writeMemory
  split
  next hint =>
    simp only [bind, EStateM.bind, get, getThe, MonadStateOf.get, EStateM.get]
    cases hfind : p.bufferAt 1 x with
    | none => exact .inr (.inl ⟨_, p.physical, rfl⟩)
    | some e =>
      have he : e ∈ p.staticBuffers := List.mem_of_find?_eq_some hfind
      have hin : e.1 ≤ x ∧ x.toNat + 1 - 1 < e.1.toNat + e.2 := by
        unfold FakeProcess.bufferAt at hfind
        simpa using List.find?_some hfind
      exact .inr (.inr ⟨e, he, ⟨BitVec.le_def.1 hin.1, by omega⟩, rfl⟩)
  next hext =>
    simp only [bind, EStateM.bind, get, getThe, MonadStateOf.get, EStateM.get]
    cases hres : resolveVirtualAddr p.memory x with
    | none => exact .inr (.inl ⟨_, p.physical, rfl⟩)
    | some physAddr =>
      simp only [onPhysical]
      cases hwrite : writeLegacy handlers hooks 1 physAddr b.toNat p.physical with
      | ok u m => exact .inl ⟨m, hext, rfl⟩
      | error e m => exact .inr (.inl ⟨e, m, rfl⟩)

theorem writeAtOnce_cases {x : VAddr} {value : BitVec 32}
    {r : EStateM.Result Exception (FakeProcess σ) Unit}
    (h : writeMemory32AtOnce handlers hooks x value p = r) :
    (∃ m, ¬ isInternalAddress x ∧ r = .ok () { p with physical := m }) ∨
    (∃ e m, r = .error e { p with physical := m }) ∨
    ∃ e ∈ p.staticBuffers, isInternalAddress x ∧ e.1.toNat ≤ x.toNat ∧
      x.toNat + 3 < e.1.toNat + e.2 ∧ r = .ok ()
        ((((p.setByte e.1 (x - e.1) (byteOf value 0)).setByte
          e.1 (x - e.1 + 1) (byteOf value 1)).setByte e.1 (x - e.1 + 2) (byteOf value 2)).setByte
          e.1 (x - e.1 + 3) (byteOf value 3)) := by
  subst h
  unfold writeMemory32AtOnce
  split
  next hint =>
    simp only [bind, EStateM.bind, get, getThe, MonadStateOf.get, EStateM.get]
    cases hfind : p.bufferAt 4 x with
    | none => exact .inr (.inl ⟨_, p.physical, rfl⟩)
    | some e =>
      have he : e ∈ p.staticBuffers := List.mem_of_find?_eq_some hfind
      have hin : e.1 ≤ x ∧ x.toNat + 4 - 1 < e.1.toNat + e.2 := by
        unfold FakeProcess.bufferAt at hfind
        simpa using List.find?_some hfind
      exact .inr (.inr ⟨e, he, hint, BitVec.le_def.1 hin.1, by omega, rfl⟩)
  next hext =>
    simp only [bind, EStateM.bind, get, getThe, MonadStateOf.get, EStateM.get]
    cases hres : resolveVirtualAddr p.memory x with
    | none => exact .inr (.inl ⟨_, p.physical, rfl⟩)
    | some physAddr =>
      simp only [onPhysical]
      cases hwrite : writeLegacy handlers hooks 4 physAddr value.toNat p.physical with
      | ok u m => exact .inl ⟨m, hext, rfl⟩
      | error e m => exact .inr (.inl ⟨e, m, rfl⟩)

theorem Inv.setWord (h : Inv ⟨p, written⟩) {e : VAddr × ℕ} (he : e ∈ p.staticBuffers) {x : VAddr}
    {value : BitVec 32} (hint : isInternalAddress x) (hlow : e.1.toNat ≤ x.toNat)
    (hhigh : x.toNat + 3 < e.1.toNat + e.2) :
    Inv ⟨(((p.setByte e.1 (x - e.1) (byteOf value 0)).setByte
        e.1 (x - e.1 + 1) (byteOf value 1)).setByte e.1 (x - e.1 + 2) (byteOf value 2)).setByte
        e.1 (x - e.1 + 3) (byteOf value 3), wordWritten written x value⟩ := by
  have htop := ((h.live e he).below_top h.memory).2
  have hx (d : BitVec 32) : e.1 + (x - e.1 + d) = x + d := by
    rw [← BitVec.add_assoc, BitVec.add_comm e.1, BitVec.sub_add_cancel]
  have hsub : (x - e.1).toNat = x.toNat - e.1.toNat := BitVec.toNat_sub_of_le (BitVec.le_def.2 hlow)
  have hindex (d : BitVec 32) (hd : d.toNat ≤ 3) : (x - e.1 + d).toNat < e.2 := by
    rw [BitVec.toNat_add, hsub]
    omega
  have h₀ := h.setByte he (i := x - e.1) (by rw [hsub]; omega) (byteOf value 0)
  have h₁ := h₀.setByte he (hindex 1 (by decide)) (byteOf value 1)
  have h₂ := h₁.setByte he (hindex 2 (by decide)) (byteOf value 2)
  have h₃ := h₂.setByte he (hindex 3 (by decide)) (byteOf value 3)
  rw [hx, hx, hx, BitVec.add_comm e.1, BitVec.sub_add_cancel] at h₃
  rwa [wordWritten, if_pos hint]

theorem Inv.step (h : Inv s) (hstep : BufferStep handlers hooks s s') : Inv s' := by
  cases hstep with
  | allocateStatic hroom hok =>
    obtain ⟨p', hrun, hplaced⟩ := h.allocateStatic hroom
    cases hrun.symm.trans hok
    exact h.placed hroom.1 hplaced
  | allocate hroom hok =>
    obtain ⟨a, p', hrun, hplaced⟩ := h.allocate hroom
    cases hrun.symm.trans hok
    exact h.placed hroom.1 hplaced
  | free _ hok => exact h.free hok
  | @write p p' written x b hok =>
    rcases writeMemory_cases hok with ⟨m, hext, hok⟩ | ⟨e, m, hok⟩ | ⟨e, he, hx, hok⟩
    · cases hok
      obtain ⟨hm, hlive, hwritten⟩ := h.physical m
      refine ⟨hm, hlive, fun e he y hy c hc => hwritten e he y hy c ?_⟩
      have hne : y ≠ x := by
        rintro rfl
        exact hext (isInternalAddress_iff.2 ((hlive e he).internal.trans hy.1))
      exact (Function.update_of_ne hne ..).symm.trans hc
    · cases hok
    · cases hok
      have hindex : (x - e.1).toNat < e.2 := by
        have hlow := hx.1
        have hhigh := hx.2
        rw [BitVec.toNat_sub_of_le (BitVec.le_def.2 hlow)]
        omega
      have hset := h.setByte he hindex b
      rwa [BitVec.add_comm, BitVec.sub_add_cancel] at hset
  | writeThrows hok =>
    rcases writeMemory_cases hok with ⟨m, -, hok⟩ | ⟨e, m, hok⟩ | ⟨e, -, -, hok⟩
    · cases hok
    · cases hok
      exact h.physical m
    · cases hok
  | @writeWord p p' written x value hok =>
    rcases writeAtOnce_cases hok with ⟨m, hext, hok⟩ | ⟨e, m, hok⟩ | ⟨e, he, hint, hlow, hhigh, hok⟩
    · cases hok
      rw [wordWritten, if_neg hext]
      exact h.physical m
    · cases hok
    · cases hok
      exact h.setWord he hint hlow hhigh
  | writeWordThrows hok =>
    rcases writeAtOnce_cases hok with ⟨m, -, hok⟩ | ⟨e, m, hok⟩ | ⟨e, -, -, -, -, hok⟩
    · cases hok
    · cases hok
      exact h.physical m
    · cases hok
  | poke hin hi => exact h.setByte hin hi _

theorem NoBuffers.inv (h : NoBuffers s) : Inv s where
  memory := h.memory
  live e he := by
    rw [h.buffers] at he
    exact absurd he SortedMap.not_mem_empty
  written e he := by
    rw [h.buffers] at he
    exact absurd he SortedMap.not_mem_empty

/-- **Buffers are exact** in every run whose allocations find room, and so is the next allocation
that does. -/
theorem buffers_exact (s : BufferRun σ)
    (hrun : Run.Reachable NoBuffers (BufferStep handlers hooks) s) :
    BuffersExact handlers hooks s ∧
    (∀ size, StaticRoom s.process size → ∃ a p', allocateStaticBuffer size s.process = .ok a p' ∧
      ∃ n, size.toNat ≤ n ∧ (a, n) ∈ p'.staticBuffers) ∧
    ∀ size, BufferRoom s.process size → ∃ a p', allocateBuffer size s.process = .ok a p' ∧
      ∃ n, size.toNat ≤ n ∧ (a, n) ∈ p'.staticBuffers := by
  have hinv : Inv s :=
    Run.Reachable.invariant (fun _ h => h.inv) (fun _ _ h hstep => h.step hstep) hrun
  refine ⟨hinv.exact, fun size hroom => ?_, fun size hroom => ?_⟩
  · obtain ⟨p', hok, hplaced⟩ := hinv.allocateStatic hroom
    exact ⟨_, p', hok, _, roundSize_ge hroom.1, (hplaced.buffers _).2 (.inr rfl)⟩
  · obtain ⟨a, p', hok, hplaced⟩ := hinv.allocate hroom
    exact ⟨a, p', hok, _, roundSize_ge hroom.1, (hplaced.buffers _).2 (.inr rfl)⟩

end

/-- A process that has not mapped anything. -/
def emptyProcess : FakeProcess Unit where
  memory := .empty
  staticBuffers := .empty
  data := fun _ _ => 0
  physical := ⟨fun _ => 0, ()⟩

theorem noBuffers_empty : NoBuffers ⟨emptyProcess, fun _ => none⟩ :=
  ⟨.empty, rfl, fun _ => rfl⟩

/-- The first static buffer. -/
theorem buffers_exact_first : ∃ p, BuffersExact (rejecting : Handlers Unit Unit) (fun _ _ => [])
      ⟨p, forget (fun _ => none) 0x80000000 0x1000⟩ ∧
    (∀ size, StaticRoom p size → ∃ a p', allocateStaticBuffer size p = .ok a p' ∧
      ∃ n, size.toNat ≤ n ∧ (a, n) ∈ p'.staticBuffers) ∧
    ∀ size, BufferRoom p size → ∃ a p', allocateBuffer size p = .ok a p' ∧
      ∃ n, size.toNat ≤ n ∧ (a, n) ∈ p'.staticBuffers := by
  have hroom : StaticRoom emptyProcess 0x1000 :=
    ⟨by decide, by decide, fun _ _ _ e he => absurd he SortedMap.not_mem_empty⟩
  obtain ⟨p, hok, -⟩ := noBuffers_empty.inv.allocateStatic hroom
  exact ⟨p, buffers_exact _ (.next (.start noBuffers_empty) (.allocateStatic hroom hok))⟩

/-- After the only static buffer is freed, the next one is placed where it is still mapped. -/
theorem static_collides : ¬ ∀ (p p₁ p₂ : FakeProcess Unit) (a : VAddr), Disjoint p.memory →
    p.staticBuffers = .empty → allocateStaticBuffer 0x1000 p = .ok a p₁ →
    freeBuffer a p₁ = .ok () p₂ → ∃ a' p₃, allocateStaticBuffer 0x1000 p₂ = .ok a' p₃ := by
  intro h
  have hroom : StaticRoom emptyProcess 0x1000 :=
    ⟨by decide, by decide, fun _ _ _ e he => absurd he SortedMap.not_mem_empty⟩
  obtain ⟨p₁, hfirst, hplaced⟩ := noBuffers_empty.inv.allocateStatic hroom
  let p₂ : FakeProcess Unit := { p₁ with staticBuffers := p₁.staticBuffers.erase 0x80000000 }
  obtain ⟨a', p₃, hok⟩ := h emptyProcess p₁ p₂ 0x80000000 .empty rfl hfirst rfl
  have hstart : p₂.staticStart = 0x80000000 := by
    have hnone : p₂.staticBuffers.entries = [] := by
      refine List.eq_nil_iff_forall_not_mem.2 fun e he => ?_
      obtain ⟨he, hne⟩ := SortedMap.mem_erase.1 he
      rcases (hplaced.buffers e).1 he with he | rfl
      · exact SortedMap.not_mem_empty he
      · exact hne rfl
    rw [staticStart, hnone]
    rfl
  have hrejected : Rejected p₂.memory (roundSize 0x1000) p₂.staticStart := by
    rw [hstart]
    refine .inl ⟨(0x80000000, ⟨0xdeadbeef, roundSize 0x1000, .readWrite⟩), ?_, le_refl _, by decide⟩
    exact (congrArg ((0x80000000, ⟨0xdeadbeef, roundSize 0x1000, .readWrite⟩) ∈ ·)
      hplaced.memory).mpr (SortedMap.mem_insert_of_fresh (fun _ he =>
        absurd he SortedMap.not_mem_empty) |>.2 (.inr rfl))
  have hm : Disjoint p₂.memory := (noBuffers_empty.inv.placed hroom.1 hplaced).memory
  obtain ⟨_, _, hget, hok⟩ := EStateM.bind_eq_ok_iff.1 hok
  cases hget
  obtain ⟨_, _, hmap, -⟩ := EStateM.bind_eq_ok_iff.1 hok
  cases (mapInternal_rejected hm hroom.1 hrejected).symm.trans hmap

end Mikage.Fake
