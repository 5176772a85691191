import Mikage.Memory.PageTable

/-!
# Accesses of several bytes

`ReadVirtualMemory` and `WriteVirtualMemory` translate the first byte of an access and take the
others to be behind it in physical memory. `readBytes` and `writeBytes` do the access byte by byte,
as `Process::ReadMemory32` and `Process::WriteMemory32` do.

- `spot`: what the access to a byte comes to.
- `Plain`: the accesses for which all bytes lie behind the first one, in memory without hooks.
- `bytewise_exact`: the two agree on these and on no others, whatever hooks and devices do.

A value is a number. The bytes of a bus are read and written in place, and an access past the end of
its storage is undefined: it ends with an exception of its own here.
-/

namespace Mikage

/-- Physical memory, and the state of the devices and of what has set the hooks. -/
structure PhysicalMemory (σ : Type) where
  data : PAddr → BitVec 8
  rest : σ

abbrev MemoryM (σ : Type) := EStateM Exception (PhysicalMemory σ)

/-- The handlers of the hooks and of the busses that are no memory. An access of `n` bytes. -/
structure Handlers (H σ : Type) where
  onRead : H → PAddr → Nat → MemoryM σ Unit
  onWrite : H → PAddr → Nat → Nat → MemoryM σ Unit
  deviceRead : Bus → PAddr → Nat → MemoryM σ Nat
  deviceWrite : Bus → PAddr → Nat → Nat → MemoryM σ Unit

/-- What the access to a byte comes to. -/
inductive Spot (H : Type) where
  | memory (location : PAddr)
  | hooked (handler : H) (paddr : PAddr)
  | device (bus : Bus) (paddr : PAddr)
  deriving DecidableEq

/-- `n` bytes from here on are in the storage of one bus. -/
def Stored (location : PAddr) (n : Nat) : Prop :=
  ∃ bus ∈ Bus.find location, bus.isMemoryBus ∧
    location.toNat + n ≤ bus.start.toNat + bus.size.toNat

instance (location : PAddr) (n : Nat) : Decidable (Stored location n) :=
  decidable_of_iff ((Bus.find location).any fun bus =>
    bus.isMemoryBus ∧ location.toNat + n ≤ bus.start.toNat + bus.size.toNat) (by
      rw [Option.any_eq_true]
      simp only [decide_eq_true_eq]
      rfl)

variable {H σ : Type}

/-- The first byte of an access: in host memory, or at the physical address of the page. -/
def spot (hooks : Hooks H) (access : Access) (t : PageTable) (vaddr : VAddr) :
    Except Exception (Spot H) :=
  match t.lookupHostMemory vaddr with
  | some page =>
    let location := page + (vaddr &&& 0xfff)
    if Stored location 1 then .ok (.memory location)
    else .error (.nullPointer "page.data")
  | none =>
    match t.translateVirtualAddress vaddr with
    | .error e => .error e
    | .ok paddr =>
      match Bus.find paddr with
      | none => .error (.runtimeError (match access with
        | .read => "Read from unknown physical address"
        | .write => "Write to unknown physical address"))
      | some bus =>
        if bus.isMemoryBus then
          match hooks access (bus.pageAddr ((paddr - bus.start) >>> 12)) with
          | [] => .ok (.memory paddr)
          | hook :: _ => .ok (.hooked hook.handler paddr)
        else .ok (.device bus paddr)

/-- The little-endian value of `n` bytes. -/
def littleEndian (data : PAddr → BitVec 8) : Nat → PAddr → Nat
  | 0, _ => 0
  | n + 1, location => (data location).toNat + 256 * littleEndian data n (location + 1)

def storeBytes : Nat → PAddr → Nat → (PAddr → BitVec 8) → PAddr → BitVec 8
  | 0, _, _, data => data
  | n + 1, location, value, data =>
    storeBytes n (location + 1) (value / 256)
      (Function.update data location (BitVec.ofNat 8 value))

/-- `memcpy` from the storage of a bus. -/
def load (n : Nat) (location : PAddr) : MemoryM σ Nat := do
  if Stored location n then return littleEndian (← get).data n location
  else throw (.nullPointer "data")

/-- `memcpy` to the storage of a bus. -/
def store (n : Nat) (location : PAddr) (value : Nat) : MemoryM σ Unit := do
  if Stored location n then
    modify fun s => { s with data := storeBytes n location value s.data }
  else throw (.nullPointer "data")

def readVirtualMemory (handlers : Handlers H σ) (hooks : Hooks H) (t : PageTable) (n : Nat)
    (vaddr : VAddr) : MemoryM σ Nat :=
  match spot hooks .read t vaddr with
  | .error e => throw e
  | .ok (.memory location) => load n location
  | .ok (.hooked handler paddr) => do
    handlers.onRead handler paddr n
    load n paddr
  | .ok (.device bus paddr) => handlers.deviceRead bus paddr n

def writeVirtualMemory (handlers : Handlers H σ) (hooks : Hooks H) (t : PageTable) (n : Nat)
    (vaddr : VAddr) (value : Nat) : MemoryM σ Unit :=
  match spot hooks .write t vaddr with
  | .error e => throw e
  | .ok (.memory location) => store n location value
  | .ok (.hooked handler paddr) => do
    handlers.onWrite handler paddr n value
    store n paddr value
  | .ok (.device bus paddr) => handlers.deviceWrite bus paddr n value

/-- One read a byte. -/
def readBytes (handlers : Handlers H σ) (hooks : Hooks H) (t : PageTable) :
    Nat → VAddr → MemoryM σ Nat
  | 0, _ => return 0
  | n + 1, vaddr => do
    let byte ← readVirtualMemory handlers hooks t 1 vaddr
    let value ← readBytes handlers hooks t n (vaddr + 1)
    return byte + 256 * value

/-- One write a byte. -/
def writeBytes (handlers : Handlers H σ) (hooks : Hooks H) (t : PageTable) :
    Nat → VAddr → Nat → MemoryM σ Unit
  | 0, _, _ => return ()
  | n + 1, vaddr, value => do
    writeVirtualMemory handlers hooks t 1 vaddr (value % 256)
    writeBytes handlers hooks t n (vaddr + 1) (value / 256)

/-- The accesses of more than one byte. -/
inductive Width where
  | half | word
  deriving DecidableEq, Repr

def Width.bytes : Width → Nat
  | .half => 2
  | .word => 4

/-! ## Where the two agree -/

/-- The first byte cannot be accessed at all, or the bytes lie one behind the other in the storage
of a bus, each reached there on its own without a hook. -/
def Plain (hooks : Hooks H) (access : Access) (t : PageTable) (vaddr : VAddr) (n : Nat) : Prop :=
  (∃ e, spot hooks access t vaddr = .error e) ∨
  ∃ location, Stored location n ∧
    ∀ i < n, spot hooks access t (vaddr + BitVec.ofNat 32 i) =
      .ok (.memory (location + BitVec.ofNat 32 i))

variable {hooks : Hooks H} {t : PageTable} {handlers : Handlers H σ} {vaddr : VAddr}
  {location : PAddr} {n value : Nat} {access : Access}

theorem add_ofNat_succ (a : BitVec 32) (i : Nat) :
    a + BitVec.ofNat 32 (i + 1) = a + 1 + BitVec.ofNat 32 i := by bv_omega

theorem isInside_iff {bus : Bus} (h : bus.isMemoryBus) : bus.isInside location ↔
    bus.start.toNat ≤ location.toNat ∧
      location.toNat < bus.start.toNat + bus.size.toNat := by
  have hend : (bus.start + bus.size).toNat = bus.start.toNat + bus.size.toNat := by
    simp only [Bus.isMemoryBus, decide_eq_true_eq] at h
    rcases h with rfl | rfl | rfl <;> rfl
  rw [Bus.isInside, decide_eq_true_iff, BitVec.le_def, BitVec.lt_def, hend]

theorem stored_of_find {bus : Bus} (hfind : Bus.find location = some bus) (h : bus.isMemoryBus) :
    Stored location 1 := by
  have hinside : bus.isInside location := by
    have hp := List.find?_some (l := Bus.busses) hfind
    exact hp
  exact ⟨bus, hfind, h, ((isInside_iff h).1 hinside).2⟩

theorem stored_of_spot (h : spot hooks access t vaddr = .ok (.memory location)) :
    Stored location 1 := by
  unfold spot at h
  split at h
  · simp only at h
    split at h
    next hs =>
      cases h
      exact hs
    next => cases h
  · split at h
    · cases h
    · split at h
      · cases h
      next bus hfind =>
        split at h
        next hmem =>
          split at h
          next =>
            cases h
            exact stored_of_find hfind hmem
          next => cases h
        next => cases h

/-- Translating never ends the way an access past the end of a storage does. -/
theorem spot_ne_data : spot hooks access t vaddr ≠ .error (.nullPointer "data") := by
  intro h
  unfold spot at h
  split at h
  · simp only at h
    split at h
    · cases h
    · simp at h
  next =>
    rw [PageTable.translateVirtualAddress] at h
    split at h
    next e he =>
      split at he
      · cases he
        cases h
      · cases he
    next =>
      split at h
      · cases h
      · split at h
        · split at h <;> cases h
        · cases h

theorem readBytes_plain {s : PhysicalMemory σ}
    (h : ∀ i < n, spot hooks .read t (vaddr + BitVec.ofNat 32 i) =
      .ok (.memory (location + BitVec.ofNat 32 i))) :
    readBytes handlers hooks t n vaddr s = .ok (littleEndian s.data n location) s := by
  induction n generalizing vaddr location with
  | zero => rfl
  | succ n ih =>
    have h₀ : spot hooks .read t vaddr = .ok (.memory location) := by
      simpa using h 0 (Nat.succ_pos n)
    have hrest : readBytes handlers hooks t n (vaddr + 1) s =
        .ok (littleEndian s.data n (location + 1)) s := by
      refine ih fun i hi => ?_
      rw [← add_ofNat_succ, ← add_ofNat_succ]
      exact h (i + 1) (Nat.succ_lt_succ hi)
    have hbyte : readVirtualMemory handlers hooks t 1 vaddr s =
        .ok (s.data location).toNat s := by
      simp only [readVirtualMemory, h₀, load, if_pos (stored_of_spot h₀)]
      rfl
    simp only [readBytes, bind, EStateM.bind, hbyte, hrest]
    rfl

theorem writeBytes_plain {s : PhysicalMemory σ}
    (h : ∀ i < n, spot hooks .write t (vaddr + BitVec.ofNat 32 i) =
      .ok (.memory (location + BitVec.ofNat 32 i))) :
    writeBytes handlers hooks t n vaddr value s =
      .ok () { s with data := storeBytes n location value s.data } := by
  induction n generalizing vaddr location value s with
  | zero => rfl
  | succ n ih =>
    have h₀ : spot hooks .write t vaddr = .ok (.memory location) := by
      simpa using h 0 (Nat.succ_pos n)
    have hbyte : writeVirtualMemory handlers hooks t 1 vaddr (value % 256) s = .ok ()
        { s with data := Function.update s.data location (BitVec.ofNat 8 value) } := by
      have hmod : BitVec.ofNat 8 (value % 256) = BitVec.ofNat 8 value :=
        BitVec.eq_of_toNat_eq (by simp)
      simp only [writeVirtualMemory, h₀, store, if_pos (stored_of_spot h₀), storeBytes, hmod]
      rfl
    simp only [writeBytes, bind, EStateM.bind, hbyte]
    refine ih fun i hi => ?_
    rw [← add_ofNat_succ, ← add_ofNat_succ]
    exact h (i + 1) (Nat.succ_lt_succ hi)

/-! ## Where they do not -/

/-- Hooks and devices that refuse single bytes. -/
def refusing : Handlers H Unit where
  onRead _ _ n := if n = 1 then throw (.invalid "byte") else return ()
  onWrite _ _ n _ := if n = 1 then throw (.invalid "byte") else return ()
  deviceRead _ _ n := if n = 1 then throw (.invalid "byte") else return 0
  deviceWrite _ _ n _ := if n = 1 then throw (.invalid "byte") else return ()

/-- A single byte can be read only if it is in memory. -/
theorem readByte_refusing (hooks : Hooks H) (t : PageTable) (vaddr : VAddr)
    (s : PhysicalMemory Unit) :
    (∃ L, spot hooks .read t vaddr = .ok (.memory L) ∧
      readVirtualMemory refusing hooks t 1 vaddr s = .ok (s.data L).toNat s) ∨
    ∃ e, e ≠ .nullPointer "data" ∧ (∀ L, spot hooks .read t vaddr ≠ .ok (.memory L)) ∧
      readVirtualMemory refusing hooks t 1 vaddr s = .error e s := by
  unfold readVirtualMemory
  cases hspot : spot hooks .read t vaddr with
  | error e =>
    refine .inr ⟨e, ?_, nofun, rfl⟩
    rintro rfl
    exact spot_ne_data hspot
  | ok x =>
    cases x with
    | memory L =>
      refine .inl ⟨L, rfl, ?_⟩
      simp only [load, if_pos (stored_of_spot hspot)]
      rfl
    | hooked handler paddr => exact .inr ⟨_, by decide, nofun, rfl⟩
    | device bus paddr => exact .inr ⟨_, by decide, nofun, rfl⟩

theorem readBytes_refusing (hooks : Hooks H) (t : PageTable) (n : Nat) (vaddr : VAddr)
    (s : PhysicalMemory Unit) :
    (∃ v, readBytes refusing hooks t n vaddr s = .ok v s ∧ ∀ i < n, ∃ L,
      spot hooks .read t (vaddr + BitVec.ofNat 32 i) = .ok (.memory L) ∧
      v / 256 ^ i % 256 = (s.data L).toNat) ∨
    ∃ e, e ≠ .nullPointer "data" ∧ readBytes refusing hooks t n vaddr s = .error e s := by
  induction n generalizing vaddr with
  | zero => exact .inl ⟨0, rfl, nofun⟩
  | succ n ih =>
    simp only [readBytes, bind, EStateM.bind]
    rcases readByte_refusing hooks t vaddr s with
      ⟨L, hspot, hbyte⟩ | ⟨e, he, -, hbyte⟩
    · rcases ih (vaddr + 1) with ⟨v, hv, hdigits⟩ | ⟨e, he, hv⟩
      · refine .inl ⟨(s.data L).toNat + 256 * v, ?_, fun i hi => ?_⟩
        · simp only [hbyte, hv]
          rfl
        · have hL := (s.data L).isLt
          cases i with
          | zero =>
            refine ⟨L, by simpa using hspot, ?_⟩
            rw [Nat.pow_zero, Nat.div_one]
            omega
          | succ i =>
            obtain ⟨L', hspot', hv'⟩ := hdigits i (Nat.lt_of_succ_lt_succ hi)
            refine ⟨L', by rw [add_ofNat_succ]; exact hspot', ?_⟩
            rw [Nat.pow_succ', ← Nat.div_div_eq_div_mul,
              show ((s.data L).toNat + 256 * v) / 256 = v by omega, hv']
      · refine .inr ⟨e, he, ?_⟩
        simp only [hbyte, hv]
    · refine .inr ⟨e, he, ?_⟩
      simp only [hbyte]

theorem littleEndian_digit (data : PAddr → BitVec 8) {i : Nat} (hi : i < n) :
    littleEndian data n location / 256 ^ i % 256 =
      (data (location + BitVec.ofNat 32 i)).toNat := by
  induction n generalizing location i with
  | zero => exact absurd hi (Nat.not_lt_zero _)
  | succ n ih =>
    have hbyte := (data location).isLt
    rw [littleEndian]
    cases i with
    | zero =>
      rw [Nat.pow_zero, Nat.div_one]
      simp only [BitVec.add_zero]
      omega
    | succ i =>
      rw [Nat.pow_succ', ← Nat.div_div_eq_div_mul, show ((data location).toNat +
        256 * littleEndian data n (location + 1)) / 256 = littleEndian data n (location + 1) by omega,
        ih (Nat.lt_of_succ_lt_succ hi), add_ofNat_succ]

/-- The reads agree only on plain accesses: other ones differ for hooks and devices that refuse
single bytes, or for a memory in which one byte is 1. -/
theorem plain_of_read (hn : 2 ≤ n) (h : ∀ s, readVirtualMemory refusing hooks t n vaddr s =
    readBytes refusing hooks t n vaddr s) : Plain hooks .read t vaddr n := by
  have hne : n ≠ 1 := by omega
  -- a first byte that is not in memory is refused, but the wide access is not
  have refused (s : PhysicalMemory Unit) (hspot : ∀ L, spot hooks .read t vaddr ≠ .ok (.memory L)) :
      ∃ e, e ≠ .nullPointer "data" ∧ readVirtualMemory refusing hooks t n vaddr s = .error e s := by
    rcases readBytes_refusing hooks t n vaddr s with
      ⟨v, -, hdigits⟩ | ⟨e, he, hv⟩
    · obtain ⟨L, hL, -⟩ := hdigits 0 (by omega)
      exact absurd (by simpa using hL) (hspot L)
    · exact ⟨e, he, (h s).trans hv⟩
  cases hspot : spot hooks .read t vaddr with
  | error e => exact .inl ⟨e, hspot⟩
  | ok x =>
    cases x with
    | hooked handler paddr =>
      obtain ⟨e, he, hread⟩ := refused ⟨fun _ => 0, ()⟩ (by rw [hspot]; nofun)
      simp only [readVirtualMemory, hspot, refusing, if_neg hne, load, bind, EStateM.bind] at hread
      split at hread
      next =>
        split at hread
        · cases hread
        · cases hread
          exact absurd rfl he
      next heq => cases heq
    | device bus paddr =>
      obtain ⟨e, -, hread⟩ := refused ⟨fun _ => 0, ()⟩ (by rw [hspot]; nofun)
      simp only [readVirtualMemory, hspot, refusing, if_neg hne] at hread
      cases hread
    | memory location =>
      have hwide (s : PhysicalMemory Unit) : readVirtualMemory refusing hooks t n vaddr s =
          load n location s := by simp only [readVirtualMemory, hspot]
      by_cases hstored : Stored location n
      · refine .inr ⟨location, hstored, fun i hi => ?_⟩
        have hload (s : PhysicalMemory Unit) : readBytes refusing hooks t n vaddr s =
            .ok (littleEndian s.data n location) s := by
          rw [← h s, hwide s]
          simp only [load, if_pos hstored]
          rfl
        have digit (s : PhysicalMemory Unit) : ∃ L,
            spot hooks .read t (vaddr + BitVec.ofNat 32 i) = .ok (.memory L) ∧
            (s.data (location + BitVec.ofNat 32 i)).toNat = (s.data L).toNat := by
          rcases readBytes_refusing hooks t n vaddr s with
            ⟨v, hv, hdigits⟩ | ⟨e, -, hv⟩
          · obtain ⟨L, hL, hdigit⟩ := hdigits i hi
            rw [hload s] at hv
            cases hv
            exact ⟨L, hL, (littleEndian_digit s.data hi).symm.trans hdigit⟩
          · rw [hload s] at hv
            cases hv
        obtain ⟨L, hL, -⟩ := digit ⟨fun _ => 0, ()⟩
        obtain ⟨L', hL', hdigit⟩ := digit ⟨fun x => if x = L then 1 else 0, ()⟩
        rw [hL] at hL'
        cases hL'
        simp only [if_true] at hdigit
        by_cases heq : location + BitVec.ofNat 32 i = L
        · rw [hL, heq]
        · rw [if_neg heq] at hdigit
          cases hdigit
      · -- the wide access runs past the end of the storage
        have hload := (hwide ⟨fun _ => 0, ()⟩).symm.trans (h ⟨fun _ => 0, ()⟩)
        simp only [load, if_neg hstored] at hload
        rcases readBytes_refusing hooks t n vaddr ⟨fun _ => 0, ()⟩ with ⟨v, hv, -⟩ | ⟨e, he, hv⟩
        · rw [hv] at hload
          cases hload
        · rw [hv] at hload
          cases hload
          exact absurd rfl he

theorem writeByte_refusing (hooks : Hooks H) (t : PageTable) (vaddr : VAddr) (value : Nat)
    (s : PhysicalMemory Unit) :
    (∃ L, spot hooks .write t vaddr = .ok (.memory L) ∧
      writeVirtualMemory refusing hooks t 1 vaddr value s =
        .ok () { s with data := Function.update s.data L (BitVec.ofNat 8 value) }) ∨
    ∃ e, e ≠ .nullPointer "data" ∧ (∀ L, spot hooks .write t vaddr ≠ .ok (.memory L)) ∧
      writeVirtualMemory refusing hooks t 1 vaddr value s = .error e s := by
  unfold writeVirtualMemory
  cases hspot : spot hooks .write t vaddr with
  | error e =>
    refine .inr ⟨e, ?_, nofun, rfl⟩
    rintro rfl
    exact spot_ne_data hspot
  | ok x =>
    cases x with
    | memory L =>
      refine .inl ⟨L, rfl, ?_⟩
      simp only [store, if_pos (stored_of_spot hspot)]
      rfl
    | hooked handler paddr => exact .inr ⟨_, by decide, nofun, rfl⟩
    | device bus paddr => exact .inr ⟨_, by decide, nofun, rfl⟩

theorem writeBytes_refusing (hooks : Hooks H) (t : PageTable) (n : Nat) (vaddr : VAddr)
    (value : Nat) (s : PhysicalMemory Unit) :
    (∃ s', writeBytes refusing hooks t n vaddr value s = .ok () s' ∧
      (∀ i < n, ∃ L, spot hooks .write t (vaddr + BitVec.ofNat 32 i) = .ok (.memory L)) ∧
      ∀ x, s'.data x = s.data x ∨ ∃ i < n,
        spot hooks .write t (vaddr + BitVec.ofNat 32 i) = .ok (.memory x) ∧
        s'.data x = BitVec.ofNat 8 (value / 256 ^ i)) ∨
    ∃ e s', e ≠ .nullPointer "data" ∧
      writeBytes refusing hooks t n vaddr value s = .error e s' := by
  induction n generalizing vaddr value s with
  | zero => exact .inl ⟨s, rfl, nofun, fun _ => .inl rfl⟩
  | succ n ih =>
    simp only [writeBytes, bind, EStateM.bind]
    rcases writeByte_refusing hooks t vaddr (value % 256) s with
      ⟨L, hspot, hbyte⟩ | ⟨e, he, -, hbyte⟩
    · rw [hbyte]
      rcases ih (vaddr + 1) (value / 256)
        { s with data := Function.update s.data L (BitVec.ofNat 8 (value % 256)) } with
        ⟨s', hrest, hspots, hdata⟩ | ⟨e, s', he, hrest⟩
      · refine .inl ⟨s', hrest, fun i hi => ?_, fun x => ?_⟩
        · cases i with
          | zero => exact ⟨L, by simpa using hspot⟩
          | succ i =>
            rw [add_ofNat_succ]
            exact hspots i (Nat.lt_of_succ_lt_succ hi)
        · rcases hdata x with hx | ⟨i, hi, hx, hvalue⟩
          · simp only at hx
            by_cases hL : x = L
            · subst hL
              refine .inr ⟨0, Nat.succ_pos n, by simpa using hspot, ?_⟩
              rw [hx, Function.update_self, Nat.pow_zero, Nat.div_one]
              exact BitVec.eq_of_toNat_eq (by simp)
            · rw [Function.update_of_ne hL] at hx
              exact .inl hx
          · refine .inr ⟨i + 1, Nat.succ_lt_succ hi, by rw [add_ofNat_succ]; exact hx, ?_⟩
            rw [hvalue, Nat.pow_succ', ← Nat.div_div_eq_div_mul]
      · exact .inr ⟨e, s', he, hrest⟩
    · rw [hbyte]
      exact .inr ⟨e, s, he, rfl⟩

theorem storeBytes_below {data : PAddr → BitVec 8} {x : PAddr}
    (hx : ∀ i < n, x ≠ location + BitVec.ofNat 32 i) :
    storeBytes n location value data x = data x := by
  induction n generalizing location value data with
  | zero => rfl
  | succ n ih =>
    rw [storeBytes, ih fun i hi => by
      rw [← add_ofNat_succ]
      exact hx (i + 1) (Nat.succ_lt_succ hi)]
    exact Function.update_of_ne (by simpa using hx 0 (Nat.succ_pos n)) ..

theorem storeBytes_digit {data : PAddr → BitVec 8} {i : Nat} (hi : i < n) (hn : n ≤ 2 ^ 32) :
    storeBytes n location value data (location + BitVec.ofNat 32 i) =
      BitVec.ofNat 8 (value / 256 ^ i) := by
  induction n generalizing location value data i with
  | zero => exact absurd hi (Nat.not_lt_zero _)
  | succ n ih =>
    rw [storeBytes]
    cases i with
    | zero =>
      rw [storeBytes_below fun j hj => by bv_omega]
      simp
    | succ i =>
      rw [add_ofNat_succ, ih (Nat.lt_of_succ_lt_succ hi) (Nat.le_of_succ_le hn),
        Nat.pow_succ', ← Nat.div_div_eq_div_mul]

/-- The bytes of the value that tells the positions apart. -/
theorem digit_positions : ∀ i < 4, ∀ j < 4,
    BitVec.ofNat 8 (0x04030201 / 256 ^ i) = BitVec.ofNat 8 (0x04030201 / 256 ^ j) → i = j := by
  decide

/-- The writes agree only on plain accesses: other ones differ for hooks and devices that refuse
single bytes, or for a value whose bytes are 1, 2, 3 and 4. -/
theorem plain_of_write (hn : 2 ≤ n) (hfour : n ≤ 4) (h : ∀ value s,
    writeVirtualMemory refusing hooks t n vaddr value s =
      writeBytes refusing hooks t n vaddr value s) : Plain hooks .write t vaddr n := by
  have hne : n ≠ 1 := by omega
  let zero : PhysicalMemory Unit := ⟨fun _ => 0, ()⟩
  have hboth := h 0x04030201 zero
  have first (hspots : ∀ i < n, ∃ L,
      spot hooks .write t (vaddr + BitVec.ofNat 32 i) = .ok (.memory L)) :
      ∃ L, spot hooks .write t vaddr = .ok (.memory L) := by
    simpa using hspots 0 (Nat.lt_of_lt_of_le (by decide) hn)
  cases hspot : spot hooks .write t vaddr with
  | error e => exact .inl ⟨e, hspot⟩
  | ok x =>
    simp only [writeVirtualMemory, hspot] at hboth
    rcases writeBytes_refusing hooks t n vaddr 0x04030201 zero with
      ⟨s', hv, hspots, hdata⟩ | ⟨e, s', he, hv⟩
    · obtain ⟨L, hL⟩ := first hspots
      rw [hspot] at hL
      cases hL
      rw [hv] at hboth
      simp only [store] at hboth
      split at hboth
      next hstored =>
        cases hboth
        refine .inr ⟨L, hstored, fun i hi => ?_⟩
        have hbyte : storeBytes n L 0x04030201 zero.data (L + BitVec.ofNat 32 i) =
            BitVec.ofNat 8 (0x04030201 / 256 ^ i) :=
          storeBytes_digit hi (Nat.le_trans hfour (by decide))
        rcases hdata (L + BitVec.ofNat 32 i) with hx | ⟨j, hj, hx, hvalue⟩
        · have hzero : ∀ i < 4, BitVec.ofNat 8 (0x04030201 / 256 ^ i) ≠ 0 := by decide
          exact absurd (hbyte.symm.trans hx) (hzero i (Nat.lt_of_lt_of_le hi hfour))
        · have hij := digit_positions i (Nat.lt_of_lt_of_le hi hfour) j
            (Nat.lt_of_lt_of_le hj hfour) (hbyte.symm.trans hvalue)
          rw [hij] at hx ⊢
          exact hx
      next => cases hboth
    · rw [hv] at hboth
      cases x with
      | hooked handler paddr =>
        simp only [refusing, if_neg hne, store, bind, EStateM.bind] at hboth
        split at hboth
        next =>
          split at hboth
          · cases hboth
          · cases hboth
            exact absurd rfl he
        next heq => cases heq
      | device bus paddr =>
        simp only [refusing, if_neg hne] at hboth
        cases hboth
      | memory L =>
        simp only [store] at hboth
        split at hboth
        · cases hboth
        · cases hboth
          exact absurd rfl he

/-! ## Exactness -/

/-- An access that fails at its first byte fails the same way byte by byte. -/
theorem read_failed {e : Exception} (hn : n ≠ 0) (h : spot hooks .read t vaddr = .error e) :
    readVirtualMemory handlers hooks t n vaddr = readBytes handlers hooks t n vaddr := by
  obtain ⟨n, rfl⟩ := Nat.exists_eq_succ_of_ne_zero hn
  funext s
  simp only [readBytes, readVirtualMemory, h]
  rfl

theorem write_failed {e : Exception} (hn : n ≠ 0) (h : spot hooks .write t vaddr = .error e) :
    writeVirtualMemory handlers hooks t n vaddr value =
      writeBytes handlers hooks t n vaddr value := by
  obtain ⟨n, rfl⟩ := Nat.exists_eq_succ_of_ne_zero hn
  funext s
  simp only [writeBytes, writeVirtualMemory, h]
  rfl

theorem read_of_plain (hn : n ≠ 0) (h : Plain hooks .read t vaddr n) :
    readVirtualMemory handlers hooks t n vaddr = readBytes handlers hooks t n vaddr := by
  rcases h with ⟨e, h⟩ | ⟨location, hstored, h⟩
  · exact read_failed hn h
  · funext s
    have h₀ : spot hooks .read t vaddr = .ok (.memory location) := by
      simpa using h 0 (Nat.pos_of_ne_zero hn)
    rw [readBytes_plain h]
    simp only [readVirtualMemory, h₀, load, if_pos hstored]
    rfl

theorem write_of_plain (hn : n ≠ 0) (h : Plain hooks .write t vaddr n) :
    writeVirtualMemory handlers hooks t n vaddr value =
      writeBytes handlers hooks t n vaddr value := by
  rcases h with ⟨e, h⟩ | ⟨location, hstored, h⟩
  · exact write_failed hn h
  · funext s
    have h₀ : spot hooks .write t vaddr = .ok (.memory location) := by
      simpa using h 0 (Nat.pos_of_ne_zero hn)
    rw [writeBytes_plain h]
    simp only [writeVirtualMemory, h₀, store, if_pos hstored]
    rfl

theorem Width.bytes_bounds (w : Width) : 2 ≤ w.bytes ∧ w.bytes ≤ 4 := by
  cases w <;> decide

/-- **An access of several bytes is the accesses to its bytes**, whatever hooks and devices do, if it
is plain and not otherwise. -/
theorem bytewise_exact (hooks : Hooks H) (t : PageTable) (vaddr : VAddr) (w : Width) :
    ((∀ (σ : Type) (handlers : Handlers H σ),
        readVirtualMemory handlers hooks t w.bytes vaddr =
          readBytes handlers hooks t w.bytes vaddr) ↔
      Plain hooks .read t vaddr w.bytes) ∧
    ((∀ (σ : Type) (handlers : Handlers H σ) (value : Nat),
        writeVirtualMemory handlers hooks t w.bytes vaddr value =
          writeBytes handlers hooks t w.bytes vaddr value) ↔
      Plain hooks .write t vaddr w.bytes) := by
  obtain ⟨hn, hfour⟩ := w.bytes_bounds
  have hpos : w.bytes ≠ 0 := by omega
  constructor
  · constructor
    · exact fun h => plain_of_read hn fun s => congrFun (h Unit refusing) s
    · exact fun h σ handlers => read_of_plain hpos h
  · constructor
    · exact fun h => plain_of_write hn hfour fun value s => congrFun (h Unit refusing value) s
    · exact fun h σ handlers value => write_of_plain hpos h

/-- Two virtual pages, mapped to the first and the third page of FCRAM. -/
def splitPages : PageTable where
  hostMemory page := if page = 0x8000 then some 0x20000000
    else if page = 0x8001 then some 0x20002000 else none
  physicalAddresses page := if page = 0x8000 then 0x20000000
    else if page = 0x8001 then 0x20002000 else unmappedAddress
  virtualAddressesFor page := if page = 0x20000 then [0x8000000]
    else if page = 0x20002 then [0x8001000] else []

/-- A word across the two pages is read from the first and the second page of FCRAM. -/
theorem split_word_breaks : ¬ ∀ (H : Type) (hooks : Hooks H) (t : PageTable) (vaddr : VAddr)
    (w : Width) (σ : Type) (handlers : Handlers H σ),
    readVirtualMemory handlers hooks t w.bytes vaddr =
      readBytes handlers hooks t w.bytes vaddr ∧
    ∀ value, writeVirtualMemory handlers hooks t w.bytes vaddr value =
      writeBytes handlers hooks t w.bytes vaddr value := by
  intro h
  have hread := (h Unit (fun _ _ => []) splitPages 0x8000FFE .word Unit refusing).1
  have hplain := plain_of_read (Width.bytes_bounds .word).1 (congrFun hread)
  have hfirst : spot (H := Unit) (fun _ _ => []) .read splitPages 0x8000FFE =
      .ok (.memory 0x20000FFE) := by decide
  have hthird : spot (H := Unit) (fun _ _ => []) .read splitPages 0x8001000 =
      .ok (.memory 0x20002000) := by decide
  rcases hplain with ⟨e, he⟩ | ⟨location, -, hspots⟩
  · rw [hfirst] at he
    cases he
  · have h₀ := (hspots 0 (by decide)).symm.trans hfirst
    have h₂ := (hspots 2 (by decide)).symm.trans hthird
    simp only [Except.ok.injEq, Spot.memory.injEq] at h₀ h₂
    bv_omega

end Mikage
