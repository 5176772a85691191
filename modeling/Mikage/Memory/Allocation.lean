import Mikage.Memory.Ownership

/-!
# Allocation and ownership over runs

Each call of a `MemoryManager` updates an ownership function on the positions of its region: `Ledger`
ties the two maps to it, and `Managed` is any run of calls with the ownership its results give.
-/

namespace Mikage

open Block MemoryManager

variable {Owner : Type}

def InRegion (m : MemoryManager Owner) (x : Nat) : Prop :=
  m.regionStartPaddr.toNat ≤ x ∧ x < m.regionStartPaddr.toNat + m.regionSizeBytes.toNat

/-- `n` positions from `a` on get the owner `o`. -/
def assign (own : Nat → Option Owner) (a n : Nat) (o : Option Owner) : Nat → Option Owner :=
  fun x => if a ≤ x ∧ x < a + n then o else own x

/-- The maps show who owns what. -/
structure Ledger (m : MemoryManager Owner) (own : Nat → Option Owner) : Prop where
  region : m.regionStartPaddr.toNat + m.regionSizeBytes.toNat ≤ 2 ^ 32
  free : Shows m.free (fun x o => InRegion m x ∧ own x = none ∧ o = none)
  taken : Shows m.taken (fun x o => InRegion m x ∧ own x = o ∧ o ≠ none)
  coalesced : Coalesced (blocks m.free)

section

variable {m : MemoryManager Owner} {own : Nat → Option Owner} {e : PAddr × MemoryBlock Owner}
  {x : Nat} {n startAddr : BitVec 32} {owner : Owner}

theorem toNat_ne_zero (h : n ≠ 0) : 0 < n.toNat := by
  have : n.toNat ≠ 0 := fun h0 => h (BitVec.eq_of_toNat_eq h0)
  omega

/-- The blocks of both maps end in the region. -/
theorem Ledger.stop_le (h : Ledger m own) (he : e ∈ m.free ∨ e ∈ m.taken) :
    e.1.toNat + e.2.sizeBytes.toNat ≤ m.regionStartPaddr.toNat + m.regionSizeBytes.toNat := by
  have hpos : 0 < e.2.sizeBytes.toNat := he.elim h.free.pos h.taken.pos
  have hlast : (toBlock e).Contains (e.1.toNat + e.2.sizeBytes.toNat - 1) := by
    unfold Block.Contains Block.stop toBlock
    simp only
    omega
  have hin : InRegion m (e.1.toNat + e.2.sizeBytes.toNat - 1) :=
    he.elim (fun he => (h.free.of_mem he hlast).1) (fun he => (h.taken.of_mem he hlast).1)
  have hlt := hin.2
  omega

/-- A range inside a chunk, as numbers. The end of the chunk wraps only where the range ends there. -/
structure Inside (startAddr n : BitVec 32) (e : PAddr × MemoryBlock Owner) : Prop where
  start : e.1.toNat ≤ startAddr.toNat
  stop : startAddr.toNat + n.toNat ≤ e.1.toNat + e.2.sizeBytes.toNat
  top : e.1.toNat + e.2.sizeBytes.toNat < 2 ^ 32 ∨
    e.1.toNat + e.2.sizeBytes.toNat = 2 ^ 32 ∧ startAddr.toNat + n.toNat = 2 ^ 32

/-- The parts of a chunk outside a range, where nothing else is. -/
theorem Shows.keepRest {taken : BlockMap Owner} {P : Nat → Option Owner → Prop} (h : Shows taken P)
    (hin : Inside startAddr n e)
    (hnew : ∀ x o, (toBlock e).Contains x →
      ¬ (startAddr.toNat ≤ x ∧ x < startAddr.toNat + n.toNat) → ¬ P x o) :
    Shows (keepRest taken owner startAddr n e) (fun x o => P x o ∨ ((toBlock e).Contains x ∧
      ¬ (startAddr.toNat ≤ x ∧ x < startAddr.toNat + n.toNat) ∧ some owner = o)) := by
  obtain ⟨hstart, hstop, htop⟩ := hin
  have hs := startAddr.isLt
  -- the part in front
  have hfront : Shows (if e.1 < startAddr then taken.set e.1 ⟨startAddr - e.1, some owner⟩ else taken)
      (fun x o => P x o ∨ (e.1.toNat ≤ x ∧ x < startAddr.toNat ∧ some owner = o)) := by
    by_cases hlt : e.1 < startAddr
    · have hlt' : e.1.toNat < startAddr.toNat := hlt
      have hsub : (startAddr - e.1).toNat = startAddr.toNat - e.1.toNat := by
        rw [BitVec.toNat_sub]
        omega
      rw [if_pos hlt]
      refine (h.set (by rw [hsub]; omega) ?_).congr fun x o => ?_
      · simp only [Block.Contains, Block.stop, toBlock, hsub] at hnew ⊢
        rintro x ⟨h1, h2⟩ o
        exact hnew x o ⟨h1, by omega⟩ (by omega)
      · simp only [Block.Contains, Block.stop, toBlock, hsub]
        grind
    · have hle : ¬ e.1.toNat < startAddr.toNat := hlt
      rw [if_neg hlt]
      exact h.congr fun x o => by grind
  have hend : startAddr + n < e.1 + e.2.sizeBytes ↔
      startAddr.toNat + n.toNat < e.1.toNat + e.2.sizeBytes.toNat := by
    rw [BitVec.lt_def, BitVec.toNat_add, BitVec.toNat_add]
    omega
  unfold MemoryManager.keepRest
  by_cases hlt : startAddr + n < e.1 + e.2.sizeBytes
  · have hlt' := hend.1 hlt
    have hadd : (startAddr + n).toNat = startAddr.toNat + n.toNat := by
      rw [BitVec.toNat_add]
      omega
    have hsub : (e.1 + e.2.sizeBytes - startAddr - n).toNat =
        e.1.toNat + e.2.sizeBytes.toNat - (startAddr.toNat + n.toNat) := by
      rw [BitVec.toNat_sub, BitVec.toNat_sub, BitVec.toNat_add]
      omega
    simp only [hlt, if_true]
    refine (hfront.set (by rw [hsub]; omega) ?_).congr fun x o => ?_
    · simp only [Block.Contains, Block.stop, toBlock, hadd, hsub] at hnew ⊢
      rintro x ⟨h1, h2⟩ o ho
      rcases ho with ho | ⟨-, hlt, -⟩
      · exact hnew x o ⟨by omega, by omega⟩ (by omega) ho
      · omega
    · simp only [Block.Contains, Block.stop, toBlock, hadd, hsub]
      grind
  · have hle := mt hend.2 hlt
    simp only [hlt, if_false]
    refine hfront.congr fun x o => ?_
    simp only [Block.Contains, Block.stop, toBlock]
    grind

section

variable [DecidableEq Owner] {alive : Owner → Bool}

/-- Both maps stay below `2 ^ 32` positions, so merging them changes neither. -/
theorem Ledger.of_shows {free taken : BlockMap Owner}
    (hregion : m.regionStartPaddr.toNat + m.regionSizeBytes.toNat ≤ 2 ^ 32)
    (hfree : Shows free (fun x o => InRegion m x ∧ own x = none ∧ o = none))
    (htaken : Shows taken (fun x o => InRegion m x ∧ own x = o ∧ o ≠ none))
    (hlive : ∀ x a, own x = some a → alive a) :
    Ledger { m with free := defragment alive free, taken := defragment alive taken } own := by
  have hsize : m.regionStartPaddr.toNat + m.regionSizeBytes.toNat <
      m.regionStartPaddr.toNat + 2 ^ 32 := Nat.add_lt_add_left m.regionSizeBytes.isLt _
  have h1 : Shows (defragment alive free) _ ∧ Coalesced (blocks (defragment alive free)) :=
    hfree.defragment hsize (fun _ _ h => h.1) (by rintro x a ⟨-, -, h⟩; cases h)
  have h2 : Shows (defragment alive taken) _ ∧ Coalesced (blocks (defragment alive taken)) :=
    htaken.defragment hsize (fun _ _ h => h.1) (fun x a h => hlive x a h.2.1)
  exact ⟨hregion, h1.1, h2.1, h1.2⟩

/-- Taking the first part of a free block. -/
theorem Ledger.take (h : Ledger m own) (he : e ∈ m.free) (hn : n ≠ 0) (hle : n.toNat ≤ e.2.sizeBytes.toNat)
    (hlive : ∀ x a, assign own e.1.toNat n.toNat (some owner) x = some a → alive a) :
    Ledger (m.take alive owner n e) (assign own e.1.toNat n.toNat (some owner)) := by
  have hpos := toNat_ne_zero hn
  have hstop := h.stop_le (.inl he)
  have hregion := h.region
  have hin : ∀ x, e.1.toNat ≤ x → x < e.1.toNat + e.2.sizeBytes.toNat →
      InRegion m x ∧ own x = none := by
    intro x h1 h2
    have hx := h.free.of_mem he (x := x) ⟨h1, h2⟩
    exact ⟨hx.1, hx.2.1⟩
  have hfree := h.free.erase he
  have htaken := h.taken.set (k := e.1) (v := ⟨n, some owner⟩) hpos (by
    rintro x ⟨h1, h2⟩ o ⟨-, h3, h4⟩
    have hx := (hin x h1 (Nat.lt_of_lt_of_le h2 (Nat.add_le_add_left hle _))).2
    exact h4 (h3 ▸ hx))
  refine .of_shows hregion ?_ (htaken.congr fun x o => ?_) hlive
  · by_cases hsz : e.2.sizeBytes = n
    · simp only [hsz, ne_eq, not_true_eq_false, if_false]
      refine hfree.congr fun x o => ?_
      simp only [Block.Contains, Block.stop, toBlock, assign, hsz]
      grind
    · have hlt : n.toNat < e.2.sizeBytes.toNat := by
        have hne : n.toNat ≠ e.2.sizeBytes.toNat := fun h => hsz (BitVec.eq_of_toNat_eq h.symm)
        omega
      have hsub : (e.2.sizeBytes - n).toNat = e.2.sizeBytes.toNat - n.toNat := by
        rw [BitVec.toNat_sub]
        omega
      have hadd : (e.1 + n).toNat = e.1.toNat + n.toNat := by
        rw [BitVec.toNat_add]
        omega
      simp only [hsz, ne_eq, not_false_eq_true, if_true]
      refine (hfree.set (by rw [hsub]; omega) ?_).congr fun x o => ?_
      · simp only [Block.Contains, Block.stop, toBlock, hadd, hsub]
        rintro x ⟨h1, h2⟩ o ⟨-, hout⟩
        exact hout ⟨by omega, by omega⟩
      · simp only [Block.Contains, Block.stop, toBlock, assign, hadd, hsub]
        grind
  · simp only [Block.Contains, Block.stop, toBlock, assign]
    grind

theorem Ledger.deallocate (h : Ledger m own) (he : e ∈ m.taken) (howner : e.2.owner = some owner)
    (hn : n ≠ 0) (hin : Inside startAddr n e)
    (hlive : ∀ x a, assign own startAddr.toNat n.toNat none x = some a → alive a) :
    Ledger { m with
      free := defragment alive (m.free.set startAddr ⟨n, none⟩)
      taken := defragment alive (keepRest (m.taken.erase e.1) owner startAddr n e) }
      (assign own startAddr.toNat n.toNat none) := by
  have hpos := toNat_ne_zero hn
  have hstart := hin.start
  have hstop := hin.stop
  have hchunk : ∀ x, (toBlock e).Contains x → InRegion m x ∧ own x = some owner := by
    intro x hx
    have hx := h.taken.of_mem he hx
    exact ⟨hx.1, hx.2.1.trans howner⟩
  have hfree := h.free.set (k := startAddr) (v := ⟨n, none⟩) hpos (by
    rintro x ⟨h1, h2⟩ o ⟨-, hnone, -⟩
    have hx : (toBlock e).Contains x := by
      unfold Block.Contains Block.stop toBlock at *
      simp only at *
      omega
    rw [(hchunk x hx).2] at hnone
    cases hnone)
  have htaken : Shows (keepRest (m.taken.erase e.1) owner startAddr n e) _ :=
    (h.taken.erase he).keepRest hin fun x o hx _ hout => hout.2 hx
  refine .of_shows h.region (hfree.congr fun x o => ?_) (htaken.congr fun x o => ?_) hlive
  · simp only [Block.Contains, Block.stop, toBlock, assign] at hchunk ⊢
    grind
  · simp only [Block.Contains, Block.stop, toBlock, assign] at hchunk ⊢
    grind

theorem Ledger.transfer {newOwner : Owner} (h : Ledger m own) (he : e ∈ m.taken)
    (howner : e.2.owner = some owner) (hn : n ≠ 0) (hin : Inside startAddr n e)
    (hlive : ∀ x a, assign own startAddr.toNat n.toNat (some newOwner) x = some a → alive a) :
    Ledger { m with
      taken := defragment alive (keepRest ((m.taken.erase e.1).set startAddr ⟨n, some newOwner⟩)
        owner startAddr n e) }
      (assign own startAddr.toNat n.toNat (some newOwner)) := by
  have hpos := toNat_ne_zero hn
  have hstart := hin.start
  have hstop := hin.stop
  have hchunk : ∀ x, (toBlock e).Contains x → InRegion m x ∧ own x = some owner := by
    intro x hx
    have hx := h.taken.of_mem he hx
    exact ⟨hx.1, hx.2.1.trans howner⟩
  have hset := (h.taken.erase he).set (k := startAddr) (v := ⟨n, some newOwner⟩) hpos (by
    rintro x ⟨h1, h2⟩ o ⟨-, hout⟩
    refine hout ?_
    unfold Block.Contains Block.stop toBlock at *
    simp only at *
    omega)
  have htaken : Shows (keepRest ((m.taken.erase e.1).set startAddr ⟨n, some newOwner⟩)
      owner startAddr n e) _ := hset.keepRest hin (by
    rintro x o hx hout (⟨-, hx'⟩ | ⟨hx', -⟩)
    · exact hx' hx
    · exact hout hx')
  have hsize : m.regionStartPaddr.toNat + m.regionSizeBytes.toNat <
      m.regionStartPaddr.toNat + 2 ^ 32 := Nat.add_lt_add_left m.regionSizeBytes.isLt _
  have hshows : Shows (keepRest ((m.taken.erase e.1).set startAddr ⟨n, some newOwner⟩)
      owner startAddr n e) (fun x o => InRegion m x ∧
        assign own startAddr.toNat n.toNat (some newOwner) x = o ∧ o ≠ none) := by
    refine htaken.congr fun x o => ?_
    simp only [Block.Contains, Block.stop, toBlock, assign] at hchunk ⊢
    grind
  refine ⟨h.region, h.free.congr fun x o => ?_,
    (hshows.defragment hsize (fun _ _ h => h.1) (fun x a h => hlive x a h.2.1)).1, h.coalesced⟩
  simp only [Block.Contains, Block.stop, toBlock, assign, InRegion] at hchunk ⊢
  grind

end

end

/-! ## Runs -/

inductive BlockCall (Owner : Type) where
  | allocate (owner : Owner) (sizeBytes : BitVec 32)
  | deallocate (owner : Owner) (startAddr : PAddr) (sizeBytes : BitVec 32)
  | transfer (oldOwner newOwner : Owner) (startAddr : PAddr) (sizeBytes : BitVec 32)

namespace BlockCall

def sizeBytes : BlockCall Owner → BitVec 32
  | allocate _ n | deallocate _ _ n | transfer _ _ _ n => n

def owners : BlockCall Owner → List Owner
  | allocate o _ | deallocate o _ _ => [o]
  | transfer o o' _ _ => [o, o']

variable [DecidableEq Owner]

def run (alive : Owner → Bool) (m : MemoryManager Owner) :
    BlockCall Owner → Except Exception (Option PAddr × MemoryManager Owner)
  | allocate o n => m.allocateBlock alive o n
  | deallocate o a n => (m.deallocateBlock alive o a n).map fun m => (none, m)
  | transfer o o' a n => (m.transferOwnership alive o o' a n).map fun m => (none, m)

/-- What a call that returns does to the ownership. -/
def assigns (own : Nat → Option Owner) : BlockCall Owner → Option PAddr → Nat → Option Owner
  | allocate o n, some a => assign own a.toNat n.toNat (some o)
  | allocate _ _, none => own
  | deallocate _ a n, _ => assign own a.toNat n.toNat none
  | transfer _ o a n, _ => assign own a.toNat n.toNat (some o)

/-- The manager and the ownership after a call; a call that throws changes neither. -/
def step (alive : Owner → Bool) (m : MemoryManager Owner) (own : Nat → Option Owner)
    (c : BlockCall Owner) : MemoryManager Owner × (Nat → Option Owner) :=
  match c.run alive m with
  | .ok (r, m') => (m', c.assigns own r)
  | .error _ => (m, own)

/-- The chunks that the calls select, by sums that are 32 bits wide. -/
def toFree (m : MemoryManager Owner) (a : PAddr) : Option (PAddr × MemoryBlock Owner) :=
  m.taken.entries.find? fun e => e.1 ≤ a ∧ a < e.1 + e.2.sizeBytes

def toTransfer (m : MemoryManager Owner) (a : PAddr) (n : BitVec 32) :
    Option (PAddr × MemoryBlock Owner) :=
  m.taken.entries.find? fun e => e.1 ≤ a ∧ a + n ≤ e.1 + e.2.sizeBytes

/-- The range ends in the address space, or the call is refused, or the chunk it selects contains
the range none the less. -/
def Fits (m : MemoryManager Owner) : BlockCall Owner → Prop
  | allocate _ _ => True
  | deallocate o a n => a.toNat + n.toNat < 2 ^ 32 ∨ ∀ e, toFree m a = some e → e.2.owner ≠ some o
  | transfer o _ a n => a.toNat + n.toNat < 2 ^ 32 ∨ ∀ e, toTransfer m a n = some e →
      e.2.owner = some o → a.toNat + n.toNat ≤ e.1.toNat + e.2.sizeBytes.toNat

/-- The owners of the memory and those of the call are alive. -/
def Live (alive : Owner → Bool) (own : Nat → Option Owner) (c : BlockCall Owner) : Prop :=
  (∀ x o, own x = some o → alive o) ∧ ∀ o ∈ c.owners, alive o

end BlockCall

/-- The managers of runs of allowed calls, with the ownership the history gives. -/
inductive Managed [DecidableEq Owner] (allowed : MemoryManager Owner → BlockCall Owner → Prop)
    (start : PAddr) (size : BitVec 32) :
    MemoryManager Owner → (Nat → Option Owner) → Prop where
  | created : Managed allowed start size (.create start size) fun _ => none
  | called {m : MemoryManager Owner} {own : Nat → Option Owner} {alive : Owner → Bool}
      (c : BlockCall Owner) (h : Managed allowed start size m own) (hsize : c.sizeBytes ≠ 0)
      (hlive : c.Live alive own) (hallowed : allowed m c) :
      Managed allowed start size (c.step alive m own).1 (c.step alive m own).2

section

variable {alive : Owner → Bool} {m : MemoryManager Owner} {own : Nat → Option Owner}
  {e : PAddr × MemoryBlock Owner}

theorem Ledger.free_owner (h : Ledger m own) (he : e ∈ m.free) : e.2.owner = none :=
  (h.free.at_start he).2.2

theorem Ledger.taken_alive (h : Ledger m own) (hlive : ∀ x o, own x = some o → alive o)
    (he : e ∈ m.taken) : ∃ o, e.2.owner = some o ∧ alive o := by
  obtain ⟨-, hown, hne⟩ := h.taken.at_start he
  cases ho : e.2.owner with
  | none => exact absurd ho hne
  | some o => exact ⟨o, rfl, hlive _ _ (hown.trans ho)⟩

theorem Ledger.created {start size : BitVec 32}
    (hregion : start.toNat + size.toNat ≤ 2 ^ 32) (hsize : size ≠ 0) :
    Ledger (.create start size : MemoryManager Owner) fun _ => none where
  region := hregion
  free := by
    refine (Shows.empty.set (k := start) (v := ⟨size, none⟩) (toNat_ne_zero hsize)
      (fun _ _ _ => id)).congr fun x o => ?_
    simp only [Block.Contains, Block.stop, toBlock, InRegion, MemoryManager.create, false_or,
      true_and, eq_comm]
  taken := Shows.empty.congr fun x o => by
    constructor
    · exact False.elim
    · rintro ⟨-, h1, h2⟩
      exact h2 h1.symm
  coalesced := by
    have hpos := toNat_ne_zero hsize
    intro b hb b' hb' hstop
    have hone : ∀ b ∈ blocks (.create start size : MemoryManager Owner).free,
        b = toBlock (start, ⟨size, none⟩) := by
      intro b hb
      obtain ⟨e, he, rfl⟩ := mem_blocks.1 hb
      rcases SortedMap.mem_set.1 he with ⟨he, -⟩ | rfl
      · exact absurd he SortedMap.not_mem_empty
      · rfl
    rw [hone b hb, hone b' hb'] at hstop
    unfold Block.stop toBlock at hstop
    simp only at hstop
    omega

theorem Ledger.valid (h : Ledger m own) (hlive : ∀ x o, own x = some o → alive o) :
    ∀ e ∈ m.taken.entries, (!expired alive e.2.owner) = true := by
  intro e he
  obtain ⟨o, ho, ha⟩ := h.taken_alive hlive he
  rw [expired, lock_eq (by rw [ho]; rintro a ⟨⟩; exact ha), ho]
  rfl

theorem Ledger.lock_owner (h : Ledger m own) (hlive : ∀ x o, own x = some o → alive o)
    (he : e ∈ m.taken) : lock alive e.2.owner = e.2.owner := by
  obtain ⟨o, ho, ha⟩ := h.taken_alive hlive he
  exact lock_eq (by rw [ho]; rintro a ⟨⟩; exact ha)

theorem assign_alive {a k : Nat} {o : Option Owner} (hlive : ∀ x o, own x = some o → alive o)
    (ho : ∀ p, o = some p → alive p) : ∀ x p, assign own a k o x = some p → alive p := by
  intro x p h
  unfold assign at h
  split at h
  · exact ho p h
  · exact hlive x p h

end

section

variable [DecidableEq Owner] {alive : Owner → Bool} {m : MemoryManager Owner}
  {own : Nat → Option Owner} {e : PAddr × MemoryBlock Owner} {n startAddr start size : BitVec 32}
  {owner : Owner} {c : BlockCall Owner} {allowed : MemoryManager Owner → BlockCall Owner → Prop}

theorem Ledger.allocateBlock_eq (h : Ledger m own) (owner : Owner) (n : BitVec 32) :
    m.allocateBlock alive owner n =
      match m.free.entries.find? (fun e => ¬ e.2.sizeBytes < n) with
      | none => .ok (none, m)
      | some e => .ok (some e.1, m.take alive owner n e) := by
  have hvalid : ∀ e ∈ m.free.entries, expired alive e.2.owner := by
    intro e he
    rw [h.free_owner he]
    rfl
  rw [allocateBlock, search_eq hvalid]
  cases m.free.entries.find? (fun e => ¬ e.2.sizeBytes < n) <;> rfl

/-- A call that frees memory is refused, or frees a range of one chunk of its owner. -/
theorem Ledger.deallocateBlock_cases (h : Ledger m own) (hlive : ∀ x o, own x = some o → alive o)
    (hfits : (BlockCall.deallocate owner startAddr n).Fits m) :
    (∃ err, m.deallocateBlock alive owner startAddr n = .error err) ∨
    ∃ e ∈ m.taken, e.2.owner = some owner ∧ Inside startAddr n e ∧
      m.deallocateBlock alive owner startAddr n = .ok { m with
        free := defragment alive (m.free.set startAddr ⟨n, none⟩)
        taken := defragment alive (keepRest (m.taken.erase e.1) owner startAddr n e) } := by
  rw [deallocateBlock, search_eq (h.valid hlive)]
  cases hfind : BlockCall.toFree m startAddr with
  | none =>
    rw [BlockCall.toFree] at hfind
    rw [hfind]
    exact .inl ⟨_, rfl⟩
  | some e =>
    have he : e ∈ m.taken := List.mem_of_find?_eq_some hfind
    have hsel : e.1 ≤ startAddr ∧ startAddr < e.1 + e.2.sizeBytes := by
      simpa using List.find?_some hfind
    have hstop := Nat.le_trans (h.stop_le (.inr he)) h.region
    have hall := hfits.imp_right fun hf => hf e hfind
    rw [BlockCall.toFree] at hfind
    simp only [hfind, bind, Except.bind, h.lock_owner hlive he]
    by_cases howner : e.2.owner ≠ some owner
    · exact .inl ⟨_, if_pos howner⟩
    by_cases hlarge : e.1 + e.2.sizeBytes < startAddr + n
    · exact .inl ⟨_, (if_neg howner).trans (if_pos hlarge)⟩
    have hrange : startAddr.toNat + n.toNat < 2 ^ 32 := hall.resolve_right howner
    refine .inr ⟨e, he, not_not.1 howner, ?_, (if_neg howner).trans (if_neg hlarge)⟩
    obtain ⟨h1, h2⟩ := hsel
    rw [BitVec.le_def] at h1
    rw [BitVec.lt_def, BitVec.toNat_add] at h2 hlarge
    rw [BitVec.toNat_add] at hlarge
    exact ⟨h1, by omega, by omega⟩

/-- A call that transfers memory is refused, or transfers a range of one chunk of its owner. -/
theorem Ledger.transferOwnership_cases {newOwner : Owner} (h : Ledger m own)
    (hlive : ∀ x o, own x = some o → alive o) (hn : n ≠ 0)
    (hfits : (BlockCall.transfer owner newOwner startAddr n).Fits m) :
    (∃ err, m.transferOwnership alive owner newOwner startAddr n = .error err) ∨
    ∃ e ∈ m.taken, e.2.owner = some owner ∧ Inside startAddr n e ∧
      m.transferOwnership alive owner newOwner startAddr n = .ok { m with
        taken := defragment alive (keepRest ((m.taken.erase e.1).set startAddr ⟨n, some newOwner⟩)
          owner startAddr n e) } := by
  have hpos := toNat_ne_zero hn
  rw [transferOwnership, search_eq (h.valid hlive)]
  cases hfind : BlockCall.toTransfer m startAddr n with
  | none =>
    rw [BlockCall.toTransfer] at hfind
    rw [hfind]
    exact .inl ⟨_, rfl⟩
  | some e =>
    have he : e ∈ m.taken := List.mem_of_find?_eq_some hfind
    have hsel : e.1 ≤ startAddr ∧ startAddr + n ≤ e.1 + e.2.sizeBytes := by
      simpa using List.find?_some hfind
    have hstop := Nat.le_trans (h.stop_le (.inr he)) h.region
    have hall := hfits.imp_right fun hf => hf e hfind
    rw [BlockCall.toTransfer] at hfind
    simp only [hfind, bind, Except.bind, h.lock_owner hlive he]
    by_cases howner : e.2.owner ≠ some owner
    · exact .inl ⟨_, if_pos howner⟩
    by_cases hlarge : e.1 + e.2.sizeBytes < startAddr + n
    · exact .inl ⟨_, (if_neg howner).trans (if_pos hlarge)⟩
    refine .inr ⟨e, he, not_not.1 howner, ?_, (if_neg howner).trans (if_neg hlarge)⟩
    obtain ⟨h1, h2⟩ := hsel
    have hrange := hall.imp_right fun hf => hf (not_not.1 howner)
    have hs := startAddr.isLt
    rw [BitVec.le_def] at h1
    rw [BitVec.le_def, BitVec.toNat_add, BitVec.toNat_add] at h2
    exact ⟨h1, by omega, by omega⟩

/-- One call. -/
theorem Ledger.step (h : Ledger m own) (hn : c.sizeBytes ≠ 0) (hlive : c.Live alive own)
    (hfits : c.Fits m) : Ledger (c.step alive m own).1 (c.step alive m own).2 := by
  obtain ⟨hlive, howners⟩ := hlive
  cases c with
  | allocate o n =>
    rw [BlockCall.step, BlockCall.run, h.allocateBlock_eq]
    cases hfind : m.free.entries.find? (fun e => ¬ e.2.sizeBytes < n) with
    | none => exact h
    | some e =>
      have hle : ¬ e.2.sizeBytes.toNat < n.toNat := by
        simpa [BitVec.lt_def] using List.find?_some hfind
      refine h.take (List.mem_of_find?_eq_some hfind) hn (by omega) (assign_alive hlive ?_)
      rintro p ⟨⟩
      exact howners _ (.head _)
  | deallocate o a n =>
    rw [BlockCall.step, BlockCall.run]
    rcases h.deallocateBlock_cases hlive hfits with ⟨err, heq⟩ | ⟨e, he, howner, hin, heq⟩
    · rw [heq]
      exact h
    · rw [heq]
      exact h.deallocate he howner hn hin (assign_alive hlive nofun)
  | transfer o o' a n =>
    rw [BlockCall.step, BlockCall.run]
    have hn : n ≠ 0 := hn
    rcases h.transferOwnership_cases hlive hn hfits with ⟨err, heq⟩ | ⟨e, he, howner, hin, heq⟩
    · rw [heq]
      exact h
    · rw [heq]
      refine h.transfer he howner hn hin (assign_alive hlive ?_)
      rintro p ⟨⟩
      exact howners _ (.tail _ (.head _))

theorem create_allocateBlock (hn : n ≠ 0) :
    (create start 0 : MemoryManager Owner).allocateBlock alive owner n =
      .ok (none, .create start 0) := by
  have hentries : (create start 0 : MemoryManager Owner).free.entries = [(start, ⟨0, none⟩)] := rfl
  have hlt : (0 : BitVec 32) < n := toNat_ne_zero hn
  rw [allocateBlock, hentries, search_eq (by simp [expired, lock])]
  simp only [List.find?_cons, hlt, not_true_eq_false, decide_false, List.find?_nil]
  rfl

/-- A region without bytes never changes. -/
theorem Managed.of_empty (h : Managed allowed start 0 m own) :
    m = .create start 0 ∧ own = fun _ => none := by
  induction h with
  | created => exact ⟨rfl, rfl⟩
  | @called m own alive c _ hsize _ _ ih =>
    obtain ⟨rfl, rfl⟩ := ih
    cases c with
    | allocate o n =>
      have hsize : n ≠ 0 := hsize
      rw [BlockCall.step, BlockCall.run, create_allocateBlock hsize]
      exact ⟨rfl, rfl⟩
    | deallocate o a n => exact ⟨rfl, rfl⟩
    | transfer o o' a n => exact ⟨rfl, rfl⟩

theorem Managed.inv (hregion : start.toNat + size.toNat ≤ 2 ^ 32) (hsize : size ≠ 0)
    (h : Managed BlockCall.Fits start size m own) : Ledger m own := by
  induction h with
  | created => exact .created hregion hsize
  | called c _ hn hlive hfits ih => exact ih.step hn hlive hfits

/-- The region is the one the manager was created for. -/
theorem BlockCall.step_region : (c.step alive m own).1.regionStartPaddr = m.regionStartPaddr ∧
    (c.step alive m own).1.regionSizeBytes = m.regionSizeBytes := by
  rw [BlockCall.step]
  cases c with
  | allocate o n =>
    rw [BlockCall.run, allocateBlock]
    generalize search (expired alive) _ _ m.free.entries = found
    rcases found with err | _ | e <;> exact ⟨rfl, rfl⟩
  | deallocate o a n =>
    rw [BlockCall.run, deallocateBlock]
    generalize search _ _ _ m.taken.entries = found
    rcases found with err | _ | e
    · exact ⟨rfl, rfl⟩
    · exact ⟨rfl, rfl⟩
    · simp only [bind, Except.bind]
      split
      next h =>
        split at h
        · cases h
        · split at h
          · cases h
          · cases h
            exact ⟨rfl, rfl⟩
      next => exact ⟨rfl, rfl⟩
  | transfer o o' a n =>
    rw [BlockCall.run, transferOwnership]
    generalize search _ _ _ m.taken.entries = found
    rcases found with err | _ | e
    · exact ⟨rfl, rfl⟩
    · exact ⟨rfl, rfl⟩
    · simp only [bind, Except.bind]
      split
      next h =>
        split at h
        · cases h
        · split at h
          · cases h
          · cases h
            exact ⟨rfl, rfl⟩
      next => exact ⟨rfl, rfl⟩

theorem Managed.region (h : Managed allowed start size m own) :
    m.regionStartPaddr = start ∧ m.regionSizeBytes = size := by
  induction h with
  | created => exact ⟨rfl, rfl⟩
  | called c _ _ _ _ ih =>
    exact ⟨BlockCall.step_region.1.trans ih.1, BlockCall.step_region.2.trans ih.2⟩

end

/-! ## The partition -/

section

variable {m : MemoryManager Owner} {own : Nat → Option Owner} {start size : BitVec 32}

/-- The blocks partition the region into free memory and memory of its owners. -/
structure Partitions (m : MemoryManager Owner) (own : Nat → Option Owner) : Prop where
  disjoint : (blocks m.free ++ blocks m.taken).Pairwise
    fun b b' => ∀ x, b.Contains x → ¬ b'.Contains x
  cover : ∀ x, (∃ b ∈ blocks m.free ++ blocks m.taken, b.Contains x) ↔ InRegion m x
  unowned : ∀ b ∈ blocks m.free, ∀ x, b.Contains x → own x = none
  owned : ∀ b ∈ blocks m.taken, ∀ x, b.Contains x → own x = b.label ∧ b.label ≠ none
  coalesced : ∀ b ∈ blocks m.free, ∀ b' ∈ blocks m.free, b ≠ b' → b.stop ≠ b'.start
  total : m.totalSize = m.regionSizeBytes

theorem getTotalSizeOfMemoryBlocks_eq (m : BlockMap Owner) :
    getTotalSizeOfMemoryBlocks m = BitVec.ofNat 32 ((blocks m).map Block.size).sum := by
  have hfold : ∀ (l : List (PAddr × MemoryBlock Owner)) (t : BitVec 32),
      l.foldl (fun total e => total + e.2.sizeBytes) t =
        t + BitVec.ofNat 32 ((l.map toBlock).map Block.size).sum := by
    intro l
    induction l with
    | nil => intro t; simp
    | cons e l ih =>
      intro t
      have he : BitVec.ofNat 32 (toBlock e).size = e.2.sizeBytes := BitVec.ofNat_toNat ..
      rw [List.foldl_cons, ih, List.map_cons, List.map_cons, List.sum_cons, BitVec.ofNat_add, he,
        BitVec.add_assoc]
  exact (hfold m.entries 0).trans (BitVec.zero_add _)

theorem Shows.covers {t : BlockMap Owner} {P : Nat → Option Owner → Prop} (h : Shows t P) {x : Nat} :
    (∃ b ∈ blocks t, b.Contains x) ↔ ∃ o, P x o := by
  simp only [← h.labels, Labels]
  constructor
  · rintro ⟨b, hb, hx⟩
    exact ⟨b.label, b, hb, hx, rfl⟩
  · rintro ⟨o, b, hb, hx, -⟩
    exact ⟨b, hb, hx⟩

theorem Ledger.free_covers (h : Ledger m own) {x : Nat} :
    (∃ b ∈ blocks m.free, b.Contains x) ↔ InRegion m x ∧ own x = none := by
  rw [h.free.covers]
  exact ⟨fun ⟨_, h1, h2, _⟩ => ⟨h1, h2⟩, fun ⟨h1, h2⟩ => ⟨none, h1, h2, rfl⟩⟩

theorem Ledger.taken_covers (h : Ledger m own) {x : Nat} :
    (∃ b ∈ blocks m.taken, b.Contains x) ↔ InRegion m x ∧ own x ≠ none := by
  rw [h.taken.covers]
  exact ⟨fun ⟨_, h1, h2, h3⟩ => ⟨h1, h2 ▸ h3⟩, fun ⟨h1, h2⟩ => ⟨own x, h1, rfl, h2⟩⟩

/-- The sizes of the blocks are those of the region. -/
theorem Ledger.total (h : Ledger m own) : m.totalSize = m.regionSizeBytes := by
  have hsum := h.taken.separated.sum_size_add h.free.separated
    (fun _ ht hf => (h.taken_covers.1 ht).2 (h.free_covers.1 hf).2) m.regionStartPaddr.toNat
    m.regionSizeBytes.toNat (fun x => by
      rw [h.taken_covers, h.free_covers, ← and_or_left, and_iff_left (ne_or_eq _ _)]
      rfl)
  rw [totalSize, usedMemory, getTotalSizeOfMemoryBlocks_eq, getTotalSizeOfMemoryBlocks_eq,
    ← BitVec.ofNat_add, hsum, BitVec.ofNat_toNat, BitVec.setWidth_eq]

theorem pairwise_disjoint {l : List (Block (Option Owner))} (h : Separated l) :
    l.Pairwise fun b b' => ∀ x, b.Contains x → ¬ b'.Contains x :=
  h.ordered.imp fun hle _ hx hx' => absurd (Nat.lt_of_lt_of_le hx.2 hle) (Nat.not_lt.2 hx'.1)

theorem Ledger.partitions (h : Ledger m own) : Partitions m own where
  disjoint := by
    refine List.pairwise_append.2 ⟨pairwise_disjoint h.free.separated,
      pairwise_disjoint h.taken.separated, fun b hb b' hb' x hx hx' => ?_⟩
    exact (h.taken_covers.1 ⟨b', hb', hx'⟩).2 (h.free_covers.1 ⟨b, hb, hx⟩).2
  cover x := by
    simp only [List.mem_append, or_and_right, exists_or, h.free_covers, h.taken_covers]
    rw [← and_or_left, and_iff_left (eq_or_ne _ _)]
  unowned b hb x hx := (h.free_covers.1 ⟨b, hb, hx⟩).2
  owned b hb x hx := (h.taken.labels x b.label).1 ⟨b, hb, hx, rfl⟩ |>.2
  coalesced b hb b' hb' hne hstop := by
    have hnone : ∀ c ∈ blocks m.free, c.label = none := fun c hc =>
      ((h.free.labels c.start c.label).1
        ⟨c, hc, contains_start (h.free.separated.nonempty c hc), rfl⟩).2.2
    exact h.coalesced b hb b' hb' hstop ((hnone b hb).trans (hnone b' hb').symm)
  total := h.total

theorem Partitions.of_empty :
    Partitions (.create start 0 : MemoryManager Owner) fun _ => none where
  disjoint := List.pairwise_singleton _ _
  cover x := by
    constructor
    · rintro ⟨b, hb, h1, h2⟩
      rw [List.mem_singleton.1 hb] at h1 h2
      exact absurd (Nat.lt_of_le_of_lt h1 h2) (Nat.lt_irrefl _)
    · rintro ⟨h1, h2⟩
      exact absurd (Nat.lt_of_le_of_lt h1 h2) (Nat.lt_irrefl _)
  unowned _ _ _ _ := rfl
  owned b hb := absurd hb List.not_mem_nil
  coalesced b hb b' hb' hne := absurd
    ((List.mem_singleton.1 hb).trans (List.mem_singleton.1 hb').symm) hne
  total := rfl

/-- `n` bytes in a row from `a` on are not allocated. -/
def Unallocated (m : MemoryManager Owner) (own : Nat → Option Owner) (a : Nat) (n : BitVec 32) :
    Prop := ∀ i < n.toNat, InRegion m (a + i) ∧ own (a + i) = none

variable [DecidableEq Owner] {alive : Owner → Bool} {owner : Owner} {n : BitVec 32}

/-- What an allocation returns. -/
structure AllocationExact (m : MemoryManager Owner) (own : Nat → Option Owner) (n : BitVec 32)
    (r : Option PAddr) : Prop where
  fails_iff : r = none ↔ ¬ ∃ a, Unallocated m own a n
  block : ∀ a, r = some a → Unallocated m own a.toNat n

theorem Ledger.allocation (h : Ledger m own) (hn : n ≠ 0) :
    ∃ r m', m.allocateBlock alive owner n = .ok (r, m') ∧ AllocationExact m own n r := by
  have hpos := toNat_ne_zero hn
  rw [h.allocateBlock_eq]
  cases hfind : m.free.entries.find? (fun e => ¬ e.2.sizeBytes < n) with
  | none =>
    refine ⟨none, m, rfl, ⟨fun _ => ?_, fun _ => rfl⟩, nofun⟩
    rintro ⟨a, ha⟩
    obtain ⟨b, hb, -, hstart, hstop⟩ := h.coalesced.run h.free.separated n.toNat hpos
      (x := a) (a := none) fun i hi => (h.free.labels _ _).2 ⟨(ha i hi).1, (ha i hi).2, rfl⟩
    obtain ⟨e, he, rfl⟩ := mem_blocks.1 hb
    have hsmall : e.2.sizeBytes < n := by simpa using List.find?_eq_none.1 hfind e he
    rw [BitVec.lt_def] at hsmall
    unfold Block.stop toBlock at *
    simp only at hstart hstop
    omega
  | some e =>
    have he : e ∈ m.free := List.mem_of_find?_eq_some hfind
    have hle : ¬ e.2.sizeBytes.toNat < n.toNat := by
      simpa [BitVec.lt_def] using List.find?_some hfind
    have hun : Unallocated m own e.1.toNat n := by
      intro i hi
      refine h.free_covers.1 ⟨_, toBlock_mem he, ?_⟩
      unfold Block.Contains Block.stop toBlock
      simp only
      omega
    refine ⟨some e.1, _, rfl, ⟨nofun, fun hno => absurd ⟨_, hun⟩ hno⟩, ?_⟩
    rintro a ⟨⟩
    exact hun

/-- **The manager partitions its region** in every run of calls that fit, and allocates exactly what
is there. -/
theorem memoryManager_partitions (start : PAddr) (size : BitVec 32)
    (hregion : start.toNat + size.toNat ≤ 2 ^ 32) (m : MemoryManager Owner)
    (own : Nat → Option Owner) (h : Managed BlockCall.Fits start size m own) :
    (m.regionStartPaddr = start ∧ m.regionSizeBytes = size) ∧ Partitions m own ∧
    ∀ (alive : Owner → Bool) (owner : Owner) (n : BitVec 32), n ≠ 0 →
      ∃ r m', m.allocateBlock alive owner n = .ok (r, m') ∧ AllocationExact m own n r := by
  refine ⟨h.region, ?_⟩
  by_cases hsize : size = 0
  · subst hsize
    obtain ⟨rfl, rfl⟩ := h.of_empty
    refine ⟨.of_empty, fun alive owner n hn => ⟨none, _, create_allocateBlock hn, ?_, nofun⟩⟩
    refine ⟨fun _ => ?_, fun _ => rfl⟩
    rintro ⟨a, ha⟩
    obtain ⟨⟨h1, h2⟩, -⟩ := ha 0 (toNat_ne_zero hn)
    exact absurd (Nat.lt_of_le_of_lt h1 h2) (Nat.lt_irrefl _)
  · have hinv := h.inv hregion hsize
    exact ⟨hinv.partitions, fun _ _ _ hn => hinv.allocation hn⟩

end

section

/-- One allocation. -/
def oneBlock : MemoryManager Nat × (Nat → Option Nat) :=
  (BlockCall.allocate 1 0x1000).step (fun _ => true) (.create 0x20000000 0x2000) fun _ => none

theorem oneBlock_managed {allowed : MemoryManager Nat → BlockCall Nat → Prop}
    (h : allowed (.create 0x20000000 0x2000) (.allocate 1 0x1000)) :
    Managed allowed 0x20000000 0x2000 oneBlock.1 oneBlock.2 :=
  .called _ .created (by decide) ⟨nofun, fun _ _ => rfl⟩ h

theorem memoryManager_partitions_block :
    (oneBlock.1.regionStartPaddr = 0x20000000 ∧ oneBlock.1.regionSizeBytes = 0x2000) ∧
    Partitions oneBlock.1 oneBlock.2 ∧
    ∃ r m', oneBlock.1.allocateBlock (fun _ => true) 2 0x1000 = .ok (r, m') ∧
      AllocationExact oneBlock.1 oneBlock.2 0x1000 r := by
  obtain ⟨hregion, hpart, halloc⟩ := memoryManager_partitions 0x20000000 0x2000 (by decide)
    oneBlock.1 oneBlock.2 (oneBlock_managed trivial)
  exact ⟨hregion, hpart, halloc _ 2 0x1000 (by decide)⟩

/-- Freeing 0xFFFFF000 bytes of a block of 0x1000. -/
theorem free_wrap_breaks : ¬ ∀ (m : MemoryManager Nat) (own : Nat → Option Nat),
    Managed (fun _ _ => True) 0x20000000 0x2000 m own → Partitions m own := by
  intro h
  have hpart := h _ _ (.called (.deallocate 1 0x20000000 0xFFFFF000) (oneBlock_managed trivial)
    (by decide) ⟨fun _ _ _ => rfl, fun _ _ => rfl⟩ trivial)
  have hout := (hpart.cover 0x20002000).1 ⟨⟨0x20000000, 0xFFFFF000, none⟩, by decide, by decide⟩
  exact absurd hout.2 (by decide)

end

end Mikage
