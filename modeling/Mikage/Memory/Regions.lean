import Mikage.Memory.Allocation

/-!
# The memory regions

Physical memory has a manager for each of its regions. `FindMemoryRegionContaining` picks the one
that a call of the kernel goes to.

- `Regions.update`: a call of the manager that contains a range.
- `Owned`: all managers show one ownership of physical memory.
- `Owned.transfer`, `Owned.transferIn`, `Owned.allocate`: what the calls do to it.
-/

namespace Mikage

variable {Owner : Type}

/-- The regions of the application, the system and the base, in this order. -/
abbrev Regions (Owner : Type) := List (MemoryManager Owner)

def MemoryManager.regionEnd (r : MemoryManager Owner) : PAddr :=
  r.regionStartPaddr + r.regionSizeBytes

/-- A call of the manager that `FindMemoryRegionContaining` returns: its result, and the regions
after it. -/
def Regions.update {α : Type} (paddr : PAddr) (size : BitVec 32)
    (call : MemoryManager Owner → Except Exception (α × MemoryManager Owner)) :
    Regions Owner → Except Exception (α × Regions Owner)
  | [] => .error (.runtimeError "Could not determine memory region")
  | r :: rs =>
    if r.regionStartPaddr ≤ paddr ∧ paddr + size ≤ r.regionEnd then
      (call r).map fun (a, r) => (a, r :: rs)
    else (Regions.update paddr size call rs).map fun (a, rs) => (a, r :: rs)

def Regions.transferOwnership [DecidableEq Owner] (alive : Owner → Bool) (oldOwner newOwner : Owner)
    (paddr : PAddr) (size : BitVec 32) (regions : Regions Owner) :
    Except Exception (Regions Owner) :=
  (regions.update paddr size fun r =>
    (r.transferOwnership alive oldOwner newOwner paddr size).map fun r => ((), r)).map (·.2)

/-- The same call of the manager at a place. -/
def Regions.transferIn [DecidableEq Owner] (alive : Owner → Bool) (oldOwner newOwner : Owner)
    (paddr : PAddr) (size : BitVec 32) : Nat → Regions Owner → Except Exception (Regions Owner)
  | _, [] => .error (.runtimeError "Could not determine memory region")
  | 0, r :: rs => (r.transferOwnership alive oldOwner newOwner paddr size).map (· :: rs)
  | i + 1, r :: rs => (Regions.transferIn alive oldOwner newOwner paddr size i rs).map (r :: ·)

/-- All managers show one ownership of physical memory, and no position lies in two regions. The
regions neither begin at 0 nor reach the top. -/
structure Owned (regions : Regions Owner) (own : Nat → Option Owner) : Prop where
  ledger : ∀ r ∈ regions, Ledger r own
  bounds : ∀ r ∈ regions, 0 < r.regionStartPaddr.toNat ∧
    r.regionStartPaddr.toNat + r.regionSizeBytes.toNat < 2 ^ 32
  apart : regions.Pairwise fun r r' => ∀ x, InRegion r x → ¬ InRegion r' x

section

variable {regions regions' : Regions Owner} {r r' : MemoryManager Owner} {own own' : Nat → Option Owner}
  {α : Type} {paddr : PAddr} {size n : BitVec 32} {a : α}
  {call : MemoryManager Owner → Except Exception (α × MemoryManager Owner)}

/-- One region has the range, and the call is made of its manager. -/
theorem Regions.update_ok (h : regions.update paddr size call = .ok (a, regions')) :
    ∃ l r r' l', regions = l ++ r :: l' ∧ regions' = l ++ r' :: l' ∧ call r = .ok (a, r') ∧
      r.regionStartPaddr ≤ paddr ∧ paddr + size ≤ r.regionEnd := by
  induction regions generalizing regions' with
  | nil => cases h
  | cons r rs ih =>
    rw [Regions.update] at h
    split at h
    · rename_i hin
      obtain ⟨⟨b, r'⟩, hcall, heq⟩ := map_ok h
      cases heq
      exact ⟨[], r, r', rs, rfl, rfl, hcall, hin.1, hin.2⟩
    · obtain ⟨⟨b, rs'⟩, hrest, heq⟩ := map_ok h
      cases heq
      obtain ⟨l, x, x', l', rfl, rfl, hcall, hin⟩ := ih hrest
      exact ⟨r :: l, x, x', l', rfl, rfl, hcall, hin⟩

/-- A ledger depends on the positions of its region only. -/
theorem Ledger.congr (h : Ledger r own) (heq : ∀ x, InRegion r x → own' x = own x) :
    Ledger r own' where
  region := h.region
  free := h.free.congr fun x o => by
    constructor
    · rintro ⟨hx, ho⟩
      exact ⟨hx, (heq x hx).symm ▸ ho⟩
    · rintro ⟨hx, ho⟩
      exact ⟨hx, heq x hx ▸ ho⟩
  taken := h.taken.congr fun x o => by
    constructor
    · rintro ⟨hx, ho⟩
      exact ⟨hx, (heq x hx).symm ▸ ho⟩
    · rintro ⟨hx, ho⟩
      exact ⟨hx, heq x hx ▸ ho⟩
  coalesced := h.coalesced

/-- A call of one manager changes the ownership in its region only. -/
theorem Owned.replace {l l' : List (MemoryManager Owner)} (h : Owned (l ++ r :: l') own)
    (hr : Ledger r' own') (hregion : r'.regionStartPaddr = r.regionStartPaddr ∧
      r'.regionSizeBytes = r.regionSizeBytes)
    (heq : ∀ x, ¬ InRegion r x → own' x = own x) : Owned (l ++ r' :: l') own' := by
  obtain ⟨hl, hrl', hll'⟩ := List.pairwise_append.1 h.apart
  obtain ⟨hrl, hl'⟩ := List.pairwise_cons.1 hrl'
  have hin : ∀ x, InRegion r' x ↔ InRegion r x := fun x => by
    unfold InRegion
    rw [hregion.1, hregion.2]
  constructor
  · intro q hq
    rcases List.mem_append.1 hq with hq | hq
    · refine (h.ledger q (List.mem_append_left _ hq)).congr fun x hx => heq x ?_
      exact hll' q hq r (List.mem_cons_self ..) x hx
    · rcases List.mem_cons.1 hq with rfl | hq
      · exact hr
      · refine (h.ledger q (List.mem_append_right _ (List.mem_cons_of_mem _ hq))).congr
          fun x hx => heq x fun hx' => ?_
        exact hrl q hq x hx' hx
  · intro q hq
    rcases List.mem_append.1 hq with hq | hq
    · exact h.bounds q (List.mem_append_left _ hq)
    · rcases List.mem_cons.1 hq with rfl | hq
      · rw [hregion.1, hregion.2]
        exact h.bounds r (List.mem_append_right _ (List.mem_cons_self ..))
      · exact h.bounds q (List.mem_append_right _ (List.mem_cons_of_mem _ hq))
  · refine List.pairwise_append.2 ⟨hl, List.pairwise_cons.2 ⟨fun q hq x hx => ?_, hl'⟩, ?_⟩
    · exact hrl q hq x ((hin x).1 hx)
    · intro q hq q' hq' x hx
      rcases List.mem_cons.1 hq' with rfl | hq'
      · exact fun hx' => hll' q hq r (List.mem_cons_self ..) x hx ((hin x).1 hx')
      · exact hll' q hq q' (List.mem_cons_of_mem _ hq') x hx

variable [DecidableEq Owner] {alive : Owner → Bool} {oldOwner newOwner owner : Owner}

theorem Regions.transferIn_ok {i : Nat}
    (h : Regions.transferIn alive oldOwner newOwner paddr n i regions = .ok regions') :
    ∃ l r r' l', regions = l ++ r :: l' ∧ regions' = l ++ r' :: l' ∧
      r.transferOwnership alive oldOwner newOwner paddr n = .ok r' := by
  induction regions generalizing i regions' with
  | nil => cases i <;> cases h
  | cons r rs ih =>
    cases i with
    | zero =>
      obtain ⟨r', hcall, rfl⟩ := map_ok h
      exact ⟨[], r, r', rs, rfl, rfl, hcall⟩
    | succ i =>
      obtain ⟨rs', hrest, rfl⟩ := map_ok h
      obtain ⟨l, x, x', l', rfl, rfl, hcall⟩ := ih hrest
      exact ⟨r :: l, x, x', l', rfl, rfl, hcall⟩

/-- A transfer in one region: it was memory of the old owner, and the new owner gets just that. -/
theorem Owned.transfer_one {l l' : List (MemoryManager Owner)} (h : Owned (l ++ r :: l') own)
    (hlive : ∀ x o, own x = some o → alive o) (hnew : alive newOwner) (hn : n ≠ 0)
    (hfit : paddr.toNat + n.toNat < 2 ^ 32)
    (hcall : r.transferOwnership alive oldOwner newOwner paddr n = .ok r') :
    (∀ x, paddr.toNat ≤ x → x < paddr.toNat + n.toNat → own x = some oldOwner) ∧
    Owned (l ++ r' :: l') (assign own paddr.toNat n.toNat (some newOwner)) := by
  have hr := h.ledger r (List.mem_append_right _ (List.mem_cons_self ..))
  rcases (hr.transferOwnership_cases hlive hn (.inl hfit) :
      (∃ err, r.transferOwnership alive oldOwner newOwner paddr n = .error err) ∨ _) with
    ⟨err, herr⟩ | ⟨e, he, howner, hin, hres⟩
  · rw [herr] at hcall
    cases hcall
  rw [hres] at hcall
  cases hcall
  have hchunk : ∀ x, paddr.toNat ≤ x → x < paddr.toNat + n.toNat →
      InRegion r x ∧ own x = some oldOwner := by
    intro x h1 h2
    have hx : (toBlock e).Contains x := by
      have := hin.start
      have := hin.stop
      unfold Block.Contains Block.stop toBlock
      simp only
      omega
    have hx := hr.taken.of_mem he hx
    exact ⟨hx.1, hx.2.1.trans howner⟩
  refine ⟨fun x h1 h2 => (hchunk x h1 h2).2, h.replace ?_ ⟨rfl, rfl⟩ fun x hx => ?_⟩
  · refine hr.transfer he howner hn hin (assign_alive hlive ?_)
    rintro p ⟨⟩
    exact hnew
  · exact if_neg fun hx' => hx (hchunk x hx'.1 hx'.2).1

/-- A transfer in the region of the range. -/
theorem Owned.transfer (h : Owned regions own) (hlive : ∀ x o, own x = some o → alive o)
    (hnew : alive newOwner) (hn : n ≠ 0) (hfit : paddr.toNat + n.toNat < 2 ^ 32)
    (hok : regions.transferOwnership alive oldOwner newOwner paddr n = .ok regions') :
    (∀ x, paddr.toNat ≤ x → x < paddr.toNat + n.toNat → own x = some oldOwner) ∧
    Owned regions' (assign own paddr.toNat n.toNat (some newOwner)) := by
  obtain ⟨⟨u, regions'⟩, hupdate, rfl⟩ := map_ok hok
  obtain ⟨l, r, r', l', rfl, rfl, hcall, -, -⟩ := Regions.update_ok hupdate
  obtain ⟨r', hcall, heq⟩ := map_ok hcall
  cases heq
  exact h.transfer_one hlive hnew hn hfit hcall

/-- A transfer in a region chosen by its place. -/
theorem Owned.transferIn {i : Nat} (h : Owned regions own) (hlive : ∀ x o, own x = some o → alive o)
    (hnew : alive newOwner) (hn : n ≠ 0) (hfit : paddr.toNat + n.toNat < 2 ^ 32)
    (hok : Regions.transferIn alive oldOwner newOwner paddr n i regions = .ok regions') :
    (∀ x, paddr.toNat ≤ x → x < paddr.toNat + n.toNat → own x = some oldOwner) ∧
    Owned regions' (assign own paddr.toNat n.toNat (some newOwner)) := by
  obtain ⟨l, r, r', l', rfl, rfl, hcall⟩ := Regions.transferIn_ok hok
  exact h.transfer_one hlive hnew hn hfit hcall

/-- An allocation in the region of an address takes memory that nobody owns. -/
theorem Owned.allocate {b : PAddr} (h : Owned regions own) (hlive : ∀ x o, own x = some o → alive o)
    (howner : alive owner) (hn : n ≠ 0)
    (hok : regions.update paddr size (fun r => r.allocateBlock alive owner n) =
      .ok (some b, regions')) :
    (0 < b.toNat ∧ b.toNat + n.toNat < 2 ^ 32) ∧
    (∀ x, b.toNat ≤ x → x < b.toNat + n.toNat → own x = none) ∧
    Owned regions' (assign own b.toNat n.toNat (some owner)) := by
  obtain ⟨l, r, r', l', rfl, rfl, hcall, -, -⟩ := Regions.update_ok hok
  have hr := h.ledger r (List.mem_append_right _ (List.mem_cons_self ..))
  obtain ⟨res, m', heq, hexact⟩ : ∃ res m', r.allocateBlock alive owner n = .ok (res, m') ∧
      AllocationExact r own n res := hr.allocation hn
  rw [heq] at hcall
  cases hcall
  have hfree := hexact.block b rfl
  have hstep : BlockCall.step alive r own (.allocate owner n) =
      (r', assign own b.toNat n.toNat (some owner)) := by
    rw [BlockCall.step, BlockCall.run, heq]
    rfl
  have hin : ∀ x, b.toNat ≤ x → x < b.toNat + n.toNat → InRegion r x ∧ own x = none := by
    intro x h1 h2
    have := hfree (x - b.toNat) (by omega)
    rwa [Nat.add_sub_cancel' h1] at this
  have hbounds : 0 < b.toNat ∧ b.toNat + n.toNat < 2 ^ 32 := by
    have hpos := toNat_ne_zero hn
    obtain ⟨⟨hle, -⟩, -⟩ := hin b.toNat (Nat.le_refl _) (by omega)
    obtain ⟨⟨-, hlt⟩, -⟩ := hin (b.toNat + n.toNat - 1) (by omega) (by omega)
    have := h.bounds r (List.mem_append_right _ (List.mem_cons_self ..))
    omega
  refine ⟨hbounds, fun x h1 h2 => (hin x h1 h2).2, h.replace ?_ ?_ fun x hx => ?_⟩
  · have := hr.step (c := .allocate owner n) hn ⟨hlive, List.forall_mem_singleton.2 howner⟩ trivial
    rwa [hstep] at this
  · have hreg : (BlockCall.step alive r own (.allocate owner n)).1.regionStartPaddr =
        r.regionStartPaddr ∧ (BlockCall.step alive r own (.allocate owner n)).1.regionSizeBytes =
        r.regionSizeBytes := BlockCall.step_region
    rwa [hstep] at hreg
  · exact if_neg fun hx' => hx (hin x hx'.1 hx'.2).1

end

end Mikage
