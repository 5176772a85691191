import Mikage.Memory.UnmapProof

/-!
# Runs of mapping calls

The maps a process can have: any sequence of `MapVirtualMemory` and `UnmapVirtualMemory` calls on
the empty map, whatever each call returns. In a run whose mappings all fit (`FittingCall`) the
mappings are disjoint, and each update does what it is for exactly on the inputs `Fits` and
`Unmappable` name. Outside these the updates go wrong: `mapping_to_top_breaks` is a mapping that
ends at the top, `unmap_across_gap_breaks` a range with a hole.
-/

namespace Mikage

/-- A call that updates the map. -/
inductive MapCall where
  | map (physAddr : PAddr) (size : BitVec 32) (vaddr : VAddr) (permissions : MemoryPermissions)
  | unmap (vaddr : VAddr) (size : BitVec 32)

def MapCall.apply (m : VirtualMemory) : MapCall → MapResult
  | .map physAddr size vaddr permissions => mapVirtualMemory m physAddr size vaddr permissions
  | .unmap vaddr size => unmapVirtualMemory m vaddr size

/-- Any call. -/
def AnyCall (m m' : VirtualMemory) : Prop := ∃ c : MapCall, (c.apply m).memory = m'

/-- A call that, if it maps, maps a range that fits. -/
def FittingCall (m m' : VirtualMemory) : Prop :=
  ∃ c : MapCall, (∀ physAddr size vaddr permissions,
    c = .map physAddr size vaddr permissions → Fits m size vaddr) ∧ (c.apply m).memory = m'

/-- The maps of runs of any calls. -/
abbrev Built : VirtualMemory → Prop := Run.Reachable (· = .empty) AnyCall

/-- The maps of runs in which every mapping fits. -/
abbrev BuiltFitting : VirtualMemory → Prop := Run.Reachable (· = .empty) FittingCall

variable {m : VirtualMemory} {physAddr : PAddr} {size : BitVec 32} {vaddr : VAddr}
  {permissions : MemoryPermissions}

theorem Disjoint.map (hm : Disjoint m) (hfit : Fits m size vaddr) :
    Disjoint (mapVirtualMemory m physAddr size vaddr permissions).memory := by
  by_cases hs : size = 0
  · rw [mapVirtualMemory, if_pos hs]
    exact hm
  by_cases h : Rejected m size vaddr
  · rw [mapVirtualMemory_rejected hm hs h]
    exact hm
  · rw [mapVirtualMemory_accepted hm hs h]
    rcases hfit with hfit | hbelow
    · exact hm.insert hs h hfit
    · exact absurd (.inr hbelow) h

theorem BuiltFitting.disjoint (h : BuiltFitting m) : Disjoint m := by
  refine Run.Reachable.invariant (I := Disjoint) ?_ ?_ h
  · rintro _ rfl
    exact .empty
  · rintro m _ hm ⟨c, hfit, rfl⟩
    cases c with
    | map physAddr size vaddr permissions => exact hm.map (hfit _ _ _ _ rfl)
    | unmap vaddr size => exact hm.unmap

/-- **The map stays a function and mapping is exact** in a run whose mappings fit, and the next
mapping is exact precisely if it fits too. -/
theorem mapping_exact (m : VirtualMemory) (h : BuiltFitting m) : Disjoint m ∧
    ∀ physAddr size vaddr permissions, size ≠ 0 →
      (MapExact m physAddr size vaddr permissions ↔ Fits m size vaddr) :=
  ⟨h.disjoint, fun _ _ _ _ hs => mapExact_iff h.disjoint hs⟩

/-- A mapping that reaches the top of the address space is accepted but translates nothing, and a
second mapping of the same addresses is accepted too. -/
theorem mapping_to_top_breaks :
    ¬ (∀ m, Built m →
      (∀ e ∈ m, ∀ e' ∈ m, e.1 < e'.1 → e.1.toNat + e.2.size.toNat ≤ e'.1.toNat) ∧
      ∀ physAddr size vaddr permissions, size ≠ 0 →
        MapExact m physAddr size vaddr permissions) := by
  intro h
  let top := MapCall.map 0x20000000 0x1000 0xFFFFF000 .readWrite
  let inside := MapCall.map 0x20002000 0x100 0xFFFFF800 .readWrite
  have hbuilt : Built (inside.apply (top.apply .empty).memory).memory :=
    .next (.next (.start rfl) ⟨top, rfl⟩) ⟨inside, rfl⟩
  have hoverlap := (h _ hbuilt).1 (0xFFFFF000, ⟨0x20000000, 0x1000, .readWrite⟩) (by decide)
    (0xFFFFF800, ⟨0x20002000, 0x100, .readWrite⟩) (by decide) (by decide)
  exact absurd hoverlap (by decide)

theorem mapping_exact_page :
    (Disjoint (mapVirtualMemory .empty 0x20000000 0x1000 0x8000000 .readWrite).memory ∧
      ∀ physAddr size vaddr permissions, size ≠ 0 →
        (MapExact (mapVirtualMemory .empty 0x20000000 0x1000 0x8000000 .readWrite).memory
          physAddr size vaddr permissions ↔
        Fits (mapVirtualMemory .empty 0x20000000 0x1000 0x8000000 .readWrite).memory size vaddr)) ∧
    MapExact .empty 0x20000000 0x1000 0x8000000 .readWrite := by
  refine ⟨mapping_exact _ (.next (.start rfl) ⟨.map 0x20000000 0x1000 0x8000000 .readWrite, ?_, rfl⟩),
    ((mapping_exact _ (.start rfl)).2 _ _ _ _ (by decide)).2 (.inl (by decide))⟩
  rintro _ _ _ _ ⟨⟩
  exact .inl (by decide)

/-- **Unmapping is exact** in a run whose mappings fit precisely for the `Unmappable` ranges. -/
theorem unmapping_exact (m : VirtualMemory) (h : BuiltFitting m) (vaddr : VAddr)
    (size : BitVec 32) (hs : size ≠ 0) (hrange : vaddr.toNat + size.toNat ≤ 2 ^ 32) :
    UnmapExact m vaddr size ↔ Unmappable m vaddr size := unmapExact_iff h.disjoint hs hrange

/-- Unmapping a range whose first page is not mapped succeeds, but moves the rest of the next
mapping: the address behind the range translates 0x1000 bytes too high. -/
theorem unmap_across_gap_breaks :
    ¬ (∀ m, Built m → ∀ vaddr size, size ≠ 0 → vaddr.toNat + size.toNat ≤ 2 ^ 32 →
      UnmapExact m vaddr size) := by
  intro h
  have hbuilt : Built (mapVirtualMemory .empty 0x20000000 0x3000 0x8001000 .readWrite).memory :=
    .next (.start rfl) ⟨.map 0x20000000 0x3000 0x8001000 .readWrite, rfl⟩
  have hmoved := (h _ hbuilt 0x8000000 0x2000 (by decide) (by decide)).1 (by decide) 0x8002000
  exact absurd hmoved (by decide)

theorem unmapping_exact_page :
    UnmapExact (mapVirtualMemory .empty 0x20000000 0x3000 0x8000000 .readWrite).memory
      0x8001000 0x1000 ↔
    Unmappable (mapVirtualMemory .empty 0x20000000 0x3000 0x8000000 .readWrite).memory
      0x8001000 0x1000 := by
  refine unmapping_exact _ (.next (.start rfl) ⟨.map 0x20000000 0x3000 0x8000000 .readWrite, ?_,
    rfl⟩) 0x8001000 0x1000 (by decide) (by decide)
  rintro _ _ _ _ ⟨⟩
  exact .inl (by decide)

end Mikage
