import Mikage.Lib.Run
import Mikage.Memory.VirtualMemory

/-!
# Mapping memory

The mappings of a process stay pairwise disjoint, and mapping is exact, as long as no mapping
reaches the top of the address space (`Fits`).

- `Disjoint`: the mappings are non-empty, end below the top and do not overlap.
- `resolve_eq_some_iff`: with `Disjoint`, translation is membership in a mapping.
- `MapExact`: what `mapVirtualMemory` is for; `mapExact_iff` says when it does it.
-/

namespace Mikage

/-! ## Mappings as intervals -/

/-- The address lies in the mapping; the end of the mapping does not wrap. -/
def Contains (e : VAddr × VirtualMemoryBlock) (a : VAddr) : Prop :=
  e.1.toNat ≤ a.toNat ∧ a.toNat < e.1.toNat + e.2.size.toNat

instance (e : VAddr × VirtualMemoryBlock) (a : VAddr) : Decidable (Contains e a) :=
  inferInstanceAs (Decidable (_ ∧ _))

/-- Where a mapping puts an address. -/
def target (e : VAddr × VirtualMemoryBlock) (a : VAddr) : PAddr × MemoryPermissions :=
  (e.2.physStart + (a - e.1), e.2.permissions)

/-- The addresses `vaddr + o` with `o < size`, in 32-bit arithmetic. -/
def InRange (vaddr : VAddr) (size : BitVec 32) (a : VAddr) : Prop := a - vaddr < size

instance (vaddr : VAddr) (size : BitVec 32) (a : VAddr) : Decidable (InRange vaddr size a) :=
  inferInstanceAs (Decidable (_ < _))

/-- The mappings are non-empty, end below the top of the address space and do not overlap. -/
structure Disjoint (m : VirtualMemory) : Prop where
  nonempty : ∀ e ∈ m, 0 < e.2.size.toNat
  below_top : ∀ e ∈ m, e.1.toNat + e.2.size.toNat < 2 ^ 32
  disjoint : ∀ e ∈ m, ∀ e' ∈ m, e.1 < e'.1 → e.1.toNat + e.2.size.toNat ≤ e'.1.toNat

theorem Disjoint.empty : Disjoint .empty where
  nonempty _ h := absurd h SortedMap.not_mem_empty
  below_top _ h := absurd h SortedMap.not_mem_empty
  disjoint _ h := absurd h SortedMap.not_mem_empty

theorem Disjoint.singleton {e : VAddr × VirtualMemoryBlock} (hpos : 0 < e.2.size.toNat)
    (htop : e.1.toNat + e.2.size.toNat < 2 ^ 32) :
    Disjoint ⟨[e], List.pairwise_singleton _ _⟩ where
  nonempty := List.forall_mem_singleton.2 hpos
  below_top := List.forall_mem_singleton.2 htop
  disjoint := List.forall_mem_singleton.2
    (List.forall_mem_singleton.2 fun h => absurd h (lt_irrefl _))

section

variable {m : VirtualMemory} {e e' : VAddr × VirtualMemoryBlock} {a vaddr : VAddr}
  {size : BitVec 32} {t : PAddr × MemoryPermissions}

theorem inRange_iff (h : vaddr.toNat + size.toNat ≤ 2 ^ 32) :
    InRange vaddr size a ↔ vaddr.toNat ≤ a.toNat ∧ a.toNat < vaddr.toNat + size.toNat := by
  unfold InRange
  bv_omega

/-- At most one mapping contains an address. -/
theorem Disjoint.unique (hm : Disjoint m) (he : e ∈ m) (he' : e' ∈ m) (h : Contains e a)
    (h' : Contains e' a) : e = e' := by
  obtain ⟨h1, h2⟩ := h
  obtain ⟨h1', h2'⟩ := h'
  refine SortedMap.eq_of_fst_eq he he' ?_
  rcases lt_trichotomy e.1 e'.1 with hlt | heq | hlt
  · have := hm.disjoint e he e' he' hlt
    omega
  · exact heq
  · have := hm.disjoint e' he' e he hlt
    omega

theorem resolveBlock_eq_some_iff (hm : Disjoint m) :
    resolveBlock m a = some e ↔ e ∈ m ∧ Contains e a := by
  unfold resolveBlock Contains
  rw [Option.filter_eq_some_iff]
  constructor
  · rintro ⟨h, hend⟩
    obtain ⟨he, hle, -⟩ := SortedMap.prevUpperBound_spec h
    have := hm.below_top e he
    refine ⟨he, ?_⟩
    simp only [decide_eq_true_eq] at hend
    bv_omega
  · rintro ⟨he, hle, hlt⟩
    have htop := hm.below_top e he
    refine ⟨?_, by simp only [decide_eq_true_eq]; bv_omega⟩
    have hea : e.1 ≤ a := hle
    cases hx : m.prevUpperBound a with
    | none => exact absurd hea (not_le.2 (SortedMap.prevUpperBound_eq_none_iff.1 hx e he))
    | some x =>
      obtain ⟨hxm, hxa, hmax⟩ := SortedMap.prevUpperBound_spec hx
      rcases hmax e he hea with rfl | hlt'
      · rfl
      · have := hm.disjoint e he x hxm hlt'
        have hxa' : x.1.toNat ≤ a.toNat := hxa
        omega

theorem resolve_eq_some_iff (hm : Disjoint m) :
    resolve m a = some t ↔ ∃ e ∈ m, Contains e a ∧ target e a = t := by
  simp only [resolve, Option.map_eq_some_iff, resolveBlock_eq_some_iff hm, and_assoc, target]

theorem resolve_eq_none_iff (hm : Disjoint m) :
    resolve m a = none ↔ ∀ e ∈ m, ¬ Contains e a := by
  rw [resolve, Option.map_eq_none_iff, Option.eq_none_iff_forall_ne_some]
  simp only [ne_eq, resolveBlock_eq_some_iff hm, not_and]

theorem resolve_mapped (hm : Disjoint m) (he : e ∈ m) (h : Contains e a) :
    resolve m a = some (target e a) := (resolve_eq_some_iff hm).2 ⟨e, he, h, rfl⟩

/-- `ResolveVirtualAddr` is `resolve` without the permissions, on every map. -/
theorem resolveVirtualAddr_eq : resolveVirtualAddr m a = (resolve m a).map (·.1) := by
  simp [resolveVirtualAddr, resolve, Function.comp_def]

end

/-! ## Mapping -/

/-- The range ends below the top of the address space, or a mapping from below reaches into it. -/
def Fits (m : VirtualMemory) (size : BitVec 32) (vaddr : VAddr) : Prop :=
  vaddr.toNat + size.toNat < 2 ^ 32 ∨ ∃ e ∈ m, e.1 < vaddr ∧ Contains e vaddr

instance (m : VirtualMemory) (size : BitVec 32) (vaddr : VAddr) : Decidable (Fits m size vaddr) :=
  inferInstanceAs (Decidable (_ ∨ ∃ e ∈ m.entries, _))

/-- **What mapping is for**: it succeeds exactly where no address of the range is mapped, then adds
the range and nothing else, and leaves the map alone otherwise. -/
def MapExact (m : VirtualMemory) (physAddr : PAddr) (size : BitVec 32) (vaddr : VAddr)
    (permissions : MemoryPermissions) : Prop :=
  let r := mapVirtualMemory m physAddr size vaddr permissions
  (r.outcome = .ok true ↔ ∀ a, InRange vaddr size a → resolve m a = none) ∧
  (r.outcome = .ok true → ∀ a, resolve r.memory a =
    if InRange vaddr size a then some (physAddr + (a - vaddr), permissions) else resolve m a) ∧
  (r.outcome ≠ .ok true → r.memory = m)

section

variable {m : VirtualMemory} {physAddr : PAddr} {size : BitVec 32} {vaddr a : VAddr}
  {permissions : MemoryPermissions}

/-- The two overlap tests. -/
def Rejected (m : VirtualMemory) (size : BitVec 32) (vaddr : VAddr) : Prop :=
  (∃ e ∈ m, vaddr ≤ e.1 ∧ e.1 < vaddr + size) ∨ ∃ e ∈ m, e.1 < vaddr ∧ Contains e vaddr

theorem prevLowerBound_any_iff (hm : Disjoint m) :
    (m.prevLowerBound vaddr).any (fun e => vaddr < e.1 + e.2.size) ↔
      ∃ e ∈ m, e.1 < vaddr ∧ Contains e vaddr := by
  rw [Option.any_eq_true]
  constructor
  · rintro ⟨e, h, hend⟩
    obtain ⟨he, hlt, -⟩ := SortedMap.prevLowerBound_spec h
    have := hm.below_top e he
    simp only [decide_eq_true_eq] at hend
    exact ⟨e, he, hlt, by unfold Contains; bv_omega⟩
  · rintro ⟨e, he, hlt, hc⟩
    cases hx : m.prevLowerBound vaddr with
    | none => exact absurd hlt (not_lt.2 (SortedMap.prevLowerBound_eq_none_iff.1 hx e he))
    | some x =>
      obtain ⟨hxm, hxa, hmax⟩ := SortedMap.prevLowerBound_spec hx
      unfold Contains at hc
      have htop := hm.below_top e he
      refine ⟨x, rfl, ?_⟩
      rcases hmax e he hlt with rfl | hlt'
      · simp only [decide_eq_true_eq]
        bv_omega
      · have := hm.disjoint e he x hxm hlt'
        bv_omega

theorem mapVirtualMemory_rejected (hm : Disjoint m) (hs : size ≠ 0) (h : Rejected m size vaddr) :
    mapVirtualMemory m physAddr size vaddr permissions = ⟨.ok false, m, []⟩ := by
  unfold mapVirtualMemory
  rw [if_neg hs]
  rcases h with h | h
  · rw [if_pos (SortedMap.lowerBound_any_lt_iff.2 h)]
  · split
    · rfl
    · rw [if_pos ((prevLowerBound_any_iff hm).2 h)]

theorem mapVirtualMemory_accepted (hm : Disjoint m) (hs : size ≠ 0) (h : ¬ Rejected m size vaddr) :
    mapVirtualMemory m physAddr size vaddr permissions =
      ⟨.ok true, m.insert vaddr ⟨physAddr, size, permissions⟩, [.mapped physAddr size vaddr]⟩ := by
  unfold mapVirtualMemory
  rw [if_neg hs, if_neg (fun hl => h (.inl (SortedMap.lowerBound_any_lt_iff.1 hl))),
    if_neg (fun hp => h (.inr ((prevLowerBound_any_iff hm).1 hp)))]

/-- A rejected range has a mapped address. -/
theorem exists_mapped_of_rejected (hm : Disjoint m) (hs : size ≠ 0) (h : Rejected m size vaddr) :
    ∃ a, InRange vaddr size a ∧ resolve m a ≠ none := by
  rcases h with ⟨e, he, hle, hlt⟩ | ⟨e, he, -, hc⟩
  · refine ⟨e.1, by unfold InRange; bv_omega, ?_⟩
    rw [resolve_mapped hm he ⟨Nat.le_refl _, by have := hm.nonempty e he; omega⟩]
    exact Option.some_ne_none _
  · refine ⟨vaddr, by unfold InRange; bv_omega, ?_⟩
    rw [resolve_mapped hm he hc]
    exact Option.some_ne_none _

/-- In a range that is not rejected and does not wrap, no mapping has an address. -/
theorem apart_of_accepted (hm : Disjoint m) (h : ¬ Rejected m size vaddr)
    (hfit : vaddr.toNat + size.toNat < 2 ^ 32) {e : VAddr × VirtualMemoryBlock} (he : e ∈ m) :
    e.1.toNat + e.2.size.toNat ≤ vaddr.toNat ∨ vaddr.toNat + size.toNat ≤ e.1.toNat := by
  have hn := hm.nonempty e he
  by_cases hle : vaddr ≤ e.1
  · have h1 : ¬ e.1 < vaddr + size := fun hlt => h (.inl ⟨e, he, hle, hlt⟩)
    bv_omega
  · have h2 : ¬ Contains e vaddr := fun hc => h (.inr ⟨e, he, not_le.1 hle, hc⟩)
    unfold Contains at h2
    bv_omega

theorem mem_insert_of_accepted (hm : Disjoint m) (hs : size ≠ 0) (h : ¬ Rejected m size vaddr)
    (hfit : vaddr.toNat + size.toNat < 2 ^ 32) {e : VAddr × VirtualMemoryBlock} :
    e ∈ m.insert vaddr ⟨physAddr, size, permissions⟩ ↔
      e ∈ m ∨ e = (vaddr, ⟨physAddr, size, permissions⟩) := by
  apply SortedMap.mem_insert_of_fresh
  rintro x hx rfl
  have := apart_of_accepted hm h hfit hx
  have := hm.nonempty x hx
  bv_omega

theorem Disjoint.insert (hm : Disjoint m) (hs : size ≠ 0) (h : ¬ Rejected m size vaddr)
    (hfit : vaddr.toNat + size.toNat < 2 ^ 32) :
    Disjoint (m.insert vaddr ⟨physAddr, size, permissions⟩) where
  nonempty e he := by
    rcases (mem_insert_of_accepted hm hs h hfit).1 he with he | rfl
    · exact hm.nonempty e he
    · show 0 < size.toNat
      bv_omega
  below_top e he := by
    rcases (mem_insert_of_accepted hm hs h hfit).1 he with he | rfl
    · exact hm.below_top e he
    · exact hfit
  disjoint e he e' he' hlt := by
    rcases (mem_insert_of_accepted hm hs h hfit).1 he with he | rfl <;>
      rcases (mem_insert_of_accepted hm hs h hfit).1 he' with he' | rfl
    · exact hm.disjoint e he e' he' hlt
    · have := apart_of_accepted hm h hfit he
      simp only at hlt ⊢
      bv_omega
    · have := apart_of_accepted hm h hfit he'
      have := hm.nonempty e' he'
      simp only at hlt ⊢
      bv_omega
    · exact absurd hlt (lt_irrefl _)

/-- What a successful mapping below the top does to every address. -/
theorem resolve_insert (hm : Disjoint m) (hs : size ≠ 0) (h : ¬ Rejected m size vaddr)
    (hfit : vaddr.toNat + size.toNat < 2 ^ 32) :
    resolve (m.insert vaddr ⟨physAddr, size, permissions⟩) a =
      if InRange vaddr size a then some (physAddr + (a - vaddr), permissions)
      else resolve m a := by
  have hm' : Disjoint (m.insert vaddr ⟨physAddr, size, permissions⟩) := hm.insert hs h hfit
  have hmem {e : VAddr × VirtualMemoryBlock} :
      e ∈ m.insert vaddr ⟨physAddr, size, permissions⟩ ↔
        e ∈ m ∨ e = (vaddr, ⟨physAddr, size, permissions⟩) := mem_insert_of_accepted hm hs h hfit
  have hrange := inRange_iff (a := a) (by omega : vaddr.toNat + size.toNat ≤ 2 ^ 32)
  split
  next hin =>
    have hc : Contains (vaddr, ⟨physAddr, size, permissions⟩) a := hrange.1 hin
    rw [resolve_mapped hm' (hmem.2 (.inr rfl)) hc, target]
  next hout =>
    refine Option.ext fun t => ?_
    rw [resolve_eq_some_iff hm', resolve_eq_some_iff hm]
    constructor
    · rintro ⟨e, he, hc, ht⟩
      rcases hmem.1 he with he | rfl
      · exact ⟨e, he, hc, ht⟩
      · exact absurd (hrange.2 hc) hout
    · rintro ⟨e, he, hc, ht⟩
      exact ⟨e, hmem.2 (.inl he), hc, ht⟩

/-- A mapping that reaches the top translates nothing, not even its first address. -/
theorem resolve_insert_of_wraps (hfit : ¬ vaddr.toNat + size.toNat < 2 ^ 32)
    (hfresh : ∀ e ∈ m, e.1 ≠ vaddr) :
    resolve (m.insert vaddr ⟨physAddr, size, permissions⟩) vaddr = none := by
  have hmem {e} := SortedMap.mem_insert_of_fresh (m := m) (v := (⟨physAddr, size, permissions⟩ :
    VirtualMemoryBlock)) (e := e) hfresh
  rw [resolve, Option.map_eq_none_iff, resolveBlock, Option.filter_eq_none_iff]
  intro e he
  obtain ⟨hin, hle, hmax⟩ := SortedMap.prevUpperBound_spec he
  have hnew : e = (vaddr, ⟨physAddr, size, permissions⟩) := by
    rcases hmax _ (hmem.2 (.inr rfl)) le_rfl with h | h
    · exact h.symm
    · exact absurd h (not_lt.2 hle)
  subst hnew
  simp only [decide_not, Bool.not_eq_true', decide_eq_false_iff_not, not_not]
  bv_omega

theorem mapExact_of_rejected (hm : Disjoint m) (hs : size ≠ 0) (h : Rejected m size vaddr) :
    MapExact m physAddr size vaddr permissions := by
  obtain ⟨a, hin, ha⟩ := exists_mapped_of_rejected hm hs h
  rw [MapExact, mapVirtualMemory_rejected hm hs h]
  exact ⟨⟨fun h => by simp at h, fun h => absurd (h a hin) ha⟩, fun h => by simp at h, fun _ => rfl⟩

theorem mapExact_of_accepted (hm : Disjoint m) (hs : size ≠ 0) (h : ¬ Rejected m size vaddr)
    (hfit : vaddr.toNat + size.toNat < 2 ^ 32) :
    MapExact m physAddr size vaddr permissions := by
  rw [MapExact, mapVirtualMemory_accepted hm hs h]
  refine ⟨⟨fun _ a hin => ?_, fun _ => rfl⟩, fun _ a => resolve_insert hm hs h hfit,
    fun h => absurd rfl h⟩
  rw [resolve_eq_none_iff hm]
  rintro e he ⟨hc1, hc2⟩
  have := apart_of_accepted hm h hfit he
  rw [inRange_iff (by omega)] at hin
  omega

theorem not_mapExact_of_wraps (hm : Disjoint m) (hs : size ≠ 0) (h : ¬ Rejected m size vaddr)
    (hfit : ¬ vaddr.toNat + size.toNat < 2 ^ 32) :
    ¬ MapExact m physAddr size vaddr permissions := by
  rw [MapExact, mapVirtualMemory_accepted hm hs h]
  rintro ⟨hfree, hmapped, -⟩
  have hin : InRange vaddr size vaddr := by unfold InRange; bv_omega
  -- the overlap tests compare with the wrapped end, so only the entry of `vaddr` itself is in doubt
  have hfresh : ∀ e ∈ m, e.1 ≠ vaddr := by
    rintro e he rfl
    have hnone := hfree.1 rfl e.1 hin
    rw [resolve_eq_none_iff hm] at hnone
    exact hnone e he ⟨Nat.le_refl _, by have := hm.nonempty e he; omega⟩
  have := hmapped rfl vaddr
  rw [if_pos hin, resolve_insert_of_wraps hfit hfresh] at this
  exact absurd this (by simp)

/-- **Mapping is exact** on a map of disjoint mappings when, and only when, the range fits. -/
theorem mapExact_iff (hm : Disjoint m) (hs : size ≠ 0) :
    MapExact m physAddr size vaddr permissions ↔ Fits m size vaddr := by
  by_cases h : Rejected m size vaddr
  · refine ⟨fun _ => ?_, fun _ => mapExact_of_rejected hm hs h⟩
    rcases h with ⟨e, he, hle, hlt⟩ | h
    · exact .inl (by bv_omega)
    · exact .inr h
  · by_cases hfit : vaddr.toNat + size.toNat < 2 ^ 32
    · exact ⟨fun _ => .inl hfit, fun _ => mapExact_of_accepted hm hs h hfit⟩
    · refine ⟨fun hex => absurd hex (not_mapExact_of_wraps hm hs h hfit), ?_⟩
      rintro (hf | hp)
      · exact absurd hf hfit
      · exact absurd (.inr hp) h

end

end Mikage
