import Mikage.Memory.MapProof

/-!
# Finding room for a mapping

`FindAvailableVirtualMemory` walks the mappings in the order of their addresses and moves its
candidate behind each that is in the way. It does not look whether the end of the candidate wraps.

- `Intervals`: the mappings do not overlap. They may end at the top of the address space.
- `moveCandidate_isLeast`: where the walk stops, on all such maps.
- `FindExact`: what the search is for; `findExact_iff` says when it does it.
-/

namespace Mikage

/-- The loop over the mappings, from the candidate so far. -/
def moveCandidate (size : BitVec 32) (candidate : VAddr) :
    List (VAddr × VirtualMemoryBlock) → VAddr
  | [] => candidate
  | e :: l =>
    if e.1 + e.2.size < candidate then moveCandidate size candidate l
    else if e.1 < candidate + size then moveCandidate size (e.1 + e.2.size) l
    else candidate

def findAvailableVirtualMemory (m : VirtualMemory) (size : BitVec 32) (vaddrStart vaddrEnd : VAddr) :
    Option VAddr :=
  let candidate := moveCandidate size vaddrStart m.entries
  if vaddrEnd < candidate + size then none else some candidate

/-! ## Where the walk stops -/

/-- The mappings are non-empty intervals of the address space and do not overlap. -/
structure Intervals (m : VirtualMemory) : Prop where
  nonempty : ∀ e ∈ m, 0 < e.2.size.toNat
  within : ∀ e ∈ m, e.1.toNat + e.2.size.toNat ≤ 2 ^ 32
  disjoint : ∀ e ∈ m, ∀ e' ∈ m, e.1 < e'.1 → e.1.toNat + e.2.size.toNat ≤ e'.1.toNat

theorem Disjoint.intervals {m : VirtualMemory} (hm : Disjoint m) : Intervals m :=
  ⟨hm.nonempty, fun e he => Nat.le_of_lt (hm.below_top e he), hm.disjoint⟩

/-- A mapping ends at the address. -/
def EndOf (m : VirtualMemory) (a : VAddr) : Prop := ∃ e ∈ m, a = e.1 + e.2.size

/-- A mapping that ends below the top does not keep the search from `a`: it ends there at the latest,
or it starts behind the range. A range from the end of a mapping that runs past the top counts as
empty. -/
def Passes (E : VAddr → Prop) (size : BitVec 32) (a : VAddr) (e : VAddr × VirtualMemoryBlock) :
    Prop :=
  e.1.toNat + e.2.size.toNat < 2 ^ 32 → e.1.toNat + e.2.size.toNat ≤ a.toNat ∨ a.toNat ≤ e.1.toNat ∧
    (a.toNat + size.toNat ≤ e.1.toNat ∨ 2 ^ 32 ≤ a.toNat + size.toNat ∧ E a)

section

variable {m : VirtualMemory} {size : BitVec 32} {vaddrStart vaddrEnd a c : VAddr}
  {e : VAddr × VirtualMemoryBlock} {l : List (VAddr × VirtualMemoryBlock)}

/-- The walk stops at the first address that every mapping passes. It starts where the range does
not wrap, or behind all the mappings before. -/
theorem moveCandidate_isLeast {E : VAddr → Prop} (hpos : ∀ e ∈ l, 0 < e.2.size.toNat)
    (htop : ∀ e ∈ l, e.1.toNat + e.2.size.toNat ≤ 2 ^ 32)
    (hl : l.Pairwise fun e e' => e.1.toNat + e.2.size.toNat ≤ e'.1.toNat)
    (hends : ∀ e ∈ l, E (e.1 + e.2.size))
    (honly : ∀ a, E a → a ≤ c ∨ ∃ e ∈ l, a = e.1 + e.2.size)
    (hc : c.toNat + size.toNat < 2 ^ 32 ∨ E c ∧ ∀ e ∈ l, c.toNat ≤ e.1.toNat) :
    IsLeast {a | c ≤ a ∧ ∀ e ∈ l, Passes E size a e} (moveCandidate size c l) := by
  induction l generalizing c with
  | nil => exact ⟨⟨le_rfl, fun _ h => absurd h List.not_mem_nil⟩, fun _ h => h.1⟩
  | cons e l ih =>
    obtain ⟨hpos₁, hpos₂⟩ := List.forall_mem_cons.1 hpos
    obtain ⟨htop₁, htop₂⟩ := List.forall_mem_cons.1 htop
    obtain ⟨hbehind, hl₂⟩ := List.pairwise_cons.1 hl
    obtain ⟨hends₁, hends₂⟩ := List.forall_mem_cons.1 hends
    -- the mappings from `e` on pass an address exactly if it is `c'` or behind and the rest does
    have step {c' : VAddr} (h : ∀ a, (c ≤ a ∧ Passes E size a e) ↔ c' ≤ a)
        (honly' : ∀ a, E a → a ≤ c' ∨ ∃ e ∈ l, a = e.1 + e.2.size)
        (hc' : c'.toNat + size.toNat < 2 ^ 32 ∨ E c' ∧ ∀ e ∈ l, c'.toNat ≤ e.1.toNat) :
        IsLeast {a | c ≤ a ∧ ∀ x ∈ e :: l, Passes E size a x} (moveCandidate size c' l) := by
      have heq : {a | c ≤ a ∧ ∀ x ∈ e :: l, Passes E size a x} =
          {a | c' ≤ a ∧ ∀ x ∈ l, Passes E size a x} := by
        ext a
        rw [Set.mem_ofPred_eq, Set.mem_ofPred_eq, List.forall_mem_cons, ← and_assoc, h a]
      rw [heq]
      exact ih hpos₂ htop₂ hl₂ hends₂ honly' hc'
    unfold moveCandidate
    by_cases hend : e.1.toNat + e.2.size.toNat < 2 ^ 32
    · have hsum : (e.1 + e.2.size).toNat = e.1.toNat + e.2.size.toNat := by bv_omega
      have only {c' : VAddr} (h : c ≤ c') (he : e.1 + e.2.size ≤ c') :
          ∀ a, E a → a ≤ c' ∨ ∃ e ∈ l, a = e.1 + e.2.size := by
        intro a ha
        rcases honly a ha with ha | ⟨x, hx, rfl⟩
        · exact .inl (ha.trans h)
        · rcases List.mem_cons.1 hx with rfl | hx
          · exact .inl he
          · exact .inr ⟨x, hx, rfl⟩
      split
      next h =>
        refine step (fun a => ⟨And.left, fun ha => ⟨ha, fun _ => .inl ?_⟩⟩) (only le_rfl h.le) ?_
        · rw [BitVec.le_def] at ha
          rw [BitVec.lt_def, hsum] at h
          omega
        · exact hc.imp_right fun h => ⟨h.1, fun e he => h.2 e (.tail _ he)⟩
      next h =>
        have hle : c ≤ e.1 + e.2.size := not_lt.1 h
        rw [BitVec.lt_def, hsum] at h
        split
        next hlt =>
          refine step (fun a => ⟨?_, fun ha => ?_⟩) (only hle le_rfl)
            (.inr ⟨hends₁, fun x hx => hsum ▸ hbehind x hx⟩)
          · rintro ⟨hca, hpass⟩
            rw [BitVec.le_def, hsum]
            rw [BitVec.le_def] at hca
            rcases hpass hend with hle | ⟨hle, hfar | ⟨hwrap, ha⟩⟩
            · exact hle
            · bv_omega
            · rcases honly a ha with ha | ⟨x, hx, rfl⟩
              · bv_omega
              · rcases List.mem_cons.1 hx with rfl | hx
                · bv_omega
                · have := hbehind x hx
                  have := hpos₂ x hx
                  have := htop₂ x hx
                  bv_omega
          · rw [BitVec.le_def, hsum] at ha
            exact ⟨by rw [BitVec.le_def]; omega, fun _ => .inl ha⟩
        next hlt =>
          refine ⟨⟨le_rfl, List.forall_mem_cons.2 ⟨fun _ => ?_, fun x hx _ => ?_⟩⟩, fun _ h => h.1⟩
          · rcases hc with hc | ⟨hce, hc⟩
            · exact .inr (by bv_omega)
            · have := hc e List.mem_cons_self
              by_cases hwrap : 2 ^ 32 ≤ c.toNat + size.toNat
              · exact .inr ⟨this, .inr ⟨hwrap, hce⟩⟩
              · exact .inr (by bv_omega)
          · have := hbehind x hx
            rcases hc with hc | ⟨hce, hc⟩
            · exact .inr (by bv_omega)
            · have := hc x (.tail _ hx)
              by_cases hwrap : 2 ^ 32 ≤ c.toNat + size.toNat
              · exact .inr ⟨this, .inr ⟨hwrap, hce⟩⟩
              · exact .inr (by bv_omega)
    · -- a mapping that ends at the top is the last one, and its end is 0
      have hzero : e.1 + e.2.size = 0 := by bv_omega
      have hnil : l = [] := by
        refine List.eq_nil_iff_forall_not_mem.2 fun x hx => ?_
        have := hbehind x hx
        bv_omega
      subst hnil
      have hleast : IsLeast {a | c ≤ a ∧ ∀ x ∈ [e], Passes E size a x} c :=
        ⟨⟨le_rfl, List.forall_mem_singleton.2 fun h => absurd h hend⟩, fun _ h => h.1⟩
      rw [hzero]
      split
      · exact hleast
      next h =>
        have hc0 : c = 0 := by bv_omega
        subst hc0
        split <;> exact hleast

/-! ## What the search is for -/

/-- No address of the range is mapped. The range does not wrap. -/
def Unmapped (m : VirtualMemory) (a : VAddr) (size : BitVec 32) : Prop :=
  ∀ x : VAddr, a.toNat ≤ x.toNat → x.toNat < a.toNat + size.toNat → ∀ e ∈ m, ¬ Contains e x

/-- An address the search may return. -/
structure Available (m : VirtualMemory) (size : BitVec 32) (vaddrStart vaddrEnd a : VAddr) :
    Prop where
  start : vaddrStart ≤ a
  unmapped : Unmapped m a size
  limit : a.toNat + size.toNat ≤ vaddrEnd.toNat

/-- **What the search is for**: it returns the smallest available address, nothing exactly if there
is none, and the address it returns can be mapped. -/
def FindExact (m : VirtualMemory) (size : BitVec 32) (vaddrStart vaddrEnd : VAddr) : Prop :=
  let r := findAvailableVirtualMemory m size vaddrStart vaddrEnd
  (∀ a, r = some a ↔ IsLeast {a | Available m size vaddrStart vaddrEnd a} a) ∧
  (r = none ↔ ∀ a, ¬ Available m size vaddrStart vaddrEnd a) ∧
  ∀ a, r = some a → ∀ physAddr permissions,
    (mapVirtualMemory m physAddr size a permissions).outcome = .ok true

/-- There is a free range below the top of the address space, or the limit is below the end of the
first range that all mappings pass, where that end may have wrapped. -/
def Roomy (m : VirtualMemory) (size : BitVec 32) (vaddrStart vaddrEnd : VAddr) : Prop :=
  (∃ a, vaddrStart ≤ a ∧ a.toNat + size.toNat < 2 ^ 32 ∧ Unmapped m a size) ∨
  ∃ a, IsLeast {a | vaddrStart ≤ a ∧ ∀ e ∈ m, Passes (EndOf m) size a e} a ∧ vaddrEnd < a + size

theorem unmapped_iff (hm : Intervals m) (hs : size ≠ 0) :
    Unmapped m a size ↔ ∀ e ∈ m, e.1.toNat + e.2.size.toNat ≤ a.toNat ∨
      a.toNat + size.toNat ≤ e.1.toNat := by
  constructor
  · intro h e he
    have hpos := hm.nonempty e he
    have hself := h a (Nat.le_refl _) (by bv_omega) e he
    unfold Contains at hself
    by_contra hmeets
    rw [not_or, not_le, not_le] at hmeets
    have hstart : a.toNat ≤ e.1.toNat := by omega
    exact h e.1 hstart hmeets.2 e he ⟨Nat.le_refl _, by omega⟩
  · rintro h x hax hx e he ⟨h₁, h₂⟩
    rcases h e he with h | h <;> omega

theorem mapVirtualMemory_unmapped (hm : Intervals m) (hs : size ≠ 0)
    (ha : a.toNat + size.toNat < 2 ^ 32) (h : Unmapped m a size) {physAddr : PAddr}
    {permissions : MemoryPermissions} :
    (mapVirtualMemory m physAddr size a permissions).outcome = .ok true := by
  rw [unmapped_iff hm hs] at h
  have hlower : ¬ (m.lowerBound a).any (·.1 < a + size) := by
    rw [SortedMap.lowerBound_any_lt_iff]
    rintro ⟨e, he, hle, hlt⟩
    have := hm.nonempty e he
    rcases h e he with h | h <;> bv_omega
  have hprev : ¬ (m.prevLowerBound a).any (fun e => a < e.1 + e.2.size) := by
    rw [Option.any_eq_true]
    rintro ⟨e, he, hlt⟩
    obtain ⟨he, hbelow, -⟩ := SortedMap.prevLowerBound_spec he
    have := hm.nonempty e he
    have := hm.within e he
    simp only [decide_eq_true_eq] at hlt
    rcases h e he with h | h <;> bv_omega
  rw [mapVirtualMemory, if_neg hs, if_neg hlower, if_neg hprev]

theorem Unmapped.not_rejected (h : Unmapped m a size) (hm : Disjoint m) (hs : size ≠ 0)
    (ha : a.toNat + size.toNat < 2 ^ 32) : ¬ Rejected m size a := by
  intro hrejected
  have hok : (mapVirtualMemory m 0 size a .readWrite).outcome = .ok true :=
    mapVirtualMemory_unmapped hm.intervals hs ha h
  rw [mapVirtualMemory_rejected hm hs hrejected] at hok
  cases hok

theorem entries_apart (hm : Intervals m) :
    m.entries.Pairwise fun e e' => e.1.toNat + e.2.size.toNat ≤ e'.1.toNat :=
  m.sorted.imp_of_mem fun he he' hlt => hm.disjoint _ he _ he' hlt

/-- **The search is exact** where there is room, or the limit keeps it from an address that wraps,
and nowhere else. -/
theorem findExact_iff (hm : Intervals m) (hs : size ≠ 0)
    (hstart : vaddrStart.toNat + size.toNat < 2 ^ 32) :
    FindExact m size vaddrStart vaddrEnd ↔ Roomy m size vaddrStart vaddrEnd := by
  have hleast : IsLeast {a | vaddrStart ≤ a ∧ ∀ e ∈ m, Passes (EndOf m) size a e}
      (moveCandidate size vaddrStart m.entries) :=
    moveCandidate_isLeast hm.nonempty hm.within (entries_apart hm) (fun e he => ⟨e, he, rfl⟩)
      (fun _ h => .inr h) (.inl hstart)
  generalize hr : moveCandidate size vaddrStart m.entries = r at hleast
  have hfind : findAvailableVirtualMemory m size vaddrStart vaddrEnd =
      if vaddrEnd < r + size then none else some r := by rw [findAvailableVirtualMemory, hr]
  have below {a : VAddr} (h : Available m size vaddrStart vaddrEnd a) :
      a.toNat + size.toNat < 2 ^ 32 := Nat.lt_of_le_of_lt h.limit vaddrEnd.isLt
  have least {a : VAddr} (h₁ : vaddrStart ≤ a) (h₂ : a.toNat + size.toNat < 2 ^ 32)
      (h₃ : Unmapped m a size) : r.toNat ≤ a.toNat := by
    refine hleast.2 ⟨h₁, fun e he _ => ?_⟩
    rcases (unmapped_iff hm hs).1 h₃ e he with h | h
    · exact .inl h
    · exact .inr ⟨by omega, .inl h⟩
  rw [FindExact, hfind]
  by_cases hroom : ∃ a, vaddrStart ≤ a ∧ a.toNat + size.toNat < 2 ^ 32 ∧ Unmapped m a size
  · refine ⟨fun _ => .inl hroom, fun _ => ?_⟩
    obtain ⟨a, h₁, h₂, h₃⟩ := hroom
    have hra := least h₁ h₂ h₃
    have hsum : (r + size).toNat = r.toNat + size.toNat := by bv_omega
    have hfree : Unmapped m r size := by
      rw [unmapped_iff hm hs]
      intro e he
      have hapart := (unmapped_iff hm hs).1 h₃ e he
      by_cases hend : e.1.toNat + e.2.size.toNat < 2 ^ 32
      · rcases hleast.1.2 e he hend with h | ⟨-, h | ⟨h, -⟩⟩ <;> omega
      · omega
    by_cases hlimit : vaddrEnd < r + size
    · have hnone (a : VAddr) : ¬ Available m size vaddrStart vaddrEnd a := by
        intro h
        have := least h.start (below h) h.unmapped
        have := h.limit
        rw [BitVec.lt_def] at hlimit
        omega
      rw [if_pos hlimit]
      exact ⟨fun a => ⟨nofun, fun h => absurd h.1 (hnone a)⟩, ⟨fun _ => hnone, fun _ => rfl⟩, nofun⟩
    · have hr : IsLeast {a | Available m size vaddrStart vaddrEnd a} r := by
        refine ⟨⟨hleast.1.1, hfree, ?_⟩, fun a h => least h.start (below h) h.unmapped⟩
        rw [BitVec.lt_def] at hlimit
        omega
      rw [if_neg hlimit]
      refine ⟨fun a => ?_, ⟨nofun, fun h => absurd hr.1 (h r)⟩, ?_⟩
      · rw [Option.some_inj]
        exact ⟨fun h => h ▸ hr, fun h => hr.unique h⟩
      · rintro _ ⟨⟩ physAddr permissions
        exact mapVirtualMemory_unmapped hm hs (by omega) hfree
  · have hnone (a : VAddr) : ¬ Available m size vaddrStart vaddrEnd a :=
      fun h => hroom ⟨a, h.start, below h, h.unmapped⟩
    constructor
    · intro hexact
      refine .inr ⟨r, hleast, ?_⟩
      by_contra hlimit
      rw [if_neg hlimit] at hexact
      exact absurd (hexact.2.1.2 hnone) (Option.some_ne_none _)
    · rintro (h | ⟨a, ha, hlimit⟩)
      · exact absurd h hroom
      · rw [hleast.unique ha, if_pos hlimit]
        exact ⟨fun a => ⟨nofun, fun h => absurd h.1 (hnone a)⟩, ⟨fun _ => hnone, fun _ => rfl⟩, nofun⟩

end

/-- One mapping up to the last page. -/
def lowMapped : VirtualMemory :=
  ⟨[(0x8000000, ⟨0x20000000, 0xF7FFF000, .readWrite⟩)], List.pairwise_singleton _ _⟩

theorem lowMapped_intervals : Intervals lowMapped :=
  (Disjoint.singleton (by decide) (by decide)).intervals

/-- Room for a page is found behind the mapping, where only one is left. -/
theorem first_fit_page : FindExact lowMapped 0x800 0x8000000 0x10000000 := by
  refine (findExact_iff lowMapped_intervals (by decide) (by decide)).2 (.inl ?_)
  refine ⟨0xFFFFF000, by decide, by decide, ?_⟩
  exact (unmapped_iff lowMapped_intervals (by decide)).2
    (List.forall_mem_singleton.2 (by decide))

/-- Room for two pages is "found" in the last page. -/
theorem first_fit_wraps : ¬ ∀ m, Intervals m → ∀ size vaddrStart vaddrEnd : BitVec 32, size ≠ 0 →
    vaddrStart.toNat + size.toNat < 2 ^ 32 → FindExact m size vaddrStart vaddrEnd := by
  intro h
  have hexact := h lowMapped lowMapped_intervals 0x2000 0x8000000 0x10000000 (by decide) (by decide)
  have hfound : findAvailableVirtualMemory lowMapped 0x2000 0x8000000 0x10000000 =
      some 0xFFFFF000 := by decide
  have hlimit := ((hexact.1 _).1 hfound).1.limit
  exact absurd hlimit (by decide)

end Mikage
