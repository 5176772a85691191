import Mikage.Memory.MapProof

/-!
# Unmapping memory

`UnmapVirtualMemory` works through its range one chunk at a time. Started at a mapped address it
removes exactly the part of the mapping in the range and goes on behind it. Started at an unmapped
address it takes the next mapping for the one at `vaddr`, so it removes the wrong end of it; it
never notices, except that a mapping starting exactly at the end of the range makes it throw.

- `unmap_induction`: what holds of every chunk holds of the whole call.
- `Disjoint.unmap`: the mappings stay disjoint, however the call ends.
- `UnmapExact`: what `unmapVirtualMemory` is for; `unmapExact_iff` says when it does it.
-/

namespace Mikage

/-! ## One chunk -/

/-- The part of a chunk that lies below `vaddr`. -/
def lead (vaddr : VAddr) (e : VAddr × VirtualMemoryBlock) : BitVec 32 :=
  if e.1 < vaddr then vaddr - e.1 else 0

def frontPart (vaddr : VAddr) (e : VAddr × VirtualMemoryBlock) : VAddr × VirtualMemoryBlock :=
  (e.1, { e.2 with size := vaddr - e.1 })

def backPart (vaddr : VAddr) (size : BitVec 32) (e : VAddr × VirtualMemoryBlock) :
    VAddr × VirtualMemoryBlock :=
  (vaddr + size, { e.2 with
    physStart := e.2.physStart + lead vaddr e + size
    size := e.2.size - lead vaddr e - size })

/-- How many bytes of the chunk go. -/
def cutSize (vaddr : VAddr) (size : BitVec 32) (e : VAddr × VirtualMemoryBlock) : BitVec 32 :=
  if size < e.2.size - lead vaddr e then size else e.2.size - lead vaddr e

/-- The map without the chunk, but with the parts of it that stay. -/
def cutMap (m : VirtualMemory) (vaddr : VAddr) (size : BitVec 32)
    (e : VAddr × VirtualMemoryBlock) : VirtualMemory :=
  let front := if e.1 < vaddr then (m.erase e.1).insert e.1 (frontPart vaddr e).2 else m.erase e.1
  if size < e.2.size - lead vaddr e then front.insert (vaddr + size) (backPart vaddr size e).2
  else front

section

variable {m : VirtualMemory} {vaddr a : VAddr} {size : BitVec 32}
  {e x : VAddr × VirtualMemoryBlock}

theorem unmapPass_eq_cut (hs : size ≠ 0) (ht : unmapTarget m vaddr size = some e)
    (h1 : e.1 < vaddr + size) (h2 : vaddr < e.1 + e.2.size) :
    unmapPass m vaddr size =
      .cut (cutMap m vaddr size e) (e.1 + lead vaddr e) (cutSize vaddr size e) := by
  have hfront : keepFront (m.erase e.1) vaddr e.1 e.2 =
      (if e.1 < vaddr then (m.erase e.1).insert e.1 (frontPart vaddr e).2 else m.erase e.1,
        e.1 + lead vaddr e,
        { e.2 with physStart := e.2.physStart + lead vaddr e, size := e.2.size - lead vaddr e }) := by
    unfold keepFront lead frontPart
    split <;> simp
  simp only [unmapPass, if_neg hs, ht, if_neg (not_lt.2 (le_of_lt h1)),
    if_neg (not_lt.2 (le_of_lt h2)), h1, h2, not_true_eq_false, if_false, hfront, keepBack, cutMap,
    cutSize, backPart]
  split <;> rfl

end

/-! ## The geometry of a cut

A cut assumes that the chunk it has taken starts at `vaddr` at the latest, so it takes its end for
`chunkEnd`. -/

/-- Where the cut takes the end of the chunk to be. -/
def chunkEnd (vaddr : VAddr) (e : VAddr × VirtualMemoryBlock) : Nat :=
  if e.1 < vaddr then e.1.toNat + e.2.size.toNat else vaddr.toNat + e.2.size.toNat

/-- The chunk a cut is made in: it ends above `vaddr` and starts below the end of the range. -/
structure Cuttable (m : VirtualMemory) (vaddr : VAddr) (size : BitVec 32)
    (e : VAddr × VirtualMemoryBlock) : Prop where
  mem : e ∈ m
  above : vaddr.toNat < e.1.toNat + e.2.size.toNat
  below : e.1 < vaddr + size

section

variable {m : VirtualMemory} {vaddr a : VAddr} {size : BitVec 32}
  {e x : VAddr × VirtualMemoryBlock}

theorem Cuttable.chunkEnd_le (h : Cuttable m vaddr size e) :
    vaddr.toNat ≤ chunkEnd vaddr e ∧ chunkEnd vaddr e ≤ e.1.toNat + e.2.size.toNat := by
  have := h.above
  unfold chunkEnd
  split
  · omega
  · bv_omega

theorem Cuttable.size_sub_lead (hm : Disjoint m) (h : Cuttable m vaddr size e) :
    (e.2.size - lead vaddr e).toNat = chunkEnd vaddr e - vaddr.toNat := by
  have := hm.below_top e h.mem
  have := h.above
  unfold lead chunkEnd
  split <;> bv_omega

theorem Cuttable.toNat_cutSize (hm : Disjoint m) (h : Cuttable m vaddr size e) :
    (cutSize vaddr size e).toNat = min size.toNat (chunkEnd vaddr e - vaddr.toNat) := by
  have hl := h.size_sub_lead hm
  unfold cutSize
  split
  next hlt =>
    rw [BitVec.lt_def, hl] at hlt
    omega
  next hlt =>
    rw [BitVec.lt_def, hl] at hlt
    omega

/-- The chunk goes on behind the range. -/
theorem Cuttable.size_lt_iff (hm : Disjoint m) (h : Cuttable m vaddr size e) :
    size < e.2.size - lead vaddr e ↔ vaddr.toNat + size.toNat < chunkEnd vaddr e := by
  rw [BitVec.lt_def, h.size_sub_lead hm]
  have := h.chunkEnd_le
  omega

theorem toNat_frontPart (h : e.1 < vaddr) :
    (frontPart vaddr e).1.toNat + (frontPart vaddr e).2.size.toNat = vaddr.toNat := by
  unfold frontPart
  simp only
  bv_omega

theorem Cuttable.toNat_backPart (hm : Disjoint m) (h : Cuttable m vaddr size e)
    (hb : vaddr.toNat + size.toNat < chunkEnd vaddr e) :
    (backPart vaddr size e).1.toNat = vaddr.toNat + size.toNat ∧
    (backPart vaddr size e).1.toNat + (backPart vaddr size e).2.size.toNat = chunkEnd vaddr e := by
  have hl := h.size_sub_lead hm
  have hle := h.chunkEnd_le
  have := hm.below_top e h.mem
  unfold backPart
  simp only [BitVec.toNat_add, BitVec.toNat_sub, hl]
  omega

/-- The mappings after a cut. -/
theorem Cuttable.mem_cutMap (hm : Disjoint m) (h : Cuttable m vaddr size e) :
    x ∈ cutMap m vaddr size e ↔ (x ∈ m ∧ x ≠ e) ∨ (e.1 < vaddr ∧ x = frontPart vaddr e) ∨
      (vaddr.toNat + size.toNat < chunkEnd vaddr e ∧ x = backPart vaddr size e) := by
  have herase : x ∈ m.erase e.1 ↔ x ∈ m ∧ x ≠ e := by
    rw [SortedMap.mem_erase]
    exact and_congr_right fun hx => not_congr
      ⟨SortedMap.eq_of_fst_eq hx h.mem, fun hxe => hxe ▸ rfl⟩
  have hfront : ∀ y, y ∈ (if e.1 < vaddr then (m.erase e.1).insert e.1 (frontPart vaddr e).2
      else m.erase e.1) ↔ y ∈ m.erase e.1 ∨ (e.1 < vaddr ∧ y = frontPart vaddr e) := by
    intro y
    split
    next hlt =>
      rw [SortedMap.mem_insert_of_fresh (fun y hy => (SortedMap.mem_erase.1 hy).2)]
      simp [hlt, frontPart]
    next hlt => simp [hlt]
  unfold cutMap
  simp only [h.size_lt_iff hm]
  split
  next hb =>
    rw [SortedMap.mem_insert_of_fresh, hfront, herase, or_assoc]
    · simp [hb, backPart]
    · intro y hy
      have hback : (vaddr + size).toNat = _ := (h.toNat_backPart hm hb).1
      have hle := h.chunkEnd_le
      rcases (hfront y).1 hy with hy | ⟨hlt, rfl⟩
      · obtain ⟨hym, hye⟩ := SortedMap.mem_erase.1 hy
        intro heq
        -- `vaddr + size` lies inside the chunk, where no other mapping starts
        have := hm.disjoint e h.mem y hym (heq ▸ h.below)
        rw [heq] at this
        omega
      · simp only [frontPart]
        exact ne_of_lt h.below
  next hb => simp [hfront, herase, hb]

/-- A piece of a cut chunk lies in the chunk. -/
theorem Cuttable.mem_cutMap_cases (hm : Disjoint m) (h : Cuttable m vaddr size e)
    (hx : x ∈ cutMap m vaddr size e) : (x ∈ m ∧ x ≠ e) ∨ (0 < x.2.size.toNat ∧
      e.1.toNat ≤ x.1.toNat ∧ x.1.toNat + x.2.size.toNat ≤ e.1.toNat + e.2.size.toNat) := by
  have hlow := h.below
  have habove := h.above
  have hle := h.chunkEnd_le
  rcases (h.mem_cutMap hm).1 hx with hx | ⟨hlt, rfl⟩ | ⟨hb, rfl⟩
  · exact .inl hx
  · have := toNat_frontPart hlt
    refine .inr ⟨?_, Nat.le_refl _, by omega⟩
    unfold frontPart at this ⊢
    simp only at this ⊢
    bv_omega
  · obtain ⟨h1, h2⟩ := h.toNat_backPart hm hb
    have hlow' : e.1.toNat < (backPart vaddr size e).1.toNat := hlow
    exact .inr ⟨by omega, by omega, by omega⟩

theorem Disjoint.cutMap (hm : Disjoint m) (h : Cuttable m vaddr size e) :
    Disjoint (cutMap m vaddr size e) where
  nonempty x hx := by
    rcases h.mem_cutMap_cases hm hx with hx | hx
    · exact hm.nonempty x hx.1
    · exact hx.1
  below_top x hx := by
    have := hm.below_top e h.mem
    rcases h.mem_cutMap_cases hm hx with hx | hx
    · exact hm.below_top x hx.1
    · omega
  disjoint x hx y hy hlt := by
    have hapart : ∀ z ∈ m, z ≠ e → z.1.toNat + z.2.size.toNat ≤ e.1.toNat ∨
        e.1.toNat + e.2.size.toNat ≤ z.1.toNat := by
      intro z hz hze
      rcases lt_trichotomy z.1 e.1 with hlt | heq | hlt
      · exact .inl (hm.disjoint z hz e h.mem hlt)
      · exact absurd (SortedMap.eq_of_fst_eq hz h.mem heq) hze
      · exact .inr (hm.disjoint e h.mem z hz hlt)
    have hlt' : x.1.toNat < y.1.toNat := hlt
    rcases h.mem_cutMap_cases hm hx with hx' | hx' <;>
      rcases h.mem_cutMap_cases hm hy with hy' | hy'
    · exact hm.disjoint x hx'.1 y hy'.1 hlt
    · have := hapart x hx'.1 hx'.2
      omega
    · have := hapart y hy'.1 hy'.2
      omega
    · -- both are pieces of the chunk: the front ends at `vaddr`, the back starts behind the range
      rcases (h.mem_cutMap hm).1 hx with ⟨hxm, hxe⟩ | ⟨hf, rfl⟩ | ⟨hb, rfl⟩
      · have := hapart x hxm hxe
        omega
      · have hf' := toNat_frontPart hf
        rcases (h.mem_cutMap hm).1 hy with ⟨hym, hye⟩ | ⟨-, rfl⟩ | ⟨hb, rfl⟩
        · have := hapart y hym hye
          omega
        · exact absurd hlt (lt_irrefl _)
        · have := (h.toNat_backPart hm hb).1
          omega
      · have hb' := h.toNat_backPart hm hb
        rcases (h.mem_cutMap hm).1 hy with ⟨hym, hye⟩ | ⟨hf, rfl⟩ | ⟨-, rfl⟩
        · have := hapart y hym hye
          omega
        · have := toNat_frontPart hf
          omega
        · exact absurd hlt (lt_irrefl _)

end

/-! ## What one pass does -/

/-- `vaddr` is unmapped, and `e` is the first mapping after it. -/
structure NextMapping (m : VirtualMemory) (vaddr : VAddr) (e : VAddr × VirtualMemoryBlock) :
    Prop where
  mem : e ∈ m
  unmapped : ∀ e' ∈ m, ¬ Contains e' vaddr
  after : vaddr < e.1
  first : ∀ e' ∈ m, vaddr < e'.1 → e.1 ≤ e'.1

/-- How a call ends at an unmapped address: no mapping starts in the range or at its end, or the
first one starts exactly at its end. -/
inductive EndsAt (m : VirtualMemory) (vaddr : VAddr) (size : BitVec 32) :
    Except Exception Bool → Prop where
  | free : (∀ e ∈ m, vaddr < e.1 → vaddr.toNat + size.toNat < e.1.toNat) →
      EndsAt m vaddr size (.ok false)
  | throws {e : VAddr × VirtualMemoryBlock} {ex : Exception} : NextMapping m vaddr e →
      e.1.toNat = vaddr.toNat + size.toNat → EndsAt m vaddr size (.error ex)

section

variable {m : VirtualMemory} {vaddr a : VAddr} {size : BitVec 32}
  {e x : VAddr × VirtualMemoryBlock}

theorem mem_of_unmapTarget (h : unmapTarget m vaddr size = some e) : e ∈ m := by
  unfold unmapTarget at h
  split at h
  next x hx =>
    split at h
    · cases h
      exact (SortedMap.prevUpperBound_spec hx).1
    · exact (SortedMap.upperBound_spec h).1
  next => exact (SortedMap.upperBound_spec h).1

/-- A pass ends the call without touching the map, or it cuts a chunk. -/
theorem unmapPass_cases (hm : Disjoint m) (vaddr : VAddr) (size : BitVec 32) :
    (∃ o, o ≠ .ok true ∧ unmapPass m vaddr size = .ended o) ∨
      ∃ e, Cuttable m vaddr size e ∧ size ≠ 0 ∧ unmapPass m vaddr size =
        .cut (cutMap m vaddr size e) (e.1 + lead vaddr e) (cutSize vaddr size e) := by
  by_cases hs : size = 0
  · refine .inl ⟨.error _, ?_, by rw [unmapPass, if_pos hs]⟩
    simp
  cases ht : unmapTarget m vaddr size with
  | none => exact .inl ⟨.ok false, by simp, by simp only [unmapPass, if_neg hs, ht]⟩
  | some e =>
    have he := mem_of_unmapTarget ht
    have htop := hm.below_top e he
    by_cases h1 : e.1 < vaddr + size
    · by_cases h2 : vaddr < e.1 + e.2.size
      · exact .inr ⟨e, ⟨he, by bv_omega, h1⟩, hs, unmapPass_eq_cut hs ht h1 h2⟩
      · refine .inl ?_
        simp only [unmapPass, if_neg hs, ht, h1, h2, not_true_eq_false, not_false_eq_true, if_true,
          if_false, if_neg (not_lt.2 (le_of_lt h1))]
        split
        · exact ⟨.ok false, by simp, rfl⟩
        · exact ⟨_, by simp, rfl⟩
    · refine .inl ?_
      simp only [unmapPass, if_neg hs, ht, h1, not_false_eq_true, if_true]
      split
      · exact ⟨.ok false, by simp, rfl⟩
      · split
        · exact ⟨.ok false, by simp, rfl⟩
        · exact ⟨_, by simp, rfl⟩

theorem unmapTarget_of_contains (hm : Disjoint m) (he : e ∈ m) (hc : Contains e vaddr)
    (hb : e.1 < vaddr + size) : unmapTarget m vaddr size = some e := by
  obtain ⟨hprev, hend⟩ := Option.filter_eq_some_iff.1 ((resolveBlock_eq_some_iff hm).2 ⟨he, hc⟩)
  rw [unmapTarget, hprev]
  exact if_pos ⟨not_le.1 (by simpa using hend), hb⟩

theorem unmapTarget_of_gap (hm : Disjoint m) (hn : ∀ e ∈ m, ¬ Contains e vaddr) :
    unmapTarget m vaddr size = m.upperBound vaddr := by
  unfold unmapTarget
  split
  next x hx =>
    obtain ⟨hxm, hle, -⟩ := SortedMap.prevUpperBound_spec hx
    refine if_neg fun h => hn x hxm ⟨hle, ?_⟩
    have := hm.below_top x hxm
    have := h.1
    bv_omega
  next => rfl

/-- Started at a mapped address, a pass cuts the mapping of that address. -/
theorem unmapPass_of_contains (hm : Disjoint m) (hs : size ≠ 0)
    (hfit : vaddr.toNat + size.toNat < 2 ^ 32) (he : e ∈ m) (hc : Contains e vaddr) :
    Cuttable m vaddr size e ∧ unmapPass m vaddr size =
      .cut (cutMap m vaddr size e) (e.1 + lead vaddr e) (cutSize vaddr size e) := by
  have htop := hm.below_top e he
  have hcut : Cuttable m vaddr size e := ⟨he, hc.2, by have := hc.1; bv_omega⟩
  refine ⟨hcut, unmapPass_eq_cut hs (unmapTarget_of_contains hm he hc hcut.below) hcut.below ?_⟩
  have := hcut.above
  bv_omega

/-- Started at an unmapped address, a pass looks at the next mapping. -/
theorem unmapPass_of_gap (hm : Disjoint m) (hs : size ≠ 0)
    (hfit : vaddr.toNat + size.toNat < 2 ^ 32) (hn : ∀ e ∈ m, ¬ Contains e vaddr) :
    (∃ o, EndsAt m vaddr size o ∧ unmapPass m vaddr size = .ended o) ∨
      ∃ e, NextMapping m vaddr e ∧ Cuttable m vaddr size e ∧ unmapPass m vaddr size =
        .cut (cutMap m vaddr size e) (e.1 + lead vaddr e) (cutSize vaddr size e) := by
  have ht : unmapTarget m vaddr size = m.upperBound vaddr := unmapTarget_of_gap hm hn
  cases hu : m.upperBound vaddr with
  | none =>
    rw [hu] at ht
    refine .inl ⟨.ok false, .free fun e he hlt => ?_, by simp only [unmapPass, if_neg hs, ht]⟩
    exact absurd hlt (not_lt.2 (SortedMap.upperBound_eq_none_iff.1 hu e he))
  | some e =>
    rw [hu] at ht
    obtain ⟨he, hlt, hmin⟩ := SortedMap.upperBound_spec hu
    have hnext : NextMapping m vaddr e := ⟨he, hn, hlt, fun e' he' h =>
      (hmin e' he' h).elim (fun h => h ▸ le_rfl) le_of_lt⟩
    have htop := hm.below_top e he
    have h3 : ¬ e.1 + e.2.size < vaddr := by bv_omega
    by_cases h1 : vaddr + size < e.1
    · refine .inl ⟨.ok false, .free fun e' he' h => ?_,
        by simp only [unmapPass, if_neg hs, ht, if_pos h1]⟩
      have := hnext.first e' he' h
      bv_omega
    · by_cases h2 : e.1 < vaddr + size
      · exact .inr ⟨e, hnext, ⟨he, by bv_omega, h2⟩, unmapPass_eq_cut hs ht h2
          (by have := hm.nonempty e he; bv_omega)⟩
      · refine .inl ⟨.error (.contractViolated "unmapped_chunk_vstart < vaddr + size"),
          .throws hnext (by bv_omega), ?_⟩
        simp only [unmapPass, if_neg hs, ht, if_neg h1, if_neg h3, h2, not_false_eq_true, if_true]

end

/-! ## What a cut does to the translation -/

section

variable {m : VirtualMemory} {vaddr a : VAddr} {size : BitVec 32}
  {e x : VAddr × VirtualMemoryBlock}

/-- Nothing changes outside the chunk. -/
theorem Cuttable.resolve_of_not_contains (hm : Disjoint m) (h : Cuttable m vaddr size e)
    (ha : ¬ Contains e a) : resolve (cutMap m vaddr size e) a = resolve m a := by
  refine Option.ext fun t => ?_
  rw [resolve_eq_some_iff (hm.cutMap h), resolve_eq_some_iff hm]
  constructor
  · rintro ⟨x, hx, hc, ht⟩
    rcases h.mem_cutMap_cases hm hx with hx | ⟨-, h1, h2⟩
    · exact ⟨x, hx.1, hc, ht⟩
    · exact absurd ⟨by have := hc.1; omega, by have := hc.2; omega⟩ ha
  · rintro ⟨x, hx, hc, ht⟩
    exact ⟨x, (h.mem_cutMap hm).2 (.inl ⟨hx, fun hxe => ha (hxe ▸ hc)⟩), hc, ht⟩

/-- The chunk goes where it meets the range. -/
theorem Cuttable.resolve_gone (hm : Disjoint m) (h : Cuttable m vaddr size e)
    (ha : Contains e a) (h1 : vaddr.toNat ≤ a.toNat) (h2 : a.toNat < vaddr.toNat + size.toNat) :
    resolve (cutMap m vaddr size e) a = none := by
  rw [resolve_eq_none_iff (hm.cutMap h)]
  intro x hx hc
  rcases (h.mem_cutMap hm).1 hx with ⟨hxm, hxe⟩ | ⟨hf, rfl⟩ | ⟨hb, rfl⟩
  · exact hxe (hm.unique hxm h.mem hc ha)
  · have := toNat_frontPart hf
    have := hc.2
    omega
  · have := (h.toNat_backPart hm hb).1
    have := hc.1
    omega

theorem Cuttable.resolve_eq_none (hm : Disjoint m) (h : Cuttable m vaddr size e)
    (ha : resolve m a = none) : resolve (cutMap m vaddr size e) a = none := by
  rw [h.resolve_of_not_contains hm ((resolve_eq_none_iff hm).1 ha e h.mem), ha]

/-- A cut in the mapping of `vaddr` keeps what of the chunk is outside the range. -/
theorem Cuttable.resolve_of_kept (hm : Disjoint m) (h : Cuttable m vaddr size e)
    (hv : Contains e vaddr) (ha : Contains e a)
    (hout : ¬ (vaddr.toNat ≤ a.toNat ∧ a.toNat < vaddr.toNat + size.toNat)) :
    resolve (cutMap m vaddr size e) a = resolve m a := by
  have hlead : lead vaddr e = vaddr - e.1 := by
    have := hv.1
    unfold lead
    split
    · rfl
    · bv_omega
  have hend : chunkEnd vaddr e = e.1.toNat + e.2.size.toNat := by
    have := hv.1
    unfold chunkEnd
    split
    · rfl
    · bv_omega
  obtain ⟨ha1, ha2⟩ := id ha
  rw [resolve_mapped hm h.mem ha]
  by_cases hlt : a.toNat < vaddr.toNat
  · have hf : e.1 < vaddr := by bv_omega
    have hc : Contains (frontPart vaddr e) a := ⟨ha1, by have := toNat_frontPart hf; omega⟩
    rw [resolve_mapped (hm.cutMap h) ((h.mem_cutMap hm).2 (.inr (.inl ⟨hf, rfl⟩))) hc]
    rfl
  · have hb : vaddr.toNat + size.toNat < chunkEnd vaddr e := by omega
    have hback := h.toNat_backPart hm hb
    have hc : Contains (backPart vaddr size e) a := ⟨by omega, by omega⟩
    rw [resolve_mapped (hm.cutMap h) ((h.mem_cutMap hm).2 (.inr (.inr ⟨hb, rfl⟩))) hc]
    simp only [target, backPart, hlead]
    congr 2
    ring

/-- **A cut in the mapping of `vaddr` is exact.** -/
theorem Cuttable.resolve_cutMap (hm : Disjoint m) (h : Cuttable m vaddr size e)
    (hv : Contains e vaddr) : resolve (cutMap m vaddr size e) a =
      if vaddr.toNat ≤ a.toNat ∧ a.toNat < vaddr.toNat + (cutSize vaddr size e).toNat then none
      else resolve m a := by
  have hsize := h.toNat_cutSize hm
  have hle := h.chunkEnd_le
  have hend : chunkEnd vaddr e = e.1.toNat + e.2.size.toNat := by
    have := hv.1
    unfold chunkEnd
    split
    · rfl
    · bv_omega
  have hv1 := hv.1
  by_cases hc : Contains e a
  · have hc2 := hc.2
    split
    next hin => exact h.resolve_gone hm hc hin.1 (by omega)
    next hout => exact h.resolve_of_kept hm hv hc (by omega)
  · rw [h.resolve_of_not_contains hm hc]
    split
    next hin => exact absurd ⟨by omega, by omega⟩ hc
    next => rfl

end

/-! ## Started at an unmapped address -/

section

variable {m : VirtualMemory} {vaddr a : VAddr} {size : BitVec 32}
  {e x : VAddr × VirtualMemoryBlock}

/-- A cut in a later mapping moves what it keeps: the end of the range changes its translation. -/
theorem Cuttable.resolve_end_ne (hm : Disjoint m) (h : Cuttable m vaddr size e)
    (hn : NextMapping m vaddr e) (ha : a = vaddr + size) (hc : Contains e a) :
    resolve (cutMap m vaddr size e) a ≠ resolve m a := by
  rw [resolve_mapped hm h.mem hc, ne_eq, resolve_eq_some_iff (hm.cutMap h)]
  rintro ⟨x, hx, hcx, ht⟩
  rcases (h.mem_cutMap hm).1 hx with ⟨hxm, hxe⟩ | ⟨hf, rfl⟩ | ⟨hb, rfl⟩
  · exact hxe (hm.unique hxm h.mem hcx hc)
  · exact absurd hf (not_lt.2 (le_of_lt hn.after))
  · have hlead : lead vaddr e = 0 := if_neg (not_lt.2 (le_of_lt hn.after))
    simp only [target, backPart, hlead, ha, Prod.mk.injEq, and_true] at ht
    have : vaddr = e.1 := by
      have h2 : e.2.physStart + 0 + size + (vaddr + size - (vaddr + size)) - e.2.physStart - size =
          e.2.physStart + (vaddr + size - e.1) - e.2.physStart - size := by rw [ht]
      ring_nf at h2
      exact (sub_eq_zero.1 h2.symm)
    exact absurd this (ne_of_lt hn.after)

/-- After the cut the call goes on at an unmapped address again. -/
theorem Cuttable.resolve_next (hm : Disjoint m) (h : Cuttable m vaddr size e)
    (hn : NextMapping m vaddr e) (hc : cutSize vaddr size e < size) :
    resolve (cutMap m vaddr size e) (vaddr + cutSize vaddr size e) = none := by
  have hsize := h.toNat_cutSize hm
  have htop := hm.below_top e h.mem
  have hend : chunkEnd vaddr e = vaddr.toNat + e.2.size.toNat :=
    if_neg (not_lt.2 (le_of_lt hn.after))
  have hlt' : vaddr.toNat < e.1.toNat := hn.after
  have hnext : (vaddr + cutSize vaddr size e).toNat = vaddr.toNat + e.2.size.toNat := by
    rw [BitVec.lt_def] at hc
    rw [BitVec.toNat_add]
    omega
  by_cases hce : Contains e (vaddr + cutSize vaddr size e)
  · exact h.resolve_gone hm hce (by omega) (by rw [BitVec.lt_def] at hc; omega)
  · refine h.resolve_eq_none hm ((resolve_eq_none_iff hm).2 fun x hx hcx => ?_)
    obtain ⟨h1, h2⟩ := hcx
    by_cases hvx : vaddr < x.1
    · have : e.1.toNat ≤ x.1.toNat := hn.first x hx hvx
      exact hce ⟨by omega, by omega⟩
    · exact hn.unmapped x hx ⟨not_lt.1 hvx, by omega⟩

/-- Which mapping starts at the end of the range does not depend on the chunks already cut. -/
theorem Cuttable.start_iff (hm : Disjoint m) (h : Cuttable m vaddr size e)
    (hfit : vaddr.toNat + size.toNat < 2 ^ 32) (hc : cutSize vaddr size e < size) :
    (∃ x ∈ cutMap m vaddr size e, x.1.toNat = vaddr.toNat + size.toNat) ↔
      ∃ x ∈ m, x.1.toNat = vaddr.toNat + size.toNat := by
  have hsize := h.toNat_cutSize hm
  rw [BitVec.lt_def] at hc
  have hlow := h.below
  constructor
  · rintro ⟨x, hx, hxe⟩
    rcases (h.mem_cutMap hm).1 hx with ⟨hxm, -⟩ | ⟨hf, rfl⟩ | ⟨hb, rfl⟩
    · exact ⟨x, hxm, hxe⟩
    · have hf' : e.1.toNat < vaddr.toNat := hf
      have hxe' : e.1.toNat = _ := hxe
      omega
    · omega
  · rintro ⟨x, hx, hxe⟩
    refine ⟨x, (h.mem_cutMap hm).2 (.inl ⟨hx, ?_⟩), hxe⟩
    rintro rfl
    bv_omega

end

/-! ## The whole call -/

section

variable {m m' : VirtualMemory} {vaddr a : VAddr} {size : BitVec 32}
  {e x : VAddr × VirtualMemoryBlock}

/-- On every map, a pass that cuts has passed its four tests. -/
theorem unmapPass_cut_inv {vstart : VAddr} {c : BitVec 32}
    (h : unmapPass m vaddr size = .cut m' vstart c) :
    ∃ e ∈ m, e.1 < vaddr + size ∧ vaddr < e.1 + e.2.size ∧ m' = cutMap m vaddr size e ∧
      c = cutSize vaddr size e := by
  have h0 := h
  unfold unmapPass at h
  split at h
  · cases h
  next hs =>
    split at h
    · cases h
    next vs chunk ht =>
      split at h
      · cases h
      split at h
      · cases h
      split at h
      · cases h
      next h1 =>
        split at h
        · cases h
        next h2 =>
          rw [not_not] at h1 h2
          rw [unmapPass_eq_cut hs ht h1 h2, UnmapPass.cut.injEq] at h0
          exact ⟨_, mem_of_unmapTarget ht, h1, h2, h0.1.symm, h0.2.2.symm⟩

/-- Every pass that goes on takes bytes off the range or a mapping out of the map. -/
theorem measure_lt {vstart : VAddr} {c : BitVec 32} (h : unmapPass m vaddr size = .cut m' vstart c)
    (hc : c < size) : (size - c).toNat + m'.size < size.toNat + m.size := by
  obtain ⟨e, he, -, h2, rfl, rfl⟩ := unmapPass_cut_inv h
  have herase := SortedMap.size_erase_lt he
  have hsub : (size - cutSize vaddr size e).toNat =
      size.toNat - (cutSize vaddr size e).toNat := BitVec.toNat_sub_of_le (le_of_lt hc)
  unfold cutSize at hc hsub
  split at hc
  · exact absurd hc (lt_irrefl _)
  next hb =>
    rw [if_neg hb] at hsub
    simp only [cutMap, cutSize, if_neg hb]
    rw [hsub]
    split
    next hf =>
      have hinsert := SortedMap.size_insert_le (m := m.erase e.1) (k := e.1) (v := (frontPart vaddr e).2)
      have hpos : 0 < (e.2.size - lead vaddr e).toNat := by
        unfold lead
        rw [if_pos hf]
        bv_omega
      rw [BitVec.lt_def] at hc
      omega
    next => omega

/-- **Induction over the chunks** of a call: what a pass that ends the call does, and what a pass
that goes on makes of what the rest of the call does. -/
theorem unmap_induction {P : VirtualMemory → VAddr → BitVec 32 → MapResult → Prop}
    (ended : ∀ m vaddr size o, unmapPass m vaddr size = .ended o → P m vaddr size ⟨o, m, []⟩)
    (last : ∀ m vaddr size m' vstart c, unmapPass m vaddr size = .cut m' vstart c → ¬ c < size →
      P m vaddr size ⟨.ok true, m', [.unmapped vstart c]⟩)
    (again : ∀ m vaddr size m' vstart c r, unmapPass m vaddr size = .cut m' vstart c → c < size →
      P m' (vaddr + c) (size - c) r →
      P m vaddr size { r with notices := .unmapped vstart c :: r.notices })
    (m : VirtualMemory) (vaddr : VAddr) (size : BitVec 32) :
    P m vaddr size (unmapVirtualMemory m vaddr size) := by
  have key : ∀ depth m vaddr size, size.toNat + m.size < depth →
      P m vaddr size (unmapWithin depth m vaddr size) := by
    intro depth
    induction depth with
    | zero => exact fun _ _ _ h => absurd h (Nat.not_lt_zero _)
    | succ depth ih =>
      intro m vaddr size hlt
      rw [unmapWithin]
      cases hp : unmapPass m vaddr size with
      | ended o => exact ended m vaddr size o hp
      | cut m' vstart c =>
        by_cases hc : c < size
        · have := measure_lt hp hc
          simp only [if_pos hc]
          exact again m vaddr size m' vstart c _ hp hc (ih _ _ _ (by omega))
        · simp only [if_neg hc]
          exact last m vaddr size m' vstart c hp hc
  exact key _ m vaddr size (Nat.lt_succ_self _)

/-- **The mappings stay disjoint**, however the call ends. -/
theorem Disjoint.unmap (hm : Disjoint m) : Disjoint (unmapVirtualMemory m vaddr size).memory := by
  have cutDisjoint {m m' : VirtualMemory} {vaddr vstart : VAddr} {size c : BitVec 32}
      (hm : Disjoint m) (h : unmapPass m vaddr size = .cut m' vstart c) : Disjoint m' := by
    rcases unmapPass_cases hm vaddr size with ⟨o, -, ho⟩ | ⟨e, he, -, hc⟩
    · rw [ho] at h
      cases h
    · rw [hc] at h
      cases h
      exact hm.cutMap he
  refine unmap_induction (P := fun m _ _ r => Disjoint m → Disjoint r.memory)
    (fun _ _ _ _ _ hm => hm) (fun _ _ _ _ _ _ h _ hm => cutDisjoint hm h)
    (fun _ _ _ _ _ _ _ h _ ih hm => ih (cutDisjoint hm h)) m vaddr size hm

/-- The induction on maps of disjoint mappings, for ranges that end below the top of the address
space: a call ends at an unmapped address, or it cuts the mapping of `vaddr` or the next one. -/
theorem unmap_induction_chunks {P : VirtualMemory → VAddr → BitVec 32 → MapResult → Prop}
    (ended : ∀ m vaddr size o, Disjoint m → vaddr.toNat + size.toNat < 2 ^ 32 →
      (∀ e ∈ m, ¬ Contains e vaddr) → EndsAt m vaddr size o → P m vaddr size ⟨o, m, []⟩)
    (last : ∀ m vaddr size e, Disjoint m → vaddr.toNat + size.toNat < 2 ^ 32 →
      Cuttable m vaddr size e → Contains e vaddr ∨ NextMapping m vaddr e →
      cutSize vaddr size e = size → P m vaddr size ⟨.ok true, cutMap m vaddr size e,
        [.unmapped (e.1 + lead vaddr e) (cutSize vaddr size e)]⟩)
    (again : ∀ m vaddr size e r, Disjoint m → vaddr.toNat + size.toNat < 2 ^ 32 →
      Cuttable m vaddr size e → Contains e vaddr ∨ NextMapping m vaddr e →
      cutSize vaddr size e < size →
      P (cutMap m vaddr size e) (vaddr + cutSize vaddr size e) (size - cutSize vaddr size e) r →
      P m vaddr size { r with
        notices := .unmapped (e.1 + lead vaddr e) (cutSize vaddr size e) :: r.notices })
    (hm : Disjoint m) (hs : size ≠ 0) (hfit : vaddr.toNat + size.toNat < 2 ^ 32) :
    P m vaddr size (unmapVirtualMemory m vaddr size) := by
  have cases {m : VirtualMemory} {vaddr : VAddr} {size : BitVec 32} (hm : Disjoint m)
      (hs : size ≠ 0) (hfit : vaddr.toNat + size.toNat < 2 ^ 32) :
      ((∀ e ∈ m, ¬ Contains e vaddr) ∧
        ∃ o, EndsAt m vaddr size o ∧ unmapPass m vaddr size = .ended o) ∨
      ∃ e, Cuttable m vaddr size e ∧ (Contains e vaddr ∨ NextMapping m vaddr e) ∧
        unmapPass m vaddr size =
          .cut (cutMap m vaddr size e) (e.1 + lead vaddr e) (cutSize vaddr size e) := by
    by_cases hn : ∀ e ∈ m, ¬ Contains e vaddr
    · rcases unmapPass_of_gap hm hs hfit hn with h | ⟨e, h, hcut, hp⟩
      · exact .inl ⟨hn, h⟩
      · exact .inr ⟨e, hcut, .inr h, hp⟩
    · push Not at hn
      obtain ⟨e, he, hc⟩ := hn
      obtain ⟨hcut, hp⟩ := unmapPass_of_contains hm hs hfit he hc
      exact .inr ⟨e, hcut, .inl hc, hp⟩
  refine unmap_induction (P := fun m vaddr size r => Disjoint m → size ≠ 0 →
    vaddr.toNat + size.toNat < 2 ^ 32 → P m vaddr size r) ?_ ?_ ?_ m vaddr size hm hs hfit
  · intro m vaddr size o ho hm hs hfit
    rcases cases hm hs hfit with ⟨hn, o', hend, ho'⟩ | ⟨e, -, -, hp⟩
    · rw [ho, UnmapPass.ended.injEq] at ho'
      exact ended m vaddr size o hm hfit hn (ho' ▸ hend)
    · rw [ho] at hp
      cases hp
  · intro m vaddr size m' vstart c hp hc hm hs hfit
    rcases cases hm hs hfit with ⟨-, o', -, ho'⟩ | ⟨e, hcut, he, hp'⟩
    · rw [hp] at ho'
      cases ho'
    · rw [hp] at hp'
      cases hp'
      have := hcut.toNat_cutSize hm
      rw [BitVec.lt_def] at hc
      exact last m vaddr size e hm hfit hcut he (BitVec.eq_of_toNat_eq (by omega))
  · intro m vaddr size m' vstart c r hp hc ih hm hs hfit
    rcases cases hm hs hfit with ⟨-, o', -, ho'⟩ | ⟨e, hcut, he, hp'⟩
    · rw [hp] at ho'
      cases ho'
    · rw [hp] at hp'
      cases hp'
      refine again m vaddr size e r hm hfit hcut he hc (ih (hm.cutMap hcut) ?_ ?_) <;> bv_omega

/-- The induction for what does not depend on the hooks that are called. -/
theorem unmap_induction_disjoint {P : VirtualMemory → VAddr → BitVec 32 → MapResult → Prop}
    (ended : ∀ m vaddr size o, Disjoint m → vaddr.toNat + size.toNat < 2 ^ 32 →
      (∀ e ∈ m, ¬ Contains e vaddr) → EndsAt m vaddr size o → P m vaddr size ⟨o, m, []⟩)
    (last : ∀ m vaddr size e notices, Disjoint m → vaddr.toNat + size.toNat < 2 ^ 32 →
      Cuttable m vaddr size e → Contains e vaddr ∨ NextMapping m vaddr e →
      cutSize vaddr size e = size → P m vaddr size ⟨.ok true, cutMap m vaddr size e, notices⟩)
    (again : ∀ m vaddr size e r notices, Disjoint m → vaddr.toNat + size.toNat < 2 ^ 32 →
      Cuttable m vaddr size e → Contains e vaddr ∨ NextMapping m vaddr e →
      cutSize vaddr size e < size →
      P (cutMap m vaddr size e) (vaddr + cutSize vaddr size e) (size - cutSize vaddr size e) r →
      P m vaddr size { r with notices := notices })
    (hm : Disjoint m) (hs : size ≠ 0) (hfit : vaddr.toNat + size.toNat < 2 ^ 32) :
    P m vaddr size (unmapVirtualMemory m vaddr size) :=
  unmap_induction_chunks ended (fun m vaddr size e => last m vaddr size e _)
    (fun m vaddr size e r => (again m vaddr size e r _)) hm hs hfit

/-- `m'` is `m` without the translations of `[vaddr, vaddr + size)`. -/
def Removed (m : VirtualMemory) (vaddr : VAddr) (size : BitVec 32) (m' : VirtualMemory) : Prop :=
  ∀ a : VAddr, resolve m' a =
    if vaddr.toNat ≤ a.toNat ∧ a.toNat < vaddr.toNat + size.toNat then none else resolve m a

/-- A cut in the mapping of `vaddr` followed by the rest of the call. -/
theorem Removed.trans (hm : Disjoint m) (hfit : vaddr.toNat + size.toNat < 2 ^ 32)
    (hcut : Cuttable m vaddr size e) (hv : Contains e vaddr) (hc : cutSize vaddr size e < size)
    (h : Removed (cutMap m vaddr size e) (vaddr + cutSize vaddr size e)
      (size - cutSize vaddr size e) m') : Removed m vaddr size m' := by
  intro a
  have h1 : (vaddr + cutSize vaddr size e).toNat = vaddr.toNat + (cutSize vaddr size e).toNat := by
    bv_omega
  have h2 : (size - cutSize vaddr size e).toNat = size.toNat - (cutSize vaddr size e).toNat :=
    BitVec.toNat_sub_of_le (le_of_lt hc)
  rw [BitVec.lt_def] at hc
  rw [h a, hcut.resolve_cutMap hm hv, h1, h2]
  split_ifs <;> first | rfl | omega

/-- A call throws only where a mapping starts exactly at the end of the range. -/
theorem unmap_error (hm : Disjoint m) (hs : size ≠ 0) (hfit : vaddr.toNat + size.toNat < 2 ^ 32) :
    ∀ ex, (unmapVirtualMemory m vaddr size).outcome = .error ex →
      ∃ e ∈ m, e.1.toNat = vaddr.toNat + size.toNat := by
  refine unmap_induction_disjoint (P := fun m vaddr size r => ∀ ex, r.outcome = .error ex →
    ∃ e ∈ m, e.1.toNat = vaddr.toNat + size.toNat) ?_ ?_ ?_ hm hs hfit
  · rintro m vaddr size o hm hfit hn hend ex hex
    cases hend with
    | free => cases hex
    | throws hnext he => exact ⟨_, hnext.mem, he⟩
  · intro m vaddr size e notices hm hfit hcut he hc ex hex
    cases hex
  · intro m vaddr size e r notices hm hfit hcut he hc ih ex hex
    have hsum : (vaddr + cutSize vaddr size e).toNat + (size - cutSize vaddr size e).toNat =
        vaddr.toNat + size.toNat := by bv_omega
    exact (hcut.start_iff hm hfit hc).1 (hsum ▸ ih ex hex)

/-- **A fully mapped range goes**, and nothing else. -/
theorem unmap_of_mapped (hm : Disjoint m) (hs : size ≠ 0)
    (hfit : vaddr.toNat + size.toNat < 2 ^ 32) :
    (∀ a : VAddr, vaddr.toNat ≤ a.toNat → a.toNat < vaddr.toNat + size.toNat →
      resolve m a ≠ none) →
    (unmapVirtualMemory m vaddr size).outcome = .ok true ∧
      Removed m vaddr size (unmapVirtualMemory m vaddr size).memory := by
  refine unmap_induction_disjoint (P := fun m vaddr size r => size ≠ 0 →
    (∀ a : VAddr, vaddr.toNat ≤ a.toNat → a.toNat < vaddr.toNat + size.toNat →
      resolve m a ≠ none) → r.outcome = .ok true ∧ Removed m vaddr size r.memory)
    ?_ ?_ ?_ hm hs hfit hs
  · intro m vaddr size o hm hfit hn hend hs hall
    exact absurd ((resolve_eq_none_iff hm).2 hn) (hall vaddr (Nat.le_refl _) (by bv_omega))
  · intro m vaddr size e notices hm hfit hcut he hc hs hall
    rcases he with hv | hn
    · exact ⟨rfl, fun a => by rw [hcut.resolve_cutMap hm hv, hc]⟩
    · exact absurd ((resolve_eq_none_iff hm).2 hn.unmapped) (hall vaddr (Nat.le_refl _) (by bv_omega))
  · intro m vaddr size e r notices hm hfit hcut he hc ih hs hall
    rcases he with hv | hn
    · obtain ⟨hok, hrem⟩ := ih (by bv_omega) fun a h1 h2 => by
        rw [hcut.resolve_cutMap hm hv, if_neg (by bv_omega)]
        exact hall a (by bv_omega) (by bv_omega)
      exact ⟨hok, hrem.trans hm hfit hcut hv hc⟩
    · exact absurd ((resolve_eq_none_iff hm).2 hn.unmapped) (hall vaddr (Nat.le_refl _) (by bv_omega))

/-- With a mapping starting at the end of the range, a call never returns `false`, what it does
when it succeeds is exact, and it throws if it begins at an unmapped address. -/
theorem unmap_of_start (hm : Disjoint m) (hs : size ≠ 0)
    (hfit : vaddr.toNat + size.toNat < 2 ^ 32) :
    (∃ e ∈ m, e.1.toNat = vaddr.toNat + size.toNat) →
      (unmapVirtualMemory m vaddr size).outcome ≠ .ok false ∧
      ((unmapVirtualMemory m vaddr size).outcome = .ok true →
        resolve m vaddr ≠ none ∧ Removed m vaddr size (unmapVirtualMemory m vaddr size).memory) := by
  refine unmap_induction_disjoint (P := fun m vaddr size r => size ≠ 0 →
    (∃ e ∈ m, e.1.toNat = vaddr.toNat + size.toNat) → r.outcome ≠ .ok false ∧
      (r.outcome = .ok true → resolve m vaddr ≠ none ∧ Removed m vaddr size r.memory))
    ?_ ?_ ?_ hm hs hfit hs
  · rintro m vaddr size o hm hfit hn hend hs ⟨e, he, hee⟩
    cases hend with
    | free hfree => exact absurd (hfree e he (by bv_omega)) (by omega)
    | throws => exact ⟨by simp, fun h => by simp at h⟩
  · rintro m vaddr size e notices hm hfit hcut he hc hs ⟨x, hx, hxe⟩
    refine ⟨by simp, fun _ => ?_⟩
    rcases he with hv | hn
    · refine ⟨?_, fun a => by rw [hcut.resolve_cutMap hm hv, hc]⟩
      rw [resolve_mapped hm hcut.mem hv]
      exact Option.some_ne_none _
    · -- the cut ends behind the range, but the mapping there is disjoint from the chunk
      have hsize := hcut.toNat_cutSize hm
      have hend : chunkEnd vaddr e = vaddr.toNat + e.2.size.toNat :=
        if_neg (not_lt.2 (le_of_lt hn.after))
      have := hm.disjoint e hcut.mem x hx (by have := hcut.below; bv_omega)
      have := hn.after
      rw [hc] at hsize
      bv_omega
  · intro m vaddr size e r notices hm hfit hcut he hc ih hs hstart
    have hsum : (vaddr + cutSize vaddr size e).toNat + (size - cutSize vaddr size e).toNat =
        vaddr.toNat + size.toNat := by bv_omega
    obtain ⟨hf, ht⟩ := ih (by bv_omega) (hsum ▸ (hcut.start_iff hm hfit hc).2 hstart)
    refine ⟨hf, fun hok => ?_⟩
    rcases he with hv | hn
    · refine ⟨?_, (ht hok).2.trans hm hfit hcut hv hc⟩
      rw [resolve_mapped hm hcut.mem hv]
      exact Option.some_ne_none _
    · exact absurd (hcut.resolve_next hm hn hc) (ht hok).1

/-- The mapping a pass cuts has an address in the range. -/
theorem Cuttable.exists_mapped (hm : Disjoint m) (hs : size ≠ 0)
    (hfit : vaddr.toNat + size.toNat < 2 ^ 32) (h : Cuttable m vaddr size e)
    (he : Contains e vaddr ∨ NextMapping m vaddr e) : ∃ a : VAddr, vaddr.toNat ≤ a.toNat ∧
      a.toNat < vaddr.toNat + size.toNat ∧ Contains e a := by
  rcases he with hv | hn
  · exact ⟨vaddr, Nat.le_refl _, by bv_omega, hv⟩
  · have hpos := hm.nonempty e h.mem
    have hlow := h.below
    have hafter := hn.after
    exact ⟨e.1, by bv_omega, by bv_omega, Nat.le_refl _, by omega⟩

/-- Where no address of the range is mapped, nothing happens. -/
theorem unmap_of_unmapped (hm : Disjoint m) (hs : size ≠ 0)
    (hfit : vaddr.toNat + size.toNat < 2 ^ 32) :
    (∀ a : VAddr, vaddr.toNat ≤ a.toNat → a.toNat < vaddr.toNat + size.toNat →
      resolve m a = none) →
    (unmapVirtualMemory m vaddr size).outcome ≠ .ok true ∧
      (unmapVirtualMemory m vaddr size).memory = m := by
  refine unmap_induction_disjoint (P := fun m vaddr size r => size ≠ 0 →
    (∀ a : VAddr, vaddr.toNat ≤ a.toNat → a.toNat < vaddr.toNat + size.toNat →
      resolve m a = none) → r.outcome ≠ .ok true ∧ r.memory = m) ?_ ?_ ?_ hm hs hfit hs
  · intro m vaddr size o hm hfit hn hend hs hnone
    refine ⟨?_, rfl⟩
    cases hend <;> simp
  · intro m vaddr size e notices hm hfit hcut he hc hs hnone
    obtain ⟨a, h1, h2, hea⟩ := hcut.exists_mapped hm hs hfit he
    exact absurd hea ((resolve_eq_none_iff hm).1 (hnone a h1 h2) e hcut.mem)
  · intro m vaddr size e r notices hm hfit hcut he hc ih hs hnone
    obtain ⟨a, h1, h2, hea⟩ := hcut.exists_mapped hm hs hfit he
    exact absurd hea ((resolve_eq_none_iff hm).1 (hnone a h1 h2) e hcut.mem)

/-- An unmapped address stays unmapped, and a call that returns `false` with a mapped address in its
range has removed a translation. -/
theorem unmap_false (hm : Disjoint m) (hs : size ≠ 0) (hfit : vaddr.toNat + size.toNat < 2 ^ 32) :
    (∀ a, resolve m a = none → resolve (unmapVirtualMemory m vaddr size).memory a = none) ∧
    ((unmapVirtualMemory m vaddr size).outcome = .ok false →
      (∃ a : VAddr, vaddr.toNat ≤ a.toNat ∧ a.toNat < vaddr.toNat + size.toNat ∧
        resolve m a ≠ none) →
      ∃ a, resolve m a ≠ none ∧ resolve (unmapVirtualMemory m vaddr size).memory a = none) := by
  refine unmap_induction_disjoint (P := fun m vaddr size r => size ≠ 0 →
    (∀ a, resolve m a = none → resolve r.memory a = none) ∧ (r.outcome = .ok false →
      (∃ a : VAddr, vaddr.toNat ≤ a.toNat ∧ a.toNat < vaddr.toNat + size.toNat ∧
        resolve m a ≠ none) → ∃ a, resolve m a ≠ none ∧ resolve r.memory a = none))
    ?_ ?_ ?_ hm hs hfit hs
  · intro m vaddr size o hm hfit hn hend hs
    refine ⟨fun _ ha => ha, ?_⟩
    rintro ho ⟨a, h1, h2, ha⟩
    cases hend with
    | throws => cases ho
    | free hfree =>
      refine absurd ((resolve_eq_none_iff hm).2 fun e he hc => ?_) ha
      obtain ⟨hc1, hc2⟩ := hc
      by_cases hlt : vaddr < e.1
      · have := hfree e he hlt
        omega
      · exact hn e he ⟨not_lt.1 hlt, by omega⟩
  · intro m vaddr size e notices hm hfit hcut he hc hs
    refine ⟨fun a ha => hcut.resolve_eq_none hm ha, ?_⟩
    rintro ho
    cases ho
  · intro m vaddr size e r notices hm hfit hcut he hc ih hs
    have hgone := (ih (by bv_omega)).1
    refine ⟨fun a ha => hgone a (hcut.resolve_eq_none hm ha), fun _ _ => ?_⟩
    obtain ⟨a, h1, h2, hea⟩ := hcut.exists_mapped hm hs hfit he
    refine ⟨a, ?_, hgone a (hcut.resolve_gone hm hea h1 h2)⟩
    rw [resolve_mapped hm hcut.mem hea]
    exact Option.some_ne_none _

/-- A call that succeeds with an unmapped address in its range has changed the translation of the
address behind the range. -/
theorem unmap_true (hm : Disjoint m) (hs : size ≠ 0) (hfit : vaddr.toNat + size.toNat < 2 ^ 32) :
    (unmapVirtualMemory m vaddr size).outcome = .ok true →
    (∃ a : VAddr, vaddr.toNat ≤ a.toNat ∧ a.toNat < vaddr.toNat + size.toNat ∧
      resolve m a = none) →
    resolve m (vaddr + size) ≠ none ∧
      resolve (unmapVirtualMemory m vaddr size).memory (vaddr + size) ≠ resolve m (vaddr + size) := by
  refine unmap_induction_disjoint (P := fun m vaddr size r => size ≠ 0 → r.outcome = .ok true →
    (∃ a : VAddr, vaddr.toNat ≤ a.toNat ∧ a.toNat < vaddr.toNat + size.toNat ∧
      resolve m a = none) → resolve m (vaddr + size) ≠ none ∧
        resolve r.memory (vaddr + size) ≠ resolve m (vaddr + size)) ?_ ?_ ?_ hm hs hfit hs
  · rintro m vaddr size o hm hfit hn hend hs rfl
    cases hend
  · rintro m vaddr size e notices hm hfit hcut he hc hs - ⟨a, h1, h2, ha⟩
    have hsize := hcut.toNat_cutSize hm
    have hle := hcut.chunkEnd_le
    have hbelow := hcut.below
    rw [hc] at hsize
    rcases he with hv | hn
    · -- the mapping of `vaddr` covers the range
      have hv1 := hv.1
      exact absurd ⟨by omega, by omega⟩ ((resolve_eq_none_iff hm).1 ha e hcut.mem)
    · have hend : chunkEnd vaddr e = vaddr.toNat + e.2.size.toNat :=
        if_neg (not_lt.2 (le_of_lt hn.after))
      have hce : Contains e (vaddr + size) := by
        have := hn.after
        exact ⟨by bv_omega, by bv_omega⟩
      refine ⟨?_, hcut.resolve_end_ne hm hn rfl hce⟩
      rw [resolve_mapped hm hcut.mem hce]
      exact Option.some_ne_none _
  · rintro m vaddr size e r notices hm hfit hcut he hc ih hs hok ⟨a, h1, h2, ha⟩
    have hsum : vaddr + cutSize vaddr size e + (size - cutSize vaddr size e) = vaddr + size := by
      ring
    have hnext : (vaddr + cutSize vaddr size e).toNat =
        vaddr.toNat + (cutSize vaddr size e).toNat := by bv_omega
    have hrest : (size - cutSize vaddr size e).toNat =
        size.toNat - (cutSize vaddr size e).toNat := BitVec.toNat_sub_of_le (le_of_lt hc)
    have hend : (vaddr + size).toNat = vaddr.toNat + size.toNat := by bv_omega
    rw [BitVec.lt_def] at hc
    rcases he with hv | hn
    · have hnot : ¬ a.toNat < vaddr.toNat + (cutSize vaddr size e).toNat := by
        have := hcut.toNat_cutSize hm
        have := hcut.chunkEnd_le
        have := hv.1
        exact fun h => (resolve_eq_none_iff hm).1 ha e hcut.mem ⟨by omega, by omega⟩
      obtain ⟨h3, h4⟩ := ih (by bv_omega) hok
        ⟨a, by omega, by omega, hcut.resolve_eq_none hm ha⟩
      rw [hsum, hcut.resolve_cutMap hm hv, if_neg (by omega)] at h3 h4
      exact ⟨h3, h4⟩
    · obtain ⟨h3, h4⟩ := ih (by bv_omega) hok ⟨vaddr + cutSize vaddr size e, by omega, by omega,
        hcut.resolve_next hm hn hc⟩
      rw [hsum] at h3 h4
      have hce : ¬ Contains e (vaddr + size) := by
        -- nothing of the chunk is kept, so the address would be unmapped now
        intro hce
        obtain ⟨t, ht⟩ := Option.ne_none_iff_exists'.1 h3
        obtain ⟨x, hx, hcx, -⟩ := (resolve_eq_some_iff (hm.cutMap hcut)).1 ht
        have hsize := hcut.toNat_cutSize hm
        rcases (hcut.mem_cutMap hm).1 hx with ⟨hxm, hxe⟩ | ⟨hf, -⟩ | ⟨hb, -⟩
        · exact hxe (hm.unique hxm hcut.mem hcx hce)
        · exact absurd hf (not_lt.2 (le_of_lt hn.after))
        · omega
      rw [hcut.resolve_of_not_contains hm hce] at h3 h4
      exact ⟨h3, h4⟩

/-- A range that ends at the top is never looked at: its end is 0. -/
theorem unmap_of_top (hs : size ≠ 0)
    (htop : vaddr.toNat + size.toNat = 2 ^ 32) :
    unmapVirtualMemory m vaddr size = ⟨.ok false, m, []⟩ := by
  have hend : vaddr + size = 0 := by bv_omega
  have hpass : unmapPass m vaddr size = .ended (.ok false) := by
    have ht : unmapTarget m vaddr size = m.upperBound vaddr := by
      unfold unmapTarget
      split
      next e he => exact if_neg fun h => by simp [hend] at h
      next => rfl
    cases hu : m.upperBound vaddr with
    | none => simp only [unmapPass, if_neg hs, ht, hu]
    | some e =>
      obtain ⟨he, hlt, -⟩ := SortedMap.upperBound_spec hu
      have h1 : vaddr + size < e.1 := by bv_omega
      simp only [unmapPass, if_neg hs, ht, hu, if_pos h1]
  rw [unmapVirtualMemory, unmapWithin, hpass]

/-- A range that runs past the top is never unmapped: its end is below its start. -/
theorem unmap_past_top (hm : Disjoint m) (hwrap : 2 ^ 32 ≤ vaddr.toNat + size.toNat) :
    (unmapVirtualMemory m vaddr size).outcome ≠ .ok true := by
  -- a pass only cuts the mapping of `vaddr`, which ends before the range does
  have cut {m m' : VirtualMemory} {vaddr vstart : VAddr} {size c : BitVec 32} (hm : Disjoint m)
      (hwrap : 2 ^ 32 ≤ vaddr.toNat + size.toNat) (h : unmapPass m vaddr size = .cut m' vstart c) :
      Disjoint m' ∧ c < size ∧ 2 ^ 32 ≤ (vaddr + c).toNat + (size - c).toNat := by
    rcases unmapPass_cases hm vaddr size with ⟨o, -, ho⟩ | ⟨e, he, -, hc⟩
    · rw [ho] at h
      cases h
    · rw [hc] at h
      cases h
      have hsize := he.toNat_cutSize hm
      have hend := he.chunkEnd_le
      have htop := hm.below_top e he.mem
      have hlt : cutSize vaddr size e < size := by bv_omega
      refine ⟨hm.cutMap he, hlt, ?_⟩
      bv_omega
  refine unmap_induction (P := fun m vaddr size r => Disjoint m →
    2 ^ 32 ≤ vaddr.toNat + size.toNat → r.outcome ≠ .ok true) ?_ ?_ ?_ m vaddr size hm hwrap
  · intro m vaddr size o ho hm hwrap
    rcases unmapPass_cases hm vaddr size with ⟨o', hne, ho'⟩ | ⟨e, -, -, hc⟩
    · rw [ho, UnmapPass.ended.injEq] at ho'
      exact ho' ▸ hne
    · rw [ho] at hc
      cases hc
  · intro m vaddr size m' vstart c h hc hm hwrap
    exact absurd (cut hm hwrap h).2.1 hc
  · intro m vaddr size m' vstart c r h hc ih hm hwrap
    exact ih (cut hm hwrap h).1 (cut hm hwrap h).2.2

/-! ## Exactness -/

/-- **What unmapping is for**: on success the range and nothing else is gone, and a call that
returns `false` has changed nothing. -/
def UnmapExact (m : VirtualMemory) (vaddr : VAddr) (size : BitVec 32) : Prop :=
  let r := unmapVirtualMemory m vaddr size
  (r.outcome = .ok true → ∀ a, resolve r.memory a =
    if InRange vaddr size a then none else resolve m a) ∧
  (r.outcome = .ok false → ∀ a, resolve r.memory a = resolve m a)

/-- The ranges unmapping gets right: those at the top (which it leaves alone), those without or full
of mapped addresses, and those a mapping follows directly. -/
def Unmappable (m : VirtualMemory) (vaddr : VAddr) (size : BitVec 32) : Prop :=
  vaddr.toNat + size.toNat = 2 ^ 32 ∨
  (∀ a, InRange vaddr size a → resolve m a = none) ∨
  (∀ a, InRange vaddr size a → resolve m a ≠ none) ∨
  ∃ e ∈ m, e.1.toNat = vaddr.toNat + size.toNat

theorem unmapExact_of_removed (hfit : vaddr.toNat + size.toNat < 2 ^ 32)
    (hf : (unmapVirtualMemory m vaddr size).outcome ≠ .ok false)
    (ht : (unmapVirtualMemory m vaddr size).outcome = .ok true →
      Removed m vaddr size (unmapVirtualMemory m vaddr size).memory) : UnmapExact m vaddr size := by
  refine ⟨fun hok a => ?_, fun h => absurd h hf⟩
  rw [ht hok a]
  simp only [inRange_iff (le_of_lt hfit)]

/-- **Unmapping is exact** on a map of disjoint mappings for these ranges and no others. -/
theorem unmapExact_iff (hm : Disjoint m) (hs : size ≠ 0)
    (hrange : vaddr.toNat + size.toNat ≤ 2 ^ 32) :
    UnmapExact m vaddr size ↔ Unmappable m vaddr size := by
  have hin {a : VAddr} := inRange_iff (a := a) hrange
  rcases Nat.lt_or_eq_of_le hrange with hfit | htop
  · constructor
    · intro ⟨hexT, hexF⟩
      by_contra hnot
      simp only [Unmappable, not_or] at hnot
      obtain ⟨-, hsome, hgap, hstart⟩ := hnot
      push Not at hsome hgap
      obtain ⟨x, hx, hxm⟩ := hsome
      obtain ⟨y, hy, hym⟩ := hgap
      cases ho : (unmapVirtualMemory m vaddr size).outcome with
      | error ex => exact hstart (unmap_error hm hs hfit ex ho)
      | ok b =>
        cases b with
        | false =>
          obtain ⟨a, ha, hgone⟩ := (unmap_false hm hs hfit).2 ho
            ⟨x, (hin.1 hx).1, (hin.1 hx).2, hxm⟩
          exact ha ((hexF ho a).symm.trans hgone)
        | true =>
          obtain ⟨-, hne⟩ := unmap_true hm hs hfit ho ⟨y, (hin.1 hy).1, (hin.1 hy).2, hym⟩
          refine hne ?_
          rw [hexT ho, if_neg]
          rw [hin]
          bv_omega
    · rintro (h | hnone | hall | hstart)
      · omega
      · obtain ⟨hne, hmem⟩ := unmap_of_unmapped hm hs hfit fun a h1 h2 => hnone a (hin.2 ⟨h1, h2⟩)
        exact ⟨fun h => absurd h hne, fun _ a => by rw [hmem]⟩
      · obtain ⟨hok, hrem⟩ := unmap_of_mapped hm hs hfit fun a h1 h2 => hall a (hin.2 ⟨h1, h2⟩)
        exact unmapExact_of_removed hfit (by simp [hok]) (fun _ => hrem)
      · obtain ⟨hne, hrem⟩ := unmap_of_start hm hs hfit hstart
        exact unmapExact_of_removed hfit hne (fun h => (hrem h).2)
  · refine ⟨fun _ => .inl htop, fun _ => ?_⟩
    rw [UnmapExact, unmap_of_top hs htop]
    exact ⟨fun h => by simp at h, fun _ _ => rfl⟩

end

end Mikage
