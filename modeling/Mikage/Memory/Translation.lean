import Mikage.Memory.Calls
import Mikage.Memory.PageTableProof

/-!
# The page table and the memory map

An emulated process keeps its mappings twice: in `Process::virtual_memory` and, told of each change,
in the page table of its processor.

- `Mirrors`: the page table has the translation of each page.
- `Mirrors.map`, `Mirrors.unmap`: a call that is `Paged` keeps that, and the page table takes every
  change.
- `pageTable_refines`: in every run of such calls both translate every address alike.

A size that is no multiple of a page breaks it: `Insert` maps the whole last page and `Remove` leaves
it. So do the calls that the map itself gets wrong, at the top of the address space and across holes.
-/

namespace Mikage

open PageTable

/-- The page table agrees with a map of whole pages. -/
structure Mirrors (m : VirtualMemory) (t : PageTable) : Prop where
  disjoint : Disjoint m
  whole : ∀ e ∈ m, WholePages e.1 e.2.size
  marked : ∀ p, resolveVirtualAddr m (pageStart p) ≠ some unmappedAddress
  pages : ∀ p, t.physicalAddresses p =
    (resolveVirtualAddr m (pageStart p)).getD unmappedAddress

variable {m m' : VirtualMemory} {t : PageTable} {vaddr a : VAddr} {size : BitVec 32}
  {physAddr : PAddr} {permissions : MemoryPermissions} {e : VAddr × VirtualMemoryBlock}

theorem Mirrors.empty : Mirrors .empty .create where
  disjoint := .empty
  whole _ h := absurd h SortedMap.not_mem_empty
  marked _ := nofun
  pages _ := rfl

/-- The address and the start of its page are in the same mappings. -/
theorem WholePages.contains_iff (h : WholePages e.1 e.2.size) :
    Contains e (pageStart (pageIndex a)) ↔ Contains e a := by
  obtain ⟨h1, h2⟩ := h
  unfold Contains
  rw [toNat_pageStart, toNat_pageIndex]
  omega

/-- A map of whole pages translates page by page. -/
theorem Mirrors.resolve_eq (h : Mirrors m t) (a : VAddr) : resolveVirtualAddr m a =
    (resolveVirtualAddr m (pageStart (pageIndex a))).map (· + (a &&& 0xfff)) := by
  rw [resolveVirtualAddr_eq, resolveVirtualAddr_eq]
  cases hr : resolve m a with
  | none =>
    have hnone : resolve m (pageStart (pageIndex a)) = none := by
      rw [resolve_eq_none_iff h.disjoint] at hr ⊢
      exact fun e he hc => hr e he ((h.whole e he).contains_iff.1 hc)
    rw [hnone]
    rfl
  | some x =>
    obtain ⟨e, he, hc, rfl⟩ := (resolve_eq_some_iff h.disjoint).1 hr
    rw [resolve_mapped h.disjoint he ((h.whole e he).contains_iff.2 hc)]
    have hsum := pageStart_add a
    simp only [Option.map_some, target, Option.some_inj]
    bv_omega

/-- **Both translations are the same.** -/
theorem Mirrors.translate_eq (h : Mirrors m t) (a : VAddr) :
    (t.translateVirtualAddress a).toOption = resolveVirtualAddr m a := by
  have hpage := h.pages (pageIndex a)
  have hmarked := h.marked (pageIndex a)
  rw [h.resolve_eq a, translateVirtualAddress, hpage]
  cases hr : resolveVirtualAddr m (pageStart (pageIndex a)) with
  | none =>
    rw [Option.getD_none, if_pos rfl]
    rfl
  | some pa =>
    rw [hr] at hmarked
    rw [Option.getD_some, if_neg fun heq => hmarked (congrArg some heq)]
    rfl

/-! ## Mapping -/

/-- A range of whole pages is mapped where it fits, and none of them at the marker. -/
theorem Mirrors.insert (h : Mirrors m t) (hs : size ≠ 0) (hfree : ¬ Rejected m size vaddr)
    (hwhole : WholePages vaddr size) (hfit : vaddr.toNat + size.toNat < 2 ^ 32)
    (hmark : ∀ p, InRange vaddr size (pageStart p) →
      physAddr + (pageStart p - vaddr) ≠ unmappedAddress) :
    Mirrors (m.insert vaddr ⟨physAddr, size, permissions⟩) (t.insert vaddr physAddr size) := by
  have hle : vaddr.toNat + size.toNat ≤ 2 ^ 32 := Nat.le_of_lt hfit
  have hresolve : ∀ p, resolveVirtualAddr (m.insert vaddr ⟨physAddr, size, permissions⟩)
      (pageStart p) = if InRange vaddr size (pageStart p) then
        some (physAddr + (pageStart p - vaddr)) else resolveVirtualAddr m (pageStart p) := by
    intro p
    rw [resolveVirtualAddr_eq, resolveVirtualAddr_eq, resolve_insert h.disjoint hs hfree hfit]
    split <;> rfl
  refine ⟨h.disjoint.insert hs hfree hfit, fun e he => ?_, fun p => ?_, fun p => ?_⟩
  · rcases (mem_insert_of_accepted h.disjoint hs hfree hfit).1 he with he | rfl
    · exact h.whole e he
    · exact hwhole
  · rw [hresolve]
    split
    next hin => exact fun heq => hmark p hin (Option.some_inj.1 heq)
    next => exact h.marked p
  · rw [hresolve, PageTable.insert, ← insertCount,
      insertPages_physical (insertCount_fits hs hle), insertedAt, hwhole.pageStart_pageIndex, h.pages]
    simp only [hwhole.inserted_iff hs hle, inRange_iff hle]
    split <;> rfl

/-! ## Unmapping -/

theorem Removed.resolveVirtualAddr (h : Removed m vaddr size m') (a : VAddr) :
    resolveVirtualAddr m' a =
      if vaddr.toNat ≤ a.toNat ∧ a.toNat < vaddr.toNat + size.toNat then none
      else Mikage.resolveVirtualAddr m a := by
  rw [resolveVirtualAddr_eq, resolveVirtualAddr_eq, h a]
  split <;> rfl

/-- Whole pages that are all mapped go from both. -/
theorem Mirrors.remove (h : Mirrors m t) (hm' : Disjoint m')
    (hwhole' : ∀ e ∈ m', WholePages e.1 e.2.size) (hgone : Removed m vaddr size m')
    (hwhole : WholePages vaddr size) (hfit : vaddr.toNat + size.toNat < 2 ^ 32)
    (hall : ∀ a : VAddr, vaddr.toNat ≤ a.toNat → a.toNat < vaddr.toNat + size.toNat →
      resolve m a ≠ none) :
    ∃ t', t.remove vaddr size = (.ok (), t') ∧ Mirrors m' t' := by
  have hmapped : ∀ p, InPages (pageIndex vaddr) (removeCount vaddr size) p →
      t.physicalAddresses p ≠ unmappedAddress := by
    intro p hp
    obtain ⟨hlo, hhi⟩ := (hwhole.removed_iff hfit).1 hp
    have hmarked := h.marked p
    rw [h.pages]
    cases hr : resolveVirtualAddr m (pageStart p) with
    | none =>
      rw [resolveVirtualAddr_eq, Option.map_eq_none_iff] at hr
      exact absurd hr (hall _ hlo hhi)
    | some pa =>
      rw [hr] at hmarked
      exact fun heq => hmarked (congrArg some heq)
  obtain ⟨t', heq, hphys, -⟩ := remove_eq hmapped
  refine ⟨t', heq, hm', hwhole', fun p => ?_, fun p => ?_⟩
  · rw [hgone.resolveVirtualAddr]
    split
    · nofun
    · exact h.marked p
  · rw [hphys, hgone.resolveVirtualAddr, h.pages]
    simp only [hwhole.removed_iff hfit]
    split <;> rfl

/-- A mapping goes on behind the range that it starts in. -/
def Crosses (e : VAddr × VirtualMemoryBlock) (stop : Nat) : Prop :=
  e.1.toNat < stop ∧ stop < e.1.toNat + e.2.size.toNat

/-- The range has no hole, or no mapping goes on behind it. -/
def Clean (m : VirtualMemory) (vaddr : VAddr) (size : BitVec 32) : Prop :=
  (∀ a : VAddr, vaddr.toNat ≤ a.toNat → a.toNat < vaddr.toNat + size.toNat → resolve m a ≠ none) ∨
  ∀ e ∈ m, ¬ Crosses e (vaddr.toNat + size.toNat)

section

variable (hm : Disjoint m) (hcut : Cuttable m vaddr size e)
  (hat : Contains e vaddr ∨ NextMapping m vaddr e)

include hm hcut hat

/-- Where one pass cuts: at `vaddr`, or the whole of the next mapping. -/
theorem Cuttable.place (hclean : Clean m vaddr size) :
    (Contains e vaddr ∧ e.1 + lead vaddr e = vaddr) ∨
    (NextMapping m vaddr e ∧ e.1 + lead vaddr e = e.1 ∧ cutSize vaddr size e = e.2.size ∧
      e.1.toNat + e.2.size.toNat ≤ vaddr.toNat + size.toNat) := by
  rcases hat with hv | hn
  · refine .inl ⟨hv, ?_⟩
    have hle := hv.1
    unfold lead
    split <;> bv_omega
  · have hafter := hn.after
    have hlead : lead vaddr e = 0 := if_neg (not_lt.2 (le_of_lt hafter))
    have hbelow := hcut.below
    have hend : chunkEnd vaddr e = vaddr.toNat + e.2.size.toNat :=
      if_neg (not_lt.2 (le_of_lt hafter))
    have hsize := hcut.toNat_cutSize hm
    rcases hclean with hall | hno
    · exact absurd ((resolve_eq_none_iff hm).2 hn.unmapped) (hall vaddr (Nat.le_refl _) (by bv_omega))
    · have hcross : ¬ vaddr.toNat + size.toNat < e.1.toNat + e.2.size.toNat := fun hlt =>
        hno e hcut.mem ⟨by bv_omega, hlt⟩
      refine .inr ⟨hn, by rw [hlead, add_zero], BitVec.eq_of_toNat_eq ?_, by omega⟩
      rw [hsize, hend]
      bv_omega

/-- **One pass is exact** for what it says that it has unmapped. -/
theorem Cuttable.removed (hclean : Clean m vaddr size) :
    Removed m (e.1 + lead vaddr e) (cutSize vaddr size e) (cutMap m vaddr size e) ∧
    (e.1 + lead vaddr e).toNat + (cutSize vaddr size e).toNat < 2 ^ 32 ∧
    ∀ a : VAddr, (e.1 + lead vaddr e).toNat ≤ a.toNat →
      a.toNat < (e.1 + lead vaddr e).toNat + (cutSize vaddr size e).toNat → Contains e a := by
  have htop := hm.below_top e hcut.mem
  have hsize := hcut.toNat_cutSize hm
  have hend := hcut.chunkEnd_le
  rcases hcut.place hm hat hclean with ⟨hv, hplace⟩ | ⟨hn, hplace, hwhole, hle⟩
  · have hle := hv.1
    rw [hplace]
    exact ⟨fun a => hcut.resolve_cutMap hm hv, by omega, fun a h1 h2 => ⟨by omega, by omega⟩⟩
  · have hafter : vaddr.toNat < e.1.toNat := hn.after
    rw [hplace, hwhole]
    refine ⟨fun a => ?_, by omega, fun a h1 h2 => ⟨by omega, by omega⟩⟩
    split
    next hin => exact hcut.resolve_gone hm hin (by omega) (by omega)
    next hout => exact hcut.resolve_of_not_contains hm hout

/-- The rest of the call has a clean range again. -/
theorem Cuttable.clean (hfit : vaddr.toNat + size.toNat < 2 ^ 32)
    (hclean : Clean m vaddr size) (hc : cutSize vaddr size e < size) :
    Clean (cutMap m vaddr size e) (vaddr + cutSize vaddr size e) (size - cutSize vaddr size e) := by
  have hnext : (vaddr + cutSize vaddr size e).toNat =
      vaddr.toNat + (cutSize vaddr size e).toNat := by bv_omega
  have hstop : (vaddr + cutSize vaddr size e).toNat + (size - cutSize vaddr size e).toNat =
      vaddr.toNat + size.toNat := by bv_omega
  have hplace := hcut.place hm hat hclean
  rw [Clean, hstop]
  rcases hclean with hall | hno
  · refine .inl fun a h1 h2 => ?_
    rcases hplace with ⟨hv, -⟩ | ⟨hn, -⟩
    · rw [hcut.resolve_cutMap hm hv, if_neg (by omega)]
      exact hall a (by omega) h2
    · exact absurd ((resolve_eq_none_iff hm).2 hn.unmapped) (hall vaddr (Nat.le_refl _) (by bv_omega))
  · refine .inr fun x hx hcross => ?_
    obtain ⟨h1, h2⟩ := hcross
    rcases hcut.mem_cutMap_cases hm hx with ⟨hx, -⟩ | ⟨-, hlo, hhi⟩
    · exact hno x hx ⟨h1, h2⟩
    · exact hno e hcut.mem ⟨by omega, by omega⟩

end

/-- What stays of whole pages is whole pages, and the pass cuts whole pages. -/
theorem Cuttable.whole (hm : Disjoint m) (hcut : Cuttable m vaddr size e)
    (hwhole : ∀ e ∈ m, WholePages e.1 e.2.size) (hrange : WholePages vaddr size) :
    (cutSize vaddr size e).toNat % 0x1000 = 0 ∧
    ∀ x ∈ cutMap m vaddr size e, WholePages x.1 x.2.size := by
  obtain ⟨hv, hsz⟩ := hrange
  obtain ⟨hes, hez⟩ := hwhole e hcut.mem
  have hend : chunkEnd vaddr e % 0x1000 = 0 := by
    unfold chunkEnd
    split <;> omega
  have hsize := hcut.toNat_cutSize hm
  have hle := hcut.chunkEnd_le
  refine ⟨by omega, fun x hx => ?_⟩
  rcases (hcut.mem_cutMap hm).1 hx with ⟨hx, -⟩ | ⟨hf, rfl⟩ | ⟨hb, rfl⟩
  · exact hwhole x hx
  · have hfront := toNat_frontPart hf
    have hstart : (frontPart vaddr e).1 = e.1 := rfl
    rw [hstart] at hfront
    exact ⟨hes, by omega⟩
  · obtain ⟨h1, h2⟩ := hcut.toNat_backPart hm hb
    exact ⟨by omega, by omega⟩

/-- One pass takes the same pages out of the page table. -/
theorem Mirrors.cut (h : Mirrors m t) (hcut : Cuttable m vaddr size e)
    (hat : Contains e vaddr ∨ NextMapping m vaddr e) (hclean : Clean m vaddr size)
    (hrange : WholePages vaddr size) :
    ∃ t', t.onNotice (.unmapped (e.1 + lead vaddr e) (cutSize vaddr size e)) = (.ok (), t') ∧
      Mirrors (cutMap m vaddr size e) t' := by
  obtain ⟨hgone, htop, hin⟩ := hcut.removed h.disjoint hat hclean
  obtain ⟨hcs, hwhole⟩ := hcut.whole h.disjoint h.whole hrange
  have hstart : (e.1 + lead vaddr e).toNat % 0x1000 = 0 := by
    rcases hcut.place h.disjoint hat hclean with ⟨-, hplace⟩ | ⟨-, hplace, -⟩ <;> rw [hplace]
    · exact hrange.start
    · exact (h.whole e hcut.mem).start
  refine h.remove (h.disjoint.cutMap hcut) hwhole hgone ⟨hstart, hcs⟩ htop fun a h1 h2 => ?_
  rw [resolve_mapped h.disjoint hcut.mem (hin a h1 h2)]
  exact Option.some_ne_none _

theorem onNotices_cons {n : MapNotice} {notices : List MapNotice} {t' t'' : PageTable}
    (h : t.onNotice n = (.ok (), t')) (h' : onNotices notices t' = (.ok (), t'')) :
    onNotices (n :: notices) t = (.ok (), t'') := by
  rw [onNotices, h]
  exact h'

/-- **The page table takes a whole call.** -/
theorem Mirrors.unmap (h : Mirrors m t) (hs : size ≠ 0) (hfit : vaddr.toNat + size.toNat < 2 ^ 32)
    (hclean : Clean m vaddr size) (hrange : WholePages vaddr size) :
    ∃ t', onNotices (unmapVirtualMemory m vaddr size).notices t = (.ok (), t') ∧
      Mirrors (unmapVirtualMemory m vaddr size).memory t' := by
  refine unmap_induction_chunks (P := fun m vaddr size r => ∀ t, size ≠ 0 → Mirrors m t →
    Clean m vaddr size → WholePages vaddr size →
    ∃ t', onNotices r.notices t = (.ok (), t') ∧ Mirrors r.memory t') ?_ ?_ ?_ h.disjoint hs hfit t hs
    h hclean hrange
  · exact fun m vaddr size o _ _ _ _ t _ h _ _ => ⟨t, rfl, h⟩
  · intro m vaddr size e hm hfit hcut hat _ t hs h hclean hrange
    obtain ⟨t', heq, h'⟩ := h.cut hcut hat hclean hrange
    exact ⟨t', onNotices_cons heq rfl, h'⟩
  · intro m vaddr size e r hm hfit hcut hat hc ih t hs h hclean hrange
    obtain ⟨t', heq, h'⟩ := h.cut hcut hat hclean hrange
    have hcs := (hcut.whole hm h.whole hrange).1
    obtain ⟨hv, hsz⟩ := hrange
    obtain ⟨t'', heq', h''⟩ := ih t' (by bv_omega) h' (hcut.clean hm hat hfit hclean hc)
      ⟨by bv_omega, by bv_omega⟩
    exact ⟨t'', onNotices_cons heq heq', h''⟩

/-! ## Runs -/

/-- A call that is refused or changes whole pages. A mapping ends below the top of the address space
and gives no page the address that marks an unmapped one; of a range with a hole no mapping goes on
behind it. -/
def MapCall.Paged (m : VirtualMemory) : MapCall → Prop
  | .map physAddr size vaddr _ => size = 0 ∨ Rejected m size vaddr ∨
      (WholePages vaddr size ∧ vaddr.toNat + size.toNat < 2 ^ 32 ∧
        ∀ p, InRange vaddr size (pageStart p) →
          physAddr + (pageStart p - vaddr) ≠ unmappedAddress)
  | .unmap vaddr size => size = 0 ∨ vaddr.toNat + size.toNat = 2 ^ 32 ∨
      (WholePages vaddr size ∧ vaddr.toNat + size.toNat < 2 ^ 32 ∧ Clean m vaddr size)

theorem unmapVirtualMemory_zero (m : VirtualMemory) (vaddr : VAddr) : unmapVirtualMemory m vaddr 0 =
    ⟨.error (.runtimeError "Tried to unmap zero-sized memory block"), m, []⟩ := by
  rw [unmapVirtualMemory, unmapWithin, unmapPass, if_pos rfl]

/-- One call. -/
theorem Mirrors.apply {c : MapCall} (h : Mirrors m t) (hc : c.Paged m) :
    ∃ t', onNotices (c.apply m).notices t = (.ok (), t') ∧ Mirrors (c.apply m).memory t' := by
  cases c with
  | map physAddr size vaddr permissions =>
    rw [MapCall.apply]
    by_cases hs : size = 0
    · rw [mapVirtualMemory, if_pos hs]
      exact ⟨t, rfl, h⟩
    by_cases hrej : Rejected m size vaddr
    · rw [mapVirtualMemory_rejected h.disjoint hs hrej]
      exact ⟨t, rfl, h⟩
    obtain ⟨hwhole, hfit, hmark⟩ := (hc.resolve_left hs).resolve_left hrej
    rw [mapVirtualMemory_accepted h.disjoint hs hrej]
    exact ⟨_, rfl, h.insert hs hrej hwhole hfit hmark⟩
  | unmap vaddr size =>
    rw [MapCall.apply]
    by_cases hs : size = 0
    · rw [hs, unmapVirtualMemory_zero]
      exact ⟨t, rfl, h⟩
    rcases hc.resolve_left hs with htop | ⟨hwhole, hfit, hclean⟩
    · rw [unmap_of_top hs htop]
      exact ⟨t, rfl, h⟩
    · exact h.unmap hs hfit hclean hwhole

/-- A map and the page table that was told of all its changes. -/
abbrev ToldRun (allowed : VirtualMemory → MapCall → Prop) : VirtualMemory × PageTable → Prop :=
  Run.Reachable (· = (.empty, .create)) fun s s' => ∃ c, allowed s.1 c ∧
    (c.apply s.1).memory = s'.1 ∧ onNotices (c.apply s.1).notices s.2 = (.ok (), s'.2)

/-- The page table translates each address as the map does. -/
def SameTranslation (m : VirtualMemory) (t : PageTable) : Prop :=
  ∀ a, (t.translateVirtualAddress a).toOption = resolveVirtualAddr m a

theorem ToldRun.mirrors {s : VirtualMemory × PageTable} (h : ToldRun (fun m c => c.Paged m) s) :
    Mirrors s.1 s.2 := by
  refine Run.Reachable.invariant (I := fun s => Mirrors s.1 s.2) ?_ ?_ h
  · rintro _ rfl
    exact .empty
  · rintro s s' hmirror ⟨c, hc, hm, ht⟩
    obtain ⟨t', heq, h'⟩ := hmirror.apply hc
    rw [heq, Prod.mk.injEq] at ht
    rw [← hm, ← ht.2]
    exact h'

/-- **The page table refines the map** in every run of these calls, and takes every change. -/
theorem pageTable_refines (s : VirtualMemory × PageTable) (h : ToldRun (fun m c => c.Paged m) s) :
    SameTranslation s.1 s.2 ∧ ∀ c : MapCall, c.Paged s.1 →
      ∃ t', onNotices (c.apply s.1).notices s.2 = (.ok (), t') := by
  refine ⟨h.mirrors.translate_eq, fun c hc => ?_⟩
  obtain ⟨t', heq, -⟩ := h.mirrors.apply hc
  exact ⟨t', heq⟩

section

def onePage : MapCall := .map 0x20000000 0x1000 0x8000000 .readWrite

/-- One page. -/
def onePageMapped : VirtualMemory × PageTable :=
  ((onePage.apply .empty).memory, (onNotices (onePage.apply .empty).notices .create).2)

theorem pageTable_refines_page : SameTranslation onePageMapped.1 onePageMapped.2 ∧
    ∃ t', onNotices ((MapCall.unmap 0x8000000 0x1000).apply onePageMapped.1).notices
      onePageMapped.2 = (.ok (), t') := by
  have hmap : onePage.Paged .empty := by
    refine .inr (.inr ⟨⟨by decide, by decide⟩, by decide, fun p hp => ?_⟩)
    rw [InRange, BitVec.lt_def] at hp
    have hp : (pageStart p - 0x8000000#32).toNat < 0x1000 := hp
    unfold unmappedAddress
    bv_omega
  obtain ⟨hsame, htold⟩ := pageTable_refines onePageMapped
    (.next (.start rfl) ⟨onePage, hmap, rfl, rfl⟩)
  refine ⟨hsame, htold _ (.inr (.inr ⟨⟨by decide, by decide⟩, by decide, .inr fun e he => ?_⟩))⟩
  have he : e ∈ [((0x8000000 : VAddr), (⟨0x20000000, 0x1000, .readWrite⟩ : VirtualMemoryBlock))] := he
  rw [List.mem_singleton.1 he]
  exact fun h => absurd h.2 (by decide)

/-- A mapping of 0x100 bytes: the page table maps the whole page. -/
theorem partial_page_breaks : ¬ ∀ s, ToldRun (fun _ c => ∀ physAddr size vaddr permissions,
    c = .map physAddr size vaddr permissions → vaddr.toNat % 0x1000 = 0) s →
    SameTranslation s.1 s.2 := by
  intro h
  have hsame := h ((MapCall.map 0x20000000 0x100 0x8000000 .readWrite).apply .empty |>.memory, _)
    (.next (.start rfl) ⟨.map 0x20000000 0x100 0x8000000 .readWrite, ?_, rfl, rfl⟩) 0x8000200
  · exact absurd hsame (by decide)
  · rintro _ _ _ _ ⟨⟩
    rfl

end

end Mikage
