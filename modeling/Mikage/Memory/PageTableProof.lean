import Mikage.Memory.PageTable

/-!
# What the updates of the page table do

`insert` and `remove` on whole pages, each as one step on the three arrays.

- `insertPages_physical`, `insertPages_host`, `insertPages_virtual`: the entries of the pages.
- `remove_eq`: the entries of the pages go, if each of them is mapped.
-/

namespace Mikage

variable {t : PageTable} {page p : BitVec 20} {k : Nat}

theorem toNat_pageStart (page : BitVec 20) : (pageStart page).toNat = page.toNat * 0x1000 := by
  have hpage := page.isLt
  rw [pageStart, BitVec.toNat_shiftLeft, BitVec.toNat_setWidth, Nat.shiftLeft_eq]
  omega

theorem toNat_pageIndex (a : BitVec 32) : (pageIndex a).toNat = a.toNat / 0x1000 := by
  have ha := a.isLt
  rw [pageIndex, BitVec.extractLsb'_toNat, Nat.shiftRight_eq_div_pow]
  omega

theorem pageIndex_pageStart (page : BitVec 20) : pageIndex (pageStart page) = page := by
  refine BitVec.eq_of_toNat_eq ?_
  rw [toNat_pageIndex, toNat_pageStart, Nat.mul_div_cancel _ (by decide)]

theorem toNat_and_fff (a : BitVec 32) : (a &&& 0xfff).toNat = a.toNat % 0x1000 := by
  rw [BitVec.toNat_and]
  exact Nat.and_two_pow_sub_one_eq_mod a.toNat 12

theorem pageStart_add (a : BitVec 32) : pageStart (pageIndex a) + (a &&& 0xfff) = a := by
  refine BitVec.eq_of_toNat_eq ?_
  rw [BitVec.toNat_add, toNat_and_fff, toNat_pageStart, toNat_pageIndex]
  omega

/-- The `k` pages from `page` on. -/
def InPages (page : BitVec 20) (k : Nat) (p : BitVec 20) : Prop :=
  page.toNat ≤ p.toNat ∧ p.toNat < page.toNat + k

instance : Decidable (InPages page k p) := inferInstanceAs (Decidable (_ ∧ _))

theorem inPages_succ (h : page.toNat + (k + 1) ≤ 2 ^ 20) :
    InPages page (k + 1) p ↔ p = page ∨ InPages (page + 1) k p := by
  have hp : p = page ↔ p.toNat = page.toNat := BitVec.toNat_inj.symm
  unfold InPages
  rw [hp, BitVec.toNat_add]
  have hpage := p.isLt
  have hone : (1 : BitVec 20).toNat = 1 := rfl
  rcases Nat.eq_zero_or_pos k with rfl | hk <;> omega

theorem fit_succ (h : page.toNat + (k + 1) ≤ 2 ^ 20) : (page + 1).toNat + k ≤ 2 ^ 20 := by
  have hone : (1 : BitVec 20).toNat = 1 := rfl
  rw [BitVec.toNat_add]
  omega

theorem not_inPages_succ (h : page.toNat + (k + 1) ≤ 2 ^ 20) : ¬ InPages (page + 1) k page := by
  have hone : (1 : BitVec 20).toNat = 1 := rfl
  unfold InPages
  rw [BitVec.toNat_add]
  omega

namespace PageTable

/-! ## Inserting -/

/-- Where the pages of an insertion go. -/
def insertedAt (page : BitVec 20) (pstart : PAddr) (p : BitVec 20) : PAddr :=
  pstart + (pageStart p - pageStart page)

theorem insertedAt_self (pstart : PAddr) : insertedAt page pstart page = pstart := by
  rw [insertedAt, BitVec.sub_self, BitVec.add_zero]

theorem pageStart_succ (page : BitVec 20) : pageStart (page + 1) = pageStart page + 0x1000 := by
  refine BitVec.eq_of_toNat_eq ?_
  have hone : (1 : BitVec 20).toNat = 1 := rfl
  have hsize : (0x1000 : BitVec 32).toNat = 0x1000 := rfl
  have hpage := page.isLt
  rw [toNat_pageStart, BitVec.toNat_add, BitVec.toNat_add, toNat_pageStart, hone, hsize]
  omega

theorem insertedAt_succ (pstart : PAddr) (p : BitVec 20) :
    insertedAt (page + 1) (pstart + 0x1000) p = insertedAt page pstart p := by
  rw [insertedAt, insertedAt, pageStart_succ]
  bv_omega

section

variable {pstart : PAddr}

theorem insertPages_physical (h : page.toNat + k ≤ 2 ^ 20) :
    (insertPages k page pstart t).physicalAddresses p =
      if InPages page k p then insertedAt page pstart p else t.physicalAddresses p := by
  induction k generalizing page pstart t with
  | zero => exact (if_neg fun h => absurd h.2 (Nat.not_lt.2 h.1)).symm
  | succ k ih =>
    rw [insertPages, ih (fit_succ h), insertedAt_succ]
    simp only [inPages_succ h, insertPage]
    by_cases hp : p = page
    · subst hp
      rw [if_neg (not_inPages_succ h), if_pos (.inl rfl), Function.update_self, insertedAt_self]
    · simp only [hp, false_or, Function.update_of_ne hp]

theorem insertPages_host (h : page.toNat + k ≤ 2 ^ 20) :
    (insertPages k page pstart t).hostMemory p =
      if InPages page k p then
        (lookupMemoryBackedPage (insertedAt page pstart p)).or (t.hostMemory p)
      else t.hostMemory p := by
  induction k generalizing page pstart t with
  | zero => exact (if_neg fun h => absurd h.2 (Nat.not_lt.2 h.1)).symm
  | succ k ih =>
    have hone : (t.insertPage page pstart).hostMemory p =
        if p = page then (lookupMemoryBackedPage pstart).or (t.hostMemory p)
        else t.hostMemory p := by
      rw [insertPage]
      cases lookupMemoryBackedPage pstart with
      | none => simp
      | some memory => simp only [Function.update_apply, Option.some_or]
    rw [insertPages, ih (fit_succ h), insertedAt_succ, hone]
    simp only [inPages_succ h]
    by_cases hp : p = page
    · subst hp
      rw [if_neg (not_inPages_succ h), if_pos rfl, if_pos (.inl rfl), insertedAt_self]
    · simp only [hp, false_or, if_false]

theorem insertPage_virtual (q : BitVec 20) :
    (t.insertPage page pstart).virtualAddressesFor q =
      if q = pageIndex pstart then t.virtualAddressesFor q ++ [pageStart page]
      else t.virtualAddressesFor q := by
  by_cases hq : q = pageIndex pstart
  · subst hq
    rw [if_pos rfl]
    exact Function.update_self ..
  · rw [if_neg hq]
    exact Function.update_of_ne hq ..

/-- The virtual pages come behind those that a physical page has already. -/
theorem insertPages_virtual (q : BitVec 20) (h : page.toNat + k ≤ 2 ^ 20) :
    ∃ new : List (BitVec 20), (insertPages k page pstart t).virtualAddressesFor q =
      t.virtualAddressesFor q ++ new.map pageStart ∧ new.Nodup ∧
      ∀ p, p ∈ new ↔ InPages page k p ∧ pageIndex (insertedAt page pstart p) = q := by
  induction k generalizing page pstart t with
  | zero =>
    refine ⟨[], (List.append_nil _).symm, .nil, fun p => ⟨nofun, fun hp => ?_⟩⟩
    exact absurd hp.1.2 (Nat.not_lt.2 hp.1.1)
  | succ k ih =>
    obtain ⟨new, heq, hnodup, hmem⟩ :=
      @ih (t.insertPage page pstart) (page + 1) (pstart + 0x1000) (fit_succ h)
    simp only [insertedAt_succ] at hmem
    rw [insertPages, heq, insertPage_virtual]
    by_cases hq : q = pageIndex pstart
    · refine ⟨page :: new, by simp [hq], List.nodup_cons.2 ⟨fun hin => ?_, hnodup⟩, fun p => ?_⟩
      · exact not_inPages_succ h ((hmem page).1 hin).1
      · rw [List.mem_cons, hmem, inPages_succ h, or_and_right]
        refine or_congr_left ⟨?_, And.left⟩
        rintro rfl
        exact ⟨rfl, by rw [insertedAt_self, hq]⟩
    · refine ⟨new, by rw [if_neg hq], hnodup, fun p => ?_⟩
      rw [hmem, inPages_succ h, or_and_right]
      refine (or_iff_right ?_).symm
      rintro ⟨rfl, hp⟩
      rw [insertedAt_self] at hp
      exact hq hp.symm

end

/-! ## Removing -/

theorem removePages_eq (h : page.toNat + k ≤ 2 ^ 20)
    (hmapped : ∀ p, InPages page k p → t.physicalAddresses p ≠ unmappedAddress) :
    ∃ t', removePages k page t = (.ok (), t') ∧
      (∀ p, t'.physicalAddresses p =
        if InPages page k p then unmappedAddress else t.physicalAddresses p) ∧
      t'.hostMemory = t.hostMemory ∧
      (∀ q, (∃ p, InPages page k p ∧ pageIndex (t.physicalAddresses p) = q) →
        t'.virtualAddressesFor q = []) ∧
      ∀ q, (¬ ∃ p, InPages page k p ∧ pageIndex (t.physicalAddresses p) = q) →
        t'.virtualAddressesFor q = t.virtualAddressesFor q := by
  induction k generalizing page t with
  | zero =>
    have hnone : ∀ p, ¬ InPages page 0 p := fun p hp => absurd hp.2 (Nat.not_lt.2 hp.1)
    refine ⟨t, rfl, fun p => (if_neg (hnone p)).symm, rfl, ?_, fun _ _ => rfl⟩
    rintro q ⟨p, hp, -⟩
    exact absurd hp (hnone p)
  | succ k ih =>
    have hphys : ∀ p, p ≠ page →
        (t.removePage page).physicalAddresses p = t.physicalAddresses p := fun p hp =>
      Function.update_of_ne hp ..
    have hne : ∀ p, InPages (page + 1) k p → p ≠ page := by
      rintro p hp rfl
      exact not_inPages_succ h hp
    have htail : ∀ q, (∃ p, InPages page (k + 1) p ∧ pageIndex (t.physicalAddresses p) = q) ↔
        pageIndex (t.physicalAddresses page) = q ∨
        ∃ p, InPages (page + 1) k p ∧ pageIndex ((t.removePage page).physicalAddresses p) = q := by
      intro q
      simp only [inPages_succ h, or_and_right, exists_or, exists_eq_left]
      exact or_congr_right (exists_congr fun p => and_congr_right fun hp => by
        rw [hphys p (hne p hp)])
    obtain ⟨t', heq, h1, h2, h3, h4⟩ := ih (t := t.removePage page) (fit_succ h) fun p hp => by
      rw [hphys p (hne p hp)]
      exact hmapped p ((inPages_succ h).2 (.inr hp))
    refine ⟨t', ?_, fun p => ?_, h2, fun q hq => ?_, fun q hq => ?_⟩
    · rw [removePages, if_neg (hmapped page ((inPages_succ h).2 (.inl rfl))), heq]
    · rw [h1]
      simp only [inPages_succ h]
      by_cases hp : p = page
      · subst hp
        rw [if_neg (not_inPages_succ h), if_pos (.inl rfl)]
        exact Function.update_self ..
      · simp only [hp, false_or, hphys p hp]
    · by_cases hrest : ∃ p, InPages (page + 1) k p ∧
          pageIndex ((t.removePage page).physicalAddresses p) = q
      · exact h3 q hrest
      · rw [h4 q hrest, ← ((htail q).1 hq).resolve_right hrest]
        exact Function.update_self ..
    · obtain ⟨hfirst, hrest⟩ := not_or.1 ((htail q).not.1 hq)
      rw [h4 q hrest]
      exact Function.update_of_ne (Ne.symm hfirst) ..

/-! ## Ranges -/

def insertCount (vstart : VAddr) (size : BitVec 32) : Nat :=
  (pageIndex (vstart + size - 1)).toNat - (pageIndex vstart).toNat + 1

def removeCount (vstart : VAddr) (size : BitVec 32) : Nat :=
  (pageIndex (vstart + size)).toNat - (pageIndex vstart).toNat

section

variable {vstart : VAddr} {pstart : PAddr} {size : BitVec 32}

theorem insertCount_fits (hs : size ≠ 0) (hfit : vstart.toNat + size.toNat ≤ 2 ^ 32) :
    (pageIndex vstart).toNat + insertCount vstart size ≤ 2 ^ 20 := by
  have hlast : (vstart + size - 1).toNat = vstart.toNat + size.toNat - 1 := by bv_omega
  have hpos : 0 < size.toNat := by bv_omega
  rw [insertCount, toNat_pageIndex, toNat_pageIndex, hlast]
  omega

theorem removeCount_fits (vstart : VAddr) (size : BitVec 32) :
    (pageIndex vstart).toNat + removeCount vstart size ≤ 2 ^ 20 := by
  have hfirst := (pageIndex vstart).isLt
  have hlast := (pageIndex (vstart + size)).isLt
  rw [removeCount]
  omega

/-- `remove`, if each of its pages is mapped. -/
theorem remove_eq (hmapped : ∀ p, InPages (pageIndex vstart) (removeCount vstart size) p →
      t.physicalAddresses p ≠ unmappedAddress) :
    ∃ t', t.remove vstart size = (.ok (), t') ∧
      (∀ p, t'.physicalAddresses p =
        if InPages (pageIndex vstart) (removeCount vstart size) p then unmappedAddress
        else t.physicalAddresses p) ∧
      (∀ p, t'.hostMemory p = if InPages (pageIndex vstart) (removeCount vstart size) p then none
        else t.hostMemory p) ∧
      (∀ q, (∃ p, InPages (pageIndex vstart) (removeCount vstart size) p ∧
        pageIndex (t.physicalAddresses p) = q) → t'.virtualAddressesFor q = []) ∧
      ∀ q, (¬ ∃ p, InPages (pageIndex vstart) (removeCount vstart size) p ∧
        pageIndex (t.physicalAddresses p) = q) →
        t'.virtualAddressesFor q = t.virtualAddressesFor q := by
  obtain ⟨t', heq, h1, h2, h3, h4⟩ := removePages_eq (removeCount_fits vstart size) hmapped
  have hremove : t.remove vstart size = (.ok (),
      { t' with
        hostMemory := fun p =>
          if pageIndex vstart ≤ p ∧ p < pageIndex (vstart + size) then none
          else t'.hostMemory p }) := by
    rw [removeCount] at heq
    simp only [remove, heq, Ended.andThen]
  refine ⟨_, hremove, h1, fun p => ?_, h3, h4⟩
  refine if_congr ?_ rfl (congrFun h2 p)
  rw [InPages, removeCount, BitVec.le_def, BitVec.lt_def]
  omega

end

end PageTable

section

open PageTable

variable {vstart : VAddr} {size : BitVec 32}

/-- The range is one of whole pages. -/
structure WholePages (vstart : VAddr) (size : BitVec 32) : Prop where
  start : vstart.toNat % 0x1000 = 0
  size : size.toNat % 0x1000 = 0

namespace WholePages

theorem pageStart_pageIndex (h : WholePages vstart size) : pageStart (pageIndex vstart) = vstart := by
  refine BitVec.eq_of_toNat_eq ?_
  have hstart := h.start
  rw [toNat_pageStart, toNat_pageIndex]
  omega

theorem inserted_iff (h : WholePages vstart size) (hs : size ≠ 0)
    (hfit : vstart.toNat + size.toNat ≤ 2 ^ 32) :
    InPages (pageIndex vstart) (insertCount vstart size) p ↔
      vstart.toNat ≤ (pageStart p).toNat ∧ (pageStart p).toNat < vstart.toNat + size.toNat := by
  have hlast : (vstart + size - 1).toNat = vstart.toNat + size.toNat - 1 := by bv_omega
  have hpos : 0 < size.toNat := by bv_omega
  obtain ⟨h1, h2⟩ := h
  rw [InPages, insertCount, toNat_pageIndex, toNat_pageIndex, hlast, toNat_pageStart]
  omega

theorem removed_iff (h : WholePages vstart size) (hfit : vstart.toNat + size.toNat < 2 ^ 32) :
    InPages (pageIndex vstart) (removeCount vstart size) p ↔
      vstart.toNat ≤ (pageStart p).toNat ∧ (pageStart p).toNat < vstart.toNat + size.toNat := by
  have hend : (vstart + size).toNat = vstart.toNat + size.toNat := by bv_omega
  obtain ⟨h1, h2⟩ := h
  rw [InPages, removeCount, toNat_pageIndex, toNat_pageIndex, hend, toNat_pageStart]
  omega

end WholePages

end

end Mikage
