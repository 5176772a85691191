import Mikage.Memory.HookLists

/-!
# The pages of a hook

The pages that `SetHook` and `ClearHook` go through, and what they do on one page, whatever the
subscribers do.

- `pagesOf_complete`, `pagesOf_nodup`: each page of a range that lies in one bus is visited once.
- `setHookPage_eq`, `clearHookPage_eq`: one page, where nothing is in the way.
-/

namespace Mikage

open Block

variable {H S : Type}

/-! ## Pages -/

namespace Bus

theorem placed : ∀ b ∈ busses, b.start.toNat % 0x1000 = 0 ∧ b.size.toNat % 0x1000 = 0 ∧
    b.start.toNat + b.size.toNat ≤ 0x28000000 := by decide

/-- The range is in the bus that its start is in. -/
structure Holds (bus : Bus) (start : PAddr) (numBytes : BitVec 32) : Prop where
  found : find start = some bus
  fits : start.toNat + numBytes.toNat ≤ bus.start.toNat + bus.size.toNat

variable {bus : Bus} {start : PAddr} {numBytes : BitVec 32}

namespace Holds

theorem mem (h : bus.Holds start numBytes) : bus ∈ busses := List.mem_of_find?_eq_some h.found

theorem aligned (h : bus.Holds start numBytes) : bus.start.toNat % 0x1000 = 0 :=
  (placed bus h.mem).1

theorem bound (h : bus.Holds start numBytes) : bus.start.toNat + bus.size.toNat ≤ 0x28000000 :=
  (placed bus h.mem).2.2

theorem start_le (h : bus.Holds start numBytes) : bus.start.toNat ≤ start.toNat := by
  have hin := List.find?_some h.found
  simp only [isInside, decide_eq_true_eq] at hin
  exact hin.1

theorem range (h : bus.Holds start numBytes) : start.toNat + numBytes.toNat < 2 ^ 32 := by
  have hfits := h.fits
  have hbound := h.bound
  omega

/-- The offset of the range in its bus. -/
theorem offset (h : bus.Holds start numBytes) :
    (start - bus.start).toNat = start.toNat - bus.start.toNat :=
  BitVec.toNat_sub_of_le h.start_le

theorem firstPage (h : bus.Holds start numBytes) :
    (firstPage bus start).toNat = (start.toNat - bus.start.toNat) / 0x1000 := by
  rw [Mikage.firstPage, BitVec.toNat_ushiftRight, h.offset, Nat.shiftRight_eq_div_pow]

theorem numPages (h : bus.Holds start numBytes) : numPages bus start numBytes =
    (start.toNat - bus.start.toNat + 0xfff + numBytes.toNat) / 0x1000 -
      (start.toNat - bus.start.toNat) / 0x1000 := by
  have hend : (start - bus.start + 0x1000 + numBytes - 1).toNat =
      start.toNat - bus.start.toNat + 0xfff + numBytes.toNat := by
    have hoffset := h.offset
    have hbound := h.bound
    have hfits := h.fits
    have hle := h.start_le
    bv_omega
  rw [Mikage.numPages, h.firstPage, endPage, BitVec.toNat_ushiftRight, hend,
    Nat.shiftRight_eq_div_pow]

theorem pageAddr (h : bus.Holds start numBytes) {i : Nat}
    (hi : i < Mikage.numPages bus start numBytes) :
    (bus.pageAddr (Mikage.firstPage bus start + BitVec.ofNat 32 i)).toNat =
      (start.toNat / 0x1000 + i) * 0x1000 := by
  have hfirst := h.firstPage
  have hbound := h.bound
  have hfits := h.fits
  have hle := h.start_le
  have haligned := h.aligned
  rw [h.numPages] at hi
  have hpage : (Mikage.firstPage bus start + BitVec.ofNat 32 i).toNat =
      (start.toNat - bus.start.toNat) / 0x1000 + i := by
    rw [BitVec.toNat_add, hfirst, BitVec.toNat_ofNat]
    omega
  rw [Bus.pageAddr, BitVec.toNat_add, BitVec.toNat_shiftLeft, hpage, Nat.shiftLeft_eq]
  omega

end Holds

end Bus

/-- The page of the byte. -/
def OnPage (page : PAddr) (x : Nat) : Prop := page.toNat = x / 0x1000 * 0x1000

def Spans (start : PAddr) (numBytes : BitVec 32) (x : Nat) : Prop :=
  start.toNat ≤ x ∧ x < start.toNat + numBytes.toNat

instance (start : PAddr) (numBytes : BitVec 32) (x : Nat) : Decidable (Spans start numBytes x) :=
  inferInstanceAs (Decidable (_ ∧ _))

/-- The pages a call goes through, by address. -/
def pagesFrom (bus : Bus) (page : BitVec 32) : Nat → List PAddr
  | 0 => []
  | k + 1 => bus.pageAddr page :: pagesFrom bus (page + 1) k

def pagesOf (bus : Bus) (start : PAddr) (numBytes : BitVec 32) : List PAddr :=
  pagesFrom bus (firstPage bus start) (numPages bus start numBytes)

theorem pagesFrom_eq (bus : Bus) (page : BitVec 32) (k : Nat) :
    pagesFrom bus page k =
      (List.range k).map fun i => bus.pageAddr (page + BitVec.ofNat 32 i) := by
  induction k generalizing page with
  | zero => rfl
  | succ k ih =>
    rw [pagesFrom, ih, List.range_succ_eq_map, List.map_cons, List.map_map]
    refine congrArg₂ List.cons ?_ ?_
    · rw [BitVec.add_zero]
    · refine List.map_congr_left fun i _ => ?_
      rw [Function.comp_apply, Nat.succ_eq_add_one, BitVec.ofNat_add, BitVec.add_comm _ 1#32,
        ← BitVec.add_assoc, BitVec.ofNat_eq_ofNat]

variable {bus : Bus} {start : PAddr} {numBytes : BitVec 32} {page : PAddr} {x : Nat}

theorem mem_pagesOf : page ∈ pagesOf bus start numBytes ↔ ∃ i < numPages bus start numBytes,
    bus.pageAddr (firstPage bus start + BitVec.ofNat 32 i) = page := by
  rw [pagesOf, pagesFrom_eq, List.mem_map]
  simp only [List.mem_range]

theorem pagesOf_below (h : bus.Holds start numBytes) (hp : page ∈ pagesOf bus start numBytes) :
    page.toNat % 0x1000 = 0 ∧ page.toNat + 0x1000 ≤ 0x28000000 := by
  obtain ⟨i, hi, rfl⟩ := mem_pagesOf.1 hp
  rw [h.pageAddr hi]
  rw [h.numPages] at hi
  have hbound := h.bound
  have hfits := h.fits
  have hle := h.start_le
  have haligned := h.aligned
  omega

/-- Every page of a byte of the range is one that the call goes through. -/
theorem pagesOf_complete (h : bus.Holds start numBytes) (hp : OnPage page x)
    (hx : Spans start numBytes x) : page ∈ pagesOf bus start numBytes := by
  obtain ⟨hlo, hhi⟩ := hx
  have hi : x / 0x1000 - start.toNat / 0x1000 < numPages bus start numBytes := by
    rw [h.numPages]
    have hle := h.start_le
    have haligned := h.aligned
    omega
  refine mem_pagesOf.2 ⟨_, hi, BitVec.eq_of_toNat_eq ?_⟩
  rw [h.pageAddr hi, hp]
  omega

theorem pagesOf_nodup (h : bus.Holds start numBytes) : (pagesOf bus start numBytes).Nodup := by
  rw [pagesOf, pagesFrom_eq]
  refine List.Nodup.map_on (fun i hi j hj heq => ?_) List.nodup_range
  have heq := congrArg BitVec.toNat heq
  rw [h.pageAddr (List.mem_range.1 hi), h.pageAddr (List.mem_range.1 hj)] at heq
  omega

theorem lt_add_iff (h : bus.Holds start numBytes) :
    start < start + numBytes ↔ 0 < numBytes.toNat := by
  rw [BitVec.lt_def, stop_range h.range]
  omega

theorem numPages_pos (h : bus.Holds start numBytes) (hpos : 0 < numBytes.toNat) :
    ∃ k, numPages bus start numBytes = k + 1 := by
  refine ⟨numPages bus start numBytes - 1, ?_⟩
  have hnum := h.numPages
  omega

theorem numPages_one (h : bus.Holds start numBytes) (hpos : 0 < numBytes.toNat)
    (hone : start.toNat % 0x1000 + numBytes.toNat ≤ 0x1000) : numPages bus start numBytes = 1 := by
  have hnum := h.numPages
  have hle := h.start_le
  have haligned := h.aligned
  omega

/-- The page that a range starts on. -/
theorem firstPage_addr (h : bus.Holds start numBytes) (hpos : 0 < numBytes.toNat) :
    (bus.pageAddr (firstPage bus start)).toNat = start.toNat / 0x1000 * 0x1000 ∧
      (bus.pageAddr (firstPage bus start)).toNat + 0x1000 ≤ 0x28000000 := by
  obtain ⟨k, hk⟩ := numPages_pos h hpos
  have haddr := h.pageAddr (i := 0) (by omega)
  have hmem : bus.pageAddr (firstPage bus start) ∈ pagesOf bus start numBytes := by
    rw [pagesOf, hk]
    exact .head _
  rw [BitVec.add_zero] at haddr
  exact ⟨haddr, (pagesOf_below h hmem).2⟩

theorem page_le (h : bus.Holds start numBytes) : firstPage bus start <<< 12 ≤ start := by
  have hfirst := h.firstPage
  rw [BitVec.le_def, BitVec.toNat_shiftLeft, hfirst, Nat.shiftLeft_eq]
  omega

theorem le_pageEnd (h : bus.Holds start numBytes) (hpos : 0 < numBytes.toNat)
    (hone : start.toNat % 0x1000 + numBytes.toNat ≤ 0x1000) :
    start + numBytes ≤ bus.start + (firstPage bus start + 1) * 0x1000 := by
  obtain ⟨haddr, hbelow⟩ := firstPage_addr h hpos
  have hend : bus.start + (firstPage bus start + 1) * 0x1000 =
      bus.pageAddr (firstPage bus start) + 0x1000 := by
    rw [Bus.pageAddr]
    bv_omega
  rw [BitVec.le_def, stop_range h.range, hend]
  bv_omega

/-! ## One page -/

variable {sub : Subscribers S} {m : Hooks H} {s : S} {kind k : Access} {handler : H}
  {l' : List (Hook H)} {kinds : HookKind} {i : BitVec 32}

theorem setHookPage_error {e : Exception}
    (h : insertHook bus i start numBytes handler (m kind (bus.pageAddr i)) = .error e) :
    setHookPage sub bus kind start numBytes handler i (m, s) = (.error e, m, s) := by
  simp only [setHookPage, h]

theorem setHookPage_eq
    (h : insertHook bus i start numBytes handler (m kind (bus.pageAddr i)) = .ok l') :
    setHookPage sub bus kind start numBytes handler i (m, s) =
      if m.hasAnyHooks (bus.pageAddr i) then (.ok (), m.set kind (bus.pageAddr i) l', s)
      else ((sub.onUnbackedByHostMemory (bus.pageAddr i) s).1, m.set kind (bus.pageAddr i) l',
        (sub.onUnbackedByHostMemory (bus.pageAddr i) s).2) := by
  simp only [setHookPage, h]

theorem setHook_eq {s : Hooks H × S} (h : bus.Holds start numBytes) (hpos : 0 < numBytes.toNat) :
    setHook sub kind start numBytes handler s =
      Ended.forPages (setHookPage sub bus kind start numBytes handler)
        (numPages bus start numBytes) (firstPage bus start) s := by
  have hlt := (lt_add_iff h).2 hpos
  simp only [setHook, hlt, not_true_eq_false, if_false, h.found]

/-- The list that a call looks at first. -/
def HookKind.first : HookKind → Access
  | .write => .write
  | _ => .read

/-- The lists once the range is cleared from these pages. -/
def cleared (kinds : HookKind) (start : PAddr) (numBytes : BitVec 32) (pages : List PAddr)
    (m : Hooks H) : Hooks H :=
  fun k p => if kinds.has k ∧ p ∈ pages then removeHooks start numBytes (m k p) else m k p

theorem has_first (kinds : HookKind) : kinds.has kinds.first := by cases kinds <;> rfl

theorem clearHookPage_error (h : m kinds.first (bus.pageAddr i) = []) :
    ∃ e, clearHookPage sub bus kinds start numBytes i (m, s) = (.error e, m, s) := by
  cases kinds <;> simp only [HookKind.first] at h <;>
    simp [clearHookPage, clearList, HookKind.has, Ended.andThen, h]

/-- The lists once the range is cleared from one list of a page. -/
theorem clearList_eq (start : PAddr) (numBytes : BitVec 32) (s : S)
    (h : kinds.has k → m k page ≠ []) :
    (if kinds.has k then clearList k start numBytes page (m, s) else (.ok (), m, s)) =
      (.ok (), fun k' p => if k' = k then cleared kinds start numBytes [page] m k' p else m k' p,
        s) := by
  by_cases hk : kinds.has k
  · rw [if_pos hk, clearList, if_neg (by simpa using h hk)]
    refine congrArg (fun m => (Except.ok (), m, s)) (funext₂ fun k' p => ?_)
    simp only [Hooks.set, cleared, List.mem_singleton]
    by_cases hk' : k' = k
    · subst hk'
      simp only [hk, true_and, if_true]
      split
      next hp => rw [hp]
      next => rfl
    · simp only [hk', false_and, if_false]
  · rw [if_neg hk]
    refine congrArg (fun m => (Except.ok (), m, s)) (funext₂ fun k' p => ?_)
    by_cases hk' : k' = k
    · rw [if_pos hk', cleared, if_neg (by rw [hk']; exact fun h => hk h.1)]
    · rw [if_neg hk']

theorem andThen_ok (s : S) (f : S → Ended S) : Ended.andThen (.ok (), s) f = f s := rfl

/-- One page whose lists are not empty. -/
theorem clearHookPage_eq (h : ∀ k, kinds.has k → m k (bus.pageAddr i) ≠ []) :
    clearHookPage sub bus kinds start numBytes i (m, s) =
      if (cleared kinds start numBytes [bus.pageAddr i] m).hasAnyHooks (bus.pageAddr i) then
        (.ok (), cleared kinds start numBytes [bus.pageAddr i] m, s)
      else ((sub.onBackedByHostMemory (bus.pageAddr i) s).1,
        cleared kinds start numBytes [bus.pageAddr i] m,
        (sub.onBackedByHostMemory (bus.pageAddr i) s).2) := by
  have hread := clearList_eq start numBytes s (h .read)
  have hwrite := clearList_eq start numBytes s (k := .write)
    (m := fun k' p => if k' = .read then cleared kinds start numBytes [bus.pageAddr i] m k' p
      else m k' p) (h .write)
  have hm : (fun k' p => if k' = .write then
      cleared kinds start numBytes [bus.pageAddr i] (fun k' p => if k' = .read then
        cleared kinds start numBytes [bus.pageAddr i] m k' p else m k' p) k' p else
      if k' = .read then cleared kinds start numBytes [bus.pageAddr i] m k' p else m k' p) =
      cleared kinds start numBytes [bus.pageAddr i] m := by
    funext k p
    cases k <;> rfl
  rw [clearHookPage]
  simp only [hread, andThen_ok, hwrite, hm]

/-- Whether the page has hooks only changes where a list does. -/
theorem hasAnyHooks_congr {m m' : Hooks H} (h : ∀ k, m' k page = m k page) :
    m'.hasAnyHooks page = m.hasAnyHooks page := by
  rw [Hooks.hasAnyHooks, Hooks.hasAnyHooks, h, h]

theorem hasAnyHooks_iff (m : Hooks H) : m.hasAnyHooks page ↔ ∃ kind, m kind page ≠ [] := by
  simp only [Hooks.hasAnyHooks, Bool.or_eq_true, Bool.not_eq_true', List.isEmpty_eq_false_iff]
  constructor
  · rintro (h | h)
    · exact ⟨_, h⟩
    · exact ⟨_, h⟩
  · rintro ⟨_ | _, h⟩
    · exact .inr h
    · exact .inl h

end Mikage
