import Mikage.Lib.Run
import Mikage.Memory.HookPages
import Mikage.Memory.PageTableProof

/-!
# The fast path of the interpreter

Hooks and the page table that subscribes to them. `Linked` ties the three structures together: the
pointers to host memory, the mapping of physical to virtual pages and the hook lists.

- `Linked.insert`, `Linked.remove`, `Linked.setHook`, `Linked.clearHook`: each call that is `Careful`
  keeps them linked, also where it throws.
- `fastPath_coherent`: in every run of such calls no pointer goes around a hook.

The other calls break it. `Insert` takes a pointer to a page that has hooks, or keeps one of the page
that was mapped before; `Remove` forgets the aliases of the pages it removes, or throws half way;
`ClearHook` throws between the two lists.
-/

namespace Mikage

open PageTable

variable {H : Type} {m m' : Hooks H} {t t' : PageTable} {p q : BitVec 20} {a : PAddr}

/-! ## Telling the page table -/

/-- Changing pointers only. -/
structure SameMaps (t t' : PageTable) : Prop where
  physical : t'.physicalAddresses = t.physicalAddresses
  virtual : t'.virtualAddressesFor = t.virtualAddressesFor

theorem setHostMemory_self (t : PageTable) (p : BitVec 20) (a : Option PAddr) :
    (t.setHostMemory p a).hostMemory p = a := Function.update_self ..

theorem setHostMemory_ne (t : PageTable) (a : Option PAddr) (h : q ≠ p) :
    (t.setHostMemory p a).hostMemory q = t.hostMemory q := Function.update_of_ne h ..

/-- Every page of the list gets the pointer. -/
theorem backPages_spec (a : PAddr) (l : List (BitVec 20)) (t : PageTable) :
    SameMaps t (backPages a (l.map pageStart) t) ∧ ∀ p,
      (backPages a (l.map pageStart) t).hostMemory p = if p ∈ l then some a else t.hostMemory p := by
  induction l generalizing t with
  | nil => exact ⟨⟨rfl, rfl⟩, fun _ => rfl⟩
  | cons q l ih =>
    obtain ⟨hsame, hhost⟩ := ih (t.setHostMemory q (some a))
    rw [List.map_cons, backPages, pageIndex_pageStart]
    refine ⟨⟨hsame.physical, hsame.virtual⟩, fun p => ?_⟩
    rw [hhost]
    by_cases hp : p = q
    · subst hp
      simp [setHostMemory_self]
    · simp [setHostMemory_ne t _ hp, hp]

/-- Pages with a pointer, and behind them pages without one. -/
def PointersFirst (t : PageTable) (l : List (BitVec 20)) : Prop :=
  ∃ l₁ l₂, l = l₁ ++ l₂ ∧ (∀ p ∈ l₁, t.hostMemory p ≠ none) ∧ ∀ p ∈ l₂, t.hostMemory p = none

/-- Every page of the list loses its pointer, also where the loop throws: it does so at the first
page without one. -/
theorem unbackPages_spec {l : List (BitVec 20)} (hnodup : l.Nodup) (h : PointersFirst t l) :
    SameMaps t (unbackPages (l.map pageStart) t).2 ∧ ∀ p,
      (unbackPages (l.map pageStart) t).2.hostMemory p = if p ∈ l then none else t.hostMemory p := by
  obtain ⟨l₁, l₂, rfl, h₁, h₂⟩ := h
  induction l₁ generalizing t with
  | nil =>
    have hnone : ∀ p, (if p ∈ l₂ then none else t.hostMemory p) = t.hostMemory p := by
      intro p
      split
      next hp => exact (h₂ p hp).symm
      next => rfl
    cases l₂ with
    | nil => exact ⟨⟨rfl, rfl⟩, fun p => (hnone p).symm⟩
    | cons q l =>
      rw [List.nil_append, List.map_cons, unbackPages, pageIndex_pageStart,
        if_pos (h₂ q (.head _))]
      exact ⟨⟨rfl, rfl⟩, fun p => (hnone p).symm⟩
  | cons q l₁ ih =>
    obtain ⟨hq, hnodup⟩ := List.nodup_cons.1 hnodup
    have hother : ∀ p ∈ l₁ ++ l₂, (t.setHostMemory q none).hostMemory p = t.hostMemory p := by
      refine fun p hp => setHostMemory_ne t _ ?_
      rintro rfl
      exact hq hp
    obtain ⟨hsame, hhost⟩ := ih (t := t.setHostMemory q none) hnodup
      (fun p hp => by
        rw [hother p (List.mem_append_left _ hp)]
        exact h₁ p (.tail _ hp))
      fun p hp => by
        rw [hother p (List.mem_append_right _ hp)]
        exact h₂ p hp
    rw [List.cons_append, List.map_cons, unbackPages, pageIndex_pageStart,
      if_neg (h₁ q (.head _))]
    refine ⟨⟨hsame.physical, hsame.virtual⟩, fun p => ?_⟩
    rw [hhost]
    by_cases hp : p = q
    · subst hp
      simp [setHostMemory_self]
    · simp [setHostMemory_ne t _ hp, hp]

/-! ## The invariant -/

/-- The page is mapped to this physical page. -/
def MappedTo (t : PageTable) (p q : BitVec 20) : Prop :=
  t.physicalAddresses p ≠ unmappedAddress ∧ pageIndex (t.physicalAddresses p) = q

/-- The physical page has a hook. -/
def Hooked (m : Hooks H) (q : BitVec 20) : Prop := m.hasAnyHooks (pageStart q)

/-- The virtual pages of a physical page, without hooks: only memory that is no host memory has pages
without a pointer. -/
structure Backed (t : PageTable) (q : BitVec 20) (l : List (BitVec 20)) : Prop where
  first : PointersFirst t l
  all : lookupMemoryBackedPage (pageStart q) ≠ none → ∀ p ∈ l, t.hostMemory p ≠ none

/-- New pages without a pointer come behind those with one. -/
theorem Backed.append {l new : List (BitVec 20)} (h : Backed t q l)
    (hold : ∀ p ∈ l, t'.hostMemory p = t.hostMemory p)
    (hnew : ∀ p ∈ new, t'.hostMemory p = lookupMemoryBackedPage (pageStart q)) :
    Backed t' q (l ++ new) := by
  obtain ⟨⟨l₁, l₂, rfl, h₁, h₂⟩, hall⟩ := h
  have hall' : lookupMemoryBackedPage (pageStart q) ≠ none →
      ∀ p ∈ l₁ ++ l₂ ++ new, t'.hostMemory p ≠ none := by
    intro hmem p hp
    rcases List.mem_append.1 hp with hp | hp
    · rw [hold p hp]
      exact hall hmem p hp
    · rwa [hnew p hp]
  refine ⟨?_, hall'⟩
  by_cases hmem : lookupMemoryBackedPage (pageStart q) = none
  · refine ⟨l₁, l₂ ++ new, List.append_assoc .., fun p hp => ?_, fun p hp => ?_⟩
    · rw [hold p (List.mem_append_left _ hp)]
      exact h₁ p hp
    · rcases List.mem_append.1 hp with hp | hp
      · rw [hold p (List.mem_append_right _ hp)]
        exact h₂ p hp
      · rw [hnew p hp, hmem]
  · exact ⟨_, [], (List.append_nil _).symm, hall' hmem, nofun⟩

structure Linked (m : Hooks H) (t : PageTable) : Prop where
  points : ∀ p a, t.hostMemory p = some a → t.physicalAddresses p = a ∧ a ≠ unmappedAddress
  aligned : ∀ p, t.physicalAddresses p ≠ unmappedAddress →
    (t.physicalAddresses p).toNat % 0x1000 = 0
  reverse : ∀ q, ∃ l : List (BitVec 20), t.virtualAddressesFor q = l.map pageStart ∧ l.Nodup ∧
    (∀ p, p ∈ l ↔ MappedTo t p q) ∧
    ((Hooked m q ∧ ∀ p ∈ l, t.hostMemory p = none) ∨ (¬ Hooked m q ∧ Backed t q l))

/-- A pointer to host memory is one to the page that the virtual page is mapped to, and no access to
that page has to be hooked. -/
def HostCoherent (m : Hooks H) (t : PageTable) : Prop :=
  ∀ p a, t.hostMemory p = some a →
    t.physicalAddresses p = a ∧ a ≠ unmappedAddress ∧ pageStart (pageIndex a) = a ∧
      m.hasAnyHooks a = false

theorem lookupMemoryBackedPage_eq {b : PAddr} (h : lookupMemoryBackedPage a = some b) : a = b := by
  rw [lookupMemoryBackedPage] at h
  split at h
  · split at h
    · exact Option.some_inj.1 h
    · cases h
  · cases h

theorem pageStart_of_aligned (h : a.toNat % 0x1000 = 0) : pageStart (pageIndex a) = a := by
  refine BitVec.eq_of_toNat_eq ?_
  rw [toNat_pageStart, toNat_pageIndex]
  omega

namespace Linked

theorem coherent (h : Linked m t) : HostCoherent m t := by
  intro p a hp
  obtain ⟨hphys, hne⟩ := h.points p a hp
  have halign : pageStart (pageIndex a) = a := by
    rw [← hphys]
    exact pageStart_of_aligned (h.aligned p (by rwa [hphys]))
  refine ⟨hphys, hne, halign, ?_⟩
  obtain ⟨l, -, -, hl, hcases⟩ := h.reverse (pageIndex a)
  rcases hcases with ⟨-, hnone⟩ | ⟨hfree, -⟩
  · have hin := (hl p).2 ⟨by rwa [hphys], by rw [hphys]⟩
    rw [hnone p hin] at hp
    cases hp
  · rw [Hooked, halign] at hfree
    simpa using hfree

theorem create : Linked (fun _ _ => [] : Hooks H) .create where
  points p a h := by cases h
  aligned p h := absurd rfl h
  reverse q := by
    have hnone : ∀ {P : BitVec 20 → Prop}, ∀ p ∈ [], P p := fun p hp => absurd hp List.not_mem_nil
    refine ⟨[], rfl, .nil, fun p => ?_, .inr ⟨by simp [Hooked, Hooks.hasAnyHooks], ?_, fun _ => hnone⟩⟩
    · exact ⟨fun hp => absurd hp List.not_mem_nil, fun h => absurd rfl h.1⟩
    · exact ⟨[], [], rfl, hnone, hnone⟩

/-! ## Hooks -/

theorem congr (h : Linked m t) (hhooks : ∀ q, Hooked m' q ↔ Hooked m q) : Linked m' t where
  points := h.points
  aligned := h.aligned
  reverse q := by
    obtain ⟨l, hl, hnodup, hmem, hcases⟩ := h.reverse q
    exact ⟨l, hl, hnodup, hmem, by rwa [hhooks]⟩

/-- The pointers of the pages of one physical page change, as do its hooks. -/
theorem rehost {l : List (BitVec 20)} (h : Linked m t) (hsame : SameMaps t t')
    (hmem : ∀ p, p ∈ l ↔ MappedTo t p q) (hother : ∀ p, p ∉ l → t'.hostMemory p = t.hostMemory p)
    (hpoints : ∀ p ∈ l, ∀ a, t'.hostMemory p = some a → t.physicalAddresses p = a)
    (hhooks : ∀ q', q' ≠ q → (Hooked m' q' ↔ Hooked m q'))
    (hq : ∀ l', t.virtualAddressesFor q = l'.map pageStart → l'.Nodup →
      (∀ p, p ∈ l' ↔ MappedTo t p q) →
      (Hooked m' q ∧ ∀ p ∈ l', t'.hostMemory p = none) ∨ (¬ Hooked m' q ∧ Backed t' q l')) :
    Linked m' t' := by
  have hmapped : ∀ p q', MappedTo t' p q' ↔ MappedTo t p q' := fun p q' => by
    rw [MappedTo, MappedTo, hsame.physical]
  refine ⟨fun p a hp => ?_, fun p hp => ?_, fun q' => ?_⟩
  · rw [hsame.physical]
    by_cases hin : p ∈ l
    · have hphys := hpoints p hin a hp
      exact ⟨hphys, hphys ▸ ((hmem p).1 hin).1⟩
    · rw [hother p hin] at hp
      exact h.points p a hp
  · rw [hsame.physical] at hp ⊢
    exact h.aligned p hp
  · obtain ⟨l', hl', hnodup, hmem', hcases⟩ := h.reverse q'
    refine ⟨l', by rw [hsame.virtual, hl'], hnodup, fun p => by rw [hmem', hmapped], ?_⟩
    by_cases hqq : q' = q
    · subst hqq
      exact hq l' hl' hnodup hmem'
    · -- the pages of another physical page are none of the list
      have hout : ∀ p ∈ l', t'.hostMemory p = t.hostMemory p := fun p hp =>
        hother p fun hin => hqq (((hmem' p).1 hp).2.symm.trans ((hmem p).1 hin).2)
      rw [hhooks q' hqq]
      refine hcases.imp (And.imp_right fun hnone p hp => ?_) (And.imp_right fun hb => ?_)
      · rw [hout p hp, hnone p hp]
      · obtain ⟨⟨l₁, l₂, rfl, h₁, h₂⟩, hall⟩ := hb
        refine ⟨⟨l₁, l₂, rfl, fun p hp => ?_, fun p hp => ?_⟩, fun hq p hp => ?_⟩
        · rw [hout p (List.mem_append_left _ hp)]
          exact h₁ p hp
        · rw [hout p (List.mem_append_right _ hp)]
          exact h₂ p hp
        · rw [hout p hp]
          exact hall hq p hp

/-- The page table is told that a page has a hook now. -/
theorem unback (h : Linked m t) (hbefore : ¬ Hooked m q) (hafter : Hooked m' q)
    (hhooks : ∀ q', q' ≠ q → (Hooked m' q' ↔ Hooked m q')) :
    Linked m' (unbackPages (t.virtualAddressesFor q) t).2 := by
  obtain ⟨l, hl, hnodup, hmem, hcases⟩ := h.reverse q
  have hbacked := (hcases.resolve_left fun h => hbefore h.1).2
  obtain ⟨hsame, hhost⟩ := unbackPages_spec hnodup hbacked.first
  rw [hl]
  refine h.rehost hsame hmem (fun p hp => by rw [hhost, if_neg hp]) (fun p hp a ha => ?_) hhooks
    fun l' _ _ hmem' => .inl ⟨hafter, fun p hp => ?_⟩
  · rw [hhost, if_pos hp] at ha
    cases ha
  · rw [hhost, if_pos ((hmem p).2 ((hmem' p).1 hp))]

/-- The page table is told that a page has no hook any more. -/
theorem back (h : Linked m t) (hafter : ¬ Hooked m' q)
    (hhooks : ∀ q', q' ≠ q → (Hooked m' q' ↔ Hooked m q')) :
    Linked m' (backPages (pageStart q) (t.virtualAddressesFor q) t) := by
  obtain ⟨l, hl, hnodup, hmem, -⟩ := h.reverse q
  obtain ⟨hsame, hhost⟩ := backPages_spec (pageStart q) l t
  rw [hl]
  refine h.rehost hsame hmem (fun p hp => by rw [hhost, if_neg hp]) (fun p hp a ha => ?_) hhooks
    fun l' _ _ hmem' => .inr ⟨hafter, ?_⟩
  · rw [hhost, if_pos hp, Option.some_inj] at ha
    obtain ⟨hne, hindex⟩ := (hmem p).1 hp
    rw [← ha, ← hindex, pageStart_of_aligned (h.aligned p hne)]
  · have hsome : ∀ p ∈ l', (backPages (pageStart q) (l.map pageStart) t).hostMemory p ≠ none := by
      intro p hp
      rw [hhost, if_pos ((hmem p).2 ((hmem' p).1 hp))]
      exact Option.some_ne_none _
    exact ⟨⟨l', [], (List.append_nil _).symm, hsome, nofun⟩, fun _ => hsome⟩

variable {bus : Bus} {kind : Access} {kinds : HookKind} {start : PAddr} {numBytes : BitVec 32}
  {handler : H} {i : BitVec 32} {s : Hooks H × PageTable}

theorem hooked_of_ne {page : PAddr} (h : ∀ k p, p ≠ page → m' k p = m k p)
    (hq : q ≠ pageIndex page) : Hooked m' q ↔ Hooked m q := by
  rw [Hooked, Hooked, hasAnyHooks_congr fun k => h k _ ?_]
  rintro rfl
  exact hq (pageIndex_pageStart q).symm

theorem insertHook_ne_nil {l l' : List (Hook H)}
    (h : insertHook bus i start numBytes handler l = .ok l') : l' ≠ [] := by
  rw [insertHook] at h
  split at h
  · cases h
  · split at h
    · cases h
    · split at h <;> cases h <;> simp

/-- A hook is set on one page, also where the page table throws. -/
theorem setPage (kind : Access) (start : PAddr) (numBytes : BitVec 32) (handler : H)
    (h : Linked s.1 s.2) (hpage : (bus.pageAddr i).toNat % 0x1000 = 0) :
    Linked (setHookPage subscriber bus kind start numBytes handler i s).2.1
      (setHookPage subscriber bus kind start numBytes handler i s).2.2 := by
  obtain ⟨m, t⟩ := s
  have halign := pageStart_of_aligned hpage
  cases hins : insertHook bus i start numBytes handler (m kind (bus.pageAddr i)) with
  | error e =>
    rw [setHookPage_error hins]
    exact h
  | ok l' =>
    have hother : ∀ k p, p ≠ bus.pageAddr i → (m.set kind (bus.pageAddr i) l') k p = m k p :=
      fun k p hp => if_neg fun heq => hp heq.2
    have hafter : Hooked (m.set kind (bus.pageAddr i) l') (pageIndex (bus.pageAddr i)) := by
      rw [Hooked, halign, hasAnyHooks_iff]
      exact ⟨kind, by rw [Hooks.set, if_pos ⟨rfl, rfl⟩]; exact insertHook_ne_nil hins⟩
    rw [setHookPage_eq hins]
    split
    next hany =>
      refine h.congr fun q => ?_
      by_cases hq : q = pageIndex (bus.pageAddr i)
      · subst hq
        exact iff_of_true hafter (by rwa [Hooked, halign])
      · exact hooked_of_ne hother hq
    next hany =>
      exact h.unback (by rwa [Hooked, halign]) hafter fun q' hq' => hooked_of_ne hother hq'

/-- A hook is cleared from one page, unless it is found in the first list only. -/
theorem clearPage (start : PAddr) (numBytes : BitVec 32) (h : Linked s.1 s.2)
    (hpage : (bus.pageAddr i).toNat % 0x1000 = 0)
    (hboth : s.1 kinds.first (bus.pageAddr i) ≠ [] →
      ∀ k, kinds.has k → s.1 k (bus.pageAddr i) ≠ []) :
    Linked (clearHookPage subscriber bus kinds start numBytes i s).2.1
      (clearHookPage subscriber bus kinds start numBytes i s).2.2 := by
  obtain ⟨m, t⟩ := s
  have halign := pageStart_of_aligned hpage
  by_cases hfirst : m kinds.first (bus.pageAddr i) = []
  · obtain ⟨e, he⟩ : ∃ e, clearHookPage subscriber bus kinds start numBytes i (m, t) =
      (.error e, m, t) := clearHookPage_error hfirst
    rw [he]
    exact h
  have hother : ∀ k p, p ≠ bus.pageAddr i →
      cleared kinds start numBytes [bus.pageAddr i] m k p = m k p :=
    fun k p hp => if_neg fun heq => hp (List.mem_singleton.1 heq.2)
  rw [clearHookPage_eq (hboth hfirst)]
  split
  next hany =>
    refine h.congr fun q => ?_
    by_cases hq : q = pageIndex (bus.pageAddr i)
    · subst hq
      refine iff_of_true (by rwa [Hooked, halign]) ?_
      rw [Hooked, halign, hasAnyHooks_iff]
      exact ⟨_, hfirst⟩
    · exact hooked_of_ne hother hq
  next hany =>
    have hback : Linked (cleared kinds start numBytes [bus.pageAddr i] m) _ :=
      h.back (q := pageIndex (bus.pageAddr i)) (by rwa [Hooked, halign])
        fun q' hq' => hooked_of_ne hother hq'
    rw [halign] at hback
    exact hback

theorem setPages {k : Nat} (h : Linked s.1 s.2)
    (hpages : ∀ p ∈ pagesFrom bus i k, p.toNat % 0x1000 = 0) :
    Linked (Ended.forPages (setHookPage subscriber bus kind start numBytes handler) k i s).2.1
      (Ended.forPages (setHookPage subscriber bus kind start numBytes handler) k i s).2.2 := by
  induction k generalizing i s with
  | zero => exact h
  | succ k ih =>
    have hfirst := setPage kind start numBytes handler h (hpages _ (.head _))
    rw [Ended.forPages, Ended.andThen]
    split
    · exact ih hfirst fun p hp => hpages p (.tail _ hp)
    · exact hfirst

/-- `SetHook` on any range in one bus. -/
theorem setHook (h : Linked s.1 s.2) (hbus : bus.Holds start numBytes) :
    Linked (Mikage.setHook subscriber kind start numBytes handler s).2.1
      (Mikage.setHook subscriber kind start numBytes handler s).2.2 := by
  rcases Nat.eq_zero_or_pos numBytes.toNat with hzero | hpos
  · have hlt : ¬ start < start + numBytes := fun hlt => by
      have hlt := (lt_add_iff hbus).1 hlt
      omega
    simp only [Mikage.setHook, hlt, not_false_eq_true, if_true]
    exact h
  · rw [setHook_eq hbus hpos]
    exact h.setPages fun p hp => (pagesOf_below hbus hp).1

/-- Every page with a hook in the list that is cleared first has one in the other too. -/
def InBoth (kinds : HookKind) (pages : List PAddr) (m : Hooks H) : Prop :=
  ∀ p ∈ pages, m kinds.first p ≠ [] → ∀ k, kinds.has k → m k p ≠ []

/-- Clearing a page leaves the lists of the others. -/
theorem clearHookPage_other (h : s.1 kinds.first (bus.pageAddr i) ≠ [] →
      ∀ k, kinds.has k → s.1 k (bus.pageAddr i) ≠ []) (k : Access) {p : PAddr}
    (hp : p ≠ bus.pageAddr i) :
    (clearHookPage subscriber bus kinds start numBytes i s).2.1 k p = s.1 k p := by
  obtain ⟨m, t⟩ := s
  have hother : cleared kinds start numBytes [bus.pageAddr i] m k p = m k p :=
    if_neg fun heq => hp (List.mem_singleton.1 heq.2)
  by_cases hfirst : m kinds.first (bus.pageAddr i) = []
  · obtain ⟨e, he⟩ : ∃ e, clearHookPage subscriber bus kinds start numBytes i (m, t) =
      (.error e, m, t) := clearHookPage_error hfirst
    rw [he]
  · rw [clearHookPage_eq (h hfirst)]
    split <;> exact hother

theorem clearPages {k : Nat} (h : Linked s.1 s.2)
    (hpages : ∀ p ∈ pagesFrom bus i k, p.toNat % 0x1000 = 0) (hnodup : (pagesFrom bus i k).Nodup)
    (hboth : InBoth kinds (pagesFrom bus i k) s.1) :
    Linked (Ended.forPages (clearHookPage subscriber bus kinds start numBytes) k i s).2.1
      (Ended.forPages (clearHookPage subscriber bus kinds start numBytes) k i s).2.2 := by
  induction k generalizing i s with
  | zero => exact h
  | succ k ih =>
    obtain ⟨hnotin, hnodup⟩ := List.nodup_cons.1 hnodup
    have hfirst := clearPage start numBytes h (hpages _ (.head _)) (hboth _ (.head _))
    rw [Ended.forPages, Ended.andThen]
    split
    · refine ih hfirst (fun p hp => hpages p (.tail _ hp)) hnodup fun p hp => ?_
      have hne : p ≠ bus.pageAddr i := fun heq => hnotin (heq ▸ hp)
      simp only [clearHookPage_other (hboth _ (.head _)) _ hne]
      exact hboth p (.tail _ hp)
    · exact hfirst

/-- `ClearHook` on any range in one bus, where it does not throw between the lists. -/
theorem clearHook (h : Linked s.1 s.2) (hbus : bus.Holds start numBytes)
    (hboth : InBoth kinds (pagesOf bus start numBytes) s.1) :
    Linked (Mikage.clearHook subscriber kinds start numBytes s).2.1
      (Mikage.clearHook subscriber kinds start numBytes s).2.2 := by
  simp only [Mikage.clearHook, hbus.found]
  exact h.clearPages (fun p hp => (pagesOf_below hbus hp).1) (pagesOf_nodup hbus) hboth

/-! ## Mappings -/

variable {vstart : VAddr} {pstart : PAddr} {size : BitVec 32}

/-- The pages an insertion maps. -/
abbrev Inserted (vstart : VAddr) (size : BitVec 32) (p : BitVec 20) : Prop :=
  InPages (pageIndex vstart) (insertCount vstart size) p

/-- `Insert` of unmapped pages, to pages of which no host memory has a hook. -/
theorem insert (h : Linked m t) (hs : size ≠ 0) (hfit : vstart.toNat + size.toNat ≤ 2 ^ 32)
    (halign : pstart.toNat % 0x1000 = 0)
    (hfree : ∀ p, Inserted vstart size p → t.physicalAddresses p = unmappedAddress)
    (hhooks : ∀ p, Inserted vstart size p →
      lookupMemoryBackedPage (insertedAt (pageIndex vstart) pstart p) ≠ none →
      ¬ Hooked m (pageIndex (insertedAt (pageIndex vstart) pstart p))) :
    Linked m (t.insert vstart pstart size) := by
  have hcount := insertCount_fits hs hfit
  have hphys : ∀ p, (t.insert vstart pstart size).physicalAddresses p =
      if Inserted vstart size p then insertedAt (pageIndex vstart) pstart p
      else t.physicalAddresses p := fun p => insertPages_physical hcount
  have hat : ∀ p, (insertedAt (pageIndex vstart) pstart p).toNat % 0x1000 = 0 := by
    intro p
    rw [insertedAt, BitVec.toNat_add, BitVec.toNat_sub, toNat_pageStart, toNat_pageStart]
    omega
  have hne : ∀ p, insertedAt (pageIndex vstart) pstart p ≠ unmappedAddress := by
    intro p heq
    have hp := hat p
    rw [heq] at hp
    exact absurd hp (by decide)
  have hnone : ∀ p, Inserted vstart size p → t.hostMemory p = none := by
    intro p hp
    cases hh : t.hostMemory p with
    | none => rfl
    | some a =>
      obtain ⟨heq, hne⟩ := h.points p a hh
      exact absurd (heq.symm.trans (hfree p hp)) hne
  have hhost : ∀ p, (t.insert vstart pstart size).hostMemory p =
      if Inserted vstart size p then
        lookupMemoryBackedPage (insertedAt (pageIndex vstart) pstart p)
      else t.hostMemory p := by
    intro p
    refine (insertPages_host hcount).trans ?_
    by_cases hp : Inserted vstart size p
    · rw [if_pos hp, if_pos hp, hnone p hp, Option.or_none]
    · rw [if_neg hp, if_neg hp]
  refine ⟨fun p a hp => ?_, fun p hp => ?_, fun q => ?_⟩
  · rw [hhost] at hp
    rw [hphys]
    split
    next hin =>
      rw [if_pos hin] at hp
      have heq := lookupMemoryBackedPage_eq hp
      exact ⟨heq, heq ▸ hne p⟩
    next hin =>
      rw [if_neg hin] at hp
      exact h.points p a hp
  · rw [hphys] at hp ⊢
    split
    · exact hat p
    next hin =>
      rw [if_neg hin] at hp
      exact h.aligned p hp
  · obtain ⟨l, hl, hnodup, hmem, hcases⟩ := h.reverse q
    obtain ⟨new, hnew, hnewnodup, hnewmem⟩ := @insertPages_virtual t _ _ pstart q hcount
    have hold : ∀ p ∈ l, ¬ Inserted vstart size p := fun p hp hin =>
      ((hmem p).1 hp).1 (hfree p hin)
    have hstart : ∀ p ∈ new, insertedAt (pageIndex vstart) pstart p = pageStart q := fun p hp => by
      rw [← ((hnewmem p).1 hp).2, pageStart_of_aligned (hat p)]
    have hnewhost : ∀ p ∈ new, (t.insert vstart pstart size).hostMemory p =
        lookupMemoryBackedPage (pageStart q) := fun p hp => by
      rw [hhost, if_pos ((hnewmem p).1 hp).1, hstart p hp]
    have holdhost : ∀ p ∈ l, (t.insert vstart pstart size).hostMemory p = t.hostMemory p :=
      fun p hp => by rw [hhost, if_neg (hold p hp)]
    refine ⟨l ++ new, ?_, ?_, fun p => ?_, hcases.imp (fun hfun => ⟨hfun.1, fun p hp => ?_⟩)
      (And.imp_right fun hb => hb.append holdhost hnewhost)⟩
    · rw [List.map_append, ← hl]
      exact hnew
    · refine List.nodup_append.2 ⟨hnodup, hnewnodup, fun p hp p' hp' heq => ?_⟩
      exact hold p hp ((hnewmem p).1 (heq ▸ hp')).1
    · rw [List.mem_append, MappedTo, hphys, hnewmem]
      by_cases hin : Inserted vstart size p
      · rw [if_pos hin, or_iff_right fun hp => hold p hp hin]
        exact and_congr_left fun _ => iff_of_true hin (hne p)
      · rw [if_neg hin, or_iff_left fun hp => hin hp.1]
        exact hmem p
    · rcases List.mem_append.1 hp with hp | hp
      · rw [holdhost p hp, hfun.2 p hp]
      · -- no page of host memory with a hook is mapped
        rw [hnewhost p hp]
        by_contra hsome
        refine hhooks p ((hnewmem p).1 hp).1 ?_ ?_
        · rwa [hstart p hp]
        · rw [((hnewmem p).1 hp).2]
          exact hfun.1

/-- The pages a removal takes out. -/
abbrev RemovedFrom (vstart : VAddr) (size : BitVec 32) (p : BitVec 20) : Prop :=
  InPages (pageIndex vstart) (removeCount vstart size) p

/-- `Remove` of mapped pages without aliases outside the range. -/
theorem remove (h : Linked m t)
    (hmapped : ∀ p, RemovedFrom vstart size p → t.physicalAddresses p ≠ unmappedAddress)
    (halias : ∀ p p', RemovedFrom vstart size p → t.physicalAddresses p' = t.physicalAddresses p →
      RemovedFrom vstart size p') :
    Linked m (t.remove vstart size).2 := by
  obtain ⟨t', heq, hphys, hhost, hgone, hkept⟩ := remove_eq hmapped
  rw [heq]
  have hout : ∀ p q, MappedTo t' p q ↔ ¬ RemovedFrom vstart size p ∧ MappedTo t p q := by
    intro p q
    rw [MappedTo, hphys]
    split
    next hin => exact ⟨fun h => absurd rfl h.1, fun h => absurd hin h.1⟩
    next hin => exact (and_iff_right hin).symm
  refine ⟨fun p a hp => ?_, fun p hp => ?_, fun q => ?_⟩
  · rw [hhost] at hp
    split at hp
    · cases hp
    next hin =>
      rw [hphys, if_neg hin]
      exact h.points p a hp
  · rw [hphys] at hp ⊢
    split at hp
    · exact absurd rfl hp
    next hin =>
      rw [if_neg hin]
      exact h.aligned p hp
  · obtain ⟨l, hl, hnodup, hmem, hcases⟩ := h.reverse q
    by_cases hex : ∃ p, RemovedFrom vstart size p ∧ pageIndex (t.physicalAddresses p) = q
    · have hnone : ∀ p, ¬ MappedTo t' p q := by
        intro p hp
        obtain ⟨hin, hne, hindex⟩ := (hout p q).1 hp
        obtain ⟨p', hin', hindex'⟩ := hex
        refine hin (halias p' p hin' ?_)
        rw [← pageStart_of_aligned (h.aligned p hne), hindex, ← hindex',
          pageStart_of_aligned (h.aligned p' (hmapped p' hin'))]
      refine ⟨[], hgone q hex, .nil, fun p => iff_of_false List.not_mem_nil (hnone p), ?_⟩
      exact hcases.imp (fun h => ⟨h.1, nofun⟩)
        fun h => ⟨h.1, ⟨[], [], rfl, nofun, nofun⟩, fun _ => nofun⟩
    · have hstay : ∀ p ∈ l, ¬ RemovedFrom vstart size p := fun p hp hin =>
        hex ⟨p, hin, ((hmem p).1 hp).2⟩
      have hsame : ∀ p ∈ l, t'.hostMemory p = t.hostMemory p := fun p hp => by
        rw [hhost, if_neg (hstay p hp)]
      refine ⟨l, (hkept q hex).trans hl, hnodup, fun p => ?_,
        hcases.imp (And.imp_right fun hnone p hp => by rw [hsame p hp, hnone p hp])
          (And.imp_right fun hb => ?_)⟩
      · rw [hout, hmem]
        exact ⟨fun hp => ⟨hstay p ((hmem p).2 hp), hp⟩, And.right⟩
      · have happ : Backed _ _ (l ++ []) := hb.append hsame nofun
        rwa [List.append_nil] at happ

end Linked

/-! ## Runs -/

/-- A call that changes the page table or the hooks. -/
inductive MemoryCall (H : Type) where
  | insert (vstart : VAddr) (pstart : PAddr) (size : BitVec 32)
  | remove (vstart : VAddr) (size : BitVec 32)
  | setHook (kind : Access) (start : PAddr) (numBytes : BitVec 32) (handler : H)
  | clearHook (kind : HookKind) (start : PAddr) (numBytes : BitVec 32)

namespace MemoryCall

def run (s : Hooks H × PageTable) : MemoryCall H → Ended (Hooks H × PageTable)
  | insert vstart pstart size => (.ok (), s.1, s.2.insert vstart pstart size)
  | remove vstart size => ((s.2.remove vstart size).1, s.1, (s.2.remove vstart size).2)
  | setHook kind start numBytes handler =>
    Mikage.setHook subscriber kind start numBytes handler s
  | clearHook kind start numBytes => Mikage.clearHook subscriber kind start numBytes s

/-- The ranges that the functions are made for. -/
def InBounds : MemoryCall H → Prop
  | insert vstart _ size => size ≠ 0 ∧ vstart.toNat + size.toNat ≤ 2 ^ 32
  | remove vstart size => vstart.toNat + size.toNat < 2 ^ 32
  | setHook _ start numBytes _ | clearHook _ start numBytes =>
    ∃ bus : Bus, bus.Holds start numBytes

/-- `Insert` maps unmapped pages, to whole pages of which no host memory has a hook. `Remove` takes
out mapped pages without an alias that stays. `ClearHook` does not throw between the lists. -/
def Careful (s : Hooks H × PageTable) : MemoryCall H → Prop
  | insert vstart pstart size =>
    size ≠ 0 ∧ vstart.toNat + size.toNat ≤ 2 ^ 32 ∧ pstart.toNat % 0x1000 = 0 ∧
      (∀ p, Linked.Inserted vstart size p → s.2.physicalAddresses p = unmappedAddress) ∧
      ∀ p, Linked.Inserted vstart size p →
        lookupMemoryBackedPage (insertedAt (pageIndex vstart) pstart p) ≠ none →
        ¬ Hooked s.1 (pageIndex (insertedAt (pageIndex vstart) pstart p))
  | remove vstart size =>
    vstart.toNat + size.toNat < 2 ^ 32 ∧
      (∀ p, Linked.RemovedFrom vstart size p → s.2.physicalAddresses p ≠ unmappedAddress) ∧
      ∀ p p', Linked.RemovedFrom vstart size p →
        s.2.physicalAddresses p' = s.2.physicalAddresses p → Linked.RemovedFrom vstart size p'
  | setHook _ start numBytes _ => ∃ bus : Bus, bus.Holds start numBytes
  | clearHook kind start numBytes => ∃ bus : Bus, bus.Holds start numBytes ∧
      Linked.InBoth kind (pagesOf bus start numBytes) s.1

/-- One call, also where it throws. -/
theorem run_linked {c : MemoryCall H} {s : Hooks H × PageTable} (h : Linked s.1 s.2)
    (hc : c.Careful s) : Linked (c.run s).2.1 (c.run s).2.2 := by
  cases c with
  | insert vstart pstart size =>
    obtain ⟨hs, hfit, halign, hfree, hhooks⟩ := hc
    exact h.insert hs hfit halign hfree hhooks
  | remove vstart size => exact h.remove hc.2.1 hc.2.2
  | setHook kind start numBytes handler =>
    obtain ⟨bus, hbus⟩ := hc
    exact h.setHook hbus
  | clearHook kind start numBytes =>
    obtain ⟨bus, hbus, hboth⟩ := hc
    exact h.clearHook hbus hboth

end MemoryCall

/-- The states behind any order of calls that are `allowed`, whether or not a call throws. -/
abbrev MemoryRun (allowed : Hooks H × PageTable → MemoryCall H → Prop) :
    Hooks H × PageTable → Prop :=
  Run.Reachable (· = (fun _ _ => [], .create)) fun s s' => ∃ c, allowed s c ∧ s' = (c.run s).2

/-- **No pointer goes around a hook** in a run of these calls. -/
theorem fastPath_coherent (s : Hooks H × PageTable) (h : MemoryRun (fun s c => c.Careful s) s) :
    HostCoherent s.1 s.2 := by
  refine Linked.coherent (Run.Reachable.invariant (I := fun s => Linked s.1 s.2) ?_ ?_ h)
  · rintro _ rfl
    exact .create
  · rintro s _ hlinked ⟨c, hc, rfl⟩
    exact c.run_linked hlinked hc

section

/-- A page of FCRAM is mapped. -/
def mapFcram : MemoryCall Nat := .insert 0x8000000 0x20000000 0x1000

def hookFcram : MemoryCall Nat := .setHook .write 0x20000100 0x100 7

theorem fastPath_coherent_hooked :
    HostCoherent (hookFcram.run (mapFcram.run (fun _ _ => [], .create)).2).2.1
      (hookFcram.run (mapFcram.run (fun _ _ => [], .create)).2).2.2 := by
  have hmap : mapFcram.Careful (fun _ _ => [], .create) := by
    refine ⟨by decide, by decide, by decide, fun _ _ => rfl, fun _ _ _ => ?_⟩
    simp [Hooked, Hooks.hasAnyHooks]
  exact fastPath_coherent _
    (.next (.next (.start rfl) ⟨mapFcram, hmap, rfl⟩) ⟨hookFcram, ⟨.fcram, by decide, by decide⟩, rfl⟩)

/-- Mapping a page that has a hook: the pointer goes around it. -/
theorem insert_hooked_breaks : ¬ ∀ s : Hooks Nat × PageTable,
    MemoryRun (fun _ c => c.InBounds) s → HostCoherent s.1 s.2 := by
  intro h
  have hcoherent := h _ (.next (.next (.start rfl)
    ⟨hookFcram, ⟨.fcram, by decide, by decide⟩, rfl⟩) ⟨mapFcram, ⟨by decide, by decide⟩, rfl⟩)
  have hhooked := (hcoherent (pageIndex 0x8000000) 0x20000000 (by decide)).2.2.2
  exact absurd hhooked (by decide)

end

end Mikage
