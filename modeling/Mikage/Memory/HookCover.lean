import Mikage.Lib.Run
import Mikage.Memory.HookPages

/-!
# Which bytes the hooks cover

The hooks after any order of `SetHook` and `ClearHook`, beside the handler that the last call gave
each byte (`Cover`).

- `HookCall.step_covers`: one call that is `Allowed` keeps the hook lists exact.
- `HookCall.told_exact`: the subscribers are told of the pages that are covered, or no longer are.
- `hookCover_exact`: both, in every state of a run.

A `SetHook` across pages is not allowed: on every page behind the first the hook list gets an entry
that starts in the first one (`max(start, page << 12)` compares with a page of the bus). Neither is
one that touches a hook with another handler, which takes over the new bytes.
-/

namespace Mikage

open Block

variable {H : Type} {bus : Bus} {start : PAddr} {numBytes : BitVec 32} {page : PAddr}

/-! ## The hooks and what they cover -/

/-- The handler that the last call gave each byte. -/
abbrev Cover (H : Type) := Access → Nat → Option H

/-- The hook lists are sorted, disjoint and in their pages, and cover what they are to cover. -/
structure HooksCover (m : Hooks H) (cover : Cover H) : Prop where
  separated : ∀ kind page, Separated (hookBlocks (m kind page))
  within : ∀ kind page, ∀ h ∈ m kind page,
    page.toNat ≤ h.toBlock.start ∧ h.toBlock.stop ≤ page.toNat + 0x1000
  covers : ∀ kind page x a,
    Labels (hookBlocks (m kind page)) x a ↔ OnPage page x ∧ cover kind x = some a

/-- Some byte of the page is covered. -/
def Covered (cover : Cover H) (page : PAddr) : Prop :=
  ∃ kind x, OnPage page x ∧ cover kind x ≠ none

namespace HooksCover

variable {m : Hooks H} {cover : Cover H} {kind : Access}

theorem of_covers (hsep : ∀ kind page, Separated (hookBlocks (m kind page)))
    (hcovers : ∀ kind page x a,
      Labels (hookBlocks (m kind page)) x a ↔ OnPage page x ∧ cover kind x = some a) :
    HooksCover m cover := by
  refine ⟨hsep, fun kind page h hh => ?_, hcovers⟩
  have hmem := toBlock_mem_hookBlocks hh
  have hpos := (hsep kind page).nonempty _ hmem
  have hfirst : h.toBlock.Contains h.toBlock.start := contains_start hpos
  have hlast : h.toBlock.Contains (h.toBlock.stop - 1) := by
    unfold Block.Contains Block.stop
    omega
  have hon := ((hcovers kind page _ _).1 ⟨_, hmem, hfirst, rfl⟩).1
  have hon' := ((hcovers kind page _ _).1 ⟨_, hmem, hlast, rfl⟩).1
  unfold OnPage at hon hon'
  unfold Block.stop at *
  omega

theorem empty : HooksCover (fun _ _ => [] : Hooks H) fun _ _ => none :=
  of_covers (fun _ _ => .nil) fun _ _ _ _ => by simp [Labels, hookBlocks]

theorem below (h : HooksCover m cover) (hpage : page.toNat + 0x1000 ≤ 0x28000000) :
    Below (m kind page) := by
  intro hook hh
  have hwithin := (h.within kind page hook hh).2
  omega

theorem ne_nil_iff (h : HooksCover m cover) :
    m kind page ≠ [] ↔ ∃ x, OnPage page x ∧ cover kind x ≠ none := by
  constructor
  · intro hne
    obtain ⟨hook, hh⟩ := List.exists_mem_of_ne_nil _ hne
    have hmem := toBlock_mem_hookBlocks hh
    have hin := contains_start ((h.separated kind page).nonempty _ hmem)
    obtain ⟨hon, heq⟩ := (h.covers kind page _ _).1 ⟨_, hmem, hin, rfl⟩
    exact ⟨_, hon, by rw [heq]; nofun⟩
  · rintro ⟨x, hon, hne⟩ hnil
    obtain ⟨a, ha⟩ := Option.ne_none_iff_exists'.1 hne
    obtain ⟨b, hb, -⟩ := (h.covers kind page x a).2 ⟨hon, ha⟩
    rw [hnil] at hb
    cases hb

theorem covered_iff (h : HooksCover m cover) : Covered cover page ↔ m.hasAnyHooks page := by
  rw [hasAnyHooks_iff]
  exact exists_congr fun _ => h.ne_nil_iff.symm

end HooksCover

/-! ## Calls -/

inductive HookNotice where
  | unbacked (page : PAddr)
  | backed (page : PAddr)
  deriving DecidableEq, Repr

/-- A subscriber that remembers what it is told. -/
def recorder : Subscribers (List HookNotice) where
  onUnbackedByHostMemory page told := (.ok (), told ++ [.unbacked page])
  onBackedByHostMemory page told := (.ok (), told ++ [.backed page])

inductive HookCall (H : Type) where
  | set (kind : Access) (start : PAddr) (numBytes : BitVec 32) (handler : H)
  | clear (kind : HookKind) (start : PAddr) (numBytes : BitVec 32)
  deriving DecidableEq, Repr

namespace HookCall

def run (m : Hooks H) : HookCall H → Ended (Hooks H × List HookNotice)
  | set kind start numBytes handler => setHook recorder kind start numBytes handler (m, [])
  | clear kind start numBytes => clearHook recorder kind start numBytes (m, [])

def cover (cover : Cover H) : HookCall H → Cover H
  | set kind start numBytes handler =>
    fun k x => if k = kind ∧ Spans start numBytes x then some handler else cover k x
  | clear kind start numBytes =>
    fun k x => if kind.has k ∧ Spans start numBytes x then none else cover k x

/-- The hooks and the cover behind a call. A call that throws sets and clears nothing. -/
def step (c : HookCall H) (s : Hooks H × Cover H) : Hooks H × Cover H :=
  ((c.run s.1).2.1, match (c.run s.1).1 with
    | .ok _ => c.cover s.2
    | .error _ => s.2)

/-- A hook lies in one page and touches no hook with another handler; hooks are cleared from pages
that have some. Otherwise the call throws before it has changed anything. -/
def Allowed (m : Hooks H) : HookCall H → Prop
  | set kind start numBytes handler => ∃ bus : Bus, bus.Holds start numBytes ∧
      ((∃ h ∈ m kind (bus.pageAddr (firstPage bus start)), h.overlaps start numBytes) ∨
        start.toNat % 0x1000 + numBytes.toNat ≤ 0x1000 ∧
        ∀ h ∈ m kind (bus.pageAddr (firstPage bus start)),
          h.stop = start ∨ h.start = start + numBytes → h.handler = handler)
  | clear kind start numBytes => ∃ bus : Bus, bus.Holds start numBytes ∧
      ((∃ page ∈ (pagesOf bus start numBytes).head?, m kind.first page = []) ∨
        ∀ page ∈ pagesOf bus start numBytes, ∀ k, kind.has k → m k page ≠ [])

/-! ### What a call does -/

variable {m m' : Hooks H} {cov : Cover H} {kind : Access} {handler : H} {l' : List (Hook H)}

theorem setHookPage_told {i : BitVec 32}
    (h : insertHook bus i start numBytes handler (m kind (bus.pageAddr i)) = .ok l') :
    setHookPage recorder bus kind start numBytes handler i (m, []) =
      (.ok (), m.set kind (bus.pageAddr i) l',
        if m.hasAnyHooks (bus.pageAddr i) then [] else [.unbacked (bus.pageAddr i)]) := by
  rw [setHookPage_eq h]
  split <;> rfl

/-- What a `SetHook` does: nothing, or it adds the hook to the list of its page. -/
theorem set_cases (hcov : HooksCover m cov) (h : (set kind start numBytes handler).Allowed m) :
    (∃ e, (set kind start numBytes handler).run m = (.error e, m, [])) ∨
    ∃ page l', 0 < numBytes.toNat ∧
      (∀ x, Spans start numBytes x → OnPage page x ∧ cov kind x = none) ∧
      Added start numBytes handler (m kind page) l' ∧
      (set kind start numBytes handler).run m =
        (.ok (), m.set kind page l', if m.hasAnyHooks page then [] else [.unbacked page]) := by
  obtain ⟨bus, hbus, hcases⟩ := h
  rcases Nat.eq_zero_or_pos numBytes.toNat with hzero | hpos
  · have hlt : ¬ start < start + numBytes := fun hlt => by
      have hlt := (lt_add_iff hbus).1 hlt
      omega
    refine .inl ⟨.contractViolated "start < start + num_bytes", ?_⟩
    simp only [run, setHook, hlt, not_false_eq_true, if_true]
  obtain ⟨haddr, hbelow⟩ := firstPage_addr hbus hpos
  have hsep := hcov.separated kind (bus.pageAddr (firstPage bus start))
  have hlist : Below (m kind _) := hcov.below hbelow
  rw [run, setHook_eq hbus hpos]
  rcases hcases with ⟨hook, hmem, hover⟩ | ⟨hone, htouch⟩
  · obtain ⟨e, he⟩ : ∃ e, insertHook bus (firstPage bus start) start numBytes handler _ = .error e :=
      insertHook_refuses hsep hlist hmem hbus.range hover
    obtain ⟨k, hk⟩ := numPages_pos hbus hpos
    refine .inl ⟨e, ?_⟩
    rw [hk, Ended.forPages, setHookPage_error he]
    rfl
  rw [numPages_one hbus hpos hone, Ended.forPages]
  cases hins : insertHook bus (firstPage bus start) start numBytes handler
      (m kind (bus.pageAddr (firstPage bus start))) with
  | error e =>
    rw [setHookPage_error hins]
    exact .inl ⟨e, rfl⟩
  | ok l' =>
    have htouch' : ∀ h ∈ m kind (bus.pageAddr (firstPage bus start)),
        h.toBlock.stop = start.toNat ∨ h.start = start + numBytes → h.handler = handler := by
      refine fun hook hmem htouches => htouch hook hmem (htouches.imp_left fun hstop => ?_)
      exact BitVec.eq_of_toNat_eq ((Hook.stop_toNat (hlist hook hmem)).trans hstop)
    obtain ⟨hadd, hfree⟩ := insertHook_blocks hsep hlist hpos hbus.range (page_le hbus)
      (le_pageEnd hbus hpos hone) htouch' hins
    rw [setHookPage_told hins]
    refine .inr ⟨_, l', hpos, fun x hx => ?_, hadd, rfl⟩
    obtain ⟨hlo, hhi⟩ := hx
    have hon : OnPage (bus.pageAddr (firstPage bus start)) x := by
      rw [OnPage, haddr]
      omega
    refine ⟨hon, Option.eq_none_iff_forall_not_mem.2 fun a ha => ?_⟩
    exact hfree x hlo hhi a ((hcov.covers _ _ _ _).2 ⟨hon, ha⟩)

variable {kinds : HookKind} {told : List HookNotice} {k : Access}

theorem clearHookPage_told {i : BitVec 32}
    (h : ∀ k, kinds.has k → m k (bus.pageAddr i) ≠ []) :
    clearHookPage recorder bus kinds start numBytes i (m, told) =
      (.ok (), cleared kinds start numBytes [bus.pageAddr i] m,
        told ++ if (cleared kinds start numBytes [bus.pageAddr i] m).hasAnyHooks
          (bus.pageAddr i) then [] else [.backed (bus.pageAddr i)]) := by
  rw [clearHookPage_eq h]
  split
  · rw [List.append_nil]
  · rfl

theorem clearPages_eq (page : BitVec 32) (k : Nat) (hnodup : (pagesFrom bus page k).Nodup)
    (hne : ∀ p ∈ pagesFrom bus page k, ∀ k, kinds.has k → m k p ≠ []) :
    Ended.forPages (clearHookPage recorder bus kinds start numBytes) k page (m, told) =
      (.ok (), cleared kinds start numBytes (pagesFrom bus page k) m,
        told ++ ((pagesFrom bus page k).filter fun p =>
          !(cleared kinds start numBytes (pagesFrom bus page k) m).hasAnyHooks p).map .backed) := by
  induction k generalizing page m told with
  | zero =>
    have hm : cleared kinds start numBytes [] m = m := by
      funext k p
      exact if_neg (by simp)
    simp only [pagesFrom, Ended.forPages, hm, List.filter_nil, List.map_nil, List.append_nil]
  | succ k ih =>
    rw [pagesFrom] at *
    obtain ⟨hnotin, hnodup⟩ := List.nodup_cons.1 hnodup
    have hother : ∀ p ∈ pagesFrom bus (page + 1) k, ∀ k,
        cleared kinds start numBytes [bus.pageAddr page] m k p = m k p := by
      refine fun p hp k => if_neg ?_
      rw [List.mem_singleton]
      rintro ⟨-, rfl⟩
      exact hnotin hp
    have hall : cleared kinds start numBytes (pagesFrom bus (page + 1) k)
        (cleared kinds start numBytes [bus.pageAddr page] m) =
        cleared kinds start numBytes (bus.pageAddr page :: pagesFrom bus (page + 1) k) m := by
      funext k' p
      rw [cleared]
      split
      next h => rw [hother p h.2, cleared, if_pos ⟨h.1, .tail _ h.2⟩]
      next h =>
        refine if_congr (and_congr_right fun hk => ?_) rfl rfl
        rw [List.mem_singleton, List.mem_cons]
        exact ⟨.inl, fun hp => hp.resolve_right fun hp => h ⟨hk, hp⟩⟩
    have hfirst : (cleared kinds start numBytes [bus.pageAddr page] m).hasAnyHooks
        (bus.pageAddr page) = (cleared kinds start numBytes
          (bus.pageAddr page :: pagesFrom bus (page + 1) k) m).hasAnyHooks (bus.pageAddr page) := by
      simp [Hooks.hasAnyHooks, cleared]
    rw [Ended.forPages, clearHookPage_told (hne _ (.head _)), andThen_ok, ih _ hnodup fun p hp k hk => by
      rw [hother p hp]
      exact hne p (.tail _ hp) k hk, hall, hfirst, List.filter_cons, List.append_assoc]
    split
    next hany => rw [hany, List.nil_append]; rfl
    next hany => rw [Bool.not_eq_true] at hany; rw [hany]; rfl

/-- What a `ClearHook` does: nothing, or it clears the range from its pages. -/
theorem clear_cases (h : (clear kinds start numBytes : HookCall H).Allowed m) :
    (∃ e, (clear kinds start numBytes).run m = (.error e, m, [])) ∨
    ∃ bus : Bus, bus.Holds start numBytes ∧
      (∀ p ∈ pagesOf bus start numBytes, ∀ k, kinds.has k → m k p ≠ []) ∧
      (clear kinds start numBytes).run m =
        (.ok (), cleared kinds start numBytes (pagesOf bus start numBytes) m,
          ((pagesOf bus start numBytes).filter fun p =>
            !(cleared kinds start numBytes (pagesOf bus start numBytes) m).hasAnyHooks p).map
              .backed) := by
  obtain ⟨bus, hbus, ⟨page, hpage, hnil⟩ | hne⟩ := h
  · refine .inl ?_
    simp only [run, clearHook, hbus.found]
    cases hk : numPages bus start numBytes with
    | zero =>
      rw [pagesOf, hk] at hpage
      cases hpage
    | succ k =>
      rw [pagesOf, hk] at hpage
      cases hpage
      obtain ⟨e, he⟩ := clearHookPage_error hnil
      refine ⟨e, ?_⟩
      rw [Ended.forPages, he]
      rfl
  · refine .inr ⟨bus, hbus, hne, ?_⟩
    simp only [run, clearHook, hbus.found]
    rw [clearPages_eq _ _ (pagesOf_nodup hbus) hne, List.nil_append]
    rfl

/-! ### The cover behind a call -/

theorem set_cover (x : Nat) : (set kind start numBytes handler).cover cov k x =
    if k = kind ∧ Spans start numBytes x then some handler else cov k x := rfl

theorem clear_cover (x : Nat) : (clear kinds start numBytes).cover cov k x =
    if kinds.has k ∧ Spans start numBytes x then none else cov k x := rfl

theorem cleared_covers (hcov : HooksCover m cov) (hbus : bus.Holds start numBytes) :
    HooksCover (cleared kinds start numBytes (pagesOf bus start numBytes) m)
      ((clear kinds start numBytes).cover cov) := by
  have hblocks : ∀ k p, kinds.has k ∧ p ∈ pagesOf bus start numBytes →
      hookBlocks (cleared kinds start numBytes (pagesOf bus start numBytes) m k p) =
        (hookBlocks (m k p)).flatMap (cut start.toNat (start.toNat + numBytes.toNat)) := by
    intro k p hkp
    rw [cleared, if_pos hkp]
    exact removeHooks_blocks (hcov.below (pagesOf_below hbus hkp.2).2) hbus.range
  refine .of_covers (fun k p => ?_) (fun k p x a => ?_) <;>
    by_cases hkp : kinds.has k ∧ p ∈ pagesOf bus start numBytes
  · rw [hblocks k p hkp]
    exact separated_cut (hcov.separated k p) (Nat.le_add_right _ _)
  · rw [cleared, if_neg hkp]
    exact hcov.separated k p
  · rw [hblocks k p hkp, labels_cut (hcov.separated k p), hcov.covers, clear_cover]
    by_cases hx : Spans start numBytes x
    · simp only [hkp.1, hx, and_self, if_true]
      exact ⟨fun h => absurd hx h.2, fun h => by cases h.2⟩
    · simp only [hx, and_false, if_false]
      exact and_iff_left hx
  · rw [cleared, if_neg hkp, hcov.covers, clear_cover]
    refine and_congr_right fun hon => ?_
    rw [if_neg]
    rintro ⟨hk, hx⟩
    exact hkp ⟨hk, pagesOf_complete hbus hon hx⟩

theorem set_covers (hcov : HooksCover m cov) (hadd : Added start numBytes handler (m kind page) l')
    (hpage : ∀ x, Spans start numBytes x → OnPage page x ∧ cov kind x = none) :
    HooksCover (m.set kind page l') ((set kind start numBytes handler).cover cov) := by
  obtain ⟨hsep, hlabels⟩ := hadd
  refine .of_covers (fun k p => ?_) (fun k p x a => ?_) <;> rw [Hooks.set] <;>
    by_cases hkp : k = kind ∧ p = page
  · rw [if_pos hkp]
    exact hsep
  · rw [if_neg hkp]
    exact hcov.separated k p
  · obtain ⟨rfl, rfl⟩ := hkp
    rw [if_pos ⟨rfl, rfl⟩, hlabels, hcov.covers, set_cover]
    by_cases hx : Spans start numBytes x
    · obtain ⟨hon, hfree⟩ := hpage x hx
      rw [if_pos ⟨rfl, hx⟩, hfree, Option.some_inj]
      simp only [hon, true_and, reduceCtorEq, false_or]
      exact and_iff_right hx
    · rw [if_neg fun h => hx h.2]
      exact or_iff_left fun h => hx h.1
  · rw [if_neg hkp, hcov.covers, set_cover]
    refine and_congr_right fun hon => ?_
    rw [if_neg]
    rintro ⟨rfl, hx⟩
    exact hkp ⟨rfl, BitVec.eq_of_toNat_eq (Eq.trans hon (hpage x hx).1.symm)⟩

/-- One call. -/
theorem step_covers {c : HookCall H} (hcov : HooksCover m cov) (h : c.Allowed m) :
    HooksCover (c.step (m, cov)).1 (c.step (m, cov)).2 := by
  cases c with
  | set kind start numBytes handler =>
    rcases set_cases hcov h with ⟨e, he⟩ | ⟨page, l', -, hpage, hadd, heq⟩
    · simp only [step, he]
      exact hcov
    · simp only [step, heq]
      exact set_covers hcov hadd hpage
  | clear kinds start numBytes =>
    rcases clear_cases h with ⟨e, he⟩ | ⟨bus, hbus, -, heq⟩
    · simp only [step, he]
      exact hcov
    · simp only [step, heq]
      exact cleared_covers hcov hbus

/-! ### What the subscribers are told -/

/-- The subscribers are told once of each page that is covered from now on, or no longer is. -/
structure TellsExactly (c : HookCall H) (s : Hooks H × Cover H) : Prop where
  once : (c.run s.1).2.2.Nodup
  unbacked : ∀ page, .unbacked page ∈ (c.run s.1).2.2 ↔
    ¬ Covered s.2 page ∧ Covered (c.step s).2 page
  backed : ∀ page, .backed page ∈ (c.run s.1).2.2 ↔
    Covered s.2 page ∧ ¬ Covered (c.step s).2 page

/-- The pages told of are those whose lists are no longer, or now, both empty. -/
structure Tells (m m' : Hooks H) (told : List HookNotice) : Prop where
  once : told.Nodup
  unbacked : ∀ page, .unbacked page ∈ told ↔ ¬ m.hasAnyHooks page ∧ m'.hasAnyHooks page
  backed : ∀ page, .backed page ∈ told ↔ m.hasAnyHooks page ∧ ¬ m'.hasAnyHooks page

theorem Tells.nothing : Tells m m [] :=
  ⟨.nil, fun _ => by simp, fun _ => by simp⟩

theorem set_tells (hpos : 0 < numBytes.toNat)
    (hadd : Added start numBytes handler (m kind page) l') :
    Tells m (m.set kind page l')
      (if m.hasAnyHooks page then [] else [.unbacked page]) := by
  have hne : l' ≠ [] := by
    rintro rfl
    obtain ⟨b, hb, -⟩ := (hadd.2 start.toNat handler).2 (.inr ⟨⟨Nat.le_refl _, by omega⟩, rfl⟩)
    cases hb
  have hnow : (m.set kind page l').hasAnyHooks page := by
    refine (hasAnyHooks_iff _).2 ⟨kind, ?_⟩
    rw [Hooks.set, if_pos ⟨rfl, rfl⟩]
    exact hne
  have hother : ∀ p, p ≠ page → (m.set kind page l').hasAnyHooks p = m.hasAnyHooks p := by
    intro p hp
    simp only [Hooks.hasAnyHooks, Hooks.set, hp, and_false, if_false]
  split
  next hany =>
    refine ⟨.nil, fun p => ?_, fun p => ?_⟩ <;> by_cases hp : p = page
    · subst hp; simp [hany]
    · simp [hother p hp]
    · subst hp; simp [hnow]
    · simp [hother p hp]
  next hany =>
    refine ⟨List.nodup_singleton _, fun p => ?_, fun p => ?_⟩ <;> by_cases hp : p = page
    · subst hp; simp [hany, hnow]
    · simp [hother p hp, hp]
    · subst hp; simp [hany]
    · simp [hother p hp]

theorem clear_tells (hbus : bus.Holds start numBytes)
    (hne : ∀ p ∈ pagesOf bus start numBytes, ∀ k, kinds.has k → m k p ≠ []) :
    Tells m (cleared kinds start numBytes (pagesOf bus start numBytes) m)
      (((pagesOf bus start numBytes).filter fun p =>
        !(cleared kinds start numBytes (pagesOf bus start numBytes) m).hasAnyHooks p).map
          .backed) := by
  have hbefore : ∀ p ∈ pagesOf bus start numBytes, m.hasAnyHooks p := fun p hp =>
    (hasAnyHooks_iff _).2 ⟨_, hne p hp _ (has_first kinds)⟩
  have hother : ∀ p, p ∉ pagesOf bus start numBytes →
      (cleared kinds start numBytes (pagesOf bus start numBytes) m).hasAnyHooks p =
        m.hasAnyHooks p := by
    intro p hp
    simp only [Hooks.hasAnyHooks, cleared, hp, and_false, if_false]
  refine ⟨?_, fun p => ?_, fun p => ?_⟩
  · exact ((pagesOf_nodup hbus).filter _).map fun _ _ h => by cases h; rfl
  · by_cases hp : p ∈ pagesOf bus start numBytes
    · simp [hbefore p hp]
    · simp [hother p hp]
  · by_cases hp : p ∈ pagesOf bus start numBytes
    · simp [hbefore p hp, hp]
    · simp [hother p hp, hp]

theorem tells {c : HookCall H} (hcov : HooksCover m cov) (h : c.Allowed m) :
    Tells m (c.step (m, cov)).1 (c.run m).2.2 := by
  cases c with
  | set kind start numBytes handler =>
    rcases set_cases hcov h with ⟨e, he⟩ | ⟨page, l', hpos, -, hadd, heq⟩
    · simp only [step, he]
      exact .nothing
    · simp only [step, heq]
      exact set_tells hpos hadd
  | clear kinds start numBytes =>
    rcases clear_cases h with ⟨e, he⟩ | ⟨bus, hbus, hne, heq⟩
    · simp only [step, he]
      exact .nothing
    · simp only [step, heq]
      exact clear_tells hbus hne

theorem told_exact {c : HookCall H} (hcov : HooksCover m cov) (h : c.Allowed m) :
    c.TellsExactly (m, cov) := by
  obtain ⟨honce, hun, hback⟩ := tells hcov h
  have hcov' := step_covers hcov h
  refine ⟨honce, fun page => ?_, fun page => ?_⟩
  · rw [hun, hcov.covered_iff, hcov'.covered_iff]
  · rw [hback, hcov.covered_iff, hcov'.covered_iff]

end HookCall

/-! ## Runs -/

/-- No hooks, and no byte covered. -/
def noHooks : Hooks H × Cover H := (fun _ _ => [], fun _ _ => none)

/-- The states behind any order of calls that are `allowed`. -/
abbrev HookRun (allowed : Hooks H → HookCall H → Prop) : Hooks H × Cover H → Prop :=
  Run.Reachable (· = noHooks) fun s s' => ∃ c, allowed s.1 c ∧ s' = c.step s

/-- **The hooks cover the bytes they were set for**, and the subscribers know. -/
theorem hookCover_exact (s : Hooks H × Cover H)
    (h : HookRun (fun m c => c.Allowed m) s) :
    HooksCover s.1 s.2 ∧ ∀ c : HookCall H, c.Allowed s.1 → c.TellsExactly s := by
  have hcov : HooksCover s.1 s.2 := by
    refine Run.Reachable.invariant (I := fun s => HooksCover s.1 s.2) ?_ ?_ h
    · rintro _ rfl
      exact .empty
    · rintro s _ hcov ⟨c, hc, rfl⟩
      exact HookCall.step_covers hcov hc
  exact ⟨hcov, fun c hc => HookCall.told_exact hcov hc⟩

/-- The range of the call is physical memory. -/
def HookCall.Physical : HookCall H → Prop
  | .set _ start numBytes _ | .clear _ start numBytes => ∃ bus : Bus, bus.Holds start numBytes

/-- One hook. -/
def oneHook : Hooks Nat × Cover Nat := (HookCall.set .write 0x20000100 0x100 7).step noHooks

theorem hookCover_exact_one : HooksCover oneHook.1 oneHook.2 ∧
    (HookCall.clear .write 0x20000100 0x80).TellsExactly oneHook := by
  have hbus : Bus.fcram.Holds 0x20000100 0x100 := ⟨by decide, by decide⟩
  have hset : (HookCall.set .write 0x20000100 0x100 7).Allowed (noHooks : Hooks Nat × Cover Nat).1 :=
    ⟨.fcram, hbus, .inr ⟨by decide, nofun⟩⟩
  obtain ⟨hcov, htold⟩ := hookCover_exact oneHook (.next (.start rfl) ⟨_, hset, rfl⟩)
  have hpages : pagesOf .fcram 0x20000100 0x80 = [0x20000000] := by decide
  refine ⟨hcov, htold _ ⟨.fcram, ⟨by decide, by decide⟩, .inr fun page hp k hk => ?_⟩⟩
  rw [hpages, List.mem_singleton] at hp
  subst hp
  cases k with
  | read => cases hk
  | write => decide

/-- A hook across two pages: the list of the second page gets an entry that starts in the first. -/
theorem setHook_across_pages_breaks : ¬ ∀ s : Hooks Nat × Cover Nat,
    HookRun (fun _ c => c.Physical) s → HooksCover s.1 s.2 := by
  intro h
  have hcov := h _ (.next (.start rfl)
    ⟨.set .write 0x20000F00 0x200 7, ⟨.fcram, by decide, by decide⟩, rfl⟩)
  have hwithin := hcov.within .write 0x20001000 ⟨0x20000F00, 0x200, 7⟩ (by decide)
  exact absurd hwithin.1 (by decide)

end Mikage
