import Mikage.OS.Wake

/-!
# The clock, accounted for

`elapseTime` as a sequence of changes: behind it no timer is left that a waiting thread could acquire.
-/

namespace Mikage

open KM Account

variable {P : Powers} {k : Kernel} {g : Phase} {r s t : Ref}

/-! ## Interrupts -/

theorem signalEvent_does (hI : Inv k) (hg : g.Calm) (hs : k.dead s = false) :
    Does P (signalEvent s) k g (fun _ k' g' => g' = g ∧ Wakes k k') := by
  have hact : Act P (k, g) ({ k with event := k.event.modify s (fun event =>
      { event with signalled := true }) }, { g with hot := s :: g.hot }) :=
    .data (fun _ _ => rfl) (fun _ _ => rfl) (fun _ hr => Store.get_modify_ne _ _ hr)
      (fun _ _ => rfl)
  simp only [signalEvent, ends_modify]
  refine step hact rfl ?_
  refine Account.From.mono (onResourceReady_hot (hI.act hact) hg hs (List.Subset.refl _)) ?_
  rintro _ k' g' _ _ ⟨rfl, hw⟩
  exact ⟨rfl, { hw with }⟩

theorem signalBound_does : ∀ (l : List Ref) {k : Kernel} {g : Phase}, Inv k → g.Calm →
    Does P (signalBound l) k g (fun _ k' g' => g' = g ∧ Wakes k k')
  | [], k, _, _, _ => done ⟨rfl, .refl k⟩
  | s :: l, k, g, hI, hg => by
    simp only [signalBound, ends_get]
    apply Ends.split
    · intro hd
      exact fail_other rfl (by decide)
    · intro hd
      rw [Bool.not_eq_true] at hd
      refine call hI (.refl P) (Does.holding hI hd fun hI' => signalEvent_does hI' hg hd) ?_
      rintro _ k₁ g₁ hI₁ - hl₁ ⟨rfl, hw₁⟩
      refine call hI₁ (.refl P) (collect_does hI₁ hg.making) ?_
      rintro _ k₂ g₂ hI₂ - - ⟨rfl, ⟨_, _, rfl⟩, -⟩
      refine Account.From.mono (signalBound_does l hI₂ hg) ?_
      rintro _ k₃ g₃ _ _ ⟨rfl, hw₃⟩
      exact ⟨rfl, (hw₁.held hl₁).trans { hw₃ with }⟩

theorem notifyInterrupt_does {index : Nat} (hI : Inv k) (hg : g.Calm) :
    Does P (notifyInterrupt index) k g (fun _ k' g' => g' = g ∧ Wakes k k') := by
  simp only [notifyInterrupt, ends_get]
  exact signalBound_does _ hI hg

/-! ## Timers -/

theorem Inv.waiting_dead (hI : Inv k) (hd : k.dead s = true) : k.waiting s = [] := by
  refine List.filter_eq_nil_iff.2 fun t ht => ?_
  rw [Bool.not_eq_true', Bool.not_eq_false]
  by_contra hlive
  rw [Bool.not_eq_true] at hlive
  exact absurd hd (by simp [(hI.alive_of_observer hlive ht).2])

theorem fails_timer (hk : k.kind s = .timer) (h : (k.timer s).expired k.now = false) :
    k.Fails s t := Kernel.fails_iff.2 (by simpa [Kernel.Unripe, hk] using h)

theorem Phase.cooled_calm (hg : g.Calm) :
    g.cooled s = { g with hot := g.hot.filter (· ≠ s) } := by
  simp [Phase.cooled, hg.owed]

/-- Each timer of the list has been looked at. -/
theorem fireTimers_does : ∀ (l : List Ref) {k : Kernel} {g : Phase}, Inv k → g.Calm →
    Does P (fireTimers k.now l) k g (fun _ k' g' => (∃ hot, g' = { g with hot := hot } ∧
      hot ⊆ g.hot ∧ ∀ s ∈ l, k.kind s = .timer → s ∉ hot) ∧ Wakes k k')
  | [], k, g, _, _ => done ⟨⟨g.hot, rfl, List.Subset.refl _, by simp⟩, .refl k⟩
  | s :: l, k, g, hI, hg => by
    simp only [fireTimers, ends_get]
    have hrest : ∀ {k₁ : Kernel} {hot : List Ref}, Inv k₁ → Wakes k k₁ → hot ⊆ g.hot →
        (k.kind s = .timer → s ∉ hot) → From P k₁ { g with hot := hot } (fireTimers k.now l) k₁
          (fun _ k' g' => (∃ hot, g' = { g with hot := hot } ∧ hot ⊆ g.hot ∧
            ∀ x ∈ s :: l, k.kind x = .timer → x ∉ hot) ∧ Wakes k k') := by
      intro k₁ hot hI₁ hw hsub hs
      have hnow : k.now = k₁.now := by rw [Kernel.now, Kernel.now, hw.systemTick]
      rw [hnow]
      refine Account.From.mono (fireTimers_does l hI₁ ⟨hg.making, hg.owed⟩) ?_
      rintro _ k' _ _ _ ⟨⟨hot', rfl, hsub', hl⟩, hw'⟩
      rw [hw.kind] at hl
      refine ⟨⟨hot', rfl, List.Subset.trans hsub' hsub, fun x hx hk => ?_⟩, hw.trans hw'⟩
      rcases List.mem_cons.1 hx with rfl | hx
      · exact fun hx => hs hk (hsub' hx)
      · exact hl x hx hk
    have hcool : s ∉ g.hot.filter (· ≠ s) := by simp
    have hsub : g.hot.filter (· ≠ s) ⊆ g.hot := fun x hx => (List.mem_filter.1 hx).1
    apply Ends.split
    · intro hfire
      simp only [Bool.and_eq_true, Bool.not_eq_true'] at hfire
      refine call hI (.refl P) (onResourceReady_does hI hg.making hfire.1) ?_
      rintro _ k₁ _ hI₁ - - ⟨rfl, hw₁⟩
      rw [Phase.cooled_calm hg]
      refine call hI₁ (.refl P) (collect_does hI₁ hg.making) ?_
      rintro _ k₂ _ hI₂ - - ⟨rfl, ⟨_, _, rfl⟩, -⟩
      exact hrest hI₂ (hw₁.trans { Wakes.refl k₁ with }) hsub fun _ => hcool
    · intro hfire
      by_cases hk : k.kind s = .timer
      · have hfails : ∀ t l, k.waiting s = t :: l → k.Fails s t := by
          intro t l hw
          refine fails_timer hk (Bool.eq_false_iff.2 fun hexp => hfire ?_)
          have hd : k.dead s = false := by
            by_contra hd
            rw [hI.waiting_dead (Bool.not_eq_false _ ▸ hd)] at hw
            exact List.cons_ne_nil _ _ hw.symm
          simp [hd, hexp]
        have hact : Act P (k, g) (k, g.cooled s) := .cool hfails
        rw [Phase.cooled_calm hg] at hact
        exact shift hact (hrest hI (.refl k) hsub fun _ => hcool)
      · exact hrest hI (.refl k) (List.Subset.refl _) fun h => absurd h hk

/-! ## The waiting queue -/

theorem Kernel.now_lt (k : Kernel) : k.now < noTimeout := by
  have h : k.systemTick * 62500000 % 2 ^ 64 < 2 ^ 64 := Nat.mod_lt _ (by decide)
  unfold Kernel.now noTimeout
  omega

/-- Only threads have a deadline. -/
theorem Inv.due_thread (hI : Inv k) (h : (k.thread t).timeoutAt ≤ k.now) : k.kind t = .thread := by
  by_contra hn
  rw [hI.thread t hn] at h
  exact Nat.not_lt.2 h k.now_lt

theorem expire_does (hP : P.clock) (hI : Inv k) (hd : k.dead t = false)
    (hdue : (k.thread t).timeoutAt ≤ k.now) :
    Does P (expire t) k g (fun _ _ g' => g' = g) := by
  have hk := hI.due_thread hdue
  have hlt : t < k.next := hI.lt (by rw [hk]; decide)
  have hend : ∀ (observers : Store (List Ref)) (f : Thread → Thread),
      (∀ r, observers r = (k.observers r).filter (· ≠ t)) →
      f (k.thread t) = { k.thread t with
        promisedResult := if (k.thread t).status = .sleeping then 0x09401BFE
          else (k.thread t).promisedResult
        waitList := []
        status := .ready } →
      From P k g (emit (if (k.thread t).status = .sleeping ∨
          (k.thread t).status = .waitingForTimeout then .woken t (.timeout k.now)
        else .stale t (k.thread t).status)) { k with
        observers := observers
        thread := k.thread.modify t f
        readyQueue := k.readyQueue ++ [t] } (fun _ _ g' => g' = g) := by
    intro observers f hobs hf
    rw [Store.modify_congr (g := fun thread : Thread => { thread with
      promisedResult := if thread.status = .sleeping then 0x09401BFE else thread.promisedResult
      waitList := []
      status := .ready }) _ hf]
    refine last (step (.expire hP ⟨hlt, hd⟩ hk hdue hobs) rfl ?_)
    exact shift (.loosen (List.Subset.refl _) (fun x hx => (List.mem_filter.1 hx).1) id) (done rfl)
  simp only [expire, ends_get, modifyThread]
  apply Ends.split
  · intro hst
    simp only [ends_modify]
    refine Ends.bind (unregisterAll_ends _ fun r => (hI.counts t r hd).symm) ?_
    rintro _ k' ⟨observers, rfl, hobs⟩
    simp only [ends_modify, ends_get, Store.modify_modify]
    refine hend observers _ hobs ?_
    simp [hst]
  · intro hst
    have hw := hI.waitList_nil hst
    simp only [ends_modify, ends_get]
    refine hend k.observers _ (fun r => ?_) ?_
    · exact (List.filter_ne_of_not_mem (hI.not_mem_observers hd hst r)).symm
    · simp [hst, hw]

theorem scanWaitingQueue_does (hP : P.clock) : ∀ (l kept : List Ref) {k : Kernel} {g : Phase},
    Inv k → g.making = [] → Does P (scanWaitingQueue kept l) k g (fun _ _ g' => g' = g)
  | [], kept, k, g, _, _ => done rfl
  | t :: l, kept, k, g, hI, hm => by
    simp only [scanWaitingQueue, ends_get]
    apply Ends.split
    · intro hd
      simp only [ends_set]
      have hact : Act P (k, g) ({ k with waitingQueue := kept ++ l }, g) :=
        .quiet (kept ++ l) k.threads k.tls k.boundInterrupts
      exact step hact rfl (scanWaitingQueue_does hP l kept (hI.act hact) hm)
    · intro hd
      rw [Bool.not_eq_true] at hd
      apply Ends.split
      · intro hdue
        refine call hI (.refl P) (expire_does hP hI hd hdue) ?_
        rintro _ k₁ g₁ hI₁ - - rfl
        simp only [ends_modify]
        have hact : Act P (k₁, g₁) ({ k₁ with waitingQueue := kept ++ l }, g₁) :=
          .quiet (kept ++ l) k₁.threads k₁.tls k₁.boundInterrupts
        refine step hact rfl (call (hI₁.act hact) (.refl P) (collect_does (hI₁.act hact) hm) ?_)
        rintro _ k₂ _ hI₂ - - ⟨rfl, -, -⟩
        exact scanWaitingQueue_does hP l kept hI₂ hm
      · intro _
        exact scanWaitingQueue_does hP l (kept ++ [t]) hI hm

/-! ## The clock -/

/-- A phase in which the clock may advance and threads may go to sleep. -/
structure Phase.Settled (g : Phase) : Prop extends g.Calm where
  hot : g.hot = []
  unlisted : g.unlisted = []

theorem elapseTime_does {ns : Nat} (hP : P.clock) (hI : Inv k) (hg : g.Settled) :
    Does P (elapseTime ns) k g (fun _ _ g' => g' = g) := by
  simp only [elapseTime, ends_get, ends_modify]
  have htick : Act P (k, g)
      ({ k with systemTick := (k.systemTick + ticksOfNs ns) % 2 ^ 64 }, { g with due := true }) :=
    .tick
  refine step htick rfl (shift .sweep ?_)
  have hI' := hI.act htick
  refine call hI' (.refl P) (fireTimers_does k.activeTimers hI' ⟨hg.making, hg.owed⟩) ?_
  rintro _ k₁ _ hI₁ - - ⟨⟨hot, rfl, hsub, hcold⟩, hw⟩
  have hnil : hot = [] := by
    refine List.eq_nil_iff_forall_not_mem.2 fun s hs => ?_
    have hmem := hsub hs
    simp only [hg.hot, List.append_nil, List.mem_filter, decide_eq_true_eq] at hmem
    exact hcold s hmem.1 hmem.2 hs
  subst hnil
  have hback : ∀ k' : Kernel, Act P (k', { g with hot := [], due := false }) (k', g) :=
    fun _ => .restore (List.nil_subset _) (fun h => absurd h (by decide))
  have hend : ∀ {k₂ : Kernel}, Inv k₂ → From P k₂ { g with due := false, hot := [] } (do
      scanWaitingQueue [] k₂.waitingQueue
      emit (.elapsed (← get).missedTimers)) k₂ (fun _ _ g' => g' = g) := by
    intro k₂ hI₂
    refine call hI₂ (.refl P) (scanWaitingQueue_does hP _ _ hI₂ hg.making) ?_
    rintro _ k₃ _ hI₃ - - rfl
    refine ends_get.2 (last (step (.elapsed rfl (by simp)) rfl ?_))
    exact shift (hback _) (done rfl)
  have hg' : ({ g with due := false, hot := [] } : Phase).Calm := ⟨hg.making, hg.owed⟩
  apply Ends.split
  · intro _
    refine call hI₁ (.refl P) (notifyInterrupt_does hI₁ hg') ?_
    rintro _ k₂ _ hI₂ - - ⟨rfl, -⟩
    refine call hI₂ (.refl P) (notifyInterrupt_does hI₂ hg') ?_
    rintro _ k₃ _ hI₃ - - ⟨rfl, -⟩
    refine call hI₃ (.refl P) (notifyInterrupt_does hI₃ hg') ?_
    rintro _ k₄ _ hI₄ - - ⟨rfl, -⟩
    exact ends_get.2 (hend hI₄)
  · intro _
    exact hend hI₁

theorem reschedule_does (hP : P.clock) (hI : Inv k) (hg : g.Settled) :
    Does P reschedule k g (fun _ _ g' => g' = g) := by
  unfold reschedule
  refine call hI (.refl P) (elapseTime_does hP hI hg) ?_
  rintro _ k₁ g₁ hI₁ - - rfl
  refine last (step (.queue ?_) rfl (done rfl))
  cases k₁.readyQueue with
  | nil => exact .refl _
  | cons t l => exact List.perm_append_singleton t l

end Mikage
