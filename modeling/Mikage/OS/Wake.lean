import Mikage.Lib.Lists
import Mikage.OS.Does

/-!
# Waking threads, accounted for

`collect` and `onResourceReady` as sequences of changes.
-/

namespace Mikage

open KM Account

variable {P : Powers} {α β : Type} {k s₁ : Kernel} {g : Phase} {r s t : Ref}
  {R : β → Kernel → Phase → Prop}

/-! ## Destroying objects -/

namespace Kernel

theorem garbage_some (h : k.garbage = some r) : k.Alive r ∧ r ∉ k.references := by
  have hmem := List.mem_of_find?_eq_some h
  have hr := List.find?_some h
  simp only [Bool.and_eq_true, Bool.not_eq_true', List.contains_eq_mem,
    decide_eq_false_iff_not] at hr
  exact ⟨⟨List.mem_range.1 hmem, hr.1⟩, hr.2⟩

/-- The number of live objects. -/
def population (k : Kernel) : Nat := (List.range k.next).countP (fun r => !k.dead r)

theorem population_destroy (hr : k.Alive r) :
    population { k with dead := k.dead.set r true } < k.population := by
  refine List.countP_lt_countP (fun x _ hx => ?_) (List.mem_range.2 hr.1) (by simp [hr.2])
    (by simp)
  simp only [Store.get_set] at hx
  split at hx
  · simp at hx
  · exact hx

end Kernel

theorem collectWithin_does : ∀ (n : Nat) {k : Kernel}, Inv k → g.making = [] →
    Does P (collectWithin n) k g (fun _ k' g' => g' = g ∧
      (∃ dead trace, k' = { k with dead := dead, trace := trace }) ∧
      (k.population ≤ n → k'.garbage = none))
  | 0, k, hI, _ => by
    refine done ⟨rfl, ⟨_, _, rfl⟩, fun hn => ?_⟩
    by_contra hg
    obtain ⟨r, hr⟩ := Option.ne_none_iff_exists'.1 hg
    have hpos : 0 < k.population := List.countP_pos_iff.2
      ⟨r, List.mem_range.2 (Kernel.garbage_some hr).1.1, by simp [(Kernel.garbage_some hr).1.2]⟩
    exact Nat.not_lt.2 hn hpos
  | n + 1, k, hI, hm => by
    simp only [collectWithin, ends_get]
    split
    next hg => exact done ⟨rfl, ⟨_, _, rfl⟩, fun _ => hg⟩
    next r hg =>
      obtain ⟨hr, href⟩ := Kernel.garbage_some hg
      have hact : Act P (k, g) ({ k with
          dead := k.dead.set r true
          trace := k.trace ++ [.destroyed r (k.orphans r) (k.tableObjects r)] }, g) :=
        .destroy hr href (by simp [hm])
      simp only [destroy, emit, ends_assoc, ends_get, ends_modify]
      refine step hact rfl ?_
      refine Account.From.mono (collectWithin_does n (hI.act hact) hm) ?_
      rintro _ k' g' _ _ ⟨rfl, ⟨dead, trace, rfl⟩, hnone⟩
      refine ⟨rfl, ⟨_, _, rfl⟩, fun hn => hnone ?_⟩
      exact Nat.le_of_lt_succ (Nat.lt_of_lt_of_le (Kernel.population_destroy hr) hn)

theorem collect_does (hI : Inv k) (hm : g.making = []) :
    Does P collect k g (fun _ k' g' => g' = g ∧
      (∃ dead trace, k' = { k with dead := dead, trace := trace }) ∧ k'.garbage = none) := by
  simp only [collect, ends_get]
  refine Account.From.mono (collectWithin_does k.next hI hm) ?_
  rintro _ k' g' _ _ ⟨rfl, hk, hnone⟩
  refine ⟨rfl, hk, hnone ?_⟩
  exact Nat.le_trans List.countP_le_length (by simp)

/-! ## Acquiring -/

/-- What waking threads leaves alone. -/
structure Wakes (k k' : Kernel) : Prop where
  next : k'.next = k.next
  kind : k'.kind = k.kind
  process : k'.process = k.process
  serverPort : k'.serverPort = k.serverPort
  clientPort : k'.clientPort = k.clientPort
  port : k'.port = k.port
  session : k'.session = k.session
  clientSession : k'.clientSession = k.clientSession
  threads : k'.threads = k.threads
  waitingQueue : k'.waitingQueue = k.waitingQueue
  activeTimers : k'.activeTimers = k.activeTimers
  systemTick : k'.systemTick = k.systemTick
  processHandles : k'.processHandles = k.processHandles
  ports : k'.ports = k.ports
  locals : k'.locals = k.locals
  sessions : ∀ r, (k'.serverSession r).session = (k.serverSession r).session ∧
    (k'.serverSession r).port = (k.serverSession r).port
  owned : ∀ t, ∀ r ∈ (k'.thread t).owned, r ∈ (k.thread t).owned

theorem Wakes.refl (k : Kernel) : Wakes k k :=
  ⟨rfl, rfl, rfl, rfl, rfl, rfl, rfl, rfl, rfl, rfl, rfl, rfl, rfl, rfl, rfl, fun _ => ⟨rfl, rfl⟩,
    fun _ _ => id⟩

theorem Wakes.trans {k₁ k₂ k₃ : Kernel} (h : Wakes k₁ k₂) (h' : Wakes k₂ k₃) : Wakes k₁ k₃ where
  next := h'.next.trans h.next
  kind := h'.kind.trans h.kind
  process := h'.process.trans h.process
  serverPort := h'.serverPort.trans h.serverPort
  clientPort := h'.clientPort.trans h.clientPort
  port := h'.port.trans h.port
  session := h'.session.trans h.session
  clientSession := h'.clientSession.trans h.clientSession
  threads := h'.threads.trans h.threads
  waitingQueue := h'.waitingQueue.trans h.waitingQueue
  activeTimers := h'.activeTimers.trans h.activeTimers
  systemTick := h'.systemTick.trans h.systemTick
  processHandles := h'.processHandles.trans h.processHandles
  ports := h'.ports.trans h.ports
  locals := h'.locals.trans h.locals
  sessions r := ⟨(h'.sessions r).1.trans (h.sessions r).1, (h'.sessions r).2.trans (h.sessions r).2⟩
  owned t r hr := h.owned t r (h'.owned t r hr)

/-- The same around a reference that is held. -/
theorem Wakes.held {k k' : Kernel} {l l' : List Ref}
    (h : Wakes { k with locals := l } { k' with locals := l' }) (hl : k'.locals = k.locals) :
    Wakes k k' := { h with locals := hl }

/-- The program goes on with the answer of `tryAcquireImpl`. -/
theorem from_tryAcquireImpl {f : Bool → KM β}
    (h : ∀ k₁, k.Takes s t k₁ → From P k g (f true) k₁ R)
    (h' : k.Fails s t → From P k g (f false) k R) :
    From P k g (tryAcquireImpl s t >>= f) k R := by
  refine Ends.bind (Q := fun b k₁ => tryAcquireImpl s t k = .ok b k₁) ?_ ?_
  · cases hx : tryAcquireImpl s t k with
    | ok b k₁ => simp [Ends, hx]
    | error e k₁ =>
      obtain ⟨rfl, he⟩ := tryAcquireImpl_ends.error hx
      rw [Ends, hx]
      exact ⟨(k₁, g), .refl, rfl, .other he⟩
  · intro b k₁ hb
    cases b with
    | true => exact h k₁ hb
    | false =>
      obtain ⟨rfl, -⟩ := tryAcquireImpl_ends.ok hb
      exact h' hb

/-- A thread taken out of the observers of a list of objects: of all it was an observer of. -/
theorem unregisterAll_ends {E : Exception → Kernel → Prop} : ∀ (objects : List Ref) {k : Kernel},
    (∀ r, objects.count r = (k.observers r).count t) →
    Ends (unregisterAll t objects) k (fun _ k' => ∃ observers : Store (List Ref),
      k' = { k with observers := observers } ∧
      ∀ r, observers r = (k.observers r).filter (· ≠ t)) E
  | [], k, h => by
    refine ⟨_, rfl, fun r => (List.filter_ne_of_not_mem ?_).symm⟩
    exact List.count_eq_zero.1 (h r).symm
  | s :: objects, k, h => by
    have hs : (k.observers s).contains t = true := by
      have hpos : 0 < (k.observers s).count t := by
        rw [← h s, List.count_cons_self]
        exact Nat.succ_pos _
      simpa using List.count_pos_iff.1 hpos
    simp only [unregisterAll, unregister, ends_assoc, ends_get, validate, hs, if_true,
      ends_pure_bind, ends_modify]
    refine (unregisterAll_ends objects ?_).mono ?_ (fun _ _ h => h)
    · intro r
      have := h r
      rw [Store.get_modify]
      split
      next he =>
        subst he
        rw [List.count_cons_self] at this
        rw [List.count_erase_self]
        omega
      next hne => rwa [List.count_cons_of_ne (Ne.symm hne)] at this
    · rintro _ k' ⟨observers, rfl, ho⟩
      refine ⟨_, rfl, fun r => ?_⟩
      rw [ho, Store.get_modify]
      split
      next => exact List.filter_ne_erase _ _
      next => rfl

/-! ## OnResourceReady -/

/-- The object has been looked at. -/
def Phase.cooled (g : Phase) (s : Ref) : Phase :=
  { g with hot := g.hot.filter (· ≠ s), owed := if g.owed.map (·.2) = some s then none else g.owed }

theorem Phase.cooled_woken (g : Phase) (s t : Ref) :
    ({ g with owed := if g.owed = some (t, s) then none else g.owed } : Phase).cooled s =
      g.cooled s := by
  by_cases h : g.owed = some (t, s)
  · simp [cooled, h]
  · simp only [cooled, if_neg h]

theorem owned_modify {f : Thread → Thread}
    (h : ∀ r ∈ (f (k.thread t)).owned, r ∈ (k.thread t).owned) :
    ∀ x, ∀ r ∈ ((k.thread.modify t f) x).owned, r ∈ (k.thread x).owned := by
  intro x r
  rw [Store.get_modify]
  split
  next he =>
    subst he
    exact h r
  next => exact id

/-- A waiting thread that has acquired `s` goes on. -/
theorem onResourceAcquired_from {l : List Ref} {k₁ : Kernel} (hI : Inv k) (hm : g.making = [])
    (ho : k.observers s = t :: l) (hd : k.dead t = false) (ht : k.Takes s t k₁)
    {f : Unit → KM β}
    (hf : ∀ k' g', Inv k' → Wakes k k' →
      (k'.observers s).length ≤ l.length → g'.cooled s = g.cooled s → g'.making = g.making →
      From P k' g' (f ()) k' R) :
    From P k g (onResourceAcquired t s >>= f)
      { k₁ with observers := k₁.observers.modify s (·.erase t) } R := by
  have hmem : t ∈ k.observers s := by simp [ho]
  have hst : (k.thread t).status = .sleeping := hI.sleeping hd hmem
  have hw : s ∈ (k.thread t).waitList := hI.mem_waitList hd hmem
  have heff := ht.effect
  obtain ⟨serverSession, mutex, semaphore, event, timer, obs, rfl, hsessions, -⟩ := heff.shape
  simp only [onResourceAcquired, ends_assoc, ends_get]
  refine from_validate (fun _ => ?_) (fun hs => by simp [hst] at hs)
  simp only [List.contains_eq_mem, hw, decide_true, Bool.not_true, Bool.false_eq_true, if_false,
    modifyThread]
  have hcounts : ∀ r, ((k.thread t).waitList.erase s).count r =
      (((k.observers.modify s (·.erase t)) r).count t) := by
    intro r
    rw [Store.get_modify]
    split
    next he => rw [he, List.count_erase_self, List.count_erase_self, hI.counts t s hd]
    next hne => rw [List.count_erase_of_ne hne, hI.counts t r hd]
  have hwake : ∀ observers : Store (List Ref),
      (∀ r, observers r = (k.observers r).filter (· ≠ t)) →
      ((k.thread t).waitForAll = false ∨ (k.thread t).waitList.erase s = []) →
      From P k g (collect >>= f)
        { k with
          observers := observers
          serverSession := serverSession
          mutex := mutex
          semaphore := semaphore
          event := event
          timer := timer
          thread := k.thread.modify t (fun thread =>
            { thread with wakeIndex := thread.waitList.idxOf s, wokenObject := some s,
                          waitList := [], status := .ready })
          readyQueue := t :: k.readyQueue
          trace := k.trace ++ obs ++ [.woken t (.resource s)] } R := by
    intro observers hobs hlast
    have hact := Act.woken (P := P) (g := g) (i := (k.thread t).waitList.idxOf s) ho hd hst ht
      hlast hobs
    have hI' := hI.act hact
    rw [Store.modify_congr (g := fun thread : Thread =>
      { thread with wakeIndex := thread.waitList.idxOf s, wokenObject := some s,
                    waitList := [], status := .ready }) _ (by rfl)] at hact hI'
    refine step hact rfl (call hI' (.refl _) (collect_does hI' hm) ?_)
    rintro _ k' g' hI₁ - hl ⟨rfl, ⟨dead, trace, rfl⟩, -⟩
    have howned := owned_modify (k := k) (t := t) (f := fun thread =>
      { thread with wakeIndex := thread.waitList.idxOf s, wokenObject := some s,
                    waitList := [], status := .ready }) (by
          simp only [Thread.owned, List.nil_append, List.append_assoc, List.mem_append]
          exact fun r hr => .inr hr)
    refine hf _ _ hI₁ { Wakes.refl k with sessions := hsessions, owned := howned } ?_
      (Phase.cooled_woken g s t) rfl
    simpa [hobs, ho] using List.length_filter_le _ l
  cases hall : (k.thread t).waitForAll with
  | false =>
    simp only [Bool.not_false, Bool.true_or, if_true, ends_assoc, ends_modify]
    refine Ends.bind (unregisterAll_ends _ hcounts) ?_
    rintro _ k' ⟨observers, rfl, hobs⟩
    simp only [ends_assoc, ends_modify, emit, Store.modify_modify]
    refine hwake observers (fun r => ?_) (.inl hall)
    rw [hobs, Store.get_modify]
    split
    next => exact List.filter_ne_erase _ _
    next => rfl
  | true =>
    by_cases hlast : (k.thread t).waitList.erase s = []
    · simp only [hlast, Bool.not_true, Bool.false_or, List.isEmpty_nil, if_true,
        Bool.false_eq_true, if_false, ends_assoc, ends_modify, emit, Store.modify_modify]
      refine hwake _ (fun r => ?_) (.inr hlast)
      have hnone : t ∉ (k.observers.modify s (·.erase t)) r := by
        rw [← List.count_eq_zero, ← hcounts, hlast, List.count_nil]
      rw [← List.filter_ne_of_not_mem hnone, Store.get_modify]
      split
      next => exact List.filter_ne_erase _ _
      next => rfl
    · simp only [List.isEmpty_eq_false_iff.2 hlast, Bool.not_true, Bool.false_or,
        Bool.false_eq_true, if_false, ends_assoc, ends_modify]
      have hact := Act.acquired (P := P) (g := g) (i := (k.thread t).waitList.idxOf s) ho hd hst ht
        hall hlast
      have hI' := hI.act hact
      rw [Store.modify_congr (g := fun thread : Thread =>
        { thread with wakeIndex := thread.waitList.idxOf s, wokenObject := some s,
                      waitList := (k.thread t).waitList.erase s }) _ (by rfl)] at hact hI'
      refine step hact rfl (call hI' (.refl _) (collect_does hI' hm) ?_)
      rintro _ k' g' hI₁ - hl ⟨rfl, ⟨dead, trace, rfl⟩, -⟩
      have howned := owned_modify (k := k) (t := t) (f := fun thread =>
        { thread with wakeIndex := thread.waitList.idxOf s, wokenObject := some s,
                      waitList := (k.thread t).waitList.erase s }) (by
          simp only [Thread.owned, List.append_assoc, List.mem_append]
          rintro r (hr | hr)
          · exact .inl (List.mem_of_mem_erase hr)
          · exact .inr hr)
      refine hf _ _ hI₁ { Wakes.refl k with sessions := hsessions, owned := howned } ?_ rfl rfl
      simp [ho]

theorem onResourceReadyWithin_does : ∀ (n : Nat) {k : Kernel} {g : Phase}, Inv k → g.making = [] →
    (k.observers s).length ≤ n →
    Does P (onResourceReadyWithin n s) k g (fun _ k' g' => g' = g.cooled s ∧ Wakes k k')
  | 0, k, g, hI, hm, hn => by
    have ho : k.observers s = [] := List.length_eq_zero_iff.1 (Nat.le_zero.1 hn)
    exact shift (.cool (by simp [Kernel.waiting, ho])) (done ⟨rfl, .refl k⟩)
  | n + 1, k, g, hI, hm, hn => by
    simp only [onResourceReadyWithin, ends_get]
    split
    next ho => exact shift (.cool (by simp [Kernel.waiting, ho])) (done ⟨rfl, .refl k⟩)
    next t l ho =>
      apply Ends.split
      · intro hd
        have hact : Act P (k, g) ({ k with observers := k.observers.set s l }, g) :=
          .prune ho hd
        simp only [ends_set]
        refine step hact rfl ?_
        refine Account.From.mono (onResourceReadyWithin_does n (hI.act hact) hm ?_) ?_
        · simpa [ho] using hn
        · rintro _ k' g' _ _ ⟨rfl, hw⟩
          exact ⟨rfl, { hw with }⟩
      · intro hd
        rw [Bool.not_eq_true] at hd
        have ht : t ∈ k.observers s := by simp [ho]
        refine from_validate (fun _ => ?_) (fun hs => ?_)
        · simp only [tryAcquire, ends_assoc]
          refine from_tryAcquireImpl (fun k₁ htakes => ?_) (fun hfails => ?_)
          · obtain ⟨_, _, _, _, _, obs, hk₁, -⟩ := htakes.effect.shape
            have hs : (k₁.observers s).contains t = true := by
              subst hk₁
              simpa using ht
            simp only [if_true, unregister, ends_assoc, ends_get, validate, hs, ends_pure_bind,
              ends_modify]
            refine onResourceAcquired_from hI hm ho hd htakes fun k' g' hI' hw hn' hg hm' => ?_
            rw [ho] at hn
            refine Account.From.mono (onResourceReadyWithin_does n hI' (hm'.trans hm)
              (Nat.le_trans hn' (Nat.le_of_succ_le_succ hn))) ?_
            rintro _ k'' g'' _ _ ⟨rfl, hw'⟩
            exact ⟨hg, hw.trans hw'⟩
          · simp only [Bool.false_eq_true, if_false, ends_pure_bind]
            have hfirst : ∀ t' l', k.waiting s = t' :: l' → k.Fails s t' := by
              intro t' l' hw
              simp only [Kernel.waiting, ho, List.filter_cons, hd, Bool.not_false, if_true,
                List.cons.injEq] at hw
              exact hw.1 ▸ hfails
            exact shift (.cool hfirst) (done ⟨rfl, .refl k⟩)
        · simp [hI.sleeping hd ht] at hs

theorem onResourceReady_does (hI : Inv k) (hm : g.making = []) (hs : k.dead s = false) :
    Does P (onResourceReady s) k g (fun _ k' g' => g' = g.cooled s ∧ Wakes k k') := by
  refine Account.From.mono (Does.holding hI hs fun hI' =>
    ends_get.2 (onResourceReadyWithin_does _ hI' hm (Nat.le_refl _))) ?_
  rintro _ k' g' _ hl ⟨rfl, hw⟩
  exact ⟨rfl, hw.held hl⟩

/-- The kernel code has no unfinished business with waiting threads. -/
structure Phase.Calm (g : Phase) : Prop where
  making : g.making = []
  owed : g.owed = none

/-- Back to a phase with more to look at. -/
theorem Act.restore {hot : List Ref} {due : Bool} (h : hot ⊆ g.hot)
    (hdue : due = true → g.due = true) : Act P (k, { g with hot := hot, due := due }) (k, g) :=
  .loosen h (List.Subset.refl _) hdue

/-- An object that may have become acquirable, and is then looked at. -/
theorem onResourceReady_hot (hI : Inv k) (hg : g.Calm) (hs : k.dead s = false) {hot : List Ref}
    (hhot : hot ⊆ s :: g.hot) :
    Does P (onResourceReady s) k { g with hot := hot } (fun _ k' g' => g' = g ∧ Wakes k k') := by
  refine Account.From.extend (onResourceReady_does hI hg.making hs) ?_
  rintro _ k' g' _ _ ⟨rfl, hw⟩
  have hsub : hot.filter (· ≠ s) ⊆ g.hot := by
    intro x hx
    obtain ⟨hx, hne⟩ := List.mem_filter.1 hx
    exact (List.mem_cons.1 (hhot hx)).resolve_left (by simpa using hne)
  have hcool : ({ g with hot := hot } : Phase).cooled s =
      { g with hot := hot.filter (· ≠ s), due := g.due } := by
    simp [Phase.cooled, hg.owed]
  rw [hcool]
  exact ⟨g, .restore hsub id, rfl, hw⟩

end Mikage
