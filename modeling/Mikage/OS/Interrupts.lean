import Mikage.OS.Bindings
import Mikage.OS.Runs

/-!
# Interrupts

`NotifyInterrupt` signals the events bound to an interrupt. The bindings are weak references, and
the one of an event that has been destroyed is dereferenced all the same.

- `Delivered`: what signalling one event does to the threads that wait for it.
- `signalBound_exact`: the loop delivers the events one after the other, or ends at the first that
  does not exist when its turn comes.
- `notifyInterrupt_exact`: the interrupts that are delivered, in every run.
-/

namespace Mikage

open KM Account

variable {env : Env} {k k' : Kernel} {s t : Ref} {l : List Ref}

/-! ## What destroying objects leaves alone -/

/-- Objects that are destroyed stay so. -/
theorem collectWithin_ends : ∀ (n : Nat) {k : Kernel}, Ends (collectWithin n) k
    (fun _ k' => (∃ dead trace, k' = { k with dead := dead, trace := trace }) ∧
      ∀ r, k.dead r = true → k'.dead r = true) (fun _ _ => False)
  | 0, k => ⟨⟨_, _, rfl⟩, fun _ h => h⟩
  | n + 1, k => by
    simp only [collectWithin, ends_get]
    split
    next => exact ⟨⟨_, _, rfl⟩, fun _ h => h⟩
    next r _ =>
      simp only [destroy, emit, ends_assoc, ends_get, ends_modify]
      refine (collectWithin_ends n).mono ?_ fun _ _ h => h
      rintro _ k' ⟨⟨dead, trace, rfl⟩, hdead⟩
      refine ⟨⟨_, _, rfl⟩, fun x hx => hdead x ?_⟩
      simp only [Store.get_set]
      split
      · rfl
      · exact hx

theorem collect_ends (hI : Inv k) : Ends collect k
    (fun _ k' => Inv k' ∧ (∃ dead trace, k' = { k with dead := dead, trace := trace }) ∧
      ∀ r, k.dead r = true → k'.dead r = true) (fun _ _ => False) := by
  have hinv := Does.weaken hI (.refl .base) (collect_does (P := .base) (g := .idle) hI rfl)
  have hends : Ends collect k (fun _ k' => (∃ dead trace,
      k' = { k with dead := dead, trace := trace }) ∧
      ∀ r, k.dead r = true → k'.dead r = true) (fun _ _ => False) := by
    simp only [collect, ends_get]
    exact collectWithin_ends _
  unfold Ends at hends ⊢
  cases hx : collect k with
  | ok a k' =>
    rw [hx] at hends
    obtain ⟨_, -, -, hI', -⟩ := Ends.ok hinv hx
    exact ⟨hI', hends⟩
  | error e k' =>
    rw [hx] at hends
    exact hends

/-! ## One thread -/

/-- `t` has been handed `s`, for which it waited first. -/
structure Handed (k k' : Kernel) (s t : Ref) : Prop where
  inv : Inv k'
  kind : k'.kind = k.kind
  dead : ∀ r, k.dead r = true → k'.dead r = true
  boundInterrupts : k'.boundInterrupts = k.boundInterrupts
  process : k'.process = k.process
  processHandles : k'.processHandles = k.processHandles
  observers : ∀ r x, x ≠ t → (k'.observers r).count x = (k.observers r).count x
  shorter : (k'.observers s).length < (k.observers s).length
  thread : ∀ r, r ≠ t → k'.thread r = k.thread r
  acquired : (k'.thread t).wokenObject = some s
  queue : ∀ r ∈ k.readyQueue, r ∈ k'.readyQueue
  woken : ((k.thread t).waitForAll = false ∨ (k.thread t).waitList = [s]) →
    (k'.thread t).status = .ready ∧ t ∈ k'.readyQueue ∧ t ∉ k'.observers s

/-- A waiting thread that takes an event goes on. -/
theorem onResourceAcquired_ends {event : Store Event} (hI : Inv k) (ho : k.observers s = t :: l)
    (hd : k.dead t = false)
    (htakes : k.Takes s t { k with event := event }) :
    Ends (onResourceAcquired t s)
      { k with event := event, observers := k.observers.modify s (·.erase t) }
      (fun _ k' => Handed k k' s t ∧ k'.event = event) (fun _ _ => False) := by
  have hmem : t ∈ k.observers s := by simp [ho]
  have hst : (k.thread t).status = .sleeping := hI.sleeping hd hmem
  have hw : s ∈ (k.thread t).waitList := hI.mem_waitList hd hmem
  simp only [onResourceAcquired, ends_get, validate, hst, decide_true, if_true, ends_pure_bind,
    List.contains_eq_mem, hw, Bool.not_true, Bool.false_eq_true, if_false, modifyThread,
    ends_modify]
  have hcounts : ∀ r, ((k.thread t).waitList.erase s).count r =
      (((k.observers.modify s (·.erase t)) r).count t) := by
    intro r
    rw [Store.get_modify]
    split
    next he => rw [he, List.count_erase_self, List.count_erase_self, hI.counts t s hd]
    next hne => rw [List.count_erase_of_ne hne, hI.counts t r hd]
  have hshort : ((k.observers s).filter (· ≠ t)).length < (k.observers s).length := by
    rw [ho, List.filter_cons, if_neg (by simp)]
    exact Nat.lt_succ_of_le (List.length_filter_le ..)
  -- the thread is ready: it waits for any object, or for no other
  have hwake : ∀ observers : Store (List Ref),
      (∀ r, observers r = (k.observers r).filter (· ≠ t)) →
      ((k.thread t).waitForAll = false ∨ (k.thread t).waitList.erase s = []) →
      Ends collect
        { k with
          event := event
          observers := observers
          thread := k.thread.modify t (fun thread =>
            { thread with wakeIndex := thread.waitList.idxOf s, wokenObject := some s,
                          waitList := [], status := .ready })
          readyQueue := t :: k.readyQueue
          trace := k.trace ++ [.woken t (.resource s)] }
        (fun _ k' => Handed k k' s t ∧ k'.event = event) (fun _ _ => False) := by
    intro observers hobs hlast
    have hact := Act.woken (P := .base) (g := .idle) (i := (k.thread t).waitList.idxOf s) ho hd hst
      htakes hlast hobs
    have hI' := hI.act hact
    rw [Store.modify_congr (g := fun thread : Thread =>
      { thread with wakeIndex := thread.waitList.idxOf s, wokenObject := some s,
                    waitList := [], status := .ready }) _ (by rfl)] at hI'
    refine (collect_ends hI').mono ?_ fun _ _ h => h
    rintro _ k' ⟨hI₁, ⟨dead, trace, rfl⟩, hdead⟩
    refine ⟨⟨hI₁, rfl, hdead, rfl, rfl, rfl, ?_, ?_, ?_, ?_, ?_, ?_⟩, rfl⟩
    · intro r x hx
      show (observers r).count x = _
      rw [hobs, List.count_filter (by simpa using hx)]
    · show (observers s).length < _
      rwa [hobs]
    · intro r hr
      exact Store.get_modify_ne _ _ hr
    · show ((k.thread.modify t _) t).wokenObject = _
      rw [Store.get_modify_self]
    · exact fun r hr => .tail _ hr
    · refine fun _ => ⟨?_, .head _, ?_⟩
      · show ((k.thread.modify t _) t).status = _
        rw [Store.get_modify_self]
      · show t ∉ observers s
        rw [hobs]
        simp
  cases hall : (k.thread t).waitForAll with
  | false =>
    simp only [Bool.not_false, Bool.true_or, if_true]
    refine Ends.bind (unregisterAll_ends _ hcounts) ?_
    rintro _ k' ⟨observers, rfl, hobs⟩
    simp only [ends_modify, emit, Store.modify_modify]
    refine hwake observers (fun r => ?_) (.inl hall)
    rw [hobs, Store.get_modify]
    split
    next => exact List.filter_ne_erase _ _
    next => rfl
  | true =>
    by_cases hlast : (k.thread t).waitList.erase s = []
    · simp only [hlast, Bool.not_true, Bool.false_or, List.isEmpty_nil, if_true,
        Bool.false_eq_true, if_false, ends_modify, emit, Store.modify_modify]
      refine hwake _ (fun r => ?_) (.inr hlast)
      have hnone : t ∉ (k.observers.modify s (·.erase t)) r := by
        rw [← List.count_eq_zero, ← hcounts, hlast, List.count_nil]
      rw [← List.filter_ne_of_not_mem hnone, Store.get_modify]
      split
      next => exact List.filter_ne_erase _ _
      next => rfl
    · simp only [List.isEmpty_eq_false_iff.2 hlast, Bool.not_true, Bool.false_or,
        Bool.false_eq_true, if_false]
      have hact := Act.acquired (P := .base) (g := .idle) (i := (k.thread t).waitList.idxOf s) ho
        hd hst htakes hall hlast
      have hI' := hI.act hact
      rw [Store.modify_congr (g := fun thread : Thread =>
        { thread with wakeIndex := thread.waitList.idxOf s, wokenObject := some s,
                      waitList := (k.thread t).waitList.erase s }) _ (by rfl)] at hI'
      refine (collect_ends hI').mono ?_ fun _ _ h => h
      rintro _ k' ⟨hI₁, ⟨dead, trace, rfl⟩, hdead⟩
      refine ⟨⟨hI₁, rfl, hdead, rfl, rfl, rfl, ?_, ?_, ?_, ?_, ?_, ?_⟩, rfl⟩
      · intro r x hx
        show ((k.observers.modify s (·.erase t)) r).count x = _
        rw [Store.get_modify]
        split
        · rw [List.count_erase_of_ne hx]
        · rfl
      · show ((k.observers.modify s (·.erase t)) s).length < _
        rw [Store.get_modify_self, ho, List.erase_cons_head]
        exact Nat.lt_succ_self _
      · intro r hr
        exact Store.get_modify_ne _ _ hr
      · show ((k.thread.modify t _) t).wokenObject = _
        rw [Store.get_modify_self]
      · exact fun _ hr => hr
      · rintro (h | h)
        · rw [hall] at h
          cases h
        · exact absurd (by rw [h, List.erase_cons_head]) hlast

/-! ## One event -/

/-- `t` has acquired `s`; it is ready if it waited for any object, or for no other. -/
structure Served (k k' : Kernel) (s t : Ref) : Prop where
  acquired : (k'.thread t).wokenObject = some s
  ready : ((k.thread t).waitForAll = false ∨ (k.thread t).waitList = [s]) →
    (k'.thread t).status = .ready ∧ t ∈ k'.readyQueue

/-- What handing out an event leaves alone. -/
structure Spares (k k' : Kernel) (s : Ref) : Prop where
  inv : Inv k'
  kind : k'.kind = k.kind
  dead : ∀ r, k.dead r = true → k'.dead r = true
  boundInterrupts : k'.boundInterrupts = k.boundInterrupts
  process : k'.process = k.process
  processHandles : k'.processHandles = k.processHandles
  queue : ∀ r ∈ k.readyQueue, r ∈ k'.readyQueue
  event : ∀ r, r ≠ s → k'.event r = k.event r
  type : (k'.event s).type = (k.event s).type
  thread : ∀ t, t ∉ k.waiting s → k'.thread t = k.thread t

theorem mem_waiting : t ∈ k.waiting s ↔ t ∈ k.observers s ∧ k.dead t = false := by
  rw [Kernel.waiting, List.mem_filter, Bool.not_eq_true']

theorem Spares.refl (hI : Inv k) : Spares k k s :=
  ⟨hI, rfl, fun _ h => h, rfl, rfl, rfl, fun _ h => h, fun _ _ => rfl, rfl, fun _ _ => rfl⟩

theorem Spares.trans {k₁ : Kernel} (h : Spares k k₁ s) (h' : Spares k₁ k' s)
    (hw : ∀ t ∈ k₁.waiting s, t ∈ k.waiting s) : Spares k k' s where
  inv := h'.inv
  kind := h'.kind.trans h.kind
  dead r hr := h'.dead r (h.dead r hr)
  boundInterrupts := h'.boundInterrupts.trans h.boundInterrupts
  process := h'.process.trans h.process
  processHandles := h'.processHandles.trans h.processHandles
  queue r hr := h'.queue r (h.queue r hr)
  event r hr := (h'.event r hr).trans (h.event r hr)
  type := h'.type.trans h.type
  thread t ht := (h'.thread t fun h₁ => ht (hw t h₁)).trans (h.thread t ht)

/-- A dead observer is taken out. -/
theorem waiting_prune (ho : k.observers s = t :: l) (hd : k.dead t = true) :
    Kernel.waiting { k with observers := k.observers.set s l } s = k.waiting s := by
  show ((k.observers.set s l) s).filter _ = (k.observers s).filter _
  rw [Store.get_set_self, ho, List.filter_cons, if_neg (by simp [hd])]

theorem Spares.pruned (ho : k.observers s = t :: l) (hd : k.dead t = true)
    (h : Spares { k with observers := k.observers.set s l } k' s) : Spares k k' s where
  inv := h.inv
  kind := h.kind
  dead := h.dead
  boundInterrupts := h.boundInterrupts
  process := h.process
  processHandles := h.processHandles
  queue := h.queue
  event := h.event
  type := h.type
  thread x hx := h.thread x (by rwa [waiting_prune ho hd])

theorem Handed.spares {event : Store Event} (h : Handed k k' s t) (he : k'.event = event)
    (ht : t ∈ k.waiting s) (hother : ∀ r, r ≠ s → event r = k.event r)
    (htype : (event s).type = (k.event s).type) : Spares k k' s where
  inv := h.inv
  kind := h.kind
  dead := h.dead
  boundInterrupts := h.boundInterrupts
  process := h.process
  processHandles := h.processHandles
  queue := h.queue
  event r hr := by rw [he, hother r hr]
  type := by rw [he, htype]
  thread x hx := h.thread x fun hxt => hx (hxt ▸ ht)

theorem Handed.waiting (h : Handed k k' s t) {x : Ref} (hx : x ≠ t) (hmem : x ∈ k'.waiting s) :
    x ∈ k.waiting s := by
  rw [mem_waiting] at hmem ⊢
  refine ⟨?_, ?_⟩
  · rw [← List.count_pos_iff, ← h.observers s x hx]
    exact List.count_pos_iff.2 hmem.1
  · by_contra hdead
    rw [Bool.not_eq_false] at hdead
    exact absurd (h.dead x hdead) (by simp [hmem.2])

/-- An event that is not signalled is handed to nobody. -/
theorem onResourceReadyWithin_unsignalled (s : Ref) : ∀ (n : Nat) {k : Kernel}, Inv k →
    k.kind s = .event → (k.event s).signalled = false → (k.observers s).length ≤ n →
    Ends (onResourceReadyWithin n s) k
      (fun _ k' => Inv k' ∧ ∃ observers, k' = { k with observers := observers })
      (fun _ _ => False)
  | 0, k, hI, _, _, _ => ⟨hI, _, rfl⟩
  | n + 1, k, hI, hk, hs, hn => by
    simp only [onResourceReadyWithin, ends_get]
    split
    next => exact ⟨hI, _, rfl⟩
    next t l ho =>
      apply Ends.split
      · intro hd
        have hI' := hI.act (Act.prune (P := .base) (g := .idle) ho hd)
        simp only [ends_set]
        refine (onResourceReadyWithin_unsignalled s n hI' hk hs ?_).mono ?_ fun _ _ h => h
        · simpa [ho] using hn
        · rintro _ k' ⟨hI', observers, rfl⟩
          exact ⟨hI', _, rfl⟩
      · intro hd
        rw [Bool.not_eq_true] at hd
        have hmem : t ∈ k.observers s := by simp [ho]
        have hst : (k.thread t).status = .sleeping := hI.sleeping hd hmem
        have hfails : Ends (tryAcquireImpl s t) k (fun b k' => b = false ∧ k' = k)
            (fun _ _ => False) := by
          simp only [tryAcquireImpl, ends_get, hk, hs, Bool.not_false, if_true, ends_pure, and_self]
        simp only [validate, hst, decide_true, if_true, ends_pure_bind, tryAcquire, ends_assoc]
        refine hfails.bind ?_
        rintro b k' ⟨rfl, rfl⟩
        exact ⟨hI, _, rfl⟩

/-- The events when a thread has taken `s`. -/
def Kernel.eventTaken (k : Kernel) (s : Ref) : Store Event :=
  if (k.event s).type = .oneShot then
    k.event.modify s (fun event => { event with signalled := false })
  else k.event

/-- The first thread that waits for a signalled event takes it. -/
theorem tryAcquire_signalled (hk : k.kind s = .event) (hs : (k.event s).signalled = true)
    (htype : (k.event s).type ≠ .pulse) :
    k.Takes s t { k with event := k.eventTaken s } := by
  rw [Kernel.Takes, Kernel.eventTaken]
  cases ht : (k.event s).type with
  | oneShot =>
    rw [if_pos rfl]
    simp only [tryAcquireImpl, bind, EStateM.bind, get, getThe, MonadStateOf.get, EStateM.get, hk,
      hs, ht, Bool.not_true, Bool.false_eq_true, if_false]
    rfl
  | sticky =>
    rw [if_neg (by decide)]
    simp only [tryAcquireImpl, bind, EStateM.bind, get, getThe, MonadStateOf.get, EStateM.get, hk,
      hs, ht, Bool.not_true, Bool.false_eq_true, if_false]
    rfl
  | pulse => exact absurd ht htype

/-- A pass of the loop that hands the event to the first observer. -/
theorem handOut_ends (hI : Inv k) (ho : k.observers s = t :: l) (hd : k.dead t = false)
    {event : Store Event} (htakes : k.Takes s t { k with event := event }) {f : Unit → KM Unit}
    {Q : Unit → Kernel → Prop}
    (hf : ∀ k', Handed k k' s t → k'.event = event → Ends (f ()) k' Q (fun _ _ => False)) :
    Ends (validate ((k.thread t).status = .sleeping)
        "thread->status == Thread::Status::Sleeping" >>= fun _ => tryAcquire s t >>= fun b =>
        if b then onResourceAcquired t s >>= f else pure ()) k Q (fun _ _ => False) := by
  have hmem : t ∈ k.observers s := by simp [ho]
  have hst : (k.thread t).status = .sleeping := hI.sleeping hd hmem
  have htry : Ends (tryAcquireImpl s t) k (fun b k' => b = true ∧ k' = { k with event := event })
      (fun _ _ => False) := by
    rw [Kernel.Takes] at htakes
    rw [Ends, htakes]
    exact ⟨rfl, rfl⟩
  simp only [validate, hst, decide_true, if_true, ends_pure_bind, tryAcquire, ends_assoc]
  refine htry.bind ?_
  rintro b k' ⟨rfl, rfl⟩
  have hcontains : (k.observers s).contains t = true := by simpa using hmem
  simp only [if_true, unregister, ends_assoc, ends_get, validate, hcontains, ends_pure_bind,
    ends_modify]
  refine (onResourceAcquired_ends hI ho hd htakes).bind ?_
  rintro _ k' ⟨hh, he⟩
  exact hf k' hh he

/-- A sticky event that is signalled is handed to every thread that waits for it. -/
theorem onResourceReadyWithin_sticky (s : Ref) : ∀ (n : Nat) {k : Kernel}, Inv k →
    k.kind s = .event → (k.event s).signalled = true → (k.event s).type = .sticky →
    (k.observers s).length ≤ n →
    Ends (onResourceReadyWithin n s) k
      (fun _ k' => Spares k k' s ∧ k'.event = k.event ∧
        ∀ t ∈ k.waiting s, k'.dead t = true ∨ Served k k' s t)
      (fun _ _ => False)
  | 0, k, hI, hk, hs, htype, hn => by
    have ho : k.observers s = [] := List.length_eq_zero_iff.1 (Nat.le_zero.1 hn)
    refine ⟨.refl hI, rfl, fun t ht => ?_⟩
    simp [Kernel.waiting, ho] at ht
  | n + 1, k, hI, hk, hs, htype, hn => by
    simp only [onResourceReadyWithin, ends_get]
    split
    next ho =>
      refine ⟨.refl hI, rfl, fun t ht => ?_⟩
      simp [Kernel.waiting, ho] at ht
    next t l ho =>
      apply Ends.split
      · intro hd
        have hI' := hI.act (Act.prune (P := .base) (g := .idle) ho hd)
        simp only [ends_set]
        refine (onResourceReadyWithin_sticky s n hI' hk hs htype ?_).mono ?_ fun _ _ h => h
        · simpa [ho] using hn
        · rintro _ k' ⟨hsp, he, hserved⟩
          rw [waiting_prune ho hd] at hserved
          refine ⟨hsp.pruned ho hd, he, fun x hx => ?_⟩
          exact (hserved x hx).imp id fun h => ⟨h.acquired, h.ready⟩
      · intro hd
        rw [Bool.not_eq_true] at hd
        have ht : t ∈ k.waiting s := mem_waiting.2 ⟨by simp [ho], hd⟩
        have htakes := tryAcquire_signalled (t := t) hk hs (by simp [htype])
        rw [Kernel.eventTaken, if_neg (by simp [htype])] at htakes
        refine handOut_ends hI ho hd htakes fun k₁ hh he => ?_
        have hsp := hh.spares he ht (fun _ _ => rfl) rfl
        refine (onResourceReadyWithin_sticky s n hh.inv (hh.kind ▸ hk) (he ▸ hs) (he ▸ htype)
          ?_).mono ?_ fun _ _ h => h
        · have := hh.shorter
          omega
        · rintro _ k' ⟨hsp', he', hserved⟩
          refine ⟨hsp.trans hsp' fun x hx => ?_, he'.trans he, fun x hx => ?_⟩
          · by_cases hxt : x = t
            · exact hxt ▸ ht
            · exact hh.waiting hxt hx
          · by_cases hwait : x ∈ k₁.waiting s
            · refine (hserved x hwait).imp id fun h => ⟨h.acquired, fun hr => ?_⟩
              by_cases hxt : x = t
              · subst hxt
                exact absurd (mem_waiting.1 hwait).1 (hh.woken hr).2.2
              · exact h.ready (by rwa [hh.thread x hxt])
            · by_cases hxt : x = t
              · subst hxt
                refine .inr ⟨by rw [hsp'.thread x hwait]; exact hh.acquired, fun hr => ?_⟩
                obtain ⟨hready, hqueue, -⟩ := hh.woken hr
                exact ⟨by rw [hsp'.thread x hwait]; exact hready, hsp'.queue x hqueue⟩
              · refine .inl (hsp'.dead x ?_)
                by_contra hx'
                refine hwait (mem_waiting.2 ⟨?_, by simpa using hx'⟩)
                rw [← List.count_pos_iff, hh.observers s x hxt]
                exact List.count_pos_iff.2 (mem_waiting.1 hx).1

/-- A one-shot event that is signalled is handed to the first thread that waits for it. -/
theorem onResourceReadyWithin_oneShot (s : Ref) : ∀ (n : Nat) {k : Kernel}, Inv k →
    k.kind s = .event → (k.event s).signalled = true → (k.event s).type = .oneShot →
    (k.observers s).length ≤ n →
    Ends (onResourceReadyWithin n s) k
      (fun _ k' => Spares k k' s ∧ (k.waiting s = [] → k'.event = k.event) ∧
        ∀ t l, k.waiting s = t :: l → (k'.event s).signalled = false ∧ Served k k' s t ∧
          ∀ x, x ≠ t → k'.thread x = k.thread x)
      (fun _ _ => False)
  | 0, k, hI, hk, hs, htype, hn => by
    have ho : k.observers s = [] := List.length_eq_zero_iff.1 (Nat.le_zero.1 hn)
    refine ⟨.refl hI, fun _ => rfl, fun t l ht => ?_⟩
    simp [Kernel.waiting, ho] at ht
  | n + 1, k, hI, hk, hs, htype, hn => by
    simp only [onResourceReadyWithin, ends_get]
    split
    next ho =>
      refine ⟨.refl hI, fun _ => rfl, fun t l ht => ?_⟩
      simp [Kernel.waiting, ho] at ht
    next t l ho =>
      apply Ends.split
      · intro hd
        have hI' := hI.act (Act.prune (P := .base) (g := .idle) ho hd)
        simp only [ends_set]
        refine (onResourceReadyWithin_oneShot s n hI' hk hs htype ?_).mono ?_ fun _ _ h => h
        · simpa [ho] using hn
        · rintro _ k' ⟨hsp, hnone, hfirst⟩
          rw [waiting_prune ho hd] at hnone hfirst
          refine ⟨hsp.pruned ho hd, hnone, fun x rest hx => ?_⟩
          obtain ⟨hsignal, hserved, hother⟩ := hfirst x rest hx
          exact ⟨hsignal, ⟨hserved.acquired, hserved.ready⟩, hother⟩
      · intro hd
        rw [Bool.not_eq_true] at hd
        have ht : t ∈ k.waiting s := mem_waiting.2 ⟨by simp [ho], hd⟩
        have hhead : k.waiting s = t :: (l.filter fun x => !k.dead x) := by
          rw [Kernel.waiting, ho, List.filter_cons, if_pos (by simp [hd])]
        have htakes := tryAcquire_signalled (t := t) hk hs (by simp [htype])
        have htaken : ∀ r, k.eventTaken s r = if r = s then
            { k.event s with signalled := false } else k.event r := by
          intro r
          rw [Kernel.eventTaken, if_pos htype, Store.get_modify]
          split
          next h => rw [h]
          next => rfl
        refine handOut_ends hI ho hd htakes fun k₁ hh he => ?_
        have hsp := hh.spares he ht (fun r hr => by rw [htaken, if_neg hr])
          (by rw [htaken, if_pos rfl])
        have hoff : (k₁.event s).signalled = false := by rw [he, htaken, if_pos rfl]
        refine (onResourceReadyWithin_unsignalled s n hh.inv (by rw [hh.kind, hk]) hoff
          ?_).mono ?_ fun _ _ h => h
        · have := hh.shorter
          omega
        · rintro _ k' ⟨hI', observers, rfl⟩
          refine ⟨⟨hI', hsp.kind, hsp.dead, hsp.boundInterrupts, hsp.process, hsp.processHandles,
            hsp.queue, hsp.event, hsp.type, hsp.thread⟩, fun hnone => ?_, fun x rest hx => ?_⟩
          · rw [hhead] at hnone
            cases hnone
          · rw [hhead] at hx
            obtain ⟨rfl, -⟩ := List.cons.inj hx
            refine ⟨hoff, ⟨hh.acquired, fun hr => ?_⟩, hh.thread⟩
            obtain ⟨hready, hqueue, -⟩ := hh.woken hr
            exact ⟨hready, hqueue⟩

/-- What signalling an event does: a sticky one is handed to every thread that waits for it and
stays signalled, a one-shot one to the first only and stays signalled if there is none. -/
structure Delivered (k k' : Kernel) (s : Ref) : Prop where
  spares : Spares k k' s
  sticky : (k.event s).type = .sticky → (k'.event s).signalled = true ∧
    ∀ t ∈ k.waiting s, k'.dead t = true ∨ Served k k' s t
  unclaimed : (k.event s).type = .oneShot → k.waiting s = [] → (k'.event s).signalled = true
  oneShot : (k.event s).type = .oneShot → ∀ t l, k.waiting s = t :: l →
    (k'.event s).signalled = false ∧ Served k k' s t ∧ ∀ x, x ≠ t → k'.thread x = k.thread x

theorem onResourceReadyWithin_delivers {n : Nat} (hI : Inv k) (hk : k.kind s = .event)
    (hs : (k.event s).signalled = true) (htype : (k.event s).type ≠ .pulse)
    (hn : (k.observers s).length ≤ n) :
    Ends (onResourceReadyWithin n s) k (fun _ k' => Delivered k k' s) (fun _ _ => False) := by
  cases ht : (k.event s).type with
  | oneShot =>
    refine (onResourceReadyWithin_oneShot s n hI hk hs ht hn).mono ?_ fun _ _ h => h
    rintro _ k' ⟨hsp, hnone, hfirst⟩
    refine ⟨hsp, fun h => ?_, fun _ hw => by rw [hnone hw, hs], fun _ => hfirst⟩
    rw [ht] at h
    cases h
  | sticky =>
    refine (onResourceReadyWithin_sticky s n hI hk hs ht hn).mono ?_ fun _ _ h => h
    rintro _ k' ⟨hsp, he, hserved⟩
    refine ⟨hsp, fun _ => ⟨by rw [he, hs], hserved⟩, fun h => ?_, fun h => ?_⟩
    · rw [ht] at h
      cases h
    · rw [ht] at h
      cases h
  | pulse => exact absurd ht htype

/-- The event is signalled first. -/
theorem Delivered.before {event : Store Event} {locals : List Ref}
    (h : Delivered { k with event := event, locals := locals } k' s)
    (hother : ∀ r, r ≠ s → event r = k.event r) (htype : (event s).type = (k.event s).type) :
    Delivered k k' s where
  spares :=
    { h.spares with
      event := fun r hr => (h.spares.event r hr).trans (hother r hr)
      type := h.spares.type.trans htype }
  sticky ht := by
    obtain ⟨hsignal, hserved⟩ := h.sticky (htype.trans ht)
    exact ⟨hsignal, fun t hw => (hserved t hw).imp id fun h => ⟨h.acquired, h.ready⟩⟩
  unclaimed ht := h.unclaimed (htype.trans ht)
  oneShot ht t l hw := by
    obtain ⟨hsignal, hserved, hthread⟩ := h.oneShot (htype.trans ht) t l hw
    exact ⟨hsignal, ⟨hserved.acquired, hserved.ready⟩, hthread⟩

/-- References are given up and objects destroyed behind. -/
theorem Delivered.after {locals : List Ref} {dead : Store Bool} {trace : List Obs}
    (h : Delivered k k' s)
    (hI : Inv { k' with locals := locals, dead := dead, trace := trace })
    (hd : ∀ r, k'.dead r = true → dead r = true) :
    Delivered k { k' with locals := locals, dead := dead, trace := trace } s where
  spares :=
    { h.spares with
      inv := hI
      dead := fun r hr => hd r (h.spares.dead r hr) }
  sticky ht := by
    obtain ⟨hsignal, hserved⟩ := h.sticky ht
    exact ⟨hsignal, fun t hw => (hserved t hw).imp (hd t) fun h => ⟨h.acquired, h.ready⟩⟩
  unclaimed := h.unclaimed
  oneShot ht t l hw := by
    obtain ⟨hsignal, hserved, hthread⟩ := h.oneShot ht t l hw
    exact ⟨hsignal, ⟨hserved.acquired, hserved.ready⟩, hthread⟩

theorem signalEvent_delivers (hI : Inv k) (hd : k.dead s = false) (hk : k.kind s = .event)
    (htype : (k.event s).type ≠ .pulse) :
    Ends (signalEvent s) k (fun _ k' => Delivered k k' s) (fun _ _ => False) := by
  have hother : ∀ r, r ≠ s → (k.event.modify s fun event => { event with signalled := true }) r =
      k.event r := fun r hr => Store.get_modify_ne _ _ hr
  have hself : (k.event.modify s fun event => { event with signalled := true }) s =
      { k.event s with signalled := true } := Store.get_modify_self ..
  have hI₁ := hI.act (Act.data (P := .base) (g := .idle) (s := s) (fun _ _ => rfl)
    (fun _ _ => rfl) hother (fun _ _ => rfl))
  have hI₂ := hI₁.act (Act.hold (P := .base) (g := .idle) hd)
  simp only [signalEvent, onResourceReady, holding, ends_modify, ends_assoc, ends_get]
  refine (onResourceReadyWithin_delivers hI₂ hk (by rw [hself]) (by rw [hself]; exact htype)
    (le_refl _)).bind ?_
  rintro _ k' hdel
  have hrel := hdel.spares.inv.act (Act.release (P := .base) (g := .idle) (r := s))
  simp only [ends_modify, ends_pure]
  exact (hdel.before (k := k) hother (by rw [hself])).after hrel fun _ h => h

/-- One pass of the loop of `NotifyInterrupt`: the event is signalled and let go of. -/
def signalLocked (s : Ref) : KM Unit := do
  holding s (signalEvent s)
  collect

theorem signalLocked_delivers (hI : Inv k) (hd : k.dead s = false) (hk : k.kind s = .event)
    (htype : (k.event s).type ≠ .pulse) :
    Ends (signalLocked s) k (fun _ k' => Delivered k k' s) (fun _ _ => False) := by
  have hI₁ := hI.act (Act.hold (P := .base) (g := .idle) hd)
  simp only [signalLocked, holding, ends_modify, ends_assoc]
  refine (signalEvent_delivers hI₁ hd hk htype).bind ?_
  rintro _ k' hdel
  have hrel := hdel.spares.inv.act (Act.release (P := .base) (g := .idle) (r := s))
  simp only [ends_assoc, ends_modify, ends_pure_bind]
  refine (collect_ends hrel).mono ?_ fun _ _ h => h
  rintro _ k' ⟨hI', ⟨dead, trace, rfl⟩, hmono⟩
  exact (hdel.before (k := k) (fun _ _ => rfl) rfl).after hI' hmono

theorem signalBound_dead (hd : k.dead s = true) :
    signalBound (s :: l) k = .error (.nullPointer "locked_observer") k := by
  simp only [signalBound, bind, EStateM.bind, get, getThe, MonadStateOf.get, EStateM.get, hd,
    if_true]
  rfl

theorem signalBound_cons {a : Unit} (hd : k.dead s = false) (hx : signalLocked s k = .ok a k') :
    signalBound (s :: l) k = signalBound l k' := by
  have hassoc : signalBound (s :: l) k = (signalLocked s >>= fun _ => signalBound l) k := by
    rw [signalLocked, bind_assoc]
    simp only [signalBound, bind, EStateM.bind, get, getThe, MonadStateOf.get, EStateM.get, hd,
      Bool.false_eq_true, if_false]
  rw [hassoc, EStateM.bind_of_ok hx]

/-! ## A list of events -/

/-- The events are delivered one after the other, each while it exists. -/
inductive Deliveries : List Ref → Kernel → Kernel → Prop where
  | nil {k : Kernel} : Deliveries [] k k
  | cons {k k₁ k' : Kernel} {s : Ref} {l : List Ref} : k.dead s = false → Delivered k k₁ s →
      Deliveries l k₁ k' → Deliveries (s :: l) k k'

/-- Every one of them is an event of a type that `SVCCreateEvent` makes. -/
def AreEvents (l : List Ref) (k : Kernel) : Prop :=
  ∀ s ∈ l, k.kind s = .event ∧ (k.event s).type ≠ .pulse

theorem AreEvents.tail (h : AreEvents (s :: l) k) (hsp : Spares k k' s) : AreEvents l k' := by
  intro r hr
  obtain ⟨hkind, htype⟩ := h r (List.mem_cons_of_mem _ hr)
  refine ⟨by rw [hsp.kind, hkind], ?_⟩
  by_cases hrs : r = s
  · rw [hrs, hsp.type]
    exact (h s List.mem_cons_self).2
  · rwa [hsp.event r hrs]

/-- Each of the events exists when its turn comes. -/
def existInTurn : List Ref → Kernel → Bool
  | [], _ => true
  | s :: l, k => !k.dead s &&
    match signalLocked s k with
    | .ok _ k' => existInTurn l k'
    | .error _ _ => false

theorem signalBound_exact : ∀ {l : List Ref} {k : Kernel}, Inv k → AreEvents l k →
    (existInTurn l k = true → ∃ k', signalBound l k = .ok () k' ∧ Deliveries l k k') ∧
    (existInTurn l k = false → ∃ k', signalBound l k = .error lockedObserver k')
  | [], k, _, _ => ⟨fun _ => ⟨k, rfl, .nil⟩, fun h => nomatch h⟩
  | s :: l, k, hI, hevents => by
    rw [existInTurn]
    cases hd : k.dead s with
    | true => exact ⟨fun h => (nomatch h), fun _ => ⟨k, signalBound_dead hd⟩⟩
    | false =>
      obtain ⟨hk, htype⟩ := hevents s List.mem_cons_self
      have hdel := signalLocked_delivers hI hd hk htype
      unfold Ends at hdel
      rw [Bool.not_false, Bool.true_and]
      cases hx : signalLocked s k with
      | error e k₁ =>
        rw [hx] at hdel
        exact hdel.elim
      | ok _ k₁ =>
        rw [hx] at hdel
        rw [signalBound_cons hd hx]
        obtain ⟨hok, herror⟩ := signalBound_exact hdel.spares.inv (hevents.tail hdel.spares)
        refine ⟨fun h => ?_, fun h => herror h⟩
        obtain ⟨k', hrun, hdeliveries⟩ := hok h
        exact ⟨k', hrun, .cons hd hdel hdeliveries⟩

/-- A running process has a handle to `s`. -/
def Kernel.HasHandle (k : Kernel) (s : Ref) : Prop :=
  ∃ p ∈ k.processHandles, ∃ handle, (handle, s) ∈ (k.process p).table

theorem Kernel.HasHandle.not_dead (h : k.HasHandle s) (hI : Inv k) : k.dead s = false := by
  obtain ⟨p, hp, handle, hentry⟩ := h
  exact (hI.alive_of_table (hI.processHandles p hp).2 hentry).2

/-- Signalling an event closes no handle. -/
theorem existInTurn_of_hasHandle : ∀ {l : List Ref} {k : Kernel}, Inv k → AreEvents l k →
    (∀ s ∈ l, k.HasHandle s) → existInTurn l k = true
  | [], _, _, _, _ => rfl
  | s :: l, k, hI, hevents, hhandles => by
    have hd := (hhandles s List.mem_cons_self).not_dead hI
    obtain ⟨hk, htype⟩ := hevents s List.mem_cons_self
    have hdel := signalLocked_delivers hI hd hk htype
    unfold Ends at hdel
    rw [existInTurn, hd, Bool.not_false, Bool.true_and]
    cases hx : signalLocked s k with
    | error e k₁ =>
      rw [hx] at hdel
      exact hdel.elim
    | ok _ k₁ =>
      rw [hx] at hdel
      refine existInTurn_of_hasHandle hdel.spares.inv (hevents.tail hdel.spares) fun r hr => ?_
      rw [Kernel.HasHandle, hdel.spares.process, hdel.spares.processHandles]
      exact hhandles r (List.mem_cons_of_mem _ hr)

/-! ## Runs -/

/-- The number of entries of `bound_interrupts`. -/
def interruptLimit : Nat := 0x76

/-- `SVCBindInterrupt` has written nothing behind the table. A binding is never taken back. -/
def Kernel.BoundInTable (k : Kernel) : Prop :=
  ∀ index, interruptLimit ≤ index → k.boundInterrupts index = []

instance : Decidable k.BoundInTable :=
  decidable_of_iff (∀ l ∈ k.boundInterrupts.toList.drop interruptLimit, l = []) <| by
    constructor
    · intro h index hindex
      show k.boundInterrupts.toList.getD index [] = []
      rw [List.getD_eq_getElem?_getD]
      cases hl : k.boundInterrupts.toList[index]? with
      | none => rfl
      | some l =>
        refine h l (List.mem_of_getElem? (i := index - interruptLimit) ?_)
        rw [List.getElem?_drop, Nat.add_sub_cancel' hindex, hl]
    · intro h l hl
      obtain ⟨i, hi⟩ := List.mem_iff_getElem?.1 hl
      rw [List.getElem?_drop] at hi
      have hnone := h (interruptLimit + i) (Nat.le_add_right _ _)
      change k.boundInterrupts.toList.getD _ [] = [] at hnone
      rwa [List.getD_eq_getElem?_getD, hi] at hnone

/-- `NotifyInterrupt` returns, it has delivered the events bound to the interrupt, and no access has
gone outside the table. -/
def Notifies (index : Nat) (k : Kernel) : Prop :=
  k.BoundInTable ∧ index < interruptLimit ∧
    ∃ k', notifyInterrupt index k = .ok () k' ∧ Deliveries (k.boundInterrupts index) k k'

theorem Kernel.Bindings.areEvents (h : k.Bindings) (index : Nat) :
    AreEvents (k.boundInterrupts index) k := fun s hs => ⟨h.bound index s hs, h.type s⟩

theorem notifies_iff {index : Nat} (hI : Inv k) (hB : k.Bindings) :
    (Notifies index k ↔ k.BoundInTable ∧ index < interruptLimit ∧
      existInTurn (k.boundInterrupts index) k = true) ∧
    (existInTurn (k.boundInterrupts index) k = false →
      ∃ k', notifyInterrupt index k = .error lockedObserver k') := by
  obtain ⟨hok, herror⟩ := signalBound_exact hI (hB.areEvents index)
  have hrun : notifyInterrupt index k = signalBound (k.boundInterrupts index) k := rfl
  rw [hrun]
  refine ⟨⟨?_, ?_⟩, herror⟩
  · rintro ⟨htable, hindex, k', hrun', -⟩
    refine ⟨htable, hindex, ?_⟩
    by_contra hnot
    obtain ⟨k₁, hfail⟩ := herror (by simpa using hnot)
    rw [hrun, hfail] at hrun'
    cases hrun'
  · rintro ⟨htable, hindex, hexist⟩
    exact ⟨htable, hindex, hok hexist⟩

/-- In every run, whatever interrupts have been raised since the last pass, the next one is
delivered if and only if its events all exist in turn, as they do if a running process has a handle
to each; otherwise a null event is dereferenced. The interrupts within a pass come to that only if
an event has been destroyed that is bound. -/
theorem notifyInterrupt_exact (h : Reached env k) :
    (∀ before k' index, raiseInterrupts before k = .ok () k' →
      (Notifies index k' ↔ k'.BoundInTable ∧ index < interruptLimit ∧
        existInTurn (k'.boundInterrupts index) k' = true) ∧
      (existInTurn (k'.boundInterrupts index) k' = false →
        ∃ k₁, notifyInterrupt index k' = .error lockedObserver k₁) ∧
      ((∀ s ∈ k'.boundInterrupts index, k'.HasHandle s) →
        existInTurn (k'.boundInterrupts index) k' = true)) ∧
    ∀ turn k', dispatch env turn k = .error lockedObserver k' → k'.BindsDestroyed := by
  refine ⟨fun before k' index hb => ?_, fun turn k' he => ?_⟩
  · have hI : Inv k' := ((raiseInterrupts_calm before h.sound).ok hb).1.toInv
    have hB : k'.Bindings := (((raiseInterrupts_keepsBindings before).ends k h.bindings).ok hb).1
    obtain ⟨hiff, hnull⟩ := notifies_iff hI hB
    exact ⟨hiff, hnull, existInTurn_of_hasHandle hI (hB.areEvents index)⟩
  · exact (dispatch_keepsBindings.ends k h.bindings).error he rfl

/-- Thread 3 creates event 4, binds it to an interrupt and waits for it. -/
def bindAndWait : List Turn :=
  [{ svc := .createProcess false }, { svc := .run 1 48 }, { svc := .createEvent .oneShot }, {},
   { svc := .bindInterrupt 0x2c 1 }, {}, { svc := .waitSynchronizationN [1] false (-1) }]

/-- The interrupt wakes the thread. -/
theorem notifyInterrupt_exact_waiting : ∃ k : Kernel, k.boundInterrupts 0x2c = [4] ∧
    k.waiting 4 = [3] ∧ Notifies 0x2c k := by
  have hpasses : (passes .sorting bindAndWait boot).any (fun k => decide
      ((k.boundInterrupts 0x2c = [4] ∧ k.waiting 4 = [3]) ∧
        k.BoundInTable ∧ 0x2c < interruptLimit ∧ existInTurn (k.boundInterrupts 0x2c) k = true)) =
      true := by decide +kernel
  obtain ⟨k, hk, hp⟩ := (Option.any_eq_true _ _).1 hpasses
  obtain ⟨⟨hbound, hwaiting⟩, hcond⟩ := of_decide_eq_true hp
  have hreached := (passes_reached (.start rfl) hk).1
  exact ⟨k, hbound, hwaiting, ((notifyInterrupt_exact hreached).1 [] k 0x2c rfl).1.2 hcond⟩

/-- Thread 3 creates event 4, binds it to an interrupt and behind the table, and closes its
handle. -/
def bindAndClose : List Turn :=
  [{ svc := .createProcess false }, { svc := .run 1 48 }, { svc := .createEvent .oneShot }, {},
   { svc := .bindInterrupt 0x2c 1 }, {}, { svc := .bindInterrupt 0x76 1 }, {},
   { dropped := [4], svc := .closeHandle 1 }]

/-- The interrupt finds the event destroyed, and `SVCBindInterrupt` took the index. -/
theorem notifyInterrupt_destroyed : ∃ k, Reached .sorting k ∧ k.boundInterrupts 0x2c = [4] ∧
    k.dead 4 = true ∧ k.boundInterrupts 0x76 = [4] ∧ ¬ Notifies 0x2c k ∧
    ∃ k', notifyInterrupt 0x2c k = .error lockedObserver k' := by
  have hpasses : (passes .sorting bindAndClose boot).any (fun k => decide
      (k.boundInterrupts 0x2c = [4] ∧ k.dead 4 = true ∧ k.boundInterrupts 0x76 = [4])) = true := by
    decide +kernel
  obtain ⟨k, hk, hp⟩ := (Option.any_eq_true _ _).1 hpasses
  obtain ⟨hbound, hdead, hbehind⟩ := of_decide_eq_true hp
  have hfail : notifyInterrupt 0x2c k = .error lockedObserver k := by
    show signalBound (k.boundInterrupts 0x2c) k = _
    rw [hbound]
    exact signalBound_dead hdead
  refine ⟨k, (passes_reached (.start rfl) hk).1, hbound, hdead, hbehind, ?_, k, hfail⟩
  rintro ⟨-, -, k', hok, -⟩
  rw [hfail] at hok
  cases hok

end Mikage
