import Mikage.OS.Handles

/-!
# Blocking, accounted for

`svcWaitSynchronizationN` registers the thread before it looks at the objects. Its registrations are
left out of the account until it is known for which objects the thread blocks (`Registered`).
-/

namespace Mikage

open KM Account

variable {P : Powers} {β : Type} {k k' k₁ s₁ : Kernel} {g : Phase} {r s t x y : Ref} {l : List Ref}
  {R : β → Kernel → Phase → Prop}

/-! ## Registrations -/

/-- `s₁` is `k` with `t` registered for the objects `l`. -/
structure Registered (k : Kernel) (t : Ref) (l : List Ref) (s₁ : Kernel) : Prop where
  rest : s₁ = { k with observers := s₁.observers, thread := s₁.thread }
  observers : ∀ r, s₁.observers r = k.observers r ++ List.replicate (l.count r) t
  thread : ∀ r, s₁.thread r = if r = t then { k.thread t with waitList := l } else k.thread r

namespace Registered

theorem refl (h : (k.thread t).waitList = []) : Registered k t [] k where
  rest := rfl
  observers r := by simp
  thread r := by
    split
    next he => rw [he, ← h]
    next => rfl

theorem self (h : Registered k t l s₁) : s₁.thread t = { k.thread t with waitList := l } := by
  rw [h.thread, if_pos rfl]

/-- The object of one more handle. -/
theorem add (h : Registered k t l s₁) (x : Ref) : Registered k t (l ++ [x])
    { s₁ with
      observers := s₁.observers.modify x (· ++ [t])
      thread := s₁.thread.modify t (fun thread =>
        { thread with waitList := thread.waitList ++ [x] }) } where
  rest := by
    have := h.rest
    rw [this]
  observers r := by
    simp only [Store.get_modify, h.observers, List.count_append, List.count_singleton]
    split
    next he => simp [he, List.replicate_succ']
    next hne => simp [Ne.symm hne]
  thread r := by
    simp only [Store.get_modify]
    split
    next he => rw [he, h.self]
    next hne => rw [h.thread, if_neg hne]

/-- All registrations are gone. -/
theorem back (h : Registered k t [] s₁) (hw : (k.thread t).waitList = []) :
    Act P (k, g) (s₁, g) := by
  have hact : Act P (k, g) ({ k with observers := s₁.observers, thread := s₁.thread }, g) := by
    refine .same (fun r => by simpa using h.observers r) (fun r => ?_)
    rw [h.thread]
    split
    next he => rw [he, ← hw]
    next => rfl
  rwa [← h.rest] at hact

end Registered

/-- What `tryAcquireImpl` answers does not depend on registrations. -/
theorem tryAcquireImpl_register (observers : Store (List Ref)) {thread : Store Thread}
    (hthread : ∀ x, (thread x).status = (k.thread x).status) :
    tryAcquireImpl s t { k with observers := observers, thread := thread } =
      match tryAcquireImpl s t k with
      | .ok b k₁ => .ok b { k₁ with observers := observers, thread := thread }
      | .error e k₁ => .error e { k₁ with observers := observers, thread := thread } := by
  have hget : ∀ (f : Kernel → KM Bool) (k : Kernel), (get >>= f) k = f k k := fun _ _ => rfl
  have hpure : ∀ (b : Bool) (k : Kernel), (pure b : KM Bool) k = .ok b k := fun _ _ => rfl
  have hthrow : ∀ (e : Exception) (k : Kernel), (throw e : KM Bool) k = .error e k := fun _ _ => rfl
  simp only [tryAcquireImpl, hget]
  cases hk : k.kind s <;> simp only [hpure, hthrow, hthread]
  case serverSession =>
    simp only [Kernel.lock]
    cases Option.filter (fun r => !k.dead r) (k.session (k.serverSession s).session).client with
    | none => rfl
    | some cs => dsimp only; split <;> rfl
  case clientPort =>
    simp only [Kernel.lock]
    cases Option.filter (fun r => !k.dead r) (k.port (k.clientPort s).port).server <;> rfl
  case mutex =>
    simp only [Kernel.lock]
    split
    · cases Option.filter (fun r => !k.dead r) (k.mutex s).owner with
      | none => rfl
      | some owner =>
        dsimp only
        split
        · rfl
        · simp only [lockMutex, hget]
          split <;> rfl
    · simp only [lockMutex, hget]
      split <;> rfl
  case semaphore =>
    simp only [validate]
    split
    · split <;> rfl
    · rfl
  case event =>
    split
    · rfl
    · cases (k.event s).type <;> rfl
  case timer =>
    have hnow : Kernel.now { k with observers := observers, thread := thread } = k.now := rfl
    simp only [hnow]
    split
    · rfl
    · cases (k.timer s).type <;> rfl

/-! ## WaitSynchronizationN -/

theorem registerHandles_ends (hI : Inv k) (hp : k.dead (k.thread t).process = false) :
    ∀ (handles : List Handle) {l : List Ref} {s₁ : Kernel}, Registered k t l s₁ →
    Ends (registerHandles t handles) s₁
      (fun _ s' => ∃ l', Registered k t (l ++ l') s' ∧ l'.length = handles.length ∧
        ∀ x ∈ l', k.Alive x ∧ (k.kind x).isSubject = true)
      (fun e s' => s'.trace = k.trace ∧ e ∉ Exception.asserted)
  | [], l, s₁, h => ⟨[], by rwa [List.append_nil], rfl, by simp⟩
  | handle :: handles, l, s₁, h => by
    have hrest := h.rest
    have hthread : (s₁.thread t).process = (k.thread t).process := by rw [h.self]
    have htable : s₁.lookup t handle = k.lookup t handle := by
      rw [Kernel.lookup, Kernel.lookup, Kernel.handleTable, hthread, hrest]
      rfl
    refine Ends.bind (Ends.mono getObject_ends (fun _ _ h => h) ?_) ?_
    · rintro e _ ⟨rfl, he⟩
      exact ⟨by rw [hrest], he⟩
    · rintro x _ ⟨rfl, hx, hk⟩
      rw [htable] at hx
      simp only [registerObserver, modifyThread, ends_modify]
      refine Ends.mono (registerHandles_ends hI hp handles (h.add x)) ?_ (fun _ _ h => h)
      rintro _ s' ⟨l', hl', hlen, hsub⟩
      refine ⟨x :: l', by simpa using hl', by simp [hlen], fun y hy => ?_⟩
      rcases List.mem_cons.1 hy with rfl | hy
      · refine ⟨hI.lookup_alive hp hx, ?_⟩
        rw [hrest] at hk
        exact hk
      · exact hsub y hy

namespace Registered

variable {i : Nat}

theorem tryAcquireImpl_ends (h : Registered k t l s₁) : Ends (tryAcquireImpl x t) s₁
    (fun b s' => if b then ∃ k₁, k.Takes x t k₁ ∧ Registered k₁ t l s'
      else k.Fails x t ∧ s' = s₁)
    (fun e s' => s'.trace = k.trace ∧ e ∉ Exception.asserted) := by
  have hstatus : ∀ y, (s₁.thread y).status = (k.thread y).status := by
    intro y
    rw [h.thread]
    split
    next he => rw [he]
    next => rfl
  have hends := Mikage.tryAcquireImpl_ends (k := k) (s := x) (t := t)
  rw [Ends, h.rest, tryAcquireImpl_register _ hstatus]
  cases hx : tryAcquireImpl x t k with
  | ok b k₁ =>
    cases b with
    | true =>
      obtain ⟨_, _, _, _, _, _, rfl, -⟩ := (hends.ok hx : Effect k x t k₁).shape
      exact ⟨_, hx, rfl, h.observers, h.thread⟩
    | false =>
      obtain ⟨rfl, -⟩ := hends.ok hx
      exact ⟨hx, rfl⟩
  | error e k₁ =>
    obtain ⟨rfl, he⟩ := hends.error hx
    exact ⟨rfl, he⟩

/-- Object `i` has been acquired. -/
theorem remove (h : Registered k t l s₁) (ht : ∀ r, t ∉ k.observers r) (hi : l[i]? = some x) :
    Registered
      { k with thread := k.thread.modify t (fun thread =>
          { thread with wakeIndex := i, wokenObject := some x }) } t (l.eraseIdx i)
      { s₁ with
        observers := s₁.observers.modify x (·.erase t)
        thread := s₁.thread.modify t (fun thread => { thread with
          wakeIndex := i, wokenObject := some x, waitList := l.eraseIdx i }) } where
  rest := by
    have := h.rest
    rw [this]
  observers r := by
    have hcount := List.count_eraseIdx hi r
    simp only [Store.get_modify, h.observers]
    split
    next he =>
      subst he
      rw [if_pos rfl] at hcount
      rw [List.erase_append_right _ (ht _), hcount, List.replicate_succ, List.erase_cons_head]
    next hne =>
      rw [if_neg (Ne.symm hne)] at hcount
      rw [hcount, Nat.add_zero]
  thread r := by
    simp only [Store.get_modify]
    split
    next he => simp [he, h.self]
    next hne => rw [h.thread, if_neg hne]

/-- The other registrations are given up. -/
theorem clear (h : Registered k t l s₁) (ht : ∀ r, t ∉ k.observers r) {E : Exception → Kernel → Prop} :
    Ends (do unregisterAll t l; modifyThread t fun thread => { thread with waitList := [] }) s₁
      (fun _ s' => Registered k t [] s') E := by
  refine Ends.bind (unregisterAll_ends l fun r => ?_) ?_
  · rw [h.observers, List.count_append, List.count_eq_zero.2 (ht r), List.count_replicate_self,
      Nat.zero_add]
  · rintro _ s' ⟨observers, rfl, hobs⟩
    have hrest := h.rest
    refine ⟨by rw [hrest], fun r => ?_, fun r => ?_⟩
    · simp only [hobs, h.observers, List.filter_append, List.filter_ne_of_not_mem (ht r)]
      simp
    · simp only [Store.get_modify]
      split
      next he => simp [he, h.self]
      next hne => rw [h.thread, if_neg hne]

end Registered

/-! ## The check for ready objects -/

/-- Acquiring one object does not make another one ready. -/
theorem Effect.unripe (he : Effect k s t k₁) (hne : x ≠ s) (h : k.Unripe x y) : k₁.Unripe x y := by
  cases he with
  | same => exact h
  | claimed | locked | counted | reset | fired =>
    unfold Kernel.Unripe at h ⊢
    cases hk : k.kind x <;> simp only [hk] at h ⊢ <;>
      first
      | exact h
      | simpa [Store.get_modify_ne _ _ hne, Store.get_set_ne _ _ hne, Kernel.lock, Kernel.now] using h

theorem Kernel.Unripe.modifyThread {f : Thread → Thread} (h : k.Unripe x y)
    (hf : ∀ thread, (f thread).status = thread.status) :
    ({ k with thread := k.thread.modify t f } : Kernel).Unripe x y := by
  have hstatus : ∀ r, ((k.thread.modify t f) r).status = (k.thread r).status :=
    Store.view_modify Thread.status _ _ (hf _)
  unfold Kernel.Unripe at h ⊢
  cases hk : k.kind x <;> simp only [hk, hstatus] at h ⊢ <;> exact h

/-- `t` has acquired some objects. -/
structure Took (k k' : Kernel) (t : Ref) : Prop where
  frame : Frame .base k k'
  next : k'.next = k.next
  dead : k'.dead = k.dead
  kind : k'.kind = k.kind
  locals : k'.locals = k.locals
  timeoutAt : (k'.thread t).timeoutAt = (k.thread t).timeoutAt

theorem Took.refl (k : Kernel) (t : Ref) : Took k k t := ⟨.refl k, rfl, rfl, rfl, rfl, rfl⟩

theorem Took.trans (h : Took k k₁ t) (h' : Took k₁ k' t) : Took k k' t where
  frame := h.frame.trans h'.frame
  next := h'.next.trans h.next
  dead := h'.dead.trans h.dead
  kind := h'.kind.trans h.kind
  locals := h'.locals.trans h.locals
  timeoutAt := h'.timeoutAt.trans h.timeoutAt

/-- The state behind an acquired object. -/
def Kernel.withTaken (k : Kernel) (t i x : Ref) : Kernel :=
  { k with thread := k.thread.modify t (fun thread =>
      { thread with wakeIndex := i, wokenObject := some x }) }

theorem Kernel.Takes.took (h : k.Takes x t k₁) (i : Nat) : Took k (k₁.withTaken t i x) t := by
  have hframe := Frame.effect (P := .base) h.effect
  obtain ⟨_, _, _, _, _, _, rfl, -⟩ := h.effect.shape
  refine ⟨hframe.trans (Frame.modifyThread (fun _ => rfl) (fun _ _ hs => hs) (fun _ => rfl)
    (fun _ hs => hs) (List.prefix_refl _)), rfl, rfl, rfl, rfl, ?_⟩
  exact Store.view_modify Thread.timeoutAt _ _ rfl t

theorem acquireReady_from {by_ : Waiter} {waitForAll : Bool} {objects : List Ref}
    {f : Unit → KM β} (hby : by_ = .wait ∨ waitForAll = false)
    (hreply : ∀ cs, by_ = .reply cs → g.calling = some (t, cs)) :
    ∀ (n i : Nat) {l : List Ref} {k s₁ : Kernel}, i + n = l.length → k.dead t = false →
      Registered k t l s₁ → Inv k →
      (k.thread t).status = .ready → .waits t objects by_ ∈ k.trace → (∀ x ∈ l, x ∈ objects) →
      (∀ j x, j < i → l[j]? = some x → k.Unripe x t) →
      (∀ k' l' s' g', Inv k' → Took k k' t → Registered k' t l' s' → (∀ x ∈ l', x ∈ l) →
        (∀ x ∈ l', k'.Unripe x t) → ((l' = l ∧ g' = g) ∨
          (g' = g.after t by_ ∧ (l' = [] ∨ waitForAll = true))) →
        From P k' g' (f ()) s' R) →
      From P k g (acquireReady t waitForAll n i >>= f) s₁ R
  | 0, i, l, k, s₁, hn, hd, h, hI, _, _, _, hun, hf => by
    refine hf k l s₁ g hI (.refl k t) h (fun _ => id) (fun x hx => ?_) (.inl ⟨rfl, rfl⟩)
    obtain ⟨j, hj, hx⟩ := List.mem_iff_getElem.1 hx
    exact hun j x (by omega) (by rw [List.getElem?_eq_getElem hj, hx])
  | n + 1, i, l, k, s₁, hn, hd, h, hI, hready, hw, hsub, hun, hf => by
    have ht : ∀ r, t ∉ k.observers r := hI.not_mem_observers hd (by rw [hready]; decide)
    have hi : i < l.length := by omega
    simp only [acquireReady, ends_assoc, ends_get, h.self]
    rw [List.getElem?_eq_getElem hi]
    have hget : l[i]? = some l[i] := List.getElem?_eq_getElem hi
    generalize hx : l[i] = x at hget
    simp only [tryAcquire, ends_assoc]
    refine Ends.bind (Ends.mono (h.tryAcquireImpl_ends (x := x)) (fun _ _ h => h) ?_) ?_
    · rintro e s' ⟨htrace, he⟩
      exact ⟨(k, g), .refl, htrace.symm, .other he⟩
    rintro b s' hb
    cases b with
    | true =>
      obtain ⟨k₁, htakes, hr⟩ := hb
      have hobs : ∀ r, t ∉ k₁.observers r := by
        obtain ⟨_, _, _, _, _, _, rfl, -⟩ := htakes.effect.shape
        exact ht
      have hcontains : (s'.observers x).contains t = true := by
        have hmem : x ∈ l := List.mem_of_getElem? hget
        simp [hr.observers, List.count_pos_iff.2 hmem |>.ne']
      have hact : Act P (k, g) (k₁.withTaken t i x, g.after t by_) :=
        .taken hready htakes hw (hsub x (List.mem_of_getElem? hget)) hreply
      have htook := htakes.took i
      have hI' := hI.act hact
      have hr' := hr.remove hobs hget
      have hready' : ((k₁.withTaken t i x).thread t).status = .ready :=
        htook.frame.ready t id id hready
      simp only [if_true, unregister, ends_assoc, ends_get, validate, hcontains, ends_pure_bind,
        ends_modify, modifyThread, hr.self]
      refine Account.From.step (.single hact) htook.locals ?_
      have hobs' : ∀ r, t ∉ (k₁.withTaken t i x).observers r := hobs
      have hdead' : (k₁.withTaken t i x).dead t = false := htook.dead ▸ hd
      cases hall : waitForAll with
      | false =>
        simp only [Bool.not_false, if_true]
        refine Ends.bind (hr'.clear hobs') fun _ s'' hs'' => ?_
        exact hf _ _ _ _ hI' htook hs'' (by simp) (by simp) (.inr ⟨rfl, .inl rfl⟩)
      | true =>
        subst hall
        have hwait : by_ = .wait := hby.resolve_right (by decide)
        subst hwait
        simp only [Bool.not_true, Bool.false_eq_true, if_false]
        have hw' : .waits t objects .wait ∈ (k₁.withTaken t i x).trace :=
          htook.frame.trace.subset hw
        refine acquireReady_from hby hreply n i ?_ hdead' hr' hI' hready' hw' ?_ ?_ ?_
        · rw [List.length_eraseIdx, if_pos hi]
          omega
        · exact fun y hy => hsub y (List.mem_of_mem_eraseIdx hy)
        · intro j y hj hy
          rw [List.getElem?_eraseIdx_of_lt hj] at hy
          have hold := hun j y hj hy
          have hne : y ≠ x := by
            rintro rfl
            have := (Kernel.fails_iff.2 hold).symm.trans htakes
            cases this
          exact (htakes.effect.unripe hne hold).modifyThread fun _ => rfl
        · intro k' l' s'' g' hI'' htook' hr'' hsub' hun' hend
          refine hf k' l' s'' g' hI'' (htook.trans htook') hr''
            (fun y hy => List.mem_of_mem_eraseIdx (hsub' y hy)) hun' (.inr ⟨?_, .inr rfl⟩)
          obtain ⟨-, hg⟩ | ⟨hg, -⟩ := hend <;> exact hg
    | false =>
      obtain ⟨hfails, rfl⟩ := hb
      simp only [Bool.false_eq_true, if_false, ends_pure_bind]
      refine acquireReady_from hby hreply n (i + 1) (by omega) hd h hI hready hw hsub (fun j y hj hy => ?_) hf
      rcases Nat.lt_succ_iff_lt_or_eq.1 hj with hj | rfl
      · exact hun j y hj hy
      · rw [hget] at hy
        cases hy
        exact hfails.unripe

/-! ## Going to sleep -/

theorem Registered.shape (h : Registered k t l s₁) : ∃ observers thread,
    s₁ = { k with observers := observers, thread := thread } ∧
      (∀ r, observers r = k.observers r ++ List.replicate (l.count r) t) ∧
      ∀ r, thread r = if r = t then { k.thread t with waitList := l } else k.thread r :=
  ⟨s₁.observers, s₁.thread, h.rest, h.observers, h.thread⟩

/-- The powers a wait needs. -/
def Powers.waiting (t : Ref) : Powers := ⟨fun _ => False, fun r => r = t, True, False, False⟩

theorem block_from {by_ : Waiter} {waitForAll : Bool} {objects : List Ref} {f : Unit → KM β}
    (hP : P.sleep t) (hready : (k.thread t).status = .ready) (h : Registered k t l s₁)
    (hl : l ≠ []) (halive : ∀ x ∈ l, k.Alive x ∧ (k.kind x).isSubject = true)
    (hun : ∀ x ∈ l, k.Unripe x t) (hg : g.unlisted = []) (hw : .waits t objects by_ ∈ k.trace)
    (hsub : ∀ x ∈ l, x ∈ objects)
    (hreply : ∀ cs, by_ = .reply cs → g.calling = some (t, cs) ∧ l = objects ∧
      waitForAll = false ∧ (k.thread t).timeoutAt = noTimeout)
    (hreceive : by_ = .receive → waitForAll = false)
    (hf : ∀ k', (account P).Acts (k, g) (k', g.after t by_) → k'.locals = k.locals →
      From P k' (g.after t by_) (f ()) k' R) :
    From P k g (do
      modifyThread t fun thread => { thread with waitForAll := waitForAll }
      block t .sleeping (.objects l)
      f ()) s₁ R := by
  obtain ⟨observers, thread, rfl, hobs, hthread⟩ := h.shape
  have hself := h.self
  simp only [modifyThread, block, removeFromReadyQueue, ends_assoc, ends_modify, ends_get, emit,
    Store.get_modify_self, hself]
  have hblock (wq : List Ref) : Act P (k, g) ({ k with
      observers := observers
      thread := k.thread.modify t (fun thread =>
        { thread with waitList := l, waitForAll := waitForAll,
                      timeoutAt := (k.thread t).timeoutAt, status := .sleeping })
      readyQueue := k.readyQueue.filter (· ≠ t)
      waitingQueue := wq
      trace := k.trace ++ [.blocked t (.objects l) (k.thread t).timeoutAt
        (k.thread t).promisedResult] }, g.after t by_) :=
    .block hP hready (.objects hl) hobs
      (fun x hx => ⟨(halive x hx).1, (halive x hx).2, Kernel.fails_iff.2 (hun x hx)⟩) hg
      (fun _ => hw) hsub hreply hreceive (fun h => absurd h hl)
  have hend (wq : List Ref) {thread' : Store Thread} (hth : ∀ r, thread' r = if r = t then
      { k.thread t with waitList := l, waitForAll := waitForAll, status := .sleeping }
      else k.thread r) :
      From P k g (f ()) { k with
        observers := observers
        thread := thread'
        readyQueue := k.readyQueue.filter (· ≠ t)
        waitingQueue := wq
        trace := k.trace ++ [.blocked t (.objects l) (k.thread t).timeoutAt
          (k.thread t).promisedResult] } R := by
    have hacts : (account P).Acts (k, g) ({ k with
        observers := observers
        thread := thread'
        readyQueue := k.readyQueue.filter (· ≠ t)
        waitingQueue := wq
        trace := k.trace ++ [.blocked t (.objects l) (k.thread t).timeoutAt
          (k.thread t).promisedResult] }, g.after t by_) := by
      refine .tail (.single (hblock wq)) (.same (fun _ => rfl) fun r => ?_)
      rw [hth, Store.get_modify]
      split <;> simp_all
    exact Account.From.step hacts rfl (hf _ hacts rfl)
  have hth : ∀ r, ((thread.modify t fun thread =>
      { thread with waitForAll := waitForAll }).modify t fun thread =>
      { thread with status := .sleeping }) r = if r = t then
      { k.thread t with waitList := l, waitForAll := waitForAll, status := .sleeping }
      else k.thread r := by
    intro r
    simp only [Store.get_modify, hthread]
    split <;> simp_all
  split
  · exact hend _ hth
  · exact hend _ hth

/-! ## The calls -/

theorem Phase.Settled.after (hg : g.Settled) (t : Ref) (by_ : Waiter) :
    (g.after t by_).Settled := by
  cases by_ <;> exact ⟨⟨hg.making, hg.owed⟩, hg.hot, hg.unlisted⟩

theorem Registered.emit (h : Registered k t l s₁) (o : Obs) :
    Registered { k with trace := k.trace ++ [o] } t l
      { s₁ with trace := s₁.trace ++ [o] } where
  rest := by
    have := h.rest
    rw [this]
  observers := h.observers
  thread := h.thread

/-- The part of the wait behind the deadline. -/
theorem waitFor_does {handles : List Handle} {waitForAll : Bool} {by_ : Waiter} (hI : Inv k)
    (ht : Running k t) (hg : g.Settled)
    (hreply : ∀ cs, by_ = .reply cs → g.calling = some (t, cs) ∧ waitForAll = false ∧
      (k.thread t).timeoutAt = noTimeout)
    (hreceive : by_ = .receive → waitForAll = false) (hne : by_ ≠ .wait → handles ≠ []) :
    Does (.waiting t) (do
        if ((← get).thread t).waitList ≠ [] then
          throw (.runtimeError "Internal precondition violated: Expected wait list to be empty")
        registerHandles t handles
        let objects := ((← get).thread t).waitList
        emit (.waits t objects by_)
        acquireReady t waitForAll objects.length 0
        let objects := ((← get).thread t).waitList
        if objects ≠ [] then
          modifyThread t fun thread => { thread with waitForAll := waitForAll }
          block t .sleeping (.objects objects)
          reschedule) k g (fun _ _ g' => g' = g.after t by_) := by
  have hw : (k.thread t).waitList = [] := hI.waitList_nil (by rw [ht.ready]; decide)
  have hdead := ht.dead hI
  simp only [ends_get]
  rw [if_neg (not_not.2 hw)]
  refine Ends.bind (Ends.mono (registerHandles_ends hI (ht.parent_alive hI).2 handles
    (.refl hw)) (fun _ _ h => h) ?_) ?_
  · rintro e s' ⟨htrace, he⟩
    exact ⟨(k, g), .refl, htrace.symm, .other he⟩
  rintro _ s₁ ⟨objects, hreg, hlen, halive⟩
  rw [List.nil_append] at hreg
  simp only [ends_get, emit, ends_modify, hreg.self]
  have hact : Act (.waiting t) (k, g) ({ k with trace := k.trace ++ [.waits t objects by_] }, g) :=
    .waits fun cs hcs => (hreply cs hcs).1
  refine Account.From.step (.single hact) rfl ?_
  have hI₁ := hI.act hact
  refine acquireReady_from ?_ (fun cs hcs => (hreply cs hcs).1) objects.length 0 (by omega) hdead
    (hreg.emit _) hI₁ ht.ready (by simp) (fun _ => id) (by simp) ?_
  · cases by_ with
    | wait => exact .inl rfl
    | receive => exact .inr (hreceive rfl)
    | reply cs => exact .inr (hreply cs rfl).2.1
  intro k' l s' g' hI' htook hreg' hsub hun hend
  simp only [ends_get, hreg'.self]
  by_cases hl : l = []
  · subst hl
    rw [if_neg (not_not.2 rfl)]
    have hready' : (k'.thread t).status = .ready := htook.frame.ready t id id ht.ready
    have hw' : (k'.thread t).waitList = [] := hI'.waitList_nil (by rw [hready']; decide)
    have hg' : g' = g.after t by_ := by
      obtain ⟨hobjects, rfl⟩ | ⟨hg', -⟩ := hend
      · cases by_ with
        | wait => rfl
        | receive | reply =>
          rw [← hobjects, List.length_nil] at hlen
          exact absurd (List.length_eq_zero_iff.1 hlen.symm) (hne (by simp))
      · exact hg'
    refine Account.From.step (.single (hreg'.back hw')) ?_ (done hg')
    rw [hreg'.rest]
    rfl
  · rw [if_pos hl]
    have hend' : g' = g ∧ (by_ ≠ .wait → l = objects) := by
      obtain ⟨hobjects, rfl⟩ | ⟨hg', hnil | hall⟩ := hend
      · exact ⟨rfl, fun _ => hobjects⟩
      · exact absurd hnil hl
      · cases by_ with
        | wait => exact ⟨hg', fun h => absurd rfl h⟩
        | receive => exact absurd (hreceive rfl) (by simp [hall])
        | reply cs => exact absurd (hreply cs rfl).2.1 (by simp [hall])
    obtain ⟨rfl, hobjects⟩ := hend'
    have halive' : ∀ x ∈ l, k'.Alive x ∧ (k'.kind x).isSubject = true := by
      intro x hx
      obtain ⟨hx, hk⟩ := halive x (hsub x hx)
      exact ⟨⟨htook.next ▸ hx.1, htook.dead ▸ hx.2⟩, htook.kind ▸ hk⟩
    refine block_from (f := fun _ => reschedule) rfl (htook.frame.ready t id id ht.ready) hreg' hl
      halive' hun hg.unlisted (htook.frame.trace.subset (by simp)) hsub (fun cs hcs => ?_)
      hreceive ?_
    · obtain ⟨hcalling, hall, htimeout⟩ := hreply cs hcs
      exact ⟨hcalling, hobjects (by simp [hcs]), hall, htook.timeoutAt.trans htimeout⟩
    · intro k'' hacts hlocals
      exact reschedule_does trivial (hI'.acts hacts) (hg.after t by_)

theorem svcWaitSynchronizationN_does {handles : List Handle} {waitForAll : Bool} {timeout : Int}
    {by_ : Waiter} (hI : Inv k) (ht : Running k t) (hg : g.Settled)
    (hreply : ∀ cs, by_ = .reply cs → g.calling = some (t, cs) ∧ waitForAll = false ∧
      timeout = -1)
    (hreceive : by_ = .receive → waitForAll = false) (hne : by_ ≠ .wait → handles ≠ []) :
    Does (.waiting t) (svcWaitSynchronizationN t handles waitForAll timeout by_) k g
      (fun _ _ g' => g' = g.after t by_) := by
  unfold svcWaitSynchronizationN
  generalize hh : (if handles.length = 3 ∧ handles[2]? = some handleInvalid then handles.take 2
    else handles) = handles'
  have hne' : by_ ≠ .wait → handles' ≠ [] := by
    intro hby
    rw [← hh]
    split
    next h3 =>
      intro hnil
      have := congrArg List.length hnil
      simp [h3.1] at this
    next => exact hne hby
  refine ends_get.2 (ends_modify.2 ?_)
  generalize hto : (if timeout ≠ -1 then k.after timeout else noTimeout) = timeoutAt
  have hinner : Act (.waiting t) (k, g) ({ k with thread := k.thread.modify t fun thread =>
      { thread with timeoutAt := timeoutAt, promisedResult := 0 } }, g) :=
    .inner (ht.kind hI) ⟨fun _ => rfl, fun _ => rfl, fun _ => rfl, fun _ => rfl, fun _ => rfl,
      fun _ => rfl, fun _ => rfl, fun _ => rfl⟩ (.inl ht.ready)
  refine step hinner rfl (waitFor_does (hI.act hinner) ⟨?_, ?_, ht.self, ?_⟩ hg
    (fun cs hcs => ⟨(hreply cs hcs).1, (hreply cs hcs).2.1, ?_⟩) hreceive hne')
  all_goals simp only [Store.get_modify_self]
  · exact ht.ready
  · exact ht.callback
  · exact ht.parent
  · rw [← hto, if_neg (not_not.2 (hreply cs hcs).2.2)]

/-! ## Waits without objects -/

theorem Act.doze {wait : Wait} {status : ThreadStatus} {timeoutAt : Nat} (hP : P.sleep t)
    (hI : Inv k) (hready : (k.thread t).status = .ready) (hg : g.unlisted = [])
    (hb : Blocks (k.thread t) wait status [] timeoutAt) (waitingQueue : List Ref) :
    Act P (k, g) ({ k with
      thread := k.thread.modify t (fun thread =>
        { thread with timeoutAt := timeoutAt, status := status })
      readyQueue := k.readyQueue.filter (· ≠ t)
      waitingQueue := waitingQueue
      trace := k.trace ++ [.blocked t wait timeoutAt (k.thread t).promisedResult] }, g) := by
  have hw : (k.thread t).waitList = [] := hI.waitList_nil (by rw [hready]; decide)
  have hact : Act P (k, g) ({ k with
      observers := k.observers
      thread := k.thread.modify t (fun thread =>
        { thread with waitList := [], waitForAll := (k.thread t).waitForAll,
                      timeoutAt := timeoutAt, status := status })
      readyQueue := k.readyQueue.filter (· ≠ t)
      waitingQueue := waitingQueue
      trace := k.trace ++ [.blocked t wait timeoutAt (k.thread t).promisedResult] },
      g.after t .wait) :=
    @Act.block P k g t wait status [] [] (k.thread t).waitForAll timeoutAt .wait k.observers
      waitingQueue hP hready hb (by simp) (by simp) hg (by simp) (by simp)
      (fun cs h => by cases h) (fun h => by cases h) (fun _ => rfl)
  rw [Store.modify_congr (g := fun thread : Thread =>
    { thread with timeoutAt := timeoutAt, status := status }) _ (by simp [← hw])] at hact
  exact hact

theorem svcSleepThread_does {duration : Int} (hI : Inv k) (ht : Running k t)
    (hg : g.unlisted = []) : Does (.waiting t) (svcSleepThread t duration) k g
      (fun _ _ g' => g' = g) := by
  simp only [svcSleepThread, modifyThread, removeFromReadyQueue, emit, ends_get, ends_modify,
    Store.get_modify_self]
  exact last (step (.doze rfl hI ht.ready hg .sleep _) rfl (done rfl))
end Mikage
