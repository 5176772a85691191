import Mikage.OS.Keeps

/-!
# Closing handles and exiting, kept

Closing a handle and the exit of a thread or a process keep the invariant, whatever references to the
objects remain.

- `closeHandle_keeps`, `exitThread_keeps`, `triggerThreadDestruction_keeps`: the parts.
- `svcExitProcess_keeps`, `svcTerminateProcess_keeps`: the calls that exit many threads.
-/

namespace Mikage

open KM Account

abbrev anybody : Ref → Prop := fun _ => True

variable {α β : Type} {env : Env} {k k' s : Kernel} {r t p m : Ref} {T : Ref → Prop} {P : Powers}
  {handle : Handle}

/-! ## Calls that are accounted for -/

theorem keep_onResourceReady (hS : Sound k) (hs : k.dead r = false) :
    Keeps T (onResourceReady r) k (fun _ k' => Wakes k k') := by
  refine (keep_does hS (.refl _) (onResourceReady_does (g := .idle) hS.toInv rfl hs)).mono
    (fun _ => id) ?_
  rintro _ k' - - - ⟨_, -, hw⟩
  exact hw

theorem keep_collect (hS : Sound k) : Keeps T collect k
    (fun _ k' => ∃ dead trace, k' = { k with dead := dead, trace := trace }) := by
  refine (keep_does hS (.refl _) (collect_does (g := .idle) hS.toInv rfl)).mono (fun _ => id) ?_
  rintro _ k' - - - ⟨_, -, hk, -⟩
  exact hk

theorem Phase.idle_settled : Phase.idle.Settled := ⟨⟨rfl, rfl⟩, rfl, rfl⟩

theorem keep_reschedule (hS : Sound k) : Keeps T reschedule k (fun _ _ => True) :=
  (keep_does hS (.refl _) (reschedule_does trivial hS.toInv Phase.idle_settled)).mono
    (fun _ => id) fun _ _ _ _ _ _ => trivial

theorem Kernel.lock_alive {o : Option Ref} (h : k.lock o = some r) : k.dead r = false := by
  simpa using (Option.filter_eq_some_iff.1 h).2

/-- The object of a `weak_ptr`, if it is still there, is looked at. -/
theorem keep_lock (hS : Sound k) (o : Option Ref) : Keeps T (match k.lock o with
    | some s => onResourceReady s
    | none => pure ()) k (fun _ k' => k'.process = k.process) := by
  cases ho : k.lock o with
  | none => exact keep_done hS rfl
  | some s =>
    exact (keep_onResourceReady hS (Kernel.lock_alive ho)).mono (fun _ => id)
      fun _ _ _ _ _ hw => hw.process

/-! ## Who is there -/

/-- `t` is a thread whose process is held. -/
structure Present (k : Kernel) (t : Ref) : Prop where
  kind : k.kind t = .thread
  parent : (k.thread t).process ∈ k.locals

/-- Something holds the thread itself, too. -/
structure Staying (k : Kernel) (t : Ref) : Prop extends Present k t where
  stays : t ∈ k.locals ∨ t ∈ (k.process (k.thread t).process).threads

theorem Present.lt (h : Present k t) (hI : Inv k) : t < k.next := hI.lt (by rw [h.kind]; decide)

theorem Present.frame (h : Present k t) (hI : Inv k) (hF : Frame P k k')
    (hl : k'.locals = k.locals) : Present k' t where
  kind := (hF.kind t (h.lt hI)).trans h.kind
  parent := by
    rw [hF.process t (h.lt hI), hl]
    exact h.parent

theorem Present.parent_kind (h : Present k t) (hI : Inv k) : k.kind (k.thread t).process = .process :=
  hI.parent t h.kind

theorem Staying.frame (h : Staying k t) (hI : Inv k) (hF : Frame P k k')
    (hl : k'.locals = k.locals) (hp : ∀ p, (k'.process p).threads = (k.process p).threads) :
    Staying k' t where
  toPresent := h.toPresent.frame hI hF hl
  stays := by
    rw [hl, hF.process t (h.lt hI), hp]
    exact h.stays

theorem Staying.dead (h : Staying k t) (hI : Inv k) : k.dead t = false := by
  rcases h.stays with hl | hm
  · exact hI.locals t hl
  · exact (hI.processOwned _ (hI.locals _ h.parent) t (by simp [Process.owned, hm])).2

theorem Running.present (h : Running k t) (hI : Inv k) : Present k t := ⟨h.kind hI, h.parent⟩

theorem Running.staying (h : Running k t) (hI : Inv k) : Staying k t :=
  ⟨h.present hI, .inl h.self⟩

/-- The threads of a process that is held. -/
theorem Sound.staying (h : Sound k) (hp : p ∈ k.locals) (ht : t ∈ (k.process p).threads) :
    Staying k t := by
  obtain ⟨hk, rfl⟩ := h.members p t ht
  exact ⟨⟨hk, hp⟩, .inr ht⟩

/-! ## Closing handles -/

theorem releaseMutex_keeps (hS : Sound k) :
    Keeps T (releaseMutex m) k (fun _ k' => k'.process = k.process ∧ k'.dead = k.dead) := by
  simp only [releaseMutex, ends_get]
  refine keep_validate (fun _ => keep_last ?_) (by decide)
  have hact : Act .base (k, .idle) ({ k with mutex := k.mutex.modify m (fun mutex =>
      { lockCount := mutex.lockCount - 1,
        owner := if mutex.lockCount - 1 = 0 then none else mutex.owner }) },
      { Phase.idle with hot := [m] }) :=
    .data (fun _ hr => Store.get_modify_ne _ _ hr) (fun _ _ => rfl) (fun _ _ => rfl)
      (fun _ _ => rfl)
  exact keep_act hS hact (Powers.base_le _) rfl fun hS' _ => keep_done hS' ⟨rfl, rfl⟩

theorem closeClientSession_keeps (hS : Sound k) :
    Keeps T (closeClientSession r) k (fun _ k' => k'.process = k.process) := by
  simp only [closeClientSession, ends_get, ends_modify]
  have hS' : Sound { k with session := k.session.modify (k.clientSession r).session (fun session =>
      { session with client := none }) } :=
    hS.elsewhere { hS.toInv with } rfl
  exact keep_move { Frame.refl k with } rfl (keep_lock hS' _)

theorem closeServerSession_keeps (hS : Sound k) (hr : k.Alive r) (hk : k.kind r = .serverSession) :
    Keeps T (closeServerSession r) k (fun _ k' => k'.process = k.process) := by
  simp only [closeServerSession, ends_get]
  cases hp : (k.serverSession r).port with
  | none => exact keep_done hS rfl
  | some p =>
    have hd : k.dead p = false := (hS.serverSessionOwned r hk hr.2 p (by
      simp [ServerSession.owned, hp])).2
    refine keep_holding hS hd fun hS' => ?_
    simp only [ends_modify]
    have hact : Act .base ({ k with locals := p :: k.locals }, .idle)
        ({ k with
          locals := p :: k.locals
          serverPort := k.serverPort.modify p (fun port =>
            { port with availableSessions := (port.availableSessions + 1) % 2 ^ 32 }) },
        { Phase.idle with
          closing := [r]
          hot := p :: (k.port (k.serverPort p).port).client.toList ++ [] }) :=
      .giveBack hr hk hp
    refine keep_act hS' hact (Powers.base_le _) rfl fun hS'' _ => ?_
    refine keep_call (keep_onResourceReady (T := T) hS'' hd) (fun _ => id) fun _ k' hS₁ _ _ hw => ?_
    exact ends_get.2 ((keep_lock hS₁ _).mono (fun _ => id) fun _ _ _ _ _ h => h.trans hw.process)

theorem closeHandle_keeps (hS : Sound k) (ht : k.kind t = .thread) :
    Keeps T (closeHandle t handle) k
      (fun _ k' => ∀ p, (k'.process p).threads = (k.process p).threads) := by
  simp only [closeHandle, ends_get]
  refine Ends.split (fun _ => keep_fail (by decide)) fun hd => ?_
  rw [Bool.not_eq_true] at hd
  cases hl : k.lookup t handle with
  | none => exact keep_done hS fun _ => rfl
  | some r =>
    have hr := hS.lookup_alive hd hl
    refine keep_call (?_ : Keeps T _ k (fun _ k' => k'.process = k.process)) (fun _ => id)
      fun _ k₁ hS₁ hF₁ hl₁ hp₁ => ?_
    · refine keep_holding hS hr.2 fun hS' => ?_
      split
      next hk =>
        split
        · exact closeClientSession_keeps hS'
        · exact keep_done hS' rfl
      next hk =>
        split
        · exact closeServerSession_keeps hS' hr hk
        · exact keep_done hS' rfl
      next hk =>
        split
        · refine keep_call (releaseMutex_keeps (T := T) hS') (fun _ => id) fun _ k₁ hS₁ _ hl₁ hp₁ => ?_
          exact (keep_onResourceReady hS₁ (hS₁.locals r (by rw [hl₁]; exact List.mem_cons_self))).mono
            (fun _ => id) fun _ _ _ _ _ hw => hw.process.trans hp₁.1
        · exact keep_done hS' rfl
      next => exact keep_done hS' rfl
    · simp only [ends_get, emit, modifyProcess, ends_modify]
      have hp := hS.parent t ht
      have hk : k₁.kind (k.thread t).process = .process :=
        (hF₁.kind _ (hS.lt (by rw [hp]; decide))).trans hp
      have hF₂ : Frame (.acting T) k₁ { k₁ with
          process := k₁.process.modify (k.thread t).process (fun process =>
            { process with table := removeEntry process.table handle })
          trace := k₁.trace ++ [.closed r (k.useCount r) (k₁.handleCount r)] } :=
        .modifyProcess (fun _ => rfl) (fun hn => absurd trivial hn) (List.prefix_append _ _)
      obtain ⟨hS₂, -⟩ := hS₁.with_frame hF₂ (hS₁.toInv.removeHandle hk) (fun q x hx => by
        rwa [Store.view_modify Process.threads _ _ (by rfl)] at hx) (fun _ => rfl)
        (hS₁.terminal.same rfl (Nat.le_refl _) (fun _ => rfl) (List.Subset.refl _) (by simp))
        (hS₁.punctual.emit rfl)
        (fun hu => (hS₁.scheduled_of (List.prefix_append _ _) hu).same rfl (fun _ => id)
          (fun _ => ⟨rfl, rfl⟩) (Store.crew_modify rfl rfl) rfl)
        (hS₁.exited.back (List.prefix_append _ _) fun _ hk hs => ⟨hk, hs⟩)
      refine keep_move hF₂ rfl ((keep_collect hS₂).mono (fun _ => id) fun _ k' _ _ _ hk' p => ?_)
      obtain ⟨_, _, rfl⟩ := hk'
      rw [Store.view_modify Process.threads _ _ (by rfl), hp₁]

theorem svcCloseHandle_keeps (hS : Sound k) (ht : k.kind t = .thread) :
    Keeps T (svcCloseHandle t handle) k (fun _ _ => True) :=
  keep_call (closeHandle_keeps hS ht) (fun _ => id) fun _ _ hS' _ _ _ => keep_reschedule hS'

theorem closeAllHandles_keeps : ∀ (n : Nat) {k : Kernel}, Sound k → k.kind t = .thread →
    Keeps T (closeAllHandles env t n) k
      (fun _ k' => ∀ p, (k'.process p).threads = (k.process p).threads)
  | 0, _, hS, _ => keep_done hS fun _ => rfl
  | n + 1, k, hS, ht => by
    simp only [closeAllHandles, ends_get]
    split
    · exact keep_done hS fun _ => rfl
    · refine keep_call (closeHandle_keeps (T := T) hS ht) (fun _ => id) fun _ k' hS' hF _ hp => ?_
      exact (closeAllHandles_keeps n hS' ((hF.kind t (hS.lt (by rw [ht]; decide))).trans ht)).mono
        (fun _ => id) fun _ _ _ _ _ h q => (h q).trans (hp q)

/-! ## Exiting -/

theorem releaseOwned_keeps : ∀ (l : List (Handle × Ref)) {k : Kernel}, Sound k → p ∈ k.locals →
    (∀ entry ∈ l, entry ∈ (k.process p).table) →
    Keeps T (releaseOwned t l) k (fun _ k' => k'.process = k.process)
  | [], _, hS, _, _ => keep_done hS rfl
  | entry :: l, k, hS, hp, hl => by
    have hentry : k.dead entry.2 = false :=
      (hS.alive_of_table (hS.locals p hp) (hl entry List.mem_cons_self)).2
    have hl' : ∀ e ∈ l, e ∈ (k.process p).table := fun e he => hl e (List.mem_cons_of_mem _ he)
    simp only [releaseOwned, ends_get]
    apply Ends.split
    · intro _
      refine keep_call (releaseMutex_keeps (T := T) hS) (fun _ => id) fun _ k₁ hS₁ _ hl₁ hk₁ => ?_
      have hp₁ : k₁.process = k.process := hk₁.1
      have hp' : p ∈ k₁.locals := hl₁ ▸ hp
      simp only [ends_get]
      apply Ends.split
      · intro _
        exact keep_fail (by decide)
      · intro _
        have hd : k₁.dead entry.2 = false := (hS₁.alive_of_table (hS₁.locals p hp') (by
          rw [hp₁]
          exact hl entry List.mem_cons_self)).2
        refine keep_call (keep_onResourceReady (T := T) hS₁ hd) (fun _ => id)
          fun _ k₂ hS₂ _ hl₂ hw => ?_
        have hproc : k₂.process = k.process := hw.process.trans hp₁
        refine (releaseOwned_keeps l hS₂ (hl₂ ▸ hp') (by rwa [hproc])).mono (fun _ => id) ?_
        intro _ k₃ _ _ _ hp₃
        exact hp₃.trans hproc
    · intro _
      exact releaseOwned_keeps l hS hp hl'

/-- What `exitThread` does to the thread itself. -/
theorem stop_sound (hS : Sound k) (ht : Present k t) (hT : T t) (hp : (k.thread t).process = p)
    {observers : Store (List Ref)} (hobs : ∀ r, observers r = (k.observers r).filter (· ≠ t))
    (sessions : List Ref) :
    Sound { k with
      observers := observers
      process := k.process.modify p (fun process =>
        { process with table := removeEntry process.table handleCurrentThread })
      thread := k.thread.modify t (fun thread =>
        { thread with waitList := [], status := .stopped, frame := [], callback := none,
                      finished := true })
      readyQueue := k.readyQueue.filter (· ≠ t)
      trace := k.trace ++ (k.replaced p handleCurrentThread ++ [.stopped t sessions]) } ∧
    Frame (.acting T) k { k with
      observers := observers
      process := k.process.modify p (fun process =>
        { process with table := removeEntry process.table handleCurrentThread })
      thread := k.thread.modify t (fun thread =>
        { thread with waitList := [], status := .stopped, frame := [], callback := none,
                      finished := true })
      readyQueue := k.readyQueue.filter (· ≠ t)
      trace := k.trace ++ (k.replaced p handleCurrentThread ++ [.stopped t sessions]) } := by
  have hI : Inv { k with process := k.process.modify p (fun process =>
      { process with table := removeEntry process.table handleCurrentThread }) } :=
    hS.toInv.removeHandle (hp ▸ ht.parent_kind hS.toInv)
  have hF : Frame (.acting T) k { k with process := k.process.modify p (fun process =>
      { process with table := removeEntry process.table handleCurrentThread }) } :=
    .modifyProcess (fun _ => rfl) (fun hn => absurd trivial hn) (List.prefix_refl _)
  refine hS.with_frame (hF.trans (.modifyThread (fun _ => rfl) (fun hn => absurd hT hn)
    (fun hn => absurd hT hn) (fun _ _ => rfl) (List.prefix_append _ _))) ?_ (fun q x hx => ?_)
    (fun _ => rfl) ?_ ?_ (fun hu => ?_) ?_
  · exact hI.leave ht.kind (fun _ => rfl) hobs (fun _ => rfl)
      (fun r hr => absurd hr List.not_mem_nil)
  · rwa [Store.view_modify Process.threads _ _ (by rfl)] at hx
  · refine hS.terminal.stop rfl (Nat.le_refl _) (ht.lt hS.toInv) ?_ (fun _ hx =>
      Store.get_modify_ne _ _ hx) rfl ?_
    · rw [Store.get_modify_self]
    · intro x sessions hx
      rcases List.mem_append.1 hx with hx | hx
      · exact absurd hx replaced_stopped
      · exact (Obs.stopped.inj (List.mem_singleton.1 hx)).1
  · dsimp only
    rw [← List.append_assoc]
    exact (hS.punctual.same replaced_waitless fun _ => .refl _).stop rfl
  · exact (hS.scheduled_of (List.prefix_append _ _) hu).stop
  · have hgone : .stopped t sessions ∈ k.trace ++
        (k.replaced p handleCurrentThread ++ [.stopped t sessions]) := by simp
    exact hS.exited.stop rfl hgone (List.prefix_append _ _) fun x hx => Store.get_modify_ne _ _ hx

theorem stop_keeps (hS : Sound k) (ht : Staying k t) (hT : T t) {f : Unit → KM β}
    {R : β → Kernel → Prop}
    (hf : ∀ k', Sound k' → Frame (.acting T) k k' → k'.locals = k.locals →
      (∀ p, (k'.process p).threads = (k.process p).threads) →
      (∃ sessions, .stopped t sessions ∈ k'.trace) → Keeping T k' (f ()) k' R) :
    Keeping T k (do
      unregisterAll t (k.thread t).waitList
      setCurrentThread (k.thread t).process none
      emit (.stopped t ((← get).queuedSessions t))
      modifyThread t fun thread => { thread with
        waitList := [], status := .stopped, frame := [], callback := none, finished := true }
      removeFromReadyQueue t
      f ()) k R := by
  refine Ends.bind (unregisterAll_ends _ fun r => (hS.counts t r (ht.dead hS.toInv)).symm) ?_
  rintro _ _ ⟨observers, rfl, hobs⟩
  refine Ends.bind (setEntry_ends (o := none)) ?_
  rintro _ _ rfl
  simp only [ends_get, emit, modifyThread, removeFromReadyQueue, ends_modify, Option.toList_none,
    List.map_nil, List.append_nil, List.append_assoc]
  obtain ⟨hS', hF⟩ := stop_sound hS ht.toPresent hT rfl hobs
    (k.queuedSessions t)
  exact keep_move hF rfl (hf _ hS' hF rfl (Store.view_modify Process.threads _ _ (by rfl))
    ⟨k.queuedSessions t,
      List.mem_append_right _ (List.mem_append_right _ List.mem_cons_self)⟩)

theorem exitThread_keeps (hS : Sound k) (ht : Staying k t) (hT : T t) :
    Keeps T (exitThread env t) k (fun _ k' =>
      (∀ p, (k'.process p).threads = (k.process p).threads) ∧
      ∃ sessions, .stopped t sessions ∈ k'.trace) := by
  simp only [exitThread, ends_get]
  apply Ends.split
  · intro hst
    exact keep_done hS ⟨fun _ => rfl, hS.exited t ht.kind hst⟩
  · intro hst
    refine keep_call (releaseOwned_keeps (T := nobody) (p := (k.thread t).process) _ hS ht.parent
      fun e he => (env.order_perm _).mem_iff.1 he) (fun _ => False.elim) ?_
    intro _ k₁ hS₁ hF₁ hl₁ hp₁
    have ht₁ := ht.frame hS.toInv hF₁ hl₁ fun p => by rw [hp₁]
    have hproc : (k.thread t).process = (k₁.thread t).process :=
      (hF₁.process t (ht.lt hS.toInv)).symm
    simp only [ends_get]
    rw [hproc]
    refine stop_keeps hS₁ ht₁ hT (f := fun _ => do collect; onResourceReady t) ?_
    intro k₂ hS₂ hF₂ hl₂ hp₂ hgone₂
    have ht₂ := ht₁.frame hS₁.toInv hF₂ hl₂ hp₂
    refine keep_call (keep_collect (T := T) hS₂) (fun _ => id) fun _ k₃ hS₃ hF₃ hl₃ hk₃ => ?_
    obtain ⟨_, _, rfl⟩ := hk₃
    have ht₃ := ht₂.frame hS₂.toInv hF₃ hl₃ fun _ => rfl
    refine (keep_onResourceReady hS₃ (ht₃.dead hS₃.toInv)).mono (fun _ => id) ?_
    intro _ k₄ _ hF₄ _ hw
    refine ⟨fun p => ?_, ?_⟩
    · rw [hw.process]
      exact (hp₂ p).trans (by rw [hp₁])
    · obtain ⟨sessions, hgone⟩ := hgone₂
      exact ⟨sessions, (hF₃.trace.trans hF₄.trace).subset hgone⟩

/-- An update of a process that takes nothing new up. -/
theorem Sound.modifyProcess (hS : Sound k) {f : Process → Process} (processHandles threads : List Ref)
    (hk : k.kind p = .process)
    (hthreads : (f (k.process p)).threads ⊆ (k.process p).threads)
    (htable : (f (k.process p)).table = (k.process p).table)
    (hhandles : processHandles ⊆ k.processHandles)
    (hsch : ¬ k.Upset → Kernel.Scheduled { k with
      process := k.process.modify p f, processHandles := processHandles, threads := threads }) :
    Sound { k with process := k.process.modify p f, processHandles := processHandles,
                   threads := threads } ∧
    Frame (.acting T) k { k with process := k.process.modify p f, processHandles := processHandles,
                                 threads := threads } := by
  have hI := hS.toInv.modifyProcess (p := p) (f := f) hk fun hd r hr => by
    refine hS.processOwned p hd r ?_
    simp only [Process.owned, htable, List.mem_append] at hr ⊢
    exact hr.imp_right fun hr => hthreads hr
  refine hS.with_frame (.modifyProcess (fun hn => absurd trivial hn) (fun hn => absurd trivial hn)
    (List.prefix_refl _)) { hI with processHandles := fun r hr => hS.processHandles r (hhandles hr) }
    (fun q x hx => ?_) (fun _ => rfl)
    (hS.terminal.quiet rfl (Nat.le_refl _) (fun _ => rfl) (List.Subset.refl _)) hS.punctual hsch
    hS.exited
  simp only [Store.get_modify] at hx
  split at hx
  next he =>
    subst he
    exact hthreads hx
  next => exact hx

/-- The thread has exited. -/
theorem triggerThreadDestruction_keeps (hS : Sound k) (ht : Staying k t) {sessions : List Ref}
    (hgone : .stopped t sessions ∈ k.trace) : Keeps T (triggerThreadDestruction env t) k
      (fun _ k' => ∀ p, (k'.process p).threads ⊆ (k.process p).threads) := by
  simp only [triggerThreadDestruction, ends_get]
  refine keep_call (Q := fun _ k' => ∀ p, (k'.process p).threads ⊆ (k.process p).threads)
    (keep_holding (T := T) hS (ht.dead hS.toInv) fun hS₁ => ?_) (fun _ => id)
    fun _ k' hS' _ _ hp' => (keep_collect hS').mono (fun _ => id) fun _ k'' _ _ _ hk'' => ?_
  swap
  · obtain ⟨_, _, rfl⟩ := hk''
    exact hp'
  refine keep_holding hS₁ (hS.locals _ ht.parent) fun hS₂ => ?_
  have hk := ht.parent_kind hS.toInv
  have herase : ∀ {f : Process → Process}, (∀ process, (f process).threads = process.threads.erase t) →
      ∀ p, ((k.process.modify (k.thread t).process f) p).threads ⊆ (k.process p).threads := by
    intro f hf p
    rw [Store.get_modify]
    split
    · rw [hf]
      exact List.erase_subset
    · exact List.Subset.refl _
  simp only [modifyProcess, ends_modify, ends_get]
  obtain ⟨hS₃, hF₃⟩ := hS₂.modifyProcess (T := T) (f := fun process =>
    { process with threads := process.threads.erase t }) k.processHandles (k.threads.erase t) hk
    List.erase_subset rfl (List.Subset.refl _)
    (fun hu => (hS₂.scheduled hu).detach _ (hS₂.gone hgone hu))
  refine keep_move hF₃ rfl ?_
  apply Ends.split
  · intro hnil
    obtain ⟨hS₄, hF₄⟩ := hS₃.modifyProcess (T := T) (f := fun process =>
      { process with status := .stopping }) (k.processHandles.erase (k.thread t).process)
      (k.threads.erase t) hk
      (List.Subset.refl _) rfl List.erase_subset fun hu => (hS₃.scheduled hu).finish _ hnil
    simp only [ends_modify, ends_get]
    refine keep_move hF₄ rfl ?_
    refine keep_call (closeAllHandles_keeps (T := T) _ hS₄ ht.kind) (fun _ => id)
      fun _ k' hS' _ hl' hp' => ?_
    refine (keep_onResourceReady hS' (hS'.locals _ (by rw [hl']; exact List.mem_cons_self))).mono
      (fun _ => id) fun _ _ _ _ _ hw p => ?_
    rw [hw.process, hp' p, Store.modify_modify]
    exact herase (fun _ => rfl) p
  · intro _
    exact keep_done hS₃ (herase fun _ => rfl)

theorem exitOthers_keeps : ∀ (n : Nat) {k : Kernel}, Sound k → Running k t →
    Keeps (· ≠ t) (exitOthers env t n) k (fun _ _ => True)
  | 0, _, hS, _ => keep_done hS trivial
  | n + 1, k, hS, ht => by
    simp only [exitOthers, ends_get]
    split
    · exact keep_done hS trivial
    next x hx =>
      have hmem := List.mem_of_find?_eq_some hx
      have hne : x ≠ t := by simpa using List.find?_some hx
      have hx₀ := hS.staying ht.parent hmem
      refine keep_call (exitThread_keeps (T := (· ≠ t)) hS hx₀ hne) (fun _ => id)
        fun _ k₁ hS₁ hF₁ hl₁ hk₁ => ?_
      obtain ⟨hp₁, sessions, hgone⟩ := hk₁
      have hx₁ := hx₀.frame hS.toInv hF₁ hl₁ hp₁
      have ht₁ := ht.frame hS.toInv hF₁ hl₁ (fun h => h rfl) (fun h => h rfl)
      refine keep_call (triggerThreadDestruction_keeps (T := (· ≠ t)) hS₁ hx₁ hgone) (fun _ => id)
        fun _ k₂ hS₂ hF₂ hl₂ _ => ?_
      exact exitOthers_keeps n hS₂
        (ht₁.frame hS₁.toInv hF₂ hl₂ (fun h => h rfl) (fun h => h rfl))

theorem svcExitThread_keeps (hS : Sound k) (ht : Running k t) :
    Keeps anybody (svcExitThread env t) k (fun _ _ => True) :=
  keep_call (exitThread_keeps (T := anybody) hS (ht.staying hS.toInv) trivial) (fun _ => id)
    fun _ _ hS' _ _ _ => keep_reschedule hS'

theorem svcExitProcess_keeps (hS : Sound k) (ht : Running k t) :
    Keeps anybody (svcExitProcess env t) k (fun _ _ => True) := by
  simp only [svcExitProcess, ends_get]
  refine keep_call (exitOthers_keeps _ hS ht) (fun _ _ => trivial) fun _ k₁ hS₁ hF₁ hl₁ _ => ?_
  have ht₁ := ht.frame hS.toInv hF₁ hl₁ (fun h => h rfl) (fun h => h rfl)
  exact (svcExitThread_keeps hS₁ ht₁).mono (fun _ => id) fun _ _ _ _ _ _ => trivial

theorem exitThreads_keeps : ∀ (l : List Ref) {k : Kernel}, Sound k → p ∈ k.locals →
    (∀ t ∈ l, t ∈ (k.process p).threads) → Keeps anybody (exitThreads env l) k (fun _ k' =>
      (k'.process p).threads = (k.process p).threads ∧
      ∀ t ∈ l, ∃ sessions, .stopped t sessions ∈ k'.trace)
  | [], _, hS, _, _ => keep_done hS ⟨rfl, fun _ ht => absurd ht List.not_mem_nil⟩
  | t :: l, k, hS, hp, hl => by
    refine keep_call (exitThread_keeps (T := anybody) hS (hS.staying hp (hl t List.mem_cons_self))
      trivial) (fun _ => id) fun _ k₁ hS₁ _ hl₁ hk₁ => ?_
    obtain ⟨hp₁, sessions, hgone⟩ := hk₁
    refine (exitThreads_keeps l hS₁ (hl₁ ▸ hp) fun x hx => ?_).mono (fun _ => id)
      fun _ k₂ _ hF₂ _ hk₂ => ⟨hk₂.1.trans (hp₁ p), fun x hx => ?_⟩
    · rw [hp₁]
      exact hl x (List.mem_cons_of_mem _ hx)
    · rcases List.mem_cons.1 hx with rfl | hx
      · exact ⟨sessions, hF₂.trace.subset hgone⟩
      · exact hk₂.2 x hx

theorem destroyThreads_keeps : ∀ (n : Nat) {k : Kernel}, Sound k → p ∈ k.locals →
    (∀ t ∈ (k.process p).threads, ∃ sessions, .stopped t sessions ∈ k.trace) →
    Keeps T (destroyThreads env p n) k (fun _ _ => True)
  | 0, _, hS, _, _ => keep_done hS trivial
  | n + 1, k, hS, hp, hgone => by
    simp only [destroyThreads, ends_get]
    split
    · exact keep_done hS trivial
    next t l ht =>
      have hmem : t ∈ (k.process p).threads := by
        rw [ht]
        exact List.mem_cons_self
      obtain ⟨sessions, hstopped⟩ := hgone t hmem
      refine keep_call (triggerThreadDestruction_keeps (T := T) hS (hS.staying hp hmem) hstopped)
        (fun _ => id) fun _ k₁ hS₁ hF₁ hl₁ hp₁ => ?_
      refine destroyThreads_keeps n hS₁ (hl₁ ▸ hp) fun x hx => ?_
      obtain ⟨sessions, hx⟩ := hgone x (hp₁ p hx)
      exact ⟨sessions, hF₁.trace.subset hx⟩

theorem svcTerminateProcess_keeps (hS : Sound k) (ht : Running k t) :
    Keeps anybody (svcTerminateProcess env t handle) k (fun _ _ => True) := by
  unfold svcTerminateProcess
  refine keep_getObject fun p hp hk => ?_
  simp only [ends_get]
  apply Ends.split
  · intro _
    exact keep_fail (by decide)
  · intro _
    apply Ends.split
    · intro _
      exact keep_fail (by decide)
    · intro _
      have hd := (hS.lookup_alive (hS.locals _ ht.parent) hp).2
      refine keep_held hS hd (fun hS₁ => ?_) fun _ _ hS' =>
        (keep_collect hS').mono (fun _ => id) fun _ _ _ _ _ _ => trivial
      refine keep_call (exitThreads_keeps (p := p) _ hS₁ List.mem_cons_self fun _ => id) (fun _ => id)
        fun _ k₁ hS₁ _ hl₁ hk₁ => ?_
      simp only [ends_get]
      split
      · exact keep_fail (by decide)
      next x l _ =>
        exact destroyThreads_keeps _ hS₁ (by rw [hl₁]; exact List.mem_cons_self) fun x hx =>
          hk₁.2 x (hk₁.1 ▸ hx)

end Mikage
