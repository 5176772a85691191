import Mikage.OS.Requests

/-!
# Runs of the system

Every pass of the dispatcher keeps the invariant, whatever the threads do. So it holds in every state
of every run:
- No assertion on observer lists or wait lists ever fails.
- A thread that has exited never runs again, unless it is in the waiting queue.
- A thread stays blocked until what it waits for happens, or until its deadline has passed.
- The ready queue holds every ready thread once, unless a pass has a mishap (`Obs.mishap`).
-/

namespace Mikage

open KM Account

variable {env : Env} {k k' : Kernel} {t p : Ref} {T : Ref → Prop}

/-! ## System calls -/

theorem Svc.call_keeps (hS : Sound k) (ht : Running k t) (svc : Svc) :
    Keeps anybody (svc.call env t) k (fun _ _ => True) := by
  cases svc with
  | createThread => exact svcCreateThread_keeps hS ht
  | setThreadPriority => exact svcSetThreadPriority_keeps hS
  | exitThread => exact svcExitThread_keeps hS ht
  | sleepThread => exact svcSleepThread_keeps hS ht trivial
  | createProcess => exact svcCreateProcess_keeps hS ht
  | run => exact svcRun_keeps hS ht
  | openProcess => exact svcOpenProcess_keeps hS ht
  | exitProcess => exact svcExitProcess_keeps hS ht
  | terminateProcess => exact svcTerminateProcess_keeps hS ht
  | createMutex => exact svcCreateMutex_keeps hS ht
  | releaseMutex => exact svcReleaseMutex_keeps hS ht
  | createSemaphore => exact svcCreateSemaphore_keeps hS ht
  | releaseSemaphore => exact svcReleaseSemaphore_keeps hS ht
  | createEvent => exact svcCreateEvent_keeps hS ht
  | signalEvent => exact svcSignalEvent_keeps hS ht
  | clearEvent => exact svcClearEvent_keeps hS
  | createTimer => exact svcCreateTimer_keeps hS ht
  | setTimer => exact svcSetTimer_keeps hS ht
  | createAddressArbiter | startInterprocessDMA | createOther =>
    exact svcCreateObject_keeps hS ht (by decide)
  | arbitrateAddress => exact svcArbitrateAddress_keeps hS ht trivial
  | bindInterrupt => exact svcBindInterrupt_keeps hS
  | closeHandle => exact svcCloseHandle_keeps hS (ht.kind hS.toInv)
  | duplicateHandle => exact svcDuplicateHandle_keeps hS ht
  | waitSynchronizationN =>
    exact svcWaitSynchronizationN_keeps hS ht trivial (fun _ h => by cases h) (fun h => by cases h)
      (fun h => absurd rfl h)
  | createPort => exact svcCreatePort_keeps hS ht
  | connectToPort => exact svcConnectToPort_keeps hS ht
  | createSessionToPort => exact svcCreateSessionToPort_keeps hS ht
  | createSession => exact svcCreateSession_keeps hS ht
  | acceptSession => exact svcAcceptSession_keeps hS ht
  | sendSyncRequest => exact svcSendSyncRequest_keeps hS ht trivial
  | replyAndReceive => exact svcReplyAndReceive_keeps hS ht trivial
  | getSystemTick => exact svcGetSystemTick_keeps hS
  | «break» => exact keep_fail (by decide)
  | other => exact svcOther_keeps hS

/-! ## The thread's own code -/

theorem keep_elapseTime (hS : Sound k) {ns : Nat} : Keeps T (elapseTime ns) k (fun _ _ => True) :=
  (keep_does hS (.refl _) (elapseTime_does trivial hS.toInv Phase.idle_settled)).mono (fun _ => id)
    fun _ _ _ _ _ _ => trivial

theorem keep_notifyInterrupt (hS : Sound k) {index : Nat} :
    Keeps T (notifyInterrupt index) k (fun _ _ => True) :=
  (keep_does hS (.refl _) (notifyInterrupt_does (g := .idle) hS.toInv ⟨rfl, rfl⟩)).mono (fun _ => id)
    fun _ _ _ _ _ _ => trivial

theorem raiseInterrupts_keeps : ∀ (l : List Nat) {k : Kernel}, Sound k →
    Keeps T (raiseInterrupts l) k (fun _ _ => True)
  | [], _, hS => keep_done hS trivial
  | _ :: l, _, hS => keep_call (keep_notifyInterrupt (T := T) hS) (fun _ => id)
      fun _ _ hS₁ _ _ _ => raiseInterrupts_keeps l hS₁

theorem HostCall.run_keeps (hS : Sound k) (ht : Running k t) (call : HostCall) :
    Keeps nobody (call.run t) k (fun _ _ => True) := by
  cases call with
  | interrupt => exact keep_notifyInterrupt hS
  | attachThread =>
    simp only [HostCall.run, ends_get]
    refine Ends.split (fun _ => keep_fail (by decide)) fun _ => ?_
    refine keep_call (keep_spawnThread (T := nobody) hS (ht.parent_alive hS.toInv)
      (ht.parent_kind hS.toInv) (hS.kept ?_)) (fun _ => id) fun _ _ hS₁ _ _ _ => keep_done hS₁ trivial
    rw [ht.ready]
    decide
  | closeHandle => exact svcCloseHandle_keeps hS (ht.kind hS.toInv)
  | hold =>
    unfold HostCall.run
    refine keep_getObject fun r hr _ => keep_last ?_
    refine keep_frame (f := (r :: ·)) hS ht (fun x hx => ?_) fun hS₁ _ => keep_done hS₁ trivial
    rcases List.mem_cons.1 hx with rfl | hx
    · exact hS.lookup_alive (ht.parent_alive hS.toInv).2 hr
    · exact ht.frame_alive hS x hx

theorem runHost_keeps : ∀ (l : List HostCall) {k : Kernel}, Sound k → Running k t →
    Keeps nobody (runHost t l) k (fun _ _ => True)
  | [], _, hS, _ => keep_done hS trivial
  | call :: l, _, hS, ht => keep_call (HostCall.run_keeps hS ht call) (fun _ => id)
      fun _ _ hS₁ hF₁ hl₁ _ => runHost_keeps l hS₁ (ht.after hS hF₁ hl₁)

theorem writeWords_keeps : ∀ (l : List (Nat × Word)) {k : Kernel}, Sound k →
    Keeps T (writeWords t l) k (fun _ _ => True)
  | [], _, hS => keep_done hS trivial
  | _ :: l, k, hS => by
    simp only [writeWords, writeTLS, ends_modify]
    exact keep_tls hS _ fun hS' => writeWords_keeps l hS'

theorem runThread_keeps (hS : Sound k) (ht : Running k t) (turn : Turn) :
    Keeps anybody (runThread env t turn) k (fun _ _ => True) := by
  simp only [runThread, KM.modifyThread, ends_modify]
  refine keep_frame (f := (·.diff turn.dropped)) hS ht (fun x hx =>
    ht.frame_alive hS x (List.diff_subset _ _ hx)) fun hS₁ ht₁ => ?_
  refine keep_call (keep_collect (T := nobody) hS₁) (fun _ => False.elim) fun _ k₂ hS₂ hF₂ hl₂ _ => ?_
  have ht₂ := ht₁.after hS₁ hF₂ hl₂
  refine keep_call (runHost_keeps turn.host hS₂ ht₂) (fun _ => False.elim)
    fun _ k₃ hS₃ hF₃ hl₃ _ => ?_
  have ht₃ := ht₂.after hS₂ hF₃ hl₃
  refine keep_call (writeWords_keeps (T := nobody) turn.tls hS₃) (fun _ => False.elim)
    fun _ k₄ hS₄ hF₄ hl₄ _ => ?_
  have ht₄ := ht₃.after hS₃ hF₄ hl₄
  refine keep_call (keep_elapseTime (T := nobody) hS₄) (fun _ => False.elim)
    fun _ k₅ hS₅ hF₅ hl₅ _ => ?_
  exact Svc.call_keeps hS₅ (ht₄.after hS₄ hF₅ hl₅) turn.svc

/-- The thread goes on behind a wait. -/
theorem Callback.run_keeps (hS : Sound k) (ht : Running k t) {callback : Callback}
    (hc : ∀ r ∈ callback.owned, k.Alive r) :
    Keeps anybody (callback.run env t) k (fun _ _ => True) := by
  cases callback with
  | sendSyncRequest session handle =>
    have hsession := hc session List.mem_cons_self
    refine keep_holding hS hsession.2 fun hS₁ =>
      sendWhenAccepted_keeps hS₁ ?_ trivial List.mem_cons_self hsession.1
    exact ⟨ht.ready, ht.callback, List.mem_cons_of_mem _ ht.self, List.mem_cons_of_mem _ ht.parent⟩
  | sendSyncRequestDone => exact keep_done hS trivial
  | replyAndReceive => exact receive_keeps hS ht

/-! ## The dispatcher -/

theorem dispatchThread_keeps (hS : Sound k) (ht : t ∈ k.locals) (hr : (k.thread t).status = .ready)
    (turn : Turn) : Keeps anybody (dispatchThread env t turn) k (fun _ _ => True) := by
  have hk : k.kind t = .thread := hS.ready_thread (by rw [hr]; decide)
  have htlt : t < k.next := hS.lt (by rw [hk]; decide)
  have hend : ∀ {k' : Kernel}, Sound k' → Staying k' t → Keeps anybody (do
      if ((← get).thread t).status = .stopped then triggerThreadDestruction env t) k'
      (fun _ _ => True) := fun hS' ht' =>
    Ends.split (fun hs => by
      obtain ⟨sessions, hgone⟩ := hS'.exited t ht'.kind hs
      exact (triggerThreadDestruction_keeps hS' ht' hgone).mono (fun _ => id)
        fun _ _ _ _ _ _ => trivial) fun _ => keep_done hS' trivial
  simp only [dispatchThread, ends_get]
  refine Ends.split (fun _ => keep_fail (by decide)) fun hd => ?_
  rw [Bool.not_eq_true] at hd
  refine keep_holding hS hd fun hS₁ => ?_
  have hp := hS.parent t hk
  have hplt : (k.thread t).process < k.next := hS.lt (by rw [hp]; decide)
  refine keep_call (keep_does (T := nobody) hS₁ (.refl _) (setEntry_does (g := .idle) trivial
    ⟨hplt, hd⟩ hp (fun x hx => ?_))) (fun _ => False.elim) fun _ k₂ hS₂ hF₂ hl₂ _ => ?_
  · rw [← Option.some.inj hx]
    exact ⟨htlt, hS.locals t ht⟩
  have ht₂ : Staying k₂ t ∧ (k₂.thread t).status = .ready := by
    have hstay : Staying { k with locals := (k.thread t).process :: k.locals } t :=
      ⟨⟨hk, List.mem_cons_self⟩, .inl (List.mem_cons_of_mem _ ht)⟩
    refine ⟨⟨hstay.toPresent.frame hS₁.toInv hF₂ hl₂, .inl ?_⟩, hF₂.ready t id id hr⟩
    rw [hl₂]
    exact List.mem_cons_of_mem _ ht
  refine keep_call (keep_collect (T := nobody) hS₂) (fun _ => False.elim) fun _ k₃ hS₃ hF₃ hl₃ _ => ?_
  have ht₃ : Present k₃ t := ht₂.1.toPresent.frame hS₂.toInv hF₃ hl₃
  have hself₃ : t ∈ k₃.locals := by
    rw [hl₃, hl₂]
    exact List.mem_cons_of_mem _ ht
  have hr₃ : (k₃.thread t).status = .ready := hF₃.ready t id id ht₂.2
  have hstay : ∀ {k' : Kernel} {T : Ref → Prop}, Frame (.acting T) k₃ k' → k'.locals = k₃.locals →
      Staying k' t := fun hF hl => ⟨ht₃.frame hS₃.toInv hF hl, .inl (hl ▸ hself₃)⟩
  simp only [ends_get]
  refine Ends.split (fun _ => keep_fail (by decide)) fun _ => ?_
  split
  next hc =>
    refine keep_call (runThread_keeps hS₃ ⟨hr₃, hc, hself₃, ht₃.parent⟩ turn) (fun _ => id)
      fun _ k₄ hS₄ hF₄ hl₄ _ => ends_get.2 (hend hS₄ (hstay hF₄ hl₄))
  next callback hc =>
    refine keep_call (keep_elapseTime (T := nobody) hS₃) (fun _ => False.elim)
      fun _ k₄ hS₄ hF₄ hl₄ _ => ?_
    have hk₄ := (hstay hF₄ hl₄)
    have hc₄ : (k₄.thread t).callback = some callback := (hF₄.callback t id (ht₃.lt hS₃.toInv)).trans hc
    have hdead₄ := hk₄.dead hS₄.toInv
    have hr₄ : (k₄.thread t).status = .ready := hF₄.ready t id id hr₃
    have howned : ∀ r ∈ callback.owned, k₄.Alive r := fun r hr =>
      hS₄.threadOwned t hdead₄ r (by simp [Thread.owned, hc₄, hr])
    obtain ⟨hS₅, hF₅⟩ := hS₄.updateThread (T := anybody) (f := fun thread =>
      { thread with callback := none }) hk₄.kind (fun _ => rfl) (fun _ => rfl) (fun _ => rfl)
      (fun hd r hr => hS₄.threadOwned t hd r (by
        simp only [Thread.owned, Option.toList_none, List.flatMap_nil, List.append_nil] at hr ⊢
        exact List.mem_append_left _ hr)) (.inl trivial) ⟨rfl, .inl hr₄⟩
    simp only [KM.modifyThread, ends_modify]
    refine keep_move hF₅ rfl ?_
    have hself₄ : t ∈ k₄.locals := hl₄ ▸ hself₃
    refine keep_call (Callback.run_keeps hS₅ ⟨?_, ?_, hself₄, ?_⟩ howned) (fun _ => id)
      fun _ k₆ hS₆ hF₆ hl₆ _ => ?_
    · rw [Store.get_modify_self]
      exact hr₄
    · rw [Store.get_modify_self]
    · rw [Store.get_modify_self]
      exact hk₄.parent
    refine ends_get.2 (hend hS₆ (hstay (hF₄.mono (Powers.acting_le fun _ => False.elim)
      |>.trans (hF₅.trans hF₆)) (hl₆.trans hl₄)))

theorem dispatch_keeps (hS : Sound k) (turn : Turn) :
    Keeps anybody (dispatch env turn) k (fun _ _ => True) := by
  unfold dispatch
  refine keep_call (raiseInterrupts_keeps (T := nobody) _ hS) (fun _ => False.elim)
    fun _ k₁ hS₁ _ _ _ => ?_
  simp only [ends_get]
  split
  · exact keep_elapseTime hS₁
  next t rest hqueue =>
    refine Ends.split (fun _ => keep_fail (by decide)) fun hd =>
      Ends.split (fun _ => keep_fail (by decide)) fun _ => ?_
    rw [Bool.not_eq_true] at hd
    refine Ends.split (fun hst => ?_) fun hr => ?_
    · have hact : Act .base (k₁, .idle) ({ k₁ with readyQueue := rest }, .idle) := .skip hqueue hst
      have hS₂ := hS₁.act hact
      exact ends_set_last.2 ⟨hS₂, { Frame.refl k₁ with }, rfl, trivial⟩
    · refine keep_held hS₁ hd (fun hS₂ =>
        dispatchThread_keeps hS₂ List.mem_cons_self (not_not.1 hr) turn) fun _ _ hS₃ => ?_
      exact (keep_collect hS₃).mono (fun _ => id) fun _ _ _ _ _ _ => trivial

/-! ## Every run -/

theorem boot_kind (r : Ref) :
    boot.kind r = if r = 0 then .process else if r = 1 then .thread else .none :=
  match r with
  | 0 | 1 => rfl
  | _ + 2 => rfl

theorem boot_thread (t : Ref) : boot.thread t =
    if t = 1 then { process := 0, status := .ready, finished := false } else default :=
  match t with
  | 0 | 1 => rfl
  | _ + 2 => rfl

theorem boot_process (p : Ref) : boot.process p =
    if p = 0 then { fake := true, threads := [1], table := [(handleCurrentProcess, 0)] }
    else default :=
  match p with
  | 0 => rfl
  | _ + 1 => rfl

theorem boot_sound : Sound boot where
  counts t s _ := by
    have hw : (boot.thread t).waitList = [] := by
      rw [boot_thread]
      split <;> rfl
    rw [hw]
    rfl
  asleep t ht := by
    rw [boot_thread] at ht
    split at ht <;> exact absurd rfl ht
  processHandles r hr := by
    rw [List.mem_singleton.1 hr]
    exact ⟨by decide, rfl⟩
  ports _ h := absurd h List.not_mem_nil
  locals _ h := absurd h List.not_mem_nil
  threadOwned t _ r hr := by
    rw [boot_thread] at hr
    split at hr <;> exact absurd hr List.not_mem_nil
  processOwned p _ r hr := by
    rw [boot_process] at hr
    split at hr
    · have hr : r = 0 ∨ r = 1 := by simpa [Process.owned] using hr
      rcases hr with rfl | rfl <;> exact ⟨by decide, rfl⟩
    · exact absurd hr List.not_mem_nil
  serverPortOwned p hk := by
    rw [boot_kind] at hk
    split at hk <;> [skip; split at hk] <;> cases hk
  clientPortOwned p hk := by
    rw [boot_kind] at hk
    split at hk <;> [skip; split at hk] <;> cases hk
  serverSessionOwned p hk := by
    rw [boot_kind] at hk
    split at hk <;> [skip; split at hk] <;> cases hk
  clientSessionOwned p hk := by
    rw [boot_kind] at hk
    split at hk <;> [skip; split at hk] <;> cases hk
  fresh r hr := by
    have hr : 2 ≤ r := hr
    refine ⟨?_, rfl, rfl⟩
    rw [boot_kind, if_neg (Nat.ne_of_gt (Nat.lt_of_lt_of_le (by decide) hr)),
      if_neg (Nat.ne_of_gt (Nat.lt_of_lt_of_le (by decide) hr))]
  thread t ht := by
    rw [boot_thread, if_neg]
    rintro rfl
    exact ht rfl
  process p hp := by
    rw [boot_process, if_neg]
    rintro rfl
    exact hp rfl
  clientSession _ _ := rfl
  parent t ht := by
    rw [boot_kind] at ht
    split at ht
    · cases ht
    · split at ht
      next h => subst h; rfl
      next => cases ht
  members p t ht := by
    rw [boot_process] at ht
    split at ht
    next h =>
      rw [List.mem_singleton.1 ht, h]
      exact ⟨rfl, rfl⟩
    next => exact absurd ht List.not_mem_nil
  queued _ _ h := absurd h List.not_mem_nil
  terminal _ _ h := absurd h List.not_mem_nil
  punctual := by
    refine ⟨fun t => ?_, fun before o after h => ?_⟩
    · show (boot.thread t).status = .ready ∨ (boot.thread t).status = .stopped
      rw [boot_thread]
      split
      · exact .inl rfl
      · exact .inr rfl
    · exact absurd h (by simp [boot])
  scheduled _ := by
    refine ⟨fun t => ?_, fun t ht => ?_, fun t ht => ?_, fun p hp _ => ?_⟩
    · rw [boot_thread]
      by_cases h : t = 1
      · subst h
        rfl
      · rw [if_neg h, if_neg (by decide)]
        exact List.count_eq_zero.2 (by simpa [boot] using h)
    · rw [boot_thread] at ht ⊢
      split at ht
      next h =>
        subst h
        decide
      next => exact absurd rfl ht
    · rw [boot_thread] at ht ⊢
      split at ht
      next h =>
        rw [if_pos h]
        decide
      next => exact absurd rfl ht
    · rw [boot_kind] at hp
      split at hp
      next h => exact h ▸ List.mem_cons_self
      next => split at hp <;> cases hp
  exited t hk hs := by
    rw [boot_kind] at hk
    rw [boot_thread] at hs
    split at hs
    · cases hs
    next h =>
      rw [if_neg h] at hk
      split at hk <;> cases hk

theorem Reached.sound (h : Reached env k) : Sound k := by
  refine h.invariant (fun s (hs : s = boot) => hs ▸ boot_sound) fun s s' hS hstep => ?_
  obtain ⟨turn, hturn⟩ := hstep
  exact ((dispatch_keeps hS turn).ok hturn).1

/-- In every run, observer lists and wait lists agree, and the assertions on them hold. -/
theorem observers_agree (h : Reached env k) :
    (∀ t s, k.dead t = false → (k.observers s).count t = (k.thread t).waitList.count s) ∧
    (∀ t, (k.thread t).waitList ≠ [] → (k.thread t).status = .sleeping) ∧
    ∀ turn e k', dispatch env turn k = .error e k' → e ∉ Exception.observing :=
  ⟨h.sound.counts, h.sound.asleep, fun turn _ _ he => (dispatch_keeps h.sound turn).error he⟩

/-- A partition that sorts, and no buffers. -/
def Env.sorting : Env where
  order l := l
  order_perm _ := .refl _
  nthElement key _ l := l.mergeSort (fun a b => decide (key b ≤ key a))
  nthElement_perm _ _ _ := List.mergeSort_perm _ _
  nthElement_split key n l := by
    have hsorted := @List.pairwise_mergeSort _ (fun a b => decide (key b ≤ key a))
      (fun a b c hab hbc => by
        simp only [decide_eq_true_eq] at *
        exact Nat.le_trans hbc hab)
      (fun a b => by
        simp only [Bool.or_eq_true, decide_eq_true_eq]
        exact Nat.le_total _ _) l
    rw [← List.take_append_drop n (l.mergeSort _)] at hsorted
    intro a ha b hb
    simpa using (List.pairwise_append.1 hsorted).2.2 a ha b hb
  translateBuffer _ _ _ _ _ _ _ := none

/-- Thread 1 waits for its own process. -/
theorem observers_agree_waiting : ∃ k : Kernel, k.observers 0 = [1] ∧
    (k.observers 0).count 1 = (k.thread 1).waitList.count 0 := by
  have hwait : Reached .sorting _ :=
    .next (.start rfl) ⟨{ svc := .waitSynchronizationN [handleCurrentProcess] false 1000 }, rfl⟩
  exact ⟨_, rfl, (observers_agree hwait).1 1 0 rfl⟩

/-! ## Threads that have exited -/

/-- A pass that finds no due entry of a stopped thread in the waiting queue. -/
def StepInTime (env : Env) (k k' : Kernel) : Prop := Step env k k' ∧ ∀ t, k'.Revived t → k.Revived t

abbrev ReachedInTime (env : Env) : Kernel → Prop := Run.Reachable (· = boot) (StepInTime env)

theorem ReachedInTime.reached (h : ReachedInTime env k) : Reached env k := h.mono fun _ _ hs => hs.1

theorem ReachedInTime.not_revived (h : ReachedInTime env k) : ∀ t, ¬ k.Revived t := by
  refine h.invariant (I := fun k => ∀ t, ¬ k.Revived t) (fun s hs t ht => ?_)
    fun s s' ih hs t ht => ih t (hs.2 t ht)
  rw [hs] at ht
  exact absurd ht List.not_mem_nil

/-- Where the clock revives no thread, what has exited is stopped and not ready. -/
theorem exited_terminal (h : ReachedInTime env k) {sessions : List Ref}
    (ht : .stopped t sessions ∈ k.trace) : (k.thread t).status = .stopped ∧ t ∉ k.readyQueue := by
  rcases h.reached.sound.terminal t sessions ht with hr | ⟨-, hs, hq⟩
  · exact absurd hr (h.not_revived t)
  · exact ⟨hs, hq⟩

/-- The state after some passes, none of which ends in an exception. -/
def passes (env : Env) : List Turn → Kernel → Option Kernel
  | [], k => some k
  | turn :: turns, k =>
    match dispatch env turn k with
    | .ok _ k' => passes env turns k'
    | .error _ _ => none

theorem passes_cons {turn : Turn} {turns : List Turn} (h : passes env (turn :: turns) k = some k') :
    ∃ k₁, dispatch env turn k = .ok () k₁ ∧ passes env turns k₁ = some k' := by
  unfold passes at h
  split at h
  next k₁ heq => exact ⟨k₁, heq, h⟩
  next => exact nomatch h

theorem passes_reached : ∀ {turns : List Turn} {k : Kernel}, Reached env k →
    passes env turns k = some k' → Reached env k' ∧ k.trace <+: k'.trace
  | [], _, h, hp => Option.some.inj hp ▸ ⟨h, List.prefix_refl _⟩
  | _ :: _, _, h, hp => by
    obtain ⟨k₁, hd, hp₁⟩ := passes_cons hp
    obtain ⟨hr, htrace⟩ := passes_reached (h.next ⟨_, hd⟩) hp₁
    exact ⟨hr, ((dispatch_keeps h.sound _).ok hd).2.1.trace.trans htrace⟩

theorem passes_inTime (hr : ∀ t, ¬ k'.Revived t) : ∀ {turns : List Turn} {k : Kernel},
    ReachedInTime env k → passes env turns k = some k' → ReachedInTime env k'
  | [], _, h, hp => Option.some.inj hp ▸ h
  | _ :: _, _, h, hp => by
    obtain ⟨k₁, hd, hp₁⟩ := passes_cons hp
    have hrev : ∀ t, ¬ k₁.Revived t := fun t ht =>
      hr t ((passes_reached (h.reached.next ⟨_, hd⟩) hp₁).2.subset ht)
    exact passes_inTime hr (h.next ⟨⟨_, hd⟩, fun t ht => absurd ht (hrev t)⟩) hp₁

/-- Thread 1 starts process 2. Its first thread 3 creates thread 4, which makes the call `svc`, and
thread 3 exits the process. -/
def exitAfter (svc : Svc) : List Turn :=
  [{ svc := .createProcess false }, { svc := .run 1 48 }, { svc := .createThread 48 }, {},
   { svc := svc }, { svc := .exitProcess }]

/-- No due entry of the waiting queue was taken whose thread had stopped. -/
def Kernel.inTime (k : Kernel) : Bool := k.trace.all fun
  | .stale _ .stopped => false
  | _ => true

theorem not_revived_of_inTime (h : k.inTime = true) (t : Ref) : ¬ k.Revived t :=
  fun ht => nomatch List.all_eq_true.1 h _ ht

/-- Thread 4 is only rescheduled. -/
theorem exited_terminal_rescheduled : ∃ k : Kernel, .stopped 4 [] ∈ k.trace ∧
    (k.thread 4).status = .stopped ∧ 4 ∉ k.readyQueue := by
  have hpasses : (passes .sorting (exitAfter (.other true)) boot).any
      (fun k => decide (.stopped 4 [] ∈ k.trace) && k.inTime) = true := by decide +kernel
  obtain ⟨k, hk, hp⟩ := (Option.any_eq_true _ _).1 hpasses
  rw [Bool.and_eq_true, decide_eq_true_eq] at hp
  have hreached := passes_inTime (not_revived_of_inTime hp.2) (.start rfl) hk
  exact ⟨k, hp.1, exited_terminal hreached hp.1⟩

/-- Thread 4 sleeps: the clock makes it ready after it has exited. -/
theorem exited_not_terminal : ∃ k, Reached .sorting k ∧ .stopped 4 [] ∈ k.trace ∧
    (k.thread 4).status = .ready ∧ 4 ∈ k.readyQueue := by
  have hpasses : (passes .sorting (exitAfter (.sleepThread 400)) boot).any
      (fun k => decide (.stopped 4 [] ∈ k.trace ∧ (k.thread 4).status = .ready ∧ 4 ∈ k.readyQueue)) =
      true := by decide +kernel
  obtain ⟨k, hk, hp⟩ := (Option.any_eq_true _ _).1 hpasses
  exact ⟨k, (passes_reached (.start rfl) hk).1, of_decide_eq_true hp⟩

/-! ## Timeouts -/

/-- In every run, a thread stays blocked as its last wait says, with that wait's deadline and result,
until something this wait is for makes it ready: one of its objects, its deadline or its signal. An
entry of the waiting queue that is due otherwise belongs to a thread that does not wait. -/
theorem waits_undisturbed (h : Reached env k) :
    (∀ t w, pending t k.trace = some w → (k.thread t).Waits w) ∧
    (∀ t, pending t k.trace = none → (k.thread t).status = .ready ∨ (k.thread t).status = .stopped) ∧
    (∀ before t cause after, k.trace = before ++ .woken t cause :: after →
      ∃ w, pending t before = some w ∧ w.EndedBy cause) ∧
    (∀ before t status after, k.trace = before ++ .stale t status :: after →
      pending t before = none) := by
  have hP := h.sound.punctual
  refine ⟨fun t w hw => ?_, fun t hw => ?_, fun before t cause after heq => ?_,
    fun before t status after heq => ?_⟩
  · have ha := hP.agrees t
    rwa [hw] at ha
  · have ha := hP.agrees t
    rwa [hw] at ha
  · exact hP.fits before _ after heq
  · exact hP.fits before _ after heq

/-- Thread 4 waits for an event with a timeout, thread 3 signals it, and thread 4 waits again. -/
def waitTwice : List Turn :=
  [{ svc := .createProcess false }, { svc := .run 1 48 }, { svc := .createThread 48 }, {},
   { svc := .createEvent .oneShot }, {}, {}, { svc := .waitSynchronizationN [2] false 5000 }, {},
   { svc := .signalEvent 2 }, {}, {}, { svc := .waitSynchronizationN [2] false (-1) },
   { ticks := 2000 }]

/-- The second wait goes on behind the deadline of the first, whose entry is still in the queue. -/
theorem waits_undisturbed_twice : ∃ k : Kernel, .woken 4 (.resource 5) ∈ k.trace ∧
    .blocked 4 (.objects [5]) 8498 0 ∈ k.trace ∧ 8498 ≤ k.now ∧ 4 ∈ k.waitingQueue ∧
    (k.thread 4).Waits ⟨.objects [5], noTimeout, 0⟩ := by
  have hpasses : (passes .sorting waitTwice boot).any (fun k => decide
      ((.woken 4 (.resource 5) ∈ k.trace ∧ .blocked 4 (.objects [5]) 8498 0 ∈ k.trace ∧
        8498 ≤ k.now ∧ 4 ∈ k.waitingQueue) ∧
        pending 4 k.trace = some ⟨.objects [5], noTimeout, 0⟩)) = true := by decide +kernel
  obtain ⟨k, hk, hp⟩ := (Option.any_eq_true _ _).1 hpasses
  obtain ⟨⟨hwoken, hblocked, hnow, hqueue⟩, hpending⟩ := of_decide_eq_true hp
  have hreached := (passes_reached (.start rfl) hk).1
  exact ⟨k, hwoken, hblocked, hnow, hqueue, (waits_undisturbed hreached).1 4 _ hpending⟩

/-! ## The ready queue -/

theorem notifyInterrupt_calm (hS : Sound k) {index : Nat} : Ends (notifyInterrupt index) k
    (fun _ k' => Sound k' ∧ (k'.Upset → k.Upset)) (fun _ _ => True) :=
  Ends.mono (notifyInterrupt_does (P := .base) (g := .idle) hS.toInv ⟨rfl, rfl⟩)
    (fun _ _ ⟨_, ha, _⟩ => ⟨hS.acts ha, calm_of_acts ha id id⟩) (fun _ _ _ => trivial)

theorem raiseInterrupts_calm : ∀ (l : List Nat) {k : Kernel}, Sound k → Ends (raiseInterrupts l) k
    (fun _ k' => Sound k' ∧ (k'.Upset → k.Upset)) (fun _ _ => True)
  | [], _, hS => ⟨hS, id⟩
  | _ :: l, _, hS => by
    refine Ends.bind (notifyInterrupt_calm hS) fun _ k₁ h₁ => ?_
    exact Ends.mono (raiseInterrupts_calm l h₁.1) (fun _ _ h₂ => ⟨h₂.1, fun hu => h₁.2 (h₂.2 hu)⟩)
      fun _ _ h => h

/-- A pass without a mishap. -/
def StepCalm (env : Env) (k k' : Kernel) : Prop := Step env k k' ∧ (k'.Upset → k.Upset)

abbrev ReachedCalmly (env : Env) : Kernel → Prop := Run.Reachable (· = boot) (StepCalm env)

theorem ReachedCalmly.reached (h : ReachedCalmly env k) : Reached env k := h.mono fun _ _ hs => hs.1

theorem ReachedCalmly.not_upset (h : ReachedCalmly env k) : ¬ k.Upset := by
  refine h.invariant (I := fun k => ¬ k.Upset) (fun s hs ht => ?_) fun s s' ih hs ht => ih (hs.2 ht)
  obtain ⟨o, ho, -⟩ := ht
  rw [hs] at ho
  exact absurd ho List.not_mem_nil

/-- Where no pass has a mishap, every ready thread stands in the ready queue once and no other thread
does, and what the dispatcher selects has not been destroyed. -/
theorem ready_queue_exact (h : ReachedCalmly env k) :
    (∀ t, k.readyQueue.count t = if (k.thread t).status = .ready then 1 else 0) ∧
    ∀ turn : Turn, ∀ k₁, raiseInterrupts turn.interrupts k = .ok () k₁ →
      ∀ t rest, k₁.readyQueue = t :: rest → k₁.dead t = false ∧ (k₁.thread t).status = .ready := by
  refine ⟨(h.reached.sound.scheduled h.not_upset).count, fun turn k₁ hk₁ t rest hq => ?_⟩
  obtain ⟨hS, hu⟩ := (raiseInterrupts_calm turn.interrupts h.reached.sound).ok hk₁
  obtain ⟨hr, halive⟩ := (hS.scheduled (mt hu h.not_upset)).alive hS.toInv
    (hq ▸ List.mem_cons_self : t ∈ k₁.readyQueue)
  exact ⟨halive.2, hr⟩

theorem passes_calm (hu : ¬ k'.Upset) : ∀ {turns : List Turn} {k : Kernel}, ReachedCalmly env k →
    passes env turns k = some k' → ReachedCalmly env k'
  | [], _, h, hp => Option.some.inj hp ▸ h
  | _ :: _, _, h, hp => by
    obtain ⟨k₁, hd, hp₁⟩ := passes_cons hp
    have hcalm : ¬ k₁.Upset := fun hu₁ =>
      hu (hu₁.mono (passes_reached (h.reached.next ⟨_, hd⟩) hp₁).2)
    exact passes_calm hu (h.next ⟨⟨_, hd⟩, fun hu₁ => absurd hu₁ hcalm⟩) hp₁

/-- Thread 4 has been woken before its timeout and waits again. -/
theorem ready_queue_exact_twice : ∃ k : Kernel, 4 ∈ k.waitingQueue ∧ k.readyQueue.count 4 = 0 ∧
    k.readyQueue.count 3 = 1 := by
  have hpasses : (passes .sorting waitTwice boot).any (fun k => decide
      (4 ∈ k.waitingQueue ∧ (k.thread 4).status = .sleeping ∧ (k.thread 3).status = .ready) &&
        !k.trace.any (·.mishap)) = true := by decide +kernel
  obtain ⟨k, hk, hp⟩ := (Option.any_eq_true _ _).1 hpasses
  rw [Bool.and_eq_true, decide_eq_true_eq, Bool.not_eq_true', List.any_eq_false] at hp
  have hreached := passes_calm (fun ⟨o, ho, hm⟩ => hp.2 o ho hm) (.start rfl) hk
  obtain ⟨hqueue, hsleeping, hready⟩ := hp.1
  have hcount := (ready_queue_exact hreached).1
  refine ⟨k, hqueue, ?_, ?_⟩
  · rw [hcount, hsleeping]
    rfl
  · rw [hcount, hready]
    rfl

/-- Thread 4 waits for an event with a timeout, thread 3 signals it, and the timeout passes while
thread 4 is ready. -/
def wakeTwice : List Turn :=
  [{ svc := .createProcess false }, { svc := .run 1 48 }, { svc := .createThread 48 }, {},
   { svc := .createEvent .oneShot }, {}, {}, { svc := .waitSynchronizationN [2] false 5000 }, {},
   { svc := .signalEvent 2 }, { ticks := 2000 }]

theorem dispatch_expired {rest : List Ref} (hq : k.readyQueue = t :: rest) (hd : k.dead t = true) :
    dispatch env {} k = .error (.nullPointer "next_thread") k := by
  have h : Ends (dispatch env {}) k (fun _ _ => False)
      (fun e k' => e = .nullPointer "next_thread" ∧ k' = k) := by
    simp only [dispatch, raiseInterrupts, ends_pure_bind, ends_get, hq]
    rw [if_pos hd]
    exact ⟨rfl, rfl⟩
  cases hx : dispatch env {} k with
  | ok => exact (h.ok hx).elim
  | error =>
    obtain ⟨rfl, rfl⟩ := h.error hx
    rfl

/-- Thread 4 stands in the queue twice. Where it has slept and its process has exited, the dispatcher
selects it although it has been destroyed. -/
theorem ready_queue_not_exact :
    (∃ k, Reached .sorting k ∧ (k.thread 4).status = .ready ∧ k.readyQueue.count 4 = 2) ∧
    ∃ k, Reached .sorting k ∧ k.readyQueue.head? = some 4 ∧ k.dead 4 = true ∧
      dispatch .sorting {} k = .error (.nullPointer "next_thread") k := by
  have htwice : (passes .sorting wakeTwice boot).any (fun k => decide
      ((k.thread 4).status = .ready ∧ k.readyQueue.count 4 = 2)) = true := by decide +kernel
  have hgone : (passes .sorting (exitAfter (.sleepThread 400)) boot).any (fun k => decide
      (k.readyQueue.head? = some 4 ∧ k.dead 4 = true)) = true := by decide +kernel
  obtain ⟨k₁, hk₁, hp₁⟩ := (Option.any_eq_true _ _).1 htwice
  obtain ⟨k₂, hk₂, hp₂⟩ := (Option.any_eq_true _ _).1 hgone
  obtain ⟨hhead, hdead⟩ := of_decide_eq_true hp₂
  obtain ⟨rest, hq⟩ := List.head?_eq_some_iff.1 hhead
  exact ⟨⟨k₁, (passes_reached (.start rfl) hk₁).1, of_decide_eq_true hp₁⟩,
    k₂, (passes_reached (.start rfl) hk₂).1, hhead, hdead, dispatch_expired hq hdead⟩

end Mikage
