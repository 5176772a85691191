import Mikage.OS.Leave

/-!
# System calls, kept

The calls that create, signal and wait for objects keep the invariant. Up to its own wait the running
thread stays ready.
-/

namespace Mikage

open KM Account

variable {α β : Type} {env : Env} {k k' s : Kernel} {r t p : Ref} {T : Ref → Prop} {P : Powers}
  {handle : Handle}

/-! ## Threads and objects -/

theorem Running.after (h : Running k t) (hS : Sound k) (hF : Frame (.acting nobody) k k')
    (hl : k'.locals = k.locals) : Running k' t := h.frame hS.toInv hF hl id id

/-- An update of a thread outside of its waits. -/
theorem Sound.modifyThread (hS : Sound k) {f : Thread → Thread} (readyQueue waitingQueue : List Ref)
    (obs : List Obs) (hk : k.kind t = .thread)
    (hproc : ∀ thread, (f thread).process = thread.process)
    (hwait : ∀ thread, (f thread).waitList = thread.waitList)
    (hstatus : (k.thread t).waitList = [] ∨ (f (k.thread t)).status = (k.thread t).status)
    (howned : k.dead t = false → ∀ r ∈ (f (k.thread t)).owned, k.Alive r)
    (hT : T t ∨ ((k.thread t).status = .ready → (f (k.thread t)).status = .ready) ∧
      (f (k.thread t)).callback = (k.thread t).callback)
    (hterm : Kernel.Terminal { k with thread := k.thread.modify t f, readyQueue := readyQueue,
                                      waitingQueue := waitingQueue, trace := k.trace ++ obs })
    (hpunct : Punctual (k.trace ++ obs) (k.thread.modify t f))
    (hsch : ¬ Kernel.Upset { k with trace := k.trace ++ obs } → k.Scheduled →
      Kernel.Scheduled { k with thread := k.thread.modify t f, readyQueue := readyQueue,
                                waitingQueue := waitingQueue, trace := k.trace ++ obs })
    (hstop : (f (k.thread t)).status = .stopped → (k.thread t).status = .stopped) :
    Sound { k with thread := k.thread.modify t f, readyQueue := readyQueue,
                   waitingQueue := waitingQueue, trace := k.trace ++ obs } ∧
    Frame (.acting T) k { k with thread := k.thread.modify t f, readyQueue := readyQueue,
                                 waitingQueue := waitingQueue, trace := k.trace ++ obs } := by
  refine hS.with_frame (.modifyThread hproc (fun hn _ => (hT.resolve_left hn).1)
    (fun hn => (hT.resolve_left hn).2) (fun hn => absurd trivial hn) (List.prefix_append _ _)) ?_
    (fun _ _ => id) (fun _ => rfl) hterm hpunct
    (fun hu => hsch hu (hS.scheduled_of (List.prefix_append _ _) hu))
    (hS.exited.back (List.prefix_append _ _) fun x hx hs => ⟨hx, ?_⟩)
  · have hI : Inv { k with thread := k.thread.modify t f, readyQueue := readyQueue,
                           trace := k.trace ++ obs } :=
      hS.toInv.modifyThread' hk hproc hwait hstatus howned
    exact { hI with }
  · simp only [Store.get_modify] at hs
    split at hs
    next he =>
      subst he
      exact hstop hs
    next => exact hs

/-- An update of what nobody waits for. -/
theorem Sound.updateThread (hS : Sound k) {f : Thread → Thread} (hk : k.kind t = .thread)
    (hproc : ∀ thread, (f thread).process = thread.process)
    (hwait : ∀ thread, (f thread).waitList = thread.waitList)
    (hstatus : ∀ thread, (f thread).status = thread.status)
    (howned : k.dead t = false → ∀ r ∈ (f (k.thread t)).owned, k.Alive r)
    (hT : T t ∨ (f (k.thread t)).callback = (k.thread t).callback)
    (hstays : (k.thread t).Stays (f (k.thread t))) :
    Sound { k with thread := k.thread.modify t f } ∧
    Frame (.acting T) k { k with thread := k.thread.modify t f } := by
  have h := hS.modifyThread (T := T) k.readyQueue k.waitingQueue [] hk hproc hwait (.inr (hstatus _))
    howned (hT.imp_right fun hc => ⟨fun hr => (hstatus _).trans hr, hc⟩)
    (hS.terminal.same rfl (Nat.le_refl _) (Store.status_modify hstatus) (List.Subset.refl _) (by simp))
    (hS.punctual.same (by simp) (Store.stays_modify hstays))
    (fun _ h => h.same rfl (fun _ => id) (Store.place_modify (hstatus _) (hproc _))
      (fun _ => ⟨rfl, rfl⟩) rfl) fun hs => (hstatus _).symm.trans hs
  rwa [List.append_nil] at h

theorem keep_createHandle (hS : Sound k) (hp : k.dead p = false) (hk : k.kind p = .process)
    (hr : k.Alive r) : Keeps T (createHandle p r) k
      (fun _ k' => ∃ process dead trace, k' = { k with process := process, dead := dead,
                                                       trace := trace }) := by
  refine (keep_does hS (.refl _) (createHandle_does (g := .idle) trivial hS.toInv (by simp [Phase.idle])
    ⟨hS.lt (by rw [hk]; decide), hp⟩ hk hr)).mono (fun _ => id) ?_
  rintro _ k' - - - ⟨_, -, h⟩
  exact h

theorem keep_frame (hS : Sound k) (ht : Running k t) {f : List Ref → List Ref}
    (hf : ∀ r ∈ f (k.thread t).frame, k.Alive r) {x : KM α} {Q : α → Kernel → Prop}
    (h : Sound { k with thread := k.thread.modify t (fun thread =>
          { thread with frame := f thread.frame }) } →
      Running { k with thread := k.thread.modify t (fun thread =>
          { thread with frame := f thread.frame }) } t →
      Keeps T x { k with thread := k.thread.modify t (fun thread =>
          { thread with frame := f thread.frame }) } Q) :
    Keeping T k x { k with thread := k.thread.modify t (fun thread =>
      { thread with frame := f thread.frame }) } Q := by
  have hact : Act .base (k, .idle) ({ k with thread := k.thread.modify t (fun thread =>
      { thread with frame := f thread.frame }) }, .idle) := .frame (ht.kind hS.toInv) hf
  refine keep_act hS hact (Powers.base_le _) rfl fun hS' _ => h hS' ?_
  exact ht.after hS ((Frame.act hS.toInv hact).mono (Powers.base_le _)) rfl

theorem Running.frame_alive (ht : Running k t) (hS : Sound k) : ∀ x ∈ (k.thread t).frame, k.Alive x :=
  fun x hx => hS.threadOwned t (ht.dead hS.toInv) x (by simp [Thread.owned, hx])

theorem keep_createHandleFor (hS : Sound k) (ht : Running k t) (hr : k.Alive r) :
    Keeps T (createHandleFor t r) k (fun _ k' => Running k' t ∧ k'.Alive r ∧
      ∃ thread process dead trace, k' = { k with thread := thread, process := process, dead := dead,
                                                 trace := trace }) := by
  simp only [createHandleFor, KM.modifyThread, ends_modify, ends_get]
  refine keep_frame (f := (r :: ·)) hS ht (fun x hx => ?_) fun hS₁ ht₁ => ?_
  · rcases List.mem_cons.1 hx with rfl | hx
    · exact hr
    · exact ht.frame_alive hS x hx
  have hk := ht₁.parent_alive hS₁.toInv
  refine Ends.mono (keep_createHandle (T := nobody) hS₁ hk.2 (ht₁.parent_kind hS₁.toInv) hr) ?_
    (fun _ _ h => h)
  rintro _ k₂ ⟨hS₂, hF₂, hl₂, _, _, _, rfl⟩
  have ht₂ := ht₁.after hS₁ hF₂ hl₂
  refine ⟨hS₂, hF₂.mono (Powers.acting_le fun _ => False.elim), hl₂, ht₂,
    ht₂.frame_alive hS₂ r ?_, _, _, _, _, rfl⟩
  simp

/-- A call that hands out a new object. -/
theorem handOut_keeps (hS : Sound k) (ht : Running k t) (hr : k.Alive r) :
    Keeps T (do
      let _ ← createHandleFor t r
      reschedule) k (fun _ _ => True) :=
  keep_call (keep_createHandleFor (T := T) hS ht hr) (fun _ => id) fun _ _ hS' _ _ _ =>
    keep_reschedule hS'

/-- A new object of a class without references to others. -/
theorem keep_newObject (hS : Sound k) {kind : Kind}
    (hk : kind ∈ [.mutex, .semaphore, .event, .timer, .dmaObject, .addressArbiter, .other]) :
    Keeps T (newObject kind) k (fun r k' => k'.Alive r) := by
  simp only [newObject, ends_get, ends_modify, ends_pure]
  have hact : Act .base (k, .idle) ({ k with next := k.next + 1, kind := k.kind.set k.next kind },
      { Phase.idle with unlisted := if kind = .timer then k.next :: [] else [] }) := .alloc hk
  exact ⟨hS.act hact, (Frame.act hS.toInv hact).mono (Powers.base_le _), trivial, Nat.lt_succ_self _,
    (hS.fresh _ (Nat.le_refl _)).2.1⟩

/-- Data of an object that refers to no other. -/
theorem keep_data (hS : Sound k) {mutex : Store Mutex} {semaphore : Store Semaphore}
    {event : Store Event} {timer : Store Timer} {x : KM α} {Q : α → Kernel → Prop}
    (h : Sound { k with mutex := mutex, semaphore := semaphore, event := event, timer := timer } →
      Frame (.acting nobody) k { k with mutex := mutex, semaphore := semaphore, event := event,
                                        timer := timer } →
      Keeps T x { k with mutex := mutex, semaphore := semaphore, event := event, timer := timer } Q) :
    Keeping T k x { k with mutex := mutex, semaphore := semaphore, event := event, timer := timer }
      Q :=
  keep_move { Frame.refl k with } rfl
    (h (hS.elsewhere { hS.toInv with } rfl) { Frame.refl k with })

theorem keep_spawnThread (hS : Sound k) {priority : Nat} (hp : k.Alive p) (hk : k.kind p = .process)
    (hkept : k.Upset ∨ p ∈ k.processHandles) : Keeps T (spawnThread p priority) k
      (fun t k' => k'.Alive t ∧ k'.processHandles = k.processHandles) := by
  simp only [spawnThread, newObject, KM.modifyThread, KM.modifyProcess, ends_assoc, ends_get,
    ends_modify, ends_pure_bind, ends_pure]
  have hact := @Act.spawn (.acting T) k .idle p priority trivial hp hk hkept
  exact ⟨hS.act hact, Frame.act hS.toInv hact, trivial,
    ⟨Nat.lt_succ_self _, (hS.fresh _ (Nat.le_refl _)).2.1⟩, trivial⟩

/-! ## Processes and threads -/

theorem svcCreateThread_keeps (hS : Sound k) (ht : Running k t) {priority : Nat} :
    Keeps T (svcCreateThread t priority) k (fun _ _ => True) := by
  simp only [svcCreateThread, ends_get]
  refine Ends.split (fun _ => keep_fail (by decide)) fun _ => ?_
  refine keep_call (keep_spawnThread (T := nobody) hS (ht.parent_alive hS.toInv)
    (ht.parent_kind hS.toInv) (hS.kept (by rw [ht.ready]; decide))) (fun _ => False.elim)
    fun x k₁ hS₁ hF₁ hl₁ hx => ?_
  have ht₁ := ht.after hS hF₁ hl₁
  refine keep_call (keep_createHandleFor (T := nobody) hS₁ ht₁ hx.1) (fun _ => False.elim)
    fun _ k₂ hS₂ _ _ _ => ?_
  have hS₃ : Sound { k₂ with threads := k₂.threads ++ [x] } :=
    hS₂.elsewhere { hS₂.toInv with } rfl
  simp only [ends_modify]
  exact keep_move { Frame.refl k₂ with } rfl (keep_reschedule hS₃)

theorem svcSetThreadPriority_keeps (hS : Sound k) {priority : Nat} :
    Keeps T (svcSetThreadPriority t handle priority) k (fun _ _ => True) := by
  unfold svcSetThreadPriority
  refine keep_getObject fun x _ hk => keep_last ?_
  obtain ⟨hS', hF⟩ := hS.updateThread (T := T) (f := fun thread =>
    { thread with priority := priority }) (of_decide_eq_true hk) (fun _ => rfl) (fun _ => rfl)
    (fun _ => rfl) (fun hd => hS.threadOwned x hd) (.inr rfl)
    ⟨rfl, .inr (.inr ⟨rfl, rfl, rfl, List.Subset.refl _, id⟩)⟩
  exact keep_move hF rfl (keep_done hS' trivial)

theorem svcCreateProcess_keeps (hS : Sound k) (ht : Running k t) {fake : Bool} :
    Keeps T (svcCreateProcess t fake) k (fun _ _ => True) := by
  simp only [svcCreateProcess, newObject, KM.modifyProcess, ends_assoc, ends_get, ends_modify,
    ends_pure_bind]
  have hact := @Act.newProcess (.acting nobody) k .idle fake
  have hF := Frame.act hS.toInv hact
  refine keep_move (hF.mono (Powers.acting_le fun _ => False.elim)) rfl ?_
  exact handOut_keeps (hS.act hact) (ht.after hS hF rfl)
    ⟨Nat.lt_succ_self _, (hS.fresh _ (Nat.le_refl _)).2.1⟩

theorem svcOpenProcess_keeps (hS : Sound k) (ht : Running k t) {pid : Ref} :
    Keeps T (svcOpenProcess t pid) k (fun _ _ => True) := by
  simp only [svcOpenProcess, ends_get]
  refine Ends.split (fun hp => ?_) fun _ => keep_fail (by decide)
  refine keep_call (keep_createHandleFor (T := T) hS ht (hS.processHandles pid (by simpa using hp)))
    (fun _ => id) fun _ _ hS' _ _ _ => keep_done hS' trivial

theorem svcDuplicateHandle_keeps (hS : Sound k) (ht : Running k t) :
    Keeps T (svcDuplicateHandle t handle) k (fun _ _ => True) := by
  unfold svcDuplicateHandle
  refine keep_getObject fun r hr _ => ?_
  simp only [ends_get]
  refine keep_call (keep_createHandle (T := T) hS (ht.parent_alive hS.toInv).2
    (ht.parent_kind hS.toInv) (hS.lookup_alive (ht.parent_alive hS.toInv).2 hr)) (fun _ => id)
    fun _ _ hS' _ _ _ => keep_reschedule hS'

theorem svcRun_keeps (hS : Sound k) (ht : Running k t) {priority : Nat} :
    Keeps T (svcRun t handle priority) k (fun _ _ => True) := by
  unfold svcRun
  refine keep_getObject fun p hp hk => ?_
  have hp := hS.lookup_alive (ht.parent_alive hS.toInv).2 hp
  have hk : k.kind p = .process := of_decide_eq_true hk
  have hrun : ∀ {k' : Kernel} {y : KM Unit}, Sound k' → k'.Alive p → k'.kind p = .process →
      k'.Upset ∨ p ∈ k'.processHandles → (∀ k'', Sound k'' → Keeps T y k'' (fun _ _ => True)) →
      Keeps T (do
        let _ ← spawnThread p priority
        modifyProcess p fun process => { process with status := .running }
        y) k' (fun _ _ => True) := by
    intro k' y hS' hp' hk' hkept hy
    refine keep_call (keep_spawnThread (T := T) hS' hp' hk' hkept) (fun _ => id)
      fun _ k₁ hS₁ hF₁ _ hx => ?_
    obtain ⟨hS₂, hF₂⟩ := hS₁.modifyProcess (T := T) (f := fun process =>
      { process with status := .running }) k₁.processHandles k₁.threads
      ((hF₁.kind p hp'.1).trans hk') (List.Subset.refl _) rfl (List.Subset.refl _) fun hu =>
        (hS₁.scheduled hu).run (hx.2 ▸ hkept.resolve_left (mt (·.mono hF₁.trace) hu))
    simp only [KM.modifyProcess, ends_modify]
    exact keep_move hF₂ rfl (hy _ hS₂)
  simp only [ends_get, emit, ends_modify]
  have hact : Act (.acting T) (k, .idle) ({ k with trace := k.trace ++ [.ran p (k.process p).status] },
      .idle) := .ran trivial
  -- A process whose threads have all exited is kept no longer.
  have hkept : Kernel.Upset { k with trace := k.trace ++ [.ran p (k.process p).status] } ∨
      p ∈ k.processHandles := by
    refine or_iff_not_imp_left.2 fun hu =>
      (hS.scheduled_of (List.prefix_append _ _) hu).handled p hk fun hs =>
        hu ⟨.ran p (k.process p).status, ?_, ?_⟩
    · exact List.mem_append_right _ List.mem_cons_self
    · rw [hs]
      rfl
  refine keep_act hS hact (.refl _) rfl fun hS₁ _ => Ends.split (fun _ => ?_) fun _ => ?_
  · exact hrun (y := pure ()) hS₁ hp hk hkept fun k' hS' => keep_done hS' trivial
  · refine Ends.split (fun _ => keep_fail (by decide)) fun _ =>
      Ends.split (fun _ => keep_fail (by decide)) fun _ => ?_
    refine keep_call (keep_does (T := T) hS₁ (.refl _) (setEntry_does (g := .idle) trivial hp hk
      (fun x hx => Option.some.inj hx ▸ hp))) (fun _ => id) fun _ k₂ hS₂ hF₂ _ hk₂ => ?_
    obtain ⟨_, -, _, _, rfl⟩ := hk₂
    exact hrun hS₂ hp hk (hkept.imp_left (·.mono hF₂.trace)) fun k' hS' => keep_reschedule hS'

/-! ## Synchronization objects -/

theorem svcCreateMutex_keeps (hS : Sound k) (ht : Running k t) {lock : Bool} :
    Keeps T (svcCreateMutex t lock) k (fun _ _ => True) := by
  unfold svcCreateMutex
  refine keep_call (keep_newObject (T := nobody) hS (by decide)) (fun _ => False.elim)
    fun _ k₁ hS₁ hF₁ hl₁ hr => ?_
  simp only [ends_modify]
  refine keep_data hS₁ fun hS₂ hF₂ => handOut_keeps hS₂ ?_ hr
  exact (ht.after hS hF₁ hl₁).after hS₁ hF₂ rfl

theorem svcReleaseMutex_keeps (hS : Sound k) (ht : Running k t) :
    Keeps T (svcReleaseMutex t handle) k (fun _ _ => True) := by
  unfold svcReleaseMutex
  refine keep_getObject fun m hm _ => ?_
  simp only [ends_get]
  refine Ends.split (fun _ => keep_fail (by decide)) fun _ => ?_
  refine keep_call (releaseMutex_keeps (T := T) hS) (fun _ => id) fun _ k₁ hS₁ _ _ hk₁ => ?_
  have hm : k₁.dead m = false := hk₁.2 ▸ (hS.lookup_alive (ht.parent_alive hS.toInv).2 hm).2
  simp only [ends_get]
  refine Ends.split (fun _ => ?_) fun _ => keep_reschedule hS₁
  exact keep_call (keep_onResourceReady (T := T) hS₁ hm) (fun _ => id)
    fun _ _ hS₂ _ _ _ => keep_reschedule hS₂

theorem svcCreateSemaphore_keeps (hS : Sound k) (ht : Running k t) {initialCount maxCount : Int} :
    Keeps T (svcCreateSemaphore t initialCount maxCount) k (fun _ _ => True) := by
  unfold svcCreateSemaphore
  refine Ends.split (fun _ => keep_done hS trivial) fun _ => ?_
  refine keep_call (keep_newObject (T := nobody) hS (by decide)) (fun _ => False.elim)
    fun _ k₁ hS₁ hF₁ hl₁ hr => ?_
  simp only [ends_modify]
  refine keep_data hS₁ fun hS₂ hF₂ => handOut_keeps hS₂ ?_ hr
  exact (ht.after hS hF₁ hl₁).after hS₁ hF₂ rfl

theorem svcReleaseSemaphore_keeps (hS : Sound k) (ht : Running k t) {releaseCount : Int} :
    Keeps T (svcReleaseSemaphore t handle releaseCount) k (fun _ _ => True) := by
  unfold svcReleaseSemaphore
  refine keep_getObject fun s hs _ => ?_
  have hs := hS.lookup_alive (ht.parent_alive hS.toInv).2 hs
  have hrelease : Keeps T (releaseSemaphore s releaseCount) k (fun _ k' => k'.dead = k.dead) := by
    simp only [releaseSemaphore, ends_get]
    refine Ends.split (fun _ => keep_done hS rfl) fun _ => keep_last ?_
    exact keep_data hS fun hS' _ => keep_done hS' rfl
  refine keep_call hrelease (fun _ => id) fun _ k₁ hS₁ _ _ hd => ?_
  refine keep_call (keep_onResourceReady (T := T) hS₁ (by rw [hd]; exact hs.2)) (fun _ => id)
    fun _ _ hS₂ _ _ _ => keep_reschedule hS₂

theorem svcCreateEvent_keeps (hS : Sound k) (ht : Running k t) {type : ResetType} :
    Keeps T (svcCreateEvent t type) k (fun _ _ => True) := by
  unfold svcCreateEvent
  refine Ends.split (fun _ => keep_fail (by decide)) fun _ => ?_
  refine keep_call (keep_newObject (T := nobody) hS (by decide)) (fun _ => False.elim)
    fun _ k₁ hS₁ hF₁ hl₁ hr => ?_
  simp only [ends_modify]
  refine keep_data hS₁ fun hS₂ hF₂ => handOut_keeps hS₂ ?_ hr
  exact (ht.after hS hF₁ hl₁).after hS₁ hF₂ rfl

theorem svcSignalEvent_keeps (hS : Sound k) (ht : Running k t) :
    Keeps T (svcSignalEvent t handle) k (fun _ _ => True) := by
  unfold svcSignalEvent
  refine keep_findObject fun o ho => ?_
  cases o with
  | none => exact keep_fail (by decide)
  | some s =>
    have hs := hS.lookup_alive (ht.parent_alive hS.toInv).2 (ho s rfl).1
    refine keep_held hS hs.2 (fun hS₁ => ?_) fun _ _ hS₂ => keep_reschedule hS₂
    exact (keep_does hS₁ (.refl _) (signalEvent_does (g := .idle) hS₁.toInv ⟨rfl, rfl⟩ hs.2)).mono
      (fun _ => id) fun _ _ _ _ _ _ => trivial

theorem svcClearEvent_keeps (hS : Sound k) :
    Keeps T (svcClearEvent t handle) k (fun _ _ => True) := by
  unfold svcClearEvent
  refine keep_findObject fun o _ => ?_
  cases o with
  | none => exact keep_fail (by decide)
  | some s =>
    simp only [ends_modify]
    exact keep_data hS fun hS' _ => keep_reschedule hS'

theorem svcCreateTimer_keeps (hS : Sound k) (ht : Running k t) {type : ResetType} :
    Keeps T (svcCreateTimer t type) k (fun _ _ => True) := by
  unfold svcCreateTimer
  refine keep_call (keep_newObject (T := nobody) hS (by decide)) (fun _ => False.elim)
    fun r k₁ hS₁ hF₁ hl₁ hr => ?_
  simp only [ends_modify]
  refine keep_data hS₁ fun hS₂ hF₂ => ?_
  refine keep_call (keep_createHandleFor (T := T) hS₂ ((ht.after hS hF₁ hl₁).after hS₁ hF₂ rfl) hr)
    (fun _ => id) fun _ k₃ hS₃ _ _ _ => ?_
  have hS₄ : Sound { k₃ with activeTimers := k₃.activeTimers ++ [r] } :=
    hS₃.elsewhere { hS₃.toInv with } rfl
  simp only [ends_modify]
  exact keep_move { Frame.refl k₃ with } rfl (keep_reschedule hS₄)

theorem svcSetTimer_keeps (hS : Sound k) (ht : Running k t) {initial period : Int} :
    Keeps T (svcSetTimer t handle initial period) k (fun _ _ => True) := by
  unfold svcSetTimer
  refine keep_getObject fun s hs _ => ?_
  have hs := hS.lookup_alive (ht.parent_alive hS.toInv).2 hs
  refine Ends.split (fun _ => keep_fail (by decide)) fun _ => ?_
  simp only [ends_get, runTimer, ends_modify]
  refine keep_data hS fun hS₁ _ => Ends.split (fun _ => ?_) fun _ => keep_reschedule hS₁
  exact keep_call (keep_onResourceReady (T := T) hS₁ hs.2) (fun _ => id)
    fun _ _ hS₂ _ _ _ => keep_reschedule hS₂

theorem svcCreateObject_keeps (hS : Sound k) (ht : Running k t) {kind : Kind}
    (hk : kind ∈ [.mutex, .semaphore, .event, .timer, .dmaObject, .addressArbiter, .other]) :
    Keeps T (svcCreateObject t kind) k (fun _ _ => True) :=
  keep_call (keep_newObject (T := nobody) hS hk) (fun _ => False.elim)
    fun _ _ hS₁ hF₁ hl₁ hr => handOut_keeps hS₁ (ht.after hS hF₁ hl₁) hr

theorem svcBindInterrupt_keeps (hS : Sound k) {index : Nat} :
    Keeps T (svcBindInterrupt t index handle) k (fun _ _ => True) := by
  unfold svcBindInterrupt
  refine keep_getObject fun s _ _ => ?_
  have hS' : Sound { k with boundInterrupts := k.boundInterrupts.modify index (· ++ [s]) } :=
    hS.elsewhere { hS.toInv with } rfl
  simp only [ends_modify]
  exact keep_move { Frame.refl k with } rfl (keep_reschedule hS')

theorem svcGetSystemTick_keeps (hS : Sound k) :
    Keeps T svcGetSystemTick k (fun _ _ => True) := by
  unfold svcGetSystemTick
  generalize hn : (k.systemTick + 1000) % 2 ^ 64 = n
  have hS' : Sound { k with systemTick := n } :=
    hS.elsewhere { hS.toInv with } rfl
  refine keep_last ?_
  rw [hn]
  exact keep_move { Frame.refl k with } rfl (keep_done hS' trivial)

theorem svcOther_keeps (hS : Sound k) {reschedules : Bool} :
    Keeps T (svcOther reschedules) k (fun _ _ => True) :=
  Ends.split (fun _ => keep_reschedule hS) fun _ => keep_done hS trivial

/-! ## Waiting -/

theorem svcWaitSynchronizationN_keeps (hS : Sound k) (ht : Running k t) {handles : List Handle}
    {waitForAll : Bool} {timeout : Int} {by_ : Waiter} (hT : T t)
    (hreply : ∀ cs, by_ = .reply cs → waitForAll = false ∧ timeout = -1)
    (hreceive : by_ = .receive → waitForAll = false) (hne : by_ ≠ .wait → handles ≠ []) :
    Keeps T (svcWaitSynchronizationN t handles waitForAll timeout by_) k (fun _ _ => True) := by
  have hP : (Powers.waiting t).Le (.acting T) :=
    ⟨fun _ => False.elim, fun _ h => h ▸ hT, id, False.elim, False.elim⟩
  have hdoes : ∃ g : Phase, g.Settled ∧ ∀ cs, by_ = .reply cs → g.calling = some (t, cs) := by
    cases by_ with
    | reply cs =>
      refine ⟨{ calling := some (t, cs) }, ⟨⟨rfl, rfl⟩, rfl, rfl⟩, ?_⟩
      intro cs' h
      cases h
      rfl
    | wait | receive => exact ⟨.idle, Phase.idle_settled, fun _ h => by cases h⟩
  obtain ⟨g, hg, hcalling⟩ := hdoes
  refine (keep_does hS hP (svcWaitSynchronizationN_does hS.toInv ht hg
    (fun cs hcs => ⟨hcalling cs hcs, hreply cs hcs⟩) hreceive hne)).mono (fun _ => id) ?_
  exact fun _ _ _ _ _ _ => trivial

theorem svcSleepThread_keeps (hS : Sound k) (ht : Running k t) (hT : T t) {duration : Int} :
    Keeps T (svcSleepThread t duration) k (fun _ _ => True) :=
  have hP : (Powers.waiting t).Le (.acting T) :=
    ⟨fun _ => False.elim, fun _ h => h ▸ hT, id, False.elim, False.elim⟩
  (keep_does hS hP (svcSleepThread_does (g := .idle) hS.toInv ht rfl)).mono (fun _ => id)
    fun _ _ _ _ _ _ => trivial

/-- An update of the running thread that leaves its place in the kernel alone. -/
theorem keep_inner (hS : Sound k) (ht : Running k t) {f : Thread → Thread} (hf : Thread.Inner f)
    {x : KM α} {Q : α → Kernel → Prop}
    (h : Sound { k with thread := k.thread.modify t f } →
      Running { k with thread := k.thread.modify t f } t →
      Keeps T x { k with thread := k.thread.modify t f } Q) :
    Keeping T k x { k with thread := k.thread.modify t f } Q := by
  have hact : Act .base (k, .idle) ({ k with thread := k.thread.modify t f }, .idle) :=
    .inner (ht.kind hS.toInv) hf (.inl ht.ready)
  refine keep_act hS hact (Powers.base_le _) rfl fun hS' _ => h hS' ?_
  exact ht.after hS ((Frame.act hS.toInv hact).mono (Powers.base_le _)) rfl

theorem wakeArbitrated_keeps {address : BitVec 32} : ∀ (l : List Ref) {k : Kernel}, Sound k →
    (∀ t ∈ l, ((k.thread t).status = .waitingForArbitration ∧
      (k.thread t).arbitrationAddress = address) ∨ (k.thread t).status = .ready) →
    Keeps T (wakeArbitrated address l) k (fun _ _ => True)
  | [], _, hS, _ => keep_done hS trivial
  | t :: l, k, hS, hl => by
    have hst := hl t List.mem_cons_self
    have hw : (k.thread t).waitList = [] := by
      refine hS.waitList_nil ?_
      rcases hst with hst | hst <;> simp [hst]
    have hk : k.kind t = .thread := by
      refine hS.ready_thread ?_
      rcases hst with hst | hst <;> simp [hst]
    have hpunct := hS.punctual.signal (f := fun thread => { thread with status := .ready }) rfl hst
    have hwoken := fun obs (hobs : ∀ x sessions, Obs.stopped x sessions ∉ obs) hpunct
        (hsch : ¬ Kernel.Upset { k with trace := k.trace ++ obs } → (k.thread t).status ≠ .ready) =>
      hS.modifyThread (T := T) (f := fun thread =>
      { thread with status := .ready }) (k.readyQueue ++ [t]) k.waitingQueue obs hk (fun _ => rfl)
      (fun _ => rfl) (.inl hw) (fun hd => hS.threadOwned t hd) (.inr ⟨fun _ => rfl, rfl⟩)
      (hS.terminal.turn rfl (Nat.le_refl _) (by rcases hst with hst | hst <;> simp [hst])
        (fun _ hx => Store.get_modify_ne _ _ hx)
        (List.append_subset.2 ⟨List.subset_cons_self _ _, by simp⟩) hobs) hpunct
      (fun hu h => h.wake (hsch hu) (by rcases hst with hst | hst <;> simp [hst]) rfl rfl) nofun
    have hrest : ∀ obs, (∀ x sessions, Obs.stopped x sessions ∉ obs) →
        Punctual (k.trace ++ obs) (k.thread.modify t fun thread => { thread with status := .ready }) →
        (¬ Kernel.Upset { k with trace := k.trace ++ obs } → (k.thread t).status ≠ .ready) →
        Keeping T k (wakeArbitrated address l) { k with
          thread := k.thread.modify t (fun thread => { thread with status := .ready })
          readyQueue := k.readyQueue ++ [t]
          trace := k.trace ++ obs } (fun _ _ => True) := by
      intro obs hobs hpunct hsch
      obtain ⟨hS', hF⟩ := hwoken obs hobs hpunct hsch
      refine keep_move hF rfl (wakeArbitrated_keeps l hS' fun x hx => ?_)
      simp only [Store.get_modify]
      split
      · exact .inr rfl
      · exact hl x (List.mem_cons_of_mem _ hx)
    simp only [wakeArbitrated, ends_get, KM.modifyThread, ends_modify, emit]
    refine Ends.split (fun h => ?_) fun h => ?_
    · rw [if_pos h, List.append_assoc] at hpunct
      simp only [ends_modify, List.append_assoc]
      exact hrest _ (by simp) hpunct fun _ => by rw [h]; decide
    · rw [if_neg h, List.append_nil] at hpunct
      simp only [ends_modify]
      refine hrest _ (by simp) hpunct fun hu hs =>
        hu ⟨_, List.mem_append_right _ List.mem_cons_self, ?_⟩
      rw [hs]
      rfl

/-- A wait for the address arbiter. -/
theorem block_keeps (hS : Sound k) (ht : Running k t) (hT : T t) {address : BitVec 32}
    (htimeout : (k.thread t).timeoutAt = noTimeout)
    (haddress : (k.thread t).arbitrationAddress = address) :
    Keeps T (block t .waitingForArbitration (.arbitration address)) k (fun _ _ => True) := by
  have hw : (k.thread t).waitList = [] := hS.waitList_nil (by rw [ht.ready]; decide)
  have hblock := fun waitingQueue => hS.modifyThread (T := T) (f := fun thread =>
    { thread with status := .waitingForArbitration }) (k.readyQueue.filter (· ≠ t)) waitingQueue
    [.blocked t (.arbitration address) (k.thread t).timeoutAt (k.thread t).promisedResult]
    (ht.kind hS.toInv) (fun _ => rfl) (fun _ => rfl) (.inl hw) (fun hd => hS.threadOwned t hd) (.inl hT)
    (hS.terminal.turn rfl (Nat.le_refl _) (by rw [ht.ready]; decide)
      (fun _ hx => Store.get_modify_ne _ _ hx)
      (fun _ hx => List.mem_cons_of_mem _ (List.mem_filter.1 hx).1) (by simp))
    (hS.punctual.block ht.ready ⟨rfl, rfl, rfl, haddress, htimeout⟩)
    (fun _ h => h.sleep (f := fun thread => { thread with status := .waitingForArbitration }) ht.ready
      nofun rfl) nofun
  simp only [block, KM.modifyThread, removeFromReadyQueue, emit, ends_modify, ends_get,
    Store.get_modify_self]
  refine Ends.split (fun h => absurd htimeout h) fun _ => ?_
  exact keep_last (keep_move (hblock _).2 rfl (keep_done (hblock _).1 trivial))

theorem svcArbitrateAddress_keeps (hS : Sound k) (ht : Running k t) (hT : T t)
    {address : BitVec 32} {type : ArbitrationType} {value memoryValue : BitVec 32} :
    Keeps T (svcArbitrateAddress env t address type value memoryValue) k (fun _ _ => True) := by
  have hwait : ∀ {k : Kernel}, Sound k → Running k t → Keeps T (do
      if memoryValue.toInt < value.toInt then
        KM.modifyThread t fun thread => { thread with timeoutAt := noTimeout }
        if type = .acquireWithTimeout ∨ type = .decrementAndAcquireWithTimeout then svcBreak
        KM.modifyThread t fun thread => { thread with arbitrationAddress := address }
        block t .waitingForArbitration (.arbitration address)
        reschedule
      reschedule) k (fun _ _ => True) := by
    intro k hS ht
    refine Ends.split (fun _ => ?_) fun _ => keep_reschedule hS
    simp only [KM.modifyThread, ends_modify]
    refine keep_inner hS ht (by constructor <;> exact fun _ => rfl) fun hS₁ ht₁ => ?_
    refine Ends.split (fun _ => keep_fail (by decide)) fun _ => ?_
    simp only [ends_modify]
    refine keep_inner hS₁ ht₁ (by constructor <;> exact fun _ => rfl) fun hS₂ ht₂ => ?_
    refine keep_call (block_keeps (T := T) hS₂ ht₂ hT (by simp) (by simp)) (fun _ => id)
      fun _ _ hS₃ _ _ _ => ?_
    exact keep_call (keep_reschedule (T := T) hS₃) (fun _ => id) fun _ _ hS₄ _ _ _ =>
      keep_reschedule hS₄
  simp only [svcArbitrateAddress, KM.modifyThread, ends_modify]
  refine keep_inner hS ht (by constructor <;> exact fun _ => rfl) fun hS₁ ht₁ => ?_
  cases type with
  | signal =>
    simp only [ends_get]
    refine keep_call (wakeArbitrated_keeps (T := T) _ hS₁ fun x hx => .inl ?_) (fun _ => id)
      fun _ _ hS₂ _ _ _ => keep_reschedule hS₂
    have hmem := (env.nthElement_perm _ _ _).mem_iff.1 (List.mem_of_mem_take hx)
    simp only [Kernel.waitingForArbitration, List.mem_filter, Bool.and_eq_true,
      decide_eq_true_eq] at hmem
    exact ⟨hmem.2.1.2, hmem.2.2⟩
  | _ => exact hwait hS₁ ht₁

end Mikage
