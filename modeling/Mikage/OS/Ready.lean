import Mikage.OS.Waits

/-!
# The ready queue

Every thread stands in the ready queue once while it is ready, and its process keeps it alive until it
has exited, unless the run has had a mishap.

- `Kernel.Scheduled`: the ready queue and the threads agree.
- `Kernel.Exited`: threads stop by exiting only.
-/

namespace Mikage

variable {P : Powers} {k k' : Kernel} {g g' : Phase} {t p : Ref}

namespace Kernel

structure Scheduled (k : Kernel) : Prop where
  count : ∀ t, k.readyQueue.count t = if (k.thread t).status = .ready then 1 else 0
  listed : ∀ t, (k.thread t).status ≠ .stopped → t ∈ (k.process (k.thread t).process).threads
  kept : ∀ t, (k.thread t).status ≠ .stopped → (k.thread t).process ∈ k.processHandles
  handled : ∀ p, k.kind p = .process → (k.process p).status ≠ .stopping → p ∈ k.processHandles

def Exited (k : Kernel) : Prop :=
  ∀ t, k.kind t = .thread → (k.thread t).status = .stopped → ∃ sessions, .stopped t sessions ∈ k.trace

theorem Upset.mono (h : k.Upset) (ht : k.trace <+: k'.trace) : k'.Upset :=
  let ⟨o, ho, hm⟩ := h
  ⟨o, ht.subset ho, hm⟩

/-- A change of what the scheduler does not look at. -/
theorem Scheduled.same (h : k.Scheduled) (hqueue : k'.readyQueue = k.readyQueue)
    (hkind : ∀ p, k'.kind p = .process → k.kind p = .process)
    (hthread : ∀ t, (k'.thread t).status = (k.thread t).status ∧
      (k'.thread t).process = (k.thread t).process)
    (hprocess : ∀ p, (k'.process p).threads = (k.process p).threads ∧
      (k'.process p).status = (k.process p).status)
    (hhandles : k'.processHandles = k.processHandles) : k'.Scheduled where
  count t := by
    rw [hqueue, (hthread t).1]
    exact h.count t
  listed t ht := by
    rw [(hthread t).2, (hprocess _).1]
    exact h.listed t ((hthread t).1 ▸ ht)
  kept t ht := by
    rw [(hthread t).2, hhandles]
    exact h.kept t ((hthread t).1 ▸ ht)
  handled p hp hs := by
    rw [hhandles]
    exact h.handled p (hkind p hp) ((hprocess p).2 ▸ hs)

/-- A change of one thread, which does not start again. -/
theorem Scheduled.turn (h : k.Scheduled)
    (hst : (k'.thread t).status ≠ .stopped → (k.thread t).status ≠ .stopped)
    (hcount : k'.readyQueue.count t = if (k'.thread t).status = .ready then 1 else 0)
    (hother : ∀ x, x ≠ t → k'.thread x = k.thread x ∧ k'.readyQueue.count x = k.readyQueue.count x)
    (hparent : (k'.thread t).process = (k.thread t).process) (hkind : k'.kind = k.kind)
    (hprocess : ∀ p, (k'.process p).threads = (k.process p).threads ∧
      (k'.process p).status = (k.process p).status)
    (hhandles : k'.processHandles = k.processHandles) : k'.Scheduled where
  count x := by
    by_cases hx : x = t
    · exact hx ▸ hcount
    · rw [(hother x hx).2, (hother x hx).1]
      exact h.count x
  listed x hx := by
    rw [(hprocess _).1]
    by_cases he : x = t
    · subst he
      rw [hparent]
      exact h.listed x (hst hx)
    · rw [(hother x he).1] at hx ⊢
      exact h.listed x hx
  kept x hx := by
    rw [hhandles]
    by_cases he : x = t
    · subst he
      rw [hparent]
      exact h.kept x (hst hx)
    · rw [(hother x he).1] at hx ⊢
      exact h.kept x hx
  handled p hp hs := by
    rw [hhandles]
    exact h.handled p (hkind ▸ hp) ((hprocess p).2 ▸ hs)

/-- A ready thread, its process and whatever the queue holds have not been destroyed. -/
theorem Scheduled.alive (h : k.Scheduled) (hI : Inv k) (ht : t ∈ k.readyQueue) :
    (k.thread t).status = .ready ∧ k.Alive t := by
  have hready : (k.thread t).status = .ready := by
    by_contra hn
    have hcount := h.count t
    rw [if_neg hn] at hcount
    exact List.count_eq_zero.1 hcount ht
  have hst : (k.thread t).status ≠ .stopped := by
    rw [hready]
    decide
  refine ⟨hready, hI.processOwned _ (hI.processHandles _ (h.kept t hst)).2 t ?_⟩
  simp [Process.owned, h.listed t hst]

end Kernel

theorem Store.place_modify {thread : Store Thread} {x : Ref} {f : Thread → Thread}
    (hs : (f (thread x)).status = (thread x).status)
    (hp : (f (thread x)).process = (thread x).process) (t : Ref) :
    ((thread.modify x f) t).status = (thread t).status ∧
      ((thread.modify x f) t).process = (thread t).process :=
  ⟨Store.view_modify Thread.status _ _ hs t, Store.view_modify Thread.process _ _ hp t⟩

theorem Store.crew_modify {process : Store Process} {q : Ref} {f : Process → Process}
    (ht : (f (process q)).threads = (process q).threads)
    (hs : (f (process q)).status = (process q).status) (p : Ref) :
    ((process.modify q f) p).threads = (process p).threads ∧
      ((process.modify q f) p).status = (process p).status :=
  ⟨Store.view_modify Process.threads _ _ ht p, Store.view_modify Process.status _ _ hs p⟩

theorem Store.kind_set {kind : Store Kind} {r : Ref} {new old : Kind} (hn : new ≠ old) {p : Ref}
    (h : (kind.set r new) p = old) : kind p = old := by
  rw [Store.get_set] at h
  split at h
  · exact absurd h hn
  · exact h

namespace Kernel.Scheduled

theorem spawn (h : k.Scheduled) (hI : Inv k) {priority : Nat} (hp : p ∈ k.processHandles) :
    Scheduled { k with
      next := k.next + 1
      kind := k.kind.set k.next .thread
      thread := k.thread.modify k.next (fun _ =>
        { process := p, priority := priority, status := .ready, finished := false })
      process := k.process.modify p (fun process =>
        { process with threads := process.threads ++ [k.next] })
      threads := k.threads ++ [k.next]
      readyQueue := k.readyQueue ++ [k.next] } := by
  have hfresh : (k.thread k.next).status = .stopped := by
    rw [hI.thread k.next (by rw [(hI.fresh _ (Nat.le_refl _)).1]; decide)]
    rfl
  have hmem : ∀ {q t : Ref}, t ∈ (k.process q).threads → t ∈ ((k.process.modify p (fun process =>
      { process with threads := process.threads ++ [k.next] })) q).threads := by
    intro q t ht
    rw [Store.get_modify]
    split
    · exact List.mem_append_left _ ht
    · exact ht
  refine ⟨fun t => ?_, fun t ht => ?_, fun t ht => ?_, fun q hq hs => ?_⟩ <;> dsimp only at *
  · have hcount := h.count t
    rw [List.count_append, hcount, Store.get_modify]
    by_cases he : t = k.next
    · subst he
      simp [hfresh]
    · simp [he, Ne.symm he]
  · by_cases he : t = k.next
    · subst he
      rw [Store.get_modify_self, Store.get_modify_self]
      exact List.mem_append_right _ List.mem_cons_self
    · rw [Store.get_modify_ne _ _ he] at ht ⊢
      exact hmem (h.listed t ht)
  · by_cases he : t = k.next
    · subst he
      rw [Store.get_modify_self]
      exact hp
    · rw [Store.get_modify_ne _ _ he] at ht ⊢
      exact h.kept t ht
  · refine h.handled q (Store.kind_set (by decide) hq) ?_
    rwa [Store.view_modify Process.status _ _ (by rfl)] at hs

theorem newProcess (h : k.Scheduled) (hI : Inv k) {process : Process} : Scheduled { k with
      next := k.next + 1
      kind := k.kind.set k.next .process
      process := k.process.modify k.next (fun _ => process)
      processHandles := k.processHandles ++ [k.next] } := by
  refine ⟨h.count, fun t ht => ?_, fun t ht => List.mem_append_left _ (h.kept t ht),
    fun q hq hs => ?_⟩ <;> dsimp only at *
  · have hne : (k.thread t).process ≠ k.next := by
      have hp := hI.parent t (hI.ready_thread ht)
      exact Nat.ne_of_lt (hI.lt (by rw [hp]; decide))
    rw [Store.get_modify_ne _ _ hne]
    exact h.listed t ht
  · rw [Store.get_set] at hq
    split at hq
    next he => exact List.mem_append_right _ (List.mem_singleton.2 he)
    next he =>
      rw [Store.get_modify_ne _ _ he] at hs
      exact List.mem_append_left _ (h.handled q hq hs)

/-- A thread that has stopped leaves its process. -/
theorem detach (h : k.Scheduled) (threads : List Ref) (hst : (k.thread t).status = .stopped) :
    Scheduled { k with
      process := k.process.modify p (fun process =>
        { process with threads := process.threads.erase t })
      threads := threads } := by
  refine ⟨h.count, fun x hx => ?_, h.kept, fun q hq hs => h.handled q hq ?_⟩ <;> dsimp only at *
  · have hmem := h.listed x hx
    have hne : x ≠ t := by
      rintro rfl
      exact hx hst
    rw [Store.get_modify]
    split
    · exact (List.mem_erase_of_ne hne).2 hmem
    · exact hmem
  · rwa [Store.view_modify Process.status _ _ (by rfl)] at hs

/-- A process without threads comes to its end. -/
theorem finish (h : k.Scheduled) (threads : List Ref) (hp : (k.process p).threads = []) :
    Scheduled { k with
      process := k.process.modify p (fun process => { process with status := .stopping })
      processHandles := k.processHandles.erase p
      threads := threads } := by
  have hne : ∀ x, (k.thread x).status ≠ .stopped → (k.thread x).process ≠ p := by
    intro x hx he
    have hmem := h.listed x hx
    rw [he, hp] at hmem
    exact List.not_mem_nil hmem
  refine ⟨h.count, fun x hx => ?_, fun x hx => ?_, fun q hq hs => ?_⟩ <;> dsimp only at *
  · rw [Store.view_modify Process.threads _ _ (by rfl)]
    exact h.listed x hx
  · exact (List.mem_erase_of_ne (hne x hx)).2 (h.kept x hx)
  · rw [Store.get_modify] at hs
    split at hs
    · exact absurd rfl hs
    next he => exact (List.mem_erase_of_ne he).2 (h.handled q hq hs)

theorem run (h : k.Scheduled) (hp : p ∈ k.processHandles) : Scheduled { k with
    process := k.process.modify p (fun process => { process with status := .running }) } := by
  refine ⟨h.count, fun x hx => ?_, h.kept, fun q hq hs => ?_⟩ <;> dsimp only at *
  · rw [Store.view_modify Process.threads _ _ (by rfl)]
    exact h.listed x hx
  · rw [Store.get_modify] at hs
    split at hs
    next he => exact he ▸ hp
    next => exact h.handled q hq hs

/-- A ready thread goes to sleep. -/
theorem sleep (h : k.Scheduled) {f : Thread → Thread} (hr : (k.thread t).status = .ready)
    (hf : (f (k.thread t)).status ≠ .ready) (hp : (f (k.thread t)).process = (k.thread t).process)
    {observers : Store (List Ref)} {waitingQueue : List Ref} {trace : List Obs} :
    Scheduled { k with
      observers := observers
      thread := k.thread.modify t f
      readyQueue := k.readyQueue.filter (· ≠ t)
      waitingQueue := waitingQueue
      trace := trace } := by
  refine h.turn (fun _ => by rw [hr]; decide) ?_ (fun x hx => ⟨Store.get_modify_ne _ _ hx, ?_⟩) ?_ rfl
    (fun _ => ⟨rfl, rfl⟩) rfl
  · rw [Store.get_modify_self, if_neg hf]
    exact List.count_eq_zero.2 (by simp)
  · exact List.count_filter (by simpa using hx)
  · rw [Store.get_modify_self, hp]

/-- A blocked thread becomes ready. -/
theorem wake (h : k.Scheduled) {f : Thread → Thread} (hr : (k.thread t).status ≠ .ready)
    (hs : (k.thread t).status ≠ .stopped) (hf : (f (k.thread t)).status = .ready)
    (hp : (f (k.thread t)).process = (k.thread t).process) {observers : Store (List Ref)}
    {waitingQueue : List Ref} {trace : List Obs} : Scheduled { k with
      observers := observers
      thread := k.thread.modify t f
      readyQueue := k.readyQueue ++ [t]
      waitingQueue := waitingQueue
      trace := trace } := by
  refine h.turn (fun _ => hs) ?_ (fun x hx => ⟨Store.get_modify_ne _ _ hx, ?_⟩) ?_ rfl
    (fun _ => ⟨rfl, rfl⟩) rfl
  · rw [Store.get_modify_self, List.count_append, h.count, if_neg hr, if_pos hf]
    simp
  · simp [List.count_append, Ne.symm hx]
  · rw [Store.get_modify_self, hp]

/-- A thread exits. -/
theorem stop (h : k.Scheduled) {observers : Store (List Ref)}
    {handle : Handle} {trace : List Obs} : Scheduled { k with
      observers := observers
      process := k.process.modify p (fun process =>
        { process with table := removeEntry process.table handle })
      thread := k.thread.modify t (fun thread =>
        { thread with waitList := [], status := .stopped, frame := [], callback := none,
                      finished := true })
      readyQueue := k.readyQueue.filter (· ≠ t)
      trace := trace } := by
  refine h.turn (fun hn => absurd (by rw [Store.get_modify_self]) hn) ?_
    (fun x hx => ⟨Store.get_modify_ne _ _ hx, ?_⟩) ?_ rfl (Store.crew_modify rfl rfl) rfl
  · rw [Store.get_modify_self, if_neg nofun]
    exact List.count_eq_zero.2 (by simp)
  · exact List.count_filter (by simpa using hx)
  · rw [Store.get_modify_self]

end Kernel.Scheduled

/-- Each change keeps the ready queue in order, where the run has no mishap. -/
theorem Act.scheduled (ha : Act P (k, g) (k', g')) (hI : Inv k)
    (hmembers : ∀ p, ∀ t ∈ (k.process p).threads, (k.thread t).process = p) (hu : ¬ k'.Upset)
    (h : k.Scheduled) : k'.Scheduled := by
  cases ha with
  | quiet | list | hold | release | loosen | spare | bind | name | bury | data | prune | cool | tick
  | sweep | reserve | offer | giveBack | hangUp | forgo | answer | destroy | waits | elapsed | request
  | received | replying | replied | announce | ran =>
    exact ⟨h.count, h.listed, h.kept, h.handled⟩
  | newSession =>
    exact h.same rfl (fun _ hp => Store.kind_set (by decide) (Store.kind_set (by decide) hp))
      (fun _ => ⟨rfl, rfl⟩) (fun _ => ⟨rfl, rfl⟩) rfl
  | newPair | newPort =>
    exact h.same rfl (fun _ hp => Store.kind_set (by decide) (Store.kind_set (by decide)
      (Store.kind_set (by decide) hp))) (fun _ => ⟨rfl, rfl⟩) (fun _ => ⟨rfl, rfl⟩) rfl
  | accept =>
    exact h.same rfl (fun _ hp => Store.kind_set (by decide) hp) (fun _ => ⟨rfl, rfl⟩)
      (fun _ => ⟨rfl, rfl⟩) rfl
  | alloc hkind =>
    refine h.same rfl (fun _ hp => Store.kind_set ?_ hp) (fun _ => ⟨rfl, rfl⟩) (fun _ => ⟨rfl, rfl⟩) rfl
    rintro rfl
    simp at hkind
  | newProcess => exact h.newProcess hI
  | closed | entry =>
    exact h.same rfl (fun _ => id) (fun _ => ⟨rfl, rfl⟩) (Store.crew_modify rfl rfl) rfl
  | same _ ht =>
    exact h.same rfl (fun _ => id) (fun t => by rw [ht]; exact ⟨rfl, rfl⟩) (fun _ => ⟨rfl, rfl⟩) rfl
  | inner _ hf =>
    exact h.same rfl (fun _ => id) (Store.place_modify (hf.status _) (hf.process _))
      (fun _ => ⟨rfl, rfl⟩) rfl
  | frame | park | comeBack | sent | serve | resume =>
    exact h.same rfl (fun _ => id) (Store.place_modify rfl rfl) (fun _ => ⟨rfl, rfl⟩) rfl
  | taken _ htakes | acquired _ _ _ htakes =>
    obtain ⟨_, _, _, _, _, _, rfl, -⟩ := htakes.effect.shape
    exact h.same rfl (fun _ => id) (Store.place_modify rfl rfl) (fun _ => ⟨rfl, rfl⟩) rfl
  | queue hq => exact ⟨fun t => (hq.count_eq t).trans (h.count t), h.listed, h.kept, h.handled⟩
  | @skip _ _ t q hq hst =>
    have hcount := h.count t
    rw [hq, if_neg hst] at hcount
    exact absurd (List.count_eq_zero.1 hcount) (by simp)
  | spawn _ _ _ hp =>
    rcases hp with hup | hp
    · exact absurd (hup.mono (List.prefix_refl _)) hu
    · exact h.spawn hI hp
  | run ht hst => exact h.run (hmembers _ _ ht ▸ h.kept _ hst)
  | @detach _ _ t p _ _ _ hst =>
    have hleft := h.detach (p := p) k.threads hst
    by_cases he : (k.process p).threads.erase t = []
    · have hend := hleft.finish (p := p) k.threads (by simp [he])
      simp only [Store.modify_modify] at hend
      simp only [if_pos he]
      rw [Store.modify_congr (g := fun process =>
        { process with threads := process.threads.erase t, status := .stopping }) _ (by simp [he])]
      exact ⟨hend.count, hend.listed, hend.kept, hend.handled⟩
    · simp only [if_neg he]
      rw [Store.modify_congr (g := fun process =>
        { process with threads := process.threads.erase t }) _ (by simp [he])]
      exact ⟨hleft.count, hleft.listed, hleft.kept, hleft.handled⟩
  | @block _ _ t _ _ _ _ _ _ _ _ _ _ hr hb =>
    exact h.sleep hr (by cases hb <;> nofun) rfl
  | woken _ _ hst htakes =>
    obtain ⟨_, _, _, _, _, _, rfl, -⟩ := htakes.effect.shape
    refine h.turn (fun _ => by rw [hst]; decide) ?_ (fun x hx => ⟨Store.get_modify_ne _ _ hx, ?_⟩) ?_
      rfl (fun _ => ⟨rfl, rfl⟩) rfl
    · rw [Store.get_modify_self, List.count_cons_self, h.count, if_neg (by rw [hst]; decide)]
      rfl
    · exact List.count_cons_of_ne (Ne.symm hx)
    · rw [Store.get_modify_self]
  | @expire _ _ t =>
    have hst : (k.thread t).status ≠ .ready ∧ (k.thread t).status ≠ .stopped := by
      constructor <;> refine fun hs => hu ⟨_, List.mem_append_right _ List.mem_cons_self, ?_⟩ <;>
        simp [hs, Obs.mishap]
    exact h.wake hst.1 hst.2 rfl rfl
  | @signal _ _ t address _ _ hst =>
    have hst : (k.thread t).status = .waitingForArbitration := by
      refine (hst.resolve_right fun hs => hu ⟨_, List.mem_append_right _ List.mem_cons_self, ?_⟩).1
      rw [hs]
      rfl
    exact h.wake (by rw [hst]; decide) (by rw [hst]; decide) rfl rfl
  | stop => exact h.stop

/-- A change after which no other thread has stopped. -/
theorem Kernel.Exited.back (h : k.Exited) (htrace : k.trace <+: k'.trace)
    (hback : ∀ t, k'.kind t = .thread → (k'.thread t).status = .stopped →
      k.kind t = .thread ∧ (k.thread t).status = .stopped) : k'.Exited := by
  intro t hk hs
  obtain ⟨hk, hs⟩ := hback t hk hs
  obtain ⟨sessions, hmem⟩ := h t hk hs
  exact ⟨sessions, htrace.subset hmem⟩

/-- A change of one thread, which has not stopped. -/
theorem Kernel.Exited.turn (h : k.Exited) (htrace : k.trace <+: k'.trace) (hkind : k'.kind = k.kind)
    (hst : (k'.thread t).status ≠ .stopped) (hother : ∀ x, x ≠ t → k'.thread x = k.thread x) :
    k'.Exited := by
  refine h.back htrace fun x hk hs => ⟨hkind ▸ hk, ?_⟩
  have hx : x ≠ t := by
    rintro rfl
    exact hst hs
  rwa [hother x hx] at hs

/-- `t` exits. -/
theorem Kernel.Exited.stop (h : k.Exited) {sessions : List Ref} (hkind : k'.kind = k.kind)
    (hobs : .stopped t sessions ∈ k'.trace) (htrace : k.trace <+: k'.trace)
    (hother : ∀ x, x ≠ t → k'.thread x = k.thread x) : k'.Exited := by
  intro x hk hs
  by_cases hx : x = t
  · exact ⟨sessions, hx ▸ hobs⟩
  · rw [hother x hx] at hs
    obtain ⟨sessions, hmem⟩ := h x (hkind ▸ hk) hs
    exact ⟨sessions, htrace.subset hmem⟩

theorem Act.exited (ha : Act P (k, g) (k', g')) (h : k.Exited) : k'.Exited := by
  have hself : ∀ {f : Thread → Thread} {x t : Ref}, (f (k.thread x)).status = (k.thread x).status →
      ((k.thread.modify x f) t).status = .stopped → (k.thread t).status = .stopped := by
    intro f x t hf hs
    rwa [Store.view_modify Thread.status _ _ hf] at hs
  cases ha with
  | quiet | list | queue | skip | hold | release | loosen | spare | bind | name | bury | data | run
  | detach | prune | cool | tick | sweep | reserve | offer | giveBack | hangUp | forgo | answer =>
    exact h
  | destroy | waits | elapsed | closed | request | received | replying | replied | ran | entry =>
    exact h.back (List.prefix_append _ _) fun _ hk hs => ⟨hk, hs⟩
  | announce =>
    exact h.back ((List.prefix_append _ _).trans (List.prefix_append _ _)) fun _ hk hs => ⟨hk, hs⟩
  | newSession =>
    exact h.back (List.prefix_refl _) fun _ hk hs =>
      ⟨Store.kind_set (by decide) (Store.kind_set (by decide) hk), hs⟩
  | newPair =>
    exact h.back (List.prefix_refl _) fun _ hk hs =>
      ⟨Store.kind_set (by decide) (Store.kind_set (by decide) (Store.kind_set (by decide) hk)), hs⟩
  | newPort =>
    exact h.back (List.prefix_append _ _) fun _ hk hs =>
      ⟨Store.kind_set (by decide) (Store.kind_set (by decide) (Store.kind_set (by decide) hk)), hs⟩
  | accept | newProcess =>
    exact h.back (List.prefix_refl _) fun _ hk hs => ⟨Store.kind_set (by decide) hk, hs⟩
  | alloc hkind =>
    refine h.back (List.prefix_refl _) fun _ hk hs => ⟨Store.kind_set ?_ hk, hs⟩
    rintro rfl
    simp at hkind
  | same _ ht => exact h.back (List.prefix_refl _) fun x hk hs => ⟨hk, ht x ▸ hs⟩
  | inner _ hf =>
    exact h.back (List.prefix_refl _) fun _ hk hs => ⟨hk, hself (hf.status _) hs⟩
  | frame | park | comeBack | sent | serve | resume =>
    exact h.back (List.prefix_refl _) fun _ hk hs => ⟨hk, hself rfl hs⟩
  | taken _ htakes | acquired _ _ _ htakes =>
    obtain ⟨_, _, _, _, _, _, rfl, -⟩ := htakes.effect.shape
    exact h.back (List.prefix_append _ _) fun _ hk hs => ⟨hk, hself rfl hs⟩
  | spawn =>
    refine h.back (List.prefix_refl _) fun x hk hs => ?_
    have hx : x ≠ k.next := by
      rintro rfl
      dsimp only at hs
      rw [Store.get_modify_self] at hs
      exact nomatch hs
    dsimp only at hk hs
    rw [Store.get_set_ne _ _ hx] at hk
    rw [Store.get_modify_ne _ _ hx] at hs
    exact ⟨hk, hs⟩
  | @block _ _ t _ _ _ _ _ _ _ _ _ _ _ hb =>
    refine h.turn (t := t) (List.prefix_append _ _) rfl ?_ fun x hx => Store.get_modify_ne _ _ hx
    rw [Store.get_modify_self]
    cases hb <;> nofun
  | woken _ _ _ htakes =>
    obtain ⟨_, _, _, _, _, _, rfl, -⟩ := htakes.effect.shape
    refine h.turn ((List.prefix_append _ _).trans (List.prefix_append _ _)) rfl ?_
      fun x hx => Store.get_modify_ne _ _ hx
    rw [Store.get_modify_self]
    nofun
  | expire =>
    refine h.turn (List.prefix_append _ _) rfl ?_ fun x hx => Store.get_modify_ne _ _ hx
    rw [Store.get_modify_self]
    nofun
  | signal =>
    refine h.turn ((List.prefix_append _ _).trans (List.prefix_append _ _)) rfl ?_
      fun x hx => Store.get_modify_ne _ _ hx
    rw [Store.get_modify_self]
    nofun
  | stop =>
    refine h.stop rfl (List.mem_append_right _ List.mem_cons_self)
      ((List.prefix_append _ _).trans (List.prefix_append _ _)) fun x hx => Store.get_modify_ne _ _ hx

/-! ## Mishaps -/

theorem Kernel.Upset.of_append {obs : List Obs} (h : k'.Upset) (htrace : k'.trace = k.trace ++ obs)
    (hobs : ∀ o ∈ obs, o.mishap = false) : k.Upset := by
  obtain ⟨o, ho, hm⟩ := h
  rw [htrace] at ho
  rcases List.mem_append.1 ho with ho | ho
  · exact ⟨o, ho, hm⟩
  · exact absurd hm (by simp [hobs o ho])

theorem replaced_calm {handle : Nat} : ∀ o ∈ k.replaced p handle, o.mishap = false := by
  intro o ho
  simp only [Kernel.replaced, Option.mem_toList, Option.map_eq_some_iff] at ho
  obtain ⟨_, -, rfl⟩ := ho
  rfl

theorem Effect.calm {k₁ : Kernel} {s : Ref} (h : Effect k s t k₁) (hu : k₁.Upset) : k.Upset := by
  obtain ⟨_, _, _, _, _, obs, rfl, -, hobs⟩ := h.shape
  refine hu.of_append rfl fun o ho => ?_
  rcases hobs o ho with rfl | rfl <;> rfl

/-- Only the clock and the calls that start or signal threads have mishaps. -/
theorem Act.calm (ha : Act P (k, g) (k', g')) (hclock : ¬ P.clock) (hforks : ¬ P.forks) (h : k'.Upset) :
    k.Upset := by
  cases ha with
  | expire hP => exact absurd hP hclock
  | signal hP | ran hP | spawn hP | detach hP => exact absurd hP hforks
  | newPort | destroy | waits | elapsed | closed | request | received | replying | replied | block =>
    exact h.of_append rfl (by simp [Obs.mishap])
  | entry => exact h.of_append rfl replaced_calm
  | announce =>
    refine h.of_append (List.append_assoc ..) fun o ho => ?_
    rcases List.mem_append.1 ho with ho | ho
    · split at ho
      · exact List.mem_singleton.1 ho ▸ rfl
      · exact absurd ho List.not_mem_nil
    · exact List.mem_singleton.1 ho ▸ rfl
  | taken _ htakes | acquired _ _ _ htakes => exact htakes.effect.calm h
  | woken _ _ _ htakes => exact htakes.effect.calm (h.of_append rfl (by simp [Obs.mishap]))
  | stop =>
    refine h.of_append (List.append_assoc ..) fun o ho => ?_
    rcases List.mem_append.1 ho with ho | ho
    · exact replaced_calm o ho
    · exact List.mem_singleton.1 ho ▸ rfl
  | _ => exact h

theorem calm_of_acts {c c' : Config} (ha : (account P).Acts c c') (hclock : ¬ P.clock)
    (hforks : ¬ P.forks) (h : c'.1.Upset) : c.1.Upset := by
  induction ha with
  | refl => exact h
  | tail _ ha ih => exact ih (ha.calm hclock hforks h)

end Mikage
