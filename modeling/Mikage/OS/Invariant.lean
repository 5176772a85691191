import Mikage.OS.Acquire

/-!
# The invariant of the kernel

What holds in every state of every run, whatever the threads do: observer lists and wait lists agree,
only sleeping threads wait, and nothing that is referenced has been destroyed.

- `Inv.act`: each change keeps the invariant.
- `Frame`: what a sequence of changes leaves alone, by its `Powers`.
-/

namespace Mikage

structure Inv (k : Kernel) : Prop where
  counts : ∀ t s, k.dead t = false → (k.observers s).count t = (k.thread t).waitList.count s
  asleep : ∀ t, (k.thread t).waitList ≠ [] → (k.thread t).status = .sleeping
  processHandles : ∀ r ∈ k.processHandles, k.Alive r
  ports : ∀ entry ∈ k.ports, k.Alive entry.2
  locals : ∀ r ∈ k.locals, k.dead r = false
  threadOwned : ∀ t, k.dead t = false → ∀ r ∈ (k.thread t).owned, k.Alive r
  processOwned : ∀ p, k.dead p = false → ∀ r ∈ (k.process p).owned, k.Alive r
  serverPortOwned : ∀ p, k.kind p = .serverPort → k.dead p = false →
    ∀ r ∈ (k.serverPort p).owned, k.Alive r
  clientPortOwned : ∀ p, k.kind p = .clientPort → k.dead p = false → k.Alive (k.clientPort p).port
  serverSessionOwned : ∀ ss, k.kind ss = .serverSession → k.dead ss = false →
    ∀ r ∈ (k.serverSession ss).owned, k.Alive r
  clientSessionOwned : ∀ cs, k.kind cs = .clientSession → k.dead cs = false →
    k.Alive (k.clientSession cs).session
  fresh : ∀ r, k.next ≤ r → k.kind r = .none ∧ k.dead r = false ∧ k.observers r = []
  thread : ∀ t, k.kind t ≠ .thread → k.thread t = default
  process : ∀ p, k.kind p ≠ .process → k.process p = default
  clientSession : ∀ cs, k.kind cs ≠ .clientSession → k.clientSession cs = default
  parent : ∀ t, k.kind t = .thread → k.kind (k.thread t).process = .process

variable {P : Powers} {k k' : Kernel} {g g' : Phase} {r s t p : Ref}

theorem Kernel.Alive.lt (h : k.Alive r) : r < k.next := h.1

namespace Inv

/-- Objects have numbers below `next`. -/
theorem lt (h : Inv k) (hr : k.kind r ≠ .none) : r < k.next := by
  by_contra hn
  exact hr (h.fresh r (Nat.le_of_not_lt hn)).1

theorem ready_thread (h : Inv k) (ht : (k.thread t).status ≠ .stopped) : k.kind t = .thread := by
  by_contra hn
  rw [h.thread t hn] at ht
  exact ht rfl

theorem waitList_nil (h : Inv k) (ht : (k.thread t).status ≠ .sleeping) :
    (k.thread t).waitList = [] := by
  by_contra hn
  exact ht (h.asleep t hn)

theorem not_mem_observers (h : Inv k) (hd : k.dead t = false)
    (ht : (k.thread t).status ≠ .sleeping) (s : Ref) : t ∉ k.observers s := by
  rw [← List.count_eq_zero, h.counts t s hd, h.waitList_nil ht, List.count_nil]

theorem mem_waitList (h : Inv k) (hd : k.dead t = false) (ht : t ∈ k.observers s) :
    s ∈ (k.thread t).waitList := by
  rwa [← List.count_pos_iff, ← h.counts t s hd, List.count_pos_iff]

theorem sleeping (h : Inv k) (hd : k.dead t = false) (ht : t ∈ k.observers s) :
    (k.thread t).status = .sleeping :=
  h.asleep t (List.ne_nil_of_mem (h.mem_waitList hd ht))

/-- An object that a live thread waits for is alive. -/
theorem alive_of_observer (h : Inv k) (hd : k.dead t = false) (ht : t ∈ k.observers s) :
    k.Alive s :=
  h.threadOwned t hd s (by simp [Thread.owned, h.mem_waitList hd ht])

theorem alive_of_table (h : Inv k) (hp : k.dead p = false) {entry : Handle × Ref}
    (he : entry ∈ (k.process p).table) : k.Alive entry.2 :=
  h.processOwned p hp _ (by
    simp only [Process.owned, List.mem_append, List.mem_map]
    exact .inl ⟨entry, he, rfl⟩)

/-- What a live object holds is referenced. -/
theorem mem_references (h : Inv k) {o : Ref} (hd : k.dead o = false) (hr : r ∈ k.owned o) :
    r ∈ k.references := by
  have ho : o < k.next := h.lt (fun hk => by simp [Kernel.owned, hk] at hr)
  simp only [Kernel.references, List.mem_append, List.mem_flatMap, List.mem_range]
  exact .inr ⟨o, ho, by simpa [hd] using hr⟩

theorem mem_references_thread (h : Inv k) (hd : k.dead t = false)
    (hr : r ∈ (k.thread t).owned) : r ∈ k.references := by
  have hk : k.kind t = .thread := by
    by_contra hn
    rw [h.thread t hn] at hr
    exact List.not_mem_nil hr
  exact h.mem_references hd (by simpa [Kernel.owned, hk] using hr)

theorem mem_references_process (h : Inv k) (hd : k.dead p = false)
    (hr : r ∈ (k.process p).owned) : r ∈ k.references := by
  have hk : k.kind p = .process := by
    by_contra hn
    rw [h.process p hn] at hr
    exact List.not_mem_nil hr
  exact h.mem_references hd (by simpa [Kernel.owned, hk] using hr)

theorem mem_references_locals (hr : r ∈ k.locals) : r ∈ k.references := by
  simp [Kernel.references, Kernel.roots, hr]

/-- An update of a thread, and of the observer lists with it. -/
theorem modifyThread (h : Inv k) {f : Thread → Thread} {observers : Store (List Ref)}
    {readyQueue waitingQueue : List Ref} {trace : List Obs}
    (hk : k.kind t = .thread) (hproc : ∀ thread, (f thread).process = thread.process)
    (hcounts : ∀ x s, k.dead x = false →
      (observers s).count x = ((k.thread.modify t f) x).waitList.count s)
    (hasleep : (f (k.thread t)).waitList ≠ [] → (f (k.thread t)).status = .sleeping)
    (howned : k.dead t = false → ∀ r ∈ (f (k.thread t)).owned, k.Alive r)
    (hobs : ∀ s, k.next ≤ s → observers s = []) :
    Inv { k with observers := observers, thread := k.thread.modify t f, readyQueue := readyQueue,
                 waitingQueue := waitingQueue, trace := trace } := by
  refine { h with
    counts := hcounts, asleep := fun x => ?_, threadOwned := fun x hd => ?_,
    fresh := fun r hr => ⟨(h.fresh r hr).1, (h.fresh r hr).2.1, hobs r hr⟩,
    thread := fun x hx => ?_, parent := fun x hx => ?_ } <;> simp only [Store.get_modify]
  · split
    next he => subst he; exact hasleep
    next => exact h.asleep x
  · split
    next he => subst he; exact howned hd
    next => exact h.threadOwned x hd
  · have hne : x ≠ t := by
      rintro rfl
      exact hx hk
    rw [if_neg hne]
    exact h.thread x hx
  · split
    next => rw [hproc]; exact h.parent x hx
    next => exact h.parent x hx

/-- An update of a thread that leaves its wait alone. -/
theorem modifyThread' (h : Inv k) {f : Thread → Thread} {readyQueue : List Ref}
    {trace : List Obs} (hk : k.kind t = .thread)
    (hproc : ∀ thread, (f thread).process = thread.process)
    (hwait : ∀ thread, (f thread).waitList = thread.waitList)
    (hstatus : (k.thread t).waitList = [] ∨ (f (k.thread t)).status = (k.thread t).status)
    (howned : k.dead t = false → ∀ r ∈ (f (k.thread t)).owned, k.Alive r) :
    Inv { k with thread := k.thread.modify t f, readyQueue := readyQueue, trace := trace } := by
  refine h.modifyThread hk hproc (fun x s hd => ?_) (fun hw => ?_) howned
    (fun s hs => (h.fresh s hs).2.2)
  · rw [h.counts x s hd, Store.view_modify Thread.waitList _ _ (hwait _)]
  · rw [hwait] at hw
    rcases hstatus with hn | hst
    · exact absurd hn hw
    · exact hst ▸ h.asleep t hw

/-- A thread that waits no more is no observer any more. -/
theorem leave (h : Inv k) {f : Thread → Thread} {observers : Store (List Ref)}
    {readyQueue waitingQueue : List Ref} {trace : List Obs}
    (hk : k.kind t = .thread) (hproc : ∀ thread, (f thread).process = thread.process)
    (hobs : ∀ s, observers s = (k.observers s).filter (· ≠ t))
    (hwait : ∀ thread, (f thread).waitList = [])
    (howned : ∀ r ∈ (f (k.thread t)).owned, r ∈ (k.thread t).owned) :
    Inv { k with observers := observers, thread := k.thread.modify t f, readyQueue := readyQueue,
                 waitingQueue := waitingQueue, trace := trace } := by
  refine h.modifyThread hk hproc (fun x s hd => ?_) (fun hw => absurd (hwait _) hw)
    (fun hd r hr => h.threadOwned t hd r (howned r hr))
    (fun s hs => by rw [hobs, (h.fresh s hs).2.2, List.filter_nil])
  rw [hobs, Store.get_modify]
  split
  next he => simp [he, hwait, List.count_eq_zero]
  next hne => rw [List.count_filter (by simpa using hne), h.counts x s hd]

/-- A new object, with data in the table of its class. -/
theorem alloc (h : Inv k) {kind : Kind} {thread : Store Thread} {process : Store Process}
    {serverPort : Store ServerPort} {clientPort : Store ClientPort}
    {serverSession : Store ServerSession} {clientSession : Store ClientSession}
    (hkind : kind ≠ .none) (hthread : ∀ r, r ≠ k.next → thread r = k.thread r)
    (hprocess : ∀ r, r ≠ k.next → process r = k.process r)
    (hserverPort : ∀ r, r ≠ k.next → serverPort r = k.serverPort r)
    (hclientPort : ∀ r, r ≠ k.next → clientPort r = k.clientPort r)
    (hserverSession : ∀ r, r ≠ k.next → serverSession r = k.serverSession r)
    (hclientSession : ∀ r, r ≠ k.next → clientSession r = k.clientSession r)
    (hthread' : kind ≠ .thread → thread k.next = k.thread k.next)
    (hprocess' : kind ≠ .process → process k.next = k.process k.next)
    (hclientSession' : kind ≠ .clientSession → clientSession k.next = k.clientSession k.next)
    (hwait : (thread k.next).waitList = [])
    (hparent : kind = .thread → k.kind (thread k.next).process = .process)
    (howned : ∀ r ∈ Kernel.owned { k with
        next := k.next + 1, kind := k.kind.set k.next kind, thread := thread, process := process,
        serverPort := serverPort, clientPort := clientPort, serverSession := serverSession,
        clientSession := clientSession } k.next, k.Alive r ∨ r = k.next) :
    Inv { k with
      next := k.next + 1, kind := k.kind.set k.next kind, thread := thread, process := process,
      serverPort := serverPort, clientPort := clientPort, serverSession := serverSession,
      clientSession := clientSession } := by
  have hn := h.fresh k.next (Nat.le_refl _)
  have hmono : ∀ r, k.Alive r → r < k.next + 1 ∧ k.dead r = false :=
    fun r hr => ⟨Nat.lt_succ_of_lt hr.1, hr.2⟩
  have hnew : ∀ r, k.Alive r ∨ r = k.next → r < k.next + 1 ∧ k.dead r = false := by
    rintro r (hr | rfl)
    · exact hmono r hr
    · exact ⟨Nat.lt_succ_self _, hn.2.1⟩
  simp only [Kernel.owned, Store.get_set_self] at howned
  refine ⟨fun t s hd => ?_, fun t => ?_, fun r hr => hmono r (h.processHandles r hr),
    fun e he => hmono _ (h.ports e he), h.locals, fun t hd r hr => ?_,
    fun p hd r hr => ?_, fun p hk hd r hr => ?_, fun p hk hd => ?_, fun p hk hd r hr => ?_,
    fun p hk hd => ?_, fun r hr => ?_, fun t hk => ?_, fun p hk => ?_, fun p hk => ?_,
    fun t hk => ?_⟩
  · by_cases ht : t = k.next
    · have hc := h.counts k.next s hn.2.1
      rw [ht, hwait, hc, h.thread _ (by rw [hn.1]; decide)]
      rfl
    · rw [hthread t ht]
      exact h.counts t s hd
  · by_cases ht : t = k.next
    · rw [ht, hwait]
      exact fun hw => absurd rfl hw
    · rw [hthread t ht]
      exact h.asleep t
  · by_cases ht : t = k.next
    · subst ht
      by_cases hkt : kind = .thread
      · subst hkt
        exact hnew r (howned r hr)
      · rw [hthread' hkt] at hr
        exact hmono r (h.threadOwned _ hd r hr)
    · rw [hthread t ht] at hr
      exact hmono r (h.threadOwned t hd r hr)
  · by_cases ht : p = k.next
    · subst ht
      by_cases hkt : kind = .process
      · subst hkt
        exact hnew r (howned r hr)
      · rw [hprocess' hkt] at hr
        exact hmono r (h.processOwned _ hd r hr)
    · rw [hprocess p ht] at hr
      exact hmono r (h.processOwned p hd r hr)
  · by_cases ht : p = k.next
    · subst ht
      rw [Store.get_set_self] at hk
      subst hk
      exact hnew r (howned r hr)
    · rw [Store.get_set_ne _ _ ht] at hk
      rw [hserverPort p ht] at hr
      exact hmono r (h.serverPortOwned p hk hd r hr)
  · by_cases ht : p = k.next
    · subst ht
      rw [Store.get_set_self] at hk
      subst hk
      exact hnew _ (howned _ (List.mem_singleton.2 rfl))
    · rw [Store.get_set_ne _ _ ht] at hk
      rw [hclientPort p ht]
      exact hmono _ (h.clientPortOwned p hk hd)
  · by_cases ht : p = k.next
    · subst ht
      rw [Store.get_set_self] at hk
      subst hk
      exact hnew r (howned r hr)
    · rw [Store.get_set_ne _ _ ht] at hk
      rw [hserverSession p ht] at hr
      exact hmono r (h.serverSessionOwned p hk hd r hr)
  · by_cases ht : p = k.next
    · subst ht
      rw [Store.get_set_self] at hk
      subst hk
      exact hnew _ (howned _ (List.mem_singleton.2 rfl))
    · rw [Store.get_set_ne _ _ ht] at hk
      rw [hclientSession p ht]
      exact hmono _ (h.clientSessionOwned p hk hd)
  · have hr' : k.next + 1 ≤ r := hr
    have hne : r ≠ k.next := Nat.ne_of_gt hr'
    rw [Store.get_set_ne _ _ hne]
    exact h.fresh r (Nat.le_of_succ_le hr')
  · by_cases ht : t = k.next
    · subst ht
      rw [Store.get_set_self] at hk
      rw [hthread' hk]
      exact h.thread _ (by rw [hn.1]; decide)
    · rw [Store.get_set_ne _ _ ht] at hk
      rw [hthread t ht]
      exact h.thread t hk
  · by_cases ht : p = k.next
    · subst ht
      rw [Store.get_set_self] at hk
      rw [hprocess' hk]
      exact h.process _ (by rw [hn.1]; decide)
    · rw [Store.get_set_ne _ _ ht] at hk
      rw [hprocess p ht]
      exact h.process p hk
  · by_cases ht : p = k.next
    · subst ht
      rw [Store.get_set_self] at hk
      rw [hclientSession' hk]
      exact h.clientSession _ (by rw [hn.1]; decide)
    · rw [Store.get_set_ne _ _ ht] at hk
      rw [hclientSession p ht]
      exact h.clientSession p hk
  · have hparent' : ∀ x, k.kind x = .process → (k.kind.set k.next kind) x = .process := by
      intro x hx
      rw [Store.get_set_ne _ _ (Nat.ne_of_lt (h.lt (by rw [hx]; decide)))]
      exact hx
    by_cases ht : t = k.next
    · subst ht
      rw [Store.get_set_self] at hk
      exact hparent' _ (hparent hk)
    · rw [Store.get_set_ne _ _ ht] at hk
      rw [hthread t ht]
      exact hparent' _ (h.parent t hk)

/-- A new object without a table of its own. -/
theorem allocPlain (h : Inv k) {kind : Kind}
    (hk : kind ∈ [.port, .session, .mutex, .semaphore, .event, .timer, .dmaObject,
      .addressArbiter, .other]) :
    Inv { k with next := k.next + 1, kind := k.kind.set k.next kind } := by
  have hn : k.kind k.next ≠ .thread := by rw [(h.fresh _ (Nat.le_refl _)).1]; decide
  refine h.alloc ?_ (fun _ _ => rfl) (fun _ _ => rfl) (fun _ _ => rfl) (fun _ _ => rfl)
    (fun _ _ => rfl) (fun _ _ => rfl) (fun _ => rfl) (fun _ => rfl) (fun _ => rfl)
    (by rw [h.thread _ hn]; rfl) (fun ht => by simp [ht] at hk) (fun r hr => ?_)
  · rintro rfl
    simp at hk
  · simp only [List.mem_cons, List.not_mem_nil, or_false] at hk
    rcases hk with rfl | rfl | rfl | rfl | rfl | rfl | rfl | rfl | rfl <;>
      simp [Kernel.owned] at hr

theorem modifyProcess (h : Inv k) {f : Process → Process} (hk : k.kind p = .process)
    (howned : k.dead p = false → ∀ r ∈ (f (k.process p)).owned, k.Alive r) :
    Inv { k with process := k.process.modify p f } := by
  refine { h with processOwned := fun x hd => ?_, process := fun x hx => ?_ } <;>
    simp only [Store.get_modify]
  · split
    next he => subst he; exact howned hd
    next => exact h.processOwned x hd
  · have hne : x ≠ p := by
      rintro rfl
      exact hx hk
    rw [if_neg hne]
    exact h.process x hx

theorem removeHandle (h : Inv k) {handle : Handle} {trace : List Obs}
    (hk : k.kind p = .process) :
    Inv { k with
      process := k.process.modify p (fun process =>
        { process with table := removeEntry process.table handle })
      trace := trace } := by
  have hp := h.modifyProcess (f := fun process =>
    { process with table := removeEntry process.table handle }) hk (fun hd x hx => by
    simp only [Process.owned, removeEntry, List.mem_append, List.mem_map, List.mem_filter] at hx
    rcases hx with ⟨e, he, rfl⟩ | hx
    · exact h.alive_of_table hd he.1
    · exact h.processOwned p hd x (by simp [Process.owned, hx]))
  exact { hp with }

/-- A handle goes, and perhaps another one comes. -/
theorem setTable (h : Inv k) {handle : Handle} {r : Option Ref} {f : Nat → Nat} {trace : List Obs}
    (hk : k.kind p = .process) (hr : ∀ x ∈ r, k.Alive x) :
    Inv { k with
      process := k.process.modify p (fun process =>
        { process with
          table := removeEntry process.table handle ++ r.toList.map (handle, ·)
          curHandle := f process.curHandle })
      trace := trace } := by
  have hp := h.modifyProcess (p := p) (f := fun process =>
    { process with
      table := removeEntry process.table handle ++ r.toList.map (handle, ·)
      curHandle := f process.curHandle }) hk (fun hd x hx => by
    simp only [Process.owned, removeEntry, List.map_append, List.mem_append, List.mem_map,
      List.mem_filter, Option.mem_toList] at hx
    rcases hx with (⟨e, he, rfl⟩ | ⟨e, ⟨y, hy, rfl⟩, rfl⟩) | hx
    · exact h.alive_of_table hd he.1
    · exact hr y hy
    · exact h.processOwned p hd x (by simp [Process.owned, hx]))
  exact { hp with }

theorem modifyServerPort (h : Inv k) {f : ServerPort → ServerPort}
    (howned : k.kind p = .serverPort → k.dead p = false →
      ∀ r ∈ (f (k.serverPort p)).owned, k.Alive r) :
    Inv { k with serverPort := k.serverPort.modify p f } := by
  refine { h with serverPortOwned := fun x hk hd => ?_ }
  simp only [Store.get_modify]
  split
  next he => subst he; exact howned hk hd
  next => exact h.serverPortOwned x hk hd

theorem modifyClientSession (h : Inv k) {f : ClientSession → ClientSession} {cs : Ref}
    {trace : List Obs} (hk : k.kind cs = .clientSession)
    (hs : ∀ session, (f session).session = session.session) :
    Inv { k with clientSession := k.clientSession.modify cs f, trace := trace } := by
  refine { h with
    clientSessionOwned := fun x hx hd => ?_, clientSession := fun x hx => ?_ } <;>
    simp only [Store.get_modify]
  · split
    next => rw [hs]; exact h.clientSessionOwned x hx hd
    next => exact h.clientSessionOwned x hx hd
  · have hne : x ≠ cs := by
      rintro rfl
      exact hx hk
    rw [if_neg hne]
    exact h.clientSession x hx

theorem effect (h : Inv k) {k₁ : Kernel} (he : Effect k s t k₁) : Inv k₁ := by
  obtain ⟨serverSession, mutex, semaphore, event, timer, obs, rfl, hss, -⟩ := he.shape
  refine { h with serverSessionOwned := fun x hk hd r hr => ?_ }
  refine h.serverSessionOwned x hk hd r ?_
  rw [ServerSession.owned] at hr ⊢
  rwa [← (hss x).1, ← (hss x).2]

theorem destroy (h : Inv k) (hlt : r < k.next) (hr : r ∉ k.references) :
    Inv { k with dead := k.dead.set r true } := by
  have hdead : ∀ x, (k.dead.set r true) x = false → k.dead x = false := by
    intro x hx
    rw [Store.get_set] at hx
    split at hx
    · simp at hx
    · exact hx
  have hkeep : ∀ x ∈ k.references, (k.dead.set r true) x = k.dead x := by
    intro x hx
    refine Store.get_set_ne _ _ ?_
    rintro rfl
    exact hr hx
  have halive : ∀ x ∈ k.references, k.Alive x → x < k.next ∧ (k.dead.set r true) x = false :=
    fun x hx hax => ⟨hax.1, (hkeep x hx).trans hax.2⟩
  have hroots : ∀ x ∈ k.roots, x ∈ k.references := fun x hx => List.mem_append_left _ hx
  exact { h with
    counts := fun t s hd => h.counts t s (hdead t hd)
    processHandles := fun x hx => halive x (hroots x (by simp [Kernel.roots, hx]))
      (h.processHandles x hx)
    ports := fun e he => halive _ (hroots _ (by
      simp only [Kernel.roots, List.mem_append, List.mem_map]
      exact .inl (.inr ⟨e, he, rfl⟩))) (h.ports e he)
    locals := fun x hx => (hkeep x (mem_references_locals hx)).trans (h.locals x hx)
    threadOwned := fun t hd x hx => halive x (h.mem_references_thread (hdead t hd) hx)
      (h.threadOwned t (hdead t hd) x hx)
    processOwned := fun p hd x hx => halive x (h.mem_references_process (hdead p hd) hx)
      (h.processOwned p (hdead p hd) x hx)
    serverPortOwned := fun p hk hd x hx => halive x (h.mem_references (hdead p hd)
      (show x ∈ k.owned p by simpa [Kernel.owned, hk] using hx))
      (h.serverPortOwned p hk (hdead p hd) x hx)
    clientPortOwned := fun p hk hd => halive _ (h.mem_references (hdead p hd)
      (show _ ∈ k.owned p by simp [Kernel.owned, hk])) (h.clientPortOwned p hk (hdead p hd))
    serverSessionOwned := fun p hk hd x hx => halive x (h.mem_references (hdead p hd)
      (show x ∈ k.owned p by simpa [Kernel.owned, hk] using hx))
      (h.serverSessionOwned p hk (hdead p hd) x hx)
    clientSessionOwned := fun p hk hd => halive _ (h.mem_references (hdead p hd)
      (show _ ∈ k.owned p by simp [Kernel.owned, hk])) (h.clientSessionOwned p hk (hdead p hd))
    fresh := fun x hx => by
      have hne : x ≠ r := Nat.ne_of_gt (Nat.lt_of_lt_of_le hlt hx)
      exact ⟨(h.fresh x hx).1, by rw [Store.get_set_ne _ _ hne]; exact (h.fresh x hx).2.1,
        (h.fresh x hx).2.2⟩ }

theorem detach (h : Inv k) {threads : List Ref} (hk : k.kind p = .process) :
    Inv { k with
      process := k.process.modify p (fun process =>
        { process with
          threads := process.threads.erase t
          status := if process.threads.erase t = [] then .stopping else process.status })
      processHandles := if (k.process p).threads.erase t = [] then k.processHandles.erase p
        else k.processHandles
      threads := threads } := by
  have hp := h.modifyProcess (p := p) (f := fun process =>
    { process with
      threads := process.threads.erase t
      status := if process.threads.erase t = [] then .stopping else process.status }) hk
    (fun hd r hr => by
      simp only [Process.owned, List.mem_append] at hr
      refine h.processOwned p hd r ?_
      simp only [Process.owned, List.mem_append]
      exact hr.imp_right List.mem_of_mem_erase)
  refine { hp with processHandles := fun r hr => h.processHandles r ?_ }
  simp only at hr
  split at hr
  · exact List.mem_of_mem_erase hr
  · exact hr

theorem prune (h : Inv k) {l : List Ref} (ho : k.observers s = t :: l) (hd : k.dead t = true) :
    Inv { k with observers := k.observers.set s l } := by
  refine { h with counts := fun x r hx => ?_, fresh := fun r hr => ?_ }
  · simp only [Store.get_set]
    split
    next he =>
      have hne : t ≠ x := by
        rintro rfl
        simp [hd] at hx
      rw [he, ← h.counts x s hx, ho, List.count_cons_of_ne hne]
    next => exact h.counts x r hx
  · have hrs : r ≠ s := by
      rintro rfl
      have := (h.fresh r hr).2.2
      simp [ho] at this
    simp only [Store.get_set_ne _ _ hrs]
    exact h.fresh r hr

/-- An object taken by one of its observers, which goes on waiting for others. -/
theorem acquired (h : Inv k) {i : Nat} (hd : k.dead t = false)
    (hst : (k.thread t).status = .sleeping) (hk : k.kind t = .thread) :
    Inv { k with
      observers := k.observers.modify s (·.erase t)
      thread := k.thread.modify t (fun thread =>
        { thread with wakeIndex := i, wokenObject := some s,
                      waitList := thread.waitList.erase s }) } := by
  refine h.modifyThread hk (fun _ => rfl) (fun x r hx => ?_) (fun _ => hst) (fun _ r hr => ?_)
    (fun r hr => ?_)
  · rw [Store.get_modify, Store.get_modify]
    by_cases hxt : x = t <;> by_cases hrs : r = s
    · subst hxt hrs
      simp [List.count_erase_self, h.counts x r hx]
    · simp [hxt, hrs, List.count_erase_of_ne hrs, h.counts t r hd]
    · simp [hxt, hrs, List.count_erase_of_ne hxt, h.counts x s hx]
    · simp [hxt, hrs, h.counts x r hx]
  · simp only [Thread.owned, List.mem_append] at hr
    refine h.threadOwned t hd r ?_
    simp only [Thread.owned, List.mem_append]
    exact hr.imp_left (Or.imp_left List.mem_of_mem_erase)
  · rw [Store.get_modify]
    split <;> simp [(h.fresh r hr).2.2]

/-- A thread begins to wait. -/
theorem block (h : Inv k) {wait : Wait} {status : ThreadStatus} {waitList : List Ref}
    {waitForAll : Bool} {timeoutAt : Nat} {observers : Store (List Ref)}
    (hst : (k.thread t).status = .ready)
    (hb : Blocks (k.thread t) wait status waitList timeoutAt)
    (hobs : ∀ s, observers s = k.observers s ++ List.replicate (waitList.count s) t)
    (halive : ∀ s ∈ waitList, k.Alive s) :
    Inv { k with
      observers := observers
      thread := k.thread.modify t (fun thread =>
        { thread with waitList := waitList, waitForAll := waitForAll, timeoutAt := timeoutAt,
                      status := status }) } := by
  have hwl : (k.thread t).waitList = [] := h.waitList_nil (by rw [hst]; decide)
  refine h.modifyThread (h.ready_thread (by rw [hst]; decide)) (fun _ => rfl) (fun x r hx => ?_)
    (fun hw => ?_) (fun hd r hr => ?_) (fun r hr => ?_)
  · rw [hobs, List.count_append, h.counts x r hx, List.count_replicate, Store.get_modify]
    by_cases hxt : x = t
    · simp [hxt, hwl]
    · simp [hxt, Ne.symm hxt]
  · cases hb with
    | objects => rfl
    | sleep | arbitration => exact absurd rfl hw
  · simp only [Thread.owned, List.mem_append] at hr
    rcases hr with (hr | hr) | hr
    · exact halive r hr
    · exact h.threadOwned t hd r (by simp [Thread.owned, hr])
    · exact h.threadOwned t hd r (by simp only [Thread.owned, List.mem_append]; exact .inr hr)
  · have hnot : r ∉ waitList := fun hm => absurd (halive r hm).1 (Nat.not_lt.2 hr)
    rw [hobs, (h.fresh r hr).2.2, List.count_eq_zero.2 hnot]
    rfl

theorem allocServerPort (h : Inv k) {v : ServerPort} (hv : ∀ r ∈ v.owned, k.Alive r) :
    Inv { k with
      next := k.next + 1
      kind := k.kind.set k.next .serverPort
      serverPort := k.serverPort.set k.next v } := by
  have hn : k.kind k.next ≠ .thread := by rw [(h.fresh _ (Nat.le_refl _)).1]; decide
  refine h.alloc (by decide) (fun _ _ => rfl) (fun _ _ => rfl) (fun _ hr => Store.get_set_ne _ _ hr) (fun _ _ => rfl) (fun _ _ => rfl) (fun _ _ => rfl)
    (fun _ => rfl) (fun _ => rfl) (fun _ => rfl) (by rw [h.thread _ hn]; rfl)
    (fun ht => by simp at ht) (fun r hr => .inl ?_)
  simp only [Kernel.owned, Store.get_set_self] at hr
  exact hv r hr

theorem allocClientPort (h : Inv k) {v : ClientPort} (hv : k.Alive v.port) :
    Inv { k with
      next := k.next + 1
      kind := k.kind.set k.next .clientPort
      clientPort := k.clientPort.set k.next v } := by
  have hn : k.kind k.next ≠ .thread := by rw [(h.fresh _ (Nat.le_refl _)).1]; decide
  refine h.alloc (by decide) (fun _ _ => rfl) (fun _ _ => rfl) (fun _ _ => rfl) (fun _ hr => Store.get_set_ne _ _ hr) (fun _ _ => rfl) (fun _ _ => rfl)
    (fun _ => rfl) (fun _ => rfl) (fun _ => rfl) (by rw [h.thread _ hn]; rfl)
    (fun ht => by simp at ht) (fun r hr => .inl ?_)
  simp only [Kernel.owned, Store.get_set_self] at hr
  exact List.mem_singleton.1 hr ▸ hv

theorem allocServerSession (h : Inv k) {v : ServerSession} (hv : ∀ r ∈ v.owned, k.Alive r) :
    Inv { k with
      next := k.next + 1
      kind := k.kind.set k.next .serverSession
      serverSession := k.serverSession.set k.next v } := by
  have hn : k.kind k.next ≠ .thread := by rw [(h.fresh _ (Nat.le_refl _)).1]; decide
  refine h.alloc (by decide) (fun _ _ => rfl) (fun _ _ => rfl) (fun _ _ => rfl) (fun _ _ => rfl) (fun _ hr => Store.get_set_ne _ _ hr) (fun _ _ => rfl)
    (fun _ => rfl) (fun _ => rfl) (fun _ => rfl) (by rw [h.thread _ hn]; rfl)
    (fun ht => by simp at ht) (fun r hr => .inl ?_)
  simp only [Kernel.owned, Store.get_set_self] at hr
  exact hv r hr

theorem allocClientSession (h : Inv k) {v : ClientSession} (hv : k.Alive v.session) :
    Inv { k with
      next := k.next + 1
      kind := k.kind.set k.next .clientSession
      clientSession := k.clientSession.set k.next v } := by
  have hn : k.kind k.next ≠ .thread := by rw [(h.fresh _ (Nat.le_refl _)).1]; decide
  refine h.alloc (by decide) (fun _ _ => rfl) (fun _ _ => rfl) (fun _ _ => rfl) (fun _ _ => rfl) (fun _ _ => rfl) (fun _ hr => Store.get_set_ne _ _ hr)
    (fun _ => rfl) (fun _ => rfl) (fun h => absurd rfl h) (by rw [h.thread _ hn]; rfl)
    (fun ht => by simp at ht) (fun r hr => .inl ?_)
  simp only [Kernel.owned, Store.get_set_self] at hr
  exact List.mem_singleton.1 hr ▸ hv

/-- A port with its two ends. -/
theorem newPort (h : Inv k) {maxSessions : Nat} {port : Store Port} {trace : List Obs} :
    Inv { k with
      next := k.next + 1 + 1 + 1
      kind := ((k.kind.set k.next .port).set (k.next + 1) .serverPort).set (k.next + 1 + 1)
        .clientPort
      port := port
      serverPort := k.serverPort.set (k.next + 1)
        { port := k.next, availableSessions := maxSessions }
      clientPort := k.clientPort.set (k.next + 1 + 1) { port := k.next }
      trace := trace } := by
  have hd : k.dead k.next = false := (h.fresh _ (Nat.le_refl _)).2.1
  have h₁ : Inv { k with next := k.next + 1, kind := k.kind.set k.next .port } :=
    h.allocPlain (by decide)
  have h₂ := h₁.allocServerPort (v := { port := k.next, availableSessions := maxSessions })
    (fun r hr => by
      rw [List.mem_singleton.1 hr]
      exact ⟨Nat.lt_succ_self _, hd⟩)
  have h₃ := h₂.allocClientPort (v := { port := k.next })
    ⟨Nat.lt_succ_of_lt (Nat.lt_succ_self _), hd⟩
  exact { h₃ with }

/-- A session with its client end. -/
theorem newSession (h : Inv k) {session : Store Session} :
    Inv { k with
      next := k.next + 1 + 1
      kind := (k.kind.set k.next .session).set (k.next + 1) .clientSession
      session := session
      clientSession := k.clientSession.set (k.next + 1) { session := k.next } } := by
  have h₁ : Inv { k with next := k.next + 1, kind := k.kind.set k.next .session } :=
    h.allocPlain (by decide)
  have h₂ := h₁.allocClientSession (v := { session := k.next })
    ⟨Nat.lt_succ_self _, (h.fresh _ (Nat.le_refl _)).2.1⟩
  exact { h₂ with }

/-- A session with both ends. -/
theorem newPair (h : Inv k) {session : Store Session} :
    Inv { k with
      next := k.next + 1 + 1 + 1
      kind := ((k.kind.set k.next .session).set (k.next + 1) .serverSession).set
        (k.next + 1 + 1) .clientSession
      session := session
      serverSession := k.serverSession.set (k.next + 1) { session := k.next }
      clientSession := k.clientSession.set (k.next + 1 + 1) { session := k.next } } := by
  have hd : k.dead k.next = false := (h.fresh _ (Nat.le_refl _)).2.1
  have h₁ : Inv { k with next := k.next + 1, kind := k.kind.set k.next .session } :=
    h.allocPlain (by decide)
  have h₂ := h₁.allocServerSession (v := { session := k.next }) (fun r hr => by
    rw [List.mem_singleton.1 hr]
    exact ⟨Nat.lt_succ_self _, hd⟩)
  have h₃ := h₂.allocClientSession (v := { session := k.next })
    ⟨Nat.lt_succ_of_lt (Nat.lt_succ_self _), hd⟩
  exact { h₃ with }

theorem newProcess (h : Inv k) {fake : Bool} :
    Inv { k with
      next := k.next + 1
      kind := k.kind.set k.next .process
      process := k.process.modify k.next (fun _ =>
        { fake := fake, table := if fake then [(handleCurrentProcess, k.next)] else [] })
      processHandles := k.processHandles ++ [k.next] } := by
  have hn : k.kind k.next ≠ .thread := by rw [(h.fresh _ (Nat.le_refl _)).1]; decide
  have hnew : Inv { k with
      next := k.next + 1
      kind := k.kind.set k.next .process
      process := k.process.modify k.next (fun _ =>
        { fake := fake, table := if fake then [(handleCurrentProcess, k.next)] else [] }) } := by
    refine h.alloc (by decide) (fun _ _ => rfl) (fun r hr => Store.get_modify_ne _ _ hr)
      (fun _ _ => rfl) (fun _ _ => rfl) (fun _ _ => rfl) (fun _ _ => rfl) (fun _ => rfl)
      (fun h => absurd rfl h) (fun _ => rfl) (by rw [h.thread _ hn]; rfl)
      (fun ht => by simp at ht) (fun r hr => .inr ?_)
    simp only [Kernel.owned, Process.owned, Store.get_set_self, Store.get_modify_self] at hr
    cases fake with
    | true => simpa using hr
    | false => simp at hr
  refine { hnew with processHandles := fun r hr => ?_ }
  rcases List.mem_append.1 hr with hr | hr
  · exact hnew.processHandles r hr
  · rw [List.mem_singleton.1 hr]
    exact ⟨Nat.lt_succ_self _, (h.fresh _ (Nat.le_refl _)).2.1⟩

/-- A session taken off the queue of a port. -/
theorem accept (h : Inv k) {session : Ref} {queue : List Ref} (hp : k.Alive p)
    (hk : k.kind p = .serverPort) (hq : (k.serverPort p).sessionQueue = session :: queue) :
    Inv { k with
      next := k.next + 1
      kind := k.kind.set k.next .serverSession
      serverPort := k.serverPort.modify p (fun port => { port with sessionQueue := queue })
      serverSession := k.serverSession.set k.next { session := session, port := some p } } := by
  have hport := h.serverPortOwned p hk hp.2
  rw [ServerPort.owned, hq] at hport
  have h₁ := h.modifyServerPort (p := p)
    (f := fun port => { port with sessionQueue := queue }) (fun _ _ r hr => hport r (by
      simp only [ServerPort.owned, List.mem_cons] at hr ⊢
      exact hr.imp_right .inr))
  refine h₁.allocServerSession (v := { session := session, port := some p }) (fun r hr => ?_)
  simp only [ServerSession.owned, Option.toList_some, List.mem_cons, List.not_mem_nil,
    or_false] at hr
  rcases hr with rfl | rfl
  · exact hport r (by simp)
  · exact hp

/-- Each change keeps the invariant. -/
theorem act (h : Inv k) (ha : Act P (k, g) (k', g')) : Inv k' := by
  cases ha with
  | quiet | queue | skip | loosen | spare | bury | list | bind | data | waits | cool | tick | sweep
  | elapsed | hangUp | forgo | received | replying | answer | ran => exact { h with }
  | same ho ht =>
    refine { h with
      counts := fun x s hd => ?_, asleep := fun x => ?_, threadOwned := fun x hd => ?_,
      fresh := fun r hr => ⟨(h.fresh r hr).1, (h.fresh r hr).2.1, ?_⟩,
      thread := fun x hx => ?_, parent := fun x hx => ?_ }
    · rw [ho, ht]
      exact h.counts x s hd
    · rw [ht]
      exact h.asleep x
    · rw [ht]
      exact h.threadOwned x hd
    · rw [ho]
      exact (h.fresh r hr).2.2
    · rw [ht]
      exact h.thread x hx
    · rw [ht]
      exact h.parent x hx
  | hold hr =>
    refine { h with locals := fun x hx => ?_ }
    rcases List.mem_cons.1 hx with rfl | hx
    · exact hr
    · exact h.locals x hx
  | release => exact { h with locals := fun x hx => h.locals x (List.mem_of_mem_erase hx) }
  | inner hk hf =>
    refine h.modifyThread' hk hf.process hf.waitList (.inr (hf.status _)) (fun hd r hr => ?_)
    rw [Thread.owned, hf.waitList, hf.frame, hf.callback] at hr
    exact h.threadOwned _ hd r hr
  | frame hk hf =>
    refine h.modifyThread' hk (fun _ => rfl) (fun _ => rfl) (.inr rfl) (fun hd r hr => ?_)
    simp only [Thread.owned, List.mem_append] at hr
    rcases hr with (hr | hr) | hr
    · exact h.threadOwned _ hd r (by simp [Thread.owned, hr])
    · exact hf r hr
    · exact h.threadOwned _ hd r (by simp only [Thread.owned, List.mem_append]; exact .inr hr)
  | name hr =>
    refine { h with ports := fun e he => ?_ }
    rcases List.mem_append.1 he with he | he
    · exact h.ports e he
    · rw [List.mem_singleton.1 he]
      exact hr
  | destroy hr href => exact { h.destroy hr.1 href with }
  | run ht =>
    refine h.modifyProcess ?_ (fun hd r hr => h.processOwned _ hd r hr)
    by_contra hk
    rw [h.process _ hk] at ht
    exact List.not_mem_nil ht
  | detach hf hk _ hp => exact h.detach (hp ▸ h.parent _ hk)
  | taken hst ht =>
    obtain ⟨_, _, _, _, _, _, rfl, -⟩ := ht.effect.shape
    exact (h.effect ht.effect).modifyThread' (h.ready_thread (by rw [hst]; decide))
      (fun _ => rfl) (fun _ => rfl) (.inr rfl) (fun hd r hr => h.threadOwned _ hd r hr)
  | block _ hst hb hobs halive => exact { h.block hst hb hobs (fun s hs => (halive s hs).1) with }
  | acquired _ hd hst ht =>
    obtain ⟨_, _, _, _, _, _, rfl, -⟩ := ht.effect.shape
    exact (h.effect ht.effect).acquired hd hst (h.ready_thread (by rw [hst]; decide))
  | woken _ _ hst ht _ hobs =>
    obtain ⟨_, _, _, _, _, _, rfl, -⟩ := ht.effect.shape
    refine (h.effect ht.effect).leave (h.ready_thread (by rw [hst]; decide)) (fun _ => rfl) hobs
      (fun _ => rfl) (fun r hr => ?_)
    simp only [Thread.owned, List.mem_append] at hr ⊢
    exact hr.imp_left (Or.imp_left fun hr => absurd hr List.not_mem_nil)
  | prune ho hd => exact h.prune ho hd
  | expire _ _ hk _ hobs =>
    refine h.leave hk (fun _ => rfl) hobs (fun _ => rfl) (fun r hr => ?_)
    simp only [Thread.owned, List.mem_append] at hr ⊢
    exact hr.imp_left (Or.imp_left fun hr => absurd hr List.not_mem_nil)
  | @signal _ _ t _ _ _ hst =>
    have hst' : (k.thread t).status ≠ .stopped ∧ (k.thread t).status ≠ .sleeping := by
      rcases hst with ⟨hst, -⟩ | hst <;> rw [hst] <;> decide
    exact h.modifyThread' (h.ready_thread hst'.1) (fun _ => rfl) (fun _ => rfl)
      (.inl (h.waitList_nil hst'.2)) (fun hd r hr => h.threadOwned _ hd r hr)
  | @stop _ _ t p _ _ _ _ hk _ hp hobs =>
    have hp : Inv { k with process := k.process.modify p (fun process =>
        { process with table := removeEntry process.table handleCurrentThread }) } :=
      h.removeHandle (hp ▸ h.parent _ hk)
    exact hp.leave hk (fun _ => rfl) hobs (fun _ => rfl)
      (fun r hr => absurd hr List.not_mem_nil)
  | entry _ _ hk hr => exact h.setTable hk hr
  | closed _ _ hk => exact h.removeHandle hk
  | reserve =>
    exact h.modifyServerPort (fun hk hd r hr => h.serverPortOwned _ hk hd r hr)
  | giveBack =>
    exact h.modifyServerPort (fun hk hd r hr => h.serverPortOwned _ hk hd r hr)
  | offer hs =>
    refine h.modifyServerPort (fun hk hd r hr => ?_)
    simp only [ServerPort.owned, List.mem_cons, List.mem_append, List.not_mem_nil, or_false] at hr
    rcases hr with hr | hr | rfl
    · exact h.serverPortOwned _ hk hd r (by simp [ServerPort.owned, hr])
    · exact h.serverPortOwned _ hk hd r (by simp [ServerPort.owned, hr])
    · exact hs
  | request _ _ _ _ _ _ hk => exact h.modifyClientSession hk (fun _ => rfl)
  | replied _ hm =>
    refine h.modifyClientSession ?_ (fun _ => rfl)
    by_contra hk
    rw [h.clientSession _ hk] at hm
    exact List.not_mem_nil hm
  | announce =>
    refine { h with serverSessionOwned := fun x hk hd r hr => h.serverSessionOwned x hk hd r ?_ }
    rw [ServerSession.owned] at hr ⊢
    rwa [Store.view_modify ServerSession.session, Store.view_modify ServerSession.port] at hr
    · rfl
    · rfl
  | park _ _ hk _ hcs =>
    refine h.modifyThread' hk (fun _ => rfl) (fun _ => rfl) (.inr rfl) (fun hd r hr => ?_)
    simp only [Thread.owned, List.mem_append] at hr
    rcases hr with hr | hr
    · exact h.threadOwned _ hd r (by simp only [Thread.owned, List.mem_append]; exact .inl hr)
    · simp [Callback.owned] at hr
      exact hr ▸ hcs
  | sent _ hk | serve _ hk =>
    refine h.modifyThread' hk (fun _ => rfl) (fun _ => rfl) (.inr rfl) (fun hd r hr => ?_)
    simp only [Thread.owned, List.mem_append] at hr
    rcases hr with hr | hr
    · exact h.threadOwned _ hd r (by simp only [Thread.owned, List.mem_append]; exact .inl hr)
    · simp [Callback.owned] at hr
  | comeBack _ hst | resume _ hst =>
    refine h.modifyThread' (h.ready_thread (by rw [hst]; decide)) (fun _ => rfl) (fun _ => rfl)
      (.inr rfl) (fun hd r hr => ?_)
    simp only [Thread.owned, List.mem_append] at hr
    rcases hr with hr | hr
    · exact h.threadOwned _ hd r (by simp only [Thread.owned, List.mem_append]; exact .inl hr)
    · simp at hr
  | @spawn _ _ p priority _ hp hk =>
    have hne : p ≠ k.next := Nat.ne_of_lt hp.1
    have hnew : Inv { k with
        next := k.next + 1
        kind := k.kind.set k.next .thread
        thread := k.thread.modify k.next (fun _ =>
          { process := p, priority := priority, status := .ready, finished := false }) } :=
      h.alloc (by decide) (fun r hr => Store.get_modify_ne _ _ hr) (fun _ _ => rfl)
        (fun _ _ => rfl) (fun _ _ => rfl) (fun _ _ => rfl) (fun _ _ => rfl)
        (fun h => absurd rfl h) (fun _ => rfl) (fun _ => rfl) (by simp) (by simp [hk])
        (by simp [Kernel.owned, Thread.owned])
    refine { hnew.modifyProcess (p := p) (f := fun process =>
      { process with threads := process.threads ++ [k.next] }) ?_ (fun hd r hr => ?_) with }
    · simp [Store.get_set_ne _ _ hne, hk]
    · simp only [Process.owned, List.mem_append, List.mem_singleton] at hr
      rcases hr with hr | hr | rfl
      · exact hnew.processOwned p hd r (by simp only [Process.owned, List.mem_append]; exact .inl hr)
      · exact hnew.processOwned p hd r (by simp only [Process.owned, List.mem_append]; exact .inr hr)
      · exact ⟨Nat.lt_succ_self _, (h.fresh _ (Nat.le_refl _)).2.1⟩
  | alloc hk => exact h.allocPlain (by revert hk; decide +revert)
  | newProcess => exact h.newProcess
  | newPort => exact h.newPort
  | newSession => exact h.newSession
  | newPair => exact h.newPair
  | accept hp hk hq => exact h.accept hp hk hq

theorem acts {c c' : Config} (h : Inv c.1) (ha : (account P).Acts c c') : Inv c'.1 := by
  induction ha with
  | refl => exact h
  | tail _ ha ih => exact ih.act ha

end Inv

/-! ## What changes leave alone -/

structure Frame (P : Powers) (k k' : Kernel) : Prop where
  next : k.next ≤ k'.next
  kind : ∀ r, r < k.next → k'.kind r = k.kind r
  process : ∀ t, t < k.next → (k'.thread t).process = (k.thread t).process
  ready : ∀ t, ¬ P.turn t → ¬ P.sleep t → (k.thread t).status = .ready → (k'.thread t).status = .ready
  callback : ∀ t, ¬ P.turn t → t < k.next → (k'.thread t).callback = (k.thread t).callback
  stopped : ¬ P.clock → ∀ t, t < k.next → (k.thread t).status = .stopped →
    (k'.thread t).status = .stopped
  threads : ¬ P.forks → ∀ p, p < k.next → (k'.process p).threads = (k.process p).threads
  table : ¬ P.tables → ∀ p, p < k.next → (k'.process p).table = (k.process p).table
  trace : k.trace <+: k'.trace

namespace Frame

theorem refl (k : Kernel) : Frame P k k :=
  ⟨Nat.le_refl _, fun _ _ => rfl, fun _ _ => rfl, fun _ _ _ h => h,
    fun _ _ _ => rfl, fun _ _ _ h => h, fun _ _ _ => rfl, fun _ _ _ => rfl, List.prefix_refl _⟩

theorem trans {k₁ k₂ k₃ : Kernel} (h : Frame P k₁ k₂) (h' : Frame P k₂ k₃) : Frame P k₁ k₃ where
  next := Nat.le_trans h.next h'.next
  kind r hr := (h'.kind r (Nat.lt_of_lt_of_le hr h.next)).trans (h.kind r hr)
  process t ht := (h'.process t (Nat.lt_of_lt_of_le ht h.next)).trans (h.process t ht)
  ready t hP hP' ht := h'.ready t hP hP' (h.ready t hP hP' ht)
  callback t hP ht := (h'.callback t hP (Nat.lt_of_lt_of_le ht h.next)).trans (h.callback t hP ht)
  stopped hP t ht hs := h'.stopped hP t (Nat.lt_of_lt_of_le ht h.next) (h.stopped hP t ht hs)
  threads hP p hp := (h'.threads hP p (Nat.lt_of_lt_of_le hp h.next)).trans (h.threads hP p hp)
  table hP p hp := (h'.table hP p (Nat.lt_of_lt_of_le hp h.next)).trans (h.table hP p hp)
  trace := h.trace.trans h'.trace

/-- An update of a thread. -/
theorem modifyThread {f : Thread → Thread} {observers : Store (List Ref)}
    {readyQueue waitingQueue : List Ref} {trace : List Obs}
    (hp : ∀ thread, (f thread).process = thread.process)
    (hready : ¬ P.turn t → ¬ P.sleep t → (k.thread t).status = .ready → (f (k.thread t)).status = .ready)
    (hcallback : ¬ P.turn t → (f (k.thread t)).callback = (k.thread t).callback)
    (hstopped : ¬ P.clock → (k.thread t).status = .stopped → (f (k.thread t)).status = .stopped)
    (ht : k.trace <+: trace) :
    Frame P k { k with observers := observers, thread := k.thread.modify t f,
                       readyQueue := readyQueue, waitingQueue := waitingQueue,
                       trace := trace } := by
  refine { refl k with
    process := fun x _ => Store.view_modify Thread.process _ _ (hp _) x
    ready := fun x hP hP' hx => ?_
    callback := fun x hP _ => ?_
    stopped := fun hP x _ hx => ?_
    trace := ht } <;> simp only [Store.get_modify] <;> split
  next he => subst he; exact hready hP hP' hx
  next => exact hx
  next he => subst he; exact hcallback hP
  next => rfl
  next he => subst he; exact hstopped hP hx
  next => exact hx

/-- New objects do not touch the old ones. -/
theorem of_old (h : Inv k) (hnext : k.next ≤ k'.next)
    (hkind : ∀ r, r < k.next → k'.kind r = k.kind r)
    (hthread : ∀ t, t < k.next → k'.thread t = k.thread t)
    (hprocess : ∀ p, p < k.next → k'.process p = k.process p) (htrace : k.trace <+: k'.trace) :
    Frame P k k' where
  next := hnext
  kind := hkind
  process t ht := by rw [hthread t ht]
  ready t _ _ hs := by
    have hk := h.ready_thread (t := t) (by rw [hs]; decide)
    rw [hthread t (h.lt (by rw [hk]; decide))]
    exact hs
  callback t _ ht := by rw [hthread t ht]
  stopped _ t ht hs := by rw [hthread t ht]; exact hs
  threads _ p hp := by rw [hprocess p hp]
  table _ p hp := by rw [hprocess p hp]
  trace := htrace

theorem modifyProcess {f : Process → Process} {processHandles threads : List Ref}
    {trace : List Obs} (hthreads : ¬ P.forks → (f (k.process p)).threads = (k.process p).threads)
    (htable : ¬ P.tables → (f (k.process p)).table = (k.process p).table)
    (ht : k.trace <+: trace) :
    Frame P k { k with process := k.process.modify p f, processHandles := processHandles,
                       threads := threads, trace := trace } := by
  refine { refl k with
    threads := fun hP x _ => ?_, table := fun hP x _ => ?_, trace := ht } <;>
    simp only [Store.get_modify] <;> split
  next he => subst he; exact hthreads hP
  next => rfl
  next he => subst he; exact htable hP
  next => rfl

theorem effect {k₁ : Kernel} (he : Effect k s t k₁) : Frame P k k₁ := by
  obtain ⟨_, _, _, _, _, obs, rfl, -⟩ := he.shape
  exact { refl k with trace := List.prefix_append _ _ }

/-- Changes leave alone what their powers do not include. -/
theorem act (h : Inv k) (ha : Act P (k, g) (k', g')) : Frame P k k' := by
  have hne : ∀ {n r : Nat}, r < n → r ≠ n := Nat.ne_of_lt
  have hlt₁ : ∀ {n r : Nat}, r < n → r < n + 1 := Nat.lt_succ_of_lt
  cases ha with
  | quiet | queue | skip | loosen | spare | bury | list | bind | data | cool | tick | sweep
  | hangUp | forgo | answer | hold | release | name | prune | reserve | giveBack | offer =>
    exact { refl k with }
  | waits | elapsed | received | replying | ran | destroy | request | replied =>
    exact { refl k with trace := List.prefix_append _ _ }
  | announce =>
    exact { refl k with trace := by rw [List.append_assoc]; exact List.prefix_append _ _ }
  | same _ ht =>
    exact { refl k with
      process := fun x _ => by rw [ht]
      ready := fun x _ _ hs => by rw [ht]; exact hs
      callback := fun x _ _ => by rw [ht]
      stopped := fun _ x _ hs => by rw [ht]; exact hs }
  | inner hk hf =>
    exact modifyThread hf.process (fun _ _ hs => (hf.status _).trans hs)
      (fun _ => hf.callback _) (fun _ hs => (hf.status _).trans hs) (List.prefix_refl _)
  | frame =>
    exact modifyThread (fun _ => rfl) (fun _ _ hs => hs) (fun _ => rfl) (fun _ hs => hs)
      (List.prefix_refl _)
  | taken _ ht | acquired _ _ _ ht =>
    exact (effect ht.effect).trans (modifyThread (fun _ => rfl) (fun _ _ hs => hs) (fun _ => rfl)
      (fun _ hs => hs) (List.prefix_refl _))
  | woken _ _ hst ht =>
    have he := effect (P := P) ht.effect
    obtain ⟨_, _, _, _, _, _, rfl, -⟩ := ht.effect.shape
    exact he.trans (modifyThread (fun _ => rfl) (fun _ _ _ => rfl) (fun _ => rfl)
      (fun _ hs => by rw [hst] at hs; simp at hs) (List.prefix_append _ _))
  | block hP hst =>
    exact modifyThread (fun _ => rfl) (fun _ hn => absurd hP hn) (fun _ => rfl)
      (fun _ hs => by rw [hst] at hs; simp at hs) (List.prefix_append _ _)
  | expire hP =>
    exact modifyThread (fun _ => rfl) (fun _ _ _ => rfl) (fun _ => rfl) (fun hn => absurd hP hn)
      (List.prefix_append _ _)
  | signal _ _ hst =>
    refine modifyThread (fun _ => rfl) (fun _ _ _ => rfl) (fun _ => rfl)
      (fun _ hs => by rcases hst with ⟨hst, -⟩ | hst <;> rw [hst] at hs <;> simp at hs) ?_
    rw [List.append_assoc]
    exact List.prefix_append _ _
  | @stop _ _ _ p _ hP hP' =>
    have hp : Frame P k { k with process := k.process.modify p (fun process =>
        { process with table := removeEntry process.table handleCurrentThread }) } :=
      modifyProcess (fun _ => rfl) (fun hn => absurd hP' hn) (List.prefix_refl _)
    refine hp.trans (modifyThread (fun _ => rfl) (fun hn => absurd hP hn)
      (fun hn => absurd hP hn) (fun _ _ => rfl) ?_)
    rw [List.append_assoc]
    exact List.prefix_append _ _
  | park hP | comeBack hP | sent hP | serve hP | resume hP =>
    exact modifyThread (fun _ => rfl) (fun hn => absurd hP hn) (fun hn => absurd hP hn)
      (fun _ hs => hs) (List.prefix_refl _)
  | run => exact modifyProcess (fun _ => rfl) (fun _ => rfl) (List.prefix_refl _)
  | detach hP =>
    exact modifyProcess (fun hn => absurd hP hn) (fun _ => rfl) (List.prefix_refl _)
  | entry hP | closed hP =>
    exact modifyProcess (fun _ => rfl) (fun hn => absurd hP hn) (List.prefix_append _ _)
  | @spawn _ _ p priority hP =>
    have hnew : Frame P k { k with
        next := k.next + 1
        kind := k.kind.set k.next .thread
        thread := k.thread.modify k.next (fun _ =>
          { process := p, priority := priority, status := .ready, finished := false })
        readyQueue := k.readyQueue ++ [k.next] } :=
      of_old h (Nat.le_succ _) (fun r hr => Store.get_set_ne _ _ (hne hr))
        (fun r hr => Store.get_modify_ne _ _ (hne hr)) (fun _ _ => rfl) (List.prefix_refl _)
    exact hnew.trans (modifyProcess (fun hn => absurd hP hn) (fun _ => rfl)
      (List.prefix_refl _))
  | alloc | accept =>
    exact of_old h (Nat.le_succ _) (fun r hr => Store.get_set_ne _ _ (hne hr)) (fun _ _ => rfl)
      (fun _ _ => rfl) (List.prefix_refl _)
  | newProcess =>
    exact of_old h (Nat.le_succ _) (fun r hr => Store.get_set_ne _ _ (hne hr)) (fun _ _ => rfl)
      (fun r hr => Store.get_modify_ne _ _ (hne hr)) (List.prefix_refl _)
  | newSession =>
    refine of_old h (Nat.le_add_right _ 2) (fun r hr => ?_) (fun _ _ => rfl) (fun _ _ => rfl)
      (List.prefix_refl _)
    simp only [Store.get_set_ne _ _ (hne hr), Store.get_set_ne _ _ (hne (hlt₁ hr))]
  | newPort | newPair =>
    refine of_old h (Nat.le_add_right _ 3) (fun r hr => ?_) (fun _ _ => rfl) (fun _ _ => rfl) ?_
    · simp only [Store.get_set_ne _ _ (hne hr), Store.get_set_ne _ _ (hne (hlt₁ hr)),
        Store.get_set_ne _ _ (hne (hlt₁ (hlt₁ hr)))]
    · first | exact List.prefix_refl _ | exact List.prefix_append _ _

theorem acts {c c' : Config} (h : Inv c.1) (ha : (account P).Acts c c') : Frame P c.1 c'.1 := by
  induction ha with
  | refl => exact refl _
  | tail ha' ha ih => exact ih.trans (act (h.acts ha') ha)

end Frame

end Mikage
