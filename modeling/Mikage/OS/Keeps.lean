import Mikage.OS.Ready

/-!
# Kernel code that keeps the invariant

Where only the invariant is at stake, kernel code need not be accounted for change by change with the
phases of what it is in the middle of: it is enough that each change is sound on its own.

- `Sound`: the invariant, with the threads of processes and of client sessions, the threads that have
  exited and the waits that have ended.
- `Keeping`: code in the middle of a run. `keep_act` and `keep_move` are the rules for a change,
  `keep_call` the one for a call.
-/

namespace Mikage

open KM Account

/-- The parts of the kernel the invariant beyond `Inv` is about. -/
def Kernel.core (k : Kernel) := (k.next, k.kind, k.thread, k.process, k.clientSession, k.readyQueue,
  k.processHandles, k.trace)

structure Sound (k : Kernel) : Prop extends Inv k where
  members : ∀ p, ∀ t ∈ (k.process p).threads, k.kind t = .thread ∧ (k.thread t).process = p
  queued : ∀ cs, ∀ t ∈ (k.clientSession cs).threads, k.kind t = .thread
  terminal : k.Terminal
  punctual : Punctual k.trace k.thread
  scheduled : ¬ k.Upset → k.Scheduled
  exited : k.Exited

/-- The assertions on observer lists and wait lists. -/
def Exception.observing : List Exception :=
  [.contractViolated "it != observers.end()",
   .contractViolated "thread->status == Thread::Status::Sleeping",
   .contractViolated "status == Thread::Status::Sleeping",
   .runtimeError "Given resource was not being waited for"]

/-- Code during which only the threads in `T` may go to sleep or exit. -/
def Powers.acting (T : Ref → Prop) : Powers := ⟨T, T, True, True, True⟩

/-- Code run in `s`, of which everything before `k` keeps the invariant. -/
abbrev Keeping {α : Type} (T : Ref → Prop) (k : Kernel) (x : KM α) (s : Kernel)
    (Q : α → Kernel → Prop) : Prop :=
  Ends x s (fun a k' => Sound k' ∧ Frame (.acting T) k k' ∧ k'.locals = k.locals ∧ Q a k')
    (fun e _ => e ∉ Exception.observing)

abbrev Keeps {α : Type} (T : Ref → Prop) (x : KM α) (k : Kernel) (Q : α → Kernel → Prop) : Prop :=
  Keeping T k x k Q

/-- Nobody goes to sleep or exits. -/
abbrev nobody : Ref → Prop := fun _ => False

variable {P P' : Powers} {α β : Type} {k k' s : Kernel} {g g' : Phase} {r t p : Ref}
  {x : KM α} {f : α → KM β} {T T' : Ref → Prop} {handle : Handle} {type : Kind → Bool}
  {Q Q' : α → Kernel → Prop} {R : β → Kernel → Prop}

/-! ## Changes -/

theorem Frame.mono (h : P.Le P') (hF : Frame P k k') : Frame P' k k' where
  next := hF.next
  kind := hF.kind
  process := hF.process
  ready t hP hP' := hF.ready t (mt (h.turn t) hP) (mt (h.sleep t) hP')
  callback t hP := hF.callback t (mt (h.turn t) hP)
  stopped hP := hF.stopped (mt h.clock hP)
  threads hP := hF.threads (mt h.forks hP)
  table hP := hF.table (mt h.tables hP)
  trace := hF.trace

theorem Powers.acting_le (h : ∀ t, T t → T' t) : (Powers.acting T).Le (.acting T') :=
  ⟨h, h, id, id, id⟩

/-- A process gets no other threads than new ones. -/
theorem Act.members (ha : Act P (k, g) (k', g')) (ht : t ∈ (k'.process p).threads) :
    t ∈ (k.process p).threads ∨ (k'.kind t = .thread ∧ (k'.thread t).process = p) := by
  have hsame : ∀ {q : Ref} {f : Process → Process},
      (∀ process, (f process).threads = process.threads) →
      t ∈ ((k.process.modify q f) p).threads → t ∈ (k.process p).threads := by
    intro q f hf ht
    rwa [Store.view_modify Process.threads _ _ (hf _)] at ht
  cases ha with
  | run | entry | closed | stop =>
    refine .inl (hsame ?_ ht)
    exact fun _ => rfl
  | taken _ htakes | acquired _ _ _ htakes | woken _ _ _ htakes =>
    obtain ⟨_, _, _, _, _, _, rfl, -⟩ := htakes.effect.shape
    exact .inl ht
  | detach =>
    simp only [Store.get_modify] at ht
    split at ht
    · exact .inl (List.mem_of_mem_erase ht)
    · exact .inl ht
  | newProcess =>
    simp only [Store.get_modify] at ht
    split at ht
    · exact absurd ht List.not_mem_nil
    · exact .inl ht
  | spawn =>
    simp only [Store.get_modify] at ht
    split at ht
    next he =>
      subst he
      rcases List.mem_append.1 ht with ht | ht
      · exact .inl ht
      · rw [List.mem_singleton.1 ht]
        simp
    next => exact .inl ht
  | _ => exact .inl ht

/-- A client session gets no other threads than ready ones. -/
theorem Act.queued (ha : Act P (k, g) (k', g')) {cs : Ref} (ht : t ∈ (k'.clientSession cs).threads) :
    t ∈ (k.clientSession cs).threads ∨ (k.thread t).status = .ready := by
  cases ha with
  | taken _ htakes | acquired _ _ _ htakes | woken _ _ _ htakes =>
    obtain ⟨_, _, _, _, _, _, rfl, -⟩ := htakes.effect.shape
    exact .inl ht
  | newSession | newPair =>
    simp only [Store.get_set] at ht
    split at ht
    · exact absurd ht List.not_mem_nil
    · exact .inl ht
  | request _ _ hready =>
    simp only [Store.get_modify] at ht
    split at ht
    next he =>
      subst he
      rcases List.mem_append.1 ht with ht | ht
      · exact .inl ht
      · exact .inr (List.mem_singleton.1 ht ▸ hready)
    next => exact .inl ht
  | replied =>
    simp only [Store.get_modify] at ht
    split at ht
    · exact .inl (List.mem_of_mem_erase ht)
    · exact .inl ht
  | _ => exact .inl ht

namespace Sound

theorem of_frame (h : Sound k) (hI : Inv k') (hF : Frame P k k')
    (hm : ∀ p, ∀ t ∈ (k'.process p).threads, t ∈ (k.process p).threads ∨
      (k'.kind t = .thread ∧ (k'.thread t).process = p))
    (hq : ∀ cs, ∀ t ∈ (k'.clientSession cs).threads, t ∈ (k.clientSession cs).threads ∨
      k.kind t = .thread) (ht : k'.Terminal) (hw : Punctual k'.trace k'.thread)
    (hs : ¬ k'.Upset → k'.Scheduled) (he : k'.Exited) : Sound k' where
  toInv := hI
  members p t ht := by
    rcases hm p t ht with hm | hm
    · obtain ⟨hk, hp⟩ := h.members p t hm
      have hlt : t < k.next := h.lt (by rw [hk]; decide)
      exact ⟨(hF.kind t hlt).trans hk, (hF.process t hlt).trans hp⟩
    · exact hm
  queued cs t ht := by
    have hk : k.kind t = .thread := (hq cs t ht).elim (h.queued cs t) id
    exact (hF.kind t (h.lt (by rw [hk]; decide))).trans hk
  terminal := ht
  punctual := hw
  scheduled := hs
  exited := he

/-- A change of what none of this is about. -/
theorem elsewhere (h : Sound k) (hI : Inv k') (hcore : k'.core = k.core) : Sound k' := by
  simp only [Kernel.core, Prod.mk.injEq] at hcore
  obtain ⟨hnext, hkind, hthread, hprocess, hclient, hqueue, hhandles, htrace⟩ := hcore
  refine ⟨hI, fun p t ht => ?_, fun cs t ht => ?_, ?_, ?_, fun hu => ?_, ?_⟩
  · rw [hprocess] at ht
    rw [hkind, hthread]
    exact h.members p t ht
  · rw [hclient] at ht
    rw [hkind]
    exact h.queued cs t ht
  · exact h.terminal.quiet htrace (Nat.le_of_eq hnext.symm) (fun t => by rw [hthread])
      (hqueue ▸ List.Subset.refl _)
  · rw [htrace, hthread]
    exact h.punctual
  · refine (h.scheduled (mt (·.mono (htrace ▸ List.prefix_refl _)) hu)).same hqueue
      (fun _ => by rw [hkind]; exact id) (fun _ => by rw [hthread]; exact ⟨rfl, rfl⟩)
      (fun _ => by rw [hprocess]; exact ⟨rfl, rfl⟩) hhandles
  · refine h.exited.back (htrace ▸ List.prefix_refl _) fun t hk hs => ⟨hkind ▸ hk, hthread ▸ hs⟩

theorem gone (h : Sound k) {sessions : List Ref} (ht : .stopped t sessions ∈ k.trace)
    (hu : ¬ k.Upset) : (k.thread t).status = .stopped := by
  rcases h.terminal t sessions ht with hr | ⟨-, hs, -⟩
  · exact absurd ⟨_, hr, rfl⟩ hu
  · exact hs

/-- The process of a thread that has not stopped is kept. -/
theorem kept (h : Sound k) (ht : (k.thread t).status ≠ .stopped) :
    k.Upset ∨ (k.thread t).process ∈ k.processHandles :=
  or_iff_not_imp_left.2 fun hu => (h.scheduled hu).kept t ht

theorem scheduled_of (h : Sound k) (hF : k.trace <+: k'.trace) (hu : ¬ k'.Upset) : k.Scheduled :=
  h.scheduled (mt (·.mono hF) hu)

theorem act (h : Sound k) (ha : Act P (k, g) (k', g')) : Sound k' :=
  h.of_frame (h.toInv.act ha) (Frame.act h.toInv ha) (fun _ _ => ha.members)
    (fun _ _ ht => (ha.queued ht).imp_right fun hr => h.toInv.ready_thread (by rw [hr]; decide))
    (ha.terminal h.terminal) (ha.punctual h.toInv h.punctual)
    (fun hu => ha.scheduled h.toInv (fun p t ht => (h.members p t ht).2) hu
      (h.scheduled_of (Frame.act h.toInv ha).trace hu))
    (ha.exited h.exited)

theorem with_frame (h : Sound k) (hF : Frame P k k') (hI : Inv k')
    (hm : ∀ p, ∀ t ∈ (k'.process p).threads, t ∈ (k.process p).threads)
    (hq : ∀ cs, (k'.clientSession cs).threads = (k.clientSession cs).threads) (ht : k'.Terminal)
    (hw : Punctual k'.trace k'.thread) (hs : ¬ k'.Upset → k'.Scheduled) (he : k'.Exited) :
    Sound k' ∧ Frame P k k' :=
  ⟨h.of_frame hI hF (fun p t ht => .inl (hm p t ht)) (fun cs _ ht => .inl (hq cs ▸ ht)) ht hw hs he, hF⟩

/-- An event that has nothing to do with waits and exits. -/
theorem emit (h : Sound k) {o : Obs} (ho : o.waitless = true) :
    Sound { k with trace := k.trace ++ [o] } where
  toInv := { h.toInv with }
  members := h.members
  queued := h.queued
  terminal := h.terminal.emit fun _ _ heq => by
    rw [heq] at ho
    exact Bool.false_ne_true ho
  punctual := h.punctual.emit ho
  scheduled hu := (h.scheduled (mt (·.mono (List.prefix_append _ _)) hu)).same rfl (fun _ => id)
    (fun _ => ⟨rfl, rfl⟩) (fun _ => ⟨rfl, rfl⟩) rfl
  exited := h.exited.back (List.prefix_append _ _) fun _ hk hs => ⟨hk, hs⟩

theorem acts {c c' : Config} (h : Sound c.1) (ha : (account P).Acts c c') : Sound c'.1 := by
  induction ha with
  | refl => exact h
  | tail _ ha ih => exact ih.act ha

end Sound

theorem Fault.not_observing {e : Exception} {c : Config} (h : Fault e c) :
    e ∉ Exception.observing := by
  cases h with
  | other h =>
    intro he
    refine h ?_
    simp only [Exception.observing, Exception.asserted, List.mem_cons] at he ⊢
    tauto
  | _ => decide

theorem not_observing_of_asserted {e : Exception} (h : e ∉ Exception.asserted) :
    e ∉ Exception.observing :=
  (Fault.other (c := ({}, .idle)) h).not_observing

/-! ## Rules -/

theorem Keeping.mono (h : Keeping T k x s Q) (hle : ∀ t, T t → T' t)
    (hQ : ∀ a k', Sound k' → Frame (.acting T) k k' → k'.locals = k.locals → Q a k' → Q' a k') :
    Keeping T' k x s Q' :=
  Ends.mono h
    (fun _ _ ⟨hS, hF, hl, hq⟩ => ⟨hS, hF.mono (Powers.acting_le hle), hl, hQ _ _ hS hF hl hq⟩)
    (fun _ _ h => h)

/-- What happened up to `k'` is over. -/
theorem keep_since (hF : Frame (.acting T) k k') (hl : k'.locals = k.locals)
    (h : Keeping T k' x s Q) : Keeping T k x s Q :=
  Ends.mono h (fun _ _ ⟨hS', hF', hl', hq⟩ => ⟨hS', hF.trans hF', hl'.trans hl, hq⟩) (fun _ _ h => h)

/-- Code that starts where the invariant is known again. -/
theorem keep_move (hF : Frame (.acting T) k s) (hl : s.locals = k.locals) (h : Keeps T x s Q) :
    Keeping T k x s Q := keep_since hF hl h

/-- A change that leads to the state of the program. -/
theorem keep_act (hS : Sound k) (ha : Act P (k, g) (s, g')) (hP : P.Le (.acting T))
    (hl : s.locals = k.locals) (h : Sound s → Frame (.acting T) k s → Keeping T s x s Q) :
    Keeping T k x s Q :=
  have hF : Frame (.acting T) k s := (Frame.act hS.toInv ha).mono hP
  keep_move hF hl (h (hS.act ha) hF)

/-- A call. -/
theorem keep_call (h : Keeps T' x k Q) (hle : ∀ t, T' t → T t)
    (hf : ∀ a k', Sound k' → Frame (.acting T') k k' → k'.locals = k.locals → Q a k' →
      Keeping T k' (f a) k' R) : Keeping T k (x >>= f) k R :=
  Ends.bind h fun _ _ ⟨hS, hF, hl, hq⟩ =>
    keep_move (hF.mono (Powers.acting_le hle)) hl (hf _ _ hS hF hl hq)

theorem keep_done {a : α} (hS : Sound k) (h : Q a k) : Keeps T (pure a) k Q :=
  ⟨hS, .refl k, rfl, h⟩

theorem keep_fail {e : Exception} (h : e ∉ Exception.observing) :
    Keeping T k (throw e : KM α) s Q := h

theorem keep_last {u : Kernel → Kernel} {Q : Unit → Kernel → Prop}
    (h : Keeping T k (pure ()) (u s) Q) : Keeping T k (modify u) s Q := h

/-- Code that is accounted for in some phase. -/
theorem keep_does (hS : Sound k) (hP : P.Le (.acting T)) {Q : α → Kernel → Phase → Prop}
    (h : Does P x k g Q) : Keeps T x k (fun a k' => ∃ g', Q a k' g') :=
  Ends.mono h
    (fun _ _ ⟨g', ha, hl, hq⟩ => ⟨hS.acts ha, (Frame.acts hS.toInv ha).mono hP, hl, g', hq⟩)
    (fun _ _ ⟨_, _, _, hf⟩ => hf.not_observing)

theorem keep_validate {b : Bool} {condition : String} {f : Unit → KM β}
    (h : b = true → Keeping T k (f ()) s R)
    (hc : .contractViolated condition ∉ Exception.observing) :
    Keeping T k (KM.validate b condition >>= f) s R := by
  cases b with
  | true => exact h rfl
  | false => exact hc

theorem Sound.held (h : Sound k) (hr : k.dead r = false) :
    Sound { k with locals := r :: k.locals } := by
  have ha : Act .base (k, .idle) ({ k with locals := r :: k.locals }, .idle) := .hold hr
  exact h.act ha

theorem Sound.released (h : Sound k) : Sound { k with locals := k.locals.erase r } := by
  have ha : Act .base (k, .idle) ({ k with locals := k.locals.erase r }, .idle) := .release
  exact h.act ha

/-- Code that holds a reference. -/
theorem keep_holding (hS : Sound k) (hr : k.dead r = false)
    (h : Sound { k with locals := r :: k.locals } → Keeps T x { k with locals := r :: k.locals }
      (fun a k' => Q a { k' with locals := k.locals })) : Keeps T (KM.holding r x) k Q := by
  unfold KM.holding
  simp only [ends_modify]
  refine Ends.bind (h (hS.held hr)) ?_
  rintro a s ⟨hS', hF, hl, hq⟩
  have hs : s.locals.erase r = k.locals := by rw [hl, List.erase_cons_head]
  simp only [ends_modify, ends_pure, hs]
  refine ⟨hs ▸ hS'.released, ?_, trivial, hq⟩
  exact { hF with }

/-- The same in the middle of a program. -/
theorem keep_held (hS : Sound k) (hr : k.dead r = false)
    (h : Sound { k with locals := r :: k.locals } →
      Keeps T x { k with locals := r :: k.locals } (fun _ _ => True))
    (hf : ∀ a k', Sound k' → Keeping T k' (f a) k' R) : Keeping T k (KM.holding r x >>= f) k R :=
  have hheld : Keeps T (KM.holding r x) k (fun _ _ => True) := keep_holding hS hr h
  keep_call hheld (fun _ => id) fun a _ hS' _ _ _ => hf a _ hS'

theorem keep_findObject {failExpected : Bool} {f : Option Ref → KM β}
    (h : ∀ r, (∀ x ∈ r, s.lookup t handle = some x ∧ type (s.kind x) = true) →
      Keeping T k (f r) s R) : Keeping T k (findObject t handle type failExpected >>= f) s R := by
  refine Ends.bind (Ends.mono findObject_ends (fun _ _ h => h)
    fun _ _ h => not_observing_of_asserted h.2) ?_
  rintro r _ ⟨rfl, hr⟩
  exact h r hr

theorem keep_getObject {f : Ref → KM β}
    (h : ∀ r, s.lookup t handle = some r → type (s.kind r) = true → Keeping T k (f r) s R) :
    Keeping T k (getObject t handle type >>= f) s R := by
  refine Ends.bind (Ends.mono getObject_ends (fun _ _ h => h)
    fun _ _ h => not_observing_of_asserted h.2) ?_
  rintro r _ ⟨rfl, hr, hk⟩
  exact h r hr hk

end Mikage
