import Mikage.OS.Acts

/-!
# Acquiring an object

What `tryAcquireImpl` does for each class: `Effect` if it succeeds, `Unripe` if it does not.
-/

namespace Mikage

namespace Kernel

/-- `s` can be acquired and does not change when it is. -/
def Ripe (k : Kernel) (s t : Ref) : Prop :=
  match k.kind s with
  | .thread => (k.thread s).status = .stopped
  | .process => (∀ t ∈ (k.process s).threads, (k.thread t).status = .stopped) ∧
      (k.process s).status ≠ .created
  | .serverPort => (k.serverPort s).sessionQueue ≠ []
  | .serverSession => k.lock (k.session (k.serverSession s).session).client = none
  | .clientPort => ∃ server, k.lock (k.port (k.clientPort s).port).server = some server ∧
      (k.serverPort server).availableSessions ≠ 0
  | .clientSession => t ∉ (k.clientSession s).threads
  | .event => (k.event s).signalled = true ∧ (k.event s).type = .sticky
  | .timer => (k.timer s).expired k.now = true ∧ (k.timer s).type = .sticky
  | .dmaObject => True
  | .mutex | .semaphore | .none | .port | .session | .addressArbiter | .other => False

/-- `s` cannot be acquired by `t`. -/
def Unripe (k : Kernel) (s t : Ref) : Prop :=
  match k.kind s with
  | .thread => (k.thread s).status ≠ .stopped
  | .process => ¬ ((∀ t ∈ (k.process s).threads, (k.thread t).status = .stopped) ∧
      (k.process s).status ≠ .created)
  | .serverPort => (k.serverPort s).sessionQueue = []
  | .serverSession => k.lock (k.session (k.serverSession s).session).client ≠ none ∧
      (k.serverSession s).ipcCommandsPending = 0
  | .clientPort => ∃ server, k.lock (k.port (k.clientPort s).port).server = some server ∧
      (k.serverPort server).availableSessions = 0
  | .clientSession => t ∈ (k.clientSession s).threads
  | .mutex => (k.mutex s).lockCount ≠ 0 ∧ ∃ owner, k.lock (k.mutex s).owner = some owner ∧ owner ≠ t
  | .semaphore => (k.semaphore s).availableCount = 0
  | .event => (k.event s).signalled = false
  | .timer => (k.timer s).expired k.now = false
  | .dmaObject | .none | .port | .session | .addressArbiter | .other => False

end Kernel

/-- What acquiring `s` does to it. -/
inductive Effect (k : Kernel) (s t : Ref) : Kernel → Prop where
  | same : k.Ripe s t → Effect k s t k
  | claimed {cs : Ref} : k.kind s = .serverSession →
      k.lock (k.session (k.serverSession s).session).client = some cs →
      (k.serverSession s).ipcCommandsPending ≠ 0 → Effect k s t
      { k with
        serverSession := k.serverSession.modify s (fun ss =>
          { ss with ipcCommandsPending := ss.ipcCommandsPending - 1 })
        trace := k.trace ++ [.claimed t s] }
  | locked : k.kind s = .mutex →
      ((k.mutex s).lockCount = 0 ∨ k.lock (k.mutex s).owner = some t) → Effect k s t
      { k with
        mutex := k.mutex.set s ⟨((k.mutex s).lockCount + 1) % 2 ^ 32, some t⟩
        trace := k.trace ++ (if (k.mutex s).lockCount + 1 = 2 ^ 32 then [.overflow s] else []) }
  | counted : k.kind s = .semaphore → 0 < (k.semaphore s).availableCount → Effect k s t
      { k with semaphore := k.semaphore.modify s (fun sema =>
          { sema with availableCount := sema.availableCount - 1 }) }
  | reset : k.kind s = .event → (k.event s).signalled = true → (k.event s).type = .oneShot →
      Effect k s t
      { k with event := k.event.modify s (fun event => { event with signalled := false }) }
  | fired {timer : Timer} : k.kind s = .timer → (k.timer s).expired k.now = true →
      Effect k s t { k with timer := k.timer.modify s (fun _ => timer) }

variable {k k₁ : Kernel} {s t : Ref}

theorem lockMutex_ends {E : Exception → Kernel → Prop} :
    Ends (lockMutex s t) k (fun b k₁ => b = true ∧ k₁ =
      { k with
        mutex := k.mutex.set s ⟨((k.mutex s).lockCount + 1) % 2 ^ 32, some t⟩
        trace := k.trace ++ (if (k.mutex s).lockCount + 1 = 2 ^ 32 then [.overflow s] else []) })
      E := by
  simp only [lockMutex, ends_get]
  apply Ends.split
  · intro h
    simp [KM.emit, h]
  · intro h
    refine ⟨rfl, ?_⟩
    rw [if_neg h, List.append_nil]

/-- How `tryAcquireImpl` ends. -/
theorem tryAcquireImpl_ends : Ends (tryAcquireImpl s t) k
    (fun b k₁ => if b then Effect k s t k₁ else k₁ = k ∧ k.Unripe s t)
    (fun e k₁ => k₁ = k ∧ e ∉ Exception.asserted) := by
  simp only [tryAcquireImpl, ends_get]
  cases hk : k.kind s with
  | none | port | session | addressArbiter | other => simp [Exception.asserted]
  | thread =>
    exact Ends.bool (fun h => .same (by simpa [Kernel.Ripe, hk] using h))
      (fun h => ⟨rfl, by simpa [Kernel.Unripe, hk] using h⟩)
  | process =>
    exact Ends.bool (fun h => .same (by simpa [Kernel.Ripe, hk] using h))
      (fun h => ⟨rfl, by simpa [Kernel.Unripe, hk] using h⟩)
  | serverPort =>
    exact Ends.bool (fun h => .same (by simpa [Kernel.Ripe, hk] using h))
      (fun h => ⟨rfl, by simpa [Kernel.Unripe, hk] using h⟩)
  | clientPort =>
    simp only
    split
    next => simp [Exception.asserted]
    next server hs =>
      exact Ends.bool (fun h => .same (by simpa [Kernel.Ripe, hk, hs] using h))
        (fun h => ⟨rfl, by simpa [Kernel.Unripe, hk, hs] using h⟩)
  | serverSession =>
    simp only
    split
    next hs => exact .same (by simpa [Kernel.Ripe, hk] using hs)
    next cs hs =>
      apply Ends.split
      · intro h
        exact Effect.claimed hk hs h
      · intro h
        exact ⟨rfl, by simpa [Kernel.Unripe, hk, hs] using h⟩
  | clientSession =>
    exact Ends.bool (fun h => .same (by simpa [Kernel.Ripe, hk] using h))
      (fun h => ⟨rfl, by simpa [Kernel.Unripe, hk] using h⟩)
  | mutex =>
    simp only
    apply Ends.split
    · intro h
      split
      next => simp [Exception.asserted]
      next owner ho =>
        apply Ends.split
        · intro hne
          exact ⟨rfl, by simp [Kernel.Unripe, hk, ho, h, hne]⟩
        · intro heq
          rw [not_not] at heq
          refine lockMutex_ends.mono ?_ (fun _ _ h => h)
          rintro b k₁ ⟨rfl, rfl⟩
          exact .locked hk (.inr (heq ▸ ho))
    · intro h
      refine lockMutex_ends.mono ?_ (fun _ _ h => h)
      rintro b k₁ ⟨rfl, rfl⟩
      exact .locked hk (.inl (not_not.1 h))
  | semaphore =>
    by_cases hpos : (k.semaphore s).availableCount ≥ 0
    · simp only [KM.validate, hpos, decide_true, if_true, ends_pure_bind]
      apply Ends.split
      · intro h
        exact ⟨rfl, by simpa [Kernel.Unripe, hk] using h⟩
      · intro h
        exact Effect.counted hk (by omega)
    · simp [KM.validate, hpos, Exception.asserted]
  | event =>
    apply Ends.split
    · intro h
      exact ⟨rfl, by simpa [Kernel.Unripe, hk] using h⟩
    · intro h
      have hs : (k.event s).signalled = true := by simpa using h
      cases ht : (k.event s).type with
      | oneShot => exact Effect.reset hk hs ht
      | sticky => exact .same (by simp [Kernel.Ripe, hk, hs, ht])
      | pulse => simp [Exception.asserted]
  | timer =>
    apply Ends.split
    · intro h
      exact ⟨rfl, by simpa [Kernel.Unripe, hk] using h⟩
    · intro h
      have hs : (k.timer s).expired k.now = true := by simpa using h
      cases ht : (k.timer s).type with
      | oneShot => exact Effect.fired hk hs
      | sticky => exact .same (by simp [Kernel.Ripe, hk, hs, ht])
      | pulse => exact Effect.fired hk hs
  | dmaObject => exact .same (by simp [Kernel.Ripe, hk])

theorem Kernel.Takes.effect (h : k.Takes s t k₁) : Effect k s t k₁ := tryAcquireImpl_ends.ok h

theorem Kernel.Fails.unripe (h : k.Fails s t) : k.Unripe s t := (tryAcquireImpl_ends.ok h).2

theorem Kernel.fails_iff : k.Fails s t ↔ k.Unripe s t := by
  refine ⟨Kernel.Fails.unripe, fun h => ?_⟩
  have hends : Ends (tryAcquireImpl s t) k (fun b k₁ => b = false ∧ k₁ = k) (fun _ _ => False) := by
    simp only [tryAcquireImpl, ends_get]
    unfold Kernel.Unripe at h
    cases hk : k.kind s <;> simp only [hk] at h ⊢
    case mutex =>
      obtain ⟨hlock, owner, ho, hne⟩ := h
      simp [ho, hlock, hne]
    case serverSession =>
      obtain ⟨hcs, hp⟩ := h
      obtain ⟨cs, hcs⟩ := Option.ne_none_iff_exists'.1 hcs
      simp [hcs, hp]
    case clientPort =>
      obtain ⟨server, hs, ha⟩ := h
      simp [hs, ha]
    case process => simpa using h
    all_goals simp_all [KM.validate]
  unfold Kernel.Fails
  cases hx : tryAcquireImpl s t k with
  | ok b k₁ =>
    obtain ⟨rfl, rfl⟩ := hends.ok hx
    rfl
  | error e k₁ => exact absurd hx (fun hx => hends.error hx)

/-- What acquiring leaves alone. -/
theorem Effect.shape (h : Effect k s t k₁) :
    ∃ serverSession mutex semaphore event timer obs, k₁ =
      { k with serverSession := serverSession, mutex := mutex, semaphore := semaphore,
               event := event, timer := timer, trace := k.trace ++ obs } ∧
      (∀ r, (serverSession r).session = (k.serverSession r).session ∧
        (serverSession r).port = (k.serverSession r).port) ∧
      ∀ o ∈ obs, o = .claimed t s ∨ o = .overflow s := by
  cases h with
  | same =>
    exact ⟨k.serverSession, k.mutex, k.semaphore, k.event, k.timer, [], by rw [List.append_nil],
      fun _ => ⟨rfl, rfl⟩, by simp⟩
  | claimed =>
    exact ⟨_, _, _, _, _, _, rfl, fun r => ⟨Store.view_modify ServerSession.session _ _ rfl r,
      Store.view_modify ServerSession.port _ _ rfl r⟩, by simp⟩
  | locked =>
    refine ⟨_, _, _, _, _, _, rfl, fun _ => ⟨rfl, rfl⟩, fun o ho => .inr ?_⟩
    split at ho <;> simp_all
  | counted =>
    exact ⟨k.serverSession, k.mutex, _, k.event, k.timer, [], by rw [List.append_nil],
      fun _ => ⟨rfl, rfl⟩, by simp⟩
  | reset =>
    exact ⟨k.serverSession, k.mutex, k.semaphore, _, k.timer, [], by rw [List.append_nil],
      fun _ => ⟨rfl, rfl⟩, by simp⟩
  | fired =>
    exact ⟨k.serverSession, k.mutex, k.semaphore, k.event, _, [], by rw [List.append_nil],
      fun _ => ⟨rfl, rfl⟩, by simp⟩

end Mikage
