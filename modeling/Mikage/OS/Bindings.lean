import Mikage.OS.Handles

/-!
# Interrupt bindings

Only `SVCBindInterrupt` writes the bindings, only events go in, and none is taken back; an event has
one of the two reset types `SVCCreateEvent` lets through. `KeepsBindings` says so of kernel code,
and that a null event is dereferenced only where one that is bound has been destroyed. It is a
class, so that the code of a system call is looked through by instance search, down to the calls
that write events.
-/

namespace Mikage

open KM

set_option synthInstance.maxSize 1000

namespace Kernel

/-- What is bound to an interrupt is an event, and no event is a pulse. -/
structure Bindings (k : Kernel) : Prop where
  type : ∀ s, (k.event s).type ≠ .pulse
  fresh : ∀ s, k.kind s = .event → s < k.next
  bound : ∀ index, ∀ s ∈ k.boundInterrupts index, k.kind s = .event

/-- An event that has been destroyed is bound to an interrupt. -/
def BindsDestroyed (k : Kernel) : Prop := ∃ index, ∃ s ∈ k.boundInterrupts index, k.dead s = true

/-- Every binding of `k` is one of `k'`. -/
def BindsMore (k k' : Kernel) : Prop :=
  ∀ index, k.boundInterrupts index <+: k'.boundInterrupts index

theorem BindsMore.refl (k : Kernel) : k.BindsMore k := fun _ => List.prefix_refl _

theorem BindsMore.trans {k k₁ k' : Kernel} (h : k.BindsMore k₁) (h' : k₁.BindsMore k') :
    k.BindsMore k' := fun index => (h index).trans (h' index)

end Kernel

/-- What `NotifyInterrupt` runs into. -/
def lockedObserver : Exception := .nullPointer "locked_observer"

/-- An exception other than that of `NotifyInterrupt`. -/
class Exception.Elsewhere (e : Exception) : Prop where
  ne : e ≠ lockedObserver

instance {condition : String} : (Exception.contractViolated condition).Elsewhere := ⟨nofun⟩
instance {what : String} : (Exception.runtimeError what).Elsewhere := ⟨nofun⟩
instance {what : String} : (Exception.invalid what).Elsewhere := ⟨nofun⟩
instance {what : String} : (Exception.badCast what).Elsewhere := ⟨nofun⟩
instance : (Exception.nullPointer "parent_process").Elsewhere := ⟨by decide⟩
instance : (Exception.nullPointer "next_thread").Elsewhere := ⟨by decide⟩
instance : (Exception.nullPointer "server_port").Elsewhere := ⟨by decide⟩
instance : (Exception.nullPointer "process->threads.front()").Elsewhere := ⟨by decide⟩
instance : (Exception.nullPointer "FindObject").Elsewhere := ⟨by decide⟩

/-- Kernel code run in `k` only binds events and makes no pulse. -/
def KeepsBindingsAt {α : Type} (x : KM α) (k : Kernel) : Prop :=
  Ends x k (fun _ k' => k'.Bindings ∧ k.BindsMore k') fun e k' =>
    e = lockedObserver → k'.BindsDestroyed

class KeepsBindings {α : Type} (x : KM α) : Prop where
  ends : ∀ k, k.Bindings → KeepsBindingsAt x k

namespace KeepsBindingsAt

variable {α β : Type} {x : KM α} {f : α → KM β} {k : Kernel}

theorem of [h : KeepsBindings x] (hk : k.Bindings) : KeepsBindingsAt x k := h.ends k hk

theorem bind (hx : KeepsBindingsAt x k)
    (hf : ∀ a k', k'.Bindings → k.BindsMore k' → KeepsBindingsAt (f a) k') :
    KeepsBindingsAt (x >>= f) k := by
  refine Ends.bind hx fun a k₁ h₁ => ?_
  exact (hf a k₁ h₁.1 h₁.2).mono (fun _ _ h => ⟨h.1, h₁.2.trans h.2⟩) fun _ _ h => h

theorem set_state {k' : Kernel} (hk' : k'.Bindings)
    (hbound : k'.boundInterrupts = k.boundInterrupts) :
    KeepsBindingsAt (set k' : KM PUnit) k := ⟨hk', fun _ => hbound ▸ List.prefix_refl _⟩

/-- A state that binds what `k` does is written. -/
theorem set_bind {k' : Kernel} {f : PUnit → KM β} (hk' : k'.Bindings)
    (hbound : k'.boundInterrupts = k.boundInterrupts) (hf : KeepsBindings (f ⟨⟩)) :
    KeepsBindingsAt (set k' >>= f) k := by
  exact bind (set_state hk' hbound) fun _ _ hk₁ _ => hf.ends _ hk₁

theorem throw_bind {e : Exception} [he : e.Elsewhere] {f : α → KM β} :
    KeepsBindingsAt ((throw e : KM α) >>= f) k := fun h => absurd h he.ne

theorem validate_bind {b : Bool} {condition : String} {f : PUnit → KM β}
    (hf : KeepsBindingsAt (f ⟨⟩) k) : KeepsBindingsAt (validate b condition >>= f) k := by
  cases b with
  | true => exact hf
  | false => exact throw_bind (e := .contractViolated condition)

end KeepsBindingsAt

namespace KeepsBindings

variable {α β : Type} {x : KM α} {f : α → KM β}

theorem bind (hx : KeepsBindings x) (hf : ∀ a, KeepsBindings (f a)) : KeepsBindings (x >>= f) :=
  ⟨fun k hk => (hx.ends k hk).bind fun a k' hk' _ => (hf a).ends k' hk'⟩

/-- Code that reads the state and goes on with it. -/
theorem get_bind {f : Kernel → KM β} (hf : ∀ k, k.Bindings → KeepsBindingsAt (f k) k) :
    KeepsBindings (get >>= f) := ⟨hf⟩

theorem throw_bind {e : Exception} [e.Elsewhere] {f : α → KM β} :
    KeepsBindings ((throw e : KM α) >>= f) := ⟨fun _ _ => KeepsBindingsAt.throw_bind⟩

/-- An update that leaves the bindings alone. -/
theorem update {u : Kernel → Kernel} (hu : ∀ k, k.Bindings → (u k).Bindings)
    (hbound : ∀ k, (u k).boundInterrupts = k.boundInterrupts) :
    KeepsBindings (modify u : KM PUnit) :=
  ⟨fun k hk => ⟨hu k hk, fun _ => (hbound k).symm ▸ List.prefix_refl _⟩⟩

instance [KeepsBindings x] [∀ a, KeepsBindings (f a)] : KeepsBindings (x >>= f) :=
  bind inferInstance inferInstance

instance {a : α} : KeepsBindings (pure a : KM α) := ⟨fun k hk => ⟨hk, .refl k⟩⟩

instance {e : Exception} [he : e.Elsewhere] : KeepsBindings (throw e : KM α) :=
  ⟨fun _ _ h => absurd h he.ne⟩

instance : KeepsBindings (get : KM Kernel) := ⟨fun k hk => ⟨hk, .refl k⟩⟩

instance {c : Prop} [Decidable c] {y : KM α} [hx : KeepsBindings x] [hy : KeepsBindings y] :
    KeepsBindings (if c then x else y) := by
  split
  · exact hx
  · exact hy

/-- An update of anything else. -/
instance (dead : Kernel → Store Bool) (observers : Kernel → Store (List Ref))
    (thread : Kernel → Store Thread) (process : Kernel → Store Process)
    (mutex : Kernel → Store Mutex) (semaphore : Kernel → Store Semaphore)
    (timer : Kernel → Store Timer) (serverPort : Kernel → Store ServerPort)
    (clientPort : Kernel → Store ClientPort) (port : Kernel → Store Port)
    (session : Kernel → Store Session) (serverSession : Kernel → Store ServerSession)
    (clientSession : Kernel → Store ClientSession) (tls : Kernel → Store (Store Word))
    (threads readyQueue waitingQueue activeTimers : Kernel → List Ref)
    (ports : Kernel → List (String × Ref)) (processHandles : Kernel → List Ref)
    (systemTick : Kernel → Nat) (locals : Kernel → List Ref) (trace : Kernel → List Obs) :
    KeepsBindings (modify fun k => { k with
      dead := dead k, observers := observers k, thread := thread k, process := process k,
      mutex := mutex k, semaphore := semaphore k, timer := timer k, serverPort := serverPort k,
      clientPort := clientPort k, port := port k, session := session k,
      serverSession := serverSession k, clientSession := clientSession k, tls := tls k,
      threads := threads k, readyQueue := readyQueue k, waitingQueue := waitingQueue k,
      activeTimers := activeTimers k, ports := ports k, processHandles := processHandles k,
      systemTick := systemTick k, locals := locals k, trace := trace k } : KM PUnit) :=
  update (fun _ hk => ⟨hk.type, hk.fresh, hk.bound⟩) fun _ => rfl

end KeepsBindings

open KeepsBindings

variable {α : Type} {env : Env} {k : Kernel} {s t p r : Ref} {handle : Handle}

/-! ## The parts of the kernel -/

instance {o : Obs} : KeepsBindings (emit o) := by unfold emit; infer_instance

instance {f : Thread → Thread} : KeepsBindings (modifyThread t f) := by
  unfold modifyThread; infer_instance

instance {f : Process → Process} : KeepsBindings (modifyProcess p f) := by
  unfold modifyProcess; infer_instance

instance {b : Bool} {condition : String} : KeepsBindings (validate b condition) := by
  unfold validate; infer_instance

instance {x : KM α} [KeepsBindings x] : KeepsBindings (holding r x) := by
  unfold holding; infer_instance

theorem KeepsBindings.held {x : KM α} (hx : KeepsBindings x) : KeepsBindings (holding r x) :=
  inferInstance

@[instance] theorem collectWithin_keepsBindings : ∀ n, KeepsBindings (collectWithin n)
  | 0 => inferInstanceAs (KeepsBindings (pure ()))
  | n + 1 => by
    have := collectWithin_keepsBindings n
    unfold collectWithin
    refine .bind inferInstance fun k => ?_
    split
    · infer_instance
    · unfold destroy
      infer_instance

instance : KeepsBindings collect := by
  unfold collect
  infer_instance

instance {type : Kind → Bool} {failExpected : Bool} :
    KeepsBindings (findObject t handle type failExpected) := by
  unfold findObject
  refine .bind inferInstance fun k => ?_
  split <;> infer_instance

instance {type : Kind → Bool} : KeepsBindings (getObject t handle type) := by
  unfold getObject
  refine .bind inferInstance fun r => ?_
  split <;> infer_instance

instance {o : Option Ref} : KeepsBindings (setEntry p handle o) := by
  unfold setEntry
  refine .bind inferInstance fun k => ?_
  split <;> infer_instance

instance : KeepsBindings (createHandle p r) := by unfold createHandle; infer_instance

instance : KeepsBindings (createHandleFor t r) := by unfold createHandleFor; infer_instance

instance {o : Option Ref} : KeepsBindings (setCurrentThread p o) := by
  unfold setCurrentThread; infer_instance

theorem Kernel.Bindings.new (hk : k.Bindings) (kind : Kind) :
    Kernel.Bindings { k with next := k.next + 1, kind := k.kind.set k.next kind } where
  type := hk.type
  fresh s hs := by
    rw [Store.get_set] at hs
    split at hs
    next h => exact h ▸ Nat.lt_succ_self _
    next => exact Nat.lt_succ_of_lt (hk.fresh s hs)
  bound index s hs := by
    have hev := hk.bound index s hs
    rw [Store.get_set, if_neg (hk.fresh s hev).ne]
    exact hev

instance {kind : Kind} : KeepsBindings (newObject kind) :=
  ⟨fun k hk => ⟨hk.new kind, .refl k⟩⟩

instance {time period : Nat} : KeepsBindings (runTimer s time period) := by
  unfold runTimer; infer_instance

instance : KeepsBindings (lockMutex s t) := by unfold lockMutex; infer_instance

/-- An event that is written keeps its type. -/
theorem Kernel.Bindings.write (hk : k.Bindings) {f : Event → Event}
    (hf : (f (k.event s)).type ≠ .pulse) :
    Kernel.Bindings { k with event := k.event.modify s f } where
  type r := by
    rw [Store.get_modify]
    split
    next h => exact h ▸ hf
    next => exact hk.type r
  fresh := hk.fresh
  bound := hk.bound

instance : KeepsBindings (tryAcquireImpl s t) := by
  unfold tryAcquireImpl
  refine get_bind fun k hk => ?_
  split
  case h_4 =>
    split
    · exact .of hk
    · split
      · exact .set_bind ⟨hk.type, hk.fresh, hk.bound⟩ rfl inferInstance
      · exact .of hk
  case h_5 => split <;> exact .of hk
  case h_7 =>
    split
    · split <;> exact .of hk
    · exact .of hk
  case h_8 =>
    refine .validate_bind ?_
    split
    · exact .of hk
    · exact .set_bind ⟨hk.type, hk.fresh, hk.bound⟩ rfl inferInstance
  case h_9 =>
    split
    · exact .of hk
    · split
      · exact .set_bind (hk.write (hk.type s)) rfl inferInstance
      · exact .of hk
      · exact .of hk
  case h_10 =>
    split
    · exact .of hk
    · split
      · exact .set_bind ⟨hk.type, hk.fresh, hk.bound⟩ rfl inferInstance
      · exact .of hk
      · exact .of hk
  all_goals exact .of hk

instance : KeepsBindings (registerObserver s t) := by unfold registerObserver; infer_instance

instance : KeepsBindings (unregister s t) := by unfold unregister; infer_instance

@[instance] theorem unregisterAll_keepsBindings : ∀ l, KeepsBindings (unregisterAll t l)
  | [] => inferInstanceAs (KeepsBindings (pure ()))
  | s :: l => by
    have := unregisterAll_keepsBindings l
    unfold unregisterAll
    infer_instance

instance : KeepsBindings (tryAcquire s t) := by unfold tryAcquire; infer_instance

instance : KeepsBindings (removeFromReadyQueue t) := by
  unfold removeFromReadyQueue; infer_instance

instance : KeepsBindings (onResourceAcquired t s) := by
  unfold onResourceAcquired
  dsimp only
  infer_instance

@[instance] theorem onResourceReadyWithin_keepsBindings :
    ∀ n, KeepsBindings (onResourceReadyWithin n s)
  | 0 => inferInstanceAs (KeepsBindings (pure ()))
  | n + 1 => by
    have := onResourceReadyWithin_keepsBindings n
    unfold onResourceReadyWithin
    refine get_bind fun k hk => ?_
    split
    · exact .of hk
    · split
      · exact .set_bind ⟨hk.type, hk.fresh, hk.bound⟩ rfl inferInstance
      · exact .of hk

instance : KeepsBindings (onResourceReady s) := by
  unfold onResourceReady
  infer_instance

/-! ## Time -/

instance : KeepsBindings (signalEvent s) := by
  have : KeepsBindings (modify fun k => { k with
      event := k.event.modify s (fun event => { event with signalled := true }) } : KM PUnit) :=
    update (fun k hk => hk.write (hk.type s)) fun _ => rfl
  unfold signalEvent
  infer_instance

theorem signalBound_keepsBindings : ∀ {l : List Ref} {k : Kernel}, k.Bindings →
    (∀ s ∈ l, ∃ index, s ∈ k.boundInterrupts index) → KeepsBindingsAt (signalBound l) k
  | [], k, hk, _ => (KeepsBindingsAt.of hk : KeepsBindingsAt (pure ()) k)
  | s :: l, k, hk, hl => by
    unfold KeepsBindingsAt
    simp only [signalBound, ends_get]
    cases hd : k.dead s with
    | true =>
      obtain ⟨index, hs⟩ := hl s List.mem_cons_self
      exact fun _ => ⟨index, s, hs, hd⟩
    | false =>
      refine KeepsBindingsAt.bind (.of hk) fun _ k₁ hk₁ h₁ => .bind (.of hk₁) fun _ k₂ hk₂ h₂ =>
        signalBound_keepsBindings hk₂ fun r hr => ?_
      obtain ⟨index, hr⟩ := hl r (List.mem_cons_of_mem _ hr)
      exact ⟨index, ((h₁.trans h₂) index).subset hr⟩

instance {index : Nat} : KeepsBindings (notifyInterrupt index) :=
  get_bind fun _ hk => signalBound_keepsBindings hk fun _ hs => ⟨index, hs⟩

@[instance] theorem fireTimers_keepsBindings {ns : Nat} : ∀ l, KeepsBindings (fireTimers ns l)
  | [] => inferInstanceAs (KeepsBindings (pure ()))
  | s :: l => by
    have : KeepsBindings (fireTimers ns l) := fireTimers_keepsBindings l
    unfold fireTimers
    dsimp only
    infer_instance

instance : KeepsBindings (expire t) := by
  unfold expire
  dsimp only
  infer_instance

@[instance] theorem scanWaitingQueue_keepsBindings :
    ∀ kept l, KeepsBindings (scanWaitingQueue kept l)
  | _, [] => inferInstanceAs (KeepsBindings (pure ()))
  | kept, t :: l => by
    have := fun kept => scanWaitingQueue_keepsBindings kept l
    unfold scanWaitingQueue
    refine get_bind fun k hk => ?_
    split
    · exact .set_bind ⟨hk.type, hk.fresh, hk.bound⟩ rfl (this _)
    · exact .of hk

instance {ns : Nat} : KeepsBindings (elapseTime ns) := by
  unfold elapseTime
  dsimp only
  infer_instance

instance : KeepsBindings reschedule := by unfold reschedule; infer_instance

instance {status : ThreadStatus} {wait : Wait} : KeepsBindings (block s status wait) := by
  unfold block
  dsimp only
  infer_instance

instance {duration : Int} : KeepsBindings (svcSleepThread s duration) := by
  unfold svcSleepThread
  dsimp only
  infer_instance

@[instance] theorem registerHandles_keepsBindings : ∀ l, KeepsBindings (registerHandles s l)
  | [] => inferInstanceAs (KeepsBindings (pure ()))
  | handle :: l => by
    have := registerHandles_keepsBindings l
    unfold registerHandles
    infer_instance

@[instance] theorem acquireReady_keepsBindings {waitForAll : Bool} :
    ∀ n i, KeepsBindings (acquireReady s waitForAll n i)
  | 0, _ => inferInstanceAs (KeepsBindings (pure ()))
  | n + 1, i => by
    have : ∀ i, KeepsBindings (acquireReady s waitForAll n i) := acquireReady_keepsBindings n
    unfold acquireReady
    refine .bind inferInstance fun k => ?_
    split
    · infer_instance
    · dsimp only
      infer_instance

instance {handles : List Handle} {waitForAll : Bool} {timeout : Int} {waiter : Waiter} :
    KeepsBindings (svcWaitSynchronizationN s handles waitForAll timeout waiter) := by
  unfold svcWaitSynchronizationN
  refine .bind inferInstance fun _ => .bind inferInstance fun _ => .bind inferInstance fun _ => ?_
  split
  · infer_instance
  · dsimp only
    infer_instance

/-! ## The system calls -/

instance : KeepsBindings (svcBreak : KM α) := by unfold svcBreak; infer_instance

instance {priority : Nat} : KeepsBindings (spawnThread p priority) := by
  unfold spawnThread; infer_instance

instance {priority : Nat} : KeepsBindings (svcCreateThread s priority) := by
  unfold svcCreateThread
  dsimp only
  infer_instance

instance {priority : Nat} : KeepsBindings (svcSetThreadPriority s handle priority) := by
  unfold svcSetThreadPriority; infer_instance

instance {fake : Bool} : KeepsBindings (svcCreateProcess s fake) := by
  unfold svcCreateProcess; infer_instance

instance {priority : Nat} : KeepsBindings (svcRun s handle priority) := by
  unfold svcRun
  dsimp only
  infer_instance

instance : KeepsBindings (svcOpenProcess s p) := by unfold svcOpenProcess; infer_instance

instance : KeepsBindings (svcDuplicateHandle s handle) := by
  unfold svcDuplicateHandle; infer_instance

instance {lock : Bool} : KeepsBindings (svcCreateMutex s lock) := by
  unfold svcCreateMutex; infer_instance

instance : KeepsBindings (releaseMutex r) := by unfold releaseMutex; infer_instance

instance : KeepsBindings (svcReleaseMutex s handle) := by
  unfold svcReleaseMutex
  dsimp only
  infer_instance

instance {initialCount maxCount : Int} :
    KeepsBindings (svcCreateSemaphore s initialCount maxCount) := by
  unfold svcCreateSemaphore; infer_instance

instance {times : Int} : KeepsBindings (releaseSemaphore r times) := by
  unfold releaseSemaphore
  dsimp only
  infer_instance

instance {count : Int} : KeepsBindings (svcReleaseSemaphore s handle count) := by
  unfold svcReleaseSemaphore; infer_instance

/-- The one call that sets the type of an event breaks for a pulse. -/
instance {type : ResetType} : KeepsBindings (svcCreateEvent s type) := by
  unfold svcCreateEvent
  by_cases htype : type = .pulse
  · rw [if_pos htype]
    exact throw_bind
  · have : ∀ r, KeepsBindings (modify fun k => { k with
        event := k.event.set r { type := type } } : KM PUnit) :=
      fun r => update (fun k hk => hk.write (f := fun _ => { type := type }) htype) fun _ => rfl
    rw [if_neg htype]
    infer_instance

instance : KeepsBindings (svcSignalEvent s handle) := by
  unfold svcSignalEvent
  refine .bind inferInstance fun o => ?_
  split <;> infer_instance

instance : KeepsBindings (svcClearEvent s handle) := by
  have : ∀ r, KeepsBindings (modify fun k => { k with
      event := k.event.modify r (fun event => { event with signalled := false }) } : KM PUnit) :=
    fun r => update (fun k hk => hk.write (hk.type r)) fun _ => rfl
  unfold svcClearEvent
  refine .bind inferInstance fun o => ?_
  split <;> infer_instance

instance {type : ResetType} : KeepsBindings (svcCreateTimer s type) := by
  unfold svcCreateTimer; infer_instance

instance {initial period : Int} : KeepsBindings (svcSetTimer s handle initial period) := by
  unfold svcSetTimer
  dsimp only
  infer_instance

instance {kind : Kind} : KeepsBindings (svcCreateObject s kind) := by
  unfold svcCreateObject; infer_instance

/-- Only events are bound. -/
instance {index : Nat} : KeepsBindings (svcBindInterrupt s index handle) where
  ends k hk := by
    have hsafe : KeepsBindingsAt (getObject s handle (· = .event)) k := .of hk
    have hobject : Ends (getObject s handle (· = .event)) k
        (fun r k' => k' = k ∧ k.kind r = .event)
        (fun e k' => e = lockedObserver → k'.BindsDestroyed) := by
      have hends : Ends (getObject s handle (· = .event)) k _ _ := getObject_ends
      unfold Ends
      split
      next r k' hr =>
        obtain ⟨rfl, -, hkind⟩ := hends.ok hr
        exact ⟨rfl, by simpa using hkind⟩
      next e k' he => exact hsafe.error he
    unfold svcBindInterrupt
    refine hobject.bind ?_
    rintro r k₁ ⟨rfl, hr⟩
    have hbinds : KeepsBindingsAt (modify fun k => { k with
        boundInterrupts := k.boundInterrupts.modify index (· ++ [r]) } : KM PUnit) k₁ := by
      refine ⟨⟨hk.type, hk.fresh, fun i x hx => ?_⟩, fun i => ?_⟩
      · rw [Store.get_modify] at hx
        split at hx
        · rcases List.mem_append.1 hx with h | h
          · exact hk.bound _ x h
          · rw [List.mem_singleton.1 h]
            exact hr
        · exact hk.bound i x hx
      · show _ <+: (k₁.boundInterrupts.modify index (· ++ [r])) i
        rw [Store.get_modify]
        split
        · exact List.prefix_append ..
        · exact List.prefix_refl _
    exact hbinds.bind fun _ _ hk₁ _ => .of hk₁

instance : KeepsBindings svcGetSystemTick := by unfold svcGetSystemTick; infer_instance

instance {reschedules : Bool} : KeepsBindings (svcOther reschedules) := by
  unfold svcOther; infer_instance

@[instance] theorem wakeArbitrated_keepsBindings {address : BitVec 32} :
    ∀ l, KeepsBindings (wakeArbitrated address l)
  | [] => inferInstanceAs (KeepsBindings (pure ()))
  | t :: l => by
    have : KeepsBindings (wakeArbitrated address l) := wakeArbitrated_keepsBindings l
    unfold wakeArbitrated
    dsimp only
    infer_instance

instance {address value memoryValue : BitVec 32} {type : ArbitrationType} :
    KeepsBindings (svcArbitrateAddress env s address type value memoryValue) := by
  unfold svcArbitrateAddress
  refine .bind inferInstance fun _ => ?_
  split
  · dsimp only
    infer_instance
  · dsimp only
    infer_instance

/-! ## Handles and exits -/

instance : KeepsBindings (closeClientSession s) := by
  unfold closeClientSession
  refine .bind inferInstance fun _ => .bind inferInstance fun _ => .bind inferInstance fun _ => ?_
  split <;> infer_instance

instance : KeepsBindings (closeServerSession s) := by
  have : ∀ o : Option Ref, KeepsBindings (match o with
      | some clientPort => onResourceReady clientPort
      | none => pure ()) := by
    intro o
    cases o <;> infer_instance
  unfold closeServerSession
  refine .bind inferInstance fun _ => ?_
  split <;> infer_instance

instance : KeepsBindings (closeHandle s handle) := by
  unfold closeHandle
  dsimp only
  refine .bind inferInstance fun k => ?_
  split
  · exact throw_bind
  · split
    · infer_instance
    · refine .bind (.held ?_) fun _ => inferInstance
      split <;> infer_instance

instance : KeepsBindings (svcCloseHandle s handle) := by unfold svcCloseHandle; infer_instance

@[instance] theorem releaseOwned_keepsBindings : ∀ l, KeepsBindings (releaseOwned t l)
  | [] => inferInstanceAs (KeepsBindings (pure ()))
  | entry :: l => by
    have := releaseOwned_keepsBindings l
    unfold releaseOwned
    dsimp only
    infer_instance

instance : KeepsBindings (exitThread env t) := by
  unfold exitThread
  infer_instance

@[instance] theorem closeAllHandles_keepsBindings : ∀ n, KeepsBindings (closeAllHandles env t n)
  | 0 => inferInstanceAs (KeepsBindings (pure ()))
  | n + 1 => by
    have := closeAllHandles_keepsBindings n
    unfold closeAllHandles
    refine .bind inferInstance fun _ => ?_
    split <;> infer_instance

instance : KeepsBindings (triggerThreadDestruction env t) := by
  unfold triggerThreadDestruction
  dsimp only
  infer_instance

@[instance] theorem exitOthers_keepsBindings : ∀ n, KeepsBindings (exitOthers env s n)
  | 0 => inferInstanceAs (KeepsBindings (pure ()))
  | n + 1 => by
    have := exitOthers_keepsBindings n
    unfold exitOthers
    refine .bind inferInstance fun _ => ?_
    split <;> infer_instance

instance : KeepsBindings (svcExitProcess env s) := by
  unfold svcExitProcess
  infer_instance

instance : KeepsBindings (svcExitThread env s) := by unfold svcExitThread; infer_instance

@[instance] theorem exitThreads_keepsBindings : ∀ l, KeepsBindings (exitThreads env l)
  | [] => inferInstanceAs (KeepsBindings (pure ()))
  | t :: l => by
    have := exitThreads_keepsBindings l
    unfold exitThreads
    infer_instance

@[instance] theorem destroyThreads_keepsBindings : ∀ n, KeepsBindings (destroyThreads env p n)
  | 0 => inferInstanceAs (KeepsBindings (pure ()))
  | n + 1 => by
    have := destroyThreads_keepsBindings n
    unfold destroyThreads
    refine .bind inferInstance fun _ => ?_
    split <;> infer_instance

instance : KeepsBindings (svcTerminateProcess env s handle) := by
  have : ∀ p (l : List Ref), KeepsBindings (match l with
      | [] => throw (.nullPointer "process->threads.front()")
      | _ :: l => destroyThreads env p (l.length + 1)) := by
    intro p l
    cases l <;> infer_instance
  unfold svcTerminateProcess
  dsimp only
  infer_instance

/-! ## Ports, sessions and messages -/

instance {name : String} {maxSessions : Int} :
    KeepsBindings (svcCreatePort s name maxSessions) := by
  unfold svcCreatePort
  split
  · exact throw_bind
  · refine .bind inferInstance fun port => .bind inferInstance fun _ => .bind inferInstance fun _ =>
      .bind inferInstance fun _ => .bind inferInstance fun _ => .bind inferInstance fun _ =>
      get_bind fun k hk => ?_
    dsimp only
    split
    · exact .set_bind ⟨hk.type, hk.fresh, hk.bound⟩ rfl inferInstance
    · exact .of hk

instance : KeepsBindings (openSession s t) := by unfold openSession; infer_instance

instance {name : String} : KeepsBindings (svcConnectToPort s name) := by
  unfold svcConnectToPort
  refine .bind inferInstance fun _ => ?_
  split
  · infer_instance
  · split <;> infer_instance

instance : KeepsBindings (svcCreateSessionToPort s handle) := by
  unfold svcCreateSessionToPort
  refine .bind inferInstance fun _ => .bind inferInstance fun _ => ?_
  split <;> infer_instance

instance : KeepsBindings (svcCreateSession s) := by
  unfold svcCreateSession
  dsimp only
  infer_instance

instance : KeepsBindings (svcAcceptSession s handle) := by
  unfold svcAcceptSession
  refine .bind inferInstance fun _ => .bind inferInstance fun _ => ?_
  split
  · infer_instance
  · dsimp only
    infer_instance

instance {i : Nat} {w : Word} : KeepsBindings (writeTLS t i w) := by unfold writeTLS; infer_instance

@[instance] theorem clearWords_keepsBindings : ∀ l, KeepsBindings (clearWords t l)
  | [] => inferInstanceAs (KeepsBindings (pure ()))
  | i :: l => by
    have := clearWords_keepsBindings l
    unfold clearWords
    infer_instance

@[instance] theorem copyWords_keepsBindings : ∀ l, KeepsBindings (copyWords s t l)
  | [] => inferInstanceAs (KeepsBindings (pure ()))
  | i :: l => by
    have := copyWords_keepsBindings l
    unfold copyWords
    infer_instance

instance {close : Bool} {i : Nat} : KeepsBindings (translateHandle s t close i) := by
  unfold translateHandle
  dsimp only
  infer_instance

@[instance] theorem translateHandles_keepsBindings {close fillProcessId : Bool} :
    ∀ n i, KeepsBindings (translateHandles s t close fillProcessId n i)
  | 0, _ => inferInstanceAs (KeepsBindings (pure ()))
  | n + 1, i => by
    have : ∀ i, KeepsBindings (translateHandles s t close fillProcessId n i) :=
      translateHandles_keepsBindings n
    unfold translateHandles
    dsimp only
    infer_instance

@[instance] theorem translateParams_keepsBindings {isReply : Bool} {last : Nat} :
    ∀ n earlier i, KeepsBindings (translateParams env s t isReply last n earlier i)
  | 0, _, _ => inferInstanceAs (KeepsBindings (pure ()))
  | n + 1, earlier, i => by
    have : ∀ earlier i, KeepsBindings (translateParams env s t isReply last n earlier i) :=
      translateParams_keepsBindings n
    unfold translateParams
    split
    · infer_instance
    · refine .bind inferInstance fun _ => .bind inferInstance fun _ => ?_
      split
      · dsimp only
        infer_instance
      · infer_instance
      · split <;> infer_instance

instance {isReply : Bool} : KeepsBindings (translateIPCMessage env s t isReply) := by
  unfold translateIPCMessage
  dsimp only
  infer_instance

instance {callback : Callback} : KeepsBindings (runWhenReady t callback) := by
  unfold runWhenReady; infer_instance

instance : KeepsBindings (commandReady s) := by
  unfold commandReady
  dsimp only
  infer_instance

instance : KeepsBindings (sendWhenAccepted t s handle) := by
  unfold sendWhenAccepted
  refine .bind inferInstance fun _ => ?_
  split <;> infer_instance

instance : KeepsBindings (svcSendSyncRequest s handle) := by
  unfold svcSendSyncRequest
  refine .bind inferInstance fun _ => ?_
  split <;> infer_instance

instance : KeepsBindings (setReady s t) := by
  unfold setReady
  dsimp only
  infer_instance

instance : KeepsBindings (reply env s handle) := by
  unfold reply
  refine .bind inferInstance fun _ => .bind inferInstance fun _ => .bind inferInstance fun _ => ?_
  split
  · infer_instance
  · split
    · infer_instance
    · dsimp only
      infer_instance

instance : KeepsBindings (receive env t) := by
  unfold receive
  refine .bind inferInstance fun _ => ?_
  split
  · infer_instance
  · split
    · infer_instance
    · split
      · infer_instance
      · split
        · infer_instance
        · split
          · infer_instance
          · dsimp only
            infer_instance

instance {handles : List Handle} : KeepsBindings (svcReplyAndReceive env s handles handle) := by
  unfold svcReplyAndReceive
  dsimp only
  infer_instance

/-! ## Runs -/

@[instance] theorem Svc.call_keepsBindings (svc : Svc) : KeepsBindings (svc.call env t) := by
  cases svc <;> unfold Svc.call <;> infer_instance

@[instance] theorem HostCall.run_keepsBindings (call : HostCall) : KeepsBindings (call.run t) := by
  cases call with
  | interrupt => exact inferInstanceAs (KeepsBindings (notifyInterrupt _))
  | attachThread =>
    unfold HostCall.run
    dsimp only
    infer_instance
  | closeHandle => exact inferInstanceAs (KeepsBindings (svcCloseHandle _ _))
  | hold =>
    unfold HostCall.run
    infer_instance

@[instance] theorem raiseInterrupts_keepsBindings : ∀ l, KeepsBindings (raiseInterrupts l)
  | [] => inferInstanceAs (KeepsBindings (pure ()))
  | index :: l => by
    have := raiseInterrupts_keepsBindings l
    unfold raiseInterrupts
    infer_instance

@[instance] theorem runHost_keepsBindings : ∀ l, KeepsBindings (runHost t l)
  | [] => inferInstanceAs (KeepsBindings (pure ()))
  | call :: l => by
    have := runHost_keepsBindings l
    unfold runHost
    infer_instance

@[instance] theorem writeWords_keepsBindings : ∀ l, KeepsBindings (writeWords t l)
  | [] => inferInstanceAs (KeepsBindings (pure ()))
  | w :: l => by
    have := writeWords_keepsBindings l
    unfold writeWords
    infer_instance

instance {turn : Turn} : KeepsBindings (runThread env t turn) := by
  unfold runThread
  infer_instance

@[instance] theorem Callback.run_keepsBindings (callback : Callback) :
    KeepsBindings (callback.run env t) := by
  cases callback <;> unfold Callback.run <;> infer_instance

instance {turn : Turn} : KeepsBindings (dispatchThread env t turn) := by
  unfold dispatchThread
  dsimp only
  refine .bind inferInstance fun _ => .bind inferInstance fun _ => ?_
  split
  · exact throw_bind
  · refine .held (.bind inferInstance fun _ => .bind inferInstance fun _ =>
      .bind inferInstance fun _ => ?_)
    split
    · exact throw_bind
    · split <;> infer_instance

theorem dispatch_keepsBindings {turn : Turn} : KeepsBindings (dispatch env turn) := by
  unfold dispatch
  refine .bind inferInstance fun _ => get_bind fun k hk => ?_
  split
  · exact .of hk
  · split
    · exact .of hk
    · split
      · exact .of hk
      · split
        · exact .set_state ⟨hk.type, hk.fresh, hk.bound⟩ rfl
        · exact .of hk

theorem boot_bindings : boot.Bindings where
  type _ := by
    show (default : Event).type ≠ .pulse
    decide
  fresh s hs := by
    match s with
    | 0 | 1 => cases hs
    | _ + 2 => cases hs
  bound _ _ hs := nomatch hs

theorem Reached.bindings (h : Reached env k) : k.Bindings := by
  refine h.invariant (fun k₀ (hk : k₀ = boot) => hk ▸ boot_bindings) fun k₀ k₁ hb hstep => ?_
  obtain ⟨turn, hturn⟩ := hstep
  exact ((dispatch_keepsBindings.ends k₀ hb).ok hturn).1

end Mikage
