import Mikage.OS.Block

/-!
# Threads that have exited

`exitThread` is the only way a thread stops. No change of the kernel starts it again or puts it back
into the ready queue, except that the scan of the waiting queue makes every due thread ready, whatever
its status. Where that happens to a stopped thread, the trace says so.

- `Kernel.Revived`: the clock has made a stopped thread ready.
- `Kernel.Terminal`: any other thread that has exited is stopped.
-/

namespace Mikage

variable {P : Powers} {k k' : Kernel} {g g' : Phase} {t : Ref}

namespace Kernel

/-- A due entry of the waiting queue was taken whose thread had stopped. -/
def Revived (k : Kernel) (t : Ref) : Prop := .stale t .stopped ∈ k.trace

def Stopped (k : Kernel) (t : Ref) : Prop :=
  t < k.next ∧ (k.thread t).status = .stopped ∧ t ∉ k.readyQueue

/-- What has exited stays as it is. -/
def Terminal (k : Kernel) : Prop :=
  ∀ t sessions, .stopped t sessions ∈ k.trace → k.Revived t ∨ k.Stopped t

/-- A change that stops the threads it says, and nothing else happens to stopped threads. -/
theorem Terminal.change (h : k.Terminal) {obs : List Obs} (htrace : k'.trace = k.trace ++ obs)
    (hnext : k.next ≤ k'.next)
    (hstatus : ∀ t, t < k.next → (k.thread t).status = .stopped →
      k'.Revived t ∨ (k'.thread t).status = .stopped)
    (hqueue : ∀ t ∈ k'.readyQueue, t ∈ k.readyQueue ∨ k.next ≤ t ∨ (k.thread t).status ≠ .stopped ∨
      k'.Revived t)
    (hobs : ∀ t sessions, .stopped t sessions ∈ obs → k'.Stopped t) : k'.Terminal := by
  intro t sessions ht
  rw [htrace] at ht
  rcases List.mem_append.1 ht with ht | ht
  · rcases h t sessions ht with hr | ⟨hlt, hs, hq⟩
    · exact .inl (by
        unfold Revived
        rw [htrace]
        exact List.mem_append_left _ hr)
    · rcases hstatus t hlt hs with hr | hs'
      · exact .inl hr
      · by_cases hin : t ∈ k'.readyQueue
        · rcases hqueue t hin with h | h | h | h
          · exact absurd h hq
          · exact absurd hlt (Nat.not_lt.2 h)
          · exact absurd hs h
          · exact .inl h
        · exact .inr ⟨Nat.lt_of_lt_of_le hlt hnext, hs', hin⟩
  · exact .inr (hobs t sessions ht)

/-- A change that has nothing to do with it. -/
theorem Terminal.same (h : k.Terminal) {obs : List Obs} (htrace : k'.trace = k.trace ++ obs)
    (hnext : k.next ≤ k'.next) (hstatus : ∀ t, (k'.thread t).status = (k.thread t).status)
    (hqueue : k'.readyQueue ⊆ k.readyQueue) (hobs : ∀ t sessions, .stopped t sessions ∉ obs) :
    k'.Terminal :=
  h.change htrace hnext (fun t _ hs => .inr ((hstatus t).trans hs)) (fun _ ht => .inl (hqueue ht))
    fun t sessions ht => absurd ht (hobs t sessions)

/-- A change of something else. -/
theorem Terminal.quiet (h : k.Terminal) (htrace : k'.trace = k.trace) (hnext : k.next ≤ k'.next)
    (hstatus : ∀ t, (k'.thread t).status = (k.thread t).status)
    (hqueue : k'.readyQueue ⊆ k.readyQueue) : k'.Terminal :=
  h.same (by rw [htrace, List.append_nil]) hnext hstatus hqueue fun _ _ => List.not_mem_nil

theorem Terminal.emit (h : k.Terminal) {o : Obs} (ho : ∀ x sessions, o ≠ .stopped x sessions) :
    Terminal { k with trace := k.trace ++ [o] } :=
  h.same rfl (Nat.le_refl _) (fun _ => rfl) (List.Subset.refl _)
    fun x sessions hx => ho x sessions (List.mem_singleton.1 hx).symm

/-- A change to a thread that has not stopped. -/
theorem Terminal.turn (h : k.Terminal) {obs : List Obs} (htrace : k'.trace = k.trace ++ obs)
    (hnext : k.next ≤ k'.next) (hst : (k.thread t).status ≠ .stopped)
    (hothers : ∀ x, x ≠ t → k'.thread x = k.thread x) (hqueue : k'.readyQueue ⊆ t :: k.readyQueue)
    (hobs : ∀ x sessions, .stopped x sessions ∉ obs) : k'.Terminal := by
  refine h.change htrace hnext (fun x _ hs => .inr ?_) (fun x hx => ?_)
    fun x sessions hx => absurd hx (hobs x sessions)
  · have hne : x ≠ t := by
      intro he
      exact hst (he ▸ hs)
    rw [hothers x hne]
    exact hs
  · rcases List.mem_cons.1 (hqueue hx) with rfl | hx
    · exact .inr (.inr (.inl hst))
    · exact .inl hx

/-- `t` exits. -/
theorem Terminal.stop (h : k.Terminal) {obs : List Obs} (htrace : k'.trace = k.trace ++ obs)
    (hnext : k.next ≤ k'.next) (hlt : t < k.next) (hself : (k'.thread t).status = .stopped)
    (hothers : ∀ x, x ≠ t → k'.thread x = k.thread x)
    (hqueue : k'.readyQueue = k.readyQueue.filter (· ≠ t))
    (hobs : ∀ x sessions, .stopped x sessions ∈ obs → x = t) : k'.Terminal := by
  refine h.change htrace hnext (fun x _ hs => .inr ?_) (fun x hx => .inl ?_) fun x sessions hx => ?_
  · by_cases he : x = t
    · rw [he]
      exact hself
    · rw [hothers x he]
      exact hs
  · rw [hqueue] at hx
    exact (List.mem_filter.1 hx).1
  · obtain rfl := hobs x sessions hx
    exact ⟨Nat.lt_of_lt_of_le hlt hnext, hself, by simp [hqueue]⟩

end Kernel

theorem Store.status_modify {thread : Store Thread} {x : Ref} {f : Thread → Thread}
    (hf : ∀ thread, (f thread).status = thread.status) (t : Ref) :
    ((thread.modify x f) t).status = (thread t).status :=
  Store.view_modify Thread.status thread x (hf _) t

theorem replaced_stopped {p handle : Nat} {sessions : List Ref} :
    .stopped t sessions ∉ k.replaced p handle := by
  simp [Kernel.replaced]

/-- Each change keeps what has exited, or the trace says that the clock did not. -/
theorem Act.terminal (ha : Act P (k, g) (k', g')) (h : k.Terminal) : k'.Terminal := by
  cases ha with
  | quiet | list | hold | release | loosen | spare | bind | name | bury | data | run | detach | prune
  | cool | tick | sweep | reserve | offer | giveBack | hangUp | forgo | answer =>
    exact h.quiet rfl (Nat.le_refl _) (fun _ => rfl) (List.Subset.refl _)
  | alloc | newProcess | accept =>
    exact h.quiet rfl (Nat.le_succ _) (fun _ => rfl) (List.Subset.refl _)
  | newSession => exact h.quiet rfl (Nat.le_add_right _ 2) (fun _ => rfl) (List.Subset.refl _)
  | newPair => exact h.quiet rfl (Nat.le_add_right _ 3) (fun _ => rfl) (List.Subset.refl _)
  | newPort =>
    exact h.same rfl (Nat.le_add_right _ 3) (fun _ => rfl) (List.Subset.refl _) (by simp)
  | destroy | waits | elapsed | closed | request | received | replying | replied | ran =>
    exact h.same rfl (Nat.le_refl _) (fun _ => rfl) (List.Subset.refl _) (by simp)
  | entry =>
    exact h.same rfl (Nat.le_refl _) (fun _ => rfl) (List.Subset.refl _) fun _ _ => replaced_stopped
  | announce =>
    refine h.same (List.append_assoc ..) (Nat.le_refl _) (fun _ => rfl) (List.Subset.refl _) ?_
    intro t sessions ht
    rcases List.mem_append.1 ht with ht | ht
    · split at ht <;> simp at ht
    · simp at ht
  | same _ ht => exact h.quiet rfl (Nat.le_refl _) (fun t => by rw [ht]) (List.Subset.refl _)
  | inner _ hf =>
    exact h.quiet rfl (Nat.le_refl _) (Store.status_modify hf.status) (List.Subset.refl _)
  | frame | park | comeBack | sent | serve | resume =>
    exact h.quiet rfl (Nat.le_refl _) (Store.status_modify fun _ => rfl) (List.Subset.refl _)
  | queue hq => exact h.quiet rfl (Nat.le_refl _) (fun _ => rfl) hq.subset
  | skip hq =>
    exact h.quiet rfl (Nat.le_refl _) (fun _ => rfl) (hq ▸ List.subset_cons_self _ _)
  | spawn =>
    refine h.change (List.append_nil _).symm (Nat.le_succ _) (fun t hlt hs => .inr ?_) ?_ (by simp)
    · rw [Store.get_modify_ne _ _ (Nat.ne_of_lt hlt)]
      exact hs
    · intro t ht
      rcases List.mem_append.1 ht with ht | ht
      · exact .inl ht
      · exact .inr (.inl (List.mem_singleton.1 ht ▸ Nat.le_refl _))
  | taken _ htakes =>
    obtain ⟨_, _, _, _, _, obs, rfl, -, hobs⟩ := htakes.effect.shape
    refine h.same rfl (Nat.le_refl _) (Store.status_modify fun _ => rfl) (List.Subset.refl _) ?_
    intro t sessions ht
    rcases hobs _ ht with h | h <;> simp at h
  | acquired _ _ _ htakes =>
    obtain ⟨_, _, _, _, _, obs, rfl, -, hobs⟩ := htakes.effect.shape
    refine h.same rfl (Nat.le_refl _) (Store.status_modify fun _ => rfl) (List.Subset.refl _) ?_
    intro t sessions ht
    rcases hobs _ ht with h | h <;> simp at h
  | block _ hready =>
    exact h.turn rfl (Nat.le_refl _) (by rw [hready]; decide)
      (fun _ hx => Store.get_modify_ne _ _ hx)
      (fun _ hx => List.mem_cons_of_mem _ (List.mem_filter.1 hx).1) (by simp)
  | woken _ _ hst htakes =>
    obtain ⟨_, _, _, _, _, obs, rfl, -, hobs⟩ := htakes.effect.shape
    refine h.turn (List.append_assoc ..) (Nat.le_refl _) (by rw [hst]; decide)
      (fun _ hx => Store.get_modify_ne _ _ hx) (List.Subset.refl _) fun t sessions ht => ?_
    rcases List.mem_append.1 ht with ht | ht
    · rcases hobs _ ht with h | h <;> simp at h
    · simp at ht
  | @expire _ _ x =>
    -- Here a stopped thread can become ready, but not without a trace.
    have hstale : (k.thread x).status = .stopped → .stale x .stopped ∈
        [if (k.thread x).status = .sleeping ∨ (k.thread x).status = .waitingForTimeout
          then .woken x (.timeout k.now) else Obs.stale x (k.thread x).status] := by
      intro hs
      simp [hs]
    refine h.change rfl (Nat.le_refl _) (fun t _ hs => ?_) (fun t ht => ?_) fun t sessions ht => ?_
    · by_cases hx : t = x
      · subst hx
        exact .inl (List.mem_append_right _ (hstale hs))
      · rw [Store.get_modify_ne _ _ hx]
        exact .inr hs
    · rcases List.mem_append.1 ht with ht | ht
      · exact .inl ht
      · obtain rfl := List.mem_singleton.1 ht
        by_cases hs : (k.thread t).status = .stopped
        · exact .inr (.inr (.inr (List.mem_append_right _ (hstale hs))))
        · exact .inr (.inr (.inl hs))
    · have ht := List.mem_singleton.1 ht
      split at ht <;> exact nomatch ht
  | @signal _ _ x address _ _ hst =>
    have hne : (k.thread x).status ≠ .stopped := by
      rcases hst with ⟨hst, -⟩ | hst <;> simp [hst]
    refine h.turn (List.append_assoc ..) (Nat.le_refl _) hne (fun _ hx => Store.get_modify_ne _ _ hx)
      (List.append_subset.2 ⟨List.subset_cons_self _ _, by simp⟩) fun t sessions ht => ?_
    rcases List.mem_append.1 ht with ht | ht
    · split at ht <;> simp at ht
    · simp at ht
  | @stop _ _ x p _ _ _ halive =>
    refine h.stop (List.append_assoc ..) (Nat.le_refl _) halive.1 ?_ (fun _ hx =>
      Store.get_modify_ne _ _ hx) rfl fun y sessions hy => ?_
    · rw [Store.get_modify_self]
    · rcases List.mem_append.1 hy with hy | hy
      · exact absurd hy replaced_stopped
      · exact (Obs.stopped.inj (List.mem_singleton.1 hy)).1

end Mikage
