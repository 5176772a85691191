import Mikage.OS.Stopped

/-!
# What ends a wait

The trace says what each thread waits for, until when, and what the wait is to return. An entry of the
waiting queue names only a thread, so entries of earlier waits are in there as well. They do no harm,
since the deadline is read from the thread, where each wait sets its own.

- `Pending`: a wait that has not ended, `pending` the one of a thread behind a trace.
- `Punctual`: threads are blocked as the trace says, and every wait ended by its own doing.
-/

namespace Mikage

/-- A wait that has not ended. -/
structure Pending where
  wait : Wait
  deadline : Nat
  /-- What the call returns if the deadline does not pass. -/
  result : Nat
  deriving DecidableEq

/-- What `t` waits for behind an event. -/
def Obs.wait (t : Ref) (w : Option Pending) : Obs → Option Pending
  | .blocked x wait deadline result => if x = t then some ⟨wait, deadline, result⟩ else w
  | .woken x _ | .stale x _ | .stopped x _ => if x = t then none else w
  | _ => w

/-- No thread begins or ends a wait. -/
def Obs.waitless : Obs → Bool
  | .blocked .. | .woken .. | .stale .. | .stopped .. => false
  | _ => true

/-- What `t` waits for behind a trace. -/
def pending (t : Ref) (trace : List Obs) : Option Pending := trace.foldl (Obs.wait t) none

/-- The wait ends by what it is for. -/
def Pending.EndedBy (w : Pending) : Cause → Prop
  | .resource s => ∃ objects, w.wait = .objects objects ∧ s ∈ objects
  | .timeout now => w.deadline ≤ now ∧ w.deadline ≠ noTimeout
  | .signal address => w.wait = .arbitration address

/-- A thread that has become ready had waited for what made it ready. No other entry of the waiting
queue is taken while its thread waits, and no thread waits twice. -/
def Obs.Fits (trace : List Obs) : Obs → Prop
  | .woken t cause => ∃ w, pending t trace = some w ∧ w.EndedBy cause
  | .stale t _ | .blocked t .. => pending t trace = none
  | _ => True

/-- The thread is blocked as `w` says. -/
structure Thread.Waits (thread : Thread) (w : Pending) : Prop where
  deadline : thread.timeoutAt = w.deadline
  result : thread.promisedResult = w.result
  wait : match w.wait with
    | .objects objects =>
      thread.status = .sleeping ∧ thread.waitList ≠ [] ∧ thread.waitList ⊆ objects
    | .sleep => thread.status = .waitingForTimeout
    | .arbitration address => thread.status = .waitingForArbitration ∧
        thread.arbitrationAddress = address ∧ thread.timeoutAt = noTimeout

/-- The thread waits as `w` says, if at all. -/
def Thread.Agrees (thread : Thread) : Option Pending → Prop
  | none => thread.status = .ready ∨ thread.status = .stopped
  | some w => thread.Waits w

structure Punctual (trace : List Obs) (thread : Store Thread) : Prop where
  agrees : ∀ t, (thread t).Agrees (pending t trace)
  fits : ∀ before o after, trace = before ++ o :: after → o.Fits before

/-- What a wait depends on is the same. -/
def Thread.Stays (old new : Thread) : Prop :=
  new.status = old.status ∧ (old.status = .ready ∨ old.status = .stopped ∨
    new.timeoutAt = old.timeoutAt ∧ new.promisedResult = old.promisedResult ∧
    new.arbitrationAddress = old.arbitrationAddress ∧ new.waitList ⊆ old.waitList ∧
    (old.waitList ≠ [] → new.waitList ≠ []))

variable {P : Powers} {k k' : Kernel} {g g' : Phase} {t : Ref} {trace obs : List Obs} {o : Obs}
  {thread thread' : Store Thread} {w : Pending}

/-! ## Traces -/

theorem pending_append : pending t (trace ++ [o]) = o.wait t (pending t trace) :=
  List.foldl_append ..

theorem Obs.wait_waitless (ho : o.waitless = true) (w : Option Pending) : o.wait t w = w := by
  cases o <;> first | rfl | simp [Obs.waitless] at ho

theorem pending_waitless (hobs : ∀ o ∈ obs, o.waitless = true) :
    pending t (trace ++ obs) = pending t trace := by
  induction obs using List.reverseRecOn with
  | nil => rw [List.append_nil]
  | append_singleton obs o ih =>
    rw [← List.append_assoc, pending_append, Obs.wait_waitless (hobs o (by simp))]
    exact ih fun o ho => hobs o (List.mem_append_left _ ho)

theorem fits_waitless (ho : o.waitless = true) : o.Fits trace := by
  cases o <;> trivial

/-- Where an event of a longer trace is. -/
theorem fits_append (h : ∀ before o after, trace = before ++ o :: after → o.Fits before)
    (ho : o.Fits trace) (before : List Obs) (x : Obs) (after : List Obs)
    (heq : trace ++ [o] = before ++ x :: after) : x.Fits before := by
  induction after using List.reverseRecOn with
  | nil =>
    obtain ⟨rfl, hx⟩ := List.append_inj' heq rfl
    exact (List.cons.inj hx).1 ▸ ho
  | append_singleton after y =>
    have heq' : trace ++ [o] = (before ++ x :: after) ++ [y] := by
      rw [heq, List.append_assoc, List.cons_append]
    exact h before x after (List.append_inj' heq' rfl).1

/-! ## Threads -/

theorem Thread.Waits.blocked {t : Thread} (h : t.Waits w) :
    t.status ≠ .ready ∧ t.status ≠ .stopped := by
  have hwait := h.wait
  cases hw : w.wait <;> rw [hw] at hwait <;> simp_all

theorem Thread.Agrees.stays {old new : Thread} {w : Option Pending} (h : old.Agrees w)
    (hs : old.Stays new) : new.Agrees w := by
  obtain ⟨hstatus, hs⟩ := hs
  cases w with
  | none =>
    unfold Agrees at h ⊢
    rw [hstatus]
    exact h
  | some w =>
    have hblocked := Waits.blocked h
    obtain ⟨hdeadline, hresult, hwait⟩ := h
    rcases hs with hs | hs | ⟨hd, hr, ha, hl, hne⟩
    · exact absurd hs hblocked.1
    · exact absurd hs hblocked.2
    · refine ⟨hd.trans hdeadline, hr.trans hresult, ?_⟩
      cases hw : w.wait with
      | objects =>
        rw [hw] at hwait
        exact ⟨hstatus.trans hwait.1, hne hwait.2.1, List.Subset.trans hl hwait.2.2⟩
      | sleep =>
        rw [hw] at hwait
        exact hstatus.trans hwait
      | arbitration =>
        rw [hw] at hwait
        exact ⟨hstatus.trans hwait.1, ha.trans hwait.2.1, hd.trans hwait.2.2⟩

theorem Thread.Stays.refl (thread : Thread) : thread.Stays thread :=
  ⟨rfl, .inr (.inr ⟨rfl, rfl, rfl, List.Subset.refl _, id⟩)⟩

/-- An update of something else. -/
theorem Store.stays_modify {x : Ref} {f : Thread → Thread} (h : (thread x).Stays (f (thread x)))
    (t : Ref) : (thread t).Stays ((thread.modify x f) t) := by
  rw [Store.get_modify]
  split
  next he => exact he ▸ h
  next => exact .refl _

namespace Punctual

/-- A thread that neither is ready nor has stopped waits. -/
theorem waits (h : Punctual trace thread) (hr : (thread t).status ≠ .ready)
    (hs : (thread t).status ≠ .stopped) : ∃ w, pending t trace = some w ∧ (thread t).Waits w := by
  have ha := h.agrees t
  cases hw : pending t trace with
  | none =>
    rw [hw] at ha
    exact ha.elim (absurd · hr) (absurd · hs)
  | some w =>
    rw [hw] at ha
    exact ⟨w, rfl, ha⟩

theorem awake (h : Punctual trace thread)
    (hs : (thread t).status = .ready ∨ (thread t).status = .stopped) : pending t trace = none := by
  have ha := h.agrees t
  cases hw : pending t trace with
  | none => rfl
  | some w =>
    rw [hw] at ha
    have hblocked := Thread.Waits.blocked ha
    exact hs.elim (absurd · hblocked.1) (absurd · hblocked.2)

/-- A change after which every thread waits as before. -/
theorem same (h : Punctual trace thread) (hobs : ∀ o ∈ obs, o.waitless = true)
    (hthread : ∀ t, (thread t).Stays (thread' t)) : Punctual (trace ++ obs) thread' where
  agrees t := by
    rw [pending_waitless hobs]
    exact (h.agrees t).stays (hthread t)
  fits := by
    induction obs using List.reverseRecOn with
    | nil =>
      rw [List.append_nil]
      exact h.fits
    | append_singleton obs o ih =>
      rw [← List.append_assoc]
      exact fits_append (ih fun o ho => hobs o (List.mem_append_left _ ho))
        (fits_waitless (hobs o (by simp)))

theorem emit (h : Punctual trace thread) (ho : o.waitless = true) : Punctual (trace ++ [o]) thread :=
  h.same (fun _ hx => List.mem_singleton.1 hx ▸ ho) fun _ => .refl _

theorem quiet (h : Punctual trace thread) (hthread : ∀ t, (thread t).Stays (thread' t)) :
    Punctual trace thread' := by
  have hsame : Punctual (trace ++ []) thread' :=
    h.same (fun _ ho => absurd ho List.not_mem_nil) hthread
  rwa [List.append_nil] at hsame

/-- An event that concerns `t`. -/
theorem turn (h : Punctual trace thread) (ho : o.Fits trace)
    (hother : ∀ x, x ≠ t → ∀ w, o.wait x w = w) (hthread : ∀ x, x ≠ t → thread' x = thread x)
    (ht : (thread' t).Agrees (o.wait t (pending t trace))) : Punctual (trace ++ [o]) thread' where
  agrees x := by
    rw [pending_append]
    by_cases hx : x = t
    · exact hx ▸ ht
    · rw [hother x hx, hthread x hx]
      exact h.agrees x
  fits := fits_append h.fits ho

end Punctual

/-! ## Changes of the kernel -/

theorem replaced_waitless {p handle : Nat} : ∀ o ∈ k.replaced p handle, o.waitless = true := by
  intro o ho
  simp only [Kernel.replaced, Option.mem_toList, Option.map_eq_some_iff] at ho
  obtain ⟨_, -, rfl⟩ := ho
  rfl

theorem Effect.waitless {k₁ : Kernel} {s : Ref} (h : Effect k s t k₁) : k₁.thread = k.thread ∧
    ∃ obs, k₁.trace = k.trace ++ obs ∧ ∀ o ∈ obs, o.waitless = true := by
  obtain ⟨_, _, _, _, _, obs, rfl, -, hobs⟩ := h.shape
  refine ⟨rfl, obs, rfl, fun o ho => ?_⟩
  rcases hobs o ho with rfl | rfl <;> rfl

theorem Thread.Inner.stays {f : Thread → Thread} {thread : Thread} (h : Thread.Inner f)
    (hu : thread.status = .ready ∨ Thread.Unwaited f) : thread.Stays (f thread) :=
  ⟨h.status _, hu.imp_right fun hu => .inr ⟨hu.timeoutAt _, hu.promisedResult _,
    hu.arbitrationAddress _, by rw [h.waitList]; exact List.Subset.refl _,
    fun hne => by rwa [h.waitList]⟩⟩

namespace Punctual

/-- `t` begins to wait. -/
theorem block (h : Punctual trace thread) {f : Thread → Thread} {wait : Wait} {deadline result : Nat}
    (hr : (thread t).status = .ready) (hw : (f (thread t)).Waits ⟨wait, deadline, result⟩) :
    Punctual (trace ++ [.blocked t wait deadline result]) (thread.modify t f) := by
  refine h.turn (h.awake (.inl hr)) (fun x hx w => if_neg (Ne.symm hx))
    (fun x hx => Store.get_modify_ne _ _ hx) ?_
  rw [Store.get_modify_self, Obs.wait, if_pos rfl]
  exact hw

/-- The wait of `t` is over. -/
theorem woken (h : Punctual trace thread) {f : Thread → Thread} {cause : Cause}
    (hr : (f (thread t)).status = .ready)
    (hcause : ∃ w, pending t trace = some w ∧ w.EndedBy cause) :
    Punctual (trace ++ [.woken t cause]) (thread.modify t f) := by
  refine h.turn hcause (fun x hx w => if_neg (Ne.symm hx)) (fun x hx => Store.get_modify_ne _ _ hx) ?_
  rw [Store.get_modify_self, Obs.wait, if_pos rfl]
  exact .inl hr

/-- `t` does not wait, and is ready now. -/
theorem stale (h : Punctual trace thread) {f : Thread → Thread} {status : ThreadStatus}
    (hr : (f (thread t)).status = .ready)
    (hs : (thread t).status = .ready ∨ (thread t).status = .stopped) :
    Punctual (trace ++ [.stale t status]) (thread.modify t f) := by
  refine h.turn (h.awake hs) (fun x hx w => if_neg (Ne.symm hx))
    (fun x hx => Store.get_modify_ne _ _ hx) ?_
  rw [Store.get_modify_self, Obs.wait, if_pos rfl]
  exact .inl hr

theorem stop (h : Punctual trace thread) {f : Thread → Thread} {sessions : List Ref}
    (hs : (f (thread t)).status = .stopped) :
    Punctual (trace ++ [.stopped t sessions]) (thread.modify t f) := by
  refine h.turn trivial (fun x hx w => if_neg (Ne.symm hx)) (fun x hx => Store.get_modify_ne _ _ hx) ?_
  rw [Store.get_modify_self, Obs.wait, if_pos rfl]
  exact .inr hs

/-- A due entry of the waiting queue. -/
theorem expire (h : Punctual trace thread) {f : Thread → Thread} {now : Nat}
    (hr : (f (thread t)).status = .ready) (hnow : now < noTimeout)
    (hdue : (thread t).timeoutAt ≤ now) :
    Punctual (trace ++ [if (thread t).status = .sleeping ∨ (thread t).status = .waitingForTimeout
      then .woken t (.timeout now) else .stale t (thread t).status]) (thread.modify t f) := by
  by_cases hs : (thread t).status = .ready ∨ (thread t).status = .stopped
  · rw [if_neg (by rcases hs with hs | hs <;> simp [hs])]
    exact h.stale hr hs
  · rw [not_or] at hs
    obtain ⟨w, hw, hwaits⟩ := h.waits hs.1 hs.2
    -- A wait for the address arbiter has no deadline.
    have hst : (thread t).status = .sleeping ∨ (thread t).status = .waitingForTimeout := by
      have hwait := hwaits.wait
      cases hk : w.wait <;> rw [hk] at hwait
      · exact .inl hwait.1
      · exact .inr hwait
      · exact absurd (hwait.2.2 ▸ hdue) (Nat.not_le.2 hnow)
    rw [if_pos hst]
    rw [hwaits.deadline] at hdue
    exact h.woken hr ⟨w, hw, hdue, Nat.ne_of_lt (Nat.lt_of_le_of_lt hdue hnow)⟩

/-- The address arbiter makes `t` ready. -/
theorem signal (h : Punctual trace thread) {f : Thread → Thread} {address : BitVec 32}
    (hr : (f (thread t)).status = .ready)
    (hst : ((thread t).status = .waitingForArbitration ∧ (thread t).arbitrationAddress = address) ∨
      (thread t).status = .ready) :
    Punctual (trace ++ (if (thread t).status = .waitingForArbitration
      then [.woken t (.signal address)] else []) ++ [.signalled t (thread t).status])
      (thread.modify t f) := by
  refine Punctual.emit ?_ rfl
  rcases hst with ⟨hst, haddress⟩ | hst
  · rw [if_pos hst]
    obtain ⟨w, hw, hwaits⟩ := h.waits (by rw [hst]; decide) (by rw [hst]; decide)
    refine h.woken hr ⟨w, hw, ?_⟩
    have hwait := hwaits.wait
    cases hk : w.wait <;> rw [hk] at hwait
    · rw [hst] at hwait
      exact nomatch hwait.1
    · rw [hst] at hwait
      exact nomatch hwait
    · exact haddress ▸ hwait.2.1 ▸ hk
  · rw [if_neg (by rw [hst]; decide), List.append_nil]
    exact h.quiet (Store.stays_modify ⟨hr.trans hst.symm, .inl hst⟩)

end Punctual

/-- Each change that blocks a thread or makes it ready says why. -/
theorem Act.punctual (ha : Act P (k, g) (k', g')) (hI : Inv k) (h : Punctual k.trace k.thread) :
    Punctual k'.trace k'.thread := by
  cases ha with
  | quiet | list | queue | skip | hold | release | loosen | spare | alloc | newProcess | newSession
  | newPair | accept | bind | name | bury | data | run | detach | prune | cool | tick | sweep
  | reserve | offer | giveBack | hangUp | forgo | answer => exact h
  | newPort | destroy | waits | elapsed | closed | request | received | replying | replied | ran =>
    exact h.emit rfl
  | entry => exact h.same replaced_waitless fun _ => .refl _
  | announce =>
    rw [List.append_assoc]
    refine h.same (fun o ho => ?_) fun _ => .refl _
    rcases List.mem_append.1 ho with ho | ho
    · split at ho
      · exact List.mem_singleton.1 ho ▸ rfl
      · exact absurd ho List.not_mem_nil
    · exact List.mem_singleton.1 ho ▸ rfl
  | same _ ht => exact h.quiet fun t => ht t ▸ .refl _
  | inner _ hf hu =>
    exact h.quiet (Store.stays_modify (hf.stays hu))
  | frame | park | comeBack | sent | serve | resume =>
    exact h.quiet (Store.stays_modify
      ⟨rfl, .inr (.inr ⟨rfl, rfl, rfl, List.Subset.refl _, id⟩)⟩)
  | spawn =>
    -- Nothing has happened to a thread that did not exist.
    have hfresh : (k.thread k.next).status = .stopped := by
      rw [hI.thread k.next (by rw [(hI.fresh _ (Nat.le_refl _)).1]; decide)]
      rfl
    have hnone := h.awake (.inr hfresh)
    refine ⟨fun t => ?_, h.fits⟩
    dsimp only
    rw [Store.get_modify]
    split
    next he =>
      rw [he, hnone]
      exact .inl rfl
    next => exact h.agrees t
  | taken hr htakes =>
    obtain ⟨hthread, obs, htrace, hobs⟩ := htakes.effect.waitless
    simp only [hthread, htrace]
    exact h.same hobs (Store.stays_modify ⟨rfl, .inl hr⟩)
  | acquired _ _ _ htakes _ hne =>
    obtain ⟨hthread, obs, htrace, hobs⟩ := htakes.effect.waitless
    simp only [hthread, htrace]
    exact h.same hobs (Store.stays_modify
      ⟨rfl, .inr (.inr ⟨rfl, rfl, rfl, List.erase_subset, fun _ => hne⟩)⟩)
  | woken hobserved hd hst htakes =>
    obtain ⟨hthread, obs, htrace, hobs⟩ := htakes.effect.waitless
    simp only [hthread, htrace]
    have h' := h.same hobs fun t => .refl ((k.thread) t)
    obtain ⟨w, hw, hwaits⟩ := h'.waits (by rw [hst]; decide) (by rw [hst]; decide)
    refine h'.woken rfl ⟨w, hw, ?_⟩
    have hmem := hI.mem_waitList hd (hobserved ▸ List.mem_cons_self)
    have hwait := hwaits.wait
    cases hk : w.wait <;> rw [hk] at hwait
    · exact ⟨_, hk, hwait.2.2 hmem⟩
    · rw [hst] at hwait
      exact nomatch hwait
    · rw [hst] at hwait
      exact nomatch hwait.1
  | block _ hready hblocks =>
    dsimp only
    refine h.block hready ?_
    cases hblocks with
    | objects hne => exact ⟨rfl, rfl, rfl, hne, List.Subset.refl _⟩
    | sleep => exact ⟨rfl, rfl, rfl⟩
    | arbitration => exact ⟨rfl, rfl, rfl, rfl, rfl⟩
  | expire _ _ _ hdue =>
    dsimp only
    exact h.expire rfl k.now_lt hdue
  | signal _ _ hst =>
    dsimp only
    exact h.signal rfl hst
  | stop =>
    dsimp only
    exact (h.same replaced_waitless fun _ => .refl _).stop rfl

end Mikage
