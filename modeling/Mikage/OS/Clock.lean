import Mikage.OS.Acquire
import Mikage.OS.Dispatch

/-!
# The emulated clock

The counter of system ticks and the nanoseconds that timeouts are compared with. Both conversions
multiply in 64 bits before they divide.

- `elapseTime_systemTick`: what a call of `elapseTime` does to the counter.
- `lastExactTick`: the last value of the counter whose nanoseconds are right.
- `ticksOfNs_nsOfTicks_eq_iff`: the slices whose cycles come back from nanoseconds.
-/

namespace Mikage

open KM

/-! ## What advances the counter -/

/-- Kernel code that ends with the counter at `n`. -/
abbrev Settles (n : ℕ) {α : Type} (x : KM α) (k : Kernel) : Prop :=
  Ends x k (fun _ k' => k'.systemTick = n) (fun _ _ => True)

variable {n : ℕ} {k : Kernel} {s t : Ref}

theorem Settles.bind {α β : Type} {x : KM α} {f : α → KM β} (hx : Settles n x k)
    (hf : ∀ a k', k'.systemTick = n → Settles n (f a) k') : Settles n (x >>= f) k :=
  Ends.bind hx hf

theorem validate_settles {b : Bool} {condition : String} (h : k.systemTick = n) :
    Settles n (validate b condition) k := by
  cases b with
  | true => exact h
  | false => trivial

theorem collectWithin_settles : ∀ (fuel : ℕ) {k : Kernel}, k.systemTick = n →
    Settles n (collectWithin fuel) k
  | 0, _, h => h
  | fuel + 1, k, h => by
    unfold collectWithin
    simp only [ends_get]
    cases k.garbage with
    | none => exact h
    | some r => exact collectWithin_settles fuel (k := { k with trace := _, dead := _ }) h

theorem collect_settles (h : k.systemTick = n) : Settles n collect k := by
  unfold collect
  simp only [ends_get]
  exact collectWithin_settles _ h

theorem tryAcquireImpl_settles (h : k.systemTick = n) : Settles n (tryAcquireImpl s t) k := by
  refine (tryAcquireImpl_ends (k := k) (s := s) (t := t)).mono (fun b k' hb => ?_)
    fun _ _ _ => trivial
  cases b with
  | true =>
    obtain ⟨serverSession, mutex, semaphore, event, timer, obs, rfl, -, -⟩ :=
      Effect.shape (by simpa using hb)
    exact h
  | false =>
    obtain ⟨rfl, -⟩ : k' = k ∧ k.Unripe s t := by simpa using hb
    exact h

theorem unregister_settles (h : k.systemTick = n) : Settles n (unregister s t) k := by
  unfold unregister
  simp only [ends_get]
  exact (validate_settles h).bind fun _ _ h => h

theorem unregisterAll_settles (l : List Ref) : ∀ {k : Kernel}, k.systemTick = n →
    Settles n (unregisterAll t l) k := by
  induction l with
  | nil => exact fun h => h
  | cons s l ih => exact fun h => (unregister_settles h).bind fun _ _ h => ih h

theorem tryAcquire_settles (h : k.systemTick = n) : Settles n (tryAcquire s t) k := by
  refine (tryAcquireImpl_settles h).bind fun b k' h => ?_
  cases b with
  | true => exact (unregister_settles h).bind fun _ _ h => h
  | false => exact h

theorem onResourceAcquired_settles (h : k.systemTick = n) :
    Settles n (onResourceAcquired t s) k := by
  unfold onResourceAcquired
  simp only [ends_get]
  refine (validate_settles h).bind fun _ k₁ h => ?_
  refine Ends.split (fun _ => trivial) fun _ => ?_
  simp only [modifyThread, ends_modify]
  refine Ends.split (fun _ => Ends.split (fun _ => ?_) fun _ => ?_) fun _ => collect_settles h
  · refine Settles.bind (unregisterAll_settles _ ?_) fun _ k₂ h => ?_
    · exact h
    simp only [emit, ends_modify]
    exact collect_settles h
  · simp only [emit, ends_modify]
    exact collect_settles h

theorem onResourceReadyWithin_settles : ∀ (fuel : ℕ) {k : Kernel}, k.systemTick = n →
    Settles n (onResourceReadyWithin fuel s) k
  | 0, _, h => h
  | fuel + 1, k, h => by
    unfold onResourceReadyWithin
    simp only [ends_get]
    cases k.observers s with
    | nil => exact h
    | cons t rest =>
      refine Ends.split (fun _ => ?_) fun _ => ?_
      · exact onResourceReadyWithin_settles fuel (k := { k with observers := _ }) h
      · refine (validate_settles h).bind fun _ k₁ h => (tryAcquire_settles h).bind fun b k₂ h => ?_
        cases b with
        | true =>
          exact (onResourceAcquired_settles h).bind fun _ _ h =>
            onResourceReadyWithin_settles fuel h
        | false => exact h

theorem holding_settles {α : Type} {x : KM α} (h : k.systemTick = n)
    (hx : ∀ k', k'.systemTick = n → Settles n x k') : Settles n (holding s x) k := by
  unfold holding
  exact (hx { k with locals := s :: k.locals } h).bind fun _ _ h => h

theorem onResourceReady_settles (h : k.systemTick = n) : Settles n (onResourceReady s) k :=
  holding_settles h fun _ h => onResourceReadyWithin_settles _ h

theorem fireTimers_settles {ns : ℕ} (l : List Ref) : ∀ {k : Kernel}, k.systemTick = n →
    Settles n (fireTimers ns l) k := by
  induction l with
  | nil => exact fun h => h
  | cons s l ih =>
    intro k h
    unfold fireTimers
    simp only [ends_get]
    refine Ends.split (fun _ => ?_) fun _ => ih h
    exact (onResourceReady_settles h).bind fun _ _ h => (collect_settles h).bind fun _ _ h => ih h

theorem signalBound_settles (l : List Ref) : ∀ {k : Kernel}, k.systemTick = n →
    Settles n (signalBound l) k := by
  induction l with
  | nil => exact fun h => h
  | cons s l ih =>
    intro k h
    unfold signalBound
    simp only [ends_get]
    refine Ends.split (fun _ => trivial) fun _ => ?_
    refine (holding_settles h fun k' h => ?_).bind fun _ _ h =>
      (collect_settles h).bind fun _ _ h => ih h
    exact onResourceReady_settles (k := { k' with event := _ }) h

theorem expire_settles (h : k.systemTick = n) : Settles n (expire t) k := by
  unfold expire
  simp only [ends_get, modifyThread]
  refine Ends.split (fun _ => ?_) fun _ => h
  simp only [ends_modify]
  refine Settles.bind (unregisterAll_settles _ ?_) fun _ k' h => ?_
  · exact h
  · exact h

theorem scanWaitingQueue_settles (l : List Ref) : ∀ (kept : List Ref) {k : Kernel},
    k.systemTick = n → Settles n (scanWaitingQueue kept l) k := by
  induction l with
  | nil => exact fun _ _ h => h
  | cons t l ih =>
    intro kept k h
    unfold scanWaitingQueue
    simp only [ends_get]
    refine Ends.split (fun _ => ih kept (k := { k with waitingQueue := _ }) h) fun _ =>
      Ends.split (fun _ => ?_) fun _ => ih _ h
    refine (expire_settles h).bind fun _ k' h => ?_
    simp only [ends_modify]
    refine Settles.bind (collect_settles ?_) fun _ _ h => ih kept h
    exact h

theorem elapseTime_settles (k : Kernel) (ns : ℕ) :
    Settles ((k.systemTick + ticksOfNs ns) % 2 ^ 64) (elapseTime ns) k := by
  unfold elapseTime
  simp only [ends_get, ends_modify]
  refine (fireTimers_settles (k := { k with systemTick := _ }) _ rfl).bind fun _ k₁ h => ?_
  have hend {k' : Kernel} (h : k'.systemTick = (k.systemTick + ticksOfNs ns) % 2 ^ 64) :
      Settles ((k.systemTick + ticksOfNs ns) % 2 ^ 64) (do
        scanWaitingQueue [] k'.waitingQueue
        emit (.elapsed (← get).missedTimers)) k' :=
    (scanWaitingQueue_settles _ _ h).bind fun _ _ h => h
  refine Ends.split (fun _ => ?_) fun _ => hend h
  refine (signalBound_settles _ h).bind fun _ k₂ h => ?_
  refine (signalBound_settles _ h).bind fun _ k₃ h => ?_
  exact (signalBound_settles _ h).bind fun _ k₄ h => hend h

/-- `ElapseTime` adds the ticks of its nanoseconds to the counter. -/
theorem elapseTime_systemTick {k' : Kernel} {ns : ℕ} (h : elapseTime ns k = .ok () k') :
    k'.systemTick = (k.systemTick + ticksOfNs ns) % 2 ^ 64 :=
  (elapseTime_settles k ns).ok h

/-! ## The conversions -/

/-- The last value of the counter whose product with the numerator fits into 64 bits. -/
def lastExactTick : ℕ := 295147905179

theorem ticksOfNs_le (ns : ℕ) : ticksOfNs ns ≤ lastExactTick := by
  unfold ticksOfNs lastExactTick
  omega

/-- Nanoseconds per tick is `10 ^ 9 / 268111856`, which `62500000 / 16756991` is in lowest terms. -/
theorem nanoseconds_eq (tick : ℕ) : tick * 10 ^ 9 / 268111856 = tick * 62500000 / 16756991 := by
  rw [show 10 ^ 9 = 62500000 * 16 by rfl, show 268111856 = 16756991 * 16 by rfl, ← Nat.mul_assoc,
    Nat.mul_div_mul_right _ _ (by decide)]

theorem product_mod {tick : ℕ} (h : tick ≤ lastExactTick) :
    tick * 62500000 % 2 ^ 64 = tick * 62500000 := by
  unfold lastExactTick at h
  exact Nat.mod_eq_of_lt (by omega)

theorem nsOfTicks_eq_iff (tick : ℕ) :
    nsOfTicks tick = tick * 10 ^ 9 / 268111856 ↔ tick ≤ lastExactTick := by
  rw [nanoseconds_eq, nsOfTicks]
  constructor
  · intro h
    unfold lastExactTick
    by_contra hlarge
    omega
  · intro h
    rw [product_mod h]

theorem nsOfTicks_le {tick tick' : ℕ} (h : tick ≤ tick') (hlast : tick' ≤ lastExactTick) :
    nsOfTicks tick ≤ nsOfTicks tick' := by
  rw [nsOfTicks, nsOfTicks, product_mod (h.trans hlast), product_mod hlast]
  exact Nat.div_le_div_right (Nat.mul_le_mul_right _ h)

theorem ticksOfNs_nsOfTicks_le (n : ℕ) : ticksOfNs (nsOfTicks n) ≤ n := by
  unfold ticksOfNs nsOfTicks
  have h₁ := Nat.mod_le (n * 62500000) (2 ^ 64)
  have h₂ := Nat.div_mul_le_self (n * 62500000 % 2 ^ 64) 16756991
  have h₃ := Nat.mod_le (n * 62500000 % 2 ^ 64 / 16756991 * 16756991) (2 ^ 64)
  omega

/-- The slices that lose nothing: sixteenths of a second, and not too long for the product. -/
structure Whole (n : ℕ) : Prop where
  sixteenths : 16756991 ∣ n
  short : n ≤ lastExactTick

theorem ticksOfNs_nsOfTicks_eq_iff (n : ℕ) : ticksOfNs (nsOfTicks n) = n ↔ Whole n := by
  constructor
  · intro h
    have hlast : n ≤ lastExactTick := h ▸ ticksOfNs_le _
    refine ⟨?_, hlast⟩
    rw [ticksOfNs, nsOfTicks, product_mod hlast] at h
    have hdiv : 16756991 ∣ n * 62500000 := by
      have h₁ := Nat.div_mul_le_self (n * 62500000) 16756991
      have h₂ := Nat.mod_le (n * 62500000 / 16756991 * 16756991) (2 ^ 64)
      exact Nat.dvd_of_mod_eq_zero (by omega)
    exact Nat.Coprime.dvd_of_dvd_mul_right (by decide) hdiv
  · rintro ⟨⟨m, rfl⟩, hlast⟩
    have hproduct : 16756991 * m * 62500000 / 16756991 = m * 62500000 := by
      rw [Nat.mul_assoc, Nat.mul_div_cancel_left _ (by decide)]
    rw [ticksOfNs, nsOfTicks, product_mod hlast, hproduct]
    unfold lastExactTick at hlast
    omega

/-! ## Time over a run -/

/-- What advances the counter: `ElapseTime` and `SVCGetSystemTick`. -/
inductive Advance where
  | elapse (ns : ℕ)
  | getSystemTick
  deriving DecidableEq

namespace Advance

def ticks : Advance → ℕ
  | elapse ns => ticksOfNs ns
  | getSystemTick => 1000

def code : Advance → KM Unit
  | elapse ns => elapseTime ns
  | getSystemTick => svcGetSystemTick

theorem ticks_le (a : Advance) : a.ticks ≤ lastExactTick := by
  cases a with
  | elapse ns => exact ticksOfNs_le ns
  | getSystemTick => decide

theorem code_systemTick {a : Advance} {k k' : Kernel} (h : a.code k = .ok () k') :
    k'.systemTick = (k.systemTick + a.ticks) % 2 ^ 64 := by
  cases a with
  | elapse ns => exact elapseTime_systemTick h
  | getSystemTick =>
    cases h
    rfl

end Advance

/-- The counter after the advances of a run. -/
def tickAfter (run : List Advance) : ℕ := run.foldl (fun tick a => (tick + a.ticks) % 2 ^ 64) 0

/-- A kernel after the advances of a run; between them other code leaves the counter alone. -/
inductive Clocked : List Advance → Kernel → Prop where
  | start {k : Kernel} : k.systemTick = 0 → Clocked [] k
  | next {run : List Advance} {a : Advance} {k k₁ k' : Kernel} : Clocked run k →
      k₁.systemTick = k.systemTick → a.code k₁ = .ok () k' → Clocked (run ++ [a]) k'

theorem tickAfter_append (run : List Advance) (a : Advance) :
    tickAfter (run ++ [a]) = (tickAfter run + a.ticks) % 2 ^ 64 := by
  simp [tickAfter]

theorem Clocked.now {run : List Advance} {k : Kernel} (h : Clocked run k) :
    k.systemTick = tickAfter run ∧ k.now = nsOfTicks (tickAfter run) := by
  have htick : k.systemTick = tickAfter run := by
    induction h with
    | start h => exact h
    | next _ hk h ih => rw [Advance.code_systemTick h, hk, ih, tickAfter_append]
  exact ⟨htick, congrArg nsOfTicks htick⟩

/-- The clock tells the time after every part of a run: the nanoseconds are those of the counter, a
greater counter has no fewer of them, and a deadline that has passed has passed from then on. -/
structure TellsTime (run : List Advance) : Prop where
  exact : ∀ r, r <+: run → nsOfTicks (tickAfter r) = tickAfter r * 10 ^ 9 / 268111856
  monotone : ∀ r, r <+: run → ∀ tick ≤ tickAfter r, nsOfTicks tick ≤ nsOfTicks (tickAfter r)
  timeout : ∀ r r', r <+: r' → r' <+: run → ∀ timeoutAt ≤ nsOfTicks (tickAfter r),
    timeoutAt ≤ nsOfTicks (tickAfter r')
  expired : ∀ r r', r <+: r' → r' <+: run → ∀ timer : Timer,
    timer.expired (nsOfTicks (tickAfter r)) → timer.expired (nsOfTicks (tickAfter r'))

theorem tickAfter_le {run : List Advance} (hlast : ∀ r, r <+: run → tickAfter r ≤ lastExactTick)
    {r r' : List Advance} (h : r <+: r') (hrun : r' <+: run) : tickAfter r ≤ tickAfter r' := by
  obtain ⟨l, rfl⟩ := h
  induction l using List.reverseRecOn with
  | nil => rw [List.append_nil]
  | append_singleton l a ih =>
    rw [← List.append_assoc] at hrun ⊢
    have hinitial : r ++ l <+: run := (List.prefix_append _ _).trans hrun
    refine (ih hinitial).trans ?_
    have hlast' := hlast _ hinitial
    have hticks := a.ticks_le
    unfold lastExactTick at hlast' hticks
    rw [tickAfter_append, Nat.mod_eq_of_lt (by omega)]
    exact Nat.le_add_right _ _

theorem clock_tells_time (run : List Advance) :
    TellsTime run ↔ ∀ r, r <+: run → tickAfter r ≤ lastExactTick := by
  constructor
  · exact fun h r hr => (nsOfTicks_eq_iff _).1 (h.exact r hr)
  · intro hlast
    have hle : ∀ r r', r <+: r' → r' <+: run →
        nsOfTicks (tickAfter r) ≤ nsOfTicks (tickAfter r') :=
      fun r r' h hrun => nsOfTicks_le (tickAfter_le hlast h hrun) (hlast r' hrun)
    refine ⟨fun r hr => (nsOfTicks_eq_iff _).2 (hlast r hr), fun r hr tick htick => ?_,
      fun r r' h hrun timeoutAt hdue => hdue.trans (hle r r' h hrun), ?_⟩
    · exact nsOfTicks_le htick (hlast r hr)
    · intro r r' h hrun timer hexpired
      unfold Timer.expired at hexpired ⊢
      have hnow := hle r r' h hrun
      simp only [Bool.and_eq_true, decide_eq_true_eq] at hexpired ⊢
      exact ⟨hexpired.1, hexpired.2.trans hnow⟩

/-- Two slices of twelve and a half minutes. -/
theorem clock_wraps : ¬ TellsTime [.elapse (nsOfTicks (200000000 * 1000)),
    .elapse (nsOfTicks (200000000 * 1000))] := by
  rw [clock_tells_time]
  intro h
  have hlast := h _ (List.prefix_refl _)
  revert hlast
  decide

/-! ## Slices -/

/-- The dispatcher's calls of `ElapseTime` for the cycles of some slices. -/
def passSlices : List (BitVec 64) → KM Unit
  | [] => pure ()
  | n :: l => do
    elapseTime (nsOfTicks n.toNat)
    passSlices l

def cycles (slices : List (BitVec 64)) : ℕ := (slices.map BitVec.toNat).sum

/-- The ticks that the counter advances by. -/
def passed (slices : List (BitVec 64)) : ℕ :=
  (slices.map fun n => ticksOfNs (nsOfTicks n.toNat)).sum

theorem passSlices_cons {n : BitVec 64} {l : List (BitVec 64)} {k k' : Kernel} :
    passSlices (n :: l) k = .ok () k' ↔
      ∃ k₁, elapseTime (nsOfTicks n.toNat) k = .ok () k₁ ∧ passSlices l k₁ = .ok () k' := by
  rw [passSlices, EStateM.bind_eq_ok_iff]
  exact ⟨fun ⟨_, h⟩ => h, fun h => ⟨(), h⟩⟩

/-- What passes all slices has passed the first of them. -/
theorem passSlices_initial {l l' : List (BitVec 64)} (hl : l <+: l') {k k' : Kernel}
    (h : passSlices l' k = .ok () k') : ∃ k₁, passSlices l k = .ok () k₁ := by
  obtain ⟨rest, rfl⟩ := hl
  induction l generalizing k with
  | nil => exact ⟨k, rfl⟩
  | cons n l ih =>
    obtain ⟨k₁, hn, hrest⟩ := passSlices_cons.1 h
    obtain ⟨k₂, hl⟩ := ih hrest
    exact ⟨k₂, passSlices_cons.2 ⟨k₁, hn, hl⟩⟩

theorem passSlices_systemTick {l : List (BitVec 64)} {k k' : Kernel}
    (h : passSlices l k = .ok () k') : k'.systemTick % 2 ^ 64 =
      (k.systemTick + passed l) % 2 ^ 64 := by
  induction l generalizing k with
  | nil =>
    cases h
    rfl
  | cons n l ih =>
    obtain ⟨k₁, hn, hl⟩ := passSlices_cons.1 h
    rw [ih hl, elapseTime_systemTick hn, Nat.mod_add_mod, Nat.add_assoc]
    rfl

theorem ticksOfNs_nsOfTicks_lt (n : BitVec 64) : ticksOfNs (nsOfTicks n.toNat) < 2 ^ 64 :=
  Nat.lt_of_le_of_lt (ticksOfNs_nsOfTicks_le n.toNat) n.isLt

theorem passed_append (l : List (BitVec 64)) (n : BitVec 64) :
    passed (l ++ [n]) = passed l + ticksOfNs (nsOfTicks n.toNat) := by
  rw [passed, List.map_append, List.sum_append, List.map_singleton, List.sum_singleton, passed]

theorem cycles_append (l : List (BitVec 64)) (n : BitVec 64) :
    cycles (l ++ [n]) = cycles l + n.toNat := by
  rw [cycles, List.map_append, List.sum_append, List.map_singleton, List.sum_singleton, cycles]

/-- Up to whole turns of the counter, the slices up to each are passed on if and only if each is. -/
theorem passed_eq_iff (tick : ℕ) (slices : List (BitVec 64)) :
    (∀ l, l <+: slices → (tick + passed l) % 2 ^ 64 = (tick + cycles l) % 2 ^ 64) ↔
      ∀ n ∈ slices, Whole n.toNat := by
  induction slices using List.reverseRecOn with
  | nil =>
    refine iff_of_true (fun l hl => ?_) fun n hn => nomatch hn
    rw [List.prefix_nil.1 hl, passed, cycles, List.map_nil, List.map_nil]
  | append_singleton slices n ih =>
    have hall : (∀ l, l <+: slices ++ [n] →
          (tick + passed l) % 2 ^ 64 = (tick + cycles l) % 2 ^ 64) ↔
        (∀ l, l <+: slices → (tick + passed l) % 2 ^ 64 = (tick + cycles l) % 2 ^ 64) ∧
        (tick + passed (slices ++ [n])) % 2 ^ 64 = (tick + cycles (slices ++ [n])) % 2 ^ 64 := by
      simp only [List.prefix_concat_iff]
      exact ⟨fun h => ⟨fun l hl => h l (.inr hl), h _ (.inl rfl)⟩,
        fun h l hl => hl.elim (fun he => he ▸ h.2) (h.1 l)⟩
    have hn := n.isLt
    have hlt := ticksOfNs_nsOfTicks_lt n
    rw [hall, List.forall_mem_append, List.forall_mem_singleton, ← ih, passed_append, cycles_append,
      ← ticksOfNs_nsOfTicks_eq_iff]
    refine and_congr_right fun h => ?_
    have hslices := h slices (List.prefix_refl _)
    generalize ticksOfNs (nsOfTicks n.toNat) = ticks at hlt ⊢
    generalize n.toNat = m at hn ⊢
    generalize passed slices = p at hslices ⊢
    generalize cycles slices = c at hslices ⊢
    omega

/-- The counter advances by the cycles of the slices, after every slice, if and only if every slice
takes a whole number of sixteenths of a second and is not too long. -/
theorem time_conserved {slices : List (BitVec 64)} {k k' : Kernel}
    (h : passSlices slices k = .ok () k') :
    (∀ l, l <+: slices → ∀ k₁, passSlices l k = .ok () k₁ →
      k₁.systemTick % 2 ^ 64 = (k.systemTick + cycles l) % 2 ^ 64) ↔
    ∀ n ∈ slices, Whole n.toNat := by
  rw [← passed_eq_iff k.systemTick]
  refine forall₂_congr fun l hl => ⟨fun hk => ?_, fun hk k₁ hk₁ => ?_⟩
  · obtain ⟨k₁, hk₁⟩ := passSlices_initial hl h
    rw [← passSlices_systemTick hk₁]
    exact hk k₁ hk₁
  · rw [passSlices_systemTick hk₁]
    exact hk

theorem notifyInterrupt_idle {index : ℕ} (h : k.boundInterrupts index = []) :
    notifyInterrupt index k = .ok () k := by
  show signalBound (k.boundInterrupts index) k = _
  rw [h]
  rfl

/-- A system in which nothing waits. -/
theorem elapseTime_idle {ns : ℕ} (htimers : k.activeTimers = []) (hqueue : k.waitingQueue = [])
    (hbound : ∀ index, k.boundInterrupts index = []) : ∃ k', elapseTime ns k = .ok () k' := by
  let k₁ : Kernel := { k with systemTick := (k.systemTick + ticksOfNs ns) % 2 ^ 64 }
  have hrest : ∀ k₂ : Kernel, k₂.waitingQueue = [] → ∃ k', (do
      scanWaitingQueue [] k₂.waitingQueue
      emit (.elapsed (← get).missedTimers) : KM Unit) k₂ = .ok () k' := by
    intro k₂ h
    rw [h]
    exact ⟨_, rfl⟩
  obtain ⟨k', hk'⟩ := hrest k₁ hqueue
  refine ⟨k', ?_⟩
  unfold elapseTime
  refine EStateM.bind_eq_ok_iff.2 ⟨k, k, rfl, ?_⟩
  refine EStateM.bind_eq_ok_iff.2 ⟨(), k₁, rfl, ?_⟩
  refine EStateM.bind_eq_ok_iff.2 ⟨k₁, k₁, rfl, ?_⟩
  refine EStateM.bind_eq_ok_iff.2 ⟨k₁, k₁, rfl, ?_⟩
  refine EStateM.bind_eq_ok_iff.2 ⟨(), k₁, ?_, ?_⟩
  · rw [show k₁.activeTimers = [] from htimers]
    rfl
  · refine EStateM.bind_eq_ok_iff.2 ⟨k₁, k₁, rfl, ?_⟩
    split
    · refine EStateM.bind_eq_ok_iff.2 ⟨(), k₁, notifyInterrupt_idle (hbound _), ?_⟩
      refine EStateM.bind_eq_ok_iff.2 ⟨(), k₁, notifyInterrupt_idle (hbound _), ?_⟩
      exact EStateM.bind_eq_ok_iff.2 ⟨(), k₁, notifyInterrupt_idle (hbound _), hk'⟩
    · exact hk'

theorem passSlices_idle (n : BitVec 64) : ∃ k', passSlices [n] {} = .ok () k' := by
  obtain ⟨k', h⟩ : ∃ k', elapseTime (nsOfTicks n.toNat) {} = .ok () k' :=
    elapseTime_idle rfl rfl fun _ => rfl
  exact ⟨k', passSlices_cons.2 ⟨k', h, rfl⟩⟩

/-- A sixteenth of a second. -/
theorem time_conserved_sixteenth : ∃ k', passSlices [16756991] {} = .ok () k' ∧
    ((∀ l, l <+: [16756991] → ∀ k₁, passSlices l {} = .ok () k₁ →
      k₁.systemTick % 2 ^ 64 = (({} : Kernel).systemTick + cycles l) % 2 ^ 64) ↔
    ∀ n ∈ [16756991#64], Whole n.toNat) := by
  obtain ⟨k', h⟩ := passSlices_idle 16756991
  exact ⟨k', h, time_conserved h⟩

/-- A slice of one cycle is lost. -/
theorem cycle_lost : ∃ k', passSlices [1] {} = .ok () k' ∧
    k'.systemTick % 2 ^ 64 ≠ (({} : Kernel).systemTick + cycles [1]) % 2 ^ 64 := by
  obtain ⟨k', h⟩ := passSlices_idle 1
  refine ⟨k', h, ?_⟩
  rw [passSlices_systemTick h]
  decide

end Mikage
