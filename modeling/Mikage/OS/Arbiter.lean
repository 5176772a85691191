import Mikage.OS.Runs

/-!
# Signals of the address arbiter

A Signal wakes entries of the kernel's thread list, the ones that `nth_element` puts in front. An
entry is not a thread: `SVCCreateThread` lists its thread twice.

- `wakeArbitrated_eq`: what waking a list of entries does.
- `signal_exact_iff`: when exactly the right threads are woken, whatever order `nth_element` leaves
  within its two parts.
-/

namespace Mikage

open KM

variable {k k' : Kernel} {t source : Ref} {address value : BitVec 32}

/-- The Signal case of `SVCArbitrateAddress`, up to the end of its switch. -/
def signalArbitration (env : Env) (source : Ref) (address value : BitVec 32) : KM Unit := do
  modifyThread source fun thread => { thread with promisedResult := 0 }
  let k ← get
  let threadsWaiting := k.waitingForArbitration address
  let threadsToWake := min value.toNat threadsWaiting.length
  let ordered := env.nthElement (fun t => (k.thread t).priority) threadsToWake threadsWaiting
  wakeArbitrated address (ordered.take threadsToWake)

theorem svcArbitrateAddress_signal (env : Env) (memoryValue : BitVec 32) :
    svcArbitrateAddress env source address .signal value memoryValue = (do
      signalArbitration env source address value
      reschedule) := by
  rfl

/-! ## What it wakes -/

def Thread.awake (thread : Thread) : Thread := { thread with status := .ready }

/-- The threads of a list are ready. -/
def wakeAll (l : List Ref) (thread : Store Thread) : Store Thread :=
  l.foldl (fun thread t => thread.modify t Thread.awake) thread

theorem wakeAll_get : ∀ (l : List Ref) (thread : Store Thread) (x : Ref),
    wakeAll l thread x = if x ∈ l then (thread x).awake else thread x
  | [], _, _ => rfl
  | t :: l, thread, x => by
    show wakeAll l (thread.modify t Thread.awake) x = _
    rw [wakeAll_get l, Store.get_modify]
    by_cases hx : x = t
    · simp [hx, Thread.awake]
    · simp [hx]

theorem wakeArbitrated_cons (address : BitVec 32) (t : Ref) (l : List Ref) (k : Kernel) : ∃ trace,
    wakeArbitrated address (t :: l) k = wakeArbitrated address l { k with
      thread := k.thread.modify t Thread.awake, readyQueue := k.readyQueue ++ [t],
      trace := trace } := by
  by_cases h : (k.thread t).status = .waitingForArbitration
  · refine ⟨k.trace ++ [.woken t (.signal address)] ++ [.signalled t (k.thread t).status], ?_⟩
    show (ite ((k.thread t).status = .waitingForArbitration) (_ : KM Unit) _) _ = _
    rw [if_pos h]
    rfl
  · refine ⟨k.trace ++ [.signalled t (k.thread t).status], ?_⟩
    show (ite ((k.thread t).status = .waitingForArbitration) (_ : KM Unit) _) _ = _
    rw [if_neg h]
    rfl

theorem wakeArbitrated_eq (address : BitVec 32) : ∀ (l : List Ref) (k : Kernel), ∃ trace,
    wakeArbitrated address l k = .ok () { k with
      thread := wakeAll l k.thread, readyQueue := k.readyQueue ++ l, trace := trace }
  | [], k => ⟨k.trace, by rw [List.append_nil]; rfl⟩
  | t :: l, k => by
    obtain ⟨first, hfirst⟩ := wakeArbitrated_cons address t l k
    obtain ⟨trace, hl⟩ := wakeArbitrated_eq address l { k with
      thread := k.thread.modify t Thread.awake, readyQueue := k.readyQueue ++ [t], trace := first }
    refine ⟨trace, ?_⟩
    rw [hfirst, hl, List.append_assoc]
    rfl

/-- The entries a Signal wakes. -/
def Kernel.chosen (k : Kernel) (env : Env) (address value : BitVec 32) : List Ref :=
  let threadsWaiting := k.waitingForArbitration address
  let threadsToWake := min value.toNat threadsWaiting.length
  (env.nthElement (fun t => (k.thread t).priority) threadsToWake threadsWaiting).take threadsToWake

/-- The result the call leaves in its thread. -/
def Kernel.promised (k : Kernel) (source : Ref) : Kernel :=
  { k with thread := k.thread.modify source fun thread => { thread with promisedResult := 0 } }

theorem waitingForArbitration_promised :
    (k.promised source).waitingForArbitration address = k.waitingForArbitration address := by
  refine List.filter_congr fun t _ => ?_
  have hstatus : ((k.promised source).thread t).status = (k.thread t).status :=
    Store.view_modify Thread.status _ _ rfl t
  have haddress : ((k.promised source).thread t).arbitrationAddress =
      (k.thread t).arbitrationAddress := Store.view_modify Thread.arbitrationAddress _ _ rfl t
  rw [hstatus, haddress]
  rfl

theorem priority_promised (t : Ref) :
    ((k.promised source).thread t).priority = (k.thread t).priority :=
  Store.view_modify Thread.priority _ _ rfl t

theorem signalArbitration_eq (k : Kernel) (source : Ref) (address value : BitVec 32) (env : Env) :
    ∃ trace,
    signalArbitration env source address value k = .ok () { k with
      thread := wakeAll (k.chosen env address value) (k.promised source).thread
      readyQueue := k.readyQueue ++ k.chosen env address value, trace := trace } := by
  have hchosen : (k.promised source).chosen env address value = k.chosen env address value := by
    simp only [Kernel.chosen, waitingForArbitration_promised, priority_promised]
  obtain ⟨trace, h⟩ := wakeArbitrated_eq address
    ((k.promised source).chosen env address value) (k.promised source)
  refine ⟨trace, ?_⟩
  rw [hchosen] at h
  exact (congrArg (wakeArbitrated address · (k.promised source)) hchosen).trans h

/-! ## The right threads -/

/-- The threads that wait for arbitration on the address, each counted once. -/
def Kernel.arbitrated (k : Kernel) (address : BitVec 32) : Finset Ref :=
  (k.waitingForArbitration address).toFinset

/-- The number of threads to wake; a negative value stands for all of them. -/
def signalCount (value : BitVec 32) (waiting : Nat) : Nat :=
  if value.toInt < 0 then waiting else min value.toNat waiting

/-- **What a Signal is for**: as many of the threads as it says, of the numerically lowest
priorities, become ready and are appended to the ready queue, each once. -/
structure SignalExact (k k' : Kernel) (source : Ref) (address value : BitVec 32) (woken : List Ref) :
    Prop where
  nodup : woken.Nodup
  waiting : ∀ t ∈ woken, t ∈ k.arbitrated address
  count : woken.length = signalCount value (k.arbitrated address).card
  lowest : ∀ t ∈ woken, ∀ u ∈ k.arbitrated address, u ∉ woken →
    (k.thread t).priority ≤ (k.thread u).priority
  queue : k'.readyQueue = k.readyQueue ++ woken
  threads : ∀ t, k'.thread t = if t ∈ woken then ((k.promised source).thread t).awake
    else (k.promised source).thread t

/-- However the entries of greatest priority are taken, no thread is among them twice. -/
def Kernel.Distinct (k : Kernel) (address value : BitVec 32) : Prop :=
  ∀ chosen rest : List Ref, (chosen ++ rest).Perm (k.waitingForArbitration address) →
    chosen.length = min value.toNat (k.waitingForArbitration address).length →
    (∀ t ∈ chosen, ∀ u ∈ rest, (k.thread u).priority ≤ (k.thread t).priority) → chosen.Nodup

/-- The order of the priorities does not matter: all threads are woken, or none, or they have the
same priority. -/
def Kernel.Unordered (k : Kernel) (address value : BitVec 32) : Prop :=
  (k.arbitrated address).card ≤ value.toNat ∨ 0 ≤ value.toInt ∧ (value = 0 ∨
    ∀ t ∈ k.arbitrated address, ∀ u ∈ k.arbitrated address,
      (k.thread t).priority = (k.thread u).priority)

instance : Decidable (k.Unordered address value) :=
  inferInstanceAs (Decidable (_ ∨ _ ∧ (_ ∨ ∀ t ∈ k.arbitrated address, ∀ u ∈ _, _)))

/-- The entries that are not woken. -/
def Kernel.spared (k : Kernel) (env : Env) (address value : BitVec 32) : List Ref :=
  let threadsWaiting := k.waitingForArbitration address
  let threadsToWake := min value.toNat threadsWaiting.length
  (env.nthElement (fun t => (k.thread t).priority) threadsToWake threadsWaiting).drop threadsToWake

section

variable (k : Kernel) (env : Env) (address value : BitVec 32)

theorem chosen_spared : (k.chosen env address value ++ k.spared env address value).Perm
    (k.waitingForArbitration address) := by
  simp only [Kernel.chosen, Kernel.spared, List.take_append_drop]
  exact env.nthElement_perm _ _ _

theorem chosen_length : (k.chosen env address value).length =
    min value.toNat (k.waitingForArbitration address).length := by
  simp only [Kernel.chosen, List.length_take, (env.nthElement_perm _ _ _).length_eq]
  omega

/-- `compare_by_priority` puts the numerically greatest priorities in front. -/
theorem chosen_greatest : ∀ t ∈ k.chosen env address value, ∀ u ∈ k.spared env address value,
    (k.thread u).priority ≤ (k.thread t).priority :=
  env.nthElement_split _ _ _

theorem arbitrated_card : (k.arbitrated address).card ≤ (k.waitingForArbitration address).length :=
  List.toFinset_card_le _

end

section

variable {env : Env}

theorem mem_arbitrated : t ∈ k.arbitrated address ↔
    t ∈ k.chosen env address value ∨ t ∈ k.spared env address value := by
  rw [Kernel.arbitrated, List.mem_toFinset, ← List.mem_append,
    (chosen_spared k env address value).mem_iff]

theorem chosen_subset : (k.chosen env address value).toFinset ⊆ k.arbitrated address :=
  fun _ ht => mem_arbitrated.2 (.inl (List.mem_toFinset.1 ht))

theorem unordered_of_exact (hnodup : (k.chosen env address value).Nodup)
    (hcount : (k.chosen env address value).length = signalCount value (k.arbitrated address).card)
    (hlowest : ∀ t ∈ k.chosen env address value, ∀ u ∈ k.arbitrated address,
      u ∉ k.chosen env address value → (k.thread t).priority ≤ (k.thread u).priority) :
    k.Unordered address value := by
  by_cases hall : (k.arbitrated address).card ≤ value.toNat
  · exact .inl hall
  have hlen := chosen_length k env address value
  have hpos : 0 ≤ value.toInt := by
    by_contra hneg
    rw [signalCount, if_pos (by omega)] at hcount
    omega
  refine .inr ⟨hpos, or_iff_not_imp_left.2 fun hzero => ?_⟩
  have hvalue : 0 < value.toNat := by
    by_contra h
    exact hzero (BitVec.eq_of_toNat_eq (by simpa using h))
  have hcard := arbitrated_card k address
  -- some thread is woken and some is not
  obtain ⟨a, ha⟩ := List.exists_mem_of_length_pos (l := k.chosen env address value) (by omega)
  have hmore : ¬ k.arbitrated address ⊆ (k.chosen env address value).toFinset := fun h => by
    have := Finset.card_le_card h
    rw [List.toFinset_card_of_nodup hnodup] at this
    omega
  obtain ⟨b, hb, hnot⟩ := Finset.not_subset.1 hmore
  rw [List.mem_toFinset] at hnot
  have hchosen (t : Ref) (ht : t ∈ k.chosen env address value) :
      (k.thread t).priority = (k.thread b).priority :=
    Nat.le_antisymm (hlowest t ht b hb hnot)
      (chosen_greatest k env address value t ht b ((mem_arbitrated.1 hb).resolve_left hnot))
  have hsame (t : Ref) (ht : t ∈ k.arbitrated address) :
      (k.thread t).priority = (k.thread b).priority := by
    by_cases h : t ∈ k.chosen env address value
    · exact hchosen t h
    · have hle := chosen_greatest k env address value a ha t ((mem_arbitrated.1 ht).resolve_left h)
      exact (Nat.le_antisymm hle (hlowest a ha t ht h)).trans (hchosen a ha)
  exact fun t ht u hu => (hsame t ht).trans (hsame u hu).symm

theorem exact_of_unordered (hnodup : (k.chosen env address value).Nodup)
    (h : k.Unordered address value) :
    (k.chosen env address value).length = signalCount value (k.arbitrated address).card ∧
    ∀ t ∈ k.chosen env address value, ∀ u ∈ k.arbitrated address,
      u ∉ k.chosen env address value → (k.thread t).priority ≤ (k.thread u).priority := by
  have hlen := chosen_length k env address value
  have hcard := arbitrated_card k address
  have hsub : (k.chosen env address value).toFinset ⊆ k.arbitrated address := chosen_subset
  have hle := Finset.card_le_card hsub
  rw [List.toFinset_card_of_nodup hnodup] at hle
  by_cases hall : (k.arbitrated address).card ≤ value.toNat
  · have heq : (k.chosen env address value).length = (k.arbitrated address).card := by omega
    refine ⟨?_, fun t _ u hu hnot => absurd ?_ hnot⟩
    · rw [signalCount]
      split <;> omega
    · have hset := Finset.eq_of_subset_of_card_le hsub
        (by rw [List.toFinset_card_of_nodup hnodup, heq])
      rw [← hset] at hu
      exact List.mem_toFinset.1 hu
  · obtain ⟨hpos, hsame⟩ := h.resolve_left hall
    refine ⟨?_, fun t ht u hu _ => ?_⟩
    · rw [signalCount, if_neg (by omega)]
      omega
    · rcases hsame with hzero | hsame
      · have hnone : value.toNat = 0 := by rw [hzero]; rfl
        rw [hnone, Nat.zero_min] at hlen
        rw [List.length_eq_zero_iff.1 hlen] at ht
        exact absurd ht List.not_mem_nil
      · exact Nat.le_of_eq (hsame t (mem_arbitrated.2 (.inl ht)) u hu)

end

theorem signalExact_iff (env : Env) :
    (∃ k' woken, signalArbitration env source address value k = .ok () k' ∧
      SignalExact k k' source address value woken) ↔
    (k.chosen env address value).Nodup ∧ k.Unordered address value := by
  obtain ⟨trace, heq⟩ := signalArbitration_eq k source address value env
  constructor
  · rintro ⟨k', woken, hrun, h⟩
    rw [heq] at hrun
    injection hrun with _ hk
    subst hk
    have hwoken : k.chosen env address value = woken := List.append_cancel_left h.queue
    subst hwoken
    exact ⟨h.nodup, unordered_of_exact h.nodup h.count h.lowest⟩
  · rintro ⟨hnodup, h⟩
    obtain ⟨hcount, hlowest⟩ := exact_of_unordered hnodup h
    exact ⟨_, _, heq, hnodup, fun t ht => mem_arbitrated.2 (.inl ht), hcount, hlowest, rfl,
      fun t => wakeAll_get _ _ t⟩

/-! ## Whatever `nth_element` does -/

/-- An `nth_element` that takes the given entries. -/
noncomputable def Env.choosing (key : Ref → Nat) {n : Nat} {l chosen rest : List Ref}
    (hperm : (chosen ++ rest).Perm l) (hlen : chosen.length = n)
    (hsplit : ∀ t ∈ chosen, ∀ u ∈ rest, key u ≤ key t) : Env where
  __ := Env.sorting
  nthElement key' n' l' :=
    open Classical in
    if key' = key ∧ n' = n ∧ l' = l then chosen ++ rest else Env.sorting.nthElement key' n' l'
  nthElement_perm key' n' l' := by
    split
    next h => exact h.2.2 ▸ hperm
    next => exact Env.sorting.nthElement_perm _ _ _
  nthElement_split key' n' l' := by
    split
    next h =>
      obtain ⟨rfl, rfl, rfl⟩ := h
      rw [List.take_left' hlen, List.drop_left' hlen]
      exact hsplit
    next => exact Env.sorting.nthElement_split _ _ _

/-- **A Signal wakes the right threads**, whatever `nth_element` does to the order of the entries,
exactly if it cannot take a thread twice and need not look at the priorities. -/
theorem signal_exact (k : Kernel) (source : Ref) (address value : BitVec 32) :
    (∀ env memoryValue, svcArbitrateAddress env source address .signal value memoryValue = do
      signalArbitration env source address value
      reschedule) ∧
    ((∀ env, ∃ k' woken, signalArbitration env source address value k = .ok () k' ∧
      SignalExact k k' source address value woken) ↔
    k.Distinct address value ∧ k.Unordered address value) := by
  refine ⟨fun env memoryValue => svcArbitrateAddress_signal env memoryValue, fun h => ⟨?_, ?_⟩, ?_⟩
  · intro chosen rest hperm hlen hsplit
    have hnodup := ((signalExact_iff _).1 (h (.choosing (fun t => (k.thread t).priority) hperm hlen
      hsplit))).1
    have hchosen : k.chosen (.choosing (fun t => (k.thread t).priority) hperm hlen hsplit) address
        value = chosen := by
      simp only [Kernel.chosen, Env.choosing, and_self, if_true]
      exact List.take_left' hlen
    rwa [hchosen] at hnodup
  · exact ((signalExact_iff _).1 (h .sorting)).2
  · rintro ⟨hdistinct, hunordered⟩ env
    exact (signalExact_iff env).2 ⟨hdistinct _ _ (chosen_spared k env address value)
      (chosen_length k env address value) (chosen_greatest k env address value), hunordered⟩

/-- Threads 2 and 3 of a high-level emulated process wait, thread 2 with priority 5 and thread 3 with
priority 0. -/
def twoWaiting : List Turn :=
  [{ host := [.attachThread, .attachThread] }, { svc := .setThreadPriority handleCurrentThread 5 },
   { svc := .arbitrateAddress 0x100000 .acquire 1 0 },
   { svc := .arbitrateAddress 0x100000 .acquire 1 0 }]

/-- Thread 4, which thread 3 has created, waits. -/
def createdWaiting : List Turn :=
  [{ svc := .createProcess false }, { svc := .run 1 48 }, { svc := .createThread 48 }, {},
   { svc := .arbitrateAddress 0x100000 .acquire 1 0 }]

/-- A Signal for one of two threads wakes the one with the greater priority value, and a Signal for
two wakes a thread twice. -/
theorem signal_not_exact :
    (∃ k, Reached .sorting k ∧ ¬ ∀ env, ∃ k' woken, signalArbitration env 1 0x100000 1 k = .ok () k' ∧
      SignalExact k k' 1 0x100000 1 woken) ∧
    ∃ k, Reached .sorting k ∧ ¬ ∀ env, ∃ k' woken, signalArbitration env 3 0x100000 2 k = .ok () k' ∧
      SignalExact k k' 3 0x100000 2 woken := by
  constructor
  · have hpasses : (passes .sorting twoWaiting boot).any
        (fun k => decide ¬ k.Unordered 0x100000 1) = true := by decide +kernel
    obtain ⟨k, hk, hp⟩ := (Option.any_eq_true _ _).1 hpasses
    refine ⟨k, (passes_reached (.start rfl) hk).1, fun h => of_decide_eq_true hp ?_⟩
    exact ((signalExact_iff _).1 (h .sorting)).2
  · have hpasses : (passes .sorting createdWaiting boot).any
        (fun k => decide (k.waitingForArbitration 0x100000 = [4, 4])) = true := by decide +kernel
    obtain ⟨k, hk, hp⟩ := (Option.any_eq_true _ _).1 hpasses
    have htwice : k.waitingForArbitration 0x100000 = [4, 4] := of_decide_eq_true hp
    refine ⟨k, (passes_reached (.start rfl) hk).1, fun h => ?_⟩
    have hnodup := ((signalExact_iff _).1 (h .sorting)).1
    have hperm := chosen_spared k .sorting 0x100000 2
    have hlen := chosen_length k .sorting 0x100000 2
    rw [htwice] at hlen hperm
    have hnone : k.spared .sorting 0x100000 2 = [] := by
      have := hperm.length_eq
      rw [List.length_append, hlen] at this
      exact List.length_eq_zero_iff.1 (Nat.add_left_cancel this)
    rw [hnone, List.append_nil] at hperm
    exact absurd (hperm.nodup_iff.1 hnodup) (by decide)

end Mikage
