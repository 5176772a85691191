import Mathlib
import Mikage.Framework.Exceptions
import Mikage.Lib.Account

/-!
# Resource limits

`SVCSetResourceLimitValues` and the two calls that read limits back. Both sides walk through lists
in the memory of the caller, which may throw at any access. What lies behind the table of limits is
not known to the calls.

- `LimitState`: the memory and the table, with the accesses to the table and what was answered.
- `expected`: what reading back should give.
-/

namespace Mikage.ResourceLimits

def numResources : ℕ := 10

structure ResourceLimit where
  limits : List (BitVec 64) := List.replicate numResources 0
  limits_length : limits.length = numResources := by decide

/-- The memory of the calling thread. -/
structure GuestMemory (M : Type) where
  readMemory32 : BitVec 32 → EStateM Exception M (BitVec 32)
  writeMemory32 : BitVec 32 → BitVec 32 → EStateM Exception M Unit

/-- A type that was asked for, with the two words that were written for it. -/
structure Answer where
  type : BitVec 32
  low : BitVec 32
  high : BitVec 32
  deriving DecidableEq

/-- The state of a call: `accesses` are the indices into the table it has used, `asked` the types it
has looked up and `answers` those it has written out. -/
structure LimitState (M : Type) where
  memory : M
  limit : ResourceLimit
  accesses : List ℕ := []
  asked : List (BitVec 32) := []
  answers : List Answer := []

abbrev LimitM (M : Type) := EStateM Exception (LimitState M)

section

variable {M : Type}

/-- An access to the memory of the caller. -/
def guest {α : Type} (x : EStateM Exception M α) : LimitM M α := fun s =>
  match x s.memory with
  | .ok a m => .ok a { s with memory := m }
  | .error e m => .error e { s with memory := m }

/-- `limits[index]`, with what is `beyond` the table. -/
def readLimit (beyond : ℕ → BitVec 64) (index : ℕ) : LimitM M (BitVec 64) := do
  modify fun s => { s with accesses := s.accesses ++ [index] }
  pure ((← get).limit.limits.getD index (beyond index))

def ResourceLimit.set (limit : ResourceLimit) (index : ℕ) (value : BitVec 64) : ResourceLimit :=
  ⟨limit.limits.set index value, by rw [List.length_set, limit.limits_length]⟩

/-- `limits[index] = value`. -/
def writeLimit (index : ℕ) (value : BitVec 64) : LimitM M Unit :=
  modify fun s => { s with accesses := s.accesses ++ [index], limit := s.limit.set index value }

/-! ## Setting -/

/-- A limit type and the two words of its value, as they are read from the caller's lists. -/
structure LimitWords where
  type : BitVec 32
  low : BitVec 32
  high : BitVec 32
  deriving DecidableEq

/-- The value in the caller's list. -/
def LimitWords.given (words : LimitWords) : BitVec 64 :=
  words.low.setWidth 64 ||| words.high.setWidth 64 <<< 32

/-- The type and value that are passed on: the value goes through a variable of 32 bits. -/
def LimitWords.limit (words : LimitWords) : BitVec 32 × BitVec 64 :=
  let value : BitVec 32 := words.given.setWidth 32
  (words.type, value.setWidth 64)

def readWords (mem : GuestMemory M) : ℕ → BitVec 32 → BitVec 32 → LimitM M (List LimitWords)
  | 0, _, _ => pure []
  | n + 1, limitTypeAddr, limitValueAddr => do
    let type ← guest (mem.readMemory32 limitTypeAddr)
    let low ← guest (mem.readMemory32 limitValueAddr)
    let high ← guest (mem.readMemory32 (limitValueAddr + 4))
    let rest ← readWords mem n (limitTypeAddr + 4) (limitValueAddr + 8)
    pure (⟨type, low, high⟩ :: rest)

def setLimits : List (BitVec 32 × BitVec 64) → LimitM M Unit
  | [] => pure ()
  | (type, value) :: l => do
    -- `SVCBreak`
    if numResources ≤ type.toNat then throw (.invalid "Kernel panic:")
    writeLimit type.toNat value
    setLimits l

def svcSetResourceLimitValues (mem : GuestMemory M) (limitTypeAddr limitValueAddr : BitVec 32)
    (limitCount : ℕ) : LimitM M (List LimitWords) := do
  let words ← readWords mem limitCount limitTypeAddr limitValueAddr
  setLimits (words.map LimitWords.limit)
  pure words

/-! ## Reading back -/

/-- The bound check of both calls lets the number of limits itself through. -/
def checkType (type : BitVec 32) : LimitM M Unit :=
  if numResources < type.toNat then throw (.invalid "Out-of-bounds limit type")
  else modify fun s => { s with asked := s.asked ++ [type] }

/-- Writes out a value in two words. -/
def answer (mem : GuestMemory M) (outAddr : BitVec 32) (type low high : BitVec 32) :
    LimitM M Unit := do
  guest (mem.writeMemory32 outAddr low)
  guest (mem.writeMemory32 (outAddr + 4) high)
  modify fun s => { s with answers := s.answers ++ [⟨type, low, high⟩] }

/-- `GetResourceLimitLimitValues`, from name number `name` on. -/
def getLimitValues (mem : GuestMemory M) (beyond : ℕ → BitVec 64) (outAddr namesAddr : BitVec 32) :
    ℕ → ℕ → LimitM M Unit
  | 0, _ => pure ()
  | n + 1, name => do
    let type ← guest (mem.readMemory32 (namesAddr + BitVec.ofNat 32 (name * 4)))
    checkType type
    let low ← readLimit beyond type.toNat
    let high ← readLimit beyond type.toNat
    answer mem (outAddr + BitVec.ofNat 32 (8 * name)) type ((low &&& 0xffffffff).setWidth 32)
      ((high >>> 32).setWidth 32)
    getLimitValues mem beyond outAddr namesAddr n (name + 1)

/-- `GetResourceLimitCurrentValues`, of which only the memory in use is implemented. -/
def getCurrentValues (mem : GuestMemory M) (usedMemory : BitVec 32)
    (outAddr namesAddr : BitVec 32) : ℕ → ℕ → LimitM M Unit
  | 0, _ => pure ()
  | n + 1, name => do
    let type ← guest (mem.readMemory32 (namesAddr + BitVec.ofNat 32 (name * 4)))
    checkType type
    -- `throw 5`
    if type ≠ 1 then throw (.runtimeError "5")
    answer mem (outAddr + BitVec.ofNat 32 (8 * name)) type usedMemory 0
    getCurrentValues mem usedMemory outAddr namesAddr n (name + 1)

/-- The state a call ends in, also when it throws. -/
def final {α : Type} (x : LimitM M α) (s : LimitState M) : LimitState M :=
  match x s with
  | .ok _ s' => s'
  | .error _ s' => s'

/-! ## What is kept -/

/-- The last of the given words for a type. -/
def lastWords (words : List LimitWords) (type : BitVec 32) : Option LimitWords :=
  (words.filter (·.type = type)).getLast?

/-- The last value given for a type, else the value from before. -/
def expected (words : List LimitWords) (old : ResourceLimit) (type : BitVec 32) : BitVec 64 :=
  ((lastWords words type).map LimitWords.given).getD (old.limits.getD type.toNat 0)

def Answer.value (a : Answer) : BitVec 64 := a.low.setWidth 64 ||| a.high.setWidth 64 <<< 32

theorem lastWords_cons (w : LimitWords) (words : List LimitWords) (type : BitVec 32) :
    lastWords (w :: words) type =
      (lastWords words type).or (if w.type = type then some w else none) := by
  unfold lastWords
  by_cases h : w.type = type
  · rw [List.filter_cons_of_pos (by simpa using h), List.getLast?_cons, if_pos h]
    cases (words.filter (·.type = type)).getLast? <;> rfl
  · rw [List.filter_cons_of_neg (by simpa using h), if_neg h, Option.or_none]

/-- What setting the given words leaves: the last value for a type, cut to 32 bits. -/
def stored (words : List LimitWords) (old : ResourceLimit) (type : BitVec 32) : BitVec 64 :=
  ((lastWords words type).map fun w => w.limit.2).getD (old.limits.getD type.toNat 0)

theorem getD_set (limit : ResourceLimit) {index : ℕ} (h : index < numResources) (value : BitVec 64)
    (i : ℕ) : (limit.set index value).limits.getD i 0 =
      if index = i then value else limit.limits.getD i 0 := by
  have hlength : index < limit.limits.length := by rw [limit.limits_length]; exact h
  simp only [ResourceLimit.set, List.getD_eq_getElem?_getD]
  rw [List.getElem?_set, if_pos hlength]
  split
  · rfl
  · rfl

/-- One more word in front counts where the others have none for the type. -/
theorem stored_cons {w : LimitWords} (words : List LimitWords) (limit : ResourceLimit)
    (h : w.type.toNat < numResources) (type : BitVec 32) :
    stored (w :: words) limit type = stored words (limit.set w.type.toNat w.limit.2) type := by
  unfold stored
  rw [lastWords_cons, getD_set limit h]
  cases lastWords words type with
  | some w' => rfl
  | none =>
    rw [Option.none_or]
    by_cases heq : w.type = type
    · rw [if_pos heq, if_pos (congrArg _ heq)]
      rfl
    · rw [if_neg heq, if_neg fun h' => heq (BitVec.toNat_inj.1 h')]

/-- Everything the calls do to the table stays inside. -/
def Inside (s : LimitState M) : Prop := ∀ i ∈ s.accesses, i < numResources

/-- How setting the given words ends. -/
theorem setLimits_ends (words : List LimitWords) {s : LimitState M} (h : Inside s) :
    Ends (setLimits (words.map LimitWords.limit)) s
      (fun _ s' => Inside s' ∧ ∀ type : BitVec 32,
        s'.limit.limits.getD type.toNat 0 = stored words s.limit type)
      (fun _ s' => Inside s') := by
  induction words generalizing s with
  | nil => exact ends_pure.2 ⟨h, fun _ => rfl⟩
  | cons w words ih =>
    rw [List.map_cons]
    unfold setLimits
    refine Ends.split (fun _ => h) fun hlt => ?_
    have hlt : w.type.toNat < numResources := Nat.not_le.1 hlt
    have hinside : Inside { s with
        accesses := s.accesses ++ [w.type.toNat]
        limit := s.limit.set w.type.toNat w.limit.2 } := by
      intro i hi
      rcases List.mem_append.1 hi with hi | hi
      · exact h i hi
      · exact List.mem_singleton.1 hi ▸ hlt
    refine (ih hinside).mono (fun _ s' hs' => ⟨hs'.1, fun type => ?_⟩) fun _ _ h => h
    rw [hs'.2 type, stored_cons words s.limit hlt]

theorem guest_ends {α : Type} (x : EStateM Exception M α) (s : LimitState M) :
    Ends (guest x) s (fun _ s' => ∃ m, s' = { s with memory := m })
      (fun _ s' => ∃ m, s' = { s with memory := m }) := by
  unfold Ends guest
  cases x s.memory with
  | ok a m => exact ⟨m, rfl⟩
  | error e m => exact ⟨m, rfl⟩

theorem readWords_ends (mem : GuestMemory M) (n : ℕ) (typeAddr valueAddr : BitVec 32)
    (s : LimitState M) :
    Ends (readWords mem n typeAddr valueAddr) s (fun _ s' => ∃ m, s' = { s with memory := m })
      (fun _ s' => ∃ m, s' = { s with memory := m }) := by
  induction n generalizing typeAddr valueAddr s with
  | zero => exact ends_pure.2 ⟨s.memory, rfl⟩
  | succ n ih =>
    unfold readWords
    refine Ends.bind (guest_ends _ s) ?_
    rintro type _ ⟨m₁, rfl⟩
    refine Ends.bind (guest_ends _ _) ?_
    rintro low _ ⟨m₂, rfl⟩
    refine Ends.bind (guest_ends _ _) ?_
    rintro high _ ⟨m₃, rfl⟩
    refine Ends.bind (ih _ _ _) ?_
    rintro rest _ ⟨m₄, rfl⟩
    exact ends_pure.2 ⟨m₄, rfl⟩

theorem svcSetResourceLimitValues_ends (mem : GuestMemory M) (typeAddr valueAddr : BitVec 32)
    (n : ℕ) {s : LimitState M} (h : Inside s) :
    Ends (svcSetResourceLimitValues mem typeAddr valueAddr n) s
      (fun words s' => Inside s' ∧ ∀ type : BitVec 32,
        s'.limit.limits.getD type.toNat 0 = stored words s.limit type)
      (fun _ s' => Inside s') := by
  unfold svcSetResourceLimitValues
  have hread := readWords_ends mem n typeAddr valueAddr s
  refine Ends.bind (hread.mono (fun _ _ h => h) ?_) ?_
  · rintro _ _ ⟨m, rfl⟩
    exact h
  · rintro words _ ⟨m, rfl⟩
    exact Ends.bind (setLimits_ends words (s := { s with memory := m }) h) fun _ _ h => h

/-! ## What is read back -/

/-- Every index that has been used is that of a type that was looked up, and every answer is the
limit of its type. -/
structure Looked (beyond : ℕ → BitVec 64) (table : ResourceLimit) (s : LimitState M) : Prop where
  limit : s.limit = table
  asked : ∀ type ∈ s.asked, type.toNat ≤ numResources ∧ type.toNat ∈ s.accesses
  accesses : ∀ i ∈ s.accesses, ∃ type ∈ s.asked, i = type.toNat
  answers : ∀ a ∈ s.answers, a.type ∈ s.asked ∧
    a.value = table.limits.getD a.type.toNat (beyond a.type.toNat)

theorem value_words (type : BitVec 32) (value : BitVec 64) :
    Answer.value ⟨type, (value &&& 0xffffffff).setWidth 32, (value >>> 32).setWidth 32⟩ =
      value := by
  have hmask (i : ℕ) : (0xffffffff : BitVec 64).getLsbD i = decide (i < 32) := by
    rw [show (0xffffffff : BitVec 64) = BitVec.ofNat 64 (2 ^ 32 - 1) from rfl, BitVec.getLsbD_ofNat,
      Nat.testBit_two_pow_sub_one]
    by_cases h : i < 32
    · simp [h, Nat.lt_trans h (by decide : 32 < 64)]
    · simp [h]
  unfold Answer.value
  ext i hi
  rw [← BitVec.getLsbD_eq_getElem, ← BitVec.getLsbD_eq_getElem]
  simp only [BitVec.getLsbD_or, BitVec.getLsbD_setWidth, BitVec.getLsbD_and, hmask,
    BitVec.getLsbD_shiftLeft, BitVec.getLsbD_ushiftRight, hi]
  by_cases h : i < 32
  · simp [h]
  · have hsub : i - 32 < 32 := by omega
    simp [h, hsub, Nat.add_sub_cancel' (Nat.not_lt.1 h), Nat.lt_of_le_of_lt (Nat.sub_le i 32) hi]

namespace Looked

variable {beyond : ℕ → BitVec 64} {table : ResourceLimit} {s : LimitState M}

theorem memory (h : Looked beyond table s) (m : M) : Looked beyond table { s with memory := m } :=
  { h with }

theorem lookup (h : Looked beyond table s) {type : BitVec 32}
    (htype : ¬ numResources < type.toNat) :
    Looked beyond table { s with
      accesses := s.accesses ++ [type.toNat] ++ [type.toNat], asked := s.asked ++ [type] } where
  limit := h.limit
  asked := by
    intro x hx
    rcases List.mem_append.1 hx with hx | hx
    · exact ⟨(h.asked x hx).1, List.mem_append_left _ (List.mem_append_left _ (h.asked x hx).2)⟩
    · rw [List.mem_singleton.1 hx]
      exact ⟨Nat.not_lt.1 htype, List.mem_append_right _ (List.mem_singleton_self _)⟩
  accesses := by
    have hself : ∃ x ∈ s.asked ++ [type], type.toNat = x.toNat :=
      ⟨type, List.mem_append_right _ (List.mem_singleton_self _), rfl⟩
    intro i hi
    rcases List.mem_append.1 hi with hi | hi
    · rcases List.mem_append.1 hi with hi | hi
      · obtain ⟨x, hx, hix⟩ := h.accesses i hi
        exact ⟨x, List.mem_append_left _ hx, hix⟩
      · exact List.mem_singleton.1 hi ▸ hself
    · exact List.mem_singleton.1 hi ▸ hself
  answers := fun a ha => ⟨List.mem_append_left _ (h.answers a ha).1, (h.answers a ha).2⟩

theorem answer (h : Looked beyond table s) {type low high : BitVec 32} (htype : type ∈ s.asked)
    (hvalue : Answer.value ⟨type, low, high⟩ = table.limits.getD type.toNat (beyond type.toNat)) :
    Looked beyond table { s with answers := s.answers ++ [⟨type, low, high⟩] } where
  limit := h.limit
  asked := h.asked
  accesses := h.accesses
  answers := by
    intro a ha
    rcases List.mem_append.1 ha with ha | ha
    · exact h.answers a ha
    · rw [List.mem_singleton.1 ha]
      exact ⟨htype, hvalue⟩

end Looked

theorem answer_ends (mem : GuestMemory M) (outAddr type low high : BitVec 32) (s : LimitState M) :
    Ends (answer mem outAddr type low high) s
      (fun _ s' => ∃ m, s' = { s with memory := m, answers := s.answers ++ [⟨type, low, high⟩] })
      (fun _ s' => ∃ m, s' = { s with memory := m }) := by
  unfold answer
  refine Ends.bind (guest_ends _ s) ?_
  rintro _ _ ⟨m₁, rfl⟩
  refine Ends.bind (guest_ends _ _) ?_
  rintro _ _ ⟨m₂, rfl⟩
  exact ⟨m₂, rfl⟩

/-- How reading back ends, at whatever access it ends. -/
theorem getLimitValues_ends (mem : GuestMemory M) (beyond : ℕ → BitVec 64)
    {table : ResourceLimit} (outAddr namesAddr : BitVec 32) (n name : ℕ) {s : LimitState M}
    (h : Looked beyond table s) :
    Ends (getLimitValues mem beyond outAddr namesAddr n name) s
      (fun _ s' => Looked beyond table s') (fun _ s' => Looked beyond table s') := by
  induction n generalizing name s with
  | zero => exact h
  | succ n ih =>
    unfold getLimitValues
    refine Ends.bind ((guest_ends _ s).mono (fun _ _ h => h) ?_) ?_
    · rintro _ _ ⟨m, rfl⟩
      exact h.memory m
    · rintro type _ ⟨m, rfl⟩
      unfold checkType
      refine Ends.bind (Q := fun _ s' => ¬ numResources < type.toNat ∧
        s' = { s with memory := m, asked := s.asked ++ [type] }) ?_ ?_
      · exact Ends.split (fun _ => h.memory m) fun hle => ⟨hle, rfl⟩
      · rintro _ _ ⟨hle, rfl⟩
        simp only [readLimit, ends_assoc, ends_modify, ends_get, ends_pure_bind]
        have hlooked := (h.memory m).lookup hle
        refine Ends.bind ((answer_ends _ _ _ _ _ _).mono (fun _ _ h => h) ?_) ?_
        · rintro _ _ ⟨m', rfl⟩
          exact hlooked.memory m'
        · rintro _ _ ⟨m', rfl⟩
          refine ih _ ((hlooked.memory m').answer
            (List.mem_append_right _ (List.mem_singleton_self _)) ?_)
          rw [value_words]
          exact congrArg (fun limit : ResourceLimit =>
            limit.limits.getD type.toNat (beyond type.toNat)) h.limit

/-- Reading the current values does not use the table. -/
theorem getCurrentValues_ends (mem : GuestMemory M) (usedMemory outAddr namesAddr : BitVec 32)
    (n name : ℕ) {s : LimitState M} (h : Inside s) :
    Ends (getCurrentValues mem usedMemory outAddr namesAddr n name) s
      (fun _ s' => Inside s') (fun _ s' => Inside s') := by
  induction n generalizing name s with
  | zero => exact h
  | succ n ih =>
    unfold getCurrentValues
    refine Ends.bind ((guest_ends _ s).mono (fun _ _ h => h) ?_) ?_
    · rintro _ _ ⟨m, rfl⟩
      exact h
    · rintro type _ ⟨m, rfl⟩
      unfold checkType
      refine Ends.bind (Q := fun _ s' => Inside s') (Ends.split (fun _ => h) fun _ => h) ?_
      intro _ s₁ h₁
      refine Ends.split (fun _ => h₁) fun _ => ?_
      refine Ends.bind ((answer_ends _ _ _ _ _ s₁).mono (fun _ _ h => h) ?_) ?_
      · rintro _ _ ⟨m', rfl⟩
        exact h₁
      · rintro _ _ ⟨m', rfl⟩
        exact ih _ h₁

theorem final_of_ends {α : Type} {x : LimitM M α} {s : LimitState M} {P : LimitState M → Prop}
    (h : Ends x s (fun _ s' => P s') (fun _ s' => P s')) : P (final x s) := by
  unfold Ends at h
  unfold final
  cases hx : x s with
  | ok a s' =>
    rw [hx] at h
    exact h
  | error e s' =>
    rw [hx] at h
    exact h

theorem limit_eq_given_iff (w : LimitWords) : w.limit.2 = w.given ↔ w.high = 0 := by
  have hhigh (i : ℕ) (hi : i < 32) : w.given.getLsbD (32 + i) = w.high.getLsbD i := by
    simp [LimitWords.given, hi, show 32 + i < 64 by omega]
  show (w.given.setWidth 32).setWidth 64 = w.given ↔ _
  constructor
  · intro h
    apply BitVec.eq_of_getLsbD_eq
    intro i hi
    rw [← hhigh i hi, ← h]
    simp [BitVec.getLsbD_setWidth]
  · intro h
    apply BitVec.eq_of_getLsbD_eq
    intro i hi
    by_cases hlow : i < 32
    · simp [hi, hlow]
    · have hzero : w.given.getLsbD i = false := by
        have hsub := hhigh (i - 32) (by omega)
        rw [Nat.add_sub_cancel' (Nat.not_lt.1 hlow), h] at hsub
        exact hsub.trans (by simp)
      rw [hzero]
      simp [BitVec.getLsbD_setWidth, hlow]

theorem stored_eq_expected_iff (words : List LimitWords) (limit : ResourceLimit)
    (type : BitVec 32) : stored words limit type = expected words limit type ↔
      ∀ w ∈ lastWords words type, w.high = 0 := by
  unfold stored expected
  cases lastWords words type with
  | none => exact iff_of_true rfl nofun
  | some w =>
    have heq := limit_eq_given_iff w
    simpa using heq

/-- Limits that were set are read back, and the table is not left, exactly if the values read back
fit into 32 bits and nothing asks for a type equal to the number of limits. -/
theorem limits_round_trip (mem : GuestMemory M) (beyond : ℕ → BitVec 64) (usedMemory : BitVec 32)
    {typeAddr valueAddr : BitVec 32} {limitCount : ℕ} {memory : M} {limit : ResourceLimit}
    {words : List LimitWords} {s₁ : LimitState M}
    (hset : svcSetResourceLimitValues mem typeAddr valueAddr limitCount
      ⟨memory, limit, [], [], []⟩ = .ok words s₁)
    (memory' : M) (outAddr namesAddr : BitVec 32) (numNames : ℕ) :
    let s₂ := final (getLimitValues mem beyond outAddr namesAddr numNames 0)
      ⟨memory', s₁.limit, [], [], []⟩
    let s₃ := final (getCurrentValues mem usedMemory outAddr namesAddr numNames 0)
      ⟨memory', s₁.limit, [], [], []⟩
    ((∀ a ∈ s₂.answers, a.value = expected words limit a.type) ∧
      Inside s₁ ∧ Inside s₂ ∧ Inside s₃) ↔
    (∀ type ∈ s₂.asked, type.toNat ≠ numResources) ∧
      ∀ a ∈ s₂.answers, ∀ w ∈ lastWords words a.type, w.high = 0 := by
  intro s₂ s₃
  obtain ⟨hinside, hstored⟩ :=
    (svcSetResourceLimitValues_ends mem typeAddr valueAddr limitCount
      fun _ h => absurd h List.not_mem_nil).ok hset
  have hlooked : Looked beyond s₁.limit s₂ :=
    final_of_ends (getLimitValues_ends mem beyond outAddr namesAddr numNames 0
      ⟨rfl, fun _ h => absurd h List.not_mem_nil, fun _ h => absurd h List.not_mem_nil,
        fun _ h => absurd h List.not_mem_nil⟩)
  have hcurrent : Inside s₃ :=
    final_of_ends (getCurrentValues_ends mem usedMemory outAddr namesAddr numNames 0
      (fun _ h => absurd h List.not_mem_nil))
  have htypes : Inside s₂ ↔ ∀ type ∈ s₂.asked, type.toNat ≠ numResources := by
    constructor
    · exact fun h type htype => (h _ (hlooked.asked type htype).2).ne
    · intro h i hi
      obtain ⟨type, htype, rfl⟩ := hlooked.accesses i hi
      exact Nat.lt_of_le_of_ne (hlooked.asked type htype).1 (h type htype)
  have hanswers (h : Inside s₂) : ∀ a ∈ s₂.answers,
      (a.value = expected words limit a.type ↔ ∀ w ∈ lastWords words a.type, w.high = 0) := by
    intro a ha
    obtain ⟨htype, hvalue⟩ := hlooked.answers a ha
    have hlt : a.type.toNat < s₁.limit.limits.length := by
      rw [s₁.limit.limits_length]
      exact h _ (hlooked.asked _ htype).2
    have hread : s₁.limit.limits.getD a.type.toNat (beyond a.type.toNat) =
        s₁.limit.limits.getD a.type.toNat 0 :=
      (List.getD_eq_getElem _ _ hlt).trans (List.getD_eq_getElem _ _ hlt).symm
    rw [hvalue, hread, hstored]
    exact stored_eq_expected_iff words limit a.type
  rw [← htypes]
  constructor
  · rintro ⟨h, -, h₂, -⟩
    exact ⟨h₂, fun a ha => (hanswers h₂ a ha).1 (h a ha)⟩
  · rintro ⟨h₂, h⟩
    exact ⟨fun a ha => (hanswers h₂ a ha).2 (h a ha), hinside, h₂, hcurrent⟩

end

/-- Every word of the memory is 1. -/
def onesMemory : GuestMemory Unit := ⟨fun _ => pure 1, fun _ _ => pure ()⟩

theorem limits_round_trip_ones : ∃ words s₁,
    svcSetResourceLimitValues onesMemory 0 0 1 ⟨(), {}, [], [], []⟩ = .ok words s₁ ∧
    (let s₂ := final (getLimitValues onesMemory (fun _ => 0) 0 0 1 0) ⟨(), s₁.limit, [], [], []⟩
    let s₃ := final (getCurrentValues onesMemory 0 0 0 1 0) ⟨(), s₁.limit, [], [], []⟩
    ((∀ a ∈ s₂.answers, a.value = expected words {} a.type) ∧
      Inside s₁ ∧ Inside s₂ ∧ Inside s₃) ↔
    (∀ type ∈ s₂.asked, type.toNat ≠ numResources) ∧
      ∀ a ∈ s₂.answers, ∀ w ∈ lastWords words a.type, w.high = 0) := by
  obtain ⟨words, s₁, h⟩ : ∃ words s₁,
      svcSetResourceLimitValues onesMemory 0 0 1 ⟨(), {}, [], [], []⟩ = .ok words s₁ := ⟨_, _, rfl⟩
  exact ⟨words, s₁, h, limits_round_trip onesMemory (fun _ => 0) 0 h () 0 0 1⟩

/-- The value `0x100000001`, set for type 1, is read back as 1. -/
theorem limit_cut : ∃ words s₁,
    svcSetResourceLimitValues onesMemory 0 0 1 ⟨(), {}, [], [], []⟩ = .ok words s₁ ∧
    ∃ a ∈ (final (getLimitValues onesMemory (fun _ => 0) 0 0 1 0)
        ⟨(), s₁.limit, [], [], []⟩).answers,
      a.value ≠ expected words {} a.type :=
  ⟨_, _, rfl, ⟨1, 1, 0⟩, by decide, by decide⟩

end Mikage.ResourceLimits
