import Mikage.OS.TransferTables

/-!
# The transfer of a message

The static buffers of a message, and what the transfer of a message is for.

- `Transferred`: the words name the same objects, the bytes are there, and nothing else has changed.
- `transferred_iff_free`: when a message that is translated has been transferred.
- `not_transferred_locked`: moving the handle of a mutex releases it.
-/

namespace Mikage.IPC.Transfer

open TranslationDescriptor Lib.Copies

variable {Object : Type}

/-! ## Static buffers -/

theorem mem_copies {st : Setting Object} {sourceAddr destAddr : VAddr} {c : PAddr × PAddr}
    {n i : ℕ} :
    c ∈ copies st sourceAddr destAddr n i ↔
      ∃ j, i ≤ j ∧ j < i + n ∧ Mapped st sourceAddr destAddr j c := by
  induction n generalizing i with
  | zero => exact iff_of_false List.not_mem_nil fun ⟨j, le, lt, _⟩ => by omega
  | succ n ih =>
    have first : (∃ j, i ≤ j ∧ j < i + (n + 1) ∧ Mapped st sourceAddr destAddr j c) ↔
        Mapped st sourceAddr destAddr i c ∨
          ∃ j, i + 1 ≤ j ∧ j < i + 1 + n ∧ Mapped st sourceAddr destAddr j c := by
      constructor
      · rintro ⟨j, le, lt, mapped⟩
        by_cases same : j = i
        · exact .inl (same ▸ mapped)
        · exact .inr ⟨j, by omega, by omega, mapped⟩
      · rintro (mapped | ⟨j, le, lt, mapped⟩)
        · exact ⟨i, le_rfl, by omega, mapped⟩
        · exact ⟨j, by omega, by omega, mapped⟩
    rw [first, ← ih, copies, Mapped]
    split
    next a b at_a at_b =>
      rw [at_a, at_b, List.mem_cons]
      refine or_congr_left ⟨?_, ?_⟩
      · rintro rfl
        exact ⟨rfl, rfl⟩
      · rintro ⟨same, same'⟩
        exact Prod.ext (Except.ok.inj same).symm (Except.ok.inj same').symm
    next not_mapped =>
      rw [or_iff_right]
      exact fun both => not_mapped _ _ both.1 both.2

section

variable [DecidableEq Object] {st : Setting Object} {word word' dest : ℕ → BitVec 32}
  {w w₁ w' : World Object} {l : List (Item × ℕ)} {o : ℕ}

/-- The places of all bytes of static buffers, in the order of the message. The addresses of the
destination are its own. -/
def bufferCopies (st : Setting Object) (word dest : ℕ → BitVec 32) (l : List (Item × ℕ)) :
    List (PAddr × PAddr) :=
  l.flatMap fun p =>
    match p.1 with
    | .staticBuffer d =>
      copies st (word p.2) (dest (0x184 + 8 * d.staticBufferId)) d.staticBufferSize 0
    | _ => []

theorem closeHandle_memory (handle : ℕ) (w : World Object) :
    (closeHandle st handle w).memory = w.memory := by
  unfold closeHandle
  dsimp only
  split
  · rfl
  · split <;> rfl

theorem Steps.memory (h : Steps st word word' dest l w w') :
    w'.memory = copyAll w.memory (bufferCopies st word dest l) := by
  induction h with
  | nil => rfl
  | @cons item o l w w₁ w' step _ ih =>
    rw [ih]
    cases item with
    | processId =>
      obtain ⟨rfl, -⟩ := step
      rfl
    | handle close =>
      have same : w₁.memory = w.memory := by
        rw [Step] at step
        split at step
        · exact congrArg _ step.1
        · obtain ⟨object, -, -, rfl⟩ := step
          split
          · exact closeHandle_memory ..
          · rfl
      rw [same]
      rfl
    | staticBuffer d =>
      obtain ⟨at_o, -, -, rfl⟩ := step
      rw [at_o]
      exact (List.foldl_append ..).symm

/-- The destination has a buffer of its own for the bytes, and they are mapped. -/
def Delivered (st : Setting Object) (word word' dest : ℕ → BitVec 32) (d : TranslationDescriptor)
    (o : ℕ) : Prop :=
  word' o = dest (0x184 + 8 * d.staticBufferId) ∧
  d.staticBufferSize ≤
    (⟨dest (0x180 + 8 * d.staticBufferId)⟩ : TranslationDescriptor).staticBufferSize ∧
  ∀ i < d.staticBufferSize, ∃ c, Mapped st (word o) (word' o) i c

theorem Steps.delivered (h : Steps st word word' dest l w w') {d : TranslationDescriptor}
    (mem : (.staticBuffer d, o) ∈ l) : Delivered st word word' dest d o := by
  induction h with
  | nil => exact absurd mem List.not_mem_nil
  | cons step _ ih =>
    rcases List.mem_cons.1 mem with same | mem
    · cases same
      obtain ⟨at_o, fits, mapped, -⟩ := step
      exact ⟨at_o, fits, mapped⟩
    · exact ih mem

/-! ## Main result -/

/-- **What the transfer is for**: the words of the destination name what those of the source do, the
source has lost what it has moved, the destination has the bytes, and nothing else has happened. -/
structure Transferred (st : Setting Object) (word word' dest : ℕ → BitVec 32)
    (l : List (Item × ℕ)) (w w' : World Object) : Prop where
  names : ∀ p ∈ l, Names st word word' w w' p
  moved : ∀ h, Moved word l h → lookup (w'.tables (st.process .source)) h = none
  kept : ∀ p h, ¬(p = st.process .source ∧ Moved word l h) →
    ¬(p = st.process .dest ∧ Given word word' l h) →
    lookup (w'.tables p) h = lookup (w.tables p) h
  fresh : ∀ h, Given word word' l h → lookup (w.tables (st.process .dest)) h = none
  finalised : w'.finalised = w.finalised
  locks : w'.locks = w.locks
  bytes : ∀ d o, (.staticBuffer d, o) ∈ l → word' o = dest (0x184 + 8 * d.staticBufferId) ∧
    d.staticBufferSize ≤
      (⟨dest (0x180 + 8 * d.staticBufferId)⟩ : TranslationDescriptor).staticBufferSize ∧
    ∀ i < d.staticBufferSize, ∃ c, Mapped st (word o) (word' o) i c ∧ w'.memory c.2 = w.memory c.1
  outside : ∀ b, (∀ d o, (.staticBuffer d, o) ∈ l → ∀ i < d.staticBufferSize, ∀ c,
    Mapped st (word o) (word' o) i c → c.2 ≠ b) → w'.memory b = w.memory b

theorem handleItems_length (d : TranslationDescriptor) (n o : ℕ) :
    (handleItems d n o).length = n := by
  induction n generalizing o with
  | zero => rfl
  | succ n ih => rw [handleItems, List.length_cons, ih]

theorem itemsOf_length_le (p : TranslationDescriptor × ℕ) : (itemsOf p).length ≤ 64 := by
  unfold itemsOf
  split
  · rw [handleItems_length]
    exact (p.1.raw.extractLsb' 26 6).isLt
  · exact Nat.le_of_ble_eq_true rfl
  · exact Nat.zero_le _

theorem descriptors_length_le (stop words o : ℕ) :
    (descriptors word stop words o).length ≤ words := by
  induction words generalizing o with
  | zero => exact le_rfl
  | succ words ih =>
    rw [descriptors]
    split
    · exact Nat.succ_le_succ (ih _)
    · exact Nat.zero_le _

theorem flatMap_itemsOf_length_le (l : List (TranslationDescriptor × ℕ)) :
    (l.flatMap itemsOf).length ≤ 64 * l.length := by
  induction l with
  | nil => exact le_rfl
  | cons p l ih =>
    have := itemsOf_length_le p
    rw [List.flatMap_cons, List.length_append, List.length_cons]
    omega

/-- A message has far fewer handles than there are. -/
theorem creates_le : creates word (messageItems word) ≤ 2 ^ 32 := by
  have items : creates word (messageItems word) ≤ (messageItems word).length :=
    List.countP_le_length
  have descriptors := flatMap_itemsOf_length_le (messageDescriptors word)
  have words : (messageDescriptors word).length ≤
      (⟨word 0x80⟩ : CommandHeader).sizeTranslateParams := descriptors_length_le ..
  have few : (⟨word 0x80⟩ : CommandHeader).sizeTranslateParams < 64 :=
    ((word 0x80).extractLsb' 0 6).isLt
  rw [messageItems] at items ⊢
  omega

/-- The words of a message are transferred exactly if the handles it creates are free and the
mutexes it moves are not locked. -/
theorem Steps.transferred_iff (h : Steps st word word' dest (messageItems word) w w')
    (apart : NoOverwrite (bufferCopies st word dest (messageItems word))) :
    Transferred st word word' dest (messageItems word) w w' ↔
      Free st word (messageItems word) w ∧ Unlocked st word (messageItems word) w := by
  constructor
  · intro transferred
    have fresh (k : ℕ) (lt : k < creates word (messageItems word)) :
        lookup (w.tables (st.process .dest))
          (nextHandle (w.tables (st.process .dest)).curHandle k) = none :=
      transferred.fresh _ (h.gives lt)
    have free : Free st word (messageItems word) w := by
      refine ⟨fresh, fun self close o mem nonzero k lt same => ?_⟩
      have names := transferred.names _ mem
      rw [Names, if_neg nonzero] at names
      obtain ⟨object, live, -⟩ := names
      rw [same, ← self, fresh k lt] at live
      cases live
    exact ⟨free, (h.finalised_iff free creates_le).1 ⟨transferred.finalised, transferred.locks⟩⟩
  · rintro ⟨free, unlocked⟩
    have handed := h.handed free creates_le
    have finalised := (h.finalised_iff free creates_le).2 unlocked
    have memory := h.memory
    refine ⟨handed.names, handed.moved, handed.kept, fun x given => ?_, finalised.1, finalised.2,
      fun d o mem => ?_, fun b outside => ?_⟩
    · obtain ⟨k, lt, rfl⟩ := handed.given x given
      exact free.fresh k lt
    · obtain ⟨at_o, fits, mapped⟩ := h.delivered mem
      refine ⟨at_o, fits, fun i lt => ?_⟩
      obtain ⟨c, at_c⟩ := mapped i lt
      refine ⟨c, at_c, ?_⟩
      rw [memory]
      refine copyAll_exact apart c (List.mem_flatMap.2 ⟨_, mem, ?_⟩)
      exact mem_copies.2 ⟨i, Nat.zero_le i, by omega, at_o ▸ at_c⟩
    · rw [memory]
      refine copyAll_outside fun c mem => ?_
      obtain ⟨⟨item, o⟩, mem, at_c⟩ := List.mem_flatMap.1 mem
      cases item with
      | processId => exact absurd at_c List.not_mem_nil
      | handle close => exact absurd at_c List.not_mem_nil
      | staticBuffer d =>
        obtain ⟨i, -, lt, at_c⟩ := mem_copies.1 at_c
        rw [← (h.delivered mem).1] at at_c
        exact outside d o mem i (by omega) c at_c

/-- A message of handles and static buffers that is translated has been transferred exactly if the
handles it creates are free and the mutexes it moves are not locked. -/
theorem transferred_iff_free {other : System (World Object) Object} {isReply : Bool}
    {tls : Side → ℕ → BitVec 32} {s' : Message (World Object)}
    (plain : Plain (messageDescriptors (tls .source)))
    (own : Own (messageDescriptors (tls .source)))
    (apart : NoOverwrite (bufferCopies st (tls .source) (tls .dest) (messageItems (tls .source))))
    (h : translateIPCMessage (system st other) isReply (Message.start tls w) = .ok () s') :
    Transferred st (tls .source) (s'.tls .dest) (tls .dest) (messageItems (tls .source)) w
        s'.system ↔
      Free st (tls .source) (messageItems (tls .source)) w ∧
        Unlocked st (tls .source) (messageItems (tls .source)) w :=
  (translateIPCMessage_steps (s := Message.start tls w) rfl plain own h).transferred_iff apart

end

/-! ## A moved handle and a byte -/

/-- The rest of a system. -/
def idleSystem : System (World Unit) Unit where
  processId _ := 0
  findObject _ _ := none
  isAddressArbiter _ := false
  createHandle _ _ := pure 0
  svcCloseHandle _ := pure 0
  resolveVirtualAddrWithSize _ _ := none
  resolveDestAddr _ _ := none
  readMemory _ := pure 0
  writeMemory _ _ := pure ()
  writeMemory32 _ _ := pure ()
  findAvailableVirtualMemory _ _ _ _ := none
  mapVirtualMemory _ _ _ _ := pure false
  unmapVirtualMemory _ _ := pure false

/-- Two processes with the same memory, and objects of one class. -/
def twoProcesses (kind : Kind) : Setting Unit where
  process
    | .source => 0
    | .dest => 1
  place := fun _ addr => .ok addr
  kind := fun _ => kind
  elsewhere := fun _ => 0

/-- The source has handle 1, and its thread has locked the object once. -/
def oneHandle : World Unit where
  tables
    | 0 => ⟨[(1, ())], 1⟩
    | _ => {}
  memory := fun _ => 0
  locks := fun _ => 1
  finalised := []

/-- A message that moves handle 1 and has a static buffer of one byte. -/
def moveWords : Side → ℕ → BitVec 32
  | .source, 0x80 => 4
  | .source, 0x84 => 0x10
  | .source, 0x88 => 1
  | .source, 0x8c => 0x4002
  | .source, 0x90 => 0x1000
  | .dest, 0x180 => 0x4002
  | .dest, 0x184 => 0x2000
  | _, _ => 0

def finalisedAfter (r : EStateM.Result Exception (Message (World Unit)) Unit) : Option ℕ :=
  match r with
  | .ok _ s => some s.system.finalised.length
  | .error _ _ => none

theorem exists_of_finalisedAfter {r : EStateM.Result Exception (Message (World Unit)) Unit} {n : ℕ}
    (h : finalisedAfter r = some n) : ∃ s', r = .ok () s' ∧ s'.system.finalised.length = n := by
  cases r with
  | ok u s => exact ⟨s, rfl, Option.some.inj h⟩
  | error e s => cases h

theorem moveWords_descriptors :
    messageDescriptors (moveWords .source) = [(⟨0x10⟩, 0x88), (⟨0x4002⟩, 0x90)] := by
  decide +kernel

theorem moveWords_items : messageItems (moveWords .source) =
    [(.handle true, 0x88), (.staticBuffer ⟨0x4002⟩, 0x90)] := by
  rw [messageItems, moveWords_descriptors]
  rfl

theorem moveWords_plain : Plain (messageDescriptors (moveWords .source)) := by
  rw [moveWords_descriptors, Plain]
  decide

theorem transferred_iff_free_event : ∃ s',
    translateIPCMessage (system (twoProcesses .other) idleSystem) false
      (Message.start moveWords oneHandle) = .ok () s' ∧
    Transferred (twoProcesses .other) (moveWords .source) (s'.tls .dest) (moveWords .dest)
      (messageItems (moveWords .source)) oneHandle s'.system := by
  have ran : finalisedAfter (translateIPCMessage (system (twoProcesses .other) idleSystem) false
      (Message.start moveWords oneHandle)) = some 0 := by decide +kernel
  obtain ⟨s', done, -⟩ := exists_of_finalisedAfter ran
  refine ⟨s', done, (transferred_iff_free moveWords_plain ?_ ?_ done).2 ⟨⟨?_, ?_⟩, ?_⟩⟩
  · rw [moveWords_descriptors, Own]
    decide
  · rw [moveWords_items]
    exact List.pairwise_singleton ..
  · rw [moveWords_items]
    intro k lt
    obtain rfl : k = 0 := by
      have one : creates (moveWords .source)
        [(.handle true, 0x88), (.staticBuffer ⟨0x4002⟩, 0x90)] = 1 := rfl
      omega
    rfl
  · intro self
    cases self
  · intro o object _ _ _ mutex
    cases mutex

/-- A mutex is released when its handle is moved. -/
theorem not_transferred_locked : ¬∀ (st : Setting Unit) (tls : Side → ℕ → BitVec 32)
    (w : World Unit) (s' : Message (World Unit)), Plain (messageDescriptors (tls .source)) →
    (∀ o o', (Item.handle true, o) ∈ messageItems (tls .source) →
      (Item.handle true, o') ∈ messageItems (tls .source) → tls .source o ≠ 0 →
      tls .source o = tls .source o' → o = o') →
    translateIPCMessage (system st idleSystem) false (Message.start tls w) = .ok () s' →
    Transferred st (tls .source) (s'.tls .dest) (tls .dest) (messageItems (tls .source)) w
      s'.system := by
  intro claimed
  have ran : finalisedAfter (translateIPCMessage (system (twoProcesses .mutex) idleSystem) false
      (Message.start moveWords oneHandle)) = some 1 := by decide +kernel
  obtain ⟨s', done, length⟩ := exists_of_finalisedAfter ran
  have transferred := claimed (twoProcesses .mutex) moveWords oneHandle s' moveWords_plain ?_ done
  · rw [transferred.finalised] at length
    cases length
  · rw [moveWords_items]
    intro o o' mem mem' _ _
    have at_o : o = 0x88 := by simpa using mem
    have at_o' : o' = 0x88 := by simpa using mem'
    rw [at_o, at_o']

end Mikage.IPC.Transfer
