import Mikage.Lib.Copies
import Mikage.OS.HandleRuns
import Mikage.OS.BufferPages
import Mikage.OS.MessageFrame

/-!
# The transfer of handles and static buffers

`TranslateIPCMessage` over the handle tables of the two processes, which may be one, and over the
memory that both have mapped. A message of handles and static buffers is taken word by word.

- `system`: what the translation needs of the kernel, with `CreateHandle` and `CloseHandle`.
- `Step`: what one word of a message does.
- `translateIPCMessage_steps`: a message that is translated is its words, one after the other.
-/

namespace Mikage.IPC.Transfer

open TranslationDescriptor Lib.Copies

/-- The classes of objects that `CloseHandle` and the translation tell apart. -/
inductive Kind where
  | clientSession
  | serverSession (hasPort : Bool)
  | mutex
  | sharedMemoryBlock (ownsMemory : Bool)
  | codeSet
  | addressArbiter
  | other
  deriving DecidableEq, Repr

/-- The kernel during a translation. `locks` says how often the sending thread has locked what. -/
structure World (Object : Type) where
  tables : ℕ → HandleTable Object
  memory : PAddr → BitVec 8
  locks : Object → ℕ
  /-- Sessions that have been reported closed, slots of ports and blocks of memory that have been
  returned, and mutexes that have been released. -/
  finalised : List Object

/-- What does not change: the ids of the two processes, their mapped memory, the classes of objects
and how often they are referred to from elsewhere. -/
structure Setting (Object : Type) where
  process : Side → ℕ
  place : ℕ → VAddr → Except Exception PAddr
  kind : Object → Kind
  elsewhere : Object → ℕ

variable {Object : Type}

/-- `FindObject` -/
def lookup (table : HandleTable Object) (handle : ℕ) : Option Object :=
  (table.table.find? (·.1 = handle)).map (·.2)

section

variable [DecidableEq Object] (st : Setting Object)

/-- The references to an object but for that of `CloseHandle`. The translation itself holds two, one
of them in the entry that `CreateHandle` has returned. -/
def useCount (w : World Object) (object : Object) : ℕ :=
  let count (p : ℕ) := (w.tables p).table.countP (·.2 = object)
  2 + st.elsewhere object + count (st.process .source) +
    if st.process .dest = st.process .source then 0 else count (st.process .dest)

/-- Whether something is done to the object when a handle is closed. -/
def finalises (w : World Object) (object : Object) : Bool :=
  match st.kind object with
  | .clientSession | .codeSet => useCount st w object = 1
  | .serverSession hasPort => useCount st w object = 1 && hasPort
  | .mutex => w.locks object ≠ 0
  | .sharedMemoryBlock ownsMemory => useCount st w object = 1 && ownsMemory
  | .addressArbiter | .other => false

/-- `OS::CloseHandle` for the sending thread. -/
def closeHandle (handle : ℕ) (w : World Object) : World Object :=
  let table := w.tables (st.process .source)
  let w' := { w with
    tables := Function.update w.tables (st.process .source) (table.closeHandle handle) }
  match lookup table handle with
  | none => w'
  | some object =>
    if finalises st w object then
      { w' with
        finalised := w.finalised ++ [object]
        -- no lock is held on an object that is not a mutex
        locks := Function.update w.locks object (w.locks object - 1) }
    else w'

/-- `CreateHandle` in the destination's table. -/
def createHandle (object : Object) (w : World Object) : ℕ × World Object :=
  let r := (w.tables (st.process .dest)).createHandle object
  (r.1, { w with tables := Function.update w.tables (st.process .dest) r.2 })

/-- The tables and the memory of the two processes, in front of the rest of a system. -/
def system (other : System (World Object) Object) : System (World Object) Object :=
  { other with
    processId := fun _ => BitVec.ofNat 32 (st.process .source)
    findObject := fun handle w => lookup (w.tables (st.process .source)) handle.toNat
    isAddressArbiter := fun object => st.kind object = .addressArbiter
    createHandle := fun object _ w =>
      let r := createHandle st object w
      .ok (BitVec.ofNat 32 r.1) r.2
    svcCloseHandle := fun handle w => .ok 0 (closeHandle st handle.toNat w)
    readMemory := fun addr w =>
      match st.place (st.process .source) addr with
      | .ok a => .ok (w.memory a) w
      | .error e => .error e w
    writeMemory := fun addr value w =>
      match st.place (st.process .dest) addr with
      | .ok a => .ok () { w with memory := Function.update w.memory a value }
      | .error e => .error e w }

end

/-! ## Words of a message -/

/-- A word behind a descriptor. -/
inductive Item where
  | processId
  | handle (close : Bool)
  | staticBuffer (descriptor : TranslationDescriptor)

def handleItems (d : TranslationDescriptor) : (n offset : ℕ) → List (Item × ℕ)
  | 0, _ => []
  | n + 1, offset =>
    (if d.fillProcessId then .processId else .handle d.closeHandle, offset) ::
      handleItems d n (offset + 4)

/-- The descriptors of a message from an offset on, with the offsets of their words. -/
def descriptors (word : ℕ → BitVec 32) (stop : ℕ) : (words offset : ℕ) →
    List (TranslationDescriptor × ℕ)
  | 0, _ => []
  | words + 1, offset =>
    if offset < stop then
      (⟨word offset⟩, offset + 4) ::
        descriptors word stop words (offset + 4 * (1 + IPC.numParams ⟨word offset⟩))
    else []

def messageDescriptors (word : ℕ → BitVec 32) : List (TranslationDescriptor × ℕ) :=
  let header : CommandHeader := ⟨word 0x80⟩
  descriptors word header.commandEnd header.sizeTranslateParams (0x84 + 4 * header.numNormalParams)

/-- The words behind a descriptor, at their offsets. -/
def itemsOf (p : TranslationDescriptor × ℕ) : List (Item × ℕ) :=
  match p.1.type with
  | .handles => handleItems p.1 p.1.numHandles p.2
  | .staticBuffer => [(.staticBuffer p.1, p.2)]
  | _ => []

def messageItems (word : ℕ → BitVec 32) : List (Item × ℕ) :=
  (messageDescriptors word).flatMap itemsOf

/-- A message of handles and static buffers. -/
def Plain (l : List (TranslationDescriptor × ℕ)) : Prop :=
  ∀ p ∈ l, p.1.type = .handles ∨ p.1.type = .staticBuffer

/-! ## What a word does -/

section

variable (st : Setting Object)

/-- The places of `n` bytes from the byte `i` of a buffer on. -/
def copies (sourceAddr destAddr : VAddr) : (n i : ℕ) → List (PAddr × PAddr)
  | 0, _ => []
  | n + 1, i =>
    match st.place (st.process .source) (sourceAddr + BitVec.ofNat 32 i),
      st.place (st.process .dest) (destAddr + BitVec.ofNat 32 i) with
    | .ok a, .ok b => (a, b) :: copies sourceAddr destAddr n (i + 1)
    | _, _ => copies sourceAddr destAddr n (i + 1)

/-- Both places of a byte of a buffer. -/
def Mapped (sourceAddr destAddr : VAddr) (i : ℕ) (c : PAddr × PAddr) : Prop :=
  st.place (st.process .source) (sourceAddr + BitVec.ofNat 32 i) = .ok c.1 ∧
    st.place (st.process .dest) (destAddr + BitVec.ofNat 32 i) = .ok c.2

variable [DecidableEq Object]

/-- A word of the source is translated to a word of the destination. The last words are those that
the destination had before. -/
def Step (word word' dest : ℕ → BitVec 32) (item : Item) (o : ℕ) (w w' : World Object) : Prop :=
  match item with
  | .processId => w' = w ∧ word' o = BitVec.ofNat 32 (st.process .source)
  | .handle close =>
    if word o = 0 then w' = w ∧ word' o = 0
    else ∃ object, lookup (w.tables (st.process .source)) (word o).toNat = some object ∧
      word' o = BitVec.ofNat 32 (createHandle st object w).1 ∧
      w' = if close then closeHandle st (word o).toNat (createHandle st object w).2
        else (createHandle st object w).2
  | .staticBuffer d =>
    word' o = dest (0x184 + 8 * d.staticBufferId) ∧
    d.staticBufferSize ≤
      (⟨dest (0x180 + 8 * d.staticBufferId)⟩ : TranslationDescriptor).staticBufferSize ∧
    (∀ i < d.staticBufferSize, ∃ c, Mapped st (word o) (word' o) i c) ∧
    w' = { w with memory := copyAll w.memory (copies st (word o) (word' o) d.staticBufferSize 0) }

/-- The words of a message, one after the other. -/
inductive Steps (word word' dest : ℕ → BitVec 32) :
    List (Item × ℕ) → World Object → World Object → Prop where
  | nil {w} : Steps word word' dest [] w w
  | cons {item o l w w₁ w'} : Step st word word' dest item o w w₁ → Steps word word' dest l w₁ w' →
      Steps word word' dest ((item, o) :: l) w w'

end

/-! ## The translation of one word -/

section

variable {σ α : Type} {s s' : Message σ}

/-- The words of both threads and the offset are as they were. -/
structure Still (s s' : Message σ) : Prop where
  tls : s'.tls = s.tls
  offset : s'.tlsOffset = s.tlsOffset

theorem Still.trans {s'' : Message σ} (h : Still s s') (h' : Still s' s'') : Still s s'' :=
  ⟨h'.tls.trans h.tls, h'.offset.trans h.offset⟩

/-- One word of the destination has been written. -/
structure Wrote (s : Message σ) (value : BitVec 32) (s' : Message σ) : Prop where
  source : s'.tls .source = s.tls .source
  word : s'.tls .dest s.tlsOffset = value
  others : ∀ o, o ≠ s.tlsOffset → s'.tls .dest o = s.tls .dest o
  offset : s'.tlsOffset = s.tlsOffset + 4
  system : s'.system = s.system

theorem Wrote.of_still {s₁ : Message σ} {value : BitVec 32} (still : Still s s₁)
    (wrote : Wrote s₁ value s') : s'.tls .source = s.tls .source ∧
      s'.tls .dest s.tlsOffset = value ∧
      (∀ o, o ≠ s.tlsOffset → s'.tls .dest o = s.tls .dest o) ∧
      s'.tlsOffset = s.tlsOffset + 4 ∧ s'.system = s₁.system := by
  have offset := still.offset
  refine ⟨wrote.source.trans (congrFun still.tls _), ?_, fun o ne => ?_, ?_, wrote.system⟩
  · rw [← offset]
    exact wrote.word
  · rw [wrote.others o (by rwa [offset]), still.tls]
  · rw [wrote.offset, offset]

theorem readTLS_still (side : Side) (o : ℕ) : Ends (readTLS side o) s
    (fun v s' => v = s.tls side o ∧ Still s s' ∧ s'.system = s.system) fun _ _ => True :=
  ⟨rfl, ⟨rfl, rfl⟩, rfl⟩

theorem call_still (x : EStateM Exception σ α) : Ends (call x) s
    (fun a s' => Still s s' ∧ x s.system = .ok a s'.system) fun _ _ => True := by
  unfold Ends call
  cases x s.system with
  | ok a t => exact ⟨⟨rfl, rfl⟩, rfl⟩
  | error e t => trivial

theorem writeLast_wrote (value : BitVec 32) :
    Ends (do writeTLS s.tlsOffset value; advance : IpcM σ Unit) s (fun _ s' => Wrote s value s')
      fun _ _ => True :=
  ⟨rfl, if_pos ⟨rfl, rfl⟩, fun _ ne => if_neg fun h => ne h.2, rfl, rfl⟩

end

section

variable [DecidableEq Object] {st : Setting Object} {other : System (World Object) Object}
  {s s' : Message (World Object)} {dest : ℕ → BitVec 32} {d : TranslationDescriptor}

/-- One word has been translated. The words that the destination had are `dest`. -/
structure Took (st : Setting Object) (dest : ℕ → BitVec 32) (item : Item)
    (s s' : Message (World Object)) : Prop where
  source : s'.tls .source = s.tls .source
  others : ∀ o, o ≠ s.tlsOffset → s'.tls .dest o = s.tls .dest o
  offset : s'.tlsOffset = s.tlsOffset + 4
  step : Step st (s.tls .source) (s'.tls .dest) dest item s.tlsOffset s.system s'.system

theorem step_zero {word word' : ℕ → BitVec 32} {close : Bool} {o : ℕ} {w w' : World Object}
    (zero : word o = 0) (same : w' = w) (at_o : word' o = 0) :
    Step st word word' dest (.handle close) o w w' := by
  rw [Step, if_pos zero]
  exact ⟨same, at_o⟩

/-- The last word is written after the rest of the system has changed. -/
theorem took_of_writeLast {item : Item} {s₁ : Message (World Object)} (still : Still s s₁)
    {value : BitVec 32} (step : ∀ word' : ℕ → BitVec 32, word' s.tlsOffset = value →
      Step st (s.tls .source) word' dest item s.tlsOffset s.system s₁.system) :
    Ends (do writeTLS s.tlsOffset value; advance : IpcM (World Object) Unit) s₁
      (fun _ s' => Took st dest item s s') fun _ _ => True := by
  rw [← still.offset]
  refine (writeLast_wrote value).mono (fun _ s' wrote => ?_) fun _ _ h => h
  obtain ⟨source, word, others, offset, system⟩ := Wrote.of_still still wrote
  exact ⟨source, others, offset, system ▸ step _ word⟩

theorem translateHandle_took (dest : ℕ → BitVec 32) :
    Ends (translateHandle (system st other) d) s
      (fun _ s' =>
        Took st dest (if d.fillProcessId then .processId else .handle d.closeHandle) s s')
      fun _ _ => True := by
  simp only [translateHandle]
  refine ends_tlsOffset.2 (Ends.split (fun fill => ?_) fun fill => ?_)
  · rw [ends_get, if_pos fill]
    exact took_of_writeLast ⟨rfl, rfl⟩ fun word' at_o => ⟨rfl, at_o⟩
  rw [if_neg fill]
  refine (readTLS_still .source s.tlsOffset).bind ?_
  rintro handle s₁ ⟨rfl, still₁, system₁⟩
  refine Ends.split (fun zero => ?_) fun nonzero => ?_
  · exact took_of_writeLast still₁ fun word' at_o => step_zero zero system₁ at_o
  rw [ends_get, system₁]
  cases live : (system st other).findObject (s.tls .source s.tlsOffset) s.system with
  | none => exact ends_throw_bind.2 trivial
  | some object =>
    refine Ends.split (fun _ => ends_throw_bind.2 trivial) fun _ => ?_
    refine (readTLS_still .dest 0x80).bind ?_
    rintro command s₂ ⟨-, still₂, system₂⟩
    refine (call_still _).bind ?_
    rintro handle s₃ ⟨still₃, ran⟩
    rw [system₂, system₁] at ran
    obtain ⟨rfl, created⟩ : BitVec.ofNat 32 (createHandle st object s.system).1 = handle ∧
        (createHandle st object s.system).2 = s₃.system := by
      simpa [system] using ran
    have still := (still₁.trans still₂).trans still₃
    refine Ends.split (fun close => ?_) fun close => ?_
    · refine (call_still _).bind ?_
      rintro result s₄ ⟨still₄, closed⟩
      refine Ends.split (fun _ => ends_throw_bind.2 trivial) fun _ => ?_
      refine took_of_writeLast (still.trans still₄) fun word' at_o => ?_
      rw [Step, if_neg nonzero]
      refine ⟨object, live, at_o, ?_⟩
      rw [if_pos close, created]
      exact (EStateM.Result.ok.inj closed).2.symm
    · refine took_of_writeLast still fun word' at_o => ?_
      rw [Step, if_neg nonzero]
      refine ⟨object, live, at_o, ?_⟩
      rw [if_neg close, created]

theorem readMemory_still (addr : VAddr) : Ends (readMemory (system st other) addr) s
    (fun v s' => Still s s' ∧ s'.system = s.system ∧
      ∃ a, st.place (st.process .source) addr = .ok a ∧ v = s.system.memory a)
    fun _ _ => True := by
  unfold readMemory record
  rw [ends_modify]
  refine (call_still _).mono (fun v s' h => ?_) fun _ _ h => h
  obtain ⟨still, ran⟩ := h
  simp only [system] at ran
  cases at_addr : st.place (st.process .source) addr with
  | error e => simp [at_addr] at ran
  | ok a =>
    rw [at_addr] at ran
    obtain ⟨rfl, same⟩ := EStateM.Result.ok.inj ran
    exact ⟨⟨still.tls, still.offset⟩, same.symm, a, rfl, rfl⟩

theorem writeMemory_still (addr : VAddr) (v : BitVec 8) :
    Ends (writeMemory (system st other) addr v) s
      (fun _ s' => Still s s' ∧ ∃ a, st.place (st.process .dest) addr = .ok a ∧
        s'.system = { s.system with memory := Function.update s.system.memory a v })
      fun _ _ => True := by
  unfold writeMemory record
  rw [ends_modify]
  refine (call_still _).mono (fun _ s' h => ?_) fun _ _ h => h
  obtain ⟨still, ran⟩ := h
  simp only [system] at ran
  cases at_addr : st.place (st.process .dest) addr with
  | error e => simp [at_addr] at ran
  | ok a =>
    rw [at_addr] at ran
    exact ⟨⟨still.tls, still.offset⟩, a, rfl, (EStateM.Result.ok.inj ran).2.symm⟩

theorem logMemory_still (addr : VAddr) (n : ℕ) : Ends (logMemory (system st other) addr n) s
    (fun _ s' => Still s s' ∧ s'.system = s.system) fun _ _ => True := by
  refine ends_roundsFrom (P := fun s' => Still s s' ∧ s'.system = s.system) ⟨⟨rfl, rfl⟩, rfl⟩ ?_
  rintro i s₁ ⟨still, same⟩
  refine (readMemory_still _).bind ?_
  rintro v s₂ ⟨still₂, same₂, -⟩
  exact ⟨still.trans still₂, same₂.trans same⟩

/-- The bytes of a static buffer are copied one by one. -/
theorem copy_rounds (sourceAddr destAddr : VAddr) (n i : ℕ) :
    Ends (roundsFrom n i 1 fun i => do
        let value ← readMemory (system st other) (sourceAddr + BitVec.ofNat 32 i)
        writeMemory (system st other) (destAddr + BitVec.ofNat 32 i) value) s
      (fun _ s' => Still s s' ∧ (∀ j, i ≤ j → j < i + n → ∃ c, Mapped st sourceAddr destAddr j c) ∧
        s'.system = { s.system with
          memory := copyAll s.system.memory (copies st sourceAddr destAddr n i) })
      fun _ _ => True := by
  induction n generalizing i s with
  | zero => exact ⟨⟨rfl, rfl⟩, fun j le lt => by omega, rfl⟩
  | succ n ih =>
    simp only [roundsFrom, ends_assoc]
    refine (readMemory_still _).bind ?_
    rintro v s₁ ⟨still₁, same₁, a, at_a, rfl⟩
    refine (writeMemory_still _ _).bind ?_
    rintro _ s₂ ⟨still₂, b, at_b, same₂⟩
    refine (ih (i + 1)).mono (fun _ s' h => ?_) fun _ _ h => h
    obtain ⟨still₃, mapped, same₃⟩ := h
    refine ⟨(still₁.trans still₂).trans still₃, fun j le lt => ?_, ?_⟩
    · by_cases first : j = i
      · subst first
        exact ⟨(a, b), at_a, at_b⟩
      · exact mapped j (by omega) (by omega)
    · rw [same₃, same₂, same₁, copies, at_a, at_b]
      rfl

theorem translateStaticBuffer_took (dest : ℕ → BitVec 32)
    (own : s.tlsOffset ≤ 0x180 + 8 * d.staticBufferId)
    (before : ∀ o, 0x180 ≤ o → s.tlsOffset ≤ o → s.tls .dest o = dest o) :
    Ends (translateStaticBuffer (system st other) d) s
      (fun _ s' => Took st dest (.staticBuffer d) s s') fun _ _ => True := by
  simp only [translateStaticBuffer, ends_tlsOffset]
  refine (readTLS_still .source s.tlsOffset).bind ?_
  rintro sourceAddr s₁ ⟨rfl, still₁, same₁⟩
  have used : Ends (useStaticBuffer d.staticBufferId
      "Attempted to use target static buffer twice") s₁
      (fun r s' => r = (⟨dest (0x180 + 8 * d.staticBufferId)⟩,
        dest (0x184 + 8 * d.staticBufferId)) ∧ Still s₁ s' ∧ s'.system = s₁.system)
      fun _ _ => True := by
    simp only [useStaticBuffer]
    refine (readTLS_still .dest _).bind ?_
    rintro word s₂ ⟨rfl, still₂, same₂⟩
    refine (readTLS_still .dest _).bind ?_
    rintro addr s₃ ⟨rfl, still₃, same₃⟩
    rw [ends_get]
    refine Ends.split (fun _ => ends_throw_bind.2 trivial) fun _ => ?_
    rw [still₂.tls, still₁.tls, before _ (by omega) own, before _ (by omega) (by omega)]
    have still := still₂.trans still₃
    exact ⟨rfl, ⟨still.tls, still.offset⟩, same₃.trans same₂⟩
  refine used.bind ?_
  rintro _ s₂ ⟨rfl, still₂, same₂⟩
  refine Ends.split (fun _ => ?_) fun fits => ?_
  · exact (readTLS_still .dest _).bind fun _ _ _ => ends_throw_bind.2 trivial
  rw [not_or, not_lt] at fits
  refine (logMemory_still _ _).bind ?_
  rintro _ s₃ ⟨still₃, same₃⟩
  refine (copy_rounds _ _ _ _).bind ?_
  rintro _ s₄ ⟨still₄, mapped, same₄⟩
  have still := ((still₁.trans still₂).trans still₃).trans still₄
  refine took_of_writeLast still fun word' at_o => ⟨at_o, fits.2, ?_, ?_⟩
  · intro i lt
    rw [at_o]
    exact mapped i (Nat.zero_le i) (by rw [Nat.min_eq_right fits.2]; omega)
  · rw [same₄, same₃, same₂, same₁, at_o, Nat.min_eq_right fits.2]

end

/-! ## The translation of a message -/

section

variable [DecidableEq Object] {st : Setting Object} {other : System (World Object) Object}
  {s s₁ s₂ s' : Message (World Object)} {word word' word'' dest : ℕ → BitVec 32}
  {d : TranslationDescriptor} {item : Item} {o : ℕ} {l l' : List (Item × ℕ)}
  {w w₁ w₂ : World Object}

theorem Step.congr (h : Step st word word' dest item o w w₁) (same : word'' o = word' o) :
    Step st word word'' dest item o w w₁ := by
  unfold Step at h ⊢
  rw [same]
  exact h

theorem Steps.congr (h : Steps st word word' dest l w w₁)
    (same : ∀ p ∈ l, word'' p.2 = word' p.2) : Steps st word word'' dest l w w₁ := by
  induction h with
  | nil => exact .nil
  | cons step _ ih =>
    exact .cons (step.congr (same _ (List.mem_cons_self ..)))
      (ih fun p mem => same p (List.mem_cons_of_mem _ mem))

theorem Steps.append (h : Steps st word word' dest l w w₁)
    (h' : Steps st word word' dest l' w₁ w₂) : Steps st word word' dest (l ++ l') w w₂ := by
  induction h with
  | nil => exact h'
  | cons step _ ih => exact .cons step (ih h')

/-- The words from one offset to another have been translated. -/
structure TookAll (st : Setting Object) (dest : ℕ → BitVec 32) (l : List (Item × ℕ))
    (s s' : Message (World Object)) : Prop where
  source : s'.tls .source = s.tls .source
  offset : s.tlsOffset ≤ s'.tlsOffset
  outside : ∀ o, o < s.tlsOffset ∨ s'.tlsOffset ≤ o → s'.tls .dest o = s.tls .dest o
  inside : ∀ p ∈ l, s.tlsOffset ≤ p.2 ∧ p.2 < s'.tlsOffset
  steps : Steps st (s.tls .source) (s'.tls .dest) dest l s.system s'.system

theorem TookAll.refl (s : Message (World Object)) : TookAll st dest [] s s :=
  ⟨rfl, le_rfl, fun _ _ => rfl, fun _ mem => absurd mem (List.not_mem_nil), .nil⟩

theorem Took.all (h : Took st dest item s s') : TookAll st dest [(item, s.tlsOffset)] s s' := by
  have offset := h.offset
  refine ⟨h.source, by omega, fun o out => h.others o (by omega), fun p mem => ?_,
    .cons h.step .nil⟩
  rw [List.mem_singleton.1 mem]
  exact ⟨le_rfl, by omega⟩

theorem TookAll.trans (h : TookAll st dest l s s₁) (h' : TookAll st dest l' s₁ s') :
    TookAll st dest (l ++ l') s s' := by
  have le := h.offset
  have le' := h'.offset
  refine ⟨h'.source.trans h.source, by omega, fun o out => ?_, fun p mem => ?_, ?_⟩
  · rw [h'.outside o (by omega), h.outside o (by omega)]
  · rcases List.mem_append.1 mem with mem | mem
    · have := h.inside p mem
      omega
    · have := h'.inside p mem
      omega
  · refine (h.steps.congr fun p mem => ?_).append (h.source ▸ h'.steps)
    exact h'.outside p.2 (.inl (h.inside p mem).2)

theorem rounds_took (dest : ℕ → BitVec 32) (n : ℕ) :
    Ends (rounds n (translateHandle (system st other) d)) s
      (fun _ s' => TookAll st dest (handleItems d n s.tlsOffset) s s') fun _ _ => True := by
  induction n generalizing s with
  | zero => exact .refl s
  | succ n ih =>
    refine (translateHandle_took dest).bind fun _ s₁ took => ?_
    refine (ih (s := s₁)).mono (fun _ s' rest => ?_) fun _ _ h => h
    rw [took.offset] at rest
    exact took.all.trans rest

/-- The words behind a descriptor of handles or of a static buffer. -/
theorem translateDescriptor_took (isReply : Bool)
    (plain : d.type = .handles ∨ d.type = .staticBuffer)
    (own : d.type = .staticBuffer → s.tlsOffset ≤ 0x180 + 8 * d.staticBufferId)
    (before : ∀ o, 0x180 ≤ o → s.tlsOffset ≤ o → s.tls .dest o = dest o) :
    Ends (translateDescriptor (system st other) isReply d) s
      (fun _ s' => TookAll st dest (itemsOf (d, s.tlsOffset)) s s') fun _ _ => True := by
  unfold translateDescriptor itemsOf
  rcases plain with type | type
  · simp only [type, translateHandles]
    exact Ends.split (fun _ => ends_throw_bind.2 trivial) fun _ => rounds_took dest d.numHandles
  · simp only [type]
    exact (translateStaticBuffer_took dest (own type) before).mono (fun _ _ took => took.all)
      fun _ _ h => h

/-- Each static buffer is named in front of where the destination has its descriptor. -/
def Own (l : List (TranslationDescriptor × ℕ)) : Prop :=
  ∀ p ∈ l, p.1.type = .staticBuffer → p.2 ≤ 0x180 + 8 * p.1.staticBufferId

theorem translateParams_took {isReply : Bool} {stop words : ℕ}
    (plain : Plain (descriptors (s.tls .source) stop words s.tlsOffset))
    (own : Own (descriptors (s.tls .source) stop words s.tlsOffset))
    (before : ∀ o, 0x180 ≤ o → s.tlsOffset ≤ o → s.tls .dest o = dest o)
    (h : translateParams (system st other) isReply stop words s = .ok () s') :
    TookAll st dest ((descriptors (s.tls .source) stop words s.tlsOffset).flatMap itemsOf)
      s s' := by
  induction words generalizing s with
  | zero =>
    cases h
    exact .refl _
  | succ words ih =>
    rw [descriptors] at plain own ⊢
    by_cases lt : s.tlsOffset < stop
    · rw [if_pos lt] at plain own ⊢
      obtain ⟨s₁, s₂, system₁, source₁, offset₁, others, run, source₂, offset₂, rest⟩ :=
        translateParams_round lt h
      have before₁ (o : ℕ) (le : 0x180 ≤ o) (le' : s₁.tlsOffset ≤ o) : s₁.tls .dest o = dest o := by
        rw [others o (by omega), before o le (by omega)]
      have took := (translateDescriptor_took isReply (plain _ (List.mem_cons_self ..))
        (fun type => offset₁ ▸ own _ (List.mem_cons_self ..) type) before₁).ok run
      rw [offset₁] at took
      have plain₂ := fun p mem => plain p (List.mem_cons_of_mem _ mem)
      have own₂ := fun p mem => own p (List.mem_cons_of_mem _ mem)
      rw [← offset₂, ← source₂] at plain₂ own₂
      have took₂ := ih plain₂ own₂ (fun o le le' => by
        rw [took.outside o (.inr le'), before₁ o le (took.offset.trans le')]) rest
      have all := took.trans took₂
      rw [source₂, offset₂] at all
      rw [List.flatMap_cons]
      refine ⟨all.source.trans source₁, by have := all.offset; omega, fun o out => ?_,
        fun p mem => ?_, ?_⟩
      · have := all.offset
        rw [all.outside o (by omega), others o (by omega)]
      · have := all.inside p mem
        omega
      · rw [← system₁, ← source₁]
        exact source₁ ▸ all.steps
    · rw [if_neg lt]
      simp only [translateParams] at h
      obtain ⟨_, _, offset, h⟩ := EStateM.bind_eq_ok_iff.1 h
      cases offset
      rw [if_neg lt] at h
      cases h
      exact .refl _

/-- A message that is translated is its words, one after the other. -/
theorem translateIPCMessage_steps {isReply : Bool} (start : s.tlsOffset = 0x80)
    (plain : Plain (messageDescriptors (s.tls .source)))
    (own : Own (messageDescriptors (s.tls .source)))
    (h : translateIPCMessage (system st other) isReply s = .ok () s') :
    Steps st (s.tls .source) (s'.tls .dest) (s.tls .dest) (messageItems (s.tls .source)) s.system
      s'.system := by
  obtain ⟨s₁, system₁, source₁, offset₁, before, params⟩ :=
    translateIPCMessage_params (system st other) isReply start
  rw [params] at h
  have same : messageDescriptors (s.tls .source) =
      descriptors (s₁.tls .source) (CommandHeader.mk (s.tls .source 0x80)).commandEnd
        (CommandHeader.mk (s.tls .source 0x80)).sizeTranslateParams s₁.tlsOffset := by
    rw [messageDescriptors, source₁, offset₁]
  rw [same] at plain own
  have steps := (translateParams_took plain own (fun o le _ => before o le) h).steps
  rwa [← same, system₁, source₁] at steps

end

end Mikage.IPC.Transfer
