import Mikage.OS.Translate

/-!
# The bounds of the command buffers

Neither parameter count of a command header is checked, and the words of a handle descriptor are
taken without a look at where the translate parameters end. A translation that returns has stayed
in the command buffers and the static buffer descriptors exactly where both counts fit and the
descriptors' own counts add up.

- `Moves`, `Run`: what a step appends to the accesses and how far it moves `tls_offset`.
- `translateDescriptor_run`: a descriptor takes `numParams` words and stays among them.
- `Tiled`, `translateParams_walks`: the loop over the descriptors ends where it should exactly if
  they tile the translate parameters.
- `translateIPCMessage_inBounds_iff`: the bounds of a whole translation.
-/

namespace Mikage.IPC

open TranslationDescriptor

variable {σ Object α β : Type} {s s' : Message σ} {P Q : Access → Prop} {k j : Nat}

/-- What is appended to the accesses satisfies `P`, the source's words stay and `tls_offset` moves
on by `k`. -/
structure Moves (P : Access → Prop) (k : Nat) (s s' : Message σ) : Prop where
  accesses : ∃ l, s'.accesses = s.accesses ++ l ∧ ∀ a ∈ l, P a
  source : s'.tls .source = s.tls .source
  offset : s'.tlsOffset = s.tlsOffset + k

namespace Moves

theorem refl (P : Access → Prop) (s : Message σ) : Moves P 0 s s :=
  ⟨⟨[], (List.append_nil _).symm, nofun⟩, rfl, rfl⟩

theorem trans {s'' : Message σ} (h : Moves P j s s') (h' : Moves P k s' s'') :
    Moves P (j + k) s s'' := by
  obtain ⟨l, hl, hp⟩ := h.accesses
  obtain ⟨l', hl', hp'⟩ := h'.accesses
  refine ⟨⟨l ++ l', by rw [hl', hl, List.append_assoc], fun a ha => ?_⟩,
    h'.source.trans h.source, by rw [h'.offset, h.offset, Nat.add_assoc]⟩
  cases List.mem_append.1 ha with
  | inl ha => exact hp a ha
  | inr ha => exact hp' a ha

theorem mono (h : Moves P k s s') (hpq : ∀ a, P a → Q a) : Moves Q k s s' := by
  obtain ⟨l, hl, hp⟩ := h.accesses
  exact ⟨⟨l, hl, fun a ha => hpq a (hp a ha)⟩, h.source, h.offset⟩

end Moves

/-- `x`, run in `s`, throws or moves on by `k` with accesses as `P` says. -/
def Run (P : Access → Prop) (k : Nat) (x : IpcM σ α) (s : Message σ) : Prop :=
  Ends x s (fun _ s' => Moves P k s s') fun _ _ => True

section Rules

variable {x : IpcM σ α} {f : α → IpcM σ β}

theorem Run.bind (h : Run P j x s) (hf : ∀ a s', Moves P j s s' → Run P k (f a) s') :
    Run P (j + k) (x >>= f) s :=
  Ends.bind h fun a s' hs => (hf a s' hs).mono (fun _ _ h => hs.trans h) fun _ _ h => h

/-- A step that does not move on. -/
theorem Run.seq (h : Run P 0 x s) (hf : ∀ a s', Moves P 0 s s' → Run P k (f a) s') :
    Run P k (x >>= f) s := by
  have hrun := Run.bind h hf
  rwa [Nat.zero_add] at hrun

theorem Run.pure (a : α) : Run P 0 (Pure.pure a : IpcM σ α) s := Moves.refl P s

theorem Run.throw (e : Exception) : Run P k (throw e : IpcM σ α) s := trivial

theorem Run.throwBind (e : Exception) : Run P k ((MonadExcept.throw e : IpcM σ α) >>= f) s := trivial

theorem Run.ite {c : Prop} [Decidable c] {y : IpcM σ α} (h : c → Run P k x s)
    (h' : ¬ c → Run P k y s) : Run P k (if c then x else y) s := Ends.split h h'

theorem Run.dite {c : Prop} [Decidable c] {x : c → IpcM σ α} {y : ¬ c → IpcM σ α}
    (h : ∀ hc, Run P k (x hc) s) (h' : ∀ hc, Run P k (y hc) s) :
    Run P k (if hc : c then x hc else y hc) s := by
  split
  next hc => exact h hc
  next hc => exact h' hc

end Rules

section Words

variable {side : Side} {offset : Nat} {f : Nat → IpcM σ β} {R : β → Message σ → Prop}
  {E : Exception → Message σ → Prop}

theorem run_tlsOffset : Run P k (tlsOffset >>= f) s ↔ Run P k (f s.tlsOffset) s := Iff.rfl

theorem run_get {f : Message σ → IpcM σ β} : Run P k (get >>= f) s ↔ Run P k (f s) s := Iff.rfl

theorem record_run {a : Access} (h : P a) : Run P 0 (record a) s :=
  ⟨⟨[a], rfl, fun b hb => by rwa [List.mem_singleton.1 hb]⟩, rfl, rfl⟩

theorem call_run (x : EStateM Exception σ α) : Run P 0 (call x) s := by
  unfold Run Ends call
  cases x s.system with
  | ok a system => exact ⟨⟨[], (List.append_nil _).symm, nofun⟩, rfl, rfl⟩
  | error e system => trivial

theorem readTLS_returns (h : P (.readTLS side offset)) :
    Ends (readTLS side offset) s (fun v s' => v = s.tls side offset ∧ Moves P 0 s s')
      fun _ _ => True :=
  ⟨rfl, ⟨⟨[_], rfl, fun b hb => by rwa [List.mem_singleton.1 hb]⟩, rfl, rfl⟩⟩

theorem readTLS_run (h : P (.readTLS side offset)) : Run P 0 (readTLS side offset) s :=
  (readTLS_returns h).mono (fun _ _ h => h.2) fun _ _ h => h

theorem writeTLS_run (h : P (.writeTLS .dest offset)) (v : BitVec 32) :
    Run P 0 (writeTLS offset v) s :=
  ⟨⟨[_], rfl, fun b hb => by rwa [List.mem_singleton.1 hb]⟩,
    funext fun _ => rfl, rfl⟩

theorem readMemory_run (sys : System σ Object) (addr : VAddr) (h : P (.readMemory addr)) :
    Run P 0 (readMemory sys addr) s :=
  .seq (record_run h) fun _ _ _ => call_run _

theorem writeMemory_run (sys : System σ Object) (addr : VAddr) (v : BitVec 8)
    (h : P (.writeMemory addr)) : Run P 0 (writeMemory sys addr v) s :=
  .seq (record_run h) fun _ _ _ => call_run _

theorem writeMemory32_run (sys : System σ Object) (addr : VAddr) (v : BitVec 32)
    (h : P (.writeMemory addr)) : Run P 0 (writeMemory32 sys addr v) s :=
  .seq (record_run h) fun _ _ _ => call_run _

theorem advance_run : Run P 4 (advance : IpcM σ Unit) s :=
  ⟨⟨[], (List.append_nil _).symm, nofun⟩, rfl, rfl⟩

theorem roundsFrom_run {body : Nat → IpcM σ Unit} {stride n offset : Nat}
    (h : ∀ i < n, ∀ s, Run P 0 (body (offset + stride * i)) s) :
    Run P 0 (roundsFrom n offset stride body) s := by
  induction n generalizing offset s with
  | zero => exact Run.pure _
  | succ n ih =>
    refine .seq (h 0 (Nat.succ_pos n) s) fun _ _ _ => ih fun i hi s' => ?_
    have hbody := h (i + 1) (Nat.succ_lt_succ hi) s'
    rwa [show offset + stride * (i + 1) = offset + stride + stride * i by rw [Nat.mul_succ]; omega] at hbody

end Words

/-- Words in `[lo, hi)`, the destination's header and its static buffer descriptors; any memory. -/
def Allowed (lo hi : Nat) : Access → Prop
  | .readTLS side o => lo ≤ o ∧ o < hi ∨ side = .dest ∧ (o = 0x80 ∨ 0x180 ≤ o ∧ o < 0x200)
  | .writeTLS _ o => lo ≤ o ∧ o < hi
  | .readMemory _ | .writeMemory _ => True

/-- A loop each of whose rounds takes one word. -/
theorem rounds_run {lo hi n : Nat} {body : IpcM σ Unit}
    (h : ∀ s, lo ≤ s.tlsOffset → s.tlsOffset < hi → Run (Allowed lo hi) 4 body s)
    (hlo : lo ≤ s.tlsOffset) (hhi : s.tlsOffset + 4 * n ≤ hi) :
    Run (Allowed lo hi) (4 * n) (rounds n body) s := by
  induction n generalizing s with
  | zero => exact Run.pure _
  | succ n ih =>
    have hrun : Run (Allowed lo hi) (4 + 4 * n) (rounds (n + 1) body) s := by
      refine .bind (h s hlo (by omega)) fun _ s' hs => ih ?_ ?_
      · rw [hs.offset]
        omega
      · rw [hs.offset]
        omega
    rwa [show 4 + 4 * n = 4 * (n + 1) by omega] at hrun

section Descriptors

variable (sys : System σ Object) (d : TranslationDescriptor) {lo hi o : Nat}

theorem allowed_read (hlo : lo ≤ o) (hhi : o < hi) (side : Side) :
    Allowed lo hi (.readTLS side o) := .inl ⟨hlo, hhi⟩

theorem writeLast_run (hlo : lo ≤ o) (hhi : o < hi) (v : BitVec 32) :
    Run (Allowed lo hi) 4 (do writeTLS o v; advance) s :=
  (writeTLS_run ⟨hlo, hhi⟩ v).seq fun _ _ _ => advance_run

theorem translateHandle_run (hlo : lo ≤ s.tlsOffset) (hhi : s.tlsOffset < hi) :
    Run (Allowed lo hi) 4 (translateHandle sys d) s := by
  simp only [translateHandle, run_tlsOffset]
  refine .ite (fun _ => writeLast_run hlo hhi _) fun _ => ?_
  refine .seq (readTLS_run (allowed_read hlo hhi _)) fun handle s₁ _ => ?_
  refine .ite (fun _ => writeLast_run hlo hhi _) fun _ => ?_
  rw [run_get]
  split
  next => exact .throwBind _
  next object _ =>
    refine .ite (fun _ => .throwBind _) fun _ => ?_
    refine .seq (readTLS_run (.inr ⟨rfl, .inl rfl⟩)) fun _ _ _ => ?_
    refine .seq (call_run _) fun _ _ _ => .ite (fun _ => ?_) fun _ => writeLast_run hlo hhi _
    refine .seq (call_run _) fun _ _ _ => .ite (fun _ => .throwBind _) fun _ => writeLast_run hlo hhi _

theorem useStaticBuffer_run {id : Nat} (hid : id < 16) (twice : String) :
    Run (Allowed lo hi) 0 (useStaticBuffer id twice) s := by
  simp only [useStaticBuffer]
  refine .seq (readTLS_run (.inr ⟨rfl, .inr ⟨by omega, by omega⟩⟩)) fun _ _ _ => ?_
  refine .seq (readTLS_run (.inr ⟨rfl, .inr ⟨by omega, by omega⟩⟩)) fun _ s₁ _ => ?_
  rw [run_get]
  refine .ite (fun _ => .throwBind _) fun _ => ?_
  exact ⟨⟨[], (List.append_nil _).symm, nofun⟩, rfl, rfl⟩

theorem logMemory_run (addr : VAddr) (n : Nat) :
    Run (Allowed lo hi) 0 (logMemory sys addr n) s :=
  roundsFrom_run fun _ _ _ => .seq (readMemory_run sys _ trivial) fun _ _ _ => .pure _

theorem translateStaticBuffer_run (hlo : lo ≤ s.tlsOffset) (hhi : s.tlsOffset < hi) :
    Run (Allowed lo hi) 4 (translateStaticBuffer sys d) s := by
  simp only [translateStaticBuffer, run_tlsOffset]
  refine .seq (readTLS_run (allowed_read hlo hhi _)) fun _ _ _ => ?_
  refine .seq (useStaticBuffer_run d.staticBufferId_lt _) fun _ _ _ => ?_
  have hid := d.staticBufferId_lt
  refine .ite (fun _ => ?_) fun _ => ?_
  · refine .seq (readTLS_run (.inr ⟨rfl, .inr ⟨by omega, by omega⟩⟩)) fun _ _ _ => .throwBind _
  refine .seq (logMemory_run sys _ _) fun _ _ _ => ?_
  refine .seq (roundsFrom_run fun _ _ _ => ?_) fun _ _ _ => writeLast_run hlo hhi _
  exact .seq (readMemory_run sys _ trivial) fun _ _ _ => writeMemory_run sys _ _ trivial

theorem writePxiEntry_run (addr : VAddr) (chunk : PAddr) (size : Nat) :
    Run (Allowed lo hi) 0 (writePxiEntry sys addr chunk size) s :=
  .seq (writeMemory32_run sys _ _ trivial) fun _ _ _ => writeMemory32_run sys _ _ trivial

theorem writePxiPages_run (destBufferAddr bufferAddr : VAddr) (bufferSize offset : Nat) :
    Run (Allowed lo hi) 0 (writePxiPages sys d destBufferAddr bufferAddr bufferSize offset) s := by
  induction bufferSize using Nat.strongRecOn generalizing bufferAddr offset s with
  | ind bufferSize ih =>
    rw [writePxiPages]
    refine Run.dite (fun _ => .pure _) fun hne => ?_
    refine .ite (fun _ => .throwBind _) fun _ => ?_
    rw [run_get]
    split
    next => exact .throw _
    next chunk _ =>
      have hpos := pageRest_pos bufferAddr
      exact .seq (writePxiEntry_run sys _ _ _) fun _ _ _ => ih _ (by omega) _ _

theorem writePxiTable_run (destBufferAddr bufferAddr : VAddr) (bufferSize : Nat) :
    Run (Allowed lo hi) 0 (writePxiTable sys d destBufferAddr bufferAddr bufferSize) s := by
  simp only [writePxiTable]
  rw [run_get]
  have hpages : ∀ s', Run (Allowed lo hi) 0
      (writePxiPages sys d destBufferAddr bufferAddr bufferSize 0) s' :=
    fun s' => writePxiPages_run sys d destBufferAddr bufferAddr bufferSize 0
  have hentry : ∀ chunk s', Run (Allowed lo hi) 0
      (do writePxiEntry sys destBufferAddr chunk bufferSize; return 8) s' :=
    fun chunk s' => (writePxiEntry_run sys _ _ _).seq fun _ _ _ => .pure 8
  split
  next =>
    refine .seq (.pure _) fun base s' _ => .ite (fun _ => ?_) fun _ => hpages s'
    exact .ite (fun _ => .throwBind _) fun _ => hentry base.1 s'
  next =>
    refine .ite (fun _ => ?_) fun _ => .throwBind _
    refine .seq (.pure _) fun base s' _ => .ite (fun _ => ?_) fun _ => hpages s'
    exact .ite (fun _ => .throwBind _) fun _ => hentry base.1 s'

theorem translatePxiBuffer_run (hlo : lo + 4 ≤ s.tlsOffset) (hhi : s.tlsOffset < hi) :
    Run (Allowed lo hi) 4 (translatePxiBuffer sys d) s := by
  simp only [translatePxiBuffer, run_tlsOffset]
  refine .seq (useStaticBuffer_run d.pxiBufferId_lt _) fun _ _ _ => ?_
  refine .ite (fun _ => .throwBind _) fun _ => ?_
  refine .seq (readTLS_run (allowed_read (by omega) hhi _)) fun _ _ _ => ?_
  refine .seq (writePxiTable_run sys _ _ _ _) fun _ _ _ => ?_
  refine .seq (writeTLS_run ⟨by omega, by omega⟩ _) fun _ _ _ => ?_
  rw [run_get]
  split
  next => exact .throwBind _
  next => exact writeLast_run (by omega) hhi _

theorem mapChunks_run (permissions : MemoryPermissions) (sourceAddr destAddr : VAddr)
    (size mapped : Nat) :
    Run (Allowed lo hi) 0 (mapChunks sys permissions sourceAddr destAddr size mapped) s := by
  induction h : size - mapped using Nat.strongRecOn generalizing mapped s with
  | ind rest ih =>
    rw [mapChunks]
    refine Run.dite (fun hlt => ?_) fun _ => .pure _
    rw [run_get]
    split
    next => exact .throw _
    next chunk _ =>
      have hpos := chunk.size_pos
      refine .seq (call_run _) fun success _ _ => .ite (fun _ => .throwBind _) fun _ => ?_
      exact ih _ (by omega) _ rfl

theorem translateMapBuffer_run (isReply : Bool) (hlo : lo ≤ s.tlsOffset) (hhi : s.tlsOffset < hi) :
    Run (Allowed lo hi) 4 (translateMapBuffer sys isReply d) s := by
  simp only [translateMapBuffer, run_tlsOffset]
  refine .seq (readTLS_run (allowed_read hlo hhi _)) fun addr s₁ _ => ?_
  refine .ite (fun _ => advance_run) fun _ => ?_
  have hunmap : ∀ size s', Run (Allowed lo hi) 4 (do
      let success ← call (sys.unmapVirtualMemory (addr &&& ~~~0xfff#32) size)
      if !success then throw (.runtimeError "Couldn't unmap IPC buffer memory")
      writeTLS s.tlsOffset 0
      advance) s' := fun size s' => by
    refine .seq (call_run _) fun _ _ _ => .ite (fun _ => .throwBind _) fun _ => ?_
    exact writeLast_run hlo hhi 0
  refine .ite (fun _ => ?_) fun _ => ?_
  · refine .ite (fun _ => ?_) fun _ => hunmap _ _
    exact .seq (logMemory_run sys _ _) fun _ _ _ => hunmap _ _
  rw [run_get]
  split
  next => exact .throwBind _
  next =>
    refine .seq (mapChunks_run sys _ _ _ _ _) fun _ _ _ => ?_
    refine .seq (writeTLS_run ⟨hlo, hhi⟩ _) fun _ _ _ => .ite (fun _ => ?_) fun _ => advance_run
    exact .seq (logMemory_run sys _ _) fun _ _ _ => advance_run

/-- How many words of parameters follow a descriptor. -/
def numParams (d : TranslationDescriptor) : Nat :=
  match d.type with
  | .handles => d.numHandles
  | _ => 1

theorem numParams_pos : 0 < numParams d := by
  unfold numParams
  split
  · exact Nat.succ_pos _
  · exact Nat.one_pos

theorem translateDescriptor_run (isReply : Bool) (hlo : lo + 4 ≤ s.tlsOffset)
    (hhi : s.tlsOffset + 4 * numParams d ≤ hi) :
    Run (Allowed lo hi) (4 * numParams d) (translateDescriptor sys isReply d) s := by
  have hlo' : lo ≤ s.tlsOffset := Nat.le_of_add_right_le hlo
  have hpos := numParams_pos d
  have hone : d.type ≠ .handles → numParams d = 1 := fun hne => by
    unfold numParams
    split
    next heq => exact absurd heq hne
    next => rfl
  unfold translateDescriptor
  cases htype : d.type with
  | handles =>
    have hcount : numParams d = d.numHandles := by rw [numParams, htype]
    rw [hcount] at hhi ⊢
    simp only [translateHandles]
    exact .ite (fun _ => .throwBind _) fun _ =>
      rounds_run (fun _ => translateHandle_run sys d) hlo' hhi
  | staticBuffer =>
    rw [hone (by rw [htype]; nofun)]
    exact translateStaticBuffer_run sys d hlo' (by omega)
  | pxiBuffer | pxiConstBuffer =>
    rw [hone (by rw [htype]; nofun)]
    exact translatePxiBuffer_run sys d hlo (by omega)
  | mapInvalid => exact .throw _
  | mapReadOnly | mapWriteOnly | mapReadWrite =>
    rw [hone (by rw [htype]; nofun)]
    exact translateMapBuffer_run sys d isReply hlo' (by omega)

end Descriptors

/-! ## The walk over the descriptors -/

/-- Descriptors with their parameters, laid out from an offset on, end exactly at `stop`. -/
inductive Tiled (word : Nat → BitVec 32) (stop : Nat) : Nat → Prop where
  | done : Tiled word stop stop
  | next {o : Nat} : o < stop → Tiled word stop (o + 4 * (1 + numParams ⟨word o⟩)) →
      Tiled word stop o

theorem Tiled.iff_of_lt {word : Nat → BitVec 32} {stop o : Nat} (h : o < stop) :
    Tiled word stop o ↔ Tiled word stop (o + 4 * (1 + numParams ⟨word o⟩)) := by
  refine ⟨fun ht => ?_, .next h⟩
  cases ht with
  | done => exact absurd h (Nat.lt_irrefl _)
  | next _ ht => exact ht

theorem Tiled.iff_of_ge {word : Nat → BitVec 32} {stop o : Nat} (h : stop ≤ o) :
    Tiled word stop o ↔ o = stop := by
  constructor
  · intro ht
    cases ht with
    | done => rfl
    | next hlt _ => exact absurd hlt (Nat.not_lt.2 h)
  · rintro rfl
    exact .done

/-- Where the loop over the translate parameters ends. -/
structure Walked (commandEnd : Nat) (s s' : Message σ) : Prop where
  moves : ∃ k, Moves (Allowed s.tlsOffset s'.tlsOffset) k s s'
  reaches : commandEnd ≤ s'.tlsOffset
  exact_iff : s'.tlsOffset = commandEnd ↔ Tiled (s.tls .source) commandEnd s.tlsOffset

theorem Allowed.mono {lo hi lo' hi' : Nat} (hlo : lo' ≤ lo) (hhi : hi ≤ hi') {a : Access}
    (h : Allowed lo hi a) : Allowed lo' hi' a := by
  cases a with
  | readTLS => exact h.imp_left fun h => ⟨Nat.le_trans hlo h.1, Nat.lt_of_lt_of_le h.2 hhi⟩
  | writeTLS => exact ⟨Nat.le_trans hlo h.1, Nat.lt_of_lt_of_le h.2 hhi⟩
  | readMemory => trivial
  | writeMemory => trivial

/-- A descriptor in front of a walk. -/
theorem Walked.cons {commandEnd : Nat} {s₁ : Message σ} (h : Walked commandEnd s₁ s')
    (hlt : s.tlsOffset < commandEnd)
    (hs : Moves (Allowed s.tlsOffset (s.tlsOffset + k)) k s s₁)
    (hk : k = 4 * (1 + numParams ⟨s.tls .source s.tlsOffset⟩)) : Walked commandEnd s s' := by
  obtain ⟨j, hmoves⟩ := h.moves
  have hoffset := hs.offset
  have hlast := hmoves.offset
  refine ⟨⟨k + j, (hs.mono fun a ha => ?_).trans (hmoves.mono fun a ha => ?_)⟩, h.reaches, ?_⟩
  · exact ha.mono (Nat.le_refl _) (by omega)
  · exact ha.mono (by omega) (Nat.le_refl _)
  · rw [h.exact_iff, hs.source, hoffset, hk, ← Tiled.iff_of_lt hlt]

theorem translateParams_walks (sys : System σ Object) (isReply : Bool) (commandEnd words : Nat)
    (h : commandEnd ≤ s.tlsOffset + 4 * words) :
    Ends (translateParams sys isReply commandEnd words) s (fun _ s' => Walked commandEnd s s')
      fun _ _ => True := by
  induction words generalizing s with
  | zero => exact ⟨⟨0, .refl _ _⟩, h, (Tiled.iff_of_ge h).symm⟩
  | succ words ih =>
    simp only [translateParams]
    refine Ends.split (fun hlt => ?_) fun hge => ?_
    · let n := numParams ⟨s.tls .source s.tlsOffset⟩
      let P := Allowed s.tlsOffset (s.tlsOffset + 4 * (1 + n))
      have hhi : s.tlsOffset < s.tlsOffset + 4 * (1 + n) := by omega
      refine Ends.bind (readTLS_returns (P := P) (allowed_read (Nat.le_refl _) hhi _)) ?_
      rintro raw s₁ ⟨rfl, h₁⟩
      refine Ends.bind (writeTLS_run (P := P) ⟨Nat.le_refl _, hhi⟩ _) fun _ s₂ h₂ => ?_
      refine Ends.bind (advance_run (P := P)) fun _ s₃ h₃ => ?_
      have h₁₃ := (h₁.trans h₂).trans h₃
      have hoffset := h₁₃.offset
      have hrun : Run P (4 * n) (translateDescriptor sys isReply _) s₃ :=
        translateDescriptor_run sys ⟨s.tls .source s.tlsOffset⟩ isReply (by omega) (by omega)
      refine Ends.bind hrun fun _ s₄ h₄ => ?_
      have hall : Moves P (4 * (1 + n)) s s₄ := by
        have h := h₁₃.trans h₄
        rwa [show 0 + 0 + 4 + 4 * n = 4 * (1 + n) by omega] at h
      have hend := hall.offset
      exact (ih (by omega)).mono (fun _ s' hw => hw.cons hlt hall rfl) fun _ _ h => h
    · exact ⟨⟨0, .refl _ _⟩, Nat.not_lt.1 hge, (Tiled.iff_of_ge (Nat.not_lt.1 hge)).symm⟩

/-! ## The whole message -/

theorem copyWord_run {lo hi : Nat} (hlo : lo ≤ s.tlsOffset) (hhi : s.tlsOffset < hi) :
    Run (Allowed lo hi) 4 copyWord s := by
  simp only [copyWord, run_tlsOffset]
  exact .seq (readTLS_run (allowed_read hlo hhi _)) fun _ _ _ => writeLast_run hlo hhi _

theorem Moves.mem {a : Access} (h : Moves P k s s') (ha : a ∈ s.accesses) : a ∈ s'.accesses := by
  obtain ⟨l, hl, -⟩ := h.accesses
  rw [hl]
  exact List.mem_append_left _ ha

/-- The log message quotes every word of the command. -/
theorem logWords_reads {n offset : Nat} (h : ∀ i < n, P (.readTLS .source (offset + 4 * i))) :
    Ends (roundsFrom n offset 4 fun o => do let _ ← readTLS .source o : IpcM σ Unit) s
      (fun _ s' => Moves P 0 s s' ∧ ∀ i < n, .readTLS .source (offset + 4 * i) ∈ s'.accesses)
      fun _ _ => True := by
  induction n generalizing offset s with
  | zero => exact ⟨.refl _ _, fun _ hi => absurd hi (Nat.not_lt_zero _)⟩
  | succ n ih =>
    have hnext : ∀ i, offset + 4 * (i + 1) = offset + 4 + 4 * i := fun i => by omega
    let s₁ : Message σ := { s with accesses := s.accesses ++ [.readTLS .source offset] }
    have h₁ : Moves P 0 s s₁ :=
      ⟨⟨[_], rfl, fun a ha => by rw [List.mem_singleton.1 ha]; exact h 0 (Nat.succ_pos n)⟩, rfl, rfl⟩
    have hrest : ∀ i < n, P (.readTLS .source (offset + 4 + 4 * i)) := fun i hi => by
      rw [← hnext]
      exact h _ (Nat.succ_lt_succ hi)
    refine Ends.mono (ih (s := s₁) hrest) (fun _ s' hs => ⟨h₁.trans hs.1, fun i hi => ?_⟩) fun _ _ h => h
    cases i with
    | zero => exact hs.1.mem (List.mem_append_right _ List.mem_cons_self)
    | succ i =>
      rw [hnext]
      exact hs.2 i (Nat.lt_of_succ_lt_succ hi)

/-- A word of one of the two command buffers or of the static buffer descriptors behind them. -/
def InBounds : Access → Prop
  | .readTLS _ o | .writeTLS _ o => 0x80 ≤ o ∧ o < 0x200
  | .readMemory _ | .writeMemory _ => True

/-- The translation has accessed no other word, and has not gone past the translate parameters. -/
structure StaysInBounds (header : CommandHeader) (s : Message σ) : Prop where
  accesses : ∀ a ∈ s.accesses, InBounds a
  stops : s.tlsOffset = header.commandEnd

/-- The command ends in front of offset 0x200, and the descriptors' parameters end where it does. -/
def Fits (word : Nat → BitVec 32) : Prop :=
  let header : CommandHeader := ⟨word 0x80⟩
  header.commandEnd ≤ 0x200 ∧ Tiled word header.commandEnd (0x84 + 4 * header.numNormalParams)

theorem Allowed.inBounds {lo hi : Nat} (hlo : 0x80 ≤ lo) (hhi : hi ≤ 0x200) {a : Access}
    (h : Allowed lo hi a) : InBounds a := by
  cases a with
  | readTLS side o =>
    simp only [Allowed] at h
    simp only [InBounds]
    omega
  | writeTLS side o => exact ⟨Nat.le_trans hlo h.1, Nat.lt_of_lt_of_le h.2 hhi⟩
  | readMemory => trivial
  | writeMemory => trivial

theorem logMessage_reads (header : CommandHeader) :
    Ends (logMessage header) s
      (fun _ s' => Moves (Allowed 0x80 header.commandEnd) 0 s s' ∧
        (0x200 < header.commandEnd → ∃ a ∈ s'.accesses, ¬ InBounds a)) fun _ _ => True := by
  simp only [logMessage]
  refine Ends.bind (readTLS_run (P := Allowed 0x80 header.commandEnd) ?_) fun _ s₁ h₁ => ?_
  · exact allowed_read (Nat.le_refl _) (by unfold CommandHeader.commandEnd; omega) _
  refine Ends.mono (logWords_reads (P := Allowed 0x80 header.commandEnd) fun i hi => ?_) ?_
    fun _ _ h => h
  · exact allowed_read (by omega) (by unfold CommandHeader.commandEnd; omega) _
  · rintro _ s' ⟨h, hmem⟩
    refine ⟨h₁.trans h, fun hlt => ?_⟩
    unfold CommandHeader.commandEnd at hlt
    refine ⟨_, hmem 95 (by omega), fun hin => ?_⟩
    exact absurd hin.2 (by decide)

/-- What a translation that returns has done. -/
structure Translated (s s' : Message σ) (header : CommandHeader) : Prop where
  moves : ∃ k, Moves (Allowed 0x80 (max 0x180 s'.tlsOffset)) k s s'
  reaches : header.commandEnd ≤ s'.tlsOffset
  overrun : 0x200 < header.commandEnd → ∃ a ∈ s'.accesses, ¬ InBounds a
  reaches_iff : s'.tlsOffset = header.commandEnd ↔
    Tiled (s.tls .source) header.commandEnd (0x84 + 4 * header.numNormalParams)

theorem translateIPCMessage_translates (sys : System σ Object) (isReply : Bool)
    (hs : s.tlsOffset = 0x80) :
    Ends (translateIPCMessage sys isReply) s
      (fun _ s' => Translated s s' ⟨s.tls .source 0x80⟩) fun _ _ => True := by
  have h84 : 0x84 ≤ (⟨s.tls .source 0x80⟩ : CommandHeader).commandEnd := Nat.le_add_right ..
  simp only [translateIPCMessage]
  refine Ends.bind (readTLS_returns (P := Allowed 0x80 0x84) (.inl ⟨by decide, by decide⟩)) ?_
  rintro raw s₁ ⟨rfl, h₁⟩
  generalize (⟨s.tls .source 0x80⟩ : CommandHeader) = header at *
  have hnormal := header.numNormalParams_lt
  have hend : header.commandEnd = 0x84 + 4 * (header.numNormalParams + header.sizeTranslateParams) :=
    rfl
  let P := Allowed 0x80 (max 0x180 header.commandEnd)
  have hmono : ∀ {hi a}, hi ≤ max 0x180 header.commandEnd → Allowed 0x80 hi a → P a :=
    fun hhi h => h.mono (Nat.le_refl _) hhi
  refine Ends.bind (logMessage_reads _) fun _ s₂ ⟨h₂, hover⟩ => ?_
  have h₀₂ : Moves P 0 s s₂ :=
    (h₁.mono fun _ => hmono (by omega)).trans (h₂.mono fun _ => hmono (by omega))
  -- what follows the two reads of the reply
  have hrest : ∀ s₃, Moves P 0 s₂ s₃ → Ends (do
      roundsFrom (0x40 - (header.numNormalParams + 1)) (0x80 + 4 * (header.numNormalParams + 1)) 4
        fun offset => writeTLS offset 0
      rounds (header.numNormalParams + 1) copyWord
      translateParams sys isReply header.commandEnd header.sizeTranslateParams) s₃
      (fun _ s' => Translated s s' header) fun _ _ => True := by
    intro s₃ h₃
    refine Ends.bind (roundsFrom_run (P := P) fun i hi _ => writeTLS_run ?_ _) fun _ s₄ h₄ => ?_
    · exact ⟨by omega, by omega⟩
    have h₀₄ := (h₀₂.trans h₃).trans h₄
    have hoffset := h₀₄.offset
    have hcopy : Run P (4 * (header.numNormalParams + 1)) (rounds _ copyWord) s₄ :=
      rounds_run (fun _ => copyWord_run) (by omega) (by omega)
    refine Ends.bind hcopy fun _ s₅ h₅ => ?_
    have h₀₅ := h₀₄.trans h₅
    have hoffset := h₀₅.offset
    refine Ends.mono (translateParams_walks sys isReply _ _ (by omega)) (fun _ s' hw => ?_)
      fun _ _ h => h
    obtain ⟨k, hk⟩ := hw.moves
    have hreach := hw.reaches
    refine ⟨⟨_, (h₀₅.mono fun a ha => ?_).trans (hk.mono fun a ha => ?_)⟩, hreach, fun hlt => ?_, ?_⟩
    · exact ha.mono (Nat.le_refl _) (by omega)
    · exact ha.mono (by omega) (by omega)
    · obtain ⟨a, ha, hout⟩ := hover hlt
      exact ⟨a, hk.mem (h₅.mem (h₄.mem (h₃.mem ha))), hout⟩
    · have hstart : s₅.tlsOffset = 0x84 + 4 * header.numNormalParams := by omega
      rw [hw.exact_iff, h₀₅.source, hstart]
  refine Ends.split (fun _ => ?_) fun _ => hrest s₂ (.refl _ _)
  exact Ends.bind (readTLS_run (.inl ⟨by decide, by omega⟩)) fun _ s₃ h₃ => hrest s₃ h₃

/-- A translation that returns has left its loop at or behind the end of the command, and it has
stayed in bounds exactly for the messages that fit. -/
theorem translateIPCMessage_inBounds_iff (sys : System σ Object) (isReply : Bool)
    (tls : Side → Nat → BitVec 32) (system : σ) :
    let header : CommandHeader := ⟨tls .source 0x80⟩
    Ends (translateIPCMessage sys isReply) (Message.start tls system)
      (fun _ s' => header.commandEnd ≤ s'.tlsOffset ∧
        (StaysInBounds header s' ↔ Fits (tls .source))) fun _ _ => True := by
  intro header
  refine Ends.mono (translateIPCMessage_translates sys isReply rfl) (fun _ s' h => ⟨h.reaches, ?_⟩)
    fun _ _ h => h
  have hreaches := h.reaches_iff
  obtain ⟨k, l, hl, hallowed⟩ := h.moves.imp fun _ h => h.accesses
  constructor
  · rintro ⟨haccesses, hstops⟩
    refine ⟨Nat.not_lt.1 fun hlt => ?_, hreaches.1 hstops⟩
    obtain ⟨a, ha, hout⟩ := h.overrun hlt
    exact hout (haccesses a ha)
  · rintro ⟨hend, htiled⟩
    have hstops := hreaches.2 htiled
    refine ⟨fun a ha => (hallowed a ?_).inBounds (Nat.le_refl _) ?_, hstops⟩
    · rwa [hl] at ha
    · rw [hstops]
      exact Nat.max_le.2 ⟨by decide, hend⟩

/-- A system without objects or memory. -/
def emptySystem : System Unit Unit where
  processId _ := 1
  findObject _ _ := none
  isAddressArbiter _ := false
  createHandle _ _ := pure 0
  svcCloseHandle _ := pure 0
  resolveVirtualAddrWithSize _ _ := none
  resolveDestAddr _ _ := none
  readMemory _ := pure 0
  writeMemory _ _ := pure ()
  writeMemory32 _ _ := pure ()
  findAvailableVirtualMemory _ _ _ _ := none
  mapVirtualMemory _ _ _ _ := pure false
  unmapVirtualMemory _ _ := pure false

/-- 63 normal parameters, 63 words of translate parameters and a descriptor of 64 process ids. -/
def overrunWords (_ : Side) (offset : Nat) : BitVec 32 :=
  if offset = 0x80 then 0x00010FFF else 0xFC000020

/-- Where a translation that returns has left `tls_offset`. -/
def lastOffset (r : EStateM.Result Exception (Message σ) Unit) : Option Nat :=
  match r with
  | .ok _ s => some s.tlsOffset
  | .error _ _ => none

theorem not_staysInBounds {x : IpcM σ Unit} {header : CommandHeader} {n : Nat}
    (hx : lastOffset (x s) = some n) (hne : n ≠ header.commandEnd) :
    ¬ Ends x s (fun _ s' => StaysInBounds header s') fun _ _ => True := by
  intro h
  unfold Ends at h
  cases hrun : x s with
  | ok a s' =>
    rw [hrun] at h hx
    exact hne ((Option.some.inj hx).symm.trans h.stops)
  | error e s' =>
    rw [hrun] at hx
    cases hx

theorem translateIPCMessage_overruns :
    ¬ ∀ tls : Side → Nat → BitVec 32, Ends (translateIPCMessage emptySystem false)
      (Message.start tls ()) (fun _ s' => StaysInBounds ⟨tls .source 0x80⟩ s') fun _ _ => True := by
  have hlast : lastOffset (translateIPCMessage emptySystem false
      (Message.start overrunWords ())) = some 0x284 := by decide +kernel
  exact not_forall.2 ⟨overrunWords, not_staysInBounds hlast (by decide)⟩

end Mikage.IPC
