import Mikage.OS.CommandBuffer

/-!
# What a translation leaves alone

A descriptor is translated to the words of the destination from its own on, and only mapped buffers
change the maps of the two processes.

- `Behind`, `Guards`: the words in front of an offset and what holds of the system; programs that
  keep both.
- `translateDescriptor_guards`: every descriptor keeps the words in front of it.
- `translateDescriptor_quiet`: all but the mapped buffers keep the rest of the system.
-/

namespace Mikage.IPC

open TranslationDescriptor

variable {σ Object α β : Type} {k : ℕ} {S : σ → Prop} {w : ℕ → BitVec 32} {P : Message σ → Prop}

/-- `x` keeps `P` or throws. -/
def Guards (P : Message σ → Prop) (x : IpcM σ α) : Prop :=
  ∀ s, P s → Ends x s (fun _ s' => P s') fun _ _ => True

/-- The destination has the words `w` in front of the offset `k`, and `tls_offset` is there or
behind. -/
structure Behind (k : ℕ) (S : σ → Prop) (w : ℕ → BitVec 32) (s : Message σ) : Prop where
  offset : k ≤ s.tlsOffset
  system : S s.system
  words : ∀ o < k, s.tls .dest o = w o

/-- What the calls for descriptors other than mapped buffers keep. -/
structure Quiet (sys : System σ Object) (S : σ → Prop) : Prop where
  createHandle : ∀ object command t, S t →
    Ends (sys.createHandle object command) t (fun _ t' => S t') fun _ _ => True
  svcCloseHandle : ∀ handle t, S t →
    Ends (sys.svcCloseHandle handle) t (fun _ t' => S t') fun _ _ => True
  readMemory : ∀ addr t, S t → Ends (sys.readMemory addr) t (fun _ t' => S t') fun _ _ => True
  writeMemory : ∀ addr value t, S t →
    Ends (sys.writeMemory addr value) t (fun _ t' => S t') fun _ _ => True
  writeMemory32 : ∀ addr value t, S t →
    Ends (sys.writeMemory32 addr value) t (fun _ t' => S t') fun _ _ => True

theorem ends_true {τ : Type} {x : EStateM Exception τ α} {t : τ} :
    Ends x t (fun _ _ => True) fun _ _ => True := by
  unfold Ends
  cases x t <;> trivial

theorem quiet_true (sys : System σ Object) : Quiet sys fun _ => True :=
  ⟨fun _ _ _ _ => ends_true, fun _ _ _ => ends_true, fun _ _ _ => ends_true,
    fun _ _ _ _ => ends_true, fun _ _ _ _ => ends_true⟩

namespace Guards

variable {x y : IpcM σ α} {f : α → IpcM σ β}

theorem bind (h : Guards P x) (hf : ∀ a, Guards P (f a)) : Guards P (x >>= f) :=
  fun s hs => (h s hs).bind fun a s' hs' => hf a s' hs'

theorem pure (a : α) : Guards P (Pure.pure a : IpcM σ α) := fun _ hs => hs

theorem throw (e : Exception) : Guards P (MonadExcept.throw e : IpcM σ α) := fun _ _ => trivial

theorem throwBind (e : Exception) : Guards P ((MonadExcept.throw e : IpcM σ α) >>= f) :=
  fun _ _ => trivial

theorem get {f : Message σ → IpcM σ β} (h : ∀ s, Guards P (f s)) :
    Guards P (MonadState.get >>= f) :=
  fun s hs => h s s hs

theorem ite {c : Prop} [Decidable c] (h : Guards P x) (h' : Guards P y) :
    Guards P (if c then x else y) := fun s hs => Ends.split (fun _ => h s hs) fun _ => h' s hs

theorem rounds {body : IpcM σ Unit} {n : ℕ} (h : Guards P body) : Guards P (rounds n body) := by
  induction n with
  | zero => exact .pure _
  | succ n ih => exact .bind h fun _ => ih

theorem roundsFrom {body : ℕ → IpcM σ Unit} {n offset stride : ℕ} (h : ∀ i, Guards P (body i)) :
    Guards P (roundsFrom n offset stride body) := by
  induction n generalizing offset with
  | zero => exact .pure _
  | succ n ih => exact .bind (h offset) fun _ => ih

/-- From where `tls_offset` is, the words may be written. -/
theorem tlsOffset {f : ℕ → IpcM σ β} (h : ∀ o, k ≤ o → Guards (Behind k S w) (f o)) :
    Guards (Behind k S w) (IPC.tlsOffset >>= f) := fun s hs => h s.tlsOffset hs.offset s hs

theorem call {x : EStateM Exception σ α}
    (h : ∀ t, S t → Ends x t (fun _ t' => S t') fun _ _ => True) :
    Guards (Behind k S w) (call x) := by
  intro s hs
  have hx := h s.system hs.system
  unfold Ends at hx ⊢
  unfold IPC.call
  cases hrun : x s.system with
  | ok a t =>
    rw [hrun] at hx
    exact ⟨hs.offset, hx, hs.words⟩
  | error e t => trivial

theorem record (a : Access) : Guards (Behind k S w) (record a) :=
  fun _ hs => ⟨hs.offset, hs.system, hs.words⟩

theorem readTLS (side : Side) (o : ℕ) : Guards (Behind k S w) (readTLS side o) :=
  .bind (.record _) fun _ => .get fun _ => .pure _

theorem writeTLS {o : ℕ} (ho : k ≤ o) (v : BitVec 32) : Guards (Behind k S w) (writeTLS o v) :=
  .bind (.record _) fun _ _ hs => ⟨hs.offset, hs.system, fun i hi => by
    rw [← hs.words i hi]
    exact if_neg fun h => absurd h.2 (by omega)⟩

theorem advance : Guards (Behind k S w) advance :=
  fun _ hs => ⟨Nat.le_add_right_of_le hs.offset, hs.system, hs.words⟩

/-- The last word of a descriptor's parameter. -/
theorem writeLast {o : ℕ} (ho : k ≤ o) (v : BitVec 32) :
    Guards (Behind k S w) (do IPC.writeTLS o v; IPC.advance : IpcM σ Unit) :=
  .bind (.writeTLS ho v) fun _ => .advance

end Guards

section

variable {sys : System σ Object} (d : TranslationDescriptor)

theorem translateHandle_guards (h : Quiet sys S) :
    Guards (Behind k S w) (translateHandle sys d) := by
  simp only [translateHandle]
  refine .tlsOffset fun o ho => .ite (.get fun _ => .writeLast ho _) ?_
  refine .bind (.readTLS _ _) fun handle => .ite (.writeLast ho _) (.get fun _ => ?_)
  split
  next => exact .throwBind _
  next object _ =>
    refine .ite (.throwBind _) (.bind (.readTLS _ _) fun command => ?_)
    refine .bind (.call (h.createHandle object command)) fun _ => .ite ?_ (.writeLast ho _)
    exact .bind (.call (h.svcCloseHandle handle)) fun _ => .ite (.throwBind _) (.writeLast ho _)

theorem useStaticBuffer_guards (id : ℕ) (twice : String) :
    Guards (Behind k S w) (useStaticBuffer id twice : IpcM σ _) := by
  simp only [useStaticBuffer]
  refine .bind (.readTLS _ _) fun _ => .bind (.readTLS _ _) fun _ => .get fun _ => ?_
  refine .ite (.throwBind _) (.bind (fun _ hs => ?_) fun _ => .pure _)
  exact ⟨hs.offset, hs.system, hs.words⟩

theorem readMemory_guards (h : Quiet sys S) (addr : VAddr) :
    Guards (Behind k S w) (readMemory sys addr) :=
  .bind (.record _) fun _ => .call (h.readMemory addr)

theorem logMemory_guards (h : Quiet sys S) (addr : VAddr) (n : ℕ) :
    Guards (Behind k S w) (logMemory sys addr n) :=
  .roundsFrom fun _ => .bind (readMemory_guards h _) fun _ => .pure _

theorem translateStaticBuffer_guards (h : Quiet sys S) :
    Guards (Behind k S w) (translateStaticBuffer sys d) := by
  simp only [translateStaticBuffer]
  refine .tlsOffset fun o ho => .bind (.readTLS _ _) fun addr => ?_
  refine .bind (useStaticBuffer_guards _ _) fun buffer => ?_
  refine .ite (.bind (.readTLS _ _) fun _ => .throwBind _) ?_
  refine .bind (logMemory_guards h _ _) fun _ => ?_
  refine .bind (.roundsFrom fun i => ?_) fun _ => .writeLast ho _
  exact .bind (readMemory_guards h _) fun value =>
    .bind (.record _) fun _ => .call (h.writeMemory _ value)

theorem writePxiEntry_guards (h : Quiet sys S) (addr : VAddr) (chunk : PAddr) (size : ℕ) :
    Guards (Behind k S w) (writePxiEntry sys addr chunk size) :=
  .bind (.bind (.record _) fun _ => .call (h.writeMemory32 _ _)) fun _ =>
    .bind (.record _) fun _ => .call (h.writeMemory32 _ _)

theorem writePxiPages_guards (h : Quiet sys S) (destBufferAddr bufferAddr : VAddr)
    (bufferSize offset : ℕ) : Guards (Behind k S w)
      (writePxiPages sys d destBufferAddr bufferAddr bufferSize offset) := by
  induction bufferSize using Nat.strongRecOn generalizing bufferAddr offset with
  | ind bufferSize ih =>
    rw [writePxiPages]
    split
    next => exact .pure _
    next =>
      refine .ite (.throwBind _) (.get fun _ => ?_)
      split
      next => exact .throw _
      next =>
        have hpos := pageRest_pos bufferAddr
        exact .bind (writePxiEntry_guards h _ _ _) fun _ => ih _ (by omega) _ _

theorem writePxiTable_guards (h : Quiet sys S) (destBufferAddr bufferAddr : VAddr)
    (bufferSize : ℕ) : Guards (Behind k S w)
      (writePxiTable sys d destBufferAddr bufferAddr bufferSize) := by
  simp only [writePxiTable]
  have hbase (base : PAddr × ℕ) : Guards (Behind k S w) (if bufferSize ≤ base.2 then
      if d.staticBufferSize < 8 then do
        throw (.runtimeError "Exceeded capacity of static buffer")
        writePxiEntry sys destBufferAddr base.1 bufferSize
        return 8
      else do
        writePxiEntry sys destBufferAddr base.1 bufferSize
        return 8
    else writePxiPages sys d destBufferAddr bufferAddr bufferSize 0) := by
    refine .ite (.ite (.throwBind _) ?_) (writePxiPages_guards d h _ _ _ _)
    exact .bind (writePxiEntry_guards h _ _ _) fun _ => .pure _
  refine .get fun _ => ?_
  split
  next => exact .bind (.pure _) hbase
  next => exact .ite (.bind (.pure _) hbase) (.throwBind _)

theorem translatePxiBuffer_guards (h : Quiet sys S) (s : Message σ) (hs : Behind k S w s)
    (hk : k + 4 ≤ s.tlsOffset) :
    Ends (translatePxiBuffer sys d) s (fun _ s' => Behind k S w s') fun _ _ => True := by
  simp only [translatePxiBuffer]
  rw [ends_tlsOffset]
  -- from here on the offset is a number, and the word in front of it is behind `k`
  refine (show Guards (Behind k S w) _ from ?_) s hs
  refine .bind (useStaticBuffer_guards _ _) fun buffer => .ite (.throwBind _) ?_
  refine .bind (.readTLS _ _) fun _ => .bind (writePxiTable_guards _ h _ _ _) fun _ => ?_
  refine .bind (.writeTLS (by omega) _) fun _ => .get fun _ => ?_
  split
  next => exact .throwBind _
  next => exact .writeLast (by omega) _

theorem mapChunks_guards (hmap : ∀ paddr size vaddr permissions t, S t →
      Ends (sys.mapVirtualMemory paddr size vaddr permissions) t (fun _ t' => S t') fun _ _ => True)
    (permissions : MemoryPermissions) (sourceAddr destAddr : VAddr) (size mapped : ℕ) :
    Guards (Behind k S w) (mapChunks sys permissions sourceAddr destAddr size mapped) := by
  induction hrest : size - mapped using Nat.strongRecOn generalizing mapped with
  | ind rest ih =>
    rw [mapChunks]
    split
    next =>
      refine .get fun _ => ?_
      split
      next => exact .throw _
      next chunk _ =>
        have hpos := chunk.size_pos
        refine .bind (.call (hmap _ _ _ _)) fun success => .ite (.throwBind _) ?_
        exact ih _ (by omega) _ rfl
    next => exact .pure _

theorem translateMapBuffer_guards {isReply : Bool} :
    Guards (Behind k (fun _ => True) w) (translateMapBuffer sys isReply d) := by
  simp only [translateMapBuffer]
  refine .tlsOffset fun o ho => .bind (.readTLS _ _) fun addr => .ite .advance (.ite ?_ ?_)
  · have hunmap (size : BitVec 32) : Guards (Behind k (fun _ => True) w) (do
        let success ← call (sys.unmapVirtualMemory (addr &&& ~~~0xfff#32) size)
        if !success then throw (.runtimeError "Couldn't unmap IPC buffer memory")
        writeTLS o 0
        advance) :=
      .bind (.call fun _ _ => ends_true) fun _ => .ite (.throwBind _) (.writeLast ho _)
    exact .ite (.bind (logMemory_guards (quiet_true sys) _ _) fun _ => hunmap _) (hunmap _)
  · refine .get fun _ => ?_
    split
    next => exact .throwBind _
    next =>
      refine .bind (mapChunks_guards (fun _ _ _ _ _ _ => ends_true) _ _ _ _ _) fun _ => ?_
      refine .bind (.writeTLS ho _) fun _ => .ite ?_ .advance
      exact .bind (logMemory_guards (quiet_true sys) _ _) fun _ => .advance

end

/-! ## A message -/

/-- The descriptor is one of a mapped buffer. -/
def IsMapBuffer (d : TranslationDescriptor) : Prop :=
  d.type = .mapReadOnly ∨ d.type = .mapWriteOnly ∨ d.type = .mapReadWrite

instance (d : TranslationDescriptor) : Decidable (IsMapBuffer d) :=
  inferInstanceAs (Decidable (_ ∨ _ ∨ _))

section

variable {sys : System σ Object} {d : TranslationDescriptor} {s s' : Message σ} {isReply : Bool}

theorem IsMapBuffer.numParams (h : IsMapBuffer d) : IPC.numParams d = 1 := by
  unfold IPC.numParams
  rcases h with h | h | h <;> rw [h]

theorem IsMapBuffer.translate (h : IsMapBuffer d) :
    translateDescriptor sys isReply d = translateMapBuffer sys isReply d := by
  unfold translateDescriptor
  rcases h with h | h | h <;> rw [h]

theorem translateDescriptor_quiet (h : Quiet sys S) (hd : ¬ IsMapBuffer d) (hs : Behind k S w s)
    (hk : k + 4 ≤ s.tlsOffset) : Ends (translateDescriptor sys isReply d) s
      (fun _ s' => Behind k S w s') fun _ _ => True := by
  unfold translateDescriptor
  cases htype : d.type with
  | handles =>
    exact Ends.split (fun _ => trivial) fun _ =>
      Guards.rounds (translateHandle_guards d h) s hs
  | staticBuffer => exact translateStaticBuffer_guards d h s hs
  | pxiBuffer | pxiConstBuffer => exact translatePxiBuffer_guards d h s hs hk
  | mapInvalid => trivial
  | mapReadOnly => exact absurd (.inl htype) hd
  | mapWriteOnly => exact absurd (.inr (.inl htype)) hd
  | mapReadWrite => exact absurd (.inr (.inr htype)) hd

/-- A descriptor and its parameters. -/
theorem translateDescriptor_behind (hs : Behind k (fun _ => True) w s) (hk : k + 4 ≤ s.tlsOffset) :
    Ends (translateDescriptor sys isReply d) s (fun _ s' => Behind k (fun _ => True) w s')
      fun _ _ => True := by
  by_cases hd : IsMapBuffer d
  · rw [hd.translate]
    exact translateMapBuffer_guards d s hs
  · exact translateDescriptor_quiet (quiet_true sys) hd hs hk

/-- A round of the loop over the descriptors. -/
theorem translateParams_round {stop words : ℕ} (hlt : s.tlsOffset < stop)
    (h : translateParams sys isReply stop (words + 1) s = .ok () s') : ∃ s₁ s₂,
      s₁.system = s.system ∧ s₁.tls .source = s.tls .source ∧ s₁.tlsOffset = s.tlsOffset + 4 ∧
      (∀ o ≠ s.tlsOffset, s₁.tls .dest o = s.tls .dest o) ∧
      translateDescriptor sys isReply ⟨s.tls .source s.tlsOffset⟩ s₁ = .ok () s₂ ∧
      s₂.tls .source = s.tls .source ∧
      s₂.tlsOffset = s.tlsOffset + 4 * (1 + IPC.numParams ⟨s.tls .source s.tlsOffset⟩) ∧
      translateParams sys isReply stop words s₂ = .ok () s' := by
  simp only [translateParams] at h
  obtain ⟨_, _, hoffset, h⟩ := EStateM.bind_eq_ok_iff.1 h
  cases hoffset
  rw [if_pos hlt] at h
  obtain ⟨_, _, hread, h⟩ := EStateM.bind_eq_ok_iff.1 h
  cases hread
  obtain ⟨_, _, hwrite, h⟩ := EStateM.bind_eq_ok_iff.1 h
  cases hwrite
  obtain ⟨_, s₁, hadvance, h⟩ := EStateM.bind_eq_ok_iff.1 h
  obtain ⟨_, s₂, hdescriptor, h⟩ := EStateM.bind_eq_ok_iff.1 h
  have hsource : s₁.tls .source = s.tls .source := by
    cases hadvance
    exact funext fun _ => rfl
  have hnext : s₁.tlsOffset = s.tlsOffset + 4 := by
    cases hadvance
    rfl
  have hwords (o : ℕ) (ho : o ≠ s.tlsOffset) : s₁.tls .dest o = s.tls .dest o := by
    cases hadvance
    exact if_neg fun heq => ho heq.2
  have hrun : Run
      (Allowed s.tlsOffset (s₁.tlsOffset + 4 * IPC.numParams ⟨s.tls .source s.tlsOffset⟩))
      (4 * IPC.numParams ⟨s.tls .source s.tlsOffset⟩)
      (translateDescriptor sys isReply ⟨s.tls .source s.tlsOffset⟩) s₁ :=
    translateDescriptor_run sys _ isReply (by omega) (Nat.le_refl _)
  have hmoves := hrun.ok hdescriptor
  refine ⟨s₁, s₂, ?_, hsource, hnext, hwords, hdescriptor, hmoves.source.trans hsource, ?_, h⟩
  · cases hadvance
    rfl
  · rw [hmoves.offset, hnext]
    omega

/-- The loop keeps the words in front of it. -/
theorem translateParams_behind {stop words : ℕ} (hs : Behind k (fun _ => True) w s)
    (h : translateParams sys isReply stop words s = .ok () s') :
    Behind k (fun _ => True) w s' := by
  induction words generalizing s with
  | zero =>
    cases h
    exact hs
  | succ words ih =>
    by_cases hlt : s.tlsOffset < stop
    · obtain ⟨s₁, s₂, -, -, hoffset, hwords, hdescriptor, -, -, h⟩ := translateParams_round hlt h
      have hle := hs.offset
      have h₁ : Behind k (fun _ => True) w s₁ := ⟨by omega, trivial, fun o ho => by
        rw [hwords o (by omega)]
        exact hs.words o ho⟩
      exact ih ((translateDescriptor_behind h₁ (by omega)).ok hdescriptor) h
    · simp only [translateParams] at h
      obtain ⟨_, _, hoffset, h⟩ := EStateM.bind_eq_ok_iff.1 h
      cases hoffset
      rw [if_neg hlt] at h
      cases h
      exact hs

end

/-! ## In front of the descriptors -/

/-- `x` does not throw. -/
def Returns (x : IpcM σ α) : Prop := ∀ s, ∃ a s', x s = .ok a s'

section

variable {sys : System σ Object} {s s' : Message σ} {isReply : Bool}

theorem Returns.bind {x : IpcM σ α} {f : α → IpcM σ β} (h : Returns x) (hf : ∀ a, Returns (f a)) :
    Returns (x >>= f) := by
  intro s
  obtain ⟨a, s₁, hx⟩ := h s
  rw [EStateM.bind_of_ok hx]
  exact hf a s₁

theorem Returns.rounds {body : IpcM σ Unit} {n : ℕ} (h : Returns body) :
    Returns (rounds n body) := by
  induction n with
  | zero => exact fun s => ⟨(), s, rfl⟩
  | succ n ih => exact .bind h fun _ => ih

theorem Returns.roundsFrom {body : ℕ → IpcM σ Unit} {n offset stride : ℕ}
    (h : ∀ i, Returns (body i)) : Returns (roundsFrom n offset stride body) := by
  induction n generalizing offset with
  | zero => exact fun s => ⟨(), s, rfl⟩
  | succ n ih => exact .bind (h offset) fun _ => ih

theorem Returns.readTLS (side : Side) (o : ℕ) : Returns (readTLS side o : IpcM σ _) :=
  fun _ => ⟨_, _, rfl⟩

/-- The words behind those that are cleared stay. -/
theorem clearWords_dest {n offset : ℕ} :
    Ends (roundsFrom n offset 4 fun o => writeTLS o 0 : IpcM σ Unit) s
      (fun _ s' => ∀ o, offset + 4 * n ≤ o → s'.tls .dest o = s.tls .dest o) fun _ _ => True := by
  induction n generalizing offset s with
  | zero => exact fun _ _ => rfl
  | succ n ih =>
    refine Ends.bind (Q := fun _ s₁ => ∀ o, o ≠ offset → s₁.tls .dest o = s.tls .dest o)
      (fun o hne => if_neg fun h => hne h.2) fun _ s₁ h₁ => ?_
    refine (ih (s := s₁)).mono (fun _ s' h o ho => ?_) fun _ _ h => h
    rw [h o (by omega), h₁ o (by omega)]

theorem copyWords_dest {n : ℕ} : Ends (rounds n copyWord : IpcM σ Unit) s
    (fun _ s' => ∀ o, s.tlsOffset + 4 * n ≤ o → s'.tls .dest o = s.tls .dest o)
    fun _ _ => True := by
  induction n generalizing s with
  | zero => exact fun _ _ => rfl
  | succ n ih =>
    refine Ends.bind (Q := fun _ s₁ => s₁.tlsOffset = s.tlsOffset + 4 ∧
      ∀ o, o ≠ s.tlsOffset → s₁.tls .dest o = s.tls .dest o)
      ⟨rfl, fun o hne => if_neg fun h => hne h.2⟩ fun _ s₁ h₁ => ?_
    refine (ih (s := s₁)).mono (fun _ s' h o ho => ?_) fun _ _ h => h
    rw [h o (by rw [h₁.1]; omega), h₁.2 o (by omega)]

theorem readTLS_words {t : Side → ℕ → BitVec 32} (side : Side) (o : ℕ) :
    Guards (fun s : Message σ => s.tls = t) (readTLS side o) := fun _ hs => hs

theorem logMessage_words {t : Side → ℕ → BitVec 32} (header : CommandHeader) :
    Guards (fun s : Message σ => s.tls = t) (logMessage header) :=
  .bind (readTLS_words _ _) fun _ => .roundsFrom fun _ => .bind (readTLS_words _ _) fun _ => .pure _

/-- A message is its translate parameters, from a state with the same maps, the words of the source
and the static buffers of the destination. -/
theorem translateIPCMessage_params (sys : System σ Object) (isReply : Bool)
    (hstart : s.tlsOffset = 0x80) :
    let header : CommandHeader := ⟨s.tls .source 0x80⟩
    ∃ s₁, s₁.system = s.system ∧ s₁.tls .source = s.tls .source ∧
      s₁.tlsOffset = 0x84 + 4 * header.numNormalParams ∧
      (∀ o, 0x180 ≤ o → s₁.tls .dest o = s.tls .dest o) ∧ translateIPCMessage sys isReply s =
        translateParams sys isReply header.commandEnd header.sizeTranslateParams s₁ := by
  intro header
  have hnormal := header.numNormalParams_lt
  let P := Behind 0 (fun t => t = s.system) (fun _ => 0)
  have hP : P s := ⟨Nat.zero_le _, rfl, nofun⟩
  have hrest (s₂ : Message σ) (h₂ : P s₂) (hsource : s₂.tls .source = s.tls .source)
      (hdest : s₂.tls .dest = s.tls .dest) (hoffset : s₂.tlsOffset = 0x80) :
      ∃ s₁, s₁.system = s.system ∧ s₁.tls .source = s.tls .source ∧
      s₁.tlsOffset = 0x84 + 4 * header.numNormalParams ∧
      (∀ o, 0x180 ≤ o → s₁.tls .dest o = s.tls .dest o) ∧ (do
        roundsFrom (0x40 - (header.numNormalParams + 1)) (0x80 + 4 * (header.numNormalParams + 1)) 4
          fun offset => writeTLS offset 0
        rounds (header.numNormalParams + 1) copyWord
        translateParams sys isReply header.commandEnd header.sizeTranslateParams) s₂ =
      translateParams sys isReply header.commandEnd header.sizeTranslateParams s₁ := by
    let clear : IpcM σ Unit := roundsFrom (0x40 - (header.numNormalParams + 1))
      (0x80 + 4 * (header.numNormalParams + 1)) 4 fun offset => writeTLS offset 0
    obtain ⟨_, s₃, hclear⟩ : ∃ a s₃, clear s₂ = .ok a s₃ :=
      Returns.roundsFrom (fun _ _ => ⟨_, _, rfl⟩) s₂
    have h₃ : P s₃ := (Guards.roundsFrom (fun _ => .writeTLS (Nat.zero_le _) _) s₂ h₂).ok hclear
    have hmoves₃ := (roundsFrom_run (P := fun _ => True)
      fun _ _ _ => writeTLS_run trivial _).ok hclear
    obtain ⟨_, s₄, hcopy⟩ : ∃ a s₄, rounds (header.numNormalParams + 1) copyWord s₃ = .ok a s₄ :=
      Returns.rounds (fun _ => ⟨_, _, rfl⟩) s₃
    have hcopy' : Guards P (copyWord : IpcM σ Unit) :=
      .tlsOffset fun _ ho => .bind (.readTLS _ _) fun _ => .writeLast ho _
    have h₄ : P s₄ := (Guards.rounds hcopy' s₃ h₃).ok hcopy
    have hcopied : Run (Allowed s₃.tlsOffset (0x84 + 4 * header.numNormalParams))
        (4 * (header.numNormalParams + 1)) (rounds (header.numNormalParams + 1) copyWord) s₃ :=
      rounds_run (fun _ => copyWord_run) (Nat.le_refl _) (by rw [hmoves₃.offset]; omega)
    have hmoves₄ := hcopied.ok hcopy
    refine ⟨s₄, h₄.system, hmoves₄.source.trans (hmoves₃.source.trans hsource), ?_, ?_, ?_⟩
    · rw [hmoves₄.offset, hmoves₃.offset]
      omega
    · intro o ho
      have hoffset₃ := hmoves₃.offset
      rw [copyWords_dest.ok hcopy o (by omega), clearWords_dest.ok hclear o (by omega), hdest]
    · rw [EStateM.bind_of_ok hclear, EStateM.bind_of_ok hcopy]
  obtain ⟨_, s₁, hread⟩ := Returns.readTLS .source 0x80 s
  obtain ⟨hraw, hmoves₁⟩ := (readTLS_returns (P := fun _ => True) trivial).ok hread
  have h₁ : P s₁ := (Guards.readTLS _ _ s hP).ok hread
  have hlog : Returns (logMessage header : IpcM σ Unit) :=
    .bind (.readTLS _ _) fun _ => .roundsFrom fun _ => .bind (.readTLS _ _) fun _ s => ⟨(), s, rfl⟩
  obtain ⟨_, s₂, hlog⟩ := hlog s₁
  have hlog' : Guards P (logMessage header : IpcM σ Unit) :=
    .bind (.readTLS _ _) fun _ => .roundsFrom fun _ => .bind (.readTLS _ _) fun _ => .pure _
  have h₂ : P s₂ := (hlog' s₁ h₁).ok hlog
  have hmoves₂ := ((logMessage_reads header).ok hlog).1
  have hsource := hmoves₂.source.trans hmoves₁.source
  have hoffset : s₂.tlsOffset = 0x80 := by rw [hmoves₂.offset, hmoves₁.offset, hstart]
  have hwords₁ : s₁.tls = s.tls := (readTLS_words _ _ s rfl).ok hread
  have hwords₂ : s₂.tls = s.tls := (logMessage_words header s₁ hwords₁).ok hlog
  simp only [translateIPCMessage]
  rw [EStateM.bind_of_ok hread, hraw, EStateM.bind_of_ok hlog]
  split
  · obtain ⟨_, s₃, hread⟩ := Returns.readTLS .source 0x84 s₂
    have hmoves₃ := (readTLS_returns (P := fun _ => True) trivial).ok hread
    rw [EStateM.bind_of_ok hread]
    have hwords₃ : s₃.tls = s.tls := (readTLS_words _ _ s₂ hwords₂).ok hread
    exact hrest s₃ ((Guards.readTLS _ _ s₂ h₂).ok hread) (hmoves₃.2.source.trans hsource)
      (congrFun hwords₃ _) (hmoves₃.2.offset.trans hoffset)
  · exact hrest s₂ h₂ hsource (congrFun hwords₂ _) hoffset

end

end Mikage.IPC
