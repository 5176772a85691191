import Mikage.OS.Calls

/-!
# Ports, sessions and IPC, kept

The calls around ports and sessions keep the invariant, also where a message is translated for a
client whose process is gone.
-/

namespace Mikage

open KM Account

variable {α β : Type} {env : Env} {k k' : Kernel} {r s t p cs ss : Ref} {T : Ref → Prop}
  {handle : Handle}

/-! ## Ports and sessions -/

/-- Two new objects, held by the thread, get handles. -/
theorem handOutTwo_keeps (hS : Sound k) (ht : Running k t) {a b : Ref} (ha : a ∈ (k.thread t).frame)
    (hb : b ∈ (k.thread t).frame) : Keeps T (do
      let _ ← createHandle (k.thread t).process a
      let _ ← createHandle (k.thread t).process b
      reschedule) k (fun _ _ => True) := by
  have hp := ht.parent_alive hS.toInv
  refine keep_call (keep_createHandle (T := nobody) hS hp.2 (ht.parent_kind hS.toInv)
    (ht.frame_alive hS a ha)) (fun _ => False.elim) fun _ k₁ hS₁ hF₁ hl₁ hk₁ => ?_
  obtain ⟨_, _, _, rfl⟩ := hk₁
  have ht₁ := ht.after hS hF₁ hl₁
  refine keep_call (keep_createHandle (T := T) hS₁ (ht₁.parent_alive hS₁.toInv).2
    (ht₁.parent_kind hS₁.toInv) (ht₁.frame_alive hS₁ b hb)) (fun _ => id) fun _ _ hS₂ _ _ _ => ?_
  exact keep_reschedule hS₂

theorem Sound.name (hS : Sound k) (name : String) (hp : k.Alive p) :
    Sound { k with ports := k.ports ++ [(name, p)] } := by
  have hact : Act .base (k, .idle) ({ k with ports := k.ports ++ [(name, p)] }, .idle) := .name hp
  exact hS.act hact

theorem svcCreatePort_keeps (hS : Sound k) (ht : Running k t) {name : String} {maxSessions : Int} :
    Keeps T (svcCreatePort t name maxSessions) k (fun _ _ => True) := by
  unfold svcCreatePort
  refine Ends.split (fun _ => keep_fail (by decide)) fun _ => ?_
  simp only [newObject, KM.modifyThread, emit, ends_assoc, ends_get, ends_modify, ends_pure_bind]
  have hact := @Act.newPort (.acting nobody) k .idle maxSessions.toNat
  have hF := Frame.act hS.toInv hact
  have hS₁ := hS.act hact
  have ht₁ := ht.after hS hF rfl
  have hd : ∀ r, k.next ≤ r → k.dead r = false := fun r hr => (hS.fresh r hr).2.1
  refine keep_since (hF.mono (Powers.acting_le fun _ => False.elim)) rfl ?_
  refine keep_frame (f := fun frame => (k.next + 1) :: (k.next + 1 + 1) :: frame) hS₁ ht₁
    (fun x hx => ?_) fun hS₂ ht₂ => ?_
  · simp only [List.mem_cons] at hx
    rcases hx with rfl | rfl | hx
    · exact ⟨Nat.lt_succ_of_lt (Nat.lt_succ_self _), hd _ (Nat.le_succ _)⟩
    · exact ⟨Nat.lt_succ_self _, hd _ (Nat.le_add_right _ 2)⟩
    · exact ht₁.frame_alive hS₁ x hx
  refine Ends.split (fun _ => ?_) fun _ => ?_
  · have hS₃ := hS₂.name name (p := k.next)
      ⟨Nat.lt_succ_of_lt (Nat.lt_succ_of_lt (Nat.lt_succ_self _)), hd _ (Nat.le_refl _)⟩
    simp only [ends_set]
    refine keep_move { Frame.refl _ with } rfl ?_
    exact handOutTwo_keeps (a := k.next + 1) (b := k.next + 1 + 1) hS₃
      ⟨ht₂.ready, ht₂.callback, ht₂.self, ht₂.parent⟩ (by simp) (by simp)
  · exact handOutTwo_keeps hS₂ ht₂ (by simp) (by simp)

theorem svcCreateSession_keeps (hS : Sound k) (ht : Running k t) :
    Keeps T (svcCreateSession t) k (fun _ _ => True) := by
  simp only [svcCreateSession, newObject, KM.modifyThread, ends_assoc, ends_get, ends_modify,
    ends_pure_bind]
  have hact : Act (.acting nobody) (k, .idle) (_, .idle) := .newPair
  have hF := Frame.act hS.toInv hact
  have hS₁ := hS.act hact
  have ht₁ := ht.after hS hF rfl
  have hd : ∀ r, k.next ≤ r → k.dead r = false := fun r hr => (hS.fresh r hr).2.1
  refine keep_since (hF.mono (Powers.acting_le fun _ => False.elim)) rfl ?_
  refine keep_frame (f := fun frame => (k.next + 1) :: (k.next + 1 + 1) :: frame) hS₁ ht₁
    (fun x hx => ?_) fun hS₂ ht₂ => ?_
  · simp only [List.mem_cons] at hx
    rcases hx with rfl | rfl | hx
    · exact ⟨Nat.lt_succ_of_lt (Nat.lt_succ_self _), hd _ (Nat.le_succ _)⟩
    · exact ⟨Nat.lt_succ_self _, hd _ (Nat.le_add_right _ 2)⟩
    · exact ht₁.frame_alive hS₁ x hx
  exact handOutTwo_keeps hS₂ ht₂ (by simp) (by simp)

theorem Sound.modifyServerPort (hS : Sound k) {f : ServerPort → ServerPort}
    (howned : k.kind p = .serverPort → k.dead p = false →
      ∀ r ∈ (f (k.serverPort p)).owned, k.Alive r) :
    Sound { k with serverPort := k.serverPort.modify p f } :=
  hS.elsewhere (hS.toInv.modifyServerPort howned) rfl

theorem openSession_keeps (hS : Sound k) (ht : Running k t) {server : Ref}
    (hd : k.dead server = false) :
    Keeps T (openSession t server) k (fun _ _ => True) := by
  refine keep_holding hS hd fun hS₁ => ?_
  simp only [newObject, ends_assoc, ends_get, ends_modify, ends_pure_bind]
  have hS₂ := hS₁.modifyServerPort (p := server) (f := fun port =>
    { port with availableSessions := port.availableSessions - 1 })
    fun hk hd r hr => hS₁.serverPortOwned server hk hd r hr
  have ht₂ : Running { k with
      locals := server :: k.locals
      serverPort := k.serverPort.modify server (fun port =>
        { port with availableSessions := port.availableSessions - 1 }) } t :=
    ⟨ht.ready, ht.callback, List.mem_cons_of_mem _ ht.self, List.mem_cons_of_mem _ ht.parent⟩
  have hact : Act (.acting nobody) (_, .idle) (_, _) := .newSession (k := { k with
      locals := server :: k.locals
      serverPort := k.serverPort.modify server (fun port =>
        { port with availableSessions := port.availableSessions - 1 }) }) rfl
  have hS₃ := hS₂.act hact
  have hF₃ := Frame.act hS₂.toInv hact
  have ht₃ := ht₂.after hS₂ hF₃ rfl
  have hF₂ : Frame (.acting nobody) { k with locals := server :: k.locals } { k with
      locals := server :: k.locals
      serverPort := k.serverPort.modify server (fun port =>
        { port with availableSessions := port.availableSessions - 1 }) } := { Frame.refl _ with }
  refine keep_move ((hF₂.trans hF₃).mono (Powers.acting_le fun _ => False.elim)) rfl ?_
  refine keep_call (keep_createHandleFor (T := T) hS₃ ht₃
    ⟨Nat.lt_succ_self _, (hS.fresh _ (Nat.le_succ _)).2.1⟩) (fun _ => id) fun _ k₄ hS₄ hF₄ hl₄ h₄ => ?_
  obtain ⟨-, hcs, _, _, _, _, rfl⟩ := h₄
  simp only [ends_modify]
  have hsession := hS₄.clientSessionOwned (k.next + 1) (by simp) hcs.2
  simp only [Store.get_set_self] at hsession
  have hS₅ := hS₄.modifyServerPort (p := server) (f := fun port =>
    { port with sessionQueue := port.sessionQueue ++ [k.next] }) fun hk hd r hr => by
      simp only [ServerPort.owned, List.mem_cons, List.mem_append, List.not_mem_nil, or_false] at hr
      rcases hr with hr | hr | rfl
      · exact hS₄.serverPortOwned server hk hd r (List.mem_cons.2 (.inl hr))
      · exact hS₄.serverPortOwned server hk hd r (List.mem_cons_of_mem _ hr)
      · exact hsession
  refine keep_move { Frame.refl _ with } rfl ?_
  refine (keep_onResourceReady hS₅ (hS₅.locals server List.mem_cons_self)).mono (fun _ => id) ?_
  exact fun _ _ _ _ _ _ => trivial

theorem svcConnectToPort_keeps (hS : Sound k) (ht : Running k t) {name : String} :
    Keeps T (svcConnectToPort t name) k (fun _ _ => True) := by
  simp only [svcConnectToPort, ends_get]
  split
  · exact keep_reschedule hS
  · cases hserver : k.lock (k.port _).server with
    | none => exact keep_fail (by decide)
    | some server =>
      refine Ends.split (fun _ => keep_done hS trivial) fun _ => openSession_keeps hS ht ?_
      exact Kernel.lock_alive hserver

theorem svcCreateSessionToPort_keeps (hS : Sound k) (ht : Running k t) :
    Keeps T (svcCreateSessionToPort t handle) k (fun _ _ => True) := by
  unfold svcCreateSessionToPort
  refine keep_getObject fun clientPort _ _ => ?_
  simp only [ends_get]
  cases hserver : k.lock (k.port (k.clientPort clientPort).port).server with
  | none => exact keep_fail (by decide)
  | some server =>
    refine Ends.split (fun _ => keep_done hS trivial) fun _ => openSession_keeps hS ht ?_
    exact Kernel.lock_alive hserver

/-- Nobody waits for a new object yet. -/
theorem onResourceReady_unobserved (ho : k.observers r = []) : Ends (onResourceReady r) k
    (fun _ k' => k' = k) (fun _ _ => False) := by
  simp only [onResourceReady, KM.holding, ends_assoc, ends_modify, ends_get, ho, List.length_nil,
    onResourceReadyWithin, ends_pure_bind, ends_pure]
  simp

theorem svcAcceptSession_keeps (hS : Sound k) (ht : Running k t) :
    Keeps T (svcAcceptSession t handle) k (fun _ _ => True) := by
  unfold svcAcceptSession
  refine keep_getObject fun p hp hk => ?_
  have hp := hS.lookup_alive (ht.parent_alive hS.toInv).2 hp
  simp only [ends_get]
  split
  · exact keep_fail (by decide)
  next session queue hq =>
    simp only [newObject, ends_assoc, ends_get, ends_modify, ends_pure_bind]
    have hact : Act (.acting nobody) (k, .idle) (_, _) := .accept hp (of_decide_eq_true hk) hq
    have hS₁ := hS.act hact
    have hF₁ := Frame.act hS.toInv hact
    have ht₁ := ht.after hS hF₁ rfl
    have hlast : ∀ {k' : Kernel}, Sound k' → Running k' t → k'.Alive k.next → Keeps T (do
        modify fun k' => { k' with session := k'.session.modify session (fun session =>
          { session with server := some k.next }) }
        let _ ← createHandleFor t k.next
        reschedule) k' (fun _ _ => True) := by
      intro k' hS' ht' hr
      have hS'' : Sound { k' with session := k'.session.modify session (fun session =>
          { session with server := some k.next }) } :=
        hS'.elsewhere { hS'.toInv with } rfl
      simp only [ends_modify]
      exact keep_move { Frame.refl k' with } rfl
        (handOut_keeps hS'' ⟨ht'.ready, ht'.callback, ht'.self, ht'.parent⟩ hr)
    refine keep_move (hF₁.mono (Powers.acting_le fun _ => False.elim)) rfl ?_
    refine Ends.split (fun _ => ?_) fun _ => ?_
    · refine Ends.bind (Ends.mono (onResourceReady_unobserved (hS.fresh _ (Nat.le_refl _)).2.2)
        (fun _ _ h => h) (fun _ _ h => h.elim)) ?_
      rintro _ _ rfl
      exact hlast hS₁ ht₁ ⟨Nat.lt_succ_self _, (hS.fresh _ (Nat.le_refl _)).2.1⟩
    · exact hlast hS₁ ht₁ ⟨Nat.lt_succ_self _, (hS.fresh _ (Nat.le_refl _)).2.1⟩

/-! ## Translation of messages -/

theorem keep_tls (hS : Sound k) (tls : Store (Store Word)) {x : KM α} {Q : α → Kernel → Prop}
    (h : Sound { k with tls := tls } → Keeps T x { k with tls := tls } Q) :
    Keeping T k x { k with tls := tls } Q :=
  keep_move { Frame.refl k with } rfl
    (h (hS.elsewhere { hS.toInv with } rfl))

theorem clearWords_keeps : ∀ (l : List Nat) {k : Kernel}, Sound k →
    Keeps T (clearWords t l) k (fun _ _ => True)
  | [], _, hS => keep_done hS trivial
  | i :: l, k, hS => by
    simp only [clearWords, writeTLS, ends_modify]
    exact keep_tls hS _ fun hS' => clearWords_keeps l hS'

theorem copyWords_keeps : ∀ (l : List Nat) {k : Kernel}, Sound k →
    Keeps T (copyWords s t l) k (fun _ _ => True)
  | [], _, hS => keep_done hS trivial
  | i :: l, k, hS => by
    simp only [copyWords, writeTLS, ends_get, ends_modify]
    exact keep_tls hS _ fun hS' => copyWords_keeps l hS'

/-- The sender and the receiver of a message. -/
structure Parties (k : Kernel) (s t : Ref) : Prop where
  source : k.kind s = .thread
  dest : k.kind t = .thread

theorem Parties.frame {P : Powers} (h : Parties k s t) (hI : Inv k) (hF : Frame P k k') :
    Parties k' s t where
  source := (hF.kind s (hI.lt (by rw [h.source]; decide))).trans h.source
  dest := (hF.kind t (hI.lt (by rw [h.dest]; decide))).trans h.dest

theorem translateHandle_keeps (hS : Sound k) (h : Parties k s t) {close : Bool} {i : Nat} :
    Keeps T (translateHandle s t close i) k (fun _ _ => True) := by
  simp only [translateHandle, ends_get, writeTLS]
  refine Ends.split (fun _ => ?_) fun _ => Ends.split (fun _ => keep_fail (by decide)) fun hd => ?_
  · exact keep_last (keep_tls hS _ fun hS' => keep_done hS' trivial)
  simp only [not_or, Bool.not_eq_true] at hd
  refine keep_getObject fun r hr _ => ?_
  have hr := hS.lookup_alive hd.1 hr
  simp only [ends_get]
  refine Ends.split (fun _ => keep_fail (by decide)) fun _ => keep_holding hS hr.2 fun hS₁ => ?_
  simp only [ends_get]
  refine keep_call (keep_createHandle (T := T) hS₁ hd.2 (hS.parent t h.dest) hr) (fun _ => id)
    fun handle k₂ hS₂ hF₂ hl₂ _ => ?_
  have hr₂ : k₂.dead r = false := hS₂.locals r (by rw [hl₂]; exact List.mem_cons_self)
  have h₂ : Parties k₂ s t :=
    Parties.frame (k := { k with locals := r :: k.locals }) ⟨h.source, h.dest⟩ hS₁.toInv hF₂
  refine keep_holding hS₂ hr₂ fun hS₃ => ?_
  refine Ends.split (fun _ => ?_) fun _ => ?_
  · refine keep_call (svcCloseHandle_keeps (T := T) hS₃ h₂.source) (fun _ => id)
      fun _ k₄ hS₄ _ _ _ => ?_
    exact keep_last (keep_tls hS₄ _ fun hS' => keep_done hS' trivial)
  · exact keep_last (keep_tls hS₃ _ fun hS' => keep_done hS' trivial)

theorem translateHandles_keeps {close fillProcessId : Bool} : ∀ (n i : Nat) {k : Kernel}, Sound k →
    Parties k s t → Keeps T (translateHandles s t close fillProcessId n i) k (fun _ _ => True)
  | 0, _, _, hS, _ => keep_done hS trivial
  | n + 1, i, k, hS, h => by
    simp only [translateHandles, writeTLS]
    refine Ends.split (fun _ => ?_) fun _ => ?_
    · simp only [ends_get, ends_modify]
      exact keep_tls hS _ fun hS' => translateHandles_keeps n (i + 1) hS' ⟨h.source, h.dest⟩
    · exact keep_call (translateHandle_keeps (T := T) hS h) (fun _ => id) fun _ _ hS₁ hF₁ _ _ =>
        translateHandles_keeps n (i + 1) hS₁ (h.frame hS.toInv hF₁)

theorem translateParams_keeps {isReply : Bool} {last : Nat} : ∀ (n : Nat) (earlier : List Word)
    (i : Nat) {k : Kernel}, Sound k → Parties k s t →
    Keeps T (translateParams env s t isReply last n earlier i) k (fun _ _ => True)
  | 0, _, _, _, hS, _ => keep_done hS trivial
  | n + 1, earlier, i, k, hS, h => by
    simp only [translateParams, writeTLS]
    refine Ends.split (fun _ => keep_done hS trivial) fun _ => ?_
    simp only [ends_get, ends_modify]
    refine keep_tls hS _ fun hS₁ => ?_
    have h₁ : Parties { k with tls := k.tls.modify t (fun buffer => buffer.set i (k.tls s i)) } s t :=
      ⟨h.source, h.dest⟩
    split
    · refine Ends.split (fun _ => keep_fail (by decide)) fun _ => ?_
      exact keep_call (translateHandles_keeps (T := T) _ _ hS₁ h₁) (fun _ => id)
        fun _ _ hS₂ hF₂ _ _ => translateParams_keeps n _ _ hS₂ (h₁.frame hS₁.toInv hF₂)
    · exact keep_fail (by decide)
    · split
      · exact keep_fail (by decide)
      · simp only [ends_modify]
        refine keep_tls hS₁ _ fun hS₂ => keep_tls hS₂ _ fun hS₃ => ?_
        exact translateParams_keeps n _ _ hS₃ ⟨h.source, h.dest⟩

theorem translateIPCMessage_keeps (hS : Sound k) (h : Parties k s t) {isReply : Bool} :
    Keeps T (translateIPCMessage env s t isReply) k (fun _ _ => True) := by
  simp only [translateIPCMessage, ends_get]
  refine keep_call (clearWords_keeps (T := T) _ hS) (fun _ => id) fun _ k₁ hS₁ hF₁ _ _ => ?_
  have h₁ := h.frame hS.toInv hF₁
  exact keep_call (copyWords_keeps (T := T) _ hS₁) (fun _ => id) fun _ k₂ hS₂ hF₂ _ _ =>
    translateParams_keeps _ _ _ hS₂ (h₁.frame hS₁.toInv hF₂)

/-! ## Requests -/

/-- What the thread does when it is dispatched next. -/
theorem runWhenReady_keeps (hS : Sound k) (hk : k.kind t = .thread) (hT : T t) {callback : Callback}
    (hc : ∀ r ∈ callback.owned, k.Alive r) :
    Keeps T (runWhenReady t callback) k (fun _ _ => True) := by
  simp only [runWhenReady, ends_get]
  refine keep_validate (fun _ => keep_last ?_) (by decide)
  obtain ⟨hS', hF⟩ := hS.updateThread (T := T) (f := fun thread =>
    { thread with callback := some callback }) hk (fun _ => rfl) (fun _ => rfl) (fun _ => rfl)
    (fun hd r hr => by
      simp only [Thread.owned, Option.toList_some, List.flatMap_singleton, List.mem_append] at hr
      rcases hr with (hr | hr) | hr
      · exact hS.threadOwned t hd r (by simp [Thread.owned, hr])
      · exact hS.threadOwned t hd r (by simp [Thread.owned, hr])
      · exact hc r hr) (.inl hT) ⟨rfl, .inr (.inr ⟨rfl, rfl, rfl, List.Subset.refl _, id⟩)⟩
  exact keep_move hF rfl (keep_done hS' trivial)

theorem Sound.serverSession (hS : Sound k) (ss : Ref) (obs : List Obs)
    {f : ServerSession → ServerSession} (hf : ∀ session, (f session).owned = session.owned)
    (hobs : ∀ o ∈ obs, o.waitless = true) :
    Sound { k with serverSession := k.serverSession.modify ss f, trace := k.trace ++ obs } ∧
    Frame (.acting T) k
      { k with serverSession := k.serverSession.modify ss f, trace := k.trace ++ obs } := by
  refine hS.with_frame { Frame.refl k with trace := List.prefix_append _ _ } ?_ (fun _ _ => id)
    (fun _ => rfl) (hS.terminal.same rfl (Nat.le_refl _) (fun _ => rfl) (List.Subset.refl _)
      fun _ _ hx => absurd (hobs _ hx) Bool.false_ne_true)
    (hS.punctual.same hobs fun _ => .refl _)
    (fun hu => (hS.scheduled_of (List.prefix_append _ _) hu).same rfl (fun _ => id)
      (fun _ => ⟨rfl, rfl⟩) (fun _ => ⟨rfl, rfl⟩) rfl)
    (hS.exited.back (List.prefix_append _ _) fun _ hk hs => ⟨hk, hs⟩)
  refine { hS.toInv with serverSessionOwned := fun x hk hd r hr => ?_ }
  rw [Store.view_modify ServerSession.owned _ _ (hf _)] at hr
  exact hS.serverSessionOwned x hk hd r hr

theorem commandReady_keeps (hS : Sound k) :
    Keeps T (commandReady ss) k (fun _ k' => k'.dead = k.dead) := by
  simp only [commandReady, ends_get, emit]
  have h := fun obs => hS.serverSession (T := T) ss obs (f := fun session =>
    { session with
      ipcCommandsPending := ((k.serverSession ss).ipcCommandsPending + 1) % 2 ^ 32 }) fun _ => rfl
  refine Ends.split (fun _ => ?_) fun _ => ?_
  · simp only [ends_modify]
    exact keep_last (keep_move (h _ (by simp [Obs.waitless])).2 rfl
      (keep_done (h _ (by simp [Obs.waitless])).1 rfl))
  · obtain ⟨hS', hF⟩ := h [] (by simp)
    rw [List.append_nil] at hS' hF
    exact keep_last (keep_move hF rfl (keep_done hS' rfl))

theorem sendWhenAccepted_keeps (hS : Sound k) (ht : Running k t) (hT : T t) (hcs : cs ∈ k.locals)
    (hlt : cs < k.next) : Keeps T (sendWhenAccepted t cs handle) k (fun _ _ => True) := by
  simp only [sendWhenAccepted, ends_get]
  cases hss : k.lock (k.session (k.clientSession cs).session).server with
  | none =>
    refine keep_call (keep_reschedule (T := nobody) hS) (fun _ => False.elim)
      fun _ k₁ hS₁ hF₁ hl₁ _ => ?_
    refine runWhenReady_keeps hS₁ ((ht.after hS hF₁ hl₁).kind hS₁.toInv) hT fun r hr => ?_
    rw [List.mem_singleton.1 hr]
    exact ⟨Nat.lt_of_lt_of_le hlt hF₁.next, hS₁.locals cs (hl₁ ▸ hcs)⟩
  | some ss =>
    refine keep_holding hS (Kernel.lock_alive hss) fun hS₁ => ?_
    have ht₁ : Running { k with locals := ss :: k.locals } t :=
      ⟨ht.ready, ht.callback, List.mem_cons_of_mem _ ht.self, List.mem_cons_of_mem _ ht.parent⟩
    refine keep_call (commandReady_keeps (T := nobody) hS₁) (fun _ => False.elim)
      fun _ k₂ hS₂ hF₂ hl₂ _ => ?_
    have ht₂ := ht₁.after hS₁ hF₂ hl₂
    have hS₃ : Sound { k₂ with trace := k₂.trace ++ [.announced t ss] } :=
      hS₂.emit rfl
    have hF₃ : Frame (.acting nobody) k₂ { k₂ with trace := k₂.trace ++ [.announced t ss] } :=
      { Frame.refl k₂ with trace := List.prefix_append _ _ }
    have ht₃ := ht₂.after hS₂ hF₃ rfl
    simp only [emit, ends_modify]
    refine keep_move (hF₃.mono (Powers.acting_le fun _ => False.elim)) rfl ?_
    have hd : k₂.dead ss = false := hS₂.locals ss (by rw [hl₂]; exact List.mem_cons_self)
    refine keep_call (keep_onResourceReady (T := nobody) hS₃ hd) (fun _ => False.elim)
      fun _ k₄ hS₄ hF₄ hl₄ _ => ?_
    have ht₄ := ht₃.after hS₃ hF₄ hl₄
    refine keep_call (svcWaitSynchronizationN_keeps (T := T) hS₄ ht₄ hT (fun _ _ => ⟨rfl, rfl⟩)
      (fun _ => rfl) (fun _ => by simp)) (fun _ => id) fun _ k₅ hS₅ hF₅ _ _ => ?_
    exact runWhenReady_keeps hS₅ ((hF₅.kind t (ht₄.lt hS₄.toInv)).trans (ht₄.kind hS₄.toInv)) hT
      fun r hr => absurd hr List.not_mem_nil

theorem svcSendSyncRequest_keeps (hS : Sound k) (ht : Running k t) (hT : T t) :
    Keeps T (svcSendSyncRequest t handle) k (fun _ _ => True) := by
  unfold svcSendSyncRequest
  refine keep_findObject fun o ho => ?_
  cases o with
  | none =>
    simp only [KM.modifyThread]
    refine keep_last (keep_inner hS ht (by constructor <;> exact fun _ => rfl) fun hS₁ _ => ?_)
    exact keep_done hS₁ trivial
  | some cs =>
    have hcs := hS.lookup_alive (ht.parent_alive hS.toInv).2 (ho cs rfl).1
    have hk : k.kind cs = .clientSession := of_decide_eq_true (ho cs rfl).2
    have hI : Inv { k with
        clientSession := k.clientSession.modify cs (fun session =>
          { session with threads := session.threads ++ [t] })
        trace := k.trace ++ [.requested t cs] } :=
      hS.toInv.modifyClientSession hk (fun _ => rfl)
    have hF : Frame (.acting nobody) k { k with
        clientSession := k.clientSession.modify cs (fun session =>
          { session with threads := session.threads ++ [t] })
        trace := k.trace ++ [.requested t cs] } :=
      { Frame.refl k with trace := List.prefix_append _ _ }
    have hqueued : ∀ c, ∀ x ∈ ((k.clientSession.modify cs (fun session =>
        { session with threads := session.threads ++ [t] })) c).threads,
        x ∈ (k.clientSession c).threads ∨ k.kind x = .thread := by
      intro c x hx
      simp only [Store.get_modify] at hx
      split at hx
      next he =>
        subst he
        rcases List.mem_append.1 hx with hx | hx
        · exact .inl hx
        · exact .inr (List.mem_singleton.1 hx ▸ ht.kind hS.toInv)
      next => exact .inl hx
    have hS₁ := hS.of_frame hI hF (fun _ _ => .inl) hqueued
      (hS.emit (o := .requested t cs) rfl).terminal (hS.punctual.emit rfl)
      (fun hu => (hS.scheduled_of (List.prefix_append _ _) hu).same rfl (fun _ => id)
        (fun _ => ⟨rfl, rfl⟩) (fun _ => ⟨rfl, rfl⟩) rfl)
      (hS.emit (o := .requested t cs) rfl).exited
    have ht₁ := ht.after hS hF rfl
    simp only [emit, KM.modifyThread, ends_modify]
    refine keep_since (hF.mono (Powers.acting_le fun _ => False.elim)) rfl ?_
    refine keep_inner hS₁ ht₁ (by constructor <;> exact fun _ => rfl) fun hS₂ ht₂ => ?_
    refine keep_holding hS₂ hcs.2 fun hS₃ => sendWhenAccepted_keeps hS₃ ?_ hT List.mem_cons_self hcs.1
    exact ⟨ht₂.ready, ht₂.callback, List.mem_cons_of_mem _ ht₂.self, List.mem_cons_of_mem _ ht₂.parent⟩

/-! ## ReplyAndReceive -/

theorem setReady_keeps (hS : Sound k) :
    Keeps T (setReady cs t) k (fun _ k' => k'.dead = k.dead) := by
  simp only [setReady, ends_get]
  refine Ends.split (fun _ => keep_fail (by decide)) fun hmem => keep_last ?_
  have hk : k.kind cs = .clientSession := by
    by_contra hk
    rw [hS.clientSession cs hk] at hmem
    exact hmem rfl
  have hI : Inv { k with
      clientSession := k.clientSession.modify cs (fun session =>
        { session with threads := session.threads.erase t })
      trace := k.trace } := hS.toInv.modifyClientSession hk (fun _ => rfl)
  have hF : Frame (.acting T) k { k with
      clientSession := k.clientSession.modify cs (fun session =>
        { session with threads := session.threads.erase t }) } := { Frame.refl k with }
  have hqueued : ∀ c, ∀ x ∈ ((k.clientSession.modify cs (fun session =>
      { session with threads := session.threads.erase t })) c).threads,
      x ∈ (k.clientSession c).threads := by
    intro c x hx
    simp only [Store.get_modify] at hx
    split at hx
    next he =>
      subst he
      exact List.mem_of_mem_erase hx
    next => exact hx
  have hS₁ := hS.of_frame hI hF (fun _ _ => .inl) (fun c x hx => .inl (hqueued c x hx)) hS.terminal
    hS.punctual (fun hu => (hS.scheduled hu).same rfl (fun _ => id) (fun _ => ⟨rfl, rfl⟩)
      (fun _ => ⟨rfl, rfl⟩) rfl) hS.exited
  exact keep_move hF rfl (keep_done hS₁ rfl)

theorem keep_emit (hS : Sound k) (o : Obs) (ho : o.waitless = true) {x : KM α}
    {Q : α → Kernel → Prop}
    (h : Sound { k with trace := k.trace ++ [o] } → Keeps T x { k with trace := k.trace ++ [o] } Q) :
    Keeping T k x { k with trace := k.trace ++ [o] } Q :=
  keep_move { Frame.refl k with trace := List.prefix_append _ _ } rfl (h (hS.emit ho))

/-- Code that holds three references, and drops what it held then. -/
theorem keep_holding₃ (hS : Sound k) (hr : k.dead r = false) (hs : k.dead s = false)
    (hp : k.dead p = false) {x : KM Unit}
    (h : Sound { k with locals := p :: s :: r :: k.locals } →
      Keeps T x { k with locals := p :: s :: r :: k.locals } (fun _ _ => True)) :
    Keeps T (do
      KM.holding r do
        KM.holding s do
          KM.holding p x
      collect) k (fun _ _ => True) := by
  refine keep_held hS hr (fun hS₁ => keep_holding hS₁ hs fun hS₂ => keep_holding hS₂ hp h)
    fun _ _ hS' => ?_
  exact (keep_collect hS').mono (fun _ => id) fun _ _ _ _ _ _ => trivial

theorem reply_keeps (hS : Sound k) (ht : Running k t) :
    Keeps T (reply env t handle) k (fun _ _ => True) := by
  unfold reply
  refine keep_getObject fun ss hss _ => ?_
  have hss := hS.lookup_alive (ht.parent_alive hS.toInv).2 hss
  simp only [emit, ends_modify, ends_get]
  refine keep_emit hS _ rfl fun hS₁ => ?_
  have hk := ht.kind hS.toInv
  split
  · exact keep_fail (by decide)
  next cs hcs =>
    split
    · exact keep_fail (by decide)
    next client l hl =>
      have hclient : k.kind client = .thread :=
        hS.queued cs client (by rw [hl]; exact List.mem_cons_self)
      refine Ends.split (fun _ => keep_fail (by decide)) fun hd => ?_
      rw [Bool.not_eq_true] at hd
      refine keep_holding₃ hS₁ hss.2 (Kernel.lock_alive hcs) hd fun hS₂ => ?_
      refine keep_call (translateIPCMessage_keeps (T := T) hS₂ ⟨hk, hclient⟩) (fun _ => id)
        fun _ k₃ hS₃ _ hl₃ _ => ?_
      have hcs₃ : k₃.dead cs = false := hS₃.locals cs (by rw [hl₃]; simp)
      refine keep_call (setReady_keeps (T := T) hS₃) (fun _ => id) fun _ k₄ hS₄ _ _ hd₄ => ?_
      simp only [ends_get, ends_modify]
      refine keep_emit hS₄ _ rfl fun hS₅ => ?_
      exact (keep_onResourceReady hS₅ (by rw [← hcs₃, ← hd₄])).mono (fun _ => id)
        fun _ _ _ _ _ _ => trivial

theorem receive_keeps (hS : Sound k) (ht : Running k t) :
    Keeps T (receive env t) k (fun _ _ => True) := by
  have hk := ht.kind hS.toInv
  simp only [receive, ends_get]
  refine Ends.split (fun _ => keep_done hS trivial) fun _ => ?_
  split
  · exact keep_done hS trivial
  next ss hss =>
    refine Ends.split (fun _ => keep_done hS trivial) fun _ => ?_
    split
    · simp only [KM.modifyThread]
      refine keep_last ?_
      obtain ⟨hS', hF⟩ := hS.updateThread (T := T) (f := fun thread =>
        { thread with promisedResult := 0xc920181a }) hk (fun _ => rfl) (fun _ => rfl)
        (fun _ => rfl) (fun hd => hS.threadOwned t hd) (.inr rfl) ⟨rfl, .inl ht.ready⟩
      exact keep_move hF rfl (keep_done hS' trivial)
    next cs hcs =>
      split
      · exact keep_fail (by decide)
      next client l hl =>
        have hclient : k.kind client = .thread :=
          hS.queued cs client (by rw [hl]; exact List.mem_cons_self)
        refine Ends.split (fun _ => keep_fail (by decide)) fun hd => ?_
        rw [Bool.not_eq_true] at hd
        refine keep_holding₃ hS (Kernel.lock_alive hss) (Kernel.lock_alive hcs) hd fun hS₁ => ?_
        simp only [emit, ends_modify]
        exact keep_emit hS₁ _ rfl fun hS₂ => translateIPCMessage_keeps hS₂ ⟨hclient, hk⟩

theorem svcReplyAndReceive_keeps (hS : Sound k) (ht : Running k t) (hT : T t) {handles : List Handle} :
    Keeps T (svcReplyAndReceive env t handles handle) k (fun _ _ => True) := by
  have hwait : ∀ {k : Kernel}, Sound k → Running k t → Keeps T (do
      if handles = [] then pure ()
      else
        svcWaitSynchronizationN t handles false (-1) .receive
        runWhenReady t .replyAndReceive) k (fun _ _ => True) := by
    intro k hS ht
    refine Ends.split (fun _ => keep_done hS trivial) fun hne => ?_
    refine keep_call (svcWaitSynchronizationN_keeps (T := T) hS ht hT (fun _ h => by cases h)
      (fun _ => rfl) (fun _ => hne)) (fun _ => id) fun _ k₁ hS₁ hF₁ _ _ => ?_
    exact runWhenReady_keeps hS₁ ((hF₁.kind t (ht.lt hS.toInv)).trans (ht.kind hS.toInv)) hT
      fun r hr => absurd hr List.not_mem_nil
  simp only [svcReplyAndReceive, KM.modifyThread, ends_modify]
  refine keep_inner hS ht (by constructor <;> exact fun _ => rfl) fun hS₁ ht₁ => ?_
  simp only [ends_get]
  refine Ends.split (fun _ => ?_) fun _ => hwait hS₁ ht₁
  refine keep_call (reply_keeps (T := nobody) hS₁ ht₁) (fun _ => False.elim)
    fun _ k₂ hS₂ hF₂ hl₂ _ => hwait hS₂ (ht₁.after hS₁ hF₂ hl₂)

end Mikage
