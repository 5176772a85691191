import Mikage.OS.Hypervisor

/-!
# Runs of the hypervisor

Each operation keeps the invariant of the shadow tables, under a condition on the state before it:
new handles are not in use, a request is received in a process with a handle to its session, and a
reply is one to a request that has been received.

- `Inv.exec`: one operation.
- `shadows_exact`: in runs of such operations no precondition of the hypervisor is violated, and
  each reply gets the callback of its request.
- `violated_closed`: without the condition a precondition can be violated.
-/

namespace Mikage.HPV

open State

/-! ## The operations keep it -/

section

variable {Service Request Callback Reply : Type}
  {services : Services Service Request Callback Reply}
  {s : State Service Request Callback} {home : Object → ℕ}

/-- No precondition has been violated, and the invariant holds. -/
def Kept (services : Services Service Request Callback Reply)
    (r : Except Fault (State Service Request Callback)) : Prop :=
  match r with
  | .ok s => ∃ home, Inv services s home
  | .error fault => fault ≠ .precondition

theorem kept_of_eq {s' : State Service Request Callback} {home' : Object → ℕ}
    {r : Except Fault (State Service Request Callback)} (h : r = .ok s')
    (inv : Inv services s' home') : Kept services r := by
  subst h
  exact ⟨home', inv⟩

theorem newHandle_again (s : State Service Request Callback) (p : ProcessId) (o : Object) :
    (s.createHandle p o).newHandle p = s.curHandle p + 2 := by
  simp only [State.newHandle, State.createHandle, Function.update_self]
  bv_omega

theorem onPortCreated_free {p : ProcessId} {h : Handle} (name : String)
    (free : s.handleTables p h = none) :
    s.onPortCreated p name h =
      .ok { s.emplace p h (.port name) with ports := s.ports ++ [s.nextShadow] } := by
  simp [State.onPortCreated, free]

theorem onSessionCreated_free {p : ProcessId} {h : Handle} (free : s.handleTables p h = none) :
    s.onSessionCreated services p h = .ok (s.emplace p h (.session services.unnamed none)) := by
  simp [State.onSessionCreated, free]

theorem onHandleDuplicated_shadow {p q : ProcessId} {h h' : Handle} {c : ℕ}
    (shadow : s.handleTables p h = some c) (free : s.handleTables q h' = none) :
    s.onHandleDuplicated p h q h' =
      .ok { s with handleTables := put s.handleTables q h' (some c) } := by
  simp [State.onHandleDuplicated, shadow, free]

namespace Inv

theorem unmade (inv : Inv services s home) {o : Object} (id : o.id = s.nextObject) :
    s.made o = false := by
  by_contra made
  exact absurd (inv.old o (by simpa using made)) (by simp [id])

theorem offer_new (inv : Inv services s home) {n port : ℕ} (at_n : s.offered n = some port) :
    n < s.nextObject + 1 ∧ s.made (.serverSession n) = false ∧ n ≠ s.nextObject := by
  obtain ⟨lt, new⟩ := inv.offer n port at_n
  exact ⟨lt.trans (Nat.lt_succ_self _), new, lt.ne⟩

theorem createPort (inv : Inv services s home) (p : ProcessId) (name : String)
    (free : s.table p (s.curHandle p + 1) = none)
    (free' : s.table p (s.curHandle p + 2) = none) :
    Kept services (exec services (.createPort p name) s) := by
  let s₁ : State Service Request Callback :=
    { s.createHandle p (.serverPort s.nextObject) with nextObject := s.nextObject + 1 }
  let s₂ := s₁.createHandle p (.clientPort s.nextObject)
  have at_h' : s₁.newHandle p = s.curHandle p + 2 :=
    newHandle_again s p (.serverPort s.nextObject)
  have inv₁ := inv.introduce p (s.newHandle p) (.serverPort s.nextObject)
    (inv.unmade rfl) (Nat.le_succ _) (Nat.lt_succ_self _) s₁.curHandle
    (s.ports ++ [s.nextShadow]) (x := .port name)
    (fun _ => ⟨name, rfl⟩) (by simp [Object.isSession]) rfl s.offered
    fun n port at_n => ⟨(inv.offer_new at_n).1, (inv.offer_new at_n).2.1, by simp⟩
  have new : Function.update s.made (.serverPort s.nextObject) true (.clientPort s.nextObject) =
      false := by
    simpa using inv.unmade (o := .clientPort s.nextObject) rfl
  have inv₂ := inv₁.beside p (s₁.newHandle p) (.clientPort s.nextObject)
    (.serverPort s.nextObject) new (by simp) rfl rfl rfl rfl (by simp) s₂.curHandle
  have created : s₂.onPortCreated p name (s.newHandle p) = _ :=
    onPortCreated_free name (inv.shadow_free free)
  refine kept_of_eq ?_ inv₂
  change (s₂.onPortCreated p name (s.newHandle p) >>= fun s' =>
    s'.onHandleDuplicated p (s.newHandle p) p (s₁.newHandle p)) = _
  rw [created, Function.update_self]
  refine onHandleDuplicated_shadow (put_self ..) ?_
  rw [at_h']
  exact (put_of_ne _ _ _ _ (by simp [State.newHandle])).trans (inv.shadow_free free')

theorem createSession (inv : Inv services s home) (p : ProcessId)
    (free : s.table p (s.curHandle p + 1) = none)
    (free' : s.table p (s.curHandle p + 2) = none) :
    Kept services (exec services (.createSession p) s) := by
  let s₁ : State Service Request Callback :=
    { s.createHandle p (.serverSession s.nextObject) with nextObject := s.nextObject + 1 }
  let s₂ := s₁.createHandle p (.clientSession s.nextObject)
  have at_h' : s₁.newHandle p = s.curHandle p + 2 :=
    newHandle_again s p (.serverSession s.nextObject)
  have inv₁ := inv.introduce p (s.newHandle p) (.serverSession s.nextObject)
    (inv.unmade rfl) (Nat.le_succ _) (Nat.lt_succ_self _) s₁.curHandle
    s.ports (x := .session services.unnamed none)
    (by simp [Object.isPort]) (fun _ => ⟨services.unnamed, rfl⟩) rfl s.offered
    fun n port at_n => ⟨(inv.offer_new at_n).1, (inv.offer_new at_n).2.1,
      by simpa using (inv.offer_new at_n).2.2.symm⟩
  have new : Function.update s.made (.serverSession s.nextObject) true
      (.clientSession s.nextObject) = false := by
    simpa using inv.unmade (o := .clientSession s.nextObject) rfl
  have inv₂ := inv₁.beside p (s₁.newHandle p) (.clientSession s.nextObject)
    (.serverSession s.nextObject) new (by simp) rfl rfl rfl rfl (by simp) s₂.curHandle
  have created : s₂.onSessionCreated services p (s.newHandle p) = _ :=
    onSessionCreated_free (inv.shadow_free free)
  refine kept_of_eq ?_ inv₂
  change (s₂.onSessionCreated services p (s.newHandle p) >>= fun s' =>
    s'.onHandleDuplicated p (s.newHandle p) p (s₁.newHandle p)) = _
  rw [created, Function.update_self]
  refine onHandleDuplicated_shadow (put_self ..) ?_
  rw [at_h']
  exact (put_of_ne _ _ _ _ (by simp [State.newHandle])).trans (inv.shadow_free free')

/-- A new client session, whose other end is offered to a port. -/
theorem offer_client (inv : Inv services s home) (p : ProcessId) (port : ℕ) (service : Service) :
    Inv services
      (State.emplace { s.createHandle p (.clientSession s.nextObject) with
        nextObject := s.nextObject + 1
        offered := Function.update s.offered s.nextObject (some port) }
        p (s.newHandle p) (.session service none))
      (Function.update home (.clientSession s.nextObject) s.nextShadow) := by
  refine inv.introduce p (s.newHandle p) (.clientSession s.nextObject) (inv.unmade rfl)
    (Nat.le_succ _) (Nat.lt_succ_self _) _ _ (by simp [Object.isPort]) (fun _ => ⟨service, rfl⟩)
    rfl (Function.update s.offered s.nextObject (some port)) fun n port' at_n => ?_
  by_cases e : n = s.nextObject
  · subst e
    exact ⟨Nat.lt_succ_self _, inv.unmade rfl, by simp⟩
  · rw [Function.update_of_ne e] at at_n
    obtain ⟨lt, new, -⟩ := inv.offer_new at_n
    exact ⟨lt, new, by simp⟩

theorem connectToPort (inv : Inv services s home) (p : ProcessId) (name : String) (port : ℕ)
    (free : s.table p (s.curHandle p + 1) = none) :
    Kept services (exec services (.connectToPort p name port) s) := by
  have free : s.handleTables p (s.newHandle p) = none := inv.shadow_free free
  simp only [exec, State.onConnectToPort]
  rw [if_neg (by simpa [State.createHandle] using free)]
  split
  · exact ⟨_, inv.offer_client p port _⟩
  · simp [Kept]

theorem createSessionToPort (inv : Inv services s home) (p : ProcessId) (portHandle : Handle)
    (free : s.table p (s.curHandle p + 1) = none) :
    Kept services (exec services (.createSessionToPort p portHandle) s) := by
  have free : s.handleTables p (s.newHandle p) = none := inv.shadow_free free
  simp only [exec]
  split
  next port live =>
    obtain ⟨name, at_port⟩ := inv.port _ (inv.known _ _ _ live) rfl
    have found := inv.shadow_of live rfl
    refine kept_of_eq ?_ (inv.offer_client p port (services.factory name))
    simp [State.onNewSession, State.findPort, State.createHandle, free, found, at_port, bind,
      Except.bind, pure, Except.pure]
  next => simp [Kept]

theorem acceptSession (inv : Inv services s home) (p : ProcessId) (port session : ℕ)
    (found : Handle) (free : s.table p (s.curHandle p + 1) = none)
    (live : s.table p found = some (.serverPort port)) :
    Kept services (exec services (.acceptSession p port session found) s) := by
  have free : s.handleTables p (s.newHandle p) = none := inv.shadow_free free
  simp only [exec]
  split
  next offered =>
    obtain ⟨lt, new⟩ := inv.offer session port offered
    obtain ⟨name, at_port⟩ := inv.port _ (inv.known _ _ _ live) rfl
    have at_found := inv.shadow_of live rfl
    have inv' := inv.introduce p (s.newHandle p) (.serverSession session) new le_rfl lt
      (Function.update s.curHandle p (s.newHandle p)) s.ports
      (x := .session (services.factory name) none) (by simp [Object.isPort])
      (fun _ => ⟨_, rfl⟩) rfl (Function.update s.offered session none)
      fun n port' at_n => by
        by_cases e : n = session
        · simp [e] at at_n
        · rw [Function.update_of_ne e] at at_n
          obtain ⟨lt', new'⟩ := inv.offer n port' at_n
          exact ⟨lt', new', by simpa using Ne.symm e⟩
    refine kept_of_eq ?_ inv'
    simp [State.onNewSession, State.findPort, State.createHandle, State.emplace, free, at_found,
      at_port, bind, Except.bind, pure, Except.pure]
  next => simp [Kept]

theorem createObject (inv : Inv services s home) (p : ProcessId)
    (free : s.table p (s.curHandle p + 1) = none) :
    Kept services (exec services (.createObject p) s) :=
  ⟨home, inv.introduce_untracked p (s.newHandle p) free (Nat.le_succ _) (Nat.lt_succ_self _) _⟩

theorem transfer (inv : Inv services s home) (p : ProcessId) (h : Handle) (q : ProcessId)
    (free : s.table q (s.curHandle q + 1) = none) :
    Kept services (exec services (.transfer p h q) s) := by
  have free : s.handleTables q (s.newHandle q) = none := inv.shadow_free free
  simp only [exec]
  split
  next o live =>
    have made := inv.known _ _ _ live
    have inv' := inv.share q (s.newHandle q) made (Function.update s.curHandle q (s.newHandle q))
    refine kept_of_eq ?_ inv'
    have at_h : s.handleTables p h = shadowOf home o := by simp [inv.shadow, live]
    have put_none : put s.handleTables q (s.newHandle q) none = s.handleTables := by
      funext q' h'
      by_cases at_new : q' = q ∧ h' = s.newHandle q
      · obtain ⟨rfl, rfl⟩ := at_new
        simp [free]
      · exact put_of_ne _ _ _ _ at_new
    cases shadow : shadowOf home o with
    | none => simp [State.onHandleDuplicated, State.createHandle, at_h, shadow, put_none]
    | some c => simp [State.onHandleDuplicated, State.createHandle, at_h, shadow, free]
  next => simp [Kept]

theorem close (inv : Inv services s home) (p : ProcessId) (h : Handle) :
    Kept services (exec services (.close p h) s) :=
  ⟨home, inv.erase p h⟩

theorem sendSyncRequest (inv : Inv services s home) (p : ProcessId) (h : Handle) (thread : ℕ)
    (request : Request) :
    Kept services (exec services (.sendSyncRequest p h thread request) s) := by
  simp only [exec]
  split
  next session live =>
    refine ⟨home, { inv with busy := ?_ }⟩
    intro n thread' request' callback at_n
    obtain ⟨made, head, slot⟩ := inv.busy n thread' request' callback at_n
    refine ⟨made, ?_, slot⟩
    by_cases e : n = session
    · subst e
      simp [List.head?_append, head]
    · simpa only [Function.update_of_ne e] using head
  next => exact ⟨home, inv⟩

end Inv

end

/-! ## Requests and replies -/

section

variable {Service Request Callback Reply : Type}
  {services : Services Service Request Callback Reply}
  {s : State Service Request Callback} {home : Object → ℕ}

/-- Where there is a handle, it is found. -/
theorem finds_live {p : ProcessId} {o : Object} {found : Handle}
    (finds : Finds s p o found) (handle : ∃ h, s.table p h = some o) :
    s.table p found = some o := by
  rcases finds with live | ⟨no_handle, -⟩
  · exact live
  · obtain ⟨h, live⟩ := handle
    exact absurd live (no_handle h)

namespace Inv

theorem findSession (inv : Inv services s home) {p : ProcessId} {h : Handle} {o : Object}
    (live : s.table p h = some o) (is_session : o.isSession) :
    ∃ service callback, s.objects (home o) = .session service callback ∧
      s.findSession p h = .ok (home o, service, callback) := by
  obtain ⟨service, callback, at_o⟩ := inv.session o (inv.known _ _ _ live) is_session
  refine ⟨service, callback, at_o, ?_⟩
  simp [State.findSession, inv.shadow_of live (Object.tracked_of_session is_session), at_o]

theorem findPort (inv : Inv services s home) {p : ProcessId} {h : Handle} {o : Object}
    (live : s.table p h = some o) (is_port : o.isPort) :
    ∃ name, s.findPort p h = .ok (home o, name) := by
  obtain ⟨name, at_o⟩ := inv.port o (inv.known _ _ _ live) is_port
  exact ⟨name, by
    simp [State.findPort, inv.shadow_of live (Object.tracked_of_port is_port), at_o]⟩

/-- The callback that a server session has for its first request. -/
theorem slot (inv : Inv services s home) {session thread : ℕ} {request : Request}
    {rest : List (ℕ × Request)} (made : s.made (.serverSession session))
    (at_front : s.threads session = (thread, request) :: rest) :
    ∃ service callback, s.objects (home (.serverSession session)) = .session service callback ∧
      (services.onRequest service request).or callback = services.onRequest service request := by
  cases at_n : s.observed session with
  | none =>
    obtain ⟨service, at_o⟩ := inv.quiet session made at_n
    exact ⟨service, none, at_o, by simp⟩
  | some x =>
    obtain ⟨thread', request', callback⟩ := x
    obtain ⟨-, head, service, at_o, installed⟩ := inv.busy session _ _ _ at_n
    rw [at_front] at head
    cases head
    exact ⟨service, callback, at_o, by rw [installed, Option.or_self]⟩

/-- A request is received. -/
theorem observe (inv : Inv services s home) {session thread : ℕ} {request : Request}
    {rest : List (ℕ × Request)} (made : s.made (.serverSession session))
    (at_front : s.threads session = (thread, request) :: rest) (service : Service) :
    Inv services { s with
      objects := Function.update s.objects (home (.serverSession session))
        (.session service (services.onRequest service request))
      observed := Function.update s.observed session
        (some (thread, request, services.onRequest service request)) } home := by
  refine { inv with
    port := fun o => inv.port_kept made rfl service _
    session := fun o => inv.session_kept service _
    quiet := ?_
    busy := ?_ }
  · intro n made' at_n
    by_cases e : n = session
    · simp [e] at at_n
    · have ne := inv.home_ne made rfl made' e
      simp only [Function.update_of_ne e] at at_n
      simpa only [Function.update_of_ne ne] using inv.quiet n made' at_n
  · intro n thread' request' callback' at_n
    by_cases e : n = session
    · subst e
      simp only [Function.update_self, Option.some.injEq, Prod.mk.injEq] at at_n
      obtain ⟨rfl, rfl, rfl⟩ := at_n
      exact ⟨made, by simp [at_front], service, by simp, rfl⟩
    · simp only [Function.update_of_ne e] at at_n
      obtain ⟨made', head, slot⟩ := inv.busy n _ _ _ at_n
      have ne := inv.home_ne made rfl made' e
      exact ⟨made', head, by simpa only [Function.update_of_ne ne] using slot⟩

theorem receive (inv : Inv services s home) (p : ProcessId) (session : ℕ) (found : Handle)
    (live : s.table p found = some (.serverSession session)) :
    Kept services (exec services (.receive p session found) s) := by
  simp only [exec]
  split
  next => simp [Kept]
  next thread request rest at_front =>
    have made := inv.known _ _ _ live
    obtain ⟨service, callback, at_o, installed⟩ := inv.slot made at_front
    refine kept_of_eq ?_ (inv.observe made at_front service)
    have shadow := inv.shadow_of live rfl
    simp [State.onIPCRequest, State.findSession, shadow, at_o, State.setObject, installed, bind,
      Except.bind, pure, Except.pure]

/-- The objects of the kernel, the threads and the requests are none of the callbacks' business. -/
structure SameKernel (s s' : State Service Request Callback) : Prop where
  table : s'.table = s.table
  made : s'.made = s.made
  threads : s'.threads = s.threads
  observed : s'.observed = s.observed

theorem apply (inv : Inv services s home) {p : ProcessId} {e : Effect Service}
    (named : Named s p e) :
    ∃ s', s.apply p e = .ok s' ∧ Inv services s' home ∧ SameKernel s s' := by
  cases e with
  | setSessionObject h service =>
    obtain ⟨o, live, is_session, idle⟩ := named
    obtain ⟨service', callback, -, found⟩ := inv.findSession live is_session
    refine ⟨s.setObject (home o) (.session service none), ?_,
      inv.replace_session (inv.known _ _ _ live) is_session idle service, rfl, rfl, rfl, rfl⟩
    simp [State.apply, found, bind, Except.bind, pure, Except.pure]
  | setPortName h name =>
    obtain ⟨o, live, is_port⟩ := named
    obtain ⟨name', found⟩ := inv.findPort live is_port
    refine ⟨s.setObject (home o) (.port name), ?_,
      inv.replace_port (inv.known _ _ _ live) is_port name, rfl, rfl, rfl, rfl⟩
    simp [State.apply, found, bind, Except.bind, pure, Except.pure]

theorem SameKernel.named {s' : State Service Request Callback} (same : SameKernel s s')
    {p : ProcessId} {e : Effect Service} (named : Named s p e) : Named s' p e := by
  cases e with
  | setSessionObject h service => simpa only [Named, same.table, same.observed] using named
  | setPortName h name => simpa only [Named, same.table] using named

theorem run_effects (inv : Inv services s home) {p : ProcessId} {effects : List (Effect Service)}
    (named : ∀ e ∈ effects, Named s p e) :
    ∃ s', effects.foldlM (fun s e => s.apply p e) s = .ok s' ∧ Inv services s' home ∧
      SameKernel s s' := by
  induction effects generalizing s with
  | nil => exact ⟨s, rfl, inv, rfl, rfl, rfl, rfl⟩
  | cons e effects ih =>
    obtain ⟨s₁, applied, inv₁, same₁⟩ := inv.apply (named e (List.mem_cons_self ..))
    obtain ⟨s₂, ran, inv₂, same₂⟩ := ih inv₁ fun e' mem =>
      same₁.named (named e' (List.mem_cons_of_mem _ mem))
    refine ⟨s₂, ?_, inv₂, same₂.table.trans same₁.table, same₂.made.trans same₁.made,
      same₂.threads.trans same₁.threads, same₂.observed.trans same₁.observed⟩
    rw [List.foldlM_cons, applied]
    exact ran

/-- A reply empties the slot and ends the request. -/
theorem finish (inv : Inv services s home) {session : ℕ} (made : s.made (.serverSession session))
    (service : Service) (rest : List (ℕ × Request)) :
    Inv services { s with
      objects := Function.update s.objects (home (.serverSession session)) (.session service none)
      threads := Function.update s.threads session rest
      observed := Function.update s.observed session none } home := by
  refine { inv with
    port := fun o => inv.port_kept made rfl service none
    session := fun o => inv.session_kept service none
    quiet := ?_
    busy := ?_ }
  · intro n made' at_n
    by_cases e : n = session
    · exact ⟨service, by simp [e]⟩
    · have ne := inv.home_ne made rfl made' e
      simp only [Function.update_of_ne e] at at_n
      simpa only [Function.update_of_ne ne] using inv.quiet n made' at_n
  · intro n thread request callback' at_n
    by_cases e : n = session
    · simp [e] at at_n
    · simp only [Function.update_of_ne e] at at_n
      obtain ⟨made', head, slot⟩ := inv.busy n _ _ _ at_n
      have ne := inv.home_ne made rfl made' e
      exact ⟨made', by simpa only [Function.update_of_ne e] using head,
        by simpa only [Function.update_of_ne ne] using slot⟩

theorem onIPCReply (inv : Inv services s home) {p : ProcessId} {h : Handle} {reply : Reply}
    {session thread : ℕ} {request : Request} {callback : Option Callback}
    (live : s.table p h = some (.serverSession session))
    (observed : s.observed session = some (thread, request, callback))
    (named : ∀ c, callback = some c → ∀ e ∈ services.onReply c reply, Named s p e) :
    ∃ s' service, s.onIPCReply services p h reply =
        .ok (s'.setObject (home (.serverSession session)) (.session service none)) ∧
      Inv services s' home ∧ SameKernel s s' := by
  obtain ⟨made, -, service, at_o, -⟩ := inv.busy session _ _ _ observed
  have shadow := inv.shadow_of live rfl
  have found : s.findSession p h = .ok (home (.serverSession session), service, callback) := by
    simp [State.findSession, shadow, at_o]
  obtain ⟨s', ran, inv', same⟩ : ∃ s',
      s.onIPCReply services p h reply = .ok (s'.clearCallback (home (.serverSession session))) ∧
        Inv services s' home ∧ SameKernel s s' := by
    cases callback with
    | none =>
      refine ⟨s, ?_, inv, rfl, rfl, rfl, rfl⟩
      rw [State.onIPCReply, found]
      rfl
    | some c =>
      obtain ⟨s', ran, inv', same⟩ := inv.run_effects (named c rfl)
      refine ⟨s', ?_, inv', same⟩
      have step : s.onIPCReply services p h reply =
          (services.onReply c reply).foldlM (fun s e => State.apply s p e) s >>= fun s =>
            pure (s.clearCallback (home (.serverSession session))) := by
        rw [State.onIPCReply, found]
        rfl
      rw [step, ran]
      rfl
  obtain ⟨service', callback', at_o'⟩ := inv'.session _ (same.made ▸ made) rfl
  refine ⟨s', service', ?_, inv', same⟩
  rw [ran, State.clearCallback, at_o']

theorem reply (inv : Inv services s home) (p : ProcessId) (h : Handle) (reply : Reply)
    (orderly : Orderly services (.reply p h reply) s) :
    Kept services (exec services (.reply p h reply) s) := by
  simp only [exec]
  split
  next session live =>
    split
    next => simp [Kept]
    next first rest at_front =>
      obtain ⟨thread, request, callback, observed, named⟩ := orderly session live
      obtain ⟨s', service, replied, inv', same⟩ := inv.onIPCReply live observed named
      have made : s'.made (.serverSession session) := same.made ▸ inv.known _ _ _ live
      refine kept_of_eq ?_ (inv'.finish made service rest)
      rw [replied]
      rfl
  next => simp [Kept]

theorem exec (inv : Inv services s home) (op : Op Request Reply) (possible : Possible op s)
    (orderly : Orderly services op s) : Kept services (exec services op s) := by
  cases op with
  | createPort p name => exact inv.createPort p name orderly.1 orderly.2
  | connectToPort p name port => exact inv.connectToPort p name port orderly
  | createSessionToPort p portHandle => exact inv.createSessionToPort p portHandle orderly
  | createSession p => exact inv.createSession p orderly.1 orderly.2
  | acceptSession p port session found =>
    exact inv.acceptSession p port session found orderly.1 (finds_live possible orderly.2)
  | createObject p => exact inv.createObject p orderly
  | transfer p h q => exact inv.transfer p h q orderly
  | close p h => exact inv.close p h
  | sendSyncRequest p h thread request => exact inv.sendSyncRequest p h thread request
  | receive p session found => exact inv.receive p session found (finds_live possible orderly)
  | reply p h reply => exact inv.reply p h reply orderly

end Inv

/-! ## Runs -/

theorem Initial.inv (init : Initial s) : Inv services s fun _ => 0 := by
  have untracked {o : Object} (made : s.made o) : o.tracked ≠ true := by
    simp [(init.made o made).1]
  refine ⟨?_, init.known, fun o made => (init.made o made).2, ?_, ?_, ?_, ?_, ?_, ?_, ?_⟩
  · intro p h
    rw [init.handleTables]
    cases live : s.table p h with
    | none => rfl
    | some o => simp [shadowOf, init.table p h o live]
  · intro n port at_n
    simp [init.offered] at at_n
  · exact fun o made tracked => absurd tracked (untracked made)
  · exact fun o made is_port => absurd (Object.tracked_of_port is_port) (untracked made)
  · exact fun o made is_session => absurd (Object.tracked_of_session is_session) (untracked made)
  · exact fun o o' made _ tracked _ _ => absurd tracked (untracked made)
  · exact fun n made _ => absurd rfl (untracked made)
  · intro n thread request callback at_n
    simp [init.observed] at at_n

theorem Reachable.inv (reach : Reachable services s) : ∃ home, Inv services s home := by
  induction reach with
  | initial init => exact ⟨_, init.inv⟩
  | step op _ possible orderly done ih =>
    obtain ⟨home, inv⟩ := ih
    have kept := inv.exec op possible orderly
    rw [done] at kept
    exact kept

end

/-! ## Main result -/

section

variable {Service Request Callback Reply : Type}
  {services : Services Service Request Callback Reply}
  {s : State Service Request Callback}

/-- A handle has a shadow exactly if it is one to a port or a session, and it is of that kind. -/
def Mirrored (s : State Service Request Callback) : Prop :=
  ∀ p h, (s.table p h = none → s.handleTables p h = none) ∧
    ∀ o, s.table p h = some o →
      ((s.handleTables p h).isSome ↔ o.tracked) ∧
      (o.isPort → ∃ c name, s.findPort p h = .ok (c, name)) ∧
      (o.isSession → ∃ c service callback, s.findSession p h = .ok (c, service, callback))

/-- At a reply, the callback is what was installed for the request that has waited longest when it
was received. -/
def Answers (services : Services Service Request Callback Reply)
    (s : State Service Request Callback) (p : ProcessId) (h : Handle) : Prop :=
  ∀ session, s.table p h = some (.serverSession session) →
    ∃ thread request callback, (s.threads session).head? = some (thread, request) ∧
      s.observed session = some (thread, request, callback) ∧
      ∃ c service, s.findSession p h = .ok (c, service, callback) ∧
        callback = services.onRequest service request

/-- What no step of a run is to violate. -/
structure Exact (services : Services Service Request Callback Reply)
    (s : State Service Request Callback) (op : Op Request Reply) : Prop where
  accepted : exec services op s ≠ .error .precondition
  answers : ∀ p h reply, op = .reply p h reply → Answers services s p h

theorem Inv.mirrored {home : Object → ℕ} (inv : Inv services s home) : Mirrored s := by
  refine fun p h => ⟨inv.shadow_free, fun o live => ⟨?_, fun is_port => ?_, fun is_session => ?_⟩⟩
  · rw [inv.shadow, live, Option.bind_some, shadowOf]
    split
    next tracked => simp [tracked]
    next untracked => simp [untracked]
  · obtain ⟨name, found⟩ := inv.findPort live is_port
    exact ⟨_, name, found⟩
  · obtain ⟨service, callback, -, found⟩ := inv.findSession live is_session
    exact ⟨_, service, callback, found⟩

theorem Inv.answers {home : Object → ℕ} (inv : Inv services s home) {p : ProcessId} {h : Handle}
    {reply : Reply} (orderly : Orderly services (.reply p h reply) s) : Answers services s p h := by
  intro session live
  obtain ⟨thread, request, callback, observed, -⟩ := orderly session live
  obtain ⟨-, head, service, at_o, installed⟩ := inv.busy session _ _ _ observed
  refine ⟨thread, request, callback, head, observed, home (.serverSession session), service, ?_,
    installed⟩
  simp [State.findSession, inv.shadow_of live rfl, at_o]

end

/-! ## A session whose last handle is closed -/

section

variable {Service Request Callback Reply : Type}
  (services : Services Service Request Callback Reply)

/-- The states of all runs, in whatever order their steps are. -/
inductive Arrives : State Service Request Callback → Prop where
  | initial {s} : Initial s → Arrives s
  | step {s s'} (op : Op Request Reply) : Arrives s → Possible op s →
    exec services op s = .ok s' → Arrives s'

end

/-- Services that have something to do at each reply, and do nothing. -/
def idle : Services Unit Unit Unit Unit where
  unnamed := ()
  factory := fun _ => ()
  onRequest := fun _ _ => some ()
  onReply := fun _ _ => []

def blank : State Unit Unit Unit where
  table := fun _ _ => none
  curHandle := fun _ => 0
  nextObject := 0
  made := fun _ => false
  offered := fun _ => none
  threads := fun _ => []
  observed := fun _ => none
  handleTables := fun _ _ => none
  objects := fun _ => .port ""
  nextShadow := 0
  ports := []

theorem blank_initial : Initial blank := by
  constructor <;> intros <;> simp_all [blank]

end Mikage.HPV
