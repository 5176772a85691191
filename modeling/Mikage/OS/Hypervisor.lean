import Mathlib

/-!
# The shadow tables of the hypervisor

Next to the handle tables of the kernel the hypervisor keeps its own, of the handles to ports and
sessions. A shadow session has the callback for the reply to the request that it has seen. The
services, which say what is to be done at a request and at its reply, are a parameter; the handles
in a reply come from the server.

- `exec`: the operations of the kernel, with what the hypervisor is told of them.
- `Inv`: each handle to a port or a session has its shadow and no other handle has one, and a
  session has the callback of the request that has been received.
- `Inv.introduce`, `Inv.beside`, `Inv.share`, `Inv.erase`: how new objects and handles keep it.
-/

namespace Mikage.HPV

abbrev ProcessId := ℕ
abbrev Handle := BitVec 32

/-- The objects of the kernel. The two ends of a port or a session have its number. -/
inductive Object where
  | serverPort (port : ℕ)
  | clientPort (port : ℕ)
  | serverSession (session : ℕ)
  | clientSession (session : ℕ)
  | other (id : ℕ)
  deriving DecidableEq, Repr

namespace Object

def id : Object → ℕ
  | serverPort n | clientPort n | serverSession n | clientSession n | other n => n

def isPort : Object → Bool
  | serverPort _ | clientPort _ => true
  | _ => false

def isSession : Object → Bool
  | serverSession _ | clientSession _ => true
  | _ => false

/-- The hypervisor does not track all kinds of handles. -/
def tracked (o : Object) : Bool := o.isPort || o.isSession

end Object

/-- `HPV::Port` and `HPV::Session`, with `hpv_ipc_callback`. An empty callback does nothing. -/
inductive Shadow (Service Callback : Type) where
  | port (name : String)
  | session (service : Service) (callback : Option Callback)

/-- What a callback has the hypervisor do, with handles of the process that replies. -/
inductive Effect (Service : Type) where
  | setSessionObject (handle : Handle) (service : Service)
  | setPortName (handle : Handle) (name : String)

/-- The shadow services. -/
structure Services (Service Request Callback Reply : Type) where
  unnamed : Service
  /-- `service_factory_map` -/
  factory : String → Service
  /-- The callback that `OnRequest` installs, if any. -/
  onRequest : Service → Request → Option Callback
  onReply : Callback → Reply → List (Effect Service)

structure State (Service Request Callback : Type) where
  table : ProcessId → Handle → Option Object
  curHandle : ProcessId → Handle
  nextObject : ℕ
  /-- The objects that there are or have been. -/
  made : Object → Bool
  /-- The port that a session is offered to, until it is accepted. -/
  offered : ℕ → Option ℕ
  /-- `ClientSession::threads`, with the requests that they have sent. -/
  threads : ℕ → List (ℕ × Request)
  /-- What was installed for which request when it was received, until the reply. -/
  observed : ℕ → Option (ℕ × Request × Option Callback)
  handleTables : ProcessId → Handle → Option ℕ
  objects : ℕ → Shadow Service Callback
  nextShadow : ℕ
  ports : List ℕ

/-- A precondition of the hypervisor is violated, or the kernel stops for another reason. -/
inductive Fault where
  | precondition
  | other
  deriving DecidableEq, Repr

section

variable {Service Request Callback Reply : Type}
  (services : Services Service Request Callback Reply)

/-- One entry of a table of tables. -/
def put {α : Type} (f : ProcessId → Handle → α) (p : ProcessId) (h : Handle) (v : α) :
    ProcessId → Handle → α :=
  fun p' h' => if p' = p ∧ h' = h then v else f p' h'

namespace State

variable (s : State Service Request Callback)

/-! ## The kernel's tables -/

def newHandle (p : ProcessId) : Handle := s.curHandle p + 1

def createHandle (p : ProcessId) (o : Object) : State Service Request Callback :=
  { s with
    table := put s.table p (s.newHandle p) (some o)
    curHandle := Function.update s.curHandle p (s.newHandle p)
    made := Function.update s.made o true }

/-! ## Notifications -/

def findSession (p : ProcessId) (h : Handle) : Except Fault (ℕ × Service × Option Callback) :=
  match s.handleTables p h with
  | none => .error .precondition
  | some c =>
    match s.objects c with
    | .session service callback => .ok (c, service, callback)
    | .port _ => .error .precondition

def findPort (p : ProcessId) (h : Handle) : Except Fault (ℕ × String) :=
  match s.handleTables p h with
  | none => .error .precondition
  | some c =>
    match s.objects c with
    | .port name => .ok (c, name)
    | .session _ _ => .error .precondition

/-- A new shadow object behind a handle. -/
def emplace (p : ProcessId) (h : Handle) (x : Shadow Service Callback) :
    State Service Request Callback :=
  { s with
    handleTables := put s.handleTables p h (some s.nextShadow)
    objects := Function.update s.objects s.nextShadow x
    nextShadow := s.nextShadow + 1 }

/-- `ReplaceManagedObject`, and assignments to the callback. -/
def setObject (c : ℕ) (x : Shadow Service Callback) : State Service Request Callback :=
  { s with objects := Function.update s.objects c x }

def onPortCreated (p : ProcessId) (name : String) (h : Handle) :
    Except Fault (State Service Request Callback) :=
  if (s.handleTables p h).isSome then .error .precondition
  else .ok { s.emplace p h (.port name) with ports := s.ports ++ [s.nextShadow] }

/-- `Port::Name` -/
def portName (c : ℕ) : Option String :=
  match s.objects c with
  | .port name => some (if name.isEmpty then "UnknownPort" else name)
  | .session _ _ => none

def onConnectToPort (p : ProcessId) (name : String) (h : Handle) :
    Except Fault (State Service Request Callback) :=
  if (s.handleTables p h).isSome then .error .precondition
  else if s.ports.any fun c => s.portName c = some name then
    .ok (s.emplace p h (.session (services.factory name) none))
  else .error .other

def onNewSession (p : ProcessId) (portHandle h : Handle) :
    Except Fault (State Service Request Callback) :=
  if (s.handleTables p h).isSome then .error .precondition
  else do
    let (_, name) ← s.findPort p portHandle
    return s.emplace p h (.session (services.factory name) none)

def onSessionCreated (p : ProcessId) (h : Handle) : Except Fault (State Service Request Callback) :=
  if (s.handleTables p h).isSome then .error .precondition
  else .ok (s.emplace p h (.session services.unnamed none))

def onHandleDuplicated (p : ProcessId) (h : Handle) (q : ProcessId) (h' : Handle) :
    Except Fault (State Service Request Callback) :=
  match s.handleTables p h with
  | none => .ok s
  | some c =>
    if (s.handleTables q h').isSome then .error .precondition
    else .ok { s with handleTables := put s.handleTables q h' (some c) }

def onHandleClosed (p : ProcessId) (h : Handle) : State Service Request Callback :=
  { s with handleTables := put s.handleTables p h none }

/-- `OnIPCRequestFromTo`. Returns the callback that is installed. -/
def onIPCRequest (p : ProcessId) (h : Handle) (request : Request) :
    Except Fault (Option Callback × State Service Request Callback) := do
  let (c, service, callback) ← s.findSession p h
  let installed := services.onRequest service request
  return (installed, s.setObject c (.session service (installed.or callback)))

def apply (p : ProcessId) (effect : Effect Service) :
    Except Fault (State Service Request Callback) :=
  match effect with
  | .setSessionObject h service => do
    let (c, _) ← s.findSession p h
    return s.setObject c (.session service none)
  | .setPortName h name => do
    let (c, _) ← s.findPort p h
    return s.setObject c (.port name)

/-- The assignment of an empty callback to what is behind the shadow object by now. -/
def clearCallback (c : ℕ) : State Service Request Callback :=
  match s.objects c with
  | .session service _ => s.setObject c (.session service none)
  | .port _ => s

/-- `OnIPCReplyFromTo` -/
def onIPCReply (p : ProcessId) (h : Handle) (reply : Reply) :
    Except Fault (State Service Request Callback) := do
  let (c, _, callback) ← s.findSession p h
  let s ← match callback with
    | some callback => (services.onReply callback reply).foldlM (fun s e => s.apply p e) s
    | none => pure s
  return s.clearCallback c

end State

/-! ## Operations -/

/-- The operations of the kernel. Where it looks for the handle of an object, any may be found. -/
inductive Op (Request Reply : Type) where
  | createPort (p : ProcessId) (name : String)
  | connectToPort (p : ProcessId) (name : String) (port : ℕ)
  | createSessionToPort (p : ProcessId) (portHandle : Handle)
  | createSession (p : ProcessId)
  | acceptSession (p : ProcessId) (port session : ℕ) (found : Handle)
  | createObject (p : ProcessId)
  | transfer (p : ProcessId) (h : Handle) (q : ProcessId)
  | close (p : ProcessId) (h : Handle)
  | sendSyncRequest (p : ProcessId) (h : Handle) (thread : ℕ) (request : Request)
  | receive (p : ProcessId) (session : ℕ) (found : Handle)
  | reply (p : ProcessId) (h : Handle) (reply : Reply)

open State

def exec (op : Op Request Reply) (s : State Service Request Callback) :
    Except Fault (State Service Request Callback) :=
  let n := s.nextObject
  match op with
  | .createPort p name => do
    let h := s.newHandle p
    let s := { s.createHandle p (.serverPort n) with nextObject := n + 1 }
    let h' := s.newHandle p
    let s ← (s.createHandle p (.clientPort n)).onPortCreated p name h
    s.onHandleDuplicated p h p h'
  | .connectToPort p name port =>
    let s' := { s.createHandle p (.clientSession n) with
      nextObject := n + 1, offered := Function.update s.offered n (some port) }
    s'.onConnectToPort services p name (s.newHandle p)
  | .createSessionToPort p portHandle =>
    match s.table p portHandle with
    | some (.clientPort port) =>
      let s' := { s.createHandle p (.clientSession n) with
        nextObject := n + 1, offered := Function.update s.offered n (some port) }
      s'.onNewSession services p portHandle (s.newHandle p)
    | _ => .error .other
  | .createSession p => do
    let h := s.newHandle p
    let s := { s.createHandle p (.serverSession n) with nextObject := n + 1 }
    let h' := s.newHandle p
    let s ← (s.createHandle p (.clientSession n)).onSessionCreated services p h
    s.onHandleDuplicated p h p h'
  | .acceptSession p port session found =>
    if s.offered session = some port then
      let s' := { s.createHandle p (.serverSession session) with
        offered := Function.update s.offered session none }
      s'.onNewSession services p found (s.newHandle p)
    else .error .other
  | .createObject p => .ok { s.createHandle p (.other n) with nextObject := n + 1 }
  | .transfer p h q =>
    match s.table p h with
    | some o => (s.createHandle q o).onHandleDuplicated p h q (s.newHandle q)
    | none => .error .other
  | .close p h => .ok { s.onHandleClosed p h with table := put s.table p h none }
  | .sendSyncRequest p h thread request =>
    match s.table p h with
    | some (.clientSession session) =>
      .ok { s with threads :=
        Function.update s.threads session (s.threads session ++ [(thread, request)]) }
    | _ => .ok s
  | .receive p session found =>
    match s.threads session with
    | [] => .error .other
    | (thread, request) :: _ => do
      let (installed, s) ← s.onIPCRequest services p found request
      return { s with
        observed := Function.update s.observed session (some (thread, request, installed)) }
  | .reply p h reply =>
    match s.table p h with
    | some (.serverSession session) =>
      match s.threads session with
      | [] => .error .other
      | _ :: rest => do
        let s ← s.onIPCReply services p h reply
        return { s with
          threads := Function.update s.threads session rest
          observed := Function.update s.observed session none }
    | _ => .error .other

/-- `FindHandle` gives a handle of the object, and an invalid one if there is none. -/
def Finds (s : State Service Request Callback) (p : ProcessId) (o : Object) (found : Handle) :
    Prop :=
  s.table p found = some o ∨ (∀ h, s.table p h ≠ some o) ∧ found = 0

def Possible (op : Op Request Reply) (s : State Service Request Callback) : Prop :=
  match op with
  | .acceptSession p port _ found => Finds s p (.serverPort port) found
  | .receive p session found => Finds s p (.serverSession session) found
  | _ => True

/-- The handle in a reply is live and of the kind that the callback is for. A session that is given
another object has no request to reply to. -/
def Named (s : State Service Request Callback) (p : ProcessId) : Effect Service → Prop
  | .setSessionObject h _ => ∃ o, s.table p h = some o ∧ o.isSession ∧ s.observed o.id = none
  | .setPortName h _ => ∃ o, s.table p h = some o ∧ o.isPort

/-- The condition on a step: new handles are not in use, a request is received in a process that has
a handle to the session, and a reply is one to a request that has been received, with handles that
suit its callback. -/
def Orderly (op : Op Request Reply) (s : State Service Request Callback) : Prop :=
  match op with
  | .createPort p _ | .createSession p =>
    s.table p (s.curHandle p + 1) = none ∧ s.table p (s.curHandle p + 2) = none
  | .connectToPort p _ _ | .createSessionToPort p _ | .createObject p =>
    s.table p (s.curHandle p + 1) = none
  | .acceptSession p port _ _ =>
    s.table p (s.curHandle p + 1) = none ∧ ∃ h, s.table p h = some (.serverPort port)
  | .transfer _ _ q => s.table q (s.curHandle q + 1) = none
  | .close _ _ | .sendSyncRequest _ _ _ _ => True
  | .receive p session _ => ∃ h, s.table p h = some (.serverSession session)
  | .reply p h reply => ∀ session, s.table p h = some (.serverSession session) →
    ∃ thread request callback, s.observed session = some (thread, request, callback) ∧
      ∀ c, callback = some c → ∀ e ∈ services.onReply c reply, Named s p e

/-- No ports or sessions yet. -/
structure Initial (s : State Service Request Callback) : Prop where
  table : ∀ p h o, s.table p h = some o → o.tracked = false
  made : ∀ o, s.made o → o.tracked = false ∧ o.id < s.nextObject
  known : ∀ p h o, s.table p h = some o → s.made o
  offered : ∀ n, s.offered n = none
  observed : ∀ n, s.observed n = none
  handleTables : ∀ p h, s.handleTables p h = none

inductive Reachable : State Service Request Callback → Prop where
  | initial {s} : Initial s → Reachable s
  | step {s s'} (op : Op Request Reply) : Reachable s → Possible op s → Orderly services op s →
    exec services op s = .ok s' → Reachable s'

end

/-! ## The invariant -/

section

variable {α : Type} (f : ProcessId → Handle → α) (p : ProcessId) (h : Handle) (v : α)

@[simp] theorem put_self : put f p h v p h = v := by simp [put]

theorem put_of_ne {q : ProcessId} {h' : Handle} (ne : ¬(q = p ∧ h' = h)) :
    put f p h v q h' = f q h' := by
  simp [put, ne]

end

section

variable {Service Request Callback Reply : Type}
  {services : Services Service Request Callback Reply}
  {s : State Service Request Callback} {home : Object → ℕ}

/-- What the hypervisor has for a handle of an object whose shadow is at home. -/
def shadowOf (home : Object → ℕ) (o : Object) : Option ℕ :=
  if o.tracked then some (home o) else none

/-- A session without a request to reply to has an empty slot; else it has what was installed for
the first of its requests. -/
structure Inv (services : Services Service Request Callback Reply)
    (s : State Service Request Callback) (home : Object → ℕ) : Prop where
  shadow : ∀ p h, s.handleTables p h = (s.table p h).bind (shadowOf home)
  known : ∀ p h o, s.table p h = some o → s.made o
  old : ∀ o, s.made o → o.id < s.nextObject
  offer : ∀ n port, s.offered n = some port →
    n < s.nextObject ∧ s.made (.serverSession n) = false
  homed : ∀ o, s.made o → o.tracked → home o < s.nextShadow
  port : ∀ o, s.made o → o.isPort → ∃ name, s.objects (home o) = .port name
  session : ∀ o, s.made o → o.isSession →
    ∃ service callback, s.objects (home o) = .session service callback
  apart : ∀ o o', s.made o → s.made o' → o.tracked → o'.tracked → home o = home o' → o.id = o'.id
  quiet : ∀ n, s.made (.serverSession n) → s.observed n = none →
    ∃ service, s.objects (home (.serverSession n)) = .session service none
  busy : ∀ n thread request callback, s.observed n = some (thread, request, callback) →
    s.made (.serverSession n) ∧ (s.threads n).head? = some (thread, request) ∧
    ∃ service, s.objects (home (.serverSession n)) = .session service callback ∧
      callback = services.onRequest service request

theorem Object.tracked_of_port {o : Object} (h : o.isPort) : o.tracked := by simp [tracked, h]

theorem Object.tracked_of_session {o : Object} (h : o.isSession) : o.tracked := by
  simp [tracked, h]

namespace Inv

theorem shadow_free (inv : Inv services s home) {p : ProcessId} {h : Handle}
    (free : s.table p h = none) : s.handleTables p h = none := by
  simp [inv.shadow, free]

theorem shadow_of (inv : Inv services s home) {p : ProcessId} {h : Handle} {o : Object}
    (live : s.table p h = some o) (tracked : o.tracked) : s.handleTables p h = some (home o) := by
  simp [inv.shadow, live, shadowOf, tracked]

theorem shadow_put (inv : Inv services s home) {home' : Object → ℕ} (p : ProcessId) (h : Handle)
    (o : Option Object) (same : ∀ o, s.made o → home' o = home o) (q : ProcessId) (h' : Handle) :
    put s.handleTables p h (o.bind (shadowOf home')) q h' =
      (put s.table p h o q h').bind (shadowOf home') := by
  by_cases at_h : q = p ∧ h' = h
  · obtain ⟨rfl, rfl⟩ := at_h
    simp
  · rw [put_of_ne _ _ _ _ at_h, put_of_ne _ _ _ _ at_h, inv.shadow]
    cases live : s.table q h' with
    | none => rfl
    | some o' => simp [shadowOf, same o' (inv.known _ _ _ live)]

theorem known_put (inv : Inv services s home) {p q : ProcessId} {h h' : Handle} {o o' : Object}
    (live : put s.table p h (some o) q h' = some o') : o' = o ∨ s.made o' := by
  by_cases at_h : q = p ∧ h' = h
  · obtain ⟨rfl, rfl⟩ := at_h
    exact .inl (by simpa using live.symm)
  · rw [put_of_ne _ _ _ _ at_h] at live
    exact .inr (inv.known _ _ _ live)

/-- Another handle to an object. -/
theorem share (inv : Inv services s home) (p : ProcessId) (h : Handle) {o : Object}
    (made : s.made o) (cur : ProcessId → Handle) :
    Inv services { s with
      table := put s.table p h (some o)
      curHandle := cur
      made := Function.update s.made o true
      handleTables := put s.handleTables p h (shadowOf home o) } home := by
  have same : Function.update s.made o true = s.made := by
    rw [← made, Function.update_eq_self]
  rw [same]
  exact { inv with
    shadow := inv.shadow_put p h (some o) fun _ _ => rfl
    known := fun q h' o' live => (inv.known_put live).elim (fun e => e ▸ made) id }

theorem erase (inv : Inv services s home) (p : ProcessId) (h : Handle) :
    Inv services { s with
      table := put s.table p h none
      handleTables := put s.handleTables p h none } home :=
  { inv with
    shadow := inv.shadow_put p h none fun _ _ => rfl
    known := fun q h' o' live => by
      by_cases at_h : q = p ∧ h' = h
      · obtain ⟨rfl, rfl⟩ := at_h
        simp at live
      · exact inv.known q h' o' (by simpa only [put_of_ne _ _ _ _ at_h] using live) }

/-- A new object, with a shadow of its own or none. -/
theorem introduce (inv : Inv services s home) (p : ProcessId) (h : Handle) (o : Object) {m : ℕ}
    (new : s.made o = false) (le : s.nextObject ≤ m) (lt : o.id < m)
    (cur : ProcessId → Handle) (ports : List ℕ) {x : Shadow Service Callback}
    (port : o.isPort → ∃ name, x = .port name)
    (session : o.isSession → ∃ service, x = .session service none) (tracked : o.tracked)
    (offered : ℕ → Option ℕ) (offer : ∀ n port, offered n = some port →
      n < m ∧ s.made (.serverSession n) = false ∧ o ≠ .serverSession n) :
    Inv services { s with
      table := put s.table p h (some o)
      curHandle := cur
      nextObject := m
      made := Function.update s.made o true
      offered := offered
      handleTables := put s.handleTables p h (some s.nextShadow)
      objects := Function.update s.objects s.nextShadow x
      nextShadow := s.nextShadow + 1
      ports := ports } (Function.update home o s.nextShadow) := by
  have ne_of_made {o' : Object} (made : s.made o') : o' ≠ o := by
    rintro rfl
    simp [new] at made
  have home_new : Function.update home o s.nextShadow o = s.nextShadow := by simp
  have home_old {o' : Object} (made : s.made o') :
      Function.update home o s.nextShadow o' = home o' := by
    simp [Function.update_of_ne (ne_of_made made)]
  have objects_old {o' : Object} (made : s.made o') (tracked : o'.tracked) :
      Function.update s.objects s.nextShadow x (home o') = s.objects (home o') :=
    Function.update_of_ne (inv.homed o' made tracked).ne _ _
  have cases_made {o' : Object} (made : Function.update s.made o true o' = true) :
      o' = o ∨ s.made o' := by
    by_cases e : o' = o
    · exact .inl e
    · exact .inr (by simpa [Function.update_of_ne e] using made)
  have shadow := inv.shadow_put p h (some o) fun _ => home_old
  refine ⟨?_, ?_, ?_, ?_, ?_, ?_, ?_, ?_, ?_, ?_⟩
  · simpa [shadowOf, tracked] using shadow
  · intro q h' o' live
    rcases inv.known_put live with rfl | made
    · simp
    · simp [Function.update_of_ne (ne_of_made made), made]
  · intro o' made
    rcases cases_made made with rfl | made
    · exact lt
    · exact (inv.old o' made).trans_le le
  · intro n port at_n
    obtain ⟨lt, new, ne⟩ := offer n port at_n
    exact ⟨lt, by simpa [Function.update_of_ne ne.symm] using new⟩
  · intro o' made tracked
    rcases cases_made made with rfl | made
    · simp
    · simpa only [home_old made] using (inv.homed o' made tracked).trans (Nat.lt_succ_self _)
  · intro o' made is_port
    rcases cases_made made with rfl | made
    · simpa using port is_port
    · simpa only [home_old made, objects_old made (Object.tracked_of_port is_port)]
        using inv.port o' made is_port
  · intro o' made is_session
    rcases cases_made made with rfl | made
    · obtain ⟨service, rfl⟩ := session is_session
      exact ⟨service, none, by simp⟩
    · simpa only [home_old made, objects_old made (Object.tracked_of_session is_session)]
        using inv.session o' made is_session
  · intro o₁ o₂ made₁ made₂ tracked₁ tracked₂ same
    rcases cases_made made₁ with rfl | old₁ <;> rcases cases_made made₂ with rfl | old₂
    · rfl
    · rw [home_new, home_old old₂] at same
      exact absurd same (inv.homed o₂ old₂ tracked₂).ne'
    · rw [home_new, home_old old₁] at same
      exact absurd same (inv.homed o₁ old₁ tracked₁).ne
    · rw [home_old old₁, home_old old₂] at same
      exact inv.apart o₁ o₂ old₁ old₂ tracked₁ tracked₂ same
  · intro n made at_n
    rcases cases_made made with rfl | made
    · simpa using session rfl
    · simpa only [home_old made, objects_old made (Object.tracked_of_session rfl)]
        using inv.quiet n made at_n
  · intro n thread request callback at_n
    obtain ⟨made, head, slot⟩ := inv.busy n thread request callback at_n
    refine ⟨by simp [Function.update_of_ne (ne_of_made made), made], head, ?_⟩
    simpa only [home_old made, objects_old made (Object.tracked_of_session rfl)] using slot

/-- The other end of a port or a session, with the shadow of the first. -/
theorem beside (inv : Inv services s home) (p : ProcessId) (h : Handle) (o first : Object)
    (new : s.made o = false) (made_first : s.made first) (id : o.id = first.id)
    (port : o.isPort = first.isPort) (session : o.isSession = first.isSession)
    (tracked : o.tracked) (client : ∀ n, o ≠ .serverSession n) (cur : ProcessId → Handle) :
    Inv services { s with
      table := put s.table p h (some o)
      curHandle := cur
      made := Function.update s.made o true
      handleTables := put s.handleTables p h (some (home first)) }
      (Function.update home o (home first)) := by
  have ne_of_made {o' : Object} (made : s.made o') : o' ≠ o := by
    rintro rfl
    simp [new] at made
  have home_old {o' : Object} (made : s.made o') :
      Function.update home o (home first) o' = home o' := by
    simp [Function.update_of_ne (ne_of_made made)]
  have tracked_first : first.tracked := by
    simpa only [Object.tracked, ← port, ← session] using tracked
  -- each object that has been made now was like one that had been made
  have cases_made {o' : Object} (made : Function.update s.made o true o' = true) :
      ∃ o'', s.made o'' ∧ o'.id = o''.id ∧ o'.isPort = o''.isPort ∧ o'.isSession = o''.isSession ∧
        Function.update home o (home first) o' = home o'' := by
    by_cases e : o' = o
    · subst e
      exact ⟨first, made_first, id, port, session, by simp⟩
    · have made : s.made o' := by simpa [Function.update_of_ne e] using made
      exact ⟨o', made, rfl, rfl, rfl, home_old made⟩
  have tracked_eq {o₁ o₂ : Object} (port : o₁.isPort = o₂.isPort)
      (session : o₁.isSession = o₂.isSession) : o₁.tracked = o₂.tracked := by
    rw [Object.tracked, Object.tracked, port, session]
  have shadow := inv.shadow_put p h (some o) fun _ => home_old
  refine ⟨?_, ?_, ?_, ?_, ?_, ?_, ?_, ?_, ?_, ?_⟩
  · simpa [shadowOf, tracked] using shadow
  · intro q h' o' live
    rcases inv.known_put live with rfl | made
    · simp
    · simp [Function.update_of_ne (ne_of_made made), made]
  · intro o' made
    obtain ⟨o'', made, id, -⟩ := cases_made made
    exact id ▸ inv.old o'' made
  · intro n port at_n
    obtain ⟨lt, free⟩ := inv.offer n port at_n
    exact ⟨lt, by simpa [Function.update_of_ne (client n).symm] using free⟩
  · intro o' made tracked
    obtain ⟨o'', made, -, port, session, at_home⟩ := cases_made made
    rw [at_home]
    exact inv.homed o'' made (tracked_eq port session ▸ tracked)
  · intro o' made is_port
    obtain ⟨o'', made, -, port, -, at_home⟩ := cases_made made
    rw [at_home]
    exact inv.port o'' made (port ▸ is_port)
  · intro o' made is_session
    obtain ⟨o'', made, -, -, session, at_home⟩ := cases_made made
    rw [at_home]
    exact inv.session o'' made (session ▸ is_session)
  · intro o₁ o₂ made₁ made₂ tracked₁ tracked₂ same
    obtain ⟨o₁', made₁, id₁, port₁, session₁, at_home₁⟩ := cases_made made₁
    obtain ⟨o₂', made₂, id₂, port₂, session₂, at_home₂⟩ := cases_made made₂
    rw [at_home₁, at_home₂] at same
    rw [id₁, id₂]
    exact inv.apart o₁' o₂' made₁ made₂ (tracked_eq port₁ session₁ ▸ tracked₁)
      (tracked_eq port₂ session₂ ▸ tracked₂) same
  · intro n made at_n
    have made : s.made (.serverSession n) := by
      simpa [Function.update_of_ne (client n).symm] using made
    simpa only [home_old made] using inv.quiet n made at_n
  · intro n thread request callback at_n
    obtain ⟨made, head, slot⟩ := inv.busy n thread request callback at_n
    refine ⟨by simp [Function.update_of_ne (ne_of_made made), made], head, ?_⟩
    simpa only [home_old made] using slot

/-- A new object that the hypervisor does not track. -/
theorem introduce_untracked (inv : Inv services s home) (p : ProcessId) (h : Handle) {m : ℕ}
    (free : s.table p h = none) (le : s.nextObject ≤ m) {n : ℕ} (lt : n < m)
    (cur : ProcessId → Handle) :
    Inv services { s with
      table := put s.table p h (some (.other n))
      curHandle := cur
      nextObject := m
      made := Function.update s.made (.other n) true } home := by
  have cases_made {o' : Object} (made : Function.update s.made (.other n) true o' = true) :
      o' = .other n ∨ s.made o' := by
    by_cases e : o' = .other n
    · exact .inl e
    · exact .inr (by simpa [Function.update_of_ne e] using made)
  have made_server (k : ℕ) : Function.update s.made (.other n) true (.serverSession k) =
      s.made (.serverSession k) := Function.update_of_ne (by simp) _ _
  have tables : put s.handleTables p h none = s.handleTables := by
    funext q h'
    by_cases at_h : q = p ∧ h' = h
    · obtain ⟨rfl, rfl⟩ := at_h
      simp [inv.shadow_free free]
    · exact put_of_ne _ _ _ _ at_h
  have shadow := inv.shadow_put p h (some (.other n)) fun o (_ : s.made o) => Eq.refl (home o)
  refine ⟨?_, ?_, ?_, ?_, ?_, ?_, ?_, ?_, ?_, ?_⟩
  · simpa [shadowOf, Object.tracked, Object.isPort, Object.isSession, tables] using shadow
  · intro q h' o' live
    rcases inv.known_put live with rfl | made
    · simp
    · by_cases e : o' = .other n
      · simp [e]
      · simp [Function.update_of_ne e, made]
  · intro o' made
    rcases cases_made made with rfl | made
    · exact lt
    · exact (inv.old o' made).trans_le le
  · intro k port at_k
    obtain ⟨lt, free⟩ := inv.offer k port at_k
    exact ⟨lt.trans_le le, (made_server k).trans free⟩
  · intro o' made tracked
    rcases cases_made made with rfl | made
    · simp [Object.tracked, Object.isPort, Object.isSession] at tracked
    · exact inv.homed o' made tracked
  · intro o' made is_port
    rcases cases_made made with rfl | made
    · simp [Object.isPort] at is_port
    · exact inv.port o' made is_port
  · intro o' made is_session
    rcases cases_made made with rfl | made
    · simp [Object.isSession] at is_session
    · exact inv.session o' made is_session
  · intro o₁ o₂ made₁ made₂ tracked₁ tracked₂ same
    rcases cases_made made₁ with rfl | old₁
    · simp [Object.tracked, Object.isPort, Object.isSession] at tracked₁
    rcases cases_made made₂ with rfl | old₂
    · simp [Object.tracked, Object.isPort, Object.isSession] at tracked₂
    exact inv.apart o₁ o₂ old₁ old₂ tracked₁ tracked₂ same
  · intro k made at_k
    exact inv.quiet k ((made_server k).symm.trans made) at_k
  · intro k thread request callback at_k
    obtain ⟨made, rest⟩ := inv.busy k thread request callback at_k
    exact ⟨(made_server k).trans made, rest⟩

/-- Where the home of a session gets another session, ports stay ports. -/
theorem port_kept (inv : Inv services s home) {o o' : Object} (made : s.made o)
    (is_session : o.isSession) (service : Service) (callback : Option Callback)
    (made' : s.made o') (is_port : o'.isPort) :
    ∃ name, Function.update s.objects (home o) (.session service callback) (home o') =
      .port name := by
  obtain ⟨service', callback', at_o⟩ := inv.session o made is_session
  obtain ⟨name, at_o'⟩ := inv.port o' made' is_port
  have ne : home o' ≠ home o := fun same => by
    rw [same, at_o] at at_o'
    cases at_o'
  exact ⟨name, by simpa only [Function.update_of_ne ne] using at_o'⟩

theorem session_kept (inv : Inv services s home) {o o' : Object} (service : Service)
    (callback : Option Callback) (made' : s.made o') (is_session : o'.isSession) :
    ∃ service' callback', Function.update s.objects (home o) (.session service callback) (home o') =
      .session service' callback' := by
  by_cases same : home o' = home o
  · exact ⟨service, callback, by simp only [same, Function.update_self]⟩
  · simpa only [Function.update_of_ne same] using inv.session o' made' is_session

theorem home_ne (inv : Inv services s home) {o : Object} {n : ℕ} (made : s.made o)
    (is_session : o.isSession) (made' : s.made (.serverSession n)) (ne : n ≠ o.id) :
    home (.serverSession n) ≠ home o := fun same =>
  ne (inv.apart _ _ made' made rfl (Object.tracked_of_session is_session) same)

/-- Another session object for a session without a request to reply to. -/
theorem replace_session (inv : Inv services s home) {o : Object} (made : s.made o)
    (is_session : o.isSession) (idle : s.observed o.id = none) (service : Service) :
    Inv services (s.setObject (home o) (.session service none)) home := by
  refine { inv with
    port := fun o' => inv.port_kept made is_session service none
    session := fun o' => inv.session_kept service none
    quiet := ?_
    busy := ?_ }
  · intro n made' at_n
    by_cases same : home (.serverSession n) = home o
    · exact ⟨service, by simp [State.setObject, same]⟩
    · obtain ⟨service', at_n'⟩ := inv.quiet n made' at_n
      exact ⟨service', by simpa only [State.setObject, Function.update_of_ne same] using at_n'⟩
  · intro n thread request callback at_n
    obtain ⟨made', head, service', at_n', installed⟩ := inv.busy n thread request callback at_n
    have ne : n ≠ o.id := by
      rintro rfl
      exact absurd (idle.symm.trans at_n) (by simp)
    have homes := inv.home_ne made is_session made' ne
    exact ⟨made', head, service', by
      simpa only [State.setObject, Function.update_of_ne homes] using at_n', installed⟩

theorem replace_port (inv : Inv services s home) {o : Object} (made : s.made o)
    (is_port : o.isPort) (name : String) :
    Inv services (s.setObject (home o) (.port name)) home := by
  obtain ⟨name', at_o⟩ := inv.port o made is_port
  have session_home {o' : Object} {service : Service} {callback : Option Callback}
      (at_o' : s.objects (home o') = .session service callback) : home o' ≠ home o := fun same => by
    rw [same, at_o] at at_o'
    cases at_o'
  refine { inv with port := ?_, session := ?_, quiet := ?_, busy := ?_ }
  · intro o' made' is_port'
    by_cases same : home o' = home o
    · exact ⟨name, by simp [State.setObject, same]⟩
    · obtain ⟨name', at_o'⟩ := inv.port o' made' is_port'
      exact ⟨name', by simpa only [State.setObject, Function.update_of_ne same] using at_o'⟩
  · intro o' made' is_session'
    obtain ⟨service', callback, at_o'⟩ := inv.session o' made' is_session'
    exact ⟨service', callback, by
      simpa only [State.setObject, Function.update_of_ne (session_home at_o')] using at_o'⟩
  · intro n made' at_n
    obtain ⟨service', at_n'⟩ := inv.quiet n made' at_n
    exact ⟨service', by
      simpa only [State.setObject, Function.update_of_ne (session_home at_n')] using at_n'⟩
  · intro n thread request callback at_n
    obtain ⟨made', head, service', at_n', installed⟩ := inv.busy n thread request callback at_n
    exact ⟨made', head, service', by
      simpa only [State.setObject, Function.update_of_ne (session_home at_n')] using at_n',
      installed⟩

end Inv

end

end Mikage.HPV
