import Mikage.OS.Sync

/-!
# Ports, sessions and IPC

A request stands in the queue of its client session from `svcSendSyncRequest` to the reply. The
server session only counts the commands that are ready, and both receiving and replying take the
client at the front of the queue. A client whose session has not been accepted yet comes back to
`sendWhenAccepted` each time it is dispatched.
-/

namespace Mikage

open KM

/-! ## Ports and sessions -/

def svcCreatePort (source : Ref) (name : String) (maxSessions : Int) : KM Unit := do
  if maxSessions < 0 then svcBreak
  let port ← newObject .port
  let server ← newObject .serverPort
  let client ← newObject .clientPort
  modify fun k => { k with
    port := k.port.set port { server := some server, client := some client },
    serverPort := k.serverPort.set server { port := port, availableSessions := maxSessions.toNat },
    clientPort := k.clientPort.set client { port := port } }
  emit (.portCreated server maxSessions.toNat)
  modifyThread source fun thread => { thread with frame := server :: client :: thread.frame }
  let k ← get
  if name ≠ "" ∧ k.ports.all (·.1 ≠ name) then
    set { k with ports := k.ports ++ [(name, port)] }
  let p := (k.thread source).process
  let _ ← createHandle p server
  let _ ← createHandle p client
  reschedule

/-- Takes a slot of the port for a new session and offers the session to the port. -/
def openSession (source server : Ref) : KM Unit :=
  holding server do
    modify fun k => { k with serverPort := k.serverPort.modify server (fun port =>
      { port with availableSessions := port.availableSessions - 1 }) }
    let session ← newObject .session
    let clientSession ← newObject .clientSession
    modify fun k => { k with
      session := k.session.set session { client := some clientSession },
      clientSession := k.clientSession.set clientSession { session := session } }
    let _ ← createHandleFor source clientSession
    modify fun k => { k with serverPort := k.serverPort.modify server (fun port =>
      { port with sessionQueue := port.sessionQueue ++ [session] }) }
    onResourceReady server

def svcConnectToPort (source : Ref) (name : String) : KM Unit := do
  let k ← get
  match k.ports.find? (·.1 = name) with
  -- 0xd88007fa
  | none => reschedule
  | some entry =>
    match k.lock (k.port entry.2).server with
    | none => svcBreak
    | some server =>
      -- 0xd0401834
      if (k.serverPort server).availableSessions = 0 then pure () else openSession source server

def svcCreateSessionToPort (source : Ref) (handle : Handle) : KM Unit := do
  let clientPort ← getObject source handle (· = .clientPort)
  let k ← get
  match k.lock (k.port (k.clientPort clientPort).port).server with
  | none => throw (.nullPointer "server_port")
  | some server =>
    if (k.serverPort server).availableSessions = 0 then pure () else openSession source server

def svcCreateSession (source : Ref) : KM Unit := do
  let session ← newObject .session
  let server ← newObject .serverSession
  let client ← newObject .clientSession
  modify fun k => { k with
    session := k.session.set session { server := some server, client := some client },
    serverSession := k.serverSession.set server { session := session },
    clientSession := k.clientSession.set client { session := session } }
  modifyThread source fun thread => { thread with frame := server :: client :: thread.frame }
  let p := ((← get).thread source).process
  let _ ← createHandle p server
  let _ ← createHandle p client
  reschedule

def svcAcceptSession (source : Ref) (handle : Handle) : KM Unit := do
  let port ← getObject source handle (· = .serverPort)
  match ((← get).serverPort port).sessionQueue with
  | [] => throw (.invalid "Attempted to accept nonexisting session")
  | session :: queue =>
    let ss ← newObject .serverSession
    modify fun k => { k with
      serverPort := k.serverPort.modify port (fun port => { port with sessionQueue := queue }),
      serverSession := k.serverSession.set ss { session := session, port := some port } }
    let k ← get
    if (k.lock (k.session session).client).isNone then onResourceReady ss
    modify fun k => { k with session := k.session.modify session (fun session =>
      { session with server := some ss }) }
    let _ ← createHandleFor source ss
    reschedule

/-! ## Translation of messages -/

/-- Word `i` of the command buffer, which starts at offset 0x80 of the thread local storage. -/
def writeTLS (t : Ref) (i : Nat) (w : Word) : KM Unit :=
  modify fun k => { k with tls := k.tls.modify t (fun buffer => buffer.set i w) }

/-- A bit field of a command word. -/
def bits (w : Word) (first count : Nat) : Nat := w.toNat / 2 ^ first % 2 ^ count

/-- Clears the words behind the normal parameters. -/
def clearWords (dest : Ref) : List Nat → KM Unit
  | [] => pure ()
  | i :: l => do writeTLS dest i 0; clearWords dest l

def copyWords (source dest : Ref) : List Nat → KM Unit
  | [] => pure ()
  | i :: l => do writeTLS dest i ((← get).tls source i); copyWords source dest l

/-- Translates the handle in word `i`. -/
def translateHandle (source dest : Ref) (close : Bool) (i : Nat) : KM Unit := do
  let sourceHandle := ((← get).tls source i).toNat
  if sourceHandle = handleInvalid then writeTLS dest i 0
  else
    let k ← get
    -- the handle tables are members of the processes the threads refer to
    if k.dead (k.thread source).process ∨ k.dead (k.thread dest).process then
      throw (.nullPointer "parent_process")
    let object ← getObject source sourceHandle (fun _ => true)
    if (← get).kind object = .addressArbiter then
      throw (.runtimeError "Attempting to transfer address arbiter via IPC")
    holding object do
      let handle ← createHandle ((← get).thread dest).process object
      -- the entry `CreateHandle` returns is a second reference
      holding object do
        if close then svcCloseHandle source sourceHandle
        writeTLS dest i (BitVec.ofNat 32 handle)

/-- Translates the `n` words of a handle descriptor from word `i` on. -/
def translateHandles (source dest : Ref) (close fillProcessId : Bool) : Nat → Nat → KM Unit
  | 0, _ => pure ()
  | n + 1, i => do
    if fillProcessId then
      writeTLS dest i (BitVec.ofNat 32 ((← get).thread source).process)
    else translateHandle source dest close i
    translateHandles source dest close fillProcessId n (i + 1)

/-- Translates the parameters from word `i` to `last`; each descriptor takes at least one word. -/
def translateParams (env : Env) (source dest : Ref) (isReply : Bool) (last : Nat) :
    Nat → List Word → Nat → KM Unit
  | 0, _, _ => pure ()
  | n + 1, earlier, i => do
    if last ≤ i then pure ()
    else
      let k ← get
      let descriptor := k.tls source i
      writeTLS dest i descriptor
      match bits descriptor 1 3 with
      | 0 =>
        let close := bits descriptor 4 1 = 1
        let fillProcessId := bits descriptor 5 1 = 1
        if close ∧ fillProcessId then
          throw (.runtimeError "Attempting to close handle on process id")
        let count := bits descriptor 26 6 + 1
        translateHandles source dest close fillProcessId count (i + 1)
        translateParams env source dest isReply last n (earlier ++ [descriptor]) (i + 1 + count)
      | 4 => throw (.runtimeError "Unknown IPC descriptor type")
      | _ =>
        match env.translateBuffer k source dest isReply earlier descriptor (k.tls source (i + 1)) with
        | none => throw (.runtimeError "Failed to translate an IPC buffer")
        | some words =>
          writeTLS dest i words.1
          writeTLS dest (i + 1) words.2
          translateParams env source dest isReply last n (earlier ++ [descriptor]) (i + 2)

def translateIPCMessage (env : Env) (source dest : Ref) (isReply : Bool) : KM Unit := do
  let header := (← get).tls source 0
  let normal := bits header 6 6
  let size := bits header 0 6
  clearWords dest (List.range' (normal + 1) (0x3f - normal))
  copyWords source dest (List.range (normal + 1))
  translateParams env source dest isReply (1 + normal + size) size [] (1 + normal)

/-! ## Requests -/

def runWhenReady (t : Ref) (callback : Callback) : KM Unit := do
  validate (((← get).thread t).callback = none) "!thread.callback_for_svc"
  modifyThread t fun thread => { thread with callback := some callback }

/-- `ServerSession::CommandReady`. -/
def commandReady (ss : Ref) : KM Unit := do
  let pending := ((← get).serverSession ss).ipcCommandsPending
  if pending + 1 = 2 ^ 32 then emit (.overflow ss)
  modify fun k => { k with serverSession := k.serverSession.modify ss (fun session =>
    { session with ipcCommandsPending := (pending + 1) % 2 ^ 32 }) }

/-- The part of `SVCSendSyncRequest` that waits for the session to be accepted. -/
def sendWhenAccepted (t session : Ref) (handle : Handle) : KM Unit := do
  let k ← get
  match k.lock (k.session (k.clientSession session).session).server with
  | none =>
    reschedule
    runWhenReady t (.sendSyncRequest session handle)
  | some ss =>
    holding ss do
      commandReady ss
      emit (.announced t ss)
      onResourceReady ss
      svcWaitSynchronizationN t [handle] false (-1) (.reply session)
      runWhenReady t .sendSyncRequestDone

def svcSendSyncRequest (source : Ref) (handle : Handle) : KM Unit := do
  match ← findObject source handle (· = .clientSession) true with
  | none => modifyThread source fun thread => { thread with promisedResult := 0xdeadbef4 }
  | some session =>
    modify fun k => { k with clientSession := k.clientSession.modify session (fun clientSession =>
      { clientSession with threads := clientSession.threads ++ [source] }) }
    emit (.requested source session)
    modifyThread source fun thread => { thread with promisedResult := 0 }
    holding session (sendWhenAccepted source session handle)

/-! ## ReplyAndReceive -/

/-- `ClientSession::SetReady`. -/
def setReady (session t : Ref) : KM Unit := do
  if !((← get).clientSession session).threads.contains t then
    throw (.runtimeError "Thread set ready despite not being in the wait list")
  modify fun k => { k with clientSession := k.clientSession.modify session (fun clientSession =>
    { clientSession with threads := clientSession.threads.erase t }) }

/-- Another thread waits for the client session before all entries of `t` are through. -/
def Kernel.late (k : Kernel) (session t : Ref) : Bool :=
  ((k.waiting session).dropWhile (· = t)).contains t

/-- The reply of `SVCReplyAndReceive`. -/
def reply (env : Env) (source : Ref) (replyTarget : Handle) : KM Unit := do
  let ss ← getObject source replyTarget (· = .serverSession)
  emit (.replying source ss)
  let k ← get
  match k.lock (k.session (k.serverSession ss).session).client with
  | none => throw (.contractViolated "client_session && !client_session->threads.empty()")
  | some session =>
    match (k.clientSession session).threads with
    | [] => throw (.contractViolated "client_session && !client_session->threads.empty()")
    | clientThread :: _ =>
      if k.dead clientThread then throw (.contractViolated "client_thread")
      holding ss do
        holding session do
          holding clientThread do
            translateIPCMessage env source clientThread true
            setReady session clientThread
            emit (.replied source ss session clientThread ((← get).late session clientThread))
            onResourceReady session
      collect

/-- The part of `SVCReplyAndReceive` behind its wait. -/
def receive (env : Env) (t : Ref) : KM Unit := do
  let k ← get
  if (k.thread t).promisedResult ≠ 0 then pure ()
  else
    match k.lock (k.thread t).wokenObject with
    | none => pure ()
    | some ss =>
      if k.kind ss ≠ .serverSession then pure ()
      else
        match k.lock (k.session (k.serverSession ss).session).client with
        | none => modifyThread t fun thread => { thread with promisedResult := 0xc920181a }
        | some session =>
          match (k.clientSession session).threads with
          | [] => throw (.contractViolated "!client_session->threads.empty()")
          | clientThread :: _ =>
            if k.dead clientThread then throw (.contractViolated "client_thread")
            holding ss do
              holding session do
                holding clientThread do
                  emit (.received t ss session clientThread)
                  translateIPCMessage env clientThread t false
            collect

def svcReplyAndReceive (env : Env) (source : Ref) (handles : List Handle) (replyTarget : Handle) :
    KM Unit := do
  modifyThread source fun thread => { thread with promisedResult := 0, timeoutAt := noTimeout }
  if bits ((← get).tls source 0) 16 16 ≠ 0xFFFF ∧ replyTarget ≠ handleInvalid then
    reply env source replyTarget
  if handles = [] then pure ()
  else
    svcWaitSynchronizationN source handles false (-1) .receive
    runWhenReady source .replyAndReceive

end Mikage
