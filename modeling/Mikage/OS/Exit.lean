import Mikage.OS.Schedule

/-!
# Closing handles, exiting threads and processes

`closeHandle` returns what an object still holds, if this was the last reference to it. A thread that
exits releases its mutexes, leaves its wait and the ready queue, and unwinds its stack; its entries in
the waiting queue and in the queues of client sessions stay.
-/

namespace Mikage

open KM

/-- `Mutex::IsOwner`. -/
def Kernel.isOwner (k : Kernel) (m t : Ref) : Bool :=
  (k.mutex m).lockCount ≠ 0 && k.lock (k.mutex m).owner = some t

/-- `Mutex::Release`. -/
def releaseMutex (m : Ref) : KM Unit := do
  validate (((← get).mutex m).lockCount ≠ 0) "lock_count"
  modify fun k => { k with mutex := k.mutex.modify m (fun mutex =>
    { lockCount := mutex.lockCount - 1,
      owner := if mutex.lockCount - 1 = 0 then none else mutex.owner }) }

/-- A closed client session: the server sees that the session has no client any more. -/
def closeClientSession (cs : Ref) : KM Unit := do
  let session := ((← get).clientSession cs).session
  modify fun k => { k with session := k.session.modify session (fun session =>
    { session with client := none }) }
  let k ← get
  match k.lock (k.session session).server with
  | some ss => onResourceReady ss
  | none => pure ()

/-- A closed server session gives its slot back to the port. -/
def closeServerSession (ss : Ref) : KM Unit := do
  match ((← get).serverSession ss).port with
  | none => pure ()
  | some p =>
    holding p do
      modify fun k => { k with serverPort := k.serverPort.modify p (fun port =>
        { port with availableSessions := (port.availableSessions + 1) % 2 ^ 32 }) }
      onResourceReady p
      let k ← get
      match k.lock (k.port (k.serverPort p).port).client with
      | some clientPort => onResourceReady clientPort
      | none => pure ()

def closeHandle (source : Ref) (handle : Handle) : KM Unit := do
  let k ← get
  if k.dead (k.thread source).process then throw (.nullPointer "parent_process")
  match k.lookup source handle with
  -- 3dscraft workaround
  | none => pure ()
  | some r =>
    let useCount := k.useCount r
    holding r do
      match k.kind r with
      | .clientSession => if useCount = 1 then closeClientSession r
      | .serverSession => if useCount = 1 then closeServerSession r
      | .mutex =>
        if k.isOwner r source then
          releaseMutex r
          onResourceReady r
      | _ => pure ()
    emit (.closed r useCount ((← get).handleCount r))
    modifyProcess (k.thread source).process fun process =>
      { process with table := removeEntry process.table handle }
    collect

def svcCloseHandle (source : Ref) (handle : Handle) : KM Unit := do
  closeHandle source handle
  reschedule

/-- The client sessions in whose queues `t` stands. -/
def Kernel.queuedSessions (k : Kernel) (t : Ref) : List Ref :=
  (List.range k.next).filter fun cs => (k.clientSession cs).threads.contains t

/-- Releases the mutexes of `t` among the entries of a handle table. -/
def releaseOwned (t : Ref) : List (Handle × Ref) → KM Unit
  | [] => pure ()
  | entry :: l => do
    let k ← get
    if k.kind entry.2 = .mutex ∧ k.isOwner entry.2 t then
      releaseMutex entry.2
      if ((← get).mutex entry.2).lockCount ≠ 0 then
        throw (.runtimeError "Need recursive mutex release on thread exit")
      onResourceReady entry.2
    releaseOwned t l

def exitThread (env : Env) (t : Ref) : KM Unit := do
  let k ← get
  if (k.thread t).status = .stopped then pure ()
  else
    releaseOwned t (env.order (k.handleTable t))
    unregisterAll t ((← get).thread t).waitList
    setCurrentThread (k.thread t).process none
    emit (.stopped t ((← get).queuedSessions t))
    modifyThread t fun thread => { thread with
      waitList := [], status := .stopped, frame := [], callback := none, finished := true }
    removeFromReadyQueue t
    collect
    onResourceReady t

/-- Closes the handles of the process of `t` until none is left. -/
def closeAllHandles (env : Env) (t : Ref) : Nat → KM Unit
  | 0 => pure ()
  | n + 1 => do
    match (env.order ((← get).handleTable t)).head? with
    | none => pure ()
    | some entry => closeHandle t entry.1; closeAllHandles env t n

def triggerThreadDestruction (env : Env) (t : Ref) : KM Unit := do
  let p := ((← get).thread t).process
  holding t do
    holding p do
      modifyProcess p fun process => { process with threads := process.threads.erase t }
      modify fun k => { k with threads := k.threads.erase t }
      if ((← get).process p).threads = [] then
        modifyProcess p fun process => { process with status := .stopping }
        modify fun k => { k with processHandles := k.processHandles.erase p }
        closeAllHandles env t ((← get).process p).table.length
        onResourceReady p
  collect

/-- Exits every other thread of the process of `source`. -/
def exitOthers (env : Env) (source : Ref) : Nat → KM Unit
  | 0 => pure ()
  | n + 1 => do
    let k ← get
    match (k.process (k.thread source).process).threads.find? (· ≠ source) with
    | none => pure ()
    | some t =>
      exitThread env t
      triggerThreadDestruction env t
      exitOthers env source n

def svcExitProcess (env : Env) (source : Ref) : KM Unit := do
  let k ← get
  exitOthers env source (k.process (k.thread source).process).threads.length
  exitThread env source
  reschedule

def svcExitThread (env : Env) (source : Ref) : KM Unit := do
  exitThread env source
  reschedule

def exitThreads (env : Env) : List Ref → KM Unit
  | [] => pure ()
  | t :: l => do exitThread env t; exitThreads env l

/-- Destroys the threads of `p` from the front. -/
def destroyThreads (env : Env) (p : Ref) : Nat → KM Unit
  | 0 => pure ()
  | n + 1 => do
    match ((← get).process p).threads with
    | [] => pure ()
    | t :: _ => triggerThreadDestruction env t; destroyThreads env p n

def svcTerminateProcess (env : Env) (source : Ref) (handle : Handle) : KM Unit := do
  let p ← getObject source handle (· = .process)
  let k ← get
  if p = (k.thread source).process then
    throw (.invalid "Attempted to terminate a process from itself")
  if (k.process p).status = .stopping then
    throw (.invalid "Attempted to terminate process that was already stopping")
  holding p do
    exitThreads env (k.process p).threads
    match ((← get).process p).threads with
    | [] => throw (.nullPointer "process->threads.front()")
    | _ :: l => destroyThreads env p (l.length + 1)
  collect

end Mikage
