import Mikage.OS.Lifetime

/-!
# Waiting for objects

A thread that waits is an observer of each object it waits for. `onResourceReady` hands a ready
object to its observers in order and stops at the first one that cannot acquire it.
-/

namespace Mikage

open KM

/-- `GetTimeInNanoSeconds`; the product is 64 bits wide. -/
def Kernel.now (k : Kernel) : Nat := k.systemTick * 62500000 % 2 ^ 64 / 16756991

def Timer.expired (timer : Timer) (currentTime : Nat) : Bool :=
  timer.active && timer.timeoutTimeNs ≤ currentTime

def runTimer (s : Ref) (timeoutTime period : Nat) : KM Unit :=
  modify fun k => { k with timer := k.timer.modify s (fun timer =>
    { timer with timeoutTimeNs := timeoutTime, periodNs := period, active := true }) }

def lockMutex (s t : Ref) : KM Bool := do
  let lockCount := ((← get).mutex s).lockCount
  if lockCount + 1 = 2 ^ 32 then emit (.overflow s)
  modify fun k => { k with mutex := k.mutex.set s ⟨(lockCount + 1) % 2 ^ 32, some t⟩ }
  pure true

/-- `TryAcquireImpl` of the class of `s`. -/
def tryAcquireImpl (s t : Ref) : KM Bool := do
  let k ← get
  match k.kind s with
  | .thread => pure (decide ((k.thread s).status = .stopped))
  | .process => pure ((k.process s).threads.all (fun t => decide ((k.thread t).status = .stopped))
      && decide ((k.process s).status ≠ .created))
  | .serverPort => pure (!(k.serverPort s).sessionQueue.isEmpty)
  | .serverSession =>
    match k.lock (k.session (k.serverSession s).session).client with
    | none => pure true
    | some _ =>
      if (k.serverSession s).ipcCommandsPending ≠ 0 then
        set { k with serverSession := k.serverSession.modify s (fun ss =>
          { ss with ipcCommandsPending := ss.ipcCommandsPending - 1 }) }
        emit (.claimed t s)
        pure true
      else pure false
  | .clientPort =>
    match k.lock (k.port (k.clientPort s).port).server with
    | none => throw (.runtimeError "Client port has no server endpoint")
    | some server => pure (decide ((k.serverPort server).availableSessions ≠ 0))
  | .clientSession => pure (!(k.clientSession s).threads.contains t)
  | .mutex =>
    if (k.mutex s).lockCount ≠ 0 then
      match k.lock (k.mutex s).owner with
      | none => throw (.runtimeError "Mutex still locked but owning thread was destroyed")
      | some owner => if owner ≠ t then pure false else lockMutex s t
    else lockMutex s t
  | .semaphore =>
    validate ((k.semaphore s).availableCount ≥ 0) "available_count >= 0"
    if (k.semaphore s).availableCount = 0 then pure false
    else
      set { k with semaphore := k.semaphore.modify s (fun sema =>
        { sema with availableCount := sema.availableCount - 1 }) }
      pure true
  | .event =>
    if !(k.event s).signalled then pure false
    else
      match (k.event s).type with
      | .oneShot =>
        set { k with event := k.event.modify s (fun event => { event with signalled := false }) }
        pure true
      | .sticky => pure true
      | .pulse =>
        throw (.runtimeError "Event shouldn't have a type different than OneShot and Sticky")
  | .timer =>
    if !(k.timer s).expired k.now then pure false
    else
      match (k.timer s).type with
      | .oneShot =>
        set { k with timer := k.timer.modify s (fun timer => { timer with active := false }) }
        pure true
      | .sticky => pure true
      | .pulse =>
        runTimer s ((k.now + (k.timer s).periodNs) % 2 ^ 64) (k.timer s).periodNs
        pure true
  | .dmaObject => pure true
  | .none | .port | .session | .addressArbiter | .other =>
    throw (.runtimeError "This should never be called!")

def registerObserver (s t : Ref) : KM Unit :=
  modify fun k => { k with observers := k.observers.modify s (· ++ [t]) }

/-- `Unregister`: takes out the first entry of `t`, which must exist. -/
def unregister (s t : Ref) : KM Unit := do
  validate ((← get).observers s |>.contains t) "it != observers.end()"
  modify fun k => { k with observers := k.observers.modify s (·.erase t) }

def unregisterAll (t : Ref) : List Ref → KM Unit
  | [] => pure ()
  | s :: l => do unregister s t; unregisterAll t l

def tryAcquire (s t : Ref) : KM Bool := do
  if ← tryAcquireImpl s t then
    unregister s t
    pure true
  else pure false

/-- Takes every entry of `t` out of the ready queue. -/
def removeFromReadyQueue (t : Ref) : KM Unit :=
  modify fun k => { k with readyQueue := k.readyQueue.filter (· ≠ t) }

def onResourceAcquired (t s : Ref) : KM Unit := do
  let thread := (← get).thread t
  validate (thread.status = .sleeping) "status == Thread::Status::Sleeping"
  if !thread.waitList.contains s then
    throw (.runtimeError "Given resource was not being waited for")
  let rest := thread.waitList.erase s
  modifyThread t fun thread => { thread with
    wakeIndex := thread.waitList.idxOf s, wokenObject := some s, waitList := rest }
  if !thread.waitForAll || rest.isEmpty then
    if !thread.waitForAll then unregisterAll t rest
    modifyThread t fun thread => { thread with waitList := [], status := .ready }
    modify fun k => { k with readyQueue := t :: k.readyQueue }
    emit (.woken t (.resource s))
  collect

/-- The loop of `OnResourceReady`: each pass takes an observer out of the list, or is the last. -/
def onResourceReadyWithin : Nat → Ref → KM Unit
  | 0, _ => pure ()
  | n + 1, s => do
    let k ← get
    match k.observers s with
    | [] => pure ()
    | t :: rest =>
      if k.dead t then
        set { k with observers := k.observers.set s rest }
        onResourceReadyWithin n s
      else
        validate ((k.thread t).status = .sleeping) "thread->status == Thread::Status::Sleeping"
        if ← tryAcquire s t then
          onResourceAcquired t s
          onResourceReadyWithin n s

def onResourceReady (s : Ref) : KM Unit :=
  holding s do onResourceReadyWithin ((← get).observers s).length s

end Mikage
