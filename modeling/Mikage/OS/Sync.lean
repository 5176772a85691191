import Mikage.OS.Exit

/-!
# Processes, threads and synchronization objects

The system calls that create and signal objects. Calls that only touch memory or report a value are
`svcOther` (with or without a rescheduling at their end).
-/

namespace Mikage

open KM

/-- `Mikage::Exceptions::Invalid("Kernel panic:")`. -/
def svcBreak {α : Type} : KM α := throw (.invalid "Kernel panic:")

/-! ## Processes and threads -/

/-- A new thread, registered with its process and the scheduler. -/
def spawnThread (p : Ref) (priority : Nat) : KM Ref := do
  let t ← newObject .thread
  modifyThread t fun _ =>
    { process := p, priority := priority, status := .ready, finished := false }
  modifyProcess p fun process => { process with threads := process.threads ++ [t] }
  modify fun k => { k with threads := k.threads ++ [t], readyQueue := k.readyQueue ++ [t] }
  pure t

def svcCreateThread (source : Ref) (priority : Nat) : KM Unit := do
  let k ← get
  let p := (k.thread source).process
  if (k.process p).fake then throw (.badCast "EmuProcess")
  let t ← spawnThread p priority
  let _ ← createHandleFor source t
  -- `SpawnThread` has registered the thread already
  modify fun k => { k with threads := k.threads ++ [t] }
  reschedule

def svcSetThreadPriority (source : Ref) (handle : Handle) (priority : Nat) : KM Unit := do
  let t ← getObject source handle (· = .thread)
  modifyThread t fun thread => { thread with priority := priority }

/-- A process in the state `SVCCreateProcess` leaves it in; the source runs it later. -/
def svcCreateProcess (source : Ref) (fake : Bool) : KM Unit := do
  let p ← newObject .process
  modifyProcess p fun _ =>
    { fake := fake, table := if fake then [(handleCurrentProcess, p)] else [] }
  modify fun k => { k with processHandles := k.processHandles ++ [p] }
  let _ ← createHandleFor source p
  reschedule

def svcRun (source : Ref) (handle : Handle) (priority : Nat) : KM Unit := do
  let p ← getObject source handle (· = .process)
  let process := (← get).process p
  emit (.ran p process.status)
  if process.fake then
    let _ ← spawnThread p priority
    modifyProcess p fun process => { process with status := .running }
  else
    if process.status ≠ .created then
      throw (.invalid "Called SVCRun on a process that was already active")
    if (process.table.find? (·.1 = handleCurrentProcess)).isSome then
      throw (.runtimeError "Handle already in table!")
    setEntry p handleCurrentProcess (some p)
    let _ ← spawnThread p priority
    modifyProcess p fun process => { process with status := .running }
    reschedule

def svcOpenProcess (source : Ref) (pid : Ref) : KM Unit := do
  if (← get).processHandles.contains pid then
    let _ ← createHandleFor source pid
  else throw (.runtimeError "Couldn't find any process with pid")

def svcDuplicateHandle (source : Ref) (handle : Handle) : KM Unit := do
  let r ← getObject source handle (fun _ => true)
  let _ ← createHandle ((← get).thread source).process r
  reschedule

/-! ## Synchronization objects -/

def svcCreateMutex (source : Ref) (lock : Bool) : KM Unit := do
  let m ← newObject .mutex
  modify fun k => { k with mutex := k.mutex.set m ⟨if lock then 1 else 0, some source⟩ }
  let _ ← createHandleFor source m
  reschedule

def svcReleaseMutex (source : Ref) (handle : Handle) : KM Unit := do
  let m ← getObject source handle (· = .mutex)
  if !(← get).isOwner m source then
    throw (.runtimeError "Mutex not owned by the current thread")
  releaseMutex m
  if ((← get).mutex m).lockCount = 0 then onResourceReady m
  reschedule

def svcCreateSemaphore (source : Ref) (initialCount maxCount : Int) : KM Unit := do
  -- 0xe0e01bfd and 0xd90007ee
  if initialCount < 0 ∨ maxCount < initialCount then pure ()
  else
    let s ← newObject .semaphore
    modify fun k => { k with semaphore := k.semaphore.set s ⟨initialCount, maxCount⟩ }
    let _ ← createHandleFor source s
    reschedule

/-- `Semaphore::Release`; 0xe0e01bfd and 0xd8e007fd leave the count alone. -/
def releaseSemaphore (s : Ref) (times : Int) : KM Unit := do
  let sema := (← get).semaphore s
  if times < 0 ∨ sema.maxAvailable - times < sema.availableCount then pure ()
  else
    modify fun k => { k with semaphore := k.semaphore.modify s (fun sema =>
      { sema with availableCount := sema.availableCount + times }) }

def svcReleaseSemaphore (source : Ref) (handle : Handle) (releaseCount : Int) : KM Unit := do
  let s ← getObject source handle (· = .semaphore)
  releaseSemaphore s releaseCount
  onResourceReady s
  reschedule

def svcCreateEvent (source : Ref) (type : ResetType) : KM Unit := do
  if type = .pulse then svcBreak
  let s ← newObject .event
  modify fun k => { k with event := k.event.set s { type := type } }
  let _ ← createHandleFor source s
  reschedule

def svcSignalEvent (source : Ref) (handle : Handle) : KM Unit := do
  match ← findObject source handle (· = .event) true with
  | none => throw (.invalid "Attempted to signal invalid event")
  | some s =>
    holding s (signalEvent s)
    reschedule

def svcClearEvent (source : Ref) (handle : Handle) : KM Unit := do
  match ← findObject source handle (· = .event) true with
  | none => throw (.invalid "Passed invalid event handle to SVCClearEvent")
  | some s =>
    modify fun k => { k with event := k.event.modify s (fun event =>
      { event with signalled := false }) }
    reschedule

def svcCreateTimer (source : Ref) (type : ResetType) : KM Unit := do
  let s ← newObject .timer
  modify fun k => { k with timer := k.timer.set s { type := type } }
  let _ ← createHandleFor source s
  modify fun k => { k with activeTimers := k.activeTimers ++ [s] }
  reschedule

def svcSetTimer (source : Ref) (handle : Handle) (initial period : Int) : KM Unit := do
  let s ← getObject source handle (· = .timer)
  if initial < 0 ∨ period < 0 then svcBreak
  runTimer s ((← get).after initial) period.toNat
  if ((← get).timer s).expired (← get).now then onResourceReady s
  reschedule

/-- `SVCCreateAddressArbiter` and the calls that create an object no thread can wait for; the DMA
object of `SVCStartInterprocessDMA` can be waited for. -/
def svcCreateObject (source : Ref) (kind : Kind) : KM Unit := do
  let r ← newObject kind
  let _ ← createHandleFor source r
  reschedule

def svcBindInterrupt (source : Ref) (index : Nat) (handle : Handle) : KM Unit := do
  let s ← getObject source handle (· = .event)
  modify fun k => { k with boundInterrupts := k.boundInterrupts.modify index (· ++ [s]) }
  reschedule

def svcGetSystemTick : KM Unit :=
  modify fun k => { k with systemTick := (k.systemTick + 1000) % 2 ^ 64 }

def svcOther (reschedules : Bool) : KM Unit := if reschedules then reschedule else pure ()

/-! ## The address arbiter -/

inductive ArbitrationType where
  | signal | acquire | decrementAndAcquire | acquireWithTimeout | decrementAndAcquireWithTimeout
  deriving DecidableEq, Repr

/-- The threads waiting for arbitration on an address, in the order of the thread list. -/
def Kernel.waitingForArbitration (k : Kernel) (address : BitVec 32) : List Ref :=
  k.threads.filter fun t => !k.dead t && (k.thread t).status = .waitingForArbitration &&
    (k.thread t).arbitrationAddress = address

def wakeArbitrated (address : BitVec 32) : List Ref → KM Unit
  | [] => pure ()
  | t :: l => do
    let status := ((← get).thread t).status
    modifyThread t fun thread => { thread with status := .ready }
    modify fun k => { k with readyQueue := k.readyQueue ++ [t] }
    if status = .waitingForArbitration then emit (.woken t (.signal address))
    emit (.signalled t status)
    wakeArbitrated address l

/-- `SVCArbitrateAddress`; `memoryValue` is the word at `address`. -/
def svcArbitrateAddress (env : Env) (source : Ref) (address : BitVec 32) (type : ArbitrationType)
    (value memoryValue : BitVec 32) : KM Unit := do
  modifyThread source fun thread => { thread with promisedResult := 0 }
  match type with
  | .signal =>
    let k ← get
    let threadsWaiting := k.waitingForArbitration address
    let threadsToWake := min value.toNat threadsWaiting.length
    let ordered := env.nthElement (fun t => (k.thread t).priority) threadsToWake threadsWaiting
    wakeArbitrated address (ordered.take threadsToWake)
  | _ =>
    if memoryValue.toInt < value.toInt then
      modifyThread source fun thread => { thread with timeoutAt := noTimeout }
      if type = .acquireWithTimeout ∨ type = .decrementAndAcquireWithTimeout then svcBreak
      modifyThread source fun thread => { thread with arbitrationAddress := address }
      block source .waitingForArbitration (.arbitration address)
      reschedule
  reschedule

end Mikage
