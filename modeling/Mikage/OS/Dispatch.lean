import Mikage.OS.Session
import Mikage.Lib.Run

/-!
# The dispatcher

One pass of the dispatcher's loop is `dispatch`: it resumes the thread at the front of the ready
queue until that calls the kernel, and runs the call. What the thread's own code does meanwhile, and
which call it makes, is its `Turn`. A run of the emulated system is any sequence of turns from
`boot`; a pass that ends in an exception is its last.
-/

namespace Mikage

open KM

/-- The system calls. -/
inductive Svc where
  | createThread (priority : Nat)
  | setThreadPriority (handle : Handle) (priority : Nat)
  | exitThread
  | sleepThread (duration : Int)
  | createProcess (fake : Bool)
  | run (handle : Handle) (priority : Nat)
  | openProcess (pid : Ref)
  | exitProcess
  | terminateProcess (handle : Handle)
  | createMutex (lock : Bool)
  | releaseMutex (handle : Handle)
  | createSemaphore (initialCount maxCount : Int)
  | releaseSemaphore (handle : Handle) (releaseCount : Int)
  | createEvent (type : ResetType)
  | signalEvent (handle : Handle)
  | clearEvent (handle : Handle)
  | createTimer (type : ResetType)
  | setTimer (handle : Handle) (initial period : Int)
  | createAddressArbiter
  | arbitrateAddress (address : BitVec 32) (type : ArbitrationType) (value memoryValue : BitVec 32)
  | startInterprocessDMA
  /-- Creates a memory block, a code set or a resource limit. -/
  | createOther
  | bindInterrupt (index : Nat) (handle : Handle)
  | closeHandle (handle : Handle)
  | duplicateHandle (handle : Handle)
  | waitSynchronizationN (handles : List Handle) (waitForAll : Bool) (timeout : Int)
  | createPort (name : String) (maxSessions : Int)
  | connectToPort (name : String)
  | createSessionToPort (handle : Handle)
  | createSession
  | acceptSession (handle : Handle)
  | sendSyncRequest (handle : Handle)
  | replyAndReceive (handles : List Handle) (replyTarget : Handle)
  | getSystemTick
  | break
  | other (reschedules : Bool)

def Svc.call (env : Env) (source : Ref) : Svc → KM Unit
  | .createThread priority => svcCreateThread source priority
  | .setThreadPriority handle priority => svcSetThreadPriority source handle priority
  | .exitThread => svcExitThread env source
  | .sleepThread duration => svcSleepThread source duration
  | .createProcess fake => svcCreateProcess source fake
  | .run handle priority => svcRun source handle priority
  | .openProcess pid => svcOpenProcess source pid
  | .exitProcess => svcExitProcess env source
  | .terminateProcess handle => svcTerminateProcess env source handle
  | .createMutex lock => svcCreateMutex source lock
  | .releaseMutex handle => svcReleaseMutex source handle
  | .createSemaphore initialCount maxCount => svcCreateSemaphore source initialCount maxCount
  | .releaseSemaphore handle releaseCount => svcReleaseSemaphore source handle releaseCount
  | .createEvent type => svcCreateEvent source type
  | .signalEvent handle => svcSignalEvent source handle
  | .clearEvent handle => svcClearEvent source handle
  | .createTimer type => svcCreateTimer source type
  | .setTimer handle initial period => svcSetTimer source handle initial period
  | .createAddressArbiter => svcCreateObject source .addressArbiter
  | .arbitrateAddress address type value memoryValue =>
    svcArbitrateAddress env source address type value memoryValue
  | .startInterprocessDMA => svcCreateObject source .dmaObject
  | .createOther => svcCreateObject source .other
  | .bindInterrupt index handle => svcBindInterrupt source index handle
  | .closeHandle handle => svcCloseHandle source handle
  | .duplicateHandle handle => svcDuplicateHandle source handle
  | .waitSynchronizationN handles waitForAll timeout =>
    svcWaitSynchronizationN source handles waitForAll timeout .wait
  | .createPort name maxSessions => svcCreatePort source name maxSessions
  | .connectToPort name => svcConnectToPort source name
  | .createSessionToPort handle => svcCreateSessionToPort source handle
  | .createSession => svcCreateSession source
  | .acceptSession handle => svcAcceptSession source handle
  | .sendSyncRequest handle => svcSendSyncRequest source handle
  | .replyAndReceive handles replyTarget => svcReplyAndReceive env source handles replyTarget
  | .getSystemTick => svcGetSystemTick
  | .break => svcBreak
  | .other reschedules => svcOther reschedules

/-- What a thread does to the kernel without a system call. The emulated hardware raises interrupts;
the rest only the threads of high-level emulated processes do. -/
inductive HostCall where
  | interrupt (index : Nat)
  | attachThread
  /-- `OS::SVCCloseHandle` called directly. -/
  | closeHandle (handle : Handle)
  /-- Takes a reference to an object out of the handle table. -/
  | hold (handle : Handle)

def HostCall.run (t : Ref) : HostCall → KM Unit
  | .interrupt index => notifyInterrupt index
  | .attachThread => do
    let k ← get
    let p := (k.thread t).process
    if !(k.process p).fake then throw (.badCast "FakeProcess")
    let _ ← spawnThread p 0
  | .closeHandle handle => svcCloseHandle t handle
  | .hold handle => do
    let r ← getObject t handle (fun _ => true)
    modifyThread t fun thread => { thread with frame := r :: thread.frame }

structure Turn where
  /-- The interrupts the DSP raises before a thread is selected. -/
  interrupts : List Nat := []
  ticks : Nat := 0
  /-- The references the thread's code gives up. -/
  dropped : List Ref := []
  host : List HostCall := []
  /-- The words written to the command buffer. -/
  tls : List (Nat × Word) := []
  svc : Svc := .other true

def raiseInterrupts : List Nat → KM Unit
  | [] => pure ()
  | index :: l => do notifyInterrupt index; raiseInterrupts l

def runHost (t : Ref) : List HostCall → KM Unit
  | [] => pure ()
  | call :: l => do call.run t; runHost t l

def writeWords (t : Ref) : List (Nat × Word) → KM Unit
  | [] => pure ()
  | w :: l => do writeTLS t w.1 w.2; writeWords t l

/-- Resumes the code of a thread until its next system call, which the dispatcher then runs. -/
def runThread (env : Env) (t : Ref) (turn : Turn) : KM Unit := do
  modifyThread t fun thread => { thread with frame := thread.frame.diff turn.dropped }
  collect
  runHost t turn.host
  writeWords t turn.tls
  elapseTime (nsOfTicks turn.ticks)
  turn.svc.call env t

def Callback.run (env : Env) (t : Ref) : Callback → KM Unit
  | .sendSyncRequest session handle => holding session (sendWhenAccepted t session handle)
  | .sendSyncRequestDone => pure ()
  | .replyAndReceive => receive env t

def dispatchThread (env : Env) (t : Ref) (turn : Turn) : KM Unit := do
  let p := ((← get).thread t).process
  if (← get).dead p then throw (.nullPointer "parent_process")
  holding p do
    setCurrentThread p (some t)
    collect
    let thread := (← get).thread t
    if thread.finished then throw (.runtimeError "The thread's coroutine has returned")
    match thread.callback with
    | none => runThread env t turn
    | some callback =>
      elapseTime 0
      modifyThread t fun thread => { thread with callback := none }
      callback.run env t
    if ((← get).thread t).status = .stopped then triggerThreadDestruction env t

/-- A pass of `EnterExecutionLoop`. -/
def dispatch (env : Env) (turn : Turn) : KM Unit := do
  raiseInterrupts turn.interrupts
  let k ← get
  match k.readyQueue with
  | [] => elapseTime 100000
  | t :: rest =>
    if k.dead t then throw (.nullPointer "next_thread")
    else if (k.thread t).waitList ≠ [] then
      throw (.runtimeError "Threads in the ready queue shouldn't be waiting on anything")
    else if (k.thread t).status ≠ .ready then set { k with readyQueue := rest }
    else
      holding t (dispatchThread env t turn)
      collect

/-- The system when the boot thread (object 1, of process 0) is about to run. -/
def boot : Kernel where
  next := 2
  kind := ⟨[.process, .thread]⟩
  process := ⟨[{ fake := true, threads := [1], table := [(handleCurrentProcess, 0)] }]⟩
  thread := ⟨[{}, { process := 0, status := .ready, finished := false }]⟩
  threads := [1]
  readyQueue := [1]
  processHandles := [0]

/-- A pass that ends without an exception. -/
def Step (env : Env) (k k' : Kernel) : Prop := ∃ turn, dispatch env turn k = .ok () k'

/-- The states between the passes of the runs of the system. -/
abbrev Reached (env : Env) : Kernel → Prop := Run.Reachable (· = boot) (Step env)

end Mikage
