import Mikage.OS.HandleTable

/-!
# Time and the ready queue

`elapseTime` advances the clock and wakes what has become due: timers, the periodic interrupts and
the entries of the waiting queue. An entry of the waiting queue is only a thread; whether it is due
is read from the thread's `timeoutAt`, whatever wait that belongs to.
-/

namespace Mikage

open KM

/-- `duration_cast<ticks>` of nanoseconds. -/
def ticksOfNs (ns : Nat) : Nat := ns * 16756991 % 2 ^ 64 / 62500000

/-- `duration_cast<nanoseconds>` of ticks. -/
def nsOfTicks (ticks : Nat) : Nat := ticks * 62500000 % 2 ^ 64 / 16756991

/-- `duration_cast<vblanks_per_sec>` of ticks. -/
def vblanksOfTicks (ticks : Nat) : Nat := ticks / (24 * 451 * 414)

def signalEvent (s : Ref) : KM Unit := do
  modify fun k => { k with event := k.event.modify s (fun event => { event with signalled := true }) }
  onResourceReady s

/-- The events bound to an interrupt, signalled in order. -/
def signalBound : List Ref → KM Unit
  | [] => pure ()
  | s :: l => do
    if (← get).dead s then throw (.nullPointer "locked_observer")
    holding s (signalEvent s)
    collect
    signalBound l

def notifyInterrupt (index : Nat) : KM Unit := do signalBound ((← get).boundInterrupts index)

/-- Wakes what waits for timers that have expired at `ns`. -/
def fireTimers (ns : Nat) : List Ref → KM Unit
  | [] => pure ()
  | s :: l => do
    let k ← get
    if !k.dead s && (k.timer s).expired ns then
      onResourceReady s
      collect
    fireTimers ns l

/-- What the scan of the waiting queue does to a due thread. -/
def expire (t : Ref) : KM Unit := do
  let thread := (← get).thread t
  if thread.status = .sleeping then
    modifyThread t fun thread => { thread with promisedResult := 0x09401BFE }
    unregisterAll t thread.waitList
    modifyThread t fun thread => { thread with waitList := [] }
  modifyThread t fun thread => { thread with status := .ready }
  modify fun k => { k with readyQueue := k.readyQueue ++ [t] }
  let now := (← get).now
  emit (if thread.status = .sleeping ∨ thread.status = .waitingForTimeout
    then .woken t (.timeout now) else .stale t thread.status)

/-- The scan of the waiting queue; the entries `kept` are behind it. -/
def scanWaitingQueue (kept : List Ref) : List Ref → KM Unit
  | [] => pure ()
  | t :: rest => do
    let k ← get
    if k.dead t then
      set { k with waitingQueue := kept ++ rest }
      scanWaitingQueue kept rest
    else if (k.thread t).timeoutAt ≤ k.now then
      expire t
      modify fun k => { k with waitingQueue := kept ++ rest }
      collect
      scanWaitingQueue kept rest
    else scanWaitingQueue (kept ++ [t]) rest

/-- The waiting threads a timer should have woken. -/
def Kernel.missedTimers (k : Kernel) : List (Ref × Ref) :=
  (List.range k.next).flatMap fun s =>
    if k.kind s = .timer ∧ (k.timer s).expired k.now then (k.waiting s).map (·, s) else []

def elapseTime (ns : Nat) : KM Unit := do
  let old := (← get).systemTick
  modify fun k => { k with systemTick := (k.systemTick + ticksOfNs ns) % 2 ^ 64 }
  fireTimers (← get).now (← get).activeTimers
  if vblanksOfTicks (← get).systemTick ≠ vblanksOfTicks old then
    notifyInterrupt 0x2a
    notifyInterrupt 0x2b
    notifyInterrupt 0x64
  scanWaitingQueue [] (← get).waitingQueue
  emit (.elapsed (← get).missedTimers)

/-- `std::rotate` by one. -/
def rotate : List Ref → List Ref
  | [] => []
  | t :: l => l ++ [t]

def reschedule : KM Unit := do
  elapseTime 500
  modify fun k => { k with readyQueue := rotate k.readyQueue }

/-- Takes the running thread off the ready queue for a wait. -/
def block (source : Ref) (status : ThreadStatus) (wait : Wait) : KM Unit := do
  modifyThread source fun thread => { thread with status := status }
  removeFromReadyQueue source
  let thread := (← get).thread source
  if thread.timeoutAt ≠ noTimeout then
    modify fun k => { k with waitingQueue := k.waitingQueue ++ [source] }
  emit (.blocked source wait thread.timeoutAt thread.promisedResult)

/-- The time `duration` (signed) from now, as the unsigned number the source stores. -/
def Kernel.after (k : Kernel) (duration : Int) : Nat := ((k.now + duration) % 2 ^ 64).toNat

def svcSleepThread (source : Ref) (duration : Int) : KM Unit := do
  let timeoutAt := (← get).after duration
  modifyThread source fun thread =>
    { thread with timeoutAt := timeoutAt, status := .waitingForTimeout }
  removeFromReadyQueue source
  modify fun k => { k with waitingQueue := k.waitingQueue ++ [source] }
  emit (.blocked source .sleep timeoutAt ((← get).thread source).promisedResult)

/-! ## WaitSynchronizationN -/

/-- Looks up the handles and registers the thread with their objects. -/
def registerHandles (source : Ref) : List Handle → KM Unit
  | [] => pure ()
  | handle :: l => do
    let s ← getObject source handle Kind.isSubject
    registerObserver s source
    modifyThread source fun thread => { thread with waitList := thread.waitList ++ [s] }
    registerHandles source l

/-- The check for objects that are already ready, from position `i` of the wait list on. -/
def acquireReady (source : Ref) (waitForAll : Bool) : Nat → Nat → KM Unit
  | 0, _ => pure ()
  | n + 1, i => do
    match ((← get).thread source).waitList[i]? with
    | none => pure ()
    | some s =>
      if ← tryAcquire s source then
        let rest := ((← get).thread source).waitList.eraseIdx i
        modifyThread source fun thread =>
          { thread with wakeIndex := i, wokenObject := some s, waitList := rest }
        if !waitForAll then
          unregisterAll source rest
          modifyThread source fun thread => { thread with waitList := [] }
        else acquireReady source waitForAll n i
      else acquireReady source waitForAll n (i + 1)

def svcWaitSynchronizationN (source : Ref) (handles : List Handle) (waitForAll : Bool) (timeout : Int)
    (by_ : Waiter) : KM Unit := do
  -- AC workaround
  let handles := if handles.length = 3 ∧ handles[2]? = some handleInvalid then handles.take 2
    else handles
  let k ← get
  let timeoutAt := if timeout ≠ -1 then k.after timeout else noTimeout
  modifyThread source fun thread => { thread with timeoutAt := timeoutAt, promisedResult := 0 }
  if ((← get).thread source).waitList ≠ [] then
    throw (.runtimeError "Internal precondition violated: Expected wait list to be empty")
  registerHandles source handles
  let objects := ((← get).thread source).waitList
  emit (.waits source objects by_)
  acquireReady source waitForAll objects.length 0
  let objects := ((← get).thread source).waitList
  if objects ≠ [] then
    modifyThread source fun thread => { thread with waitForAll := waitForAll }
    block source .sleeping (.objects objects)
    reschedule

end Mikage
