import Mikage.Framework.Exceptions
import Mikage.Lib.Store

/-!
# Kernel objects

The objects of the emulated kernel and the state of its dispatcher. An object is a number (`Ref`)
and has its data in the table of its class; `kind` says which class that is. Handle tables, wait
lists and sessions refer to objects by number. Where the source has a `weak_ptr`, its `lock()` asks
whether the object is `dead`.

- `Kernel`: all objects, the scheduler's queues and the clock.
- `Obs`: what a run did, as far as the properties proved about runs speak of it. The trace is not
  part of the emulator's state, and no function reads it.
- `KM`: kernel code. It reads and writes the kernel and can end in an exception, which keeps the
  state it was thrown in.
-/

namespace Mikage

abbrev Ref := Nat
abbrev Handle := Nat
abbrev Word := BitVec 32

def handleInvalid : Handle := 0
/-- The handle of the running thread in its process. -/
def handleCurrentThread : Handle := 0xFFFF8000
/-- The handle of a process in its own table. -/
def handleCurrentProcess : Handle := 0xFFFF8001

inductive Kind where
  | none | thread | process | serverPort | clientPort | port | session | serverSession
  | clientSession | mutex | semaphore | event | timer | dmaObject | addressArbiter
  /-- Memory blocks, code sets and resource limits. -/
  | other
  deriving DecidableEq, Repr

instance : Inhabited Kind := ⟨.none⟩

/-- The classes derived from `ObserverSubject`. -/
def Kind.isSubject : Kind → Bool
  | .thread | .process | .serverPort | .clientPort | .serverSession | .clientSession | .mutex
  | .semaphore | .event | .timer | .dmaObject => true
  | .none | .port | .session | .addressArbiter | .other => false

inductive ThreadStatus where
  | ready | sleeping | waitingForTimeout | waitingForArbitration | stopped
  deriving DecidableEq, Repr

inductive ResetType where
  | oneShot | sticky | pulse
  deriving DecidableEq, Repr

inductive ProcessStatus where
  | created | running | stopping
  deriving DecidableEq, Repr

/-- What `callback_for_svc` can hold while a thread is not running. -/
inductive Callback where
  /-- `SendSyncRequest` waiting for the session to be accepted. -/
  | sendSyncRequest (session : Ref) (handle : Handle)
  /-- `SendSyncRequest` after its wait. -/
  | sendSyncRequestDone
  /-- `ReplyAndReceive` after its wait. -/
  | replyAndReceive
  deriving DecidableEq, Repr

/-- `timeout_at` of a thread that waits without timeout: -1 as an unsigned number. -/
def noTimeout : Nat := 2 ^ 64 - 1

structure Thread where
  process : Ref := 0
  priority : Nat := 0
  status : ThreadStatus := .stopped
  waitList : List Ref := []
  waitForAll : Bool := false
  wakeIndex : Nat := 0
  wokenObject : Option Ref := none
  timeoutAt : Nat := noTimeout
  arbitrationAddress : BitVec 32 := 0
  promisedResult : Nat := 0
  callback : Option Callback := none
  /-- The objects the thread's own code holds references to. -/
  frame : List Ref := []
  /-- The thread's coroutine has returned. -/
  finished : Bool := true
  deriving DecidableEq, Repr, Inhabited

structure Process where
  /-- A high-level emulated process. -/
  fake : Bool := false
  status : ProcessStatus := .created
  threads : List Ref := []
  table : List (Handle × Ref) := []
  curHandle : Nat := 0
  deriving DecidableEq, Repr, Inhabited

structure Mutex where
  lockCount : Nat := 0
  owner : Option Ref := none
  deriving DecidableEq, Repr, Inhabited

structure Semaphore where
  availableCount : Int := 0
  maxAvailable : Int := 0
  deriving DecidableEq, Repr, Inhabited

structure Event where
  signalled : Bool := false
  type : ResetType := .oneShot
  deriving DecidableEq, Repr, Inhabited

structure Timer where
  active : Bool := false
  type : ResetType := .oneShot
  timeoutTimeNs : Nat := 0
  periodNs : Nat := 0
  deriving DecidableEq, Repr, Inhabited

structure ServerPort where
  port : Ref := 0
  availableSessions : Nat := 0
  sessionQueue : List Ref := []
  deriving DecidableEq, Repr, Inhabited

structure ClientPort where
  port : Ref := 0
  deriving DecidableEq, Repr, Inhabited

structure Port where
  server : Option Ref := none
  client : Option Ref := none
  deriving DecidableEq, Repr, Inhabited

structure Session where
  server : Option Ref := none
  client : Option Ref := none
  deriving DecidableEq, Repr, Inhabited

structure ServerSession where
  session : Ref := 0
  /-- `none` for sessions that are not bound to a port. -/
  port : Option Ref := none
  ipcCommandsPending : Nat := 0
  deriving DecidableEq, Repr, Inhabited

structure ClientSession where
  session : Ref := 0
  /-- The threads whose requests have not been replied to, oldest first. -/
  threads : List Ref := []
  deriving DecidableEq, Repr, Inhabited

/-! ## What a run did -/

/-- Why a thread is blocked. -/
inductive Wait where
  | objects (all : List Ref)
  | sleep
  | arbitration (address : BitVec 32)
  deriving DecidableEq, Repr

/-- Why a blocked thread becomes ready. -/
inductive Cause where
  | resource (s : Ref)
  | timeout (now : Nat)
  | signal (address : BitVec 32)
  deriving DecidableEq, Repr

/-- Which call waits for objects. -/
inductive Waiter where
  | wait | receive | reply (clientSession : Ref)
  deriving DecidableEq, Repr

inductive Obs where
  /-- `t` starts to wait for the objects of the handles it names. -/
  | waits (t : Ref) (objects : List Ref) (by_ : Waiter)
  | blocked (t : Ref) (wait : Wait) (deadline result : Nat)
  | woken (t : Ref) (cause : Cause)
  /-- A due entry of the waiting queue was taken whose thread did not wait for a time. -/
  | stale (t : Ref) (status : ThreadStatus)
  /-- The address arbiter woke `t`, found in this status. -/
  | signalled (t : Ref) (status : ThreadStatus)
  /-- `t` exits, with the client sessions in whose queues it stands. -/
  | stopped (t : Ref) (sessions : List Ref)
  /-- A counter wrapped around. -/
  | overflow (s : Ref)
  | portCreated (p : Ref) (maxSessions : Nat)
  /-- `SVCRun` on a process in this status. -/
  | ran (p : Ref) (status : ProcessStatus)
  /-- A handle of `r` is closed, with the references and the handles `r` had before. -/
  | closed (r : Ref) (useCount handles : Nat)
  /-- Another object took the place of `r` in a handle table. -/
  | overwritten (r : Ref)
  /-- The last reference to `r` went; `orphans` wait for an object that depended on it, `dropped`
  are the objects of its handle table. -/
  | destroyed (r : Ref) (orphans dropped : List Ref)
  | requested (t cs : Ref)
  /-- A command became ready on `ss`. -/
  | announced (t ss : Ref)
  /-- `t` took a pending command of `ss`. -/
  | claimed (t ss : Ref)
  | received (t ss cs client : Ref)
  | replying (t ss : Ref)
  /-- `t` answers `client`; `late` if another thread waits on the client session before it. -/
  | replied (t ss cs client : Ref) (late : Bool)
  /-- `ElapseTime` is over; `missed` wait for a timer that is acquirable. -/
  | elapsed (missed : List (Ref × Ref))
  deriving DecidableEq, Repr

/-! ## The kernel -/

structure Kernel where
  /-- The number of the next object. -/
  next : Ref := 0
  kind : Store Kind := {}
  dead : Store Bool := {}
  observers : Store (List Ref) := {}
  thread : Store Thread := {}
  process : Store Process := {}
  mutex : Store Mutex := {}
  semaphore : Store Semaphore := {}
  event : Store Event := {}
  timer : Store Timer := {}
  serverPort : Store ServerPort := {}
  clientPort : Store ClientPort := {}
  port : Store Port := {}
  session : Store Session := {}
  serverSession : Store ServerSession := {}
  clientSession : Store ClientSession := {}
  /-- The command buffer of each thread, by word. -/
  tls : Store (Store Word) := {}
  threads : List Ref := []
  readyQueue : List Ref := []
  waitingQueue : List Ref := []
  activeTimers : List Ref := []
  boundInterrupts : Store (List Ref) := {}
  ports : List (String × Ref) := []
  processHandles : List Ref := []
  systemTick : Nat := 0
  /-- The objects kernel code on the stack holds references to. -/
  locals : List Ref := []
  trace : List Obs := []

/-- Kernel code. -/
abbrev KM := EStateM Exception Kernel

/-- What the kernel takes from elsewhere: the iteration order of a hash map, the partition made by
`nth_element`, and the translation of IPC buffers, which works on memory. -/
structure Env where
  order : List (Handle × Ref) → List (Handle × Ref)
  order_perm : ∀ l, (order l).Perm l
  /-- Reorders a list so that the first `n` threads have the greatest keys. -/
  nthElement : (key : Ref → Nat) → Nat → List Ref → List Ref
  nthElement_perm : ∀ key n l, (nthElement key n l).Perm l
  nthElement_split : ∀ key n l, ∀ a ∈ (nthElement key n l).take n,
    ∀ b ∈ (nthElement key n l).drop n, key b ≤ key a
  /-- What a buffer descriptor and its parameter become in a message whose earlier descriptors are
  given, if the buffer passes the checks. -/
  translateBuffer : Kernel → (source dest : Ref) → (isReply : Bool) → (earlier : List Word) →
    (descriptor parameter : Word) → Option (Word × Word)

namespace KM

def emit (o : Obs) : KM Unit := modify fun k => { k with trace := k.trace ++ [o] }

def modifyThread (t : Ref) (f : Thread → Thread) : KM Unit :=
  modify fun k => { k with thread := k.thread.modify t f }

def modifyProcess (p : Ref) (f : Process → Process) : KM Unit :=
  modify fun k => { k with process := k.process.modify p f }

/-- `ValidateContract` and `assert`. -/
def validate (b : Bool) (condition : String) : KM Unit :=
  if b then pure () else throw (.contractViolated condition)

/-- Kernel code that holds a reference to `r` while it runs. -/
def holding {α : Type} (r : Ref) (x : KM α) : KM α := do
  modify fun k => { k with locals := r :: k.locals }
  let a ← x
  modify fun k => { k with locals := k.locals.erase r }
  pure a

end KM

/-- `weak_ptr::lock`. -/
def Kernel.lock (k : Kernel) (r : Option Ref) : Option Ref := r.filter (fun r => !k.dead r)

end Mikage
