import Mikage.Lib.Account
import Mikage.OS.Dispatch

/-!
# What happens to the kernel

Every piece of kernel code amounts to a sequence of the changes listed here. Each says what it needs
of the state and what it does to it, so that a property of all runs is proved change by change, without
looking at the code again. Kernel code that is in the middle of something (a thread has exited but
still stands in the thread list of its process, say) is recorded in the `Phase`, which is `idle`
between the passes of the dispatcher.

- `Act`: the changes.
- `Fault`: the exceptions which assertions on waiting and on requests end in, and all others.
-/

namespace Mikage

/-- What kernel code is in the middle of. -/
structure Phase where
  /-- Objects whose waiting threads may be able to acquire them. -/
  hot : List Ref := []
  /-- Time has passed since the timers were looked at. -/
  due : Bool := true
  /-- Stopped threads still in the thread list of their process. -/
  doomed : List Ref := []
  /-- Ports that gave away a slot, for a session that is not in their queue yet. -/
  reserved : List Ref := []
  /-- Server sessions that have given their slot back. -/
  closing : List Ref := []
  /-- Server sessions that have no handle yet. -/
  making : List Ref := []
  /-- Timers the clock does not know yet. -/
  unlisted : List Ref := []
  /-- A session that is not in the queue of its port yet. -/
  opened : Option Ref := none
  /-- The running thread stands in the queue of this client session. -/
  calling : Option (Ref × Ref) := none
  /-- The running server thread and its session answer the thread at the front of this queue. -/
  answering : Option (Ref × Ref × Ref × Ref) := none
  /-- A thread that has been answered and the client session it waits for. -/
  owed : Option (Ref × Ref) := none
  /-- The running thread waits as a receiver. -/
  receiving : Option Ref := none

/-- Between the passes of the dispatcher. -/
def Phase.idle : Phase := {}

abbrev Config := Kernel × Phase

/-- What a sequence of changes may include. -/
structure Powers where
  /-- The threads whose own code is running. -/
  turn : Ref → Prop
  /-- The threads that may go to sleep. -/
  sleep : Ref → Prop
  clock : Prop
  forks : Prop
  tables : Prop

def Powers.all : Powers := ⟨fun _ => True, fun _ => True, True, True, True⟩

/-- What the code that wakes threads needs. -/
def Powers.base : Powers := ⟨fun _ => False, fun _ => False, False, False, False⟩

/-- A due entry of the waiting queue was taken whose thread was ready or had stopped, a signal picked
a thread twice, or `SVCRun` was called on a process whose threads had all exited. -/
def Obs.mishap : Obs → Bool
  | .stale _ .ready | .stale _ .stopped | .signalled _ .ready | .ran _ .stopping => true
  | _ => false

namespace Kernel

def Alive (k : Kernel) (r : Ref) : Prop := r < k.next ∧ k.dead r = false

/-- `t` acquires `s`, which leads to `k'`. -/
def Takes (k : Kernel) (s t : Ref) (k' : Kernel) : Prop := tryAcquireImpl s t k = .ok true k'

/-- `TryAcquireImpl` returns false. -/
def Fails (k : Kernel) (s t : Ref) : Prop := tryAcquireImpl s t k = .ok false k

/-- The events of an entry of a handle table being replaced. -/
def replaced (k : Kernel) (p : Ref) (handle : Handle) : List Obs :=
  (((k.process p).table.find? (·.1 = handle)).map (fun entry => .overwritten entry.2)).toList

/-- Something has happened that the ready queue does not survive. -/
def Upset (k : Kernel) : Prop := ∃ o ∈ k.trace, o.mishap = true

end Kernel

/-- An update of what a thread computes with, but not of its place in the kernel. -/
structure Thread.Inner (f : Thread → Thread) : Prop where
  process : ∀ thread, (f thread).process = thread.process
  status : ∀ thread, (f thread).status = thread.status
  waitList : ∀ thread, (f thread).waitList = thread.waitList
  waitForAll : ∀ thread, (f thread).waitForAll = thread.waitForAll
  wokenObject : ∀ thread, (f thread).wokenObject = thread.wokenObject
  callback : ∀ thread, (f thread).callback = thread.callback
  frame : ∀ thread, (f thread).frame = thread.frame
  finished : ∀ thread, (f thread).finished = thread.finished

/-- An update that leaves the parameters of a wait alone. -/
structure Thread.Unwaited (f : Thread → Thread) : Prop where
  timeoutAt : ∀ thread, (f thread).timeoutAt = thread.timeoutAt
  arbitrationAddress : ∀ thread, (f thread).arbitrationAddress = thread.arbitrationAddress
  promisedResult : ∀ thread, (f thread).promisedResult = thread.promisedResult

/-- How a thread blocks for each kind of wait. -/
inductive Blocks (thread : Thread) : Wait → ThreadStatus → List Ref → Nat → Prop where
  | objects {l : List Ref} {timeout : Nat} : l ≠ [] →
      Blocks thread (.objects l) .sleeping l timeout
  | sleep {timeout : Nat} : Blocks thread .sleep .waitingForTimeout [] timeout
  | arbitration : Blocks thread (.arbitration thread.arbitrationAddress) .waitingForArbitration []
      noTimeout

/-- The phase behind a wait that is over or has begun. -/
def Phase.after (g : Phase) (t : Ref) : Waiter → Phase
  | .wait => g
  | .receive => { g with receiving := some t }
  | .reply _ => { g with calling := none }

/-- The changes. -/
inductive Act (P : Powers) : Config → Config → Prop where
  -- Bookkeeping
  | quiet {k : Kernel} {g : Phase} (waitingQueue threads : List Ref) (tls : Store (Store Word))
      (boundInterrupts : Store (List Ref)) : Act P (k, g)
      ({ k with waitingQueue := waitingQueue, threads := threads, tls := tls,
                boundInterrupts := boundInterrupts }, g)
  | same {k : Kernel} {g : Phase} {observers : Store (List Ref)} {thread : Store Thread} :
      (∀ r, observers r = k.observers r) → (∀ r, thread r = k.thread r) →
      Act P (k, g) ({ k with observers := observers, thread := thread }, g)
  | list {k : Kernel} {g : Phase} {s : Ref} : Act P (k, g)
      ({ k with activeTimers := k.activeTimers ++ [s] },
        { g with unlisted := g.unlisted.filter (· ≠ s) })
  | queue {k : Kernel} {g : Phase} {q : List Ref} : q.Perm k.readyQueue →
      Act P (k, g) ({ k with readyQueue := q }, g)
  | skip {k : Kernel} {g : Phase} {t : Ref} {q : List Ref} : k.readyQueue = t :: q →
      (k.thread t).status ≠ .ready → Act P (k, g) ({ k with readyQueue := q }, g)
  | hold {k : Kernel} {g : Phase} {r : Ref} : k.dead r = false →
      Act P (k, g) ({ k with locals := r :: k.locals }, g)
  | release {k : Kernel} {g : Phase} {r : Ref} :
      Act P (k, g) ({ k with locals := k.locals.erase r }, g)
  | inner {k : Kernel} {g : Phase} {t : Ref} {f : Thread → Thread} : k.kind t = .thread →
      Thread.Inner f → (k.thread t).status = .ready ∨ Thread.Unwaited f →
      Act P (k, g) ({ k with thread := k.thread.modify t f }, g)
  | frame {k : Kernel} {g : Phase} {t : Ref} {f : List Ref → List Ref} : k.kind t = .thread →
      (∀ r ∈ f (k.thread t).frame, k.Alive r) → Act P (k, g)
      ({ k with thread := k.thread.modify t (fun thread =>
          { thread with frame := f thread.frame }) }, g)
  | loosen {k : Kernel} {g : Phase} {hot doomed : List Ref} {due : Bool} : g.hot ⊆ hot →
      g.doomed ⊆ doomed → (g.due = true → due = true) →
      Act P (k, g) (k, { g with hot := hot, doomed := doomed, due := due })
  | spare {k : Kernel} {g : Phase} {t : Ref} : (k.thread t).status ≠ .stopped →
      Act P (k, g) (k, { g with doomed := g.doomed.filter (· ≠ t) })
  -- Objects
  | spawn {k : Kernel} {g : Phase} {p priority : Nat} : P.forks → k.Alive p → k.kind p = .process →
      k.Upset ∨ p ∈ k.processHandles → Act P (k, g)
      ({ k with
          next := k.next + 1
          kind := k.kind.set k.next .thread
          thread := k.thread.modify k.next (fun _ =>
            { process := p, priority := priority, status := .ready, finished := false })
          process := k.process.modify p (fun process =>
            { process with threads := process.threads ++ [k.next] })
          threads := k.threads ++ [k.next]
          readyQueue := k.readyQueue ++ [k.next] }, g)
  | alloc {k : Kernel} {g : Phase} {kind : Kind} :
      kind ∈ [.mutex, .semaphore, .event, .timer, .dmaObject, .addressArbiter, .other] →
      Act P (k, g) ({ k with next := k.next + 1, kind := k.kind.set k.next kind },
        { g with unlisted := if kind = .timer then k.next :: g.unlisted else g.unlisted })
  | newProcess {k : Kernel} {g : Phase} {fake : Bool} : Act P (k, g)
      ({ k with
          next := k.next + 1
          kind := k.kind.set k.next .process
          process := k.process.modify k.next (fun _ =>
            { fake := fake, table := if fake then [(handleCurrentProcess, k.next)] else [] })
          processHandles := k.processHandles ++ [k.next] }, g)
  | newPort {k : Kernel} {g : Phase} {maxSessions : Nat} : Act P (k, g)
      ({ k with
          next := k.next + 1 + 1 + 1
          kind := ((k.kind.set k.next .port).set (k.next + 1) .serverPort).set (k.next + 1 + 1)
            .clientPort
          port := k.port.set k.next
            { server := some (k.next + 1), client := some (k.next + 1 + 1) }
          serverPort := k.serverPort.set (k.next + 1)
            { port := k.next, availableSessions := maxSessions }
          clientPort := k.clientPort.set (k.next + 1 + 1) { port := k.next }
          trace := k.trace ++ [.portCreated (k.next + 1) maxSessions] }, g)
  | newSession {k : Kernel} {g : Phase} : g.opened = none → Act P (k, g)
      ({ k with
          next := k.next + 1 + 1
          kind := (k.kind.set k.next .session).set (k.next + 1) .clientSession
          session := k.session.set k.next { client := some (k.next + 1) }
          clientSession := k.clientSession.set (k.next + 1) { session := k.next } },
        { g with opened := some k.next })
  | newPair {k : Kernel} {g : Phase} : Act P (k, g)
      ({ k with
          next := k.next + 1 + 1 + 1
          kind := ((k.kind.set k.next .session).set (k.next + 1) .serverSession).set
            (k.next + 1 + 1) .clientSession
          session := k.session.set k.next
            { server := some (k.next + 1), client := some (k.next + 1 + 1) }
          serverSession := k.serverSession.set (k.next + 1) { session := k.next }
          clientSession := k.clientSession.set (k.next + 1 + 1) { session := k.next } }, g)
  | accept {k : Kernel} {g : Phase} {p session : Ref} {queue : List Ref} : k.Alive p →
      k.kind p = .serverPort → (k.serverPort p).sessionQueue = session :: queue → Act P (k, g)
      ({ k with
          next := k.next + 1
          kind := k.kind.set k.next .serverSession
          serverPort := k.serverPort.modify p (fun port => { port with sessionQueue := queue })
          serverSession := k.serverSession.set k.next { session := session, port := some p } },
        { g with making := k.next :: g.making })
  | bind {k : Kernel} {g : Phase} {session ss : Ref} : k.kind ss = .serverSession →
      (k.serverSession ss).session = session → Act P (k, g)
      ({ k with session := k.session.modify session (fun session =>
          { session with server := some ss }) }, g)
  | name {k : Kernel} {g : Phase} {name : String} {port : Ref} : k.Alive port →
      Act P (k, g) ({ k with ports := k.ports ++ [(name, port)] }, g)
  | destroy {k : Kernel} {g : Phase} {r : Ref} : k.Alive r → r ∉ k.references → r ∉ g.making →
      Act P (k, g)
      ({ k with
          dead := k.dead.set r true
          trace := k.trace ++ [.destroyed r (k.orphans r) (k.tableObjects r)] }, g)
  | bury {k : Kernel} {g : Phase} {r : Ref} : k.dead r = true →
      Act P (k, g) (k, { g with closing := g.closing.filter (· ≠ r) })
  -- Data of objects
  | data {k : Kernel} {g : Phase} {s : Ref} {mutex : Store Mutex} {semaphore : Store Semaphore}
      {event : Store Event} {timer : Store Timer} : (∀ r, r ≠ s → mutex r = k.mutex r) →
      (∀ r, r ≠ s → semaphore r = k.semaphore r) → (∀ r, r ≠ s → event r = k.event r) →
      (∀ r, r ≠ s → timer r = k.timer r) → Act P (k, g)
      ({ k with mutex := mutex, semaphore := semaphore, event := event, timer := timer },
        { g with hot := s :: g.hot })
  | run {k : Kernel} {g : Phase} {p t : Ref} : t ∈ (k.process p).threads →
      (k.thread t).status ≠ .stopped → Act P (k, g)
      ({ k with process := k.process.modify p (fun process =>
          { process with status := .running }) }, g)
  | detach {k : Kernel} {g : Phase} {t p : Ref} {threads : List Ref} : P.forks →
      k.kind t = .thread → (k.thread t).status = .stopped → (k.thread t).process = p → Act P (k, g)
      ({ k with
          process := k.process.modify p (fun process =>
            { process with
              threads := process.threads.erase t
              status := if process.threads.erase t = [] then .stopping else process.status })
          processHandles := if (k.process p).threads.erase t = [] then k.processHandles.erase p
            else k.processHandles
          threads := threads },
        { g with
          doomed := g.doomed.filter (· ≠ t)
          hot := if (k.process p).threads.erase t = [] then p :: g.hot else g.hot })
  -- Waiting
  | waits {k : Kernel} {g : Phase} {t : Ref} {objects : List Ref} {by_ : Waiter} :
      (∀ cs, by_ = .reply cs → g.calling = some (t, cs)) →
      Act P (k, g) ({ k with trace := k.trace ++ [.waits t objects by_] }, g)
  | taken {k k₁ : Kernel} {g : Phase} {s t i : Nat} {objects : List Ref} {by_ : Waiter} :
      (k.thread t).status = .ready → k.Takes s t k₁ → .waits t objects by_ ∈ k.trace →
      s ∈ objects → (∀ cs, by_ = .reply cs → g.calling = some (t, cs)) → Act P (k, g)
      ({ k₁ with thread := k₁.thread.modify t (fun thread =>
          { thread with wakeIndex := i, wokenObject := some s }) }, g.after t by_)
  | block {k : Kernel} {g : Phase} {t : Ref} {wait : Wait} {status : ThreadStatus}
      {objects waitList : List Ref} {waitForAll : Bool} {timeoutAt : Nat} {by_ : Waiter}
      {observers : Store (List Ref)} {waitingQueue : List Ref} : P.sleep t →
      (k.thread t).status = .ready → Blocks (k.thread t) wait status waitList timeoutAt →
      (∀ s, observers s = k.observers s ++ List.replicate (waitList.count s) t) →
      (∀ s ∈ waitList, k.Alive s ∧ (k.kind s).isSubject = true ∧ k.Fails s t) → g.unlisted = [] →
      (waitList ≠ [] → .waits t objects by_ ∈ k.trace) → (∀ s ∈ waitList, s ∈ objects) →
      (∀ cs, by_ = .reply cs → g.calling = some (t, cs) ∧ waitList = objects ∧
        waitForAll = false ∧ timeoutAt = noTimeout) →
      (by_ = .receive → waitForAll = false) → (waitList = [] → by_ = .wait) → Act P (k, g)
      ({ k with
          observers := observers
          thread := k.thread.modify t (fun thread =>
            { thread with waitList := waitList, waitForAll := waitForAll, timeoutAt := timeoutAt,
                          status := status })
          readyQueue := k.readyQueue.filter (· ≠ t)
          waitingQueue := waitingQueue
          trace := k.trace ++ [.blocked t wait timeoutAt (k.thread t).promisedResult] },
        g.after t by_)
  | acquired {k k₁ : Kernel} {g : Phase} {s t i : Nat} {l : List Ref} :
      k.observers s = t :: l → k.dead t = false → (k.thread t).status = .sleeping →
      k.Takes s t k₁ → (k.thread t).waitForAll = true → (k.thread t).waitList.erase s ≠ [] →
      Act P (k, g)
      ({ k₁ with
          observers := k₁.observers.modify s (·.erase t)
          thread := k₁.thread.modify t (fun thread =>
            { thread with wakeIndex := i, wokenObject := some s,
                          waitList := thread.waitList.erase s }) }, g)
  | woken {k k₁ : Kernel} {g : Phase} {s t i : Nat} {l : List Ref} {observers : Store (List Ref)} :
      k.observers s = t :: l → k.dead t = false → (k.thread t).status = .sleeping →
      k.Takes s t k₁ →
      ((k.thread t).waitForAll = false ∨ (k.thread t).waitList.erase s = []) →
      (∀ r, observers r = (k.observers r).filter (· ≠ t)) → Act P (k, g)
      ({ k₁ with
          observers := observers
          thread := k₁.thread.modify t (fun thread =>
            { thread with wakeIndex := i, wokenObject := some s, waitList := [],
                          status := .ready })
          readyQueue := t :: k₁.readyQueue
          trace := k₁.trace ++ [.woken t (.resource s)] },
        { g with owed := if g.owed = some (t, s) then none else g.owed })
  | prune {k : Kernel} {g : Phase} {s t : Ref} {l : List Ref} : k.observers s = t :: l →
      k.dead t = true → Act P (k, g) ({ k with observers := k.observers.set s l }, g)
  | cool {k : Kernel} {g : Phase} {s : Ref} :
      (∀ t l, k.waiting s = t :: l → k.Fails s t) → Act P (k, g) (k, { g with
        hot := g.hot.filter (· ≠ s)
        owed := if g.owed.map (·.2) = some s then none else g.owed })
  -- Time
  | tick {k : Kernel} {g : Phase} {n : Nat} :
      Act P (k, g) ({ k with systemTick := n }, { g with due := true })
  | sweep {k : Kernel} {g : Phase} :
      Act P (k, g) (k, { g with
        due := false
        hot := k.activeTimers.filter (fun s => k.kind s = .timer) ++ g.hot })
  | elapsed {k : Kernel} {g : Phase} : g.due = false → (∀ s ∈ g.hot, k.kind s ≠ .timer) →
      Act P (k, g) ({ k with trace := k.trace ++ [.elapsed k.missedTimers] }, g)
  | expire {k : Kernel} {g : Phase} {t : Ref} {observers : Store (List Ref)}
      {waitingQueue : List Ref} : P.clock → k.Alive t → k.kind t = .thread →
      (k.thread t).timeoutAt ≤ k.now →
      (∀ r, observers r = (k.observers r).filter (· ≠ t)) → Act P (k, g)
      ({ k with
          observers := observers
          thread := k.thread.modify t (fun thread =>
            { thread with
              promisedResult := if thread.status = .sleeping then 0x09401BFE
                else thread.promisedResult
              waitList := []
              status := .ready })
          readyQueue := k.readyQueue ++ [t]
          waitingQueue := waitingQueue
          trace := k.trace ++ [if (k.thread t).status = .sleeping ∨
              (k.thread t).status = .waitingForTimeout then .woken t (.timeout k.now)
            else .stale t (k.thread t).status] },
        { g with doomed := g.doomed.filter (· ≠ t) })
  | signal {k : Kernel} {g : Phase} {t : Ref} {address : BitVec 32} : P.forks → k.Alive t →
      ((k.thread t).status = .waitingForArbitration ∧
        (k.thread t).arbitrationAddress = address) ∨ (k.thread t).status = .ready → Act P (k, g)
      ({ k with
          thread := k.thread.modify t (fun thread => { thread with status := .ready })
          readyQueue := k.readyQueue ++ [t]
          trace := k.trace ++ (if (k.thread t).status = .waitingForArbitration
              then [.woken t (.signal address)] else []) ++
            [.signalled t (k.thread t).status] }, g)
  | stop {k : Kernel} {g : Phase} {t p : Ref} {observers : Store (List Ref)} : P.turn t →
      P.tables → k.Alive t → k.kind t = .thread → (k.thread t).status ≠ .stopped →
      (k.thread t).process = p →
      (∀ r, observers r = (k.observers r).filter (· ≠ t)) → Act P (k, g)
      ({ k with
          observers := observers
          process := k.process.modify p (fun process =>
            { process with table := removeEntry process.table handleCurrentThread })
          thread := k.thread.modify t (fun thread =>
            { thread with waitList := [], status := .stopped, frame := [], callback := none,
                          finished := true })
          readyQueue := k.readyQueue.filter (· ≠ t)
          trace := k.trace ++ k.replaced p handleCurrentThread ++
            [.stopped t (k.queuedSessions t)] },
        { g with doomed := t :: g.doomed, hot := t :: g.hot })
  -- Handles
  | entry {k : Kernel} {g : Phase} {p handle : Nat} {r : Option Ref} {f : Nat → Nat} : P.tables →
      k.Alive p → k.kind p = .process → (∀ x ∈ r, k.Alive x) → Act P (k, g)
      ({ k with
          process := k.process.modify p (fun process =>
            { process with
              table := removeEntry process.table handle ++ r.toList.map (handle, ·)
              curHandle := f process.curHandle })
          trace := k.trace ++ k.replaced p handle },
        { g with making := g.making.filter (some · ≠ r) })
  | closed {k : Kernel} {g : Phase} {p handle r n : Nat} : P.tables → k.Alive p →
      k.kind p = .process → ((k.process p).table.find? (·.1 = handle)).map (·.2) = some r →
      (n = 1 → k.kind r = .serverSession → (k.serverSession r).port.isSome → r ∈ g.closing) →
      Act P (k, g)
      ({ k with
          process := k.process.modify p (fun process =>
            { process with table := removeEntry process.table handle })
          trace := k.trace ++ [.closed r n (k.handleCount r)] }, g)
  -- Sessions
  | reserve {k : Kernel} {g : Phase} {p : Ref} : k.Alive p → k.kind p = .serverPort →
      (k.serverPort p).availableSessions ≠ 0 → Act P (k, g)
      ({ k with serverPort := k.serverPort.modify p (fun port =>
          { port with availableSessions := port.availableSessions - 1 }) },
        { g with reserved := p :: g.reserved })
  | offer {k : Kernel} {g : Phase} {p session : Ref} : k.Alive session → p ∈ g.reserved →
      k.kind p = .serverPort → g.opened = some session → Act P (k, g)
      ({ k with serverPort := k.serverPort.modify p (fun port =>
          { port with sessionQueue := port.sessionQueue ++ [session] }) },
        { g with reserved := g.reserved.erase p, opened := none, hot := p :: g.hot })
  | giveBack {k : Kernel} {g : Phase} {p ss : Ref} : k.Alive ss → k.kind ss = .serverSession →
      (k.serverSession ss).port = some p → Act P (k, g)
      ({ k with serverPort := k.serverPort.modify p (fun port =>
          { port with availableSessions := (port.availableSessions + 1) % 2 ^ 32 }) },
        { g with closing := ss :: g.closing,
                 hot := p :: (k.port (k.serverPort p).port).client.toList ++ g.hot })
  | hangUp {k : Kernel} {g : Phase} {cs session : Ref} : k.Alive cs →
      k.kind cs = .clientSession → (k.clientSession cs).session = session → g.calling = none →
      (∀ t, k.dead t = false → cs ∉ (k.thread t).owned) → Act P (k, g)
      ({ k with session := k.session.modify session (fun session =>
          { session with client := none }) },
        { g with hot := (k.session session).server.toList ++ g.hot })
  | request {k : Kernel} {g : Phase} {t cs : Ref} : P.turn t → k.Alive t →
      (k.thread t).status = .ready → (k.thread t).callback = none → g.calling = none →
      k.Alive cs → k.kind cs = .clientSession → cs ∈ k.locals → Act P (k, g)
      ({ k with
          clientSession := k.clientSession.modify cs (fun session =>
            { session with threads := session.threads ++ [t] })
          trace := k.trace ++ [.requested t cs] },
        { g with calling := some (t, cs) })
  | announce {k : Kernel} {g : Phase} {t cs ss : Ref} : g.calling = some (t, cs) →
      k.lock (k.session (k.clientSession cs).session).server = some ss → Act P (k, g)
      ({ k with
          serverSession := k.serverSession.modify ss (fun session =>
            { session with ipcCommandsPending := (session.ipcCommandsPending + 1) % 2 ^ 32 })
          trace := k.trace ++ (if (k.serverSession ss).ipcCommandsPending + 1 = 2 ^ 32
            then [.overflow ss] else []) ++ [.announced t ss] },
        { g with hot := ss :: g.hot })
  | park {k : Kernel} {g : Phase} {t cs handle : Nat} : P.turn t → g.calling = some (t, cs) →
      k.kind t = .thread → (k.thread t).callback = none → k.Alive cs → Act P (k, g)
      ({ k with thread := k.thread.modify t (fun thread =>
          { thread with callback := some (.sendSyncRequest cs handle) }) },
        { g with calling := none })
  | comeBack {k : Kernel} {g : Phase} {t cs handle : Nat} : P.turn t →
      (k.thread t).status = .ready → (k.thread t).callback = some (.sendSyncRequest cs handle) →
      g.calling = none → cs ∈ k.locals → Act P (k, g)
      ({ k with thread := k.thread.modify t (fun thread => { thread with callback := none }) },
        { g with calling := some (t, cs) })
  | sent {k : Kernel} {g : Phase} {t : Ref} : P.turn t → k.kind t = .thread →
      (k.thread t).callback = none → Act P (k, g)
      ({ k with thread := k.thread.modify t (fun thread =>
          { thread with callback := some .sendSyncRequestDone }) }, g)
  | serve {k : Kernel} {g : Phase} {t : Ref} : P.turn t → k.kind t = .thread →
      (k.thread t).callback = none → g.receiving = some t → Act P (k, g)
      ({ k with thread := k.thread.modify t (fun thread =>
          { thread with callback := some .replyAndReceive }) }, { g with receiving := none })
  | resume {k : Kernel} {g : Phase} {t : Ref} {callback : Callback} : P.turn t →
      (k.thread t).status = .ready → (k.thread t).callback = some callback →
      callback.owned = [] → Act P (k, g)
      ({ k with thread := k.thread.modify t (fun thread => { thread with callback := none }) },
        { g with receiving := if callback = .replyAndReceive then some t else none })
  | forgo {k : Kernel} {g : Phase} : Act P (k, g) (k, { g with receiving := none })
  | received {k : Kernel} {g : Phase} {t ss cs client : Ref} {l : List Ref} :
      g.receiving = some t → k.Alive t → (k.thread t).status = .ready →
      (k.thread t).wokenObject = some ss → k.Alive ss → k.kind ss = .serverSession →
      k.lock (k.session (k.serverSession ss).session).client = some cs →
      (k.clientSession cs).threads = client :: l → Act P (k, g)
      ({ k with trace := k.trace ++ [.received t ss cs client] }, { g with receiving := none })
  | replying {k : Kernel} {g : Phase} {t ss : Ref} : k.Alive ss → k.kind ss = .serverSession →
      Act P (k, g) ({ k with trace := k.trace ++ [.replying t ss] }, g)
  | answer {k : Kernel} {g : Phase} {t ss cs client : Ref} {l : List Ref} {trace : List Obs} :
      k.trace = trace ++ [.replying t ss] →
      k.lock (k.session (k.serverSession ss).session).client = some cs →
      (k.clientSession cs).threads = client :: l → k.dead client = false →
      Act P (k, g) (k, { g with answering := some (t, ss, cs, client) })
  | replied {k : Kernel} {g : Phase} {t ss cs client : Ref} :
      g.answering = some (t, ss, cs, client) → client ∈ (k.clientSession cs).threads → Act P (k, g)
      ({ k with
          clientSession := k.clientSession.modify cs (fun session =>
            { session with threads := session.threads.erase client })
          trace := k.trace ++ [.replied t ss cs client (k.late cs client)] },
        { g with
          answering := none
          owed := if k.late cs client then none else some (client, cs)
          hot := cs :: g.hot })
  | ran {k : Kernel} {g : Phase} {p : Ref} : P.forks →
      Act P (k, g) ({ k with trace := k.trace ++ [.ran p (k.process p).status] }, g)

/-- The assertions on observers and on client sessions. -/
def Exception.asserted : List Exception :=
  [.contractViolated "it != observers.end()",
   .contractViolated "thread->status == Thread::Status::Sleeping",
   .contractViolated "status == Thread::Status::Sleeping",
   .runtimeError "Given resource was not being waited for",
   .contractViolated "client_session && !client_session->threads.empty()",
   .contractViolated "client_thread",
   .runtimeError "Thread set ready despite not being in the wait list"]

/-- The exceptions kernel code can end in. -/
inductive Fault : Exception → Config → Prop where
  | other {e : Exception} {c : Config} : e ∉ Exception.asserted → Fault e c
  | noRequest {k : Kernel} {g : Phase} {t ss : Ref} {trace : List Obs} :
      k.trace = trace ++ [.replying t ss] →
      (∀ cs, k.lock (k.session (k.serverSession ss).session).client = some cs →
        (k.clientSession cs).threads = []) →
      Fault (.contractViolated "client_session && !client_session->threads.empty()") (k, g)
  | noClient {k : Kernel} {g : Phase} {t ss cs client : Ref} {l : List Ref} {trace : List Obs} :
      k.trace = trace ++ [.replying t ss] →
      k.lock (k.session (k.serverSession ss).session).client = some cs →
      (k.clientSession cs).threads = client :: l → k.dead client = true →
      Fault (.contractViolated "client_thread") (k, g)
  | notWaiting {k : Kernel} {g : Phase} {t ss cs client : Ref} :
      g.answering = some (t, ss, cs, client) → client ∉ (k.clientSession cs).threads →
      Fault (.runtimeError "Thread set ready despite not being in the wait list") (k, g)
  /-- The receiver's side of the same check. -/
  | noSender {k : Kernel} {g : Phase} {t ss cs client : Ref} {l : List Ref} :
      g.receiving = some t → k.Alive t → (k.thread t).wokenObject = some ss →
      k.lock (k.session (k.serverSession ss).session).client = some cs →
      (k.clientSession cs).threads = client :: l → k.dead client = true →
      Fault (.contractViolated "client_thread") (k, g)

/-- Accounting for kernel code. -/
def account (P : Powers) : Account Exception Kernel Phase where
  act := Act P
  kept k k' := k'.locals = k.locals
  fault e k c := c.1.trace = k.trace ∧ Fault e c
  kept_refl _ := rfl
  kept_trans h h' := h'.trans h

/-- The effect of `x` is a sequence of changes that ends in `Q`. -/
abbrev Does (P : Powers) {α : Type} (x : KM α) (k : Kernel) (g : Phase)
    (Q : α → Kernel → Phase → Prop) : Prop := (account P).Does x k g Q

end Mikage
