import Mikage.OS.Kernel

/-!
# Lifetimes

The source counts references (`shared_ptr`). Here the references an object holds are computed from
its data (`owned`), so the count of an object is the number of its occurrences among the references
of the live objects and of the kernel itself. `collect` destroys what is no longer referenced; kernel
code calls it wherever the source drops a reference.
-/

namespace Mikage

def Callback.owned : Callback → List Ref
  | .sendSyncRequest session _ => [session]
  | .sendSyncRequestDone | .replyAndReceive => []

def Thread.owned (thread : Thread) : List Ref :=
  thread.waitList ++ thread.frame ++ thread.callback.toList.flatMap Callback.owned

def Process.owned (process : Process) : List Ref := process.table.map (·.2) ++ process.threads

def ServerPort.owned (port : ServerPort) : List Ref := port.port :: port.sessionQueue

def ServerSession.owned (session : ServerSession) : List Ref :=
  session.session :: session.port.toList

namespace Kernel

/-- The references an object holds. -/
def owned (k : Kernel) (r : Ref) : List Ref :=
  match k.kind r with
  | .thread => (k.thread r).owned
  | .process => (k.process r).owned
  | .serverPort => (k.serverPort r).owned
  | .clientPort => [(k.clientPort r).port]
  | .serverSession => (k.serverSession r).owned
  | .clientSession => [(k.clientSession r).session]
  | .none | .port | .session | .mutex | .semaphore | .event | .timer | .dmaObject
  | .addressArbiter | .other => []

/-- The references held outside of objects. -/
def roots (k : Kernel) : List Ref := k.processHandles ++ k.ports.map (·.2) ++ k.locals

def references (k : Kernel) : List Ref :=
  k.roots ++ (List.range k.next).flatMap (fun r => if k.dead r then [] else k.owned r)

def useCount (k : Kernel) (r : Ref) : Nat := k.references.count r

/-- How many entries of handle tables name `r`. -/
def handleCount (k : Kernel) (r : Ref) : Nat :=
  ((List.range k.next).flatMap fun p =>
    if k.dead p ∨ k.kind p ≠ .process then [] else (k.process p).table.map (·.2)).count r

/-- The first live object without references. -/
def garbage (k : Kernel) : Option Ref :=
  let refs := k.references
  (List.range k.next).find? fun r => !k.dead r && !refs.contains r

/-- The threads waiting for `s`. -/
def waiting (k : Kernel) (s : Ref) : List Ref := (k.observers s).filter (!k.dead ·)

/-- The threads waiting for an object that `r` keeps from being acquirable, or from throwing. -/
def orphans (k : Kernel) (r : Ref) : List Ref :=
  match k.kind r with
  | .clientSession =>
    let session := k.session (k.clientSession r).session
    if session.client = some r then (k.lock session.server).toList.flatMap k.waiting else []
  | .serverPort => (k.lock (k.port (k.serverPort r).port).client).toList.flatMap k.waiting
  | .thread => (List.range k.next).flatMap fun m =>
      if k.kind m = .mutex ∧ (k.mutex m).lockCount ≠ 0 ∧ (k.mutex m).owner = some r
      then k.waiting m else []
  | _ => []

/-- The objects in the handle table of a process. -/
def tableObjects (k : Kernel) (r : Ref) : List Ref :=
  if k.kind r = .process then (k.process r).table.map (·.2) else []

end Kernel

def destroy (r : Ref) : KM Unit := do
  let k ← get
  KM.emit (.destroyed r (k.orphans r) (k.tableObjects r))
  modify fun k => { k with dead := k.dead.set r true }

def collectWithin : Nat → KM Unit
  | 0 => pure ()
  | n + 1 => do
    match (← get).garbage with
    | none => pure ()
    | some r => destroy r; collectWithin n

/-- Destroys every object without references, and then those only they referred to. -/
def collect : KM Unit := do
  collectWithin (← get).next

end Mikage
