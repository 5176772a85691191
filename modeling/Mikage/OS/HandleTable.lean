import Mikage.OS.Wait

/-!
# Handle tables

Handles are the keys of a process's table. `createHandle` counts up and, as in the source, replaces
an entry that is in its way after the counter has wrapped around.
-/

namespace Mikage

open KM

namespace Kernel

/-- The table of the process of thread `t`. -/
def handleTable (k : Kernel) (t : Ref) : List (Handle × Ref) := (k.process (k.thread t).process).table

/-- The object of a handle. -/
def lookup (k : Kernel) (t : Ref) (handle : Handle) : Option Ref :=
  ((k.handleTable t).find? (·.1 = handle)).map (·.2)

end Kernel

/-- `FindObject` for the classes in `type`. With `failExpected` a missing handle or an object of
another class gives `none`. -/
def findObject (t : Ref) (handle : Handle) (type : Kind → Bool) (failExpected : Bool) :
    KM (Option Ref) := do
  let k ← get
  match k.lookup t handle with
  | none =>
    if failExpected then pure none
    else throw (.invalid "Could not find handle in handle table")
  | some r =>
    if type (k.kind r) then pure (some r)
    else if failExpected then pure none
    else throw (.runtimeError "Requested type, but found object has another type")

/-- `FindObject` where the handle has to name an object of the class. -/
def getObject (t : Ref) (handle : Handle) (type : Kind → Bool) : KM Ref := do
  match ← findObject t handle type false with
  | some r => pure r
  | none => throw (.nullPointer "FindObject")

def removeEntry (table : List (Handle × Ref)) (handle : Handle) : List (Handle × Ref) :=
  table.filter (·.1 ≠ handle)

/-- `table[handle] = object`, or `table.erase(handle)` for `none`. -/
def setEntry (p : Ref) (handle : Handle) (r : Option Ref) : KM Unit := do
  match ((← get).process p).table.find? (·.1 = handle) with
  | some old => emit (.overwritten old.2)
  | none => pure ()
  modifyProcess p fun process =>
    { process with table := removeEntry process.table handle ++ r.toList.map (handle, ·) }

def createHandle (p : Ref) (r : Ref) : KM Handle := do
  let handle := (((← get).process p).curHandle + 1) % 2 ^ 32
  modifyProcess p fun process => { process with curHandle := handle }
  setEntry p handle (some r)
  collect
  pure handle

/-- `CreateHandle` for an object the thread goes on holding: the result of the call. -/
def createHandleFor (t : Ref) (r : Ref) : KM Handle := do
  modifyThread t fun thread => { thread with frame := r :: thread.frame }
  createHandle ((← get).thread t).process r

/-- `SetCurrentThread`. -/
def setCurrentThread (p : Ref) (t : Option Ref) : KM Unit := setEntry p handleCurrentThread t

/-- A new object of a class; its data is written by the caller. -/
def newObject (kind : Kind) : KM Ref := do
  let r := (← get).next
  modify fun k => { k with next := r + 1, kind := k.kind.set r kind }
  pure r

end Mikage
