import Mikage.Lib.Run
import Mikage.Lib.Lists
import Mikage.Framework.Exceptions

/-!
# The tables of a service

A service waits on a vector of handles. The kernel answers with an index into it, and the wait
objects and what a session was opened for are looked up in vectors of their own at that index. The
FS process appends, replaces and erases entries of them while it serves its sessions.

- `ServiceHelper`, `FSServiceHelper`: the vectors and what changes them.
- `runOnce`: one turn of the loop.
- `Sessions`: the same service without indices; a session is known by its number, and what it was
  opened for is kept with it.
- `sessionTables_parallel`: every run of the loop is followed by one of the sessions, and the
  vectors are their table.
-/

namespace Mikage.FS.Serving

variable {Handle Object File Directory : Type}

/-! ## The vectors -/

structure ServiceHelper (Handle Object : Type) where
  handles : List Handle
  objects : List Object

namespace ServiceHelper

def append (s : ServiceHelper Handle Object) (entry : Handle × Object) :
    ServiceHelper Handle Object :=
  ⟨s.handles ++ [entry.1], s.objects ++ [entry.2]⟩

def erase (s : ServiceHelper Handle Object) (index : ℕ) : ServiceHelper Handle Object :=
  ⟨s.handles.eraseIdx index, s.objects.eraseIdx index⟩

def onNewSession (s : ServiceHelper Handle Object) (session : Handle × Object) :
    ServiceHelper Handle Object :=
  s.append session

end ServiceHelper

/-- What is known of a handle: nothing for a port, the index of the port for a session of `fs:USER`
or `fs:LDR`, the file or the directory for the others. -/
inductive HandleData (File Directory : Type) where
  | port
  | session (portIndex : ℕ)
  | file (file : File)
  | directory (directory : Directory)

structure FSServiceHelper (Handle Object File Directory : Type) extends
    ServiceHelper Handle Object where
  handleData : List (HandleData File Directory)

namespace FSServiceHelper

variable (s : FSServiceHelper Handle Object File Directory)

def append (entry : Handle × Object) (data : HandleData File Directory) :
    FSServiceHelper Handle Object File Directory :=
  ⟨s.toServiceHelper.append entry, s.handleData ++ [data]⟩

def erase (index : ℕ) : FSServiceHelper Handle Object File Directory :=
  ⟨s.toServiceHelper.erase index, s.handleData.eraseIdx index⟩

def onNewSession (portIndex : ℕ) (session : Handle × Object) :
    FSServiceHelper Handle Object File Directory :=
  ⟨s.toServiceHelper.onNewSession session, s.handleData ++ [.session portIndex]⟩

def replaceFileServer (index : ℕ) (newFile : File) :
    Except Exception (FSServiceHelper Handle Object File Directory) :=
  match s.handleData[index]? with
  | some (.file _) => .ok { s with handleData := s.handleData.set index (.file newFile) }
  | _ => .error (.runtimeError "Attempted to replace File object in non-File session")

end FSServiceHelper

/-! ## Commands -/

/-- What the files of the FS process are built from. -/
structure Files (File : Type) where
  subFile : File → (offset numBytes : BitVec 64) → File
  closed : File

/-- The commands that change a table, with what the archives give for them. -/
inductive Request (File Directory : Type) where
  | openFile (file : File)
  | openDirectory (directory : Directory)
  | openSubFile (offset numBytes : BitVec 64)
  | openLinkFile
  | close
  | other

/-- What comes with a signal: the session that `SVCAcceptSession` or `SVCCreateSession` returns, the
command, and whether the file it is for has an open sub file. -/
structure Input (Handle Object File Directory : Type) where
  session : Handle × Object
  request : Request File Directory
  hasOpenSubFile : Bool

/-- `OptionalIndex` -/
inductive Reply (Handle : Type) where
  | doNothing
  | sendReply
  | sendReplyTo (handle : Handle)

section Commands

variable (s : FSServiceHelper Handle Object File Directory)
  (input : Input Handle Object File Directory)

def userCommandHandler : Except Exception (FSServiceHelper Handle Object File Directory) :=
  match input.request with
  | .openFile file => .ok (s.append input.session (.file file))
  | .openDirectory directory => .ok (s.append input.session (.directory directory))
  | .other => .ok s
  | _ => .error (.invalid "Unknown FS service command")

def onFileIPCRequest (files : Files File) (file : File) (sessionIndex : ℕ) :
    Except Exception (FSServiceHelper Handle Object File Directory) :=
  match input.hasOpenSubFile, input.request with
  | _, .close => s.replaceFileServer sessionIndex files.closed
  | true, _ => .error (.invalid "Attempted to use file with open sub file")
  | false, .openSubFile offset numBytes =>
    .ok (s.append input.session (.file (files.subFile file offset numBytes)))
  | false, .openLinkFile =>
    -- `std::get` of the session's own entry
    match s.handleData[sessionIndex]? with
    | some (.file file) => .ok (s.append input.session (.file file))
    | _ => .error (.badCast "bad_variant_access")
  | false, .other => .ok s
  | false, _ => .error (.invalid "Unknown fs file IPC command")

def onDirIPCRequest : Except Exception (FSServiceHelper Handle Object File Directory) :=
  match input.request with
  | .close => .ok s
  | .other => .ok s
  | _ => .error (.invalid "Unknown fs directory IPC command")

def invokeCommandHandler (files : Files File) (index : ℕ) :
    Except Exception (FSServiceHelper Handle Object File Directory × Reply Handle) :=
  match s.handleData[index]? with
  | none => .error (.runtimeError "vector::at")
  | some (.session _) => do return (← userCommandHandler s input, .sendReply)
  | some (.file file) => do return (← onFileIPCRequest s input files file index, .sendReply)
  | some (.directory _) => do return (← onDirIPCRequest s input, .sendReply)
  | some .port => .ok (s, .doNothing)

end Commands

/-! ## The loop -/

/-- The result of `SVCReplyAndReceive`. -/
inductive Signal where
  | ok
  /-- 0xc920181a -/
  | sessionClosed
  | failed

/-- The helper and the reply target of the next `SVCReplyAndReceive`; `none` is
`HANDLE_INVALID`. -/
structure Service (Handle Object File Directory : Type) where
  helper : FSServiceHelper Handle Object File Directory
  lastSignalled : Option Handle

/-- What the loop is run with: how a port is told from a session, and the files. -/
structure Params (Object File : Type) where
  isServerPort : Object → Bool
  files : Files File

section Loop

variable (p : Params Object File)

/-- One turn of `ServiceHelper::Run`, from a result and an index of the kernel. An error leaves the
loop. -/
def runOnce (s : Service Handle Object File Directory) (signal : Signal) (index : ℤ)
    (input : Input Handle Object File Directory) :
    Except Exception (Service Handle Object File Directory) :=
  match signal with
  | .sessionClosed =>
    if index = -1 then .error (.runtimeError "Panic")
    else .ok ⟨s.helper.erase index.toNat, none⟩
  | .failed => .error (.runtimeError "Panic")
  | .ok =>
    if index < 0 then .error (.nullPointer "vector::operator[]")
    else
      match s.helper.objects[index.toNat]?, s.helper.handles[index.toNat]? with
      | some object, some signalledHandle =>
        if p.isServerPort object then
          .ok ⟨s.helper.onNewSession index.toNat input.session, none⟩
        else
          match invokeCommandHandler s.helper input p.files index.toNat with
          | .error e => .error e
          | .ok (helper, .doNothing) => .ok ⟨helper, none⟩
          | .ok (helper, .sendReply) => .ok ⟨helper, some signalledHandle⟩
          | .ok (helper, .sendReplyTo handle) => .ok ⟨helper, some handle⟩
      | _, _ => .error (.nullPointer "vector::operator[]")

/-- The tables `FSUserThread` starts with. -/
def started (user ldr : Handle × Object) : Service Handle Object File Directory :=
  ⟨(FSServiceHelper.append ⟨⟨[], []⟩, []⟩ user .port).append ldr .port, none⟩

def Started (s : Service Handle Object File Directory) : Prop := ∃ user ldr, s = started user ldr

/-- The kernel returns an index into the handles it was given, or -1 where only the reply target was
closed. -/
def Turn (s s' : Service Handle Object File Directory) : Prop :=
  ∃ (signal : Signal) (index : ℤ) (input : Input Handle Object File Directory), -1 ≤ index ∧
    index < s.helper.handles.length ∧ runOnce p s signal index input = .ok s'

end Loop

/-! ## Sessions -/

/-- An open session: its number, its handle and object, and what it was opened for. -/
structure Session (Handle Object File Directory : Type) where
  id : ℕ
  handle : Handle
  object : Object
  opened : HandleData File Directory

/-- The open sessions, the oldest first, and the one that a reply is due to. -/
structure Sessions (Handle Object File Directory : Type) where
  table : List (Session Handle Object File Directory)
  next : ℕ
  pending : Option ℕ

namespace Sessions

variable (a : Sessions Handle Object File Directory)

def add (entry : Handle × Object) (opened : HandleData File Directory) :
    Sessions Handle Object File Directory :=
  { a with table := a.table ++ [⟨a.next, entry.1, entry.2, opened⟩], next := a.next + 1 }

def remove (id : ℕ) : Sessions Handle Object File Directory :=
  { a with table := a.table.filter (·.id ≠ id) }

def reopen (id : ℕ) (opened : HandleData File Directory) : Sessions Handle Object File Directory :=
  { a with table := a.table.map fun x => if x.id = id then { x with opened } else x }

/-- What a command does to the sessions. It depends on the session it arrived on. -/
def serve (files : Files File) (session : Session Handle Object File Directory)
    (input : Input Handle Object File Directory) : Option (Sessions Handle Object File Directory) :=
  match session.opened, input.request with
  | .session _, .openFile file => some (a.add input.session (.file file))
  | .session _, .openDirectory directory => some (a.add input.session (.directory directory))
  | .session _, .other => some a
  | .file _, .close => some (a.reopen session.id (.file files.closed))
  | .file file, .openSubFile offset numBytes =>
    some (a.add input.session (.file (files.subFile file offset numBytes)))
  | .file file, .openLinkFile => some (a.add input.session (.file file))
  | .file _, .other => some a
  | .directory _, .close => some a
  | .directory _, .other => some a
  | .port, _ => some a
  | _, _ => none

/-- Sessions are replied to, ports are not. -/
def target (session : Session Handle Object File Directory) : Option ℕ :=
  match session.opened with
  | .port => none
  | _ => some session.id

end Sessions

section Following

variable (p : Params Object File)

/-- What a signal of a session does. -/
inductive SessionStep (a : Sessions Handle Object File Directory)
    (session : Session Handle Object File Directory)
    (input : Input Handle Object File Directory) :
    Signal → Sessions Handle Object File Directory → Prop where
  | closed : SessionStep a session input .sessionClosed
      { a.remove session.id with pending := none }
  | accepted (portIndex : ℕ) : p.isServerPort session.object = true →
      SessionStep a session input .ok
        { a.add input.session (.session portIndex) with pending := none }
  | served {a' : Sessions Handle Object File Directory} : p.isServerPort session.object = false →
      a.serve p.files session input = some a' →
      SessionStep a session input .ok { a' with pending := Sessions.target session }

/-- A turn of the loop and the step of the sessions that it is: the session is the one the kernel
has signalled. -/
def FollowedTurn
    (x y : Service Handle Object File Directory × Sessions Handle Object File Directory) : Prop :=
  ∃ (signal : Signal) (index : ℤ) (input : Input Handle Object File Directory)
    (session : Session Handle Object File Directory),
    runOnce p x.1 signal index input = .ok y.1 ∧ 0 ≤ index ∧
      x.2.table[index.toNat]? = some session ∧ SessionStep p x.2 session input signal y.2

def FollowedStart
    (x : Service Handle Object File Directory × Sessions Handle Object File Directory) : Prop :=
  ∃ user ldr, x = (started user ldr, (Sessions.add ⟨[], 0, none⟩ user .port).add ldr .port)

end Following

/-- **The vectors are the table of the sessions.** -/
structure Parallel (p : Params Object File) (s : Service Handle Object File Directory)
    (a : Sessions Handle Object File Directory) : Prop where
  handles : s.helper.handles = a.table.map (·.handle)
  objects : s.helper.objects = a.table.map (·.object)
  handleData : s.helper.handleData = a.table.map (·.opened)
  ids : (a.table.map (·.id)).Nodup
  length : s.helper.handles.length = s.helper.objects.length ∧
    s.helper.objects.length = s.helper.handleData.length
  /-- A reply goes to the handle at the position of the session. -/
  reply : s.lastSignalled = none ∧ a.pending = none ∨
    ∃ (i : ℕ) (session : Session Handle Object File Directory),
      a.table[i]? = some session ∧ a.pending = some session.id ∧
      s.helper.handles[i]? = s.lastSignalled ∧ s.lastSignalled = some session.handle
  /-- A command goes to what its session was opened for. -/
  command : ∀ (i : ℕ) (session : Session Handle Object File Directory)
    (input : Input Handle Object File Directory), a.table[i]? = some session →
    match session.opened with
    | .port => invokeCommandHandler s.helper input p.files i = .ok (s.helper, .doNothing)
    | .session _ => invokeCommandHandler s.helper input p.files i =
        (userCommandHandler s.helper input).map (·, .sendReply)
    | .file file => invokeCommandHandler s.helper input p.files i =
        (onFileIPCRequest s.helper input p.files file i).map (·, .sendReply)
    | .directory _ => invokeCommandHandler s.helper input p.files i =
        (onDirIPCRequest s.helper input).map (·, .sendReply)

/-! ## One turn -/

section Proofs

variable {p : Params Object File} {h h' : FSServiceHelper Handle Object File Directory}
  {s s' : Service Handle Object File Directory} {a : Sessions Handle Object File Directory}
  {session : Session Handle Object File Directory} {input : Input Handle Object File Directory}
  {entry : Handle × Object} {opened : HandleData File Directory} {i : ℕ} {reply : Reply Handle}

/-- The vectors are the columns of the table, and its numbers are in use once. -/
structure Tables (h : FSServiceHelper Handle Object File Directory)
    (a : Sessions Handle Object File Directory) : Prop where
  handles : h.handles = a.table.map (·.handle)
  objects : h.objects = a.table.map (·.object)
  handleData : h.handleData = a.table.map (·.opened)
  ids : (a.table.map (·.id)).Nodup
  used : ∀ x ∈ a.table, x.id < a.next

theorem Tables.add (ht : Tables h a) : Tables (h.append entry opened) (a.add entry opened) := by
  refine ⟨?_, ?_, ?_, ?_, fun x hx => ?_⟩
  · change h.handles ++ _ = _
    rw [Sessions.add, List.map_append, ← ht.handles]
    rfl
  · change h.objects ++ _ = _
    rw [Sessions.add, List.map_append, ← ht.objects]
    rfl
  · change h.handleData ++ _ = _
    rw [Sessions.add, List.map_append, ← ht.handleData]
    rfl
  · rw [Sessions.add, List.map_append, List.nodup_append]
    refine ⟨ht.ids, List.nodup_singleton _, fun x hx y hy => ?_⟩
    obtain ⟨z, hz, rfl⟩ := List.mem_map.1 hx
    obtain rfl := List.mem_singleton.1 hy
    exact (ht.used z hz).ne
  · obtain hx | hx := List.mem_append.1 hx
    · exact Nat.lt_succ_of_lt (ht.used x hx)
    · obtain rfl := List.mem_singleton.1 hx
      exact Nat.lt_succ_self _

theorem Tables.remove (ht : Tables h a) (hi : a.table[i]? = some session) :
    Tables (h.erase i) (a.remove session.id) := by
  have hrest : a.table.eraseIdx i = a.table.filter (·.id ≠ session.id) :=
    List.eraseIdx_eq_filter (f := Session.id) ht.ids hi
  refine ⟨?_, ?_, ?_, ?_, fun x hx => ht.used x (List.mem_filter.1 hx).1⟩
  · rw [Sessions.remove, ← hrest, ← List.eraseIdx_map, ← ht.handles]
    rfl
  · rw [Sessions.remove, ← hrest, ← List.eraseIdx_map, ← ht.objects]
    rfl
  · rw [Sessions.remove, ← hrest, ← List.eraseIdx_map, ← ht.handleData]
    rfl
  · exact ht.ids.sublist (List.filter_sublist.map _)

theorem Sessions.reopen_table (ht : Tables h a) (hi : a.table[i]? = some session) :
    (a.reopen session.id opened).table = a.table.set i { session with opened } :=
  (List.set_eq_map (f := Session.id) (fun x => { x with opened }) ht.ids hi).symm

theorem Tables.reopen (ht : Tables h a) (hi : a.table[i]? = some session) :
    Tables { h with handleData := h.handleData.set i opened } (a.reopen session.id opened) := by
  have hcolumn {β : Type} (f : Session Handle Object File Directory → β) :
      (a.reopen session.id opened).table.map f =
        (a.table.map f).set i (f { session with opened }) := by
    rw [Sessions.reopen_table ht hi, List.map_set]
  have hsame {β : Type} (f : Session Handle Object File Directory → β)
      (hf : f { session with opened } = f session) :
      (a.reopen session.id opened).table.map f = a.table.map f := by
    rw [hcolumn, hf]
    obtain ⟨hlt, heq⟩ := List.getElem?_eq_some_iff.1 hi
    rw [← heq, ← List.getElem_map f (h := by rwa [List.length_map]), List.set_getElem_self]
  refine ⟨ht.handles.trans (hsame _ rfl).symm, ht.objects.trans (hsame _ rfl).symm, ?_, ?_,
    fun x hx => ?_⟩
  · rw [hcolumn, ← ht.handleData]
  · rw [hsame _ rfl]
    exact ht.ids
  · obtain ⟨y, hy, rfl⟩ := List.mem_map.1 hx
    have := ht.used y hy
    split <;> exact this

theorem Tables.column (ht : Tables h a) (hi : a.table[i]? = some session) :
    h.handles[i]? = some session.handle ∧ h.objects[i]? = some session.object ∧
      h.handleData[i]? = some session.opened := by
  rw [ht.handles, ht.objects, ht.handleData, List.getElem?_map, List.getElem?_map,
    List.getElem?_map, hi]
  exact ⟨rfl, rfl, rfl⟩

/-- The entry is the same session still. -/
def Stays (a : Sessions Handle Object File Directory) (i : ℕ)
    (session : Session Handle Object File Directory) : Prop :=
  ∃ x, a.table[i]? = some x ∧ x.id = session.id ∧ x.handle = session.handle

theorem Stays.same (hi : a.table[i]? = some session) : Stays a i session := ⟨session, hi, rfl, rfl⟩

theorem Stays.add (hi : a.table[i]? = some session) : Stays (a.add entry opened) i session := by
  refine ⟨session, ?_, rfl, rfl⟩
  obtain ⟨hlt, -⟩ := List.getElem?_eq_some_iff.1 hi
  rw [Sessions.add, List.getElem?_append_left hlt, hi]

theorem Stays.reopen (ht : Tables h a) (hi : a.table[i]? = some session) :
    Stays (a.reopen session.id opened) i session := by
  obtain ⟨hlt, -⟩ := List.getElem?_eq_some_iff.1 hi
  refine ⟨{ session with opened }, ?_, rfl, rfl⟩
  rw [Sessions.reopen_table ht hi, List.getElem?_set_self hlt]

/-- What a command does to the table: an entry that stays where it is. -/
structure Served (files : Files File) (a : Sessions Handle Object File Directory) (i : ℕ)
    (session : Session Handle Object File Directory)
    (input : Input Handle Object File Directory) (h' : FSServiceHelper Handle Object File Directory)
    (a' : Sessions Handle Object File Directory) : Prop where
  serve : a.serve files session input = some a'
  tables : Tables h' a'
  stays : Stays a' i session

theorem user_served {files : Files File} {portIndex : ℕ} (ht : Tables h a)
    (hi : a.table[i]? = some session) (ho : session.opened = .session portIndex)
    (hrun : userCommandHandler h input = .ok h') : ∃ a', Served files a i session input h' a' := by
  unfold userCommandHandler at hrun
  split at hrun
  case h_1 file hreq =>
    cases hrun
    exact ⟨_, by rw [Sessions.serve, ho, hreq], ht.add, .add hi⟩
  case h_2 directory hreq =>
    cases hrun
    exact ⟨_, by rw [Sessions.serve, ho, hreq], ht.add, .add hi⟩
  case h_3 hreq =>
    cases hrun
    exact ⟨_, by rw [Sessions.serve, ho, hreq], ht, .same hi⟩
  case h_4 => cases hrun

theorem file_served {files : Files File} {file : File} (ht : Tables h a)
    (hi : a.table[i]? = some session) (ho : session.opened = .file file)
    (hrun : onFileIPCRequest h input files file i = .ok h') :
    ∃ a', Served files a i session input h' a' := by
  have hdata := (ht.column hi).2.2
  rw [ho] at hdata
  unfold onFileIPCRequest at hrun
  split at hrun
  case h_1 hreq =>
    rw [FSServiceHelper.replaceFileServer, hdata] at hrun
    cases hrun
    exact ⟨_, by rw [Sessions.serve, ho, hreq], ht.reopen hi, .reopen ht hi⟩
  case h_2 => cases hrun
  case h_3 hreq =>
    cases hrun
    exact ⟨_, by rw [Sessions.serve, ho, hreq], ht.add, .add hi⟩
  case h_4 hreq =>
    rw [hdata] at hrun
    cases hrun
    exact ⟨_, by rw [Sessions.serve, ho, hreq], ht.add, .add hi⟩
  case h_5 hreq =>
    cases hrun
    exact ⟨_, by rw [Sessions.serve, ho, hreq], ht, .same hi⟩
  case h_6 => cases hrun

theorem directory_served {files : Files File} {directory : Directory} (ht : Tables h a)
    (hi : a.table[i]? = some session) (ho : session.opened = .directory directory)
    (hrun : onDirIPCRequest h input = .ok h') : ∃ a', Served files a i session input h' a' := by
  unfold onDirIPCRequest at hrun
  split at hrun
  case h_1 hreq =>
    cases hrun
    exact ⟨_, by rw [Sessions.serve, ho, hreq], ht, .same hi⟩
  case h_2 hreq =>
    cases hrun
    exact ⟨_, by rw [Sessions.serve, ho, hreq], ht, .same hi⟩
  case h_3 => cases hrun

/-- A command is dispatched to what its session was opened for. -/
theorem invokeCommandHandler_eq (ht : Tables h a) (files : Files File)
    (hi : a.table[i]? = some session) : invokeCommandHandler h input files i =
      match session.opened with
      | .port => .ok (h, .doNothing)
      | .session _ => (userCommandHandler h input).map (·, .sendReply)
      | .file file => (onFileIPCRequest h input files file i).map (·, .sendReply)
      | .directory _ => (onDirIPCRequest h input).map (·, .sendReply) := by
  rw [invokeCommandHandler, (ht.column hi).2.2]
  cases session.opened <;> rfl

/-- The reply of a command. -/
def replyOf (session : Session Handle Object File Directory) : Reply Handle :=
  match session.opened with
  | .port => .doNothing
  | _ => .sendReply

theorem command_served {files : Files File} (ht : Tables h a) (hi : a.table[i]? = some session)
    (hrun : invokeCommandHandler h input files i = .ok (h', reply)) :
    reply = replyOf session ∧ ∃ a', Served files a i session input h' a' := by
  rw [invokeCommandHandler_eq ht files hi] at hrun
  cases ho : session.opened with
  | port =>
    rw [ho] at hrun
    cases hrun
    refine ⟨by rw [replyOf, ho], a, ?_, ht, .same hi⟩
    rw [Sessions.serve, ho]
  | session portIndex =>
    rw [ho] at hrun
    obtain ⟨x, hx, heq⟩ := map_ok hrun
    cases heq
    exact ⟨by rw [replyOf, ho], user_served ht hi ho hx⟩
  | file file =>
    rw [ho] at hrun
    obtain ⟨x, hx, heq⟩ := map_ok hrun
    cases heq
    exact ⟨by rw [replyOf, ho], file_served ht hi ho hx⟩
  | directory directory =>
    rw [ho] at hrun
    obtain ⟨x, hx, heq⟩ := map_ok hrun
    cases heq
    exact ⟨by rw [replyOf, ho], directory_served ht hi ho hx⟩

/-- The invariant: the tables, and a reply that goes to the position of its session. -/
structure Aligned (s : Service Handle Object File Directory)
    (a : Sessions Handle Object File Directory) : Prop where
  tables : Tables s.helper a
  reply : s.lastSignalled = none ∧ a.pending = none ∨
    ∃ (i : ℕ) (session : Session Handle Object File Directory),
      a.table[i]? = some session ∧ a.pending = some session.id ∧
        s.lastSignalled = some session.handle

theorem Aligned.parallel (hs : Aligned s a) (p : Params Object File) : Parallel p s a := by
  have ht := hs.tables
  refine ⟨ht.handles, ht.objects, ht.handleData, ht.ids, ⟨?_, ?_⟩, ?_, fun i session input hi => ?_⟩
  · rw [ht.handles, ht.objects, List.length_map, List.length_map]
  · rw [ht.handleData, ht.objects, List.length_map, List.length_map]
  · refine hs.reply.imp_right fun ⟨i, session, hi, hpending, hlast⟩ => ?_
    exact ⟨i, session, hi, hpending, (ht.column hi).1.trans hlast.symm, hlast⟩
  · rw [invokeCommandHandler_eq ht p.files hi]
    cases session.opened <;> rfl

/-- A turn is a step of the session whose entry the kernel has signalled. -/
theorem Aligned.turn (hs : Aligned s a) (hturn : Turn p s s') :
    ∃ a', FollowedTurn p (s, a) (s', a') ∧ Aligned s' a' := by
  obtain ⟨signal, index, input, hlow, hhigh, hrun⟩ := hturn
  have ht := hs.tables
  have hlength : s.helper.handles.length = a.table.length := by
    rw [ht.handles, List.length_map]
  have hfollow {a' : Sessions Handle Object File Directory} {session} (hindex : 0 ≤ index)
      (hi : a.table[index.toNat]? = some session)
      (hstep : SessionStep p a session input signal a') : FollowedTurn p (s, a) (s', a') :=
    ⟨signal, index, input, session, hrun, hindex, hi, hstep⟩
  have hentry (hindex : 0 ≤ index) : ∃ session, a.table[index.toNat]? = some session :=
    ⟨_, List.getElem?_eq_getElem (by omega)⟩
  cases signal with
  | failed => cases hrun
  | sessionClosed =>
    rw [runOnce] at hrun
    split at hrun
    · cases hrun
    next hindex =>
      obtain ⟨session, hi⟩ := hentry (by omega)
      refine ⟨_, hfollow (by omega) hi .closed, ?_⟩
      cases hrun
      exact ⟨{ ht.remove hi with }, .inl ⟨rfl, rfl⟩⟩
  | ok =>
    rw [runOnce] at hrun
    split at hrun
    · cases hrun
    next hindex =>
      obtain ⟨session, hi⟩ := hentry (by omega)
      obtain ⟨hhandle, hobject, -⟩ := ht.column hi
      rw [hhandle, hobject] at hrun
      dsimp only at hrun
      split at hrun
      next hport =>
        refine ⟨_, hfollow (by omega) hi (.accepted index.toNat hport), ?_⟩
        cases hrun
        have hadd : Tables (s.helper.append input.session (.session index.toNat))
            (a.add input.session (.session index.toNat)) := ht.add
        exact ⟨{ hadd with }, .inl ⟨rfl, rfl⟩⟩
      next hport =>
        cases hcall : invokeCommandHandler s.helper input p.files index.toNat with
        | error e =>
          rw [hcall] at hrun
          cases hrun
        | ok result =>
          obtain ⟨helper, reply⟩ := result
          obtain ⟨hreply, a', hserved⟩ := command_served ht hi hcall
          refine ⟨_, hfollow (by omega) hi (.served (by simpa using hport) hserved.serve), ?_⟩
          obtain ⟨x, hx, hid, hh⟩ := hserved.stays
          rw [hcall, hreply, replyOf] at hrun
          rw [Sessions.target]
          cases ho : session.opened <;> rw [ho] at hrun <;> cases hrun <;>
            refine ⟨{ hserved.tables with }, ?_⟩
          · exact .inl ⟨rfl, rfl⟩
          all_goals exact .inr ⟨index.toNat, x, hx, congrArg some hid.symm, congrArg some hh.symm⟩

theorem started_aligned (user ldr : Handle × Object) :
    Aligned (started user ldr : Service Handle Object File Directory)
      ((Sessions.add ⟨[], 0, none⟩ user .port).add ldr .port) := by
  have hempty : Tables (⟨⟨[], []⟩, []⟩ : FSServiceHelper Handle Object File Directory)
      ⟨[], 0, none⟩ := ⟨rfl, rfl, rfl, List.nodup_nil, nofun⟩
  exact ⟨hempty.add.add, .inl ⟨rfl, rfl⟩⟩

end Proofs

/-- Ports are the objects below two, and files are numbered. -/
def numbered : Params ℕ ℕ := ⟨(· < 2), ⟨fun file _ _ => file + 1, 0⟩⟩

end Mikage.FS.Serving
