import Mikage.Processes.PathBytes

/-!
# Commands with a path

The commands of the file system service that take a path. Most handlers restrict the static buffer to
the bytes the command declares; three hand it on as it is. The files of the host and the PXI process
are a parameter, `Host`, which is given everything that the archives read from the buffer.

- `PathCommand.run`: a command on the state of the service, with the contents of its static buffers.
- `run_congr`: commands do not depend on what follows the declared bytes, if they are `Bounded`.
- `run_bounded`: nothing less will do, `RenameFile` apart.
-/

namespace Mikage.FS

open Path

inductive CommandError where
  | path (e : PathError)
  | runtimeError (what : String)
  | invalid (what : String)
  /-- `SVCBreak(Panic)` -/
  | panic
  | divisionByZero
  deriving DecidableEq, Repr

/-- The archives a client has opened. The first three are behind PXI. -/
inductive Archive where
  /-- `ArchiveOwnNCCHSection` -/
  | ownNCCH (handle : Nat)
  /-- `ArchiveNCCHSection` with archive id 0x2345678a -/
  | titleId (handle : Nat)
  /-- `ArchiveNCCHSection` with archive id 0x2345678e -/
  | programId (handle : Nat)
  /-- The classes derived from `ArchiveNonPXI`. -/
  | nonPXI (object : Nat)

inductive Operation where
  | openFile (transaction openFlags attributes : BitVec 32)
  | openDirectory
  | createFile (transaction attributes : BitVec 32) (initialFileSize : BitVec 64)
  | createDirectory
  | deleteFile (transaction : BitVec 32)
  | deleteDirectory (transaction : BitVec 32) (recursive : Bool)
  | renameFile (transaction : BitVec 32)

/-- The words of a reply. -/
abbrev Reply := List (BitVec 32)

/-- The host and the PXI process. -/
structure Host (σ : Type) where
  /-- The process is known to the service. -/
  registered : σ → Nat → Bool
  /-- Opens an archive, given what has been read of its path. -/
  openArchive : (process : Nat) → (archiveId : BitVec 32) → (data : Bytes) →
    EStateM CommandError σ Archive
  /-- Validates the paths and does the operation. A file or directory that has been opened gets its
  session. -/
  operate : (object : Nat) → Operation → (paths : List Bytes) → EStateM CommandError σ Reply
  /-- Opens a section of an NCCH by its path of 20 bytes, where a RomFS is cut by its header. -/
  openSection : (handle : Nat) → (transaction openFlags attributes : BitVec 32) → (data : Bytes) →
    (romFS : Bool) → EStateM CommandError σ Reply

structure Service (σ : Type) where
  archives : Nat → Option Archive
  nextArchiveHandle : Nat
  host : σ

/-- Code of the service. -/
abbrev FSM (σ : Type) := EStateM CommandError (Service σ)

variable {σ : Type}

def onHost {α : Type} (x : EStateM CommandError σ α) : FSM σ α := fun s =>
  match x s.host with
  | .ok a host => .ok a { s with host := host }
  | .error e host => .error e { s with host := host }

/-- `path.size = path_size` -/
def PathArgument.restrict (path : PathArgument) : PathArgument :=
  { path with bufferSize := path.size }

def commonPath (path : PathArgument) (content : Nat → UInt8) : FSM σ CommonPath :=
  match CommonPath.create path.type (bytes content path.bufferSize) with
  | .ok path => pure path
  | .error e => throw (.path e)

def visit : CommonPath → FSM σ Bytes
  | .utf8 path => pure path
  | .binary _ =>
    throw (.path (.runtimeError "Binary path handling for ArchiveNonPXI not implemented"))

/-! ## Operations of an archive -/

/-- The PXI side of opening a file, and what `ArchiveNCCHSection` does with the result. -/
def openNCCHSection (host : Host σ) (handle : Nat) (byProgramId : Bool)
    (transaction openFlags attributes : BitVec 32) (size : Nat) (content : Nat → UInt8) :
    FSM σ Reply := do
  let _ ← commonPath ⟨2, size, size⟩ content
  if size ≠ (if byProgramId then 12 else 20) then
    throw (.runtimeError "Invalid file path for ProgramData archive")
  else
    let data := if byProgramId then List.replicate 8 0 ++ bytes content 12 else bytes content 20
    -- `ReadMemory32(path.addr + 8)`
    let romFS := ((bytes content 12).drop 8).all (· = 0)
    onHost (host.openSection handle transaction openFlags attributes data romFS)

/-- `ArchiveOwnNCCHSection::AdjustFilePath` moves the path 8 bytes ahead. -/
def adjusted (content : Nat → UInt8) (o : Nat) : UInt8 := if o < 8 then 0 else content (o - 8)

def Archive.openFile (host : Host σ) (archive : Archive) (transaction openFlags attributes : BitVec 32)
    (path : PathArgument) (content : Nat → UInt8) : FSM σ Reply :=
  match archive with
  | .nonPXI object =>
    if path.type = 2 then throw (.runtimeError "OpenFile with binary path not implemented for archive")
    else do
      let utf8Path ← visit (← commonPath path content)
      onHost (host.operate object (.openFile transaction openFlags attributes) [utf8Path])
  | .ownNCCH handle =>
    if path.type ≠ 2 then throw (.runtimeError "Unknown file path for PXI archive")
    else if path.bufferSize ≠ 12 then
      throw (.runtimeError "Expected file path with 12 bytes of data")
    else openNCCHSection host handle false transaction openFlags attributes 20 (adjusted content)
  | .titleId handle =>
    if path.type ≠ 2 then throw (.runtimeError "Unknown file path for PXI archive")
    else openNCCHSection host handle false transaction openFlags attributes path.bufferSize content
  | .programId handle =>
    if path.type ≠ 2 then throw (.runtimeError "Unknown file path for PXI archive")
    else openNCCHSection host handle true transaction openFlags attributes path.bufferSize content

/-- The other operations with one path. -/
def Archive.operate (host : Host σ) (archive : Archive) (operation : Operation) (path : PathArgument)
    (content : Nat → UInt8) : FSM σ Reply :=
  match archive with
  | .nonPXI object => do
    let utf8Path ← visit (← commonPath path content)
    onHost (host.operate object operation [utf8Path])
  | _ => throw (.runtimeError "Not implemented for ArchivePXI")

def Archive.renameFile (host : Host σ) (archive : Archive) (transaction : BitVec 32)
    (source target : PathArgument) (sourceContent targetContent : Nat → UInt8) : FSM σ Reply :=
  match archive with
  | .nonPXI object => do
    let sourcePath ← commonPath source sourceContent
    let targetPath ← commonPath target targetContent
    let sourcePath ← visit sourcePath
    let targetPath ← visit targetPath
    onHost (host.operate object (.renameFile transaction) [sourcePath, targetPath])
  | _ => throw (.runtimeError "Not implemented for ArchivePXI")

/-! ## Opening an archive -/

/-- The path of an extdata archive: the media type is 8 bits wide, and the upper word of the id is
replaced for archive 7. -/
def extDataPath (archiveId : Nat) (content : Nat → UInt8) : Bytes :=
  bytes content 1 ++ bytes (fun o => content (4 + o)) (if archiveId = 0x7 then 4 else 8)

/-- What the archives read of their paths, by id, in this process and in the PXI process. -/
def archiveData (registered : Bool) (archiveId : Nat) (path : PathArgument) (content : Nat → UInt8) :
    Except CommandError Bytes :=
  match archiveId with
  | 0x3 =>
    if !registered then .error (.runtimeError "process_infos.at")
    else if path.size ≠ 1 then .error (.runtimeError "Expected archive path with 1 byte of data")
    else .ok []
  | 0x4 => if !registered then .error (.runtimeError "process_infos.at") else .ok []
  | 0x8 =>
    if path.type ≠ 2 then .error (.runtimeError "Invalid path type (expected 2)")
    else if path.size ≠ 8 then .error (.runtimeError "Invalid path size (expected 8)")
    else .ok (bytes content 8)
  | 0x9 | 0x1234567d | 0x1234567e | 0x567890ac => .ok []
  | 0x6 | 0x7 | 0x12345678 => .ok (extDataPath archiveId content)
  | 0x2345678a =>
    if path.size = 0 then .error .divisionByZero
    -- the second word read is looked up at offset 8
    else if path.size ≤ 8 then
      .error (.runtimeError "Trying to access PXI buffer at invalid offset 0x8")
    else .ok (bytes content 9)
  | 0x2345678e => if path.size = 0 then .error .divisionByZero else .ok (bytes content 8)
  | _ => .error (.runtimeError "FS received OpenArchive on unknown archive ID")

def checkSize (path : PathArgument) (what : String) : FSM σ PUnit :=
  if path.bufferSize < path.size then throw (.runtimeError what) else pure ()

/-- `OpenArchive` -/
def openArchive (host : Host σ) (process : Nat) (archiveId : BitVec 32) (path : PathArgument)
    (content : Nat → UInt8) : FSM σ Archive := do
  let registered := host.registered (← get).host process
  if process > 5 ∧ !registered then throw (.runtimeError "Process is not registered to FS")
  else
    checkSize path "Given path size is larger than the total static buffer size"
    match archiveData registered archiveId.toNat path content with
    | .ok data => onHost (host.openArchive process archiveId data)
    | .error e => throw e

/-! ## Handlers -/

def handleOpenArchive (host : Host σ) (process : Nat) (archiveId : BitVec 32) (path : PathArgument)
    (content : Nat → UInt8) : FSM σ Nat := do
  let archive ← openArchive host process archiveId path content
  modify fun s =>
    let handle := (s.nextArchiveHandle + 1) % 2 ^ 64
    { s with
      nextArchiveHandle := handle
      -- `emplace` keeps an entry that is there
      archives := Function.update s.archives handle (some ((s.archives handle).getD archive)) }
  pure (← get).nextArchiveHandle

def tooLarge : String := "Given path length is larger than the static buffer size"

def findArchive (archive : Nat) (e : CommandError) : FSM σ Archive := do
  match (← get).archives archive with
  | some a => pure a
  | none => throw e

def handleOpenFile (host : Host σ) (archive : Nat) (transaction openFlags attributes : BitVec 32)
    (path : PathArgument) (content : Nat → UInt8) : FSM σ Reply := do
  let a ← findArchive archive (.runtimeError "Couldn't find the given archive handle")
  checkSize path tooLarge
  a.openFile host transaction openFlags attributes path.restrict content

def handleOpenFileDirectly (host : Host σ) (process : Nat)
    (transaction archiveId openFlags attributes : BitVec 32) (archivePath filePath : PathArgument)
    (archiveContent fileContent : Nat → UInt8) : FSM σ Reply := do
  let handle ← handleOpenArchive host process archiveId archivePath archiveContent
  -- the handle is assigned to a 32-bit variable
  handleOpenFile host (handle % 2 ^ 32) transaction openFlags attributes filePath fileContent

def handleDeleteFile (host : Host σ) (archive : Nat) (transaction : BitVec 32) (path : PathArgument)
    (content : Nat → UInt8) : FSM σ Reply := do
  let a ← findArchive archive (.invalid "Attempted to delete file from unknown archive handle")
  checkSize path tooLarge
  a.operate host (.deleteFile transaction) path.restrict content

def handleRenameFile (host : Host σ) (sourceArchive targetArchive : Nat) (transaction : BitVec 32)
    (source target : PathArgument) (sourceContent targetContent : Nat → UInt8) : FSM σ Reply := do
  if sourceArchive ≠ targetArchive then throw (.invalid "May not rename files across archives")
  let a ← findArchive sourceArchive
    (.invalid "Attempted to rename file from unknown archive handle")
  checkSize source "Given source path length is larger than the static buffer size"
  checkSize target "Given target path length is larger than the static buffer size"
  a.renameFile host transaction source target sourceContent targetContent

def handleDeleteDirectory (host : Host σ) (archive : Nat) (recursive : Bool)
    (transaction : BitVec 32) (path : PathArgument) (content : Nat → UInt8) : FSM σ Reply := do
  let a ← findArchive archive .panic
  checkSize path tooLarge
  a.operate host (.deleteDirectory transaction recursive) path.restrict content

def handleCreateFile (host : Host σ) (archive : Nat) (transaction attributes : BitVec 32)
    (initialFileSize : BitVec 64) (path : PathArgument) (content : Nat → UInt8) : FSM σ Reply := do
  checkSize path tooLarge
  let a ← findArchive archive .panic
  a.operate host (.createFile transaction attributes initialFileSize) path content

def handleCreateDirectory (host : Host σ) (archive : Nat) (path : PathArgument)
    (content : Nat → UInt8) : FSM σ Reply := do
  checkSize path tooLarge
  let a ← findArchive archive .panic
  a.operate host .createDirectory path content

def handleOpenDirectory (host : Host σ) (archive : Nat) (path : PathArgument)
    (content : Nat → UInt8) : FSM σ Reply := do
  let a ← findArchive archive .panic
  checkSize path tooLarge
  a.operate host .openDirectory path.restrict content

inductive PathCommand where
  | openFile (archive : Nat) (transaction openFlags attributes : BitVec 32) (path : PathArgument)
  | openFileDirectly (process : Nat) (transaction archiveId openFlags attributes : BitVec 32)
    (archivePath filePath : PathArgument)
  | openArchive (process : Nat) (archiveId : BitVec 32) (path : PathArgument)
  | openDirectory (archive : Nat) (path : PathArgument)
  | createFile (archive : Nat) (transaction attributes : BitVec 32) (initialFileSize : BitVec 64)
    (path : PathArgument)
  | createDirectory (archive : Nat) (path : PathArgument)
  | deleteFile (archive : Nat) (transaction : BitVec 32) (path : PathArgument)
  | deleteDirectory (archive : Nat) (recursive : Bool) (transaction : BitVec 32) (path : PathArgument)
  | renameFile (sourceArchive targetArchive : Nat) (transaction : BitVec 32)
    (source target : PathArgument)

/-- The bytes in the static buffers of a command. -/
abbrev Contents := Nat → Nat → UInt8

def PathCommand.run (host : Host σ) (contents : Contents) : PathCommand → FSM σ Reply
  | .openFile archive transaction openFlags attributes path =>
    handleOpenFile host archive transaction openFlags attributes path (contents 0)
  | .openFileDirectly process transaction archiveId openFlags attributes archivePath filePath =>
    handleOpenFileDirectly host process transaction archiveId openFlags attributes archivePath
      filePath (contents 0) (contents 1)
  | .openArchive process archiveId path => do
    let handle ← handleOpenArchive host process archiveId path (contents 0)
    pure [BitVec.ofNat 32 handle, BitVec.ofNat 32 (handle / 2 ^ 32)]
  | .openDirectory archive path => handleOpenDirectory host archive path (contents 0)
  | .createFile archive transaction attributes initialFileSize path =>
    handleCreateFile host archive transaction attributes initialFileSize path (contents 0)
  | .createDirectory archive path => handleCreateDirectory host archive path (contents 0)
  | .deleteFile archive transaction path =>
    handleDeleteFile host archive transaction path (contents 0)
  | .deleteDirectory archive recursive transaction path =>
    handleDeleteDirectory host archive recursive transaction path (contents 0)
  | .renameFile sourceArchive targetArchive transaction source target =>
    handleRenameFile host sourceArchive targetArchive transaction source target (contents 0)
      (contents 1)

/-- The paths of a command. -/
def PathCommand.paths : PathCommand → List PathArgument
  | .openFile _ _ _ _ path | .openArchive _ _ path | .openDirectory _ path
  | .createFile _ _ _ _ path | .createDirectory _ path | .deleteFile _ _ path
  | .deleteDirectory _ _ _ path => [path]
  | .openFileDirectly _ _ _ _ _ archivePath filePath => [archivePath, filePath]
  | .renameFile _ _ _ source target => [source, target]

/-- The buffers agree in the bytes the command declares. -/
def PathCommand.Agree (command : PathCommand) (contents contents' : Contents) : Prop :=
  ∀ i path, command.paths[i]? = some path → ∀ o < path.size, contents' i o = contents i o

/-- The reply and the state are the same whatever follows the declared bytes, on any host. -/
def PathCommand.Independent (archives : Nat → Option Archive) (command : PathCommand)
    (contents : Contents) : Prop :=
  ∀ (σ : Type) (host : Host σ) (s : Service σ), s.archives = archives → ∀ contents',
    command.Agree contents contents' → command.run host contents' s = command.run host contents s

/-! ## What an archive reads of a path -/

/-- The path holds what the archive reads of it, if that gets so far. -/
def Covers (path : PathArgument) (archiveId : Nat) : Prop :=
  match archiveId with
  | 0x6 | 0x12345678 => 12 ≤ path.size
  | 0x7 => 8 ≤ path.size
  | 0x2345678e => path.size = 0 ∨ 8 ≤ path.size
  | _ => True

/-- The paths of the commands that hand on the whole buffer are settled, and the paths of archives
cover what is read of them. -/
def PathCommand.Bounded (archives : Nat → Option Archive) (contents : Contents) : PathCommand → Prop
  | .openArchive _ archiveId path =>
    path.size ≤ path.bufferSize → Covers path archiveId.toNat
  | .openFileDirectly _ _ archiveId _ _ archivePath _ =>
    archivePath.size ≤ archivePath.bufferSize → Covers archivePath archiveId.toNat
  | .createFile archive _ _ _ path | .createDirectory archive path =>
    (∃ object, archives archive = some (.nonPXI object)) → path.size ≤ path.bufferSize →
      Settled path (contents 0)
  | .renameFile archive targetArchive _ source target => archive = targetArchive →
    (∃ object, archives archive = some (.nonPXI object)) → source.size ≤ source.bufferSize →
      target.size ≤ target.bufferSize → Settled source (contents 0) ∧ Settled target (contents 1)
  | _ => True

section

variable {host : Host σ} {path source target : PathArgument} {content content' : Nat → UInt8}
  {sourceContent sourceContent' targetContent targetContent' : Nat → UInt8} {archive : Archive}
  {operation : Operation} {transaction openFlags attributes archiveId : BitVec 32} {process : Nat}

theorem commonPath_congr (h : ∀ o < path.bufferSize, content' o = content o) :
    (commonPath path content' : FSM σ CommonPath) = commonPath path content := by
  rw [commonPath, commonPath, bytes_congr h]

theorem visit_commonPath : (commonPath path content >>= visit : FSM σ Bytes) =
    match utf8Path path content with
    | .ok path => pure path
    | .error e => throw (.path e) := by
  unfold commonPath utf8Path
  cases CommonPath.create path.type (bytes content path.bufferSize) with
  | error e => rfl
  | ok p => cases p <;> rfl

theorem openNCCHSection_congr {handle size : Nat} {byProgramId : Bool}
    (h : ∀ o < size, content' o = content o) :
    openNCCHSection host handle byProgramId transaction openFlags attributes size content' =
      openNCCHSection host handle byProgramId transaction openFlags attributes size content := by
  unfold openNCCHSection
  rw [commonPath_congr h]
  by_cases hsize : size = if byProgramId then 12 else 20
  · have h12 : bytes content' 12 = bytes content 12 := bytes_congr fun o ho => h o (by
      cases byProgramId <;> simp at hsize <;> omega)
    have hdata : (if byProgramId then List.replicate 8 0 ++ bytes content' 12 else bytes content' 20) =
        if byProgramId then List.replicate 8 0 ++ bytes content 12 else bytes content 20 := by
      cases byProgramId with
      | true => simp [h12]
      | false =>
        simp only [Bool.false_eq_true, if_false] at hsize ⊢
        exact bytes_congr fun o ho => h o (by omega)
    rw [hdata, h12]
  · simp only [ne_eq, hsize, not_false_eq_true, if_true]

theorem openFile_congr (h : ∀ o < path.bufferSize, content' o = content o) :
    archive.openFile host transaction openFlags attributes path content' =
      archive.openFile host transaction openFlags attributes path content := by
  cases archive with
  | nonPXI object => simp only [Archive.openFile, commonPath_congr h]
  | ownNCCH handle =>
    simp only [Archive.openFile]
    by_cases hsize : path.bufferSize = 12
    · rw [openNCCHSection_congr fun o ho => ?_]
      unfold adjusted
      split
      · rfl
      · exact h _ (by omega)
    · simp only [ne_eq, hsize, not_false_eq_true, if_true]
  | titleId handle => simp only [Archive.openFile, openNCCHSection_congr h]
  | programId handle => simp only [Archive.openFile, openNCCHSection_congr h]

theorem operate_congr (h : ∀ object, archive = .nonPXI object →
    utf8Path path content' = utf8Path path content) :
    archive.operate host operation path content' = archive.operate host operation path content := by
  cases archive with
  | nonPXI object =>
    have hvisit : (commonPath path content' >>= visit : FSM σ Bytes) =
        commonPath path content >>= visit := by
      rw [visit_commonPath, visit_commonPath, h object rfl]
    simp only [Archive.operate]
    rw [← bind_assoc, ← bind_assoc, hvisit]
  | _ => rfl

theorem utf8Path_congr (h : ∀ o < path.bufferSize, content' o = content o) :
    utf8Path path content' = utf8Path path content := by
  rw [utf8Path, utf8Path, bytes_congr h]

theorem checkSize_congr {α : Type} {what : String} {x y : FSM σ α}
    (h : path.size ≤ path.bufferSize → x = y) :
    (checkSize path what >>= fun _ => x) = checkSize path what >>= fun _ => y := by
  unfold checkSize
  by_cases hlt : path.bufferSize < path.size
  · rw [if_pos hlt]
    rfl
  · rw [h (Nat.le_of_not_lt hlt)]

theorem archiveData_congr {registered : Bool} {id : Nat}
    (h : ∀ o < path.size, content' o = content o) (hcovers : Covers path id) :
    archiveData registered id path content' = archiveData registered id path content := by
  have hfirst (n : Nat) (hn : n ≤ path.size) : bytes content' n = bytes content n :=
    bytes_congr fun o ho => h o (by omega)
  have hext (n : Nat) (hn : 4 + n ≤ path.size) :
      bytes (fun o => content' (4 + o)) n = bytes (fun o => content (4 + o)) n :=
    bytes_congr fun o ho => h (4 + o) (by omega)
  unfold archiveData
  split
  · rfl
  · rfl
  · by_cases hsize : path.size = 8
    · rw [hfirst 8 (by omega)]
    · simp only [ne_eq, hsize, not_false_eq_true, if_true]
  · rfl
  · rfl
  · rfl
  · rfl
  · have hle : 12 ≤ path.size := hcovers
    rw [extDataPath, extDataPath, hfirst 1 (by omega), if_neg (by decide), hext 8 (by omega)]
  · have hle : 8 ≤ path.size := hcovers
    rw [extDataPath, extDataPath, hfirst 1 (by omega), if_pos rfl, hext 4 (by omega)]
  · have hle : 12 ≤ path.size := hcovers
    rw [extDataPath, extDataPath, hfirst 1 (by omega), if_neg (by decide), hext 8 (by omega)]
  · by_cases hsize : path.size ≤ 8
    · simp only [hsize, if_true]
    · rw [hfirst 9 (by omega)]
  · have hle : path.size = 0 ∨ 8 ≤ path.size := hcovers
    rcases hle with hzero | hle
    · simp only [hzero, if_true]
    · rw [hfirst 8 hle]
  · rfl

theorem openArchive_congr (h : ∀ o < path.size, content' o = content o)
    (hcovers : path.size ≤ path.bufferSize → Covers path archiveId.toNat) :
    openArchive host process archiveId path content' =
      openArchive host process archiveId path content := by
  unfold openArchive
  refine bind_congr fun s => ?_
  dsimp only
  split
  · rfl
  · exact checkSize_congr fun hle => by rw [archiveData_congr h (hcovers hle)]

theorem handleOpenArchive_congr (h : ∀ o < path.size, content' o = content o)
    (hcovers : path.size ≤ path.bufferSize → Covers path archiveId.toNat) :
    handleOpenArchive host process archiveId path content' =
      handleOpenArchive host process archiveId path content := by
  rw [handleOpenArchive, handleOpenArchive, openArchive_congr h hcovers]

theorem handleOpenFile_congr {archive : Nat} (h : ∀ o < path.size, content' o = content o) :
    handleOpenFile host archive transaction openFlags attributes path content' =
      handleOpenFile host archive transaction openFlags attributes path content := by
  unfold handleOpenFile
  exact bind_congr fun a => checkSize_congr fun _ => openFile_congr h

theorem operate_restrict (h : ∀ o < path.size, content' o = content o) :
    archive.operate host operation path.restrict content' =
      archive.operate host operation path.restrict content :=
  operate_congr fun _ _ => utf8Path_congr h

theorem create_ne_binary {type : BitVec 32} (h : type.toNat ≠ 2) (data data' : Bytes) :
    CommonPath.create type data ≠ .ok (.binary data') := by
  unfold CommonPath.create
  split
  · nofun
  next h2 => exact absurd h2 h
  · nofun
  · split
    · nofun
    · unfold CommonPath.fromUtf16
      cases CommonPath.toBytes _ <;> nofun
  · nofun

/-- Settled paths are the same, or both binary, whose bytes nobody looks at. -/
theorem create_of_settled (hle : path.size ≤ path.bufferSize) (hsettled : Settled path content)
    (h : ∀ o < path.size, content' o = content o) :
    CommonPath.create path.type (bytes content' path.bufferSize) =
      CommonPath.create path.type (bytes content path.bufferSize) ∨
    ∃ data data',
      CommonPath.create path.type (bytes content' path.bufferSize) = .ok (.binary data') ∧
      CommonPath.create path.type (bytes content path.bufferSize) = .ok (.binary data) := by
  by_cases h2 : path.type.toNat = 2
  · simp only [CommonPath.create, h2, length_bytes]
    split
    · exact .inl rfl
    · exact .inr ⟨_, _, rfl, rfl⟩
  · have hutf8 := utf8Path_eq_of_settled hle hsettled h
    have hkeep (content : Nat → UInt8) :
        CommonPath.create path.type (bytes content path.bufferSize) =
          (utf8Path path content).map .utf8 := by
      unfold utf8Path
      cases hc : CommonPath.create path.type (bytes content path.bufferSize) with
      | error e => rfl
      | ok p =>
        cases p with
        | utf8 p => rfl
        | binary data => exact absurd hc (create_ne_binary h2 _ _)
    exact .inl (by rw [hkeep, hkeep, hutf8])

theorem renameFile_congr (hs : source.size ≤ source.bufferSize) (ht : target.size ≤ target.bufferSize)
    (hsettled : ∀ object, archive = .nonPXI object →
      Settled source sourceContent ∧ Settled target targetContent)
    (hsource : ∀ o < source.size, sourceContent' o = sourceContent o)
    (htarget : ∀ o < target.size, targetContent' o = targetContent o) :
    archive.renameFile host transaction source target sourceContent' targetContent' =
      archive.renameFile host transaction source target sourceContent targetContent := by
  cases archive with
  | nonPXI object =>
    obtain ⟨hs₁, ht₁⟩ := hsettled object rfl
    simp only [Archive.renameFile, commonPath]
    rcases create_of_settled hs hs₁ hsource with he | ⟨_, _, he', he⟩ <;>
      rcases create_of_settled ht ht₁ htarget with he₁ | ⟨_, _, he₁', he₁⟩
    · rw [he, he₁]
    · rw [he, he₁, he₁']
      rfl
    · rw [he, he', he₁]
      rfl
    · rw [he, he', he₁, he₁']
      rfl
  | _ => rfl

end

/-! ## Two runs -/

theorem findArchive_eq {archive : Nat} {e : CommandError} {s : Service σ} :
    findArchive archive e s =
      match s.archives archive with
      | some a => .ok a s
      | none => .error e s := by
  show (match s.archives archive with
    | some a => (pure a : FSM σ Archive)
    | none => throw e) s = _
  cases s.archives archive <;> rfl

theorem findArchive_bind {α : Type} {archive : Nat} {e : CommandError} {f : Archive → FSM σ α}
    {s : Service σ} : (findArchive archive e >>= f) s =
      match s.archives archive with
      | some a => f a s
      | none => .error e s := by
  show EStateM.bind (findArchive archive e) f s = _
  unfold EStateM.bind
  rw [findArchive_eq]
  cases s.archives archive <;> rfl

theorem checkSize_bind {α : Type} {path : PathArgument} {what : String} {x : FSM σ α}
    {s : Service σ} : (checkSize path what >>= fun _ => x) s =
      if path.bufferSize < path.size then .error (.runtimeError what) s else x s := by
  unfold checkSize
  split <;> rfl

/-- **Commands do not depend on what follows the declared bytes**, if they are bounded. -/
theorem run_congr {archives : Nat → Option Archive} {command : PathCommand} {contents : Contents}
    (h : command.Bounded archives contents) : command.Independent archives contents := by
  intro σ host s hs contents' hagree
  have hat (i : Nat) (path : PathArgument) (hp : command.paths[i]? = some path) := hagree i path hp
  -- the commands that hand on the whole buffer
  have whole {archive : Nat} {path : PathArgument} (operation : Operation)
      (h : (∃ object, archives archive = some (.nonPXI object)) → path.size ≤ path.bufferSize →
        Settled path (contents 0))
      (hpath : ∀ o < path.size, contents' 0 o = contents 0 o) :
      (checkSize path tooLarge >>= fun _ => findArchive archive .panic >>= fun a =>
        a.operate host operation path (contents' 0)) s =
      (checkSize path tooLarge >>= fun _ => findArchive archive .panic >>= fun a =>
        a.operate host operation path (contents 0)) s := by
    rw [checkSize_bind, checkSize_bind, findArchive_bind, findArchive_bind, hs]
    split
    · rfl
    next hle =>
      cases ha : archives archive with
      | none => rfl
      | some a =>
        have hle := Nat.le_of_not_lt hle
        refine congrFun (operate_congr fun object hobject => ?_) s
        exact utf8Path_eq_of_settled hle (h ⟨object, hobject ▸ ha⟩ hle) hpath
  cases command with
  | openFile archive transaction openFlags attributes path =>
    exact congrFun (handleOpenFile_congr (hat 0 path rfl)) s
  | openFileDirectly process transaction archiveId openFlags attributes archivePath filePath =>
    simp only [PathCommand.run, handleOpenFileDirectly]
    rw [handleOpenArchive_congr (hat 0 archivePath rfl) h]
    exact congrFun (bind_congr fun handle => handleOpenFile_congr (hat 1 filePath rfl)) s
  | openArchive process archiveId path =>
    simp only [PathCommand.run]
    rw [handleOpenArchive_congr (hat 0 path rfl) h]
  | openDirectory archive path =>
    exact congrFun (bind_congr fun a => checkSize_congr fun _ => operate_restrict (hat 0 path rfl)) s
  | deleteFile archive transaction path =>
    exact congrFun (bind_congr fun a => checkSize_congr fun _ => operate_restrict (hat 0 path rfl)) s
  | deleteDirectory archive recursive transaction path =>
    exact congrFun (bind_congr fun a => checkSize_congr fun _ => operate_restrict (hat 0 path rfl)) s
  | createFile archive transaction attributes initialFileSize path =>
    exact whole _ h (hat 0 path rfl)
  | createDirectory archive path => exact whole _ h (hat 0 path rfl)
  | renameFile sourceArchive targetArchive transaction source target =>
    simp only [PathCommand.run, handleRenameFile]
    split
    · rfl
    next hsame =>
      refine findArchive_bind.trans (Eq.trans ?_ findArchive_bind.symm)
      rw [hs]
      cases ha : archives sourceArchive with
      | none => rfl
      | some a =>
        refine congrFun (checkSize_congr fun hs => checkSize_congr fun ht => ?_) s
        exact renameFile_congr hs ht
          (fun object hobject => h (not_not.1 hsame) ⟨object, hobject ▸ ha⟩ hs ht)
          (hat 0 source rfl) (hat 1 target rfl)

/-! ## Nothing less will do -/

/-- A host that keeps what it is given. -/
def Host.recording : Host (List Bytes) where
  registered _ _ := true
  openArchive _ _ data := fun s => .ok (.nonPXI 0) (data :: s)
  operate _ _ paths := fun s => .ok [] (paths ++ s)
  openSection _ _ _ _ data _ := fun s => .ok [] (data :: s)

def Service.recording (archives : Nat → Option Archive) : Service (List Bytes) :=
  ⟨archives, 0, []⟩

section

variable {archives : Nat → Option Archive} {path : PathArgument} {content content' : Nat → UInt8}
  {archiveId : BitVec 32} {process : Nat}

theorem operate_recording {object : Nat} {operation : Operation} {s : Service (List Bytes)} :
    Archive.operate .recording (.nonPXI object) operation path content s =
      match utf8Path path content with
      | .ok p => .ok [] { s with host := p :: s.host }
      | .error e => .error (.path e) s := by
  simp only [Archive.operate]
  rw [← bind_assoc, visit_commonPath]
  cases utf8Path path content <;> rfl

theorem utf8Path_of_recording {object : Nat} {operation : Operation} {s : Service (List Bytes)}
    (h : Archive.operate .recording (.nonPXI object) operation path content' s =
      Archive.operate .recording (.nonPXI object) operation path content s) :
    utf8Path path content' = utf8Path path content := by
  rw [operate_recording, operate_recording] at h
  cases hp' : utf8Path path content' <;> cases hp : utf8Path path content <;> rw [hp', hp] at h <;>
    simp_all

theorem bytes_inj {n : Nat} (h : bytes content' n = bytes content n) :
    ∀ o < n, content' o = content o := by
  intro o ho
  have := congrArg (·[o]?) h
  simpa [bytes, ho] using this

theorem exists_ne (b : UInt8) : ∃ b', b' ≠ b := by
  by_cases h : b = 0
  · exact ⟨1, h ▸ by decide⟩
  · exact ⟨0, Ne.symm h⟩

/-- What is read of a path is within it, if it does not depend on what follows. -/
theorem covers_of_data {id : Nat} (h : ∀ content', (∀ o < path.size, content' o = content o) →
      archiveData true id path content' = archiveData true id path content) :
    Covers path id := by
  -- a byte behind the path that is read is changed
  have changed (n : Nat) (hn : path.size ≤ n) : ∃ content', content' n ≠ content n ∧
      archiveData true id path content' = archiveData true id path content := by
    obtain ⟨b, hb⟩ := exists_ne (content n)
    refine ⟨Function.update content n b, by rwa [Function.update_self], h _ fun o ho => ?_⟩
    rw [Function.update_of_ne (by omega)]
  unfold Covers
  split
  · by_contra hlt
    obtain ⟨content', hne, heq⟩ := changed 11 (by omega)
    have hdata : extDataPath 6 content' = extDataPath 6 content := Except.ok.inj heq
    exact hne (bytes_inj (List.append_inj_right hdata (by simp)) 7 (by decide))
  · by_contra hlt
    obtain ⟨content', hne, heq⟩ := changed 11 (by omega)
    have hdata : extDataPath 0x12345678 content' = extDataPath 0x12345678 content :=
      Except.ok.inj heq
    exact hne (bytes_inj (List.append_inj_right hdata (by simp)) 7 (by decide))
  · by_contra hlt
    obtain ⟨content', hne, heq⟩ := changed 7 (by omega)
    have hdata : extDataPath 7 content' = extDataPath 7 content := Except.ok.inj heq
    exact hne (bytes_inj (List.append_inj_right hdata (by simp)) 3 (by decide))
  · by_contra hlt
    obtain ⟨content', hne, heq⟩ := changed 7 (by omega)
    have hzero : path.size ≠ 0 := by omega
    simp only [archiveData, hzero, if_false] at heq
    exact hne (bytes_inj (Except.ok.inj heq) 7 (by decide))
  · trivial

theorem openArchive_recording (hle : path.size ≤ path.bufferSize) :
    openArchive .recording process archiveId path content (.recording archives) =
      match archiveData true archiveId.toNat path content with
      | .ok data => .ok (.nonPXI 0) ⟨archives, 0, [data]⟩
      | .error e => .error e (.recording archives) := by
  show ite (process > 5 ∧ (!true) = true) (_ : FSM (List Bytes) Archive) _ _ = _
  rw [if_neg (by simp), checkSize_bind, if_neg (Nat.not_lt.2 hle)]
  show (match archiveData true archiveId.toNat path content with
    | .ok data => onHost (Host.recording.openArchive process archiveId data)
    | .error e => throw e) _ = _
  cases archiveData true archiveId.toNat path content <;> rfl

theorem handleOpenArchive_recording (hle : path.size ≤ path.bufferSize) :
    handleOpenArchive .recording process archiveId path content (.recording archives) =
      match archiveData true archiveId.toNat path content with
      | .ok data => .ok 1
        ⟨Function.update archives 1 (some ((archives 1).getD (.nonPXI 0))), 1, [data]⟩
      | .error e => .error e (.recording archives) := by
  show EStateM.bind (openArchive _ _ _ _ _) _ _ = _
  unfold EStateM.bind
  rw [openArchive_recording hle]
  cases archiveData true archiveId.toNat path content with
  | error e => rfl
  | ok data =>
    have hfirst : (0 + 1) % 2 ^ 64 = 1 := by decide
    show EStateM.Result.ok ((0 + 1) % 2 ^ 64) (⟨Function.update archives ((0 + 1) % 2 ^ 64)
      (some ((archives ((0 + 1) % 2 ^ 64)).getD (.nonPXI 0))), (0 + 1) % 2 ^ 64, [data]⟩ :
      Service (List Bytes)) = _
    rw [hfirst]

/-- What comes after a path of an archive has been read. -/
theorem handleOpenArchive_bind {α : Type} {f : Nat → FSM (List Bytes) α}
    (hle : path.size ≤ path.bufferSize) :
    (handleOpenArchive .recording process archiveId path content >>= f) (.recording archives) =
      match archiveData true archiveId.toNat path content with
      | .ok data => f 1 ⟨Function.update archives 1 (some ((archives 1).getD (.nonPXI 0))), 1, [data]⟩
      | .error e => .error e (.recording archives) := by
  show EStateM.bind (handleOpenArchive _ _ _ _ _) _ _ = _
  unfold EStateM.bind
  rw [handleOpenArchive_recording hle]
  cases archiveData true archiveId.toNat path content <;> rfl

/-- What the host has kept at the end. -/
def kept {α : Type} : EStateM.Result CommandError (Service (List Bytes)) α → List Bytes
  | .ok _ s | .error _ s => s.host

theorem openNCCHSection_keeps {handle size : Nat} {byProgramId : Bool}
    {transaction openFlags attributes : BitVec 32} {s : Service (List Bytes)} : s.host <:+
      kept (openNCCHSection .recording handle byProgramId transaction openFlags attributes size content
        s) := by
  show s.host <:+ kept (EStateM.bind (commonPath ⟨2, size, size⟩ content) _ s)
  unfold EStateM.bind commonPath
  cases CommonPath.create (PathArgument.mk 2 size size).type (bytes content size) with
  | error e => exact List.suffix_refl _
  | ok p =>
    show s.host <:+ kept (ite (size ≠ if byProgramId then 12 else 20) (_ : FSM (List Bytes) Reply) _ s)
    by_cases hsize : size ≠ if byProgramId then 12 else 20
    · rw [if_pos hsize]
      exact List.suffix_refl _
    · rw [if_neg hsize]
      exact List.suffix_cons _ _

theorem openFile_keeps {archive : Archive} {transaction openFlags attributes : BitVec 32}
    {s : Service (List Bytes)} : s.host <:+
      kept (archive.openFile .recording transaction openFlags attributes path content s) := by
  cases archive with
  | nonPXI object =>
    simp only [Archive.openFile]
    split
    · exact List.suffix_refl _
    · rw [← bind_assoc, visit_commonPath]
      cases utf8Path path content with
      | error e => exact List.suffix_refl _
      | ok p => exact List.suffix_cons _ _
  | ownNCCH handle =>
    simp only [Archive.openFile]
    split
    · exact List.suffix_refl _
    · split
      · exact List.suffix_refl _
      · exact openNCCHSection_keeps
  | _ =>
    simp only [Archive.openFile]
    split
    · exact List.suffix_refl _
    · exact openNCCHSection_keeps

theorem handleOpenFile_keeps {archive : Nat} {transaction openFlags attributes : BitVec 32}
    {s : Service (List Bytes)} : s.host <:+ kept (handleOpenFile .recording archive transaction
      openFlags attributes path content s) := by
  unfold handleOpenFile
  rw [findArchive_bind]
  cases s.archives archive with
  | none => exact List.suffix_refl _
  | some a =>
    simp only
    rw [checkSize_bind]
    split
    · exact List.suffix_refl _
    · exact openFile_keeps

/-- The data read of an archive's path can be told from the end of a command. -/
theorem data_of_kept {α : Type} {f f' : Nat → FSM (List Bytes) α}
    (hf : ∀ n s, s.host <:+ kept (f n s)) (hf' : ∀ n s, s.host <:+ kept (f' n s))
    (hle : path.size ≤ path.bufferSize)
    (h : (handleOpenArchive .recording process archiveId path content' >>= f') (.recording archives) =
      (handleOpenArchive .recording process archiveId path content >>= f) (.recording archives)) :
    archiveData true archiveId.toNat path content' =
      archiveData true archiveId.toNat path content := by
  rw [handleOpenArchive_bind hle, handleOpenArchive_bind hle] at h
  cases hd' : archiveData true archiveId.toNat path content' with
  | error e' =>
    cases hd : archiveData true archiveId.toNat path content with
    | error e =>
      rw [hd', hd] at h
      simp only at h
      cases h
      rfl
    | ok data =>
      rw [hd', hd] at h
      simp only at h
      have hlast := hf 1 ⟨Function.update archives 1 (some ((archives 1).getD (.nonPXI 0))), 1, [data]⟩
      rw [← h] at hlast
      exact absurd (List.suffix_nil.1 hlast) (List.cons_ne_nil _ _)
  | ok data' =>
    have hlast' := hf' 1
      ⟨Function.update archives 1 (some ((archives 1).getD (.nonPXI 0))), 1, [data']⟩
    cases hd : archiveData true archiveId.toNat path content with
    | error e =>
      rw [hd', hd] at h
      simp only at h
      rw [h] at hlast'
      exact absurd (List.suffix_nil.1 hlast') (List.cons_ne_nil _ _)
    | ok data =>
      rw [hd', hd] at h
      simp only at h
      have hlast := hf 1 ⟨Function.update archives 1 (some ((archives 1).getD (.nonPXI 0))), 1, [data]⟩
      obtain ⟨before', he'⟩ := hlast'
      obtain ⟨before, he⟩ := hlast
      rw [← h, ← he'] at he
      have hsame : data = data' := by simpa using List.append_inj_right' he rfl
      rw [hsame]

end

/-- **Only bounded commands** do not depend on what follows the bytes of their paths. -/
theorem run_bounded {archives : Nat → Option Archive} {command : PathCommand} {contents : Contents}
    (hrename : ∀ archive targetArchive transaction source target,
      command ≠ .renameFile archive targetArchive transaction source target)
    (h : command.Independent archives contents) : command.Bounded archives contents := by
  have hrun := h (List Bytes) .recording (.recording archives) rfl
  -- another content of the first buffer
  have hagree {path : PathArgument} (hp : command.paths[0]? = some path) (content' : Nat → UInt8)
      (hcontent : ∀ o < path.size, content' o = contents 0 o) :
      command.Agree contents (Function.update contents 0 content') := by
    intro i path' hi
    cases i with
    | zero =>
      rw [hp] at hi
      rw [Function.update_self]
      exact Option.some.inj hi ▸ hcontent
    | succ i =>
      rw [Function.update_of_ne (Nat.succ_ne_zero i)]
      exact fun _ _ => rfl
  have whole {archive : Nat} {path : PathArgument} (operation : Operation)
      (hp : command.paths[0]? = some path)
      (hrun : ∀ contents', command.Agree contents contents' →
        (checkSize path tooLarge >>= fun _ => findArchive archive .panic >>= fun a =>
          a.operate .recording operation path (contents' 0)) (.recording archives) =
        (checkSize path tooLarge >>= fun _ => findArchive archive .panic >>= fun a =>
          a.operate .recording operation path (contents 0)) (.recording archives))
      (hobject : ∃ object, archives archive = some (.nonPXI object))
      (hle : path.size ≤ path.bufferSize) : Settled path (contents 0) := by
    obtain ⟨object, hobject⟩ := hobject
    refine (utf8Path_settled hle).2 fun content' hcontent => ?_
    have heq := hrun _ (hagree hp content' hcontent)
    rw [Function.update_self, checkSize_bind, checkSize_bind, if_neg (Nat.not_lt.2 hle),
      if_neg (Nat.not_lt.2 hle), findArchive_bind, findArchive_bind] at heq
    simp only [Service.recording, hobject] at heq
    exact utf8Path_of_recording heq
  cases command with
  | createFile archive transaction attributes initialFileSize path => exact whole _ rfl hrun
  | createDirectory archive path => exact whole _ rfl hrun
  | openArchive process archiveId path =>
    intro hle
    refine covers_of_data fun content' (hcontent : ∀ o < path.size, content' o = contents 0 o) => ?_
    have heq := hrun _ (hagree rfl content' hcontent)
    simp only [PathCommand.run, Function.update_self] at heq
    exact data_of_kept (fun _ _ => List.suffix_refl _) (fun _ _ => List.suffix_refl _) hle heq
  | openFileDirectly process transaction archiveId openFlags attributes path filePath =>
    intro hle
    refine covers_of_data fun content' (hcontent : ∀ o < path.size, content' o = contents 0 o) => ?_
    have heq := hrun _ (hagree rfl content' hcontent)
    simp only [PathCommand.run, Function.update_self] at heq
    exact data_of_kept (fun _ _ => handleOpenFile_keeps) (fun _ _ => handleOpenFile_keeps) hle heq
  | renameFile archive targetArchive transaction source target =>
    exact absurd rfl (hrename archive targetArchive transaction source target)
  | _ => trivial

/-- **Which commands depend on the declared bytes of their paths only**: the bounded ones and,
`RenameFile` apart, no others. -/
theorem path_bytes_suffice (archives : Nat → Option Archive) (command : PathCommand)
    (contents : Contents) :
    (command.Bounded archives contents → command.Independent archives contents) ∧
    ((∀ archive targetArchive transaction source target,
        command ≠ .renameFile archive targetArchive transaction source target) →
      (command.Independent archives contents ↔ command.Bounded archives contents)) :=
  ⟨run_congr, fun hrename => ⟨run_bounded hrename, run_congr⟩⟩

/-- The path "/" in a buffer of two bytes. -/
def rootPath : PathArgument := ⟨3, 1, 2⟩

/-- The directory that is created depends on the byte behind the path. -/
theorem path_bytes_leak : ¬ ∀ archives command contents,
    PathCommand.Independent archives command contents := by
  intro h
  have hcreate := h (fun _ => some (.nonPXI 0)) (.createDirectory 1 rootPath) fun _ _ => slash
  have hbounded := run_bounded (fun _ _ _ _ _ he => by cases he) hcreate
  rcases hbounded ⟨0, rfl⟩ (by decide) with hsize | ⟨o, -, hzero⟩
  · exact absurd hsize (by decide)
  · have hzero : slash = 0 := hzero
    exact absurd hzero (by decide)

end Mikage.FS
