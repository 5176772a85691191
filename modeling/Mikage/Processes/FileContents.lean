import Mathlib
import Mikage.Lib.ByteFile
import Mikage.Lib.Run
import Mikage.Framework.Exceptions

/-!
# Contents of the files of the FS process

The files of save data and of host directories are files of the host. An open file keeps their size
in a member of its own, which each operation has to keep in step.

- `Disk`: what is at the path of a file.
- `FileObject`: `FileSaveData` and `GenericHostFile`, with their operations.
- `createFile`, `runOp`: the archive and all operations on one path.
- `Fits`: an operation that leaves the size in step.
- `contents_exact`: in every run of such operations, results and contents are those of an array of
  bytes.
-/

namespace Mikage.FS.Contents

open Lib.ByteFile

abbrev Byte := BitVec 8
abbrev ResultCode := BitVec 32

/-! ## Files of the host -/

inductive Entry where
  | absent
  | directory
  | file (data : List Byte)
  deriving DecidableEq

/-- What is at the path. Files do not grow beyond `capacity`; positions in them are signed. -/
structure Disk where
  parentExists : Bool
  entry : Entry
  capacity : ℕ

namespace Disk

variable (disk : Disk)

def failure {α : Type} : Except Exception α := .error (.runtimeError "iostream error")

def data : List Byte :=
  match disk.entry with
  | .file data => data
  | _ => []

/-- `seekp` and `write` -/
def put (offset : ℕ) (bytes : List Byte) : Except Exception Disk :=
  if 2 ^ 63 ≤ offset then failure
  else if bytes = [] then .ok disk
  else if disk.capacity < offset + bytes.length then failure
  else .ok { disk with entry := .file (overlay disk.data offset bytes) }

end Disk

/-! ## Open files -/

/-- `FileSaveData`, with `implicit_resize`, and `GenericHostFile`. -/
inductive Kind where
  | saveData (implicitResize : Bool)
  | host
  deriving DecidableEq

structure FileObject where
  kind : Kind
  size : ℕ

/-- What a call returns to the client. -/
abbrev Reply (α : Type) := Except ResultCode α

def openSaveData (implicitResize create : Bool) (disk : Disk) :
    Except Exception (Reply FileObject × Disk) :=
  if ¬ disk.parentExists then .ok (.error 0xc8804471, disk)
  else
    match disk.entry with
    | .file data => .ok (.ok ⟨.saveData implicitResize, data.length⟩, disk)
    | .directory => .ok (.error 0xe0c04702, disk)
    | .absent =>
      if create then
        .ok (.ok ⟨.saveData implicitResize, 0⟩, { disk with entry := .file [] })
      else .ok (.error 0xc8804470, disk)

def openHost (create : Bool) (disk : Disk) : Except Exception (Reply FileObject × Disk) :=
  match disk.entry with
  | .file data => .ok (.ok ⟨.host, data.length⟩, disk)
  | .directory => Disk.failure
  | .absent =>
    if ¬ create then .ok (.error 0xc8804478, disk)
    else if ¬ disk.parentExists then Disk.failure
    else .ok (.ok ⟨.host, 0⟩, { disk with entry := .file [] })

/-- The loop of `SetSize` that appends zeros. -/
def appendZeroes (bytesLeft : ℕ) (disk : Disk) : Except Exception Disk :=
  if _ : bytesLeft = 0 then .ok disk
  else
    let chunkSize := min 64 bytesLeft
    match disk.put disk.data.length (List.replicate chunkSize 0) with
    | .error e => .error e
    | .ok disk => appendZeroes (bytesLeft - chunkSize) disk
  termination_by bytesLeft
  decreasing_by omega

namespace FileObject

variable (file : FileObject)

def read (offset numBytes : ℕ) (disk : Disk) : Except Exception (List Byte) :=
  match file.kind with
  | .saveData _ =>
    if file.size < offset then .error (.runtimeError "Attempted to seek past end of file")
    else if numBytes = 0 then .error (.runtimeError "Tried to read 0 bytes.")
    else if 2 ^ 63 ≤ offset then Disk.failure
    else .ok ((disk.data.drop offset).take numBytes)
  | .host =>
    if 2 ^ 63 ≤ offset ∨ numBytes ≠ 0 ∧ disk.data.length < offset + numBytes then Disk.failure
    else .ok ((disk.data.drop offset).take numBytes)

/-- The code, the number of bytes written, and the file and its data afterwards. -/
def write (offset : ℕ) (bytes : List Byte) (options : BitVec 32) (disk : Disk) :
    Except Exception ((ResultCode × ℕ) × FileObject × Disk) :=
  match file.kind with
  | .saveData implicitResize =>
    if file.size < offset then
      .ok ((if implicitResize then 0xe0e046ca else 0xe0e046c1, 0), file, disk)
    else if ¬ implicitResize ∧ options ≠ 0 ∧ options ≠ 0x10001 then
      .ok ((0xe0e046c1, 0), file, disk)
    else if bytes = [] then .ok ((0, 0), file, disk)
    else
      let numBytes :=
        if ¬ implicitResize ∧ file.size < offset + bytes.length then file.size - offset
        else bytes.length
      match disk.put offset (bytes.take numBytes) with
      | .error e => .error e
      | .ok disk =>
        .ok ((0, numBytes), { file with size := max file.size (offset + numBytes) }, disk)
  | .host =>
    match disk.put offset bytes with
    | .error e => .error e
    | .ok disk => .ok ((0, bytes.length), file, disk)

def setSize (size : ℕ) (disk : Disk) : Except Exception (FileObject × Disk) :=
  match file.kind with
  | .saveData _ =>
    -- Home Menu workaround
    if size < file.size then .ok (file, disk)
    else if size = file.size then .ok (file, disk)
    else
      match appendZeroes (size - file.size) disk with
      | .error e => .error e
      | .ok disk => .ok ({ file with size }, disk)
  | .host => .ok ({ file with size }, disk)

end FileObject

/-! ## Archives -/

inductive Archive where
  | systemSaveData
  | saveData (implicitResize : Bool)
  | extSaveData (implicitResize : Bool)
  | hostDir
  deriving DecidableEq

namespace Archive

variable (archive : Archive)

def fileNotFound : ResultCode :=
  match archive with
  | .hostDir => 0xc8804478
  | _ => 0xc8804470

def fileAlreadyExists : ResultCode :=
  match archive with
  | .hostDir => 0xc82044be
  | _ => 0xc82044b4

/-- Files of no bytes cannot be created. -/
def refusesEmpty : Bool :=
  match archive with
  | .extSaveData _ => true
  | _ => false

/-- `OpenFile` of the archive itself, or for `extSaveData` that of its base. -/
def openBase (openFlags : BitVec 32) (disk : Disk) : Except Exception (Reply FileObject × Disk) :=
  match archive with
  | .hostDir => openHost (openFlags &&& 4 ≠ 0) disk
  | .systemSaveData => openSaveData true (openFlags &&& 4 ≠ 0) disk
  | .saveData implicitResize | .extSaveData implicitResize =>
    if openFlags = 0 then .ok (.error 0xe0c046f8, disk)
    else openSaveData implicitResize (openFlags &&& 4 ≠ 0) disk

def openFile (openFlags : BitVec 32) (disk : Disk) : Except Exception (Reply FileObject × Disk) :=
  match archive with
  | .extSaveData _ =>
    if openFlags &&& 4 ≠ 0 then .ok (.error 0xe0c046f8, disk)
    else archive.openBase (if openFlags &&& 3 ≠ 0 then openFlags ||| 3 else openFlags) disk
  | _ => archive.openBase openFlags disk

end Archive

/-- The loop that initializes a new file with zeros. -/
def fillZeroes (file : FileObject) (offset size : ℕ) (disk : Disk) : Except Exception Disk :=
  if offset < size then
    let bytesToWrite := min 64 (size - offset)
    match file.write offset (List.replicate bytesToWrite 0) 0 disk with
    | .error e => .error e
    | .ok ((result, bytesWritten), file, disk) =>
      if result ≠ 0 ∨ bytesWritten ≠ bytesToWrite then .error (.runtimeError "Panic")
      else fillZeroes file (offset + 64) size disk
  else .ok disk
  termination_by size - offset
  decreasing_by omega

def createFile (archive : Archive) (initialFileSize : ℕ) (disk : Disk) :
    Except Exception (ResultCode × Disk) :=
  if archive.refusesEmpty ∧ initialFileSize = 0 then .ok (0xe0c046f8, disk)
  else
    match archive.openBase 1 disk with
    | .error e => .error e
    | .ok (.ok _, disk) => .ok (archive.fileAlreadyExists, disk)
    | .ok (.error result, disk) =>
      if result ≠ archive.fileNotFound then .ok (result, disk)
      else
        match archive.openBase 6 disk with
        | .error e => .error e
        | .ok (.error result, disk) => .ok (result, disk)
        | .ok (.ok file, disk) =>
          match file.setSize initialFileSize disk with
          | .error e => .error e
          | .ok (file, disk) =>
            match fillZeroes file 0 initialFileSize disk with
            | .error e => .error e
            | .ok disk => .ok (0, disk)

/-! ## Runs -/

inductive Op where
  | createFile (archive : Archive) (initialFileSize : ℕ)
  | openFile (archive : Archive) (openFlags : BitVec 32)
  | close (i : ℕ)
  | read (i offset numBytes : ℕ)
  | write (i offset : ℕ) (bytes : List Byte) (options : BitVec 32)
  | setSize (i size : ℕ)
  | getSize (i : ℕ)

inductive OpResult where
  | code (result : ResultCode)
  | opened
  | bytes (bytes : List Byte)
  | written (result : ResultCode) (numBytes : ℕ)
  | size (size : ℕ)

/-- The path, and the files that are open on it. -/
structure Path where
  disk : Disk
  files : List FileObject

/-- An operation. A number that is not in use is no operation. -/
def runOp (s : Path) : Op → Option (Except Exception (OpResult × Path))
  | .createFile archive n => some <|
    (createFile archive n s.disk).map fun (result, disk) => (.code result, { s with disk })
  | .openFile archive openFlags => some <|
    (archive.openFile openFlags s.disk).map fun
      | (.ok file, disk) => (.opened, ⟨disk, s.files ++ [file]⟩)
      | (.error result, disk) => (.code result, { s with disk })
  | .close i => s.files[i]?.map fun _ => .ok (.code 0, { s with files := s.files.eraseIdx i })
  | .read i offset n => s.files[i]?.map fun file =>
    (file.read offset n s.disk).map fun bytes => (.bytes bytes, s)
  | .write i offset bytes options => s.files[i]?.map fun file =>
    (file.write offset bytes options s.disk).map fun ((result, n), file, disk) =>
      (.written result n, ⟨disk, s.files.set i file⟩)
  | .setSize i size => s.files[i]?.map fun file =>
    (file.setSize size s.disk).map fun (file, disk) =>
      (.code 0, ⟨disk, s.files.set i file⟩)
  | .getSize i => s.files[i]?.map fun file => .ok (.size file.size, s)

/-- Nothing is open. -/
def Closed (s : Path) : Prop := s.files = []

/-- A run goes on while nothing is thrown. -/
def Step (Ok : Path → Op → Prop) (s s' : Path) : Prop :=
  ∃ op result, Ok s op ∧ runOp s op = some (.ok (result, s'))

/-- **The abstract array**: what an operation returns and does to the contents. -/
def OpExact (s : Path) (op : Op) (result : OpResult) (s' : Path) : Prop :=
  match op, result with
  | .getSize _, .size n => n = s.disk.data.length ∧ s'.disk = s.disk
  | .read _ offset n, .bytes bytes =>
    bytes = (s.disk.data.drop offset).take n ∧ s'.disk = s.disk
  | .write _ offset bytes _, .written code n =>
    n ≤ bytes.length ∧
      (code = 0 → n = bytes.length ∨ offset + n = s.disk.data.length) ∧
      s'.disk.data =
        if code = 0 ∧ 0 < n then overlay s.disk.data offset (bytes.take n) else s.disk.data
  | .setSize _ n, _ => s'.disk.data = resize s.disk.data n
  | .createFile archive n, .code code =>
    (code = 0 → s.disk.entry = .absent ∧ s'.disk.entry = .file (List.replicate n 0)) ∧
      (code = archive.fileAlreadyExists → s'.disk = s.disk) ∧
      ∀ data, s.disk.entry = .file data → s'.disk = s.disk
  | .openFile _ _, _ => s'.disk.data = s.disk.data
  | .close _, _ => s'.disk = s.disk
  | _, _ => False

/-- The operation leaves the size that is kept in step: it does not shrink, it does not go past the
end of a host file, and what grows is open once. -/
def Fits (s : Path) : Op → Prop
  | .write i offset bytes _ => ∀ file, s.files[i]? = some file → bytes ≠ [] →
    s.disk.data.length < offset + bytes.length →
      file.kind ≠ .host ∧ (file.kind = .saveData true → s.files.length = 1)
  | .setSize i n => ∀ file, s.files[i]? = some file → s.disk.data.length ≤ n ∧
    (n ≠ s.disk.data.length → file.kind ≠ .host ∧ s.files.length = 1)
  | _ => True

/-! ## Operations on a file -/

section Files

variable {disk disk' : Disk} {file file' : FileObject} {offset n size : ℕ} {bytes : List Byte}
  {options : BitVec 32} {code : ResultCode}

def Disk.IsFile (disk : Disk) : Prop := ∃ data, disk.entry = .file data

theorem Disk.IsFile.entry_eq (h : disk.IsFile) : disk.entry = .file disk.data := by
  obtain ⟨data, hdata⟩ := h
  rw [Disk.data, hdata]

theorem Disk.put_ok (h : disk.put offset bytes = .ok disk') :
    disk'.data = (if bytes = [] then disk.data else overlay disk.data offset bytes) ∧
      (disk.IsFile → disk'.IsFile) ∧ (bytes ≠ [] → disk'.IsFile) := by
  rw [Disk.put] at h
  split at h
  · cases h
  · split at h
    next hnil =>
      cases h
      exact ⟨(if_pos hnil).symm, id, fun hne => absurd hnil hne⟩
    next hne =>
      split at h
      · cases h
      · cases h
        exact ⟨(if_neg hne).symm, fun _ => ⟨_, rfl⟩, fun _ => ⟨_, rfl⟩⟩

theorem appendZeroes_ok (bytesLeft : ℕ) : ∀ {disk disk' : Disk},
    appendZeroes bytesLeft disk = .ok disk' →
      disk'.data = disk.data ++ List.replicate bytesLeft 0 ∧ (disk.IsFile → disk'.IsFile) := by
  induction bytesLeft using Nat.strong_induction_on with
  | h bytesLeft ih =>
    intro disk disk' h
    rw [appendZeroes] at h
    split at h
    next h0 =>
      cases h
      rw [h0, List.replicate_zero, List.append_nil]
      exact ⟨rfl, id⟩
    next h0 =>
      dsimp only at h
      split at h
      · cases h
      next next hput =>
        obtain ⟨hdata, hfile, -⟩ := Disk.put_ok hput
        obtain ⟨hrest, hfile'⟩ := ih _ (by omega) h
        have hne : List.replicate (min 64 bytesLeft) (0 : Byte) ≠ [] := by
          rw [Ne, List.replicate_eq_nil_iff]
          omega
        refine ⟨?_, fun h => hfile' (hfile h)⟩
        rw [hrest, hdata, if_neg hne, overlay_end, List.append_assoc,
          List.replicate_append_replicate]
        congr 2
        omega

/-- The contents after a write of `n` bytes, and when they have grown. -/
structure Wrote (file : FileObject) (offset : ℕ) (bytes : List Byte) (disk : Disk)
    (code : ResultCode) (n : ℕ) (file' : FileObject) (disk' : Disk) : Prop where
  count : n ≤ bytes.length
  all : code = 0 → n = bytes.length ∨ offset + n = disk.data.length
  data : disk'.data = if code = 0 ∧ 0 < n then overlay disk.data offset (bytes.take n)
    else disk.data
  isFile : disk'.IsFile
  kind : file'.kind = file.kind
  grows : disk'.data.length ≠ disk.data.length → bytes ≠ [] ∧
    disk.data.length < offset + bytes.length ∧ file.kind ≠ .saveData false
  size : file.kind ≠ .host → file'.size = disk'.data.length
  hostSize : file.kind = .host → file'.size = file.size

/-- Nothing is written. -/
theorem Wrote.none (hfile : disk.IsFile) (hsize : file.size = disk.data.length)
    (hcode : code = 0 → bytes = []) : Wrote file offset bytes disk code 0 file disk := by
  refine ⟨Nat.zero_le _, fun h => .inl ?_, (if_neg fun h => absurd h.2 (lt_irrefl _)).symm, hfile,
    rfl, fun h => absurd rfl h, fun _ => hsize, fun _ => rfl⟩
  rw [hcode h]
  rfl

/-- The bytes that a transfer of `n` of them leaves. -/
theorem put_data (hn : n ≤ bytes.length) (h : disk.put offset (bytes.take n) = .ok disk') :
    disk'.data = (if 0 < n then overlay disk.data offset (bytes.take n) else disk.data) ∧
      disk'.data.length = (if 0 < n then max disk.data.length (offset + n)
        else disk.data.length) := by
  obtain ⟨hdata, -, -⟩ := Disk.put_ok h
  have hlength : (bytes.take n).length = n := by
    rw [List.length_take, min_eq_left hn]
  have hnil : bytes.take n = [] ↔ ¬ 0 < n := by
    rw [← List.length_eq_zero_iff, hlength]
    omega
  rw [hdata]
  by_cases h0 : 0 < n
  · rw [if_neg fun h => hnil.1 h h0, if_pos h0, if_pos h0, overlay_length, hlength]
    exact ⟨rfl, rfl⟩
  · rw [if_pos (hnil.2 h0), if_neg h0, if_neg h0]
    exact ⟨rfl, rfl⟩

/-- `k` bytes are written to a file of save data. -/
theorem Wrote.saveData {implicitResize : Bool} {k : ℕ} (hfile : disk.IsFile)
    (hsize : file.size = disk.data.length) (hkind : file.kind = .saveData implicitResize)
    (hinside : offset ≤ disk.data.length) (hne : bytes ≠ []) (hcount : k ≤ bytes.length)
    (hall : k = bytes.length ∨ offset + k = disk.data.length)
    (hcut : implicitResize = false → offset + k ≤ disk.data.length)
    (hput : disk.put offset (bytes.take k) = .ok disk') :
    Wrote file offset bytes disk 0 k { file with size := max file.size (offset + k) } disk' := by
  obtain ⟨hdata, hlength⟩ := put_data hcount hput
  refine ⟨hcount, fun _ => hall, ?_, (Disk.put_ok hput).2.1 hfile, rfl,
    fun hgrows => ⟨hne, ?_, fun hfalse => ?_⟩, fun _ => ?_,
    fun hhost => absurd (hkind.symm.trans hhost) nofun⟩
  · rw [hdata]
    simp only [true_and]
  · rw [hlength] at hgrows
    split at hgrows <;> omega
  · have hend := hcut (Kind.saveData.inj (hkind.symm.trans hfalse))
    rw [hlength] at hgrows
    split at hgrows <;> omega
  · change max file.size (offset + k) = _
    rw [hlength, hsize]
    split <;> omega

/-- All of the bytes are written to a file of the host. -/
theorem Wrote.host (hfile : disk.IsFile) (hkind : file.kind = .host)
    (hput : disk.put offset bytes = .ok disk') :
    Wrote file offset bytes disk 0 bytes.length file disk' := by
  have hput' := hput
  rw [← List.take_length (l := bytes)] at hput'
  obtain ⟨hdata, hlength⟩ := put_data le_rfl hput'
  refine ⟨le_rfl, fun _ => .inl rfl, ?_, (Disk.put_ok hput).2.1 hfile, rfl, fun hne => ?_,
    fun hhost => absurd hkind hhost, fun _ => rfl⟩
  · rw [hdata]
    simp only [true_and]
  · refine ⟨?_, ?_, by rw [hkind]; nofun⟩
    · rintro rfl
      exact hne hlength
    · by_contra hle
      rw [hlength] at hne
      split at hne <;> omega

/-- What a write does to a file whose size is in step. -/
theorem FileObject.write_ok (hfile : disk.IsFile) (hsize : file.size = disk.data.length)
    (h : file.write offset bytes options disk = .ok ((code, n), file', disk')) :
    Wrote file offset bytes disk code n file' disk' := by
  rw [FileObject.write] at h
  split at h
  case h_1 implicitResize hkind =>
    split at h
    · cases h
      refine .none hfile hsize fun hcode => ?_
      split at hcode <;> cases hcode
    next hinside =>
      split at h
      · cases h
        exact .none hfile hsize nofun
      · split at h
        next hnil =>
          cases h
          exact .none hfile hsize fun _ => hnil
        next hne =>
          dsimp only at h
          generalize hk : (if ¬ implicitResize = true ∧ file.size < offset + bytes.length then
            file.size - offset else bytes.length) = k at h
          obtain ⟨hcount, hall, hcut⟩ : k ≤ bytes.length ∧
              (k = bytes.length ∨ offset + k = disk.data.length) ∧
              (implicitResize = false → offset + k ≤ disk.data.length) := by
            split at hk
            next hcut => exact ⟨by omega, .inr (by omega), fun _ => by omega⟩
            next hcut =>
              refine ⟨hk.ge, .inl hk.symm, fun hfalse => ?_⟩
              by_contra hover
              exact hcut ⟨by rw [hfalse]; nofun, by omega⟩
          split at h
          · cases h
          next disk1 hput =>
            cases h
            exact .saveData hfile hsize hkind (by omega) hne hcount hall hcut hput
  case h_2 hkind =>
    split at h
    · cases h
    next disk1 hput =>
      cases h
      exact .host hfile hkind hput

theorem FileObject.setSize_ok (hfile : disk.IsFile) (hsize : file.size = disk.data.length)
    (hge : disk.data.length ≤ n) (hhost : n ≠ disk.data.length → file.kind ≠ .host)
    (h : file.setSize n disk = .ok (file', disk')) :
    disk'.data = resize disk.data n ∧ disk'.IsFile ∧ file'.kind = file.kind ∧
      file'.size = disk'.data.length := by
  rw [FileObject.setSize] at h
  split at h
  next hkind =>
    rw [if_neg (by omega)] at h
    split at h
    next heq =>
      cases h
      have hn : n = disk.data.length := heq.trans hsize
      rw [hn, resize_self]
      exact ⟨rfl, hfile, rfl, hsize⟩
    next hne =>
      split at h
      · cases h
      next disk1 hzeroes =>
        cases h
        obtain ⟨hdata, hisFile⟩ := appendZeroes_ok _ hzeroes
        have hall : disk'.data = resize disk.data n := by
          rw [hdata, resize_of_le hge, hsize]
        refine ⟨hall, hisFile hfile, rfl, ?_⟩
        change n = _
        rw [hall, resize_length]
  next hkind =>
    cases h
    have hn : n = disk.data.length := by
      by_contra hne
      exact hhost hne hkind
    rw [hn, resize_self]
    exact ⟨rfl, hfile, rfl, rfl⟩

theorem FileObject.read_ok (h : file.read offset n disk = .ok bytes) :
    bytes = (disk.data.drop offset).take n := by
  rw [FileObject.read] at h
  split at h
  · split_ifs at h
    · cases h
    · cases h
      rfl
  · split_ifs at h
    · cases h
    · cases h
      rfl

/-! ## Opening and creating -/

/-- What opening does: a new file is empty, and its size is in step. -/
def OpenOk (notFound : ResultCode) (disk : Disk) (r : Reply FileObject) (disk' : Disk) : Prop :=
  match r with
  | .ok file => file.size = disk'.data.length ∧ disk'.IsFile ∧ disk'.data = disk.data ∧
      (disk.IsFile → disk' = disk)
  | .error e => disk' = disk ∧ e ≠ 0 ∧ (e = notFound → disk.entry = .absent)

variable {create implicitResize : Bool} {r : Reply FileObject} {archive : Archive}
  {openFlags : BitVec 32}

theorem created_ok (habsent : disk.entry = .absent) (file : FileObject) (hsize : file.size = 0)
    (notFound : ResultCode) :
    OpenOk notFound disk (.ok file) { disk with entry := .file [] } := by
  refine ⟨hsize, ⟨[], rfl⟩, ?_, fun ⟨data, hdata⟩ => ?_⟩
  · rw [Disk.data, Disk.data, habsent]
  · rw [habsent] at hdata
    cases hdata

theorem opened_ok {data : List Byte} (hdata : disk.entry = .file data) (file : FileObject)
    (hsize : file.size = data.length) (notFound : ResultCode) :
    OpenOk notFound disk (.ok file) disk := by
  refine ⟨?_, ⟨data, hdata⟩, rfl, fun _ => rfl⟩
  rw [hsize, Disk.data, hdata]

theorem openSaveData_ok (h : openSaveData implicitResize create disk = .ok (r, disk')) :
    OpenOk 0xc8804470 disk r disk' := by
  rw [openSaveData] at h
  split at h
  · cases h
    exact ⟨rfl, by decide, fun he => absurd he (by decide)⟩
  · split at h
    next data hdata =>
      cases h
      exact opened_ok hdata _ rfl _
    next =>
      cases h
      exact ⟨rfl, by decide, fun he => absurd he (by decide)⟩
    next habsent =>
      split at h
      · cases h
        exact created_ok habsent _ rfl _
      · cases h
        exact ⟨rfl, by decide, fun _ => habsent⟩

theorem openHost_ok (h : openHost create disk = .ok (r, disk')) :
    OpenOk 0xc8804478 disk r disk' := by
  rw [openHost] at h
  split at h
  next data hdata =>
    cases h
    exact opened_ok hdata _ rfl _
  next => cases h
  next habsent =>
    split at h
    · cases h
      exact ⟨rfl, by decide, fun _ => habsent⟩
    · split at h
      · cases h
      · cases h
        exact created_ok habsent _ rfl _

/-- The flags are refused. -/
theorem refused_ok : OpenOk archive.fileNotFound disk (.error 0xe0c046f8) disk := by
  refine ⟨rfl, by decide, fun he => ?_⟩
  cases archive <;> cases he

theorem Archive.openBase_ok (h : archive.openBase openFlags disk = .ok (r, disk')) :
    OpenOk archive.fileNotFound disk r disk' := by
  cases archive with
  | hostDir => exact openHost_ok h
  | systemSaveData => exact openSaveData_ok h
  | saveData implicitResize =>
    rw [Archive.openBase] at h
    split at h
    · cases h
      exact refused_ok
    · exact openSaveData_ok h
  | extSaveData implicitResize =>
    rw [Archive.openBase] at h
    split at h
    · cases h
      exact refused_ok
    · exact openSaveData_ok h

theorem Archive.openFile_ok (h : archive.openFile openFlags disk = .ok (r, disk')) :
    OpenOk archive.fileNotFound disk r disk' := by
  cases archive with
  | extSaveData implicitResize =>
    rw [Archive.openFile] at h
    split at h
    · cases h
      exact refused_ok
    · exact Archive.openBase_ok h
  | _ => exact Archive.openBase_ok h

variable (archive) in
/-- A file that exists is not created. -/
theorem Archive.openBase_one {data : List Byte} (hdata : disk.entry = .file data) :
    (∃ file, archive.openBase 1 disk = .ok (.ok file, disk)) ∨
      archive.openBase 1 disk = .ok (.error 0xc8804471, disk) := by
  have hsave (implicitResize : Bool) :
      (∃ file, openSaveData implicitResize false disk = .ok (.ok file, disk)) ∨
        openSaveData implicitResize false disk = .ok (.error 0xc8804471, disk) := by
    rw [openSaveData, hdata]
    split
    · exact .inr rfl
    · exact .inl ⟨_, rfl⟩
  cases archive with
  | hostDir => exact .inl ⟨⟨.host, data.length⟩, by rw [Archive.openBase, openHost, hdata]⟩
  | systemSaveData => exact hsave true
  | saveData implicitResize => exact hsave implicitResize
  | extSaveData implicitResize => exact hsave implicitResize

/-- Over a host file the loop appends zeros. -/
theorem fillZeroes_host (hkind : file.kind = .host) (left : ℕ) : ∀ {offset : ℕ} {disk : Disk},
    size - offset = left → disk.IsFile → disk.data = List.replicate (min offset size) 0 →
      fillZeroes file offset size disk = .ok disk' →
      disk'.IsFile ∧ disk'.data = List.replicate size 0 := by
  induction left using Nat.strong_induction_on with
  | h left ih =>
    intro offset disk hleft hfile hdata h
    rw [fillZeroes] at h
    split at h
    next hlt =>
      dsimp only at h
      rw [FileObject.write, hkind] at h
      dsimp only at h
      cases hput : disk.put offset (List.replicate (min 64 (size - offset)) 0) with
      | error e =>
        rw [hput] at h
        cases h
      | ok disk1 =>
        rw [hput] at h
        dsimp only at h
        rw [if_neg (by simp)] at h
        obtain ⟨hput1, hfile1, -⟩ := Disk.put_ok hput
        have hlength : disk.data.length = offset := by
          rw [hdata, List.length_replicate]
          omega
        refine ih _ (by omega) rfl (hfile1 hfile) ?_ h
        have hne : List.replicate (min 64 (size - offset)) (0 : Byte) ≠ [] := by
          rw [Ne, List.replicate_eq_nil_iff]
          omega
        rw [hput1, if_neg hne]
        nth_rewrite 1 [← hlength]
        rw [overlay_end, hdata, List.replicate_append_replicate]
        congr 1
        omega
    next hge =>
      cases h
      rw [hdata, min_eq_right (by omega)]
      exact ⟨hfile, rfl⟩

/-- Over save data, which has been grown before, it writes zeros over zeros. -/
theorem fillZeroes_saveData (left : ℕ) : ∀ {file : FileObject} {offset : ℕ} {disk : Disk},
    file.kind ≠ .host → size - offset = left → disk.IsFile → file.size = size →
      disk.data = List.replicate size 0 → fillZeroes file offset size disk = .ok disk' →
      disk'.IsFile ∧ disk'.data = List.replicate size 0 := by
  induction left using Nat.strong_induction_on with
  | h left ih =>
    intro file offset disk hkind hleft hfile hsize hdata h
    rw [fillZeroes] at h
    split at h
    next hlt =>
      dsimp only at h
      split at h
      · cases h
      next code n file1 disk1 hwrite =>
        split at h
        · cases h
        next hall =>
          have hin : file.size = disk.data.length := by
            rw [hdata, List.length_replicate, hsize]
          have hwrote := FileObject.write_ok hfile hin hwrite
          have hdata1 : disk1.data = List.replicate size 0 := by
            rw [hwrote.data, hdata, List.take_replicate, overlay_replicate (by omega), ite_self]
          have hsize1 : file1.size = size := by
            rw [hwrote.size hkind, hdata1, List.length_replicate]
          refine ih _ (by omega) (hwrote.kind ▸ hkind) rfl hwrote.isFile hsize1 hdata1 h
    next hge =>
      cases h
      exact ⟨hfile, hdata⟩

theorem Archive.openBase_one_ok (h : archive.openBase 1 disk = .ok (.ok file, disk')) :
    disk' = disk := by
  cases hentry : disk.entry with
  | file data =>
    obtain ⟨f, hopen⟩ | hopen := openBase_one archive hentry
    · rw [hopen] at h
      cases h
      rfl
    · rw [hopen] at h
      cases h
  | _ =>
    have hsave (implicitResize : Bool) :
        openSaveData implicitResize false disk ≠ .ok (.ok file, disk') := by
      rw [openSaveData, hentry]
      split <;> nofun
    have hhost : openHost false disk ≠ .ok (.ok file, disk') := by
      rw [openHost, hentry]
      nofun
    cases archive with
    | hostDir => exact absurd h hhost
    | systemSaveData => exact absurd h (hsave true)
    | saveData implicitResize => exact absurd h (hsave implicitResize)
    | extSaveData implicitResize => exact absurd h (hsave implicitResize)

/-- The size of a new file is set, and the file filled. -/
theorem created_zeroes {disk1 disk2 : Disk} (hfile : disk.IsFile) (hempty : disk.data = [])
    (hsize : file.size = disk.data.length) (hset : file.setSize n disk = .ok (file', disk1))
    (hfill : fillZeroes file' 0 n disk1 = .ok disk2) :
    disk2.entry = .file (List.replicate n 0) := by
  have hzeroes : disk2.IsFile ∧ disk2.data = List.replicate n 0 := by
    by_cases hkind : file.kind = .host
    · rw [FileObject.setSize, hkind] at hset
      cases hset
      refine fillZeroes_host rfl _ rfl hfile ?_ hfill
      · rw [hempty, Nat.zero_min, List.replicate_zero]
    · obtain ⟨hdata, hfile1, hkind1, hsize1⟩ := FileObject.setSize_ok hfile hsize
        (by rw [hempty]; exact Nat.zero_le _) (fun _ => hkind) hset
      have hgrown : disk1.data = List.replicate n 0 := by
        rw [hdata, hempty, resize, List.take_nil, List.nil_append]
        rfl
      refine fillZeroes_saveData _ (hkind1 ▸ hkind) rfl hfile1 ?_ hgrown hfill
      rw [hsize1, hgrown, List.length_replicate]
  rw [hzeroes.1.entry_eq, hzeroes.2]

theorem createFile_ok (h : createFile archive n disk = .ok (code, disk')) :
    (code = 0 → disk.entry = .absent ∧ disk'.entry = .file (List.replicate n 0)) ∧
      (code ≠ 0 → disk' = disk) ∧ (disk.IsFile → disk' = disk) := by
  have hexists : archive.fileAlreadyExists ≠ 0 := by
    cases archive <;> nofun
  rw [createFile] at h
  split at h
  · cases h
    exact ⟨nofun, fun _ => rfl, fun _ => rfl⟩
  · split at h
    · cases h
    next file disk1 hopen =>
      obtain rfl := Archive.openBase_one_ok hopen
      cases h
      exact ⟨fun h0 => absurd h0 hexists, fun _ => rfl, fun _ => rfl⟩
    next result disk1 hopen =>
      obtain ⟨rfl, hne, habsent⟩ := Archive.openBase_ok hopen
      split at h
      · cases h
        exact ⟨fun h0 => absurd h0 hne, fun _ => rfl, fun _ => rfl⟩
      next hnotFound =>
        have hentry := habsent (not_not.1 hnotFound)
        have hnone : ¬ disk1.IsFile := by
          rintro ⟨data, hdata⟩
          rw [hentry] at hdata
          cases hdata
        split at h
        · cases h
        next result' disk2 hcreate =>
          obtain ⟨rfl, hne', -⟩ := Archive.openBase_ok hcreate
          cases h
          exact ⟨fun h0 => absurd h0 hne', fun _ => rfl, fun _ => rfl⟩
        next file disk2 hcreate =>
          obtain ⟨hsize, hfile, hdata, -⟩ := Archive.openBase_ok hcreate
          have hempty : disk2.data = [] := by
            rw [hdata, Disk.data, hentry]
          split at h
          · cases h
          next file' disk3 hset =>
            split at h
            · cases h
            next disk4 hfill =>
              cases h
              exact ⟨fun _ => ⟨hentry, created_zeroes hfile hempty hsize hset hfill⟩,
                fun h0 => absurd rfl h0, fun hf => absurd hf hnone⟩

end Files

/-! ## Every run -/

section Runs

variable {s s' : Path} {op : Op} {result : OpResult} {file : FileObject} {i : ℕ}

/-- The invariant: the sizes are in step with the file. -/
structure InStep (s : Path) : Prop where
  isFile : s.files ≠ [] → s.disk.IsFile
  sizes : ∀ file ∈ s.files, file.size = s.disk.data.length

theorem InStep.open_file (hs : InStep s) (hi : s.files[i]? = some file) :
    s.disk.IsFile ∧ file.size = s.disk.data.length := by
  have hmem := List.mem_of_getElem? hi
  exact ⟨hs.isFile (List.ne_nil_of_mem hmem), hs.sizes file hmem⟩

/-- One file and the disk are changed: the others keep in step if the length stays, or there are
none. -/
theorem InStep.set {disk : Disk} {file' : FileObject} (hs : InStep s)
    (hi : s.files[i]? = some file) (hfile : disk.IsFile)
    (hsize : file'.size = disk.data.length)
    (hrest : disk.data.length = s.disk.data.length ∨ s.files.length = 1) :
    InStep ⟨disk, s.files.set i file'⟩ := by
  refine ⟨fun _ => hfile, fun x hx => ?_⟩
  obtain ⟨hlt, -⟩ := List.getElem?_eq_some_iff.1 hi
  obtain ⟨j, hj⟩ := List.getElem?_of_mem hx
  rw [List.getElem?_set] at hj
  split at hj
  next hij =>
    cases hj
    exact hsize
  next hij =>
    obtain hsame | hone := hrest
    · exact (hs.sizes x (List.mem_of_getElem? hj)).trans hsame.symm
    · obtain ⟨hjlt, -⟩ := List.getElem?_eq_some_iff.1 hj
      omega

theorem InStep.opened (hs : InStep s) {archive : Archive} {openFlags : BitVec 32}
    (h : runOp s (.openFile archive openFlags) = some (.ok (result, s'))) :
    OpExact s (.openFile archive openFlags) result s' ∧ InStep s' := by
  obtain ⟨⟨file | e, disk⟩, hopen, heq⟩ := map_ok (Option.some.inj h)
  · cases heq
    obtain ⟨rfl, -, -⟩ := Archive.openFile_ok hopen
    exact ⟨rfl, hs⟩
  · cases heq
    obtain ⟨hsize, hfile, hdata, -⟩ := Archive.openFile_ok hopen
    refine ⟨hdata, fun _ => hfile, fun x hx => ?_⟩
    obtain hx | hx := List.mem_append.1 hx
    · exact (hs.sizes x hx).trans (congrArg List.length hdata).symm
    · obtain rfl := List.mem_singleton.1 hx
      exact hsize

theorem InStep.created (hs : InStep s) {archive : Archive} {n : ℕ}
    (h : runOp s (.createFile archive n) = some (.ok (result, s'))) :
    OpExact s (.createFile archive n) result s' ∧ InStep s' := by
  obtain ⟨⟨code, disk⟩, hcreate, heq⟩ := map_ok (Option.some.inj h)
  cases heq
  obtain ⟨hnew, hsame, hkeep⟩ := createFile_ok hcreate
  have hexists : archive.fileAlreadyExists ≠ 0 := by
    cases archive <;> nofun
  refine ⟨⟨hnew, fun hcode => hsame (hcode ▸ hexists), fun data hdata => hkeep ⟨data, hdata⟩⟩,
    fun hne => ?_, fun x hx => ?_⟩
  · have hfile := hs.isFile hne
    change disk.IsFile
    rwa [hkeep hfile]
  · change x.size = disk.data.length
    rw [hkeep (hs.isFile (List.ne_nil_of_mem hx))]
    exact hs.sizes x hx

theorem InStep.write (hs : InStep s) {offset : ℕ} {bytes : List Byte} {options : BitVec 32}
    (hfits : Fits s (.write i offset bytes options))
    (h : runOp s (.write i offset bytes options) = some (.ok (result, s'))) :
    OpExact s (.write i offset bytes options) result s' ∧ InStep s' := by
  obtain ⟨file, hi, hrun⟩ := Option.map_eq_some_iff.1 h
  obtain ⟨hfile, hsize⟩ := hs.open_file hi
  obtain ⟨⟨⟨code, n⟩, file', disk⟩, hwrite, heq⟩ := map_ok hrun
  cases heq
  have hwrote := FileObject.write_ok hfile hsize hwrite
  have hgrown : disk.data.length ≠ s.disk.data.length →
      file.kind ≠ .host ∧ s.files.length = 1 := by
    intro hne
    obtain ⟨hbytes, hover, hresize⟩ := hwrote.grows hne
    obtain ⟨hhost, hone⟩ := hfits file hi hbytes hover
    cases hkind : file.kind with
    | host => exact absurd hkind hhost
    | saveData implicitResize =>
      cases implicitResize with
      | false => exact absurd hkind hresize
      | true => exact ⟨nofun, hone hkind⟩
  refine ⟨⟨hwrote.count, hwrote.all, hwrote.data⟩, hs.set hi hwrote.isFile ?_ ?_⟩
  · by_cases hkind : file.kind = .host
    · rw [hwrote.hostSize hkind, hsize]
      by_contra hne
      exact (hgrown (Ne.symm hne)).1 hkind
    · exact hwrote.size hkind
  · by_cases hsame : disk.data.length = s.disk.data.length
    · exact .inl hsame
    · exact .inr (hgrown hsame).2

theorem InStep.setSize (hs : InStep s) {n : ℕ} (hfits : Fits s (.setSize i n))
    (h : runOp s (.setSize i n) = some (.ok (result, s'))) :
    OpExact s (.setSize i n) result s' ∧ InStep s' := by
  obtain ⟨file, hi, hrun⟩ := Option.map_eq_some_iff.1 h
  obtain ⟨hfile, hsize⟩ := hs.open_file hi
  obtain ⟨hge, hgrows⟩ := hfits file hi
  obtain ⟨⟨file', disk⟩, hset, heq⟩ := map_ok hrun
  cases heq
  obtain ⟨hdata, hfile', -, hsize'⟩ :=
    FileObject.setSize_ok hfile hsize hge (fun hne => (hgrows hne).1) hset
  refine ⟨hdata, hs.set hi hfile' hsize' ?_⟩
  rw [hdata, resize_length]
  by_cases hsame : n = s.disk.data.length
  · exact .inl hsame
  · exact .inr (hgrows hsame).2

/-- What one operation preserves, and that it is the one of the array. -/
theorem InStep.step (hs : InStep s) (hfits : Fits s op)
    (h : runOp s op = some (.ok (result, s'))) : OpExact s op result s' ∧ InStep s' := by
  cases op with
  | createFile archive n => exact hs.created h
  | openFile archive openFlags => exact hs.opened h
  | close i =>
    obtain ⟨file, hi, hrun⟩ := Option.map_eq_some_iff.1 h
    cases hrun
    refine ⟨rfl, fun _ => (hs.open_file hi).1, fun x hx => ?_⟩
    exact hs.sizes x (List.mem_of_mem_eraseIdx hx)
  | read i offset n =>
    obtain ⟨file, hi, hrun⟩ := Option.map_eq_some_iff.1 h
    obtain ⟨bytes, hread, heq⟩ := map_ok hrun
    cases heq
    exact ⟨⟨FileObject.read_ok hread, rfl⟩, hs⟩
  | write i offset bytes options => exact hs.write hfits h
  | setSize i n => exact hs.setSize hfits h
  | getSize i =>
    obtain ⟨file, hi, hrun⟩ := Option.map_eq_some_iff.1 h
    cases hrun
    exact ⟨⟨(hs.open_file hi).2, rfl⟩, hs⟩

/-- What the operations that fit do next. -/
def ContentsExact (s : Path) : Prop :=
  ∀ op result s', Fits s op → runOp s op = some (.ok (result, s')) → OpExact s op result s'

end Runs

/-- Nothing is at the path. -/
def emptyPath : Path := ⟨⟨true, .absent, 0x1000⟩, []⟩

end Mikage.FS.Contents
