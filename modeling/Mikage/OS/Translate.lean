import Mikage.Lib.Account
import Mikage.Lib.Masks
import Mikage.Memory.VirtualMemory
import Mikage.Platform.Ipc

/-!
# The translation of an IPC message

`OS::TranslateIPCMessage` over the words of the two threads' local storage. A `Message` is the state
of one call: the words, the local variables `tls_offset` and `dest_static_buffers_used_mask`, and
what the rest of the system is; it also records which words and which bytes have been accessed.

What the call needs of the rest of the system is a parameter, `System`. Memory that is copied
through `ReadMemory` and `WriteMemory` belongs to it.
-/

namespace Mikage.IPC

open TranslationDescriptor

inductive Side where
  | source | dest
  deriving DecidableEq, Repr

inductive Access where
  | readTLS (side : Side) (offset : Nat)
  | writeTLS (side : Side) (offset : Nat)
  | readMemory (addr : VAddr)
  | writeMemory (addr : VAddr)
  deriving DecidableEq, Repr

structure Message (σ : Type) where
  tls : Side → Nat → BitVec 32
  tlsOffset : Nat
  usedMask : BitVec 16
  accesses : List Access
  system : σ

/-- A chunk of contiguous physical memory. An address that resolves lies in its mapping. -/
structure Chunk where
  addr : PAddr
  size : BitVec 32
  size_pos : 0 < size.toNat

/-- The kernel functions that the translation calls. -/
structure System (σ Object : Type) where
  processId : σ → BitVec 32
  findObject : BitVec 32 → σ → Option Object
  isAddressArbiter : Object → Bool
  createHandle (object : Object) (command : BitVec 32) : EStateM Exception σ (BitVec 32)
  svcCloseHandle (handle : BitVec 32) : EStateM Exception σ (BitVec 32)
  resolveVirtualAddrWithSize : VAddr → σ → Option Chunk
  resolveDestAddr : VAddr → σ → Option PAddr
  readMemory (addr : VAddr) : EStateM Exception σ (BitVec 8)
  writeMemory (addr : VAddr) (value : BitVec 8) : EStateM Exception σ Unit
  writeMemory32 (addr : VAddr) (value : BitVec 32) : EStateM Exception σ Unit
  findAvailableVirtualMemory : (size vstart vend : BitVec 32) → σ → Option VAddr
  mapVirtualMemory (paddr : PAddr) (size : BitVec 32) (vaddr : VAddr)
    (permissions : MemoryPermissions) : EStateM Exception σ Bool
  unmapVirtualMemory (vaddr : VAddr) (size : BitVec 32) : EStateM Exception σ Bool

abbrev IpcM (σ : Type) := EStateM Exception (Message σ)

variable {σ Object : Type}

/-! ## Words and bytes -/

def call {α : Type} (x : EStateM Exception σ α) : IpcM σ α := fun s =>
  match x s.system with
  | .ok a system => .ok a { s with system := system }
  | .error e system => .error e { s with system := system }

def record (a : Access) : IpcM σ Unit := modify fun s => { s with accesses := s.accesses ++ [a] }

def readTLS (side : Side) (offset : Nat) : IpcM σ (BitVec 32) := do
  record (.readTLS side offset)
  return (← get).tls side offset

def writeTLS (offset : Nat) (value : BitVec 32) : IpcM σ Unit := do
  record (.writeTLS .dest offset)
  modify fun s => { s with
    tls := fun side o => if side = .dest ∧ o = offset then value else s.tls side o }

def readMemory (sys : System σ Object) (addr : VAddr) : IpcM σ (BitVec 8) := do
  record (.readMemory addr)
  call (sys.readMemory addr)

def writeMemory (sys : System σ Object) (addr : VAddr) (value : BitVec 8) : IpcM σ Unit := do
  record (.writeMemory addr)
  call (sys.writeMemory addr value)

def writeMemory32 (sys : System σ Object) (addr : VAddr) (value : BitVec 32) : IpcM σ Unit := do
  record (.writeMemory addr)
  call (sys.writeMemory32 addr value)

def tlsOffset : IpcM σ Nat := return (← get).tlsOffset

theorem ends_tlsOffset {β : Type} {f : Nat → IpcM σ β} {s : Message σ} {R : β → Message σ → Prop}
    {E : Exception → Message σ → Prop} :
    Ends (tlsOffset >>= f) s R E ↔ Ends (f s.tlsOffset) s R E := Iff.rfl

/-- `tls_offset += 4` -/
def advance : IpcM σ Unit := modify fun s => { s with tlsOffset := s.tlsOffset + 4 }

/-- `n` rounds of a loop. -/
def rounds (n : Nat) (body : IpcM σ Unit) : IpcM σ Unit :=
  match n with
  | 0 => pure ()
  | n + 1 => do body; rounds n body

/-- `n` rounds of a loop whose variable starts at `offset` and grows by `stride`. -/
def roundsFrom (n offset stride : Nat) (body : Nat → IpcM σ Unit) : IpcM σ Unit :=
  match n with
  | 0 => pure ()
  | n + 1 => do body offset; roundsFrom n (offset + stride) stride body

/-! ## Handles -/

/-- One round of the loop over the words of a handle descriptor. -/
def translateHandle (sys : System σ Object) (descriptor : TranslationDescriptor) : IpcM σ Unit := do
  let offset ← tlsOffset
  if descriptor.fillProcessId then
    writeTLS offset (sys.processId (← get).system)
  else
    let sourceHandle ← readTLS .source offset
    -- `HANDLE_INVALID`
    if sourceHandle = 0 then writeTLS offset 0
    else
      match sys.findObject sourceHandle (← get).system with
      | none => throw (.runtimeError "Unknown handle input for translation")
      | some object =>
        if sys.isAddressArbiter object then
          throw (.runtimeError "Attempting to transfer address arbiter via IPC")
        let command ← readTLS .dest 0x80
        let handle ← call (sys.createHandle object command)
        if descriptor.closeHandle then
          let result ← call (sys.svcCloseHandle sourceHandle)
          if result ≠ 0 then throw (.invalid "Kernel panic:")
        writeTLS offset handle
  advance

def translateHandles (sys : System σ Object) (descriptor : TranslationDescriptor) : IpcM σ Unit := do
  if descriptor.closeHandle ∧ descriptor.fillProcessId then
    throw (.runtimeError "Attempting to close handle on process id")
  rounds descriptor.numHandles (translateHandle sys descriptor)

/-! ## Static buffers -/

/-- Takes the static buffer `id` of the destination and returns its descriptor and its address. -/
def useStaticBuffer (id : Nat) (twice : String) : IpcM σ (TranslationDescriptor × VAddr) := do
  let destDescriptor ← readTLS .dest (0x180 + 8 * id)
  let destBufferAddr ← readTLS .dest (0x184 + 8 * id)
  if (← get).usedMask.getLsbD id then throw (.invalid twice)
  modify fun s => { s with usedMask := s.usedMask ||| 1#16 <<< id }
  return (⟨destDescriptor⟩, destBufferAddr)

/-- The bytes that a log message quotes. -/
def logMemory (sys : System σ Object) (addr : VAddr) (numBytes : Nat) : IpcM σ Unit :=
  roundsFrom numBytes 0 1 fun i => do let _ ← readMemory sys (addr + BitVec.ofNat 32 i)

def translateStaticBuffer (sys : System σ Object) (descriptor : TranslationDescriptor) :
    IpcM σ Unit := do
  let offset ← tlsOffset
  let sourceDataAddr ← readTLS .source offset
  let (destDescriptor, destBufferAddr) ← useStaticBuffer descriptor.staticBufferId
    "Attempted to use target static buffer twice"
  if destDescriptor.type ≠ .staticBuffer ∨
      destDescriptor.staticBufferSize < descriptor.staticBufferSize then
    let _ ← readTLS .dest (0x180 + 8 * descriptor.staticBufferId)
    throw (.runtimeError "Expected target thread to have a static buffer descriptor")
  logMemory sys sourceDataAddr (min 64 descriptor.staticBufferSize)
  roundsFrom (min destDescriptor.staticBufferSize descriptor.staticBufferSize) 0 1 fun i => do
    let value ← readMemory sys (sourceDataAddr + BitVec.ofNat 32 i)
    writeMemory sys (destBufferAddr + BitVec.ofNat 32 i) value
  writeTLS offset destBufferAddr
  advance

/-! ## PXI buffers -/

/-- How many bytes lie between an address and the end of its page. -/
def pageRest (addr : VAddr) : Nat := (((addr + 0x1000) &&& ~~~(0x1000#32 - 1)) - addr).toNat

theorem pageRest_pos (addr : VAddr) : 0 < pageRest addr := by
  have hmask : ((addr + 0x1000) &&& ~~~(0x1000#32 - 1)).toNat =
      (addr + 0x1000).toNat / 0x1000 * 0x1000 := BitVec.toNat_and_not_mask (addr + 0x1000) 12
  unfold pageRest
  rw [BitVec.toNat_sub, hmask, BitVec.toNat_add]
  have haddr := addr.isLt
  have hpage : (0x1000 : VAddr).toNat = 0x1000 := rfl
  omega

/-- An entry of a PXI buffer table. -/
def writePxiEntry (sys : System σ Object) (addr : VAddr) (chunk : PAddr) (size : Nat) :
    IpcM σ Unit := do
  writeMemory32 sys addr chunk
  writeMemory32 sys (addr + 4) (BitVec.ofNat 32 size)

/-- One entry for each page of the buffer. Returns the size of the table. -/
def writePxiPages (sys : System σ Object) (staticBuffer : TranslationDescriptor)
    (destBufferAddr bufferAddr : VAddr) (bufferSize staticBufferOffset : Nat) : IpcM σ Nat := do
  if _ : bufferSize = 0 then return staticBufferOffset
  else
    if staticBuffer.staticBufferSize < 8 then
      throw (.runtimeError "Exceeded capacity of static buffer")
    match sys.resolveVirtualAddrWithSize bufferAddr (← get).system with
    | none => throw (.runtimeError "Failed to resolve virtual address")
    | some chunk =>
      let chunkSize := min bufferSize (pageRest bufferAddr)
      writePxiEntry sys (destBufferAddr + BitVec.ofNat 32 staticBufferOffset) chunk.addr chunkSize
      writePxiPages sys staticBuffer destBufferAddr (bufferAddr + BitVec.ofNat 32 chunkSize)
        (bufferSize - chunkSize) (staticBufferOffset + 8)
  termination_by bufferSize
  decreasing_by
    have := pageRest_pos bufferAddr
    omega

/-- The table of the physical chunks of a buffer. Returns its size. -/
def writePxiTable (sys : System σ Object) (staticBuffer : TranslationDescriptor)
    (destBufferAddr bufferAddr : VAddr) (bufferSize : Nat) : IpcM σ Nat := do
  let base ← match sys.resolveVirtualAddrWithSize bufferAddr (← get).system with
    | some chunk => pure (chunk.addr, chunk.size.toNat)
    | none =>
      if bufferSize = 0 then pure (0, 0)
      else throw (.runtimeError "Failed to resolve virtual address")
  if bufferSize ≤ base.2 then
    if staticBuffer.staticBufferSize < 8 then
      throw (.runtimeError "Exceeded capacity of static buffer")
    writePxiEntry sys destBufferAddr base.1 bufferSize
    return 8
  else writePxiPages sys staticBuffer destBufferAddr bufferAddr bufferSize 0

def translatePxiBuffer (sys : System σ Object) (descriptor : TranslationDescriptor) :
    IpcM σ Unit := do
  let offset ← tlsOffset
  let (staticBuffer, destBufferAddr) ← useStaticBuffer descriptor.pxiBufferId
    "Attempted to use target PXI buffer twice"
  if staticBuffer.type ≠ .staticBuffer then
    throw (.runtimeError "Expected target thread to have a static buffer descriptor")
  let bufferAddr ← readTLS .source offset
  let tableSize ← writePxiTable sys staticBuffer destBufferAddr bufferAddr descriptor.pxiBufferSize
  -- the official kernel probably does not modify the descriptor
  writeTLS (offset - 4) (makeStaticBuffer descriptor.pxiBufferId tableSize).raw
  match sys.resolveDestAddr destBufferAddr (← get).system with
  | none => throw (.nullPointer "*dest.GetParentProcess().ResolveVirtualAddr(dest_buffer_addr)")
  | some addr => writeTLS offset addr
  advance

/-! ## Mapped buffers -/

/-- Maps the chunks behind `mapped` until the buffer is mapped whole. -/
def mapChunks (sys : System σ Object) (permissions : MemoryPermissions) (sourceAddr destAddr : VAddr)
    (size mapped : Nat) : IpcM σ Unit := do
  if _ : mapped < size then
    match sys.resolveVirtualAddrWithSize ((sourceAddr + BitVec.ofNat 32 mapped) &&& ~~~0xfff#32)
        (← get).system with
    | none => throw (.runtimeError "Failed to resolve IPC buffer address")
    | some chunk =>
      let bytesToMap := min chunk.size.toNat (size - mapped)
      let success ← call (sys.mapVirtualMemory chunk.addr (BitVec.ofNat 32 bytesToMap)
        (destAddr + BitVec.ofNat 32 mapped) permissions)
      if !success then throw (.runtimeError "Couldn't map virtual memory for IPC buffer")
      mapChunks sys permissions sourceAddr destAddr size (mapped + bytesToMap)
  termination_by size - mapped
  decreasing_by
    have := chunk.size_pos
    omega

def mapPermissions (descriptor : TranslationDescriptor) : MemoryPermissions :=
  match descriptor.type with
  | .mapReadOnly => .read
  | .mapWriteOnly => .write
  | _ => .readWrite

def translateMapBuffer (sys : System σ Object) (isReply : Bool) (descriptor : TranslationDescriptor) :
    IpcM σ Unit := do
  let offset ← tlsOffset
  let sourceAddr ← readTLS .source offset
  let size := descriptor.mapBufferSize
  if size = 0 then advance
  else
    let mappedSize := ((sourceAddr + size + 0xfff) &&& ~~~0xfff#32) - (sourceAddr &&& ~~~0xfff#32)
    if isReply then
      if descriptor.type ≠ .mapReadOnly then logMemory sys sourceAddr (min 0x100 size.toNat)
      let success ← call (sys.unmapVirtualMemory (sourceAddr &&& ~~~0xfff#32) mappedSize)
      if !success then throw (.runtimeError "Couldn't unmap IPC buffer memory")
      writeTLS offset 0
    else
      match sys.findAvailableVirtualMemory mappedSize 0x10000000 0x20000000 (← get).system with
      | none => throw (.runtimeError "Couldn't find any free virtual memory to map IPC buffer")
      | some destAddr =>
        mapChunks sys (mapPermissions descriptor) sourceAddr destAddr mappedSize.toNat 0
        writeTLS offset (destAddr + (sourceAddr &&& 0xfff))
        if descriptor.type ≠ .mapWriteOnly then logMemory sys sourceAddr (min 0x1000 size.toNat)
    advance

/-! ## The message -/

/-- The parameters behind a descriptor. -/
def translateDescriptor (sys : System σ Object) (isReply : Bool) (descriptor : TranslationDescriptor) :
    IpcM σ Unit :=
  match descriptor.type with
  | .handles => translateHandles sys descriptor
  | .staticBuffer => translateStaticBuffer sys descriptor
  | .pxiBuffer | .pxiConstBuffer => translatePxiBuffer sys descriptor
  | .mapInvalid => throw (.runtimeError "Unknown IPC descriptor type")
  | .mapReadOnly | .mapWriteOnly | .mapReadWrite => translateMapBuffer sys isReply descriptor

/-- `while (tls_offset < command_end)`; each round takes at least one word. -/
def translateParams (sys : System σ Object) (isReply : Bool) (commandEnd : Nat) :
    (words : Nat) → IpcM σ Unit
  | 0 => pure ()
  | words + 1 => do
    let offset ← tlsOffset
    if offset < commandEnd then
      let raw ← readTLS .source offset
      writeTLS offset raw
      advance
      translateDescriptor sys isReply ⟨raw⟩
      translateParams sys isReply commandEnd words

/-- The words that the log message quotes. -/
def logMessage (header : CommandHeader) : IpcM σ Unit := do
  let _ ← readTLS .source 0x80
  roundsFrom (header.numNormalParams + header.sizeTranslateParams) 0x84 4 fun offset => do
    let _ ← readTLS .source offset

/-- Copies a word to the same place. -/
def copyWord : IpcM σ Unit := do
  let offset ← tlsOffset
  let word ← readTLS .source offset
  writeTLS offset word
  advance

def translateIPCMessage (sys : System σ Object) (isReply : Bool) : IpcM σ Unit := do
  let header : CommandHeader := ⟨← readTLS .source 0x80⟩
  logMessage header
  if isReply then
    let _ ← readTLS .source 0x84
  -- everything behind the normal parameters is cleared first
  roundsFrom (0x40 - (header.numNormalParams + 1)) (0x80 + 4 * (header.numNormalParams + 1)) 4
    fun offset => writeTLS offset 0
  rounds (header.numNormalParams + 1) copyWord
  translateParams sys isReply header.commandEnd header.sizeTranslateParams

/-- The state a call starts in. -/
def Message.start (tls : Side → Nat → BitVec 32) (system : σ) : Message σ where
  tls := tls
  tlsOffset := 0x80
  usedMask := 0
  accesses := []
  system := system

end Mikage.IPC
