import Mikage.Lib.BitFields
import Mikage.Platform.Ipc

/-!
# The marshalling of IPC commands

`IPCMessageWriter` puts the arguments of a command behind its header, and `TLSReader` takes them out
of the words again. The tags of the command say how: the normal parameters are words, and every
translate parameter starts with a descriptor for the kernel.

- `writer_length`: as many words are written as the header of the command declares.
- `read_rewrite_writer`: the reader gives the arguments, each cut to the room in its descriptor.
- `preserved_iff_exact`: no argument is altered exactly when all of them fit.
-/

namespace Mikage.IPC

abbrev Word := BitVec 32

namespace TranslationDescriptor

def makeHandles (numHandles : Word) (close : Bool) : TranslationDescriptor :=
  ⟨((numHandles - 1).setWidth 6).setWidth 32 <<< 26 ||| (BitVec.ofBool close).setWidth 32 <<< 4⟩

def makeProcessHandle : TranslationDescriptor := ⟨1 <<< 5⟩

/-- `MakeStaticBuffer`, with the words of the source. -/
def staticBuffer (id size : Word) : TranslationDescriptor := makeStaticBuffer id.toNat size.toNat

/-- `MakePXIBuffer` or, with `readOnly`, `MakePXIConstBuffer`. -/
def makePxiBuffer (readOnly : Bool) (id numBytes : Word) : TranslationDescriptor :=
  ⟨(BitVec.ofNat 3 (if readOnly then 3 else 2)).setWidth 32 <<< 1 |||
    (id.setWidth 4).setWidth 32 <<< 4 ||| (numBytes.setWidth 24).setWidth 32 <<< 8⟩

/-- `MapBuffer`. The type of the descriptor is `MapInvalid` with the permissions in its low bits. -/
def mapBuffer (numBytes : Word) (write : Bool) : TranslationDescriptor :=
  ⟨(BitVec.ofNat 3 (if write then 6 else 5)).setWidth 32 <<< 1 |||
    (numBytes.setWidth 27).setWidth 32 <<< 4⟩

end TranslationDescriptor

namespace Marshalling

open TranslationDescriptor Lib.BitFields

/-! ## Tags and arguments -/

mutual

/-- A tag for a normal parameter, over the type of its argument. -/
inductive NormalTag : Type → Type 1 where
  | result : NormalTag Word
  | uint32 : NormalTag Word
  | uint64 : NormalTag (BitVec 64)
  /-- A structure, by its `IPCSerialize` and `IPCDeserialize`. The latter may refuse the members. -/
  | serialized {α β : Type} (members : NormalTags β) (serialize : α → β)
      (deserialize : β → Option α) (inverse : ∀ x, deserialize (serialize x) = some x) : NormalTag α

/-- A list of tags, over the type of their arguments. -/
inductive NormalTags : Type → Type 1 where
  | nil : NormalTags Unit
  | cons {α β : Type} (tag : NormalTag α) (tags : NormalTags β) : NormalTags (α × β)

end

structure StaticBuffer where
  addr : Word
  size : Word
  id : Word
  deriving DecidableEq, Repr

structure MappedBuffer where
  addr : Word
  size : Word
  deriving DecidableEq, Repr

/-- A tag for a translate parameter. For a mapping to read and write there is no operator. -/
inductive TranslateTag where
  | handle (close : Bool) (num : Nat)
  | processId
  | staticBuffer
  | pxiBuffer (readOnly : Bool)
  | mapBuffer (write : Bool)
  deriving DecidableEq, Repr

/-- A translate parameter with its argument. Of handles there are one or more. -/
inductive Parameter where
  | handle (close : Bool) (first : Word) (more : List Word)
  | processId
  | staticBuffer (buffer : StaticBuffer)
  | pxiBuffer (readOnly : Bool) (buffer : StaticBuffer)
  | mapBuffer (write : Bool) (buffer : MappedBuffer)
  deriving DecidableEq, Repr

/-- What the reader returns for a translate parameter. -/
inductive Value where
  | handles (handles : List Word)
  | processId (id : Word)
  | staticBuffer (buffer : StaticBuffer)
  | mappedBuffer (buffer : MappedBuffer)
  deriving DecidableEq, Repr

def Parameter.tag : Parameter → TranslateTag
  | .handle close _ more => .handle close (more.length + 1)
  | .processId => .processId
  | .staticBuffer _ => .staticBuffer
  | .pxiBuffer readOnly _ => .pxiBuffer readOnly
  | .mapBuffer write _ => .mapBuffer write

/-! ## Sizes -/

mutual

/-- `data_size`, in words. -/
def NormalTag.size {α : Type} : NormalTag α → Nat
  | .result => 1
  | .uint32 => 1
  | .uint64 => 2
  | .serialized members _ _ _ => members.size

def NormalTags.size {α : Type} : NormalTags α → Nat
  | .nil => 0
  | .cons tag tags => tag.size + tags.size

end

def TranslateTag.size : TranslateTag → Nat
  | .handle _ num => 1 + num
  | .processId => 2
  | .staticBuffer => 2
  | .pxiBuffer _ => 2
  | .mapBuffer _ => 2

/-- One direction of a command, with the arguments of one call. -/
structure Command (α : Type) where
  id : Word
  normalList : NormalTags α
  arguments : α
  translateList : List Parameter
  /-- The command buffer has 64 words. -/
  fits : 1 + normalList.size + (translateList.map fun p => p.tag.size).sum ≤ 64

namespace Command

variable {α : Type} (c : Command α)

def sizeNormalParameters : Nat := c.normalList.size

def sizeTranslateParameters : Nat := (c.translateList.map fun p => p.tag.size).sum

/-- `request_header` and `response_header` -/
def header : CommandHeader :=
  ⟨c.id <<< 16 ||| BitVec.ofNat 32 c.sizeNormalParameters <<< 6 |||
    BitVec.ofNat 32 c.sizeTranslateParameters⟩

end Command

/-! ## `TLSWriter` -/

mutual

def NormalTag.write {α : Type} : NormalTag α → α → List Word
  | .result, data => [data]
  | .uint32, data => [data]
  | .uint64, data => [data.setWidth 32, (data >>> 32).setWidth 32]
  | .serialized members serialize _ _, data => members.write (serialize data)

def NormalTags.write {α : Type} : NormalTags α → α → List Word
  | .nil, _ => []
  | .cons tag tags, data => tag.write data.1 ++ tags.write data.2

end

def Parameter.write : Parameter → List Word
  | .handle close first more =>
    (makeHandles (BitVec.ofNat 32 (more.length + 1)) close).raw :: first :: more
  | .processId => [makeProcessHandle.raw, 0]
  | .staticBuffer buffer =>
    [(TranslationDescriptor.staticBuffer buffer.id buffer.size).raw, buffer.addr]
  | .pxiBuffer readOnly buffer => [(makePxiBuffer readOnly buffer.id buffer.size).raw, buffer.addr]
  | .mapBuffer write buffer =>
    [(TranslationDescriptor.mapBuffer buffer.size write).raw, buffer.addr]

/-- `IPCMessageWriter`: the words of the message from its header on. -/
def Command.writer {α : Type} (c : Command α) : List Word :=
  c.header.raw :: (c.normalList.write c.arguments ++ c.translateList.flatMap Parameter.write)

/-! ## `TLSReader` -/

mutual

def NormalTag.read {α : Type} : NormalTag α → List Word → Option (α × List Word)
  | .result, data :: rest => some (data, rest)
  | .uint32, data :: rest => some (data, rest)
  | .uint64, low :: high :: rest =>
    some (high.setWidth 64 <<< 32 ||| low.setWidth 64, rest)
  | .serialized members _ deserialize _, words =>
    (members.read words).bind fun r => (deserialize r.1).map fun x => (x, r.2)
  | .result, [] => none
  | .uint32, [] => none
  | .uint64, [] => none
  | .uint64, [_] => none

def NormalTags.read {α : Type} : NormalTags α → List Word → Option (α × List Word)
  | .nil, words => some ((), words)
  | .cons tag tags, words =>
    (tag.read words).bind fun r => (tags.read r.2).map fun rs => ((r.1, rs.1), rs.2)

end

/-- The descriptor and the word behind it. -/
def readBuffer (words : List Word) (make : TranslationDescriptor → Word → Value) :
    Option (Value × List Word) :=
  match words with
  | descriptor :: addr :: rest => some (make ⟨descriptor⟩ addr, rest)
  | _ => none

/-- The fields of a static buffer, which a PXI buffer is read as as well. -/
def toStaticBuffer (d : TranslationDescriptor) (addr : Word) : Value :=
  .staticBuffer ⟨addr, BitVec.ofNat 32 d.staticBufferSize, BitVec.ofNat 32 d.staticBufferId⟩

def TranslateTag.read : TranslateTag → List Word → Option (Value × List Word)
  | .handle _ num, words =>
    if num + 1 ≤ words.length then
      some (.handles ((words.drop 1).take num), words.drop (num + 1))
    else none
  | .processId, words => readBuffer words fun _ id => .processId id
  | .staticBuffer, words => readBuffer words toStaticBuffer
  | .pxiBuffer _, words => readBuffer words toStaticBuffer
  | .mapBuffer _, words => readBuffer words fun d addr => .mappedBuffer ⟨addr, d.mapBufferSize⟩

def readTranslate : List TranslateTag → List Word → Option (List Value)
  | [], _ => some []
  | tag :: tags, words =>
    (tag.read words).bind fun r => (readTranslate tags r.2).map fun values => r.1 :: values

/-- The arguments of a handler: the reader skips the header. -/
def reader {α : Type} (normal : NormalTags α) (translate : List TranslateTag) (words : List Word) :
    Option (α × List Value) :=
  (normal.read (words.drop 1)).bind fun r =>
    (readTranslate translate r.2).map fun values => (r.1, values)

/-! ## The descriptors that the kernel rewrites -/

/-- What the kernel puts into a message: the process id of the sender, and for a PXI buffer the size
and the address of the table that it makes. -/
structure Kernel where
  processId : Word
  tableSize (id size addr : Word) : Word
  tableSize_lt : ∀ id size addr, (tableSize id size addr).toNat < 2 ^ 18
  tableAddr (id size addr : Word) : Word

/-- `TranslateIPCMessage` on the translate parameters: process ids are filled in, and PXI buffers
become static buffers. -/
def rewrite (k : Kernel) : List Word → List Word
  | [] => []
  | raw :: rest =>
    let d : TranslationDescriptor := ⟨raw⟩
    let params := rest.take d.numParams
    let behind := rewrite k (rest.drop d.numParams)
    if d.type = .handles then
      raw :: ((if d.fillProcessId then params.map fun _ => k.processId else params) ++ behind)
    else if d.type = .pxiBuffer ∨ d.type = .pxiConstBuffer then
      let id := BitVec.ofNat 32 d.pxiBufferId
      let size := BitVec.ofNat 32 d.pxiBufferSize
      let addr := params.headD 0
      (TranslationDescriptor.staticBuffer id (k.tableSize id size addr)).raw
        :: k.tableAddr id size addr :: behind
    else raw :: (params ++ behind)
  termination_by words => words.length
  decreasing_by
    simp only [List.length_drop, List.length_cons]
    omega

/-- The message in the local storage of the other thread. -/
def rewriteMessage (k : Kernel) (words : List Word) : List Word :=
  match words with
  | [] => []
  | raw :: rest =>
    let h : CommandHeader := ⟨raw⟩
    raw :: (rest.take h.numNormalParams ++ rewrite k (rest.drop h.numNormalParams))

/-- The argument as the reader is to return it. -/
def Parameter.received (k : Kernel) : Parameter → Value
  | .handle _ first more => .handles (first :: more)
  | .processId => .processId k.processId
  | .staticBuffer buffer => .staticBuffer buffer
  | .pxiBuffer _ b =>
    .staticBuffer ⟨k.tableAddr b.id b.size b.addr, k.tableSize b.id b.size b.addr, b.id⟩
  | .mapBuffer _ buffer => .mappedBuffer buffer

/-- The round trip: as many words as the header declares, and every argument as it was. -/
def Preserved {α : Type} (c : Command α) : Prop :=
  c.writer.length = 1 + c.header.numNormalParams + c.header.sizeTranslateParams ∧
  ∀ k : Kernel,
    reader c.normalList (c.translateList.map Parameter.tag) (rewriteMessage k c.writer) =
      some (c.arguments, c.translateList.map (Parameter.received k))

/-- The fields of the descriptor have room for the sizes and the ids. -/
def Parameter.Exact : Parameter → Prop
  | .handle .. => True
  | .processId => True
  | .staticBuffer buffer => buffer.size.toNat < 2 ^ 18 ∧ buffer.id.toNat < 16
  | .pxiBuffer _ buffer => buffer.size.toNat < 2 ^ 24 ∧ buffer.id.toNat < 16
  | .mapBuffer _ buffer => buffer.size.toNat < 2 ^ 27

/-! ## The fields of the descriptors -/

section Fields

variable (id size : Word) (close readOnly write : Bool)

theorem staticBuffer_raw : (TranslationDescriptor.staticBuffer id size).raw =
    (1#3).setWidth 32 <<< 1 ||| (BitVec.ofNat 4 id.toNat).setWidth 32 <<< 10 |||
      (BitVec.ofNat 18 size.toNat).setWidth 32 <<< 14 := rfl

theorem type_staticBuffer : (TranslationDescriptor.staticBuffer id size).type = .staticBuffer := by
  have hfield : (TranslationDescriptor.staticBuffer id size).raw.extractLsb' 1 3 = 1#3 := by
    simp (disch := omega) only [staticBuffer_raw, BitVec.extractLsb'_or, extract_shift,
      extract_shift_apart, BitVec.or_zero]
  simp [type, hfield]

theorem staticBufferSize_staticBuffer :
    (TranslationDescriptor.staticBuffer id size).staticBufferSize = size.toNat % 2 ^ 18 := by
  simp (disch := omega) only [staticBufferSize, staticBuffer_raw, BitVec.extractLsb'_or,
    extract_shift, extract_shift_apart, BitVec.zero_or, BitVec.toNat_ofNat]

theorem staticBufferId_staticBuffer :
    (TranslationDescriptor.staticBuffer id size).staticBufferId = id.toNat % 16 := by
  simp (disch := omega) only [staticBufferId, staticBuffer_raw, BitVec.extractLsb'_or,
    extract_shift, extract_shift_apart, BitVec.zero_or, BitVec.or_zero, BitVec.toNat_ofNat]

theorem type_makePxiBuffer : (makePxiBuffer readOnly id size).type =
    if readOnly then .pxiConstBuffer else .pxiBuffer := by
  have hfield : (makePxiBuffer readOnly id size).raw.extractLsb' 1 3 =
      BitVec.ofNat 3 (if readOnly then 3 else 2) := by
    simp (disch := omega) only [makePxiBuffer, BitVec.extractLsb'_or, extract_shift,
      extract_shift_apart, BitVec.or_zero]
  cases readOnly <;> simp [type, hfield]

theorem pxiBufferSize_makePxiBuffer :
    (makePxiBuffer readOnly id size).pxiBufferSize = size.toNat % 2 ^ 24 := by
  simp (disch := omega) only [pxiBufferSize, makePxiBuffer, BitVec.extractLsb'_or,
    extract_shift, extract_shift_apart, BitVec.zero_or, BitVec.toNat_setWidth]

theorem pxiBufferId_makePxiBuffer :
    (makePxiBuffer readOnly id size).pxiBufferId = id.toNat % 16 := by
  simp (disch := omega) only [pxiBufferId, makePxiBuffer, BitVec.extractLsb'_or,
    extract_shift, extract_shift_apart, BitVec.zero_or, BitVec.or_zero, BitVec.toNat_setWidth]

theorem type_mapBuffer : (TranslationDescriptor.mapBuffer size write).type =
    if write then .mapWriteOnly else .mapReadOnly := by
  have hfield : (TranslationDescriptor.mapBuffer size write).raw.extractLsb' 1 3 =
      BitVec.ofNat 3 (if write then 6 else 5) := by
    simp (disch := omega) only [TranslationDescriptor.mapBuffer, BitVec.extractLsb'_or,
      extract_shift, extract_shift_apart, BitVec.or_zero]
  cases write <;> simp [type, hfield]

theorem mapBufferSize_mapBuffer :
    (TranslationDescriptor.mapBuffer size write).mapBufferSize =
      (size.setWidth 27).setWidth 32 := by
  simp (disch := omega) only [mapBufferSize, TranslationDescriptor.mapBuffer,
    BitVec.extractLsb'_or, extract_shift, extract_shift_apart, BitVec.zero_or]

theorem type_makeHandles (num : Word) : (makeHandles num close).type = .handles := by
  have hfield : (makeHandles num close).raw.extractLsb' 1 3 = 0#3 := by
    simp (disch := omega) only [makeHandles, BitVec.extractLsb'_or, extract_shift_apart,
      BitVec.or_zero]
  simp [type, hfield]

theorem fillProcessId_makeHandles (num : Word) : (makeHandles num close).fillProcessId = false := by
  have hfield : (makeHandles num close).raw.extractLsb' 5 1 = 0#1 := by
    simp (disch := omega) only [makeHandles, BitVec.extractLsb'_or, extract_shift_apart,
      BitVec.or_zero]
  simpa [fillProcessId] using congrArg (BitVec.getLsbD · 0) hfield

theorem numHandles_makeHandles {num : Nat} (hpos : 0 < num) (hle : num ≤ 64) :
    (makeHandles (BitVec.ofNat 32 num) close).numHandles = num := by
  have hfield : (makeHandles (BitVec.ofNat 32 num) close).raw.extractLsb' 26 6 =
      (BitVec.ofNat 32 num - 1).setWidth 6 := by
    simp (disch := omega) only [makeHandles, BitVec.extractLsb'_or, extract_shift,
      extract_shift_apart, BitVec.or_zero]
  have hone : (BitVec.ofNat 32 num - 1).toNat = num - 1 := by
    rw [BitVec.toNat_sub, BitVec.toNat_ofNat]
    simp
    omega
  rw [numHandles, hfield, BitVec.toNat_setWidth, hone]
  omega

end Fields

/-! ## The normal parameters -/

mutual

theorem NormalTag.length_write {α : Type} : (tag : NormalTag α) → (data : α) →
    (tag.write data).length = tag.size
  | .result, _ => rfl
  | .uint32, _ => rfl
  | .uint64, _ => rfl
  | .serialized members serialize _ _, data => members.length_write (serialize data)

theorem NormalTags.length_write {α : Type} : (tags : NormalTags α) → (data : α) →
    (tags.write data).length = tags.size
  | .nil, _ => rfl
  | .cons tag tags, data => by
    rw [NormalTags.write, NormalTags.size, List.length_append, tag.length_write, tags.length_write]

end

theorem halves (data : BitVec 64) :
    ((data >>> 32).setWidth 32).setWidth 64 <<< 32 ||| (data.setWidth 32).setWidth 64 = data := by
  apply BitVec.eq_of_getLsbD_eq
  intro i hi
  by_cases hlow : i < 32
  · simp [hlow, hi]
  · have hsum : 32 + (i - 32) = i := by omega
    have hin : i - 32 < 32 := by omega
    simp [hlow, hi, hsum, hin]

mutual

theorem NormalTag.read_write {α : Type} : (tag : NormalTag α) → (data : α) → (rest : List Word) →
    tag.read (tag.write data ++ rest) = some (data, rest)
  | .result, _, _ => rfl
  | .uint32, _, _ => rfl
  | .uint64, data, rest => by
    simp only [NormalTag.write, List.cons_append, List.nil_append, NormalTag.read, halves]
  | .serialized members serialize deserialize inverse, data, rest => by
    simp only [NormalTag.write, NormalTag.read, members.read_write, Option.bind_some, inverse,
      Option.map_some]

theorem NormalTags.read_write {α : Type} : (tags : NormalTags α) → (data : α) →
    (rest : List Word) → tags.read (tags.write data ++ rest) = some (data, rest)
  | .nil, _, _ => rfl
  | .cons tag tags, data, rest => by
    simp only [NormalTags.write, List.append_assoc, NormalTags.read, tag.read_write,
      Option.bind_some, tags.read_write, Option.map_some]

end

/-! ## The translate parameters -/

/-- The argument cut to what the fields of its descriptor hold. -/
def Parameter.cut : Parameter → Parameter
  | .handle close first more => .handle close first more
  | .processId => .processId
  | .staticBuffer b =>
    .staticBuffer
      ⟨b.addr, BitVec.ofNat 32 (b.size.toNat % 2 ^ 18), BitVec.ofNat 32 (b.id.toNat % 16)⟩
  | .pxiBuffer readOnly b =>
    .pxiBuffer readOnly
      ⟨b.addr, BitVec.ofNat 32 (b.size.toNat % 2 ^ 24), BitVec.ofNat 32 (b.id.toNat % 16)⟩
  | .mapBuffer write b => .mapBuffer write ⟨b.addr, (b.size.setWidth 27).setWidth 32⟩

/-- The words of the parameter after the kernel has been there. -/
def Parameter.rewritten (k : Kernel) (p : Parameter) : List Word :=
  match p with
  | .processId => [makeProcessHandle.raw, k.processId]
  | .pxiBuffer _ b =>
    let size := BitVec.ofNat 32 (b.size.toNat % 2 ^ 24)
    let id := BitVec.ofNat 32 (b.id.toNat % 16)
    [(TranslationDescriptor.staticBuffer id (k.tableSize id size b.addr)).raw,
      k.tableAddr id size b.addr]
  | p => p.write

theorem Parameter.length_write (p : Parameter) : p.write.length = p.tag.size := by
  cases p with
  | handle close first more =>
    simp only [write, tag, TranslateTag.size, List.length_cons]
    omega
  | processId => rfl
  | staticBuffer buffer => rfl
  | pxiBuffer readOnly buffer => rfl
  | mapBuffer write buffer => rfl

theorem rewrite_cons (k : Kernel) (d : TranslationDescriptor) (rest : List Word) :
    rewrite k (d.raw :: rest) =
      if d.type = .handles then
        d.raw :: ((if d.fillProcessId then (rest.take d.numParams).map fun _ => k.processId
          else rest.take d.numParams) ++ rewrite k (rest.drop d.numParams))
      else if d.type = .pxiBuffer ∨ d.type = .pxiConstBuffer then
        let id := BitVec.ofNat 32 d.pxiBufferId
        let size := BitVec.ofNat 32 d.pxiBufferSize
        let addr := (rest.take d.numParams).headD 0
        (TranslationDescriptor.staticBuffer id (k.tableSize id size addr)).raw
          :: k.tableAddr id size addr :: rewrite k (rest.drop d.numParams)
      else d.raw :: (rest.take d.numParams ++ rewrite k (rest.drop d.numParams)) := by
  rw [rewrite]

/-- The kernel takes the words of a parameter together, and as what they are. -/
theorem Parameter.rewrite_write (k : Kernel) {p : Parameter} (rest : List Word)
    (hsize : p.tag.size ≤ 64) : rewrite k (p.write ++ rest) = p.rewritten k ++ rewrite k rest := by
  cases p with
  | handle close first more =>
    simp only [tag, TranslateTag.size] at hsize
    have hnum : (makeHandles (BitVec.ofNat 32 (more.length + 1)) close).numParams =
        (first :: more).length := by
      rw [TranslationDescriptor.numParams, type_makeHandles]
      exact numHandles_makeHandles close (by omega) (by omega)
    rw [write, List.cons_append, rewrite_cons, hnum, List.take_left, List.drop_left]
    simp [type_makeHandles, fillProcessId_makeHandles, rewritten, write]
  | processId =>
    have hnum : makeProcessHandle.numParams = 1 := by decide
    have htype : makeProcessHandle.type = .handles := by decide
    have hfill : makeProcessHandle.fillProcessId = true := by decide
    rw [write, List.cons_append, rewrite_cons]
    simp [hnum, htype, hfill, rewritten]
  | staticBuffer b =>
    have hnum : (TranslationDescriptor.staticBuffer b.id b.size).numParams = 1 := by
      rw [TranslationDescriptor.numParams, type_staticBuffer]
    rw [write, List.cons_append, rewrite_cons]
    simp [hnum, type_staticBuffer, rewritten, write]
  | pxiBuffer readOnly b =>
    have hnum : (makePxiBuffer readOnly b.id b.size).numParams = 1 := by
      rw [TranslationDescriptor.numParams, type_makePxiBuffer]
      cases readOnly <;> rfl
    have htype : (makePxiBuffer readOnly b.id b.size).type ≠ .handles := by
      rw [type_makePxiBuffer]
      cases readOnly <;> decide
    have hpxi : (makePxiBuffer readOnly b.id b.size).type = .pxiBuffer ∨
        (makePxiBuffer readOnly b.id b.size).type = .pxiConstBuffer := by
      rw [type_makePxiBuffer]
      cases readOnly <;> decide
    rw [write, List.cons_append, rewrite_cons]
    simp only [hnum, htype, if_false, hpxi, if_true, pxiBufferId_makePxiBuffer,
      pxiBufferSize_makePxiBuffer, rewritten]
    simp
  | mapBuffer write b =>
    have hnum : (TranslationDescriptor.mapBuffer b.size write).numParams = 1 := by
      rw [TranslationDescriptor.numParams, type_mapBuffer]
      cases write <;> rfl
    have htype : (TranslationDescriptor.mapBuffer b.size write).type ≠ .handles := by
      rw [type_mapBuffer]
      cases write <;> decide
    have hpxi : ¬ ((TranslationDescriptor.mapBuffer b.size write).type = .pxiBuffer ∨
        (TranslationDescriptor.mapBuffer b.size write).type = .pxiConstBuffer) := by
      rw [type_mapBuffer]
      cases write <;> decide
    rw [Parameter.write, List.cons_append, rewrite_cons]
    simp [hnum, htype, hpxi, rewritten, Parameter.write]

theorem readBuffer_cons (d : TranslationDescriptor) (addr : Word) (rest : List Word)
    (make : TranslationDescriptor → Word → Value) :
    readBuffer (d.raw :: addr :: rest) make = some (make d addr, rest) := rfl

theorem toStaticBuffer_staticBuffer (id size addr : Word) :
    toStaticBuffer (TranslationDescriptor.staticBuffer id size) addr =
      .staticBuffer ⟨addr, BitVec.ofNat 32 (size.toNat % 2 ^ 18),
        BitVec.ofNat 32 (id.toNat % 16)⟩ := by
  rw [toStaticBuffer, staticBufferSize_staticBuffer, staticBufferId_staticBuffer]

theorem Parameter.read_rewritten (k : Kernel) (p : Parameter) (rest : List Word) :
    p.tag.read (p.rewritten k ++ rest) = some (p.cut.received k, rest) := by
  cases p with
  | handle close first more =>
    simp only [tag, rewritten, write, TranslateTag.read, List.length_append, List.length_cons]
    rw [if_pos (by omega)]
    simp [cut, received]
  | processId => rfl
  | staticBuffer b =>
    simp only [tag, rewritten, write, TranslateTag.read, List.cons_append, readBuffer_cons,
      toStaticBuffer_staticBuffer, List.nil_append, cut, received]
  | pxiBuffer readOnly b =>
    have hsize := k.tableSize_lt (BitVec.ofNat 32 (b.id.toNat % 16))
      (BitVec.ofNat 32 (b.size.toNat % 2 ^ 24)) b.addr
    have hid : (BitVec.ofNat 32 (b.id.toNat % 16)).toNat % 16 = b.id.toNat % 16 := by
      rw [BitVec.toNat_ofNat]
      omega
    simp only [tag, rewritten, TranslateTag.read, List.cons_append, readBuffer_cons,
      toStaticBuffer_staticBuffer, List.nil_append, cut, received, Nat.mod_eq_of_lt hsize, hid,
      BitVec.ofNat_toNat, BitVec.setWidth_eq]
  | mapBuffer write b =>
    simp only [tag, rewritten, Parameter.write, TranslateTag.read, List.cons_append,
      readBuffer_cons, mapBufferSize_mapBuffer, List.nil_append, cut, received]

/-! ## The round trip -/

theorem rewrite_parameters (k : Kernel) {ps : List Parameter}
    (hsize : ∀ p ∈ ps, p.tag.size ≤ 64) :
    rewrite k (ps.flatMap Parameter.write) = ps.flatMap (Parameter.rewritten k) := by
  induction ps with
  | nil => rw [List.flatMap_nil, rewrite]; rfl
  | cons p ps ih =>
    rw [List.flatMap_cons, List.flatMap_cons, Parameter.rewrite_write k _ (hsize p (by simp)),
      ih fun q hq => hsize q (by simp [hq])]

theorem readTranslate_rewritten (k : Kernel) (ps : List Parameter) :
    readTranslate (ps.map Parameter.tag) (ps.flatMap (Parameter.rewritten k)) =
      some (ps.map fun p => p.cut.received k) := by
  induction ps with
  | nil => rfl
  | cons p ps ih =>
    simp only [List.map_cons, List.flatMap_cons, readTranslate, p.read_rewritten, Option.bind_some,
      ih, Option.map_some]

theorem length_parameters (ps : List Parameter) :
    (ps.flatMap Parameter.write).length = (ps.map fun p => p.tag.size).sum := by
  simp only [List.length_flatMap, Parameter.length_write]

section Commands

variable {α : Type} (c : Command α)

theorem Command.sizes_lt : c.sizeNormalParameters < 64 ∧ c.sizeTranslateParameters < 64 := by
  have hfits := c.fits
  constructor
  · show c.normalList.size < 64
    omega
  · show (c.translateList.map fun p => p.tag.size).sum < 64
    omega

theorem Command.tag_size_le {p : Parameter} (hp : p ∈ c.translateList) : p.tag.size ≤ 64 := by
  have hmem := List.single_le_sum (by simp) _ (List.mem_map_of_mem (f := fun p => p.tag.size) hp)
  have hlt := c.sizes_lt.2
  simp only [sizeTranslateParameters] at hlt
  omega

theorem ofNat_small {n : Nat} (h : n < 64) :
    BitVec.ofNat 32 n = (BitVec.ofNat 6 n).setWidth 32 := by
  apply BitVec.eq_of_toNat_eq
  simp
  omega

theorem Command.header_raw : c.header.raw = c.id.setWidth 32 <<< 16 |||
    (BitVec.ofNat 6 c.sizeNormalParameters).setWidth 32 <<< 6 |||
      (BitVec.ofNat 6 c.sizeTranslateParameters).setWidth 32 := by
  rw [header, ofNat_small c.sizes_lt.1, ofNat_small c.sizes_lt.2, BitVec.setWidth_eq]

theorem Command.numNormalParams_header : c.header.numNormalParams = c.sizeNormalParameters := by
  have hlt := c.sizes_lt.1
  simp (disch := omega) only [CommandHeader.numNormalParams, header_raw, BitVec.extractLsb'_or,
    extract_shift, extract_shift_apart, extract_field_apart, BitVec.zero_or, BitVec.or_zero,
    BitVec.toNat_ofNat]
  omega

theorem Command.sizeTranslateParams_header :
    c.header.sizeTranslateParams = c.sizeTranslateParameters := by
  have hlt := c.sizes_lt.2
  simp (disch := omega) only [CommandHeader.sizeTranslateParams, header_raw, BitVec.extractLsb'_or,
    extract_field, extract_shift_apart, BitVec.zero_or, BitVec.toNat_ofNat]
  omega

theorem writer_length :
    c.writer.length = 1 + c.header.numNormalParams + c.header.sizeTranslateParams := by
  rw [c.numNormalParams_header, c.sizeTranslateParams_header]
  simp only [Command.writer, List.length_cons, List.length_append, NormalTags.length_write,
    length_parameters, Command.sizeNormalParameters, Command.sizeTranslateParameters]
  omega

/-- What the reader gives for any arguments. -/
theorem read_rewrite_writer (k : Kernel) :
    reader c.normalList (c.translateList.map Parameter.tag) (rewriteMessage k c.writer) =
      some (c.arguments, c.translateList.map fun p => p.cut.received k) := by
  have hlength : (c.normalList.write c.arguments).length = c.header.numNormalParams := by
    rw [NormalTags.length_write, c.numNormalParams_header]
    rfl
  have hrewrite : rewriteMessage k c.writer = c.header.raw ::
      (c.normalList.write c.arguments ++ c.translateList.flatMap (Parameter.rewritten k)) := by
    simp only [rewriteMessage, Command.writer]
    rw [List.take_left' hlength, List.drop_left' hlength,
      rewrite_parameters k fun p hp => c.tag_size_le hp]
  rw [hrewrite, reader, List.drop_succ_cons, List.drop_zero, NormalTags.read_write,
    Option.bind_some,
    readTranslate_rewritten, Option.map_some]

end Commands

/-! ## When nothing is cut -/

theorem ofNat_mod_eq_iff {x : Word} {n : Nat} (hn : n ≤ 2 ^ 32) (hpos : 0 < n) :
    BitVec.ofNat 32 (x.toNat % n) = x ↔ x.toNat < n := by
  have hmod := Nat.mod_lt x.toNat hpos
  rw [← BitVec.toNat_inj, BitVec.toNat_ofNat, Nat.mod_eq_of_lt (by omega)]
  exact Nat.mod_eq_iff_lt (by omega)

theorem setWidth_setWidth_eq_iff {x : Word} :
    (x.setWidth 27).setWidth 32 = x ↔ x.toNat < 2 ^ 27 := by
  have hx := x.isLt
  rw [← BitVec.toNat_inj, BitVec.toNat_setWidth, BitVec.toNat_setWidth]
  omega

theorem Parameter.cut_eq_iff (p : Parameter) : p.cut = p ↔ p.Exact := by
  cases p with
  | handle close first more => simp [cut, Exact]
  | processId => simp [cut, Exact]
  | staticBuffer b =>
    have hsize := ofNat_mod_eq_iff (x := b.size) (n := 2 ^ 18) (by decide) (by decide)
    have hid := ofNat_mod_eq_iff (x := b.id) (n := 16) (by decide) (by decide)
    cases b
    simp_all [cut, Exact]
  | pxiBuffer readOnly b =>
    have hsize := ofNat_mod_eq_iff (x := b.size) (n := 2 ^ 24) (by decide) (by decide)
    have hid := ofNat_mod_eq_iff (x := b.id) (n := 16) (by decide) (by decide)
    cases b
    simp_all [cut, Exact]
  | mapBuffer write b =>
    have hsize := setWidth_setWidth_eq_iff (x := b.size)
    cases b
    simp_all [cut, Exact]

/-- A kernel whose tables show the buffers they are for. -/
def revealing : Kernel where
  processId := 0
  tableSize _ _ _ := 0
  tableSize_lt _ _ _ := by decide
  tableAddr _ size _ := size

theorem Parameter.cut_eq_of_received {p : Parameter}
    (h : p.cut.received revealing = p.received revealing) : p.cut = p := by
  cases p with
  | handle close first more => rfl
  | processId => rfl
  | staticBuffer b =>
    cases b
    simp_all [cut, received]
  | pxiBuffer readOnly b =>
    cases b
    simp_all [cut, received, revealing]
  | mapBuffer write b =>
    cases b
    simp_all [cut, received]

theorem preserved_iff_exact {α : Type} (c : Command α) :
    Preserved c ↔ ∀ p ∈ c.translateList, p.Exact := by
  constructor
  · intro h p hp
    have hread := h.2 revealing
    rw [read_rewrite_writer, Option.some_inj, Prod.mk.injEq] at hread
    rw [← p.cut_eq_iff]
    exact Parameter.cut_eq_of_received (List.map_inj_left.mp hread.2 p hp)
  · intro h
    refine ⟨writer_length c, fun k => ?_⟩
    rw [read_rewrite_writer, Option.some_inj, Prod.mk.injEq]
    refine ⟨rfl, List.map_congr_left fun p hp => ?_⟩
    rw [p.cut_eq_iff.mpr (h p hp)]

/-- A static buffer of 256 KiB is read as an empty one. -/
theorem not_preserved_large : ¬ Preserved
    (⟨1, .nil, (), [.staticBuffer ⟨0x100000, 0x40000, 0⟩], by decide⟩ : Command Unit) := by
  intro h
  have hread := h.2 revealing
  rw [read_rewrite_writer] at hread
  revert hread
  decide

end Marshalling

end Mikage.IPC
