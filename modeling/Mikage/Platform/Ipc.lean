import Mathlib

/-!
# IPC command headers and translation descriptors

The bit fields of the first word of an IPC command and of the words that start its translate
parameters.
-/

namespace Mikage.IPC

structure CommandHeader where
  raw : BitVec 32
  deriving DecidableEq, Repr

namespace CommandHeader

def sizeTranslateParams (h : CommandHeader) : Nat := (h.raw.extractLsb' 0 6).toNat

def numNormalParams (h : CommandHeader) : Nat := (h.raw.extractLsb' 6 6).toNat

theorem numNormalParams_lt (h : CommandHeader) : h.numNormalParams < 64 :=
  (h.raw.extractLsb' 6 6).isLt

/-- The offset behind the translate parameters, `command_end`. -/
def commandEnd (h : CommandHeader) : Nat := 0x84 + 4 * (h.numNormalParams + h.sizeTranslateParams)

end CommandHeader

structure TranslationDescriptor where
  raw : BitVec 32
  deriving DecidableEq, Repr

namespace TranslationDescriptor

inductive DescriptorType where
  | handles | staticBuffer | pxiBuffer | pxiConstBuffer
  | mapInvalid | mapReadOnly | mapWriteOnly | mapReadWrite
  deriving DecidableEq, Repr

variable (d : TranslationDescriptor)

def type : DescriptorType :=
  match (d.raw.extractLsb' 1 3).toNat with
  | 0 => .handles
  | 1 => .staticBuffer
  | 2 => .pxiBuffer
  | 3 => .pxiConstBuffer
  | 4 => .mapInvalid
  | 5 => .mapReadOnly
  | 6 => .mapWriteOnly
  | _ => .mapReadWrite

/-! The fields of `handles`. -/

def closeHandle : Bool := d.raw.getLsbD 4

def fillProcessId : Bool := d.raw.getLsbD 5

def numHandles : Nat := (d.raw.extractLsb' 26 6).toNat + 1

/-! The fields of `static_buffer`, `pxi_buffer` and `map_buffer`. -/

def staticBufferId : Nat := (d.raw.extractLsb' 10 4).toNat

def staticBufferSize : Nat := (d.raw.extractLsb' 14 18).toNat

def pxiBufferId : Nat := (d.raw.extractLsb' 4 4).toNat

def pxiBufferSize : Nat := (d.raw.extractLsb' 8 24).toNat

def mapBufferSize : BitVec 32 := (d.raw.extractLsb' 4 27).setWidth 32

def makeStaticBuffer (id numBytes : Nat) : TranslationDescriptor :=
  ⟨(1 : BitVec 32) <<< 1 ||| (BitVec.ofNat 4 id).setWidth 32 <<< 10 |||
    (BitVec.ofNat 18 numBytes).setWidth 32 <<< 14⟩

theorem staticBufferId_lt : d.staticBufferId < 16 := (d.raw.extractLsb' 10 4).isLt

theorem pxiBufferId_lt : d.pxiBufferId < 16 := (d.raw.extractLsb' 4 4).isLt

/-- How many words of parameters follow the descriptor. -/
def numParams : Nat :=
  match d.type with
  | .handles => d.numHandles
  | _ => 1

end TranslationDescriptor

end Mikage.IPC
