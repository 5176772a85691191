import Mikage.Framework.ImageFormat
import Mikage.Lib.Words
import Mikage.Memory.VirtualMemory
import Mikage.Video.Combiners
import Mikage.Video.PipelineKey

/-!
# The framebuffer of the software rasterizer

`DrawPixel`, `GetPixel`, the depth and the stencil of a pixel. A pixel is found by an index that is
computed in 32 bits, from the bottom of the buffer up; nothing compares it with the size of the
buffer. Memory is one of bytes, and every write is kept with the memory before it.
-/

namespace Mikage.Pica.Rasterizer

open Lib.Words
open TextureEnv (red green blue alpha)

/-! ## Memory -/

/-- What a write is for. -/
inductive Target where
  | color | depth | stencil
  deriving DecidableEq, Repr

structure Write where
  target : Target
  before : Bytes 32
  address : PAddr
  size : ℕ
  value : BitVec 32

/-- The bytes after a write of `size` bytes. -/
def stored (size : ℕ) (memory : Bytes 32) (address : PAddr) (value : BitVec 32) : Bytes 32 :=
  fun x => if (x - address).toNat < size then byteAt value (x - address).toNat else memory x

/-- The number in `size` bytes, four at most. -/
def loaded (size : ℕ) (memory : Bytes 32) (address : PAddr) : BitVec 32 :=
  ((word memory address).setWidth (8 * size)).setWidth 32

def Write.after (w : Write) : Bytes 32 := stored w.size w.before w.address w.value

structure Drawing where
  memory : Bytes 32
  writes : List Write

abbrev DrawM := EStateM Exception Drawing

def ofExcept {α : Type} : Except Exception α → DrawM α
  | .ok a => pure a
  | .error e => throw e

def readLegacy (size : ℕ) (address : PAddr) : DrawM (BitVec 32) := do
  return loaded size (← get).memory address

def writeLegacy (target : Target) (size : ℕ) (address : PAddr) (value : BitVec 32) : DrawM Unit :=
  modify fun d => ⟨stored size d.memory address value,
    d.writes ++ [⟨target, d.memory, address, size, value⟩]⟩

/-! ## Registers -/

structure FramebufferRegisters where
  colorRead : BitVec 4
  colorWrite : BitVec 4
  depthStencilRead : BitVec 2
  depthStencilWrite : BitVec 2
  depthFormat : BitVec 32
  colorFormat : BitVec 3
  depthBufferAddress : BitVec 32
  colorBufferAddress : BitVec 32
  width : BitVec 11
  height : BitVec 10

namespace FramebufferRegisters

variable (fb : FramebufferRegisters)

def colorReadEnabled : Bool := fb.colorRead != 0
def colorWriteEnabled : Bool := fb.colorWrite != 0
def depthStencilReadEnabled : Bool := fb.depthStencilRead != 0
def depthStencilWriteEnabled : Bool := fb.depthStencilWrite != 0

/-- `ToGenericFormat(GetColorFormat())` -/
def getColorFormat : GenericImageFormat :=
  [GenericImageFormat.rgba8, .rgb8, .rgba5551, .rgb565, .rgba4].getD fb.colorFormat.toNat .unknown

/-- `ToGenericFormat(GetDepthStencilFormat())` -/
def getDepthStencilFormat : GenericImageFormat :=
  [GenericImageFormat.d16, .unknown, .d24, .d24s8].getD fb.depthFormat.toNat .unknown

def getColorBufferPhysicalAddress : PAddr := fb.colorBufferAddress * 8
def getDepthBufferPhysicalAddress : PAddr := fb.depthBufferAddress * 8

/-- `x + y * GetWidth()`, after `y = height - y`. -/
def pixelIndex (x y : ℕ) : BitVec 32 :=
  BitVec.ofNat 32 x + (fb.height.setWidth 32 - BitVec.ofNat 32 y) * fb.width.setWidth 32

end FramebufferRegisters

/-! ## Colours -/

/-- The size of a pixel in `DrawPixel` and `GetPixel`. -/
def colorBytes : GenericImageFormat → Except Exception ℕ
  | .rgba8 => pure 4
  | .rgb565 | .rgba5551 | .rgba4 => pure 2
  | _ => throw (.runtimeError "Unknown framebuffer color format")

/-- The `value` of `DrawPixel`. -/
def encodeColor (format : GenericImageFormat) (color : Fin 4 → BitVec 8) : BitVec 32 :=
  match format with
  | .rgba8 =>
    (red color).setWidth 32 <<< 24 ||| (green color).setWidth 32 <<< 16 |||
      (blue color).setWidth 32 <<< 8 ||| (alpha color).setWidth 32
  | .rgb565 =>
    (red color >>> 3).setWidth 32 <<< 11 ||| (green color >>> 2).setWidth 32 <<< 5 |||
      (blue color >>> 3).setWidth 32
  | .rgba5551 =>
    (red color >>> 3).setWidth 32 <<< 11 ||| (green color >>> 3).setWidth 32 <<< 6 |||
      (blue color >>> 3).setWidth 32 <<< 1 ||| (alpha color >>> 7).setWidth 32
  | _ =>
    (red color >>> 4).setWidth 32 <<< 12 ||| (green color >>> 4).setWidth 32 <<< 8 |||
      (blue color &&& 0xf0).setWidth 32 ||| (alpha color >>> 4).setWidth 32

def extend4To8 (val : BitVec 8) : BitVec 8 := val <<< 4 ||| val
def extend5To8 (val : BitVec 8) : BitVec 8 := val <<< 3 ||| val >>> 2
def extend6To8 (val : BitVec 8) : BitVec 8 := val <<< 2 ||| val >>> 4

/-- What `GetPixel` makes of the `value`. -/
def decodeColor (format : GenericImageFormat) (value : BitVec 32) : Fin 4 → BitVec 8 :=
  match format with
  | .rgba8 =>
    ![(value >>> 24).setWidth 8, (value >>> 16 &&& 0xFF).setWidth 8,
      (value >>> 8 &&& 0xFF).setWidth 8, (value &&& 0xFF).setWidth 8]
  | .rgb565 =>
    ![extend5To8 ((value >>> 11).setWidth 8), extend6To8 ((value >>> 5 &&& 0x3F).setWidth 8),
      extend5To8 ((value &&& 0x1F).setWidth 8), 255]
  | .rgba5551 =>
    ![extend5To8 ((value >>> 11).setWidth 8), extend5To8 ((value >>> 6 &&& 0x1F).setWidth 8),
      extend5To8 ((value >>> 1 &&& 0x1F).setWidth 8), if value &&& 0x1 ≠ 0 then 255 else 0]
  | _ =>
    ![extend4To8 ((value >>> 12).setWidth 8), extend4To8 ((value >>> 8 &&& 0xF).setWidth 8),
      extend4To8 ((value >>> 4 &&& 0xF).setWidth 8), extend4To8 ((value &&& 0xF).setWidth 8)]

/-! ## The code -/

section Code

variable (fb : FramebufferRegisters)

def colorAddress (size : ℕ) (x y : ℕ) : PAddr :=
  fb.getColorBufferPhysicalAddress + BitVec.ofNat 32 size * fb.pixelIndex x y

def drawPixel (x y : ℕ) (color : Fin 4 → BitVec 8) : DrawM Unit := do
  let size ← ofExcept (colorBytes fb.getColorFormat)
  writeLegacy .color size (colorAddress fb size x y) (encodeColor fb.getColorFormat color)

def getPixel (x y : ℕ) : DrawM (Fin 4 → BitVec 8) := do
  let size ← ofExcept (colorBytes fb.getColorFormat)
  return decodeColor fb.getColorFormat (← readLegacy size (colorAddress fb size x y))

def getDepth (x y : ℕ) : DrawM (BitVec 32) :=
  let addr := fb.getDepthBufferPhysicalAddress
  match fb.getDepthStencilFormat with
  | .d24s8 => do return (← readLegacy 4 (addr + 4 * fb.pixelIndex x y)) &&& 0xffffff
  | .d16 => readLegacy 2 (addr + 2 * fb.pixelIndex x y)
  | _ => throw (.runtimeError "Unknown framebuffer depth format")

def setDepth (x y : ℕ) (value : BitVec 32) : DrawM Unit :=
  let addr := fb.getDepthBufferPhysicalAddress
  match fb.getDepthStencilFormat with
  | .d24s8 => do
    writeLegacy .depth 1 (addr + 4 * fb.pixelIndex x y) (value &&& 0xff)
    writeLegacy .depth 1 (addr + 1 + 4 * fb.pixelIndex x y) (value >>> 8 &&& 0xff)
    writeLegacy .depth 1 (addr + 2 + 4 * fb.pixelIndex x y) (value >>> 16 &&& 0xff)
  | .d16 => writeLegacy .depth 2 (addr + 2 * fb.pixelIndex x y) value
  | _ => throw (.runtimeError "Unknown framebuffer depth format")

def getStencil (x y : ℕ) : DrawM (BitVec 8) :=
  match fb.getDepthStencilFormat with
  | .d24s8 => do
    let value ← readLegacy 1 (fb.getDepthBufferPhysicalAddress + 3 + 4 * fb.pixelIndex x y)
    return value.setWidth 8
  | _ => throw (.runtimeError "Unknown framebuffer stencil format")

/-- `new_value`; `Keep` does not come here. -/
def stencilResult (op : BitVec 3) (value ref : BitVec 8) : BitVec 8 :=
  match op.toNat with
  | 1 => 0
  | 2 => ref
  | 3 => (if value < 254 then value else 254) + 1
  | 4 => (if value < 1 then 1 else value) - 1
  | 5 => ~~~value
  | 6 => value + 1
  | _ => value - 1

def applyStencilOp (op : BitVec 3) (mask : BitVec 8) (x y : ℕ) (value ref : BitVec 8) :
    DrawM Unit :=
  if op = 0 then pure ()
  else
    match fb.getDepthStencilFormat with
    | .d24s8 => do
      let newValue := stencilResult op value ref
      writeLegacy .stencil 1 (fb.getDepthBufferPhysicalAddress + (3 + 4 * fb.pixelIndex x y))
        ((newValue &&& mask ||| value &&& ~~~mask).setWidth 32)
    | _ => throw (.runtimeError "Unknown framebuffer stencil format")

end Code

/-! ## What a write may change -/

/-- The pixels of a buffer, one row more than the stored height. -/
def pixelCount (width : BitVec 11) (height : BitVec 10) : ℕ := width.toNat * (height.toNat + 1)

/-- The size of a pixel in the depth buffer. -/
def depthBytes (format : GenericImageFormat) : ℕ := if format = .d24s8 then 4 else 2

/-- The byte belongs to the buffer the write is for. -/
def InBuffer (fb : FramebufferRegisters) : Target → PAddr → Prop
  | .color, a => ∃ size, colorBytes fb.getColorFormat = .ok size ∧
      ∃ k < size * pixelCount fb.width fb.height,
        a = fb.getColorBufferPhysicalAddress + BitVec.ofNat 32 k
  | _, a => ∃ k < depthBytes fb.getDepthStencilFormat * pixelCount fb.width fb.height,
      a = fb.getDepthBufferPhysicalAddress + BitVec.ofNat 32 k

/-- The lowest bit of a channel, and how many it has. -/
def channelBits : GenericImageFormat → Fin 4 → ℕ × ℕ
  | .rgba8 => ![(24, 8), (16, 8), (8, 8), (0, 8)]
  | .rgb565 => ![(11, 5), (5, 6), (0, 5), (0, 0)]
  | .rgba5551 => ![(11, 5), (6, 5), (1, 5), (0, 1)]
  | _ => ![(12, 4), (8, 4), (4, 4), (0, 4)]

/-- The stored bits of a channel of a pixel. -/
def channel (fb : FramebufferRegisters) (size : ℕ) (memory : Bytes 32) (i : BitVec 32)
    (c : Fin 4) : BitVec (channelBits fb.getColorFormat c).2 :=
  (loaded size memory (fb.getColorBufferPhysicalAddress + BitVec.ofNat 32 size * i)).extractLsb'
    (channelBits fb.getColorFormat c).1 _

/-- Byte `k` of a pixel of the D24S8 buffer; the last one is the stencil. -/
def depthByte (fb : FramebufferRegisters) (memory : Bytes 32) (i : BitVec 32) (k : ℕ) : BitVec 8 :=
  memory (fb.getDepthBufferPhysicalAddress + BitVec.ofNat 32 k + 4 * i)

/-- The write is inside its buffer and keeps, in all pixels, what it is not for. `enabled` are the
channels that are written, `mask` the bits of the stencil. -/
structure Write.Sound (fb : FramebufferRegisters) (enabled : Fin 4 → Bool) (mask : BitVec 8)
    (w : Write) : Prop where
  confined : ∀ k < w.size, InBuffer fb w.target (w.address + BitVec.ofNat 32 k)
  pixel : w.target = .color → colorBytes fb.getColorFormat = .ok w.size
  channels : w.target = .color → ∀ c, enabled c = false → ∀ i,
    channel fb w.size w.after i c = channel fb w.size w.before i c
  stencilByte : w.target = .depth → fb.getDepthStencilFormat = .d24s8 → ∀ i,
    depthByte fb w.after i 3 = depthByte fb w.before i 3
  depthBytes : w.target = .stencil → ∀ i, ∀ k < 3,
    depthByte fb w.after i k = depthByte fb w.before i k
  stencilBits : w.target = .stencil → ∀ i,
    depthByte fb w.after i 3 &&& ~~~mask = depthByte fb w.before i 3 &&& ~~~mask

/-- The two buffers have no byte in common. -/
def Apart (fb : FramebufferRegisters) : Prop := ∀ a, InBuffer fb .color a → ¬ InBuffer fb .depth a

/-- The pixel lies in a buffer of this size. -/
def InsideBuffer (width : BitVec 11) (height : BitVec 10) (x y : ℕ) : Prop :=
  0 ≤ (x : ℤ) + ((height.toNat : ℤ) - y) * width.toNat ∧
    (x : ℤ) + ((height.toNat : ℤ) - y) * width.toNat < pixelCount width height

instance (width : BitVec 11) (height : BitVec 10) (x y : ℕ) :
    Decidable (InsideBuffer width height x y) := inferInstanceAs (Decidable (_ ∧ _))

/-! ## Bytes after a write -/

section Bytes

variable {memory : Bytes 32} {address a : PAddr} {value v : BitVec 32} {size i k : ℕ}

theorem stored_other (h : size ≤ (a - address).toNat) : stored size memory address value a =
    memory a := if_neg (Nat.not_lt.2 h)

theorem add_ofNat_sub (h : k < 2 ^ 32) : (address + BitVec.ofNat 32 k - address).toNat = k := by
  rw [BitVec.add_comm, BitVec.add_sub_cancel, BitVec.toNat_ofNat, Nat.mod_eq_of_lt h]

theorem stored_same (h : k < size) (hk : k < 2 ^ 32) :
    stored size memory address value (address + BitVec.ofNat 32 k) = byteAt value k := by
  rw [stored, add_ofNat_sub hk, if_pos h]

/-- A byte that is written. -/
theorem stored_byte {b : BitVec 8} : stored 1 memory address (b.setWidth 32) address = b := by
  have hzero : (address - address).toNat = 0 := by rw [BitVec.sub_self]; rfl
  rw [stored, hzero, if_pos Nat.zero_lt_one, byteAt]
  apply BitVec.eq_of_getLsbD_eq
  intro i hi
  simp only [BitVec.getLsbD_extractLsb', BitVec.getLsbD_setWidth]
  grind

theorem getLsbD_word (hi : i < 32) : (word memory address).getLsbD i =
    (memory (address + BitVec.ofNat 32 (i / 8))).getLsbD (i % 8) := by
  have hpart : i / 8 = 0 ∨ i / 8 = 1 ∨ i / 8 = 2 ∨ i / 8 = 3 := by omega
  rcases hpart with h | h | h | h <;>
  · simp only [word, BitVec.getLsbD_append, h, BitVec.add_zero]
    grind

theorem getLsbD_loaded (hsize : size ≤ 4) : (loaded size memory address).getLsbD i =
    (decide (i < 8 * size) &&
      (memory (address + BitVec.ofNat 32 (i / 8))).getLsbD (i % 8)) := by
  by_cases hi : i < 8 * size
  · rw [loaded, BitVec.getLsbD_setWidth, BitVec.getLsbD_setWidth, getLsbD_word (by omega)]
    simp [hi, show i < 32 by omega]
  · rw [loaded, BitVec.getLsbD_setWidth, BitVec.getLsbD_setWidth]
    simp [hi]

/-- What is written is read again. -/
theorem loaded_stored (hsize : size ≤ 4) :
    loaded size (stored size memory address value) address =
      (value.setWidth (8 * size)).setWidth 32 := by
  refine BitVec.eq_of_getLsbD_eq fun i hi => ?_
  rw [getLsbD_loaded hsize, BitVec.getLsbD_setWidth, BitVec.getLsbD_setWidth]
  by_cases h : i < 8 * size
  · rw [stored_same (by omega) (by omega), byteAt, BitVec.getLsbD_extractLsb']
    simp [h, hi, show i % 8 < 8 by omega, Nat.div_add_mod]
  · simp [h]

/-- Elsewhere nothing changes. -/
theorem loaded_stored_other {size' : ℕ} (hsize : size' ≤ 4)
    (h : ∀ k < size', size ≤ (a + BitVec.ofNat 32 k - address).toNat) :
    loaded size' (stored size memory address value) a = loaded size' memory a := by
  refine BitVec.eq_of_getLsbD_eq fun i hi => ?_
  rw [getLsbD_loaded hsize, getLsbD_loaded hsize]
  by_cases hlt : i < 8 * size'
  · rw [stored_other (h _ (by omega))]
  · simp [hlt]

/-- Two pixels of two or four bytes are the same, or have no byte in common. -/
theorem same_or_apart (hsize : size = 2 ∨ size = 4) (base i j : BitVec 32) :
    base + BitVec.ofNat 32 size * i = base + BitVec.ofNat 32 size * j ∨
      ∀ k < size, size ≤ (base + BitVec.ofNat 32 size * i + BitVec.ofNat 32 k -
        (base + BitVec.ofNat 32 size * j)).toNat := by
  have hdiff (k : ℕ) : base + BitVec.ofNat 32 size * i + BitVec.ofNat 32 k -
      (base + BitVec.ofNat 32 size * j) = BitVec.ofNat 32 size * (i - j) + BitVec.ofNat 32 k := by
    ring
  by_cases hzero : BitVec.ofNat 32 size * (i - j) = 0
  · left
    rw [mul_sub, sub_eq_zero] at hzero
    rw [hzero]
  · right
    intro k hk
    have hd := (i - j).isLt
    have hne : (BitVec.ofNat 32 size * (i - j)).toNat ≠ 0 :=
      fun h => hzero (BitVec.eq_of_toNat_eq h)
    rw [hdiff, BitVec.toNat_add]
    rw [BitVec.toNat_mul] at *
    simp only [BitVec.toNat_ofNat] at *
    rcases hsize with rfl | rfl <;> omega

end Bytes

/-! ## Channels -/

section Channels

variable {format : GenericImageFormat} {color : Fin 4 → BitVec 8} {size : ℕ} {c : Fin 4}

/-- A format that `DrawPixel` knows. -/
def Drawable (format : GenericImageFormat) : Prop :=
  format = .rgba8 ∨ format = .rgb565 ∨ format = .rgba5551 ∨ format = .rgba4

theorem drawable_of_colorBytes (h : colorBytes format = .ok size) :
    Drawable format ∧ (size = 2 ∨ size = 4) := by
  unfold Drawable
  cases format <;>
    simp [colorBytes, pure, Except.pure, throw, throwThe, MonadExceptOf.throw] at h ⊢ <;> omega

theorem channelBits_le (c : Fin 4) : (channelBits format c).2 ≤ 8 := by
  unfold channelBits
  split <;> fin_cases c <;> decide

/-- The bits of a channel are the highest ones of the colour. -/
theorem encodeColor_channel (h : Drawable format) (c : Fin 4) :
    (encodeColor format color).extractLsb' (channelBits format c).1 (channelBits format c).2 =
      (color c).extractLsb' (8 - (channelBits format c).2) (channelBits format c).2 := by
  apply BitVec.eq_of_getLsbD_eq
  intro i hi
  have hi : i < 8 := hi.trans_le (channelBits_le c)
  rcases h with rfl | rfl | rfl | rfl <;> fin_cases c <;> interval_cases i <;>
    simp [channelBits, encodeColor, red, green, blue, alpha]

theorem alpha_bit (value : BitVec 32) :
    (if value &&& 1 ≠ 0 then 255#8 else 0#8).getLsbD 7 = value.getLsbD 0 := by
  rw [show value &&& 1 = (BitVec.ofBool (value.getLsbD 0)).setWidth 32 from
    BitVec.and_one_eq_setWidth_ofBool_getLsbD]
  cases value.getLsbD 0 <;> rfl

/-- `GetPixel` keeps the bits of a channel as the highest ones. -/
theorem decodeColor_channel (h : Drawable format) (c : Fin 4) (value : BitVec (8 * size))
    (hsize : colorBytes format = .ok size) :
    (decodeColor format (value.setWidth 32) c).extractLsb' (8 - (channelBits format c).2)
        (channelBits format c).2 =
      (value.setWidth 32).extractLsb' (channelBits format c).1 (channelBits format c).2 := by
  apply BitVec.eq_of_getLsbD_eq
  intro i hi
  have hi : i < 8 := hi.trans_le (channelBits_le c)
  rcases h with rfl | rfl | rfl | rfl <;> cases hsize <;> fin_cases c <;> interval_cases i <;>
    simp [channelBits, decodeColor, extend5To8, extend6To8, extend4To8]
  -- the only channel of one bit
  simpa using alpha_bit (value.setWidth 32)

/-- A channel that is read and written again keeps its bits. -/
theorem encodeColor_decodeColor {value : BitVec (8 * size)} (hsize : colorBytes format = .ok size)
    (hc : color c = decodeColor format (value.setWidth 32) c) :
    (encodeColor format color).extractLsb' (channelBits format c).1 (channelBits format c).2 =
      (value.setWidth 32).extractLsb' (channelBits format c).1 (channelBits format c).2 := by
  have hformat := (drawable_of_colorBytes hsize).1
  rw [encodeColor_channel hformat, hc, decodeColor_channel hformat c value hsize]

/-- All channels are in the bytes of the pixel. -/
theorem channelBits_fit (hsize : colorBytes format = .ok size) (c : Fin 4) :
    (channelBits format c).1 + (channelBits format c).2 ≤ 8 * size := by
  rcases (drawable_of_colorBytes hsize).1 with rfl | rfl | rfl | rfl <;> cases hsize <;>
    fin_cases c <;> decide

end Channels

/-! ## Pixels -/

section Pixels

variable {fb : FramebufferRegisters} {x y size : ℕ}

/-- The index in numbers that do not wrap. -/
theorem pixelIndex_eq (fb : FramebufferRegisters) (x y : ℕ) : fb.pixelIndex x y = BitVec.ofInt 32
    ((x : ℤ) + ((fb.height.toNat : ℤ) - y) * fb.width.toNat) := by
  rw [sub_eq_add_neg, BitVec.ofInt_add, BitVec.ofInt_mul, BitVec.ofInt_add, BitVec.ofInt_neg,
    BitVec.ofInt_natCast, BitVec.ofInt_natCast, BitVec.ofInt_natCast, BitVec.ofInt_natCast,
    FramebufferRegisters.pixelIndex, sub_eq_add_neg, BitVec.ofNat_toNat, BitVec.ofNat_toNat]

theorem pixelIndex_of_inside (h : InsideBuffer fb.width fb.height x y) :
    ∃ m < pixelCount fb.width fb.height, fb.pixelIndex x y = BitVec.ofNat 32 m := by
  obtain ⟨hlow, hhigh⟩ := h
  obtain ⟨m, hm⟩ := Int.eq_ofNat_of_zero_le hlow
  have hindex := pixelIndex_eq fb x y
  rw [hm] at hhigh hindex
  exact ⟨m, by exact_mod_cast hhigh, by rw [hindex, BitVec.ofInt_natCast]⟩

/-- A byte of a pixel inside the buffer is one of the buffer. -/
theorem byte_inside (h : InsideBuffer fb.width fb.height x y) (base : PAddr) {k : ℕ}
    (hk : k < size) : ∃ n < size * pixelCount fb.width fb.height,
      base + BitVec.ofNat 32 size * fb.pixelIndex x y + BitVec.ofNat 32 k =
        base + BitVec.ofNat 32 n := by
  obtain ⟨m, hm, hindex⟩ := pixelIndex_of_inside h
  refine ⟨size * m + k, ?_, ?_⟩
  · calc size * m + k < size * (m + 1) := by rw [Nat.mul_add]; omega
      _ ≤ size * pixelCount fb.width fb.height := Nat.mul_le_mul_left _ hm
  · rw [hindex, ← BitVec.ofNat_mul, BitVec.add_assoc, ← BitVec.ofNat_add]

variable {enabled : Fin 4 → Bool} {mask : BitVec 8} {memory : Bytes 32}

theorem color_sound (h : InsideBuffer fb.width fb.height x y)
    (hsize : colorBytes fb.getColorFormat = .ok size) {color : Fin 4 → BitVec 8}
    (hkeep : ∀ c, enabled c = false → color c =
      decodeColor fb.getColorFormat (loaded size memory (colorAddress fb size x y)) c) :
    Write.Sound fb enabled mask
      ⟨.color, memory, colorAddress fb size x y, size, encodeColor fb.getColorFormat color⟩ where
  confined k hk := ⟨size, hsize, byte_inside h _ hk⟩
  pixel _ := hsize
  channels _ c hc i := by
    obtain ⟨hdrawable, hsizes⟩ := drawable_of_colorBytes hsize
    have hle : size ≤ 4 := by omega
    rcases same_or_apart hsizes fb.getColorBufferPhysicalAddress i (fb.pixelIndex x y) with
      hsame | hapart
    · have hfit := channelBits_fit hsize c
      have hread := encodeColor_decodeColor hsize (hkeep c hc)
      simp only [channel, hsame, Write.after]
      rw [colorAddress, loaded_stored hle]
      refine Eq.trans ?_ hread
      apply BitVec.eq_of_getLsbD_eq
      intro j hj
      simp only [BitVec.getLsbD_extractLsb', BitVec.getLsbD_setWidth]
      simp [hj, show (channelBits fb.getColorFormat c).1 + j < 8 * size by omega,
        show (channelBits fb.getColorFormat c).1 + j < 32 by omega]
    · simp only [channel, Write.after]
      rw [colorAddress, loaded_stored_other hle hapart]
  stencilByte h := nomatch h
  depthBytes h := nomatch h
  stencilBits h := nomatch h

/-- Different bytes of two pixels of the depth buffer. -/
theorem depth_apart (base i j : BitVec 32) (k k' : ℕ) (hk : k < 4) (hk' : k' < 4) (hne : k ≠ k') :
    1 ≤ (base + BitVec.ofNat 32 k + 4 * i - (base + BitVec.ofNat 32 k' + 4 * j)).toNat := by
  have hdiff : base + BitVec.ofNat 32 k + 4 * i - (base + BitVec.ofNat 32 k' + 4 * j) =
      4 * (i - j) + (BitVec.ofNat 32 k - BitVec.ofNat 32 k') := by ring
  rw [hdiff]
  simp only [BitVec.toNat_add, BitVec.toNat_mul, BitVec.toNat_sub, BitVec.ofNat_eq_ofNat,
    BitVec.toNat_ofNat]
  omega

theorem depth_sound (h : InsideBuffer fb.width fb.height x y)
    (hformat : fb.getDepthStencilFormat = .d24s8) {k : ℕ} (hk : k < 3) (value : BitVec 32) :
    Write.Sound fb enabled mask
      ⟨.depth, memory, fb.getDepthBufferPhysicalAddress + BitVec.ofNat 32 k +
        4 * fb.pixelIndex x y, 1, value⟩ where
  confined j hj := by
    obtain rfl : j = 0 := Nat.lt_one_iff.1 hj
    obtain ⟨n, hn, heq⟩ := byte_inside h fb.getDepthBufferPhysicalAddress (show k < 4 by omega)
    refine ⟨n, by rw [Rasterizer.depthBytes, if_pos hformat]; exact hn, ?_⟩
    rw [BitVec.add_zero]
    exact (add_right_comm _ _ _).trans heq
  pixel h := nomatch h
  channels h := nomatch h
  stencilByte _ _ i := stored_other (depth_apart _ _ _ 3 k (by decide) (by omega) (by omega))
  depthBytes h := nomatch h
  stencilBits h := nomatch h

theorem depth16_sound (h : InsideBuffer fb.width fb.height x y)
    (hformat : fb.getDepthStencilFormat = .d16) (value : BitVec 32) :
    Write.Sound fb enabled mask
      ⟨.depth, memory, fb.getDepthBufferPhysicalAddress + 2 * fb.pixelIndex x y, 2, value⟩ where
  confined j hj := by
    have hbytes : Rasterizer.depthBytes fb.getDepthStencilFormat = 2 := by
      rw [hformat]
      rfl
    rw [InBuffer, hbytes]
    · exact byte_inside h fb.getDepthBufferPhysicalAddress hj
    · exact fun h => nomatch h
  pixel h := nomatch h
  channels h := nomatch h
  stencilByte _ hformat' := by
    rw [hformat] at hformat'
    exact nomatch hformat'
  depthBytes h := nomatch h
  stencilBits h := nomatch h

theorem stencil_sound (h : InsideBuffer fb.width fb.height x y)
    (hformat : fb.getDepthStencilFormat = .d24s8) {value : BitVec 8}
    (hvalue : depthByte fb memory (fb.pixelIndex x y) 3 = value) (newValue : BitVec 8) :
    Write.Sound fb enabled mask
      ⟨.stencil, memory, fb.getDepthBufferPhysicalAddress + (3 + 4 * fb.pixelIndex x y), 1,
        (newValue &&& mask ||| value &&& ~~~mask).setWidth 32⟩ where
  confined j hj := by
    obtain rfl : j = 0 := Nat.lt_one_iff.1 hj
    obtain ⟨n, hn, heq⟩ := byte_inside h fb.getDepthBufferPhysicalAddress (show 3 < 4 by decide)
    refine ⟨n, by rw [Rasterizer.depthBytes, if_pos hformat]; exact hn, ?_⟩
    rw [BitVec.add_zero, ← heq]
    exact (BitVec.add_assoc _ _ _).symm.trans (add_right_comm _ _ _)
  pixel h := nomatch h
  channels h := nomatch h
  stencilByte h := nomatch h
  depthBytes _ i k hk := by
    rw [Write.after, ← BitVec.add_assoc]
    exact stored_other (depth_apart _ _ _ k 3 (by omega) (by decide) (by omega))
  stencilBits _ i := by
    rw [Write.after, ← BitVec.add_assoc]
    have hsame := same_or_apart (.inr rfl) (fb.getDepthBufferPhysicalAddress + BitVec.ofNat 32 3) i
      (fb.pixelIndex x y)
    rcases hsame with hsame | hapart
    · have hnew : depthByte fb (stored 1 memory
          (fb.getDepthBufferPhysicalAddress + 3 + 4 * fb.pixelIndex x y)
          ((newValue &&& mask ||| value &&& ~~~mask).setWidth 32)) i 3 =
          (newValue &&& mask ||| value &&& ~~~mask) :=
        (congrArg _ hsame).trans stored_byte
      have hold : depthByte fb memory i 3 = value := by
        rw [← hvalue]
        exact congrArg memory hsame
      rw [hnew, hold]
      apply BitVec.eq_of_getLsbD_eq
      intro j hj
      simp only [BitVec.getLsbD_and, BitVec.getLsbD_or, BitVec.getLsbD_not]
      grind
    · have hother := hapart 0 (by decide)
      rw [BitVec.add_zero] at hother
      exact congrArg (· &&& ~~~mask) (stored_other ((show 1 ≤ 4 by decide).trans hother))

/-! ## Bytes outside the buffer of a write -/

theorem Write.Sound.after_other {w : Write} (h : w.Sound fb enabled mask) {a : PAddr}
    (ha : ¬ InBuffer fb w.target a) : w.after a = w.before a := by
  refine stored_other (Nat.not_lt.1 fun hlt => ha ?_)
  have hin := h.confined _ hlt
  rwa [BitVec.ofNat_toNat, BitVec.setWidth_eq, BitVec.add_comm, BitVec.sub_add_cancel] at hin

theorem inBuffer_color {i k : ℕ} (hsize : colorBytes fb.getColorFormat = .ok size)
    (hi : i < pixelCount fb.width fb.height) (hk : k < size) :
    InBuffer fb .color (fb.getColorBufferPhysicalAddress +
      BitVec.ofNat 32 size * BitVec.ofNat 32 i + BitVec.ofNat 32 k) := by
  refine ⟨size, hsize, size * i + k, ?_, ?_⟩
  · calc size * i + k < size * (i + 1) := by rw [Nat.mul_add]; omega
      _ ≤ size * pixelCount fb.width fb.height := Nat.mul_le_mul_left _ hi
  · rw [← BitVec.ofNat_mul, BitVec.add_assoc, ← BitVec.ofNat_add]

theorem inBuffer_stencil {i : ℕ} (hformat : fb.getDepthStencilFormat = .d24s8)
    (hi : i < pixelCount fb.width fb.height) :
    InBuffer fb .depth (fb.getDepthBufferPhysicalAddress + BitVec.ofNat 32 3 +
      4 * BitVec.ofNat 32 i) := by
  refine ⟨4 * i + 3, by rw [Rasterizer.depthBytes, if_pos hformat]; omega, ?_⟩
  rw [BitVec.ofNat_add, BitVec.ofNat_mul, ← BitVec.add_assoc]
  exact add_right_comm _ _ _

/-- A sound write keeps the channels that are not written, in all pixels of the colour buffer. -/
theorem Write.Sound.keeps_channel {w : Write} (h : w.Sound fb enabled mask) (hapart : Apart fb)
    (hsize : colorBytes fb.getColorFormat = .ok size) {i : ℕ}
    (hi : i < pixelCount fb.width fb.height) {c : Fin 4} (hc : enabled c = false) :
    channel fb size w.after (BitVec.ofNat 32 i) c =
      channel fb size w.before (BitVec.ofNat 32 i) c := by
  obtain ⟨-, hsizes⟩ := drawable_of_colorBytes hsize
  have hother (htarget : w.target ≠ .color) :
      channel fb size w.after (BitVec.ofNat 32 i) c =
        channel fb size w.before (BitVec.ofNat 32 i) c := by
    have hbytes : ∀ k < size, w.size ≤ (fb.getColorBufferPhysicalAddress +
        BitVec.ofNat 32 size * BitVec.ofNat 32 i + BitVec.ofNat 32 k - w.address).toNat := by
      intro k hk
      refine Nat.not_lt.1 fun hlt => ?_
      have hin := h.confined _ hlt
      rw [BitVec.ofNat_toNat, BitVec.setWidth_eq, BitVec.add_comm, BitVec.sub_add_cancel] at hin
      have hdepth : InBuffer fb .depth (fb.getColorBufferPhysicalAddress +
          BitVec.ofNat 32 size * BitVec.ofNat 32 i + BitVec.ofNat 32 k) := by
        cases ht : w.target with
        | color => exact absurd ht htarget
        | depth => rwa [ht] at hin
        | stencil => rwa [ht] at hin
      exact hapart _ (inBuffer_color hsize hi hk) hdepth
    simp only [channel, Write.after]
    rw [loaded_stored_other (by omega) hbytes]
  by_cases htarget : w.target = .color
  · obtain rfl : w.size = size := Except.ok.inj ((h.pixel htarget).symm.trans hsize)
    exact h.channels htarget c hc _
  · exact hother htarget

/-- It keeps the stencil bits outside the mask. -/
theorem Write.Sound.keeps_stencil {w : Write} (h : w.Sound fb enabled mask) (hapart : Apart fb)
    (hformat : fb.getDepthStencilFormat = .d24s8) {i : ℕ}
    (hi : i < pixelCount fb.width fb.height) :
    depthByte fb w.after (BitVec.ofNat 32 i) 3 &&& ~~~mask =
      depthByte fb w.before (BitVec.ofNat 32 i) 3 &&& ~~~mask := by
  cases htarget : w.target with
  | color =>
    refine congrArg (· &&& ~~~mask) (h.after_other fun hin => ?_)
    rw [htarget] at hin
    exact hapart _ hin (inBuffer_stencil hformat hi)
  | depth => rw [h.stencilByte htarget hformat]
  | stencil => exact h.stencilBits htarget _

end Pixels

end Mikage.Pica.Rasterizer
