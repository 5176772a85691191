import Mathlib
import Mikage.Framework.ImageFormat
import Mikage.Video.Combiners

/-!
# Display transfer

The software path that copies a framebuffer pixel by pixel, with conversion, scaling and flipping.
Its loop reads and writes at offsets into two ranges of memory that were looked up for the sizes of
the images; an offset that is not inside ends the model with `Fault.outside`.

`displayTransfer_fits` says which configurations have all their pixels inside the images and take
them from the right place.
-/

namespace Mikage.GPU

open GenericImageFormat Pica.TextureEnv

abbrev Memory := ℕ → BitVec 8

/-- How a transfer ends other than by its result. -/
inductive Fault where
  | thrown (e : Exception)
  | divisionByZero
  | outside (offset : ℕ)
  deriving Repr

/-- `display_transfer_config`, with the addresses decoded. -/
structure DisplayTransferConfig where
  inputAddress : ℕ
  outputAddress : ℕ
  outputWidth : BitVec 16
  outputHeight : BitVec 16
  inputWidth : BitVec 16
  inputHeight : BitVec 16
  flipData : Bool
  inputFormat : BitVec 3
  outputFormat : BitVec 3
  scalingMode : BitVec 2

/-- `ToGenericFormat` of a framebuffer format. -/
def toGenericFormat (raw : BitVec 3) : GenericImageFormat :=
  [rgba8, rgb8, rgb565, rgba5551, rgba4].getD raw.toNat unknown

structure Color where
  r : ℕ
  g : ℕ
  b : ℕ
  a : ℕ
  deriving DecidableEq, Repr

def convert1To8 (value : ℕ) : ℕ := value * 255
def convert4To8 (value : ℕ) : ℕ := (value <<< 4 ||| value) % 256
def convert5To8 (value : ℕ) : ℕ := (value <<< 3 ||| value >>> 2) % 256
def convert6To8 (value : ℕ) : ℕ := (value <<< 2 ||| value >>> 4) % 256

def halfword (bytes : ℕ → BitVec 8) : ℕ := (bytes 0).toNat + (bytes 1).toNat * 256

/-- The colour of a pixel of the input, from its bytes. -/
def sourceColor (format : GenericImageFormat) (bytes : ℕ → BitVec 8) : Option Color :=
  let srcval := halfword bytes
  match format with
  | rgba8 => some ⟨(bytes 3).toNat, (bytes 2).toNat, (bytes 1).toNat, (bytes 0).toNat⟩
  | rgb565 => some ⟨convert5To8 (srcval >>> 11 &&& 0x1F), convert6To8 (srcval >>> 5 &&& 0x3F),
      convert5To8 (srcval &&& 0x1F), 255⟩
  | rgba5551 => some ⟨convert5To8 (srcval >>> 11 &&& 0x1F), convert5To8 (srcval >>> 6 &&& 0x1F),
      convert5To8 (srcval >>> 1 &&& 0x1F), convert1To8 (srcval &&& 0x1)⟩
  | rgba4 => some ⟨convert4To8 (srcval >>> 12 &&& 0xF), convert4To8 (srcval >>> 8 &&& 0xF),
      convert4To8 (srcval >>> 4 &&& 0xF), convert4To8 (srcval &&& 0xF)⟩
  | _ => none

def littleEndian (value : ℕ) : List (BitVec 8) := [BitVec.ofNat 8 value, BitVec.ofNat 8 (value / 256)]

/-- The bytes of a pixel of the output. -/
def targetBytes (format : GenericImageFormat) (c : Color) : Option (List (BitVec 8)) :=
  match format with
  | rgba8 => some [BitVec.ofNat 8 c.a, BitVec.ofNat 8 c.b, BitVec.ofNat 8 c.g, BitVec.ofNat 8 c.r]
  | rgb8 => some [BitVec.ofNat 8 c.b, BitVec.ofNat 8 c.g, BitVec.ofNat 8 c.r]
  | rgb565 =>
    some (littleEndian (((c.r >>> 3) <<< 11) ||| ((c.g >>> 2) <<< 5) ||| (c.b >>> 3)))
  | rgba5551 => some (littleEndian
      (((c.r >>> 3) <<< 11) ||| ((c.g >>> 3) <<< 6) ||| ((c.b >>> 3) <<< 1) ||| (c.a >>> 7)))
  | rgba4 => some (littleEndian
      (((c.r >>> 4) <<< 12) ||| ((c.g >>> 4) <<< 8) ||| ((c.b >>> 4) <<< 4) ||| (c.a >>> 4)))
  | _ => none

/-- The bytes that the loop reads or writes for a pixel. -/
def bytesPerPixel : GenericImageFormat → ℕ
  | rgba8 => 4
  | rgb8 => 3
  | _ => 2

namespace DisplayTransferConfig

variable (c : DisplayTransferConfig)

def pixelSkip : ℕ := if c.scalingMode ≠ 0 then 2 else 1
def pixelSkipY : ℕ := if c.scalingMode = 2 then 2 else 1
def scaledOutputWidth : ℕ := c.outputWidth.toNat / c.pixelSkip
def scaledOutputHeight : ℕ := c.outputHeight.toNat / c.pixelSkipY
def source : GenericImageFormat := toGenericFormat c.inputFormat
def target : GenericImageFormat := toGenericFormat c.outputFormat

/-- `input_y` of a row of the output. -/
def inputY (y : ℕ) : ℕ := if c.flipData then c.inputHeight.toNat - 1 - y else y

/-- Where the loop reads. -/
def sourceOffset (x y : ℕ) : ℕ :=
  u32 (x * bytesPerPixel c.source * c.pixelSkip +
    c.inputY y * c.pixelSkipY * c.inputWidth.toNat * bytesPerPixel c.source)

/-- Where it writes. -/
def targetOffset (x y : ℕ) : ℕ :=
  u32 (x * bytesPerPixel c.target + y * c.scaledOutputWidth * bytesPerPixel c.target)

end DisplayTransferConfig

/-- Writes the bytes from the address on. -/
def writeBytes (mem : Memory) (address : ℕ) (bytes : List (BitVec 8)) : Memory := fun a =>
  if address ≤ a ∧ a < address + bytes.length then bytes.getD (a - address) 0 else mem a

/-- One round of the inner loop, for ranges of the given sizes. -/
def transferPixel (c : DisplayTransferConfig) (inputSize outputSize : ℕ) (mem : Memory)
    (p : ℕ × ℕ) : Except Fault Memory :=
  let sourceOffset := c.sourceOffset p.1 p.2
  let targetOffset := c.targetOffset p.1 p.2
  match sourceColor c.source fun i => mem (c.inputAddress + sourceOffset + i) with
  | none => throw (.thrown (.runtimeError
      ("Unknown source framebuffer format " ++ hex c.inputFormat.toNat)))
  | some color =>
    if inputSize < sourceOffset + bytesPerPixel c.source then throw (.outside sourceOffset)
    else match targetBytes c.target color with
      | none => throw (.thrown (.runtimeError
          ("Unknown destination framebuffer format " ++ hex c.outputFormat.toNat)))
      | some bytes =>
        if outputSize < targetOffset + bytesPerPixel c.target then throw (.outside targetOffset)
        else pure (writeBytes mem (c.outputAddress + targetOffset) bytes)

/-- The pixels in the order of the loops. -/
def pixels (width height : ℕ) : List (ℕ × ℕ) :=
  (List.range height).flatMap fun y => (List.range width).map fun x => (x, y)

/-- `LookupContiguousMemoryBackedPage`, for the ranges that are backed. -/
def lookup (backed : ℕ → ℕ → Bool) (address bytes : ℕ) : Except Fault Unit :=
  if bytes = 0 then throw (.thrown (.contractViolated "num_bytes != 0"))
  else if backed address bytes then pure ()
  else throw (.thrown (.runtimeError "Requested invalid physical memory region"))

def checkedSize (format : GenericImageFormat) (width height : ℕ) : Except Fault ℕ :=
  (format.textureSize width height).mapError .thrown

/-- The display transfer where the renderer's `BlitImage` has not done it. -/
def displayTransfer (backed : ℕ → ℕ → Bool) (c : DisplayTransferConfig) (mem : Memory) :
    Except Fault Memory := do
  if c.outputHeight = 0 ∨ c.outputWidth = 0 then return mem
  if c.scalingMode = 3 then throw (.thrown (.invalid "Invalid scaling mode 3"))
  if c.inputHeight < c.outputHeight then
    throw (.thrown (.runtimeError ("Input height " ++ hex c.inputHeight.toNat ++
      " doesn't match output height " ++ hex c.outputHeight.toNat)))
  if c.flipData ∧ c.outputHeight ≠ c.inputHeight then
    throw (.thrown (.runtimeError "Flipping Y; Input height doesn't match output height exactly"))
  let inputSize ← checkedSize c.source c.inputWidth.toNat c.inputHeight.toNat
  if c.inputHeight = 0 then throw .divisionByZero
  let outputSize ← checkedSize c.target c.scaledOutputWidth c.scaledOutputHeight
  if c.scaledOutputHeight = 0 then throw .divisionByZero
  lookup backed c.inputAddress inputSize
  lookup backed c.outputAddress outputSize
  (pixels c.scaledOutputWidth c.scaledOutputHeight).foldlM (transferPixel c inputSize outputSize) mem

/-! ## Single pixels -/

section Pixels

variable {backed : ℕ → ℕ → Bool} {c : DisplayTransferConfig} {mem mem' : Memory}
  {format : GenericImageFormat} {inputSize outputSize : ℕ} {p : ℕ × ℕ}

theorem targetBytes_length {color : Color} {bytes : List (BitVec 8)}
    (h : targetBytes format color = some bytes) : bytes.length = bytesPerPixel format := by
  cases format <;> cases h <;> rfl

/-- Only the bytes of the pixel matter for its colour. -/
theorem sourceColor_congr {b b' : ℕ → BitVec 8} (h : ∀ i < bytesPerPixel format, b i = b' i) :
    sourceColor format b = sourceColor format b' := by
  cases format <;> simp only [bytesPerPixel] at h <;>
    simp only [sourceColor, halfword, h 0 (by decide), h 1 (by decide)]
  rw [h 2 (by decide), h 3 (by decide)]

theorem targetBytes_none {color color' : Color} (h : targetBytes format color = none) :
    targetBytes format color' = none := by
  cases format <;> first | rfl | cases h

theorem sourceColor_none {b b' : ℕ → BitVec 8} (h : sourceColor format b = none) :
    sourceColor format b' = none := by
  cases format <;> first | rfl | cases h

theorem nibblesPerPixel_source {b : ℕ → BitVec 8} {color : Color}
    (h : sourceColor format b = some color) :
    format.nibblesPerPixel = .ok (2 * bytesPerPixel format) ∧
      ¬ (format = etc1 ∨ format = etc1a4) := by
  cases format <;> first | exact ⟨rfl, by decide⟩ | cases h

/-- The size that is looked up is at most that of the image. -/
theorem checkedSize_le {width height size : ℕ}
    (hn : format.nibblesPerPixel = .ok (2 * bytesPerPixel format) ∧
      ¬ (format = etc1 ∨ format = etc1a4))
    (h : checkedSize format width height = .ok size) :
    size = u32 (u32 (width * height) * (2 * bytesPerPixel format)) / 2 ∧
      size ≤ width * height * bytesPerPixel format := by
  have hsize : size = u32 (u32 (width * height) * (2 * bytesPerPixel format)) / 2 := by
    rw [checkedSize, textureSize, if_neg hn.2, hn.1] at h
    exact (Except.ok.inj h).symm
  refine ⟨hsize, ?_⟩
  have hmod : u32 (u32 (width * height) * (2 * bytesPerPixel format)) ≤
      width * height * (2 * bytesPerPixel format) :=
    (Nat.mod_le _ _).trans (Nat.mul_le_mul_right _ (Nat.mod_le _ _))
  rw [hsize]
  have : width * height * (2 * bytesPerPixel format) =
      2 * (width * height * bytesPerPixel format) := by ring
  omega

theorem writeBytes_of_mem {address i : ℕ} {bytes : List (BitVec 8)} (h : i < bytes.length) :
    writeBytes mem address bytes (address + i) = bytes.getD i 0 := by
  rw [writeBytes, if_pos ⟨by omega, by omega⟩, Nat.add_sub_cancel_left]

theorem writeBytes_of_not_mem {address a : ℕ} {bytes : List (BitVec 8)}
    (h : a < address ∨ address + bytes.length ≤ a) : writeBytes mem address bytes a = mem a :=
  if_neg (by omega)

end Pixels

/-! ## The loop -/

namespace DisplayTransferConfig

variable (c : DisplayTransferConfig)

/-- The sizes that are looked up. -/
def inputSize : ℕ := (checkedSize c.source c.inputWidth.toNat c.inputHeight.toNat).toOption.getD 0
def outputSize : ℕ := (checkedSize c.target c.scaledOutputWidth c.scaledOutputHeight).toOption.getD 0

/-- The row of the input that a row of the output is to be taken from. -/
def inputRow (y : ℕ) : ℕ :=
  if c.flipData then c.inputHeight.toNat - 1 - y * c.pixelSkipY else y * c.pixelSkipY

/-- Where pixel `x` of a row of the input starts. -/
def inputPixel (x row : ℕ) : ℕ := (x + row * c.inputWidth.toNat) * bytesPerPixel c.source

def outputPixel (x y : ℕ) : ℕ := (x + y * c.scaledOutputWidth) * bytesPerPixel c.target

end DisplayTransferConfig

section Loop

variable {backed : ℕ → ℕ → Bool} {c : DisplayTransferConfig} {mem mem' mem0 : Memory}
  {p : ℕ × ℕ} {l : List (ℕ × ℕ)}

/-- The pixel of the input that starts at this offset is converted to these bytes. -/
def Converts (c : DisplayTransferConfig) (mem : Memory) (offset : ℕ) (bytes : List (BitVec 8)) :
    Prop :=
  ∃ color, sourceColor c.source (fun i => mem (c.inputAddress + offset + i)) = some color ∧
    targetBytes c.target color = some bytes

/-- Where the loop finds the pixel of the input. -/
def readStart (c : DisplayTransferConfig) (p : ℕ × ℕ) : ℕ :=
  c.inputPixel (p.1 * c.pixelSkip) (c.inputY p.2 * c.pixelSkipY)

/-- The bytes of both pixels are inside the images. -/
structure PixelFits (c : DisplayTransferConfig) (p : ℕ × ℕ) : Prop where
  source : readStart c p + bytesPerPixel c.source ≤ c.inputSize
  target : c.outputPixel p.1 p.2 + bytesPerPixel c.target ≤ c.outputSize
  column : p.1 < c.scaledOutputWidth

/-- The loop can convert between the formats. -/
structure Convertible (c : DisplayTransferConfig) : Prop where
  source : ∀ b, ∃ color, sourceColor c.source b = some color
  target : ∀ color, ∃ bytes, targetBytes c.target color = some bytes
  sizes : c.inputSize < 2 ^ 32 ∧ c.outputSize < 2 ^ 32

/-- The images do not overlap. -/
def Apart (c : DisplayTransferConfig) : Prop :=
  c.inputAddress + c.inputSize ≤ c.outputAddress ∨ c.outputAddress + c.outputSize ≤ c.inputAddress

theorem bytesPerPixel_pos (format : GenericImageFormat) : 0 < bytesPerPixel format := by
  cases format <;> decide

theorem sourceOffset_eq (h : readStart c p < 2 ^ 32) :
    c.sourceOffset p.1 p.2 = readStart c p := by
  rw [← u32_of_lt h]
  unfold DisplayTransferConfig.sourceOffset readStart DisplayTransferConfig.inputPixel
  ring_nf

theorem targetOffset_eq (h : c.outputPixel p.1 p.2 < 2 ^ 32) :
    c.targetOffset p.1 p.2 = c.outputPixel p.1 p.2 := by
  rw [← u32_of_lt h]
  unfold DisplayTransferConfig.targetOffset DisplayTransferConfig.outputPixel
  ring_nf

/-- A round of the loop for a pixel that fits. -/
theorem transferPixel_eq (hc : Convertible c) (hp : PixelFits c p) (mem : Memory) :
    ∃ bytes, Converts c mem (readStart c p) bytes ∧
      transferPixel c c.inputSize c.outputSize mem p =
        .ok (writeBytes mem (c.outputAddress + c.outputPixel p.1 p.2) bytes) := by
  have hsource := bytesPerPixel_pos c.source
  have htarget := bytesPerPixel_pos c.target
  obtain ⟨hin, hout⟩ := hc.sizes
  have hs := hp.source
  have ht := hp.target
  obtain ⟨color, hcolor⟩ := hc.source fun i => mem (c.inputAddress + readStart c p + i)
  obtain ⟨bytes, hbytes⟩ := hc.target color
  refine ⟨bytes, ⟨color, hcolor, hbytes⟩, ?_⟩
  have hread := sourceOffset_eq (c := c) (p := p) (by omega)
  have hwrite := targetOffset_eq (c := c) (p := p) (by omega)
  simp only [transferPixel, hread, hwrite, hcolor, hbytes]
  rw [if_neg (by omega), if_neg (by omega)]
  rfl

theorem outputPixel_ne {q : ℕ × ℕ} (hp : p.1 < c.scaledOutputWidth) (hq : q.1 < c.scaledOutputWidth)
    (hne : p ≠ q) : c.outputPixel p.1 p.2 + bytesPerPixel c.target ≤ c.outputPixel q.1 q.2 ∨
      c.outputPixel q.1 q.2 + bytesPerPixel c.target ≤ c.outputPixel p.1 p.2 := by
  have hindex : p.1 + p.2 * c.scaledOutputWidth ≠ q.1 + q.2 * c.scaledOutputWidth := by
    intro h
    have hmod := congrArg (· % c.scaledOutputWidth) h
    have hdiv := congrArg (· / c.scaledOutputWidth) h
    simp only [Nat.add_mul_mod_self_right, Nat.mod_eq_of_lt hp, Nat.mod_eq_of_lt hq,
      Nat.add_mul_div_right _ _ (Nat.zero_lt_of_lt hp), Nat.div_eq_of_lt hp, Nat.div_eq_of_lt hq,
      Nat.zero_add] at hmod hdiv
    exact hne (Prod.ext hmod hdiv)
  unfold DisplayTransferConfig.outputPixel
  obtain h | h := Nat.lt_or_gt_of_ne hindex
  · left
    have := Nat.mul_le_mul_right (bytesPerPixel c.target) (Nat.succ_le_of_lt h)
    rw [Nat.succ_mul] at this
    exact this
  · right
    have := Nat.mul_le_mul_right (bytesPerPixel c.target) (Nat.succ_le_of_lt h)
    rw [Nat.succ_mul] at this
    exact this

theorem Converts.congr {offset : ℕ} {bytes : List (BitVec 8)} (h : Converts c mem offset bytes)
    (hm : ∀ i < bytesPerPixel c.source,
      mem' (c.inputAddress + offset + i) = mem (c.inputAddress + offset + i)) :
    Converts c mem' offset bytes := by
  obtain ⟨color, hcolor, hbytes⟩ := h
  exact ⟨color, (sourceColor_congr hm).trans hcolor, hbytes⟩

/-- The loop over pixels that fit: the converted pixels and nothing else. The invariant is that the
input is still what it was. -/
theorem loop_spec (hc : Convertible c) (ha : Apart c) (hfits : ∀ p ∈ l, PixelFits c p)
    (hl : l.Nodup)
    (hmem : ∀ i < c.inputSize, mem (c.inputAddress + i) = mem0 (c.inputAddress + i)) :
    ∃ mem', l.foldlM (transferPixel c c.inputSize c.outputSize) mem = .ok mem' ∧
      (∀ a, (∀ p ∈ l, a < c.outputAddress + c.outputPixel p.1 p.2 ∨
        c.outputAddress + c.outputPixel p.1 p.2 + bytesPerPixel c.target ≤ a) → mem' a = mem a) ∧
      ∀ p ∈ l, ∃ bytes, Converts c mem0 (readStart c p) bytes ∧ ∀ i < bytesPerPixel c.target,
        mem' (c.outputAddress + c.outputPixel p.1 p.2 + i) = bytes.getD i 0 := by
  induction l generalizing mem with
  | nil => exact ⟨mem, rfl, fun _ _ => rfl, nofun⟩
  | cons p l ih =>
    obtain ⟨bytes, hconverts, hstep⟩ := transferPixel_eq hc (hfits p List.mem_cons_self) mem
    have hp := hfits p List.mem_cons_self
    have hlength : bytes.length = bytesPerPixel c.target := by
      obtain ⟨_, _, h⟩ := hconverts
      exact targetBytes_length h
    have hs := hp.source
    have ht := hp.target
    have hkeep (i : ℕ) (hi : i < c.inputSize) :
        writeBytes mem (c.outputAddress + c.outputPixel p.1 p.2) bytes (c.inputAddress + i) =
          mem0 (c.inputAddress + i) := by
      rw [writeBytes_of_not_mem, hmem i hi]
      unfold Apart at ha
      omega
    obtain ⟨hnot, hl⟩ := List.nodup_cons.1 hl
    obtain ⟨mem', hrun, hothers, hpixels⟩ :=
      ih (fun q hq => hfits q (List.mem_cons_of_mem _ hq)) hl hkeep
    refine ⟨mem', ?_, fun a h => ?_, fun q hq => ?_⟩
    · rw [List.foldlM_cons, hstep]
      exact hrun
    · rw [hothers a fun q hq => h q (List.mem_cons_of_mem _ hq)]
      have := h p List.mem_cons_self
      exact writeBytes_of_not_mem (by omega)
    · obtain rfl | hq := List.mem_cons.1 hq
      · refine ⟨bytes, hconverts.congr fun i hi => ?_, fun i hi => ?_⟩
        · rw [Nat.add_assoc]
          exact (hmem _ (by omega)).symm
        · rw [hothers, writeBytes_of_mem (by omega)]
          intro r hr
          have hne : q ≠ r := fun h => hnot (h ▸ hr)
          have := outputPixel_ne hp.column (hfits r (List.mem_cons_of_mem _ hr)).column hne
          omega
      · exact hpixels q hq

theorem mem_pixels {width height : ℕ} : p ∈ pixels width height ↔ p.1 < width ∧ p.2 < height := by
  obtain ⟨x, y⟩ := p
  simp only [pixels, List.mem_flatMap, List.mem_map, List.mem_range, Prod.mk.injEq]
  constructor
  · rintro ⟨y', hy, x', hx, rfl, rfl⟩
    exact ⟨hx, hy⟩
  · rintro ⟨hx, hy⟩
    exact ⟨y, hy, x, hx, rfl, rfl⟩

theorem pixels_nodup (width height : ℕ) : (pixels width height).Nodup := by
  unfold pixels
  rw [List.nodup_flatMap]
  refine ⟨fun y _ => List.nodup_range.map fun a b h => congrArg Prod.fst h, ?_⟩
  refine List.nodup_range.imp fun {y y'} hne => ?_
  intro q hq hq'
  obtain ⟨x, -, rfl⟩ := List.mem_map.1 hq
  obtain ⟨x', -, h⟩ := List.mem_map.1 hq'
  exact hne (congrArg Prod.snd h).symm

theorem pixels_cons {width height : ℕ} (hw : 0 < width) (hh : 0 < height) :
    ∃ l, pixels width height = (0, 0) :: l := by
  obtain ⟨w, rfl⟩ := Nat.exists_eq_add_of_le' hw
  obtain ⟨h, rfl⟩ := Nat.exists_eq_add_of_le' hh
  rw [pixels, List.range_succ_eq_map, List.range_succ_eq_map]
  exact ⟨_, rfl⟩

end Loop

/-! ## Configurations -/

section Configurations

variable {backed : ℕ → ℕ → Bool} {c : DisplayTransferConfig} {mem mem' : Memory}

/-- The output is the scaled and converted input, and no other byte is changed. -/
structure Transferred (c : DisplayTransferConfig) (mem mem' : Memory) : Prop where
  pixels : ∀ x < c.scaledOutputWidth, ∀ y < c.scaledOutputHeight,
    x * c.pixelSkip < c.inputWidth.toNat ∧ y * c.pixelSkipY < c.inputHeight.toNat ∧
    c.inputPixel (x * c.pixelSkip) (c.inputRow y) + bytesPerPixel c.source ≤ c.inputSize ∧
    c.outputPixel x y + bytesPerPixel c.target ≤ c.outputSize ∧
    ∃ bytes, Converts c mem (c.inputPixel (x * c.pixelSkip) (c.inputRow y)) bytes ∧
      ∀ i < bytesPerPixel c.target,
        mem' (c.outputAddress + c.outputPixel x y + i) = bytes.getD i 0
  others : ∀ a, a < c.outputAddress ∨ c.outputAddress + c.outputSize ≤ a → mem' a = mem a

/-- Whatever the memory holds, the transfer ends and does what it is to do. -/
def TransfersExactly (backed : ℕ → ℕ → Bool) (c : DisplayTransferConfig) : Prop :=
  ∀ mem, ∃ mem', displayTransfer backed c mem = .ok mem' ∧ Transferred c mem mem'

/-- The transfer throws no exception. -/
def Accepts (backed : ℕ → ℕ → Bool) (c : DisplayTransferConfig) : Prop :=
  ∀ mem e, displayTransfer backed c mem ≠ .error (.thrown e)

/-- The last row of the input that the loop is to read. -/
def DisplayTransferConfig.lastRow (c : DisplayTransferConfig) : ℕ :=
  if c.flipData then c.inputHeight.toNat - 1 else (c.scaledOutputHeight - 1) * c.pixelSkipY

/-- There is nothing to transfer, or the scaled image has a row, flipping is not combined with
vertical scaling, the last column is one of the input, and the last pixels are inside what was
looked up. -/
def SizesFit (c : DisplayTransferConfig) : Prop :=
  c.outputHeight = 0 ∨ c.outputWidth = 0 ∨
    0 < c.scaledOutputHeight ∧ ¬ (c.flipData = true ∧ c.scalingMode = 2) ∧
      (c.scaledOutputWidth - 1) * c.pixelSkip < c.inputWidth.toNat ∧
      c.inputPixel ((c.scaledOutputWidth - 1) * c.pixelSkip) c.lastRow + bytesPerPixel c.source ≤
        c.inputSize ∧
      c.scaledOutputWidth * c.scaledOutputHeight * bytesPerPixel c.target ≤ c.outputSize

theorem checkedSize_cases (format : GenericImageFormat) (w h : ℕ) :
    (∃ size, checkedSize format w h = .ok size) ∨
      ∃ e, checkedSize format w h = .error (.thrown e) := by
  unfold checkedSize
  cases format.textureSize w h with
  | ok size => exact .inl ⟨size, rfl⟩
  | error e => exact .inr ⟨e, rfl⟩

theorem lookup_cases (backed : ℕ → ℕ → Bool) (address bytes : ℕ) :
    (lookup backed address bytes = .ok () ∧ 0 < bytes) ∨
      ∃ e, lookup backed address bytes = .error (.thrown e) := by
  unfold lookup
  split
  · exact .inr ⟨_, rfl⟩
  · split
    · exact .inl ⟨rfl, by omega⟩
    · exact .inr ⟨_, rfl⟩

/-- What a transfer without exceptions has passed. -/
structure Passed (backed : ℕ → ℕ → Bool) (c : DisplayTransferConfig) : Prop where
  height : c.outputHeight.toNat ≤ c.inputHeight.toNat
  flip : c.flipData = true → c.outputHeight = c.inputHeight
  input : checkedSize c.source c.inputWidth.toNat c.inputHeight.toNat = .ok c.inputSize
  output : checkedSize c.target c.scaledOutputWidth c.scaledOutputHeight = .ok c.outputSize
  noRows : c.scaledOutputHeight = 0 → ∀ mem, displayTransfer backed c mem = .error .divisionByZero
  rows : 0 < c.scaledOutputHeight → 0 < c.inputSize ∧ 0 < c.outputSize ∧
    ∀ mem, displayTransfer backed c mem =
      (pixels c.scaledOutputWidth c.scaledOutputHeight).foldlM
        (transferPixel c c.inputSize c.outputSize) mem

/-- The checks before the sizes. -/
structure ChecksPass (c : DisplayTransferConfig) : Prop where
  mode : ¬ c.scalingMode = 3
  height : ¬ c.inputHeight < c.outputHeight
  flip : ¬ (c.flipData = true ∧ c.outputHeight ≠ c.inputHeight)

theorem checksPass_of_accepts (h : Accepts backed c)
    (hskip : ¬ (c.outputHeight = 0 ∨ c.outputWidth = 0)) : ChecksPass c := by
  have h0 := h fun _ => 0
  have hmode : ¬ c.scalingMode = 3 := fun hm => h0 _ (by
    unfold displayTransfer
    rw [if_neg hskip, if_pos hm]
    rfl)
  have hheight : ¬ c.inputHeight < c.outputHeight := fun hlt => h0 _ (by
    unfold displayTransfer
    rw [if_neg hskip, if_neg hmode, if_pos hlt]
    rfl)
  have hflip : ¬ (c.flipData = true ∧ c.outputHeight ≠ c.inputHeight) := fun hf => h0 _ (by
    unfold displayTransfer
    rw [if_neg hskip, if_neg hmode, if_neg hheight, if_pos hf]
    rfl)
  exact ⟨hmode, hheight, hflip⟩

/-- No division by an input height of zero, which is no less than the output height. -/
theorem ChecksPass.inputHeight_ne (hc : ChecksPass c)
    (hskip : ¬ (c.outputHeight = 0 ∨ c.outputWidth = 0)) : ¬ c.inputHeight = 0 := by
  intro hz
  have hheight := hc.height
  rw [BitVec.lt_def, hz] at hheight
  have : c.outputHeight.toNat = 0 := by simpa using hheight
  exact hskip (.inl (BitVec.eq_of_toNat_eq this))

/-- What is left of the transfer behind the checks. -/
theorem ChecksPass.displayTransfer_eq (hc : ChecksPass c)
    (hskip : ¬ (c.outputHeight = 0 ∨ c.outputWidth = 0)) (mem : Memory) :
    displayTransfer backed c mem =
      checkedSize c.source c.inputWidth.toNat c.inputHeight.toNat >>= fun inputSize =>
        checkedSize c.target c.scaledOutputWidth c.scaledOutputHeight >>= fun outputSize =>
          if c.scaledOutputHeight = 0 then .error .divisionByZero
          else lookup backed c.inputAddress inputSize >>= fun _ =>
            lookup backed c.outputAddress outputSize >>= fun _ =>
              (pixels c.scaledOutputWidth c.scaledOutputHeight).foldlM
                (transferPixel c inputSize outputSize) mem := by
  unfold displayTransfer
  rw [if_neg hskip, if_neg hc.mode, if_neg hc.height, if_neg hc.flip]
  simp only [bind, Except.bind, if_neg (hc.inputHeight_ne hskip)]
  cases checkedSize c.source c.inputWidth.toNat c.inputHeight.toNat with
  | error e => rfl
  | ok inputSize =>
    cases checkedSize c.target c.scaledOutputWidth c.scaledOutputHeight with
    | error e => rfl
    | ok outputSize =>
      dsimp only
      split <;> rfl

theorem sizes_of_accepts (h : Accepts backed c)
    (hskip : ¬ (c.outputHeight = 0 ∨ c.outputWidth = 0)) :
    checkedSize c.source c.inputWidth.toNat c.inputHeight.toNat = .ok c.inputSize ∧
      checkedSize c.target c.scaledOutputWidth c.scaledOutputHeight = .ok c.outputSize := by
  have h0 := h fun _ => 0
  rw [(checksPass_of_accepts h hskip).displayTransfer_eq hskip] at h0
  obtain ⟨inputSize, hin⟩ | ⟨e, hin⟩ :=
    checkedSize_cases c.source c.inputWidth.toNat c.inputHeight.toNat
  case inr => exact absurd (by rw [hin]; rfl) (h0 e)
  obtain ⟨outputSize, hout⟩ | ⟨e, hout⟩ :=
    checkedSize_cases c.target c.scaledOutputWidth c.scaledOutputHeight
  case inr => exact absurd (by rw [hin, hout]; rfl) (h0 e)
  rw [DisplayTransferConfig.inputSize, DisplayTransferConfig.outputSize, hin, hout]
  exact ⟨rfl, rfl⟩

theorem lookups_of_accepts (h : Accepts backed c)
    (hskip : ¬ (c.outputHeight = 0 ∨ c.outputWidth = 0)) (hrows : 0 < c.scaledOutputHeight) :
    (lookup backed c.inputAddress c.inputSize = .ok () ∧ 0 < c.inputSize) ∧
      lookup backed c.outputAddress c.outputSize = .ok () ∧ 0 < c.outputSize := by
  obtain ⟨hin, hout⟩ := sizes_of_accepts h hskip
  have h0 := h fun _ => 0
  rw [(checksPass_of_accepts h hskip).displayTransfer_eq hskip, hin, hout] at h0
  simp only [bind, Except.bind, if_neg hrows.ne'] at h0
  obtain hfirst | ⟨e, hfirst⟩ := lookup_cases backed c.inputAddress c.inputSize
  case inr => exact absurd (by rw [hfirst]) (h0 e)
  obtain hsecond | ⟨e, hsecond⟩ := lookup_cases backed c.outputAddress c.outputSize
  case inr => exact absurd (by rw [hfirst.1, hsecond]) (h0 e)
  exact ⟨hfirst, hsecond⟩

theorem passed_of_accepts (h : Accepts backed c)
    (hskip : ¬ (c.outputHeight = 0 ∨ c.outputWidth = 0)) : Passed backed c := by
  have hc := checksPass_of_accepts h hskip
  obtain ⟨hin, hout⟩ := sizes_of_accepts h hskip
  refine ⟨Nat.le_of_not_lt hc.height, fun hf => ?_, hin, hout, fun hz mem => ?_, fun hrows => ?_⟩
  · by_contra hne
    exact hc.flip ⟨hf, hne⟩
  · rw [hc.displayTransfer_eq hskip, hin, hout]
    exact if_pos hz
  · obtain ⟨⟨hfirst, hpos⟩, hsecond, hpos'⟩ := lookups_of_accepts h hskip hrows
    refine ⟨hpos, hpos', fun mem => ?_⟩
    rw [hc.displayTransfer_eq hskip, hin, hout]
    simp only [bind, Except.bind, if_neg hrows.ne', hfirst, hsecond]

theorem pixelSkip_pos (c : DisplayTransferConfig) : 0 < c.pixelSkip ∧ 0 < c.pixelSkipY := by
  unfold DisplayTransferConfig.pixelSkip DisplayTransferConfig.pixelSkipY
  split <;> split <;> omega

theorem scaled_le (c : DisplayTransferConfig) :
    c.scaledOutputHeight * c.pixelSkipY ≤ c.outputHeight.toNat :=
  Nat.div_mul_le_self _ _

/-- Without vertical scaling of a flipped image, the loop reads the right row. -/
theorem inputY_eq (hmode : ¬ (c.flipData = true ∧ c.scalingMode = 2)) (y : ℕ) :
    c.inputY y * c.pixelSkipY = c.inputRow y := by
  unfold DisplayTransferConfig.inputY DisplayTransferConfig.inputRow
    DisplayTransferConfig.pixelSkipY
  cases hf : c.flipData with
  | false => simp
  | true =>
    have hm : ¬ c.scalingMode = 2 := fun h => hmode ⟨hf, h⟩
    simp only [if_neg hm, if_true, Nat.mul_one]

theorem checkedSize_spec {format : GenericImageFormat} {w h size : ℕ}
    (hsize : checkedSize format w h = .ok size) : size < 2 ^ 31 ∧ (w = 0 → size = 0) := by
  have hhalf (n : ℕ) : u32 n / 2 < 2 ^ 31 := by
    unfold u32
    omega
  unfold checkedSize textureSize at hsize
  split at hsize
  · by_cases haligned : w % 8 ≠ 0 ∨ h % 8 ≠ 0
    · rw [if_pos haligned] at hsize
      cases hsize
    · rw [if_neg haligned] at hsize
      rw [← Except.ok.inj hsize]
      refine ⟨hhalf _, ?_⟩
      rintro rfl
      simp [u32]
  · cases hn : format.nibblesPerPixel with
    | error e =>
      rw [hn] at hsize
      cases hsize
    | ok n =>
      rw [hn] at hsize
      rw [← Except.ok.inj hsize]
      refine ⟨hhalf _, ?_⟩
      rintro rfl
      simp [u32]

/-- The first round of the loop tells whether the formats can be converted. -/
theorem formats_of_accepts (h : Accepts backed c) (hp : Passed backed c)
    (hrows : 0 < c.scaledOutputHeight) (hcolumns : 0 < c.scaledOutputWidth)
    (hinside : ¬ c.inputSize < c.sourceOffset 0 0 + bytesPerPixel c.source) :
    (∀ b, ∃ color, sourceColor c.source b = some color) ∧
      ∀ color, ∃ bytes, targetBytes c.target color = some bytes := by
  obtain ⟨l, hl⟩ := pixels_cons hcolumns hrows
  have hrun (mem : Memory) : displayTransfer backed c mem =
      transferPixel c c.inputSize c.outputSize mem (0, 0) >>= fun mem' =>
        l.foldlM (transferPixel c c.inputSize c.outputSize) mem' := by
    rw [(hp.rows hrows).2.2, hl, List.foldlM_cons]
  have hsource (b : ℕ → BitVec 8) : ∃ color, sourceColor c.source b = some color := by
    cases hb : sourceColor c.source b with
    | some color => exact ⟨color, rfl⟩
    | none =>
      refine absurd ?_ (h (fun _ => 0) (.runtimeError
        ("Unknown source framebuffer format " ++ hex c.inputFormat.toNat)))
      rw [hrun]
      simp only [transferPixel, sourceColor_none hb]
      rfl
  refine ⟨hsource, fun color => ?_⟩
  cases hb : targetBytes c.target color with
  | some bytes => exact ⟨bytes, rfl⟩
  | none =>
    obtain ⟨color', hcolor'⟩ := hsource fun i => 0
    refine absurd ?_ (h (fun _ => 0) (.runtimeError
      ("Unknown destination framebuffer format " ++ hex c.outputFormat.toNat)))
    rw [hrun]
    simp only [transferPixel, hcolor', if_neg hinside, targetBytes_none hb]
    rfl

theorem inputPixel_le {x x' row row' : ℕ} (hx : x ≤ x') (hrow : row ≤ row') :
    c.inputPixel x row ≤ c.inputPixel x' row' :=
  Nat.mul_le_mul_right _ (Nat.add_le_add hx (Nat.mul_le_mul_right _ hrow))

theorem inputRow_le {y : ℕ} (hy : y < c.scaledOutputHeight) : c.inputRow y ≤ c.lastRow := by
  have := Nat.mul_le_mul_right c.pixelSkipY (show y ≤ c.scaledOutputHeight - 1 by omega)
  unfold DisplayTransferConfig.inputRow DisplayTransferConfig.lastRow
  split <;> omega

/-- The pixels of images whose last ones fit. -/
theorem pixelFits (hmode : ¬ (c.flipData = true ∧ c.scalingMode = 2))
    (hin : c.inputPixel ((c.scaledOutputWidth - 1) * c.pixelSkip) c.lastRow +
      bytesPerPixel c.source ≤ c.inputSize)
    (hout : c.scaledOutputWidth * c.scaledOutputHeight * bytesPerPixel c.target ≤ c.outputSize)
    {x y : ℕ} (hx : x < c.scaledOutputWidth) (hy : y < c.scaledOutputHeight) :
    PixelFits c (x, y) := by
  refine ⟨?_, ?_, hx⟩
  · have hcolumn := Nat.mul_le_mul_right c.pixelSkip (show x ≤ c.scaledOutputWidth - 1 by omega)
    have := inputPixel_le (c := c) hcolumn (inputRow_le hy)
    rw [readStart, inputY_eq hmode]
    exact (Nat.add_le_add_right this _).trans hin
  · have hrow := Nat.mul_le_mul_right c.scaledOutputWidth (Nat.succ_le_of_lt hy)
    have hlast : x + y * c.scaledOutputWidth + 1 ≤ c.scaledOutputWidth * c.scaledOutputHeight := by
      rw [Nat.succ_mul] at hrow
      rw [Nat.mul_comm c.scaledOutputWidth]
      omega
    have := Nat.mul_le_mul_right (bytesPerPixel c.target) hlast
    rw [Nat.succ_mul] at this
    exact this.trans hout

/-- Nothing to transfer, so no byte is changed. -/
theorem transfersExactly_of_skip (hskip : c.outputHeight = 0 ∨ c.outputWidth = 0) :
    TransfersExactly backed c := by
  intro mem
  refine ⟨mem, ?_, ⟨fun x hx y hy => ?_, fun _ _ => rfl⟩⟩
  · unfold displayTransfer
    rw [if_pos hskip]
    rfl
  · unfold DisplayTransferConfig.scaledOutputWidth at hx
    unfold DisplayTransferConfig.scaledOutputHeight at hy
    obtain h0 | h0 := hskip
    · rw [h0] at hy
      simp at hy
    · rw [h0] at hx
      simp at hx

/-- A row of the scaled image is a row of the input. -/
theorem Passed.row_lt (hp : Passed backed c) {y : ℕ} (hy : y < c.scaledOutputHeight) :
    y * c.pixelSkipY < c.inputHeight.toNat := by
  have hle := Nat.mul_le_mul_right c.pixelSkipY (Nat.succ_le_of_lt hy)
  rw [Nat.succ_mul] at hle
  have := (pixelSkip_pos c).2
  have := scaled_le c
  have := hp.height
  omega

theorem Passed.width_pos (hp : Passed backed c) (hrows : 0 < c.scaledOutputHeight) :
    0 < c.scaledOutputWidth := by
  obtain ⟨-, hpos, -⟩ := hp.rows hrows
  by_contra hw
  have := (checkedSize_spec hp.output).2 (by omega)
  omega

theorem transfers_of_fit (h : Accepts backed c) (hfit : SizesFit c) (ha : Apart c) :
    TransfersExactly backed c := by
  by_cases hskip : c.outputHeight = 0 ∨ c.outputWidth = 0
  · exact transfersExactly_of_skip hskip
  intro mem
  have hp := passed_of_accepts h hskip
  obtain h0 | h0 | ⟨hrows, hmode, hcolumn, hin, hout⟩ := hfit
  · exact absurd (.inl h0) hskip
  · exact absurd (.inr h0) hskip
  obtain ⟨-, hpos, hrun⟩ := hp.rows hrows
  have hwidth := hp.width_pos hrows
  have hfits (p : ℕ × ℕ) (hp : p ∈ pixels c.scaledOutputWidth c.scaledOutputHeight) :
      PixelFits c p :=
    pixelFits hmode hin hout (mem_pixels.1 hp).1 (mem_pixels.1 hp).2
  have hsizes : c.inputSize < 2 ^ 31 ∧ c.outputSize < 2 ^ 31 :=
    ⟨(checkedSize_spec hp.input).1, (checkedSize_spec hp.output).1⟩
  have hfirst := (hfits (0, 0) (mem_pixels.2 ⟨hwidth, hrows⟩)).source
  have hoffset : c.sourceOffset 0 0 = readStart c (0, 0) :=
    sourceOffset_eq (c := c) (p := (0, 0)) (by omega)
  obtain ⟨hs, ht⟩ := formats_of_accepts h hp hrows hwidth (by omega)
  have hsame : ∀ i < c.inputSize, mem (c.inputAddress + i) = mem (c.inputAddress + i) :=
    fun _ _ => rfl
  obtain ⟨mem', hloop, hothers, hpixels⟩ := loop_spec ⟨hs, ht, by omega, by omega⟩ ha hfits
    (pixels_nodup _ _) hsame
  refine ⟨mem', (hrun mem).trans hloop, ⟨fun x hx y hy => ?_, fun a ha => ?_⟩⟩
  · have hmem : (x, y) ∈ pixels c.scaledOutputWidth c.scaledOutputHeight :=
      mem_pixels.2 ⟨hx, hy⟩
    have hpixel := hfits _ hmem
    have hspec := hpixels _ hmem
    have hx' := Nat.mul_le_mul_right c.pixelSkip (show x ≤ c.scaledOutputWidth - 1 by omega)
    have hsource := hpixel.source
    rw [readStart, inputY_eq hmode] at hspec hsource
    exact ⟨by omega, hp.row_lt hy, hsource, hpixel.target, hspec⟩
  · refine hothers a fun p hp => ?_
    have := (hfits p hp).target
    omega

theorem transferPixel_inside {p : ℕ × ℕ} {inputSize outputSize : ℕ}
    (h : transferPixel c inputSize outputSize mem p = .ok mem') :
    c.sourceOffset p.1 p.2 + bytesPerPixel c.source ≤ inputSize := by
  unfold transferPixel at h
  cases hcolor : sourceColor c.source fun i => mem (c.inputAddress + c.sourceOffset p.1 p.2 + i) with
  | none =>
    simp only [hcolor] at h
    cases h
  | some color =>
    simp only [hcolor] at h
    by_contra hout
    rw [if_pos (by omega)] at h
    cases h

/-- With both flags, the first row is looked for at twice the height. -/
theorem not_flip_scaled (hp : Passed backed c) (hrows : 0 < c.scaledOutputHeight)
    (hwidth : 0 < c.scaledOutputWidth) (ht : Transferred c mem mem')
    (hok : displayTransfer backed c mem = .ok mem') :
    ¬ (c.flipData = true ∧ c.scalingMode = 2) := by
  rintro ⟨hflip, hmode⟩
  obtain ⟨-, -, hfirst, -, bytes, ⟨color, hcolor, -⟩, -⟩ := ht.pixels 0 hwidth 0 hrows
  obtain ⟨-, hle⟩ := checkedSize_le (nibblesPerPixel_source hcolor) hp.input
  have hlt := (checkedSize_spec hp.input).1
  have hpos := bytesPerPixel_pos c.source
  have hinside : c.sourceOffset 0 0 + bytesPerPixel c.source ≤ c.inputSize := by
    obtain ⟨l, hl⟩ := pixels_cons hwidth hrows
    rw [(hp.rows hrows).2.2, hl, List.foldlM_cons] at hok
    obtain ⟨mem1, hstep, -⟩ := bind_ok hok
    exact transferPixel_inside hstep
  have htwice : 2 ≤ c.inputHeight.toNat := by
    have hskip : c.pixelSkipY = 2 := if_pos hmode
    have hscaled := scaled_le c
    rw [hskip, hp.flip hflip] at hscaled
    omega
  obtain ⟨H, hH⟩ := Nat.exists_eq_add_of_le' htwice
  simp only [DisplayTransferConfig.inputPixel, DisplayTransferConfig.inputRow, hflip, if_true,
    Nat.zero_mul, Nat.zero_add, hH, Nat.sub_zero, show H + 2 - 1 = H + 1 by omega] at hfirst hle
  have hstart : readStart c (0, 0) = 2 * ((H + 1) * c.inputWidth.toNat * bytesPerPixel c.source) := by
    simp only [readStart, DisplayTransferConfig.inputPixel, DisplayTransferConfig.inputY,
      DisplayTransferConfig.pixelSkipY, hflip, hmode, if_true, hH, Nat.zero_mul, Nat.zero_add,
      Nat.sub_zero, show H + 2 - 1 = H + 1 by omega]
    ring
  have hoffset : c.sourceOffset 0 0 = readStart c (0, 0) :=
    sourceOffset_eq (c := c) (p := (0, 0)) (by omega)
  have htotal : c.inputWidth.toNat * (H + 2) * bytesPerPixel c.source ≤
      2 * ((H + 1) * c.inputWidth.toNat * bytesPerPixel c.source) := by
    have : c.inputWidth.toNat * (H + 2) ≤ 2 * ((H + 1) * c.inputWidth.toNat) := by nlinarith
    have := Nat.mul_le_mul_right (bytesPerPixel c.source) this
    rwa [Nat.mul_assoc 2] at this
  omega

theorem fit_of_transfers (h : Accepts backed c) (ht : TransfersExactly backed c) : SizesFit c := by
  by_cases hskip : c.outputHeight = 0 ∨ c.outputWidth = 0
  · obtain h0 | h0 := hskip
    · exact .inl h0
    · exact .inr (.inl h0)
  have hp := passed_of_accepts h hskip
  obtain ⟨mem', hok, htr⟩ := ht fun _ => 0
  have hrows : 0 < c.scaledOutputHeight := by
    by_contra h0
    rw [hp.noRows (by omega)] at hok
    cases hok
  have hwidth := hp.width_pos hrows
  obtain ⟨hcolumn, -, hlast, hout, -⟩ :=
    htr.pixels _ (Nat.sub_one_lt hwidth.ne') _ (Nat.sub_one_lt hrows.ne')
  obtain ⟨-, -, hfirst, -⟩ := htr.pixels _ (Nat.sub_one_lt hwidth.ne') 0 hrows
  refine .inr (.inr ⟨hrows, not_flip_scaled hp hrows hwidth htr hok, hcolumn, ?_, ?_⟩)
  · unfold DisplayTransferConfig.lastRow
    unfold DisplayTransferConfig.inputRow at hlast hfirst
    cases hf : c.flipData with
    | false => simpa [hf] using hlast
    | true => simpa [hf] using hfirst
  · unfold DisplayTransferConfig.outputPixel at hout
    have hindex : c.scaledOutputWidth - 1 + (c.scaledOutputHeight - 1) * c.scaledOutputWidth + 1 =
        c.scaledOutputWidth * c.scaledOutputHeight := by
      obtain ⟨w, hw⟩ := Nat.exists_eq_add_of_le' hwidth
      obtain ⟨r, hr⟩ := Nat.exists_eq_add_of_le' hrows
      rw [hw, hr, Nat.add_sub_cancel, Nat.add_sub_cancel]
      ring
    rw [← Nat.succ_mul, Nat.succ_eq_add_one, hindex] at hout
    exact hout

/-- **Display transfer.** A configuration that the transfer accepts is carried out exactly only if
its sizes fit, and if they do and the images do not overlap, it is. -/
theorem displayTransfer_fits (h : Accepts backed c) :
    (SizesFit c → Apart c → TransfersExactly backed c) ∧
      (TransfersExactly backed c → SizesFit c) :=
  ⟨transfers_of_fit h, fit_of_transfers h⟩

/-- A single row, scaled in both directions: half of it is none. -/
def oneRow : DisplayTransferConfig where
  inputAddress := 0x18000000
  outputAddress := 0x18100000
  outputWidth := 16
  outputHeight := 1
  inputWidth := 16
  inputHeight := 1
  flipData := false
  inputFormat := 0
  outputFormat := 0
  scalingMode := 2

theorem oneRow_divides (mem : Memory) :
    displayTransfer (fun _ _ => true) oneRow mem = .error .divisionByZero := rfl

theorem oneRow_accepted : Accepts (fun _ _ => true) oneRow := by
  intro mem e
  rw [oneRow_divides]
  nofun

theorem displayTransfer_fits_oneRow : Accepts (fun _ _ => true) oneRow ∧
    (TransfersExactly (fun _ _ => true) oneRow → SizesFit oneRow) :=
  ⟨oneRow_accepted, (displayTransfer_fits oneRow_accepted).2⟩

theorem transfer_divides_by_zero :
    ¬ ∀ (backed : ℕ → ℕ → Bool) (c : DisplayTransferConfig), Accepts backed c →
      TransfersExactly backed c := by
  intro h
  obtain ⟨mem', hok, -⟩ := h _ oneRow oneRow_accepted fun _ => 0
  rw [oneRow_divides] at hok
  cases hok

end Configurations

end Mikage.GPU
