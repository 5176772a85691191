import Mathlib
import Mikage.Framework.ImageFormat

/-!
# Tiled textures

`LookupTexture` as far as the memory it reads: a texel is found by its tile of 8 by 8 texels and its
place on the curve inside the tile, and in the compressed formats by its block of 4 by 4 texels.
`index` and `blockIndex` number the texels and the blocks; the storage of the one with number `k` is
the `k`-th part of the texture.

The 16-bit fields for width and height allow for sizes that `TextureSize` computes modulo `2 ^ 32`.
-/

namespace Mikage.Pica.DebugUtils

open GenericImageFormat

structure ZOrderOffset where
  texelWithinTile : ℕ
  coarseX : ℕ
  coarseY : ℕ
  deriving DecidableEq, Repr

/-- The tiles of each size put their index next to those of the smaller ones. -/
def texelIndexWithinTile (x y : ℕ) : ℕ :=
  (List.range 3).foldl (fun index i =>
    index + (((x &&& 1 <<< i) <<< i) + 2 * ((y &&& 1 <<< i) <<< i))) 0

def zOrderTileOffset (x y : ℕ) : ZOrderOffset where
  texelWithinTile := texelIndexWithinTile x y
  coarseX := x / 8 * 8
  coarseY := y / 8 * 8

structure TextureInfo where
  width : ℕ
  height : ℕ
  stride : ℕ
  format : GenericImageFormat
  deriving DecidableEq, Repr

/-- `FromPicaRegister`; the formats 12 and 13 are the compressed ones. -/
def TextureInfo.fromPicaRegister (width height : ℕ) (format : GenericImageFormat) :
    Except Exception TextureInfo := do
  let stride ← if format ≠ etc1 ∧ format ≠ etc1a4 then do
      pure (u32 ((← format.nibblesPerPixel) * width) / 2)
    else pure (2 * width / 2)
  pure ⟨width, height, stride, format⟩

/-- One read: how many bytes from where, and which nibble is used if it is not all of them. -/
structure Access where
  offset : ℕ
  bytes : ℕ
  upper : Option Bool
  deriving DecidableEq, Repr

/-- The read uses nibble `n` of the texture. -/
def Access.Uses (a : Access) (n : ℕ) : Prop :=
  match a.upper with
  | none => 2 * a.offset ≤ n ∧ n < 2 * (a.offset + a.bytes)
  | some upper => n = 2 * a.offset + upper.toNat

/-- `source_offset` for the formats that are not compressed. -/
def sourceOffset (info : TextureInfo) (nibbles x y : ℕ) : ℕ :=
  let z := zOrderTileOffset x y
  u32 (u32 (u32 (u32 (z.coarseX * 8) + z.texelWithinTile) * nibbles) / 2 +
    u32 (z.coarseY * info.stride))

/-- `source_offset` for the compressed formats. -/
def blockOffset (info : TextureInfo) (subtileBytes x y : ℕ) : ℕ :=
  let z := zOrderTileOffset x y
  let subtileIndex := (x / 4 &&& 1) + 2 * (y / 4 &&& 1)
  u32 (u32 (u32 (u32 (z.coarseX * subtileBytes) * 4) +
    u32 (u32 (u32 (z.coarseY * subtileBytes) * 4) * (info.width / 8))) +
    u32 (u32 (subtileIndex * subtileBytes) * 8))

/-- The reads of `LookupTexture`. -/
def lookupTexture (info : TextureInfo) (x y : ℕ) : Except Exception (List Access) :=
  if info.format ≠ etc1 ∧ info.format ≠ etc1a4 then do
    let nibbles ← info.format.nibblesPerPixel
    let offset := sourceOffset info nibbles x y
    match info.format with
    | rgba8 | rgb8 => pure [⟨offset, (nibbles + 1) / 2, none⟩]
    | rgba5551 | rgb565 => pure [⟨offset, 2, none⟩]
    | rgba4 | ia8 | rg8 => pure [⟨offset, 1, none⟩, ⟨u32 (offset + 1), 1, none⟩]
    | i8 | a8 | ia4 => pure [⟨offset, 1, none⟩]
    | i4 | a4 => pure [⟨offset, 1, some (texelIndexWithinTile x y % 2 == 1)⟩]
    | _ => pure []
  else if info.format = etc1a4 then
    let offset := blockOffset info 2 x y
    pure [⟨offset, 4, none⟩, ⟨u32 (offset + 4), 4, none⟩, ⟨u32 (offset + 8), 4, none⟩,
      ⟨u32 (u32 (offset + 8) + 4), 4, none⟩]
  else
    let offset := blockOffset info 1 x y
    pure [⟨offset, 4, none⟩, ⟨u32 (offset + 4), 4, none⟩]

/-- The formats of textures. -/
def formatMap : List GenericImageFormat :=
  [rgba8, rgb8, rgba5551, rgb565, rgba4, ia8, rg8, i8, a8, ia4, i4, a4, etc1, etc1a4]

/-! ## The place in a tile -/

section Tile

variable {x y k : ℕ}

theorem texelIndexWithinTile_eq (x y : ℕ) :
    texelIndexWithinTile x y = (x &&& 1) + 2 * (y &&& 1) + (((x &&& 2) <<< 1) +
      2 * ((y &&& 2) <<< 1)) + (((x &&& 4) <<< 2) + 2 * ((y &&& 4) <<< 2)) := by
  simp [texelIndexWithinTile, List.range_succ]

theorem and_mod_eight (x : ℕ) {m : ℕ} (h : 7 &&& m = m) : x % 8 &&& m = x &&& m := by
  rw [show 8 = 2 ^ 3 from rfl, ← Nat.and_two_pow_sub_one_eq_mod, Nat.and_assoc,
    show 2 ^ 3 - 1 = 7 from rfl, h]

theorem texelIndexWithinTile_mod (x y : ℕ) :
    texelIndexWithinTile (x % 8) (y % 8) = texelIndexWithinTile x y := by
  simp only [texelIndexWithinTile_eq, and_mod_eight x (m := 1) rfl, and_mod_eight x (m := 2) rfl,
    and_mod_eight x (m := 4) rfl, and_mod_eight y (m := 1) rfl, and_mod_eight y (m := 2) rfl,
    and_mod_eight y (m := 4) rfl]

/-- The coordinates in a tile are the even and the odd bits of the index. -/
def tileX (k : ℕ) : ℕ := k % 2 + 2 * (k / 4 % 2) + 4 * (k / 16 % 2)
def tileY (k : ℕ) : ℕ := k / 2 % 2 + 2 * (k / 8 % 2) + 4 * (k / 32 % 2)

theorem texelIndexWithinTile_of_lt : ∀ a < 8, ∀ b < 8, texelIndexWithinTile a b < 64 ∧
    tileX (texelIndexWithinTile a b) = a ∧ tileY (texelIndexWithinTile a b) = b := by
  decide

theorem texelIndexWithinTile_tile : ∀ k < 64, texelIndexWithinTile (tileX k) (tileY k) = k := by
  decide

theorem tile_lt (k : ℕ) : tileX k < 8 ∧ tileY k < 8 := by
  unfold tileX tileY
  omega

theorem texelIndexWithinTile_spec (x y : ℕ) : texelIndexWithinTile x y < 64 ∧
    tileX (texelIndexWithinTile x y) = x % 8 ∧ tileY (texelIndexWithinTile x y) = y % 8 := by
  rw [← texelIndexWithinTile_mod]
  exact texelIndexWithinTile_of_lt _ (Nat.mod_lt _ (by decide)) _ (Nat.mod_lt _ (by decide))

/-- The number of a part, of which every tile has `c`: tiles by rows, parts by `m` within a tile. -/
def partIndex (w c x y m : ℕ) : ℕ := c * (x / 8 + y / 8 * (w / 8)) + m

variable {w h c m x' y' m' : ℕ}

theorem partIndex_lt (hw : 8 ∣ w) (hh : 8 ∣ h) (hx : x < w) (hy : y < h) (hm : m < c) :
    64 * partIndex w c x y m < c * (w * h) := by
  obtain ⟨W, rfl⟩ := hw
  obtain ⟨H, rfl⟩ := hh
  have hi : x / 8 + 1 ≤ W := by omega
  have hj : y / 8 + 1 ≤ H := by omega
  have htile : x / 8 + y / 8 * W + 1 ≤ W * H := by
    have := Nat.mul_le_mul_left W hj
    nlinarith
  have := Nat.mul_le_mul_left c htile
  rw [partIndex, Nat.mul_div_cancel_left _ (by decide)]
  nlinarith

theorem partIndex_inj (hx : x < w) (hx' : x' < w) (hw : 8 ∣ w) (hm : m < c) (hm' : m' < c)
    (he : partIndex w c x y m = partIndex w c x' y' m') :
    x / 8 = x' / 8 ∧ y / 8 = y' / 8 ∧ m = m' := by
  have hc : 0 < c := by omega
  have hdiv := congrArg (· / c) he
  have hmod := congrArg (· % c) he
  simp only [partIndex, Nat.mul_add_div hc, Nat.mul_add_mod, Nat.div_eq_of_lt hm,
    Nat.div_eq_of_lt hm', Nat.mod_eq_of_lt hm, Nat.mod_eq_of_lt hm', Nat.add_zero] at hdiv hmod
  have hW : x / 8 < w / 8 := by omega
  have hW' : x' / 8 < w / 8 := by omega
  have hrow := congrArg (· / (w / 8)) hdiv
  have hcolumn := congrArg (· % (w / 8)) hdiv
  simp only [Nat.add_mul_div_right _ _ (show 0 < w / 8 by omega), Nat.add_mul_mod_self_right,
    Nat.div_eq_of_lt hW, Nat.div_eq_of_lt hW', Nat.mod_eq_of_lt hW, Nat.mod_eq_of_lt hW',
    Nat.zero_add] at hrow hcolumn
  exact ⟨hcolumn, hrow, hmod⟩

/-- Every number is that of a part in some tile. -/
theorem partIndex_surj (hw : 8 ∣ w) (hh : 8 ∣ h) (hc : 0 < c) {k : ℕ} (hk : 64 * k < c * (w * h)) :
    ∃ i < w / 8, ∃ j < h / 8, k = c * (i + j * (w / 8)) + k % c := by
  obtain ⟨W, rfl⟩ := hw
  obtain ⟨H, rfl⟩ := hh
  simp only [Nat.mul_div_cancel_left _ (show 0 < 8 by decide)]
  have htile : k / c < W * H := by
    rw [Nat.div_lt_iff_lt_mul hc]
    nlinarith
  have hW : 0 < W := by
    by_contra h0
    simp [show W = 0 by omega] at htile
  refine ⟨k / c % W, Nat.mod_lt _ hW, k / c / W, ?_, ?_⟩
  · rw [Nat.div_lt_iff_lt_mul hW, Nat.mul_comm]
    exact htile
  · rw [Nat.mul_comm (k / c / W), Nat.mod_add_div, Nat.div_add_mod]

/-! ## Texels and blocks by number -/

/-- The number of a texel. -/
def index (w x y : ℕ) : ℕ := partIndex w 64 x y (texelIndexWithinTile x y)

/-- The number of the block of 4 by 4 texels that a texel is in. -/
def blockIndex (w x y : ℕ) : ℕ := partIndex w 4 x y (x / 4 % 2 + 2 * (y / 4 % 2))

theorem index_lt (hw : 8 ∣ w) (hh : 8 ∣ h) (hx : x < w) (hy : y < h) : index w x y < w * h := by
  have := partIndex_lt hw hh hx hy (texelIndexWithinTile_spec x y).1
  unfold index
  omega

theorem index_inj (hw : 8 ∣ w) (hx : x < w) (hx' : x' < w) (he : index w x y = index w x' y') :
    x = x' ∧ y = y' := by
  obtain ⟨hlt, htx, hty⟩ := texelIndexWithinTile_spec x y
  obtain ⟨hlt', htx', hty'⟩ := texelIndexWithinTile_spec x' y'
  obtain ⟨hi, hj, hm⟩ := partIndex_inj hx hx' hw hlt hlt' he
  rw [hm] at htx hty
  omega

theorem index_surj (hw : 8 ∣ w) (hh : 8 ∣ h) {k : ℕ} (hk : k < w * h) :
    ∃ x < w, ∃ y < h, index w x y = k := by
  obtain ⟨i, hi, j, hj, hk'⟩ := partIndex_surj (k := k) hw hh (c := 64) (by decide) (by omega)
  obtain ⟨htx, hty⟩ := tile_lt (k % 64)
  refine ⟨8 * i + tileX (k % 64), by omega, 8 * j + tileY (k % 64), by omega, ?_⟩
  have htile : texelIndexWithinTile (8 * i + tileX (k % 64)) (8 * j + tileY (k % 64)) = k % 64 := by
    rw [← texelIndexWithinTile_mod, Nat.mul_add_mod, Nat.mul_add_mod, Nat.mod_eq_of_lt htx,
      Nat.mod_eq_of_lt hty]
    exact texelIndexWithinTile_tile _ (Nat.mod_lt _ (by decide))
  rw [index, htile, partIndex, show (8 * i + tileX (k % 64)) / 8 = i by omega,
    show (8 * j + tileY (k % 64)) / 8 = j by omega]
  exact hk'.symm

theorem blockIndex_lt (hw : 8 ∣ w) (hh : 8 ∣ h) (hx : x < w) (hy : y < h) :
    16 * blockIndex w x y < w * h := by
  have := partIndex_lt (c := 4) (m := x / 4 % 2 + 2 * (y / 4 % 2)) hw hh hx hy (by omega)
  unfold blockIndex
  omega

theorem blockIndex_eq_iff (hw : 8 ∣ w) (hx : x < w) (hx' : x' < w) :
    blockIndex w x y = blockIndex w x' y' ↔ x / 4 = x' / 4 ∧ y / 4 = y' / 4 := by
  constructor
  · intro he
    obtain ⟨hi, hj, hm⟩ := partIndex_inj hx hx' hw (by omega) (by omega) he
    omega
  · rintro ⟨h4, h4'⟩
    have h8 : x / 8 = x' / 8 := by omega
    have h8' : y / 8 = y' / 8 := by omega
    rw [blockIndex, blockIndex, partIndex, partIndex, h4, h4', h8, h8']

theorem blockIndex_surj (hw : 8 ∣ w) (hh : 8 ∣ h) {k : ℕ} (hk : 16 * k < w * h) :
    ∃ x < w, ∃ y < h, blockIndex w x y = k := by
  obtain ⟨i, hi, j, hj, hk'⟩ := partIndex_surj (k := k) hw hh (c := 4) (by decide) (by omega)
  refine ⟨8 * i + 4 * (k % 4 % 2), by omega, 8 * j + 4 * (k % 4 / 2), by omega, ?_⟩
  rw [blockIndex, partIndex, show (8 * i + 4 * (k % 4 % 2)) / 8 = i by omega,
    show (8 * j + 4 * (k % 4 / 2)) / 8 = j by omega]
  omega

end Tile

/-! ## Storage -/

section Storage

variable {format : GenericImageFormat} {info : TextureInfo} {w h x y n : ℕ}

/-- The nibbles stored for a texel, with those of a block shared out among its 16 texels. -/
def density : GenericImageFormat → ℕ
  | rgba8 | d24s8 => 8
  | rgb8 | d24 => 6
  | rgb565 | rgba5551 | rgba4 | d16 | ia8 | rg8 => 4
  | i8 | a8 | ia4 | etc1a4 => 2
  | i4 | a4 | etc1 => 1
  | unknown => 0

/-- The width of what is stored together: a texel, or a block in the compressed formats. -/
def granule (format : GenericImageFormat) : ℕ := if format = etc1 ∨ format = etc1a4 then 4 else 1

/-- Looking up the texel uses the nibble. -/
def UsesNibble (info : TextureInfo) (x y n : ℕ) : Prop :=
  ∃ reads, lookupTexture info x y = .ok reads ∧ ∃ a ∈ reads, a.Uses n

theorem mem_formatMap (hf : format ∈ formatMap) (he : ¬ (format = etc1 ∨ format = etc1a4)) :
    format.nibblesPerPixel = .ok (density format) ∧
      (density format = 1 ∨ density format = 2 ∨ density format = 4 ∨ density format = 6 ∨
        density format = 8) := by
  simp only [formatMap, List.mem_cons, List.not_mem_nil, or_false] at hf
  obtain rfl | rfl | rfl | rfl | rfl | rfl | rfl | rfl | rfl | rfl | rfl | rfl | hf := hf
  case inr.inr.inr.inr.inr.inr.inr.inr.inr.inr.inr.inr => exact absurd hf he
  all_goals exact ⟨rfl, by decide⟩

theorem etc_density (he : format = etc1 ∨ format = etc1a4) :
    (if format = etc1 then 1 else 2) = density format := by
  obtain rfl | rfl := he <;> rfl

/-- The area is a multiple of 64, so that the size is exact. -/
theorem area_eq (hw : 8 ∣ w) (h d : ℕ) : w * h * d / 2 * 2 = w * h * d := by
  obtain ⟨W, rfl⟩ := hw
  refine Nat.div_mul_cancel ⟨4 * W * h * d, by ring⟩

theorem textureSize_eq (hf : format ∈ formatMap) (hw : 8 ∣ w) (hh : 8 ∣ h) (hw' : w < 2 ^ 16)
    (hsize : w * h * density format < 2 ^ 32) :
    ∃ size, format.textureSize w h = .ok size ∧ 2 * size = w * h * density format := by
  have harea := area_eq hw h (density format)
  refine ⟨w * h * density format / 2, ?_, by omega⟩
  unfold textureSize
  by_cases he : format = etc1 ∨ format = etc1a4
  · have hrow : w * density format < 2 ^ 32 := by
      obtain rfl | rfl := he <;> simp only [density] <;> omega
    have haligned : ¬ (w % 8 ≠ 0 ∨ h % 8 ≠ 0) := by omega
    rw [if_pos he, if_neg haligned, etc_density he]
    show Except.ok (u32 (u32 (w * density format) * h) / 2) = _
    rw [u32_of_lt hrow, Nat.mul_right_comm, u32_of_lt hsize]
  · have hpos : 0 < density format := by
      obtain hd | hd | hd | hd | hd := (mem_formatMap hf he).2 <;> omega
    have hwh : w * h < 2 ^ 32 := lt_of_le_of_lt (Nat.le_mul_of_pos_right _ hpos) hsize
    rw [if_neg he, (mem_formatMap hf he).1, u32_of_lt hwh]
    show Except.ok (u32 (w * h * density format) / 2) = _
    rw [u32_of_lt hsize]

/-- What `FromPicaRegister` makes of the registers. -/
theorem fromPicaRegister_eq (hf : format ∈ formatMap) (hw' : w < 2 ^ 16) :
    ∃ info, TextureInfo.fromPicaRegister w h format = .ok info ∧ info.width = w ∧
      info.format = format ∧ (¬ (format = etc1 ∨ format = etc1a4) →
        info.stride = density format * w / 2) := by
  unfold TextureInfo.fromPicaRegister
  by_cases he : format = etc1 ∨ format = etc1a4
  · have hne : ¬ (format ≠ etc1 ∧ format ≠ etc1a4) := by tauto
    rw [if_neg hne]
    exact ⟨_, rfl, rfl, rfl, fun h => absurd he h⟩
  · have hne : format ≠ etc1 ∧ format ≠ etc1a4 := by tauto
    obtain ⟨hn, hd⟩ := mem_formatMap hf he
    have hrow : density format * w < 2 ^ 32 := by
      obtain hd | hd | hd | hd | hd := hd <;> rw [hd] <;> omega
    rw [if_pos hne, hn]
    exact ⟨_, rfl, rfl, rfl, fun _ => by
      show u32 (density format * w) / 2 = _
      rw [u32_of_lt hrow]⟩

theorem sourceOffset_eq {d : ℕ} (hw : 8 ∣ w) (hh : 8 ∣ h) (hx : x < w) (hy : y < h)
    (hd : 0 < d) (hsize : w * h * d < 2 ^ 32) (hwidth : info.width = w)
    (hstride : info.stride = d * w / 2) :
    sourceOffset info d x y = index w x y * d / 2 := by
  have hlt := Nat.mul_lt_mul_of_pos_right (index_lt hw hh hx hy) hd
  obtain ⟨W, rfl⟩ := hw
  have hindex : index (8 * W) x y = x / 8 * 8 * 8 + texelIndexWithinTile x y + 64 * (y / 8 * W) := by
    rw [index, partIndex, Nat.mul_div_cancel_left _ (by decide)]
    ring
  have hle : index (8 * W) x y ≤ index (8 * W) x y * d := Nat.le_mul_of_pos_right _ hd
  have hsum : index (8 * W) x y * d =
      (x / 8 * 8 * 8 + texelIndexWithinTile x y) * d + 2 * (y / 8 * 8 * (d * 4 * W)) := by
    rw [hindex]
    ring
  have hstride' : info.stride = d * 4 * W := by
    rw [hstride, show d * (8 * W) = 2 * (d * 4 * W) by ring, Nat.mul_div_cancel_left _ (by decide)]
  simp only [sourceOffset, zOrderTileOffset, hstride']
  rw [u32_of_lt (n := x / 8 * 8 * 8) (by omega),
    u32_of_lt (n := x / 8 * 8 * 8 + texelIndexWithinTile x y) (by omega),
    u32_of_lt (n := (x / 8 * 8 * 8 + texelIndexWithinTile x y) * d) (by omega),
    u32_of_lt (n := y / 8 * 8 * (d * 4 * W)) (by omega), u32_of_lt (by omega), hsum]
  omega

theorem blockOffset_eq {d : ℕ} (hw : 8 ∣ w) (hh : 8 ∣ h) (hx : x < w) (hy : y < h) (hd : 0 < d)
    (hsize : w * h * d < 2 ^ 32) (hwidth : info.width = w) :
    blockOffset info d x y = blockIndex w x y * (8 * d) := by
  have hlt := Nat.mul_lt_mul_of_pos_right (blockIndex_lt hw hh hx hy) hd
  obtain ⟨W, rfl⟩ := hw
  have hbit (k : ℕ) : k &&& 1 = k % 2 := Nat.and_one_is_mod k
  have hindex : blockIndex (8 * W) x y * (8 * d) = x / 8 * 8 * d * 4 + y / 8 * 8 * d * 4 * W +
      (x / 4 % 2 + 2 * (y / 4 % 2)) * d * 8 := by
    rw [blockIndex, partIndex, Nat.mul_div_cancel_left _ (by decide)]
    ring
  have hlt' : blockIndex (8 * W) x y * (8 * d) < 2 ^ 32 := by
    have : 16 * blockIndex (8 * W) x y * d = blockIndex (8 * W) x y * (8 * d) * 2 := by ring
    omega
  rw [hindex] at hlt' ⊢
  have hrow : y / 8 * 8 * d * 4 ≤ y / 8 * 8 * d * 4 * W := Nat.le_mul_of_pos_right _ (by omega)
  simp only [blockOffset, zOrderTileOffset, hwidth, hbit, Nat.mul_div_cancel_left W (by decide : 0 < 8)]
  rw [u32_of_lt (n := x / 8 * 8 * d) (by omega), u32_of_lt (n := x / 8 * 8 * d * 4) (by omega),
    u32_of_lt (n := y / 8 * 8 * d) (by omega), u32_of_lt (n := y / 8 * 8 * d * 4) (by omega),
    u32_of_lt (n := y / 8 * 8 * d * 4 * W) (by omega),
    u32_of_lt (n := x / 8 * 8 * d * 4 + y / 8 * 8 * d * 4 * W) (by omega),
    u32_of_lt (n := (x / 4 % 2 + 2 * (y / 4 % 2)) * d) (by omega),
    u32_of_lt (n := (x / 4 % 2 + 2 * (y / 4 % 2)) * d * 8) (by omega), u32_of_lt hlt']

/-- The reads of a texel in a compressed format are the bytes of its block. -/
theorem usesNibble_block (he : format = etc1 ∨ format = etc1a4) (hw : 8 ∣ w) (hh : 8 ∣ h)
    (hsize : w * h * density format < 2 ^ 32) (hwidth : info.width = w)
    (hformat : info.format = format) (hx : x < w) (hy : y < h) :
    (∃ reads, lookupTexture info x y = .ok reads) ∧
      (UsesNibble info x y n ↔ n / (16 * density format) = blockIndex w x y) := by
  have hpos : 0 < density format := by obtain rfl | rfl := he <;> decide
  have hoffset := blockOffset_eq hw hh hx hy hpos hsize hwidth
  have hlt := Nat.mul_lt_mul_of_pos_right (blockIndex_lt hw hh hx hy) hpos
  rw [Nat.div_eq_iff (by omega)]
  obtain rfl | rfl := he
  · simp only [density] at hoffset hlt hsize ⊢
    have hreads : lookupTexture info x y = .ok [⟨blockOffset info 1 x y, 4, none⟩,
        ⟨u32 (blockOffset info 1 x y + 4), 4, none⟩] := by
      unfold lookupTexture
      rw [hformat]
      rfl
    refine ⟨⟨_, hreads⟩, ?_⟩
    rw [hoffset, u32_of_lt (by omega)] at hreads
    simp only [UsesNibble, hreads, Except.ok.injEq, exists_eq_left', List.mem_cons,
      List.not_mem_nil, or_false, exists_eq_or_imp, exists_eq_left, Access.Uses]
    omega
  · simp only [density] at hoffset hlt hsize ⊢
    have hreads : lookupTexture info x y = .ok [⟨blockOffset info 2 x y, 4, none⟩,
        ⟨u32 (blockOffset info 2 x y + 4), 4, none⟩,
        ⟨u32 (blockOffset info 2 x y + 8), 4, none⟩,
        ⟨u32 (u32 (blockOffset info 2 x y + 8) + 4), 4, none⟩] := by
      unfold lookupTexture
      rw [hformat]
      rfl
    refine ⟨⟨_, hreads⟩, ?_⟩
    rw [hoffset, u32_of_lt (by omega), u32_of_lt (n := _ + 8) (by omega),
      u32_of_lt (by omega)] at hreads
    simp only [UsesNibble, hreads, Except.ok.injEq, exists_eq_left', List.mem_cons,
      List.not_mem_nil, or_false, exists_eq_or_imp, exists_eq_left, Access.Uses]
    omega

/-- The reads of a texel in any other format are its own nibbles. -/
theorem usesNibble_texel (hf : format ∈ formatMap) (he : ¬ (format = etc1 ∨ format = etc1a4))
    (hw : 8 ∣ w) (hh : 8 ∣ h) (hsize : w * h * density format < 2 ^ 32) (hwidth : info.width = w)
    (hformat : info.format = format) (hstride : info.stride = density format * w / 2) (hx : x < w)
    (hy : y < h) :
    (∃ reads, lookupTexture info x y = .ok reads) ∧
      (UsesNibble info x y n ↔ n / density format = index w x y) := by
  have hpos : 0 < density format := by
    obtain hd | hd | hd | hd | hd := (mem_formatMap hf he).2 <;> omega
  have hoffset := sourceOffset_eq hw hh hx hy hpos hsize hwidth hstride
  have hlt := Nat.mul_lt_mul_of_pos_right (index_lt hw hh hx hy) hpos
  have hupper : (texelIndexWithinTile x y % 2 == 1).toNat = index w x y % 2 := by
    have hodd : index w x y % 2 = texelIndexWithinTile x y % 2 := by
      unfold index partIndex
      omega
    rw [hodd]
    obtain h | h := Nat.mod_two_eq_zero_or_one (texelIndexWithinTile x y) <;> rw [h] <;> rfl
  have hreads (reads : List Access) (h : lookupTexture info x y = .ok reads)
      (hiff : (∃ a ∈ reads, a.Uses n) ↔ n / density format = index w x y) :
      (∃ reads, lookupTexture info x y = .ok reads) ∧
        (UsesNibble info x y n ↔ n / density format = index w x y) := by
    refine ⟨⟨reads, h⟩, ?_⟩
    simp only [UsesNibble, h, Except.ok.injEq, exists_eq_left', hiff]
  simp only [formatMap, List.mem_cons, List.not_mem_nil, or_false] at hf
  obtain rfl | rfl | rfl | rfl | rfl | rfl | rfl | rfl | rfl | rfl | rfl | rfl | hf := hf
  case inr.inr.inr.inr.inr.inr.inr.inr.inr.inr.inr.inr => exact absurd hf he
  all_goals
    simp only [density] at hoffset hlt hsize hreads ⊢
    refine hreads _ (by unfold lookupTexture; rw [hformat]; rfl) ?_
    simp only [hoffset, List.mem_cons, List.not_mem_nil, or_false, exists_eq_or_imp,
      exists_eq_left, Access.Uses]
  case inr.inr.inr.inr.inl | inr.inr.inr.inr.inr.inl | inr.inr.inr.inr.inr.inr.inl =>
    rw [u32_of_lt (by omega)]
    omega
  all_goals omega

/-- What uses the nibble with the number `k` is one granule. -/
theorem existsUnique_granule {g k : ℕ} {number : ℕ → ℕ → ℕ} {uses : ℕ → ℕ → Prop} (hgw : g ∣ w)
    (hgh : g ∣ h) (huses : ∀ x < w, ∀ y < h, uses x y ↔ k = number x y)
    (hsurj : ∃ x < w, ∃ y < h, number x y = k)
    (hinj : ∀ x < w, ∀ y, ∀ x' < w, ∀ y',
      number x y = number x' y' ↔ x / g = x' / g ∧ y / g = y' / g) :
    ∃! b : ℕ × ℕ, b.1 < w / g ∧ b.2 < h / g ∧
      ∀ x < w, ∀ y < h, uses x y ↔ x / g = b.1 ∧ y / g = b.2 := by
  obtain ⟨x, hx, y, hy, rfl⟩ := hsurj
  refine ⟨(x / g, y / g), ⟨Nat.div_lt_div_of_lt_of_dvd hgw hx, Nat.div_lt_div_of_lt_of_dvd hgh hy,
    fun x' hx' y' hy' => ?_⟩, ?_⟩
  · rw [huses x' hx' y' hy', hinj x hx y x' hx' y', eq_comm, eq_comm (a := y / g)]
  · rintro ⟨i, j⟩ ⟨-, -, hij⟩
    obtain ⟨hi, hj⟩ := (hij x hx y hy).1 ((huses x hx y hy).2 rfl)
    exact Prod.ext hi.symm hj.symm

/-- **Tiled textures.** The granules of a texture (texels, or blocks in a compressed format) divide
its storage among them: every nibble belongs to exactly one, whose texels use it and no others. -/
theorem lookupTexture_partition (hf : format ∈ formatMap) (hw : 8 ∣ w) (hh : 8 ∣ h)
    (hw' : w < 2 ^ 16) (hsize : w * h * density format < 2 ^ 32) :
    ∃ info size, TextureInfo.fromPicaRegister w h format = .ok info ∧
      format.textureSize w h = .ok size ∧
      (∀ x < w, ∀ y < h, (∃ reads, lookupTexture info x y = .ok reads) ∧
        ∀ n, UsesNibble info x y n → n < 2 * size) ∧
      ∀ n < 2 * size, ∃! b : ℕ × ℕ, b.1 < w / granule format ∧ b.2 < h / granule format ∧
        ∀ x < w, ∀ y < h, UsesNibble info x y n ↔
          x / granule format = b.1 ∧ y / granule format = b.2 := by
  obtain ⟨info, hinfo, hwidth, hformat, hstride⟩ := fromPicaRegister_eq (h := h) hf hw'
  obtain ⟨size, hs, hsize'⟩ := textureSize_eq hf hw hh hw' hsize
  refine ⟨info, size, hinfo, hs, ?_⟩
  rw [hsize']
  by_cases he : format = etc1 ∨ format = etc1a4
  · have huses {x y : ℕ} (n : ℕ) (hx : x < w) (hy : y < h) :=
      usesNibble_block (n := n) he hw hh hsize hwidth hformat hx hy
    have hpos : 0 < density format := by obtain rfl | rfl := he <;> decide
    have hgranule : granule format = 4 := if_pos he
    obtain ⟨A, hA⟩ : 64 ∣ w * h := Nat.mul_dvd_mul hw hh
    have hlt (n B : ℕ) (hn : n / (16 * density format) = B) :
        n < w * h * density format ↔ 16 * B < w * h := by
      subst hn
      obtain rfl | rfl := he <;> simp only [density, hA] <;> omega
    refine ⟨fun x hx y hy => ⟨(huses 0 hx hy).1, fun n hn => ?_⟩, fun n hn => ?_⟩
    · exact (hlt n _ ((huses n hx hy).2.1 hn)).2 (blockIndex_lt hw hh hx hy)
    · rw [hgranule]
      exact existsUnique_granule ((show 4 ∣ 8 by decide).trans hw)
        ((show 4 ∣ 8 by decide).trans hh) (fun x hx y hy => (huses n hx hy).2)
        (blockIndex_surj hw hh ((hlt n _ rfl).1 hn))
        fun x hx y x' hx' y' => blockIndex_eq_iff hw hx hx'
  · have huses {x y : ℕ} (n : ℕ) (hx : x < w) (hy : y < h) :=
      usesNibble_texel (n := n) hf he hw hh hsize hwidth hformat (hstride he) hx hy
    have hpos : 0 < density format := by
      obtain hd | hd | hd | hd | hd := (mem_formatMap hf he).2 <;> omega
    have hgranule : granule format = 1 := if_neg he
    refine ⟨fun x hx y hy => ⟨(huses 0 hx hy).1, fun n hn => ?_⟩, fun n hn => ?_⟩
    · rw [← Nat.div_lt_iff_lt_mul hpos, (huses n hx hy).2.1 hn]
      exact index_lt hw hh hx hy
    · rw [hgranule]
      refine existsUnique_granule (one_dvd w) (one_dvd h) (fun x hx y hy => (huses n hx hy).2)
        (index_surj hw hh ((Nat.div_lt_iff_lt_mul hpos).2 hn)) fun x hx y x' hx' y' => ?_
      simp only [Nat.div_one]
      exact ⟨index_inj hw hx hx', fun h => by rw [h.1, h.2]⟩

theorem lookupTexture_partition_etc1a4 :
    ∃ info size, TextureInfo.fromPicaRegister 16 8 etc1a4 = .ok info ∧
      etc1a4.textureSize 16 8 = .ok size ∧
      (∀ x < 16, ∀ y < 8, (∃ reads, lookupTexture info x y = .ok reads) ∧
        ∀ n, UsesNibble info x y n → n < 2 * size) ∧
      ∀ n < 2 * size, ∃! b : ℕ × ℕ, b.1 < 16 / granule etc1a4 ∧ b.2 < 8 / granule etc1a4 ∧
        ∀ x < 16, ∀ y < 8, UsesNibble info x y n ↔
          x / granule etc1a4 = b.1 ∧ y / granule etc1a4 = b.2 :=
  lookupTexture_partition (by decide) (by decide) (by decide) (by decide) (by decide)

/-- Two neighbours in a compressed texture are read from the same eight bytes. -/
theorem etc1_shares_storage :
    ¬ ∀ format ∈ formatMap, ∀ w h, 8 ∣ w → 8 ∣ h → ∀ info,
      TextureInfo.fromPicaRegister w h format = .ok info →
      ∀ x < w, ∀ y < h, ∀ x' < w, ∀ y' < h, ∀ n,
        UsesNibble info x y n → UsesNibble info x' y' n → x = x' ∧ y = y' := by
  intro h
  have huse (x : ℕ) (hx : lookupTexture ⟨8, 8, 8, etc1⟩ x 0 =
      .ok [⟨0, 4, none⟩, ⟨4, 4, none⟩]) : UsesNibble ⟨8, 8, 8, etc1⟩ x 0 0 :=
    ⟨_, hx, _, List.mem_cons_self, Nat.zero_le 0, by decide⟩
  have heq := h etc1 (by decide) 8 8 (by decide) (by decide) _ rfl 0 (by decide) 0 (by decide)
    1 (by decide) 0 (by decide) 0 (huse 0 rfl) (huse 1 rfl)
  exact absurd heq.1 (by decide)

end Storage

end Mikage.Pica.DebugUtils
