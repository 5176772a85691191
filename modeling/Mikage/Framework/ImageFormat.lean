import Mathlib
import Mikage.Framework.Exceptions

/-!
# Image formats

`NibblesPerPixel` and `TextureSize`. The size is a product of 32-bit numbers, which may wrap.
-/

namespace Mikage

inductive GenericImageFormat where
  | rgba8 | rgb8 | rgb565 | rgba5551 | rgba4
  | d16 | d24 | d24s8
  | ia8 | rg8 | i8 | a8 | ia4 | i4 | a4 | etc1 | etc1a4
  | unknown
  deriving DecidableEq, Repr

/-- The result of an operation on `uint32_t`. -/
def u32 (n : ℕ) : ℕ := n % 2 ^ 32

theorem u32_of_lt {n : ℕ} (h : n < 2 ^ 32) : u32 n = n := Nat.mod_eq_of_lt h

namespace GenericImageFormat

def nibblesPerPixel : GenericImageFormat → Except Exception ℕ
  | rgba8 | d24s8 => pure 8
  | rgb8 | d24 => pure 6
  | rgb565 | rgba5551 | rgba4 | d16 | ia8 | rg8 => pure 4
  | i8 | a8 | ia4 => pure 2
  | i4 | a4 => pure 1
  | _ => throw (.runtimeError "NibblesPerPixel: Unknown GenericImageFormat")

def textureSize (format : GenericImageFormat) (width height : ℕ) : Except Exception ℕ :=
  if format = etc1 ∨ format = etc1a4 then do
    if width % 8 ≠ 0 ∨ height % 8 ≠ 0 then
      throw (.runtimeError "Unaligned ETC texture dimensions")
    let bpp := if format = etc1 then 1 else 2
    pure (u32 (u32 (width * bpp) * height) / 2)
  else do
    let nibbles ← format.nibblesPerPixel
    pure (u32 (u32 (width * height) * nibbles) / 2)

end GenericImageFormat

end Mikage
