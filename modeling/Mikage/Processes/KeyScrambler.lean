import Mikage.Lib.BigEndian

/-!
# The key scrambler

`GenerateAESKey` works on 16 bytes in place, with loops that carry between them. Read as a number of
128 bits, highest byte first, the key is `(((X rol 2) ^ Y) + C) rol 87` (`generateAESKey_toNum`).
-/

namespace Mikage.PXI

open Lib.BigEndian

/-- An array of 16 bytes. -/
structure AESKey where
  bytes : Bytes
  size : bytes.length = 16

/-- The array as a number, highest byte first. -/
def AESKey.toNum (key : AESKey) : BitVec 128 := BitVec.ofNat 128 (value key.bytes)

def keyGenConstant : AESKey where
  bytes := [0x1f, 0xf9, 0xe9, 0xaa, 0xc5, 0xfe, 0x04, 0x08, 0x02, 0x45, 0x91, 0xdc, 0x5d, 0x52,
    0x76, 0x8a]
  size := rfl

/-- `ROL 2`, from the last byte on. -/
def rol2 (key : AESKey) : AESKey where
  bytes := (shiftLeft 2 key.bytes (key.bytes.headD 0 >>> 6)).2
  size := (shiftLeft_length _).trans key.size

def xorKey (key keyY : AESKey) : AESKey where
  bytes := List.zipWith (· ^^^ ·) key.bytes keyY.bytes
  size := by rw [List.length_zipWith, key.size, keyY.size, min_self]

/-- From the last byte on, without the carry out of the first. -/
def addConstant (key : AESKey) : AESKey where
  bytes := (addCarry key.bytes keyGenConstant.bytes 0).2
  size := (addCarry_length (key.size.trans keyGenConstant.size.symm) 0).trans key.size

/-- `ROL 88` by `std::rotate`. -/
def rol88 (key : AESKey) : AESKey where
  bytes := key.bytes.rotate 11
  size := by rw [List.length_rotate, key.size]

/-- `ROR 1`, from the first byte on. -/
def ror1 (key : AESKey) : AESKey where
  bytes := shiftRight key.bytes (key.bytes.getLastD 0 &&& 1)
  size := (shiftRight_length _).trans key.size

def generateAESKey (keyX keyY : AESKey) : AESKey :=
  ror1 (rol88 (addConstant (xorKey (rol2 keyX) keyY)))

example : (generateAESKey keyGenConstant keyGenConstant).bytes.take 3 = [0x44, 0xc2, 0xb7] := by
  decide

/-! ## What each loop does to the number -/

theorem AESKey.value_lt (key : AESKey) : value key.bytes < 2 ^ 128 := by
  have h := Lib.BigEndian.value_lt key.bytes
  rwa [key.size] at h

@[simp] theorem AESKey.toNat_toNum (key : AESKey) : key.toNum.toNat = value key.bytes := by
  rw [toNum, BitVec.toNat_ofNat, Nat.mod_eq_of_lt key.value_lt]

/-- A rotation: what is shifted out comes back at the other end. -/
theorem toNat_rotateLeft_eq {r : ℕ} (x : BitVec 128) (hr : r < 128) :
    (x.rotateLeft r).toNat = x.toNat * 2 ^ r % 2 ^ 128 + x.toNat / 2 ^ (128 - r) := by
  have hlow : x.toNat / 2 ^ (128 - r) < 2 ^ r := by
    rw [Nat.div_lt_iff_lt_mul (by positivity), ← pow_add, Nat.add_sub_cancel' hr.le]
    exact x.isLt
  have hhigh : x.toNat * 2 ^ r % 2 ^ 128 = 2 ^ r * (x.toNat % 2 ^ (128 - r)) := by
    rw [Nat.mul_comm, ← Nat.mul_mod_mul_left, ← pow_add, Nat.add_sub_cancel' hr.le]
  rw [BitVec.toNat_rotateLeft, Nat.mod_eq_of_lt hr, Nat.shiftLeft_eq, Nat.shiftRight_eq_div_pow,
    hhigh, ← Nat.two_pow_add_eq_or_of_lt hlow]

theorem rol2_toNum (key : AESKey) : (rol2 key).toNum = key.toNum.rotateLeft 2 := by
  obtain ⟨b, l, hkey⟩ : ∃ b l, key.bytes = b :: l :=
    List.exists_cons_of_length_pos (by rw [key.size]; decide)
  have hl : l.length = 15 := by
    have := key.size
    rw [hkey] at this
    exact Nat.succ.inj this
  have hb := b.isLt
  have hover : (b >>> 6).toNat = value key.bytes / 2 ^ 126 := by
    have hlow := Lib.BigEndian.value_lt l
    rw [hl] at hlow
    rw [hkey, value_cons, hl, BitVec.toNat_ushiftRight, Nat.shiftRight_eq_div_pow]
    omega
  have hsmall : (b >>> 6).toNat < 2 ^ 2 := by
    rw [BitVec.toNat_ushiftRight, Nat.shiftRight_eq_div_pow]
    omega
  have hshift := value_shiftLeft key.bytes (by decide : 2 ≤ 8) hsmall
  rw [key.size] at hshift
  have hnew := (rol2 key).value_lt
  have hold := key.value_lt
  have hbytes : (rol2 key).bytes = (shiftLeft 2 key.bytes (b >>> 6)).2 := by
    change (shiftLeft 2 key.bytes (key.bytes.headD 0 >>> 6)).2 = _
    rw [hkey]
    rfl
  apply BitVec.eq_of_toNat_eq
  rw [toNat_rotateLeft_eq _ (by decide), AESKey.toNat_toNum, AESKey.toNat_toNum]
  rw [hbytes] at hnew ⊢
  omega

theorem xorKey_toNum (key keyY : AESKey) : (xorKey key keyY).toNum = key.toNum ^^^ keyY.toNum := by
  apply BitVec.eq_of_toNat_eq
  rw [BitVec.toNat_xor]
  simp only [AESKey.toNat_toNum]
  exact value_xor (key.size.trans keyY.size.symm)

theorem addConstant_toNum (key : AESKey) :
    (addConstant key).toNum = key.toNum + keyGenConstant.toNum := by
  have hsum := value_addCarry (key.size.trans keyGenConstant.size.symm) 0
  rw [key.size] at hsum
  have hnew := (addConstant key).value_lt
  apply BitVec.eq_of_toNat_eq
  rw [BitVec.toNat_add, AESKey.toNat_toNum, AESKey.toNat_toNum, AESKey.toNat_toNum]
  change value (addCarry key.bytes keyGenConstant.bytes 0).2 < 2 ^ 128 at hnew
  change value (addCarry key.bytes keyGenConstant.bytes 0).2 = _
  omega

theorem rol88_toNum (key : AESKey) : (rol88 key).toNum = key.toNum.rotateLeft 88 := by
  have hle : 11 ≤ key.bytes.length := by
    rw [key.size]
    decide
  have hrotate := value_rotate hle
  rw [key.size] at hrotate
  have hold := key.value_lt
  apply BitVec.eq_of_toNat_eq
  rw [toNat_rotateLeft_eq _ (by decide), AESKey.toNat_toNum, AESKey.toNat_toNum]
  change value (key.bytes.rotate 11) = _
  rw [List.rotate_eq_drop_append_take hle]
  omega

theorem ror1_toNum (key : AESKey) : (ror1 key).toNum = key.toNum.rotateLeft 127 := by
  have hne : key.bytes ≠ [] := fun h => by simpa [h] using key.size
  have hlast := value_mod key.bytes hne
  have hover : (key.bytes.getLastD 0 &&& 1).toNat = value key.bytes % 2 := by
    rw [List.getLastD_eq_getLast?, List.getLast?_eq_some_getLast hne, Option.getD_some,
      BitVec.toNat_and]
    change _ &&& (2 ^ 1 - 1) = _
    rw [Nat.and_two_pow_sub_one_eq_mod]
    omega
  have hshift := value_shiftRight key.bytes (and_one_lt (key.bytes.getLastD 0))
  rw [key.size] at hshift
  have hold := key.value_lt
  apply BitVec.eq_of_toNat_eq
  rw [toNat_rotateLeft_eq _ (by decide), AESKey.toNat_toNum, AESKey.toNat_toNum]
  change value (shiftRight key.bytes (key.bytes.getLastD 0 &&& 1)) = _
  obtain hbit | hbit := Nat.mod_two_eq_zero_or_one (value key.bytes)
  · omega
  · omega

/-- Rotating by 88 bits and back by one is rotating by 87. -/
theorem rotateLeft_rotateLeft (x : BitVec 128) :
    (x.rotateLeft 88).rotateLeft 127 = x.rotateLeft 87 := by
  apply BitVec.eq_of_getLsbD_eq
  intro i hi
  simp only [BitVec.getLsbD_rotateLeft]
  grind

/-- **The scrambled key**, for all pairs of arrays. -/
theorem generateAESKey_toNum (keyX keyY : AESKey) :
    (generateAESKey keyX keyY).toNum =
      ((keyX.toNum.rotateLeft 2 ^^^ keyY.toNum) + keyGenConstant.toNum).rotateLeft 87 := by
  rw [generateAESKey, ror1_toNum, rol88_toNum, rotateLeft_rotateLeft, addConstant_toNum,
    xorKey_toNum, rol2_toNum]

end Mikage.PXI
