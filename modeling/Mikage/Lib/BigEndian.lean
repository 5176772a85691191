import Mathlib

/-!
# Big-endian numbers

Byte strings of any length as numbers, the highest byte first. The loops that shift such a number by
some bits or add two of them carry from byte to byte: `shiftLeft` and `addCarry` from the last byte
on, `shiftRight` from the first.
-/

namespace Mikage.Lib.BigEndian

abbrev Bytes : Type := List (BitVec 8)

def value : Bytes → ℕ
  | [] => 0
  | b :: l => b.toNat * 256 ^ l.length + value l

variable {l l' : Bytes} {k n : ℕ}

@[simp] theorem value_nil : value [] = 0 := rfl

theorem value_cons (b : BitVec 8) (l : Bytes) :
    value (b :: l) = b.toNat * 256 ^ l.length + value l := rfl

theorem value_lt (l : Bytes) : value l < 256 ^ l.length := by
  induction l with
  | nil => simp
  | cons b l ih =>
    have hb := b.isLt
    rw [value_cons, List.length_cons, pow_succ]
    nlinarith

theorem value_append (l l' : Bytes) : value (l ++ l') = value l * 256 ^ l'.length + value l' := by
  induction l with
  | nil => simp
  | cons b l ih =>
    rw [List.cons_append, value_cons, value_cons, ih, List.length_append, pow_add]
    ring

/-! ## Carrying loops -/

/-- The string shifted by `k` bits, with `carry` from below, and the bits shifted out. -/
def shiftLeft (k : ℕ) (l : Bytes) (carry : BitVec 8) : BitVec 8 × Bytes :=
  l.mapAccumr (fun (b carry : BitVec 8) => (b >>> (8 - k), b <<< k ||| carry)) carry

/-- The sum and its carry. -/
def addCarry (l l' : Bytes) (carry : ℕ) : ℕ × Bytes :=
  List.mapAccumr₂ (fun (a b : BitVec 8) (carry : ℕ) =>
    ((a.toNat + b.toNat + carry) / 256, BitVec.ofNat 8 (a.toNat + b.toNat + carry))) l l' carry

/-- The string shifted by one bit, with the lowest bit of `carry` from above. -/
def shiftRight : Bytes → BitVec 8 → Bytes
  | [], _ => []
  | b :: l, carry => (b >>> 1 ||| carry <<< 7) :: shiftRight l (b &&& 1)

@[simp] theorem shiftLeft_length (carry : BitVec 8) :
    (shiftLeft k l carry).2.length = l.length :=
  List.length_mapAccumr ..

@[simp] theorem addCarry_length (h : l.length = l'.length) (carry : ℕ) :
    (addCarry l l' carry).2.length = l.length := by
  rw [addCarry, List.length_mapAccumr₂, h, min_self]

@[simp] theorem shiftRight_length (carry : BitVec 8) :
    (shiftRight l carry).length = l.length := by
  induction l generalizing carry with
  | nil => rfl
  | cons b l ih => rw [shiftRight, List.length_cons, List.length_cons, ih]

/-- One byte of `shiftLeft`. -/
theorem shiftLeft_byte (b carry : BitVec 8) (hk : k ≤ 8) (hcarry : carry.toNat < 2 ^ k) :
    (b >>> (8 - k)).toNat * 256 + (b <<< k ||| carry).toNat = b.toNat * 2 ^ k + carry.toNat := by
  have hpow : 2 ^ k * 2 ^ (8 - k) = 256 := by
    rw [← pow_add, Nat.add_sub_cancel' hk]
    rfl
  have hlow : b.toNat * 2 ^ k % 2 ^ 8 = 2 ^ k * (b.toNat % 2 ^ (8 - k)) := by
    rw [Nat.mul_comm, ← Nat.mul_mod_mul_left, hpow]
    rfl
  have hdiv := Nat.div_add_mod b.toNat (2 ^ (8 - k))
  rw [BitVec.toNat_ushiftRight, BitVec.toNat_or, BitVec.toNat_shiftLeft, Nat.shiftLeft_eq, hlow,
    ← Nat.two_pow_add_eq_or_of_lt hcarry, Nat.shiftRight_eq_div_pow]
  calc b.toNat / 2 ^ (8 - k) * 256 + (2 ^ k * (b.toNat % 2 ^ (8 - k)) + carry.toNat)
      = 2 ^ k * (2 ^ (8 - k) * (b.toNat / 2 ^ (8 - k)) + b.toNat % 2 ^ (8 - k)) +
          carry.toNat := by rw [← hpow]; ring
    _ = b.toNat * 2 ^ k + carry.toNat := by rw [hdiv, Nat.mul_comm]

theorem shiftLeft_carry (l : Bytes) {carry : BitVec 8} (hk : k ≤ 8)
    (hcarry : carry.toNat < 2 ^ k) : (shiftLeft k l carry).1.toNat < 2 ^ k := by
  cases l with
  | nil => exact hcarry
  | cons b l =>
    change (b >>> (8 - k)).toNat < 2 ^ k
    rw [BitVec.toNat_ushiftRight, Nat.shiftRight_eq_div_pow, Nat.div_lt_iff_lt_mul (by positivity),
      ← pow_add, Nat.add_sub_cancel' hk]
    exact b.isLt

theorem value_shiftLeft (l : Bytes) {carry : BitVec 8} (hk : k ≤ 8)
    (hcarry : carry.toNat < 2 ^ k) :
    (shiftLeft k l carry).1.toNat * 256 ^ l.length + value (shiftLeft k l carry).2 =
      value l * 2 ^ k + carry.toNat := by
  induction l with
  | nil => simp [shiftLeft, List.mapAccumr]
  | cons b l ih =>
    have hbyte := shiftLeft_byte b (shiftLeft k l carry).1 hk (shiftLeft_carry l hk hcarry)
    change (b >>> (8 - k)).toNat * 256 ^ (l.length + 1) +
      value ((b <<< k ||| (shiftLeft k l carry).1) :: (shiftLeft k l carry).2) = _
    rw [value_cons, value_cons, shiftLeft_length, pow_succ]
    calc _ = ((b >>> (8 - k)).toNat * 256 + (b <<< k ||| (shiftLeft k l carry).1).toNat) *
            256 ^ l.length + value (shiftLeft k l carry).2 := by ring
      _ = b.toNat * 2 ^ k * 256 ^ l.length + ((shiftLeft k l carry).1.toNat * 256 ^ l.length +
            value (shiftLeft k l carry).2) := by rw [hbyte]; ring
      _ = _ := by rw [ih]; ring

theorem value_addCarry (h : l.length = l'.length) (carry : ℕ) :
    (addCarry l l' carry).1 * 256 ^ l.length + value (addCarry l l' carry).2 =
      value l + value l' + carry := by
  induction l generalizing l' with
  | nil =>
    cases l' with
    | nil => simp [addCarry, List.mapAccumr₂]
    | cons => cases h
  | cons a l ih =>
    cases l' with
    | nil => cases h
    | cons b l' =>
      have hl : l.length = l'.length := Nat.succ.inj h
      have hdiv := Nat.div_add_mod (a.toNat + b.toNat + (addCarry l l' carry).1) 256
      change (a.toNat + b.toNat + (addCarry l l' carry).1) / 256 * 256 ^ (l.length + 1) +
        value (BitVec.ofNat 8 (a.toNat + b.toNat + (addCarry l l' carry).1) ::
          (addCarry l l' carry).2) = _
      rw [value_cons, value_cons, value_cons, addCarry_length hl, BitVec.toNat_ofNat, pow_succ,
        ← hl]
      calc _ = (256 * ((a.toNat + b.toNat + (addCarry l l' carry).1) / 256) +
              (a.toNat + b.toNat + (addCarry l l' carry).1) % 256) * 256 ^ l.length +
              value (addCarry l l' carry).2 := by ring
        _ = (a.toNat + b.toNat) * 256 ^ l.length + ((addCarry l l' carry).1 * 256 ^ l.length +
              value (addCarry l l' carry).2) := by rw [hdiv]; ring
        _ = _ := by rw [ih hl]; ring

/-- The last byte, as a number to look at the lowest bit of. -/
theorem value_mod (l : Bytes) (hl : l ≠ []) : value l % 256 = (l.getLast hl).toNat := by
  induction l with
  | nil => exact absurd rfl hl
  | cons b l ih =>
    cases l with
    | nil => simp [value_cons, Nat.mod_eq_of_lt b.isLt]
    | cons c l =>
      rw [value_cons, List.length_cons, pow_succ, ← Nat.mul_assoc, Nat.mul_add_mod_self_right,
        ih (List.cons_ne_nil c l), List.getLast_cons (List.cons_ne_nil c l)]

/-- One byte of `shiftRight`. -/
theorem shiftRight_byte (b carry : BitVec 8) (hcarry : carry.toNat < 2) :
    2 * (b >>> 1 ||| carry <<< 7).toNat + (b &&& 1).toNat = carry.toNat * 256 + b.toNat := by
  have hb := b.isLt
  have hhalf : b.toNat / 2 < 2 ^ 7 := by omega
  rw [BitVec.toNat_or, BitVec.toNat_ushiftRight, BitVec.toNat_shiftLeft, BitVec.toNat_and,
    Nat.shiftLeft_eq, Nat.shiftRight_eq_div_pow, Nat.mod_eq_of_lt (by omega), Nat.or_comm,
    Nat.mul_comm carry.toNat, pow_one, ← Nat.two_pow_add_eq_or_of_lt hhalf]
  change 2 * _ + (b.toNat &&& (2 ^ 1 - 1)) = _
  rw [ Nat.and_two_pow_sub_one_eq_mod]
  omega

theorem and_one_lt (b : BitVec 8) : (b &&& 1).toNat < 2 := by
  rw [BitVec.toNat_and]
  exact Nat.lt_of_le_of_lt Nat.and_le_right (by decide)

theorem value_shiftRight (l : Bytes) {carry : BitVec 8} (hcarry : carry.toNat < 2) :
    value (shiftRight l carry) = (carry.toNat * 256 ^ l.length + value l) / 2 := by
  induction l generalizing carry with
  | nil =>
    simp only [shiftRight, value_nil, List.length_nil, pow_zero, Nat.mul_one, Nat.add_zero]
    omega
  | cons b l ih =>
    have hbyte := shiftRight_byte b carry hcarry
    rw [shiftRight, value_cons, value_cons, shiftRight_length, ih (and_one_lt b),
      List.length_cons, pow_succ]
    have hsum : carry.toNat * (256 ^ l.length * 256) + (b.toNat * 256 ^ l.length + value l) =
        2 * ((b >>> 1 ||| carry <<< 7).toNat * 256 ^ l.length) +
          ((b &&& 1).toNat * 256 ^ l.length + value l) := by
      calc _ = (carry.toNat * 256 + b.toNat) * 256 ^ l.length + value l := by ring
        _ = _ := by rw [← hbyte]; ring
    rw [hsum, Nat.mul_add_div (by decide)]

/-- Byte by byte exclusive or is that of the numbers. -/
theorem value_xor (h : l.length = l'.length) :
    value (List.zipWith (· ^^^ ·) l l') = value l ^^^ value l' := by
  induction l generalizing l' with
  | nil =>
    cases l' with
    | nil => rfl
    | cons => cases h
  | cons a l ih =>
    cases l' with
    | nil => cases h
    | cons b l' =>
      have hl : l.length = l'.length := Nat.succ.inj h
      have hpow : (256 : ℕ) ^ l'.length = 2 ^ (8 * l'.length) := by
        rw [pow_mul]
        rfl
      have h1 := value_lt l
      have h2 := value_lt l'
      have h3 := value_lt (List.zipWith (· ^^^ ·) l l')
      rw [List.length_zipWith, hl, min_self, hpow] at h3
      rw [hl, hpow] at h1
      rw [hpow] at h2
      rw [List.zipWith_cons_cons, value_cons, value_cons, value_cons, List.length_zipWith, hl,
        min_self, BitVec.toNat_xor, hpow]
      refine Nat.eq_of_testBit_eq fun i => ?_
      rw [Nat.testBit_xor, Nat.mul_comm, Nat.mul_comm a.toNat, Nat.mul_comm b.toNat,
        Nat.testBit_two_pow_mul_add _ h3, Nat.testBit_two_pow_mul_add _ h1,
        Nat.testBit_two_pow_mul_add _ h2]
      split
      · rw [ih hl, Nat.testBit_xor]
      · rw [Nat.testBit_xor]

/-- A rotation by whole bytes. -/
theorem value_rotate (hn : n ≤ l.length) :
    value (l.drop n ++ l.take n) =
      value l % 256 ^ (l.length - n) * 256 ^ n + value l / 256 ^ (l.length - n) := by
  have hdrop : (l.drop n).length = l.length - n := List.length_drop
  have htake : (l.take n).length = n := List.length_take_of_le hn
  have hsum : value l = value (l.take n) * 256 ^ (l.length - n) + value (l.drop n) := by
    rw [← hdrop, ← value_append, List.take_append_drop]
  have hlt : value (l.drop n) < 256 ^ (l.length - n) := hdrop ▸ value_lt (l.drop n)
  rw [value_append, htake, hsum, Nat.mul_add_mod_self_right, Nat.mod_eq_of_lt hlt,
    Nat.mul_comm (value (l.take n)), Nat.mul_add_div (by positivity), Nat.div_eq_of_lt hlt,
    Nat.add_zero]

end Mikage.Lib.BigEndian
