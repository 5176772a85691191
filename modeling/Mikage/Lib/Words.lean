import Mathlib

/-!
# Words in a memory of bytes

Words of 32 bits, the lowest byte first, in a memory that an address of `n` bits selects a byte of.
Addresses wrap.
-/

namespace Mikage.Lib.Words

variable {n : Nat}

abbrev Bytes (n : Nat) : Type := BitVec n → BitVec 8

/-- The byte of `v` that is `k` bytes above its lowest. -/
def byteAt (v : BitVec 32) (k : Nat) : BitVec 8 := v.extractLsb' (8 * k) 8

def word (f : Bytes n) (a : BitVec n) : BitVec 32 :=
  f (a + BitVec.ofNat n 3) ++ f (a + BitVec.ofNat n 2) ++ f (a + BitVec.ofNat n 1) ++ f a

/-- The words of `l`, from `a` on. -/
def putWords (f : Bytes n) (a : BitVec n) (l : List (BitVec 32)) : Bytes n := fun x =>
  match l[(x - a).toNat / 4]? with
  | some v => byteAt v ((x - a).toNat % 4)
  | none => f x

theorem bytes_append (v : BitVec 32) :
    byteAt v 3 ++ byteAt v 2 ++ byteAt v 1 ++ byteAt v 0 = v := by
  apply BitVec.eq_of_getLsbD_eq
  intro i hi
  simp only [byteAt, BitVec.getLsbD_append, BitVec.getLsbD_extractLsb']
  grind

@[simp] theorem putWords_nil (f : Bytes n) (a : BitVec n) : putWords f a [] = f := rfl

/-- A byte that is not of these words. -/
theorem putWords_beside {f : Bytes n} {a x : BitVec n} {l : List (BitVec 32)}
    (h : ∀ k < 4 * l.length, x ≠ a + BitVec.ofNat n k) : putWords f a l x = f x := by
  have hout : l.length ≤ (x - a).toNat / 4 := by
    by_contra hlt
    refine h (x - a).toNat (by omega) ?_
    rw [BitVec.ofNat_toNat, BitVec.setWidth_eq, BitVec.add_comm, BitVec.sub_add_cancel]
  rw [putWords, List.getElem?_eq_none hout]

theorem toNat_add_sub (a : BitVec n) {k : Nat} (h : k < 2 ^ n) :
    (a + BitVec.ofNat n k - a).toNat = k := by
  rw [BitVec.add_comm, BitVec.add_sub_cancel, BitVec.toNat_ofNat, Nat.mod_eq_of_lt h]

theorem word_putWords {f : Bytes n} {a : BitVec n} {l : List (BitVec 32)} {j : Nat}
    (hfit : 4 * l.length ≤ 2 ^ n) (hj : j < l.length) :
    word (putWords f a l) (a + BitVec.ofNat n (4 * j)) = l[j] := by
  have hbyte : ∀ k < 4, putWords f a l (a + BitVec.ofNat n (4 * j) + BitVec.ofNat n k) =
      byteAt l[j] k := by
    intro k hk
    rw [BitVec.add_assoc, ← BitVec.ofNat_add, putWords, toNat_add_sub a (by omega),
      show (4 * j + k) / 4 = j by omega, show (4 * j + k) % 4 = k by omega,
      List.getElem?_eq_getElem hj]
  have h0 := hbyte 0 (by decide)
  rw [BitVec.add_zero] at h0
  rw [word, hbyte 3 (by decide), hbyte 2 (by decide), hbyte 1 (by decide), h0, bytes_append]

/-- The first word, then the others behind it. -/
theorem putWords_cons {f : Bytes n} {a : BitVec n} {v : BitVec 32} {l : List (BitVec 32)}
    (hfit : 4 * (l.length + 1) ≤ 2 ^ n) :
    putWords (putWords f a [v]) (a + BitVec.ofNat n 4) l = putWords f a (v :: l) := by
  funext x
  have hd := (x - a).isLt
  have hx : (x - (a + BitVec.ofNat n 4)).toNat = ((x - a).toNat + (2 ^ n - 4)) % 2 ^ n := by
    rw [← sub_sub, BitVec.toNat_sub, BitVec.toNat_ofNat, Nat.add_comm]
    by_cases h4 : 4 < 2 ^ n
    · rw [Nat.mod_eq_of_lt h4]
    · rw [show (4 : Nat) = 2 ^ n by omega, Nat.mod_self, Nat.sub_self, Nat.sub_zero, Nat.add_zero,
        Nat.add_mod_right]
  simp only [putWords, hx]
  generalize (x - a).toNat = d at *
  by_cases h : d < 4
  · have hwrap : (d + (2 ^ n - 4)) % 2 ^ n = d + (2 ^ n - 4) := Nat.mod_eq_of_lt (by omega)
    rw [hwrap, List.getElem?_eq_none (by omega), Nat.div_eq_of_lt h]
    rfl
  · have hwrap : (d + (2 ^ n - 4)) % 2 ^ n = d - 4 := by
      rw [show d + (2 ^ n - 4) = d - 4 + 2 ^ n by omega, Nat.add_mod_right,
        Nat.mod_eq_of_lt (by omega)]
    obtain ⟨e, rfl⟩ : ∃ e, d = e + 4 := ⟨d - 4, by omega⟩
    rw [hwrap, Nat.add_sub_cancel, Nat.add_div_right _ (by decide), Nat.add_mod_right,
      List.getElem?_cons_succ, List.getElem?_cons_succ, List.getElem?_nil]

end Mikage.Lib.Words
