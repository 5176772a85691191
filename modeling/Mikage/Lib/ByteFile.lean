import Mathlib.Data.List.Basic
import Mathlib.Tactic

/-!
# Byte arrays that are written in place

A file as the array of its bytes: writing at a position, behind the end of the array with a gap of
zeros, and setting its length.

- `overlay`, `overlay_getElem?`: the array afterwards, and each of its entries.
- `resize`, `resize_getElem?`: the same for the length.
-/

namespace Lib.ByteFile

variable {α : Type} [Zero α] {data bytes : List α} {offset n m : ℕ}

/-- The array with some entries replaced, grown by zeros as far as needed. -/
def overlay (data : List α) (offset : ℕ) (bytes : List α) : List α :=
  data.take offset ++ List.replicate (offset - data.length) 0 ++ bytes ++
    data.drop (offset + bytes.length)

/-- The array cut or grown to a length. -/
def resize (data : List α) (n : ℕ) : List α :=
  data.take n ++ List.replicate (n - data.length) 0

theorem overlay_length : (overlay data offset bytes).length =
    max data.length (offset + bytes.length) := by
  simp only [overlay, List.length_append, List.length_take, List.length_replicate,
    List.length_drop]
  omega

theorem overlay_getElem? (i : ℕ) : (overlay data offset bytes)[i]? =
    if i < offset then (if i < data.length then data[i]? else some 0)
    else if i < offset + bytes.length then bytes[i - offset]? else data[i]? := by
  have hhead : (data.take offset ++ List.replicate (offset - data.length) (0 : α)).length =
      offset := by
    rw [List.length_append, List.length_take, List.length_replicate]
    omega
  rw [overlay, List.append_assoc (_ ++ _)]
  split
  next hlow =>
    rw [List.getElem?_append_left (by rwa [hhead])]
    split
    next hin =>
      rw [List.getElem?_append_left (by rw [List.length_take]; omega), List.getElem?_take,
        if_pos hlow]
    next hin =>
      rw [List.getElem?_append_right (by rw [List.length_take]; omega), List.length_take,
        List.getElem?_replicate, if_pos (by omega)]
  next hhigh =>
    rw [List.getElem?_append_right (by omega), hhead]
    split
    next hin => rw [List.getElem?_append_left (by omega)]
    next hin =>
      rw [List.getElem?_append_right (by omega), List.getElem?_drop]
      congr 1
      omega

theorem overlay_end : overlay data data.length bytes = data ++ bytes := by
  rw [overlay, List.take_length, Nat.sub_self, List.replicate_zero, List.append_nil,
    List.drop_eq_nil_of_le (by omega), List.append_nil]

/-- Zeros over zeros. -/
theorem overlay_replicate (h : offset + m ≤ n) :
    overlay (List.replicate n (0 : α)) offset (List.replicate m 0) = List.replicate n 0 := by
  rw [overlay, List.take_replicate, List.length_replicate, List.length_replicate,
    List.drop_replicate, List.replicate_append_replicate, List.replicate_append_replicate,
    List.replicate_append_replicate]
  congr 1
  omega

theorem resize_length : (resize data n).length = n := by
  rw [resize, List.length_append, List.length_take, List.length_replicate]
  omega

theorem resize_getElem? (i : ℕ) : (resize data n)[i]? =
    if i < n then (if i < data.length then data[i]? else some 0) else none := by
  rw [resize]
  by_cases hi : i < (data.take n).length
  · have hi' := hi
    rw [List.length_take] at hi'
    rw [List.getElem?_append_left hi, List.getElem?_take, if_pos (by omega), if_pos (by omega),
      if_pos (by omega)]
  · rw [List.length_take] at hi
    rw [List.getElem?_append_right (by rw [List.length_take]; omega), List.getElem?_replicate,
      List.length_take]
    by_cases hn : i < n
    · rw [if_pos (by omega), if_pos hn, if_neg (by omega)]
    · rw [if_neg (by omega), if_neg hn]

theorem resize_self : resize data data.length = data := by
  rw [resize, List.take_length, Nat.sub_self, List.replicate_zero, List.append_nil]

/-- A longer array is the old one with zeros behind it. -/
theorem resize_of_le (h : data.length ≤ n) :
    resize data n = data ++ List.replicate (n - data.length) 0 := by
  rw [resize, List.take_of_length_le h]

end Lib.ByteFile
