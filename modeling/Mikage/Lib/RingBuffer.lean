import Mathlib

/-!
# Ring buffers

The last `d` entries put into `n` places in a row, from place `r` on and over the end to the start.
`contents_append` and `contents_drop` are what putting entries in and taking entries out does.
-/

namespace Mikage.Lib.RingBuffer

variable {α : Type} {n r d k : ℕ} {f g : ℕ → α}

/-- The entries, the oldest first. -/
def contents (n : ℕ) (f : ℕ → α) (r d : ℕ) : List α :=
  (List.range d).map fun i => f ((r + i) % n)

@[simp] theorem contents_length : (contents n f r d).length = d := by simp [contents]

/-- The places of different entries are different. -/
theorem place_ne {i j : ℕ} (hij : i < j) (hj : j < n) : (r + i) % n ≠ (r + j) % n := by
  intro h
  have hmod : r + i ≡ r + j [MOD n] := h
  have heq := Nat.ModEq.add_left_cancel' r hmod
  rw [Nat.ModEq, Nat.mod_eq_of_lt (hij.trans hj), Nat.mod_eq_of_lt hj] at heq
  omega

/-- New entries behind the others. -/
theorem contents_append {bytes : ℕ → α} (hfits : d + k ≤ n)
    (hnew : ∀ i < k, g ((r + d + i) % n) = bytes i)
    (hold : ∀ a, (∀ i < k, a ≠ (r + d + i) % n) → g a = f a) :
    contents n g r (d + k) = contents n f r d ++ (List.range k).map bytes := by
  rw [contents, List.range_add, List.map_append, List.map_map]
  refine congrArg₂ _ (List.map_congr_left fun i hi => hold _ fun j hj => ?_)
    (List.map_congr_left fun i hi => ?_)
  · have hi := List.mem_range.1 hi
    rw [Nat.add_assoc]
    exact place_ne (by omega) (by omega)
  · rw [Function.comp_apply, ← Nat.add_assoc]
    exact hnew i (List.mem_range.1 hi)

/-- The oldest entries taken out. -/
theorem contents_drop (k : ℕ) : contents n f ((r + k) % n) (d - k) =
    (contents n f r d).drop k := by
  refine List.ext_getElem (by simp) fun i h1 h2 => ?_
  simp only [contents, List.getElem_map, List.getElem_range, List.getElem_drop]
  rw [Nat.mod_add_mod, Nat.add_assoc]

theorem contents_take (h : k ≤ d) : (contents n f r d).take k = contents n f r k := by
  rw [contents, ← List.map_take, List.take_range, Nat.min_eq_left h, contents]

end Mikage.Lib.RingBuffer
