import Mathlib.Tactic

/-!
# Fields packed into a word

A word made of shifted fields gives each field back, as long as no two of them overlap.

- `extract_field`, `extract_shift`: the field at its own place.
- `extract_field_apart`, `extract_shift_apart`: nothing of it is anywhere else.
-/

namespace Mikage.Lib.BitFields

variable {w m n k l : ℕ} {x : BitVec m}

theorem extract_shift (h : n + m ≤ w) : (x.setWidth w <<< n).extractLsb' n m = x := by
  apply BitVec.eq_of_getLsbD_eq
  intro i hi
  have hlow : ¬ n + i < n := by omega
  have hin : n + i < w := by omega
  simp [hlow, hin, hi]

theorem extract_shift_apart (h : n + m ≤ k ∨ k + l ≤ n) :
    (x.setWidth w <<< n).extractLsb' k l = 0#l := by
  apply BitVec.eq_of_getLsbD_eq
  intro i hi
  rcases h with habove | hbelow
  · have hout : m ≤ k + i - n := by omega
    simp [BitVec.getLsbD_of_ge x _ hout]
  · have hlow : k + i < n := by omega
    simp [hlow]

theorem extract_field (h : m ≤ w) : (x.setWidth w).extractLsb' 0 m = x := by
  simpa using extract_shift (n := 0) (x := x) (show 0 + m ≤ w by omega)

theorem extract_field_apart (h : m ≤ k) : (x.setWidth w).extractLsb' k l = 0#l := by
  have hshift := extract_shift_apart (w := w) (n := 0) (l := l) (x := x) (k := k) (.inl (by omega))
  simpa using hshift

end Mikage.Lib.BitFields
