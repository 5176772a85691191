import Mathlib.Data.List.Basic
import Mathlib.Tactic

/-!
# Back-references

What a list of literals and copies of earlier bytes stands for, where each new byte goes in front of
those produced before.

- `Decodes`: the meaning of the tokens; a copy repeats what is `distance` places behind it, also
  where the two overlap.
- `Decodes.append`, `Decodes.length_le`, `Decodes.unique`: how the meaning composes.
-/

namespace Lib.Backward

variable {α : Type}

/-- A byte, or a copy whose distance and length are three more than they are written as. -/
inductive Token (α : Type) where
  | literal (b : α)
  | copy (displacement extra : ℕ)

/-- From the bytes before the tokens to those after them. -/
inductive Decodes : List (Token α) → List α → List α → Prop where
  | nil (p : List α) : Decodes [] p p
  | literal {ts : List (Token α)} {p q : List α} {b : α} :
      Decodes ts (b :: p) q → Decodes (.literal b :: ts) p q
  | copy {ts : List (Token α)} {p q copied : List α} {displacement extra : ℕ} :
      displacement + 3 ≤ p.length → copied.length = extra + 3 →
      (∀ k < extra + 3, (copied ++ p)[k]? = (copied ++ p)[k + (displacement + 3)]?) →
      Decodes ts (copied ++ p) q → Decodes (.copy displacement extra :: ts) p q

variable {ts us : List (Token α)} {p q r : List α}

theorem Decodes.append (h : Decodes ts p q) (h' : Decodes us q r) : Decodes (ts ++ us) p r := by
  induction h with
  | nil p => exact h'
  | literal _ ih => exact .literal (ih h')
  | copy hd hl hk _ ih => exact .copy hd hl hk (ih h')

theorem Decodes.length_le (h : Decodes ts p q) : p.length ≤ q.length := by
  induction h with
  | nil p => exact le_rfl
  | literal _ ih => exact (Nat.le_succ _).trans ih
  | copy _ _ _ _ ih =>
    rw [List.length_append] at ih
    omega

/-- The copied bytes are fixed by those behind them: the last one first. -/
theorem copied_unique {d : ℕ} (hd : 0 < d) : ∀ {c c' : List α}, c.length = c'.length →
    (∀ k < c.length, (c ++ p)[k]? = (c ++ p)[k + d]?) →
    (∀ k < c'.length, (c' ++ p)[k]? = (c' ++ p)[k + d]?) → c = c'
  | [], [], _, _, _ => rfl
  | b :: c, b' :: c', hlength, h, h' => by
    obtain rfl : c = c' := by
      refine copied_unique hd (Nat.succ.inj hlength) (fun k hk => ?_) fun k hk => ?_
      · have := h (k + 1) (Nat.succ_lt_succ hk)
        rwa [Nat.add_right_comm] at this
      · have := h' (k + 1) (Nat.succ_lt_succ hk)
        rwa [Nat.add_right_comm] at this
    obtain ⟨e, rfl⟩ : ∃ e, d = e + 1 := ⟨d - 1, by omega⟩
    have hb : some b = (c ++ p)[e]? := by simpa using h 0 (Nat.zero_lt_succ _)
    have hb' : some b' = (c ++ p)[e]? := by simpa using h' 0 (Nat.zero_lt_succ _)
    rw [Option.some.inj (hb.trans hb'.symm)]

theorem Decodes.unique (h : Decodes ts p q) (h' : Decodes ts p r) : q = r := by
  induction h with
  | nil p =>
    cases h'
    rfl
  | literal _ ih =>
    cases h' with
    | literal h' => exact ih h'
  | @copy ts p q copied displacement extra hd hl hk _ ih =>
    cases h' with
    | @copy _ _ _ copied' _ _ hd' hl' hk' h' =>
      obtain rfl := copied_unique (Nat.succ_pos _) (hl.trans hl'.symm)
        (fun k hlt => hk k (hl ▸ hlt)) fun k hlt => hk' k (hl' ▸ hlt)
      exact ih h'

end Lib.Backward
