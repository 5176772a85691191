import Mathlib.Data.List.Basic
import Mathlib.Tactic

/-!
# Copies one after the other

Cells of a memory are copied to cells of the same memory, in the order of a list.

- `copyAll_exact`: every target has what its source had, where no copy is over a cell that is used
  again.
-/

namespace Mikage.Lib.Copies

variable {α β : Type} [DecidableEq α]

/-- Each pair is a source and a target. -/
def copyAll (m : α → β) (copies : List (α × α)) : α → β :=
  copies.foldl (fun m c => Function.update m c.2 (m c.1)) m

/-- No target is the source or the target of a later copy. -/
def NoOverwrite (copies : List (α × α)) : Prop :=
  copies.Pairwise fun c c' => c.2 ≠ c'.1 ∧ c.2 ≠ c'.2

variable {m : α → β} {copies : List (α × α)}

theorem copyAll_outside {b : α} (h : ∀ c ∈ copies, c.2 ≠ b) : copyAll m copies b = m b := by
  induction copies generalizing m with
  | nil => rfl
  | cons c cs ih =>
    have first := h c (List.mem_cons_self ..)
    have rest := ih (m := Function.update m c.2 (m c.1))
      fun c' mem => h c' (List.mem_cons_of_mem _ mem)
    exact rest.trans (Function.update_of_ne first.symm _ _)

theorem copyAll_exact (apart : NoOverwrite copies) :
    ∀ c ∈ copies, copyAll m copies c.2 = m c.1 := by
  induction copies generalizing m with
  | nil => exact fun c mem => absurd mem List.not_mem_nil
  | cons c cs ih =>
    rw [NoOverwrite, List.pairwise_cons] at apart
    intro c' mem
    rcases List.mem_cons.1 mem with rfl | mem
    · have kept := copyAll_outside (m := Function.update m c'.2 (m c'.1))
        fun c mem => (apart.1 c mem).2.symm
      exact kept.trans (Function.update_self ..)
    · exact (ih apart.2 c' mem).trans (Function.update_of_ne (apart.1 c' mem).1.symm _ _)

end Mikage.Lib.Copies
