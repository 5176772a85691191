import Mathlib.Data.List.Basic
import Mathlib.Tactic

/-!
# Patches applied in place

A list of patches, each of one kind and for one place of an array. A patch may refuse what it finds.

- `after`: the value of a place behind a list of patches, from the patches for that place alone.
- `foldlM_ok_iff`: the patches all go through when none refuses what those before it leave, and then
  every place has its value.
-/

namespace Mikage.Lib.Patches

variable {κ ν ε : Type} (patch : κ → ℕ → ν → ν)

/-- The kinds of the patches for a place, in order. -/
def history (patches : List (κ × ℕ)) (place : ℕ) : List κ :=
  (patches.filter fun p => p.2 = place).map Prod.fst

def after (patches : List (κ × ℕ)) (place : ℕ) (value : ν) : ν :=
  (history patches place).foldl (fun v kind => patch kind place v) value

theorem history_cons (kind : κ) (place other : ℕ) (patches : List (κ × ℕ)) :
    history ((kind, place) :: patches) other =
      if place = other then kind :: history patches other else history patches other := by
  by_cases h : place = other <;> simp [history, h]

theorem after_cons (kind : κ) (place other : ℕ) (patches : List (κ × ℕ)) (array : ℕ → ν) :
    after patch ((kind, place) :: patches) other (array other) =
      after patch patches other
        (Function.update array place (patch kind place (array place)) other) := by
  rw [after, after, history_cons]
  by_cases h : place = other
  · subst h
    rw [if_pos rfl, List.foldl_cons, Function.update_self]
  · rw [if_neg h, Function.update_of_ne (Ne.symm h)]

theorem after_nil {patches : List (κ × ℕ)} {place : ℕ} {value : ν}
    (h : history patches place = []) : after patch patches place value = value := by
  rw [after, h, List.foldl_nil]

theorem after_singleton {patches : List (κ × ℕ)} {place : ℕ} {value : ν} {kind : κ}
    (h : history patches place = [kind]) :
    after patch patches place value = patch kind place value := by
  rw [after, h, List.foldl_cons, List.foldl_nil]

/-- No patch refuses what it finds. -/
def Accepted (accepts : κ → ℕ → ν → Prop) (patches : List (κ × ℕ)) (array : ℕ → ν) : Prop :=
  ∀ before kind place behind, patches = before ++ (kind, place) :: behind →
    accepts kind place (after patch before place (array place))

theorem accepted_cons {accepts : κ → ℕ → ν → Prop} {kind : κ} {place : ℕ}
    {patches : List (κ × ℕ)} {array : ℕ → ν} :
    Accepted patch accepts ((kind, place) :: patches) array ↔
      accepts kind place (array place) ∧ Accepted patch accepts patches
        (Function.update array place (patch kind place (array place))) := by
  constructor
  · intro h
    refine ⟨h [] kind place patches rfl, fun before k p behind heq => ?_⟩
    have hnext := h ((kind, place) :: before) k p behind (by rw [heq]; rfl)
    rwa [after_cons] at hnext
  · rintro ⟨hfirst, hrest⟩ before k p behind heq
    cases before with
    | nil =>
      simp only [List.nil_append, List.cons.injEq, Prod.mk.injEq] at heq
      obtain ⟨⟨rfl, rfl⟩, -⟩ := heq
      exact hfirst
    | cons q before =>
      simp only [List.cons_append, List.cons.injEq] at heq
      obtain ⟨rfl, hlist⟩ := heq
      rw [after_cons]
      exact hrest before k p behind hlist

/-- Over a list of patches, for a step that either refuses or patches one place. -/
theorem foldlM_ok_iff {accepts : κ → ℕ → ν → Prop}
    {step : (ℕ → ν) → κ × ℕ → Except ε (ℕ → ν)}
    (hstep : ∀ array kind place result, step array (kind, place) = .ok result ↔
      accepts kind place (array place) ∧
        result = Function.update array place (patch kind place (array place)))
    (patches : List (κ × ℕ)) (array result : ℕ → ν) :
    patches.foldlM step array = .ok result ↔ Accepted patch accepts patches array ∧
      result = fun place => after patch patches place (array place) := by
  induction patches generalizing array with
  | nil =>
    have hnone : Accepted patch accepts [] array := by
      intro before kind place behind h
      exact absurd h (by simp)
    simp only [List.foldlM_nil, hnone, true_and, after, history, List.filter_nil, List.map_nil,
      List.foldl_nil, pure, Except.pure, Except.ok.injEq]
    exact eq_comm
  | cons p patches ih =>
    obtain ⟨kind, place⟩ := p
    rw [List.foldlM_cons, accepted_cons]
    cases hfirst : step array (kind, place) with
    | error e =>
      have hno : ¬ accepts kind place (array place) := by
        intro hyes
        rw [(hstep array kind place _).mpr ⟨hyes, rfl⟩] at hfirst
        cases hfirst
      simp [hno, bind, Except.bind]
    | ok next =>
      obtain ⟨hyes, rfl⟩ := (hstep array kind place next).mp hfirst
      have hplaces : (fun other => after patch ((kind, place) :: patches) other (array other)) =
          fun other => after patch patches other
            (Function.update array place (patch kind place (array place)) other) := by
        funext other
        exact after_cons patch kind place other patches array
      simp only [hyes, true_and, hplaces]
      exact ih _

end Mikage.Lib.Patches
