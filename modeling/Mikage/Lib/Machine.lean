/-!
# Machines

A machine makes one step after the other until a step ends it with a result.

- `Leads step s e`: from `s` the machine gets to the state, or ends with the result, that `e` holds.
- `run`: the result after at most a number of steps.
- `Leads.run`: a machine that is led to its end has the result with every sufficient number of steps.
-/

namespace Machine

variable {σ ρ : Type} {step : σ → σ ⊕ ρ} {s t : σ} {e : σ ⊕ ρ} {r : ρ}

inductive Leads (step : σ → σ ⊕ ρ) : σ → σ ⊕ ρ → Prop where
  | here (s : σ) : Leads step s (.inl s)
  | halt {s : σ} {r : ρ} : step s = .inr r → Leads step s (.inr r)
  | next {s t : σ} {e : σ ⊕ ρ} : step s = .inl t → Leads step t e → Leads step s e

/-- The result, if `n` steps are enough. -/
def run (step : σ → σ ⊕ ρ) : Nat → σ → Option ρ
  | 0, _ => none
  | n + 1, s =>
    match step s with
    | .inl t => run step n t
    | .inr r => some r

namespace Leads

theorem of_step (h : step s = e) : Leads step s e := by
  cases e with
  | inl t => exact .next h (.here t)
  | inr r => exact .halt h

theorem trans (h : Leads step s (.inl t)) (h' : Leads step t e) : Leads step s e := by
  generalize hm : Sum.inl t = m at h
  induction h with
  | here s =>
    cases hm
    exact h'
  | halt _ => cases hm
  | next hs _ ih => exact .next hs (ih hm)

theorem run (h : Leads step s (.inr r)) : ∃ n, ∀ m ≥ n, run step m s = some r := by
  generalize he : Sum.inr r = e at h
  induction h with
  | here s => cases he
  | halt hs =>
    cases he
    refine ⟨1, fun m hm => ?_⟩
    obtain ⟨m, rfl⟩ := Nat.exists_eq_add_of_le' hm
    rw [Machine.run, hs]
  | next hs _ ih =>
    obtain ⟨n, hn⟩ := ih he
    refine ⟨n + 1, fun m hm => ?_⟩
    obtain ⟨m, rfl⟩ := Nat.exists_eq_add_of_le' (Nat.le_trans (Nat.le_add_left 1 n) hm)
    rw [Machine.run, hs]
    exact hn m (Nat.le_of_succ_le_succ hm)

end Leads

end Machine
