/-!
# Runs of a transition system

The states a system reaches from its initial states, and the one induction over runs that every
invariant uses.

- `Reachable.invariant`: what holds at the start and is kept by every step holds everywhere.
- `Reachable.mono`: restricting the steps restricts the reachable states.
-/

namespace Run

variable {σ : Type} {init : σ → Prop} {step step' : σ → σ → Prop} {s : σ}

/-- The states a run from an initial state ends in. -/
inductive Reachable (init : σ → Prop) (step : σ → σ → Prop) : σ → Prop where
  | start {s : σ} : init s → Reachable init step s
  | next {s s' : σ} : Reachable init step s → step s s' → Reachable init step s'

theorem Reachable.invariant {I : σ → Prop} (h0 : ∀ s, init s → I s)
    (hs : ∀ s s', I s → step s s' → I s') (h : Reachable init step s) : I s := by
  induction h with
  | start hi => exact h0 _ hi
  | next _ hst ih => exact hs _ _ ih hst

theorem Reachable.mono (hs : ∀ s s', step s s' → step' s s') (h : Reachable init step s) :
    Reachable init step' s := by
  induction h with
  | start hi => exact .start hi
  | next _ hst ih => exact .next ih (hs _ _ hst)

end Run
