import Mathlib

/-!
# Accounting for a program by small changes

A program that updates a state in many places is accounted for when its effect is a sequence of
changes from a fixed list. The changes act on the state and on a ghost component that the program
does not have. An invariant of every change is then an invariant of every program accounted for,
also at the states an exception is thrown in.

- `Ends`: how a program in `EStateM` ends, with rules that run it step by step.
- `From`: a program that is about to run in a state `s`, all but the changes since `c` accounted for.
- `From.call`, `From.step`: the rules for a call of a program accounted for already and for a change.
-/

open Relation

section Ends

variable {ε σ α β γ : Type}

/-- `x`, run in `s`, returns as `Q` says or throws as `E` says. -/
def Ends (x : EStateM ε σ α) (s : σ) (Q : α → σ → Prop) (E : ε → σ → Prop) : Prop :=
  match x s with
  | .ok a s' => Q a s'
  | .error e s' => E e s'

variable {x : EStateM ε σ α} {f : α → EStateM ε σ β} {s s' : σ} {Q Q' : α → σ → Prop}
  {R : β → σ → Prop} {E E' : ε → σ → Prop}

theorem EStateM.bind_of_ok {a : α} (h : x s = .ok a s') : (x >>= f) s = f a s' := by
  simp only [bind, EStateM.bind, h]

theorem EStateM.bind_eq_ok_iff {b : β} :
    (x >>= f) s = .ok b s' ↔ ∃ a s₁, x s = .ok a s₁ ∧ f a s₁ = .ok b s' := by
  simp only [bind, EStateM.bind]
  cases x s with
  | ok a s₁ =>
    constructor
    · intro h
      exact ⟨a, s₁, rfl, h⟩
    · rintro ⟨_, _, h, h'⟩
      cases h
      exact h'
  | error e s₁ =>
    constructor
    · intro h
      cases h
    · rintro ⟨_, _, h, _⟩
      cases h

theorem Ends.mono (h : Ends x s Q E) (hq : ∀ a s', Q a s' → Q' a s') (he : ∀ e s', E e s' → E' e s') :
    Ends x s Q' E' := by
  unfold Ends at *
  split
  next a s' hx => rw [hx] at h; exact hq _ _ h
  next e s' hx => rw [hx] at h; exact he _ _ h

theorem Ends.bind (h : Ends x s Q E) (hf : ∀ a s', Q a s' → Ends (f a) s' R E) :
    Ends (x >>= f) s R E := by
  have hbind : (x >>= f) s = match x s with
      | .ok a s' => f a s'
      | .error e s' => .error e s' := rfl
  unfold Ends at h ⊢
  rw [hbind]
  cases hx : x s with
  | ok a s' =>
    rw [hx] at h
    simpa only [Ends] using hf a s' h
  | error e s' =>
    rw [hx] at h
    exact h

theorem Ends.ok (h : Ends x s Q E) {a : α} (hx : x s = .ok a s') : Q a s' := by
  rw [Ends, hx] at h
  exact h

theorem Ends.error (h : Ends x s Q E) {e : ε} (hx : x s = .error e s') : E e s' := by
  rw [Ends, hx] at h
  exact h

theorem Ends.split {P : Prop} [Decidable P] {y : EStateM ε σ α} (h : P → Ends x s Q E)
    (h' : ¬ P → Ends y s Q E) : Ends (if P then x else y) s Q E := by
  split
  next hp => exact h hp
  next hp => exact h' hp

theorem Ends.bool {b : Bool} {Q : Bool → σ → Prop} (h : b = true → Q true s)
    (h' : b = false → Q false s) : Ends (pure b) s Q E := by
  cases b with
  | true => exact h rfl
  | false => exact h' rfl

@[simp] theorem ends_get {f : σ → EStateM ε σ β} : Ends (get >>= f) s R E ↔ Ends (f s) s R E := Iff.rfl

@[simp] theorem ends_modify {u : σ → σ} {f : PUnit → EStateM ε σ β} :
    Ends (modify u >>= f) s R E ↔ Ends (f ⟨⟩) (u s) R E := Iff.rfl

@[simp] theorem ends_set {f : PUnit → EStateM ε σ β} :
    Ends (set s' >>= f) s R E ↔ Ends (f ⟨⟩) s' R E := Iff.rfl

@[simp] theorem ends_pure_bind {a : α} : Ends (pure a >>= f) s R E ↔ Ends (f a) s R E := Iff.rfl

@[simp] theorem ends_throw_bind {e : ε} :
    Ends ((throw e : EStateM ε σ α) >>= f) s R E ↔ E e s := Iff.rfl

@[simp] theorem ends_assoc {x : EStateM ε σ α} {f : α → EStateM ε σ β} {f' : β → EStateM ε σ γ}
    {R : γ → σ → Prop} : Ends ((x >>= f) >>= f') s R E ↔ Ends (x >>= fun a => f a >>= f') s R E := by
  rw [bind_assoc]

@[simp] theorem ends_map {u : α → β} : Ends (u <$> x) s R E ↔ Ends x s (fun a => R (u a)) E := by
  have hmap : (u <$> x) s = match x s with
      | .ok a s' => .ok (u a) s'
      | .error e s' => .error e s' := rfl
  rw [Ends, Ends, hmap]
  cases x s <;> rfl

@[simp] theorem ends_pure {a : α} : Ends (pure a) s Q E ↔ Q a s := Iff.rfl

@[simp] theorem ends_throw {e : ε} : Ends (throw e) s Q E ↔ E e s := Iff.rfl

@[simp] theorem ends_modify_last {u : σ → σ} {Q : PUnit → σ → Prop} :
    Ends (modify u) s Q E ↔ Q ⟨⟩ (u s) := Iff.rfl

@[simp] theorem ends_set_last {Q : PUnit → σ → Prop} : Ends (set s') s Q E ↔ Q ⟨⟩ s' := Iff.rfl

end Ends

/-- Which changes there are, what a program restores at its end and which exceptions it may throw. -/
structure Account (ε σ γ : Type) where
  act : σ × γ → σ × γ → Prop
  kept : σ → σ → Prop
  fault : ε → σ → σ × γ → Prop
  kept_refl : ∀ s, kept s s
  kept_trans : ∀ {s₁ s₂ s₃}, kept s₁ s₂ → kept s₂ s₃ → kept s₁ s₃

namespace Account

variable {ε σ γ α β : Type} {A : Account ε σ γ}

abbrev Acts (A : Account ε σ γ) : σ × γ → σ × γ → Prop := ReflTransGen A.act

/-- `x`, run in `s`, ends in `Q`, and everything that happened since `c` is accounted for. -/
abbrev From (A : Account ε σ γ) (c : σ × γ) (x : EStateM ε σ α) (s : σ) (Q : α → σ → γ → Prop) :
    Prop :=
  Ends x s (fun a s' => ∃ g', A.Acts c (s', g') ∧ A.kept c.1 s' ∧ Q a s' g')
    (fun e s' => ∃ c', A.Acts c c' ∧ A.fault e s' c')

/-- The effect of `x` on `s` is accounted for and ends in `Q`. -/
abbrev Does (A : Account ε σ γ) (x : EStateM ε σ α) (s : σ) (g : γ) (Q : α → σ → γ → Prop) : Prop :=
  A.From (s, g) x s Q

variable {c c' : σ × γ} {s s' : σ} {g : γ} {x : EStateM ε σ α} {f : α → EStateM ε σ β}
  {Q Q' : α → σ → γ → Prop} {R : β → σ → γ → Prop}

theorem From.mono (h : A.From c x s Q)
    (hq : ∀ a s' g', A.Acts c (s', g') → A.kept c.1 s' → Q a s' g' → Q' a s' g') :
    A.From c x s Q' :=
  Ends.mono h (fun _ _ ⟨g', ha, hk, hQ⟩ => ⟨g', ha, hk, hq _ _ _ ha hk hQ⟩) (fun _ _ h => h)

/-- What happened up to `c'` is accounted for. -/
theorem From.step (ha : A.Acts c c') (hk : A.kept c.1 c'.1) (h : A.From c' x s Q) :
    A.From c x s Q :=
  Ends.mono h (fun _ _ ⟨g', hb, hl, hQ⟩ => ⟨g', ha.trans hb, A.kept_trans hk hl, hQ⟩)
    (fun _ _ ⟨c₁, hb, hf⟩ => ⟨c₁, ha.trans hb, hf⟩)

/-- A program followed by changes of the ghost component. -/
theorem From.extend (h : A.From c x s Q)
    (hq : ∀ a s' g', A.Acts c (s', g') → A.kept c.1 s' → Q a s' g' →
      ∃ g'', A.act (s', g') (s', g'') ∧ Q' a s' g'') : A.From c x s Q' :=
  Ends.mono h
    (fun _ _ ⟨_, ha, hk, hQ⟩ =>
      let ⟨g'', hb, hQ'⟩ := hq _ _ _ ha hk hQ
      ⟨g'', ha.tail hb, hk, hQ'⟩)
    (fun _ _ h => h)

/-- A call followed by the rest of the program. -/
theorem From.call (h : A.Does x s g Q)
    (hf : ∀ a s' g', A.Acts (s, g) (s', g') → A.kept s s' → Q a s' g' →
      A.From (s', g') (f a) s' R) : A.From (s, g) (x >>= f) s R :=
  Ends.bind h fun _ _ ⟨_, ha, hk, hQ⟩ => From.step ha hk (hf _ _ _ ha hk hQ)

end Account
