import Mikage.OS.Invariant

/-!
# Rules for kernel code

How to account for a piece of kernel code: `step` for a change, `call` for a call of a function that
is accounted for already, `done` and `fail` for the ends.
-/

namespace Mikage

open Account

structure Powers.Le (P P' : Powers) : Prop where
  turn : ∀ t, P.turn t → P'.turn t
  sleep : ∀ t, P.sleep t → P'.sleep t
  clock : P.clock → P'.clock
  forks : P.forks → P'.forks
  tables : P.tables → P'.tables

theorem Powers.Le.refl (P : Powers) : P.Le P := ⟨fun _ => id, fun _ => id, id, id, id⟩

theorem Powers.base_le (P : Powers) : Powers.base.Le P :=
  ⟨fun _ => False.elim, fun _ => False.elim, False.elim, False.elim, False.elim⟩

variable {P P' : Powers} {α β : Type} {k k' s : Kernel} {g g' : Phase} {c : Config} {x : KM α}
  {f : α → KM β} {Q : α → Kernel → Phase → Prop} {R : β → Kernel → Phase → Prop}

theorem Act.mono (h : P.Le P') {c c' : Config} (ha : Act P c c') : Act P' c c' := by
  cases ha with
  | quiet => exact .quiet _ _ _ _
  | same h₁ h₂ => exact .same h₁ h₂
  | inner h₁ h₂ h₃ => exact .inner h₁ h₂ h₃
  | prune h₁ h₂ => exact .prune h₁ h₂
  | skip h₁ h₂ => exact .skip h₁ h₂
  | frame h₁ h₂ => exact .frame h₁ h₂
  | spare h₁ => exact .spare h₁
  | bury h₁ => exact .bury h₁
  | signal hP h₁ h₂ => exact .signal (h.forks hP) h₁ h₂
  | ran hP => exact .ran (h.forks hP)
  | spawn hP h₁ h₂ h₃ => exact .spawn (h.forks hP) h₁ h₂ h₃
  | detach hP h₁ h₂ h₃ => exact .detach (h.forks hP) h₁ h₂ h₃
  | block hP h₁ h₂ h₃ h₄ h₅ h₆ h₇ h₈ h₉ h₁₀ =>
    exact .block (h.sleep _ hP) h₁ h₂ h₃ h₄ h₅ h₆ h₇ h₈ h₉ h₁₀
  | sweep => exact .sweep
  | expire hP h₁ h₂ h₃ h₄ => exact .expire (h.clock hP) h₁ h₂ h₃ h₄
  | stop hP hP' h₁ h₂ h₃ h₄ h₅ => exact .stop (h.turn _ hP) (h.tables hP') h₁ h₂ h₃ h₄ h₅
  | entry hP h₁ h₂ h₃ => exact .entry (h.tables hP) h₁ h₂ h₃
  | closed hP h₁ h₂ h₃ h₄ => exact .closed (h.tables hP) h₁ h₂ h₃ h₄
  | request hP h₁ h₂ h₃ h₄ h₅ h₆ h₇ => exact .request (h.turn _ hP) h₁ h₂ h₃ h₄ h₅ h₆ h₇
  | park hP h₁ h₂ h₃ h₄ => exact .park (h.turn _ hP) h₁ h₂ h₃ h₄
  | comeBack hP h₁ h₂ h₃ h₄ => exact .comeBack (h.turn _ hP) h₁ h₂ h₃ h₄
  | sent hP h₁ h₂ => exact .sent (h.turn _ hP) h₁ h₂
  | serve hP h₁ h₂ h₃ => exact .serve (h.turn _ hP) h₁ h₂ h₃
  | resume hP h₁ h₂ h₃ => exact .resume (h.turn _ hP) h₁ h₂ h₃
  | taken h₁ h₂ h₃ h₄ h₅ => exact .taken h₁ h₂ h₃ h₄ h₅
  | acquired h₁ h₂ h₃ h₄ h₅ h₆ => exact .acquired h₁ h₂ h₃ h₄ h₅ h₆
  | woken h₁ h₂ h₃ h₄ h₅ h₆ => exact .woken h₁ h₂ h₃ h₄ h₅ h₆
  | _ => constructor <;> assumption

theorem acts_mono (h : P.Le P') {c c' : Config} (ha : (account P).Acts c c') :
    (account P').Acts c c' := by
  induction ha with
  | refl => exact .refl
  | tail _ ha ih => exact ih.tail (ha.mono h)

/-- Kernel code run in `s`, of which everything before `k` is accounted for. -/
abbrev From (P : Powers) (k : Kernel) (g : Phase) (x : KM α) (s : Kernel)
    (Q : α → Kernel → Phase → Prop) : Prop := (account P).From (k, g) x s Q

/-- A change that leads to the state of the program. -/
theorem step (ha : Act P (k, g) (s, g')) (hl : s.locals = k.locals) (h : From P s g' x s Q) :
    From P k g x s Q := Account.From.step (.single ha) hl h

/-- A change of the phase alone. -/
theorem shift (ha : Act P (k, g) (k, g')) (h : From P k g' x s Q) : From P k g x s Q :=
  Account.From.step (.single ha) rfl h

/-- What follows from an account with fewer powers. -/
theorem Does.weaken (hI : Inv k) (hle : P'.Le P) (h : Does P' x k g Q) :
    Does P x k g (fun a k' g' => Inv k' ∧ Frame P' k k' ∧ Q a k' g') :=
  Ends.mono h
    (fun _ _ ⟨g', ha, hl, hQ⟩ => ⟨g', acts_mono hle ha, hl, hI.acts ha, Frame.acts hI ha, hQ⟩)
    (fun _ _ ⟨c', ha, hf⟩ => ⟨c', acts_mono hle ha, hf⟩)

/-- A function in the middle of a program. -/
theorem call (hI : Inv k) (hle : P'.Le P) (h : Does P' x k g Q)
    (hf : ∀ a k' g', Inv k' → Frame P' k k' → k'.locals = k.locals → Q a k' g' →
      From P k' g' (f a) k' R) : From P k g (x >>= f) k R :=
  Account.From.call (Does.weaken hI hle h)
    fun _ _ _ _ hl hQ => hf _ _ _ hQ.1 hQ.2.1 hl hQ.2.2

theorem done {a : α} (h : Q a k g) : From P k g (pure a) k Q := ⟨g, .refl, rfl, h⟩

/-- An update at the end of a program. -/
theorem last {u : Kernel → Kernel} {Q : Unit → Kernel → Phase → Prop}
    (h : From P k g (pure ()) (u s) Q) : From P k g (modify u) s Q := h

theorem fail {e : Exception} (ht : k.trace = s.trace) (h : Fault e (k, g)) :
    From P k g (throw e : KM α) s Q := ⟨(k, g), .refl, ht, h⟩

/-- An exception that no claim is about. -/
theorem fail_other {e : Exception} (ht : k.trace = s.trace)
    (h : e ∉ Exception.asserted) : From P k g (throw e : KM α) s Q :=
  fail ht (.other h)

/-- A check that passes. -/
theorem from_validate {b : Bool} {condition : String} {f : Unit → KM β}
    (h : b = true → From P k g (f ()) s R)
    (h' : b = false → From P k g (throw (.contractViolated condition)) s R) :
    From P k g (KM.validate b condition >>= f) s R := by
  cases b with
  | true => exact h rfl
  | false => exact h' rfl

/-- Code that holds a reference. -/
theorem Does.holding {r : Ref} (hI : Inv k) (hr : k.dead r = false)
    (h : Inv { k with locals := r :: k.locals } → Does P x { k with locals := r :: k.locals } g Q) :
    Does P (KM.holding r x) k g (fun a k' g' => Q a { k' with locals := r :: k.locals } g') := by
  have hh : Act P (k, g) ({ k with locals := r :: k.locals }, g) := .hold hr
  have h' : Ends x { k with locals := r :: k.locals }
      (fun a s => ∃ g', (account P).Acts (k, g) (s, g') ∧ s.locals = r :: k.locals ∧ Q a s g')
      (fun e s => ∃ c', (account P).Acts (k, g) c' ∧ (account P).fault e s c') :=
    Ends.mono (h (hI.act hh)) (fun _ _ ⟨g', ha, hl, hQ⟩ => ⟨g', .head hh ha, hl, hQ⟩)
      (fun _ _ ⟨c', ha, hf⟩ => ⟨c', .head hh ha, hf⟩)
  unfold KM.holding
  simp only [ends_modify]
  refine Ends.bind h' ?_
  rintro a s ⟨g', ha, hl, hQ⟩
  have hs : s.locals.erase r = k.locals := by rw [hl, List.erase_cons_head]
  simp only [ends_modify, ends_pure, hs]
  have hrel : Act P (s, g') ({ s with locals := s.locals.erase r }, g') := .release
  rw [hs] at hrel
  have hs' : { s with locals := r :: k.locals } = s := by rw [← hl]
  exact ⟨g', ha.tail hrel, rfl, hs'.symm ▸ hQ⟩

end Mikage
