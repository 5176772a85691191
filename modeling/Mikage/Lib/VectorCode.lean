import Mathlib.Data.BitVec
import Mathlib.Data.Fin.Tuple.Basic

/-!
# Straight-line code over vectors of machine words

Expressions are componentwise operations on vectors of unsigned `w`-bit words, with swizzles and
constructors; statements assign to variables, to some components of them, or discard what the code
computes. `Exact` says that no intermediate value wraps around; where it holds the words are the
numbers (`Computes`), and `Runs` carries that through a sequence of statements.
-/

namespace VectorCode

inductive BinOp where
  | add | sub | mul | div | min | max
  deriving DecidableEq, Repr

namespace BinOp

variable {w : ℕ}

def eval : BinOp → BitVec w → BitVec w → BitVec w
  | add, a, b => a + b
  | sub, a, b => a - b
  | mul, a, b => a * b
  | div, a, b => a / b
  | min, a, b => if a ≤ b then a else b
  | max, a, b => if a ≤ b then b else a

/-- The operation on numbers. -/
def nat : BinOp → ℕ → ℕ → ℕ
  | add, a, b => a + b
  | sub, a, b => a - b
  | mul, a, b => a * b
  | div, a, b => a / b
  | min, a, b => Min.min a b
  | max, a, b => Max.max a b

/-- Where the operation on words is the one on numbers. -/
def Exact (w : ℕ) : BinOp → ℕ → ℕ → Prop
  | add, a, b => a + b < 2 ^ w
  | sub, a, b => b ≤ a
  | mul, a, b => a * b < 2 ^ w
  | div, _, b => b ≠ 0
  | min, _, _ => True
  | max, _, _ => True

theorem toNat_eval {o : BinOp} {a b : BitVec w} (h : o.Exact w a.toNat b.toNat) :
    (o.eval a b).toNat = o.nat a.toNat b.toNat := by
  cases o with
  | add => exact BitVec.toNat_add_of_lt h
  | sub => exact BitVec.toNat_sub_of_le h
  | mul => exact BitVec.toNat_mul_of_lt h
  | div => exact BitVec.toNat_udiv
  | min =>
    rw [eval, nat, apply_ite BitVec.toNat]
    exact (min_def _ _).symm
  | max =>
    rw [eval, nat, apply_ite BitVec.toNat]
    exact (max_def _ _).symm

end BinOp

/-! ## Expressions -/

/-- A vector expression of the given dimension over variables of dimensions `dim`. -/
inductive Expr (w : ℕ) {V : Type} (dim : V → ℕ) : ℕ → Type
  | var (x : V) : Expr w dim (dim x)
  | const {n : ℕ} (value : BitVec w) : Expr w dim n
  | pick {m n : ℕ} (e : Expr w dim m) (components : Fin n → Fin m) : Expr w dim n
  | op {n : ℕ} (o : BinOp) (l r : Expr w dim n) : Expr w dim n
  | join {m n : ℕ} (l : Expr w dim m) (r : Expr w dim n) : Expr w dim (m + n)

/-- The contents of the variables. -/
abbrev Valuation (w : ℕ) {V : Type} (dim : V → ℕ) := (x : V) → Fin (dim x) → BitVec w

variable {w : ℕ} {V : Type} {dim : V → ℕ} {m n : ℕ}

namespace Expr

def eval (σ : Valuation w dim) : {n : ℕ} → Expr w dim n → Fin n → BitVec w
  | _, var x => σ x
  | _, const value => fun _ => value
  | _, pick e components => fun i => e.eval σ (components i)
  | _, op o l r => fun i => o.eval (l.eval σ i) (r.eval σ i)
  | _, join l r => Fin.append (l.eval σ) (r.eval σ)

/-- No operation in the expression wraps around. -/
def Exact (σ : Valuation w dim) : {n : ℕ} → Expr w dim n → Prop
  | _, var _ => True
  | _, const _ => True
  | _, pick e _ => e.Exact σ
  | _, op o l r =>
    l.Exact σ ∧ r.Exact σ ∧ ∀ i, o.Exact w (l.eval σ i).toNat (r.eval σ i).toNat
  | _, join l r => l.Exact σ ∧ r.Exact σ

end Expr

/-- The expression has these numbers for its components, and no step on the way wraps around. -/
structure Computes (σ : Valuation w dim) (e : Expr w dim n) (v : Fin n → ℕ) : Prop where
  exact : e.Exact σ
  value : ∀ i, (e.eval σ i).toNat = v i

namespace Computes

variable {σ : Valuation w dim} {e l r : Expr w dim n} {v a b : Fin n → ℕ}

theorem var (x : V) : Computes σ (.var x) fun i => (σ x i).toNat := ⟨trivial, fun _ => rfl⟩

theorem const (value : BitVec w) : Computes σ (.const value : Expr w dim n) fun _ => value.toNat :=
  ⟨trivial, fun _ => rfl⟩

theorem pick (h : Computes σ e v) (components : Fin m → Fin n) :
    Computes σ (e.pick components) fun i => v (components i) :=
  ⟨h.exact, fun i => h.value (components i)⟩

theorem op (o : BinOp) (hl : Computes σ l a) (hr : Computes σ r b)
    (h : ∀ i, o.Exact w (a i) (b i)) : Computes σ (.op o l r) fun i => o.nat (a i) (b i) := by
  have hexact (i) : o.Exact w (l.eval σ i).toNat (r.eval σ i).toNat := by
    rw [hl.value, hr.value]
    exact h i
  refine ⟨⟨hl.exact, hr.exact, hexact⟩, fun i => ?_⟩
  rw [Expr.eval, BinOp.toNat_eval (hexact i), hl.value, hr.value]

theorem join {l : Expr w dim m} {a : Fin m → ℕ} (hl : Computes σ l a) (hr : Computes σ r b) :
    Computes σ (.join l r) (Fin.append a b) := by
  refine ⟨⟨hl.exact, hr.exact⟩, fun i => ?_⟩
  rw [Expr.eval]
  refine Fin.addCases (fun i => ?_) (fun i => ?_) i
  · rw [Fin.append_left, Fin.append_left, hl.value]
  · rw [Fin.append_right, Fin.append_right, hr.value]

/-- The same values by another name. -/
theorem congr (h : Computes σ e a) (hab : ∀ i, a i = b i) : Computes σ e b :=
  ⟨h.exact, fun i => (h.value i).trans (hab i)⟩

end Computes

/-! ## Statements -/

inductive Comparison where
  | eq | lt | le | gt | ge
  deriving DecidableEq, Repr

def Comparison.holds : Comparison → BitVec w → BitVec w → Bool
  | eq, a, b => a == b
  | lt, a, b => a < b
  | le, a, b => a ≤ b
  | gt, a, b => b < a
  | ge, a, b => b ≤ a

inductive Stmt (w : ℕ) {V : Type} (dim : V → ℕ) : Type
  | assign (x : V) (e : Expr w dim (dim x))
  /-- `x.rgb = e`: the components of `x` that `mask` names. -/
  | assignTo {n : ℕ} (x : V) (mask : Fin (dim x) → Option (Fin n)) (e : Expr w dim n)
  | discardIf (test : Comparison) (l r : Expr w dim 1)

variable [DecidableEq V]

namespace Stmt

/-- The store after the statement; `none` where it discards. -/
def exec (σ : Valuation w dim) : Stmt w dim → Option (Valuation w dim)
  | assign x e => some (Function.update σ x (e.eval σ))
  | assignTo x mask e => some (Function.update σ x fun c => ((mask c).map (e.eval σ)).getD (σ x c))
  | discardIf test l r =>
    if test.holds (l.eval σ ⟨0, Nat.one_pos⟩) (r.eval σ ⟨0, Nat.one_pos⟩) then none else some σ

def Exact (σ : Valuation w dim) : Stmt w dim → Prop
  | assign _ e => e.Exact σ
  | assignTo _ _ e => e.Exact σ
  | discardIf _ l r => l.Exact σ ∧ r.Exact σ

end Stmt

def exec : List (Stmt w dim) → Valuation w dim → Option (Valuation w dim)
  | [], σ => some σ
  | s :: code, σ => (s.exec σ).bind (exec code)

/-- No statement that is reached computes a value that wraps around. -/
def ExactRun : List (Stmt w dim) → Valuation w dim → Prop
  | [], _ => True
  | s :: code, σ => s.Exact σ ∧ ∀ σ', s.exec σ = some σ' → ExactRun code σ'

theorem exec_append {code code' : List (Stmt w dim)} {σ : Valuation w dim} :
    exec (code ++ code') σ = (exec code σ).bind (exec code') := by
  induction code generalizing σ with
  | nil => rfl
  | cons s code ih =>
    rw [List.cons_append, exec, exec, Option.bind_assoc]
    exact congrArg _ (funext fun _ => ih)

theorem exactRun_append {code code' : List (Stmt w dim)} {σ : Valuation w dim} :
    ExactRun (code ++ code') σ ↔
      ExactRun code σ ∧ ∀ σ', exec code σ = some σ' → ExactRun code' σ' := by
  induction code generalizing σ with
  | nil => simp [ExactRun, exec]
  | cons s code ih =>
    simp only [List.cons_append, ExactRun, exec, ih, Option.bind_eq_some_iff]
    constructor
    · rintro ⟨h, hrest⟩
      exact ⟨⟨h, fun σ' hσ => (hrest σ' hσ).1⟩, fun σ'' ⟨σ', hσ, hσ'⟩ => (hrest σ' hσ).2 σ'' hσ'⟩
    · rintro ⟨⟨h, hrest⟩, hlast⟩
      exact ⟨h, fun σ' hσ => ⟨hrest σ' hσ, fun σ'' hσ' => hlast σ'' ⟨σ', hσ, hσ'⟩⟩⟩

/-- The code runs from `σ` to `σ'` and nothing wraps around on the way. -/
structure Runs (code : List (Stmt w dim)) (σ σ' : Valuation w dim) : Prop where
  exact : ExactRun code σ
  result : exec code σ = some σ'

namespace Runs

variable {code code' : List (Stmt w dim)} {σ σ' σ'' : Valuation w dim}

theorem nil : Runs [] σ σ := ⟨trivial, rfl⟩

theorem append (h : Runs code σ σ') (h' : Runs code' σ' σ'') : Runs (code ++ code') σ σ'' := by
  constructor
  · refine exactRun_append.2 ⟨h.exact, fun τ hτ => ?_⟩
    rw [h.result] at hτ
    exact Option.some.inj hτ ▸ h'.exact
  · rw [exec_append, h.result]
    exact h'.result

theorem assign {x : V} {e : Expr w dim (dim x)} (h : e.Exact σ)
    (hrest : Runs code (Function.update σ x (e.eval σ)) σ') :
    Runs (.assign x e :: code) σ σ' :=
  ⟨⟨h, fun _ hτ => Option.some.inj hτ ▸ hrest.exact⟩, hrest.result⟩

/-- What an assignment leaves to be shown: the rest of the code from a store that has the new value
and differs nowhere else. -/
theorem exists_assign {P : Valuation w dim → Prop} {x : V} {e : Expr w dim (dim x)}
    {v : Fin (dim x) → ℕ} (h : Computes σ e v)
    (hrest : ∀ τ : Valuation w dim, (∀ i, (τ x i).toNat = v i) → (∀ y, y ≠ x → τ y = σ y) →
      ∃ σ', Runs code τ σ' ∧ P σ') :
    ∃ σ', Runs (.assign x e :: code) σ σ' ∧ P σ' := by
  obtain ⟨σ', hrun, hP⟩ := hrest (Function.update σ x (e.eval σ))
    (fun i => by rw [Function.update_self, h.value]) fun y hy => Function.update_of_ne hy _ _
  exact ⟨σ', assign h.exact hrun, hP⟩

theorem assignTo {x : V} {mask : Fin (dim x) → Option (Fin n)} {e : Expr w dim n} (h : e.Exact σ)
    (hrest : Runs code
      (Function.update σ x fun c => ((mask c).map (e.eval σ)).getD (σ x c)) σ') :
    Runs (.assignTo x mask e :: code) σ σ' :=
  ⟨⟨h, fun _ hτ => Option.some.inj hτ ▸ hrest.exact⟩, hrest.result⟩

end Runs

end VectorCode
