import Mathlib

/-!
# Lists

Counting, removing and replacing entries of lists.
-/

namespace List

variable {α : Type}

theorem countP_lt_countP {p q : α → Bool} {l : List α} {a : α} (h : ∀ x ∈ l, p x → q x)
    (ha : a ∈ l) (hq : q a = true) (hp : p a = false) : l.countP p < l.countP q := by
  obtain ⟨l₁, l₂, rfl⟩ := append_of_mem ha
  have h₁ : l₁.countP p ≤ l₁.countP q :=
    countP_mono_left fun x hx => h x (mem_append_left _ hx)
  have h₂ : l₂.countP p ≤ l₂.countP q :=
    countP_mono_left fun x hx => h x (mem_append_right _ (mem_cons_of_mem _ hx))
  simp only [countP_append, countP_cons, hp, hq, if_true]
  simp
  omega

/-- Where a key tells the entries apart, a position is as good as the key of its entry. -/
theorem eraseIdx_eq_filter {β : Type} [DecidableEq β] {f : α → β} :
    ∀ {l : List α} {i : Nat} {x : α}, (l.map f).Nodup → l[i]? = some x →
      l.eraseIdx i = l.filter (f · ≠ f x)
  | y :: l, 0, x, hkeys, h => by
    obtain rfl : y = x := by simpa using h
    rw [map_cons, nodup_cons] at hkeys
    rw [eraseIdx_cons_zero, filter_cons_of_neg (by simp), eq_comm, filter_eq_self]
    intro z hz
    have hne : f z ≠ f y := fun heq => hkeys.1 (heq ▸ mem_map_of_mem hz)
    simpa using hne
  | y :: l, i + 1, x, hkeys, h => by
    have hx : l[i]? = some x := by simpa using h
    rw [map_cons, nodup_cons] at hkeys
    have hne : f y ≠ f x := fun heq =>
      hkeys.1 (heq ▸ mem_map_of_mem (mem_of_getElem? hx))
    rw [eraseIdx_cons_succ, filter_cons_of_pos (by simpa using hne),
      eraseIdx_eq_filter hkeys.2 hx]

theorem set_eq_map {β : Type} [DecidableEq β] {f : α → β} (g : α → α) :
    ∀ {l : List α} {i : Nat} {x : α}, (l.map f).Nodup → l[i]? = some x →
      l.set i (g x) = l.map fun y => if f y = f x then g y else y
  | y :: l, 0, x, hkeys, h => by
    obtain rfl : y = x := by simpa using h
    rw [map_cons, nodup_cons] at hkeys
    rw [set_cons_zero, map_cons, if_pos rfl]
    congr 1
    refine (map_id l).symm.trans (map_congr_left fun z hz => (if_neg ?_).symm)
    exact fun heq => hkeys.1 (heq ▸ mem_map_of_mem hz)
  | y :: l, i + 1, x, hkeys, h => by
    have hx : l[i]? = some x := by simpa using h
    rw [map_cons, nodup_cons] at hkeys
    have hne : f y ≠ f x := fun heq =>
      hkeys.1 (heq ▸ mem_map_of_mem (mem_of_getElem? hx))
    rw [set_cons_succ, map_cons, if_neg hne, set_eq_map g hkeys.2 hx]

variable [DecidableEq α]

/-- Taking all occurrences out, one of them first. -/
theorem filter_ne_erase (l : List α) (a : α) :
    (l.erase a).filter (· ≠ a) = l.filter (· ≠ a) := by
  induction l with
  | nil => rfl
  | cons x l ih =>
    by_cases hx : x = a
    · subst hx
      simp
    · rw [erase_cons_tail (by simpa using hx), filter_cons, filter_cons, ih]

theorem filter_ne_of_not_mem {l : List α} {a : α} (h : a ∉ l) : l.filter (· ≠ a) = l :=
  filter_eq_self.2 fun x hx => by
    simp only [ne_eq, decide_not, Bool.not_eq_true', decide_eq_false_iff_not]
    rintro rfl
    exact h hx

/-- Taking out the entry at a position. -/
theorem count_eraseIdx : ∀ {l : List α} {i : Nat} {a : α}, l[i]? = some a → ∀ r,
    l.count r = (l.eraseIdx i).count r + if a = r then 1 else 0
  | x :: l, 0, a, h, r => by
    obtain rfl : x = a := by simpa using h
    simp [count_cons]
  | x :: l, i + 1, a, h, r => by
    have ih := count_eraseIdx (l := l) (i := i) (by simpa using h) r
    rw [eraseIdx_cons_succ, count_cons, count_cons, ih]
    omega

/-- Two searches find the same where one of the properties is stronger and what is found has it. -/
theorem find?_eq_of_imp {α : Type} {p q : α → Bool} {l : List α}
    (himp : ∀ x ∈ l, p x = true → q x = true) (h : ∀ x ∈ l.find? q, p x = true) :
    l.find? p = l.find? q := by
  induction l with
  | nil => rfl
  | cons x l ih =>
    rw [find?_cons] at h
    rw [find?_cons, find?_cons]
    cases hq : q x with
    | true =>
      rw [hq] at h
      rw [h x rfl]
    | false =>
      rw [hq] at h
      have hp : p x = false := by
        cases hp : p x
        · rfl
        · exact absurd (himp x mem_cons_self hp) (by simp [hq])
      rw [hp]
      exact ih (fun y hy => himp y (mem_cons_of_mem _ hy)) h

end List
