import Mathlib

/-!
# Maps kept sorted by key

`SortedMap κ ν` is an association list strictly sorted by its keys: an ordered map together with
its iteration order. The searches are those of an ordered map with iterators: `lowerBound` and
`upperBound` give the entry an iterator would stand on, `prevLowerBound` and `prevUpperBound` the
entry one step before it (`none` where the iterator is already at the beginning).

- `lowerBound_spec`, `upperBound_spec`, `prevLowerBound_spec`, `prevUpperBound_spec`: what each
  search finds; with `_eq_none_iff` for when it finds nothing.
- `mem_insert`, `mem_erase`, `mem_set`: what the updates do to the set of entries. `insert` does not
  replace an entry, `set` does.
-/

namespace SortedMap

variable {κ ν : Type} [LinearOrder κ]

/-- Strictly sorted by key. -/
def Sorted (l : List (κ × ν)) : Prop := l.Pairwise (·.1 < ·.1)

/-- `insert` on the entries: nothing happens where the key is taken. -/
def insertEntry (k : κ) (v : ν) : List (κ × ν) → List (κ × ν)
  | [] => [(k, v)]
  | e :: l => if k < e.1 then (k, v) :: e :: l else if k = e.1 then e :: l
      else e :: insertEntry k v l

theorem mem_insertEntry {k : κ} {v : ν} {e : κ × ν} : ∀ {l : List (κ × ν)}, Sorted l →
    (e ∈ insertEntry k v l ↔ e ∈ l ∨ (e = (k, v) ∧ ∀ e' ∈ l, e'.1 ≠ k))
  | [], _ => by simp [insertEntry]
  | x :: l, h => by
    have hl : Sorted l := List.Pairwise.of_cons h
    have hx : ∀ y ∈ l, x.1 < y.1 := fun y => List.rel_of_pairwise_cons h
    unfold insertEntry
    split
    next hlt =>
      have hne : ∀ e' ∈ x :: l, e'.1 ≠ k := by
        intro e' he'
        rcases List.mem_cons.1 he' with rfl | he'
        · exact ne_of_gt hlt
        · exact ne_of_gt (lt_trans hlt (hx e' he'))
      simp only [List.mem_cons]
      constructor
      · rintro (rfl | he)
        · exact .inr ⟨rfl, by simpa using hne⟩
        · exact .inl he
      · rintro (he | ⟨rfl, -⟩)
        · exact .inr he
        · exact .inl rfl
    next hlt =>
      split
      next heq =>
        refine ⟨.inl, ?_⟩
        rintro (he | ⟨-, hne⟩)
        · exact he
        · exact absurd heq.symm (hne x List.mem_cons_self)
      next hne =>
        rw [List.mem_cons, mem_insertEntry hl, List.mem_cons, List.forall_mem_cons]
        have : x.1 ≠ k := fun h => hne h.symm
        tauto

/-- Nothing is inserted where the key is taken. -/
theorem insertEntry_of_taken {k : κ} {v : ν} {e : κ × ν} : ∀ {l : List (κ × ν)}, Sorted l →
    e ∈ l → e.1 = k → insertEntry k v l = l
  | x :: l, h, he, hk => by
    unfold insertEntry
    rcases List.mem_cons.1 he with rfl | he
    · rw [if_neg (by simp [hk]), if_pos hk.symm]
    · have hlt : x.1 < k := hk ▸ List.rel_of_pairwise_cons h he
      rw [if_neg (not_lt.2 hlt.le), if_neg hlt.ne', insertEntry_of_taken h.of_cons he hk]

theorem sorted_insertEntry {k : κ} {v : ν} : ∀ {l : List (κ × ν)}, Sorted l →
    Sorted (insertEntry k v l)
  | [], _ => List.pairwise_singleton _ _
  | x :: l, h => by
    have hl : Sorted l := List.Pairwise.of_cons h
    have hx : ∀ y ∈ l, x.1 < y.1 := fun y => List.rel_of_pairwise_cons h
    unfold insertEntry
    split
    next hlt =>
      refine List.Pairwise.cons ?_ h
      intro y hy
      rcases List.mem_cons.1 hy with rfl | hy
      · exact hlt
      · exact lt_trans hlt (hx y hy)
    next hlt =>
      split
      next => exact h
      next hne =>
        refine List.Pairwise.cons ?_ (sorted_insertEntry hl)
        intro y hy
        rcases (mem_insertEntry hl).1 hy with hy | ⟨rfl, -⟩
        · exact hx y hy
        · exact lt_of_le_of_ne (not_lt.1 hlt) (fun h => hne h.symm)

end SortedMap

/-- An ordered map: its entries in the order of their keys. -/
structure SortedMap (κ ν : Type) [LinearOrder κ] where
  entries : List (κ × ν)
  sorted : SortedMap.Sorted entries

namespace SortedMap

variable {κ ν : Type} [LinearOrder κ]

instance : Membership (κ × ν) (SortedMap κ ν) := ⟨fun m e => e ∈ m.entries⟩

theorem mem_def {m : SortedMap κ ν} {e : κ × ν} : e ∈ m ↔ e ∈ m.entries := Iff.rfl

@[ext] theorem ext {m m' : SortedMap κ ν} (h : m.entries = m'.entries) : m = m' := by
  cases m; cases m'; cases h; rfl

instance [DecidableEq ν] : DecidableEq (SortedMap κ ν) := fun m m' =>
  decidable_of_iff (m.entries = m'.entries) ⟨ext, congrArg entries⟩

instance [DecidableEq ν] (m : SortedMap κ ν) (e : κ × ν) : Decidable (e ∈ m) :=
  inferInstanceAs (Decidable (e ∈ m.entries))

/-- The map without entries. -/
def empty : SortedMap κ ν := ⟨[], List.Pairwise.nil⟩

/-- Adds `k ↦ v` unless `k` has an entry. -/
def insert (m : SortedMap κ ν) (k : κ) (v : ν) : SortedMap κ ν :=
  ⟨insertEntry k v m.entries, sorted_insertEntry m.sorted⟩

/-- Removes the entry of `k`. -/
def erase (m : SortedMap κ ν) (k : κ) : SortedMap κ ν :=
  ⟨m.entries.filter (·.1 ≠ k), m.sorted.filter _⟩

/-- `m[k] = v`: replaces the entry of `k`. -/
def set (m : SortedMap κ ν) (k : κ) (v : ν) : SortedMap κ ν := (m.erase k).insert k v

/-- The number of entries. -/
def size (m : SortedMap κ ν) : Nat := m.entries.length

/-- The first entry whose key is at least `k`. -/
def lowerBound (m : SortedMap κ ν) (k : κ) : Option (κ × ν) := m.entries.find? (k ≤ ·.1)

/-- The first entry whose key is above `k`. -/
def upperBound (m : SortedMap κ ν) (k : κ) : Option (κ × ν) := m.entries.find? (k < ·.1)

/-- The entry before `lowerBound k`. -/
def prevLowerBound (m : SortedMap κ ν) (k : κ) : Option (κ × ν) :=
  m.entries.reverse.find? (·.1 < k)

/-- The entry before `upperBound k`. -/
def prevUpperBound (m : SortedMap κ ν) (k : κ) : Option (κ × ν) :=
  m.entries.reverse.find? (·.1 ≤ k)

/-- An entry is determined by its key. -/
theorem eq_of_fst_eq {m : SortedMap κ ν} {e e' : κ × ν} (he : e ∈ m) (he' : e' ∈ m)
    (h : e.1 = e'.1) : e = e' :=
  List.inj_on_of_nodup_map (List.pairwise_map.2 (m.sorted.imp ne_of_lt)) he he' h

/-! ## Searches

A search takes the first entry, from the front or from the back, that has a property. -/

theorem find?_spec {α : Type} {R : α → α → Prop} {p : α → Bool} {e : α} {l : List α}
    (hl : l.Pairwise R) (h : l.find? p = some e) :
    e ∈ l ∧ p e ∧ ∀ e' ∈ l, p e' → e' = e ∨ R e e' := by
  obtain ⟨hp, as, bs, rfl, has⟩ := List.find?_eq_some_iff_append.1 h
  refine ⟨by simp, hp, fun e' he' hpe' => ?_⟩
  rcases List.mem_append.1 he' with he' | he'
  · exact absurd hpe' (by simpa using has e' he')
  rcases List.mem_cons.1 he' with rfl | he'
  · exact .inl rfl
  · exact .inr (List.rel_of_pairwise_cons (List.pairwise_append.1 hl).2.1 he')

section Front

variable {m : SortedMap κ ν} {k : κ} {e : κ × ν}

theorem lowerBound_spec (h : m.lowerBound k = some e) :
    e ∈ m ∧ k ≤ e.1 ∧ ∀ e' ∈ m, k ≤ e'.1 → e' = e ∨ e.1 < e'.1 := by
  simpa [mem_def] using find?_spec m.sorted h

theorem upperBound_spec (h : m.upperBound k = some e) :
    e ∈ m ∧ k < e.1 ∧ ∀ e' ∈ m, k < e'.1 → e' = e ∨ e.1 < e'.1 := by
  simpa [mem_def] using find?_spec m.sorted h

theorem prevLowerBound_spec (h : m.prevLowerBound k = some e) :
    e ∈ m ∧ e.1 < k ∧ ∀ e' ∈ m, e'.1 < k → e' = e ∨ e'.1 < e.1 := by
  simpa [mem_def] using find?_spec (List.pairwise_reverse.2 m.sorted) h

theorem prevUpperBound_spec (h : m.prevUpperBound k = some e) :
    e ∈ m ∧ e.1 ≤ k ∧ ∀ e' ∈ m, e'.1 ≤ k → e' = e ∨ e'.1 < e.1 := by
  simpa [mem_def] using find?_spec (List.pairwise_reverse.2 m.sorted) h

theorem lowerBound_eq_none_iff : m.lowerBound k = none ↔ ∀ e ∈ m, e.1 < k := by
  simp [lowerBound, mem_def]

theorem upperBound_eq_none_iff : m.upperBound k = none ↔ ∀ e ∈ m, e.1 ≤ k := by
  simp [upperBound, mem_def]

/-- Some entry from `k` on is below `x` when the first one is. -/
theorem lowerBound_any_lt_iff {x : κ} :
    (m.lowerBound k).any (·.1 < x) ↔ ∃ e ∈ m, k ≤ e.1 ∧ e.1 < x := by
  rw [Option.any_eq_true]
  constructor
  · rintro ⟨e, h, hx⟩
    obtain ⟨he, hk, -⟩ := lowerBound_spec h
    exact ⟨e, he, hk, by simpa using hx⟩
  · rintro ⟨e, he, hk, hx⟩
    cases h : m.lowerBound k with
    | none => exact absurd hk (not_le.2 (lowerBound_eq_none_iff.1 h e he))
    | some y =>
      refine ⟨y, rfl, ?_⟩
      rcases (lowerBound_spec h).2.2 e he hk with rfl | hlt
      · simpa using hx
      · simpa using lt_trans hlt hx

theorem prevLowerBound_eq_none_iff : m.prevLowerBound k = none ↔ ∀ e ∈ m, k ≤ e.1 := by
  simp [prevLowerBound, mem_def]

theorem prevUpperBound_eq_none_iff : m.prevUpperBound k = none ↔ ∀ e ∈ m, k < e.1 := by
  simp [prevUpperBound, mem_def]

end Front

/-! ## Updates -/

theorem mem_insert {m : SortedMap κ ν} {k : κ} {v : ν} {e : κ × ν} :
    e ∈ m.insert k v ↔ e ∈ m ∨ (e = (k, v) ∧ ∀ e' ∈ m, e'.1 ≠ k) := mem_insertEntry m.sorted

theorem mem_insert_of_fresh {m : SortedMap κ ν} {k : κ} {v : ν} {e : κ × ν}
    (h : ∀ e' ∈ m, e'.1 ≠ k) : e ∈ m.insert k v ↔ e ∈ m ∨ e = (k, v) := by
  rw [mem_insert, and_iff_left h]

@[simp] theorem mem_erase {m : SortedMap κ ν} {k : κ} {e : κ × ν} :
    e ∈ m.erase k ↔ e ∈ m ∧ e.1 ≠ k := by simp [erase, mem_def]

@[simp] theorem mem_set {m : SortedMap κ ν} {k : κ} {v : ν} {e : κ × ν} :
    e ∈ m.set k v ↔ (e ∈ m ∧ e.1 ≠ k) ∨ e = (k, v) := by
  rw [set, mem_insert_of_fresh fun _ h => (mem_erase.1 h).2, mem_erase]

@[simp] theorem not_mem_empty {e : κ × ν} : e ∉ (empty : SortedMap κ ν) := List.not_mem_nil

theorem length_insertEntry_le {k : κ} {v : ν} : ∀ {l : List (κ × ν)},
    (insertEntry k v l).length ≤ l.length + 1
  | [] => Nat.le_refl _
  | x :: l => by
    unfold insertEntry
    split
    · exact Nat.le_refl _
    split
    · exact Nat.le_succ _
    · exact Nat.succ_le_succ length_insertEntry_le

theorem size_insert_le {m : SortedMap κ ν} {k : κ} {v : ν} : (m.insert k v).size ≤ m.size + 1 :=
  length_insertEntry_le

theorem size_erase_lt {m : SortedMap κ ν} {e : κ × ν} (he : e ∈ m) :
    (m.erase e.1).size < m.size :=
  List.length_filter_lt_length_iff_exists.2 ⟨e, he, by simp⟩

end SortedMap
