import Mathlib

/-!
# Labelled blocks

Half-open blocks of positions, each with a label.

- `Separated`: non-empty and one behind the other; `Separated.unique`, `Separated.sum_size`.
- `Labels l x a`: a block of `l` with label `a` contains `x`.
- `coalesce` merges neighbours of one label: `labels_coalesce`, `separated_coalesce`,
  `coalesced_coalesce`.
- `Coalesced.run`: positions in a row that all have one label are in one block.
- A block between two lists (`Separated.insert`), two neighbours made one (`separated_join`,
  `labels_join`), and a range cut out (`separated_cut`, `labels_cut`).
-/

structure Block (α : Type) where
  start : Nat
  size : Nat
  label : α
  deriving DecidableEq, Repr

namespace Block

variable {α : Type} {b b' c : Block α} {l : List (Block α)} {x : Nat} {a : α}

def stop (b : Block α) : Nat := b.start + b.size

def Contains (b : Block α) (x : Nat) : Prop := b.start ≤ x ∧ x < b.stop

instance : Decidable (b.Contains x) := inferInstanceAs (Decidable (_ ∧ _))

/-- Non-empty blocks, each behind the one before it. -/
structure Separated (l : List (Block α)) : Prop where
  nonempty : ∀ b ∈ l, 0 < b.size
  ordered : l.Pairwise (fun b b' => b.stop ≤ b'.start)

/-- The position is in a block with the label. -/
def Labels (l : List (Block α)) (x : Nat) (a : α) : Prop := ∃ b ∈ l, b.Contains x ∧ b.label = a

/-- No block ends where another one of the same label starts. -/
def Coalesced (l : List (Block α)) : Prop :=
  ∀ b ∈ l, ∀ b' ∈ l, b.stop = b'.start → b.label ≠ b'.label

theorem contains_start (h : 0 < b.size) : b.Contains b.start := by
  unfold Contains stop
  omega

theorem labels_cons : Labels (b :: l) x a ↔ (b.Contains x ∧ b.label = a) ∨ Labels l x a := by
  simp [Labels]

/-! ## Separated blocks -/

theorem Separated.nil : Separated ([] : List (Block α)) := ⟨nofun, .nil⟩

theorem Separated.tail (h : Separated (b :: l)) : Separated l :=
  ⟨fun b' hb' => h.nonempty b' (.tail _ hb'), h.ordered.of_cons⟩

theorem Separated.sublist {l' : List (Block α)} (h : Separated l) (hl : l'.Sublist l) :
    Separated l' :=
  ⟨fun b hb => h.nonempty b (hl.subset hb), h.ordered.sublist hl⟩

theorem Separated.head_le (h : Separated (b :: l)) (hb' : b' ∈ l) : b.stop ≤ b'.start :=
  List.rel_of_pairwise_cons h.ordered hb'

theorem separated_cons :
    Separated (b :: l) ↔ 0 < b.size ∧ (∀ b' ∈ l, b.stop ≤ b'.start) ∧ Separated l := by
  constructor
  · exact fun h => ⟨h.nonempty b (.head _), fun _ => h.head_le, h.tail⟩
  · rintro ⟨hb, hle, hl⟩
    refine ⟨fun b' hb' => ?_, List.Pairwise.cons hle hl.ordered⟩
    rcases List.mem_cons.1 hb' with rfl | hb'
    · exact hb
    · exact hl.nonempty b' hb'

/-- Two of the blocks are one or do not overlap. -/
theorem Separated.cases (h : Separated l) (hb : b ∈ l) (hb' : b' ∈ l) :
    b = b' ∨ b.stop ≤ b'.start ∨ b'.stop ≤ b.start := by
  induction l with
  | nil => cases hb
  | cons c l ih =>
    rcases List.mem_cons.1 hb with rfl | hl <;> rcases List.mem_cons.1 hb' with rfl | hl'
    · exact .inl rfl
    · exact .inr (.inl (h.head_le hl'))
    · exact .inr (.inr (h.head_le hl))
    · exact ih h.tail hl hl'

theorem Separated.unique (h : Separated l) (hb : b ∈ l) (hb' : b' ∈ l) (hx : b.Contains x)
    (hx' : b'.Contains x) : b = b' := by
  unfold Contains at hx hx'
  rcases h.cases hb hb' with h | h | h
  · exact h
  · omega
  · omega

/-- Blocks in the order of their starts that share no position are separated. -/
theorem Separated.of_disjoint (hpos : ∀ b ∈ l, 0 < b.size)
    (hord : l.Pairwise (fun b b' => b.start < b'.start))
    (hdis : ∀ b ∈ l, ∀ b' ∈ l, ∀ x, b.Contains x → b'.Contains x → b = b') : Separated l := by
  refine ⟨hpos, hord.imp_of_mem fun {b b'} hb hb' hlt => ?_⟩
  by_contra hle
  have hin : b.Contains b'.start := ⟨hlt.le, not_le.1 hle⟩
  have heq := hdis b hb b' hb' _ hin (contains_start (hpos b' hb'))
  rw [heq] at hlt
  exact absurd hlt (lt_irrefl _)

/-! ## Positions -/

/-- The positions of the blocks. -/
def positions : List (Block α) → Finset Nat
  | [] => ∅
  | b :: l => Finset.Ico b.start b.stop ∪ positions l

theorem mem_positions : x ∈ positions l ↔ ∃ b ∈ l, b.Contains x := by
  induction l with
  | nil => simp [positions]
  | cons b l ih => simp [positions, ih, Contains]

/-- The sizes of separated blocks sum up to the number of their positions. -/
theorem Separated.sum_size (h : Separated l) : (l.map size).sum = (positions l).card := by
  induction l with
  | nil => rfl
  | cons b l ih =>
    have hdis : Disjoint (Finset.Ico b.start b.stop) (positions l) := by
      rw [Finset.disjoint_left]
      intro x hx hx'
      obtain ⟨b', hb', hin⟩ := mem_positions.1 hx'
      have hle := h.head_le hb'
      have hlt := (Finset.mem_Ico.1 hx).2
      exact absurd hin.1 (by omega)
    rw [List.map_cons, List.sum_cons, positions, Finset.card_union_of_disjoint hdis, Nat.card_Ico,
      ih h.tail, stop, Nat.add_sub_cancel_left]

/-- Two lists of blocks that cover `n` positions in a row have their sizes sum up to `n`. -/
theorem Separated.sum_size_add {l' : List (Block α)} (h : Separated l) (h' : Separated l')
    (hdis : ∀ x, (∃ b ∈ l, b.Contains x) → ¬ ∃ b ∈ l', b.Contains x) (lo n : Nat)
    (hcover : ∀ x, ((∃ b ∈ l, b.Contains x) ∨ ∃ b ∈ l', b.Contains x) ↔ lo ≤ x ∧ x < lo + n) :
    (l.map size).sum + (l'.map size).sum = n := by
  have hunion : positions l ∪ positions l' = Finset.Ico lo (lo + n) := by
    ext x
    rw [Finset.mem_union, mem_positions, mem_positions, hcover, Finset.mem_Ico]
  have hd : Disjoint (positions l) (positions l') := by
    rw [Finset.disjoint_left]
    intro x hx hx'
    exact hdis x (mem_positions.1 hx) (mem_positions.1 hx')
  rw [h.sum_size, h'.sum_size, ← Finset.card_union_of_disjoint hd, hunion, Nat.card_Ico,
    Nat.add_sub_cancel_left]

/-! ## Merging neighbours -/

section

variable [DecidableEq α]

/-- Merges each block with the next one while that starts at its end with the same label. -/
def coalesce : List (Block α) → List (Block α)
  | [] => []
  | [b] => [b]
  | b :: b' :: l =>
    if b.stop = b'.start ∧ b.label = b'.label then coalesce ({ b with size := b.size + b'.size } :: l)
    else b :: coalesce (b' :: l)
  termination_by l => l.length

theorem coalesce_merge (h : b.stop = b'.start ∧ b.label = b'.label) :
    coalesce (b :: b' :: l) = coalesce ({ b with size := b.size + b'.size } :: l) := by
  rw [coalesce.eq_def]
  simp only [if_pos h]

theorem coalesce_keep (h : ¬ (b.stop = b'.start ∧ b.label = b'.label)) :
    coalesce (b :: b' :: l) = b :: coalesce (b' :: l) := by
  rw [coalesce.eq_def]
  simp only [if_neg h]

theorem labels_coalesce (l : List (Block α)) : Labels (coalesce l) x a ↔ Labels l x a := by
  fun_induction coalesce l with
  | case1 => rfl
  | case2 => rfl
  | case3 b b' l h ih =>
    rw [ih, labels_cons, labels_cons, labels_cons, ← or_assoc]
    refine or_congr_left ?_
    obtain ⟨hstop, hlabel⟩ := h
    rw [← hlabel, ← or_and_right]
    refine and_congr_left fun _ => ?_
    unfold Contains stop at *
    simp only
    omega
  | case4 b b' l h ih => rw [labels_cons, ih, ← labels_cons]

/-- A merged block starts where one of the blocks does, and the first where the first does. -/
theorem coalesce_cons (b : Block α) (l : List (Block α)) :
    ∃ n t, coalesce (b :: l) = { b with size := n } :: t := by
  generalize hl : b :: l = l'
  fun_induction coalesce l' generalizing b l with
  | case1 => cases hl
  | case2 c => cases hl; exact ⟨c.size, [], rfl⟩
  | case3 c c' l' h ih =>
    cases hl
    obtain ⟨n, t, heq⟩ := ih _ _ rfl
    exact ⟨n, t, heq⟩
  | case4 c c' l' h ih => cases hl; exact ⟨c.size, _, rfl⟩

theorem start_mem_coalesce (hb : b ∈ coalesce l) : ∃ b' ∈ l, b'.start = b.start := by
  fun_induction coalesce l with
  | case1 => cases hb
  | case2 => exact ⟨b, hb, rfl⟩
  | case3 c c' l h ih =>
    obtain ⟨b', hb', heq⟩ := ih hb
    rcases List.mem_cons.1 hb' with rfl | hb'
    · exact ⟨c, .head _, heq⟩
    · exact ⟨b', .tail _ (.tail _ hb'), heq⟩
  | case4 c c' l h ih =>
    rcases List.mem_cons.1 hb with rfl | hb
    · exact ⟨b, .head _, rfl⟩
    · obtain ⟨b', hb', heq⟩ := ih hb
      exact ⟨b', .tail _ hb', heq⟩

theorem separated_coalesce (h : Separated l) : Separated (coalesce l) := by
  fun_induction coalesce l with
  | case1 => exact h
  | case2 => exact h
  | case3 b b' l hm ih =>
    refine ih (separated_cons.2 ⟨?_, fun c hc => ?_, h.tail.tail⟩)
    · exact Nat.lt_of_lt_of_le (h.nonempty b (.head _)) (Nat.le_add_right _ _)
    · have hle := h.tail.head_le hc
      have hstop := hm.1
      unfold stop at *
      simp only
      omega
  | case4 b b' l hm ih =>
    refine separated_cons.2 ⟨h.nonempty b (.head _), fun c hc => ?_, ih h.tail⟩
    obtain ⟨c', hc', heq⟩ := start_mem_coalesce hc
    rw [← heq]
    exact h.head_le hc'

theorem coalesced_coalesce (h : Separated l) : Coalesced (coalesce l) := by
  fun_induction coalesce l with
  | case1 => exact nofun
  | case2 b =>
    intro c hc c' hc' hstop
    have hpos := h.nonempty b (.head _)
    rw [List.mem_singleton.1 hc, List.mem_singleton.1 hc'] at hstop
    unfold stop at hstop
    omega
  | case3 b b' l hm ih =>
    refine ih (separated_cons.2 ⟨?_, fun c hc => ?_, h.tail.tail⟩)
    · exact Nat.lt_of_lt_of_le (h.nonempty b (.head _)) (Nat.le_add_right _ _)
    · have hle := h.tail.head_le hc
      have hstop := hm.1
      unfold stop at *
      simp only
      omega
  | case4 b b' l hm ih =>
    have hs := separated_coalesce h.tail
    have hpos := h.nonempty b (.head _)
    have hle : b.stop ≤ b'.start := h.head_le (.head _)
    obtain ⟨n, t, heq⟩ := coalesce_cons b' l
    intro c hc c' hc' hstop
    -- a block behind `b` that starts at its end is the one behind it
    rcases List.mem_cons.1 hc with rfl | hl <;> rcases List.mem_cons.1 hc' with rfl | hl'
    · unfold stop at hstop
      omega
    · rw [heq] at hl' hs
      rcases List.mem_cons.1 hl' with rfl | ht
      · exact fun hlabel => hm ⟨hstop, hlabel⟩
      · have hhead := hs.head_le ht
        have hn := hs.nonempty _ (.head _)
        unfold stop at *
        simp only at hhead hn
        omega
    · obtain ⟨d, hd, hdc⟩ := start_mem_coalesce hl
      have hbd := h.head_le hd
      have hcpos := hs.nonempty c hl
      unfold stop at *
      omega
    · exact ih h.tail c hl c' hl' hstop

end

/-- Positions in a row with one label are in one block. -/
theorem Coalesced.run (hc : Coalesced l) (hs : Separated l) (n : Nat) (hn : 0 < n)
    (h : ∀ i < n, Labels l (x + i) a) : ∃ b ∈ l, b.label = a ∧ b.start ≤ x ∧ x + n ≤ b.stop := by
  induction n with
  | zero => exact absurd hn (lt_irrefl _)
  | succ n ih =>
    obtain ⟨b', hb', hin, hlabel'⟩ := h n (Nat.lt_succ_self n)
    rcases Nat.eq_zero_or_pos n with rfl | hpos
    · exact ⟨b', hb', hlabel', hin.1, hin.2⟩
    obtain ⟨b, hb, hlabel, hle, hstop⟩ := ih hpos fun i hi => h i (Nat.lt_succ_of_lt hi)
    refine ⟨b, hb, hlabel, hle, ?_⟩
    -- otherwise the block of the last position starts at the end of `b`
    by_contra hlt
    have hbpos := hs.nonempty b hb
    obtain ⟨hin1, hin2⟩ := hin
    rcases hs.cases hb hb' with rfl | hle' | hle'
    · omega
    · exact hc b hb b' hb' (by omega) (hlabel.trans hlabel'.symm)
    · unfold stop at *
      omega

/-! ## Inserting and cutting -/

section

variable {l' : List (Block α)} {lo hi : Nat}

theorem labels_append : Labels (l ++ l') x a ↔ Labels l x a ∨ Labels l' x a := by
  simp [Labels, or_and_right, exists_or]

theorem separated_append :
    Separated (l ++ l') ↔ Separated l ∧ Separated l' ∧ ∀ b ∈ l, ∀ b' ∈ l', b.stop ≤ b'.start := by
  constructor
  · exact fun h => ⟨h.sublist (List.sublist_append_left ..),
      h.sublist (List.sublist_append_right ..), (List.pairwise_append.1 h.ordered).2.2⟩
  · rintro ⟨h, h', hle⟩
    refine ⟨fun b hb => ?_, List.pairwise_append.2 ⟨h.ordered, h'.ordered, hle⟩⟩
    rcases List.mem_append.1 hb with hb | hb
    · exact h.nonempty b hb
    · exact h'.nonempty b hb

/-- A new block between the blocks before it and those behind it. -/
theorem Separated.insert (h : Separated (l ++ l')) (hc : 0 < c.size)
    (hbefore : ∀ b ∈ l, b.stop ≤ c.start) (hafter : ∀ b ∈ l', c.stop ≤ b.start) :
    Separated (l ++ c :: l') := by
  obtain ⟨hl, hl', hle⟩ := separated_append.1 h
  refine separated_append.2 ⟨hl, separated_cons.2 ⟨hc, hafter, hl'⟩, fun b hb b' hb' => ?_⟩
  rcases List.mem_cons.1 hb' with rfl | hb'
  · exact hbefore b hb
  · exact hle b hb b' hb'

theorem labels_insert :
    Labels (l ++ c :: l') x a ↔ Labels (l ++ l') x a ∨ (c.Contains x ∧ c.label = a) := by
  rw [labels_append, labels_cons, labels_append]
  tauto

/-- The block and the one that starts at its end, as one. -/
def join (b b' : Block α) : Block α := { b with size := b.size + b'.size }

theorem stop_join : (b.join b').stop = b.stop + b'.size := (Nat.add_assoc ..).symm

theorem separated_join (h : Separated (l ++ b :: b' :: l')) (hstop : b.stop = b'.start) :
    Separated (l ++ b.join b' :: l') := by
  obtain ⟨hl, hr, hle⟩ := separated_append.1 h
  refine Separated.insert (separated_append.2 ⟨hl, hr.tail.tail, fun d hd d' hd' =>
    hle d hd d' (.tail _ (.tail _ hd'))⟩) ?_ (fun d hd => hle d hd b (.head _)) fun d hd => ?_
  · exact Nat.lt_of_lt_of_le (hr.nonempty b (.head _)) (Nat.le_add_right _ _)
  · have hd := hr.tail.head_le hd
    unfold stop at *
    simp only [join]
    omega

theorem labels_join (hstop : b.stop = b'.start) (hlabel : b.label = b'.label) :
    Labels (l ++ b.join b' :: l') x a ↔ Labels (l ++ b :: b' :: l') x a := by
  rw [labels_append, labels_append, labels_cons, labels_cons, labels_cons, ← hlabel]
  refine or_congr_right ?_
  rw [← or_assoc, ← or_and_right]
  refine or_congr_left ?_
  refine and_congr_left fun _ => ?_
  unfold Contains stop at *
  simp only [join]
  omega

/-- What is left of a block outside `[lo, hi)`. -/
def cut (lo hi : Nat) (b : Block α) : List (Block α) :=
  if b.stop ≤ lo ∨ hi ≤ b.start then [b]
  else (if b.start < lo then [{ b with size := lo - b.start }] else []) ++
    if hi < b.stop then [⟨hi, b.stop - hi, b.label⟩] else []

theorem mem_cut (h : c ∈ cut lo hi b) (hb : 0 < b.size) :
    0 < c.size ∧ b.start ≤ c.start ∧ c.stop ≤ b.stop ∧ c.label = b.label := by
  unfold cut at h
  split at h
  · rw [List.mem_singleton.1 h]
    exact ⟨hb, Nat.le_refl _, Nat.le_refl _, rfl⟩
  · rcases List.mem_append.1 h with h | h <;> split at h
    · rw [List.mem_singleton.1 h]
      unfold stop at *
      grind
    · cases h
    · rw [List.mem_singleton.1 h]
      unfold stop at *
      grind
    · cases h

theorem contains_cut :
    (∃ c ∈ cut lo hi b, c.Contains x) ↔ b.Contains x ∧ ¬ (lo ≤ x ∧ x < hi) := by
  unfold cut Contains
  split
  · simp only [List.mem_singleton, exists_eq_left]
    omega
  · unfold stop at *
    simp only [List.mem_append, or_and_right, exists_or]
    split <;> split <;> simp only [List.mem_singleton, exists_eq_left, List.not_mem_nil, false_and,
      exists_false] <;> grind

theorem separated_cut_one (hb : 0 < b.size) (hlo : lo ≤ hi) : Separated (cut lo hi b) := by
  refine ⟨fun c hc => (mem_cut hc hb).1, ?_⟩
  unfold cut
  split
  · exact List.pairwise_singleton _ _
  · split <;> split
    · refine List.Pairwise.cons (fun c hc => ?_) (List.pairwise_singleton _ _)
      rw [List.mem_singleton.1 hc]
      unfold stop at *
      simp only
      omega
    · exact List.pairwise_singleton _ _
    · exact List.pairwise_singleton _ _
    · exact .nil

theorem separated_cut (h : Separated l) (hlo : lo ≤ hi) : Separated (l.flatMap (cut lo hi)) := by
  induction l with
  | nil => exact h
  | cons b l ih =>
    have hb := h.nonempty b (.head _)
    rw [List.flatMap_cons]
    refine separated_append.2 ⟨separated_cut_one hb hlo, ih h.tail, fun c hc c' hc' => ?_⟩
    obtain ⟨b', hb', hin⟩ := List.mem_flatMap.1 hc'
    have hle := h.head_le hb'
    have hleft := (mem_cut hc hb).2.2.1
    have hright := (mem_cut hin (h.nonempty b' (.tail _ hb'))).2.1
    omega

theorem labels_cut (h : Separated l) :
    Labels (l.flatMap (cut lo hi)) x a ↔ Labels l x a ∧ ¬ (lo ≤ x ∧ x < hi) := by
  constructor
  · rintro ⟨c, hc, hx, ha⟩
    obtain ⟨b, hb, hin⟩ := List.mem_flatMap.1 hc
    obtain ⟨hbx, hout⟩ := contains_cut.1 ⟨c, hin, hx⟩
    exact ⟨⟨b, hb, hbx, (mem_cut hin (h.nonempty b hb)).2.2.2.symm.trans ha⟩, hout⟩
  · rintro ⟨⟨b, hb, hbx, ha⟩, hout⟩
    obtain ⟨c, hc, hx⟩ := contains_cut.2 ⟨hbx, hout⟩
    exact ⟨c, List.mem_flatMap.2 ⟨b, hb, hc⟩, hx,
      (mem_cut hc (h.nonempty b hb)).2.2.2.trans ha⟩

end

end Block
