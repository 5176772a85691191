import Mathlib

/-!
# Convex polygons as lists of points

A polygon is the list of its vertices in order, in any space over an ordered field. `Crossing` says
that of any four vertices in order the two diagonals meet; it is what convex position comes to
without a notion of angles, it allows repeated vertices, and it is kept by rotations, by dropping
vertices and by inserting a vertex on an edge.

- `Crossing.fan`: the triangles at the first vertex cover the convex hull.
- `cut_hull`: cutting a polygon with a half-space cuts its convex hull.
- `cut_length`: a cut adds at most one vertex.
-/

namespace Polygons

variable {K E : Type} [Field K] [LinearOrder K] [IsStrictOrderedRing K] [AddCommGroup E] [Module K E]

/-! ## Diagonals -/

section Diagonals

variable {a b c d x y u : E} {l l' s t : List E}

variable (K) in
/-- The segment from `a` to `c` meets that from `b` to `d`. -/
def Meets (a b c d : E) : Prop := ∃ z, z ∈ segment K a c ∧ z ∈ segment K b d

omit [IsStrictOrderedRing K] in
theorem Meets.rotate (h : Meets K a b c d) : Meets K b c d a := by
  obtain ⟨z, hac, hbd⟩ := h
  exact ⟨z, hbd, segment_symm K a c ▸ hac⟩

/-- In a triangle with two points on its sides from `b`, the line from `b` to a point of the third
side meets the segment between the two. -/
theorem segment_meets {z z' q q' p : E} (hz : z ∈ segment K b q) (hz' : z' ∈ segment K b q')
    (hp : p ∈ segment K q q') : ∃ w, w ∈ segment K z z' ∧ w ∈ segment K b p := by
  obtain ⟨s', s, hs', hs, hss, rfl⟩ := hz
  obtain ⟨t', t, ht', ht, htt, rfl⟩ := hz'
  obtain ⟨m', m, hm', hm, hmm, rfl⟩ := hp
  obtain rfl : s' = 1 - s := eq_sub_of_add_eq hss
  obtain rfl : t' = 1 - t := eq_sub_of_add_eq htt
  obtain rfl : m' = 1 - m := eq_sub_of_add_eq hmm
  have htm := mul_nonneg ht hm'
  have hms := mul_nonneg hm hs
  have hD : 0 ≤ t * (1 - m) + m * s := add_nonneg htm hms
  obtain hD | hD := hD.eq_or_lt
  · obtain ⟨h1, h2⟩ := (add_eq_zero_iff_of_nonneg htm hms).1 hD.symm
    obtain ht0 | hm0 := mul_eq_zero.1 h1
    · refine ⟨b, ?_, left_mem_segment K _ _⟩
      rw [ht0]
      simp [right_mem_segment]
    · obtain hm1 | hs0 := mul_eq_zero.1 h2
      · rw [hm1, sub_zero] at hm0
        exact absurd hm0 one_ne_zero
      · refine ⟨b, ?_, left_mem_segment K _ _⟩
        rw [hs0]
        simp [left_mem_segment]
  · obtain ⟨D, hDdef⟩ : ∃ D, D = t * (1 - m) + m * s := ⟨_, rfl⟩
    rw [← hDdef] at hD
    have hne := hD.ne'
    have hfirst : (1 - m * s / D) * s = s * t / D * (1 - m) := by
      field_simp
      rw [hDdef]
      ring
    have hsecond : m * s / D * t = s * t / D * m := by ring
    refine ⟨(1 - m * s / D) • ((1 - s) • b + s • q) + (m * s / D) • ((1 - t) • b + t • q'), ?_, ?_⟩
    · refine ⟨_, _, ?_, div_nonneg hms hD.le, sub_add_cancel _ _, rfl⟩
      rw [sub_nonneg, div_le_one hD, hDdef]
      exact le_add_of_nonneg_left htm
    · refine ⟨1 - s * t / D, s * t / D, ?_, div_nonneg (mul_nonneg hs ht) hD.le,
        sub_add_cancel _ _, ?_⟩
      · have hrest : t * (1 - m) + m * s - s * t = t * (1 - m) * (1 - s) + m * s * (1 - t) := by
          ring
        rw [sub_nonneg, div_le_one hD, hDdef, ← sub_nonneg, hrest]
        exact add_nonneg (mul_nonneg htm hs') (mul_nonneg hms ht')
      · match_scalars <;> linarith only [hfirst, hsecond]

/-- A point of a segment divides it. -/
theorem segment_split {z p q : E} (hz : z ∈ segment K b q) (hp : p ∈ segment K b q) :
    p ∈ segment K b z ∨ p ∈ segment K z q := by
  have hle {b q : E} {s t : K} (hs : 0 ≤ s) (hst : s ≤ t) :
      (1 - s) • b + s • q ∈ segment K b ((1 - t) • b + t • q) := by
    obtain rfl | ht := (hs.trans hst).eq_or_lt
    · obtain rfl : s = 0 := le_antisymm hst hs
      exact right_mem_segment K _ _
    · refine ⟨1 - s / t, s / t, ?_, div_nonneg hs ht.le, sub_add_cancel _ _, ?_⟩
      · rw [sub_nonneg, div_le_one ht]
        exact hst
      · have := ht.ne'
        match_scalars <;> field_simp
        ring
  obtain ⟨t', t, ht', ht, htt, rfl⟩ := hz
  obtain ⟨s', s, hs', hs, hss, rfl⟩ := hp
  obtain rfl : t' = 1 - t := eq_sub_of_add_eq htt
  obtain rfl : s' = 1 - s := eq_sub_of_add_eq hss
  obtain hst | hts := le_total s t
  · exact .inl (hle hs hst)
  · right
    have h := hle (b := q) (q := b) hs' (sub_le_sub_left hts 1)
    rw [segment_symm]
    simpa [add_comm] using h

/-- Meeting is kept on the way between two ends of a diagonal. -/
theorem Meets.between (hx : Meets K a b c x) (hy : Meets K a b c y) (hu : u ∈ segment K x y) :
    Meets K a b c u := by
  obtain ⟨z, hz, hzx⟩ := hx
  obtain ⟨z', hz', hzy⟩ := hy
  obtain ⟨w, hw, hwu⟩ := segment_meets hzx hzy hu
  exact ⟨w, (convex_segment a c).segment_subset hz hz' hw, hwu⟩

variable (K) in
/-- The diagonals of four vertices; nothing for lists of another length. -/
def Quad : List E → Prop
  | [a, b, c, d] => Meets K a b c d
  | _ => True

omit [IsStrictOrderedRing K] in
theorem Quad.rotate (h : Quad K (a :: l)) : Quad K (l ++ [a]) := by
  rcases l with _ | ⟨b, _ | ⟨c, _ | ⟨d, _ | ⟨e, l⟩⟩⟩⟩
  case cons.cons.cons.nil => exact Meets.rotate h
  case cons.cons.cons.cons => cases l <;> trivial
  all_goals trivial

omit [IsStrictOrderedRing K] in
theorem Quad.append_comm (h : Quad K (s ++ t)) : Quad K (t ++ s) := by
  induction s generalizing t with
  | nil => simpa using h
  | cons a s ih =>
    have h' : Quad K (s ++ t ++ [a]) := h.rotate
    rw [List.append_assoc] at h'
    have h'' := ih h'
    rwa [List.append_assoc] at h''

theorem Quad.self (a : E) (l : List E) : Quad K (a :: a :: l) := by
  rcases l with _ | ⟨c, _ | ⟨d, _ | ⟨e, l⟩⟩⟩
  case cons.cons.nil => exact ⟨a, left_mem_segment K _ _, left_mem_segment K _ _⟩
  all_goals trivial

/-- Four vertices of which two neighbours are the same. -/
theorem Quad.twice (s : List E) (a : E) (t : List E) : Quad K (s ++ a :: a :: t) :=
  Quad.append_comm (Quad.self a (t ++ s))

theorem Quad.between_head (hx : Quad K (x :: s)) (hy : Quad K (y :: s))
    (hu : u ∈ segment K x y) : Quad K (u :: s) := by
  rcases s with _ | ⟨b, _ | ⟨c, _ | ⟨d, _ | ⟨e, l⟩⟩⟩⟩
  case cons.cons.cons.nil =>
    exact (Meets.between (Meets.rotate hx) (Meets.rotate hy) hu).rotate.rotate.rotate
  all_goals trivial

end Diagonals

/-! ## Polygons -/

section Crossing

variable {a b c x y u : E} {l l' s t : List E}

variable (K) in
/-- The diagonals of any four vertices meet. -/
def Crossing (l : List E) : Prop := ∀ s, s.Sublist l → Quad K s

omit [IsStrictOrderedRing K] in
theorem crossing_triangle (a b c : E) : Crossing K [a, b, c] := by
  intro s hs
  have hlength := hs.length_le
  rcases s with _ | ⟨_, _ | ⟨_, _ | ⟨_, _ | ⟨_, s⟩⟩⟩⟩
  case cons.cons.cons.cons =>
    simp only [List.length_cons, List.length_nil] at hlength
    omega
  all_goals trivial

omit [IsStrictOrderedRing K] in
theorem crossing_nil : Crossing K ([] : List E) := by
  intro s hs
  rw [List.eq_nil_of_sublist_nil hs]
  trivial

omit [IsStrictOrderedRing K] in
theorem Crossing.sublist (h : Crossing K l) (hs : l'.Sublist l) : Crossing K l' :=
  fun _ hs' => h _ (hs'.trans hs)

omit [IsStrictOrderedRing K] in
theorem Crossing.append_comm (h : Crossing K (s ++ t)) : Crossing K (t ++ s) := by
  intro r hr
  obtain ⟨r1, r2, rfl, h1, h2⟩ := List.sublist_append_iff.1 hr
  exact Quad.append_comm (h _ (h2.append h1))

/-- A vertex can be inserted on the edge from the last to the first. -/
theorem Crossing.insert_head (h : Crossing K (y :: l)) (hx : (y :: l).getLast? = some x)
    (hu : u ∈ segment K x y) : Crossing K (u :: y :: l) := by
  intro r hr
  obtain hr | ⟨r, rfl, hr'⟩ := List.sublist_cons_iff.1 hr
  · exact h r hr
  refine Quad.between_head ?_ ?_ hu
  · obtain ⟨l', hl'⟩ := List.getLast?_eq_some_iff.1 hx
    rw [hl'] at h hr'
    obtain ⟨r1, r2, rfl, h1, h2⟩ := List.sublist_append_iff.1 hr'
    obtain rfl | rfl := List.sublist_singleton.1 h2
    · rw [List.append_nil]
      exact Quad.append_comm (s := r1) (t := [x]) (h _ (h1.append (List.Sublist.refl _)))
    · exact Quad.append_comm (s := r1 ++ [x]) (t := [x]) (by simpa using Quad.twice r1 x [])
  · obtain hr'' | ⟨r, rfl, -⟩ := List.sublist_cons_iff.1 hr'
    · exact h _ (hr''.cons_cons y)
    · exact Quad.self y r

/-- A vertex can be inserted on any other edge. -/
theorem Crossing.insert (h : Crossing K (s ++ x :: y :: t)) (hu : u ∈ segment K x y) :
    Crossing K (s ++ x :: u :: y :: t) := by
  have hrot : Crossing K (y :: (t ++ s ++ [x])) := by
    have := Crossing.append_comm (s := s ++ [x]) (t := y :: t) (by simpa using h)
    simpa using this
  have hlast : (y :: (t ++ s ++ [x])).getLast? = some x :=
    List.getLast?_eq_some_iff.2 ⟨y :: (t ++ s), rfl⟩
  have hins := hrot.insert_head hlast hu
  have := Crossing.append_comm (s := u :: y :: t) (t := s ++ [x]) (by simpa using hins)
  simpa using this

variable (K) in
/-- The triangles at the first vertex of a polygon. -/
def fan (a : E) : List E → Set E
  | b :: c :: l => convexHull K {a, b, c} ∪ fan a (c :: l)
  | _ => ∅

/-- A diagonal that meets every segment from `b` cuts the triangle at `b` off. -/
theorem hull_cut_off {r : Set E} (hr : ∀ x ∈ r, Meets K a b c x) :
    convexHull K (insert b (insert a (insert c r))) ⊆
      convexHull K {a, b, c} ∪ convexHull K (insert a (insert c r)) := by
  intro p hp
  rw [convexHull_insert (Set.insert_nonempty _ _), mem_convexJoin] at hp
  obtain ⟨b', hb', q, hq, hp⟩ := hp
  obtain rfl : b' = b := hb'
  have hmeet : Meets K a b' c q := by
    have hconvex : Convex K {x | Meets K a b' c x} :=
      convex_iff_segment_subset.2 fun x hx y hy u hu => Meets.between hx hy hu
    refine convexHull_min ?_ hconvex hq
    rintro x (rfl | rfl | hx)
    · exact ⟨x, left_mem_segment K _ _, right_mem_segment K _ _⟩
    · exact ⟨x, right_mem_segment K _ _, right_mem_segment K _ _⟩
    · exact hr x hx
  obtain ⟨z, hz, hzq⟩ := hmeet
  have hzl : z ∈ convexHull K {a, b', c} :=
    segment_subset_convexHull (by simp) (by simp) hz
  have hzr : z ∈ convexHull K (insert a (insert c r)) :=
    segment_subset_convexHull (by simp) (by simp) hz
  obtain hp | hp := segment_split hzq hp
  · exact .inl ((convex_convexHull K _).segment_subset (subset_convexHull K _ (by simp)) hzl hp)
  · exact .inr ((convex_convexHull K _).segment_subset hzr hq hp)

omit [IsStrictOrderedRing K] in
theorem fan_subset (l : List E) : fan K a l ⊆ convexHull K {x | x ∈ a :: l} := by
  induction l with
  | nil => exact Set.empty_subset _
  | cons b l ih =>
    cases l with
    | nil => exact Set.empty_subset _
    | cons c l =>
      refine Set.union_subset (convexHull_mono ?_) (ih.trans (convexHull_mono ?_))
      · rintro x (rfl | rfl | rfl) <;> simp
      · intro x hx
        simp only [Set.mem_ofPred_eq, List.mem_cons] at hx ⊢
        tauto

/-- The triangles at the first vertex cover the convex hull. -/
theorem Crossing.fan (h : Crossing K (a :: b :: c :: l)) :
    fan K a (b :: c :: l) = convexHull K {x | x ∈ a :: b :: c :: l} := by
  refine (fan_subset _).antisymm ?_
  induction l generalizing b c with
  | nil =>
    refine fun x hx => .inl ?_
    convert hx using 2
    ext y
    simp
  | cons d l ih =>
    have hrest : Crossing K (a :: c :: d :: l) :=
      h.sublist (List.Sublist.cons_cons a (List.sublist_cons_self b _))
    have hmeets : ∀ x ∈ {x | x ∈ d :: l}, Meets K a b c x := by
      intro x hx
      exact h [a, b, c, x] (((List.singleton_sublist.2 hx).cons_cons c).cons_cons b |>.cons_cons a)
    intro x hx
    have hset : {x | x ∈ a :: b :: c :: d :: l} =
        Insert.insert b (Insert.insert a (Insert.insert c {x | x ∈ d :: l})) := by
      ext y
      simp only [Set.mem_ofPred_eq, List.mem_cons, Set.mem_insert_iff]
      tauto
    have hset' : {x | x ∈ a :: c :: d :: l} =
        Insert.insert a (Insert.insert c {x | x ∈ d :: l}) := by
      ext y
      simp only [Set.mem_ofPred_eq, List.mem_cons, Set.mem_insert_iff]
    rw [hset] at hx
    obtain hx | hx := hull_cut_off hmeets hx
    · exact .inl hx
    · rw [← hset'] at hx
      exact .inr (ih hrest hx)

end Crossing

/-! ## Cutting -/

/-- One pass around a polygon, from the vertex `ref` before the first: where the sides change, the
point between the two is put in, and what is outside is dropped. -/
def cut {V : Type} (inside : V → Bool) (cross : V → V → V) (ref : V) : List V → List V
  | [] => []
  | v :: l =>
    (if inside v then if inside ref then [v] else [cross v ref, v]
    else if inside ref then [cross v ref] else []) ++ cut inside cross v l

/-- The polygon with the points put in. -/
def weave {V : Type} (inside : V → Bool) (cross : V → V → V) (ref : V) : List V → List V
  | [] => []
  | v :: l =>
    (if inside v = inside ref then [v] else [cross v ref, v]) ++ weave inside cross v l

section Weave

variable {V : Type} {inside : V → Bool} {cross : V → V → V} {ref v : V} {l : List V}

/-- A pass over things that have positions. -/
theorem cut_map {E : Type} {pos : V → E} {inside' : E → Bool} {cross' : E → E → E}
    (hi : ∀ v, inside v = inside' (pos v)) (hc : ∀ v r, pos (cross v r) = cross' (pos v) (pos r))
    (ref : V) (l : List V) :
    (cut inside cross ref l).map pos = cut inside' cross' (pos ref) (l.map pos) := by
  induction l generalizing ref with
  | nil => rfl
  | cons v l ih =>
    rw [cut, List.map_append, ih, List.map_cons, cut, ← hi, ← hi, ← hc]
    congr 1
    split <;> split <;> rfl

theorem cut_eq_filter (hc : ∀ v r, inside v ≠ inside r → inside (cross v r) = true) (ref : V)
    (l : List V) : cut inside cross ref l = (weave inside cross ref l).filter inside := by
  induction l generalizing ref with
  | nil => rfl
  | cons v l ih =>
    rw [cut, weave, List.filter_append, ← ih v]
    congr 1
    have hcross := hc v ref
    cases hv : inside v <;> cases hr : inside ref <;> simp_all

theorem mem_weave (hv : v ∈ l) : v ∈ weave inside cross ref l := by
  induction l generalizing ref with
  | nil => cases hv
  | cons w l ih =>
    rw [weave, List.mem_append]
    obtain rfl | hv := List.mem_cons.1 hv
    · left
      split <;> simp
    · exact .inr (ih hv)

theorem weave_getLast? (hl : l.getLast? = some v) :
    (weave inside cross ref l).getLast? = some v := by
  obtain ⟨l', rfl⟩ := List.getLast?_eq_some_iff.1 hl
  clear hl
  induction l' generalizing ref with
  | nil =>
    rw [List.nil_append, weave, weave, List.append_nil]
    split <;> rfl
  | cons w l' ih =>
    rw [List.cons_append, weave, List.getLast?_append, ih, Option.some_or]

theorem length_le_weave (ref : V) (l : List V) : l.length ≤ (weave inside cross ref l).length := by
  induction l generalizing ref with
  | nil => exact le_rfl
  | cons v l ih =>
    have := ih v
    rw [weave, List.length_append, List.length_cons]
    split <;> simp <;> omega

end Weave

section Cut

variable {f : E →ᵃ[K] K} {inside : E → Bool} {cross : E → E → E} {ref u p : E} {l w : List E}

variable (f inside cross) in
/-- The side that a point is on, and the point between two that are on different sides. -/
structure Cuts : Prop where
  side : ∀ v, inside v = true ↔ f v ≤ 0
  between : ∀ v r, inside v ≠ inside r → cross v r ∈ segment K r v ∧ f (cross v r) = 0

/-- No edge from `x` to `y` goes strictly from one side to the other. -/
def Tame (f : E →ᵃ[K] K) (x y : E) : Prop := f x ≤ 0 ∧ f y ≤ 0 ∨ 0 ≤ f x ∧ 0 ≤ f y

theorem crossing_weave (h : Cuts f inside cross) (hl : Crossing K (w ++ ref :: l)) :
    Crossing K (w ++ ref :: weave inside cross ref l) := by
  induction l generalizing w ref with
  | nil => exact hl
  | cons v l ih =>
    rw [weave]
    split
    · have hl' : Crossing K ((w ++ [ref]) ++ v :: l) := by simpa using hl
      simpa using ih hl'
    next hne =>
      have hins := hl.insert (h.between v ref hne).1
      have hins' : Crossing K ((w ++ [ref, cross v ref]) ++ v :: l) := by simpa using hins
      simpa using ih hins'

theorem Crossing.weave (h : Cuts f inside cross) (hl : Crossing K l) (hlast : l.getLast? = some ref) :
    Crossing K (weave inside cross ref l) := by
  cases l with
  | nil => exact hl
  | cons v l =>
    rw [Polygons.weave]
    split
    · exact crossing_weave (w := []) h hl
    next hne =>
      have hins := hl.insert_head hlast (h.between v ref hne).1
      exact crossing_weave (w := [cross v ref]) h hins

omit [IsStrictOrderedRing K] in
theorem tame_weave (h : Cuts f inside cross) (ref : E) (l : List E) :
    List.IsChain (Tame f) (ref :: Polygons.weave inside cross ref l) := by
  induction l generalizing ref with
  | nil => exact List.isChain_singleton _
  | cons v l ih =>
    have hv := h.side v
    have hr := h.side ref
    rw [Polygons.weave]
    split
    next heq =>
      refine List.IsChain.cons_cons ?_ (ih v)
      rw [heq] at hv
      unfold Tame
      by_cases hin : inside ref = true
      · exact .inl ⟨hr.1 hin, hv.1 hin⟩
      · exact .inr ⟨(not_le.1 fun hle => hin (hr.2 hle)).le, (not_le.1 fun hle => hin (hv.2 hle)).le⟩
    next hne =>
      have hzero := (h.between v ref hne).2
      refine List.IsChain.cons_cons ?_ (List.IsChain.cons_cons ?_ (ih v))
      · unfold Tame
        rw [hzero]
        simpa using le_total (f ref) 0
      · unfold Tame
        rw [hzero]
        simpa using le_total (f v) 0

/-- The points of a hull on the near side of a plane that supports it. -/
theorem hull_face {r : Set E} (hr : ∀ x ∈ r, 0 ≤ f x) (hp : p ∈ convexHull K r) (hf : f p ≤ 0) :
    p ∈ convexHull K {x | x ∈ r ∧ f x ≤ 0} := by
  have hsub : convexHull K r ⊆
      {x | 0 ≤ f x ∧ (f x ≤ 0 → x ∈ convexHull K {x | x ∈ r ∧ f x ≤ 0})} := by
    refine convexHull_min (fun x hx => ⟨hr x hx, fun h => subset_convexHull K _ ⟨hx, h⟩⟩) ?_
    rintro x ⟨hx, hx'⟩ y ⟨hy, hy'⟩ a b ha hb hab
    have hcombo : f (a • x + b • y) = a * f x + b * f y := Convex.combo_affine_apply hab
    have hax := mul_nonneg ha hx
    have hby := mul_nonneg hb hy
    refine ⟨hcombo ▸ add_nonneg hax hby, fun hle => ?_⟩
    rw [hcombo] at hle
    obtain ⟨hax, hby⟩ := (add_eq_zero_iff_of_nonneg hax hby).1 (hle.antisymm (add_nonneg hax hby))
    obtain rfl | ha' := ha.eq_or_lt
    · obtain rfl : b = 1 := by rwa [zero_add] at hab
      have hy0 : f y = 0 := by rwa [one_mul] at hby
      simpa using hy' hy0.le
    obtain rfl | hb' := hb.eq_or_lt
    · obtain rfl : a = 1 := by rwa [add_zero] at hab
      have hx0 : f x = 0 := by rwa [one_mul] at hax
      simpa using hx' hx0.le
    have hx0 : f x = 0 := (mul_eq_zero.1 hax).resolve_left ha'.ne'
    have hy0 : f y = 0 := (mul_eq_zero.1 hby).resolve_left hb'.ne'
    exact convex_convexHull K _ (hx' hx0.le) (hy' hy0.le) ha hb hab
  exact (hsub hp).2 hf

/-- In a fan at a point of the plane, what is on the near side is spanned by what is there. -/
theorem fan_side (hu : f u = 0) (hl : l.IsChain (Tame f)) (hp : p ∈ fan K u l) (hf : f p ≤ 0) :
    p ∈ convexHull K {x | x ∈ u :: l ∧ f x ≤ 0} := by
  induction l with
  | nil => cases hp
  | cons b l ih =>
    cases l with
    | nil => cases hp
    | cons c l =>
      obtain ⟨hbc, hrest⟩ := List.isChain_cons_cons.1 hl
      obtain hp | hp := hp
      · obtain ⟨hb, hc⟩ | ⟨hb, hc⟩ := hbc
        · refine convexHull_mono ?_ hp
          rintro x (rfl | rfl | rfl)
          · exact ⟨by simp, hu.le⟩
          · exact ⟨by simp, hb⟩
          · exact ⟨by simp, hc⟩
        · refine convexHull_mono ?_ (hull_face (f := f) ?_ hp hf)
          · rintro x ⟨rfl | rfl | rfl, hx⟩
            · exact ⟨by simp, hx⟩
            · exact ⟨by simp, hx⟩
            · exact ⟨by simp, hx⟩
          · rintro x (rfl | rfl | rfl)
            · exact hu.ge
            · exact hb
            · exact hc
      · refine convexHull_mono ?_ (ih hrest hp)
        rintro x ⟨hx, hx'⟩
        refine ⟨?_, hx'⟩
        simp only [List.mem_cons] at hx ⊢
        tauto

omit [IsStrictOrderedRing K] in
/-- A chain without a point on the plane stays on one side of it. -/
theorem one_side (hl : List.IsChain (Tame f) (ref :: l)) (hne : ∀ x ∈ ref :: l, f x ≠ 0) :
    (∀ x ∈ ref :: l, f x ≤ 0) ∨ ∀ x ∈ ref :: l, 0 < f x := by
  induction l generalizing ref with
  | nil =>
    have h0 := hne ref (by simp)
    obtain h | h := lt_or_gt_of_ne h0
    · exact .inl (by simpa using h.le)
    · exact .inr (by simpa using h)
  | cons v l ih =>
    obtain ⟨htame, hrest⟩ := List.isChain_cons_cons.1 hl
    have h0 := hne ref (by simp)
    have hv := hne v (by simp)
    obtain h | h := ih hrest fun x hx => hne x (List.mem_cons_of_mem _ hx)
    · left
      rintro x (_ | ⟨_, hx⟩)
      · obtain hle | hle := htame
        · exact hle.1
        · exact absurd (le_antisymm (h v (by simp)) hle.2) hv
      · exact h x hx
    · right
      rintro x (_ | ⟨_, hx⟩)
      · obtain hle | hle := htame
        · exact absurd hle.2 (not_le.2 (h v (by simp)))
        · exact lt_of_le_of_ne hle.1 h0.symm
      · exact h x hx

omit [IsStrictOrderedRing K] in
theorem weave_subset (h : Cuts f inside cross) (href : ref ∈ convexHull K {x | x ∈ w})
    (hl : ∀ x ∈ l, x ∈ w) :
    ∀ x ∈ Polygons.weave inside cross ref l, x ∈ convexHull K {x | x ∈ w} := by
  induction l generalizing ref with
  | nil => nofun
  | cons v l ih =>
    have hv : v ∈ convexHull K {x | x ∈ w} := subset_convexHull K _ (hl v (by simp))
    have hrest := ih hv fun x hx => hl x (List.mem_cons_of_mem _ hx)
    intro x hx
    rw [Polygons.weave, List.mem_append] at hx
    obtain hx | hx := hx
    · split at hx
      · obtain rfl := List.mem_singleton.1 hx
        exact hv
      next hne =>
        obtain rfl | hx := List.mem_cons.1 hx
        · exact (convex_convexHull K _).segment_subset href hv (h.between v ref hne).1
        · obtain rfl := List.mem_singleton.1 hx
          exact hv
    · exact hrest x hx

omit [IsStrictOrderedRing K] in
/-- A chain around a polygon, from another vertex. -/
theorem isChain_rotate {s t : List E} (h : List.IsChain (Tame f) (ref :: (s ++ u :: t)))
    (hlast : (s ++ u :: t).getLast? = some ref) : List.IsChain (Tame f) (t ++ s) := by
  obtain ⟨hhead, hrest⟩ := List.isChain_cons.1 h
  obtain ⟨hs, ht, -⟩ := List.isChain_append.1 hrest
  refine (List.isChain_cons.1 ht).2.append hs ?_
  intro x hx y hy
  have hx' : x = ref := by
    rw [List.getLast?_append, List.getLast?_cons, hx] at hlast
    simpa using hlast
  subst hx'
  refine hhead y ?_
  rw [List.head?_append, hy]
  rfl

/-- A polygon with a vertex on the line, as the fan of this vertex. -/
theorem hull_near_of_zero (hc : Crossing K w) (hchain : List.IsChain (Tame f) (ref :: w))
    (hlast : w.getLast? = some ref) (hlength : 3 ≤ w.length) (hu : u ∈ w) (hu0 : f u = 0)
    (hp : p ∈ convexHull K {x | x ∈ w}) (hf : f p ≤ 0) :
    p ∈ convexHull K {x | x ∈ w ∧ f x ≤ 0} := by
  obtain ⟨s, t, rfl⟩ := List.append_of_mem hu
  have hrot : Crossing K (u :: (t ++ s)) := hc.append_comm
  obtain ⟨b, c, r, hr⟩ : ∃ b c r, t ++ s = b :: c :: r := by
    have hlong : 2 ≤ (t ++ s).length := by
      simp only [List.length_append, List.length_cons] at hlength ⊢
      omega
    rcases hts : t ++ s with _ | ⟨b, _ | ⟨c, r⟩⟩
    · simp [hts] at hlong
    · simp [hts] at hlong
    · exact ⟨b, c, r, rfl⟩
  have hmem (x : E) : x ∈ u :: (t ++ s) ↔ x ∈ s ++ u :: t := by
    simp only [List.mem_cons, List.mem_append]
    tauto
  have hfan : p ∈ fan K u (t ++ s) := by
    rw [hr] at hrot ⊢
    rw [hrot.fan, ← hr]
    simpa only [hmem] using hp
  simpa only [hmem] using fan_side hu0 (isChain_rotate hchain hlast) hfan hf

/-- A polygon without a vertex on the line is on one side of it. -/
theorem hull_near_of_ne (hchain : List.IsChain (Tame f) (ref :: w))
    (hne : ∀ x ∈ ref :: w, f x ≠ 0) (hp : p ∈ convexHull K {x | x ∈ w}) (hf : f p ≤ 0) :
    p ∈ convexHull K {x | x ∈ w ∧ f x ≤ 0} := by
  obtain hside | hside := one_side hchain hne
  · exact convexHull_mono (fun x hx => And.intro hx (hside x (List.mem_cons_of_mem _ hx))) hp
  · have hpos : convexHull K {x | x ∈ w} ⊆ {x | 0 < f x} :=
      convexHull_min (fun x hx => hside x (List.mem_cons_of_mem _ hx))
        ((convex_Ioi (0 : K)).affine_preimage f)
    exact absurd hf (not_le.2 (hpos hp))

/-- **Cutting.** The hull of what a pass leaves is the part of the hull on the near side. -/
theorem cut_hull (h : Cuts f inside cross) (hl : Crossing K l) (hlast : l.getLast? = some ref)
    (hlength : 3 ≤ l.length) :
    convexHull K {x | x ∈ cut inside cross ref l} = convexHull K {x | x ∈ l} ∩ {x | f x ≤ 0} := by
  have hcross (v r : E) (hne : inside v ≠ inside r) : inside (cross v r) = true :=
    (h.side _).2 (h.between v r hne).2.le
  have href : ref ∈ l := List.mem_of_getLast? hlast
  have hweave : ∀ x ∈ Polygons.weave inside cross ref l, x ∈ convexHull K {x | x ∈ l} :=
    weave_subset h (subset_convexHull K _ href) fun x hx => hx
  rw [cut_eq_filter hcross]
  have hset : {x | x ∈ (Polygons.weave inside cross ref l).filter inside} =
      {x | x ∈ Polygons.weave inside cross ref l ∧ f x ≤ 0} := by
    ext x
    simp only [Set.mem_ofPred_eq, List.mem_filter, h.side]
  rw [hset]
  refine Set.Subset.antisymm ?_ ?_
  · refine convexHull_min (fun x hx => ⟨hweave x hx.1, hx.2⟩) ?_
    refine (convex_convexHull K _).inter ?_
    exact (convex_Iic (0 : K)).affine_preimage f
  · rintro p ⟨hp, hf⟩
    have hp' : p ∈ convexHull K {x | x ∈ Polygons.weave inside cross ref l} :=
      convexHull_mono (fun x hx => mem_weave hx) hp
    have hchain := tame_weave h ref l
    by_cases hzero : ∃ u ∈ Polygons.weave inside cross ref l, f u = 0
    · obtain ⟨u, hu, hu0⟩ := hzero
      exact hull_near_of_zero (hl.weave h hlast) hchain (weave_getLast? hlast)
        (hlength.trans (length_le_weave ref l)) hu hu0 hp' hf
    · refine hull_near_of_ne hchain (fun x hx h0 => hzero ⟨x, ?_, h0⟩) hp' hf
      obtain rfl | hx := List.mem_cons.1 hx
      · exact mem_weave href
      · exact hx

/-- A cut polygon is one again. -/
theorem Crossing.cut (h : Cuts f inside cross) (hl : Crossing K l) (hlast : l.getLast? = some ref) :
    Crossing K (cut inside cross ref l) := by
  have hcross (v r : E) (hne : inside v ≠ inside r) : inside (cross v r) = true :=
    (h.side _).2 (h.between v r hne).2.le
  rw [cut_eq_filter hcross]
  exact (hl.weave h hlast).sublist List.filter_sublist

end Cut

/-! ## The number of vertices -/

section Length

variable {V : Type} {inside : V → Bool} {cross : V → V → V} {ref : V} {l : List V} {b : Bool}
  {bs : List Bool}

/-- How often the sides change. -/
def changes (b : Bool) : List Bool → ℕ
  | [] => 0
  | c :: bs => (if c = b then 0 else 1) + changes c bs

/-- `n` alternating sides, from the one opposite to `b` on. -/
def alternating (b : Bool) : ℕ → List Bool
  | 0 => []
  | n + 1 => (!b) :: alternating (!b) n

theorem cut_length_eq (ref : V) (l : List V) : (cut inside cross ref l).length =
    (l.filter inside).length + changes (inside ref) (l.map inside) := by
  induction l generalizing ref with
  | nil => rfl
  | cons v l ih =>
    rw [cut, List.length_append, ih v, List.map_cons, changes, List.filter_cons]
    cases hv : inside v <;> cases hr : inside ref <;> simp <;> omega

theorem alternating_sublist (b : Bool) (bs : List Bool) :
    (alternating b (changes b bs)).Sublist bs := by
  induction bs generalizing b with
  | nil => exact List.Sublist.refl _
  | cons c bs ih =>
    rw [changes]
    split
    next h =>
      subst h
      rw [Nat.zero_add]
      exact (ih c).cons c
    next h =>
      have hc : c = !b := by cases b <;> cases c <;> simp_all
      subst hc
      rw [Nat.add_comm]
      exact (ih (!b)).cons_cons (!b)

theorem alternating_le {n m : ℕ} (h : n ≤ m) (b : Bool) :
    (alternating b n).Sublist (alternating b m) := by
  induction n generalizing m b with
  | zero => exact List.nil_sublist _
  | succ n ih =>
    obtain ⟨m, rfl⟩ := Nat.exists_eq_add_of_le' (show 1 ≤ m by omega)
    exact (ih (Nat.le_of_succ_le_succ h) (!b)).cons_cons (!b)

/-- Around a polygon, the sides change an even number of times. -/
theorem changes_even (b : Bool) (bs : List Bool) (hlast : (b :: bs).getLast? = some b) :
    changes b bs % 2 = 0 := by
  have hparity (b c : Bool) (bs : List Bool) (hlast : (b :: bs).getLast? = some c) :
      changes b bs % 2 = if b = c then 0 else 1 := by
    induction bs generalizing b with
    | nil =>
      obtain rfl : b = c := by simpa using hlast
      simp [changes]
    | cons d bs ih =>
      have hd := ih d (by rwa [List.getLast?_cons_cons] at hlast)
      rw [changes]
      cases b <;> cases c <;> cases d <;> simp at hd ⊢ <;> omega
  rw [hparity b b bs hlast, if_pos rfl]

theorem eq_of_changes (h : changes b bs = 0) : ∀ c ∈ bs, c = b := by
  induction bs generalizing b with
  | nil => nofun
  | cons d bs ih =>
    rw [changes] at h
    split at h
    next hd =>
      subst hd
      intro c hc
      obtain rfl | hc := List.mem_cons.1 hc
      · rfl
      · exact ih (by omega) c hc
    next => omega

/-- Four changes around a list show up as four alternating elements. -/
theorem changes_le (hlast : bs.getLast? = some b)
    (h : ¬ [!b, b, !b, b].Sublist bs) : changes b bs ≤ 2 := by
  by_contra hlt
  have hsub : [!b, b, !b].Sublist bs := by
    have := (alternating_le (show 3 ≤ changes b bs by omega) b).trans (alternating_sublist b bs)
    simpa [alternating] using this
  obtain ⟨bs', rfl⟩ := List.getLast?_eq_some_iff.1 hlast
  obtain ⟨s, t, hst, hs, ht⟩ := List.sublist_append_iff.1 hsub
  obtain rfl | rfl := List.sublist_singleton.1 ht
  · rw [List.append_nil] at hst
    subst hst
    exact h (hs.append (List.Sublist.refl [b]))
  · have := congrArg List.getLast? hst
    simp at this

end Length

section Cut

variable {f : E →ᵃ[K] K} {inside : E → Bool} {cross : E → E → E} {ref : E} {l : List E}

/-- The diagonals of four vertices on alternating sides do not meet. -/
theorem not_alternating (h : Cuts f inside cross) (hl : Crossing K l) (b : Bool) :
    ¬ [!b, b, !b, b].Sublist (l.map inside) := by
  intro hsub
  obtain ⟨s, hs, hmap⟩ := List.sublist_map_iff.1 hsub
  rcases s with _ | ⟨v, _ | ⟨w, _ | ⟨x, _ | ⟨y, _ | ⟨z, s⟩⟩⟩⟩⟩ <;> simp at hmap
  obtain ⟨z, hvx, hwy⟩ : Meets K v w x y := hl _ hs
  obtain ⟨hv, hw, hx, hy⟩ := hmap
  have hnear {a c : E} (ha : inside a = true) (hc : inside c = true) (hz : z ∈ segment K a c) :
      f z ≤ 0 :=
    ((convex_Iic (0 : K)).affine_preimage f).segment_subset ((h.side a).1 ha) ((h.side c).1 hc) hz
  have hfar {a c : E} (ha : inside a = false) (hc : inside c = false) (hz : z ∈ segment K a c) :
      0 < f z := by
    have hpos {a : E} (ha : inside a = false) : 0 < f a := by
      rw [← not_le, ← h.side, ha]
      simp
    exact ((convex_Ioi (0 : K)).affine_preimage f).segment_subset (hpos ha) (hpos hc) hz
  cases b
  · exact absurd (hnear (by simpa using hv.symm) (by simpa using hx.symm) hvx)
      (not_le.2 (hfar (by simpa using hw.symm) (by simpa using hy.symm) hwy))
  · exact absurd (hnear (by simpa using hw.symm) (by simpa using hy.symm) hwy)
      (not_le.2 (hfar (by simpa using hv.symm) (by simpa using hx.symm) hvx))

/-- **The number of vertices.** A cut adds at most one, and leaves three or none. -/
theorem cut_length (h : Cuts f inside cross) (hl : Crossing K l) (hlast : l.getLast? = some ref)
    (hlength : 3 ≤ l.length) :
    (cut inside cross ref l).length ≤ l.length + 1 ∧
      (cut inside cross ref l = [] ∨ 3 ≤ (cut inside cross ref l).length) := by
  have hlast' : (l.map inside).getLast? = some (inside ref) := by
    rw [List.getLast?_map, hlast]
    rfl
  have htwo := changes_le hlast' (not_alternating h hl _)
  have heven := changes_even (inside ref) (l.map inside)
    (by rw [List.getLast?_cons, hlast']; rfl)
  have heq : (cut inside cross ref l).length = _ := cut_length_eq ref l
  have hle := List.length_filter_le inside l
  obtain hzero | hzero := Nat.eq_zero_or_pos (changes (inside ref) (l.map inside))
  · have hside : ∀ v ∈ l, inside v = inside ref := fun v hv =>
      eq_of_changes hzero _ (List.mem_map_of_mem hv)
    rw [heq, hzero]
    refine ⟨by omega, ?_⟩
    cases hr : inside ref with
    | true =>
      have hall : l.filter inside = l :=
        List.filter_eq_self.2 fun v hv => (hside v hv).trans hr
      rw [hall]
      exact .inr hlength
    | false =>
      have hnone : l.filter inside = [] :=
        List.filter_eq_nil_iff.2 fun v hv => by rw [hside v hv, hr]; simp
      rw [← List.length_eq_zero_iff, heq, hzero, hnone]
      exact .inl rfl
  · have hother : (!inside ref) ∈ l.map inside := by
      refine (alternating_sublist (inside ref) (l.map inside)).subset ?_
      obtain ⟨n, hn⟩ := Nat.exists_eq_add_of_le' hzero
      rw [hn]
      exact List.mem_cons_self
    obtain ⟨v, hv, hvside⟩ := List.mem_map.1 hother
    have href := List.mem_of_getLast? hlast
    have hboth : (∃ v ∈ l, inside v = true) ∧ ∃ v ∈ l, inside v = false := by
      cases hr : inside ref <;> rw [hr] at hvside
      · exact ⟨⟨v, hv, hvside⟩, ref, href, hr⟩
      · exact ⟨⟨ref, href, hr⟩, v, hv, hvside⟩
    obtain ⟨⟨x, hx, hxin⟩, y, hy, hyout⟩ := hboth
    have hpos : 0 < (l.filter inside).length :=
      List.length_pos_of_mem (List.mem_filter.2 ⟨hx, hxin⟩)
    have hlt : (l.filter inside).length < l.length :=
      List.length_filter_lt_length_iff_exists.2 ⟨y, hy, by simp [hyout]⟩
    rw [heq]
    exact ⟨by omega, .inr (by omega)⟩

end Cut

end Polygons
