import Mikage.Video.Rasterizer

/-!
# Shared edges

Two triangles on both sides of a common edge. A pixel inside one of them is shaded by it alone. On
the common edge one triangle is to be biased and the other one not. `IsRightSideOrFlatBottomEdge`
compares the vertex that lies left of the edge with a quotient rounded towards zero, so that it
misses a vertex less than one unit away from an edge that descends to the right (`Short`). A
coordinate beyond `0xFFF0` makes the bounding box wrap, and nothing is drawn.
-/

namespace Mikage.Pica.Rasterizer

variable {mode : CullMode} {t s t1 t2 : Triangle Vec2} {a b c d p : Vec2}

/-- The pixel is among those that the triangle shades. -/
def Shades (mode : CullMode) (t : Triangle Vec2) (p : Vec2) : Prop :=
  ∃ l w, processTriangle mode t = some l ∧ (p, w) ∈ l

def Rotation (t : Triangle Vec2) (a b c : Vec2) : Prop :=
  t = ⟨a, b, c⟩ ∨ t = ⟨b, c, a⟩ ∨ t = ⟨c, a, b⟩

/-- The vertices of the triangle, in any of the six orders. -/
def HasVertices (t : Triangle Vec2) (a b c : Vec2) : Prop := Rotation t a b c ∨ Rotation t a c b

/-- The point is the centre of a pixel. -/
def AtCentre (p : Vec2) : Prop := Centred p.x ∧ Centred p.y

/-- All coordinates of the triangle can be rounded up to whole pixels. -/
def BoxInRange (a b c : Vec2) : Prop := InRange a.x b.x c.x ∧ InRange a.y b.y c.y

/-- The triangle covers a point as far as its edge from `line1` to `line2` is concerned. -/
def EdgeCovers (vtx line1 line2 p : Vec2) : Prop :=
  0 ≤ bias vtx line1 line2 + signedArea line1 line2 p

def Covers (a b c p : Vec2) : Prop := EdgeCovers a b c p ∧ EdgeCovers b c a p ∧ EdgeCovers c a b p

/-! ## The order of the vertices -/

theorem Rotation.area (h : Rotation t a b c) : area t = signedArea a b c := by
  have hbca := signedArea_rotate a b c
  have hcab := signedArea_rotate b c a
  obtain rfl | rfl | rfl := h <;> simp only [Rasterizer.area] <;> omega

theorem HasVertices.reversed (h : HasVertices t a b c) : HasVertices (reversed t) a b c := by
  obtain (rfl | rfl | rfl) | (rfl | rfl | rfl) := h <;>
    simp [HasVertices, Rotation, Rasterizer.reversed]

theorem HasVertices.rotation (h : HasVertices t a b c) (ht : 0 ≤ area t)
    (hpos : 0 < signedArea a b c) : Rotation t a b c := by
  obtain h | h := h
  · exact h
  · have harea := h.area
    rw [signedArea_swap] at harea
    omega

/-- What is rasterized goes around the same way whatever the order of the vertices. -/
theorem HasVertices.arranged (h : HasVertices t a b c) (hpos : 0 < signedArea a b c)
    (hs : arranged mode t = some s) : Rotation s a b c := by
  have hrev := area_reversed t
  unfold Rasterizer.arranged kept at hs
  split_ifs at hs <;> cases hs
  · exact h.reversed.rotation (by omega) hpos
  · exact h.rotation (by omega) hpos
  · exact h.reversed.rotation (by omega) hpos
  · exact h.rotation (by omega) hpos

theorem Rotation.noOverflow (h : Rotation s a b c) : NoOverflow s ↔ NoOverflow ⟨a, b, c⟩ := by
  obtain rfl | rfl | rfl := h <;> unfold NoOverflow <;> tauto

/-! ## Which pixels a triangle shades -/

/-- A covered point is inside the bounding box of the vertices. -/
theorem between_of_areas {u v w x y z q : ℤ} (hu : 0 ≤ u) (hv : 0 ≤ v) (hw : 0 ≤ w)
    (hsum : 0 < u + v + w) (h : u * x + v * y + w * z = (u + v + w) * q) :
    min (min x y) z ≤ q ∧ q ≤ max (max x y) z := by
  constructor
  · by_contra hlt
    have hx : q + 1 ≤ x := by omega
    have hy : q + 1 ≤ y := by omega
    have hz : q + 1 ≤ z := by omega
    nlinarith [mul_le_mul_of_nonneg_left hx hu, mul_le_mul_of_nonneg_left hy hv,
      mul_le_mul_of_nonneg_left hz hw]
  · by_contra hlt
    have hx : x ≤ q - 1 := by omega
    have hy : y ≤ q - 1 := by omega
    have hz : z ≤ q - 1 := by omega
    nlinarith [mul_le_mul_of_nonneg_left hx hu, mul_le_mul_of_nonneg_left hy hv,
      mul_le_mul_of_nonneg_left hz hw]

theorem areas_nonneg (h : Covers a b c p) :
    0 ≤ signedArea b c p ∧ 0 ≤ signedArea c a p ∧ 0 ≤ signedArea a b p := by
  obtain ⟨h0, h1, h2⟩ := h
  unfold EdgeCovers at h0 h1 h2
  have hb0 := bias_cases a b c
  have hb1 := bias_cases b c a
  have hb2 := bias_cases c a b
  omega

theorem scanned_of_covers (h : Covers a b c p) (hpos : 0 < signedArea a b c) (hp : AtCentre p) :
    Scanned ⟨a, b, c⟩ p ↔ BoxInRange a b c := by
  obtain ⟨h0, h1, h2⟩ := areas_nonneg h
  have hsum := areas_sum ⟨a, b, c⟩ p
  obtain ⟨hx, hy⟩ := areas_barycentric ⟨a, b, c⟩ p
  simp only [areas, Weights.sum, area] at hsum hx hy
  have hx' := between_of_areas h0 h1 h2 (by omega) hx
  have hy' := between_of_areas h0 h1 h2 (by omega) hy
  simp only [int] at hx' hy'
  simp only [Scanned, BoxInRange]
  rw [scanned_iff (by omega) (by omega) hp.1, scanned_iff (by omega) (by omega) hp.2]

theorem Rotation.scanned (h : Rotation s a b c) : Scanned s p ↔ Scanned ⟨a, b, c⟩ p := by
  have hbox (u v w : Fix12P4) : boxMin v w u = boxMin u v w ∧ boxMax v w u = boxMax u v w := by
    simp only [boxMin_eq, boxMax_eq]
    omega
  obtain rfl | rfl | rfl := h
  · rfl
  · simp only [Scanned, hbox a.x b.x c.x, hbox a.y b.y c.y]
  · simp only [Scanned, hbox b.x c.x a.x, hbox b.y c.y a.y, hbox a.x b.x c.x, hbox a.y b.y c.y]

theorem weights_covers {w : Weights} (hb : biases ⟨a, b, c⟩ = some w) :
    (weights ⟨a, b, c⟩ w p).covers = true ↔ Covers a b c p := by
  obtain ⟨-, rfl⟩ := biases_eq_some.1 hb
  rw [Weights.covers_iff]
  rfl

theorem Rotation.covers {w : Weights} (h : Rotation s a b c) (hb : biases s = some w) :
    (weights s w p).covers = true ↔ Covers a b c p := by
  obtain rfl | rfl | rfl := h
  · exact weights_covers hb
  · rw [weights_covers hb]
    unfold Covers
    tauto
  · rw [weights_covers hb]
    unfold Covers
    tauto

section Shades

variable (h : HasVertices t a b c) (hpos : 0 < signedArea a b c) (hs : arranged mode t = some s)
include h hpos hs

theorem processTriangle_isSome :
    (processTriangle mode t).isSome = true ↔ NoOverflow ⟨a, b, c⟩ := by
  rw [← (h.arranged hpos hs).noOverflow, processTriangle, hs, Option.elim_some,
    Option.isSome_iff_exists]
  constructor
  · rintro ⟨l, hl⟩
    obtain ⟨w, hw⟩ := biases_of_coverage hl
    exact (biases_eq_some.1 hw).1
  · intro hfits
    exact coverage_of_biases (biases_eq_some.2 ⟨hfits, rfl⟩)

theorem shades_iff (hfits : NoOverflow ⟨a, b, c⟩) (hp : AtCentre p) :
    Shades mode t p ↔ BoxInRange a b c ∧ Covers a b c p := by
  have hrot := h.arranged hpos hs
  obtain ⟨l, hl⟩ := coverage_of_biases (biases_eq_some.2 ⟨hrot.noOverflow.2 hfits, rfl⟩)
  obtain ⟨w, hw⟩ := biases_of_coverage hl
  have hprocess : processTriangle mode t = some l := by rw [processTriangle, hs]; exact hl
  have hmem (v : Weights) := mem_coverage (p := p) (w := v) hw hl
  constructor
  · rintro ⟨l', v, hl', hv⟩
    obtain rfl : l = l' := Option.some.inj (hprocess.symm.trans hl')
    obtain ⟨hscan, rfl, hcovers⟩ := (hmem v).1 hv
    have hcovers := (hrot.covers hw).1 hcovers
    exact ⟨(scanned_of_covers hcovers hpos hp).1 (hrot.scanned.1 hscan), hcovers⟩
  · rintro ⟨hrange, hcovers⟩
    have hscan := hrot.scanned.2 ((scanned_of_covers hcovers hpos hp).2 hrange)
    exact ⟨l, _, hprocess, (hmem _).2 ⟨hscan, rfl, (hrot.covers hw).2 hcovers⟩⟩

end Shades

/-! ## The side of an edge -/

/-- The vertex is left of an edge with ascending y, and less than one unit away from it where the
quotient is rounded down: the bound that the code computes is the vertex itself. -/
def Short (vtx line1 line2 : Vec2) : Prop :=
  int line1.y < int line2.y ∧ int vtx.x - int line1.x =
    ((int line2.x - int line1.x) * (int vtx.y - int line1.y)).tdiv (int line2.y - int line1.y)

theorem le_tdiv {n m k : ℤ} (hm : 0 < m) (h : m * k < n) : k ≤ n.tdiv m := by
  have hdiv := Int.mul_tdiv_add_tmod n m
  have hmod := Int.tmod_lt_of_pos n hm
  by_contra hlt
  have hle : n.tdiv m ≤ k - 1 := by omega
  nlinarith [mul_le_mul_of_nonneg_left hle hm.le]

theorem tdiv_le {n m k : ℤ} (hm : m < 0) (h : m * k < n) : n.tdiv m ≤ k := by
  have hneg := le_tdiv (n := n) (m := -m) (k := -k) (by omega) (by linarith)
  rw [Int.tdiv_neg] at hneg
  omega

theorem int_inj {v w : Fix12P4} : int v = int w ↔ v = w := by
  unfold int
  rw [Int.ofNat_inj, BitVec.toNat_inj]

/-- When the edge of a triangle is unbiased. -/
theorem bias_eq_zero_iff (hfits : Fits c a b) (hpos : 0 < signedArea a b c) :
    bias c a b = 0 ↔ int b.y < int a.y ∨ (int a.y = int b.y ∧ int a.x < int b.x) ∨ Short c a b := by
  obtain ⟨side, hside⟩ := isRightSide_of_fits hfits
  obtain ⟨-, hvalue⟩ := isRightSide_eq_some.1 hside
  have hbias : bias c a b = 0 ↔ side = false := by
    unfold bias
    rw [hside]
    cases side <;> simp
  rw [hbias, hvalue]
  unfold signedArea at hpos
  obtain hy | hy | hy := lt_trichotomy (int a.y) (int b.y)
  · have hle := le_tdiv (n := (int b.x - int a.x) * (int c.y - int a.y)) (m := int b.y - int a.y)
      (k := int c.x - int a.x) (by omega) (by linarith)
    rw [if_neg fun h => hy.ne (int_inj.2 h), decide_eq_false_iff_not]
    unfold Short
    omega
  · rw [if_pos (int_inj.1 hy), decide_eq_false_iff_not, not_lt]
    have hpos' : 0 < (int b.x - int a.x) * (int c.y - int a.y) := by
      rw [hy] at hpos ⊢
      linarith
    unfold Short
    constructor
    · intro h
      by_contra hx
      nlinarith [mul_nonneg (show 0 ≤ int a.x - int b.x by omega) (show 0 ≤ int c.y - int a.y by omega)]
    · rintro (h | ⟨-, h⟩ | h)
      · omega
      · by_contra hlt
        nlinarith [mul_nonneg (show 0 ≤ int b.x - int a.x by omega)
          (show 0 ≤ int a.y - int c.y by omega)]
      · omega
  · have hle := tdiv_le (n := (int b.x - int a.x) * (int c.y - int a.y)) (m := int b.y - int a.y)
      (k := int c.x - int a.x) (by omega) (by linarith)
    rw [if_neg fun h => hy.ne' (int_inj.2 h), decide_eq_false_iff_not]
    omega

/-- Of the two triangles at an edge exactly one is unbiased, unless the one to the left has its
third vertex too near. -/
theorem one_unbiased_iff (hc : Fits c a b) (hd : Fits d b a) (hposc : 0 < signedArea a b c)
    (hposd : 0 < signedArea b a d) :
    Xor (bias c a b = 0) (bias d b a = 0) ↔ ¬ Short c a b ∧ ¬ Short d b a := by
  rw [bias_eq_zero_iff hc hposc, bias_eq_zero_iff hd hposd]
  have hne : int a.y = int b.y → int a.x ≠ int b.x := by
    intro hy hx
    unfold signedArea at hposc
    rw [hx, hy] at hposc
    simp at hposc
  have hshort : Short c a b → int a.y < int b.y := fun h => h.1
  have hshort' : Short d b a → int b.y < int a.y := fun h => h.1
  rw [xor_iff_iff_not]
  obtain hy | hy | hy := lt_trichotomy (int a.y) (int b.y)
  · have hno : ¬ Short d b a := fun h => absurd (hshort' h) (by omega)
    have hfirst : ¬ (int b.y < int a.y ∨ int a.y = int b.y ∧ int a.x < int b.x) := by omega
    simp only [← or_assoc, hfirst, hy, hno, false_or, true_or, not_true_eq_false,
      not_false_eq_true, and_true, iff_false]
  · have hno : ¬ Short c a b := fun h => absurd (hshort h) (by omega)
    have hno' : ¬ Short d b a := fun h => absurd (hshort' h) (by omega)
    have hx := hne hy
    simp only [hno, hno', or_false, not_false_eq_true, and_true, iff_true]
    omega
  · have hno : ¬ Short c a b := fun h => absurd (hshort h) (by omega)
    have hsecond : ¬ (int a.y < int b.y ∨ int b.y = int a.y ∧ int b.x < int a.x) := by omega
    simp only [← or_assoc, hsecond, hy, hno, false_or, true_or, true_iff, not_false_eq_true,
      true_and]

/-! ## The common edge -/

/-- The point is inside the triangle, which goes around the positive way. -/
def Inside (a b c p : Vec2) : Prop :=
  0 < signedArea a b p ∧ 0 < signedArea b c p ∧ 0 < signedArea c a p

/-- The point is on the edge or one of its ends. -/
def OnSegment (a b p : Vec2) : Prop :=
  signedArea a b p = 0 ∧
    min (int a.x) (int b.x) ≤ int p.x ∧ int p.x ≤ max (int a.x) (int b.x) ∧
    min (int a.y) (int b.y) ≤ int p.y ∧ int p.y ≤ max (int a.y) (int b.y)

theorem OnSegment.symm (h : OnSegment a b p) : OnSegment b a p := by
  obtain ⟨h, hx, hx', hy, hy'⟩ := h
  have hswap : signedArea b a p = -signedArea a b p := by
    simp only [signedArea]
    ring
  exact ⟨by omega, by omega, by omega, by omega, by omega⟩

theorem signedArea_swap' (a b c : Vec2) : signedArea b a c = -signedArea a b c := by
  simp only [signedArea]
  ring

/-- How far along the edge the point is, times the squared length of the edge. -/
def along (a b p : Vec2) : ℤ :=
  (int b.x - int a.x) * (int p.x - int a.x) + (int b.y - int a.y) * (int p.y - int a.y)

theorem along_mul (h : signedArea a b p = 0) (c : Vec2) :
    along a b b * signedArea c a p = along a b p * signedArea a b c := by
  unfold signedArea at *
  unfold along
  linear_combination (-((int b.x - int a.x) * (int c.x - int a.x) +
    (int b.y - int a.y) * (int c.y - int a.y))) * h

theorem mul_between {x y z : ℤ} (h : min x y ≤ z) (h' : z ≤ max x y) :
    0 ≤ (y - x) * (z - x) ∧ ((y - x) * (z - x) = 0 → y = x ∨ z = x) := by
  refine ⟨?_, fun h0 => ?_⟩
  · obtain hle | hle := le_total x y
    · exact mul_nonneg (by omega) (by omega)
    · exact mul_nonneg_of_nonpos_of_nonpos (by omega) (by omega)
  · obtain h0 | h0 := mul_eq_zero.1 h0 <;> omega

/-- Off the start of the edge, the point has gone some way. -/
theorem OnSegment.along_pos (h : OnSegment a b p) (harea : signedArea a b c ≠ 0) (hne : p ≠ a) :
    0 < along a b p := by
  obtain ⟨h0, hx, hx', hy, hy'⟩ := h
  obtain ⟨hu, hu0⟩ := mul_between hx hx'
  obtain ⟨hv, hv0⟩ := mul_between hy hy'
  refine lt_of_le_of_ne (add_nonneg hu hv) fun hzero => hne ?_
  unfold along at hzero
  have hu1 := hu0 (by omega)
  have hv1 := hv0 (by omega)
  unfold signedArea at h0 harea
  refine Vec2.ext (int_inj.1 ?_) (int_inj.1 ?_)
  · obtain hbx | hpx := hu1
    · rw [hbx, sub_self, zero_mul, zero_sub, neg_eq_zero, mul_eq_zero] at h0
      obtain hby | hpx := h0
      · rw [hbx, hby] at harea
        simp at harea
      · omega
    · exact hpx
  · obtain hby | hpy := hv1
    · rw [hby, sub_self, zero_mul, sub_zero, mul_eq_zero] at h0
      obtain hbx | hpy := h0
      · rw [hby, hbx] at harea
        simp at harea
      · omega
    · exact hpy

/-- Off the start of the edge, the point spans an area with the edge that ends there. -/
theorem OnSegment.area_pos (h : OnSegment a b p) (hpos : 0 < signedArea a b c) (hne : p ≠ a) :
    0 < signedArea c a p := by
  have hlength : 0 ≤ along a b b := add_nonneg (mul_self_nonneg _) (mul_self_nonneg _)
  have hprod : 0 < along a b b * signedArea c a p := by
    rw [along_mul h.1 c]
    exact mul_pos (h.along_pos hpos.ne' hne) hpos
  by_contra hle
  have := mul_nonpos_of_nonneg_of_nonpos hlength (not_lt.1 hle)
  omega

/-- Off its end, it does so with the edge that starts there. -/
theorem OnSegment.area_pos' (h : OnSegment a b p) (hpos : 0 < signedArea a b c) (hne : p ≠ b) :
    0 < signedArea b c p := by
  have hneg : signedArea b a c < 0 := by
    rw [signedArea_swap']
    omega
  have hlength : 0 ≤ along b a a := add_nonneg (mul_self_nonneg _) (mul_self_nonneg _)
  have hprod : along b a a * signedArea c b p < 0 := by
    rw [along_mul h.symm.1 c]
    exact mul_neg_of_pos_of_neg (h.symm.along_pos hneg.ne hne) hneg
  rw [signedArea_swap']
  by_contra hle
  have := mul_nonneg hlength (show 0 ≤ signedArea c b p by omega)
  omega

/-- Every pixel of the two triangles and their common edge is shaded by exactly one of them. -/
structure Watertight (mode : CullMode) (t1 t2 : Triangle Vec2) (a b c d : Vec2) : Prop where
  defined : (processTriangle mode t1).isSome = true ∧ (processTriangle mode t2).isSome = true
  once : ∀ p, AtCentre p → Inside a b c p ∨ Inside b a d p ∨ OnSegment a b p →
    Xor (Shades mode t1 p) (Shades mode t2 p)

/-- Exactly one triangle can be drawn and has neither of two edges biased. -/
def OneUnbiased (range1 range2 : Prop) (bias1 bias1' bias2 bias2' : ℤ) : Prop :=
  Xor (range1 ∧ bias1 = 0 ∧ bias1' = 0) (range2 ∧ bias2 = 0 ∧ bias2' = 0)

/-- What is asked of the coordinates of the two triangles `a b c` and `b a d`. -/
structure EdgeExact (a b c d : Vec2) : Prop where
  fits : NoOverflow ⟨a, b, c⟩ ∧ NoOverflow ⟨b, a, d⟩
  /-- A triangle with a pixel inside does not reach beyond `0xFFF0`. -/
  range : (∀ p, AtCentre p → Inside a b c p → BoxInRange a b c) ∧
    ∀ p, AtCentre p → Inside b a d p → BoxInRange b a d
  /-- If there is a pixel on the open edge, no third vertex is too near; where one of the two
  triangles cannot be drawn, the edge of the other is unbiased. -/
  edge : ∀ p, AtCentre p → OnSegment a b p → p ≠ a → p ≠ b →
    BoxInRange a b c ∧ BoxInRange b a d ∧ ¬ Short c a b ∧ ¬ Short d b a ∨
    BoxInRange a b c ∧ ¬ BoxInRange b a d ∧ bias c a b = 0 ∨
    ¬ BoxInRange a b c ∧ BoxInRange b a d ∧ bias d b a = 0
  /-- An end of the edge that is a pixel belongs to one triangle by both of its edges there. -/
  start : AtCentre a → OneUnbiased (BoxInRange a b c) (BoxInRange b a d)
    (bias c a b) (bias b c a) (bias d b a) (bias b a d)
  finish : AtCentre b → OneUnbiased (BoxInRange a b c) (BoxInRange b a d)
    (bias c a b) (bias a b c) (bias d b a) (bias a d b)

section Main

theorem edgeCovers_of_pos (h : 0 < signedArea a b p) (c : Vec2) : EdgeCovers c a b p := by
  unfold EdgeCovers
  obtain hb | hb := bias_cases c a b <;> omega

theorem edgeCovers_of_zero (h : signedArea a b p = 0) : EdgeCovers c a b p ↔ bias c a b = 0 := by
  unfold EdgeCovers
  obtain hb | hb := bias_cases c a b <;> omega

theorem not_edgeCovers_of_neg (h : signedArea a b p < 0) : ¬ EdgeCovers c a b p := by
  unfold EdgeCovers
  obtain hb | hb := bias_cases c a b <;> omega

theorem signedArea_self (a b : Vec2) : signedArea a b a = 0 ∧ signedArea a b b = 0 := by
  simp only [signedArea]
  constructor <;> ring

/-- A point inside is covered, and not by the triangle across an edge. -/
theorem covers_of_inside (h : Inside a b c p) (d : Vec2) : Covers a b c p ∧ ¬ Covers b a d p := by
  obtain ⟨hab, hbc, hca⟩ := h
  refine ⟨⟨edgeCovers_of_pos hbc a, edgeCovers_of_pos hca b, edgeCovers_of_pos hab c⟩, fun h => ?_⟩
  have hneg : signedArea b a p < 0 := by
    rw [signedArea_swap']
    omega
  exact not_edgeCovers_of_neg hneg h.2.2

theorem covers_of_onSegment (h : OnSegment a b p) (hpos : 0 < signedArea a b c) (ha : p ≠ a)
    (hb : p ≠ b) : Covers a b c p ↔ bias c a b = 0 := by
  have hca := h.area_pos hpos ha
  have hbc := h.area_pos' hpos hb
  rw [← edgeCovers_of_zero h.1]
  exact ⟨fun h => h.2.2, fun h => ⟨edgeCovers_of_pos hbc a, edgeCovers_of_pos hca b, h⟩⟩

/-- At the end of two edges, the triangle covers the point if both are unbiased. -/
theorem covers_start (hpos : 0 < signedArea a b c) :
    Covers a b c a ↔ bias c a b = 0 ∧ bias b c a = 0 := by
  have hbca := signedArea_rotate a b c
  unfold Covers
  rw [edgeCovers_of_zero (signedArea_self a b).1, edgeCovers_of_zero (signedArea_self c a).2]
  have h0 := edgeCovers_of_pos (a := b) (b := c) (p := a) (by omega) a
  tauto

theorem Covers.rotate : Covers b c a p ↔ Covers a b c p := by
  unfold Covers
  tauto

theorem covers_finish (hpos : 0 < signedArea a b c) :
    Covers a b c b ↔ bias c a b = 0 ∧ bias a b c = 0 := by
  have hbca := signedArea_rotate a b c
  rw [← Covers.rotate, covers_start (by omega), and_comm]

theorem xor_range_iff {r1 r2 z1 z2 s1 s2 : Prop} (h : Xor z1 z2 ↔ ¬ s1 ∧ ¬ s2) :
    Xor (r1 ∧ z1) (r2 ∧ z2) ↔
      r1 ∧ r2 ∧ ¬ s1 ∧ ¬ s2 ∨ r1 ∧ ¬ r2 ∧ z1 ∨ ¬ r1 ∧ r2 ∧ z2 := by
  rw [xor_iff_iff_not] at h ⊢
  tauto

/-- One of the triangles is in range and covers the pixel, the other is not. -/
def CoveredOnce (a b c d p : Vec2) : Prop :=
  Xor (BoxInRange a b c ∧ Covers a b c p) (BoxInRange b a d ∧ Covers b a d p)

theorem CoveredOnce.symm_iff : CoveredOnce a b c d p ↔ CoveredOnce b a d c p := by
  rw [CoveredOnce, CoveredOnce, xor_comm]

/-- A pixel inside of a triangle is left to this triangle. -/
theorem coveredOnce_inside (h : Inside a b c p) : CoveredOnce a b c d p ↔ BoxInRange a b c := by
  obtain ⟨hyes, hno⟩ := covers_of_inside h d
  rw [CoveredOnce, xor_iff_iff_not]
  tauto

theorem coveredOnce_start (hc : 0 < signedArea a b c) (hd : 0 < signedArea b a d) :
    CoveredOnce a b c d a ↔ OneUnbiased (BoxInRange a b c) (BoxInRange b a d)
      (bias c a b) (bias b c a) (bias d b a) (bias b a d) := by
  rw [CoveredOnce, covers_start hc, covers_finish hd, OneUnbiased]

theorem coveredOnce_finish (hc : 0 < signedArea a b c) (hd : 0 < signedArea b a d) :
    CoveredOnce a b c d b ↔ OneUnbiased (BoxInRange a b c) (BoxInRange b a d)
      (bias c a b) (bias a b c) (bias d b a) (bias a d b) := by
  rw [CoveredOnce, covers_finish hc, covers_start hd, OneUnbiased]

/-- A pixel between the ends of the edge, where the fill rule decides. -/
theorem coveredOnce_edge (f : NoOverflow ⟨a, b, c⟩) (f' : NoOverflow ⟨b, a, d⟩)
    (hc : 0 < signedArea a b c) (hd : 0 < signedArea b a d) (hon : OnSegment a b p)
    (ha : p ≠ a) (hb : p ≠ b) :
    CoveredOnce a b c d p ↔
      BoxInRange a b c ∧ BoxInRange b a d ∧ ¬ Short c a b ∧ ¬ Short d b a ∨
      BoxInRange a b c ∧ ¬ BoxInRange b a d ∧ bias c a b = 0 ∨
      ¬ BoxInRange a b c ∧ BoxInRange b a d ∧ bias d b a = 0 := by
  rw [CoveredOnce, covers_of_onSegment hon hc ha hb, covers_of_onSegment hon.symm hd hb ha]
  exact xor_range_iff (one_unbiased_iff f.2.2 f'.2.2 hc hd)

theorem onSegment_ends (a b : Vec2) : OnSegment a b a ∧ OnSegment a b b := by
  unfold OnSegment
  obtain ⟨ha, hb⟩ := signedArea_self a b
  exact ⟨⟨ha, by omega, by omega, by omega, by omega⟩, ⟨hb, by omega, by omega, by omega, by omega⟩⟩

/-- Where no test overflows, the pixels are covered once if and only if the coordinates are as
asked. -/
theorem coveredOnce_iff (f : NoOverflow ⟨a, b, c⟩) (f' : NoOverflow ⟨b, a, d⟩)
    (hc : 0 < signedArea a b c) (hd : 0 < signedArea b a d) :
    (∀ p, AtCentre p → Inside a b c p ∨ Inside b a d p ∨ OnSegment a b p →
      CoveredOnce a b c d p) ↔ EdgeExact a b c d := by
  constructor
  · intro h
    refine ⟨⟨f, f'⟩, ⟨fun p hp hin => ?_, fun p hp hin => ?_⟩, fun p hp hon ha hb => ?_,
      fun ha => ?_, fun hb => ?_⟩
    · exact (coveredOnce_inside hin).1 (h p hp (.inl hin))
    · exact (coveredOnce_inside hin).1 (CoveredOnce.symm_iff.1 (h p hp (.inr (.inl hin))))
    · exact (coveredOnce_edge f f' hc hd hon ha hb).1 (h p hp (.inr (.inr hon)))
    · exact (coveredOnce_start hc hd).1 (h a ha (.inr (.inr (onSegment_ends a b).1)))
    · exact (coveredOnce_finish hc hd).1 (h b hb (.inr (.inr (onSegment_ends a b).2)))
  · rintro ⟨-, ⟨hrange, hrange'⟩, hedge, hstart, hfinish⟩ p hp (hin | hin | hon)
    · exact (coveredOnce_inside hin).2 (hrange p hp hin)
    · exact CoveredOnce.symm_iff.2 ((coveredOnce_inside hin).2 (hrange' p hp hin))
    · by_cases ha : p = a
      · subst ha
        exact (coveredOnce_start hc hd).2 (hstart hp)
      by_cases hb : p = b
      · subst hb
        exact (coveredOnce_finish hc hd).2 (hfinish hp)
      exact (coveredOnce_edge f f' hc hd hon ha hb).2 (hedge p hp hon ha hb)

/-- **Watertight rasterization.** Two triangles that share the edge from `a` to `b`, given in any
order and not culled. The names are such that `a b c` and `b a d` have positive areas. -/
theorem watertight_iff (h1 : HasVertices t1 a b c) (h2 : HasVertices t2 b a d)
    (hc : 0 < signedArea a b c) (hd : 0 < signedArea b a d)
    (k1 : (arranged mode t1).isSome = true) (k2 : (arranged mode t2).isSome = true) :
    Watertight mode t1 t2 a b c d ↔ EdgeExact a b c d := by
  obtain ⟨s1, hs1⟩ := Option.isSome_iff_exists.1 k1
  obtain ⟨s2, hs2⟩ := Option.isSome_iff_exists.1 k2
  have hfits := processTriangle_isSome h1 hc hs1
  have hfits' := processTriangle_isSome h2 hd hs2
  have hshades (f : NoOverflow ⟨a, b, c⟩) (f' : NoOverflow ⟨b, a, d⟩) {p : Vec2}
      (hp : AtCentre p) : Xor (Shades mode t1 p) (Shades mode t2 p) ↔ CoveredOnce a b c d p := by
    rw [shades_iff h1 hc hs1 f hp, shades_iff h2 hd hs2 f' hp, CoveredOnce]
  constructor
  · rintro ⟨⟨hdone, hdone'⟩, honce⟩
    have f := hfits.1 hdone
    have f' := hfits'.1 hdone'
    exact (coveredOnce_iff f f' hc hd).1 fun p hp hr => (hshades f f' hp).1 (honce p hp hr)
  · intro hexact
    obtain ⟨f, f'⟩ := hexact.fits
    refine ⟨⟨hfits.2 f, hfits'.2 f'⟩, fun p hp hr => ?_⟩
    exact (hshades f f' hp).2 ((coveredOnce_iff f f' hc hd).2 hexact p hp hr)

theorem watertight_square :
    Watertight .keepAll ⟨⟨0, 0⟩, ⟨32, 0⟩, ⟨32, 32⟩⟩ ⟨⟨0, 0⟩, ⟨0, 32⟩, ⟨32, 32⟩⟩
        ⟨32, 32⟩ ⟨0, 0⟩ ⟨32, 0⟩ ⟨0, 32⟩ ↔
      EdgeExact ⟨32, 32⟩ ⟨0, 0⟩ ⟨32, 0⟩ ⟨0, 32⟩ :=
  watertight_iff (.inl (.inr (.inl rfl))) (.inr (.inl rfl)) (by decide) (by decide) rfl rfl

/-- The edge from (7, 6) to (9, 10) goes through the centre (8, 8); the vertex (7, 7) is half a unit
left of it and taken to be on it. -/
theorem edge_shaded_twice :
    ¬ ∀ (mode : CullMode) (t1 t2 : Triangle Vec2) (a b c d : Vec2), HasVertices t1 a b c →
      HasVertices t2 b a d → 0 < signedArea a b c → 0 < signedArea b a d →
      (arranged mode t1).isSome = true → (arranged mode t2).isSome = true →
      Watertight mode t1 t2 a b c d := by
  intro h
  have hc : HasVertices ⟨⟨7, 6⟩, ⟨9, 10⟩, ⟨7, 7⟩⟩ ⟨7, 6⟩ ⟨9, 10⟩ ⟨7, 7⟩ := .inl (.inl rfl)
  have hd : HasVertices ⟨⟨9, 10⟩, ⟨7, 6⟩, ⟨30, 8⟩⟩ ⟨9, 10⟩ ⟨7, 6⟩ ⟨30, 8⟩ := .inl (.inl rfl)
  have hwater := h .keepAll _ _ _ _ _ _ hc hd (by decide) (by decide) rfl rfl
  have hcentre : AtCentre ⟨8, 8⟩ := by
    unfold AtCentre Centred
    decide
  have hsegment : OnSegment ⟨7, 6⟩ ⟨9, 10⟩ ⟨8, 8⟩ := by
    unfold OnSegment
    decide
  have hrange : BoxInRange ⟨7, 6⟩ ⟨9, 10⟩ ⟨7, 7⟩ ∧ BoxInRange ⟨9, 10⟩ ⟨7, 6⟩ ⟨30, 8⟩ := by
    unfold BoxInRange
    decide
  have hcovers : Covers ⟨7, 6⟩ ⟨9, 10⟩ ⟨7, 7⟩ ⟨8, 8⟩ ∧ Covers ⟨9, 10⟩ ⟨7, 6⟩ ⟨30, 8⟩ ⟨8, 8⟩ := by
    unfold Covers EdgeCovers
    decide
  have hfits := (processTriangle_isSome hc (by decide)
    (show arranged .keepAll _ = some _ from rfl)).1 hwater.defined.1
  have hfits' := (processTriangle_isSome hd (by decide)
    (show arranged .keepAll _ = some _ from rfl)).1 hwater.defined.2
  have hfirst := (shades_iff hc (by decide) (show arranged .keepAll _ = some _ from rfl) hfits
    hcentre).2 ⟨hrange.1, hcovers.1⟩
  have hsecond := (shades_iff hd (by decide) (show arranged .keepAll _ = some _ from rfl) hfits'
    hcentre).2 ⟨hrange.2, hcovers.2⟩
  obtain ⟨-, hno⟩ | ⟨-, hno⟩ := hwater.once _ hcentre (.inr (.inr hsegment))
  · exact hno hsecond
  · exact hno hfirst

end Main

end Mikage.Pica.Rasterizer
