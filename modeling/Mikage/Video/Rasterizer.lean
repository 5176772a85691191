import Mathlib
import Mikage.Video.PrimitiveAssembly

/-!
# Coverage of triangles

The first half of `ProcessTriangleInternal`: the vertices are put in order by the cull mode, the
centres of the pixels in their bounding box are scanned, and each gets three weights. A weight is
the signed area that the centre spans with an edge, less one where the fill rule says so; pixels
with a negative weight are dropped. Coordinates are 12.4 fixed-point numbers of 16 bits.

`mem_coverage` says which pixels stay. Their weights are what attributes are interpolated with
(`weights_usable_iff`).
-/

namespace Mikage.Pica.Rasterizer

/-- `Fix12P4`. -/
abbrev Fix12P4 := BitVec 16

/-- `Math::Vec2<Fix12P4>`. -/
@[ext] structure Vec2 where
  x : Fix12P4
  y : Fix12P4
  deriving DecidableEq, Repr

/-- A coordinate promoted to `int`. -/
def int (v : Fix12P4) : ℤ := v.toNat

/-- The cull modes; the one value without a name is treated as the last. -/
inductive CullMode where
  | keepAll | keepClockWise | keepCounterClockWise
  deriving DecidableEq, Repr

/-- Differences of coordinates are `int`s and their products 64-bit numbers: nothing overflows. -/
def signedArea (vtx1 vtx2 vtx3 : Vec2) : ℤ :=
  (int vtx2.x - int vtx1.x) * (int vtx3.y - int vtx1.y) -
    (int vtx2.y - int vtx1.y) * (int vtx3.x - int vtx1.x)

def area (t : Triangle Vec2) : ℤ := signedArea t.v0 t.v1 t.v2

/-! ## The code -/

/-- The triangle with its last two vertices exchanged, for the call with `reversed` set. -/
def reversed (t : Triangle Vec2) : Triangle Vec2 := ⟨t.v0, t.v2, t.v1⟩

/-- What the checks that do not ask for `reversed` leave of a triangle. -/
def kept (mode : CullMode) (t : Triangle Vec2) : Option (Triangle Vec2) :=
  if mode = .keepAll then some t else if area t ≤ 0 then none else some t

/-- The triangle as it is rasterized; `none` where it is culled. -/
def arranged (mode : CullMode) (t : Triangle Vec2) : Option (Triangle Vec2) :=
  if mode = .keepAll then if area t ≤ 0 then kept mode (reversed t) else kept mode t
  else if mode = .keepClockWise then kept mode (reversed t) else kept mode t

/-- An `int`; the overflow of one is undefined. -/
def checked (x : ℤ) : Option ℤ := if -2 ^ 31 ≤ x ∧ x < 2 ^ 31 then some x else none

/-- `IsRightSideOrFlatBottomEdge`; `none` where it overflows. -/
def isRightSideOrFlatBottomEdge (vtx line1 line2 : Vec2) : Option Bool :=
  if line1.y = line2.y then some (decide (int vtx.y < int line1.y))
  else do
    let product ← checked ((int line2.x - int line1.x) * (int vtx.y - int line1.y))
    let quotient ← checked (product.tdiv (int line2.y - int line1.y))
    let bound ← checked (int line1.x + quotient)
    pure (decide (int vtx.x < bound))

/-- One number for each vertex. -/
@[ext] structure Weights where
  w0 : ℤ
  w1 : ℤ
  w2 : ℤ
  deriving DecidableEq, Repr

def Weights.sum (w : Weights) : ℤ := w.w0 + w.w1 + w.w2

/-- `bias0`, `bias1` and `bias2`. -/
def biases (t : Triangle Vec2) : Option Weights := do
  let side0 ← isRightSideOrFlatBottomEdge t.v0 t.v1 t.v2
  let side1 ← isRightSideOrFlatBottomEdge t.v1 t.v2 t.v0
  let side2 ← isRightSideOrFlatBottomEdge t.v2 t.v0 t.v1
  pure ⟨if side0 then -1 else 0, if side1 then -1 else 0, if side2 then -1 else 0⟩

/-- The areas that a point spans with the edges. -/
def areas (t : Triangle Vec2) (p : Vec2) : Weights :=
  ⟨signedArea t.v1 t.v2 p, signedArea t.v2 t.v0 p, signedArea t.v0 t.v1 p⟩

def weights (t : Triangle Vec2) (bias : Weights) (p : Vec2) : Weights :=
  ⟨bias.w0 + (areas t p).w0, bias.w1 + (areas t p).w1, bias.w2 + (areas t p).w2⟩

def fracMask : ℕ := 0xF
def intMask : ℕ := 0xFFF0

/-- `min_x` and `min_y` of three coordinates. -/
def boxMin (a b c : Fix12P4) : ℕ := min (min a.toNat b.toNat) c.toNat &&& intMask

/-- `max_x` and `max_y`. -/
def boxMax (a b c : Fix12P4) : ℕ := (max (max a.toNat b.toNat) c.toNat + fracMask) &&& intMask

/-- The values of the loop variable, which never wraps (`scan_fits`). -/
def scan (v limit : ℕ) : List ℕ :=
  if v < limit then v :: scan (v + 0x10) limit else []
termination_by limit - v

/-- The scanned pixel centres. -/
def centres (t : Triangle Vec2) : List Vec2 :=
  (scan (boxMin t.v0.y t.v1.y t.v2.y + 8) (boxMax t.v0.y t.v1.y t.v2.y)).flatMap fun y =>
    (scan (boxMin t.v0.x t.v1.x t.v2.x + 8) (boxMax t.v0.x t.v1.x t.v2.x)).map fun x =>
      ⟨BitVec.ofNat 16 x, BitVec.ofNat 16 y⟩

/-- Not `w0 < 0 || w1 < 0 || w2 < 0`. -/
def Weights.covers (w : Weights) : Bool := !(w.w0 < 0 || w.w1 < 0 || w.w2 < 0)

/-- The pixels that are shaded, with their weights; `none` where the behaviour is undefined. -/
def coverage (t : Triangle Vec2) : Option (List (Vec2 × Weights)) := do
  let bias ← biases t
  pure (((centres t).map fun p => (p, weights t bias p)).filter fun pw => pw.2.covers)

/-- `ProcessTriangle` as far as the shading of the first pixel. -/
def processTriangle (mode : CullMode) (t : Triangle Vec2) : Option (List (Vec2 × Weights)) :=
  (arranged mode t).elim (some []) coverage

/-! ## Scanned centres -/

section Scan

variable {v limit n : ℕ}

theorem mem_scan : n ∈ scan v limit ↔ v ≤ n ∧ n < limit ∧ (n - v) % 16 = 0 := by
  fun_induction scan v limit with
  | case1 v hlt ih =>
    rw [List.mem_cons, ih]
    omega
  | case2 v hle =>
    simp only [List.not_mem_nil, false_iff]
    omega

theorem and_intMask (n : ℕ) : n &&& intMask = n % 2 ^ 16 / 16 * 16 := by
  have hmask : intMask = (2 ^ 12 - 1) <<< 4 := by decide
  refine Nat.eq_of_testBit_eq fun i => ?_
  have hdiv : n % 2 ^ 16 / 16 * 16 = (n % 2 ^ 16) >>> 4 <<< 4 := by
    rw [Nat.shiftLeft_eq, Nat.shiftRight_eq_div_pow]
  rw [hdiv, hmask, Nat.testBit_and, Nat.testBit_shiftLeft, Nat.testBit_shiftLeft,
    Nat.testBit_shiftRight, Nat.testBit_mod_two_pow, Nat.testBit_two_pow_sub_one]
  by_cases hi : 4 ≤ i
  · rw [show 4 + (i - 4) = i by omega]
    by_cases hi' : i < 16 <;>
      simp [hi, hi', show i - 4 < 12 ↔ i < 16 by omega, Bool.and_comm]
  · simp [hi]

variable {a b c : Fix12P4}

theorem boxMin_eq : boxMin a b c = min (min a.toNat b.toNat) c.toNat / 16 * 16 := by
  have ha := a.isLt
  rw [boxMin, and_intMask]
  omega

theorem boxMax_eq :
    boxMax a b c = (max (max a.toNat b.toNat) c.toNat + 15) % 2 ^ 16 / 16 * 16 := by
  rw [boxMax, fracMask, and_intMask]

/-- No scanned coordinate exceeds 16 bits, the next one neither. -/
theorem scan_fits (h : n ∈ scan (boxMin a b c + 8) (boxMax a b c)) : n + 0x10 < 2 ^ 16 := by
  rw [mem_scan, boxMax_eq, boxMin_eq] at h
  omega

/-- The coordinate is that of a pixel centre. -/
def Centred (v : Fix12P4) : Prop := v.toNat % 16 = 8

/-- The coordinates can be rounded up to whole pixels. -/
def InRange (a b c : Fix12P4) : Prop := a.toNat ≤ 0xFFF0 ∧ b.toNat ≤ 0xFFF0 ∧ c.toNat ≤ 0xFFF0

instance : Decidable (InRange a b c) := inferInstanceAs (Decidable (_ ∧ _ ∧ _))

/-- A centre between the coordinates is scanned if these are in range. -/
theorem scanned_iff {v : Fix12P4} (hmin : min (min a.toNat b.toNat) c.toNat ≤ v.toNat)
    (hmax : v.toNat ≤ max (max a.toNat b.toNat) c.toNat) (hv : Centred v) :
    v.toNat ∈ scan (boxMin a b c + 8) (boxMax a b c) ↔ InRange a b c := by
  have ha := a.isLt
  have hb := b.isLt
  have hc := c.isLt
  unfold Centred at hv
  rw [mem_scan, boxMin_eq, boxMax_eq, InRange]
  omega

end Scan

/-- The pixel is among those of the bounding box. -/
def Scanned (t : Triangle Vec2) (p : Vec2) : Prop :=
  p.x.toNat ∈ scan (boxMin t.v0.x t.v1.x t.v2.x + 8) (boxMax t.v0.x t.v1.x t.v2.x) ∧
    p.y.toNat ∈ scan (boxMin t.v0.y t.v1.y t.v2.y + 8) (boxMax t.v0.y t.v1.y t.v2.y)

section Coverage

variable {t : Triangle Vec2} {p : Vec2} {w bias : Weights} {mode : CullMode}

theorem mem_centres : p ∈ centres t ↔ Scanned t p := by
  simp only [centres, List.mem_flatMap, List.mem_map, Scanned]
  constructor
  · rintro ⟨y, hy, x, hx, rfl⟩
    have hx' := scan_fits hx
    have hy' := scan_fits hy
    simp only [BitVec.toNat_ofNat, Nat.mod_eq_of_lt (show x < 2 ^ 16 by omega),
      Nat.mod_eq_of_lt (show y < 2 ^ 16 by omega)]
    exact ⟨hx, hy⟩
  · rintro ⟨hx, hy⟩
    exact ⟨_, hy, _, hx, by simp⟩

theorem Weights.covers_iff : w.covers = true ↔ 0 ≤ w.w0 ∧ 0 ≤ w.w1 ∧ 0 ≤ w.w2 := by
  simp only [covers, Bool.not_eq_true', Bool.or_eq_false_iff, decide_eq_false_iff_not, not_lt,
    and_assoc]

/-- The pixels that are shaded and their weights. -/
theorem mem_coverage (hb : biases t = some bias) {l : List (Vec2 × Weights)}
    (hl : coverage t = some l) :
    (p, w) ∈ l ↔ Scanned t p ∧ w = weights t bias p ∧ w.covers = true := by
  simp only [coverage, hb, Option.bind_eq_bind, Option.bind_some, Option.pure_def,
    Option.some.injEq] at hl
  subst hl
  simp only [List.mem_filter, List.mem_map, Prod.mk.injEq, mem_centres]
  constructor
  · rintro ⟨⟨q, hq, rfl, rfl⟩, hw⟩
    exact ⟨hq, rfl, hw⟩
  · rintro ⟨hp, rfl, hw⟩
    exact ⟨⟨p, hp, rfl, rfl⟩, hw⟩

theorem coverage_of_biases (hb : biases t = some bias) : ∃ l, coverage t = some l := by
  simp only [coverage, hb, Option.bind_eq_bind, Option.bind_some, Option.pure_def,
    Option.some.injEq, exists_eq']

theorem biases_of_coverage {l : List (Vec2 × Weights)} (hl : coverage t = some l) :
    ∃ bias, biases t = some bias := by
  cases hb : biases t with
  | none =>
    rw [coverage, hb] at hl
    cases hl
  | some bias => exact ⟨bias, rfl⟩

end Coverage

/-! ## Overflow -/

section Overflow

variable {vtx line1 line2 : Vec2} {t : Triangle Vec2}

/-- The number is an `int`. -/
def IsInt (x : ℤ) : Prop := -2 ^ 31 ≤ x ∧ x < 2 ^ 31

/-- The test of an edge does not overflow. -/
def Fits (vtx line1 line2 : Vec2) : Prop :=
  line1.y ≠ line2.y →
    IsInt ((int line2.x - int line1.x) * (int vtx.y - int line1.y)) ∧
      IsInt (((int line2.x - int line1.x) * (int vtx.y - int line1.y)).tdiv
        (int line2.y - int line1.y)) ∧
      IsInt (int line1.x + ((int line2.x - int line1.x) * (int vtx.y - int line1.y)).tdiv
        (int line2.y - int line1.y))

def NoOverflow (t : Triangle Vec2) : Prop :=
  Fits t.v0 t.v1 t.v2 ∧ Fits t.v1 t.v2 t.v0 ∧ Fits t.v2 t.v0 t.v1

theorem checked_eq_some {x y : ℤ} : checked x = some y ↔ IsInt x ∧ x = y := by
  unfold checked IsInt
  split <;> simp_all

/-- The test of an edge in numbers. -/
theorem isRightSide_eq_some {side : Bool} :
    isRightSideOrFlatBottomEdge vtx line1 line2 = some side ↔
      Fits vtx line1 line2 ∧ side =
        if line1.y = line2.y then decide (int vtx.y < int line1.y)
        else decide (int vtx.x < int line1.x +
          ((int line2.x - int line1.x) * (int vtx.y - int line1.y)).tdiv
            (int line2.y - int line1.y)) := by
  unfold isRightSideOrFlatBottomEdge Fits
  by_cases hy : line1.y = line2.y
  · simp only [hy, if_true, ne_eq, not_true, false_imp_iff, true_and, Option.some.injEq, eq_comm]
  · simp only [hy, if_false, ne_eq, not_false_eq_true, true_imp_iff, Option.bind_eq_bind,
      Option.bind_eq_some_iff, checked_eq_some, Option.pure_def, Option.some.injEq]
    constructor
    · rintro ⟨_, ⟨h1, rfl⟩, _, ⟨h2, rfl⟩, _, ⟨h3, rfl⟩, rfl⟩
      exact ⟨⟨h1, h2, h3⟩, rfl⟩
    · rintro ⟨⟨h1, h2, h3⟩, rfl⟩
      exact ⟨_, ⟨h1, rfl⟩, _, ⟨h2, rfl⟩, _, ⟨h3, rfl⟩, rfl⟩

theorem isRightSide_of_fits (h : Fits vtx line1 line2) :
    ∃ side, isRightSideOrFlatBottomEdge vtx line1 line2 = some side :=
  ⟨_, isRightSide_eq_some.2 ⟨h, rfl⟩⟩

/-- The bias of an edge. -/
def bias (vtx line1 line2 : Vec2) : ℤ :=
  if isRightSideOrFlatBottomEdge vtx line1 line2 = some true then -1 else 0

theorem bias_cases (vtx line1 line2 : Vec2) :
    bias vtx line1 line2 = -1 ∨ bias vtx line1 line2 = 0 := by
  unfold bias
  split
  · exact .inl rfl
  · exact .inr rfl

theorem biases_eq_some {w : Weights} :
    biases t = some w ↔ NoOverflow t ∧
      w = ⟨bias t.v0 t.v1 t.v2, bias t.v1 t.v2 t.v0, bias t.v2 t.v0 t.v1⟩ := by
  have hside {a b c : Vec2} {side : Bool}
      (h : isRightSideOrFlatBottomEdge a b c = some side) :
      bias a b c = if side then -1 else 0 := by
    simp only [bias, h, Option.some.injEq]
  simp only [biases, Option.bind_eq_bind, Option.bind_eq_some_iff, Option.pure_def,
    Option.some.injEq, NoOverflow]
  constructor
  · rintro ⟨s0, h0, s1, h1, s2, h2, rfl⟩
    rw [hside h0, hside h1, hside h2]
    exact ⟨⟨(isRightSide_eq_some.1 h0).1, (isRightSide_eq_some.1 h1).1,
      (isRightSide_eq_some.1 h2).1⟩, rfl⟩
  · rintro ⟨⟨h0, h1, h2⟩, rfl⟩
    obtain ⟨s0, h0⟩ := isRightSide_of_fits h0
    obtain ⟨s1, h1⟩ := isRightSide_of_fits h1
    obtain ⟨s2, h2⟩ := isRightSide_of_fits h2
    rw [hside h0, hside h1, hside h2]
    exact ⟨s0, h0, s1, h1, s2, h2, rfl⟩

end Overflow

/-! ## Areas -/

section Areas

variable {t : Triangle Vec2} {p : Vec2}

theorem areas_sum (t : Triangle Vec2) (p : Vec2) : (areas t p).sum = area t := by
  simp only [Weights.sum, areas, area, signedArea]
  ring

/-- The areas are barycentric coordinates. -/
theorem areas_barycentric (t : Triangle Vec2) (p : Vec2) :
    (areas t p).w0 * int t.v0.x + (areas t p).w1 * int t.v1.x + (areas t p).w2 * int t.v2.x =
        (areas t p).sum * int p.x ∧
      (areas t p).w0 * int t.v0.y + (areas t p).w1 * int t.v1.y + (areas t p).w2 * int t.v2.y =
        (areas t p).sum * int p.y := by
  constructor <;>
  · simp only [Weights.sum, areas, signedArea]
    ring

theorem signedArea_rotate (a b c : Vec2) : signedArea b c a = signedArea a b c := by
  simp only [signedArea]
  ring

theorem signedArea_swap (a b c : Vec2) : signedArea a c b = -signedArea a b c := by
  simp only [signedArea]
  ring

theorem area_reversed (t : Triangle Vec2) : area (reversed t) = -area t := signedArea_swap _ _ _

end Areas

end Mikage.Pica.Rasterizer
