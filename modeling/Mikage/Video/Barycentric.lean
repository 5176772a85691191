import Mikage.Video.Rasterizer

/-!
# The weights of shaded pixels

The weights of a pixel add up to the area of the triangle less the number of its right-sided and
flat-bottom edges, so that a small triangle can have a pixel whose weights are all zero, by which
the interpolation then divides. `OnBoundary` describes such pixels by the areas they span.
-/

namespace Mikage.Pica.Rasterizer

variable {mode : CullMode} {t s : Triangle Vec2} {p : Vec2} {w : Weights}

/-- The point spans no area with the edge, or one unit if the edge is right-sided or flat-bottom. -/
def OnEdgeLimit (vtx line1 line2 p : Vec2) : Prop :=
  signedArea line1 line2 p =
    if isRightSideOrFlatBottomEdge vtx line1 line2 = some true then 1 else 0

/-- The point is as near to every edge as a covered one can be. -/
def OnBoundary (t : Triangle Vec2) (p : Vec2) : Prop :=
  OnEdgeLimit t.v0 t.v1 t.v2 p ∧ OnEdgeLimit t.v1 t.v2 t.v0 p ∧ OnEdgeLimit t.v2 t.v0 t.v1 p

/-- The weights of a pixel of the triangle are what interpolation needs. -/
structure UsableWeights (t : Triangle Vec2) (p : Vec2) (w : Weights) : Prop where
  nonneg : 0 ≤ w.w0 ∧ 0 ≤ w.w1 ∧ 0 ≤ w.w2
  sum : 0 < w.sum
  /-- `interpolated_w_inverse`, by which `GetInterpolatedAttribute` divides. -/
  inverse : ∀ w0 w1 w2 : ℚ, 0 < w0 → 0 < w1 → 0 < w2 → 0 < w.w0 / w0 + w.w1 / w1 + w.w2 / w2

/-- The weights without the biases are barycentric coordinates of the pixel. -/
def Barycentric (t : Triangle Vec2) (p : Vec2) (w : Weights) : Prop :=
  ∃ bias, biases t = some bias ∧ bias.w0 ∈ [-1, 0] ∧ bias.w1 ∈ [-1, 0] ∧ bias.w2 ∈ [-1, 0] ∧
    (w.w0 - bias.w0) * int t.v0.x + (w.w1 - bias.w1) * int t.v1.x +
        (w.w2 - bias.w2) * int t.v2.x = (w.sum - bias.sum) * int p.x ∧
    (w.w0 - bias.w0) * int t.v0.y + (w.w1 - bias.w1) * int t.v1.y +
        (w.w2 - bias.w2) * int t.v2.y = (w.sum - bias.sum) * int p.y

/-- The triangle is rasterized with usable weights, and not at all if it has no area. -/
def Usable (mode : CullMode) (t : Triangle Vec2) : Prop :=
  ∃ l, processTriangle mode t = some l ∧ (area t = 0 → l = []) ∧
    ∀ s, arranged mode t = some s → ∀ p w, (p, w) ∈ l →
      UsableWeights s p w ∧ Barycentric s p w

theorem inverse_pos (hw : 0 ≤ w.w0 ∧ 0 ≤ w.w1 ∧ 0 ≤ w.w2) (hsum : 0 < w.sum) {w0 w1 w2 : ℚ}
    (h0 : 0 < w0) (h1 : 0 < w1) (h2 : 0 < w2) : 0 < w.w0 / w0 + w.w1 / w1 + w.w2 / w2 := by
  obtain ⟨hw0, hw1, hw2⟩ := hw
  have hq0 : 0 ≤ (w.w0 : ℚ) / w0 := div_nonneg (by exact_mod_cast hw0) h0.le
  have hq1 : 0 ≤ (w.w1 : ℚ) / w1 := div_nonneg (by exact_mod_cast hw1) h1.le
  have hq2 : 0 ≤ (w.w2 : ℚ) / w2 := div_nonneg (by exact_mod_cast hw2) h2.le
  have hpos : 0 < w.w0 ∨ 0 < w.w1 ∨ 0 < w.w2 := by
    unfold Weights.sum at hsum
    omega
  obtain h | h | h := hpos
  · have : 0 < (w.w0 : ℚ) / w0 := div_pos (by exact_mod_cast h) h0
    linarith
  · have : 0 < (w.w1 : ℚ) / w1 := div_pos (by exact_mod_cast h) h1
    linarith
  · have : 0 < (w.w2 : ℚ) / w2 := div_pos (by exact_mod_cast h) h2
    linarith

theorem weights_barycentric {bias : Weights} (hb : biases t = some bias) (p : Vec2) :
    Barycentric t p (weights t bias p) := by
  obtain ⟨-, hbias⟩ := biases_eq_some.1 hb
  have hmem (a b c : Vec2) : Rasterizer.bias a b c ∈ [-1, 0] := by
    simpa using bias_cases a b c
  have hsum : (weights t bias p).sum - bias.sum = (areas t p).sum := by
    simp only [Weights.sum, weights]
    ring
  refine ⟨bias, hb, ?_, ?_, ?_, ?_, ?_⟩
  · rw [hbias]; exact hmem _ _ _
  · rw [hbias]; exact hmem _ _ _
  · rw [hbias]; exact hmem _ _ _
  · rw [hsum, ← (areas_barycentric t p).1]
    simp only [weights, add_sub_cancel_left]
  · rw [hsum, ← (areas_barycentric t p).2]
    simp only [weights, add_sub_cancel_left]

theorem onEdgeLimit_iff {a b c : Vec2} :
    OnEdgeLimit a b c p ↔ bias a b c + signedArea b c p = 0 := by
  unfold OnEdgeLimit bias
  split <;> constructor <;> intro h <;> omega

/-- A covered pixel has all weights zero, or they have a positive sum. -/
theorem sum_pos_iff {bias : Weights} (hb : biases t = some bias)
    (hw : (weights t bias p).covers = true) :
    0 < (weights t bias p).sum ↔ ¬ OnBoundary t p := by
  obtain ⟨-, rfl⟩ := biases_eq_some.1 hb
  obtain ⟨h0, h1, h2⟩ := Weights.covers_iff.1 hw
  simp only [OnBoundary, onEdgeLimit_iff]
  simp only [weights, areas, Weights.sum] at h0 h1 h2 ⊢
  omega

theorem covers_of_onBoundary {bias : Weights} (hb : biases t = some bias) (hp : OnBoundary t p) :
    weights t bias p = ⟨0, 0, 0⟩ := by
  obtain ⟨-, rfl⟩ := biases_eq_some.1 hb
  obtain ⟨h0, h1, h2⟩ := hp
  simp only [weights, areas, onEdgeLimit_iff.1 h0, onEdgeLimit_iff.1 h1, onEdgeLimit_iff.1 h2]

theorem area_arranged (h : arranged mode t = some s) : area s = area t ∨ area s = -area t := by
  unfold arranged kept at h
  split_ifs at h <;> cases h
  all_goals first | exact .inl rfl | exact .inr (area_reversed t)

/-- The weights of a triangle without area add up to minus the number of biased edges. -/
theorem not_covers_of_area {bias : Weights} (hb : biases t = some bias) (ht : area t = 0)
    (hsum : 0 < (weights t bias p).sum) : False := by
  obtain ⟨-, rfl⟩ := biases_eq_some.1 hb
  have h := areas_sum t p
  have h0 := bias_cases t.v0 t.v1 t.v2
  have h1 := bias_cases t.v1 t.v2 t.v0
  have h2 := bias_cases t.v2 t.v0 t.v1
  simp only [weights, Weights.sum] at h hsum
  omega

/-- **Weights.** They can be interpolated with if and only if the fill rule does not overflow and no
pixel centre in the bounding box is on the boundary of what the triangle covers. -/
theorem weights_usable_iff (mode : CullMode) (t : Triangle Vec2) :
    Usable mode t ↔ ∀ s, arranged mode t = some s →
      NoOverflow s ∧ ∀ p, Scanned s p → ¬ OnBoundary s p := by
  unfold Usable processTriangle
  cases hs : arranged mode t with
  | none =>
    exact iff_of_true ⟨[], rfl, fun _ => rfl, nofun⟩ nofun
  | some s =>
    simp only [Option.elim_some, Option.some.injEq, forall_eq']
    constructor
    · rintro ⟨l, hl, -, h⟩
      obtain ⟨bias, hb⟩ := biases_of_coverage hl
      refine ⟨(biases_eq_some.1 hb).1, fun p hp hboundary => ?_⟩
      have hzero := covers_of_onBoundary hb hboundary
      have hmem : (p, weights s bias p) ∈ l :=
        (mem_coverage hb hl).2 ⟨hp, rfl, by rw [hzero]; rfl⟩
      have hpos := (h p _ hmem).1.sum
      rw [hzero] at hpos
      exact absurd hpos (by decide)
    · rintro ⟨hfits, h⟩
      obtain ⟨l, hl⟩ := coverage_of_biases (biases_eq_some.2 ⟨hfits, rfl⟩)
      obtain ⟨bias, hb⟩ := biases_of_coverage hl
      have hpositive {p : Vec2} {w : Weights} (hmem : (p, w) ∈ l) : 0 < w.sum := by
        obtain ⟨hp, rfl, hw⟩ := (mem_coverage hb hl).1 hmem
        exact (sum_pos_iff hb hw).2 (h p hp)
      refine ⟨l, hl, fun ht => ?_, fun p w hmem => ?_⟩
      · rw [List.eq_nil_iff_forall_not_mem]
        rintro ⟨p, w⟩ hmem
        have hsum := hpositive hmem
        obtain ⟨-, rfl, -⟩ := (mem_coverage hb hl).1 hmem
        have hs' : area s = 0 := by
          obtain h' | h' := area_arranged hs <;> omega
        exact not_covers_of_area hb hs' hsum
      · have hsum := hpositive hmem
        obtain ⟨-, rfl, hw⟩ := (mem_coverage hb hl).1 hmem
        have hw := Weights.covers_iff.1 hw
        exact ⟨⟨hw, hsum, fun _ _ _ h0 h1 h2 => inverse_pos hw hsum h0 h1 h2⟩,
          weights_barycentric hb p⟩

/-- Only triangles of at most three units of area have such points. -/
theorem area_le_of_onBoundary (h : OnBoundary t p) : 0 ≤ area t ∧ area t ≤ 3 := by
  obtain ⟨h0, h1, h2⟩ := h
  have hedge {a b c : Vec2} (h : OnEdgeLimit a b c p) :
      0 ≤ signedArea b c p ∧ signedArea b c p ≤ 1 := by
    unfold OnEdgeLimit at h
    split at h <;> omega
  have h0 := hedge h0
  have h1 := hedge h1
  have h2 := hedge h2
  rw [← areas_sum t p]
  simp only [areas, Weights.sum]
  omega

/-- The pixel at (8, 8) is one unit inside both right edges of this triangle. -/
theorem weights_vanish : ¬ ∀ mode t, Usable mode t := by
  intro h
  obtain ⟨l, hl, -, hw⟩ := h .keepAll ⟨⟨8, 9⟩, ⟨8, 7⟩, ⟨9, 8⟩⟩
  have hb : biases ⟨⟨8, 9⟩, ⟨8, 7⟩, ⟨9, 8⟩⟩ = some ⟨-1, -1, 0⟩ := by decide
  have hscanned : Scanned ⟨⟨8, 9⟩, ⟨8, 7⟩, ⟨9, 8⟩⟩ ⟨8, 8⟩ := by
    simp only [Scanned, mem_scan]
    decide
  have hmem := (mem_coverage hb hl).2 ⟨hscanned, rfl, by decide⟩
  have hsum := (hw _ rfl _ _ hmem).1.sum
  exact absurd hsum (by decide)

end Mikage.Pica.Rasterizer
