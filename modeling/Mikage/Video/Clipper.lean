import Mathlib
import Mikage.Lib.Polygons
import Mikage.Video.PrimitiveAssembly

/-!
# Triangle clipping

`Clipper::ProcessTriangle` over the rationals. Clipping is a pass around the polygon for each of
seven planes, after which the polygon is drawn as a fan of triangles. What a pass does to the
polygon is `Polygons.cut`. The last plane is meant to keep `w` away from zero, but its bias has the
sign that lets everything through that the first six leave (`clip_volume`).
-/

namespace Mikage.Pica.Clipper

open Polygons

/-- `Math::Vec4`. -/
abbrev Vec4 := ℚ × ℚ × ℚ × ℚ

def Vec4.x (v : Vec4) : ℚ := v.1

def Vec4.y (v : Vec4) : ℚ := v.2.1

def Vec4.z (v : Vec4) : ℚ := v.2.2.1

def Vec4.w (v : Vec4) : ℚ := v.2.2.2

/-- `Math::Dot`. -/
def dot (a b : Vec4) : ℚ := a.x * b.x + a.y * b.y + a.z * b.z + a.w * b.w

structure OutputVertex where
  pos : Vec4
  dummy : Vec4
  color : Vec4
  tc0 : ℚ × ℚ
  tc1 : ℚ × ℚ
  tc2 : ℚ × ℚ
  screenpos : ℚ × ℚ × ℚ
  deriving DecidableEq

/-! ## The code -/

/-- `Lerp`: the first vertex for a factor of one. -/
def lerp (factor : ℚ) (v0 v1 : OutputVertex) : OutputVertex :=
  { v0 with
    pos := factor • v0.pos + (1 - factor) • v1.pos
    tc0 := factor • v0.tc0 + (1 - factor) • v1.tc0
    tc1 := factor • v0.tc1 + (1 - factor) • v1.tc1
    tc2 := factor • v0.tc2 + (1 - factor) • v1.tc2
    screenpos := factor • v0.screenpos + (1 - factor) • v1.screenpos
    color := factor • v0.color + (1 - factor) • v1.color }

structure ClippingEdge where
  coeffs : Vec4
  bias : Vec4 := 0

namespace ClippingEdge

/-- The number whose sign says on which side a position is. -/
def dp (edge : ClippingEdge) (pos : Vec4) : ℚ := dot (pos + edge.bias) edge.coeffs

def isInside (edge : ClippingEdge) (vertex : OutputVertex) : Bool :=
  decide (edge.dp vertex.pos ≤ 0)

def isOutside (edge : ClippingEdge) (vertex : OutputVertex) : Bool := !edge.isInside vertex

/-- `GetIntersection`; `none` where it divides by zero. -/
def getIntersection (edge : ClippingEdge) (v0 v1 : OutputVertex) : Option OutputVertex :=
  let dp := edge.dp v0.pos
  let dpPrev := edge.dp v1.pos
  if dpPrev - dp = 0 then none else some (lerp (dpPrev / (dpPrev - dp)) v0 v1)

/-- The loop over the vertices. -/
def pass (edge : ClippingEdge) (reference : OutputVertex) :
    List OutputVertex → Option (List OutputVertex)
  | [] => some []
  | vertex :: list => do
    let output ←
      if edge.isInside vertex then
        if edge.isOutside reference then do
          let intersection ← edge.getIntersection vertex reference
          pure [intersection, vertex]
        else pure [vertex]
      else if edge.isInside reference then do
        let intersection ← edge.getIntersection vertex reference
        pure [intersection]
      else pure []
    let rest ← pass edge vertex list
    pure (output ++ rest)

end ClippingEdge

/-- The loop over the planes. It is left with nothing to draw once there is no full triangle. -/
def clip : List ClippingEdge → List OutputVertex → Option (List OutputVertex)
  | [], list => some list
  | edge :: edges, list => do
    let reference ← list.getLast?
    let output ← edge.pass reference list
    if output.length < 3 then some [] else clip edges output

def epsilon : ℚ := 1 / 100000

def clippingEdges : List ClippingEdge :=
  [⟨(1, 0, 0, -1), 0⟩, ⟨(-1, 0, 0, -1), 0⟩, ⟨(0, 1, 0, -1), 0⟩, ⟨(0, -1, 0, -1), 0⟩,
    ⟨(0, 0, 1, 0), 0⟩, ⟨(0, 0, -1, -1), 0⟩, ⟨(0, 0, 0, -1), (0, 0, 0, epsilon)⟩]

structure Viewport where
  halfsizeX : ℚ
  offsetX : ℚ
  halfsizeY : ℚ
  offsetY : ℚ
  zscale : ℚ
  offsetZ : ℚ

/-- `InitScreenCoordinates`; `none` where it divides by zero. -/
def initScreenCoordinates (viewport : Viewport) (vtx : OutputVertex) : Option OutputVertex :=
  if vtx.pos.w = 0 then none
  else some { vtx with
    screenpos := ((vtx.pos.x / vtx.pos.w + 1) * viewport.halfsizeX + viewport.offsetX,
      (vtx.pos.y / vtx.pos.w + 1) * viewport.halfsizeY + viewport.offsetY,
      viewport.offsetZ + vtx.pos.z / vtx.pos.w * viewport.zscale) }

/-- The loop over the fan, at its vertex `vtx1`. -/
def drawFan (viewport : Viewport) (vtx0 vtx1 : OutputVertex) :
    List OutputVertex → Option (List (Triangle OutputVertex))
  | [] => some []
  | vtx2 :: list => do
    let vtx2 ← initScreenCoordinates viewport vtx2
    let rest ← drawFan viewport vtx0 vtx2 list
    pure (⟨vtx0, vtx1, vtx2⟩ :: rest)

/-- What is passed on to the rasterizer. -/
def draw (viewport : Viewport) : List OutputVertex → Option (List (Triangle OutputVertex))
  | vtx0 :: vtx1 :: list => do
    let vtx0 ← initScreenCoordinates viewport vtx0
    let vtx1 ← initScreenCoordinates viewport vtx1
    drawFan viewport vtx0 vtx1 list
  | _ => some []

/-- `ProcessTriangle`; `none` where something is divided by zero. -/
def processTriangle (viewport : Viewport) (v : Triangle OutputVertex) :
    Option (List (Triangle OutputVertex)) := do
  let list ← clip clippingEdges [v.v0, v.v1, v.v2]
  draw viewport list

/-! ## Planes -/

namespace ClippingEdge

variable {edge : ClippingEdge} {vertex reference : OutputVertex} {list : List OutputVertex}

/-- `dp` as an affine map. -/
def plane (edge : ClippingEdge) : Vec4 →ᵃ[ℚ] ℚ where
  toFun := edge.dp
  linear :=
    { toFun := fun v => dot v edge.coeffs
      map_add' := fun v v' => by
        simp only [dot, Vec4.x, Vec4.y, Vec4.z, Vec4.w, Prod.fst_add, Prod.snd_add]
        ring
      map_smul' := fun k v => by
        simp only [dot, Vec4.x, Vec4.y, Vec4.z, Vec4.w, Prod.smul_fst, Prod.smul_snd, smul_eq_mul,
          RingHom.id_apply]
        ring }
  map_vadd' := fun v v' => by
    simp only [dp, dot, Vec4.x, Vec4.y, Vec4.z, Vec4.w, vadd_eq_add, Prod.fst_add, Prod.snd_add,
      LinearMap.coe_mk, AddHom.coe_mk]
    ring

/-- `isInside` of a position. -/
def near (edge : ClippingEdge) (pos : Vec4) : Bool := decide (edge.dp pos ≤ 0)

/-- The position of the intersection. -/
def crossing (edge : ClippingEdge) (v r : Vec4) : Vec4 :=
  (edge.dp r / (edge.dp r - edge.dp v)) • v + (1 - edge.dp r / (edge.dp r - edge.dp v)) • r

/-- The intersection without its check. -/
def intersection (edge : ClippingEdge) (v r : OutputVertex) : OutputVertex :=
  lerp (edge.dp r.pos / (edge.dp r.pos - edge.dp v.pos)) v r

theorem opposite {v r : Vec4} (h : edge.near v ≠ edge.near r) :
    edge.dp v ≤ 0 ∧ 0 < edge.dp r ∨ 0 < edge.dp v ∧ edge.dp r ≤ 0 := by
  simp only [near, ne_eq, decide_eq_decide] at h
  obtain hv | hv := le_or_gt (edge.dp v) 0
  · exact .inl ⟨hv, not_le.1 fun hr => h ⟨fun _ => hr, fun _ => hv⟩⟩
  · obtain hr | hr := le_or_gt (edge.dp r) 0
    · exact .inr ⟨hv, hr⟩
    · exact absurd ⟨fun hv' => absurd hv' (not_le.2 hv), fun hr' => absurd hr' (not_le.2 hr)⟩ h

theorem dp_ne {v r : Vec4} (h : edge.near v ≠ edge.near r) : edge.dp r - edge.dp v ≠ 0 := by
  intro hzero
  rw [near, near, sub_eq_zero.1 hzero] at h
  exact h rfl

theorem getIntersection_eq (h : edge.isInside vertex ≠ edge.isInside reference) :
    edge.getIntersection vertex reference = some (edge.intersection vertex reference) :=
  if_neg (dp_ne h)

theorem cuts (edge : ClippingEdge) : Cuts edge.plane edge.near edge.crossing where
  side _ := decide_eq_true_iff
  between v r h := by
    have hne := dp_ne h
    have hval : edge.plane (edge.crossing v r) = 0 := by
      have hcombo := Convex.combo_affine_apply (f := edge.plane) (x := v) (y := r)
        (a := edge.dp r / (edge.dp r - edge.dp v)) (b := 1 - edge.dp r / (edge.dp r - edge.dp v))
        (add_sub_cancel _ _)
      have hv : edge.plane v = edge.dp v := rfl
      have hr : edge.plane r = edge.dp r := rfl
      rw [crossing, hcombo, hv, hr, smul_eq_mul, smul_eq_mul]
      field_simp
      ring
    refine ⟨?_, hval⟩
    rw [segment_symm]
    obtain ⟨hv, hr⟩ | ⟨hv, hr⟩ := opposite h
    · have hpos : 0 < edge.dp r - edge.dp v := by linarith
      refine ⟨_, _, div_nonneg hr.le hpos.le, ?_, add_sub_cancel _ _, rfl⟩
      rw [sub_nonneg, div_le_one hpos]
      linarith
    · have hneg : edge.dp r - edge.dp v < 0 := by linarith
      refine ⟨_, _, div_nonneg_of_nonpos hr hneg.le, ?_, add_sub_cancel _ _, rfl⟩
      rw [sub_nonneg, div_le_one_of_neg hneg]
      linarith

/-- No pass divides by zero. -/
theorem pass_eq (reference : OutputVertex) (list : List OutputVertex) :
    edge.pass reference list = some (cut edge.isInside edge.intersection reference list) := by
  induction list generalizing reference with
  | nil => rfl
  | cons vertex list ih =>
    rw [pass, ih, cut]
    cases hv : edge.isInside vertex <;> cases hr : edge.isInside reference
    · simp
    · have hne : edge.isInside vertex ≠ edge.isInside reference := by rw [hv, hr]; simp
      simp [getIntersection_eq hne]
    · have hne : edge.isInside vertex ≠ edge.isInside reference := by rw [hv, hr]; simp
      simp [isOutside, hr, getIntersection_eq hne]
    · simp [isOutside, hr]

end ClippingEdge

/-! ## The polygon -/

section Polygon

variable {list out : List OutputVertex} {edges : List ClippingEdge}

/-- What a list of vertices spans. -/
def hull (list : List OutputVertex) : Set Vec4 := convexHull ℚ {p | p ∈ list.map OutputVertex.pos}

/-- The points on the near side of all planes. -/
def nearAll (edges : List ClippingEdge) : Set Vec4 := {p | ∀ edge ∈ edges, edge.dp p ≤ 0}

/-- What holds of the vertices between two passes. -/
structure IsPolygon (list : List OutputVertex) : Prop where
  crossing : Crossing ℚ (list.map OutputVertex.pos)
  length : list = [] ∨ 3 ≤ list.length

theorem hull_nil : hull [] = ∅ := by simp [hull]

theorem map_cut (edge : ClippingEdge) (reference : OutputVertex) (list : List OutputVertex) :
    (cut edge.isInside edge.intersection reference list).map OutputVertex.pos =
      cut edge.near edge.crossing reference.pos (list.map OutputVertex.pos) := by
  refine cut_map ?_ ?_ reference list
  · exact fun _ => rfl
  · exact fun _ _ => rfl

/-- One plane. -/
theorem cut_spec (edge : ClippingEdge) {reference : OutputVertex} (h : IsPolygon list)
    (hlast : list.getLast? = some reference) :
    IsPolygon (cut edge.isInside edge.intersection reference list) ∧
      hull (cut edge.isInside edge.intersection reference list) =
        hull list ∩ {p | edge.dp p ≤ 0} ∧
      (cut edge.isInside edge.intersection reference list).length ≤ list.length + 1 := by
  have hlength : 3 ≤ list.length := by
    obtain rfl | hlength := h.length
    · cases hlast
    · exact hlength
  have hlast' : (list.map OutputVertex.pos).getLast? = some reference.pos := by
    rw [List.getLast?_map, hlast]
    rfl
  have hlength' : 3 ≤ (list.map OutputVertex.pos).length := by rwa [List.length_map]
  have hnum := cut_length edge.cuts h.crossing hlast' hlength'
  rw [← map_cut, List.length_map, List.length_map, List.map_eq_nil_iff] at hnum
  refine ⟨⟨?_, hnum.2⟩, ?_, hnum.1⟩
  · rw [map_cut]
    exact h.crossing.cut edge.cuts hlast'
  · rw [hull, map_cut]
    exact cut_hull edge.cuts h.crossing hlast' hlength'

/-- All planes. -/
theorem clip_spec (edges : List ClippingEdge) (h : IsPolygon list) (hne : list ≠ []) :
    ∃ out, clip edges list = some out ∧ IsPolygon out ∧ hull out = hull list ∩ nearAll edges ∧
      out.length ≤ list.length + edges.length := by
  induction edges generalizing list with
  | nil =>
    refine ⟨list, rfl, h, ?_, le_rfl⟩
    rw [Set.inter_eq_left.2]
    exact fun _ _ => nofun
  | cons edge edges ih =>
    obtain ⟨reference, hlast⟩ := Option.ne_none_iff_exists'.1
      (mt List.getLast?_eq_none_iff.1 hne)
    obtain ⟨hpolygon, hhull, hlength⟩ := cut_spec edge h hlast
    have hsides : hull list ∩ nearAll (edge :: edges) =
        hull (cut edge.isInside edge.intersection reference list) ∩ nearAll edges := by
      rw [hhull, Set.inter_assoc]
      congr 1
      ext p
      simp [nearAll]
    rw [clip, hlast, Option.bind_eq_bind, Option.bind_some, ClippingEdge.pass_eq,
      Option.bind_eq_bind, Option.bind_some, hsides]
    obtain hnil | hthree := hpolygon.length
    · rw [hnil, if_pos (by simp), hull_nil, Set.empty_inter]
      exact ⟨[], rfl, ⟨crossing_nil, .inl rfl⟩,
        hull_nil, Nat.zero_le _⟩
    · rw [if_neg (by omega)]
      obtain ⟨out, hout, hpolygon', hhull', hlength'⟩ :=
        ih hpolygon (List.ne_nil_of_length_pos (by omega))
      refine ⟨out, hout, hpolygon', hhull', ?_⟩
      rw [List.length_cons]
      omega

end Polygon

/-! ## The fan -/

section Fan

variable {viewport : Viewport} {vtx vtx0 vtx1 : OutputVertex} {list : List OutputVertex}
  {out : List (Triangle OutputVertex)}

/-- What triangles cover. -/
def covered (out : List (Triangle OutputVertex)) : Set Vec4 :=
  ⋃ t ∈ out, convexHull ℚ {t.v0.pos, t.v1.pos, t.v2.pos}

theorem covered_cons (t : Triangle OutputVertex) (out : List (Triangle OutputVertex)) :
    covered (t :: out) = convexHull ℚ {t.v0.pos, t.v1.pos, t.v2.pos} ∪ covered out := by
  simp [covered]

/-- The screen coordinates of a vertex are set and nothing else is. -/
theorem initScreenCoordinates_spec (h : initScreenCoordinates viewport vtx = some vtx1) :
    vtx1.pos = vtx.pos ∧ vtx.pos.w ≠ 0 := by
  rw [initScreenCoordinates] at h
  split at h
  · cases h
  next hw =>
    cases h
    exact ⟨rfl, hw⟩

theorem initScreenCoordinates_some (viewport : Viewport) (h : vtx.pos.w ≠ 0) :
    ∃ vtx1, initScreenCoordinates viewport vtx = some vtx1 :=
  ⟨_, if_neg h⟩

/-- What is drawn of a fan, when nothing is divided by zero. -/
theorem drawFan_spec (h : drawFan viewport vtx0 vtx1 list = some out) :
    covered out = fan ℚ vtx0.pos ((vtx1 :: list).map OutputVertex.pos) ∧
      out.length = list.length ∧
      ∀ t ∈ out, t.v0 = vtx0 ∧ t.v1.pos ∈ (vtx1 :: list).map OutputVertex.pos ∧
        t.v2.pos ∈ (vtx1 :: list).map OutputVertex.pos := by
  induction list generalizing vtx1 out with
  | nil =>
    cases h
    exact ⟨by simp [covered, fan], rfl, fun t ht => absurd ht List.not_mem_nil⟩
  | cons vtx2 list ih =>
    rw [drawFan] at h
    simp only [Option.bind_eq_bind, Option.bind_eq_some_iff] at h
    obtain ⟨vtx2', hvtx2, rest, hrest, hout⟩ := h
    obtain rfl := Option.some.inj hout
    have hpos := (initScreenCoordinates_spec hvtx2).1
    obtain ⟨hcovered, hlength, hmem⟩ := ih hrest
    rw [List.map_cons, hpos, ← List.map_cons] at hcovered hmem
    refine ⟨?_, by rw [List.length_cons, hlength, List.length_cons], ?_⟩
    · rw [covered_cons, hcovered, hpos]
      rfl
    · rintro t (_ | ⟨_, ht⟩)
      · simp [hpos]
      · obtain ⟨h0, h1, h2⟩ := hmem t ht
        exact ⟨h0, List.mem_cons_of_mem _ h1, List.mem_cons_of_mem _ h2⟩

theorem drawFan_some (viewport : Viewport) (vtx0 vtx1 : OutputVertex)
    (h : ∀ v ∈ list, v.pos.w ≠ 0) : ∃ out, drawFan viewport vtx0 vtx1 list = some out := by
  induction list generalizing vtx1 with
  | nil => exact ⟨[], rfl⟩
  | cons vtx2 list ih =>
    obtain ⟨vtx2', hvtx2⟩ := initScreenCoordinates_some viewport (h vtx2 (by simp))
    obtain ⟨rest, hrest⟩ := ih vtx2' fun v hv => h v (List.mem_cons_of_mem _ hv)
    rw [drawFan, hvtx2, Option.bind_eq_bind, Option.bind_some, hrest]
    exact ⟨_, rfl⟩

/-- The triangles that are passed on cover the polygon, and their corners are its. -/
theorem draw_spec (hp : IsPolygon list) (h : draw viewport list = some out) :
    covered out = hull list ∧ out.length = list.length - 2 ∧
      ∀ t ∈ out, t.v0.pos ∈ list.map OutputVertex.pos ∧ t.v1.pos ∈ list.map OutputVertex.pos ∧
        t.v2.pos ∈ list.map OutputVertex.pos := by
  obtain rfl | hlength := hp.length
  · cases h
    exact ⟨by simp [covered, hull_nil], rfl, fun t ht => absurd ht List.not_mem_nil⟩
  obtain ⟨vtx0, vtx1, vtx2, rest, rfl⟩ : ∃ vtx0 vtx1 vtx2 rest,
      list = vtx0 :: vtx1 :: vtx2 :: rest := by
    rcases list with _ | ⟨vtx0, _ | ⟨vtx1, _ | ⟨vtx2, rest⟩⟩⟩
    · simp at hlength
    · simp at hlength
    · simp at hlength
    · exact ⟨vtx0, vtx1, vtx2, rest, rfl⟩
  rw [draw] at h
  simp only [Option.bind_eq_bind, Option.bind_eq_some_iff] at h
  obtain ⟨vtx0', hvtx0, vtx1', hvtx1, hfan⟩ := h
  have hpos0 := (initScreenCoordinates_spec hvtx0).1
  have hpos1 := (initScreenCoordinates_spec hvtx1).1
  obtain ⟨hcovered, hcount, hmem⟩ := drawFan_spec hfan
  rw [List.map_cons, hpos1, ← List.map_cons] at hcovered hmem
  refine ⟨?_, hcount, fun t ht => ?_⟩
  · rw [hcovered, hpos0, hull]
    exact hp.crossing.fan
  · obtain ⟨h0, h1, h2⟩ := hmem t ht
    rw [h0, hpos0]
    exact ⟨List.mem_cons_self, List.mem_cons_of_mem _ h1, List.mem_cons_of_mem _ h2⟩

theorem draw_some (viewport : Viewport) (h : ∀ v ∈ list, v.pos.w ≠ 0) :
    ∃ out, draw viewport list = some out := by
  rcases list with _ | ⟨vtx0, _ | ⟨vtx1, rest⟩⟩
  · exact ⟨[], rfl⟩
  · exact ⟨[], rfl⟩
  · obtain ⟨vtx0', hvtx0⟩ := initScreenCoordinates_some viewport (h vtx0 (by simp))
    obtain ⟨vtx1', hvtx1⟩ := initScreenCoordinates_some viewport (h vtx1 (by simp))
    obtain ⟨out, hout⟩ : ∃ out, drawFan viewport vtx0' vtx1' rest = some out :=
      drawFan_some viewport vtx0' vtx1' fun v hv => h v (by simp [hv])
    rw [draw, hvtx0, Option.bind_eq_bind, Option.bind_some, hvtx1, Option.bind_some]
    exact ⟨out, hout⟩

end Fan

/-! ## The clip volume -/

section Volume

variable {viewport : Viewport} {v : Triangle OutputVertex} {p : Vec4}

/-- The points between the first six planes. -/
def viewVolume : Set Vec4 :=
  {p | |p.x| ≤ p.w ∧ |p.y| ≤ p.w ∧ -p.w ≤ p.z ∧ p.z ≤ 0}

/-- The clip volume, as it is meant to be. -/
def clipVolume : Set Vec4 := {p | p ∈ viewVolume ∧ epsilon ≤ p.w}

/-- The points of a triangle. -/
def points (v : Triangle OutputVertex) : Set Vec4 := convexHull ℚ {v.v0.pos, v.v1.pos, v.v2.pos}

/-- The seven planes leave what the first six do. -/
theorem nearAll_clippingEdges : nearAll clippingEdges = viewVolume := by
  ext p
  simp only [nearAll, clippingEdges, viewVolume, List.forall_mem_cons, Set.mem_ofPred_eq, abs_le]
  simp only [ClippingEdge.dp, dot, Vec4.x, Vec4.y, Vec4.z, Vec4.w, epsilon, Prod.fst_add,
    Prod.snd_add, Prod.fst_zero, Prod.snd_zero, List.not_mem_nil, false_imp_iff, implies_true,
    and_true]
  constructor
  · rintro ⟨h1, h2, h3, h4, h5, h6, -⟩
    refine ⟨⟨?_, ?_⟩, ⟨?_, ?_⟩, ?_, ?_⟩ <;> linarith
  · rintro ⟨⟨h1, h2⟩, ⟨h3, h4⟩, h5, h6⟩
    refine ⟨?_, ?_, ?_, ?_, ?_, ?_, ?_⟩ <;> linarith

theorem isPolygon_triangle (v : Triangle OutputVertex) : IsPolygon [v.v0, v.v1, v.v2] :=
  ⟨crossing_triangle _ _ _, .inr le_rfl⟩

theorem hull_triangle (v : Triangle OutputVertex) : hull [v.v0, v.v1, v.v2] = points v := by
  rw [hull, points]
  congr 1
  ext p
  simp

/-- The polygon that clipping ends with. -/
theorem clip_volume (v : Triangle OutputVertex) :
    ∃ list, clip clippingEdges [v.v0, v.v1, v.v2] = some list ∧ IsPolygon list ∧
      hull list = points v ∩ viewVolume ∧ list.length ≤ 10 := by
  obtain ⟨list, hlist, hpolygon, hhull, hlength⟩ :=
    clip_spec clippingEdges (isPolygon_triangle v) (List.cons_ne_nil _ _)
  rw [hull_triangle, nearAll_clippingEdges] at hhull
  exact ⟨list, hlist, hpolygon, hhull, hlength⟩

theorem mem_hull {list : List OutputVertex} (hp : p ∈ list.map OutputVertex.pos) : p ∈ hull list :=
  subset_convexHull ℚ _ hp

/-- What clipping promises of a triangle: nothing is divided by zero, the triangles passed on cover
what the clip volume has of it, their corners are in it, and there are at most ten of them. -/
def Clips (viewport : Viewport) (v : Triangle OutputVertex) : Prop :=
  ∃ list out, clip clippingEdges [v.v0, v.v1, v.v2] = some list ∧ list.length ≤ 10 ∧
    draw viewport list = some out ∧ processTriangle viewport v = some out ∧
    covered out = points v ∩ clipVolume ∧ out.length = list.length - 2 ∧
    ∀ t ∈ out, t.v0.pos ∈ clipVolume ∧ t.v1.pos ∈ clipVolume ∧ t.v2.pos ∈ clipVolume

/-- Clipping is right where no point of the triangle has a `w` below `epsilon` in the view volume. -/
theorem clips_iff (viewport : Viewport) (v : Triangle OutputVertex) :
    Clips viewport v ↔ ∀ p ∈ points v ∩ viewVolume, epsilon ≤ p.w := by
  obtain ⟨list, hlist, hpolygon, hhull, hlength⟩ := clip_volume v
  constructor
  · rintro ⟨list', out, hlist', -, hdraw, -, hcovered, -⟩ p hp
    obtain rfl := Option.some.inj (hlist.symm.trans hlist')
    rw [(draw_spec hpolygon hdraw).1, hhull] at hcovered
    exact (hcovered.subset hp).2.2
  · intro h
    have hvertices : ∀ p ∈ list.map OutputVertex.pos, p ∈ clipVolume := by
      intro p hp
      have hmem := hhull.subset (mem_hull hp)
      exact ⟨hmem.2, h p hmem⟩
    have hw : ∀ vtx ∈ list, vtx.pos.w ≠ 0 := by
      intro vtx hvtx
      have hle := (hvertices _ (List.mem_map_of_mem hvtx)).2
      have hpos : 0 < epsilon := by norm_num [epsilon]
      exact (hpos.trans_le hle).ne'
    obtain ⟨out, hout⟩ := draw_some viewport hw
    obtain ⟨hcovered, hcount, hmem⟩ := draw_spec hpolygon hout
    refine ⟨list, out, hlist, hlength, hout, ?_, ?_, hcount, fun t ht => ?_⟩
    · rw [processTriangle, hlist]
      exact hout
    · rw [hcovered, hhull]
      ext p
      exact ⟨fun hp => ⟨hp.1, hp.2, h p hp⟩, fun hp => ⟨hp.1, hp.2.1⟩⟩
    · obtain ⟨h0, h1, h2⟩ := hmem t ht
      exact ⟨hvertices _ h0, hvertices _ h1, hvertices _ h2⟩

/-- A vertex at a position. -/
def vertexAt (pos : Vec4) : OutputVertex := ⟨pos, 0, 0, 0, 0, 0, 0⟩

/-- A triangle with a corner at the origin is not cut there: its `w` is divided by. -/
theorem not_clips_origin : ¬ Clips ⟨0, 0, 0, 0, 0, 0⟩
    ⟨vertexAt 0, vertexAt (1, 0, 0, 1), vertexAt (0, 1, 0, 1)⟩ := by
  have hnone : processTriangle ⟨0, 0, 0, 0, 0, 0⟩
      ⟨vertexAt 0, vertexAt (1, 0, 0, 1), vertexAt (0, 1, 0, 1)⟩ = none := by decide +kernel
  rintro ⟨list, out, -, -, -, hsome, -⟩
  rw [hnone] at hsome
  cases hsome

end Volume

end Mikage.Pica.Clipper
