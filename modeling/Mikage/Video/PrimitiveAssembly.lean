import Mathlib.Data.List.Range
import Mathlib.Tactic.Cases
import Mathlib.Logic.Function.Basic

/-!
# Primitive assembly

`PrimitiveAssembler` turns a stream of vertices into triangles with a buffer of two vertices, an
index and a flag. What the buffer holds after `n` vertices depends on the topology: `ListHolds`,
`StripHolds` and `FanHolds` say so, and each comes with the triangles emitted until then. A fan is
ready after its first vertex, when the second slot is still that of an earlier primitive.
-/

namespace Mikage.Pica

variable {α : Type}

/-- `Regs::TriangleTopology`. -/
inductive TriangleTopology where
  | list | strip | fan | listIndexed
  deriving DecidableEq, Repr

/-- The vertices `triangle_handler` is called with. -/
structure Triangle (α : Type) where
  v0 : α
  v1 : α
  v2 : α
  deriving DecidableEq, Repr

/-- `PrimitiveAssembler`; only the slots 0 and 1 of the buffer exist (`submit_index`). -/
structure PrimitiveAssembler (α : Type) where
  topology : TriangleTopology
  bufferIndex : ℕ
  buffer : ℕ → α
  stripReady : Bool

namespace PrimitiveAssembler

/-- `Configure`, which leaves the vertices in the buffer. -/
def configure (s : PrimitiveAssembler α) (topology : TriangleTopology) : PrimitiveAssembler α :=
  { s with topology := topology, bufferIndex := 0, stripReady := false }

/-- The triangle of the two buffered vertices and the submitted one. -/
def triangle (s : PrimitiveAssembler α) (vtx : α) : Triangle α :=
  ⟨s.buffer 0, s.buffer 1, vtx⟩

/-- `buffer[buffer_index] = vtx`. -/
def put (s : PrimitiveAssembler α) (vtx : α) : PrimitiveAssembler α :=
  { s with buffer := Function.update s.buffer s.bufferIndex vtx }

/-- `SubmitVertex`, with the triangle that the handler gets. -/
def submitVertex (s : PrimitiveAssembler α) (vtx : α) :
    PrimitiveAssembler α × Option (Triangle α) :=
  match s.topology with
  | .list | .listIndexed =>
    if s.bufferIndex < 2 then
      ({ s.put vtx with bufferIndex := s.bufferIndex + 1 }, none)
    else
      ({ s with bufferIndex := 0 }, some (s.triangle vtx))
  | .strip =>
    ({ s.put vtx with
        stripReady := s.stripReady || s.bufferIndex == 1
        bufferIndex := if s.bufferIndex = 0 then 1 else 0 },
      if s.stripReady then some (s.triangle vtx) else none)
  | .fan =>
    ({ s.put vtx with bufferIndex := 1, stripReady := true },
      if s.stripReady then some (s.triangle vtx) else none)

/-- The assembler after the first `n` vertices of the stream `v`, and the triangles so far. -/
def submit (s : PrimitiveAssembler α) (v : ℕ → α) : ℕ → PrimitiveAssembler α × List (Triangle α)
  | 0 => (s, [])
  | n + 1 =>
    let (s', out) := submit s v n
    let (s'', t) := s'.submitVertex (v n)
    (s'', out ++ t.toList)

/-- What the first `n` vertices of a stream emit after a reset to the topology. -/
def emitted (s : PrimitiveAssembler α) (topology : TriangleTopology) (v : ℕ → α) (n : ℕ) :
    List (Triangle α) :=
  ((s.configure topology).submit v n).2

theorem submit_succ (s : PrimitiveAssembler α) (v : ℕ → α) (n : ℕ) :
    s.submit v (n + 1) =
      (((s.submit v n).1.submitVertex (v n)).1,
        (s.submit v n).2 ++ ((s.submit v n).1.submitVertex (v n)).2.toList) := rfl

/-! ## The triangles of a topology -/

/-- Triangle `k` of a list. -/
def listTriangle (v : ℕ → α) (k : ℕ) : Triangle α := ⟨v (3 * k), v (3 * k + 1), v (3 * k + 2)⟩

/-- Triangle `k` of a strip; every other one has its first two vertices exchanged, so that all of
them wind the same way. -/
def stripTriangle (v : ℕ → α) (k : ℕ) : Triangle α :=
  if k % 2 = 0 then ⟨v k, v (k + 1), v (k + 2)⟩ else ⟨v (k + 1), v k, v (k + 2)⟩

/-- Triangle `k` of a fan. -/
def fanTriangle (v : ℕ → α) (k : ℕ) : Triangle α := ⟨v 0, v (k + 1), v (k + 2)⟩

/-- The triangles of the first `n` vertices of a stream, as the topology defines them. -/
def triangles (v : ℕ → α) (n : ℕ) : TriangleTopology → List (Triangle α)
  | .list | .listIndexed => (List.range (n / 3)).map (listTriangle v)
  | .strip => (List.range (n - 2)).map (stripTriangle v)
  | .fan => (List.range (n - 2)).map (fanTriangle v)

/-- The vertices of the triangle are among the first `n` of the stream. -/
def Submitted (v : ℕ → α) (n : ℕ) (t : Triangle α) : Prop :=
  ∃ i < n, ∃ j < n, ∃ k < n, t = ⟨v i, v j, v k⟩

theorem triangles_submitted (v : ℕ → α) (n : ℕ) (topology : TriangleTopology) :
    ∀ t ∈ triangles v n topology, Submitted v n t := by
  intro t ht
  cases topology <;> simp only [triangles, List.mem_map, List.mem_range] at ht <;>
    obtain ⟨k, hk, rfl⟩ := ht
  case list | listIndexed =>
    exact ⟨3 * k, by omega, 3 * k + 1, by omega, 3 * k + 2, by omega, rfl⟩
  case strip =>
    unfold stripTriangle
    split
    · exact ⟨k, by omega, k + 1, by omega, k + 2, by omega, rfl⟩
    · exact ⟨k + 1, by omega, k, by omega, k + 2, by omega, rfl⟩
  case fan =>
    exact ⟨0, by omega, k + 1, by omega, k + 2, by omega, rfl⟩

/-! ## What the buffer holds -/

/-- After `n` vertices of a list: the vertices of the triangle that is not complete. -/
structure ListHolds (s : PrimitiveAssembler α) (v : ℕ → α) (n : ℕ) : Prop where
  topology : s.topology = .list ∨ s.topology = .listIndexed
  index : s.bufferIndex = n % 3
  first : 1 ≤ n % 3 → s.buffer 0 = v (n - n % 3)
  second : n % 3 = 2 → s.buffer 1 = v (n - 1)

/-- After `n` vertices of a strip: the last two, in the slots of their parity. -/
structure StripHolds (s : PrimitiveAssembler α) (v : ℕ → α) (n : ℕ) : Prop where
  topology : s.topology = .strip
  index : s.bufferIndex = n % 2
  ready : s.stripReady = decide (2 ≤ n)
  last : ∀ k, n = k + 1 → s.buffer (k % 2) = v k
  previous : ∀ k, n = k + 2 → s.buffer (k % 2) = v k

/-- After `n` vertices of a fan: the first and the last, and before the second of them what the
slot held at the reset. -/
structure FanHolds (stale : α) (s : PrimitiveAssembler α) (v : ℕ → α) (n : ℕ) : Prop where
  topology : s.topology = .fan
  index : s.bufferIndex = if n = 0 then 0 else 1
  ready : s.stripReady = decide (1 ≤ n)
  first : 1 ≤ n → s.buffer 0 = v 0
  last : s.buffer 1 = if n ≤ 1 then stale else v (n - 1)

section Steps

variable {s : PrimitiveAssembler α} {v : ℕ → α} {n : ℕ} {stale : α}

theorem submitVertex_list (ht : s.topology = .list ∨ s.topology = .listIndexed) (vtx : α) :
    s.submitVertex vtx =
      if s.bufferIndex < 2 then ({ s.put vtx with bufferIndex := s.bufferIndex + 1 }, none)
      else ({ s with bufferIndex := 0 }, some (s.triangle vtx)) := by
  obtain ht | ht := ht <;> simp only [submitVertex, ht]

theorem ListHolds.step (h : ListHolds s v n) : ListHolds (s.submitVertex (v n)).1 v (n + 1) := by
  rw [submitVertex_list h.topology, h.index]
  obtain h0 | h1 | h2 : n % 3 = 0 ∨ n % 3 = 1 ∨ n % 3 = 2 := by omega
  · have hn : (n + 1) % 3 = 1 := by omega
    rw [if_pos (by omega)]
    exact ⟨h.topology, by simp [h0, hn], fun _ => by simp [put, h.index, h0, hn], by omega⟩
  · have hn : (n + 1) % 3 = 2 := by omega
    rw [if_pos (by omega)]
    refine ⟨h.topology, by simp [h1, hn], fun _ => ?_, fun _ => by simp [put, h.index, h1]⟩
    have hfirst := h.first (by omega)
    rw [hn, show n + 1 - 2 = n - n % 3 by omega, ← hfirst]
    simp [put, h.index, h1]
  · have hn : (n + 1) % 3 = 0 := by omega
    rw [if_neg (by omega)]
    exact ⟨h.topology, hn.symm, by omega, by omega⟩

theorem ListHolds.emits (h : ListHolds s v n) :
    (s.submitVertex (v n)).2 = if n % 3 = 2 then some (listTriangle v (n / 3)) else none := by
  rw [submitVertex_list h.topology, h.index]
  by_cases h2 : n % 3 = 2
  · rw [if_neg (by omega), if_pos h2]
    have hfirst := h.first (by omega)
    have hsecond := h.second h2
    simp only [triangle, listTriangle, hfirst, hsecond]
    rw [show n - n % 3 = 3 * (n / 3) by omega, show n - 1 = 3 * (n / 3) + 1 by omega,
      show 3 * (n / 3) + 2 = n by omega]
  · rw [if_pos (by omega), if_neg h2]

theorem StripHolds.step (h : StripHolds s v n) :
    StripHolds (s.submitVertex (v n)).1 v (n + 1) := by
  simp only [submitVertex, h.topology, h.index, h.ready]
  refine ⟨h.topology, ?_, ?_, ?_, ?_⟩
  · show (if n % 2 = 0 then 1 else 0) = (n + 1) % 2
    split <;> omega
  · show (decide (2 ≤ n) || n % 2 == 1) = decide (2 ≤ n + 1)
    rw [Bool.eq_iff_iff]
    simp only [Bool.or_eq_true, decide_eq_true_eq, beq_iff_eq]
    omega
  · rintro k hk
    obtain rfl : n = k := by omega
    simp [put, h.index]
  · rintro k hk
    obtain rfl : n = k + 1 := by omega
    have hne : k % 2 ≠ (k + 1) % 2 := by omega
    simpa [put, h.index, hne] using h.last k rfl

theorem StripHolds.emits (h : StripHolds s v n) :
    (s.submitVertex (v n)).2 = if 2 ≤ n then some (stripTriangle v (n - 2)) else none := by
  simp only [submitVertex, h.topology, h.ready, decide_eq_true_eq]
  by_cases hn : 2 ≤ n
  · obtain ⟨k, rfl⟩ := Nat.exists_eq_add_of_le' hn
    have hlast := h.last (k + 1) rfl
    have hprevious := h.previous k rfl
    simp only [hn, if_true, triangle, stripTriangle, Nat.add_sub_cancel]
    obtain hk | hk : k % 2 = 0 ∨ k % 2 = 1 := by omega
    · rw [hk] at hprevious
      rw [show (k + 1) % 2 = 1 by omega] at hlast
      rw [if_pos hk, hlast, hprevious]
    · rw [hk] at hprevious
      rw [show (k + 1) % 2 = 0 by omega] at hlast
      rw [if_neg (by omega), hlast, hprevious]
  · simp only [hn, if_false]

theorem FanHolds.step (h : FanHolds stale s v n) :
    FanHolds stale (s.submitVertex (v n)).1 v (n + 1) := by
  simp only [submitVertex, h.topology]
  refine ⟨h.topology, by simp, by simp, fun _ => ?_, ?_⟩
  · obtain rfl | hn := Nat.eq_zero_or_pos n
    · simp [put, h.index]
    · simpa [put, h.index, hn.ne'] using h.first hn
  · obtain rfl | hn := Nat.eq_zero_or_pos n
    · simpa [put, h.index] using h.last
    · simp [put, h.index, hn.ne']

theorem FanHolds.emits (h : FanHolds stale s v n) :
    (s.submitVertex (v n)).2 =
      if n = 0 then none
      else if n = 1 then some ⟨v 0, stale, v 1⟩
      else some (fanTriangle v (n - 2)) := by
  simp only [submitVertex, h.topology, h.ready, decide_eq_true_eq, triangle, h.last]
  obtain rfl | rfl | hn : n = 0 ∨ n = 1 ∨ 2 ≤ n := by omega
  · simp
  · simp [h.first le_rfl]
  · obtain ⟨k, rfl⟩ := Nat.exists_eq_add_of_le' hn
    simp [h.first (by omega), fanTriangle]

end Steps

/-! ## Whole streams -/

section Streams

variable (s : PrimitiveAssembler α) (v : ℕ → α) (n : ℕ)

theorem submit_list {topology : TriangleTopology}
    (ht : topology = .list ∨ topology = .listIndexed) :
    ListHolds ((s.configure topology).submit v n).1 v n ∧
      s.emitted topology v n = (List.range (n / 3)).map (listTriangle v) := by
  unfold emitted
  induction n with
  | zero => exact ⟨⟨ht, rfl, by omega, by omega⟩, rfl⟩
  | succ n ih =>
    obtain ⟨hs, hout⟩ := ih
    rw [submit_succ]
    refine ⟨hs.step, ?_⟩
    rw [hout, hs.emits]
    by_cases h2 : n % 3 = 2
    · rw [if_pos h2, show (n + 1) / 3 = n / 3 + 1 by omega, List.range_succ, List.map_append]
      rfl
    · rw [if_neg h2, show (n + 1) / 3 = n / 3 by omega]
      exact List.append_nil _

theorem submit_strip :
    StripHolds ((s.configure .strip).submit v n).1 v n ∧
      s.emitted .strip v n = (List.range (n - 2)).map (stripTriangle v) := by
  unfold emitted
  induction n with
  | zero => exact ⟨⟨rfl, rfl, rfl, by omega, by omega⟩, rfl⟩
  | succ n ih =>
    obtain ⟨hs, hout⟩ := ih
    rw [submit_succ]
    refine ⟨hs.step, ?_⟩
    rw [hout, hs.emits]
    by_cases hn : 2 ≤ n
    · rw [if_pos hn, show n + 1 - 2 = n - 2 + 1 by omega, List.range_succ, List.map_append]
      rfl
    · rw [if_neg hn, show n + 1 - 2 = n - 2 by omega]
      exact List.append_nil _

/-- The first triangle of a fan comes with its second vertex and has what the slot held before. -/
theorem submit_fan :
    FanHolds (s.buffer 1) ((s.configure .fan).submit v n).1 v n ∧
      s.emitted .fan v n =
        if n ≤ 1 then [] else ⟨v 0, s.buffer 1, v 1⟩ :: (List.range (n - 2)).map (fanTriangle v) := by
  unfold emitted
  induction n with
  | zero => exact ⟨⟨rfl, rfl, rfl, by omega, rfl⟩, rfl⟩
  | succ n ih =>
    obtain ⟨hs, hout⟩ := ih
    rw [submit_succ]
    refine ⟨hs.step, ?_⟩
    rw [hout, hs.emits]
    obtain rfl | rfl | hn : n = 0 ∨ n = 1 ∨ 2 ≤ n := by omega
    · rfl
    · rfl
    · obtain ⟨k, rfl⟩ := Nat.exists_eq_add_of_le' hn
      rw [if_neg (by omega), if_neg (by omega), if_neg (by omega), if_neg (by omega),
        show k + 2 + 1 - 2 = k + 1 by omega, List.range_succ, List.map_append]
      rfl

/-- The index names one of the two slots whenever a vertex is written. -/
theorem submit_index (topology : TriangleTopology) :
    ((s.configure topology).submit v n).1.bufferIndex ≤
      if topology = .list ∨ topology = .listIndexed then 2 else 1 := by
  cases topology
  case list => rw [(submit_list s v n (.inl rfl)).1.index]; simp; omega
  case listIndexed => rw [(submit_list s v n (.inr rfl)).1.index]; simp; omega
  case strip => rw [(submit_strip s v n).1.index]; simp; omega
  case fan => rw [(submit_fan s v n).1.index]; split <;> simp

/-- **Primitive assembly.** A reset assembler emits the triangles of its topology, made of vertices
submitted since, unless it is to assemble a fan of two vertices or more. -/
theorem emitted_iff (topology : TriangleTopology) :
    (s.emitted topology v n = triangles v n topology ∧
        ∀ t ∈ s.emitted topology v n, Submitted v n t) ↔ (topology = .fan → n ≤ 1) := by
  have hsub : s.emitted topology v n = triangles v n topology →
      ∀ t ∈ s.emitted topology v n, Submitted v n t := by
    intro h
    rw [h]
    exact triangles_submitted v n topology
  rw [and_iff_left_of_imp hsub]
  cases topology
  case list => exact iff_of_true (submit_list s v n (.inl rfl)).2 nofun
  case listIndexed => exact iff_of_true (submit_list s v n (.inr rfl)).2 nofun
  case strip => exact iff_of_true (submit_strip s v n).2 nofun
  case fan =>
    rw [(submit_fan s v n).2, triangles]
    constructor
    · intro h _
      by_contra hn
      rw [if_neg hn] at h
      have hlength := congrArg List.length h
      simp only [List.length_cons, List.length_map, List.length_range] at hlength
      omega
    · intro h
      rw [if_pos (h rfl), show n - 2 = 0 by have := h rfl; omega]
      rfl

end Streams

/-- After the vertices 7 and 9 of a list, the second vertex of a fan makes a triangle with 9. -/
theorem fan_emits_stale :
    ¬ ∀ (s : PrimitiveAssembler ℕ) (topology : TriangleTopology) (v : ℕ → ℕ) (n : ℕ),
      s.emitted topology v n = triangles v n topology ∧
        ∀ t ∈ s.emitted topology v n, Submitted v n t := by
  intro h
  have h2 := (h ⟨.list, 2, fun i => 7 + 2 * i, false⟩ .fan id 2).1
  exact absurd h2 (by decide)

end PrimitiveAssembler

end Mikage.Pica
