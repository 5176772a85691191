import Mathlib
import Mikage.Framework.Exceptions

/-!
# Index upload

Indices of 8 bits are widened one by one for the host, those of 16 bits are copied as they are. The
loop that widens them counts in 16 bits, so it never ends for more than `0xffff` vertices.
-/

namespace Mikage.Pica.Vulkan

/-- The registers of an indexed draw, with the address that the indices are at. -/
structure IndexArray where
  indexAddress : ℕ
  indexU16 : Bool
  numVertices : BitVec 32
  deriving DecidableEq, Repr

/-- The bytes at `next_vertex_ptr`, how far that has been moved, the range of the indices, and where
the index memory has been read: offsets with numbers of bytes. -/
structure Upload where
  host : ℕ → BitVec 8
  nextVertexPtr : BitVec 32
  minVertexIndex : ℕ
  maxVertexIndex : ℕ
  reads : List (ℕ × ℕ)

namespace IndexArray

variable (c : IndexArray)

/-- `size_index_data`, in 32 bits. -/
def sizeIndexData : BitVec 32 := c.numVertices * if c.indexU16 then 2 else 1

/-- The offset of an element, in 32 bits, and its size. -/
def element (index : ℕ) : ℕ × ℕ := if c.indexU16 then (2 * index % 2 ^ 32, 2) else (index, 1)

def vertexAt (data : ℕ → BitVec 8) (index : ℕ) : ℕ :=
  if c.indexU16 then (data (2 * index % 2 ^ 32)).toNat + 256 * (data (2 * index % 2 ^ 32 + 1)).toNat
  else (data index).toNat

end IndexArray

/-- The loop for the range of the indices. -/
def indexBounds (c : IndexArray) (data : ℕ → BitVec 8) (host : ℕ → BitVec 8) : Upload :=
  let r := (List.range c.numVertices.toNat).foldl (fun s index =>
    { s with
      minVertexIndex := min s.minVertexIndex (c.vertexAt data index)
      maxVertexIndex := max s.maxVertexIndex (c.vertexAt data index)
      reads := s.reads ++ [c.element index] }) (⟨host, 0, 2 ^ 32 - 1, 0, []⟩ : Upload)
  { r with minVertexIndex := min r.minVertexIndex r.maxVertexIndex }

/-- One round of the loop that widens: two bytes for the host from one of the guest. -/
def widenIndex (data : ℕ → BitVec 8) (indexIndex : BitVec 16) (s : Upload) : Upload :=
  { s with
    host := fun a =>
      if a = 2 * indexIndex.toNat then data indexIndex.toNat
      else if a = 2 * indexIndex.toNat + 1 then 0 else s.host a
    reads := s.reads ++ [(indexIndex.toNat, 1)] }

/-- The loop, with a counter of 16 bits. `none` is a loop that has not ended. -/
def widenLoop (data : ℕ → BitVec 8) (numVertices : BitVec 32) :
    ℕ → BitVec 16 → Upload → Option Upload
  | 0, _, _ => none
  | fuel + 1, indexIndex, s =>
    if indexIndex.setWidth 32 < numVertices then
      widenLoop data numVertices fuel (indexIndex + 1) (widenIndex data indexIndex s)
    else some s

/-- `LookupContiguousMemoryBackedPage` -/
def lookupIndices (backed : ℕ → ℕ → Bool) (c : IndexArray) : Except Exception Unit :=
  if c.sizeIndexData = 0 then throw (.contractViolated "num_bytes != 0")
  else if backed c.indexAddress c.sizeIndexData.toNat then pure ()
  else throw (.runtimeError "Requested contiguous memory region that extends past available memory")

/-- The upload of the indices in `FinalizeTriangleBatchInternal`. -/
def uploadIndices (backed : ℕ → ℕ → Bool) (data : ℕ → BitVec 8) (c : IndexArray)
    (host : ℕ → BitVec 8) (fuel : ℕ) : Option (Except Exception Upload) :=
  match lookupIndices backed c with
  | .error e => some (.error e)
  | .ok () =>
    let s := indexBounds c data host
    if c.indexU16 then
      let size := c.sizeIndexData
      some (.ok { s with
        host := fun a => if a < size.toNat then data a else s.host a
        nextVertexPtr := size
        reads := s.reads ++ [(0, size.toNat)] })
    else
      (widenLoop data c.numVertices fuel 0 s).map fun s =>
        .ok { s with nextVertexPtr := c.sizeIndexData * 2 }

/-! ## What an upload is to do -/

/-- The size of an index of the guest. -/
def IndexArray.elementSize (c : IndexArray) : ℕ := if c.indexU16 then 2 else 1

/-- The host has all the indices with zeros above them, behind them nothing has changed, and nothing
but the elements of the guest's buffer has been read. -/
structure Expanded (c : IndexArray) (data host : ℕ → BitVec 8) (r : Upload) : Prop where
  low : ∀ i < c.numVertices.toNat, r.host (2 * i) = data (c.elementSize * i)
  high : ∀ i < c.numVertices.toNat,
    r.host (2 * i + 1) = if c.indexU16 then data (2 * i + 1) else 0
  others : ∀ a, 2 * c.numVertices.toNat ≤ a → r.host a = host a
  moved : r.nextVertexPtr.toNat = 2 * c.numVertices.toNat
  reads : ∀ read ∈ r.reads, read.1 + read.2 ≤ c.elementSize * c.numVertices.toNat

/-- The upload ends, and with all the indices. -/
def ExpandsIndices (backed : ℕ → ℕ → Bool) (c : IndexArray) (data host : ℕ → BitVec 8) : Prop :=
  ∃ fuel r, uploadIndices backed data c host fuel = some (.ok r) ∧ Expanded c data host r

/-! ## The loop for the range -/

section Upload

variable {backed : ℕ → ℕ → Bool} {c : IndexArray} {data host : ℕ → BitVec 8} {s : Upload}

/-- The loop reads each element and writes nothing. -/
theorem indexBounds_spec : (indexBounds c data host).host = host ∧
    (indexBounds c data host).reads = (List.range c.numVertices.toNat).map c.element := by
  have hfold : ∀ (l : List ℕ) (s : Upload),
      (l.foldl (fun s index => { s with
        minVertexIndex := min s.minVertexIndex (c.vertexAt data index)
        maxVertexIndex := max s.maxVertexIndex (c.vertexAt data index)
        reads := s.reads ++ [c.element index] }) s).host = s.host ∧
      (l.foldl (fun s index => { s with
        minVertexIndex := min s.minVertexIndex (c.vertexAt data index)
        maxVertexIndex := max s.maxVertexIndex (c.vertexAt data index)
        reads := s.reads ++ [c.element index] }) s).reads = s.reads ++ l.map c.element := by
    intro l
    induction l with
    | nil => simp
    | cons index l ih =>
      intro s
      rw [List.foldl_cons]
      refine ⟨(ih _).1, (ih _).2.trans ?_⟩
      rw [List.map_cons, List.append_assoc]
      rfl
  have h := hfold (List.range c.numVertices.toNat) ⟨host, 0, 2 ^ 32 - 1, 0, []⟩
  exact ⟨h.1, h.2.trans (List.nil_append _)⟩

/-- The elements are within the buffer, where their offsets do not wrap. -/
theorem indexBounds_reads (hsmall : c.indexU16 = true → c.numVertices.toNat < 2 ^ 31) :
    ∀ read ∈ (indexBounds c data host).reads,
      read.1 + read.2 ≤ c.elementSize * c.numVertices.toNat := by
  intro read hread
  rw [indexBounds_spec.2] at hread
  obtain ⟨i, hi, rfl⟩ := List.mem_map.1 hread
  have hi := List.mem_range.1 hi
  unfold IndexArray.element IndexArray.elementSize
  split
  next hwide =>
    have hlt := hsmall hwide
    rw [Nat.mod_eq_of_lt (by omega)]
    omega
  next => omega

/-! ## The loop that widens -/

/-- A counter of 16 bits is below a larger bound forever. -/
theorem widenLoop_none (hbig : 2 ^ 16 ≤ c.numVertices.toNat) (fuel : ℕ) (i : BitVec 16)
    (s : Upload) : widenLoop data c.numVertices fuel i s = none := by
  induction fuel generalizing i s with
  | zero => rfl
  | succ fuel ih =>
    have hlt : i.setWidth 32 < c.numVertices := by
      have hi := i.isLt
      rw [BitVec.lt_def, BitVec.toNat_setWidth, Nat.mod_eq_of_lt (by omega)]
      omega
    rw [widenLoop, if_pos hlt, ih]

/-- The bytes from `i` on are those of the guest with zeros between them. -/
structure Widened (data : ℕ → BitVec 8) (n i : ℕ) (s s' : Upload) : Prop where
  low : ∀ j, i ≤ j → j < n → s'.host (2 * j) = data j
  high : ∀ j, i ≤ j → j < n → s'.host (2 * j + 1) = 0
  others : ∀ a, a < 2 * i ∨ 2 * n ≤ a → s'.host a = s.host a
  reads : s'.reads = s.reads ++ (List.range' i (n - i)).map fun j => (j, 1)

theorem Widened.step {n : ℕ} {i : BitVec 16} {s' : Upload} (hi : i.toNat < n)
    (h : Widened data n (i.toNat + 1) (widenIndex data i s) s') :
    Widened data n i.toNat s s' := by
  refine ⟨fun j hj hn => ?_, fun j hj hn => ?_, fun a ha => ?_, ?_⟩
  · obtain rfl | hlt := Nat.eq_or_lt_of_le hj
    · rw [h.others _ (.inl (by omega))]
      exact if_pos rfl
    · exact h.low j hlt hn
  · obtain rfl | hlt := Nat.eq_or_lt_of_le hj
    · rw [h.others _ (.inl (by omega))]
      exact (if_neg (by omega)).trans (if_pos rfl)
    · exact h.high j hlt hn
  · rw [h.others a (by omega)]
    exact (if_neg (by omega)).trans (if_neg (by omega))
  · rw [h.reads, widenIndex, List.append_assoc, show n - i.toNat = n - (i.toNat + 1) + 1 by omega,
      List.range'_succ, List.map_cons]
    rfl

/-- The loop ends, with all the indices from its counter on. -/
theorem widenLoop_some (hsmall : c.numVertices.toNat < 2 ^ 16) (m : ℕ) (i : BitVec 16)
    (hm : i.toNat + m = c.numVertices.toNat) (s : Upload) :
    ∃ s', widenLoop data c.numVertices (m + 1) i s = some s' ∧
      s'.nextVertexPtr = s.nextVertexPtr ∧ Widened data c.numVertices.toNat i.toNat s s' := by
  have hwide : (i.setWidth 32).toNat = i.toNat := by
    rw [BitVec.toNat_setWidth, Nat.mod_eq_of_lt (by omega)]
  induction m generalizing i s with
  | zero =>
    have hend : ¬ i.setWidth 32 < c.numVertices := by
      rw [BitVec.lt_def]
      omega
    refine ⟨s, by rw [widenLoop, if_neg hend], rfl, ⟨?_, ?_, fun _ _ => rfl, ?_⟩⟩
    · intro j hj hn
      omega
    · intro j hj hn
      omega
    · rw [show c.numVertices.toNat - i.toNat = 0 by omega, List.range'_zero, List.map_nil,
        List.append_nil]
  | succ m ih =>
    have hlt : i.setWidth 32 < c.numVertices := by
      rw [BitVec.lt_def]
      omega
    have hnext : (i + 1).toNat = i.toNat + 1 := by
      rw [BitVec.toNat_add]
      change (i.toNat + 1) % 2 ^ 16 = _
      rw [Nat.mod_eq_of_lt (by omega)]
    obtain ⟨s', hloop, hmoved, hwidened⟩ := ih (i + 1) (by omega) (widenIndex data i s) (by
      rw [BitVec.toNat_setWidth, Nat.mod_eq_of_lt (by omega)])
    rw [hnext] at hwidened
    refine ⟨s', ?_, hmoved, hwidened.step (by omega)⟩
    rw [widenLoop, if_pos hlt, hloop]

/-! ## The upload -/

theorem sizeIndexData_toNat : c.sizeIndexData.toNat =
    c.elementSize * c.numVertices.toNat % 2 ^ 32 := by
  unfold IndexArray.sizeIndexData IndexArray.elementSize
  rw [BitVec.toNat_mul, Nat.mul_comm]
  split <;> rfl

theorem expands_wide (hwide : c.indexU16 = true) (hsmall : c.numVertices.toNat < 2 ^ 31)
    (hlookup : lookupIndices backed c = .ok ()) : ExpandsIndices backed c data host := by
  have hsize : c.sizeIndexData.toNat = 2 * c.numVertices.toNat := by
    rw [sizeIndexData_toNat, IndexArray.elementSize, if_pos hwide, Nat.mod_eq_of_lt (by omega)]
  have helement : c.elementSize = 2 := if_pos hwide
  have hrun : uploadIndices backed data c host 0 = some (.ok { indexBounds c data host with
      host := fun a =>
        if a < c.sizeIndexData.toNat then data a else (indexBounds c data host).host a
      nextVertexPtr := c.sizeIndexData
      reads := (indexBounds c data host).reads ++ [(0, c.sizeIndexData.toNat)] }) := by
    rw [uploadIndices, hlookup]
    exact if_pos hwide
  refine ⟨0, _, hrun, ?_⟩
  refine ⟨fun i hi => ?_, fun i hi => ?_, fun a ha => ?_, hsize, fun read hread => ?_⟩
  · rw [helement]
    exact if_pos (by omega)
  · rw [if_pos hwide]
    exact if_pos (by omega)
  · refine (if_neg (by omega)).trans ?_
    rw [indexBounds_spec.1]
  · obtain hread | hread := List.mem_append.1 hread
    · exact indexBounds_reads (fun _ => hsmall) read hread
    · rw [List.mem_singleton.1 hread, helement, hsize]
      omega

theorem expands_narrow (hnarrow : ¬ c.indexU16 = true) (hsmall : c.numVertices.toNat < 2 ^ 16)
    (hlookup : lookupIndices backed c = .ok ()) : ExpandsIndices backed c data host := by
  have hzero : (0 : BitVec 16).toNat = 0 := rfl
  have helement : c.elementSize = 1 := if_neg hnarrow
  obtain ⟨s', hloop, -, hwidened⟩ : ∃ s',
      widenLoop data c.numVertices (c.numVertices.toNat + 1) 0 (indexBounds c data host) = some s' ∧
        s'.nextVertexPtr = (indexBounds c data host).nextVertexPtr ∧
        Widened data c.numVertices.toNat 0 (indexBounds c data host) s' :=
    widenLoop_some hsmall c.numVertices.toNat 0 (by rw [hzero, Nat.zero_add]) _
  have hrun : uploadIndices backed data c host (c.numVertices.toNat + 1) =
      some (.ok { s' with nextVertexPtr := c.sizeIndexData * 2 }) := by
    rw [uploadIndices, hlookup]
    refine (if_neg hnarrow).trans ?_
    rw [hloop]
    rfl
  refine ⟨_, _, hrun, ⟨fun i hi => ?_, fun i hi => ?_, fun a ha => ?_, ?_, fun read hread => ?_⟩⟩
  · rw [helement, Nat.one_mul]
    exact hwidened.low i (Nat.zero_le i) hi
  · rw [if_neg hnarrow]
    exact hwidened.high i (Nat.zero_le i) hi
  · exact (hwidened.others a (.inr ha)).trans (by rw [indexBounds_spec.1])
  · change (c.sizeIndexData * 2).toNat = _
    have htwo : (2 : BitVec 32).toNat = 2 := rfl
    rw [BitVec.toNat_mul, sizeIndexData_toNat, helement, htwo]
    omega
  · change read ∈ s'.reads at hread
    rw [hwidened.reads] at hread
    obtain hread | hread := List.mem_append.1 hread
    · exact indexBounds_reads (fun h => absurd h hnarrow) read hread
    · obtain ⟨j, hj, rfl⟩ := List.mem_map.1 hread
      have hj := (List.mem_range'_1.1 hj).2
      rw [helement]
      omega

/-- **Index upload.** Where the memory that is asked for is there, the indices are expanded if there
are some, and too few to wrap a counter or their size. -/
theorem expandsIndices_iff (backed : ℕ → ℕ → Bool) (c : IndexArray) (data host : ℕ → BitVec 8)
    (hbacked : backed c.indexAddress c.sizeIndexData.toNat = true) :
    ExpandsIndices backed c data host ↔
      c.numVertices ≠ 0 ∧ c.numVertices.toNat < if c.indexU16 then 2 ^ 31 else 2 ^ 16 := by
  constructor
  · rintro ⟨fuel, r, hrun, hr⟩
    have hlookup : lookupIndices backed c = .ok () := by
      cases h : lookupIndices backed c with
      | error e =>
        rw [uploadIndices, h] at hrun
        cases hrun
      | ok => rfl
    refine ⟨?_, ?_⟩
    · intro hzero
      rw [lookupIndices, if_pos (by rw [IndexArray.sizeIndexData, hzero]; exact BitVec.zero_mul)]
        at hlookup
      cases hlookup
    · have hmoved := hr.moved
      have hn := c.numVertices.isLt
      rw [uploadIndices, hlookup] at hrun
      by_cases hwide : c.indexU16 = true
      · rw [if_pos hwide]
        simp only [hwide, if_true] at hrun
        cases hrun
        have hlt := c.sizeIndexData.isLt
        change c.sizeIndexData.toNat = _ at hmoved
        omega
      · rw [if_neg hwide]
        by_contra hbig
        simp only [hwide, Bool.false_eq_true, if_false] at hrun
        rw [widenLoop_none (by omega)] at hrun
        cases hrun
  · rintro ⟨hpos, hsmall⟩
    have hn : 0 < c.numVertices.toNat := Nat.pos_of_ne_zero fun h => hpos (BitVec.eq_of_toNat_eq h)
    have hlookup : lookupIndices backed c = .ok () := by
      have hsize : ¬ c.sizeIndexData = 0 := by
        intro hzero
        have h := congrArg BitVec.toNat hzero
        rw [sizeIndexData_toNat, IndexArray.elementSize] at h
        change _ = 0 at h
        split at h <;> split at hsmall <;> simp_all
        all_goals omega
      rw [lookupIndices, if_neg hsize, if_pos hbacked]
      rfl
    by_cases hwide : c.indexU16 = true
    · exact expands_wide hwide (by rwa [if_pos hwide] at hsmall) hlookup
    · exact expands_narrow hwide (by rwa [if_neg hwide] at hsmall) hlookup

theorem expandsIndices_three : ExpandsIndices (fun _ _ => true) ⟨0x20000000, false, 3⟩
    (fun i => BitVec.ofNat 8 i) (fun _ => 0xff) :=
  (expandsIndices_iff _ ⟨0x20000000, false, 3⟩ _ _ rfl).2 ⟨by decide, by decide⟩

/-- A draw of `0x10000` vertices with indices of 8 bits. -/
theorem widening_never_ends :
    ¬ (∀ (c : IndexArray) (data host : ℕ → BitVec 8),
        ExpandsIndices (fun _ _ => true) c data host) ∧
      ∀ fuel, uploadIndices (fun _ _ => true) (fun _ => 0) ⟨0x20000000, false, 0x10000⟩ (fun _ => 0)
        fuel = none := by
  have hnone (fuel : ℕ) : uploadIndices (fun _ _ => true) (fun _ => 0)
      ⟨0x20000000, false, 0x10000⟩ (fun _ => 0) fuel = none := by
    change (widenLoop _ (⟨0x20000000, false, 0x10000⟩ : IndexArray).numVertices fuel 0 _).map _ = _
    rw [widenLoop_none (by decide)]
    rfl
  refine ⟨fun h => ?_, hnone⟩
  obtain ⟨fuel, r, hrun, -⟩ := h ⟨0x20000000, false, 0x10000⟩ (fun _ => 0) fun _ => 0
  rw [hnone] at hrun
  cases hrun

end Upload

end Mikage.Pica.Vulkan
