import Mathlib
import Mikage.Memory.VirtualMemory
import Mikage.Lib.Masks
import Mikage.Lib.Run

/-!
# Texture memory

`FindFreePartition` cuts a partition out of the first free one that has room behind the next 64 KiB
boundary. That boundary is behind the first byte of the free partition also where this byte is on
one, so something of it always stays free in front, and `std::prev(lower_bound)` finds it again.

- `Inv`: free and returned partitions divide the memory, and the free ones end on a boundary.
- `partitions_exact`: what holds in every run.
-/

namespace Mikage.Pica.Vulkan

/-- A start and a size. -/
abbrev Partition : Type := BitVec 32 × BitVec 32

namespace Partition

variable (p : Partition)

def stop : ℕ := p.1.toNat + p.2.toNat

def alignedPartitionStart (bits : ℕ) : BitVec 32 :=
  (p.1 + 1#32 <<< bits) &&& ~~~(1#32 <<< bits - 1)

def availableSizeWithAlignmentOf (bits : ℕ) : BitVec 32 :=
  p.2 - (alignedPartitionStart p bits - p.1)

def Contains (x : ℕ) : Prop := p.1.toNat ≤ x ∧ x < stop p

def Apart (p p' : Partition) : Prop := stop p ≤ p'.1.toNat ∨ stop p' ≤ p.1.toNat

end Partition

inductive PartitionError where
  | tooLarge | outOfMemory | cannotFit
  /-- `std::prev` of the first iterator. -/
  | undefined
  deriving DecidableEq, Repr

abbrev FreePartitions : Type := SortedMap (BitVec 32) (BitVec 32)

/-- `insert`, of a partition with a size. -/
def insertPartition (free : FreePartitions) (p : Partition) : FreePartitions :=
  if p.2 ≠ 0 then free.insert p.1 p.2 else free

/-- The lambda of `FindFreePartition`. -/
def allocatePartition (free : FreePartitions) (start size : BitVec 32) :
    Except PartitionError (Partition × FreePartitions) :=
  match free.prevLowerBound start with
  | none => .error .undefined
  | some it =>
    if start < it.1 ∨ it.1 + it.2 < start + size then .error .cannotFit
    else
      let left : Partition := (it.1, start - it.1)
      let right : Partition := (start + size, it.1 + it.2 - start - size)
      .ok ((start, size), insertPartition (insertPartition (free.erase it.1) left) right)

/-- Sizes of the host have 64 bits. -/
def findFreePartition (allocationSize : BitVec 32) (free : FreePartitions) (size : BitVec 64) :
    Except PartitionError (Partition × FreePartitions) :=
  if allocationSize.setWidth 64 < size then .error .tooLarge
  else
    match free.entries.find? fun p =>
        size ≤ (Partition.availableSizeWithAlignmentOf p 16).setWidth 64 with
    | none => .error .outOfMemory
    | some p => allocatePartition free (Partition.alignedPartitionStart p 16) (size.setWidth 32)

/-! ## Runs -/

structure TexturePool where
  free : FreePartitions
  returned : List Partition

/-- One free partition. -/
def initialPool (allocationSize : BitVec 32) : TexturePool :=
  ⟨SortedMap.empty.insert 0 allocationSize, []⟩

/-- A call with a positive size. -/
inductive PoolStep (allocationSize : BitVec 32) : TexturePool → TexturePool → Prop where
  | found {s size p free} : size ≠ 0 →
      findFreePartition allocationSize s.free size = .ok (p, free) →
      PoolStep allocationSize s ⟨free, p :: s.returned⟩
  | failed {s size e} : size ≠ 0 → findFreePartition allocationSize s.free size = .error e →
      PoolStep allocationSize s s

abbrev PoolRun (allocationSize : BitVec 32) : TexturePool → Prop :=
  Run.Reachable (· = initialPool allocationSize) (PoolStep allocationSize)

/-- The returned partitions are aligned, and with the free ones they divide the memory. -/
structure PoolExact (allocationSize : BitVec 32) (s : TexturePool) : Prop where
  aligned : ∀ p ∈ s.returned, p.1.toNat % 0x10000 = 0
  freeApart : ∀ p ∈ s.free, ∀ p' ∈ s.free, p = p' ∨ Partition.Apart p p'
  returnedApart : s.returned.Pairwise Partition.Apart
  apart : ∀ p ∈ s.free, ∀ p' ∈ s.returned, Partition.Apart p p'
  covers : ∀ x, (∃ p, (p ∈ s.free ∨ p ∈ s.returned) ∧ Partition.Contains p x) ↔
    x < allocationSize.toNat
  inside : ∀ p, p ∈ s.free ∨ p ∈ s.returned → Partition.stop p ≤ allocationSize.toNat

/-- What a call does besides. `Start` says which places in a free partition count: a call is out of
memory only if there is room at none of them. -/
structure CallExact (Start : Partition → ℕ → Prop) (allocationSize : BitVec 32) (s : TexturePool)
    (size : BitVec 64) : Prop where
  noUnderflow : size.toNat ≤ allocationSize.toNat → ∀ p ∈ s.free,
    p.1.toNat + 0x10000 < 2 ^ 32 ∧
      (Partition.alignedPartitionStart p 16 - p.1).toNat ≤ p.2.toNat
  fits : findFreePartition allocationSize s.free size ≠ .error .cannotFit
  defined : findFreePartition allocationSize s.free size ≠ .error .undefined
  outOfMemory : findFreePartition allocationSize s.free size = .error .outOfMemory →
    ∀ p ∈ s.free, ∀ start, start % 0x10000 = 0 → Start p start →
      ¬ start + size.toNat ≤ Partition.stop p

/-! ## Rounding up -/

section Rounding

variable {p : Partition}

/-- The next boundary behind the start. -/
theorem alignedPartitionStart_toNat (h : p.1.toNat + 0x10000 < 2 ^ 32) :
    (Partition.alignedPartitionStart p 16).toNat = (p.1.toNat / 0x10000 + 1) * 0x10000 := by
  have hone : (1#32 <<< 16).toNat = 0x10000 := rfl
  have hmask : (1#32 <<< 16 - 1) = BitVec.ofNat 32 (2 ^ 16 - 1) := rfl
  rw [Partition.alignedPartitionStart, hmask, BitVec.toNat_and_not_mask, BitVec.toNat_add, hone,
    Nat.mod_eq_of_lt h]
  omega

/-- A partition that ends on a boundary has one behind its start, and its size from there on. -/
theorem available_toNat (h : p.1.toNat + 0x10000 < 2 ^ 32) (hpos : 0 < p.2.toNat)
    (hend : Partition.stop p % 0x10000 = 0) :
    (Partition.alignedPartitionStart p 16 - p.1).toNat ≤ p.2.toNat ∧
    (Partition.availableSizeWithAlignmentOf p 16).toNat =
      Partition.stop p - (Partition.alignedPartitionStart p 16).toNat := by
  have hstart := alignedPartitionStart_toNat h
  have hlt := (Partition.alignedPartitionStart p 16).isLt
  have hp := p.2.isLt
  unfold Partition.stop at hend ⊢
  have hdiff : (Partition.alignedPartitionStart p 16 - p.1).toNat =
      (Partition.alignedPartitionStart p 16).toNat - p.1.toNat :=
    BitVec.toNat_sub_of_le (BitVec.le_def.2 (by omega))
  have hle : (Partition.alignedPartitionStart p 16 - p.1).toNat ≤ p.2.toNat := by omega
  refine ⟨hle, ?_⟩
  rw [Partition.availableSizeWithAlignmentOf, BitVec.toNat_sub_of_le (BitVec.le_def.2 hle), hdiff]
  omega

end Rounding

/-! ## The invariant -/

structure Inv (allocationSize : BitVec 32) (s : TexturePool) : Prop
    extends PoolExact allocationSize s where
  nonempty : 0 < allocationSize.toNat → ∀ p ∈ s.free, 0 < p.2.toNat
  aligned_stop : ∀ p ∈ s.free, Partition.stop p % 0x10000 = 0

section Steps

variable {S : BitVec 32} {s : TexturePool} {p it : Partition} {start size : BitVec 32}

theorem Inv.start_lt (hS : S.toNat < 2 ^ 32 - 0x10000) (h : Inv S s) (hp : p ∈ s.free) :
    p.1.toNat + 0x10000 < 2 ^ 32 := by
  have := h.inside p (.inl hp)
  unfold Partition.stop at this
  omega

/-- A block behind the first byte of a free partition. -/
structure Fits (it : Partition) (start size : BitVec 32) : Prop where
  behind : it.1.toNat < start.toNat
  inside : start.toNat + size.toNat ≤ Partition.stop it
  pos : 0 < size.toNat

/-- The iterator finds the free partition of a block. -/
theorem Inv.prevLowerBound (h : Inv S s) (hit : it ∈ s.free) (hf : Fits it start size) :
    s.free.prevLowerBound start = some it := by
  cases hfind : s.free.prevLowerBound start with
  | none =>
    have hle := SortedMap.prevLowerBound_eq_none_iff.1 hfind it hit
    rw [BitVec.le_def] at hle
    exact absurd hf.behind (by omega)
  | some p =>
    obtain ⟨hp, hlt, hlast⟩ := SortedMap.prevLowerBound_spec hfind
    rw [BitVec.lt_def] at hlt
    obtain heq | hbefore := hlast it hit (BitVec.lt_def.2 hf.behind)
    · rw [heq]
    · rw [BitVec.lt_def] at hbefore
      have hinside := hf.inside
      have hpos := hf.pos
      obtain rfl | hapart | hapart := h.freeApart it hit p hp
      · exact absurd hbefore (Nat.lt_irrefl _)
      · omega
      · unfold Partition.stop at hapart
        omega

/-- What is left of a free partition in front of a block and behind it. -/
def leftOf (it : Partition) (start : BitVec 32) : Partition := (it.1, start - it.1)

def rightOf (it : Partition) (start size : BitVec 32) : Partition :=
  (start + size, it.1 + it.2 - start - size)

/-- The pieces, as numbers. -/
theorem Fits.pieces (hf : Fits it start size) (hstop : Partition.stop it < 2 ^ 32) :
    (leftOf it start).stop = start.toNat ∧ 0 < (leftOf it start).2.toNat ∧
      (rightOf it start size).1.toNat = start.toNat + size.toNat ∧
      (rightOf it start size).stop = Partition.stop it := by
  obtain ⟨hbehind, hinside, -⟩ := hf
  unfold leftOf rightOf Partition.stop at *
  dsimp only at *
  have hleft : (start - it.1).toNat = start.toNat - it.1.toNat :=
    BitVec.toNat_sub_of_le (BitVec.le_def.2 (by omega))
  have hend : (it.1 + it.2).toNat = it.1.toNat + it.2.toNat :=
    BitVec.toNat_add_of_lt hstop
  have hmiddle : (start + size).toNat = start.toNat + size.toNat :=
    BitVec.toNat_add_of_lt (by omega)
  have hrest : (it.1 + it.2 - start).toNat = it.1.toNat + it.2.toNat - start.toNat := by
    rw [BitVec.toNat_sub_of_le (BitVec.le_def.2 (by omega)), hend]
  have hright : (it.1 + it.2 - start - size).toNat =
      it.1.toNat + it.2.toNat - start.toNat - size.toNat := by
    rw [BitVec.toNat_sub_of_le (BitVec.le_def.2 (by omega)), hrest]
  omega

theorem mem_insertPartition {free : FreePartitions} {q : Partition}
    (h : q.2 ≠ 0 → ∀ p ∈ free, p.1 ≠ q.1) :
    p ∈ insertPartition free q ↔ p ∈ free ∨ p = q ∧ q.2 ≠ 0 := by
  unfold insertPartition
  split
  next hne => rw [SortedMap.mem_insert_of_fresh (h hne), and_iff_left hne]
  next heq => exact ⟨.inl, fun h => h.resolve_right fun h => heq h.2⟩

theorem toNat_pos {x : BitVec 32} : 0 < x.toNat ↔ x ≠ 0 := by
  rw [Nat.pos_iff_ne_zero, ne_eq, ne_eq, BitVec.toNat_eq]
  rfl

theorem Inv.stop_lt (h : Inv S s) (hp : p ∈ s.free) : Partition.stop p < 2 ^ 32 :=
  (h.inside p (.inl hp)).trans_lt S.isLt

/-- Which partitions are free after a block has been taken. -/
theorem Inv.mem_allocated (h : Inv S s) (hit : it ∈ s.free) (hf : Fits it start size) :
    p ∈ insertPartition (insertPartition (s.free.erase it.1) (leftOf it start))
        (rightOf it start size) ↔
      p ∈ s.free ∧ p ≠ it ∨ p = leftOf it start ∨
        p = rightOf it start size ∧ (rightOf it start size).2 ≠ 0 := by
  obtain ⟨hleft, hpos, hmiddle, hright⟩ := hf.pieces (h.stop_lt hit)
  have herase (p : Partition) : p ∈ s.free.erase it.1 ↔ p ∈ s.free ∧ p ≠ it := by
    rw [SortedMap.mem_erase]
    refine and_congr_right fun hp => not_congr ⟨SortedMap.eq_of_fst_eq hp hit, ?_⟩
    rintro rfl
    rfl
  have hfirst (p : Partition) : p ∈ insertPartition (s.free.erase it.1) (leftOf it start) ↔
      p ∈ s.free ∧ p ≠ it ∨ p = leftOf it start := by
    have hfresh : (leftOf it start).2 ≠ 0 → ∀ p ∈ s.free.erase it.1, p.1 ≠ (leftOf it start).1 :=
      fun _ p hp => (SortedMap.mem_erase.1 hp).2
    rw [mem_insertPartition hfresh, herase, and_iff_left (toNat_pos.1 hpos)]
  rw [mem_insertPartition ?_, hfirst, or_assoc]
  intro hne p hp heq
  have hsize := toNat_pos.2 hne
  have hstart := congrArg BitVec.toNat heq
  have hbehind := hf.behind
  obtain ⟨hp, hpit⟩ | rfl := (hfirst p).1 hp
  · have hppos : 0 < p.2.toNat := by
      refine h.nonempty ?_ p hp
      have := h.inside it (.inl hit)
      have := hf.inside
      omega
    obtain rfl | hapart | hapart := h.freeApart p hp it hit
    · exact hpit rfl
    · unfold Partition.stop at hapart
      omega
    · unfold Partition.stop at hright hapart
      omega
  · change it.1.toNat = _ at hstart
    omega

/-! ## One call -/

/-- A part of a partition. -/
def Within (q it : Partition) : Prop :=
  it.1.toNat ≤ q.1.toNat ∧ Partition.stop q ≤ Partition.stop it

theorem Within.apart {q it p : Partition} (h : Within q it) (hapart : Partition.Apart it p) :
    Partition.Apart q p := by
  obtain ⟨h1, h2⟩ := h
  unfold Partition.Apart at *
  omega

theorem Partition.Apart.symm {p q : Partition} (h : Partition.Apart p q) : Partition.Apart q p :=
  Or.symm h

/-- The free partition is cut in three. -/
theorem Fits.contains (hf : Fits it start size) (hstop : Partition.stop it < 2 ^ 32) (x : ℕ) :
    Partition.Contains it x ↔ Partition.Contains (leftOf it start) x ∨
      Partition.Contains (start, size) x ∨
        (rightOf it start size).2 ≠ 0 ∧ Partition.Contains (rightOf it start size) x := by
  obtain ⟨hleft, -, hmiddle, hright⟩ := hf.pieces hstop
  have hbehind := hf.behind
  have hinside := hf.inside
  rw [← toNat_pos]
  unfold Partition.Contains
  rw [hleft, hmiddle, hright]
  unfold Partition.stop at *
  change _ ↔ (it.1.toNat ≤ x ∧ _) ∨ (start.toNat ≤ x ∧ x < start.toNat + size.toNat) ∨ _
  omega

/-- The parts of a free partition are beside every other one. -/
theorem Inv.apart_other (h : Inv S s) (hit : it ∈ s.free) (hp : p ∈ s.free ∧ p ≠ it)
    {q : Partition} (hq : Within q it) : Partition.Apart q p :=
  hq.apart ((h.freeApart it hit p hp.1).resolve_left fun heq => hp.2 heq.symm)

theorem Fits.within (hf : Fits it start size) (hstop : Partition.stop it < 2 ^ 32) :
    Within (leftOf it start) it ∧ Within (start, size) it ∧ Within (rightOf it start size) it := by
  obtain ⟨hleft, -, hmiddle, hright⟩ := hf.pieces hstop
  have hbehind := hf.behind
  have hinside := hf.inside
  exact ⟨⟨le_refl _, by omega⟩, ⟨hbehind.le, hinside⟩, ⟨by omega, hright.le⟩⟩

/-- What is free after a block has been taken is apart from each other. -/
theorem Inv.allocated_freeApart (h : Inv S s) (hit : it ∈ s.free) (hf : Fits it start size) :
    let free := insertPartition (insertPartition (s.free.erase it.1) (leftOf it start))
      (rightOf it start size)
    ∀ p ∈ free, ∀ p' ∈ free, p = p' ∨ Partition.Apart p p' := by
  obtain ⟨hleft, -, hmiddle, -⟩ := hf.pieces (h.stop_lt hit)
  obtain ⟨hleftWithin, -, hrightWithin⟩ := hf.within (h.stop_lt hit)
  have hbehind := hf.behind
  have hpieces : Partition.Apart (leftOf it start) (rightOf it start size) := .inl (by omega)
  intro free p hp p' hp'
  obtain hp | rfl | ⟨rfl, -⟩ := (h.mem_allocated hit hf).1 hp <;>
    obtain hp' | rfl | ⟨rfl, -⟩ := (h.mem_allocated hit hf).1 hp'
  · exact h.freeApart p hp.1 p' hp'.1
  · exact .inr (h.apart_other hit hp hleftWithin).symm
  · exact .inr (h.apart_other hit hp hrightWithin).symm
  · exact .inr (h.apart_other hit hp' hleftWithin)
  · exact .inl rfl
  · exact .inr hpieces
  · exact .inr (h.apart_other hit hp' hrightWithin)
  · exact .inr hpieces.symm
  · exact .inl rfl

/-- No byte is lost or taken twice with the block. -/
theorem Inv.allocated_covers (h : Inv S s) (hit : it ∈ s.free) (hf : Fits it start size) (x : ℕ) :
    (∃ p, (p ∈ insertPartition (insertPartition (s.free.erase it.1) (leftOf it start))
        (rightOf it start size) ∨ p ∈ (start, size) :: s.returned) ∧ Partition.Contains p x) ↔
      ∃ p, (p ∈ s.free ∨ p ∈ s.returned) ∧ Partition.Contains p x := by
  have hmem (p : Partition) := h.mem_allocated (p := p) hit hf
  have hcut := hf.contains (h.stop_lt hit) x
  constructor
  · rintro ⟨p, hp | hp, hx⟩
    · obtain hp | rfl | ⟨rfl, hne⟩ := (hmem p).1 hp
      · exact ⟨p, .inl hp.1, hx⟩
      · exact ⟨it, .inl hit, hcut.2 (.inl hx)⟩
      · exact ⟨it, .inl hit, hcut.2 (.inr (.inr ⟨hne, hx⟩))⟩
    · obtain rfl | hp := List.mem_cons.1 hp
      · exact ⟨it, .inl hit, hcut.2 (.inr (.inl hx))⟩
      · exact ⟨p, .inr hp, hx⟩
  · rintro ⟨p, hp | hp, hx⟩
    · by_cases hpit : p = it
      · subst hpit
        obtain hx | hx | ⟨hne, hx⟩ := hcut.1 hx
        · exact ⟨_, .inl ((hmem _).2 (.inr (.inl rfl))), hx⟩
        · exact ⟨_, .inr List.mem_cons_self, hx⟩
        · exact ⟨_, .inl ((hmem _).2 (.inr (.inr ⟨rfl, hne⟩))), hx⟩
      · exact ⟨p, .inl ((hmem p).2 (.inl ⟨hp, hpit⟩)), hx⟩
    · exact ⟨p, .inr (List.mem_cons_of_mem _ hp), hx⟩

/-- **One block.** Taking an aligned block out of a free partition keeps the invariant. -/
theorem Inv.allocated (h : Inv S s) (hit : it ∈ s.free) (hf : Fits it start size)
    (haligned : start.toNat % 0x10000 = 0) :
    Inv S ⟨insertPartition (insertPartition (s.free.erase it.1) (leftOf it start))
      (rightOf it start size), (start, size) :: s.returned⟩ := by
  have hstop := h.stop_lt hit
  obtain ⟨hleft, hpos, hmiddle, hright⟩ := hf.pieces hstop
  have hmem (p : Partition) := h.mem_allocated (p := p) hit hf
  have hbehind := hf.behind
  have hinside := hf.inside
  obtain ⟨hleftWithin, hblockWithin, hrightWithin⟩ := hf.within hstop
  have hblock : Partition.stop (start, size) = start.toNat + size.toNat := rfl
  refine ⟨⟨?_, h.allocated_freeApart hit hf, ?_, ?_, fun x => ?_, fun p hp => ?_⟩,
    fun hS p hp => ?_, fun p hp => ?_⟩
  · rintro p (_ | ⟨_, hp⟩)
    · exact haligned
    · exact h.aligned p hp
  · exact .cons (fun p hp => hblockWithin.apart (h.apart it hit p hp)) h.returnedApart
  · intro p hp p' hp'
    obtain rfl | hp' := List.mem_cons.1 hp'
    · obtain hp | rfl | ⟨rfl, -⟩ := (hmem p).1 hp
      · exact (h.apart_other hit hp hblockWithin).symm
      · exact .inl hleft.le
      · exact .inr (by omega)
    · obtain hp | rfl | ⟨rfl, -⟩ := (hmem p).1 hp
      · exact h.apart p hp.1 p' hp'
      · exact hleftWithin.apart (h.apart it hit p' hp')
      · exact hrightWithin.apart (h.apart it hit p' hp')
  · rw [← h.covers x]
    exact h.allocated_covers hit hf x
  · have hle := h.inside it (.inl hit)
    obtain hp | hp := hp
    · obtain hp | rfl | ⟨rfl, -⟩ := (hmem p).1 hp
      · exact h.inside p (.inl hp.1)
      · exact hleftWithin.2.trans hle
      · exact hrightWithin.2.trans hle
    · obtain rfl | hp := List.mem_cons.1 hp
      · exact hblockWithin.2.trans hle
      · exact h.inside p (.inr hp)
  · obtain hp | rfl | ⟨rfl, hne⟩ := (hmem p).1 hp
    · exact h.nonempty hS p hp.1
    · exact hpos
    · exact toNat_pos.2 hne
  · obtain hp | rfl | ⟨rfl, -⟩ := (hmem p).1 hp
    · exact h.aligned_stop p hp.1
    · rw [hleft]
      exact haligned
    · rw [hright]
      exact h.aligned_stop it hit

/-- The lambda takes the block. -/
theorem Inv.allocatePartition_eq (h : Inv S s) (hit : it ∈ s.free) (hf : Fits it start size) :
    allocatePartition s.free start size = .ok ((start, size),
      insertPartition (insertPartition (s.free.erase it.1) (leftOf it start))
        (rightOf it start size)) := by
  have hstop := h.stop_lt hit
  have hinside := hf.inside
  have hfits : ¬ (start < it.1 ∨ it.1 + it.2 < start + size) := by
    have hend : (it.1 + it.2).toNat = Partition.stop it := BitVec.toNat_add_of_lt hstop
    have hmiddle : (start + size).toNat = start.toNat + size.toNat :=
      BitVec.toNat_add_of_lt (by omega)
    have hbehind := hf.behind
    rw [BitVec.lt_def, BitVec.lt_def, hend, hmiddle]
    omega
  rw [allocatePartition, h.prevLowerBound hit hf]
  exact if_neg hfits

/-- How a call with a positive size ends. -/
theorem Inv.find_cases (hS : S.toNat < 2 ^ 32 - 0x10000) (h : Inv S s) {n : BitVec 64}
    (hn : n ≠ 0) :
    S.toNat < n.toNat ∧ findFreePartition S s.free n = .error .tooLarge ∨
    n.toNat ≤ S.toNat ∧ findFreePartition S s.free n = .error .outOfMemory ∧
      (∀ p ∈ s.free, (Partition.availableSizeWithAlignmentOf p 16).toNat < n.toNat) ∨
    ∃ it ∈ s.free, Fits it (Partition.alignedPartitionStart it 16) (n.setWidth 32) ∧
      findFreePartition S s.free n = allocatePartition s.free
        (Partition.alignedPartitionStart it 16) (n.setWidth 32) := by
  have hn0 : 0 < n.toNat := Nat.pos_of_ne_zero fun h => hn (BitVec.eq_of_toNat_eq h)
  have hwide (x : BitVec 32) : (x.setWidth 64).toNat = x.toNat := by
    rw [BitVec.toNat_setWidth, Nat.mod_eq_of_lt (by have := x.isLt; omega)]
  by_cases hbig : S.setWidth 64 < n
  · refine .inl ⟨?_, by rw [findFreePartition, if_pos hbig]⟩
    rwa [BitVec.lt_def, hwide] at hbig
  have hle : n.toNat ≤ S.toNat := by
    rw [BitVec.lt_def, hwide] at hbig
    omega
  refine .inr ?_
  rw [findFreePartition, if_neg hbig]
  cases hfind : s.free.entries.find? fun p =>
      n ≤ (Partition.availableSizeWithAlignmentOf p 16).setWidth 64 with
  | none =>
    refine .inl ⟨hle, rfl, fun p hp => ?_⟩
    have hnot := List.find?_eq_none.1 hfind p hp
    rw [decide_eq_true_eq, BitVec.le_def, hwide] at hnot
    omega
  | some it =>
    have hit : it ∈ s.free := List.mem_of_find?_eq_some hfind
    have hroom := List.find?_some hfind
    rw [decide_eq_true_eq, BitVec.le_def, hwide] at hroom
    have hstart := h.start_lt hS hit
    have hpos := h.nonempty (by omega) it hit
    have hboundary := alignedPartitionStart_toNat hstart
    obtain ⟨-, havailable⟩ := available_toNat hstart hpos (h.aligned_stop it hit)
    have hsize : (n.setWidth 32).toNat = n.toNat := by
      rw [BitVec.toNat_setWidth, Nat.mod_eq_of_lt (by have := S.isLt; omega)]
    refine .inr ⟨it, hit, ⟨by omega, by omega, by omega⟩, rfl⟩

theorem Inv.step (hS : S.toNat < 2 ^ 32 - 0x10000) (h : Inv S s) {s' : TexturePool}
    (hstep : PoolStep S s s') : Inv S s' := by
  cases hstep with
  | failed => exact h
  | found hn hfound =>
    obtain ⟨-, heq⟩ | ⟨-, heq, -⟩ | ⟨it, hit, hf, heq⟩ := h.find_cases hS hn
    · rw [heq] at hfound
      cases hfound
    · rw [heq] at hfound
      cases hfound
    · rw [heq, h.allocatePartition_eq hit hf] at hfound
      cases hfound
      refine h.allocated hit hf ?_
      rw [alignedPartitionStart_toNat (h.start_lt hS hit)]
      omega

theorem Inv.init (hS : S.toNat % 0x10000 = 0) : Inv S (initialPool S) := by
  have hmem (p : Partition) : p ∈ (initialPool S).free ↔ p = (0, S) := List.mem_singleton
  have hstop : Partition.stop (0, S) = S.toNat := Nat.zero_add _
  refine ⟨⟨nofun, ?_, .nil, nofun, fun x => ?_, ?_⟩, ?_, ?_⟩
  · intro p hp p' hp'
    rw [(hmem p).1 hp, (hmem p').1 hp']
    exact .inl rfl
  · constructor
    · rintro ⟨p, hp | hp, hx⟩
      · rw [(hmem p).1 hp] at hx
        exact hstop ▸ hx.2
      · cases hp
    · exact fun hx => ⟨(0, S), .inl ((hmem _).2 rfl), Nat.zero_le _, hstop ▸ hx⟩
  · rintro p (hp | hp)
    · rw [(hmem p).1 hp, hstop]
    · cases hp
  · intro hpos p hp
    rw [(hmem p).1 hp]
    exact hpos
  · intro p hp
    rw [(hmem p).1 hp, hstop]
    exact hS

/-! ## Every run -/

theorem Inv.call (hS : S.toNat < 2 ^ 32 - 0x10000) (h : Inv S s) {n : BitVec 64} (hn : n ≠ 0) :
    CallExact (fun p start => p.1.toNat < start) S s n := by
  have hcases := h.find_cases hS hn
  refine ⟨fun hle p hp => ?_, ?_, ?_, fun hout p hp start haligned hstart => ?_⟩
  · have hn0 : 0 < n.toNat := Nat.pos_of_ne_zero fun h => hn (BitVec.eq_of_toNat_eq h)
    have hlt := h.start_lt hS hp
    exact ⟨hlt, (available_toNat hlt (h.nonempty (by omega) p hp) (h.aligned_stop p hp)).1⟩
  · obtain ⟨-, heq⟩ | ⟨-, heq, -⟩ | ⟨it, hit, hf, heq⟩ := hcases
    · rw [heq]
      nofun
    · rw [heq]
      nofun
    · rw [heq, h.allocatePartition_eq hit hf]
      nofun
  · obtain ⟨-, heq⟩ | ⟨-, heq, -⟩ | ⟨it, hit, hf, heq⟩ := hcases
    · rw [heq]
      nofun
    · rw [heq]
      nofun
    · rw [heq, h.allocatePartition_eq hit hf]
      nofun
  · obtain ⟨-, heq⟩ | ⟨hle, -, hnone⟩ | ⟨it, hit, hf, heq⟩ := hcases
    · rw [heq] at hout
      cases hout
    · have hn0 : 0 < n.toNat := Nat.pos_of_ne_zero fun h => hn (BitVec.eq_of_toNat_eq h)
      have hlt := h.start_lt hS hp
      have hboundary := alignedPartitionStart_toNat hlt
      have havailable :=
        (available_toNat hlt (h.nonempty (by omega) p hp) (h.aligned_stop p hp)).2
      have hroom := hnone p hp
      omega
    · rw [heq, h.allocatePartition_eq hit hf] at hout
      cases hout

/-- **Texture memory.** In every run the partitions are exact, and so is every further call, where
only the room behind the first byte of a free partition counts. -/
theorem partitions_exact (allocationSize : BitVec 32)
    (haligned : allocationSize.toNat % 0x10000 = 0)
    (hsmall : allocationSize.toNat < 2 ^ 32 - 0x10000) {s : TexturePool}
    (hs : PoolRun allocationSize s) :
    PoolExact allocationSize s ∧ ∀ size : BitVec 64, size ≠ 0 →
      CallExact (fun p start => p.1.toNat < start) allocationSize s size := by
  have hinv : Inv allocationSize s := by
    refine Run.Reachable.invariant ?_ (fun s s' h hstep => h.step hsmall hstep) hs
    rintro s rfl
    exact Inv.init haligned
  exact ⟨hinv.toPoolExact, fun size hsize => hinv.call hsmall hsize⟩

theorem partitions_exact_initial : PoolExact 0x20000 (initialPool 0x20000) ∧
    ∀ size : BitVec 64, size ≠ 0 → CallExact (fun p start => p.1.toNat < start) 0x20000
      (initialPool 0x20000) size :=
  partitions_exact 0x20000 (by decide) (by decide) (.start rfl)

/-- All of the memory is free and starts on a boundary, but a block of its size is not found. -/
theorem first_boundary_unused : ¬ ∀ (allocationSize : BitVec 32),
    allocationSize.toNat % 0x10000 = 0 → allocationSize.toNat < 2 ^ 32 - 0x10000 →
      ∀ s, PoolRun allocationSize s → ∀ size : BitVec 64, size ≠ 0 →
        CallExact (fun p start => p.1.toNat ≤ start) allocationSize s size := by
  intro h
  have hcall := h 0x10000 (by decide) (by decide) _ (.start rfl) 0x10000 (by decide)
  exact hcall.outOfMemory (by decide) (0, 0x10000) (by decide) 0 rfl (le_refl _) (by decide)

end Steps

end Mikage.Pica.Vulkan
