import Mikage.Lib.Blocks
import Mikage.Memory.MemoryManager

/-!
# Who owns the memory of a region

`Shows m P`: the blocks of a map are separated, and `P` says which positions they cover under which
owner. Each update of a map is one step on `P` (`Shows.erase`, `Shows.set`, `Shows.defragment`);
`Inv` says that `free` and `taken` show the two halves of an ownership function, and each call of the
manager updates that function.
-/

namespace Mikage

open Block

variable {Owner : Type}

def toBlock (e : PAddr × MemoryBlock Owner) : Block (Option Owner) :=
  ⟨e.1.toNat, e.2.sizeBytes.toNat, e.2.owner⟩

def blocks (m : BlockMap Owner) : List (Block (Option Owner)) := m.entries.map toBlock

/-- The blocks are separated, and these are the positions and owners they cover. -/
structure Shows (m : BlockMap Owner) (P : Nat → Option Owner → Prop) : Prop where
  separated : Separated (blocks m)
  labels : ∀ x o, Labels (blocks m) x o ↔ P x o

section

variable {m : BlockMap Owner} {P Q : Nat → Option Owner → Prop} {e e' : PAddr × MemoryBlock Owner}
  {k : PAddr} {v : MemoryBlock Owner} {x : Nat} {o : Option Owner}

theorem mem_blocks {b : Block (Option Owner)} : b ∈ blocks m ↔ ∃ e ∈ m, toBlock e = b :=
  List.mem_map

theorem toBlock_mem (he : e ∈ m) : toBlock e ∈ blocks m := List.mem_map_of_mem he

theorem labels_blocks : Labels (blocks m) x o ↔ ∃ e ∈ m, (toBlock e).Contains x ∧ e.2.owner = o := by
  unfold Labels
  constructor
  · rintro ⟨b, hb, hx, ho⟩
    obtain ⟨e, he, rfl⟩ := mem_blocks.1 hb
    exact ⟨e, he, hx, ho⟩
  · rintro ⟨e, he, hx, ho⟩
    exact ⟨toBlock e, toBlock_mem he, hx, ho⟩

theorem Shows.congr (h : Shows m P) (hPQ : ∀ x o, P x o ↔ Q x o) : Shows m Q :=
  ⟨h.separated, fun x o => (h.labels x o).trans (hPQ x o)⟩

theorem Shows.pos (h : Shows m P) (he : e ∈ m) : 0 < e.2.sizeBytes.toNat :=
  h.separated.nonempty _ (toBlock_mem he)

/-- What a block covers. -/
theorem Shows.of_mem (h : Shows m P) (he : e ∈ m) (hx : (toBlock e).Contains x) :
    P x e.2.owner :=
  (h.labels x _).1 ⟨toBlock e, toBlock_mem he, hx, rfl⟩

theorem Shows.at_start (h : Shows m P) (he : e ∈ m) : P e.1.toNat e.2.owner :=
  h.of_mem he (contains_start (h.pos he))

theorem Shows.empty : Shows (SortedMap.empty : BlockMap Owner) (fun _ _ => False) where
  separated := .nil
  labels x o := by simp [labels_blocks]

theorem Shows.erase (h : Shows m P) (he : e ∈ m) :
    Shows (m.erase e.1) (fun x o => P x o ∧ ¬ (toBlock e).Contains x) where
  separated := h.separated.sublist (List.filter_sublist.map _)
  labels x o := by
    rw [labels_blocks, ← h.labels, labels_blocks]
    constructor
    · rintro ⟨e', he', hx, ho⟩
      obtain ⟨he', hne⟩ := SortedMap.mem_erase.1 he'
      refine ⟨⟨e', he', hx, ho⟩, fun hxe => hne ?_⟩
      have heq := h.separated.unique (toBlock_mem he') (toBlock_mem he) hx hxe
      exact BitVec.eq_of_toNat_eq (congrArg Block.start heq)
    · rintro ⟨⟨e', he', hx, ho⟩, hxe⟩
      refine ⟨e', SortedMap.mem_erase.2 ⟨he', fun hkey => hxe ?_⟩, hx, ho⟩
      rw [← SortedMap.eq_of_fst_eq he' he hkey]
      exact hx

/-- A new block that covers nothing covered. -/
theorem Shows.set (h : Shows m P) (hpos : 0 < v.sizeBytes.toNat)
    (hnew : ∀ x, (toBlock (k, v)).Contains x → ∀ o, ¬ P x o) :
    Shows (m.set k v) (fun x o => P x o ∨ ((toBlock (k, v)).Contains x ∧ v.owner = o)) := by
  have hkey : ∀ e ∈ m, e.1 ≠ k := by
    rintro e he rfl
    exact hnew e.1.toNat (contains_start (b := toBlock (e.1, v)) hpos) _ (h.at_start he)
  have hmem : ∀ e, e ∈ m.set k v ↔ e ∈ m ∨ e = (k, v) := by
    intro e
    rw [SortedMap.mem_set]
    exact or_congr_left (and_iff_left_of_imp (hkey e))
  constructor
  · refine .of_disjoint ?_ ?_ ?_
    · intro b hb
      obtain ⟨e, he, rfl⟩ := mem_blocks.1 hb
      rcases (hmem e).1 he with he | rfl
      · exact h.pos he
      · exact hpos
    · exact List.pairwise_map.2 (m.set k v).sorted
    · intro b hb b' hb' x hx hx'
      obtain ⟨e, he, rfl⟩ := mem_blocks.1 hb
      obtain ⟨e', he', rfl⟩ := mem_blocks.1 hb'
      rcases (hmem e).1 he with he | rfl <;> rcases (hmem e').1 he' with he' | rfl
      · exact h.separated.unique (toBlock_mem he) (toBlock_mem he') hx hx'
      · exact absurd (h.of_mem he hx) (hnew x hx' _)
      · exact absurd (h.of_mem he' hx') (hnew x hx _)
      · rfl
  · intro x o
    simp only [← h.labels, labels_blocks, hmem]
    constructor
    · rintro ⟨e, he | rfl, hx, ho⟩
      · exact .inl ⟨e, he, hx, ho⟩
      · exact .inr ⟨hx, ho⟩
    · rintro (⟨e, he, hx, ho⟩ | ⟨hx, ho⟩)
      · exact ⟨e, .inl he, hx, ho⟩
      · exact ⟨_, .inr rfl, hx, ho⟩

end

/-! ## Merging -/

theorem lock_eq {alive : Owner → Bool} {o : Option Owner} (h : ∀ a, o = some a → alive a) :
    MemoryManager.lock alive o = o := by
  cases o with
  | none => rfl
  | some a => simp [MemoryManager.lock, Option.filter, h a rfl]

/-- What the test of the source compares. -/
theorem neighbours_iff {alive : Owner → Bool} {e e' : PAddr × MemoryBlock Owner}
    (hle : (toBlock e).stop ≤ (toBlock e').start) (h : ∀ a, e.2.owner = some a → alive a)
    (h' : ∀ a, e'.2.owner = some a → alive a) :
    (e.1 + e.2.sizeBytes = e'.1 ∧
      MemoryManager.lock alive e.2.owner = MemoryManager.lock alive e'.2.owner) ↔
    (toBlock e).stop = (toBlock e').start ∧ (toBlock e).label = (toBlock e').label := by
  rw [lock_eq h, lock_eq h']
  refine and_congr_left fun _ => ?_
  have hstart := e'.1.isLt
  unfold Block.stop toBlock at *
  simp only at *
  rw [← BitVec.toNat_inj, BitVec.toNat_add]
  omega

/-- With all owners alive the search only tests. -/
theorem search_eq {valid : Option Owner → Bool} {condition : String}
    {test : PAddr × MemoryBlock Owner → Bool} : ∀ {l : List (PAddr × MemoryBlock Owner)},
    (∀ e ∈ l, valid e.2.owner) →
    MemoryManager.search valid condition test l = .ok (l.find? test)
  | [], _ => rfl
  | e :: l, h => by
    have he : valid e.2.owner = true := h e (.head _)
    rw [MemoryManager.search, if_neg (by simp [he]), List.find?_cons]
    cases test e with
    | true => rfl
    | false => exact search_eq fun e' he' => h e' (.tail _ he')

section

variable [DecidableEq Owner] {alive : Owner → Bool} {lo hi : Nat}

/-- Between positions less than `2 ^ 32` apart the sums of the source do not wrap. -/
theorem mergeFrom_blocks (hsize : hi < lo + 2 ^ 32) (e : PAddr × MemoryBlock Owner)
    (l : List (PAddr × MemoryBlock Owner)) (hs : Separated ((e :: l).map toBlock))
    (hin : ∀ c ∈ e :: l, lo ≤ (toBlock c).start ∧ (toBlock c).stop ≤ hi)
    (hlive : ∀ c ∈ e :: l, ∀ a, c.2.owner = some a → alive a) :
    (MemoryManager.mergeFrom alive e l).map toBlock = coalesce ((e :: l).map toBlock) := by
  fun_induction MemoryManager.mergeFrom alive e l with
  | case1 => rw [List.map_singleton, coalesce]
  | case2 e e' l h ih =>
    have hle : (toBlock e).stop ≤ (toBlock e').start := hs.head_le (.head _)
    have hblock := (neighbours_iff hle (hlive e (.head _)) (hlive e' (.tail _ (.head _)))).1 h
    have h1 := hin e (.head _)
    have h2 := hin e' (.tail _ (.head _))
    have hpos : 0 < (toBlock e).size := hs.nonempty _ (.head _)
    have hmerged : toBlock (e.1, { e.2 with sizeBytes := e.2.sizeBytes + e'.2.sizeBytes }) =
        { toBlock e with size := (toBlock e).size + (toBlock e').size } := by
      have hsum : (e.2.sizeBytes + e'.2.sizeBytes).toNat =
          e.2.sizeBytes.toNat + e'.2.sizeBytes.toNat := by
        unfold Block.stop toBlock at *
        simp only at *
        rw [BitVec.toNat_add]
        omega
      simp only [toBlock, hsum]
    have hin' : ∀ c ∈ (e.1, { e.2 with sizeBytes := e.2.sizeBytes + e'.2.sizeBytes }) :: l,
        lo ≤ (toBlock c).start ∧ (toBlock c).stop ≤ hi := by
      intro c hc
      rcases List.mem_cons.1 hc with rfl | hc
      · rw [hmerged]
        unfold Block.stop at *
        simp only at *
        omega
      · exact hin c (.tail _ (.tail _ hc))
    have hlive' : ∀ c ∈ (e.1, { e.2 with sizeBytes := e.2.sizeBytes + e'.2.sizeBytes }) :: l,
        ∀ a, c.2.owner = some a → alive a := by
      intro c hc
      rcases List.mem_cons.1 hc with rfl | hc
      · exact hlive e (.head _)
      · exact hlive c (.tail _ (.tail _ hc))
    have hs' : Separated (((e.1, { e.2 with sizeBytes := e.2.sizeBytes + e'.2.sizeBytes }) ::
        l).map toBlock) := by
      rw [List.map_cons, hmerged, separated_cons]
      refine ⟨Nat.lt_of_lt_of_le hpos (Nat.le_add_right _ _), fun c hc => ?_, hs.tail.tail⟩
      have hle' := hs.tail.head_le hc
      unfold Block.stop at *
      simp only at *
      omega
    rw [ih hs' hin' hlive', List.map_cons, List.map_cons, List.map_cons, hmerged,
      coalesce_merge hblock]
  | case3 e e' l h ih =>
    have hle : (toBlock e).stop ≤ (toBlock e').start := hs.head_le (.head _)
    have hblock := mt (neighbours_iff hle (hlive e (.head _)) (hlive e' (.tail _ (.head _)))).2 h
    rw [List.map_cons, ih hs.tail (fun c hc => hin c (.tail _ hc))
      (fun c hc => hlive c (.tail _ hc)), List.map_cons, List.map_cons, List.map_cons,
      coalesce_keep hblock]

theorem mergeNeighbours_blocks (hsize : hi < lo + 2 ^ 32) :
    ∀ (l : List (PAddr × MemoryBlock Owner)), Separated (l.map toBlock) →
    (∀ e ∈ l, lo ≤ (toBlock e).start ∧ (toBlock e).stop ≤ hi) →
    (∀ e ∈ l, ∀ a, e.2.owner = some a → alive a) →
    (MemoryManager.mergeNeighbours alive l).map toBlock = coalesce (l.map toBlock)
  | [], _, _, _ => by rw [List.map_nil, coalesce]; rfl
  | e :: l, hs, hin, hlive => mergeFrom_blocks hsize e l hs hin hlive

/-- Merging covers the same positions, and leaves no two neighbours of one owner. -/
theorem Shows.defragment {m : BlockMap Owner} {P : Nat → Option Owner → Prop} (h : Shows m P)
    (hsize : hi < lo + 2 ^ 32) (hin : ∀ x o, P x o → lo ≤ x ∧ x < hi)
    (hlive : ∀ x a, P x (some a) → alive a) :
    Shows (MemoryManager.defragment alive m) P ∧
      Coalesced (blocks (MemoryManager.defragment alive m)) := by
  have hblocks : blocks (MemoryManager.defragment alive m) = coalesce (blocks m) := by
    refine mergeNeighbours_blocks hsize m.entries h.separated (fun e he => ?_) ?_
    · have hpos := h.pos he
      have hlast : (toBlock e).Contains ((toBlock e).stop - 1) := by
        unfold Block.Contains Block.stop toBlock
        simp only
        omega
      have h1 := hin _ _ (h.at_start he)
      have h2 := hin _ _ (h.of_mem he hlast)
      exact ⟨h1.1, by omega⟩
    · intro e he a ho
      exact hlive e.1.toNat a (ho ▸ h.at_start he)
  refine ⟨⟨?_, fun x o => ?_⟩, ?_⟩
  · rw [hblocks]
    exact separated_coalesce h.separated
  · rw [hblocks, labels_coalesce]
    exact h.labels x o
  · rw [hblocks]
    exact coalesced_coalesce h.separated

end

end Mikage
