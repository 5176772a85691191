import Mikage.OS.Translate
import Mikage.Memory.MapProof

/-!
# Tables of PXI buffers

What `translatePxiBuffer` writes to the destination: one entry if the mapping of the first byte
covers the buffer, else one for each page, wherever the mappings end.

- `pieces`: the parts of the buffer, one for each entry.
- `TableExact`: the entries are the physical image of the buffer and lie in the static buffer.
- `TableFits`: where they do.
-/

namespace Mikage.IPC

open TranslationDescriptor

/-- The block found holds the address. -/
theorem chunk_pos {m : VirtualMemory} {addr : VAddr} {e : VAddr × VirtualMemoryBlock}
    (h : resolveBlock m addr = some e) : 0 < (e.2.size - (addr - e.1)).toNat := by
  obtain ⟨he, hlt⟩ := Option.filter_eq_some_iff.1 h
  obtain ⟨-, hle, -⟩ := SortedMap.prevUpperBound_spec he
  simp only [decide_eq_true_eq] at hlt
  bv_omega

/-- `ResolveVirtualAddrWithSize` -/
def chunkAt (m : VirtualMemory) (addr : VAddr) : Option Chunk :=
  match h : resolveBlock m addr with
  | none => none
  | some e => some ⟨e.2.physStart + (addr - e.1), e.2.size - (addr - e.1), chunk_pos h⟩

/-- The maps of the two processes, and the words written to the destination for this message. -/
structure Transfer where
  source : VirtualMemory
  dest : VirtualMemory
  words : List (VAddr × BitVec 32)

variable {Object : Type}

/-- A system that translates through the two maps. A write to the destination may throw. -/
def transferSystem (other : System Transfer Object) (fault : VAddr → Option Exception) :
    System Transfer Object :=
  { other with
    resolveVirtualAddrWithSize := fun addr t => chunkAt t.source addr
    resolveDestAddr := fun addr t => resolveVirtualAddr t.dest addr
    writeMemory32 := fun addr value t =>
      match fault addr with
      | some e => .error e t
      | none => .ok () { t with words := t.words ++ [(addr, value)] } }

/-! ## The entries -/

/-- A range cut at the ends of its pages. -/
def pagePieces (addr : VAddr) (size : ℕ) : List (VAddr × ℕ) :=
  if _ : size = 0 then []
  else
    let chunkSize := min size (pageRest addr)
    (addr, chunkSize) :: pagePieces (addr + BitVec.ofNat 32 chunkSize) (size - chunkSize)
  termination_by size
  decreasing_by
    have := pageRest_pos addr
    omega

/-- The parts of a buffer that get entries of their own. -/
def pieces (m : VirtualMemory) (addr : VAddr) (size : ℕ) : List (VAddr × ℕ) :=
  if size ≤ (chunkAt m addr).elim 0 (·.size.toNat) then [(addr, size)] else pagePieces addr size

/-- Where a part is in physical memory. -/
def physicalStart (m : VirtualMemory) (addr : VAddr) : PAddr :=
  (resolveVirtualAddr m addr).getD 0

/-- The words of a table from `offset` on. -/
def tableWords (dest : VAddr) (offset : ℕ) : List (PAddr × BitVec 32) → List (VAddr × BitVec 32)
  | [] => []
  | (addr, size) :: table =>
    (dest + BitVec.ofNat 32 offset, addr) :: (dest + BitVec.ofNat 32 offset + 4, size) ::
      tableWords dest (offset + 8) table

/-- The physical addresses that a table lists. -/
def listed (table : List (PAddr × BitVec 32)) : List PAddr :=
  table.flatMap fun e => (List.range e.2.toNat).map fun k => e.1 + BitVec.ofNat 32 k

/-- Where the bytes of a range are. -/
def image (m : VirtualMemory) (addr : VAddr) (size : ℕ) : List (Option PAddr) :=
  (List.range size).map fun k => resolveVirtualAddr m (addr + BitVec.ofNat 32 k)

/-- Two words do not share a byte. -/
def Apart (a b : VAddr) : Prop := 4 ≤ (a - b).toNat ∧ 4 ≤ (b - a).toNat

section

variable (s s' : Message Transfer) (descriptor : TranslationDescriptor)

def bufferAddr : VAddr := s.tls .source s.tlsOffset

/-- The address of the static buffer in the destination. -/
def tableAddr : VAddr := s.tls .dest (0x184 + 8 * descriptor.pxiBufferId)

/-- The size of the static buffer in the destination. -/
def tableRoom : ℕ :=
  (⟨s.tls .dest (0x180 + 8 * descriptor.pxiBufferId)⟩ : TranslationDescriptor).staticBufferSize

/-- **What a table is**: its entries list the bytes of the buffer in order, their lengths sum up to
the size, and it lies in the static buffer and on no word written before. -/
def TableExact : Prop :=
  ∃ table : List (PAddr × BitVec 32),
    s'.system.words = s.system.words ++ tableWords (tableAddr s descriptor) 0 table ∧
    (listed table).map some = image s.system.source (bufferAddr s) descriptor.pxiBufferSize ∧
    (table.map (·.2.toNat)).sum = descriptor.pxiBufferSize ∧
    8 * table.length ≤ tableRoom s descriptor ∧
    ∀ w ∈ s.system.words, ∀ v ∈ tableWords (tableAddr s descriptor) 0 table, Apart w.1 v.1

/-- The static buffer has room for all entries where nothing has been written, and the bytes of each
part lie one behind the other. -/
structure TableFits : Prop where
  room : 8 * (pieces s.system.source (bufferAddr s) descriptor.pxiBufferSize).length ≤
    tableRoom s descriptor
  contiguous : ∀ piece ∈ pieces s.system.source (bufferAddr s) descriptor.pxiBufferSize,
    ∀ k < piece.2, resolveVirtualAddr s.system.source (piece.1 + BitVec.ofNat 32 k) =
      some (physicalStart s.system.source piece.1 + BitVec.ofNat 32 k)
  apart : ∀ w ∈ s.system.words,
    ∀ i < 2 * (pieces s.system.source (bufferAddr s) descriptor.pxiBufferSize).length,
      Apart w.1 (tableAddr s descriptor + BitVec.ofNat 32 (4 * i))

end

/-! ## The image of a buffer -/

section

variable {m : VirtualMemory} {addr : VAddr} {size : ℕ}

theorem chunkAt_addr {chunk : Chunk} (h : chunkAt m addr = some chunk) :
    chunk.addr = physicalStart m addr := by
  unfold chunkAt at h
  split at h
  · cases h
  next e he =>
    cases h
    have hres : resolveVirtualAddr m addr = some (e.2.physStart + (addr - e.1)) := by
      rw [resolveVirtualAddr, he]
      rfl
    rw [physicalStart, hres]
    rfl

theorem chunkAt_eq_none : chunkAt m addr = none ↔ resolveVirtualAddr m addr = none := by
  unfold chunkAt resolveVirtualAddr
  split
  next h => simp [h]
  next e h => simp [h]

theorem pieces_some {chunk : Chunk} (h : chunkAt m addr = some chunk) : pieces m addr size =
    if size ≤ chunk.size.toNat then [(addr, size)] else pagePieces addr size := by
  rw [pieces, h]
  rfl

theorem image_append {n k : ℕ} : image m addr (n + k) =
    image m addr n ++ image m (addr + BitVec.ofNat 32 n) k := by
  unfold image
  rw [List.range_add, List.map_append, List.map_map]
  refine congrArg (_ ++ ·) (List.map_congr_left fun i _ => ?_)
  rw [Function.comp_apply, BitVec.ofNat_add, BitVec.add_assoc]

/-- The pages of a buffer make up the buffer. -/
theorem image_pagePieces : (pagePieces addr size).flatMap (fun e => image m e.1 e.2) =
    image m addr size := by
  induction addr, size using pagePieces.induct with
  | case1 addr =>
    rw [pagePieces, dif_pos rfl]
    rfl
  | case2 addr size hsize chunkSize ih =>
    rw [pagePieces, dif_neg hsize, List.flatMap_cons, ih, ← image_append]
    congr 1
    omega

theorem image_pieces : (pieces m addr size).flatMap (fun e => image m e.1 e.2) =
    image m addr size := by
  unfold pieces
  split
  · rw [List.flatMap_singleton]
  · exact image_pagePieces

theorem sum_pagePieces : ((pagePieces addr size).map (·.2)).sum = size := by
  induction addr, size using pagePieces.induct with
  | case1 addr =>
    rw [pagePieces, dif_pos rfl]
    rfl
  | case2 addr size hsize chunkSize ih =>
    rw [pagePieces, dif_neg hsize, List.map_cons, List.sum_cons, ih]
    omega

theorem sum_pieces : ((pieces m addr size).map (·.2)).sum = size := by
  unfold pieces
  split
  · simp
  · exact sum_pagePieces

theorem piece_le {e : VAddr × ℕ} (h : e ∈ pieces m addr size) : e.2 ≤ size :=
  (List.single_le_sum (fun _ _ => Nat.zero_le _) _ (List.mem_map_of_mem h)).trans sum_pieces.le

/-- Two lists made of parts of equal lengths are equal where their parts are. -/
theorem flatMap_eq_iff {α β : Type} {l : List α} {f g : α → List β}
    (h : ∀ x ∈ l, (f x).length = (g x).length) :
    l.flatMap f = l.flatMap g ↔ ∀ x ∈ l, f x = g x := by
  induction l with
  | nil => simp
  | cons x l ih =>
    have hrest := ih fun y hy => h y (.tail _ hy)
    rw [List.flatMap_cons, List.flatMap_cons, List.forall_mem_cons]
    constructor
    · intro heq
      obtain ⟨hx, hl⟩ := List.append_inj heq (h x (.head _))
      exact ⟨hx, hrest.1 hl⟩
    · rintro ⟨hx, hl⟩
      rw [hx, hrest.2 hl]

/-- The entries of a buffer. -/
def entries (m : VirtualMemory) (l : List (VAddr × ℕ)) : List (PAddr × BitVec 32) :=
  l.map fun e => (physicalStart m e.1, BitVec.ofNat 32 e.2)

theorem listed_entries {l : List (VAddr × ℕ)} (h : ∀ e ∈ l, e.2 < 2 ^ 32) :
    (listed (entries m l)).map some = l.flatMap (fun e => image m e.1 e.2) ↔
      ∀ e ∈ l, ∀ k < e.2, resolveVirtualAddr m (e.1 + BitVec.ofNat 32 k) =
        some (physicalStart m e.1 + BitVec.ofNat 32 k) := by
  have hlisted : (listed (entries m l)).map some = l.flatMap fun e =>
      (List.range e.2).map fun k => some (physicalStart m e.1 + BitVec.ofNat 32 k) := by
    rw [listed, entries, List.flatMap_map, List.map_flatMap]
    refine List.flatMap_congr fun e he => ?_
    rw [List.map_map, BitVec.toNat_ofNat, Nat.mod_eq_of_lt (h e he)]
    rfl
  rw [hlisted, flatMap_eq_iff fun e _ => by simp [image]]
  refine forall₂_congr fun e he => ?_
  unfold image
  rw [List.map_inj_left]
  exact forall_congr' fun k => by rw [List.mem_range, eq_comm]

end

/-! ## What the call writes -/

section

variable {other : System Transfer Object} {fault : VAddr → Option Exception}
  {s s₁ s' : Message Transfer} {l l' : List (VAddr × BitVec 32)}
  {descriptor staticBuffer : TranslationDescriptor} {dest addr : VAddr} {size r : ℕ}

/-- Nothing has changed but for words written to the destination. -/
def Wrote (s s' : Message Transfer) (l : List (VAddr × BitVec 32)) : Prop :=
  s'.tls = s.tls ∧ s'.system = { s.system with words := s.system.words ++ l }

theorem Wrote.trans (h : Wrote s s₁ l) (h' : Wrote s₁ s' l') : Wrote s s' (l ++ l') := by
  refine ⟨h'.1.trans h.1, h'.2.trans ?_⟩
  rw [h.2, ← List.append_assoc]

theorem Wrote.source (h : Wrote s s' l) : s'.system.source = s.system.source := by
  rw [h.2]

theorem writeMemory32_ok {value : BitVec 32}
    (h : writeMemory32 (transferSystem other fault) addr value s = .ok () s') :
    Wrote s s' [(addr, value)] := by
  obtain ⟨_, _, hrecord, h⟩ := EStateM.bind_eq_ok_iff.1 h
  cases hrecord
  unfold call transferSystem at h
  simp only at h
  cases hfault : fault addr with
  | some e =>
    rw [hfault] at h
    cases h
  | none =>
    rw [hfault] at h
    cases h
    exact ⟨rfl, rfl⟩

theorem writePxiEntry_ok {chunk : PAddr}
    (h : writePxiEntry (transferSystem other fault) addr chunk size s = .ok () s') :
    Wrote s s' [(addr, chunk), (addr + 4, BitVec.ofNat 32 size)] := by
  obtain ⟨_, _, hfirst, h⟩ := EStateM.bind_eq_ok_iff.1 h
  exact (writeMemory32_ok hfirst).trans (writeMemory32_ok h)

theorem writePxiPages_ok {offset : ℕ} (h : writePxiPages (transferSystem other fault) staticBuffer
    dest addr size offset s = .ok r s') :
    Wrote s s' (tableWords dest offset (entries s.system.source (pagePieces addr size))) := by
  induction size using Nat.strongRecOn generalizing addr offset s with
  | ind size ih =>
    by_cases hsize : size = 0
    · subst hsize
      rw [writePxiPages, dif_pos rfl] at h
      cases h
      rw [pagePieces, dif_pos rfl]
      exact ⟨rfl, by rw [entries, List.map_nil, tableWords, List.append_nil]⟩
    rw [writePxiPages, dif_neg hsize] at h
    split at h
    · cases h
    obtain ⟨_, _, hget, h⟩ := EStateM.bind_eq_ok_iff.1 h
    cases hget
    have hresolve : (transferSystem other fault).resolveVirtualAddrWithSize addr s.system =
        chunkAt s.system.source addr := rfl
    rw [hresolve] at h
    cases hchunk : chunkAt s.system.source addr with
    | none =>
      rw [hchunk] at h
      cases h
    | some chunk =>
      rw [hchunk] at h
      obtain ⟨_, s₁, hentry, h⟩ := EStateM.bind_eq_ok_iff.1 h
      have hentry := writePxiEntry_ok hentry
      have hrest := ih _ (by have := pageRest_pos addr; omega) h
      rw [hentry.source] at hrest
      rw [chunkAt_addr hchunk] at hentry
      rw [pagePieces, dif_neg hsize]
      exact hentry.trans hrest

theorem writePxiTable_ok (h : writePxiTable (transferSystem other fault) staticBuffer dest addr
    size s = .ok r s') : Wrote s s' (tableWords dest 0
      (entries s.system.source (pieces s.system.source addr size))) := by
  have one {a : PAddr} {s₁ : Message Transfer} {n : ℕ} (ha : a = physicalStart s.system.source addr)
      (hentry : writePxiEntry (transferSystem other fault) dest a n s = .ok () s₁) :
      Wrote s s₁ (tableWords dest 0 (entries s.system.source [(addr, n)])) := by
    rw [ha] at hentry
    simpa [entries, tableWords] using writePxiEntry_ok hentry
  unfold writePxiTable at h
  obtain ⟨_, _, hget, h⟩ := EStateM.bind_eq_ok_iff.1 h
  cases hget
  have hresolve : (transferSystem other fault).resolveVirtualAddrWithSize addr s.system =
      chunkAt s.system.source addr := rfl
  rw [hresolve] at h
  cases hchunk : chunkAt s.system.source addr with
  | none =>
    rw [hchunk] at h
    simp only at h
    split at h
    next hsize =>
      subst hsize
      have haddr : (0 : PAddr) = physicalStart s.system.source addr := by
        rw [physicalStart, chunkAt_eq_none.1 hchunk]
        rfl
      obtain ⟨_, _, hbase, h⟩ := EStateM.bind_eq_ok_iff.1 h
      cases hbase
      rw [pieces, if_pos (Nat.zero_le _)]
      simp only [Nat.le_refl, if_true] at h
      split at h
      · cases h
      obtain ⟨_, _, hentry, h⟩ := EStateM.bind_eq_ok_iff.1 h
      cases h
      exact one haddr hentry
    next => cases h
  | some chunk =>
    rw [hchunk] at h
    obtain ⟨_, _, hbase, h⟩ := EStateM.bind_eq_ok_iff.1 h
    cases hbase
    rw [pieces_some hchunk]
    dsimp only at h
    split at h
    next hle =>
      rw [if_pos hle]
      split at h
      · cases h
      obtain ⟨_, _, hentry, h⟩ := EStateM.bind_eq_ok_iff.1 h
      cases h
      exact one (chunkAt_addr hchunk) hentry
    next hle =>
      rw [if_neg hle]
      exact writePxiPages_ok h

theorem translatePxiBuffer_ok
    (h : translatePxiBuffer (transferSystem other fault) descriptor s = .ok () s') :
    s'.system.words = s.system.words ++ tableWords (tableAddr s descriptor) 0 (entries
      s.system.source (pieces s.system.source (bufferAddr s) descriptor.pxiBufferSize)) := by
  unfold translatePxiBuffer at h
  obtain ⟨offset, _, hoffset, h⟩ := EStateM.bind_eq_ok_iff.1 h
  cases hoffset
  obtain ⟨⟨staticBuffer, destAddr⟩, s₁, huse, h⟩ := EStateM.bind_eq_ok_iff.1 h
  have huse : s₁.tls = s.tls ∧ s₁.system = s.system ∧ destAddr = tableAddr s descriptor := by
    unfold useStaticBuffer at huse
    obtain ⟨_, _, hread, huse⟩ := EStateM.bind_eq_ok_iff.1 huse
    cases hread
    obtain ⟨_, _, hread, huse⟩ := EStateM.bind_eq_ok_iff.1 huse
    cases hread
    obtain ⟨_, _, hget, huse⟩ := EStateM.bind_eq_ok_iff.1 huse
    cases hget
    split at huse
    · cases huse
    · cases huse
      exact ⟨rfl, rfl, rfl⟩
  obtain ⟨htls, hsystem, rfl⟩ := huse
  simp only at h
  split at h
  · cases h
  obtain ⟨_, s₂, hread, h⟩ := EStateM.bind_eq_ok_iff.1 h
  cases hread
  obtain ⟨tableSize, s₃, htable, h⟩ := EStateM.bind_eq_ok_iff.1 h
  have htable := congrArg Transfer.words (writePxiTable_ok htable).2
  obtain ⟨_, _, hwrite, h⟩ := EStateM.bind_eq_ok_iff.1 h
  cases hwrite
  obtain ⟨_, _, hget, h⟩ := EStateM.bind_eq_ok_iff.1 h
  cases hget
  have hresolve : (transferSystem other fault).resolveDestAddr (tableAddr s descriptor) s₃.system =
      resolveVirtualAddr s₃.system.dest (tableAddr s descriptor) := rfl
  have hwords : s'.system.words = s₃.system.words := by
    simp only [hresolve] at h
    cases hdest : resolveVirtualAddr s₃.system.dest (tableAddr s descriptor) with
    | none =>
      rw [hdest] at h
      cases h
    | some addr =>
      rw [hdest] at h
      cases h
      rfl
  rw [hwords, htable]
  show s₁.system.words ++ tableWords _ 0 (entries s₁.system.source (pieces s₁.system.source
    (s₁.tls .source s.tlsOffset) descriptor.pxiBufferSize)) = _
  rw [htls, hsystem]
  rfl

/-! ## Where a table is exact -/

theorem tableWords_injective {offset : ℕ} {t t' : List (PAddr × BitVec 32)}
    (h : tableWords dest offset t = tableWords dest offset t') : t = t' := by
  induction t generalizing t' offset with
  | nil =>
    cases t' with
    | nil => rfl
    | cons => cases h
  | cons e t ih =>
    cases t' with
    | nil => cases h
    | cons e' t' =>
      obtain ⟨h₁, h₂⟩ := List.cons.inj h
      obtain ⟨h₂, h₃⟩ := List.cons.inj h₂
      rw [Prod.ext (Prod.mk.inj h₁).2 (Prod.mk.inj h₂).2, ih h₃]

/-- A table takes two words an entry, one behind the other. -/
theorem mem_tableWords {offset : ℕ} {t : List (PAddr × BitVec 32)} {P : VAddr → Prop} :
    (∀ v ∈ tableWords dest offset t, P v.1) ↔
      ∀ i < 2 * t.length, P (dest + BitVec.ofNat 32 (offset + 4 * i)) := by
  induction t generalizing offset with
  | nil => simp [tableWords]
  | cons e t ih =>
    have hsecond : dest + BitVec.ofNat 32 offset + 4 = dest + BitVec.ofNat 32 (offset + 4) := by
      rw [BitVec.ofNat_add, BitVec.add_assoc]
      rfl
    rw [tableWords, List.forall_mem_cons, List.forall_mem_cons, ih, hsecond]
    constructor
    · rintro ⟨h₀, h₁, hrest⟩ i hi
      rcases i with _ | _ | i
      · exact h₀
      · exact h₁
      · have := hrest i (by rw [List.length_cons] at hi; omega)
        rwa [show offset + 8 + 4 * i = offset + 4 * (i + 1 + 1) by omega] at this
    · intro h
      refine ⟨h 0 (by rw [List.length_cons]; omega), h 1 (by rw [List.length_cons]; omega), ?_⟩
      intro i hi
      have := h (i + 2) (by rw [List.length_cons]; omega)
      rwa [show offset + 4 * (i + 2) = offset + 8 + 4 * i by omega] at this

theorem fits_iff (h : s'.system.words = s.system.words ++ tableWords (tableAddr s descriptor) 0
    (entries s.system.source (pieces s.system.source (bufferAddr s) descriptor.pxiBufferSize))) :
    TableExact s s' descriptor ↔ TableFits s descriptor := by
  let l := pieces s.system.source (bufferAddr s) descriptor.pxiBufferSize
  have hsize : descriptor.pxiBufferSize < 2 ^ 24 := (descriptor.raw.extractLsb' 8 24).isLt
  have hpiece : ∀ e ∈ l, e.2 < 2 ^ 32 := by
    intro e he
    have := piece_le he
    omega
  have hlength : (entries s.system.source l).length = l.length := List.length_map ..
  have hlisted := listed_entries (m := s.system.source) hpiece
  rw [image_pieces] at hlisted
  constructor
  · rintro ⟨table, htable, himage, -, hroom, hapart⟩
    obtain rfl : table = entries s.system.source l :=
      tableWords_injective (List.append_cancel_left (htable.symm.trans h))
    rw [hlength] at hroom
    refine ⟨hroom, hlisted.1 himage, fun w hw => ?_⟩
    have := mem_tableWords.1 (hapart w hw)
    simpa only [Nat.zero_add, hlength] using this
  · rintro ⟨hroom, hcontiguous, hapart⟩
    refine ⟨entries s.system.source l, h, hlisted.2 hcontiguous, ?_, by rwa [hlength], ?_⟩
    · have hsum : (entries s.system.source l).map (·.2.toNat) = l.map (·.2) := by
        rw [entries, List.map_map]
        refine List.map_congr_left fun e he => ?_
        exact Nat.mod_eq_of_lt (hpiece e he)
      rw [hsum]
      exact sum_pieces
    · intro w hw
      refine mem_tableWords.2 ?_
      simpa only [Nat.zero_add, hlength] using hapart w hw

/-! ## Where a table is written -/

theorem writePxiEntry_returns {chunk : PAddr} : ∃ s', writePxiEntry
    (transferSystem other fun _ => none) addr chunk size s = .ok () s' := by
  exact ⟨_, rfl⟩

theorem writePxiPages_returns {offset : ℕ} (hroom : 8 ≤ staticBuffer.staticBufferSize)
    (h : ∀ e ∈ pagePieces addr size, resolveVirtualAddr s.system.source e.1 ≠ none) :
    ∃ r s', writePxiPages (transferSystem other fun _ => none) staticBuffer dest addr size
      offset s = .ok r s' := by
  induction size using Nat.strongRecOn generalizing addr offset s with
  | ind size ih =>
    by_cases hsize : size = 0
    · subst hsize
      rw [writePxiPages, dif_pos rfl]
      exact ⟨_, _, rfl⟩
    rw [pagePieces, dif_neg hsize, List.forall_mem_cons] at h
    have hsome : chunkAt s.system.source addr ≠ none := fun hnone => h.1 (chunkAt_eq_none.1 hnone)
    obtain ⟨chunk, hchunk⟩ := Option.ne_none_iff_exists'.1 hsome
    let n := min size (pageRest addr)
    obtain ⟨s₁, hentry⟩ : ∃ s₁, writePxiEntry (transferSystem other fun _ => none)
        (dest + BitVec.ofNat 32 offset) chunk.addr n s = .ok () s₁ := writePxiEntry_returns
    have hrest : ∀ e ∈ pagePieces (addr + BitVec.ofNat 32 n) (size - n),
        resolveVirtualAddr s₁.system.source e.1 ≠ none := by
      rw [(writePxiEntry_ok hentry).source]
      exact h.2
    obtain ⟨r, s', hrest⟩ := ih (size - n) (by have := pageRest_pos addr; omega) hrest
    refine ⟨r, s', ?_⟩
    rw [writePxiPages, dif_neg hsize, if_neg (by omega)]
    refine EStateM.bind_eq_ok_iff.2 ⟨s, s, rfl, ?_⟩
    have hresolve : (transferSystem other fun _ => none).resolveVirtualAddrWithSize addr s.system =
        some chunk := hchunk
    rw [hresolve]
    exact EStateM.bind_eq_ok_iff.2 ⟨(), s₁, hentry, hrest⟩

/-- A table is written if the destination has a static buffer with room for an entry, which is
mapped and not in use, and every part of the buffer is mapped. -/
theorem translatePxiBuffer_returns (hfree : s.usedMask.getLsbD descriptor.pxiBufferId = false)
    (htype : (⟨s.tls .dest (0x180 + 8 * descriptor.pxiBufferId)⟩ : TranslationDescriptor).type =
      .staticBuffer) (hroom : 8 ≤ tableRoom s descriptor)
    (hdest : resolveVirtualAddr s.system.dest (tableAddr s descriptor) ≠ none)
    (hsource : ∀ e ∈ (bufferAddr s, 0) :: pagePieces (bufferAddr s) descriptor.pxiBufferSize,
      resolveVirtualAddr s.system.source e.1 ≠ none) :
    ∃ s', translatePxiBuffer (transferSystem other fun _ => none) descriptor s = .ok () s' := by
  let staticBuffer : TranslationDescriptor := ⟨s.tls .dest (0x180 + 8 * descriptor.pxiBufferId)⟩
  let s₁ : Message Transfer := { s with
    accesses := s.accesses ++ [.readTLS .dest (0x180 + 8 * descriptor.pxiBufferId)] ++
      [.readTLS .dest (0x184 + 8 * descriptor.pxiBufferId)]
    usedMask := s.usedMask ||| 1#16 <<< descriptor.pxiBufferId }
  have huse : useStaticBuffer descriptor.pxiBufferId "Attempted to use target PXI buffer twice" s =
      .ok (staticBuffer, tableAddr s descriptor) s₁ := by
    unfold useStaticBuffer
    refine EStateM.bind_eq_ok_iff.2 ⟨_, _, rfl, EStateM.bind_eq_ok_iff.2 ⟨_, _, rfl, ?_⟩⟩
    refine EStateM.bind_eq_ok_iff.2 ⟨_, _, rfl, ?_⟩
    rw [if_neg (by simpa using hfree)]
    rfl
  let s₂ : Message Transfer := { s₁ with
    accesses := s₁.accesses ++ [.readTLS .source s.tlsOffset] }
  obtain ⟨hfirst, hpages⟩ := List.forall_mem_cons.1 hsource
  have hroom : 8 ≤ staticBuffer.staticBufferSize := hroom
  have htable : ∃ r s₃, writePxiTable (transferSystem other fun _ => none) staticBuffer
      (tableAddr s descriptor) (bufferAddr s) descriptor.pxiBufferSize s₂ = .ok r s₃ := by
    have hsome : chunkAt s.system.source (bufferAddr s) ≠ none :=
      fun hnone => hfirst (chunkAt_eq_none.1 hnone)
    obtain ⟨chunk, hchunk⟩ := Option.ne_none_iff_exists'.1 hsome
    have hresolve : (transferSystem other fun _ => none).resolveVirtualAddrWithSize (bufferAddr s)
        s₂.system = some chunk := hchunk
    by_cases hle : descriptor.pxiBufferSize ≤ chunk.size.toNat
    · obtain ⟨s₃, hentry⟩ : ∃ s₃, writePxiEntry (transferSystem other fun _ => none)
          (tableAddr s descriptor) chunk.addr descriptor.pxiBufferSize s₂ = .ok () s₃ :=
        writePxiEntry_returns
      refine ⟨8, s₃, ?_⟩
      unfold writePxiTable
      refine EStateM.bind_eq_ok_iff.2 ⟨s₂, s₂, rfl, ?_⟩
      rw [hresolve]
      refine EStateM.bind_eq_ok_iff.2 ⟨(chunk.addr, chunk.size.toNat), s₂, rfl, ?_⟩
      dsimp only
      rw [if_pos hle, if_neg (Nat.not_lt.2 hroom)]
      exact EStateM.bind_eq_ok_iff.2 ⟨(), s₃, hentry, rfl⟩
    · obtain ⟨r, s₃, hrest⟩ := writePxiPages_returns (s := s₂) hroom hpages
      refine ⟨r, s₃, ?_⟩
      unfold writePxiTable
      refine EStateM.bind_eq_ok_iff.2 ⟨s₂, s₂, rfl, ?_⟩
      rw [hresolve]
      refine EStateM.bind_eq_ok_iff.2 ⟨(chunk.addr, chunk.size.toNat), s₂, rfl, ?_⟩
      dsimp only
      rw [if_neg hle]
      exact hrest
  obtain ⟨r, s₃, htable⟩ := htable
  have hsystem := (writePxiTable_ok htable).2
  obtain ⟨paddr, hpaddr⟩ := Option.ne_none_iff_exists'.1 hdest
  obtain ⟨s₄, hwrite, hsame⟩ : ∃ s₄, writeTLS (s.tlsOffset - 4)
      (makeStaticBuffer descriptor.pxiBufferId r).raw s₃ = .ok () s₄ ∧ s₄.system = s₃.system :=
    ⟨_, rfl, rfl⟩
  have hresolve : (transferSystem other fun _ => none).resolveDestAddr (tableAddr s descriptor)
      s₄.system = some paddr := by
    rw [hsame, hsystem]
    exact hpaddr
  obtain ⟨s₅, hlast⟩ : ∃ s₅, (do writeTLS s.tlsOffset paddr; advance : IpcM Transfer Unit) s₄ =
      .ok () s₅ := ⟨_, rfl⟩
  refine ⟨s₅, ?_⟩
  unfold translatePxiBuffer
  refine EStateM.bind_eq_ok_iff.2 ⟨s.tlsOffset, s, rfl, ?_⟩
  refine EStateM.bind_eq_ok_iff.2 ⟨_, s₁, huse, ?_⟩
  dsimp only
  rw [if_neg (not_not.2 htype)]
  refine EStateM.bind_eq_ok_iff.2 ⟨bufferAddr s, s₂, rfl, ?_⟩
  refine EStateM.bind_eq_ok_iff.2 ⟨r, s₃, htable, ?_⟩
  refine EStateM.bind_eq_ok_iff.2 ⟨(), s₄, hwrite, ?_⟩
  refine EStateM.bind_eq_ok_iff.2 ⟨s₄, s₄, rfl, ?_⟩
  rw [hresolve]
  exact hlast

/-- **A table is exact** precisely where the static buffer has room for it and every part of the
buffer is contiguous. -/
theorem tableExact_iff (other : System Transfer Object) (fault : VAddr → Option Exception)
    (descriptor : TranslationDescriptor) (s s' : Message Transfer)
    (h : translatePxiBuffer (transferSystem other fault) descriptor s = .ok () s') :
    TableExact s s' descriptor ↔ TableFits s descriptor :=
  fits_iff (translatePxiBuffer_ok h)

end

/-- A system in which only the two maps matter. -/
def quietSystem : System Transfer Unit where
  processId _ := 1
  findObject _ _ := none
  isAddressArbiter _ := false
  createHandle _ _ := pure 0
  svcCloseHandle _ := pure 0
  resolveVirtualAddrWithSize _ _ := none
  resolveDestAddr _ _ := none
  readMemory _ := pure 0
  writeMemory _ _ := pure ()
  writeMemory32 _ _ := pure ()
  findAvailableVirtualMemory _ _ _ _ := none
  mapVirtualMemory _ _ _ _ := pure false
  unmapVirtualMemory _ _ := pure false

def pxiSource : VirtualMemory :=
  ⟨[(0x08000000, ⟨0x20000000, 0x1000, .readWrite⟩),
    (0x08001000, ⟨0x20002000, 0x1000, .readWrite⟩)], by unfold SortedMap.Sorted; decide⟩

def pxiDest : VirtualMemory :=
  ⟨[(0x10000000, ⟨0x21000000, 0x1000, .readWrite⟩)], List.pairwise_singleton _ _⟩

/-- 0x20 bytes around the end of the first of two pages, and a static buffer of `room` bytes. -/
def twoPages (room : BitVec 18) : Message Transfer where
  tls := fun side offset => match side with
    | .source => if offset = 0x88 then 0x08000ff0 else 0
    | .dest => if offset = 0x180 then 2 ||| room.setWidth 32 <<< 14 else 0x10000000
  tlsOffset := 0x88
  usedMask := 0
  accesses := []
  system := ⟨pxiSource, pxiDest, []⟩

/-- A PXI buffer of 0x20 bytes for the static buffer 0. -/
def pxiDescriptor : TranslationDescriptor := ⟨0x2004⟩

theorem pagePieces_twoPages (room : BitVec 18) :
    pagePieces (bufferAddr (twoPages room)) pxiDescriptor.pxiBufferSize =
      [(0x08000ff0, 0x10), (0x08001000, 0x10)] := by
  have hfirst : pageRest 0x08000ff0 = 0x10 := by decide
  have hsecond : pageRest 0x08001000 = 0x1000 := by decide
  have haddr : bufferAddr (twoPages room) = 0x08000ff0 := rfl
  have hsize : pxiDescriptor.pxiBufferSize = 0x20 := by decide
  rw [haddr, hsize, pagePieces, dif_neg (by decide), hfirst]
  show _ :: pagePieces 0x08001000 0x10 = _
  rw [pagePieces, dif_neg (by decide), hsecond]
  show _ :: _ :: pagePieces _ 0 = _
  rw [pagePieces, dif_pos rfl]
  rfl

theorem twoPages_returns {room : BitVec 18} (htype : (⟨2 ||| room.setWidth 32 <<< 14⟩ :
    TranslationDescriptor).type = .staticBuffer)
    (hroom : 8 ≤ tableRoom (twoPages room) pxiDescriptor) :
    ∃ s', translatePxiBuffer (transferSystem quietSystem fun _ => none) pxiDescriptor
      (twoPages room) = .ok () s' := by
  have hdest : resolveVirtualAddr pxiDest 0x10000000 = some 0x21000000 := by decide
  refine translatePxiBuffer_returns BitVec.getLsbD_zero htype hroom ?_ ?_
  · exact Option.ne_none_iff_exists'.2 ⟨_, hdest⟩
  · rw [pagePieces_twoPages]
    have hfirst : resolveVirtualAddr pxiSource 0x08000ff0 = some 0x20000ff0 := by decide
    have hsecond : resolveVirtualAddr pxiSource 0x08001000 = some 0x20002000 := by decide
    refine List.forall_mem_cons.2 ⟨?_, List.forall_mem_cons.2 ⟨?_, List.forall_mem_singleton.2 ?_⟩⟩
    · exact Option.ne_none_iff_exists'.2 ⟨_, hfirst⟩
    · exact Option.ne_none_iff_exists'.2 ⟨_, hfirst⟩
    · exact Option.ne_none_iff_exists'.2 ⟨_, hsecond⟩

/-- A static buffer of two entries is enough for two pages. -/
theorem tableExact_twoPages : ∃ s', translatePxiBuffer (transferSystem quietSystem fun _ => none)
      pxiDescriptor (twoPages 16) = .ok () s' ∧
    (TableExact (twoPages 16) s' pxiDescriptor ↔ TableFits (twoPages 16) pxiDescriptor) := by
  obtain ⟨s', h⟩ := @twoPages_returns 16 (by decide) (by decide)
  exact ⟨s', h, tableExact_iff quietSystem _ pxiDescriptor (twoPages 16) s' h⟩

/-- A static buffer of one entry gets two. -/
theorem table_overruns : ¬ ∀ (s s' : Message Transfer) (descriptor : TranslationDescriptor),
    translatePxiBuffer (transferSystem quietSystem fun _ => none) descriptor s = .ok () s' →
      TableExact s s' descriptor := by
  intro hexact
  obtain ⟨s', h⟩ := @twoPages_returns 8 (by decide) (by decide)
  have hfits := (fits_iff (translatePxiBuffer_ok h)).1 (hexact _ s' _ h)
  have hroom := hfits.room
  have hchunk : (chunkAt (twoPages 8).system.source (bufferAddr (twoPages 8))).elim 0
      (·.size.toNat) = 0x10 := by decide
  rw [pieces, hchunk, if_neg (by decide), pagePieces_twoPages] at hroom
  exact absurd hroom (by decide)

end Mikage.IPC
