import Mikage.OS.PxiTables
import Mikage.Lib.Masks
import Mikage.Framework.Exceptions

/-!
# Buffers of the PXI services

A PXI buffer is a table of physical chunks. The chunk of an offset is found by dividing by the size
of the second chunk, since all but the first and the last are meant to be pages.

- `loadChunks`: the table as it is checked and cached.
- `lookupAddress`, `access`: the address of an offset, and the addresses an access touches.
- `LookupFits`: where dividing finds the byte, `AccessFits`: where the bytes behind it are in place.
- `bufferExact_iff`: the buffer is the concatenation of its chunks exactly there.
-/

namespace Mikage.PXI

open IPC

/-- `start_addr` and `size_in_bytes` -/
abbrev ChunkDescriptor := PAddr × BitVec 32

inductive Failure where
  | threw (e : Exception)
  | dividedByZero
  deriving DecidableEq

def pxiStaticBufferSize : ℕ := 0x2000

/-- The loop that caches the table, with the chunks and `chunk_size` so far. -/
def loadLoop (chunks : List ChunkDescriptor) (chunkSize : BitVec 32) :
    List ChunkDescriptor → Except Failure (List ChunkDescriptor × BitVec 32)
  | [] => .ok (chunks, chunkSize)
  | entry :: table =>
    if pxiStaticBufferSize ≤ 8 * chunks.length then
      .error (.threw (.runtimeError "Given PXI table exceeds PXI static buffer size"))
    else if chunks ≠ [] ∧ ¬ (entry.2 = 0x1000 ∨ table = []) then
      .error (.threw (.runtimeError
        "Apart from the first and last chunk, all chunks must be page-sized"))
    else loadLoop (chunks ++ [entry]) (if chunks.length < 2 then entry.2 else chunkSize) table

def loadChunks (table : List ChunkDescriptor) :
    Except Failure (List ChunkDescriptor × BitVec 32) :=
  loadLoop [] 0 table

/-- Behind the first chunk: `offset` counts from its end. -/
def lookupBehind (chunks : List ChunkDescriptor) (chunkSize offset : BitVec 32) :
    Except Failure PAddr :=
  if chunkSize = 0 then .error .dividedByZero
  else
    let chunkIndex := 1 + offset / chunkSize
    match chunks[chunkIndex.toNat]? with
    | none => .error (.threw (.runtimeError "Trying to access PXI buffer at invalid offset"))
    | some chunk =>
      if chunk.2 < offset &&& (chunkSize - 1) then
        .error (.threw (.runtimeError "Trying to access PXI buffer at invalid offset"))
      else .ok (chunk.1 + (offset &&& (chunkSize - 1)))

def lookupAddress (table : List ChunkDescriptor) (offset : BitVec 32) : Except Failure PAddr := do
  let (chunks, chunkSize) ← loadChunks table
  match chunks with
  | [] => .error (.threw (.runtimeError "Malformed PXI buffer descriptor"))
  | first :: _ =>
    if offset < first.2 then .ok (first.1 + offset)
    else lookupBehind chunks chunkSize (offset - first.2)

/-- `sizeof(DataType)` is `width`. -/
def Aligned (width : ℕ) (offset : BitVec 32) : Prop :=
  offset = offset &&& ~~~BitVec.ofNat 32 (width - 1)

instance (width : ℕ) (offset : BitVec 32) : Decidable (Aligned width offset) :=
  inferInstanceAs (Decidable (_ = _))

/-- The bytes that `Read` and `Write` access, from the low one on. -/
def access (width : ℕ) (table : List ChunkDescriptor) (offset : BitVec 32) :
    Except Failure (List PAddr) :=
  if Aligned width offset then do
    let address ← lookupAddress table offset
    return (List.range width).map fun i => address + BitVec.ofNat 32 i
  else .error (.threw (.runtimeError "Improper address alignment: Might cross the page boundary"))

/-- **The buffer is the concatenation of its chunks** at an offset. -/
structure BufferExact (table : List ChunkDescriptor) (offset : BitVec 32) : Prop where
  found : ∀ a, (listed table)[offset.toNat]? = some a → lookupAddress table offset = .ok a
  rejected : (listed table)[offset.toNat]? = none → ∃ e, lookupAddress table offset =
    .error (.threw e)
  /-- An access of several bytes is in the buffer, and is the accesses of single bytes. -/
  wide : ∀ width, width = 4 ∨ width = 8 → ∀ l, access width table offset = .ok l →
    ∀ i < width, ∃ a, l[i]? = some a ∧ (listed table)[offset.toNat + i]? = some a ∧
      access 1 table (offset + BitVec.ofNat 32 i) = .ok [a]

/-! ## Where it is -/

/-- Dividing by the size of the second chunk finds the byte, and ends before it where there is
none. -/
def LookupFits (table : List ChunkDescriptor) (offset : BitVec 32) : Prop :=
  match table with
  | [] => True
  | [first] => first.2 ≠ 0
  | first :: second :: rest =>
    match rest.getLast? with
    | none =>
      offset < first.2 ∨ second.2 ≠ 0 ∧
        (offset - first.2 < second.2 →
          (offset - first.2) &&& (second.2 - 1) = offset - first.2) ∧
        (second.2 = 1 → offset - first.2 ≠ -1)
    | some last =>
      -- the last chunk starts here
      let start := first.2.toNat + 0x1000 * rest.length
      offset.toNat < start ∨
        (offset.toNat = start + last.2.toNat → start + 0x1000 ≤ offset.toNat) ∧
          (start + 0x1000 ≤ offset.toNat → start + last.2.toNat ≤ offset.toNat)

/-- The bytes of an access of several are found and lie one behind the other. -/
def AccessFits (table : List ChunkDescriptor) (offset : BitVec 32) : Prop :=
  ∀ width, width = 4 ∨ width = 8 → Aligned width offset →
    offset.toNat < (listed table).length → ∀ i < width,
      LookupFits table (offset + BitVec.ofNat 32 i) ∧
      (listed table)[offset.toNat + i]? =
        (listed table)[offset.toNat]?.map (· + BitVec.ofNat 32 i)

/-! ## The table -/

section Tables

variable {table pages : List ChunkDescriptor} {first last entry : ChunkDescriptor}
  {offset : BitVec 32} {n : ℕ}

theorem listed_cons (entry : ChunkDescriptor) (table : List ChunkDescriptor) (n : ℕ) :
    (listed (entry :: table))[n]? = if n < entry.2.toNat then some (entry.1 + BitVec.ofNat 32 n)
      else (listed table)[n - entry.2.toNat]? := by
  rw [listed, List.flatMap_cons, ← listed]
  split
  next hlt =>
    rw [List.getElem?_append_left (by rwa [List.length_map, List.length_range]),
      List.getElem?_map, List.getElem?_range hlt]
    rfl
  next hge =>
    have hlength : ((List.range entry.2.toNat).map fun k =>
        entry.1 + BitVec.ofNat 32 k).length = entry.2.toNat := by
      rw [List.length_map, List.length_range]
    rw [List.getElem?_append_right (by omega), hlength]

theorem listed_nil (n : ℕ) : (listed [])[n]? = none := rfl

variable (last) in
/-- Chunks of one size, found by division. -/
theorem listed_pages (hpages : ∀ page ∈ pages, page.2.toNat = 0x1000) (n : ℕ) :
    (listed (pages ++ [last]))[n]? = match pages[n / 0x1000]? with
      | some page => some (page.1 + BitVec.ofNat 32 (n % 0x1000))
      | none => if n - 0x1000 * pages.length < last.2.toNat then
          some (last.1 + BitVec.ofNat 32 (n - 0x1000 * pages.length)) else none := by
  induction pages generalizing n with
  | nil =>
    rw [List.nil_append, listed_cons, listed_nil]
    rfl
  | cons page pages ih =>
    have hpage := hpages page List.mem_cons_self
    rw [List.cons_append, listed_cons, hpage]
    split
    next hlt =>
      rw [Nat.div_eq_of_lt hlt, List.getElem?_cons_zero, Nat.mod_eq_of_lt hlt]
    next hge =>
      obtain ⟨m, rfl⟩ : ∃ m, n = m + 0x1000 := ⟨n - 0x1000, by omega⟩
      rw [ih (fun x hx => hpages x (List.mem_cons_of_mem _ hx)), Nat.add_sub_cancel,
        Nat.add_div_right _ (by decide), List.getElem?_cons_succ, Nat.add_mod_right,
        List.length_cons]
      rw [show m + 0x1000 - 0x1000 * (pages.length + 1) = m - 0x1000 * pages.length by omega]

theorem loadLoop_rest {chunks : List ChunkDescriptor} {chunkSize : BitVec 32}
    {r : List ChunkDescriptor × BitVec 32} (hchunks : 2 ≤ chunks.length)
    (h : loadLoop chunks chunkSize table = .ok r) :
    r = (chunks ++ table, chunkSize) ∧ ∀ page ∈ table.dropLast, page.2 = 0x1000 := by
  induction table generalizing chunks with
  | nil =>
    cases h
    exact ⟨by rw [List.append_nil], nofun⟩
  | cons entry table ih =>
    have hne : chunks ≠ [] := List.ne_nil_of_length_pos (by omega)
    rw [loadLoop] at h
    split at h
    · cases h
    · split at h
      · cases h
      next hpage =>
        rw [if_neg (by omega)] at h
        obtain ⟨rfl, hrest⟩ := ih (by rw [List.length_append]; omega) h
        refine ⟨by rw [List.append_assoc]; rfl, fun page hmem => ?_⟩
        cases table with
        | nil => cases hmem
        | cons next table =>
          rw [List.dropLast_cons_cons] at hmem
          obtain rfl | hmem := List.mem_cons.1 hmem
          · by_contra hsize
            exact hpage ⟨hne, fun hor => hor.elim hsize (by nofun)⟩
          · exact hrest page hmem

/-- The tables that are accepted. -/
inductive Loaded : List ChunkDescriptor → List ChunkDescriptor × BitVec 32 → Prop where
  | empty : Loaded [] ([], 0)
  | one (first : ChunkDescriptor) : Loaded [first] ([first], first.2)
  | two (first last : ChunkDescriptor) : Loaded [first, last] ([first, last], last.2)
  | more {first second last : ChunkDescriptor} {pages : List ChunkDescriptor} :
      (∀ page ∈ second :: pages, page.2.toNat = 0x1000) →
      Loaded (first :: second :: (pages ++ [last]))
        (first :: second :: (pages ++ [last]), 0x1000)

theorem loadChunks_loaded {r : List ChunkDescriptor × BitVec 32}
    (h : loadChunks table = .ok r) : Loaded table r := by
  match table with
  | [] =>
    cases h
    exact .empty
  | [first] =>
    cases h
    exact .one first
  | [first, second] =>
    rw [loadChunks, loadLoop, if_neg (by decide), if_neg (by simp), loadLoop,
      if_neg (by simp [pxiStaticBufferSize]), if_neg (by simp), loadLoop] at h
    cases h
    exact .two first second
  | first :: second :: third :: rest =>
    rw [loadChunks, loadLoop, if_neg (by decide), if_neg (by simp), loadLoop,
      if_neg (by simp [pxiStaticBufferSize])] at h
    split at h
    · cases h
    next hpage =>
      obtain ⟨rfl, hrest⟩ := loadLoop_rest (by simp) h
      have hsecond : second.2 = 0x1000 := by
        by_contra hsize
        exact hpage ⟨List.cons_ne_nil _ _, fun hor => hor.elim hsize (by nofun)⟩
      have hlast := List.dropLast_append_getLast (List.cons_ne_nil third rest)
      rw [← hlast]
      change Loaded _ (first :: second :: _, second.2)
      rw [hsecond]
      refine .more fun page hmem => ?_
      obtain rfl | hmem := List.mem_cons.1 hmem
      · rw [hsecond]
        rfl
      · rw [hrest page hmem]
        rfl

/-- What the claim about an offset is for a lookup. -/
def LookupExact (table : List ChunkDescriptor) (offset : BitVec 32)
    (r : Except Failure PAddr) : Prop :=
  (∀ a, (listed table)[offset.toNat]? = some a → r = .ok a) ∧
    ((listed table)[offset.toNat]? = none → ∃ e, r = .error (.threw e))

theorem LookupExact.found {r : Except Failure PAddr} {a : PAddr}
    (h : (listed table)[offset.toNat]? = some a) : LookupExact table offset r ↔ r = .ok a := by
  refine ⟨fun hr => hr.1 a h, fun hr => ⟨fun b hb => ?_, fun hnone => ?_⟩⟩
  · rw [hr, Option.some.inj (h.symm.trans hb)]
  · cases h.symm.trans hnone

theorem LookupExact.rejected {r : Except Failure PAddr}
    (h : (listed table)[offset.toNat]? = none) :
    LookupExact table offset r ↔ ∃ e, r = .error (.threw e) := by
  refine ⟨fun hr => hr.2 h, fun hr => ⟨fun b hb => ?_, fun _ => hr⟩⟩
  cases h.symm.trans hb

/-- Behind the first chunk. -/
theorem listed_behind (hge : ¬ offset < first.2) :
    (listed (first :: table))[offset.toNat]? = (listed table)[(offset - first.2).toNat]? := by
  have hle : first.2 ≤ offset := not_lt.1 hge
  rw [BitVec.le_def] at hle
  rw [listed_cons, if_neg (by omega), BitVec.toNat_sub_of_le hle]

theorem ofNat_toNat' (x : BitVec 32) : BitVec.ofNat 32 x.toNat = x := by
  rw [BitVec.ofNat_toNat, BitVec.setWidth_eq]

theorem lookupAddress_cons {r : BitVec 32} {rest : List ChunkDescriptor}
    (h : loadChunks table = .ok (first :: rest, r)) : lookupAddress table offset =
      if offset < first.2 then .ok (first.1 + offset)
      else lookupBehind (first :: rest) r (offset - first.2) := by
  rw [lookupAddress, h]
  rfl

/-- The first chunk is looked up apart. -/
theorem lookupExact_first (hlt : offset < first.2) :
    LookupExact (first :: table) offset (.ok (first.1 + offset)) := by
  rw [BitVec.lt_def] at hlt
  refine (LookupExact.found ?_).2 rfl
  rw [listed_cons, if_pos hlt, ofNat_toNat']

/-- The quotient does not wrap, except for the largest offset in a chunk of one byte. -/
theorem chunkIndex_toNat {o chunkSize : BitVec 32} (hsize : chunkSize ≠ 0)
    (hwrap : ¬ (chunkSize = 1 ∧ o = -1)) :
    (1 + o / chunkSize).toNat = 1 + o.toNat / chunkSize.toNat := by
  have hpos : 0 < chunkSize.toNat := by
    rw [Nat.pos_iff_ne_zero]
    exact fun h => hsize (BitVec.eq_of_toNat_eq h)
  have hlt : o.toNat / chunkSize.toNat < 2 ^ 32 - 1 := by
    rw [Nat.div_lt_iff_lt_mul hpos]
    have ho := o.isLt
    by_cases hone : chunkSize = 1
    · have hne : o.toNat ≠ 2 ^ 32 - 1 := fun h =>
        hwrap ⟨hone, BitVec.eq_of_toNat_eq h⟩
      rw [hone]
      change o.toNat < (2 ^ 32 - 1) * 1
      omega
    · have hne : chunkSize.toNat ≠ 1 := fun h => hone (BitVec.eq_of_toNat_eq h)
      have htwo : 2 ≤ chunkSize.toNat := by omega
      calc o.toNat < (2 ^ 32 - 1) * 2 := by omega
        _ ≤ _ := Nat.mul_le_mul_left _ htwo
  rw [BitVec.toNat_add, BitVec.toNat_udiv]
  change (1 + _) % 2 ^ 32 = _
  rw [Nat.mod_eq_of_lt (by omega)]

theorem lookupBehind_eq {rest : List ChunkDescriptor} {o chunkSize : BitVec 32}
    (hsize : chunkSize ≠ 0) (hwrap : ¬ (chunkSize = 1 ∧ o = -1)) :
    lookupBehind (first :: rest) chunkSize o = match rest[o.toNat / chunkSize.toNat]? with
      | none => .error (.threw (.runtimeError "Trying to access PXI buffer at invalid offset"))
      | some chunk =>
        if chunk.2 < o &&& (chunkSize - 1) then
          .error (.threw (.runtimeError "Trying to access PXI buffer at invalid offset"))
        else .ok (chunk.1 + (o &&& (chunkSize - 1))) := by
  rw [lookupBehind, if_neg hsize]
  dsimp only
  rw [chunkIndex_toNat hsize hwrap, Nat.add_comm 1, List.getElem?_cons_succ]

theorem lookup_one (h : loadChunks [first] = .ok ([first], first.2)) :
    LookupExact [first] offset (lookupAddress [first] offset) ↔ LookupFits [first] offset := by
  rw [lookupAddress_cons h]
  change _ ↔ first.2 ≠ 0
  split
  next hlt =>
    refine iff_of_true (lookupExact_first hlt) fun h0 => ?_
    rw [h0] at hlt
    exact absurd hlt (by simp)
  next hge =>
    rw [LookupExact.rejected (by rw [listed_behind hge]; rfl)]
    by_cases h0 : first.2 = 0
    · refine iff_of_false ?_ (not_not.2 h0)
      rw [lookupBehind, if_pos h0]
      nofun
    · refine iff_of_true ⟨.runtimeError "Trying to access PXI buffer at invalid offset", ?_⟩ h0
      have hwrap : ¬ (first.2 = 1 ∧ offset - first.2 = -1) := by
        rintro ⟨hone, hlast⟩
        rw [hone] at hge hlast
        bv_omega
      rw [lookupBehind_eq h0 hwrap]
      rfl

/-- Inside of the second of two chunks only the mask matters. -/
theorem lookupBehind_second {o : BitVec 32} (h0 : last.2 ≠ 0) (hin : o < last.2) :
    lookupBehind [first, last] last.2 o = .ok (last.1 + (o &&& (last.2 - 1))) := by
  have hwrap : ¬ (last.2 = 1 ∧ o = -1) := by
    rintro ⟨hone, rfl⟩
    rw [hone] at hin
    exact absurd hin (by decide)
  rw [BitVec.lt_def] at hin
  have hmask : ¬ last.2 < o &&& (last.2 - 1) := by
    rw [BitVec.lt_def, BitVec.toNat_and]
    have : o.toNat &&& (last.2 - 1).toNat ≤ o.toNat := Nat.and_le_left
    omega
  rw [lookupBehind_eq h0 hwrap, Nat.div_eq_of_lt hin]
  exact if_neg hmask

/-- The index of the last offset wraps to the first chunk. -/
theorem lookupBehind_wraps (hone : last.2 = 1) :
    ∃ address, lookupBehind [first, last] last.2 (-1) = .ok address := by
  have hindex : (1 + (-1 : BitVec 32) / 1).toNat = 0 := by decide
  rw [hone, lookupBehind, if_neg (by decide)]
  dsimp only
  rw [hindex, List.getElem?_cons_zero]
  dsimp only
  rw [if_neg (by simp)]
  exact ⟨_, rfl⟩

theorem lookup_two (h : loadChunks [first, last] = .ok ([first, last], last.2)) :
    LookupExact [first, last] offset (lookupAddress [first, last] offset) ↔
      LookupFits [first, last] offset := by
  rw [lookupAddress_cons h]
  change _ ↔ offset < first.2 ∨ last.2 ≠ 0 ∧
    (offset - first.2 < last.2 → (offset - first.2) &&& (last.2 - 1) = offset - first.2) ∧
    (last.2 = 1 → offset - first.2 ≠ -1)
  split
  next hlt => exact iff_of_true (lookupExact_first hlt) (.inl hlt)
  next hge =>
    rw [or_iff_right hge]
    have hlisted := (listed_behind hge).trans (listed_cons last [] _)
    generalize offset - first.2 = o at *
    by_cases h0 : last.2 = 0
    · refine iff_of_false (fun hexact => ?_) fun hr => hr.1 h0
      rw [h0, if_neg (by simp)] at hlisted
      obtain ⟨e, he⟩ := (LookupExact.rejected hlisted).1 hexact
      rw [lookupBehind, if_pos h0] at he
      cases he
    · have hpos : 0 < last.2.toNat := by
        rw [Nat.pos_iff_ne_zero]
        exact fun h => h0 (BitVec.eq_of_toNat_eq h)
      by_cases hin : o < last.2
      · -- the division gives the second chunk
        have hin' := hin
        rw [BitVec.lt_def] at hin'
        rw [if_pos hin', ofNat_toNat'] at hlisted
        rw [LookupExact.found hlisted, lookupBehind_second h0 hin, Except.ok.injEq]
        refine ⟨fun heq => ⟨h0, fun _ => add_left_cancel heq, ?_⟩, fun hr => by rw [hr.2.1 hin]⟩
        rintro hone rfl
        rw [hone] at hin
        exact absurd hin (by decide)
      · have hin' := hin
        rw [BitVec.lt_def] at hin'
        rw [if_neg hin'] at hlisted
        rw [LookupExact.rejected hlisted]
        by_cases hwrap : last.2 = 1 ∧ o = -1
        · -- the index wraps to the first chunk
          obtain ⟨hone, rfl⟩ := hwrap
          refine iff_of_false ?_ fun hr => hr.2.2 hone rfl
          rintro ⟨e, he⟩
          obtain ⟨address, hwraps⟩ : ∃ address, lookupBehind [first, last] last.2 (-1) =
              .ok address := lookupBehind_wraps hone
          rw [hwraps] at he
          cases he
        · refine iff_of_true ⟨.runtimeError "Trying to access PXI buffer at invalid offset", ?_⟩
            ⟨h0, fun hlt => absurd hlt hin, fun hone hlast => hwrap ⟨hone, hlast⟩⟩
          have hquot : 1 ≤ o.toNat / last.2.toNat := (Nat.one_le_div_iff hpos).2 (by omega)
          rw [lookupBehind_eq h0 hwrap, List.getElem?_eq_none hquot]

theorem page_offset (o : BitVec 32) : (o &&& (0x1000 - 1)).toNat = o.toNat % 0x1000 := by
  rw [BitVec.toNat_and]
  exact Nat.and_two_pow_sub_one_eq_mod o.toNat 12

theorem page_add (a : PAddr) (o : BitVec 32) :
    a + (o &&& (0x1000 - 1)) = a + BitVec.ofNat 32 (o.toNat % 0x1000) := by
  rw [← page_offset, ofNat_toNat']

theorem lookup_more {second : ChunkDescriptor}
    (hpages : ∀ page ∈ second :: pages, page.2.toNat = 0x1000)
    (h : loadChunks (first :: second :: (pages ++ [last])) =
      .ok (first :: second :: (pages ++ [last]), 0x1000)) :
    LookupExact (first :: second :: (pages ++ [last])) offset
      (lookupAddress (first :: second :: (pages ++ [last])) offset) ↔
      LookupFits (first :: second :: (pages ++ [last])) offset := by
  rw [lookupAddress_cons h, LookupFits]
  dsimp only
  rw [List.getLast?_append_cons, List.getLast?_singleton, List.length_append,
    List.length_singleton]
  dsimp only
  split
  next hlt =>
    refine iff_of_true (lookupExact_first hlt) (.inl ?_)
    rw [BitVec.lt_def] at hlt
    omega
  next hge =>
    have hlisted := (listed_behind hge).trans (listed_pages last hpages _)
    have hle : first.2 ≤ offset := not_lt.1 hge
    have hoffset := BitVec.toNat_sub_of_le hle
    rw [BitVec.le_def] at hle
    generalize offset - first.2 = o at *
    have hsize : (0x1000 : BitVec 32).toNat = 0x1000 := rfl
    have hmod := Nat.div_add_mod o.toNat 0x1000
    have hlow := Nat.mod_lt o.toNat (show 0x1000 > 0 by decide)
    rw [List.length_cons] at hlisted
    rw [lookupBehind_eq (by decide) (by simp), hsize, ← List.cons_append]
    obtain hin | hlast | hbeyond := lt_trichotomy (o.toNat / 0x1000) (pages.length + 1)
    · -- a page in the middle
      have hpage := List.getElem?_eq_getElem (l := second :: pages) (by simpa using hin)
      rw [hpage] at hlisted
      rw [LookupExact.found hlisted, List.getElem?_append_left (by simpa using hin), hpage]
      dsimp only
      rw [page_add]
      refine iff_of_true (if_neg ?_) (.inl (by omega))
      rw [BitVec.lt_def, page_offset, hpages _ (List.getElem_mem _)]
      omega
    · have hnone : (second :: pages)[o.toNat / 0x1000]? = none :=
        List.getElem?_eq_none (by rw [List.length_cons]; omega)
      have hchunk : (second :: pages ++ [last])[o.toNat / 0x1000]? = some last := by
        rw [hlast]
        exact List.getElem?_concat_length
      rw [hnone] at hlisted
      rw [hchunk]
      dsimp only at hlisted ⊢
      have hbehind : last.2 < o &&& (0x1000 - 1) ↔ last.2.toNat < o.toNat % 0x1000 := by
        rw [BitVec.lt_def, page_offset]
      rw [page_add]
      rw [show o.toNat - 0x1000 * (pages.length + 1) = o.toNat % 0x1000 by omega] at hlisted
      obtain hlt | heq | hgt := lt_trichotomy (o.toNat % 0x1000) last.2.toNat
      · rw [if_pos hlt] at hlisted
        rw [LookupExact.found hlisted]
        exact iff_of_true (if_neg (by rw [hbehind]; omega)) (.inr ⟨by omega, by omega⟩)
      · rw [if_neg (by omega)] at hlisted
        rw [LookupExact.rejected hlisted, if_neg (by rw [hbehind]; omega)]
        exact iff_of_false (by nofun) (by omega)
      · rw [if_neg (by omega)] at hlisted
        rw [LookupExact.rejected hlisted, if_pos (hbehind.2 hgt)]
        exact iff_of_true ⟨_, rfl⟩ (.inr ⟨by omega, by omega⟩)
    · have hnone : (second :: pages)[o.toNat / 0x1000]? = none :=
        List.getElem?_eq_none (by rw [List.length_cons]; omega)
      have hbehind : (second :: pages ++ [last])[o.toNat / 0x1000]? = none :=
        List.getElem?_eq_none (by rw [List.length_append, List.length_cons,
          List.length_singleton]; omega)
      rw [hnone] at hlisted
      rw [hbehind]
      dsimp only at hlisted ⊢
      by_cases hlt : o.toNat - 0x1000 * (pages.length + 1) < last.2.toNat
      · rw [if_pos hlt] at hlisted
        rw [LookupExact.found hlisted]
        exact iff_of_false (by nofun) (by omega)
      · rw [if_neg hlt] at hlisted
        rw [LookupExact.rejected hlisted]
        exact iff_of_true ⟨_, rfl⟩ (.inr ⟨by omega, by omega⟩)

theorem lookup_iff {r : List ChunkDescriptor × BitVec 32} (h : loadChunks table = .ok r) :
    LookupExact table offset (lookupAddress table offset) ↔ LookupFits table offset := by
  cases loadChunks_loaded h with
  | empty =>
    refine iff_of_true ((LookupExact.rejected rfl).2 ?_) trivial
    exact ⟨.runtimeError "Malformed PXI buffer descriptor", rfl⟩
  | one first => exact lookup_one h
  | two first last => exact lookup_two h
  | more hpages => exact lookup_more hpages h

/-! ## Accesses -/

theorem aligned_dvd {k : ℕ} (h : Aligned (2 ^ k) offset) : 2 ^ k ∣ offset.toNat := by
  have heq := BitVec.toNat_and_not_mask offset k
  rw [← show offset = _ from h] at heq
  exact ⟨_, heq.trans (Nat.mul_comm _ _)⟩

theorem aligned_add {k i : ℕ} (hk : k ≤ 32) (h : Aligned (2 ^ k) offset) (hi : i < 2 ^ k) :
    (offset + BitVec.ofNat 32 i).toNat = offset.toNat + i := by
  obtain ⟨m, hm⟩ := aligned_dvd h
  have hlt := offset.isLt
  obtain ⟨n, hn⟩ : 2 ^ k ∣ 2 ^ 32 := Nat.pow_dvd_pow 2 hk
  have hle : 2 ^ k * m + 2 ^ k ≤ 2 ^ 32 := by
    rw [hm, hn, Nat.mul_lt_mul_left (by positivity)] at hlt
    calc 2 ^ k * m + 2 ^ k = 2 ^ k * (m + 1) := by ring
      _ ≤ 2 ^ k * n := Nat.mul_le_mul_left _ hlt
      _ = _ := hn.symm
  rw [BitVec.toNat_add, BitVec.toNat_ofNat, Nat.add_mod_mod, Nat.mod_eq_of_lt (by omega)]

theorem access_eq {width : ℕ} (hw : Aligned width offset) : access width table offset =
    (lookupAddress table offset).map fun a => (List.range width).map fun i =>
      a + BitVec.ofNat 32 i := by
  rw [access, if_pos hw]
  cases lookupAddress table offset <;> rfl

theorem access_one {a : PAddr} :
    access 1 table offset = .ok [a] ↔ lookupAddress table offset = .ok a := by
  have hw : Aligned 1 offset := by
    change offset = offset &&& BitVec.allOnes 32
    rw [BitVec.and_allOnes]
  rw [access_eq hw]
  cases lookupAddress table offset with
  | error e => exact iff_of_false (by nofun) (by nofun)
  | ok b =>
    change Except.ok [b + 0] = _ ↔ _
    rw [add_zero, Except.ok.injEq, Except.ok.injEq, List.cons.injEq, and_iff_left rfl]

/-- The bytes of an access that is found. -/
theorem access_found {width : ℕ} {a : PAddr} (hw : Aligned width offset)
    (ha : lookupAddress table offset = .ok a) : access width table offset =
      .ok ((List.range width).map fun i => a + BitVec.ofNat 32 i) := by
  rw [access_eq hw, ha]
  rfl

/-- Four and eight are powers. -/
theorem width_pow {width : ℕ} (h : width = 4 ∨ width = 8) : ∃ k ≤ 32, width = 2 ^ k := by
  obtain rfl | rfl := h
  · exact ⟨2, by decide, rfl⟩
  · exact ⟨3, by decide, rfl⟩

theorem aligned_toNat {width i : ℕ} (hwidth : width = 4 ∨ width = 8) (hw : Aligned width offset)
    (hi : i < width) : (offset + BitVec.ofNat 32 i).toNat = offset.toNat + i := by
  obtain ⟨k, hk, rfl⟩ := width_pow hwidth
  exact aligned_add hk hw hi

theorem BufferExact.accessFits {r : List ChunkDescriptor × BitVec 32}
    (h : loadChunks table = .ok r) (hexact : BufferExact table offset) :
    AccessFits table offset := by
  intro width hwidth hw hin i hi
  have hentry := List.getElem?_eq_getElem hin
  have hfound := hexact.found _ hentry
  obtain ⟨a, hla, ha, hone⟩ := hexact.wide width hwidth _ (access_found hw hfound) i hi
  rw [List.getElem?_map, List.getElem?_range hi] at hla
  refine ⟨(lookup_iff h).1 ((LookupExact.found ?_).2 (access_one.1 hone)), ?_⟩
  · rw [aligned_toNat hwidth hw hi, ha]
  · rw [ha, hentry, ← hla]
    rfl

theorem AccessFits.wide {r : List ChunkDescriptor × BitVec 32} (h : loadChunks table = .ok r)
    (hlookup : LookupExact table offset (lookupAddress table offset))
    (hfits : AccessFits table offset) {width : ℕ} (hwidth : width = 4 ∨ width = 8)
    {l : List PAddr} (hl : access width table offset = .ok l) {i : ℕ} (hi : i < width) :
    ∃ a, l[i]? = some a ∧ (listed table)[offset.toNat + i]? = some a ∧
      access 1 table (offset + BitVec.ofNat 32 i) = .ok [a] := by
  by_cases hw : Aligned width offset
  · cases hentry : (listed table)[offset.toNat]? with
    | none =>
      obtain ⟨e, he⟩ := hlookup.2 hentry
      rw [access_eq hw, he] at hl
      cases hl
    | some a =>
      obtain ⟨hin, -⟩ := List.getElem?_eq_some_iff.1 hentry
      obtain ⟨hfit, hnext⟩ := hfits width hwidth hw hin i hi
      rw [hentry] at hnext
      rw [access_found hw (hlookup.1 a hentry)] at hl
      cases hl
      refine ⟨a + BitVec.ofNat 32 i, ?_, hnext, access_one.2 ?_⟩
      · rw [List.getElem?_map, List.getElem?_range hi]
        rfl
      · refine ((lookup_iff h).2 hfit).1 _ ?_
        rw [aligned_toNat hwidth hw hi, hnext]
        rfl
  · rw [access, if_neg hw] at hl
    cases hl

/-- **PXI buffers.** For a table that is accepted. -/
theorem bufferExact_iff {r : List ChunkDescriptor × BitVec 32} (h : loadChunks table = .ok r) :
    BufferExact table offset ↔ LookupFits table offset ∧ AccessFits table offset := by
  refine ⟨fun hexact => ⟨?_, hexact.accessFits h⟩, fun ⟨hlookup, haccess⟩ => ?_⟩
  · exact (lookup_iff h).1 ⟨hexact.found, hexact.rejected⟩
  · have hexact := (lookup_iff h).2 hlookup
    exact ⟨hexact.1, hexact.2, fun width hwidth l hl i hi =>
      haccess.wide h hexact hwidth hl hi⟩

theorem bufferExact_iff_pages : BufferExact [(0x1000, 0x800), (0x3000, 0x1000), (0x5000, 0x10)] 4 ↔
    LookupFits [(0x1000, 0x800), (0x3000, 0x1000), (0x5000, 0x10)] 4 ∧
      AccessFits [(0x1000, 0x800), (0x3000, 0x1000), (0x5000, 0x10)] 4 :=
  bufferExact_iff rfl

/-- The table of an empty buffer is a chunk of no bytes. -/
theorem empty_dividesByZero : ¬ ∀ table r offset, loadChunks table = .ok r →
    BufferExact table offset := by
  intro h
  obtain ⟨e, he⟩ := (h [(0, 0)] _ 0 rfl).rejected rfl
  cases he

end Tables

end Mikage.PXI
