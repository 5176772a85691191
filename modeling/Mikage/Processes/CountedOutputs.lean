import Mikage.Processes.PxiBuffers

/-!
# Outputs that a count of the client drives

A client passes a count or a size and, apart from it, a buffer. The handlers write to a mapped
buffer byte by byte, or through the table of a PXI buffer.

- `Request.plan`: what a handler does for a request: it rejects it, or makes these accesses.
- `Contained`: the bytes go to the buffer one after the other, and are the entries announced.
- `Request.Fits`: where they do.
-/

namespace Mikage.PXI.Outputs

open IPC

abbrev U32 := BitVec 32
abbrev U64 := BitVec 64
abbrev Byte := BitVec 8

/-! ## Accesses -/

/-- The lowest bytes of a value, in guest byte order. -/
def bytesOf (width : ℕ) (value : U64) : List Byte :=
  (List.range width).map fun i => value.extractLsb' (8 * i) 8

def valueOf (bytes : List Byte) : U64 :=
  BitVec.ofNat 64 (bytes.foldr (fun b n => b.toNat + 0x100 * n) 0)

/-- An access of a handler. What it writes may depend on the title id that it has read. -/
inductive Access where
  /-- `Thread::WriteMemory` of a zero. -/
  | clear (addr : U32)
  /-- `PXIBuffer::Read` of a title id. -/
  | read (table : List ChunkDescriptor) (offset : U32)
  /-- `PXIBuffer::Write` of `width` bytes. -/
  | write (width : ℕ) (table : List ChunkDescriptor) (offset : U32) (value : U64 → U64)

/-- The addresses that are mapped in the process. -/
abbrev Mapped := U32 → Bool

def clearAt (mapped : Mapped) (addr : U32) : Except Failure (List U32) :=
  if mapped addr then .ok [addr]
  else .error (.threw (.runtimeError "EmuProcess trying to write to invalid virtual address"))

/-- The accesses in order, up to one that fails: the bytes that are written, and the failure. -/
def perform (mapped : Mapped) :
    List Access → (U32 → Byte) → U64 → List (U32 × Byte) × Option Failure
  | [], _, _ => ([], none)
  | .clear addr :: rest, memory, titleId =>
    match clearAt mapped addr with
    | .error e => ([], some e)
    | .ok places =>
      let out := perform mapped rest memory titleId
      (places.map (·, 0) ++ out.1, out.2)
  | .read table offset :: rest, memory, _ =>
    match access 8 table offset with
    | .error e => ([], some e)
    | .ok places => perform mapped rest memory (valueOf (places.map memory))
  | .write width table offset value :: rest, memory, titleId =>
    match access width table offset with
    | .error e => ([], some e)
    | .ok places =>
      let written := places.zip (bytesOf places.length (value titleId))
      let out := perform mapped rest
        (fun a => ((written.reverse.find? (·.1 = a)).map Prod.snd).getD (memory a)) titleId
      (written ++ out.1, out.2)

/-! ## The handlers -/

/-- What a handler does unless it rejects the request at once, and the count it returns. -/
abbrev Plan := Except Failure (List Access × Option ℕ)

def kernelPanic : Failure := .threw (.invalid "Kernel panic:")

/-- `PTMGetStepHistory` -/
def ptmGetStepHistory (numHours addr size : U32) : Plan :=
  if numHours * 2 ≠ size then .error (.threw (.invalid
    "PTMGetStepHistory: Buffer size does not match the size needed for the requested number of hours"))
  else .ok ((List.range numHours.toNat).flatMap fun hour =>
    [.clear (addr + 2 * BitVec.ofNat 32 hour), .clear (addr + 2 * BitVec.ofNat 32 hour + 1)], none)

/-- `ReadRegisterBuffer_0x12` -/
def readRegisterBuffer0x12 (size addr bufferSize : U32) : Plan :=
  if bufferSize < size then .error kernelPanic
  else .ok ((List.range bufferSize.toNat).map fun offset =>
    .clear (addr + BitVec.ofNat 32 offset), none)

/-- The installed titles, and the program id of the game card. -/
structure Context where
  nandTitles : List U64
  gamecard : Option U64

/-- `AMHandleGetTitleList` -/
def amHandleGetTitleList (context : Context) (numTitles mediaType : U32)
    (output : List ChunkDescriptor) : Plan :=
  let mediaType := mediaType &&& 0xff
  if mediaType = 0 then
    let numTitles := if context.nandTitles.length < numTitles.toNat then
      BitVec.ofNat 32 context.nandTitles.length else numTitles
    .ok ((List.range numTitles.toNat).map fun titleIndex =>
      .write 8 output (BitVec.ofNat 32 (titleIndex * 8)) fun _ =>
        context.nandTitles.getD titleIndex 0, some numTitles.toNat)
  else if mediaType = 2 then
    if (if context.gamecard.isSome then 1 else 0) < numTitles then .error kernelPanic
    else
      match context.gamecard with
      | some programId => .ok ([.write 8 output 0 fun _ => programId], some 1)
      | none => .ok ([], some 0)
  else if mediaType = 1 then .ok ([], some 0)
  else .error (.threw (.runtimeError "Unsupported media type"))

/-- `AMHandleGetTitleInfos` -/
def amHandleGetTitleInfos (context : Context) (mediaType numTitles : U32)
    (titleIds infos : List ChunkDescriptor) : Plan :=
  let mediaType := mediaType &&& 0xff
  if mediaType = 0 then
    if context.nandTitles.length < numTitles.toNat then .error kernelPanic
    else
      -- a title that is not installed has an entry of zeros
      let known (value titleId : U64) := if titleId ∈ context.nandTitles then value else 0
      .ok ((List.range numTitles.toNat).flatMap fun titleIndex =>
        [.read titleIds (BitVec.ofNat 32 (titleIndex * 8)),
          .write 8 infos (BitVec.ofNat 32 (titleIndex * 24)) fun titleId => known titleId titleId,
          .write 8 infos (BitVec.ofNat 32 (titleIndex * 24 + 8)) (known 0x447000),
          .write 4 infos (BitVec.ofNat 32 (titleIndex * 24 + 0x10)) (known 2055),
          .write 4 infos (BitVec.ofNat 32 (titleIndex * 24 + 0x14)) (known 1)], none)
  else if mediaType = 2 then
    if (if context.gamecard.isSome then 1 else 0) < numTitles then .error kernelPanic
    else if context.gamecard.isSome then
      .ok ([.write 8 infos 0 fun _ => 0, .write 8 infos 8 fun _ => 0,
        .write 8 infos 0x10 fun _ => 0], none)
    else .ok ([], none)
  else .error (.threw (.runtimeError "Unsupported media type"))

/-! ## Requests -/

/-- The table of a buffer of a client, whose size is a word. -/
structure ClientBuffer where
  chunks : List ChunkDescriptor
  small : (listed chunks).length < 2 ^ 32

inductive Request where
  | getStepHistory (numHours addr size : U32)
  | readRegisterBuffer0x12 (size addr bufferSize : U32)
  | getTitleList (context : Context) (numTitles mediaType : U32) (output : ClientBuffer)
  | getTitleInfos (context : Context) (mediaType numTitles : U32) (titleIds infos : ClientBuffer)

/-- The bytes from `addr` on. -/
def range (addr : U32) (size : ℕ) : List U32 :=
  (List.range size).map fun k => addr + BitVec.ofNat 32 k

namespace Request

/-- The bytes of the buffer that the client passed for the output. -/
def buffer : Request → List U32
  | getStepHistory _ addr size => range addr size.toNat
  | readRegisterBuffer0x12 _ addr bufferSize => range addr bufferSize.toNat
  | getTitleList _ _ _ output => listed output.chunks
  | getTitleInfos _ _ _ _ infos => listed infos.chunks

def plan : Request → Plan
  | getStepHistory numHours addr size => ptmGetStepHistory numHours addr size
  | readRegisterBuffer0x12 size addr bufferSize =>
    Outputs.readRegisterBuffer0x12 size addr bufferSize
  | getTitleList context numTitles mediaType output =>
    amHandleGetTitleList context numTitles mediaType output.chunks
  | getTitleInfos context mediaType numTitles titleIds infos =>
    amHandleGetTitleInfos context mediaType numTitles titleIds.chunks infos.chunks

/-- The entries of an answer that announces how many there are: title ids. -/
def entry : Request → ℕ → List Byte
  | getTitleList context _ mediaType _, i =>
    bytesOf 8 (if mediaType &&& 0xff = 0 then context.nandTitles.getD i 0
      else context.gamecard.getD 0)
  | _, _ => []

end Request

/-- What is written for a request, and what it is answered with. -/
structure Outcome where
  writes : List (U32 × Byte)
  answer : Except Failure (Option ℕ)

def Request.handle (mapped : Mapped) (memory : U32 → Byte) (request : Request) : Outcome :=
  match request.plan with
  | .error e => { writes := [], answer := .error e }
  | .ok (accesses, count) =>
    let out := perform mapped accesses memory 0
    { writes := out.1, answer := match out.2 with | none => .ok count | some e => .error e }

/-- The request is rejected or answered. Either way the bytes that are written are the first ones of
the buffer, and with an answer that announces entries they are these. -/
structure Contained (request : Request) (outcome : Outcome) : Prop where
  defined : outcome.answer ≠ .error .dividedByZero
  inside : outcome.writes.map Prod.fst <+: request.buffer
  entries : ∀ count, outcome.answer = .ok (some count) →
    outcome.writes.map Prod.snd = (List.range count).flatMap request.entry

/-! ## Where they are -/

/-- The lookup has no size to divide by. -/
def DividesByZero : List ChunkDescriptor → U32 → Prop
  | [first], _ => first.2 = 0
  | [first, second], offset => second.2 = 0 ∧ ¬offset < first.2
  | _, _ => False

/-- A lookup of the offset is answered. -/
def Answered (table : List ChunkDescriptor) (offset : U32) : Prop :=
  ∃ a, lookupAddress table offset = .ok a

/-- More than a page behind the start of the last of several chunks, no chunk is found. -/
def Late : List ChunkDescriptor → U32 → Prop
  | first :: _ :: rest, offset =>
    rest ≠ [] ∧ first.2.toNat + 0x1000 * rest.length + 0x1000 ≤ offset.toNat
  | _, _ => False

/-- A lookup finds the byte unless it is rejected, and the bytes behind it are in place. -/
def WriteFits (width : ℕ) (table : List ChunkDescriptor) (position : ℕ) : Prop :=
  (∃ r, loadChunks table = .ok r) → ¬Late table (BitVec.ofNat 32 position) →
    LookupFits table (BitVec.ofNat 32 position) ∧
    ∀ a, (listed table)[position]? = some a → ∀ i < width,
      (listed table)[position + i]? = some (a + BitVec.ofNat 32 i)

/-- Writes of these widths from `position` on are all found, up to one that is rejected. -/
def PartsFit (table : List ChunkDescriptor) : ℕ → List ℕ → Prop
  | _, [] => True
  | position, width :: widths =>
    WriteFits width table position ∧
      (Answered table (BitVec.ofNat 32 position) → PartsFit table (position + width) widths)

def PartsAnswered (table : List ChunkDescriptor) : ℕ → List ℕ → Prop
  | _, [] => True
  | position, width :: widths =>
    Answered table (BitVec.ofNat 32 position) ∧ PartsAnswered table (position + width) widths

/-- The number of title ids that are written. -/
def listedTitles (context : Context) (numTitles mediaType : U32) : ℕ :=
  if mediaType &&& 0xff = 0 then min numTitles.toNat context.nandTitles.length
  else if mediaType &&& 0xff = 2 ∧ context.gamecard.isSome ∧ numTitles ≤ 1 then 1 else 0

/-- The writes to an entry of the title infos. -/
def infoWidths : List ℕ := [8, 8, 4, 4]

/-- The number of hours is not so large that its size wraps, with mapped memory behind the buffer;
and no lookup goes astray, up to one that is rejected. -/
def Request.Fits (mapped : Mapped) : Request → Prop
  | .getStepHistory numHours addr size =>
    numHours * 2 ≠ size ∨ numHours.toNat < 2 ^ 31 ∨
      ∃ k ≤ size.toNat, mapped (addr + BitVec.ofNat 32 k) = false
  | .readRegisterBuffer0x12 .. => True
  | .getTitleList context numTitles mediaType output =>
    PartsFit output.chunks 0 (List.replicate (listedTitles context numTitles mediaType) 8)
  | .getTitleInfos context mediaType numTitles titleIds infos =>
    (mediaType &&& 0xff = 0 → numTitles.toNat ≤ context.nandTitles.length → ∀ i < numTitles.toNat,
      (∀ k < i, Answered titleIds.chunks (BitVec.ofNat 32 (k * 8)) ∧
        PartsAnswered infos.chunks (k * 24) infoWidths) →
      ¬DividesByZero titleIds.chunks (BitVec.ofNat 32 (i * 8)) ∧
        (Answered titleIds.chunks (BitVec.ofNat 32 (i * 8)) →
          PartsFit infos.chunks (i * 24) infoWidths)) ∧
    (mediaType &&& 0xff = 2 → context.gamecard.isSome → numTitles ≤ 1 →
      PartsFit infos.chunks 0 [8, 8, 8])

/-! ## Lookups -/

section Lookups

variable {table : List ChunkDescriptor} {offset : U32} {width position : ℕ}

theorem loadLoop_threw {chunks : List ChunkDescriptor} {chunkSize : U32} {e : Failure}
    (h : loadLoop chunks chunkSize table = .error e) : e ≠ .dividedByZero := by
  induction table generalizing chunks chunkSize with
  | nil => cases h
  | cons entry table ih =>
    rw [loadLoop] at h
    split_ifs at h
    · rw [← Except.error.inj h]
      simp
    · rw [← Except.error.inj h]
      simp
    · exact ih h
    · exact ih h

theorem lookupBehind_page {first : ChunkDescriptor} {rest : List ChunkDescriptor} {o : U32} :
    lookupBehind (first :: rest) 0x1000 o ≠ .error .dividedByZero := by
  rw [lookupBehind_eq (by decide) (by simp)]
  cases rest[o.toNat / (0x1000 : BitVec 32).toNat]? with
  | none => nofun
  | some chunk =>
    simp only
    split_ifs <;> nofun

theorem loadChunks_one (first : ChunkDescriptor) :
    loadChunks [first] = .ok ([first], first.2) := rfl

theorem loadChunks_two (first second : ChunkDescriptor) :
    loadChunks [first, second] = .ok ([first, second], second.2) := by
  rw [loadChunks, loadLoop, if_neg (by decide), if_neg (by simp), loadLoop,
    if_neg (by simp [pxiStaticBufferSize]), if_neg (by simp), loadLoop]
  rfl

theorem lookupAddress_error {e : Failure} (h : loadChunks table = .error e) :
    lookupAddress table offset = .error e := by
  rw [lookupAddress, h]
  rfl

/-- Behind the last chunk there is no chunk. -/
theorem lookupBehind_end {first : ChunkDescriptor} {rest : List ChunkDescriptor} {o chunkSize : U32}
    (hsize : chunkSize ≠ 0) (hwrap : ¬(chunkSize = 1 ∧ o = -1))
    (h : rest.length ≤ o.toNat / chunkSize.toNat) : lookupBehind (first :: rest) chunkSize o =
      .error (.threw (.runtimeError "Trying to access PXI buffer at invalid offset")) := by
  rw [lookupBehind_eq hsize hwrap, List.getElem?_eq_none h]

theorem lookupAddress_dividedByZero :
    lookupAddress table offset = .error .dividedByZero ↔ DividesByZero table offset := by
  match table with
  | [] => exact iff_of_false (fun h => by cases h) fun h => h
  | [first] =>
    rw [lookupAddress_cons (loadChunks_one first)]
    change _ ↔ first.2 = 0
    by_cases h0 : first.2 = 0
    · rw [h0, if_neg (by simp), lookupBehind, if_pos rfl]
      exact iff_of_true rfl rfl
    · refine iff_of_false ?_ h0
      split_ifs with hlt
      · simp
      · rw [lookupBehind_end h0 _ (Nat.zero_le _)]
        · simp
        · rintro ⟨hone, hlast⟩
          rw [hone] at hlt hlast
          bv_omega
  | [first, second] =>
    rw [lookupAddress_cons (loadChunks_two first second)]
    change _ ↔ second.2 = 0 ∧ ¬offset < first.2
    split_ifs with hlt
    · exact iff_of_false (by simp) fun h => h.2 hlt
    · rw [lookupBehind]
      split_ifs with h0
      · exact iff_of_true rfl ⟨h0, hlt⟩
      · refine iff_of_false (fun heq => ?_) fun h => h0 h.1
        dsimp only at heq
        split at heq
        · cases heq
        · split_ifs at heq
          cases heq
  | first :: second :: third :: rest =>
    refine iff_of_false ?_ fun h => h
    cases h : loadChunks (first :: second :: third :: rest) with
    | error e =>
      rw [lookupAddress_error h]
      exact fun heq => loadLoop_threw h (Except.error.inj heq)
    | ok r =>
      obtain ⟨chunks, chunkSize⟩ := r
      have hloaded := loadChunks_loaded h
      generalize htable : first :: second :: third :: rest = table at *
      cases hloaded with
      | empty => cases htable
      | one => cases htable
      | two => cases htable
      | more hpages =>
        rw [lookupAddress_cons h]
        split_ifs
        · simp
        · exact lookupBehind_page

theorem lookup_late {r : List ChunkDescriptor × U32} (h : loadChunks table = .ok r)
    (hlate : Late table offset) : ∃ e, lookupAddress table offset = .error (.threw e) := by
  cases loadChunks_loaded h with
  | empty => exact hlate.elim
  | one => exact hlate.elim
  | two => exact absurd rfl hlate.1
  | @more first second last pages hpages =>
    obtain ⟨-, hle⟩ := hlate
    rw [List.length_append, List.length_singleton] at hle
    have hge : ¬offset < first.2 := by
      rw [BitVec.lt_def]
      omega
    rw [lookupAddress_cons h, if_neg hge, lookupBehind_end (by decide) (by simp)]
    · exact ⟨_, rfl⟩
    · have hsub := BitVec.toNat_sub_of_le (not_lt.1 hge)
      change (second :: (pages ++ [last])).length ≤ (offset - first.2).toNat / 0x1000
      rw [List.length_cons, List.length_append, List.length_singleton, hsub]
      omega

/-- A byte of the buffer is found, if only at a wrong address, or is late in the last chunk. -/
theorem lookup_listed {r : List ChunkDescriptor × U32} {a : U32} (h : loadChunks table = .ok r)
    (hlate : ¬Late table offset) (hin : (listed table)[offset.toNat]? = some a) :
    ∃ b, lookupAddress table offset = .ok b := by
  by_cases hfits : LookupFits table offset
  · exact ⟨a, (LookupExact.found hin).1 ((lookup_iff h).2 hfits)⟩
  cases loadChunks_loaded h with
  | empty => cases hin
  | one first =>
    have h0 : first.2 = 0 := not_not.1 hfits
    rw [listed_cons, h0, if_neg (by simp)] at hin
    cases hin
  | two first last =>
    by_cases hlt : offset < first.2
    · exact absurd (.inl hlt) hfits
    · rw [listed_behind hlt, listed_cons] at hin
      split_ifs at hin with hlast
      · have h0 : last.2 ≠ 0 := by
          rintro h0
          rw [h0] at hlast
          exact absurd hlast (Nat.not_lt_zero _)
        rw [lookupAddress_cons h, if_neg hlt, lookupBehind_second h0 (by rwa [BitVec.lt_def])]
        exact ⟨_, rfl⟩
      · cases hin
  | @more first second last pages hpages =>
    rw [LookupFits] at hfits
    simp only [List.getLast?_append_cons, List.getLast?_singleton, List.length_append,
      List.length_singleton] at hfits
    have hlate' : ¬(first.2.toNat + 0x1000 * (pages.length + 1) + 0x1000 ≤ offset.toNat) := by
      intro hle
      exact hlate ⟨by simp, by rwa [List.length_append, List.length_singleton]⟩
    have hge : ¬offset < first.2 := by
      rw [BitVec.lt_def]
      omega
    rw [listed_behind hge, ← List.cons_append, listed_pages last hpages,
      BitVec.toNat_sub_of_le (not_lt.1 hge), List.getElem?_eq_none (by
        rw [List.length_cons]
        omega)] at hin
    simp only at hin
    rw [List.length_cons, if_neg (by omega)] at hin
    cases hin

/-- Where an access goes: on from `position`, or nowhere. -/
def InPlace (buffer : List U32) (position : ℕ) : Except Failure (List U32) → Prop
  | .ok places => places <+: buffer.drop position
  | .error e => e ≠ .dividedByZero

theorem prefix_listed {a : U32} : (List.range width).map (a + BitVec.ofNat 32 ·) <+:
    (listed table).drop position ↔
      ∀ i < width, (listed table)[position + i]? = some (a + BitVec.ofNat 32 i) := by
  rw [List.prefix_iff_getElem?]
  simp only [List.length_map, List.length_range, List.getElem?_drop, List.getElem_map,
    List.getElem_range]

/-- Accesses are in place where they fit. -/
theorem inPlace_iff (hw : Aligned width (BitVec.ofNat 32 position)) (hwidth : 0 < width)
    (hposition : position < 2 ^ 32) :
    InPlace (listed table) position (access width table (BitVec.ofNat 32 position)) ↔
      WriteFits width table position := by
  have hnat : (BitVec.ofNat 32 position).toNat = position := by
    rw [BitVec.toNat_ofNat, Nat.mod_eq_of_lt hposition]
  have hthrew : ∀ e, lookupAddress table (BitVec.ofNat 32 position) = .error (.threw e) →
      InPlace (listed table) position (access width table (BitVec.ofNat 32 position)) := by
    intro e he
    rw [access_eq hw, he]
    nofun
  rw [WriteFits]
  cases h : loadChunks table with
  | error e =>
    refine iff_of_true ?_ (by rintro ⟨r, hr⟩; cases hr)
    rw [access_eq hw, lookupAddress_error h]
    exact loadLoop_threw h
  | ok r =>
    by_cases hlate : Late table (BitVec.ofNat 32 position)
    · obtain ⟨e, he⟩ := lookup_late h hlate
      exact iff_of_true (hthrew e he) fun _ hnot => absurd hlate hnot
    · constructor
      · intro hplace _ _
        rw [← lookup_iff h]
        rw [access_eq hw] at hplace
        cases hr : lookupAddress table (BitVec.ofNat 32 position) with
        | ok a =>
          rw [hr] at hplace
          have hbytes := prefix_listed.1 hplace
          have hfirst : (listed table)[position]? = some a := by
            have := hbytes 0 hwidth
            rwa [show a + BitVec.ofNat 32 0 = a from BitVec.add_zero a] at this
          refine ⟨(LookupExact.found (by rw [hnat, hfirst])).2 rfl, fun b hb => ?_⟩
          obtain rfl : a = b := Option.some.inj (hfirst.symm.trans hb)
          exact hbytes
        | error e =>
          rw [hr] at hplace
          have hnone : (listed table)[position]? = none := by
            by_contra hsome
            obtain ⟨a, ha⟩ := Option.ne_none_iff_exists'.1 hsome
            obtain ⟨b, hb⟩ := lookup_listed h hlate (by rw [hnat, ha])
            rw [hr] at hb
            cases hb
          refine ⟨(LookupExact.rejected (by rw [hnat, hnone])).2 ?_, fun b hb => ?_⟩
          · cases e with
            | threw e => exact ⟨e, rfl⟩
            | dividedByZero => exact absurd rfl hplace
          · rw [hnone] at hb
            cases hb
      · intro hfits
        obtain ⟨hlookup, hbytes⟩ := hfits ⟨r, rfl⟩ hlate
        have hexact := (lookup_iff h).2 hlookup
        rw [LookupExact, hnat] at hexact
        cases hin : (listed table)[position]? with
        | none =>
          obtain ⟨e, he⟩ := hexact.2 hin
          exact hthrew e he
        | some a =>
          rw [access_eq hw, hexact.1 a hin]
          exact prefix_listed.2 (hbytes a hin)

end Lookups

/-! ## Runs of accesses -/

section Runs

variable {mapped : Mapped} {buffer : List U32} {position : ℕ}

/-- Every access goes on where the one before it ended. -/
def InPlaceAll (mapped : Mapped) (buffer : List U32) : ℕ → List Access → Prop
  | _, [] => True
  | position, .clear addr :: rest =>
    InPlace buffer position (clearAt mapped addr) ∧
      (mapped addr = true → InPlaceAll mapped buffer (position + 1) rest)
  | position, .read table offset :: rest =>
    access 8 table offset ≠ .error .dividedByZero ∧
      ∀ l, access 8 table offset = .ok l → InPlaceAll mapped buffer position rest
  | position, .write width table offset _ :: rest =>
    InPlace buffer position (access width table offset) ∧
      ∀ l, access width table offset = .ok l →
        InPlaceAll mapped buffer (position + l.length) rest

theorem append_prefix_iff {l l' : List U32} : l ++ l' <+: buffer.drop position ↔
    l <+: buffer.drop position ∧ l' <+: buffer.drop (position + l.length) := by
  constructor
  · intro h
    obtain ⟨t, ht⟩ := (List.prefix_append l l').trans h
    refine ⟨⟨t, ht⟩, ?_⟩
    rw [← List.drop_drop, ← ht, List.drop_left]
    rwa [← ht, List.prefix_append_right_inj] at h
  · rintro ⟨⟨t, ht⟩, h⟩
    rw [← List.drop_drop, ← ht, List.drop_left] at h
    rwa [← ht, List.prefix_append_right_inj]

theorem places_zip (places : List U32) (value : U64) :
    (places.zip (bytesOf places.length value)).map Prod.fst = places ∧
      (places.zip (bytesOf places.length value)).map Prod.snd = bytesOf places.length value := by
  have hlength : (bytesOf places.length value).length = places.length := by
    rw [bytesOf, List.length_map, List.length_range]
  exact ⟨List.map_fst_zip hlength.ge, List.map_snd_zip hlength.le⟩

/-- The bytes that are written are the first ones of the buffer if the accesses are in place. -/
theorem perform_inside (accesses : List Access) (memory : U32 → Byte) (titleId : U64) :
    ((perform mapped accesses memory titleId).2 ≠ some .dividedByZero ∧
      (perform mapped accesses memory titleId).1.map Prod.fst <+: buffer.drop position) ↔
      InPlaceAll mapped buffer position accesses := by
  induction accesses generalizing position memory titleId with
  | nil => exact iff_of_true ⟨nofun, List.nil_prefix⟩ trivial
  | cons a rest ih =>
    cases a with
    | clear addr =>
      rw [InPlaceAll, perform, clearAt]
      by_cases haddr : mapped addr = true
      · simp only [haddr, if_true, List.map_append, List.map_map, append_prefix_iff, InPlace,
          forall_const, ← ih memory titleId]
        exact ⟨fun h => ⟨h.2.1, h.1, h.2.2⟩, fun h => ⟨h.2.1, h.1, h.2.2⟩⟩
      · simp only [haddr, Bool.false_eq_true, if_false, InPlace, false_implies, and_true]
        exact iff_of_true ⟨nofun, List.nil_prefix⟩ nofun
    | read table offset =>
      rw [InPlaceAll, perform]
      cases h : access 8 table offset with
      | error e =>
        constructor
        · rintro ⟨he, -⟩
          exact ⟨fun heq => he (congrArg some (Except.error.inj heq)), nofun⟩
        · rintro ⟨he, -⟩
          exact ⟨fun heq => he (congrArg Except.error (Option.some.inj heq)), List.nil_prefix⟩
      | ok l =>
        simp only [ne_eq, reduceCtorEq, not_false_eq_true, true_and, Except.ok.injEq, forall_eq']
        exact ih _ _
    | write width table offset value =>
      rw [InPlaceAll, perform]
      cases h : access width table offset with
      | error e =>
        constructor
        · rintro ⟨he, -⟩
          exact ⟨fun heq => he (congrArg some heq), nofun⟩
        · rintro ⟨he, -⟩
          exact ⟨fun heq => he (Option.some.inj heq), List.nil_prefix⟩
      | ok l =>
        simp only [List.map_append, (places_zip l (value titleId)).1, append_prefix_iff, InPlace,
          Except.ok.injEq, forall_eq']
        rw [← ih]
        exact ⟨fun h => ⟨h.2.1, h.1, h.2.2⟩, fun h => ⟨h.2.1, h.1, h.2.2⟩⟩

/-! ## Bytes of a mapped buffer -/

variable {addr : U32} {size : ℕ}

theorem clear_inPlace (addr : U32) (size k : ℕ) :
    [addr + BitVec.ofNat 32 k] <+: (range addr size).drop k ↔ k < size := by
  rw [List.prefix_iff_getElem?]
  simp only [List.length_singleton, Nat.lt_one_iff, forall_eq, List.getElem?_drop, range,
    List.getElem?_map, List.getElem_singleton]
  by_cases hk : k < size
  · rw [Nat.add_zero, List.getElem?_range hk]
    exact iff_of_true rfl hk
  · rw [Nat.add_zero, List.getElem?_eq_none (by rw [List.length_range]; omega)]
    exact iff_of_false nofun hk

/-- Zeros from one address on stay in the buffer, or meet a byte that is not mapped. -/
theorem clears_inPlace (s n : ℕ) :
    InPlaceAll mapped (range addr size) s
      ((List.range' s n).map fun k => .clear (addr + BitVec.ofNat 32 k)) ↔
      ∀ k, s ≤ k → k < s + n →
        (∀ j, s ≤ j → j ≤ k → mapped (addr + BitVec.ofNat 32 j) = true) → k < size := by
  induction n generalizing s with
  | zero => exact iff_of_true trivial fun k _ _ => by omega
  | succ n ih =>
    rw [List.range'_succ, List.map_cons, InPlaceAll, ih, clearAt]
    constructor
    · rintro ⟨hfirst, hrest⟩ k hle hlt hall
      have hs := hall s le_rfl hle
      rw [if_pos hs] at hfirst
      rcases hle.eq_or_lt with rfl | hgt
      · exact (clear_inPlace addr size s).1 hfirst
      · exact hrest hs k hgt (by omega) fun j hj => hall j (by omega)
    · intro h
      refine ⟨?_, fun hs k hle hlt hall => h k (by omega) (by omega) fun j hj hjk => ?_⟩
      · split_ifs with hs
        · refine (clear_inPlace addr size s).2 (h s le_rfl (by omega) fun j hj hjs => ?_)
          rwa [show j = s by omega]
        · nofun
      · rcases hj.eq_or_lt with rfl | hgt
        · exact hs
        · exact hall j hgt hjk

theorem hours_flatMap (addr : U32) (n : ℕ) :
    ((List.range n).flatMap fun hour => [Access.clear (addr + 2 * BitVec.ofNat 32 hour),
      .clear (addr + 2 * BitVec.ofNat 32 hour + 1)]) =
      (List.range' 0 (2 * n)).map fun k => .clear (addr + BitVec.ofNat 32 k) := by
  induction n with
  | zero => rfl
  | succ n ih =>
    have heven : (2 : U32) * BitVec.ofNat 32 n = BitVec.ofNat 32 (2 * n) := by
      rw [BitVec.ofNat_mul]
      rfl
    have hodd : addr + BitVec.ofNat 32 (2 * n) + 1 = addr + BitVec.ofNat 32 (2 * n + 1) := by
      rw [BitVec.ofNat_add, ← BitVec.add_assoc]
      rfl
    rw [List.range_succ, List.flatMap_append, ih, Nat.mul_succ, List.range'_append_1.symm,
      List.map_append, List.flatMap_singleton, heven, hodd, Nat.zero_add]
    rfl

/-! ## Writes through a table -/

/-- Writes of these widths and values, one behind the other. -/
def writesAt (table : List ChunkDescriptor) : ℕ → List (ℕ × (U64 → U64)) → List Access
  | _, [] => []
  | position, (width, value) :: parts =>
    .write width table (BitVec.ofNat 32 position) value :: writesAt table (position + width) parts

/-- Every write is aligned. -/
def AlignedAt : ℕ → List ℕ → Prop
  | _, [] => True
  | position, width :: widths =>
    (width = 4 ∨ width = 8) ∧ width ∣ position ∧ AlignedAt (position + width) widths

theorem aligned_of_dvd {width : ℕ} (hwidth : width = 4 ∨ width = 8) (h : width ∣ position) :
    Aligned width (BitVec.ofNat 32 position) := by
  obtain ⟨k, hk, rfl⟩ := width_pow hwidth
  have hdvd : 2 ^ k ∣ (BitVec.ofNat 32 position).toNat := by
    rw [BitVec.toNat_ofNat]
    exact (Nat.dvd_mod_iff (Nat.pow_dvd_pow 2 hk)).2 h
  apply BitVec.eq_of_toNat_eq
  rw [BitVec.toNat_and_not_mask, Nat.div_mul_cancel hdvd]

variable {table : List ChunkDescriptor} {rest : List Access}

/-- The access of a lookup that is answered has all its bytes. -/
theorem access_ok_iff {width : ℕ} {offset : U32} (hw : Aligned width offset) :
    (∃ l, access width table offset = .ok l) ↔ Answered table offset := by
  rw [access_eq hw, Answered]
  cases lookupAddress table offset with
  | ok a => exact iff_of_true ⟨_, rfl⟩ ⟨a, rfl⟩
  | error e => exact iff_of_false nofun nofun

theorem access_length {width : ℕ} {offset : U32} {l : List U32}
    (h : access width table offset = .ok l) : l.length = width := by
  unfold access at h
  split_ifs at h
  obtain ⟨a, -, h⟩ := Mikage.bind_ok h
  rw [← Except.ok.inj h, List.length_map, List.length_range]

theorem inPlace_length {places : List U32} (h : InPlace buffer position (.ok places))
    (hposition : position ≤ buffer.length) : position + places.length ≤ buffer.length := by
  have hle := List.IsPrefix.length_le h
  rw [List.length_drop] at hle
  omega

/-- Writes through a table are in place where they fit, and what follows goes on behind them. -/
theorem writesAt_inPlace (hsmall : (listed table).length < 2 ^ 32)
    (parts : List (ℕ × (U64 → U64))) (haligned : AlignedAt position (parts.map Prod.fst))
    (hposition : position ≤ (listed table).length) :
    InPlaceAll mapped (listed table) position (writesAt table position parts ++ rest) ↔
      PartsFit table position (parts.map Prod.fst) ∧
        (PartsAnswered table position (parts.map Prod.fst) →
          InPlaceAll mapped (listed table) (position + (parts.map Prod.fst).sum) rest) := by
  induction parts generalizing position with
  | nil =>
    change InPlaceAll _ _ position rest ↔ True ∧ (True → InPlaceAll _ _ (position + 0) rest)
    rw [true_and, true_implies, Nat.add_zero]
  | cons part parts ih =>
    obtain ⟨width, value⟩ := part
    obtain ⟨hwidth, hdvd, hrest⟩ := haligned
    have hw := aligned_of_dvd hwidth hdvd
    rw [writesAt, List.cons_append, InPlaceAll, inPlace_iff hw (by omega) (by omega), List.map_cons,
      PartsFit, PartsAnswered, List.sum_cons, ← Nat.add_assoc, ← access_ok_iff hw, and_assoc]
    refine and_congr_right fun hfits => ?_
    have hplace := (inPlace_iff hw (by omega) (by omega)).2 hfits
    constructor
    · intro h
      refine ⟨?_, ?_⟩
      · rintro ⟨l, hl⟩
        rw [hl] at hplace
        have hle := inPlace_length hplace hposition
        have hall := h l hl
        rw [access_length hl] at hle hall
        exact ((ih hrest hle).1 hall).1
      · rintro ⟨⟨l, hl⟩, hanswered⟩
        rw [hl] at hplace
        have hle := inPlace_length hplace hposition
        have hall := h l hl
        rw [access_length hl] at hle hall
        exact ((ih hrest hle).1 hall).2 hanswered
    · rintro ⟨hparts, hall⟩ l hl
      rw [hl] at hplace
      have hle := inPlace_length hplace hposition
      rw [access_length hl] at hle ⊢
      exact (ih hrest hle).2 ⟨hparts ⟨l, hl⟩, fun hanswered => hall ⟨⟨l, hl⟩, hanswered⟩⟩

/-- Writes that fit and are answered end in the buffer. -/
theorem parts_length (hsmall : (listed table).length < 2 ^ 32) {widths : List ℕ}
    (haligned : AlignedAt position widths) (hposition : position ≤ (listed table).length)
    (hfits : PartsFit table position widths) (hanswered : PartsAnswered table position widths) :
    position + widths.sum ≤ (listed table).length := by
  induction widths generalizing position with
  | nil => simpa using hposition
  | cons width widths ih =>
    obtain ⟨hwidth, hdvd, hrest⟩ := haligned
    have hw := aligned_of_dvd hwidth hdvd
    obtain ⟨l, hl⟩ := (access_ok_iff hw).2 hanswered.1
    have hplace := (inPlace_iff hw (by omega) (by omega)).2 hfits.1
    rw [hl] at hplace
    have hle := inPlace_length hplace hposition
    rw [access_length hl] at hle
    rw [List.sum_cons, ← Nat.add_assoc]
    exact ih hrest hle (hfits.2 hanswered.1) hanswered.2

theorem writesAt_inPlace_all (hsmall : (listed table).length < 2 ^ 32)
    (parts : List (ℕ × (U64 → U64))) (haligned : AlignedAt 0 (parts.map Prod.fst)) :
    InPlaceAll mapped (listed table) 0 (writesAt table 0 parts) ↔
      PartsFit table 0 (parts.map Prod.fst) := by
  have h : InPlaceAll mapped (listed table) 0 (writesAt table 0 parts ++ []) ↔ _ :=
    writesAt_inPlace hsmall parts haligned (Nat.zero_le _)
  rw [List.append_nil] at h
  rw [h]
  exact ⟨fun h => h.1, fun h => ⟨h, fun _ => trivial⟩⟩

/-- What is written when nothing fails. -/
theorem writesAt_values (parts : List (ℕ × U64)) (memory : U32 → Byte) (titleId : U64)
    (h : (perform mapped (writesAt table position (parts.map fun part =>
      (part.1, fun _ => part.2))) memory titleId).2 = none) :
    (perform mapped (writesAt table position (parts.map fun part =>
      (part.1, fun _ => part.2))) memory titleId).1.map Prod.snd =
      parts.flatMap fun part => bytesOf part.1 part.2 := by
  induction parts generalizing position memory with
  | nil => rfl
  | cons part parts ih =>
    rw [List.map_cons, writesAt, perform] at h ⊢
    cases hl : access part.1 table (BitVec.ofNat 32 position) with
    | error e =>
      rw [hl] at h
      cases h
    | ok l =>
      rw [hl] at h
      simp only at h ⊢
      rw [List.map_append, (places_zip l part.2).2, ih _ h, access_length hl, List.flatMap_cons]

end Runs

/-! ## The handlers -/

section Handlers

variable {mapped : Mapped} {memory : U32 → Byte} {request : Request}

/-- The accesses of a plan are in place. -/
theorem contained_iff {accesses : List Access} {count : Option ℕ}
    (hplan : request.plan = .ok (accesses, count))
    (hentries : (perform mapped accesses memory 0).2 = none → ∀ n, count = some n →
      (perform mapped accesses memory 0).1.map Prod.snd = (List.range n).flatMap request.entry) :
    Contained request (request.handle mapped memory) ↔
      InPlaceAll mapped request.buffer 0 accesses := by
  have hhandle : request.handle mapped memory =
      { writes := (perform mapped accesses memory 0).1,
        answer := match (perform mapped accesses memory 0).2 with
          | none => .ok count
          | some e => .error e } := by
    rw [Request.handle, hplan]
  rw [← perform_inside accesses memory 0, List.drop_zero, hhandle]
  cases hout : (perform mapped accesses memory 0).2 with
  | none =>
    refine ⟨fun h => ⟨nofun, h.inside⟩, fun h => ⟨nofun, h.2, fun n hn => ?_⟩⟩
    exact hentries hout n (Except.ok.inj hn)
  | some e =>
    refine ⟨fun h => ⟨fun heq => h.defined (congrArg Except.error (Option.some.inj heq)), h.inside⟩,
      fun h => ⟨fun heq => h.1 (congrArg some (Except.error.inj heq)), h.2, nofun⟩⟩

theorem contained_rejected {e : Failure} (hplan : request.plan = .error e)
    (he : e ≠ .dividedByZero) : Contained request (request.handle mapped memory) := by
  rw [Request.handle, hplan]
  exact ⟨fun heq => he (Except.error.inj heq), List.nil_prefix, nofun⟩

/-- A request that writes nothing, and says of no entry that it did. -/
theorem contained_nothing {count : Option ℕ} (hplan : request.plan = .ok ([], count))
    (hcount : ∀ n, count = some n → n = 0) : Contained request (request.handle mapped memory) := by
  rw [contained_iff hplan fun _ n hn => ?_]
  · trivial
  · rw [hcount n hn]
    rfl

theorem getStepHistory_contained (numHours addr size : U32) :
    Contained (.getStepHistory numHours addr size)
        (Request.handle mapped memory (.getStepHistory numHours addr size)) ↔
      Request.Fits mapped (.getStepHistory numHours addr size) := by
  have hn := numHours.isLt
  have hs := size.isLt
  rw [Request.Fits]
  by_cases hsize : numHours * 2 = size
  · have hwrap : numHours.toNat * 2 % 2 ^ 32 = size.toNat := by
      rw [← hsize, BitVec.toNat_mul]
      rfl
    have hplan : (Request.getStepHistory numHours addr size).plan = .ok
        ((List.range' 0 (2 * numHours.toNat)).map fun k => .clear (addr + BitVec.ofNat 32 k),
          none) := by
      rw [← hours_flatMap]
      exact if_neg (not_not.2 hsize)
    rw [contained_iff hplan (by simp)]
    change InPlaceAll mapped (range addr size.toNat) 0 _ ↔ _
    rw [clears_inPlace, or_iff_right (not_not.2 hsize)]
    constructor
    · intro h
      by_contra hnot
      push Not at hnot
      refine absurd (h size.toNat (Nat.zero_le _) (by omega) fun j _ hj => ?_) (lt_irrefl _)
      exact Bool.not_eq_false _ ▸ hnot.2 j hj
    · rintro (hsmall | ⟨j, hj, hfault⟩) k - hk hall
      · omega
      · by_contra hle
        rw [hall j (Nat.zero_le _) (by omega)] at hfault
        cases hfault
  · exact iff_of_true (contained_rejected (if_pos hsize) nofun) (.inl hsize)

theorem readRegisterBuffer_contained (size addr bufferSize : U32) :
    Contained (.readRegisterBuffer0x12 size addr bufferSize)
      (Request.handle mapped memory (.readRegisterBuffer0x12 size addr bufferSize)) := by
  by_cases hlt : bufferSize < size
  · exact contained_rejected (if_pos hlt) nofun
  · have hplan : (Request.readRegisterBuffer0x12 size addr bufferSize).plan = .ok
        ((List.range' 0 bufferSize.toNat).map fun k => .clear (addr + BitVec.ofNat 32 k),
          none) := by
      rw [← List.range_eq_range']
      exact if_neg hlt
    rw [contained_iff hplan (by simp)]
    change InPlaceAll mapped (range addr bufferSize.toNat) 0 _
    rw [clears_inPlace]
    intro k _ hk _
    omega

theorem titles_writesAt (table : List ChunkDescriptor) (value : ℕ → U64) (s n : ℕ) :
    (List.range' s n).map (fun titleIndex => Access.write 8 table
      (BitVec.ofNat 32 (titleIndex * 8)) fun _ => value titleIndex) =
      writesAt table (s * 8) (((List.range' s n).map fun i => (8, value i)).map fun part =>
        (part.1, fun _ => part.2)) := by
  induction n generalizing s with
  | zero => rfl
  | succ n ih =>
    rw [List.range'_succ, List.map_cons, List.map_cons, List.map_cons, writesAt, ih, Nat.succ_mul]

theorem aligned_replicate (s n : ℕ) : AlignedAt (s * 8) (List.replicate n 8) := by
  induction n generalizing s with
  | zero => trivial
  | succ n ih => exact ⟨.inr rfl, Nat.dvd_mul_left 8 s, by rw [← Nat.succ_mul]; exact ih (s + 1)⟩

/-- A list of titles, of which the first ones are written. -/
theorem titles_contained {output : ClientBuffer} (value : ℕ → U64) {n : ℕ}
    (hbuffer : request.buffer = listed output.chunks)
    (hplan : request.plan = .ok ((List.range n).map fun titleIndex => .write 8 output.chunks
      (BitVec.ofNat 32 (titleIndex * 8)) fun _ => value titleIndex, some n))
    (hentry : ∀ i, i < n → request.entry i = bytesOf 8 (value i)) :
    Contained request (request.handle mapped memory) ↔
      PartsFit output.chunks 0 (List.replicate n 8) := by
  have htitles := titles_writesAt output.chunks value 0 n
  rw [← List.range_eq_range', Nat.zero_mul] at htitles
  have hwidths : ((((List.range n).map fun i => (8, value i)).map fun part =>
      (part.1, fun (_ : U64) => part.2)).map Prod.fst) = List.replicate n 8 := by
    rw [List.map_map, List.map_map]
    exact List.map_const'.trans (by rw [List.length_range])
  rw [contained_iff hplan fun hout m hm => ?_, hbuffer, htitles,
    writesAt_inPlace_all output.small _ (by rw [hwidths]; exact aligned_replicate 0 n), hwidths]
  obtain rfl : n = m := Option.some.inj hm
  rw [htitles] at hout ⊢
  rw [writesAt_values _ _ _ hout, List.flatMap_map]
  exact List.flatMap_congr fun i hi => (hentry i (List.mem_range.1 hi)).symm

theorem getTitleList_contained (context : Context) (numTitles mediaType : U32)
    (output : ClientBuffer) : Contained (.getTitleList context numTitles mediaType output)
        (Request.handle mapped memory (.getTitleList context numTitles mediaType output)) ↔
      Request.Fits mapped (.getTitleList context numTitles mediaType output) := by
  have hlt := numTitles.isLt
  rw [Request.Fits, listedTitles]
  by_cases h0 : mediaType &&& 0xff = 0
  · rw [if_pos h0]
    refine titles_contained (fun i => context.nandTitles.getD i 0) rfl ?_ fun i _ => ?_
    · refine (if_pos h0).trans ?_
      have hcount : (if context.nandTitles.length < numTitles.toNat then
          BitVec.ofNat 32 context.nandTitles.length else numTitles).toNat =
          min numTitles.toNat context.nandTitles.length := by
        split_ifs with hless
        · rw [BitVec.toNat_ofNat, Nat.mod_eq_of_lt (by omega)]
          omega
        · omega
      rw [hcount]
    · rw [Request.entry, if_pos h0]
  · rw [if_neg h0]
    by_cases h2 : mediaType &&& 0xff = 2
    · have hplan : (Request.getTitleList context numTitles mediaType output).plan =
          if (if context.gamecard.isSome then 1 else 0) < numTitles then .error kernelPanic
          else match context.gamecard with
            | some programId => .ok ([.write 8 output.chunks 0 fun _ => programId], some 1)
            | none => .ok ([], some 0) := (if_neg h0).trans (if_pos h2)
      cases hcard : context.gamecard with
      | none =>
        rw [hcard] at hplan
        rw [if_neg (by simp)]
        refine iff_of_true ?_ trivial
        by_cases hmany : (0 : U32) < numTitles
        · exact contained_rejected (hplan.trans (if_pos hmany)) nofun
        · exact contained_nothing (hplan.trans (if_neg hmany)) (by simp)
      | some programId =>
        rw [hcard] at hplan
        by_cases hmany : (1 : U32) < numTitles
        · rw [if_neg fun h => absurd h.2.2 (not_le.2 hmany)]
          exact iff_of_true (contained_rejected (hplan.trans (if_pos hmany)) nofun) trivial
        · rw [if_pos ⟨h2, rfl, not_lt.1 hmany⟩]
          refine titles_contained (fun _ => programId) rfl
            (hplan.trans (if_neg hmany)) fun i _ => ?_
          rw [Request.entry, if_neg h0, hcard, Option.getD_some]
    · rw [if_neg fun h => h2 h.1]
      refine iff_of_true ?_ trivial
      by_cases h1 : mediaType &&& 0xff = 1
      · have hplan : (Request.getTitleList context numTitles mediaType output).plan =
            .ok ([], some 0) := (if_neg h0).trans ((if_neg h2).trans (if_pos h1))
        exact contained_nothing hplan (by simp)
      · exact contained_rejected ((if_neg h0).trans ((if_neg h2).trans (if_neg h1))) nofun

/-- The accesses for one title info. -/
def infoAccesses (titleIds infos : List ChunkDescriptor) (known : U64 → U64 → U64) (i : ℕ) :
    List Access :=
  .read titleIds (BitVec.ofNat 32 (i * 8)) :: writesAt infos (i * 24)
    [(8, fun titleId => known titleId titleId), (8, known 0x447000), (4, known 2055), (4, known 1)]

theorem infos_inPlace (mapped : U32 → Bool) (titleIds : List ChunkDescriptor)
    {infos : List ChunkDescriptor} (known : U64 → U64 → U64)
    (hsmall : (listed infos).length < 2 ^ 32) (s n : ℕ) (hs : s * 24 ≤ (listed infos).length) :
    InPlaceAll mapped (listed infos) (s * 24)
      ((List.range' s n).flatMap (infoAccesses titleIds infos known)) ↔
      ∀ i, s ≤ i → i < s + n →
        (∀ k, s ≤ k → k < i → Answered titleIds (BitVec.ofNat 32 (k * 8)) ∧
          PartsAnswered infos (k * 24) infoWidths) →
        ¬DividesByZero titleIds (BitVec.ofNat 32 (i * 8)) ∧
          (Answered titleIds (BitVec.ofNat 32 (i * 8)) → PartsFit infos (i * 24) infoWidths) := by
  induction n generalizing s with
  | zero => exact iff_of_true trivial fun i _ _ => by omega
  | succ n ih =>
    have hread : Aligned 8 (BitVec.ofNat 32 (s * 8)) :=
      aligned_of_dvd (.inr rfl) (Nat.dvd_mul_left 8 s)
    have haligned : AlignedAt (s * 24) infoWidths :=
      ⟨.inr rfl, by omega, .inr rfl, by omega, .inl rfl, by omega, .inl rfl, by omega, trivial⟩
    have hdefined : access 8 titleIds (BitVec.ofNat 32 (s * 8)) ≠ .error .dividedByZero ↔
        ¬DividesByZero titleIds (BitVec.ofNat 32 (s * 8)) := by
      rw [← lookupAddress_dividedByZero, access_eq hread]
      cases lookupAddress titleIds (BitVec.ofNat 32 (s * 8)) <;> simp [Except.map]
    have hanswered : (∀ l, access 8 titleIds (BitVec.ofNat 32 (s * 8)) = .ok l →
        InPlaceAll mapped (listed infos) (s * 24) (writesAt infos (s * 24)
          [(8, fun titleId => known titleId titleId), (8, known 0x447000), (4, known 2055),
            (4, known 1)] ++ (List.range' (s + 1) n).flatMap (infoAccesses titleIds infos known))) ↔
        (Answered titleIds (BitVec.ofNat 32 (s * 8)) → PartsFit infos (s * 24) infoWidths ∧
          (PartsAnswered infos (s * 24) infoWidths → InPlaceAll mapped (listed infos) ((s + 1) * 24)
            ((List.range' (s + 1) n).flatMap (infoAccesses titleIds infos known)))) := by
      rw [writesAt_inPlace hsmall _ haligned hs, ← access_ok_iff hread, Nat.succ_mul]
      exact ⟨fun h ⟨l, hl⟩ => h l hl, fun h l hl => h ⟨l, hl⟩⟩
    rw [List.range'_succ, List.flatMap_cons, infoAccesses, List.cons_append, InPlaceAll, hdefined,
      hanswered]
    constructor
    · rintro ⟨hdivides, hfirst⟩ i hle hlt hall
      rcases hle.eq_or_lt with rfl | hgt
      · exact ⟨hdivides, fun h => (hfirst h).1⟩
      · obtain ⟨hanswer, hparts⟩ := hall s le_rfl hgt
        have hend := parts_length hsmall haligned hs (hfirst hanswer).1 hparts
        exact (ih (s + 1) (by rw [Nat.succ_mul]; exact hend)).1 ((hfirst hanswer).2 hparts) i hgt
          (by omega) fun k hk => hall k (by omega)
    · intro h
      have hfirst := h s le_rfl (by omega) fun k hk hks => by omega
      refine ⟨hfirst.1, fun hanswer => ⟨hfirst.2 hanswer, fun hparts => ?_⟩⟩
      have hend := parts_length hsmall haligned hs (hfirst.2 hanswer) hparts
      refine (ih (s + 1) (by rw [Nat.succ_mul]; exact hend)).2 fun i hle hlt hall =>
        h i (by omega) (by omega) fun k hk hki => ?_
      rcases hk.eq_or_lt with rfl | hgt
      · exact ⟨hanswer, hparts⟩
      · exact hall k hgt hki

theorem getTitleInfos_contained (context : Context) (mediaType numTitles : U32)
    (titleIds infos : ClientBuffer) :
    Contained (.getTitleInfos context mediaType numTitles titleIds infos)
        (Request.handle mapped memory (.getTitleInfos context mediaType numTitles titleIds infos)) ↔
      Request.Fits mapped (.getTitleInfos context mediaType numTitles titleIds infos) := by
  rw [Request.Fits]
  by_cases h0 : mediaType &&& 0xff = 0
  · have h2 : ¬mediaType &&& 0xff = 2 := by
      rw [h0]
      decide
    simp only [h2, false_implies, and_true]
    by_cases hmany : context.nandTitles.length < numTitles.toNat
    · exact iff_of_true (contained_rejected ((if_pos h0).trans (if_pos hmany)) nofun)
        fun _ hle => absurd hle (not_le.2 hmany)
    · have hplan : (Request.getTitleInfos context mediaType numTitles titleIds infos).plan =
          .ok ((List.range' 0 numTitles.toNat).flatMap (infoAccesses titleIds.chunks infos.chunks
            fun value titleId => if titleId ∈ context.nandTitles then value else 0), none) := by
        rw [← List.range_eq_range']
        exact (if_pos h0).trans (if_neg hmany)
      rw [contained_iff hplan (by simp)]
      have hinfos := infos_inPlace mapped titleIds.chunks
        (fun value titleId => if titleId ∈ context.nandTitles then value else 0) infos.small 0
        numTitles.toNat (by simp)
      rw [Nat.zero_mul] at hinfos
      refine hinfos.trans ?_
      simp only [Nat.zero_le, true_implies, Nat.zero_add]
      exact ⟨fun h _ _ => h, fun h => h h0 (not_lt.1 hmany)⟩
  · simp only [h0, false_implies, true_and]
    by_cases h2 : mediaType &&& 0xff = 2
    · simp only [h2, true_implies]
      have hplan : (Request.getTitleInfos context mediaType numTitles titleIds infos).plan =
          if (if context.gamecard.isSome then 1 else 0) < numTitles then .error kernelPanic
          else if context.gamecard.isSome then .ok (writesAt infos.chunks 0
            [(8, fun _ => 0), (8, fun _ => 0), (8, fun _ => 0)], none)
          else .ok ([], none) := (if_neg h0).trans (if_pos h2)
      by_cases hcard : context.gamecard.isSome = true
      · rw [if_pos hcard, if_pos hcard] at hplan
        by_cases hmany : (1 : U32) < numTitles
        · exact iff_of_true (contained_rejected (hplan.trans (if_pos hmany)) nofun)
            fun _ hle => absurd hle (not_le.2 hmany)
        · rw [contained_iff (hplan.trans (if_neg hmany)) (by simp)]
          refine (writesAt_inPlace_all infos.small _ ?_).trans
            ⟨fun h _ _ => h, fun h => h hcard (not_lt.1 hmany)⟩
          exact ⟨.inr rfl, by decide, .inr rfl, by decide, .inr rfl, by decide, trivial⟩
      · rw [if_neg hcard, if_neg hcard] at hplan
        refine iff_of_true ?_ fun h => absurd h hcard
        by_cases hmany : (0 : U32) < numTitles
        · exact contained_rejected (hplan.trans (if_pos hmany)) nofun
        · exact contained_nothing (hplan.trans (if_neg hmany)) (by simp)
    · exact iff_of_true (contained_rejected ((if_neg h0).trans (if_neg h2)) nofun)
        fun h => absurd h h2

/-- The outputs stay in their buffers unless the size of a step history wraps or a lookup in a table
goes astray. -/
theorem contained_iff_fits (mapped : Mapped) (memory : U32 → Byte) (request : Request) :
    Contained request (request.handle mapped memory) ↔ request.Fits mapped := by
  cases request with
  | getStepHistory numHours addr size => exact getStepHistory_contained numHours addr size
  | readRegisterBuffer0x12 size addr bufferSize =>
    exact iff_of_true (readRegisterBuffer_contained size addr bufferSize) trivial
  | getTitleList context numTitles mediaType output =>
    exact getTitleList_contained context numTitles mediaType output
  | getTitleInfos context mediaType numTitles titleIds infos =>
    exact getTitleInfos_contained context mediaType numTitles titleIds infos

/-- A history of 2^31 hours has the size of an empty buffer, and 2^32 bytes are written to it. -/
theorem not_contained_hours : ¬Contained (.getStepHistory 0x80000000 0x1000 0)
    (Request.handle (fun _ => true) (fun _ => 0) (.getStepHistory 0x80000000 0x1000 0)) := by
  rw [getStepHistory_contained]
  rintro (h | h | ⟨k, -, h⟩)
  · exact h (by decide)
  · exact absurd h (by decide)
  · cases h

end Handlers

end Mikage.PXI.Outputs
