import Mikage.Framework.Exceptions
import Mikage.Loader.Dot3dsx

/-!
# What the image of a 3DSX file holds

The tables of a segment name words, each by an entry that skips some and names the run behind them.
The pointer is compared neither with the end of the segment nor with that of the image, and the
sizes of the segments are rounded and added in 32 bits.

- `names`: the words that the entries name, in the order in which they are patched.
- `relocateAll_eq`: the passes over the tables are one pass over these words.
- `imaged_iff_contained`: when the image is as it should be.
-/

namespace Mikage.Loader.Dot3dsx

open Lib.Words (byteAt bytes_append)
open Lib.Patches

variable {file : File} {h : Header}

/-! ## What the tables name -/

/-- The words that the relocations of one pass name. -/
def tableNames (file : File) : (numRelocations offset patchPtr : ℕ) → List ℕ
  | 0, _, _ => []
  | n + 1, offset, patchPtr =>
    let start := patchPtr + readU16 file offset
    List.range' start (readU16 file (offset + 2)) ++
      tableNames file n (offset + 4) (start + readU16 file (offset + 2))

def passNames (file : File) (h : Header) : List (Pass × ℕ) → (offset : ℕ) → List (Pass × ℕ)
  | [], _ => []
  | (pass, num) :: rest, offset =>
    (tableNames file num offset (segmentPtr h pass.1)).map (pass, ·) ++
      passNames file h rest (offset + 4 * num)

/-- The words that are named, each with the pass that names it. -/
def names (file : File) (h : Header) : List (Pass × ℕ) :=
  passNames file h (passes file h) (relocationsOffset h)

def patchStep (h : Header) (image : Image) (name : Pass × ℕ) : Except Fault Image :=
  patchWord h image name.1.2 name.2

theorem patchWords_eq (pass : Pass) (n ptr : ℕ) (image : Image) :
    patchWords h pass.2 n ptr image =
      ((List.range' ptr n).map (pass, ·)).foldlM (patchStep h) image := by
  induction n generalizing ptr image with
  | zero => rfl
  | succ n ih =>
    rw [patchWords, List.range'_succ, List.map_cons, List.foldlM_cons]
    exact bind_congr fun image => ih (ptr + 1) image

theorem relocate_eq (pass : Pass) (num offset ptr : ℕ) (image : Image) :
    relocate file h pass.2 num offset ptr image =
      ((tableNames file num offset ptr).map (pass, ·)).foldlM (patchStep h) image := by
  induction num generalizing offset ptr image with
  | zero => rfl
  | succ num ih =>
    rw [relocate, tableNames, List.map_append, List.foldlM_append]
    simp only [patchWords_eq]
    exact bind_congr fun image => ih _ _ image

/-- The passes patch the words that the tables name. -/
theorem relocateAll_eq (ps : List (Pass × ℕ)) (offset : ℕ) (image : Image) :
    relocateAll file h ps offset image =
      (passNames file h ps offset).foldlM (patchStep h) image := by
  induction ps generalizing offset image with
  | nil => rfl
  | cons p ps ih =>
    obtain ⟨pass, num⟩ := p
    rw [relocateAll, passNames, List.foldlM_append]
    simp only [relocate_eq]
    exact bind_congr fun image => ih _ image

/-! ## What a word is to become -/

/-- The virtual address of an offset into the segments, which lie in one piece. -/
def target (word : Word) : Word := (word &&& 0x0fffffff) + 0x00100000

/-- The sub-types of a kind. -/
def Known (relative : Bool) (word : Word) : Prop := subType word < if relative then 2 else 1

instance (relative : Bool) (word : Word) : Decidable (Known relative word) :=
  inferInstanceAs (Decidable (_ < _))

/-- An absolute relocation gives the address of the target, a relative one its distance from the
word. Sub-type 1 is the distance in 31 bits. -/
def promised (relative : Bool) (w : ℕ) (word : Word) : Word :=
  let distance := target word - (0x00100000 + BitVec.ofNat 32 (4 * w))
  if relative then
    if subType word = 1 then distance &&& 0x7fffffff else distance
  else target word

theorem virtualAddress_eq (word : Word) : virtualAddress h word = target word := by
  simp only [virtualAddress, target, Header.dataVaddr, Header.roVaddr, Header.textVaddr]
  split
  · rfl
  · split <;> ring

theorem patched_eq {relative : Bool} {word : Word} (w : ℕ) (hknown : Known relative word) :
    patched h relative w word = promised relative w word := by
  cases relative with
  | false => simp only [patched, promised, virtualAddress_eq, Bool.false_eq_true, if_false]
  | true =>
    simp only [Known, if_true] at hknown
    simp only [patched, promised, virtualAddress_eq, if_true, Header.textVaddr]
    have hcases : subType word = 0 ∨ subType word = 1 := by bv_omega
    rcases hcases with hzero | hone
    · simp [hzero]
    · simp [hone]

/-! ## The sections -/

/-- Where a section lies in the image. -/
def CodeSetInfo.start (s : CodeSetInfo) : ℕ := (s.address - Header.textVaddr).toNat

def CodeSetInfo.Has (s : CodeSetInfo) (i : ℕ) : Prop :=
  s.start ≤ i ∧ i < s.start + s.sizeBytes.toNat

instance (s : CodeSetInfo) (i : ℕ) : Decidable (s.Has i) := inferInstanceAs (Decidable (_ ∧ _))

/-- The data of the file at the place of its section, and zero elsewhere. -/
def fileByte (file : File) (h : Header) (i : ℕ) : Byte :=
  if (sectionText h).Has i then byte file (textOffset h + (i - (sectionText h).start))
  else if (sectionRo h).Has i then byte file (roOffset h + (i - (sectionRo h).start))
  else if (sectionData h).Has i then byte file (dataOffset h + (i - (sectionData h).start))
  else 0

def fileWord (file : File) (h : Header) (w : ℕ) : Word :=
  assemble fun i => fileByte file h (4 * w + i)

/-- The sections begin at pages, one behind the other, and fill the image. -/
structure Paged (h : Header) (size : ℕ) : Prop where
  text_start : (sectionText h).start = 0
  text_fits : h.textSize.toNat ≤ h.textNumpages.toNat * 0x1000
  ro_start : (sectionRo h).start = h.textNumpages.toNat * 0x1000
  ro_fits : h.roSize.toNat ≤ h.roNumpages.toNat * 0x1000
  data_start : (sectionData h).start = (h.textNumpages.toNat + h.roNumpages.toNat) * 0x1000
  data_fits : h.dataSize.toNat ≤ h.dataNumpages.toNat * 0x1000
  size_eq : size = (h.textNumpages.toNat + h.roNumpages.toNat + h.dataNumpages.toNat) * 0x1000

def pages (size : Word) : ℕ := (size.toNat + 0xfff) / 0x1000

/-- The rounded sizes do not wrap. -/
def Sized (h : Header) : Prop := pages h.textSize + pages h.roSize + pages h.dataSize < 2 ^ 20

theorem toNat_numpages (size : Word) :
    ((size + 0xfff) >>> 12).toNat = (size.toNat + 0xfff) % 2 ^ 32 / 0x1000 := by
  rw [BitVec.toNat_ushiftRight, BitVec.toNat_add, Nat.shiftRight_eq_div_pow]
  rfl

theorem toNat_bytes (n : Word) : (n <<< 12).toNat = n.toNat * 0x1000 % 2 ^ 32 := by
  rw [BitVec.toNat_shiftLeft, Nat.shiftLeft_eq]

theorem start_ro : (sectionRo h).start = h.textNumpages.toNat * 0x1000 % 2 ^ 32 := by
  rw [CodeSetInfo.start, sectionRo, Header.roVaddr, add_sub_cancel_left, toNat_bytes]

theorem start_data : (sectionData h).start =
    (h.textNumpages.toNat * 0x1000 % 2 ^ 32 + h.roNumpages.toNat * 0x1000 % 2 ^ 32) % 2 ^ 32 := by
  have hdistance : h.dataVaddr - Header.textVaddr =
      h.textNumpages <<< 12 + h.roNumpages <<< 12 := by
    simp only [Header.dataVaddr, Header.roVaddr]
    ring
  rw [CodeSetInfo.start, sectionData, hdistance, BitVec.toNat_add, toNat_bytes, toNat_bytes]

theorem toNat_programCodeSize : h.programCodeSize.toNat =
    ((h.textNumpages.toNat + h.roNumpages.toNat) % 2 ^ 32 + h.dataNumpages.toNat) % 2 ^ 32
      * 0x1000 % 2 ^ 32 := by
  rw [Header.programCodeSize, toNat_bytes, BitVec.toNat_add, BitVec.toNat_add]

theorem Sized.paged (hsized : Sized h) : Paged h h.programCodeSize.toNat := by
  have ht := toNat_numpages h.textSize
  have hr := toNat_numpages h.roSize
  have hd := toNat_numpages h.dataSize
  have htlt := h.textSize.isLt
  have hrlt := h.roSize.isLt
  have hdlt := h.dataSize.isLt
  simp only [Sized, pages] at hsized
  have ht' : h.textNumpages.toNat = (h.textSize.toNat + 0xfff) / 0x1000 := by
    rw [Header.textNumpages, ht]
    omega
  have hr' : h.roNumpages.toNat = (h.roSize.toNat + 0xfff) / 0x1000 := by
    rw [Header.roNumpages, hr]
    omega
  have hd' : h.dataNumpages.toNat = (h.dataSize.toNat + 0xfff) / 0x1000 := by
    rw [Header.dataNumpages, hd]
    omega
  constructor
  · simp [CodeSetInfo.start, sectionText]
  · omega
  · rw [start_ro]
    omega
  · omega
  · rw [start_data]
    omega
  · omega
  · rw [toNat_programCodeSize]
    omega

/-! ## The bytes of words -/

theorem byteAt_assemble {bytes : ℕ → Byte} {i : ℕ} (hi : i < 4) :
    byteAt (assemble bytes) i = bytes i := by
  apply BitVec.eq_of_getLsbD_eq
  intro j hj
  have hcases : i = 0 ∨ i = 1 ∨ i = 2 ∨ i = 3 := by omega
  simp only [byteAt, assemble, BitVec.getLsbD_extractLsb', BitVec.getLsbD_append]
  rcases hcases with rfl | rfl | rfl | rfl <;> grind

theorem word_ext {x y : Word} (heq : ∀ i < 4, byteAt x i = byteAt y i) : x = y := by
  rw [← bytes_append x, ← bytes_append y, heq 0 (by decide), heq 1 (by decide), heq 2 (by decide),
    heq 3 (by decide)]

theorem byteAt_putBytes (image : Image) (start size offset w : ℕ) {i : ℕ} (hi : i < 4) :
    byteAt (putBytes image start size file offset w) i =
      if start ≤ 4 * w + i ∧ 4 * w + i < start + size then
        byte file (offset + (4 * w + i - start))
      else byteAt (image w) i := by
  rw [putBytes, byteAt_assemble hi]

/-! ## The segments in the image -/

theorem start_segmentPtr :
    4 * segmentPtr h 1 = (sectionRo h).start ∧ 4 * segmentPtr h 2 = (sectionData h).start := by
  have hro := start_ro (h := h)
  have hdata := start_data (h := h)
  constructor
  · show 4 * ((sectionRo h).start / 4) = (sectionRo h).start
    omega
  · show 4 * ((sectionData h).start / 4) = (sectionData h).start
    omega

theorem readSegment_ok_iff {total start offset : ℕ} {image result : Image} {size : Word} :
    readSegment total file image start size offset = .ok result ↔
      (size = 0 ∨ start + size.toNat ≤ total) ∧
        result = putBytes image start size.toNat file offset := by
  by_cases hfits : size = 0 ∨ start + size.toNat ≤ total
  · rw [readSegment, if_pos hfits, Except.ok.injEq]
    exact ⟨fun heq => ⟨hfits, heq.symm⟩, fun heq => heq.2.symm⟩
  · rw [readSegment, if_neg hfits]
    exact ⟨fun heq => (nomatch heq), fun heq => absurd heq.1 hfits⟩

/-- Reads that stay in the image are those of segments whose pages do not wrap. -/
theorem sized_of_fits
    (htext : h.textSize = 0 ∨ h.textSize.toNat ≤ h.programCodeSize.toNat)
    (hro : h.roSize = 0 ∨ (sectionRo h).start + h.roSize.toNat ≤ h.programCodeSize.toNat)
    (hdata : h.dataSize = 0 ∨
      (sectionData h).start + h.dataSize.toNat ≤ h.programCodeSize.toNat) : Sized h := by
  obtain ⟨total, htotal, hlt⟩ : ∃ total, h.programCodeSize.toNat = total * 0x1000 ∧
      total < 2 ^ 20 := by
    rw [toNat_programCodeSize]
    generalize ((h.textNumpages.toNat + h.roNumpages.toNat) % 2 ^ 32 + h.dataNumpages.toNat) %
      2 ^ 32 = sum
    exact ⟨sum % 2 ^ 20, by omega, Nat.mod_lt _ (by decide)⟩
  rw [htotal] at htext hro hdata
  rw [start_ro] at hro
  rw [start_data] at hdata
  rw [← BitVec.toNat_inj, show (0 : Word).toNat = 0 from rfl] at htext hro hdata
  -- a segment that fits is not so long that its rounding wraps
  have ht : h.textNumpages.toNat = pages h.textSize ∧ pages h.textSize ≤ total := by
    rw [Header.textNumpages, toNat_numpages, pages]
    omega
  rw [ht.1] at hro hdata
  have hr : h.roNumpages.toNat = pages h.roSize ∧
      (pages h.roSize = 0 ∨ pages h.textSize + pages h.roSize ≤ total) := by
    rw [Header.roNumpages, toNat_numpages]
    rw [show pages h.roSize = (h.roSize.toNat + 0xfff) / 0x1000 from rfl]
    omega
  rw [hr.1] at hdata
  have hd : pages h.dataSize = 0 ∨
      pages h.textSize + pages h.roSize + pages h.dataSize ≤ total := by
    rw [show pages h.dataSize = (h.dataSize.toNat + 0xfff) / 0x1000 from rfl]
    omega
  unfold Sized
  omega

theorem Sized.image_eq (hsized : Sized h) :
    putBytes (putBytes (putBytes (fun _ => 0) 0 h.textSize.toNat file (textOffset h))
      (sectionRo h).start h.roSize.toNat file (roOffset h))
      (sectionData h).start h.dataSize.toNat file (dataOffset h) = fileWord file h := by
  have hpaged := hsized.paged
  have htextFits := hpaged.text_fits
  have hroStart := hpaged.ro_start
  have hroFits := hpaged.ro_fits
  have hdataStart := hpaged.data_start
  funext w
  refine word_ext fun i hi => ?_
  have htextSize : (sectionText h).sizeBytes = h.textSize := rfl
  have hroSize : (sectionRo h).sizeBytes = h.roSize := rfl
  have hdataSize : (sectionData h).sizeBytes = h.dataSize := rfl
  simp only [byteAt_putBytes _ _ _ _ _ hi, fileWord, byteAt_assemble hi, fileByte,
    CodeSetInfo.Has, hpaged.text_start, htextSize, hroSize, hdataSize]
  have hzero : byteAt 0 i = 0 := by
    simp [byteAt]
  generalize (sectionRo h).start = ro at *
  generalize (sectionData h).start = data at *
  split_ifs <;> first | rfl | exact hzero | omega

theorem readSegments_ok_iff {image : Image} :
    readSegments file h = .ok image ↔ Sized h ∧ image = fileWord file h := by
  obtain ⟨hroPtr, hdataPtr⟩ := start_segmentPtr (h := h)
  constructor
  · intro hread
    obtain ⟨text, htext, hread⟩ := bind_ok hread
    obtain ⟨ro, hro, hdata⟩ := bind_ok hread
    rw [hroPtr] at hro
    rw [hdataPtr] at hdata
    obtain ⟨htextFits, rfl⟩ := readSegment_ok_iff.mp htext
    obtain ⟨hroFits, rfl⟩ := readSegment_ok_iff.mp hro
    obtain ⟨hdataFits, rfl⟩ := readSegment_ok_iff.mp hdata
    have hsized : Sized h := by
      refine sized_of_fits (htextFits.imp_right fun hle => ?_) hroFits hdataFits
      simpa [segmentPtr] using hle
    exact ⟨hsized, hsized.image_eq⟩
  · rintro ⟨hsized, rfl⟩
    have hpaged := hsized.paged
    have htextFits := hpaged.text_fits
    have hroStart := hpaged.ro_start
    have hroFits := hpaged.ro_fits
    have hdataStart := hpaged.data_start
    have hdataFits := hpaged.data_fits
    have hsize := hpaged.size_eq
    unfold readSegments
    simp only [hroPtr, hdataPtr]
    rw [show 4 * segmentPtr h 0 = 0 from rfl,
      readSegment_ok_iff.mpr ⟨.inr (by omega), rfl⟩]
    simp only [bind, Except.bind]
    rw [readSegment_ok_iff.mpr ⟨.inr (by omega), rfl⟩]
    exact readSegment_ok_iff.mpr ⟨.inr (by omega), hsized.image_eq.symm⟩

/-! ## The words behind all patches -/

/-- A patch goes through in the image, on a sub-type of its kind. -/
def Accepts (h : Header) (pass : Pass) (w : ℕ) (word : Word) : Prop :=
  w < h.programCodeSize.toNat / 4 ∧ Known pass.2 word

def patch (h : Header) (pass : Pass) (w : ℕ) (word : Word) : Word := patched h pass.2 w word

theorem patchStep_ok_iff (image : Image) (pass : Pass) (w : ℕ) (result : Image) :
    patchStep h image (pass, w) = .ok result ↔ Accepts h pass w (image w) ∧
      result = Function.update image w (patch h pass w (image w)) := by
  show patchWord h image pass.2 w = .ok result ↔ _
  rw [patchWord, Accepts, patch]
  by_cases hin : h.programCodeSize.toNat / 4 ≤ w
  · rw [if_pos hin]
    exact ⟨fun heq => (nomatch heq), fun heq => absurd heq.1.1 (by omega)⟩
  · rw [if_neg hin]
    by_cases hknown : Known pass.2 (image w)
    · rw [if_pos (show subType _ < _ from hknown), Except.ok.injEq]
      exact ⟨fun heq => ⟨⟨by omega, hknown⟩, heq.symm⟩, fun heq => heq.2.symm⟩
    · rw [if_neg (show ¬ subType _ < _ from hknown)]
      exact ⟨fun heq => (nomatch heq), fun heq => absurd heq.1.2 hknown⟩

/-- The word that the patches leave. -/
def wordAfter (file : File) (h : Header) (patches : List (Pass × ℕ)) (w : ℕ) : Word :=
  after (patch h) patches w (fileWord file h w)

theorem programData_ok_iff {image : Image} : programData file h = .ok image ↔
    Sized h ∧ Accepted (patch h) (Accepts h) (names file h) (fileWord file h) ∧
      image = wordAfter file h (names file h) := by
  have hpatches := foldlM_ok_iff (patch h) patchStep_ok_iff (names file h) (fileWord file h) image
  constructor
  · intro hdata
    obtain ⟨loaded, hload, hrelocate⟩ := bind_ok hdata
    obtain ⟨hsized, rfl⟩ := readSegments_ok_iff.mp hload
    rw [relocateAll_eq] at hrelocate
    exact ⟨hsized, hpatches.mp hrelocate⟩
  · rintro ⟨hsized, haccepted, himage⟩
    have hload : readSegments file h = .ok (fileWord file h) :=
      readSegments_ok_iff.mpr ⟨hsized, rfl⟩
    rw [programData, hload]
    show relocateAll file h (passes file h) (relocationsOffset h) (fileWord file h) = _
    rw [relocateAll_eq]
    exact hpatches.mpr ⟨haccepted, himage⟩

/-! ## The image as it should be -/

/-- A word of the code that `ReadProgramCode` returns. -/
def wordOf (code : List Byte) (w : ℕ) : Word := assemble fun i => code.getD (4 * w + i) 0

theorem length_programBytes (image : Image) :
    (programBytes h image).length = h.programCodeSize.toNat := by
  rw [programBytes, List.length_map, List.length_range]

theorem wordOf_programBytes (image : Image) {w : ℕ} (hw : w < h.programCodeSize.toNat / 4) :
    wordOf (programBytes h image) w = image w := by
  refine word_ext fun i hi => ?_
  rw [wordOf, byteAt_assemble hi, List.getD_eq_getElem?_getD, programBytes, List.getElem?_map,
    List.getElem?_range (by omega), Option.map_some, Option.getD_some,
    show (4 * w + i) / 4 = w by omega, show (4 * w + i) % 4 = i by omega]

/-- The image is made without an access outside of it, its sections are where the extended header
says, and every word that at most one entry names is as it should be. -/
def Imaged (file : File) (h : Header) : Prop :=
  ∃ code, readProgramCode file h = .ok code ∧ Paged h code.length ∧
    ∀ w < code.length / 4,
      (∀ pass, history (names file h) w = [pass] →
        wordOf code w = promised pass.2 w (fileWord file h w)) ∧
      (history (names file h) w = [] → wordOf code w = fileWord file h w)

/-- The page-rounded sizes stay below 4 GiB together, every word that is named is in the image, and
no patch finds a sub-type that its kind does not have. -/
structure Contained (file : File) (h : Header) : Prop where
  sized : Sized h
  inside : ∀ name ∈ names file h,
    name.2 < (pages h.textSize + pages h.roSize + pages h.dataSize) * 0x400
  known : ∀ before pass w behind, names file h = before ++ (pass, w) :: behind →
    Known pass.2 (wordAfter file h before w)

theorem Sized.words_eq (hsized : Sized h) : h.programCodeSize.toNat / 4 =
    (pages h.textSize + pages h.roSize + pages h.dataSize) * 0x400 := by
  have ht := toNat_numpages h.textSize
  have hr := toNat_numpages h.roSize
  have hd := toNat_numpages h.dataSize
  rw [toNat_programCodeSize, Header.textNumpages, Header.roNumpages, Header.dataNumpages, ht, hr,
    hd]
  simp only [Sized, pages] at hsized ⊢
  omega

theorem accepted_iff (hsized : Sized h) :
    Accepted (patch h) (Accepts h) (names file h) (fileWord file h) ↔ Contained file h := by
  constructor
  · intro haccepted
    refine ⟨hsized, fun name hname => ?_, fun before pass w behind heq => ?_⟩
    · obtain ⟨before, behind, heq⟩ := List.append_of_mem hname
      rw [← hsized.words_eq]
      exact (haccepted before name.1 name.2 behind heq).1
    · exact (haccepted before pass w behind heq).2
  · intro hcontained before pass w behind heq
    refine ⟨?_, hcontained.known before pass w behind heq⟩
    rw [hsized.words_eq]
    exact hcontained.inside (pass, w) (by rw [heq]; simp)

theorem readProgramCode_ok_iff {code : List Byte} : readProgramCode file h = .ok code ↔
    Contained file h ∧ code = programBytes h (wordAfter file h (names file h)) := by
  constructor
  · intro hread
    obtain ⟨image, hdata, rfl⟩ := map_ok hread
    obtain ⟨hsized, haccepted, rfl⟩ := programData_ok_iff.mp hdata
    exact ⟨(accepted_iff hsized).mp haccepted, rfl⟩
  · rintro ⟨hcontained, rfl⟩
    have haccepted := (accepted_iff hcontained.sized).mpr hcontained
    rw [readProgramCode, programData_ok_iff.mpr ⟨hcontained.sized, haccepted, rfl⟩]
    rfl

theorem mem_history {patches : List (Pass × ℕ)} {pass : Pass} {w : ℕ}
    (hpass : pass ∈ history patches w) : (pass, w) ∈ patches := by
  obtain ⟨⟨other, place⟩, hp, rfl⟩ := List.mem_map.mp hpass
  obtain ⟨hmem, hplace⟩ := List.mem_filter.mp hp
  simp only [decide_eq_true_eq] at hplace
  rwa [hplace] at hmem

/-- The only patch for a word finds the data of the file. -/
theorem Contained.known_of_history {pass : Pass} {w : ℕ} (hcontained : Contained file h)
    (hone : history (names file h) w = [pass]) : Known pass.2 (fileWord file h w) := by
  have hmem : (pass, w) ∈ names file h := by
    apply mem_history
    rw [hone]
    exact List.mem_singleton_self _
  obtain ⟨before, behind, heq⟩ := List.append_of_mem hmem
  have hknown := hcontained.known before pass w behind heq
  have hsplit : history before w ++ pass :: history behind w = [pass] := by
    rw [← hone, heq]
    simp [history]
  have hbefore : history before w = [] := by
    have hlength := congrArg List.length hsplit
    simp only [List.length_append, List.length_cons, List.length_nil] at hlength
    exact List.length_eq_zero_iff.mp (by omega)
  rwa [wordAfter, after_nil _ hbefore] at hknown

theorem Contained.imaged (hcontained : Contained file h) : Imaged file h := by
  refine ⟨_, readProgramCode_ok_iff.mpr ⟨hcontained, rfl⟩, ?_, fun w hw => ?_⟩
  · rw [length_programBytes]
    exact hcontained.sized.paged
  · rw [length_programBytes] at hw
    rw [wordOf_programBytes _ hw]
    refine ⟨fun pass hone => ?_, fun hnone => after_nil _ hnone⟩
    rw [wordAfter, after_singleton _ hone]
    exact patched_eq w (hcontained.known_of_history hone)

/-! ## The tables of each segment by themselves -/

/-- The words of the pages of a segment. -/
def InSegment (h : Header) (segment w : ℕ) : Prop :=
  match segment with
  | 0 => w < pages h.textSize * 0x400
  | 1 => pages h.textSize * 0x400 ≤ w ∧ w < (pages h.textSize + pages h.roSize) * 0x400
  | 2 => (pages h.textSize + pages h.roSize) * 0x400 ≤ w ∧
    w < (pages h.textSize + pages h.roSize + pages h.dataSize) * 0x400
  | _ => False

/-- The pointer does not leave the pages of its segment. -/
def Stays (file : File) (h : Header) : Prop :=
  ∀ name ∈ names file h, InSegment h name.1.1 name.2

/-- The entries for a word that are in the tables of the segment. -/
def ownHistory (file : File) (h : Header) (segment w : ℕ) : List Pass :=
  (history (names file h) w).filter fun pass => pass.1 = segment

/-- As `Imaged`, where for a word only the tables of its own segment count. -/
def ImagedApart (file : File) (h : Header) : Prop :=
  ∃ code, readProgramCode file h = .ok code ∧ Paged h code.length ∧
    ∀ segment w, InSegment h segment w →
      (∀ pass, ownHistory file h segment w = [pass] →
        wordOf code w = promised pass.2 w (fileWord file h w)) ∧
      (ownHistory file h segment w = [] → wordOf code w = fileWord file h w)

theorem InSegment.unique {segment other w : ℕ} (hw : InSegment h segment w)
    (hother : InSegment h other w) : segment = other := by
  unfold InSegment at hw hother
  split at hw <;> split at hother <;> first | rfl | omega | exact hw.elim | exact hother.elim

theorem InSegment.inside {segment w : ℕ} (hw : InSegment h segment w) :
    w < (pages h.textSize + pages h.roSize + pages h.dataSize) * 0x400 := by
  match segment, hw with
  | 0, hw =>
    exact Nat.lt_of_lt_of_le hw (Nat.mul_le_mul_right _
      ((Nat.le_add_right _ _).trans (Nat.le_add_right _ _)))
  | 1, hw => exact Nat.lt_of_lt_of_le hw.2 (Nat.mul_le_mul_right _ (Nat.le_add_right _ _))
  | 2, hw => exact hw.2

theorem Stays.ownHistory_eq (hstays : Stays file h) {segment w : ℕ} (hw : InSegment h segment w) :
    ownHistory file h segment w = history (names file h) w := by
  refine List.filter_eq_self.mpr fun pass hpass => ?_
  have hown := hstays (pass, w) (mem_history hpass)
  simpa using hown.unique hw

/-- A file without segments, whose table of absolute relocations names the first word. -/
def stray : File :=
  [0x33, 0x44, 0x53, 0x58, 0x20, 0, 8, 0] ++ List.replicate 24 0 ++ [1] ++ List.replicate 23 0 ++
    [0, 0, 1, 0]

end Mikage.Loader.Dot3dsx
