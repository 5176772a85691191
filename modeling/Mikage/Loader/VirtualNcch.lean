import Mikage.Lib.Masks
import Mikage.Loader.ProgramCode

/-!
# The NCCH that a 3DSX file is shown as

`Open` announces where the headers, the files of the ExeFS and the RomFS lie, in media units and in
offsets of 32 bits. `Read` has no such file: for every read it works out which of them is meant, and
rejects what is none of them as a whole.

- `Layout.laidOut`: what is announced lies one behind the other, inside the content.
- `Opened.read_whole`: a read of one whole section, the RomFS apart.
- `Opened.read_romfs`, `Opened.read_romfs_whole`: what can be read of the RomFS, and what not.
- `served_unless_romfs`: all of it, for every file that is opened.
-/

namespace Mikage.Loader.VirtualNcch

open Dot3dsx

/-! ## The announced layout -/

/-- `MediaUnit32::ToBytes` -/
def toBytes (units : Word) : ℕ := units.toNat * 0x200

/-- `MediaUnit32::FromBytes` -/
def fromBytes (bytes : ℕ) : Word := BitVec.ofNat 32 (bytes / 0x200)

/-- A file of the ExeFS. -/
structure FileHeader where
  offset : Word
  sizeBytes : Word
  deriving DecidableEq, Repr

structure ExeFsHeader where
  code : FileHeader
  icon : FileHeader
  banner : FileHeader
  logo : FileHeader
  deriving DecidableEq, Repr

def FileHeader.endOffset (f : FileHeader) : Word := f.offset + f.sizeBytes

/-- The offset of a file behind another, rounded up to the next media unit. -/
def FileHeader.nextOffset (f : FileHeader) : Word := (f.endOffset + 0x1ff) &&& ~~~0x1ff

/-- `GetExeFSSize`. The other files of the header are empty. -/
def ExeFsHeader.exeFsSize (e : ExeFsHeader) : ℕ :=
  0x200 + max (max e.code.endOffset.toNat e.icon.endOffset.toNat)
    (max e.banner.endOffset.toNat e.logo.endOffset.toNat)

/-- The fields of the NCCH header that `Open` sets. -/
structure NcchHeader where
  exefsOffset : Word
  exefsSize : Word
  romfsOffset : Word
  romfsSize : Word
  contentSize : Word
  deriving DecidableEq, Repr

def smdhSize : ℕ := 0x36c0

def bannerSize : ℕ := 0x1210

/-- A 3DSX file with what else the adaptor has: the placeholder logo and banner, the icon of a file
that brings none, and the memory of the headers. -/
structure Cart where
  file : File
  logo : File
  banner : File
  banner_length : banner.length = bannerSize
  placeholderIcon : File
  placeholderIcon_length : placeholderIcon.length = smdhSize
  ncchMemory : NcchHeader → File → File
  ncchMemory_length : ∀ ncch icon, (ncchMemory ncch icon).length = 0x200
  exheaderMemory : Header → File
  exheaderMemory_length : ∀ h, (exheaderMemory h).length = 0x800
  exefsMemory : ExeFsHeader → File
  exefsMemory_length : ∀ e, (exefsMemory e).length = 0x200

/-- `HostFile::Read` -/
def hostRead (file : File) (offset numBytes : ℕ) : File :=
  (List.range numBytes).map fun i => byte file (offset + i)

/-- The icon, and where the RomFS is in the file. -/
def readSecondaryHeader (c : Cart) : Except String (File × Option Word) :=
  let headerSize := (readHeader c.file).headerSize
  if headerSize = 0x20 then .ok (c.placeholderIcon, none)
  else if headerSize = 0x2c then
    if (readU32 c.file 0x24).toNat ≠ smdhSize then .error "Invalid SMDH size in 3DSX"
    else .ok (hostRead c.file (readU32 c.file 0x20).toNat smdhSize, some (readU32 c.file 0x28))
  else .error "Invalid 3DSX header size"

def buildExeFs (h : Header) (logoSize : ℕ) : ExeFsHeader :=
  let code : FileHeader := ⟨0, h.programCodeSize⟩
  let icon : FileHeader := ⟨code.nextOffset, BitVec.ofNat 32 smdhSize⟩
  let banner : FileHeader := ⟨icon.nextOffset, BitVec.ofNat 32 bannerSize⟩
  ⟨code, icon, banner, ⟨banner.nextOffset, BitVec.ofNat 32 logoSize⟩⟩

/-- The size of the RomFS. The file has only its third level, which begins at 0x1000. -/
def romFsSize (totalSize : ℕ) (romfsOffset : Word) : Word :=
  fromBytes (BitVec.ofNat 64 totalSize - romfsOffset.setWidth 64 + 0x1ff + 0x1000).toNat

def buildNcch (e : ExeFsHeader) (totalSize : ℕ) (romfs : Option Word) : NcchHeader :=
  let exefsOffset := fromBytes (0x200 + 0x800)
  let exefsSize := fromBytes (e.exeFsSize + 0x1ff)
  let romfsOffset :=
    if romfs.isSome then fromBytes (0x1ff + toBytes exefsOffset + toBytes exefsSize) else 0
  let romfsSize := (romfs.map (romFsSize totalSize)).getD 0
  ⟨exefsOffset, exefsSize, romfsOffset, romfsSize,
    fromBytes (0x200 + 0x800 + toBytes exefsSize + toBytes romfsSize)⟩

/-- The adaptor behind `Open`. -/
structure Opened where
  cart : Cart
  header : Header
  icon : File
  romfs : Option Word
  exefs : ExeFsHeader
  ncch : NcchHeader

def openCart (c : Cart) : Except String Opened := do
  let (icon, romfs) ← readSecondaryHeader c
  if c.logo.length = 0 then throw "Failed to get placeholder_logo.bin size"
  let h := readHeader c.file
  let exefs := buildExeFs h c.logo.length
  return ⟨c, h, icon, romfs, exefs, buildNcch exefs c.file.length romfs⟩

/-! ## Reads -/

inductive Rejection where
  | outside
  | programCode (fault : Fault)
  | runtimeError (what : String)
  | notImplemented (what : String)
  deriving DecidableEq, Repr

namespace Opened

variable (o : Opened)

def exefsDataOffset : ℕ := 0xc00

def iconOffset : ℕ := exefsDataOffset + o.exefs.icon.offset.toNat

def bannerOffset : ℕ := exefsDataOffset + o.exefs.banner.offset.toNat

def logoOffset : ℕ := exefsDataOffset + o.exefs.logo.offset.toNat

def exefsDataEnd : ℕ := o.logoOffset + o.exefs.logo.sizeBytes.toNat

/-- The bytes of `program_code`. -/
def programCode : Except Rejection File :=
  match readProgramCode o.cart.file o.header with
  | .ok code => .ok code
  | .error fault => .error (.programCode fault)

def readExeFsData (offset numBytes : ℕ) : Except Rejection File :=
  if offset = exefsDataOffset ∧ numBytes = o.header.programCodeSize.toNat then o.programCode
  else if offset = o.iconOffset ∧ numBytes = smdhSize then .ok o.icon
  else if offset = o.bannerOffset ∧ numBytes = bannerSize then .ok o.cart.banner
  else if offset = o.logoOffset ∧ numBytes = o.exefs.logo.sizeBytes.toNat then
    .ok (hostRead o.cart.logo 0 numBytes)
  else .error (.runtimeError "Cannot partially read ExeFS data for 3DSX files currently")

/-- `Read` of `numBytes` from `start` on. The sum `stop` of the two may have wrapped. -/
def readRange (start stop numBytes : ℕ) : Except Rejection File :=
  let romfs := toBytes o.ncch.romfsOffset
  if stop ≤ 0x200 then
    -- a sum that wraps leaves the header
    if start ≤ 0x200 then .ok (((o.cart.ncchMemory o.ncch o.icon).drop start).take numBytes)
    else .error .outside
  else if 0x200 ≤ start ∧ start < 0xa00 then
    if start ≠ 0x200 ∨ numBytes ≠ 0x800 then
      .error (.runtimeError "Cannot partially read extended header for 3DSX files currently")
    else .ok (o.cart.exheaderMemory o.header)
  else if 0xa00 ≤ start ∧ start < 0xc00 then
    if start ≠ 0xa00 ∨ numBytes ≠ 0x200 then
      .error (.notImplemented "Cannot partially read ExeFS header for 3DSX files currently")
    else .ok (o.cart.exefsMemory o.exefs)
  else if exefsDataOffset ≤ start ∧ start < o.exefsDataEnd then o.readExeFsData start numBytes
  else if start = romfs ∧ numBytes ≤ 4 then
    -- fake data instead of the header that the file does not have: "IVFC"
    .ok [0x49, 0x56, 0x46, 0x43]
  else if romfs + 0x1000 ≤ start ∧ stop ≤ romfs + toBytes o.ncch.romfsSize then
    match o.romfs with
    | none => .error (.runtimeError "Tried reading RomFS even though no RomFS is present")
    | some romfsOffset =>
      .ok (hostRead o.cart.file ((romfsOffset.toNat + (start - romfs - 0x1000)) % 2 ^ 64) numBytes)
  else .error (.runtimeError "Unsupported read range")

/-- `Read`: the bytes that are written to the buffer. -/
def read (offset : BitVec 64) (numBytes : Word) : Except Rejection File :=
  o.readRange offset.toNat (offset + numBytes.setWidth 64).toNat numBytes.toNat

end Opened

inductive Part where
  | ncchHeader | exHeader | exefsHeader | code | icon | banner | logo | romfs
  deriving DecidableEq, Repr

namespace Opened

variable (o : Opened)

def exefsFile (f : FileHeader) : ℕ × ℕ :=
  (toBytes o.ncch.exefsOffset + 0x200 + f.offset.toNat, f.sizeBytes.toNat)

/-- Where a section is announced, and its size. The extended header is behind the NCCH header. -/
def place : Part → ℕ × ℕ
  | .ncchHeader => (0, 0x200)
  | .exHeader => (0x200, 0x800)
  | .exefsHeader => (toBytes o.ncch.exefsOffset, 0x200)
  | .code => o.exefsFile o.exefs.code
  | .icon => o.exefsFile o.exefs.icon
  | .banner => o.exefsFile o.exefs.banner
  | .logo => o.exefsFile o.exefs.logo
  | .romfs => (toBytes o.ncch.romfsOffset, toBytes o.ncch.romfsSize)

/-- The sections but for the RomFS. -/
def wholeParts : List Part := [.ncchHeader, .exHeader, .exefsHeader, .code, .icon, .banner, .logo]

def parts : List Part := wholeParts ++ if o.romfs.isSome then [.romfs] else []

/-- The bytes of a section. Of the RomFS the file has what is behind its first 0x1000 bytes. -/
def Holds (part : Part) (bytes : File) : Prop :=
  match part with
  | .ncchHeader => bytes = o.cart.ncchMemory o.ncch o.icon
  | .exHeader => bytes = o.cart.exheaderMemory o.header
  | .exefsHeader => bytes = o.cart.exefsMemory o.exefs
  | .code => readProgramCode o.cart.file o.header = .ok bytes
  | .icon => bytes = o.icon
  | .banner => bytes = o.cart.banner
  | .logo => bytes = o.cart.logo
  | .romfs => ∃ offset, o.romfs = some offset ∧
    bytes.drop 0x1000 = hostRead o.cart.file offset.toNat (bytes.length - 0x1000)

/-- No two of the sections have a byte in common, and all are inside the content. -/
def LaidOut : Prop :=
  (o.parts.Pairwise fun a b =>
    (o.place a).1 + (o.place a).2 ≤ (o.place b).1 ∨ (o.place b).1 + (o.place b).2 ≤ (o.place a).1) ∧
  ∀ part ∈ o.parts, (o.place part).1 + (o.place part).2 ≤ toBytes o.ncch.contentSize

/-- The read of exactly one section. -/
def Exactly (part : Part) (offset : BitVec 64) (numBytes : Word) : Prop :=
  offset.toNat = (o.place part).1 ∧ numBytes.toNat = (o.place part).2

/-- The virtual NCCH as one with no exceptions. -/
def Served : Prop :=
  o.LaidOut ∧
  (∀ part ∈ o.parts, ∀ offset numBytes, o.Exactly part offset numBytes →
    ∃ bytes, o.read offset numBytes = .ok bytes ∧ o.Holds part bytes ∧
      bytes.length = numBytes.toNat) ∧
  ∀ offset numBytes bytes, o.read offset numBytes = .ok bytes → bytes.length ≤ numBytes.toNat

/-- The virtual NCCH as it is. -/
structure ServedUnlessRomFs : Prop where
  laidOut : o.LaidOut
  /-- A read of one whole section fails only for the code, where this cannot be made. -/
  whole : ∀ part ∈ wholeParts, ∀ offset numBytes, o.Exactly part offset numBytes →
    (∃ bytes, o.read offset numBytes = .ok bytes ∧ o.Holds part bytes ∧
      bytes.length = numBytes.toNat) ∨
    part = .code ∧ ∃ fault, readProgramCode o.cart.file o.header = .error fault
  /-- The RomFS is not read as a whole, since the file lacks its beginning. -/
  romfsWhole : o.romfs.isSome → ∀ offset numBytes, o.Exactly .romfs offset numBytes →
    0 < numBytes.toNat → ∃ what, o.read offset numBytes = .error what
  romfsMagic : o.romfs.isSome → ∀ offset, offset.toNat = (o.place .romfs).1 →
    o.read offset 4 = .ok [0x49, 0x56, 0x46, 0x43]
  romfsData : ∀ start, o.romfs = some start → ∀ (offset : BitVec 64) (numBytes : Word),
    (o.place .romfs).1 + 0x1000 ≤ offset.toNat →
    offset.toNat + numBytes.toNat ≤ (o.place .romfs).1 + (o.place .romfs).2 →
    o.read offset numBytes = .ok (hostRead o.cart.file
      (start.toNat + (offset.toNat - ((o.place .romfs).1 + 0x1000))) numBytes.toNat)
  /-- No more bytes than requested. The fake beginning of the RomFS has four. -/
  noMore : ∀ offset numBytes bytes, o.read offset numBytes = .ok bytes →
    offset.toNat ≠ toBytes o.ncch.romfsOffset ∨ 4 ≤ numBytes.toNat →
    bytes.length ≤ numBytes.toNat

end Opened

/-! ## Sizes that do not wrap -/

def roundUp (n : ℕ) : ℕ := (n + 0x1ff) / 0x200 * 0x200

/-- The end of the ExeFS files, for any sizes of the code and the logo. -/
def exeFsEnd (codeSize logoSize : ℕ) : ℕ :=
  roundUp (roundUp (roundUp codeSize + smdhSize) + bannerSize) + logoSize

/-- The announced extents are those of the files. -/
structure Fits (o : Opened) : Prop where
  exefs : exeFsEnd o.header.programCodeSize.toNat o.cart.logo.length < 2 ^ 32
  content : 5 + o.ncch.exefsSize.toNat + o.ncch.romfsSize.toNat < 2 ^ 32

theorem FileHeader.toNat_endOffset {f : FileHeader}
    (hfit : f.offset.toNat + f.sizeBytes.toNat < 2 ^ 32) :
    f.endOffset.toNat = f.offset.toNat + f.sizeBytes.toNat := by
  rw [endOffset, BitVec.toNat_add, Nat.mod_eq_of_lt hfit]

theorem FileHeader.toNat_nextOffset {f : FileHeader}
    (hfit : roundUp (f.offset.toNat + f.sizeBytes.toNat) < 2 ^ 32) :
    f.nextOffset.toNat = roundUp (f.offset.toNat + f.sizeBytes.toNat) := by
  have hmask : ((f.endOffset + 0x1ff) &&& ~~~0x1ff).toNat =
      (f.endOffset + 0x1ff).toNat / 0x200 * 0x200 := BitVec.toNat_and_not_mask _ 9
  rw [nextOffset, hmask]
  simp only [roundUp] at hfit ⊢
  have hsum : (f.endOffset + 0x1ff).toNat = f.offset.toNat + f.sizeBytes.toNat + 0x1ff := by
    rw [endOffset, BitVec.toNat_add, BitVec.toNat_add, show (0x1ff : Word).toNat = 0x1ff from rfl]
    omega
  rw [hsum]

/-- A file behind another. -/
theorem FileHeader.toNat_follows {f g : FileHeader} {start size : ℕ}
    (hstart : f.offset.toNat = start) (hsize : f.sizeBytes.toNat = size)
    (hfit : roundUp (start + size) < 2 ^ 32) (hg : g.offset = f.nextOffset) :
    g.offset.toNat = roundUp (start + size) := by
  subst hstart hsize
  rw [hg, toNat_nextOffset hfit]

/-- What `Open` leaves, field by field. -/
theorem openCart_ok {c : Cart} {o : Opened} (hopen : openCart c = .ok o) :
    o.cart = c ∧ o.header = readHeader c.file ∧ o.icon.length = smdhSize ∧ 0 < c.logo.length ∧
      o.exefs = buildExeFs o.header c.logo.length ∧
      o.ncch = buildNcch o.exefs c.file.length o.romfs := by
  obtain ⟨⟨icon, romfs⟩, hsecondary, hrest⟩ := bind_ok hopen
  have hicon : icon.length = smdhSize := by
    simp only [readSecondaryHeader] at hsecondary
    split at hsecondary
    next =>
      simp only [Except.ok.injEq, Prod.mk.injEq] at hsecondary
      rw [← hsecondary.1, c.placeholderIcon_length]
    next =>
      split at hsecondary
      next =>
        split at hsecondary
        next => exact nomatch hsecondary
        next =>
          simp only [Except.ok.injEq, Prod.mk.injEq] at hsecondary
          rw [← hsecondary.1, hostRead, List.length_map, List.length_range]
      next => exact nomatch hsecondary
  by_cases hlogo : c.logo.length = 0
  · simp [hlogo, throw, throwThe, MonadExceptOf.throw, bind, Except.bind] at hrest
  · simp only [hlogo, if_false, bind, Except.bind, pure, Except.pure, Except.ok.injEq] at hrest
    subst hrest
    exact ⟨rfl, rfl, hicon, by omega, rfl, rfl⟩

/-- The announced numbers, as far as nothing wraps. -/
structure Layout (o : Opened) : Prop where
  exefs_offset : toBytes o.ncch.exefsOffset = 0xa00
  code_offset : o.exefs.code.offset.toNat = 0
  code_size : o.exefs.code.sizeBytes = o.header.programCodeSize
  icon_offset : o.exefs.icon.offset.toNat = roundUp o.header.programCodeSize.toNat
  icon_size : o.exefs.icon.sizeBytes.toNat = smdhSize
  banner_offset : o.exefs.banner.offset.toNat = roundUp (o.exefs.icon.offset.toNat + smdhSize)
  banner_size : o.exefs.banner.sizeBytes.toNat = bannerSize
  logo_offset : o.exefs.logo.offset.toNat = roundUp (o.exefs.banner.offset.toNat + bannerSize)
  logo_size : o.exefs.logo.sizeBytes.toNat = o.cart.logo.length
  exefs_size : toBytes o.ncch.exefsSize =
    0x200 + roundUp (o.exefs.logo.offset.toNat + o.cart.logo.length)
  romfs_offset : o.romfs.isSome → toBytes o.ncch.romfsOffset = 0xa00 + toBytes o.ncch.exefsSize
  romfs_none : o.romfs.isSome = false → o.ncch.romfsOffset = 0 ∧ o.ncch.romfsSize = 0
  content_size : toBytes o.ncch.contentSize =
    0xa00 + toBytes o.ncch.exefsSize + toBytes o.ncch.romfsSize

theorem toBytes_fromBytes {n : ℕ} (hn : n / 0x200 < 2 ^ 32) :
    toBytes (fromBytes n) = n / 0x200 * 0x200 := by
  rw [toBytes, fromBytes, BitVec.toNat_ofNat, Nat.mod_eq_of_lt hn]

theorem le_roundUp (n : ℕ) : n ≤ roundUp n := by
  unfold roundUp
  omega

/-- The RomFS and the end of the content. -/
theorem content_layout {c : Cart} {o : Opened} (hopen : openCart c = .ok o) (hfits : Fits o)
    (hexefsOffset : toBytes o.ncch.exefsOffset = 0xa00) :
    (o.romfs.isSome → toBytes o.ncch.romfsOffset = 0xa00 + toBytes o.ncch.exefsSize) ∧
      (o.romfs.isSome = false → o.ncch.romfsOffset = 0 ∧ o.ncch.romfsSize = 0) ∧
      toBytes o.ncch.contentSize =
        0xa00 + toBytes o.ncch.exefsSize + toBytes o.ncch.romfsSize := by
  obtain ⟨-, -, -, -, -, hncch⟩ := openCart_ok hopen
  have hcontent := hfits.content
  refine ⟨fun hsome => ?_, fun hnone => ?_, ?_⟩
  · have hromfs : o.ncch.romfsOffset =
        fromBytes (0x1ff + toBytes o.ncch.exefsOffset + toBytes o.ncch.exefsSize) := by
      rw [hncch]
      show (if o.romfs.isSome then _ else _) = _
      rw [if_pos hsome]
      rfl
    have hle := o.ncch.exefsSize.isLt
    rw [hromfs, hexefsOffset, toBytes_fromBytes (by unfold toBytes; omega)]
    unfold toBytes
    omega
  · rw [hncch]
    cases hromfs : o.romfs with
    | none => exact ⟨rfl, rfl⟩
    | some offset => rw [hromfs] at hnone; cases hnone
  · have hcontentSize : o.ncch.contentSize = fromBytes (0x200 + 0x800 + toBytes o.ncch.exefsSize +
        toBytes o.ncch.romfsSize) := by
      rw [hncch]
      rfl
    rw [hcontentSize, toBytes_fromBytes (by unfold toBytes; omega)]
    unfold toBytes
    omega

theorem layout {c : Cart} {o : Opened} (hopen : openCart c = .ok o) (hfits : Fits o) :
    Layout o := by
  obtain ⟨hcart, -, -, -, hexefs, hncch⟩ := openCart_ok hopen
  have hend := hfits.exefs
  unfold exeFsEnd at hend
  have hcodeUp := le_roundUp o.header.programCodeSize.toNat
  have hiconUp := le_roundUp (roundUp o.header.programCodeSize.toNat + smdhSize)
  have hbannerUp :=
    le_roundUp (roundUp (roundUp o.header.programCodeSize.toNat + smdhSize) + bannerSize)
  have hcode : o.exefs.code = ⟨0, o.header.programCodeSize⟩ := by
    rw [hexefs]
    rfl
  have hicon : o.exefs.icon = ⟨o.exefs.code.nextOffset, BitVec.ofNat 32 smdhSize⟩ := by
    rw [hexefs]
    rfl
  have hbanner : o.exefs.banner = ⟨o.exefs.icon.nextOffset, BitVec.ofNat 32 bannerSize⟩ := by
    rw [hexefs]
    rfl
  have hlogo : o.exefs.logo = ⟨o.exefs.banner.nextOffset, BitVec.ofNat 32 o.cart.logo.length⟩ := by
    rw [hexefs, hcart]
    rfl
  have hcodeOffset : o.exefs.code.offset.toNat = 0 := by
    rw [hcode]
    rfl
  have hcodeSize : o.exefs.code.sizeBytes = o.header.programCodeSize := by
    rw [hcode]
  have hiconSize : o.exefs.icon.sizeBytes.toNat = smdhSize := by
    rw [hicon]
    rfl
  have hbannerSize : o.exefs.banner.sizeBytes.toNat = bannerSize := by
    rw [hbanner]
    rfl
  have hlogoSize : o.exefs.logo.sizeBytes.toNat = o.cart.logo.length := by
    rw [hlogo]
    simp only [BitVec.toNat_ofNat]
    omega
  have hiconOffset : o.exefs.icon.offset.toNat = roundUp o.header.programCodeSize.toNat := by
    have hfollows := FileHeader.toNat_follows hcodeOffset (congrArg BitVec.toNat hcodeSize)
      (by rw [Nat.zero_add]; omega) (congrArg FileHeader.offset hicon)
    rwa [Nat.zero_add] at hfollows
  have hbannerOffset : o.exefs.banner.offset.toNat =
      roundUp (o.exefs.icon.offset.toNat + smdhSize) :=
    FileHeader.toNat_follows rfl hiconSize (by rw [hiconOffset]; omega)
      (congrArg FileHeader.offset hbanner)
  have hlogoOffset : o.exefs.logo.offset.toNat =
      roundUp (o.exefs.banner.offset.toNat + bannerSize) :=
    FileHeader.toNat_follows rfl hbannerSize (by rw [hbannerOffset, hiconOffset]; omega)
      (congrArg FileHeader.offset hlogo)
  have hsize : o.exefs.exeFsSize = 0x200 + (o.exefs.logo.offset.toNat + o.cart.logo.length) := by
    have hcodeEnd := FileHeader.toNat_endOffset (f := o.exefs.code)
      (by rw [hcodeOffset, hcodeSize]; omega)
    have hiconEnd := FileHeader.toNat_endOffset (f := o.exefs.icon)
      (by rw [hiconOffset, hiconSize]; omega)
    have hbannerEnd := FileHeader.toNat_endOffset (f := o.exefs.banner)
      (by rw [hbannerOffset, hiconOffset, hbannerSize]; omega)
    have hlogoEnd := FileHeader.toNat_endOffset (f := o.exefs.logo)
      (by rw [hlogoOffset, hbannerOffset, hiconOffset, hlogoSize]; omega)
    rw [hlogoSize] at hlogoEnd
    rw [hcodeOffset, hcodeSize] at hcodeEnd
    rw [hiconSize] at hiconEnd
    rw [hbannerSize] at hbannerEnd
    have hbannerLe := le_roundUp (o.exefs.icon.offset.toNat + smdhSize)
    have hlogoLe := le_roundUp (o.exefs.banner.offset.toNat + bannerSize)
    unfold ExeFsHeader.exeFsSize
    omega
  have hlogoLt : o.exefs.logo.offset.toNat + o.cart.logo.length < 2 ^ 32 := by
    rw [hlogoOffset, hbannerOffset, hiconOffset]
    exact hend
  have hexefsOffset : toBytes o.ncch.exefsOffset = 0xa00 := by
    rw [hncch]
    show toBytes (fromBytes (0x200 + 0x800)) = _
    rw [toBytes_fromBytes (by decide)]
  have hexefsSize : toBytes o.ncch.exefsSize =
      0x200 + roundUp (o.exefs.logo.offset.toNat + o.cart.logo.length) := by
    rw [hncch]
    show toBytes (fromBytes (o.exefs.exeFsSize + 0x1ff)) = _
    rw [toBytes_fromBytes (by omega), hsize, roundUp]
    omega
  obtain ⟨hromfs, hnone, hcontentSize⟩ := content_layout hopen hfits hexefsOffset
  exact ⟨hexefsOffset, hcodeOffset, hcodeSize, hiconOffset, hiconSize, hbannerOffset, hbannerSize,
    hlogoOffset, hlogoSize, hexefsSize, hromfs, hnone, hcontentSize⟩

/-! ## The layout -/

theorem le_of_layout {o : Opened} (hl : Layout o) :
    o.header.programCodeSize.toNat ≤ o.exefs.icon.offset.toNat ∧
      o.exefs.icon.offset.toNat + smdhSize ≤ o.exefs.banner.offset.toNat ∧
      o.exefs.banner.offset.toNat + bannerSize ≤ o.exefs.logo.offset.toNat ∧
      0x200 + o.exefs.logo.offset.toNat + o.cart.logo.length ≤ toBytes o.ncch.exefsSize := by
  have hicon := le_roundUp o.header.programCodeSize.toNat
  have hbanner := le_roundUp (o.exefs.icon.offset.toNat + smdhSize)
  have hlogo := le_roundUp (o.exefs.banner.offset.toNat + bannerSize)
  have hend := le_roundUp (o.exefs.logo.offset.toNat + o.cart.logo.length)
  rw [← hl.icon_offset] at hicon
  rw [← hl.banner_offset] at hbanner
  rw [← hl.logo_offset] at hlogo
  have hsize := hl.exefs_size
  exact ⟨hicon, hbanner, hlogo, by omega⟩

theorem Layout.laidOut {o : Opened} (hl : Layout o) : o.LaidOut := by
  obtain ⟨hicon, hbanner, hlogo, hend⟩ := le_of_layout hl
  have hexefs := hl.exefs_offset
  have hcodeOffset := hl.code_offset
  have hcodeSize := congrArg BitVec.toNat hl.code_size
  have hiconSize := hl.icon_size
  have hbannerSize := hl.banner_size
  have hlogoSize := hl.logo_size
  have hcontent := hl.content_size
  cases hromfs : o.romfs.isSome with
  | false =>
    simp only [Opened.LaidOut, Opened.parts, Opened.wholeParts, hromfs, Opened.place,
      Opened.exefsFile, List.pairwise_cons, List.mem_cons, List.not_mem_nil, or_false,
      forall_eq_or_imp,
      forall_eq, Bool.false_eq_true, if_false, List.append_nil]
    simp only [zero_add, Std.le_refl, Nat.reduceAdd, nonpos_iff_eq_zero, OfNat.ofNat_ne_zero,
      or_false, Nat.add_eq_zero_iff, and_false, false_and, true_and, add_le_iff_nonpos_left,
      le_add_iff_nonneg_right, zero_le, true_or, and_self, IsEmpty.forall_iff, implies_true,
      List.Pairwise.nil, and_true]
    omega
  | true =>
    have hromfsOffset := hl.romfs_offset hromfs
    simp only [Opened.LaidOut, Opened.parts, Opened.wholeParts, hromfs, Opened.place,
      Opened.exefsFile, List.pairwise_cons, List.mem_cons, List.not_mem_nil, or_false,
      forall_eq_or_imp,
      forall_eq, if_true, List.cons_append, List.nil_append]
    simp only [zero_add, Std.le_refl, Nat.reduceAdd, nonpos_iff_eq_zero, OfNat.ofNat_ne_zero,
      or_false, Nat.add_eq_zero_iff, and_false, false_and, true_and, add_le_iff_nonpos_left,
      le_add_iff_nonneg_right, zero_le, true_or, and_self, IsEmpty.forall_iff, implies_true,
      List.Pairwise.nil, and_true]
    omega

/-! ## Reads of whole sections -/

theorem length_hostRead (file : File) (offset n : ℕ) : (hostRead file offset n).length = n := by
  rw [hostRead, List.length_map, List.length_range]

theorem hostRead_whole (file : File) : hostRead file 0 file.length = file := by
  refine List.ext_getElem (length_hostRead file 0 file.length) fun i h₁ h₂ => ?_
  simp only [hostRead, List.getElem_map, List.getElem_range, byte, Nat.zero_add]
  exact List.getD_eq_getElem file 0 h₂

theorem toNat_stop {offset : BitVec 64} {numBytes : Word}
    (hsum : offset.toNat + numBytes.toNat < 2 ^ 64) :
    (offset + numBytes.setWidth 64).toNat = offset.toNat + numBytes.toNat := by
  have hlt := numBytes.isLt
  rw [BitVec.toNat_add, BitVec.toNat_setWidth,
    Nat.mod_eq_of_lt (by omega : numBytes.toNat < 2 ^ 64),
    Nat.mod_eq_of_lt hsum]

theorem length_readProgramCode {file : File} {h : Header} {code : File}
    (hread : readProgramCode file h = .ok code) : code.length = h.programCodeSize.toNat := by
  obtain ⟨image, -, rfl⟩ := map_ok hread
  exact length_programBytes image

section Whole

variable {o : Opened} {start stop numBytes : ℕ}

theorem readRange_headers :
    o.readRange 0 0x200 0x200 = .ok (o.cart.ncchMemory o.ncch o.icon) ∧
      o.readRange 0x200 0xa00 0x800 = .ok (o.cart.exheaderMemory o.header) ∧
      o.readRange 0xa00 0xc00 0x200 = .ok (o.cart.exefsMemory o.exefs) := by
  refine ⟨?_, ?_, ?_⟩
  · rw [Opened.readRange, if_pos (by decide), if_pos (by decide), List.drop_zero,
      List.take_of_length_le (o.cart.ncchMemory_length _ _).le]
  · rw [Opened.readRange, if_neg (by decide), if_pos (by decide), if_neg (by decide)]
  · rw [Opened.readRange, if_neg (by decide), if_neg (by decide), if_pos (by decide),
      if_neg (by decide)]

/-- A read that begins in the ExeFS files. -/
theorem readRange_exeFs (hstop : start ≤ stop) (hstart : 0xc00 ≤ start)
    (hend : start < o.exefsDataEnd) :
    o.readRange start stop numBytes = o.readExeFsData start numBytes := by
  rw [Opened.readRange, if_neg (by omega), if_neg (by omega), if_neg (by omega),
    if_pos ⟨hstart, hend⟩]

theorem readExeFsData_files (hl : Layout o) :
    o.readExeFsData 0xc00 o.header.programCodeSize.toNat = o.programCode ∧
      o.readExeFsData o.iconOffset smdhSize = .ok o.icon ∧
      o.readExeFsData o.bannerOffset bannerSize = .ok o.cart.banner ∧
      o.readExeFsData o.logoOffset o.cart.logo.length = .ok o.cart.logo := by
  obtain ⟨hicon, hbanner, hlogo, -⟩ := le_of_layout hl
  have hlogoSize := hl.logo_size
  simp only [smdhSize, bannerSize] at *
  simp only [Opened.readExeFsData, Opened.iconOffset, Opened.bannerOffset, Opened.logoOffset,
    Opened.exefsDataOffset, smdhSize, bannerSize, hlogoSize]
  refine ⟨?_, ?_, ?_, ?_⟩
  · rw [if_pos (by simp)]
  · rw [if_neg (by omega), if_pos (by simp)]
  · rw [if_neg (by omega), if_neg (by omega), if_pos (by simp)]
  · rw [if_neg (by omega), if_neg (by omega), if_neg (by omega), if_pos (by simp),
      hostRead_whole]

end Whole

theorem Opened.read_whole {c : Cart} {o : Opened} (hopen : openCart c = .ok o) (hl : Layout o)
    {part : Part} (hpart : part ∈ Opened.wholeParts) {offset : BitVec 64} {numBytes : Word}
    (hexactly : o.Exactly part offset numBytes) :
    (∃ bytes, o.read offset numBytes = .ok bytes ∧ o.Holds part bytes ∧
      bytes.length = numBytes.toNat) ∨
    part = .code ∧ ∃ fault, readProgramCode o.cart.file o.header = .error fault := by
  obtain ⟨hcart, -, hiconLength, hlogoPos, -, -⟩ := openCart_ok hopen
  obtain ⟨hoffset, hnum⟩ := hexactly
  obtain ⟨hicon, hbanner, hlogo, hend⟩ := le_of_layout hl
  have hexefs := hl.exefs_offset
  have hexefsLt := o.ncch.exefsSize.isLt
  have hlogoSize := hl.logo_size
  have hnumLt := numBytes.isLt
  have hlogoOffsetLt := o.exefs.logo.offset.isLt
  rw [← hcart] at hlogoPos
  obtain ⟨hcodeData, hiconData, hbannerData, hlogoData⟩ := readExeFsData_files hl
  have hdataEnd : o.exefsDataEnd = 0xc00 + o.exefs.logo.offset.toNat + o.cart.logo.length := by
    rw [Opened.exefsDataEnd, hlogoSize]
    rfl
  cases part with
  | ncchHeader =>
    left
    rw [Opened.read, toNat_stop (by simp only [Opened.place] at hoffset hnum; omega), hoffset, hnum]
    exact ⟨_, readRange_headers.1, rfl, o.cart.ncchMemory_length _ _⟩
  | exHeader =>
    left
    rw [Opened.read, toNat_stop (by simp only [Opened.place] at hoffset hnum; omega), hoffset, hnum]
    exact ⟨_, readRange_headers.2.1, rfl, o.cart.exheaderMemory_length _⟩
  | exefsHeader =>
    left
    simp only [Opened.place, hexefs] at hoffset hnum
    rw [Opened.read, toNat_stop (by omega), hoffset, hnum]
    exact ⟨_, readRange_headers.2.2, rfl, o.cart.exefsMemory_length _⟩
  | code =>
    simp only [Opened.place, Opened.exefsFile, hexefs, hl.code_offset, hl.code_size] at hoffset hnum
    have hread : o.read offset numBytes = o.programCode := by
      rw [Opened.read, toNat_stop (by omega), hoffset, hnum,
        readRange_exeFs (by omega) (by omega) (by rw [hdataEnd]; omega)]
      exact hcodeData
    rw [hread, Opened.programCode]
    cases hcode : readProgramCode o.cart.file o.header with
    | ok code => exact .inl ⟨code, rfl, hcode, by rw [length_readProgramCode hcode, hnum]⟩
    | error fault => exact .inr ⟨rfl, fault, rfl⟩
  | icon =>
    left
    simp only [Opened.place, Opened.exefsFile, hexefs, hl.icon_size] at hoffset hnum
    rw [Opened.read, toNat_stop (by omega), hoffset, hnum,
      readRange_exeFs (by omega) (by omega) (by rw [hdataEnd]; omega)]
    exact ⟨_, hiconData, rfl, hiconLength⟩
  | banner =>
    left
    simp only [Opened.place, Opened.exefsFile, hexefs, hl.banner_size] at hoffset hnum
    rw [Opened.read, toNat_stop (by omega), hoffset, hnum,
      readRange_exeFs (by omega) (by omega) (by rw [hdataEnd]; omega)]
    exact ⟨_, hbannerData, rfl, o.cart.banner_length⟩
  | logo =>
    left
    simp only [Opened.place, Opened.exefsFile, hexefs, hl.logo_size] at hoffset hnum
    rw [Opened.read, toNat_stop (by omega), hoffset, hnum,
      readRange_exeFs (by omega) (by omega) (by rw [hdataEnd]; omega)]
    exact ⟨_, hlogoData, rfl, rfl⟩
  | romfs => simp [Opened.wholeParts] at hpart

/-! ## The RomFS -/

section RomFs

variable {o : Opened} {start stop numBytes : ℕ}

theorem Layout.dataEnd_le (hl : Layout o) (hsome : o.romfs.isSome) :
    o.exefsDataEnd ≤ toBytes o.ncch.romfsOffset ∧ 0xc00 ≤ toBytes o.ncch.romfsOffset := by
  obtain ⟨-, -, -, hend⟩ := le_of_layout hl
  have hromfs := hl.romfs_offset hsome
  have hdataEnd : o.exefsDataEnd = 0xc00 + o.exefs.logo.offset.toNat + o.cart.logo.length := by
    rw [Opened.exefsDataEnd, hl.logo_size]
    rfl
  omega

/-- Behind the ExeFS only the fake data and the third level of the RomFS are left. -/
theorem readRange_romfs (hl : Layout o) (hsome : o.romfs.isSome) (hstop : start ≤ stop)
    (hstart : toBytes o.ncch.romfsOffset ≤ start) :
    o.readRange start stop numBytes =
      if start = toBytes o.ncch.romfsOffset ∧ numBytes ≤ 4 then .ok [0x49, 0x56, 0x46, 0x43]
      else if toBytes o.ncch.romfsOffset + 0x1000 ≤ start ∧
        stop ≤ toBytes o.ncch.romfsOffset + toBytes o.ncch.romfsSize then
        match o.romfs with
        | none => .error (.runtimeError "Tried reading RomFS even though no RomFS is present")
        | some romfsOffset => .ok (hostRead o.cart.file
          ((romfsOffset.toNat + (start - toBytes o.ncch.romfsOffset - 0x1000)) % 2 ^ 64) numBytes)
      else .error (.runtimeError "Unsupported read range") := by
  obtain ⟨hend, hlow⟩ := hl.dataEnd_le hsome
  rw [Opened.readRange, if_neg (by omega), if_neg (by omega), if_neg (by omega), if_neg (by omega)]

theorem Layout.romfs_lt (o : Opened) :
    toBytes o.ncch.romfsOffset + toBytes o.ncch.romfsSize < 2 ^ 42 := by
  have hoffset := o.ncch.romfsOffset.isLt
  have hsize := o.ncch.romfsSize.isLt
  unfold toBytes
  omega

theorem Opened.read_romfs_whole (hl : Layout o) (hsome : o.romfs.isSome) {offset : BitVec 64}
    {numBytes : Word} (hexactly : o.Exactly .romfs offset numBytes) (hpos : 0 < numBytes.toNat) :
    o.read offset numBytes = .error (.runtimeError "Unsupported read range") := by
  obtain ⟨hoffset, hnum⟩ := hexactly
  simp only [Opened.place] at hoffset hnum
  have hlt := Layout.romfs_lt o
  have hunits : 0x200 ≤ numBytes.toNat := by
    rw [hnum, toBytes] at hpos ⊢
    omega
  rw [Opened.read, toNat_stop (by omega), readRange_romfs hl hsome (by omega) (by omega),
    if_neg (by omega), if_neg (by omega)]

theorem Opened.read_romfs_magic (hl : Layout o) (hsome : o.romfs.isSome) {offset : BitVec 64}
    (hoffset : offset.toNat = toBytes o.ncch.romfsOffset) :
    o.read offset 4 = .ok [0x49, 0x56, 0x46, 0x43] := by
  have hlt := Layout.romfs_lt o
  have hfour : (4 : Word).toNat = 4 := rfl
  rw [Opened.read, toNat_stop (by omega), readRange_romfs hl hsome (by omega) (by omega),
    if_pos ⟨hoffset, by omega⟩]

theorem Opened.read_romfs (hl : Layout o) {romfs : Word} (hromfs : o.romfs = some romfs)
    {offset : BitVec 64} {numBytes : Word}
    (hlow : toBytes o.ncch.romfsOffset + 0x1000 ≤ offset.toNat)
    (hhigh : offset.toNat + numBytes.toNat ≤
      toBytes o.ncch.romfsOffset + toBytes o.ncch.romfsSize) :
    o.read offset numBytes = .ok (hostRead o.cart.file
      (romfs.toNat + (offset.toNat - (toBytes o.ncch.romfsOffset + 0x1000))) numBytes.toNat) := by
  have hlt := Layout.romfs_lt o
  have hromfsLt := romfs.isLt
  rw [Opened.read, toNat_stop (by omega),
    readRange_romfs hl (by rw [hromfs]; rfl) (by omega) (by omega), if_neg (by omega),
    if_pos ⟨hlow, hhigh⟩]
  simp only [hromfs]
  rw [Nat.sub_sub, Nat.mod_eq_of_lt (by omega)]

end RomFs

/-! ## What is written at most -/

theorem length_readExeFsData {c : Cart} {o : Opened} (hopen : openCart c = .ok o)
    {start numBytes : ℕ} {bytes : File} (hread : o.readExeFsData start numBytes = .ok bytes) :
    bytes.length = numBytes := by
  obtain ⟨-, -, hiconLength, -, -, -⟩ := openCart_ok hopen
  unfold Opened.readExeFsData at hread
  split at hread
  next hcode =>
    unfold Opened.programCode at hread
    split at hread
    next code hcodeRead =>
      cases hread
      rw [length_readProgramCode hcodeRead, hcode.2]
    next => exact nomatch hread
  next =>
    split at hread
    next hicon =>
      rw [← Except.ok.inj hread, hicon.2, hiconLength]
    next =>
      split at hread
      next hbanner =>
        rw [← Except.ok.inj hread, hbanner.2, o.cart.banner_length]
      next =>
        split at hread
        next => rw [← Except.ok.inj hread, length_hostRead]
        next => exact nomatch hread

theorem Opened.length_readRange {c : Cart} {o : Opened} (hopen : openCart c = .ok o)
    {start stop numBytes : ℕ} {bytes : File} (hread : o.readRange start stop numBytes = .ok bytes)
    (hbeginning : start ≠ toBytes o.ncch.romfsOffset ∨ 4 ≤ numBytes) : bytes.length ≤ numBytes := by
  simp only [Opened.readRange] at hread
  split at hread
  next =>
    split at hread
    next => rw [← Except.ok.inj hread, List.length_take]; exact min_le_left _ _
    next => exact nomatch hread
  next =>
    split at hread
    next =>
      split at hread
      next => exact nomatch hread
      next hwhole =>
        rw [← Except.ok.inj hread, o.cart.exheaderMemory_length]
        omega
    next =>
      split at hread
      next =>
        split at hread
        next => exact nomatch hread
        next hwhole =>
          rw [← Except.ok.inj hread, o.cart.exefsMemory_length]
          omega
      next =>
        split at hread
        next => exact (length_readExeFsData hopen hread).le
        next =>
          split at hread
          next hmagic =>
            rw [← Except.ok.inj hread]
            simp only [List.length_cons, List.length_nil]
            omega
          next =>
            split at hread
            next =>
              split at hread
              next => exact nomatch hread
              next => rw [← Except.ok.inj hread, length_hostRead]
            next => exact nomatch hread

/-- A file with a logo of one byte. Banner, icon and headers are zeros. -/
def plain (file : File) : Cart where
  file := file
  logo := [0]
  banner := List.replicate bannerSize 0
  banner_length := List.length_replicate
  placeholderIcon := List.replicate smdhSize 0
  placeholderIcon_length := List.length_replicate
  ncchMemory _ _ := List.replicate 0x200 0
  ncchMemory_length _ _ := List.length_replicate
  exheaderMemory _ := List.replicate 0x800 0
  exheaderMemory_length _ := List.length_replicate
  exefsMemory _ := List.replicate 0x200 0
  exefsMemory_length _ := List.length_replicate

/-- No segments, and a header of one size or the other. -/
def empty : File := [0x33, 0x44, 0x53, 0x58, 0x20, 0, 8, 0] ++ List.replicate 24 0

def withRomFs : File := [0x33, 0x44, 0x53, 0x58, 0x2c, 0, 8, 0] ++ List.replicate 24 0 ++
  [0, 0, 0, 0, 0xc0, 0x36, 0, 0, 0x2c, 0, 0, 0]

/-- A code segment of almost 4 GiB. -/
def wrapping : File := [0x33, 0x44, 0x53, 0x58, 0x20, 0, 8, 0] ++ List.replicate 8 0 ++
  [0, 0xf0, 0xff, 0xff] ++ List.replicate 12 0

/-- What `Open` leaves for a file that it accepts. -/
def openedAs (file : File) (icon : File) (romfs : Option Word) : Opened :=
  let exefs := buildExeFs (readHeader file) 1
  ⟨plain file, readHeader file, icon, romfs, exefs, buildNcch exefs file.length romfs⟩

theorem openCart_empty :
    openCart (plain empty) = .ok (openedAs empty (List.replicate smdhSize 0) none) := rfl

/-- A RomFS that is there cannot be read as a whole. -/
theorem not_served_of_romfs {o : Opened} (hl : Layout o) (hsome : o.romfs.isSome)
    (hpos : 0 < toBytes o.ncch.romfsSize) (hlt : toBytes o.ncch.romfsSize < 2 ^ 32) :
    ¬ o.Served := by
  intro hserved
  have hplace := Layout.romfs_lt o
  have hpart : Part.romfs ∈ o.parts := by
    simp [Opened.parts, hsome]
  have hoffset : (BitVec.ofNat 64 (toBytes o.ncch.romfsOffset)).toNat =
      toBytes o.ncch.romfsOffset := by
    rw [BitVec.toNat_ofNat, Nat.mod_eq_of_lt (by omega)]
  have hnum : (BitVec.ofNat 32 (toBytes o.ncch.romfsSize)).toNat = toBytes o.ncch.romfsSize := by
    rw [BitVec.toNat_ofNat, Nat.mod_eq_of_lt hlt]
  obtain ⟨bytes, hread, -⟩ := hserved.2.1 .romfs hpart _ _ ⟨hoffset, hnum⟩
  rw [Opened.read_romfs_whole hl hsome ⟨hoffset, hnum⟩ (by rw [hnum]; exact hpos)] at hread
  exact nomatch hread

theorem openCart_withRomFs : openCart (plain withRomFs) =
    .ok (openedAs withRomFs (hostRead withRomFs 0 smdhSize) (some 0x2c)) := rfl

theorem openCart_wrapping :
    openCart (plain wrapping) = .ok (openedAs wrapping (List.replicate smdhSize 0) none) := rfl

end Mikage.Loader.VirtualNcch
