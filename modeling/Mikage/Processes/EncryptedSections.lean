import Mikage.Processes.FileWindows
import Mikage.Processes.KeyScrambler

/-!
# Encrypted sections of a title

`NCCHOpenExeFSSection` opens a window on the RomFS or on a file of the ExeFS, and wraps it for
decryption where the header asks for it. Each read seeks in the keystream first.

- `openSection`: which window, and whether, where and with which key it is decrypted.
- `Image`: a file that is these bytes.
- `SectionExact`: all reads are parts of one decryption of the whole.
- `openSection_exact_iff`: the sections are exact, and the key table is not left, but for the one
  branch that uses the crypto method of the header unchecked.
-/

namespace Mikage.PXI

/-- AES in counter mode: the byte at a position is masked with the keystream at this position. -/
abbrev Keystream := AESKey → List UInt8 → ℕ → UInt8

inductive OpenError where
  | threw (e : Exception)
  | outOfBounds

/-- A call into another function. -/
def passOn {α : Type} : Except Exception α → Except OpenError α
  | .ok a => .ok a
  | .error e => .error (.threw e)

/-- The fields that are used; offsets and sizes are in media units. -/
structure NCCHHeader where
  signature : Vector UInt8 0x100
  magic : List UInt8
  partitionId : U64
  programId : U64
  cryptoMethod : BitVec 8
  flags : BitVec 8
  logoOffset : U32
  logoSize : U32
  exefsOffset : U32
  romfsOffset : U32
  romfsSize : U32

/-- `MediaUnit::ToBytes` -/
def toBytes (raw : U32) : U64 := raw.setWidth 64 * 0x200

/-- `keydb.aes_slots[slot].x` -/
structure KeyDatabase where
  x : ℕ → Option AESKey

namespace NCCHHeader

variable (header : NCCHHeader)

def keyY : AESKey where
  bytes := (header.signature.toList.take 16).map (·.toBitVec)
  size := by rw [List.length_map, List.length_take, Vector.length_toList]; rfl

def hasContentEncryption : Bool := header.flags &&& 4 = 0

def usesFixedKey : Bool := header.flags &&& 1 ≠ 0 ∧ header.programId >>> 32 ≠ 0x40130

/-- The partition id, its highest byte first. -/
def partitionIv : List UInt8 :=
  ((List.range 8).map fun i =>
    UInt8.ofBitVec (header.partitionId.extractLsb' (8 * i) 8)).reverse ++ List.replicate 8 0

/-- The keys for `Secure1` and `Secure2`, and the counter before the section is known. -/
def selectKeys (keydb : KeyDatabase) : Except OpenError ((AESKey × AESKey) × List UInt8) :=
  let zero : AESKey := ⟨List.replicate 16 0, rfl⟩
  if ¬ header.hasContentEncryption ∨ header.usesFixedKey then
    .ok ((zero, zero), List.replicate 16 0)
  else if header.cryptoMethod > 1 then
    .error (.threw (.invalid "Invalid NCCH encryption method"))
  else
    match keydb.x 0x25, keydb.x 0x2c with
    | some keyX25, some keyX2c =>
      .ok ((generateAESKey keyX2c header.keyY, generateAESKey keyX25 header.keyY),
        header.partitionIv)
    | _, _ => .error (.threw (.badCast "bad_optional_access"))

end NCCHHeader

/-- `keys[index]` -/
def keyAt (keys : AESKey × AESKey) : ℕ → Except OpenError AESKey
  | 0 => .ok keys.1
  | 1 => .ok keys.2
  | _ => .error .outOfBounds

/-- What `AESEncryptedFile` adds to a file. -/
structure Encryption where
  aesOffset : U64
  key : AESKey
  iv : List UInt8

/-- A window, and the layer that decrypts it. -/
structure Section where
  file : File
  encryption : Option Encryption

/-- `ProcessData` at a position. -/
def decrypt (keystream : Keystream) (encryption : Encryption) (position : ℕ)
    (data : List UInt8) : List UInt8 :=
  data.mapIdx fun i b => b ^^^ keystream encryption.key encryption.iv (position + i)

def Section.read (keystream : Keystream) (s : Section) (offset : U64) (numBytes : U32) :
    Except Exception (List UInt8) :=
  match s.encryption with
  | none => s.file.read offset numBytes
  | some encryption =>
    if numBytes = 0 then .ok []
    else (s.file.read offset numBytes).map
      (decrypt keystream encryption (encryption.aesOffset + offset).toNat)

/-! ## Opening -/

def ivfcMagic : List UInt8 := [0x49, 0x56, 0x46, 0x43]
def ncchMagic : List UInt8 := [0x4e, 0x43, 0x43, 0x48]
def logoName : List UInt8 := [0x6c, 0x6f, 0x67, 0x6f, 0, 0, 0, 0]

def le32 (l : List UInt8) : U32 :=
  BitVec.ofNat 32 ((l.take 4).foldr (fun b n => b.toNat + 0x100 * n) 0)

structure FileHeader where
  name : List UInt8
  offset : U32
  sizeBytes : U32

/-- The entries of an `ExeFSHeader`. -/
def exefsFiles (data : List UInt8) : List FileHeader :=
  (List.range 10).map fun i =>
    ⟨(data.drop (16 * i)).take 8, le32 (data.drop (16 * i + 8)), le32 (data.drop (16 * i + 12))⟩

section Opening

variable (keystream : Keystream) (header : NCCHHeader) (ncch : File) (keys : AESKey × AESKey)
  (iv : List UInt8)

def openRomFS : Except OpenError Section := do
  let ivfcStart := toBytes header.romfsOffset
  let ivfcHeader ← passOn (ncch.read ivfcStart 4)
  -- the signature in plain text overrides the flag
  let isEncrypted := header.hasContentEncryption && ivfcHeader ≠ ivfcMagic
  if ivfcHeader ≠ ivfcMagic ∧ ¬ isEncrypted then .error (.threw (.invalid "Invalid RomFS"))
  else
    let view := File.view ncch ivfcStart ((toBytes header.romfsSize).setWidth 32)
    if isEncrypted then do
      let key ← keyAt keys header.cryptoMethod.toNat
      return ⟨view, some ⟨0, key, iv.set 8 3⟩⟩
    else return ⟨view, none⟩

def openExeFS (name : List UInt8) : Except OpenError Section :=
  if name = logoName ∧ toBytes header.logoOffset ≠ 0 ∧ toBytes header.logoSize ≠ 0 then
    .ok ⟨.view ncch (toBytes header.logoOffset) ((toBytes header.logoSize).setWidth 32), none⟩
  else do
    let raw ← passOn (ncch.read (toBytes header.exefsOffset) 0x200)
    -- looks like it is in plain text
    let isEncrypted := header.hasContentEncryption && le32 (raw.drop 8) ≠ 0
    let exefsHeader :=
      if isEncrypted then decrypt keystream ⟨0, keys.1, iv.set 8 2⟩ 0 raw else raw
    match (exefsFiles exefsHeader).find? (·.name = name) with
    | none => .error (.threw (.runtimeError "Couldn't find section in ExeFS"))
    | some file =>
      let view := File.view ncch
        (toBytes header.exefsOffset + 0x200 + file.offset.setWidth 64) file.sizeBytes
      if isEncrypted then do
        let key ← keyAt keys
          (if header.cryptoMethod ≠ 0 then (if name.head? = some 0x2e then 1 else 0) else 0)
        return ⟨view, some ⟨0x200 + file.offset.setWidth 64, key, iv.set 8 2⟩⟩
      else return ⟨view, none⟩

/-- `NCCHOpenExeFSSection` -/
def openSection (keydb : KeyDatabase) (subFileType : BitVec 8) (name : List UInt8) :
    Except OpenError Section :=
  if header.magic ≠ ncchMagic then
    .error (.threw (.runtimeError "NCCH header word not found. Corrupt ROM?"))
  else do
    let (keys, iv) ← header.selectKeys keydb
    if subFileType = 0 then openRomFS header ncch keys iv
    else if subFileType = 1 ∨ subFileType = 2 then openExeFS keystream header ncch keys iv name
    else .error (.threw (.runtimeError "Unknown ArchiveProgramDataFromTitleId sub file type"))

end Opening

/-! ## Exactness -/

/-- The file is these bytes. -/
structure Image (file : File) (data : List UInt8) : Prop where
  small : data.length < 2 ^ 63
  size : file.getSize = BitVec.ofNat 64 data.length
  read : ∀ (offset : U64) (n : U32), offset.toNat + n.toNat ≤ data.length →
    file.read offset n = .ok ((data.drop offset.toNat).take n.toNat)

/-- The whole section, decrypted at once from its start. -/
def Section.whole (keystream : Keystream) (s : Section) (raw : List UInt8) : List UInt8 :=
  match s.encryption with
  | none => raw
  | some encryption => decrypt keystream encryption encryption.aesOffset.toNat raw

/-- Where the keystream of a section starts in the title. -/
def regionStart (header : NCCHHeader) (subFileType : BitVec 8) : U64 :=
  if subFileType = 0 then toBytes header.romfsOffset else toBytes header.exefsOffset

/-- The entry of the key table that the header selects. -/
def keyIndex (header : NCCHHeader) (subFileType : BitVec 8) (name : List UInt8) : ℕ :=
  if subFileType = 0 then header.cryptoMethod.toNat
  else if header.cryptoMethod ≠ 0 then (if name.head? = some 0x2e then 1 else 0) else 0

/-- **A section that is opened**: a window on the title, whose bytes are decrypted at their distance
from the start of the RomFS or ExeFS with a key and a counter of the header; and any reads of it, in
any order, are parts of one decryption. -/
structure SectionExact (keystream : Keystream) (header : NCCHHeader) (keydb : KeyDatabase)
    (ncch : File) (subFileType : BitVec 8) (name : List UInt8) (s : Section) : Prop where
  window : ∃ start size, s.file = .view ncch start size ∧
    ∀ encryption ∈ s.encryption, encryption.aesOffset + regionStart header subFileType = start
  selected : ∀ encryption ∈ s.encryption, ∃ keys iv, header.selectKeys keydb = .ok (keys, iv) ∧
    keyAt keys (keyIndex header subFileType name) = .ok encryption.key ∧
    encryption.iv = iv.set 8 (if subFileType = 0 then 3 else 2)
  reads : ∀ data, Image ncch data → s.file.open = .ok () → ∃ raw, Image s.file raw ∧
    ∀ ranges : List (U64 × U32), (∀ r ∈ ranges, r.1.toNat + r.2.toNat ≤ raw.length) →
      (ranges.mapM fun r => s.read keystream r.1 r.2) =
        .ok (ranges.map fun r => ((s.whole keystream raw).drop r.1.toNat).take r.2.toNat)

/-- The RomFS is encrypted with the key of zeros, by a method that the table has no entry for. -/
def IndexSlips (header : NCCHHeader) (ncch : File) (subFileType : BitVec 8) : Prop :=
  subFileType = 0 ∧ header.magic = ncchMagic ∧ header.hasContentEncryption ∧
    header.usesFixedKey ∧ 1 < header.cryptoMethod.toNat ∧
    ∃ ivfcHeader, ncch.read (toBytes header.romfsOffset) 4 = .ok ivfcHeader ∧
      ivfcHeader ≠ ivfcMagic

/-! ## Reading -/

section Reading

variable {keystream : Keystream} {header : NCCHHeader} {keydb : KeyDatabase} {ncch : File}
  {subFileType : BitVec 8} {name raw data : List UInt8} {s : Section} {start offset : U64}
  {size n : U32}

theorem image_host (file : HostFile) : Image (.host file) file.data where
  small := file.small
  size := rfl
  read offset n hin := by
    have hsmall := file.small
    change file.read offset n = _
    rw [HostFile.read, HostFile.seek, if_pos (by omega)]
    exact if_pos (.inr hin)

theorem Image.view (h : Image ncch data) (hin : start.toNat + size.toNat ≤ data.length) :
    Image (.view ncch start size) ((data.drop start.toNat).take size.toNat) := by
  have hsmall := h.small
  have hlength : ((data.drop start.toNat).take size.toNat).length = size.toNat := by
    rw [List.length_take, List.length_drop]
    omega
  refine ⟨?_, ?_, fun offset n hread => ?_⟩
  · rw [hlength]
    omega
  · rw [hlength]
    change size.setWidth 64 = _
    exact (BitVec.ofNat_toNat 64 size).symm
  · rw [hlength] at hread
    have hn : (n.setWidth 64).toNat = n.toNat := BitVec.toNat_setWidth_of_le (by decide)
    have hs : (size.setWidth 64).toNat = size.toNat := BitVec.toNat_setWidth_of_le (by decide)
    rw [File.read]
    split
    next h0 =>
      rw [h0] at hread
      have hzero : n.toNat = 0 := by
        change offset.toNat + n.toNat ≤ 0 at hread
        omega
      rw [hzero, List.take_zero]
    next h0 =>
      have hfits : ¬ offset + n.setWidth 64 > size.setWidth 64 := by
        rw [gt_iff_lt, BitVec.lt_def, BitVec.toNat_add, hn, hs]
        omega
      have hsum : (start + offset).toNat = start.toNat + offset.toNat := by
        rw [BitVec.toNat_add, Nat.mod_eq_of_lt (by omega)]
      rw [if_neg hfits, h.read _ _ (by omega), hsum, List.drop_take, List.drop_drop,
        List.take_take, min_eq_left (by omega)]

/-- A window that has been opened is inside of its file. -/
theorem Image.open_inside (h : Image ncch data) (hstart : start.toNat < 2 ^ 63)
    (hopen : (File.view ncch start size).open = .ok ()) :
    start.toNat + size.toNat ≤ data.length := by
  have hsmall := h.small
  have hlt := size.isLt
  have hs : (size.setWidth 64).toNat = size.toNat := BitVec.toNat_setWidth_of_le (by decide)
  rw [File.open] at hopen
  split at hopen
  · cases hopen
  next hfits =>
    rw [h.size, gt_iff_lt, BitVec.lt_def, BitVec.toNat_add, hs, BitVec.toNat_ofNat] at hfits
    omega

theorem decrypt_slice (encryption : Encryption) (position x k : ℕ) (raw : List UInt8) :
    decrypt keystream encryption (position + x) ((raw.drop x).take k) =
      ((decrypt keystream encryption position raw).drop x).take k := by
  refine List.ext_getElem? fun i => ?_
  simp only [decrypt, List.getElem?_mapIdx, List.getElem?_take, List.getElem?_drop]
  split
  · rw [Nat.add_assoc]
  · rfl

/-- One read of a section. -/
theorem Section.read_eq (h : Image s.file raw)
    (haes : ∀ encryption ∈ s.encryption, encryption.aesOffset.toNat < 2 ^ 63)
    (hin : offset.toNat + n.toNat ≤ raw.length) : s.read keystream offset n =
      .ok (((s.whole keystream raw).drop offset.toNat).take n.toNat) := by
  have hsmall := h.small
  rw [Section.read, Section.whole]
  cases hs : s.encryption with
  | none => exact h.read offset n hin
  | some encryption =>
    have hlt := haes encryption hs
    have hsum : (encryption.aesOffset + offset).toNat =
        encryption.aesOffset.toNat + offset.toNat := by
      rw [BitVec.toNat_add, Nat.mod_eq_of_lt (by omega)]
    dsimp only
    split
    next h0 =>
      rw [h0]
      exact congrArg Except.ok List.take_zero.symm
    next h0 =>
      rw [h.read offset n hin, hsum]
      change Except.ok _ = _
      rw [decrypt_slice]

theorem mapM_ok {α β ε : Type} {f : α → Except ε β} {g : α → β} {l : List α}
    (h : ∀ a ∈ l, f a = .ok (g a)) : l.mapM f = .ok (l.map g) := by
  induction l with
  | nil => rfl
  | cons a l ih =>
    rw [List.mapM_cons, h a List.mem_cons_self, ih fun b hb => h b (List.mem_cons_of_mem _ hb)]
    rfl

/-- A window that starts where it may, and a counter that does not wrap. -/
theorem reads_exact (hfile : s.file = .view ncch start size) (hstart : start.toNat < 2 ^ 63)
    (haes : ∀ encryption ∈ s.encryption, encryption.aesOffset.toNat < 2 ^ 63)
    (h : Image ncch data) (hopen : s.file.open = .ok ()) : ∃ raw, Image s.file raw ∧
      ∀ ranges : List (U64 × U32), (∀ r ∈ ranges, r.1.toNat + r.2.toNat ≤ raw.length) →
        (ranges.mapM fun r => s.read keystream r.1 r.2) =
          .ok (ranges.map fun r => ((s.whole keystream raw).drop r.1.toNat).take r.2.toNat) := by
  rw [hfile] at hopen
  have himage : Image s.file _ := hfile ▸ h.view (h.open_inside hstart hopen)
  exact ⟨_, himage, fun ranges hranges =>
    mapM_ok fun r hr => Section.read_eq himage haes (hranges r hr)⟩

end Reading

/-! ## The sections that are opened -/

section Sections

variable {keystream : Keystream} {header : NCCHHeader} {keydb : KeyDatabase} {ncch : File}
  {subFileType : BitVec 8} {name iv : List UInt8} {keys : AESKey × AESKey} {s : Section}

theorem toBytes_toNat (raw : U32) : (toBytes raw).toNat = raw.toNat * 0x200 := by
  have := raw.isLt
  rw [toBytes, BitVec.toNat_mul, BitVec.toNat_setWidth]
  change _ * 0x200 % 2 ^ 64 = _
  omega

theorem toBytes_lt (raw : U32) : (toBytes raw).toNat < 2 ^ 42 := by
  have := raw.isLt
  rw [toBytes_toNat]
  omega

theorem passOn_ok {α : Type} {x : Except Exception α} {a : α} (h : passOn x = .ok a) :
    x = .ok a := by
  cases x with
  | ok b => exact congrArg Except.ok (Except.ok.inj h)
  | error e => cases h

/-- A section without encryption. -/
theorem plain_exact (start : U64) (size : U32) (hstart : start.toNat < 2 ^ 63) :
    SectionExact keystream header keydb ncch subFileType name ⟨.view ncch start size, none⟩ :=
  ⟨⟨start, size, rfl, nofun⟩, nofun, fun _ h hopen =>
    reads_exact rfl hstart nofun h hopen⟩

theorem encrypted_exact {encryption : Encryption} (start : U64) (size : U32)
    (hstart : start.toNat < 2 ^ 63) (haes : encryption.aesOffset.toNat < 2 ^ 63)
    (hregion : encryption.aesOffset + regionStart header subFileType = start)
    (hkeys : header.selectKeys keydb = .ok (keys, iv))
    (hkey : keyAt keys (keyIndex header subFileType name) = .ok encryption.key)
    (hiv : encryption.iv = iv.set 8 (if subFileType = 0 then 3 else 2)) :
    SectionExact keystream header keydb ncch subFileType name
      ⟨.view ncch start size, some encryption⟩ := by
  refine ⟨⟨start, size, rfl, ?_⟩, ?_, fun _ h hopen => reads_exact rfl hstart ?_ h hopen⟩
  · rintro _ ⟨⟩
    exact hregion
  · rintro _ ⟨⟩
    exact ⟨keys, iv, hkeys, hkey, hiv⟩
  · rintro _ ⟨⟩
    exact haes

theorem openRomFS_exact (hkeys : header.selectKeys keydb = .ok (keys, iv))
    (h : openRomFS header ncch keys iv = .ok s) :
    SectionExact keystream header keydb ncch 0 name s := by
  have hstart := toBytes_lt header.romfsOffset
  obtain ⟨ivfcHeader, -, h⟩ := bind_ok h
  dsimp only at h
  split at h
  · cases h
  · split at h
    · obtain ⟨key, hkey, h⟩ := bind_ok h
      cases h
      exact encrypted_exact _ _ (by omega) (show (0 : U64).toNat < 2 ^ 63 by decide)
        (zero_add _) hkeys hkey rfl
    · cases h
      exact plain_exact _ _ (by omega)

theorem openExeFS_exact (htype : subFileType ≠ 0)
    (hkeys : header.selectKeys keydb = .ok (keys, iv))
    (h : openExeFS keystream header ncch keys iv name = .ok s) :
    SectionExact keystream header keydb ncch subFileType name s := by
  rw [openExeFS] at h
  split at h
  · cases h
    have hstart := toBytes_lt header.logoOffset
    exact plain_exact _ _ (by omega)
  · obtain ⟨raw, -, h⟩ := bind_ok h
    dsimp only at h
    split at h
    · cases h
    next file hfile =>
      have hexefs := toBytes_lt header.exefsOffset
      have hoffset := file.offset.isLt
      have hwide : (file.offset.setWidth 64).toNat = file.offset.toNat :=
        BitVec.toNat_setWidth_of_le (by decide)
      have hheader : (0x200 : U64).toNat = 0x200 := rfl
      have hstart : (toBytes header.exefsOffset + 0x200 + file.offset.setWidth 64).toNat <
          2 ^ 63 := by
        rw [BitVec.toNat_add, BitVec.toNat_add, hwide, hheader]
        omega
      split at h
      · obtain ⟨key, hkey, h⟩ := bind_ok h
        cases h
        refine encrypted_exact _ _ hstart ?_ ?_ hkeys ?_ ?_
        · rw [BitVec.toNat_add, hwide, hheader]
          omega
        · rw [regionStart, if_neg htype]
          ring
        · rw [keyIndex, if_neg htype]
          exact hkey
        · rw [if_neg htype]
      · cases h
        exact plain_exact _ _ hstart

theorem openSection_ok {name : List UInt8}
    (h : openSection keystream header ncch keydb subFileType name = .ok s) :
    SectionExact keystream header keydb ncch subFileType name s := by
  rw [openSection] at h
  split at h
  · cases h
  · obtain ⟨⟨keys, iv⟩, hkeys, hrun⟩ := bind_ok h
    dsimp only at hrun
    split at hrun
    next h0 =>
      rw [h0]
      exact openRomFS_exact hkeys hrun
    next h0 =>
      split at hrun
      · exact openExeFS_exact h0 hkeys hrun
      · cases hrun

/-! ## The key table -/

theorem keyAt_outOfBounds {index : ℕ} : keyAt keys index = .error .outOfBounds ↔ 1 < index := by
  match index with
  | 0 => exact iff_of_false nofun (by decide)
  | 1 => exact iff_of_false nofun (by decide)
  | n + 2 => exact iff_of_true rfl (by omega)

theorem bind_outOfBounds {α β : Type} {x : Except OpenError α} {f : α → Except OpenError β} :
    x >>= f = .error .outOfBounds ↔
      x = .error .outOfBounds ∨ ∃ a, x = .ok a ∧ f a = .error .outOfBounds := by
  cases x with
  | ok a =>
    refine ⟨fun h => .inr ⟨a, rfl, h⟩, fun h => ?_⟩
    obtain h | ⟨b, hb, h⟩ := h
    · cases h
    · cases hb
      exact h
  | error e =>
    refine ⟨fun h => ?_, fun h => ?_⟩
    · cases h
      exact .inl rfl
    · obtain h | ⟨b, hb, h⟩ := h
      · cases h
        rfl
      · cases hb

theorem passOn_outOfBounds {α : Type} (x : Except Exception α) :
    passOn x ≠ .error .outOfBounds := by
  cases x <;> nofun

/-- Only the branch of the RomFS uses the method as it is. -/
theorem openRomFS_outOfBounds : openRomFS header ncch keys iv = .error .outOfBounds ↔
    header.hasContentEncryption ∧ 1 < header.cryptoMethod.toNat ∧
      ∃ ivfcHeader, ncch.read (toBytes header.romfsOffset) 4 = .ok ivfcHeader ∧
        ivfcHeader ≠ ivfcMagic := by
  refine ⟨fun h => ?_, fun ⟨hencrypted, hmethod, ivfcHeader, hread, hmagic⟩ => ?_⟩
  · obtain ⟨ivfcHeader, hread, hrun⟩ :=
      (bind_outOfBounds.1 h).resolve_left (passOn_outOfBounds _)
    dsimp only at hrun
    split at hrun
    · cases hrun
    · split at hrun
      next hencrypted =>
        rw [Bool.and_eq_true, decide_eq_true_eq] at hencrypted
        have hkey := (bind_outOfBounds.1 hrun).resolve_right fun ⟨key, _, h⟩ => by cases h
        exact ⟨hencrypted.1, keyAt_outOfBounds.1 hkey, ivfcHeader, passOn_ok hread,
          hencrypted.2⟩
      · cases hrun
  · have hflag : (header.hasContentEncryption && decide (ivfcHeader ≠ ivfcMagic)) = true := by
      rw [Bool.and_eq_true, decide_eq_true_eq]
      exact ⟨hencrypted, hmagic⟩
    refine bind_outOfBounds.2 (.inr ⟨ivfcHeader, by rw [hread]; rfl, ?_⟩)
    dsimp only
    rw [if_neg fun h => h.2 hflag, if_pos hflag]
    exact bind_outOfBounds.2 (.inl (keyAt_outOfBounds.2 hmethod))

theorem openExeFS_outOfBounds : openExeFS keystream header ncch keys iv name ≠
    .error .outOfBounds := by
  intro h
  rw [openExeFS] at h
  split at h
  · cases h
  · obtain ⟨raw, -, hrun⟩ := (bind_outOfBounds.1 h).resolve_left (passOn_outOfBounds _)
    dsimp only at hrun
    split at hrun
    · cases hrun
    · split at hrun
      · have hkey := (bind_outOfBounds.1 hrun).resolve_right fun ⟨key, _, h⟩ => by cases h
        have hindex := keyAt_outOfBounds.1 hkey
        split_ifs at hindex <;> omega
      · cases hrun

/-- With a key that is not fixed the method has been checked. -/
theorem selectKeys_method (hencrypted : header.hasContentEncryption = true)
    (hkeys : header.selectKeys keydb = .ok (keys, iv)) (hmethod : 1 < header.cryptoMethod.toNat) :
    header.usesFixedKey = true := by
  by_contra hfixed
  rw [NCCHHeader.selectKeys] at hkeys
  rw [if_neg (by simp [hencrypted, hfixed]), if_pos (show header.cryptoMethod > 1 from hmethod)]
    at hkeys
  cases hkeys

variable (keydb) in
theorem selectKeys_fixed (hfixed : header.usesFixedKey = true) :
    ∃ keys iv, header.selectKeys keydb = .ok (keys, iv) := by
  rw [NCCHHeader.selectKeys]
  rw [if_pos (.inr hfixed)]
  exact ⟨_, _, rfl⟩

theorem selectKeys_outOfBounds : header.selectKeys keydb ≠ .error .outOfBounds := by
  rw [NCCHHeader.selectKeys]
  split_ifs
  · nofun
  · nofun
  · split <;> nofun

theorem openSection_outOfBounds :
    openSection keystream header ncch keydb subFileType name = .error .outOfBounds ↔
      IndexSlips header ncch subFileType := by
  refine ⟨fun h => ?_, fun ⟨htype, hmagic, hencrypted, hfixed, hslip⟩ => ?_⟩
  · rw [openSection] at h
    split at h
    · cases h
    next hmagic =>
      obtain ⟨⟨keys, iv⟩, hkeys, hrun⟩ :=
        (bind_outOfBounds.1 h).resolve_left selectKeys_outOfBounds
      dsimp only at hrun
      split at hrun
      next htype =>
        obtain ⟨hencrypted, hmethod, hread⟩ := openRomFS_outOfBounds.1 hrun
        exact ⟨htype, not_not.1 hmagic, hencrypted, selectKeys_method hencrypted hkeys hmethod,
          hmethod, hread⟩
      · split at hrun
        · exact absurd hrun openExeFS_outOfBounds
        · cases hrun
  · obtain ⟨keys, iv, hkeys⟩ := selectKeys_fixed keydb hfixed
    rw [openSection, if_neg (not_not.2 hmagic)]
    refine bind_outOfBounds.2 (.inr ⟨_, hkeys, ?_⟩)
    dsimp only
    rw [if_pos htype]
    exact openRomFS_outOfBounds.2 ⟨hencrypted, hslip⟩

/-- **Sections of titles.** -/
theorem openSection_exact_iff (keystream : Keystream) (header : NCCHHeader) (ncch : File)
    (keydb : KeyDatabase) (subFileType : BitVec 8) (name : List UInt8) :
    (openSection keystream header ncch keydb subFileType name ≠ .error .outOfBounds ∧
      ∀ s, openSection keystream header ncch keydb subFileType name = .ok s →
        SectionExact keystream header keydb ncch subFileType name s) ↔
      ¬ IndexSlips header ncch subFileType :=
  (and_iff_left fun _ h => openSection_ok h).trans (not_congr openSection_outOfBounds)

end Sections

/-- A title with a fixed key and method 2. -/
def fixedKeyHeader : NCCHHeader where
  signature := Vector.replicate 0x100 0
  magic := ncchMagic
  partitionId := 0
  programId := 0
  cryptoMethod := 2
  flags := 1
  logoOffset := 0
  logoSize := 0
  exefsOffset := 0
  romfsOffset := 1
  romfsSize := 1

/-- Its bytes: a RomFS that starts with zeros. -/
def zeroTitle : HostFile := ⟨List.replicate 0x400 0, by rw [List.length_replicate]; decide⟩

theorem fixedKey_outOfBounds : ¬ ∀ keystream header ncch keydb subFileType name,
    openSection keystream header ncch keydb subFileType name ≠ .error .outOfBounds ∧
      ∀ s, openSection keystream header ncch keydb subFileType name = .ok s →
        SectionExact keystream header keydb ncch subFileType name s := by
  intro h
  have hread := (image_host zeroTitle).read (toBytes fixedKeyHeader.romfsOffset) 4
    (by rw [zeroTitle, List.length_replicate]; decide)
  refine (h (fun _ _ _ => 0) fixedKeyHeader (.host zeroTitle) ⟨fun _ => none⟩ 0 []).1
    (openSection_outOfBounds.2 ⟨rfl, rfl, by decide, by decide, by decide, _, hread, ?_⟩)
  rw [zeroTitle, List.drop_replicate, List.take_replicate]
  decide

end Mikage.PXI
