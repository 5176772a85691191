import Mathlib
import Mikage.Framework.Exceptions
import Mikage.Lib.Masks

/-!
# CIA files

`parseCIA` is the reader of the installer and of `3dsx_to_cia`, `writeCIA` the writer of the latter.
A record is its serialized bytes here, with the fields that either side looks at read from them.
What `main` puts into the records of a title and the hashes are not computed: a title has any
records.

- `offsets`: where the reader takes the sections to be.
- `CertificateRecord`: a certificate of any signature and key type the format has.
- `Keeps`: a writer that leaves the first `0x2000` bytes alone.
-/

namespace Mikage.FileFormat

abbrev Bytes := List UInt8

def bigEndian (data : Bytes) : ℕ := data.foldl (fun v x => v * 256 + x.toNat) 0
def littleEndian (data : Bytes) : ℕ := bigEndian data.reverse

def toLittleEndian (n value : ℕ) : Bytes :=
  (List.range n).map fun i => UInt8.ofNat (value / 256 ^ i)

def toBigEndian (n value : ℕ) : Bytes := (toLittleEndian n value).reverse

def slice (data : Bytes) (start n : ℕ) : Bytes := (data.drop start).take n

/-! ## Records -/

def getSignatureSize (type : ℕ) : Except Exception ℕ :=
  if type = 0x10000 ∨ type = 0x10003 then pure 0x200
  else if type = 0x10001 ∨ type = 0x10004 then pure 0x100
  else if type = 0x10002 ∨ type = 0x10005 then pure 0x3c
  else throw (.runtimeError s!"Unknown signature type {type}")

/-- The switch over the padding that follows the signature, in the reader and the writer. -/
def padSize (type : ℕ) : Except Exception ℕ :=
  if type = 0x10000 ∨ type = 0x10001 ∨ type = 0x10003 ∨ type = 0x10004 then pure 0x3c
  else if type = 0x10002 ∨ type = 0x10005 then pure 0x40
  else throw (.runtimeError s!"Unknown signature type {type}")

/-- RSA keys of 4096 and 2048 bits and elliptic-curve keys, with their padding. -/
def getCertificatePublicKeySize (type : ℕ) : Except Exception ℕ :=
  if type = 0 then pure (0x200 + 4 + 0x34)
  else if type = 1 then pure (0x100 + 4 + 0x34)
  else if type = 2 then pure (0x3c + 0x3c)
  else throw (.runtimeError s!"Unknown certificate public key type {type}")

/-- A signature and the record it signs. -/
structure Signed where
  type : ℕ
  signature : Bytes
  data : Bytes

structure Certificate where
  cert : Signed
  pubkey : Bytes

def certificateSize : ℕ := 0x40 + 4 + 0x40 + 4
def ticketSize : ℕ := 0x210
def tmdSize : ℕ := 0xc4
def contentInfoHashSize : ℕ := 0x24
def contentInfoSize : ℕ := 0x30
def metaSize : ℕ := 0x30 * 8 + 0x180 + 4 + 0xfc + 0x36c0

def Certificate.keyType (certificate : Certificate) : ℕ :=
  bigEndian (slice certificate.cert.data 0x40 4)

structure CIAHeader where
  headerSize : BitVec 32
  type : BitVec 16
  version : BitVec 16
  certificateChainSize : BitVec 32
  ticketSize : BitVec 32
  tmdSize : BitVec 32
  metaSize : BitVec 32
  contentSize : BitVec 64

namespace CIAHeader

/-- `expected_serialized_size`. -/
def size : ℕ := 0x20

def save (header : CIAHeader) : Bytes :=
  toLittleEndian 4 header.headerSize.toNat ++ toLittleEndian 2 header.type.toNat ++
  toLittleEndian 2 header.version.toNat ++ toLittleEndian 4 header.certificateChainSize.toNat ++
  toLittleEndian 4 header.ticketSize.toNat ++ toLittleEndian 4 header.tmdSize.toNat ++
  toLittleEndian 4 header.metaSize.toNat ++ toLittleEndian 8 header.contentSize.toNat

def load (data : Bytes) : CIAHeader where
  headerSize := BitVec.ofNat 32 (littleEndian (slice data 0 4))
  type := BitVec.ofNat 16 (littleEndian (slice data 4 2))
  version := BitVec.ofNat 16 (littleEndian (slice data 6 2))
  certificateChainSize := BitVec.ofNat 32 (littleEndian (slice data 8 4))
  ticketSize := BitVec.ofNat 32 (littleEndian (slice data 12 4))
  tmdSize := BitVec.ofNat 32 (littleEndian (slice data 16 4))
  metaSize := BitVec.ofNat 32 (littleEndian (slice data 20 4))
  contentSize := BitVec.ofNat 64 (littleEndian (slice data 24 8))

end CIAHeader

/-! ## The reader -/

/-- A reader of the rest of a file. -/
abbrev Reader := StateT Bytes (Except Exception)

def read (n : ℕ) : Reader Bytes := do
  let data ← get
  if data.length < n then throw (.contractViolated "cursor != end")
  set (data.drop n)
  pure (data.take n)

def parseSignedData (size : ℕ) : Reader Signed := do
  let type := bigEndian (← read 4)
  let signature ← read (← getSignatureSize type)
  let _ ← read (← padSize type)
  pure ⟨type, signature, ← read size⟩

/-- The elliptic-curve branch asks for the key type of the branch before it. -/
def parsePublicKey (keyType : ℕ) : Reader Bytes :=
  if keyType = 0 then read (0x200 + 4 + 0x34)
  else if keyType = 1 then read (0x100 + 4 + 0x34)
  else if keyType = 1 then read (0x3c + 0x3c)
  else throw (.runtimeError "Unknown certificate public key type")

def parseCertificate : Reader Certificate := do
  let cert ← parseSignedData certificateSize
  pure ⟨cert, ← parsePublicKey (bigEndian (slice cert.data 0x40 4))⟩

/-- A 32-bit size rounded up, `(size + 63) & ~UINT32_C(63)`. -/
def roundUp32 (size : BitVec 32) : BitVec 64 := ((size + 63) &&& ~~~63).setWidth 64

/-- The same expression of a 64-bit size. -/
def roundUp64 (size : BitVec 64) : BitVec 64 := (size + 63) &&& (~~~(63 : BitVec 32)).setWidth 64

structure Offsets where
  cert : BitVec 64
  ticket : BitVec 64
  tmd : BitVec 64
  content : BitVec 64
  metaData : BitVec 64

/-- The sections of a file that begins at `begin`, a stream position. -/
def offsets (begin : BitVec 63) (header : CIAHeader) : Offsets :=
  let cert := begin.setWidth 64 + roundUp32 header.headerSize
  let ticket := cert + roundUp32 header.certificateChainSize
  let tmd := ticket + roundUp32 header.ticketSize
  let content := tmd + roundUp32 header.tmdSize
  ⟨cert, ticket, tmd, content, content + roundUp64 header.contentSize⟩

structure CIA where
  header : CIAHeader
  certificates : List Certificate
  ticket : Signed
  tmd : Signed
  contentInfoHashes : Bytes
  contentInfos : Bytes
  ncch : Bytes
  metaData : Bytes

/-- What `reader` reads from a position of the file on. -/
def readAt {α : Type} (file : Bytes) (position : BitVec 64) (reader : Reader α) :
    Except Exception α := do
  let (value, _) ← reader.run (file.drop position.toNat)
  pure value

def parseTMD : Reader (Signed × Bytes × Bytes) := do
  let tmd ← parseSignedData tmdSize
  let hashes ← read (contentInfoHashSize * 64)
  let contentCount := bigEndian (slice tmd.data 0x9e 2)
  if contentCount ≠ 1 then throw (.contractViolated "tmd.content_infos.size() == 1")
  let infos ← read (contentInfoSize * contentCount)
  -- Only the first hash may stand for contents.
  if (List.range 64).any fun i =>
      i ≠ 0 ∧ bigEndian (slice hashes (contentInfoHashSize * i + 2) 2) ≠ 0 then
    throw (.contractViolated "index == 0")
  if bigEndian (slice infos 6 2) % 2 = 1 then
    throw (.runtimeError "Encrypted CIA contents are unsupported")
  pure (tmd, hashes, infos)

/-- `ParseCIA` of a file that is read from its beginning. -/
def parseCIA (file : Bytes) : Except Exception CIA := do
  let header := CIAHeader.load (← readAt file 0 (read CIAHeader.size))
  let position := offsets 0 header
  let certificates ← readAt file position.cert ((List.replicate 3 parseCertificate).mapM id)
  let ticket ← readAt file position.ticket (parseSignedData ticketSize)
  let tmdData ← readAt file position.tmd (read header.tmdSize.toNat)
  let (tmd, hashes, infos) ← readAt tmdData 0 parseTMD
  let _ ← readAt file position.content (read (bigEndian (slice infos 8 8)))
  let ncch ← readAt file position.content (read header.contentSize.toNat)
  let metaData ← readAt file position.metaData (read metaSize)
  pure ⟨header, certificates, ticket, tmd, hashes, infos, ncch, metaData⟩

/-! ## The writer -/

structure OutFile where
  bytes : Bytes := []
  position : ℕ := 0

abbrev Writer := StateT OutFile (Except Exception)

def write (data : Bytes) : Writer Unit := modify fun file =>
  { bytes := file.bytes.take file.position ++ data ++ file.bytes.drop (file.position + data.length)
    position := file.position + data.length }

def tellp : Writer ℕ := do pure (← get).position
def seekp (position : ℕ) : Writer Unit := modify fun file => { file with position := position }

def zeroUpTo (offset : ℕ) : Writer Unit := do
  let position ← tellp
  if offset < position then throw (.contractViolated "off >= file.tellp()")
  write (List.replicate (offset - position) 0)

def saveSignedData (signed : Signed) : Writer Unit := do
  write (toBigEndian 4 signed.type)
  write signed.signature
  write (List.replicate (← padSize signed.type) 0)
  write signed.data

def saveCertificate (certificate : Certificate) : Writer Unit := do
  saveSignedData certificate.cert
  if certificate.keyType = 0 ∨ certificate.keyType = 1 then write certificate.pubkey
  else throw (.runtimeError "Unknown certificate public key type")

def saveCertificates : List Certificate → Writer Unit
  | [] => pure ()
  | certificate :: l => do
    saveCertificate certificate
    saveCertificates l

/-- What the tool writes: the records as `main` and `WriteCIA` have filled them in, and the content
as `WriteNCCH` has serialized it. -/
structure Title where
  contentMask : Bytes
  mask_length : contentMask.length = 0x2000
  certificates : List Certificate
  certificates_length : certificates.length = 3
  ticket : Signed
  tmd : Signed
  contentInfoHashes : Bytes
  contentInfos : Bytes
  content : Bytes
  metaData : Bytes

/-- `(unsigned long long){(value + 63) & ~UINT32_C(63)}`. -/
def aligned (value : ℕ) : ℕ := (roundUp64 (BitVec.ofNat 64 value)).toNat

/-- The same of a header field. -/
def aligned32 (value : ℕ) : ℕ := (roundUp32 (BitVec.ofNat 32 value)).toNat

/-- The sections, from `certBegin` on, and the sizes in the header. -/
def writeSections (title : Title) (certBegin : ℕ) : Writer CIAHeader := do
  saveCertificates title.certificates
  let chainSize := (← tellp) - certBegin
  let ticketBegin := certBegin + aligned32 chainSize
  zeroUpTo ticketBegin
  saveSignedData title.ticket
  let ticketSize := (← tellp) - ticketBegin
  let tmdBegin := ticketBegin + aligned32 ticketSize
  zeroUpTo tmdBegin
  saveSignedData title.tmd
  write title.contentInfoHashes
  write title.contentInfos
  let tmdSize := (← tellp) - tmdBegin
  let contentBegin := tmdBegin + aligned32 tmdSize
  zeroUpTo contentBegin
  write title.content
  let contentSize := (← tellp) - contentBegin
  let metaBegin := contentBegin + aligned contentSize
  zeroUpTo metaBegin
  write title.metaData
  let metaSize := (← tellp) - metaBegin
  pure
    { headerSize := BitVec.ofNat 32 CIAHeader.size
      type := 0
      version := 0
      certificateChainSize := BitVec.ofNat 32 chainSize
      ticketSize := BitVec.ofNat 32 ticketSize
      tmdSize := BitVec.ofNat 32 tmdSize
      metaSize := BitVec.ofNat 32 metaSize
      contentSize := BitVec.ofNat 64 contentSize }

/-- `WriteCIA`. `main` has set the header size to the size of the header alone. -/
def writeTitle (title : Title) : Writer Unit := do
  let begin ← tellp
  let contentMaskBegin := begin + title.contentMask.length
  let certBegin := begin + aligned contentMaskBegin
  zeroUpTo certBegin
  let header ← writeSections title certBegin
  seekp begin
  write { header with headerSize := BitVec.ofNat 32 CIAHeader.size }.save
  seekp contentMaskBegin
  write title.contentMask

/-- The file that is written. -/
def writeCIA (title : Title) : Except Exception Bytes := do
  let (_, file) ← (writeTitle title).run {}
  pure file.bytes

/-! ## Offsets -/

/-- The next multiple of 64. -/
def roundUp (size : ℕ) : ℕ := (size + 63) / 64 * 64

/-- The offsets are the running sums of the aligned sizes. -/
structure Offsets.Exact (position : Offsets) (begin : ℕ) (header : CIAHeader) : Prop where
  cert : position.cert.toNat = begin + roundUp header.headerSize.toNat
  ticket : position.ticket.toNat = position.cert.toNat + roundUp header.certificateChainSize.toNat
  tmd : position.tmd.toNat = position.ticket.toNat + roundUp header.ticketSize.toNat
  content : position.content.toNat = position.tmd.toNat + roundUp header.tmdSize.toNat
  metaData : position.metaData.toNat = position.content.toNat + roundUp header.contentSize.toNat

/-- No size of the header comes within 63 bytes of `2 ^ 32`. -/
structure CIAHeader.Fits (header : CIAHeader) : Prop where
  headerSize : header.headerSize.toNat ≤ 2 ^ 32 - 64
  certificateChainSize : header.certificateChainSize.toNat ≤ 2 ^ 32 - 64
  ticketSize : header.ticketSize.toNat ≤ 2 ^ 32 - 64
  tmdSize : header.tmdSize.toNat ≤ 2 ^ 32 - 64
  contentSize : header.contentSize.toNat ≤ 2 ^ 32 - 64

theorem and_mask_toNat (x : BitVec 32) : (x &&& ~~~63#32).toNat = x.toNat / 64 * 64 :=
  BitVec.toNat_and_not_mask x 6

theorem roundUp32_toNat (size : BitVec 32) :
    (roundUp32 size).toNat = (size.toNat + 63) % 2 ^ 32 / 64 * 64 := by
  rw [roundUp32, BitVec.toNat_setWidth_of_le (by decide)]
  refine (and_mask_toNat _).trans ?_
  rw [BitVec.toNat_add]
  rfl

theorem roundUp64_toNat (size : BitVec 64) :
    (roundUp64 size).toNat = (size.toNat + 63) % 2 ^ 64 % 2 ^ 32 / 64 * 64 := by
  have hmask (y : BitVec 64) (m : BitVec 32) :
      y &&& m.setWidth 64 = (y.setWidth 32 &&& m).setWidth 64 := by
    ext i hi
    by_cases h : i < 32
    · simp [h, hi]
    · simp [h, BitVec.getLsbD_of_ge m i (Nat.not_lt.1 h)]
  rw [roundUp64, hmask, BitVec.toNat_setWidth_of_le (by decide)]
  refine (and_mask_toNat _).trans ?_
  rw [BitVec.toNat_setWidth, BitVec.toNat_add]
  rfl

theorem offsets_exact_iff (begin : BitVec 63) (header : CIAHeader) :
    (offsets begin header).Exact begin.toNat header ↔ header.Fits := by
  have hbegin := begin.isLt
  have h₁ := header.headerSize.isLt
  have h₂ := header.certificateChainSize.isLt
  have h₃ := header.ticketSize.isLt
  have h₄ := header.tmdSize.isLt
  have h₅ := header.contentSize.isLt
  have hfirst : (begin.setWidth 64).toNat = begin.toNat :=
    BitVec.toNat_setWidth_of_le (by decide)
  constructor
  · rintro ⟨h₁', h₂', h₃', h₄', h₅'⟩
    simp only [offsets, BitVec.toNat_add, roundUp32_toNat, roundUp64_toNat, hfirst, roundUp]
      at h₁' h₂' h₃' h₄' h₅'
    constructor <;> omega
  · rintro ⟨h₁', h₂', h₃', h₄', h₅'⟩
    constructor <;>
    · simp only [offsets, BitVec.toNat_add, roundUp32_toNat, roundUp64_toNat, hfirst, roundUp]
      omega

/-! ## Key types -/

theorem read_run (n : ℕ) (data : Bytes) : (read n).run data =
    if data.length < n then .error (.contractViolated "cursor != end")
    else .ok (data.take n, data.drop n) := by
  unfold read
  by_cases h : data.length < n
  · simp [h]
    rfl
  · simp [h]
    rfl

theorem read_append {n : ℕ} {data rest : Bytes} (h : data.length = n) :
    (read n).run (data ++ rest) = .ok (data, rest) := by
  rw [read_run, if_neg (by rw [List.length_append]; omega), ← h, List.take_left, List.drop_left]

/-- A certificate of a signature type and a key type that the format has, as it stands in a file. -/
structure CertificateRecord where
  type : BitVec 32
  signature : Bytes
  signature_length : getSignatureSize type.toNat = .ok signature.length
  padding : Bytes
  padding_length : padSize type.toNat = .ok padding.length
  data : Bytes
  data_length : data.length = certificateSize
  pubkey : Bytes
  pubkey_length :
    getCertificatePublicKeySize (bigEndian (slice data 0x40 4)) = .ok pubkey.length

namespace CertificateRecord

variable (record : CertificateRecord)

def keyType : ℕ := bigEndian (slice record.data 0x40 4)

def bytes : Bytes :=
  toBigEndian 4 record.type.toNat ++ (record.signature ++ (record.padding ++
    (record.data ++ record.pubkey)))

def certificate : Certificate :=
  ⟨⟨record.type.toNat, record.signature, record.data⟩, record.pubkey⟩

end CertificateRecord

theorem run_bind {σ α β : Type} {x : StateT σ (Except Exception) α}
    {f : α → StateT σ (Except Exception) β} {s s' : σ} {a : α} (h : x.run s = .ok (a, s')) :
    (x >>= f).run s = (f a).run s' := by
  rw [StateT.run_bind, h]
  rfl

theorem run_lift {σ α β : Type} {x : Except Exception α}
    {f : α → StateT σ (Except Exception) β} {s : σ} {a : α} (h : x = .ok a) :
    ((liftM x : StateT σ (Except Exception) α) >>= f).run s = (f a).run s := by
  rw [h]
  rfl

theorem toBigEndian_length (n value : ℕ) : (toBigEndian n value).length = n := by
  simp [toBigEndian, toLittleEndian]

theorem bigEndian_toBigEndian (x : BitVec 32) : bigEndian (toBigEndian 4 x.toNat) = x.toNat := by
  have hx := x.isLt
  simp only [toBigEndian, toLittleEndian, List.range, List.range.loop, List.map, List.reverse_cons,
    List.reverse_nil, List.nil_append, List.cons_append, bigEndian, List.foldl, UInt8.toNat_ofNat']
  omega

theorem parseSignedData_record (record : CertificateRecord) (rest : Bytes) :
    (parseSignedData certificateSize).run (toBigEndian 4 record.type.toNat ++ (record.signature ++
      (record.padding ++ (record.data ++ rest)))) =
      .ok (⟨record.type.toNat, record.signature, record.data⟩, rest) := by
  unfold parseSignedData
  rw [run_bind (read_append (toBigEndian_length _ _)), bigEndian_toBigEndian]
  dsimp only
  rw [run_lift record.signature_length, run_bind (read_append rfl),
    run_lift record.padding_length, run_bind (read_append rfl),
    run_bind (read_append record.data_length)]
  rfl

/-- Each certificate is read with its own length, unless its key is an elliptic-curve key. -/
theorem parseCertificate_iff (record : CertificateRecord) (rest : Bytes) :
    parseCertificate.run (record.bytes ++ rest) = .ok (record.certificate, rest) ↔
      record.keyType ≠ 2 := by
  have hkey := record.pubkey_length
  have hparse : parseCertificate.run (record.bytes ++ rest) =
      (do pure ⟨⟨record.type.toNat, record.signature, record.data⟩,
        ← parsePublicKey record.keyType⟩ : Reader Certificate).run (record.pubkey ++ rest) := by
    unfold parseCertificate CertificateRecord.bytes
    rw [List.append_assoc, List.append_assoc, List.append_assoc, List.append_assoc,
      run_bind (parseSignedData_record record _)]
    rfl
  rw [hparse]
  change getCertificatePublicKeySize record.keyType = _ at hkey
  unfold getCertificatePublicKeySize at hkey
  unfold parsePublicKey
  by_cases h₀ : record.keyType = 0
  · rw [if_pos h₀] at hkey ⊢
    rw [run_bind (read_append (Except.ok.inj hkey).symm)]
    exact iff_of_true rfl (by omega)
  · rw [if_neg h₀] at hkey ⊢
    by_cases h₁ : record.keyType = 1
    · rw [if_pos h₁] at hkey ⊢
      rw [run_bind (read_append (Except.ok.inj hkey).symm)]
      exact iff_of_true rfl (by omega)
    · rw [if_neg h₁] at hkey ⊢
      rw [if_neg h₁]
      by_cases h₂ : record.keyType = 2
      · exact iff_of_false nofun (not_not.2 h₂)
      · rw [if_neg h₂] at hkey
        cases hkey

/-! ## What the tool has written -/

/-- The beginning of the file is `first`, and the position is behind it. -/
structure Kept (first : Bytes) (file : OutFile) : Prop where
  first : file.bytes.take 0x2000 = first
  position : 0x2000 ≤ file.position
  length : file.position ≤ file.bytes.length

/-- A writer that leaves the first `0x2000` bytes alone. -/
def Keeps {α : Type} (x : Writer α) : Prop :=
  ∀ first file a file', Kept first file → x.run file = .ok (a, file') → Kept first file'

theorem run_ok {α β : Type} {x : Writer α} {f : α → Writer β} {file file' : OutFile} {b : β}
    (h : (x >>= f).run file = .ok (b, file')) :
    ∃ a file₁, x.run file = .ok (a, file₁) ∧ (f a).run file₁ = .ok (b, file') := by
  rw [StateT.run_bind] at h
  obtain ⟨⟨a, file₁⟩, hx, h⟩ := bind_ok h
  exact ⟨a, file₁, hx, h⟩

namespace Keeps

variable {α β : Type}

theorem pure (a : α) : Keeps (Pure.pure a : Writer α) := by
  intro first file b file' hk h
  cases h
  exact hk

theorem throw (e : Exception) : Keeps (MonadExcept.throw e : Writer α) := by
  intro first file b file' _ h
  cases h

theorem lift (x : Except Exception α) : Keeps (liftM x : Writer α) := by
  intro first file b file' hk h
  cases x with
  | error e => cases h
  | ok a =>
    cases h
    exact hk

theorem bind {x : Writer α} {f : α → Writer β} (hx : Keeps x) (hf : ∀ a, Keeps (f a)) :
    Keeps (x >>= f) := by
  intro first file b file' hk h
  obtain ⟨a, file₁, h₁, h₂⟩ := run_ok h
  exact hf a _ _ _ _ (hx _ _ _ _ hk h₁) h₂

end Keeps

theorem write_keeps (data : Bytes) : Keeps (write data) := by
  intro first file a file' ⟨hfirst, hposition, hlength⟩ h
  cases h
  have htake : (file.bytes.take file.position).length = file.position :=
    List.length_take_of_le hlength
  refine ⟨?_, Nat.le_add_right_of_le hposition, ?_⟩
  · dsimp only
    rw [List.append_assoc, List.take_append_of_le_length (by omega), List.take_take,
      Nat.min_eq_left hposition, hfirst]
  · simp only [List.length_append, htake]
    omega

theorem tellp_keeps : Keeps tellp := by
  intro first file a file' hk h
  cases h
  exact hk

theorem zeroUpTo_keeps (offset : ℕ) : Keeps (zeroUpTo offset) := by
  refine tellp_keeps.bind fun position => ?_
  dsimp only
  split
  · exact (Keeps.throw _).bind fun _ => write_keeps _
  · exact (Keeps.pure _).bind fun _ => write_keeps _

theorem saveSignedData_keeps (signed : Signed) : Keeps (saveSignedData signed) :=
  (write_keeps _).bind fun _ => (write_keeps _).bind fun _ => (Keeps.lift _).bind fun _ =>
    (write_keeps _).bind fun _ => write_keeps _

theorem saveCertificates_keeps (certificates : List Certificate) :
    Keeps (saveCertificates certificates) := by
  induction certificates with
  | nil => exact Keeps.pure _
  | cons certificate l ih =>
    refine Keeps.bind ((saveSignedData_keeps _).bind fun _ => ?_) fun _ => ih
    split
    · exact write_keeps _
    · exact Keeps.throw _

theorem toLittleEndian_length (n value : ℕ) : (toLittleEndian n value).length = n := by
  simp [toLittleEndian]

theorem save_length (header : CIAHeader) : header.save.length = CIAHeader.size := by
  simp [CIAHeader.save, toLittleEndian_length, CIAHeader.size]

theorem load_save_headerSize {header : CIAHeader} (h : header.headerSize = BitVec.ofNat 32 0x20) :
    (CIAHeader.load header.save).headerSize = 0x20 := by
  have hslice : slice header.save 0 4 = toLittleEndian 4 0x20 := by
    rw [slice, List.drop_zero, CIAHeader.save, h]
    simp only [List.append_assoc]
    exact List.take_left' (toLittleEndian_length _ _)
  show BitVec.ofNat 32 (littleEndian (slice header.save 0 4)) = 0x20
  rw [hslice]
  decide

theorem writeSections_keeps (title : Title) (certBegin : ℕ) :
    Keeps (writeSections title certBegin) :=
  (saveCertificates_keeps _).bind fun _ => tellp_keeps.bind fun _ =>
    (zeroUpTo_keeps _).bind fun _ => (saveSignedData_keeps _).bind fun _ =>
    tellp_keeps.bind fun _ => (zeroUpTo_keeps _).bind fun _ =>
    (saveSignedData_keeps _).bind fun _ => (write_keeps _).bind fun _ =>
    (write_keeps _).bind fun _ => tellp_keeps.bind fun _ => (zeroUpTo_keeps _).bind fun _ =>
    (write_keeps _).bind fun _ => tellp_keeps.bind fun _ => (zeroUpTo_keeps _).bind fun _ =>
    (write_keeps _).bind fun _ => tellp_keeps.bind fun _ => Keeps.pure _

theorem zeroUpTo_start {n : ℕ} {a : Unit} {file : OutFile}
    (h : (zeroUpTo n).run {} = .ok (a, file)) :
    file.bytes = List.replicate n 0 ∧ file.position = n := by
  obtain ⟨position, file₀, h₀, h⟩ := run_ok h
  cases h₀
  rw [if_neg (Nat.not_lt_zero _)] at h
  cases h
  simp

/-- The header goes over the zeros at the beginning of the file. -/
theorem write_header {header : CIAHeader} {file file' : OutFile} {a : Unit} {n : ℕ}
    (hk : Kept (List.replicate 0x2000 0) file)
    (h : (write header.save).run { file with position := 0 } = .ok (a, file')) (hn : n = 0x2000) :
    Kept (header.save ++ List.replicate (0x2000 - 0x20) 0) { file' with position := n } := by
  cases h
  have hlength := hk.length
  have hposition := hk.position
  have hsave : header.save.length = 0x20 := save_length header
  have hdrop : (file.bytes.drop 0x20).take (0x2000 - 0x20) = List.replicate (0x2000 - 0x20) 0 := by
    rw [← List.drop_take, hk.first, List.drop_replicate]
  have hbytes : file.bytes.take 0 ++ header.save ++ file.bytes.drop (0 + header.save.length) =
      header.save ++ file.bytes.drop 0x20 := by
    rw [List.take_zero, List.nil_append, Nat.zero_add, hsave]
  refine ⟨?_, hn.ge, ?_⟩
  · dsimp only
    rw [hbytes, List.take_append, hsave, List.take_of_length_le (by omega), hdrop]
  · dsimp only
    rw [hbytes, List.length_append, hsave, List.length_drop]
    omega

/-- A file as the tool writes it: the header at its beginning, and zeros where the certificates are
looked for. -/
theorem writeTitle_first {title : Title} {a : Unit} {file : OutFile}
    (h : (writeTitle title).run {} = .ok (a, file)) :
    ∃ header : CIAHeader, header.headerSize = BitVec.ofNat 32 0x20 ∧
      Kept (header.save ++ List.replicate (0x2000 - 0x20) 0) file := by
  have hmask := title.mask_length
  obtain ⟨begin, file₀, h₀, h⟩ := run_ok h
  cases h₀
  obtain ⟨_, file₁, h₁, h⟩ := run_ok h
  have haligned : (0 : ℕ) + aligned (0 + title.contentMask.length) = 0x2000 := by
    rw [hmask]
    decide
  have hk₁ : Kept (List.replicate 0x2000 0) file₁ := by
    obtain ⟨hbytes, hposition⟩ := zeroUpTo_start h₁
    change file₁.bytes = List.replicate (0 + aligned (0 + title.contentMask.length)) 0 at hbytes
    change file₁.position = 0 + aligned (0 + title.contentMask.length) at hposition
    rw [haligned] at hbytes hposition
    refine ⟨?_, hposition.ge, ?_⟩
    · rw [hbytes, List.take_of_length_le List.length_replicate.le]
    · rw [hbytes, hposition, List.length_replicate]
  obtain ⟨header, file₂, h₂, h⟩ := run_ok h
  have hk₂ := writeSections_keeps _ _ _ _ _ _ hk₁ h₂
  obtain ⟨_, file₃, h₃, h⟩ := run_ok h
  cases h₃
  obtain ⟨_, file₄, h₄, h⟩ := run_ok h
  have hk₄ := write_header hk₂ h₄ (n := 0 + title.contentMask.length) (by rw [hmask])
  obtain ⟨_, file₅, h₅, h⟩ := run_ok h
  cases h₅
  exact ⟨_, rfl, write_keeps _ _ _ _ _ hk₄ h⟩

theorem run_error {α β : Type} {x : Reader α} {f : α → Reader β} {data : Bytes} {e : Exception}
    (h : x.run data = .error e) : (x >>= f).run data = .error e := by
  rw [StateT.run_bind, h]
  rfl

theorem readAt_error {α : Type} {file : Bytes} {position : BitVec 64} {x : Reader α}
    {e : Exception} (h : x.run (file.drop position.toNat) = .error e) :
    readAt file position x = .error e := by
  rw [readAt, h]
  rfl

theorem parseCertificate_zeros (rest : Bytes) :
    parseCertificate.run (List.replicate 4 0 ++ rest) =
      .error (.runtimeError "Unknown signature type 0") := by
  have htype : (read 4).run (List.replicate 4 0 ++ rest) = .ok (List.replicate 4 0, rest) :=
    read_append (List.length_replicate ..)
  have hsignature : getSignatureSize (bigEndian (List.replicate 4 0)) =
      .error (.runtimeError "Unknown signature type 0") := by
    have hzero : bigEndian (List.replicate 4 0) = 0 := by decide
    rw [hzero, getSignatureSize, if_neg (by decide), if_neg (by decide), if_neg (by decide)]
    rfl
  refine run_error ?_
  unfold parseSignedData
  rw [run_bind htype]
  dsimp only
  rw [hsignature]
  rfl

theorem take_first {first file : Bytes} {n m : ℕ}
    (h : file.take m = first ++ List.replicate (m - n) 0) (hfirst : first.length = n) {k : ℕ}
    (hk : n ≤ k) (hm : k ≤ m) : file.take k = first ++ List.replicate (k - n) 0 := by
  have htake : file.take k = (file.take m).take k := by rw [List.take_take, Nat.min_eq_left hm]
  rw [htake, h, List.take_append, hfirst, List.take_replicate, List.take_of_length_le (by omega),
    Nat.min_eq_left (Nat.sub_le_sub_right hm n)]

/-- The four bytes behind the header and its padding. -/
theorem four_zeros {first file : Bytes} (h : file.take 0x44 = first ++ List.replicate 0x24 0)
    (hfirst : first.length = 0x20) : file.drop 0x40 = List.replicate 4 0 ++ file.drop 0x44 := by
  have hfour : (file.drop 0x40).take 4 = List.replicate 4 0 := by
    rw [List.take_drop, h, List.drop_append, hfirst, List.drop_of_length_le (by omega),
      List.drop_replicate, List.nil_append]
  have hsplit := List.take_append_drop 4 (file.drop 0x40)
  rw [hfour, List.drop_drop] at hsplit
  exact hsplit.symm

theorem readAt_header {header : CIAHeader} {file : Bytes} (h : file.take 0x20 = header.save) :
    readAt file 0 (read CIAHeader.size) = .ok header.save := by
  have hfirst : file = header.save ++ file.drop 0x20 := by
    rw [← h]
    exact (List.take_append_drop 0x20 file).symm
  have hread : (read CIAHeader.size).run (file.drop (0 : BitVec 64).toNat) =
      .ok (header.save, file.drop 0x20) := by
    rw [show file.drop (0 : BitVec 64).toNat = header.save ++ file.drop 0x20 from hfirst]
    exact read_append (save_length header)
  rw [readAt, hread]
  rfl

theorem cert_offset {header : CIAHeader} (h : header.headerSize = BitVec.ofNat 32 0x20) :
    (offsets 0 (CIAHeader.load header.save)).cert.toNat = 0x40 := by
  show (BitVec.setWidth 64 (0 : BitVec 63) +
    roundUp32 (CIAHeader.load header.save).headerSize).toNat = 0x40
  rw [load_save_headerSize h]
  decide

/-- The reader takes the certificates to begin behind the header alone, where it finds zeros. -/
theorem parseCIA_first {header : CIAHeader} {file : Bytes} {n : ℕ} (hn : n = 0x2000)
    (hsize : header.headerSize = BitVec.ofNat 32 0x20)
    (hfile : file.take n = header.save ++ List.replicate (n - 0x20) 0) :
    parseCIA file = .error (.runtimeError "Unknown signature type 0") := by
  have hsave : header.save.length = 0x20 := save_length header
  have hheader : readAt file 0 (read CIAHeader.size) = .ok header.save := by
    have htake := take_first hfile hsave (Nat.le_refl _) (by omega)
    rw [Nat.sub_self, List.replicate_zero, List.append_nil] at htake
    exact readAt_header htake
  have hzeros : file.drop 0x40 = List.replicate 4 0 ++ file.drop 0x44 :=
    four_zeros (take_first hfile hsave (by omega) (by omega)) hsave
  have hcertificates : readAt file (offsets 0 (CIAHeader.load header.save)).cert
      ((List.replicate 3 parseCertificate).mapM id) =
        .error (.runtimeError "Unknown signature type 0") := by
    refine readAt_error ?_
    rw [cert_offset hsize, hzeros, List.replicate_succ, List.mapM_cons]
    exact run_error (parseCertificate_zeros _)
  unfold parseCIA
  rw [hheader]
  change (readAt file (offsets 0 (CIAHeader.load header.save)).cert
    ((List.replicate 3 parseCertificate).mapM id) >>= _) = _
  rw [hcertificates]
  rfl

/-- Whatever the tool writes, the reader takes zeros for the type of the first signature. -/
theorem parseCIA_written {title : Title} {file : Bytes} (h : writeCIA title = .ok file) :
    parseCIA file = .error (.runtimeError "Unknown signature type 0") := by
  obtain ⟨⟨a, written⟩, hrun, h⟩ := bind_ok h
  cases h
  obtain ⟨header, hsize, hk⟩ := writeTitle_first hrun
  exact parseCIA_first rfl hsize hk.first

/-! ## Titles that are written -/

/-- A writer that succeeds from any state of the file, and writes `n` bytes. -/
def Writes {α : Type} (x : Writer α) (n : ℕ) : Prop :=
  ∀ file : OutFile, ∃ a file', x.run file = .ok (a, file') ∧ file'.position = file.position + n

namespace Writes

variable {α β : Type}

theorem pure (a : α) : Writes (Pure.pure a : Writer α) 0 :=
  fun file => ⟨a, file, rfl, rfl⟩

theorem bind {x : Writer α} {f : α → Writer β} {n m : ℕ} (hx : Writes x n)
    (hf : ∀ a, Writes (f a) m) : Writes (x >>= f) (n + m) := by
  intro file
  obtain ⟨a, file₁, h₁, hn⟩ := hx file
  obtain ⟨b, file₂, h₂, hm⟩ := hf a file₁
  exact ⟨b, file₂, (run_bind h₁).trans h₂, by rw [hm, hn, Nat.add_assoc]⟩

theorem lift {x : Except Exception α} {f : α → Writer β} {a : α} {n : ℕ} (h : x = .ok a)
    (hf : Writes (f a) n) : Writes ((liftM x : Writer α) >>= f) n := by
  intro file
  obtain ⟨b, file', h', hn⟩ := hf file
  exact ⟨b, file', (run_lift h).trans h', hn⟩

end Writes

theorem write_writes (data : Bytes) : Writes (write data) data.length :=
  fun _ => ⟨(), _, rfl, rfl⟩

theorem saveSignedData_writes {signed : Signed} {n : ℕ} (h : padSize signed.type = .ok n) :
    Writes (saveSignedData signed)
      ((toBigEndian 4 signed.type).length + (signed.signature.length +
        ((List.replicate n (0 : UInt8)).length + signed.data.length))) :=
  (write_writes _).bind fun _ => (write_writes _).bind fun _ =>
    Writes.lift h ((write_writes _).bind fun _ => write_writes _)

/-- A signature of a type that the format has, and a record that is not too long. -/
structure Signed.Small (signed : Signed) : Prop where
  type : ∃ n, padSize signed.type = .ok n
  length : signed.signature.length + signed.data.length ≤ 0x1000

theorem padSize_le {type n : ℕ} (h : padSize type = .ok n) : n ≤ 0x40 := by
  unfold padSize at h
  split at h
  · cases h
    decide
  · split at h
    · cases h
      decide
    · cases h

theorem Signed.Small.writes {signed : Signed} (h : signed.Small) :
    ∃ n ≤ 0x1044, Writes (saveSignedData signed) n := by
  obtain ⟨n, hn⟩ := h.type
  have hlength := h.length
  have hle := padSize_le hn
  refine ⟨_, ?_, saveSignedData_writes hn⟩
  rw [toBigEndian_length, List.length_replicate]
  omega

structure Certificate.Small (certificate : Certificate) : Prop where
  cert : certificate.cert.Small
  keyType : certificate.keyType = 0 ∨ certificate.keyType = 1
  length : certificate.pubkey.length ≤ 0x1000

theorem saveCertificates_writes {certificates : List Certificate}
    (h : ∀ certificate ∈ certificates, certificate.Small) :
    ∃ n ≤ 0x2044 * certificates.length, Writes (saveCertificates certificates) n := by
  induction certificates with
  | nil => exact ⟨0, Nat.zero_le _, Writes.pure ()⟩
  | cons certificate l ih =>
    obtain ⟨hcert, hl⟩ := List.forall_mem_cons.1 h
    obtain ⟨m, hm, hwrites⟩ := ih hl
    obtain ⟨n, hn, hcert'⟩ := hcert.cert.writes
    have hcertificate : Writes (saveCertificate certificate) (n + certificate.pubkey.length) := by
      refine hcert'.bind fun _ => ?_
      rw [if_pos hcert.keyType]
      exact write_writes _
    have hlength := hcert.length
    refine ⟨_, ?_, hcertificate.bind fun _ => hwrites⟩
    rw [List.length_cons]
    omega

theorem le_aligned32 {n : ℕ} (h : n ≤ 2 ^ 32 - 64) : n ≤ aligned32 n := by
  rw [aligned32, roundUp32_toNat, BitVec.toNat_ofNat]
  omega

theorem le_aligned {n : ℕ} (h : n ≤ 2 ^ 32 - 64) : n ≤ aligned n := by
  rw [aligned, roundUp64_toNat, BitVec.toNat_ofNat]
  omega

theorem tellp_run (file : OutFile) : tellp.run file = .ok (file.position, file) := rfl

theorem zeroUpTo_ok {offset : ℕ} {file : OutFile} (h : file.position ≤ offset) :
    ∃ a file', (zeroUpTo offset).run file = .ok (a, file') ∧ file'.position = offset := by
  have hrun : (zeroUpTo offset).run file =
      (write (List.replicate (offset - file.position) 0)).run file := by
    unfold zeroUpTo
    rw [run_bind (tellp_run file)]
    dsimp only
    rw [if_neg (Nat.not_lt.2 h)]
  obtain ⟨a, file', h', hn⟩ := write_writes (List.replicate (offset - file.position) 0) file
  exact ⟨a, file', hrun.trans h', by rw [hn, List.length_replicate]; omega⟩

/-- The padding behind a section that begins at `begin`. -/
theorem padding_ok {align : ℕ → ℕ} (halign : ∀ n ≤ 2 ^ 32 - 64, n ≤ align n) {begin n : ℕ}
    {file : OutFile} (h : file.position = begin + n) (hn : n ≤ 2 ^ 32 - 64) :
    ∃ a file', (zeroUpTo (begin + align (file.position - begin))).run file = .ok (a, file') ∧
      file'.position = begin + align (file.position - begin) := by
  refine zeroUpTo_ok ?_
  rw [h, Nat.add_sub_cancel_left]
  exact Nat.add_le_add_left (halign n hn) begin

/-- The records of a title are short, and its content is 64 bytes or more below 4 GiB. -/
structure Title.Small (title : Title) : Prop where
  certificates : ∀ certificate ∈ title.certificates, certificate.Small
  ticket : title.ticket.Small
  tmd : title.tmd.Small
  contentInfos : title.contentInfoHashes.length + title.contentInfos.length ≤ 0x1000
  content : title.content.length ≤ 2 ^ 32 - 64

theorem writeSections_ok {title : Title} (h : title.Small) {certBegin : ℕ} {file : OutFile}
    (hfile : file.position = certBegin) :
    ∃ header file', (writeSections title certBegin).run file = .ok (header, file') := by
  have halign32 : ∀ n ≤ 2 ^ 32 - 64, n ≤ aligned32 n := fun _ => le_aligned32
  obtain ⟨chain, hchain, hwrites⟩ := saveCertificates_writes h.certificates
  rw [title.certificates_length] at hchain
  obtain ⟨_, file₁, h₁, hp₁⟩ := hwrites file
  rw [hfile] at hp₁
  obtain ⟨_, file₂, h₂, hp₂⟩ := padding_ok halign32 hp₁ (by omega)
  obtain ⟨ticket, hticket, hwrites⟩ := h.ticket.writes
  obtain ⟨_, file₃, h₃, hp₃⟩ := hwrites file₂
  rw [hp₂] at hp₃
  obtain ⟨_, file₄, h₄, hp₄⟩ := padding_ok halign32 hp₃ (by omega)
  obtain ⟨tmd, htmd, hwrites⟩ := h.tmd.writes
  obtain ⟨_, file₅, h₅, hp₅⟩ := hwrites file₄
  obtain ⟨_, file₆, h₆, hp₆⟩ := write_writes title.contentInfoHashes file₅
  obtain ⟨_, file₇, h₇, hp₇⟩ := write_writes title.contentInfos file₆
  rw [hp₆, hp₅, hp₄, Nat.add_assoc, Nat.add_assoc] at hp₇
  have hinfos := h.contentInfos
  obtain ⟨_, file₈, h₈, hp₈⟩ := padding_ok halign32 hp₇ (by omega)
  obtain ⟨_, file₉, h₉, hp₉⟩ := write_writes title.content file₈
  rw [hp₈] at hp₉
  obtain ⟨_, file₁₀, h₁₀, hp₁₀⟩ := padding_ok (fun _ => le_aligned) hp₉ h.content
  obtain ⟨_, file₁₁, h₁₁, hp₁₁⟩ := write_writes title.metaData file₁₀
  unfold writeSections
  rw [run_bind h₁, run_bind (tellp_run _)]
  dsimp only
  rw [run_bind h₂, run_bind h₃, run_bind (tellp_run _), run_bind h₄, run_bind h₅, run_bind h₆,
    run_bind h₇, run_bind (tellp_run _), run_bind h₈, run_bind h₉, run_bind (tellp_run _),
    run_bind h₁₀, run_bind h₁₁, run_bind (tellp_run _)]
  exact ⟨_, _, rfl⟩

/-- Every title of such records is written. -/
theorem writeCIA_ok {title : Title} (h : title.Small) : ∃ file, writeCIA title = .ok file := by
  have hzero : ({} : OutFile).position ≤ 0 + aligned (0 + title.contentMask.length) :=
    Nat.zero_le _
  obtain ⟨_, file₁, h₁, hp₁⟩ := zeroUpTo_ok hzero
  obtain ⟨header, file₂, h₂⟩ := writeSections_ok h hp₁
  have hrun : ∃ p, (writeTitle title).run {} = .ok p := by
    unfold writeTitle
    rw [run_bind (tellp_run _)]
    dsimp only
    rw [run_bind h₁, run_bind h₂]
    exact ⟨_, rfl⟩
  obtain ⟨p, hp⟩ := hrun
  refine ⟨p.2.bytes, ?_⟩
  unfold writeCIA
  rw [hp]
  rfl

/-- A section is where its size says unless a size comes too close to `2 ^ 32`, a certificate is
read unless it has an elliptic-curve key, and no title that was written is read. -/
theorem cia_layout (begin : BitVec 63) (header : CIAHeader) (record : CertificateRecord)
    (rest : Bytes) (title : Title) (cia : CIA) :
    ((offsets begin header).Exact begin.toNat header ↔ header.Fits) ∧
    (parseCertificate.run (record.bytes ++ rest) = .ok (record.certificate, rest) ↔
      record.keyType ≠ 2) ∧
    (writeCIA title >>= parseCIA) ≠ .ok cia := by
  refine ⟨offsets_exact_iff begin header, parseCertificate_iff record rest, fun h => ?_⟩
  obtain ⟨file, hfile, h⟩ := bind_ok h
  rw [parseCIA_written hfile] at h
  cases h

/-- A content of 4 GiB. -/
def largeHeader : CIAHeader where
  headerSize := 0x2020
  type := 0
  version := 0
  certificateChainSize := 0xa00
  ticketSize := 0x350
  tmdSize := 0xb34
  metaSize := 0x3ac0
  contentSize := 0x100000000

theorem getSignatureSize_ecdsa : getSignatureSize 0x10002 = .ok 0x3c := by
  rw [getSignatureSize, if_neg (by decide), if_neg (by decide), if_pos (by decide)]
  rfl

theorem padSize_ecdsa : padSize 0x10002 = .ok 0x40 := by
  rw [padSize, if_neg (by decide), if_pos (by decide)]
  rfl

theorem padSize_rsa : padSize 0x10004 = .ok 0x3c := by
  rw [padSize, if_pos (by decide)]
  rfl

/-- A certificate with an elliptic-curve key, as a console has it. -/
def deviceRecord : CertificateRecord where
  type := 0x10002
  signature := List.replicate 0x3c 0
  signature_length := getSignatureSize_ecdsa.trans (by rw [List.length_replicate])
  padding := List.replicate 0x40 0
  padding_length := padSize_ecdsa.trans (by rw [List.length_replicate])
  data := List.replicate 0x40 0 ++ [0, 0, 0, 2] ++ List.replicate 0x44 0
  data_length := rfl
  pubkey := List.replicate 0x78 0
  pubkey_length := by
    have hkey : bigEndian (slice (List.replicate 0x40 0 ++ [0, 0, 0, 2] ++ List.replicate 0x44 0)
        0x40 4) = 2 := by decide
    rw [hkey, List.length_replicate]
    rfl

def plainSigned (size : ℕ) : Signed := ⟨0x10004, List.replicate 0x100 0, List.replicate size 0⟩

def plainTitle : Title where
  contentMask := List.replicate 0x2000 0
  mask_length := List.length_replicate
  certificates :=
    List.replicate 3 ⟨plainSigned certificateSize, List.replicate (0x200 + 4 + 0x34) 0⟩
  certificates_length := rfl
  ticket := plainSigned ticketSize
  tmd := plainSigned tmdSize
  contentInfoHashes := List.replicate (contentInfoHashSize * 64) 0
  contentInfos := List.replicate contentInfoSize 0
  content := List.replicate 0x200 0
  metaData := List.replicate metaSize 0

theorem plainSigned_small {size : ℕ} (h : size ≤ 0xf00) : (plainSigned size).Small where
  type := ⟨0x3c, padSize_rsa⟩
  length := by
    rw [plainSigned, List.length_replicate, List.length_replicate]
    omega

theorem plainTitle_small : plainTitle.Small where
  certificates := by
    intro certificate h
    rw [List.eq_of_mem_replicate h]
    exact ⟨plainSigned_small (by decide), Or.inl (by decide),
      List.length_replicate.trans_le (by decide)⟩
  ticket := plainSigned_small (by decide)
  tmd := plainSigned_small (by decide)
  contentInfos := by
    rw [plainTitle, List.length_replicate, List.length_replicate]
    decide
  content := List.length_replicate.trans_le (by decide)

theorem cia_layout_fails :
    ¬ (offsets 0 largeHeader).Exact 0 largeHeader ∧
    parseCertificate.run (deviceRecord.bytes ++ []) ≠ .ok (deviceRecord.certificate, []) ∧
    ∃ file, writeCIA plainTitle = .ok file ∧
      parseCIA file = .error (.runtimeError "Unknown signature type 0") := by
  refine ⟨fun h => ?_, fun h => ?_, ?_⟩
  · have hfits := ((offsets_exact_iff 0 largeHeader).1 h).contentSize
    revert hfits
    decide
  · exact (parseCertificate_iff deviceRecord []).1 h (by decide)
  · obtain ⟨file, hfile⟩ := writeCIA_ok plainTitle_small
    exact ⟨file, hfile, parseCIA_written hfile⟩

end Mikage.FileFormat
