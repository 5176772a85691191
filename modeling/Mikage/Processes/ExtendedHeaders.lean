import Mikage.Processes.EncryptedSections

/-!
# The extended header of a title

An extended header is read from the file of a title, or by the name of an installed title. Each way
finds out by itself whether the header is encrypted, and with which key.

- `getExtendedHeader`, `getExtendedHeaderOfTitle`: the two ways.
- `decryptedExtendedHeader`: what they are to read, with the key that a file of the ExeFS is
  decrypted with.
- `Agree`: both read that.
-/

namespace Mikage.PXI

/-! ## Loading the headers -/

/-- A number in guest byte order. -/
def leValue (l : List UInt8) : ℕ := l.foldr (fun b n => b.toNat + 0x100 * n) 0

def le64 (l : List UInt8) : U64 := BitVec.ofNat 64 (leValue (l.take 8))

/-- The fields of a header that are used, from its 0x200 bytes. -/
def loadHeader (raw : List UInt8) : NCCHHeader where
  signature := Vector.ofFn fun i => raw.getD i 0
  magic := (raw.drop 0x100).take 4
  partitionId := le64 (raw.drop 0x108)
  programId := le64 (raw.drop 0x118)
  cryptoMethod := (raw.getD 0x18b 0).toBitVec
  flags := (raw.getD 0x18f 0).toBitVec
  logoOffset := le32 (raw.drop 0x198)
  logoSize := le32 (raw.drop 0x19c)
  exefsOffset := le32 (raw.drop 0x1a0)
  romfsOffset := le32 (raw.drop 0x1b0)
  romfsSize := le32 (raw.drop 0x1b4)

/-- `aci.program_id` of an extended header. The header has no padding and its integers are in guest
byte order: in memory it is the bytes that it is loaded from. -/
def aciProgramId (exheader : List UInt8) : U64 := le64 (exheader.drop 0x200)

/-- The bytes of an array of 16 bytes. -/
def keyOfBytes (l : List UInt8) : AESKey where
  bytes := (List.range 16).map fun i => (l.getD i 0).toBitVec
  size := rfl

/-! ## The two ways -/

section Ways

variable (keystream : Keystream) (keydb : KeyDatabase)

/-- `GetExtendedHeader` of a file. -/
def getExtendedHeader (ncchFile : File) : Except OpenError (List UInt8) := do
  let ncchRaw ← passOn (ncchFile.read 0 0x200)
  let exheader ← passOn (ncchFile.read 0x200 0x800)
  let header := loadHeader ncchRaw
  -- equal ids mean that the extended header is in plain text
  if header.hasContentEncryption ∧ ¬ aciProgramId exheader = header.programId then
    match keydb.x 0x2c with
    | none => .error (.threw (.badCast "bad_optional_access"))
    | some keyX =>
      let iv := header.partitionIv.set 8 1
      return decrypt keystream ⟨0, generateAESKey keyX header.keyY, iv⟩ 0 exheader
  else return exheader

/-- `GetExtendedHeader` of a title in the NAND, which is in this file. -/
def getExtendedHeaderOfTitle (inputFile : HostFile) : Except OpenError (List UInt8) := do
  let exheader ← passOn (inputFile.read 0x200 0x800)
  let encryptionFlags ← passOn (inputFile.read (0x188 + 7) 1)
  if (encryptionFlags.headD 0).toBitVec &&& 4 = 0 then
    match keydb.x 0x2c with
    | none => .error (.threw (.badCast "bad_optional_access"))
    | some keyX => do
      let keyY ← passOn (inputFile.read 0 16)
      let partitionId ← passOn (inputFile.read 0x108 8)
      let iv := (partitionId.reverse ++ List.replicate 8 0).set 8 1
      return decrypt keystream ⟨0, generateAESKey keyX (keyOfBytes keyY), iv⟩ 0 exheader
  else return exheader

end Ways

/-! ## What they are to read -/

theorem zeros_length : (List.replicate 16 (0 : UInt8)).length = 16 := rfl

/-- The key and the counter for the header of the ExeFS, before the section is known. -/
def NCCHHeader.chosenKey (header : NCCHHeader) (keyX : AESKey) : AESKey × List UInt8 :=
  if header.usesFixedKey then (⟨List.replicate 16 0, zeros_length⟩, List.replicate 16 0)
  else (generateAESKey keyX header.keyY, header.partitionIv)

/-- It is the choice of `NCCHOpenExeFSSection`. -/
theorem selectKeys_chosenKey {header : NCCHHeader} {keydb : KeyDatabase} {keyX : AESKey}
    {keys : AESKey × AESKey} {iv : List UInt8} (hencrypted : header.hasContentEncryption = true)
    (hkeyX : keydb.x 0x2c = some keyX) (h : header.selectKeys keydb = .ok (keys, iv)) :
    header.chosenKey keyX = (keys.1, iv) := by
  unfold NCCHHeader.selectKeys at h
  unfold NCCHHeader.chosenKey
  split_ifs at h with hplain hmethod
  · obtain ⟨rfl, rfl⟩ := Prod.mk.inj (Except.ok.inj h)
    rw [if_pos (hplain.resolve_left (not_not.2 hencrypted))]
  · rw [if_neg fun hfixed => hplain (.inr hfixed)]
    rw [hkeyX] at h
    cases hx : keydb.x 0x25 with
    | none =>
      rw [hx] at h
      cases h
    | some keyX25 =>
      rw [hx] at h
      obtain ⟨rfl, rfl⟩ := Prod.mk.inj (Except.ok.inj h)
      rfl

section Agree

variable (keystream : Keystream) (keyX : AESKey) (data : List UInt8)

/-- The header of an image, and the bytes of its extended header. -/
def headerOf : NCCHHeader := loadHeader (data.take 0x200)
def exheaderOf : List UInt8 := (data.drop 0x200).take 0x800

/-- An extended header that has the program id of the title is in plain text. -/
def ExtendedHeaderEncrypted : Prop :=
  (headerOf data).hasContentEncryption ∧ aciProgramId (exheaderOf data) ≠ (headerOf data).programId

instance : Decidable (ExtendedHeaderEncrypted data) := by
  unfold ExtendedHeaderEncrypted
  infer_instance

def decryptedExtendedHeader : List UInt8 :=
  if ExtendedHeaderEncrypted data then
    let (key, iv) := (headerOf data).chosenKey keyX
    decrypt keystream ⟨0, key, iv.set 8 1⟩ 0 (exheaderOf data)
  else exheaderOf data

/-- Both ways read the extended header of the image. -/
def Agree (keydb : KeyDatabase) (ncchFile : File) (inputFile : HostFile) : Prop :=
  getExtendedHeader keystream keydb ncchFile =
    .ok (decryptedExtendedHeader keystream keyX inputFile.data) ∧
  getExtendedHeaderOfTitle keystream keydb inputFile =
    .ok (decryptedExtendedHeader keystream keyX inputFile.data)

/-- The keystream that both ways use. -/
def slotKeystream : ℕ → UInt8 :=
  keystream (generateAESKey keyX (headerOf data).keyY) ((headerOf data).partitionIv.set 8 1)

/-- The title is not encrypted; or its extended header is, with a key of its own; or no one could
tell from the keystream. -/
def Unmistakable : Prop :=
  (headerOf data).hasContentEncryption = false ∨
  (ExtendedHeaderEncrypted data ∧ ((headerOf data).usesFixedKey = false ∨
    ∀ i < 0x800, slotKeystream keystream keyX data i =
      keystream ⟨List.replicate 16 0, zeros_length⟩ ((List.replicate 16 0).set 8 1) i)) ∨
  (¬ ExtendedHeaderEncrypted data ∧ ∀ i < 0x800, slotKeystream keystream keyX data i = 0)

end Agree

/-! ## The fields that are read in two ways -/

theorem leValue_byte (l : List UInt8) (i : ℕ) :
    leValue l / 2 ^ (8 * i) % 256 = (l.getD i 0).toNat := by
  induction l generalizing i with
  | nil => simp [leValue]
  | cons b l ih =>
    have hb : b.toNat < 256 := b.toNat_lt
    change (b.toNat + 0x100 * leValue l) / 2 ^ (8 * i) % 256 = _
    cases i with
    | zero => simp
    | succ i =>
      rw [show 8 * (i + 1) = 8 + 8 * i by ring, pow_add, ← Nat.div_div_eq_div_mul,
        show (b.toNat + 0x100 * leValue l) / 2 ^ 8 = leValue l by omega, ih]
      rfl

theorem leValue_lt (l : List UInt8) : leValue l < 2 ^ (8 * l.length) := by
  induction l with
  | nil => exact Nat.one_pos
  | cons b l ih =>
    have hb : b.toNat < 256 := b.toNat_lt
    change b.toNat + 0x100 * leValue l < _
    rw [List.length_cons, show 8 * (l.length + 1) = 8 + 8 * l.length by ring, pow_add]
    omega

/-- The bytes of a number are those that it is loaded from. -/
theorem le64_byte (l : List UInt8) {i : ℕ} (hi : i < 8) :
    UInt8.ofBitVec ((le64 l).extractLsb' (8 * i) 8) = l.getD i 0 := by
  have hlt : leValue (l.take 8) < 2 ^ 64 :=
    (leValue_lt _).trans_le (Nat.pow_le_pow_right (by decide)
      (Nat.mul_le_mul_left 8 (List.length_take_le 8 l)))
  apply UInt8.toNat_inj.1
  rw [UInt8.toNat_ofBitVec, BitVec.extractLsb'_toNat, le64, BitVec.toNat_ofNat,
    Nat.mod_eq_of_lt hlt,
    Nat.shiftRight_eq_div_pow, leValue_byte, List.getD_eq_getElem?_getD, List.getElem?_take,
    if_pos hi, ← List.getD_eq_getElem?_getD]

section Fields

variable {data : List UInt8}

theorem getD_take {n i : ℕ} (l : List UInt8) (h : i < n) : (l.take n).getD i 0 = l.getD i 0 := by
  rw [List.getD_eq_getElem?_getD, List.getElem?_take, if_pos h, ← List.getD_eq_getElem?_getD]

theorem getD_drop (l : List UInt8) (n i : ℕ) : (l.drop n).getD i 0 = l.getD (n + i) 0 := by
  rw [List.getD_eq_getElem?_getD, List.getElem?_drop, ← List.getD_eq_getElem?_getD]

theorem keyY_headerOf : (headerOf data).keyY = keyOfBytes (data.take 16) := by
  have hbytes : (headerOf data).keyY.bytes = (keyOfBytes (data.take 16)).bytes := by
    apply List.ext_getElem
    · rw [AESKey.size, AESKey.size]
    · intro i hi hi'
      rw [AESKey.size] at hi
      simp only [NCCHHeader.keyY, headerOf, loadHeader, keyOfBytes, List.getElem_map,
        List.getElem_take, Vector.getElem_toList, Vector.getElem_ofFn, List.getElem_range]
      rw [getD_take _ (by omega), getD_take _ hi]
  cases hk : (headerOf data).keyY
  cases hk' : keyOfBytes (data.take 16)
  rw [hk, hk'] at hbytes
  cases hbytes
  rfl

theorem partitionIv_headerOf (h : 0xa00 ≤ data.length) : (headerOf data).partitionIv =
    ((data.drop 0x108).take 8).reverse ++ List.replicate 8 0 := by
  have hbytes : ((List.range 8).map fun i =>
      UInt8.ofBitVec ((headerOf data).partitionId.extractLsb' (8 * i) 8)) =
      (data.drop 0x108).take 8 := by
    apply List.ext_getElem
    · simp
      omega
    · intro i hi hi'
      rw [List.length_map, List.length_range] at hi
      rw [List.getElem_map, List.getElem_range, headerOf, loadHeader, le64_byte _ hi, getD_drop,
        getD_take _ (by omega), List.getElem_take, List.getElem_drop,
        List.getD_eq_getElem _ _ (by omega)]
  rw [NCCHHeader.partitionIv, hbytes]

theorem flags_headerOf :
    (headerOf data).flags = ((((data.drop 0x18f).take 1).headD 0).toBitVec) := by
  change ((data.take 0x200).getD 0x18f 0).toBitVec = _
  rw [getD_take _ (by decide), List.headD_eq_head?_getD, List.head?_take, if_neg (by decide),
    List.head?_drop, List.getD_eq_getElem?_getD]

end Fields

/-! ## What the two ways read -/

section Reads

variable {keystream : Keystream} {keydb : KeyDatabase} {keyX : AESKey} {ncchFile : File}
  {inputFile : HostFile} {data : List UInt8}

/-- The extended header, decrypted as both ways do it. -/
def slotDecrypted (keystream : Keystream) (keyX : AESKey) (data : List UInt8) : List UInt8 :=
  decrypt keystream
    ⟨0, generateAESKey keyX (headerOf data).keyY, (headerOf data).partitionIv.set 8 1⟩ 0
    (exheaderOf data)

theorem getExtendedHeader_eq (h : Image ncchFile data) (hsize : 0xa00 ≤ data.length)
    (hkeyX : keydb.x 0x2c = some keyX) : getExtendedHeader keystream keydb ncchFile =
      .ok (if ExtendedHeaderEncrypted data then slotDecrypted keystream keyX data
        else exheaderOf data) := by
  have hheader : ncchFile.read 0 0x200 = .ok (data.take 0x200) := h.read 0 0x200 (by
    change 0 + 0x200 ≤ _
    omega)
  have hexheader : ncchFile.read 0x200 0x800 = .ok (exheaderOf data) := h.read 0x200 0x800 hsize
  rw [getExtendedHeader, hheader]
  change (passOn (ncchFile.read 0x200 0x800) >>= fun exheader => _) = _
  rw [hexheader]
  change (if ExtendedHeaderEncrypted data then _ else _) = _
  rw [hkeyX]
  split_ifs <;> rfl

theorem getExtendedHeaderOfTitle_eq (hsize : 0xa00 ≤ inputFile.data.length)
    (hkeyX : keydb.x 0x2c = some keyX) : getExtendedHeaderOfTitle keystream keydb inputFile =
      .ok (if (headerOf inputFile.data).hasContentEncryption then
        slotDecrypted keystream keyX inputFile.data else exheaderOf inputFile.data) := by
  have hread := (image_host inputFile).read
  have hexheader : inputFile.read 0x200 0x800 = .ok (exheaderOf inputFile.data) :=
    hread 0x200 0x800 hsize
  have hflags : inputFile.read (0x188 + 7) 1 = .ok ((inputFile.data.drop 0x18f).take 1) :=
    hread _ _ (by
      change 0x18f + 1 ≤ _
      omega)
  have hkeyY : inputFile.read 0 16 = .ok (inputFile.data.take 16) := hread _ _ (by
    change 0 + 16 ≤ _
    omega)
  have hpartition : inputFile.read 0x108 8 = .ok ((inputFile.data.drop 0x108).take 8) :=
    hread _ _ (by
      change 0x108 + 8 ≤ _
      omega)
  rw [getExtendedHeaderOfTitle, hexheader]
  change (passOn (inputFile.read (0x188 + 7) 1) >>= fun encryptionFlags => _) = _
  rw [hflags]
  change (if (((inputFile.data.drop 0x18f).take 1).headD 0).toBitVec &&& 4 = 0 then _ else _) = _
  rw [← flags_headerOf, hkeyX]
  simp only [NCCHHeader.hasContentEncryption, decide_eq_true_eq]
  split_ifs
  · rw [hkeyY, hpartition, slotDecrypted, keyY_headerOf, partitionIv_headerOf hsize]
    rfl
  · rfl

theorem decrypt_eq_iff {e e' : Encryption} (raw : List UInt8) :
    decrypt keystream e 0 raw = decrypt keystream e' 0 raw ↔
      ∀ i < raw.length, keystream e.key e.iv i = keystream e'.key e'.iv i := by
  constructor
  · intro h i hi
    have hbyte := congrArg (fun l => l[i]?) h
    simp only [decrypt, List.getElem?_mapIdx, List.getElem?_eq_getElem hi, Option.map_some,
      Nat.zero_add, Option.some.injEq] at hbyte
    exact (UInt8.xor_right_inj _).1 hbyte
  · intro h
    refine List.ext_getElem (by simp [decrypt]) fun i hi _ => ?_
    simp only [decrypt, List.length_mapIdx] at hi
    simp only [decrypt, List.getElem_mapIdx, Nat.zero_add, h i hi]

theorem decrypt_eq_self_iff {e : Encryption} (raw : List UInt8) :
    decrypt keystream e 0 raw = raw ↔ ∀ i < raw.length, keystream e.key e.iv i = 0 := by
  constructor
  · intro h i hi
    have hbyte := congrArg (fun l => l[i]?) h
    simp only [decrypt, List.getElem?_mapIdx, List.getElem?_eq_getElem hi, Option.map_some,
      Nat.zero_add, Option.some.injEq] at hbyte
    simpa using hbyte
  · intro h
    refine List.ext_getElem (by simp [decrypt]) fun i hi _ => ?_
    simp only [decrypt, List.length_mapIdx] at hi
    simp only [decrypt, List.getElem_mapIdx, Nat.zero_add, h i hi, UInt8.xor_zero]

theorem exheaderOf_length (h : 0xa00 ≤ data.length) : (exheaderOf data).length = 0x800 := by
  rw [exheaderOf, List.length_take, List.length_drop]
  omega

theorem slotDecrypted_eq_self_iff (h : 0xa00 ≤ data.length) :
    slotDecrypted keystream keyX data = exheaderOf data ↔
      ∀ i < 0x800, slotKeystream keystream keyX data i = 0 := by
  rw [slotDecrypted, decrypt_eq_self_iff, exheaderOf_length h]
  rfl

theorem slotDecrypted_eq_iff (h : 0xa00 ≤ data.length) (henc : ExtendedHeaderEncrypted data) :
    slotDecrypted keystream keyX data = decryptedExtendedHeader keystream keyX data ↔
      (headerOf data).usesFixedKey = false ∨ ∀ i < 0x800, slotKeystream keystream keyX data i =
        keystream ⟨List.replicate 16 0, zeros_length⟩ ((List.replicate 16 0).set 8 1) i := by
  rw [decryptedExtendedHeader, if_pos henc, NCCHHeader.chosenKey]
  by_cases hfixed : (headerOf data).usesFixedKey = true
  · rw [if_pos hfixed, slotDecrypted, decrypt_eq_iff, exheaderOf_length h]
    simp only [hfixed, Bool.true_eq_false, false_or]
    rfl
  · rw [if_neg hfixed]
    exact iff_of_true rfl (.inl (Bool.eq_false_iff.2 hfixed))

/-- A title that is not encrypted as its flags say is not read as it is. -/
theorem Agree.unmistakable (h : Image ncchFile inputFile.data)
    (hsize : 0xa00 ≤ inputFile.data.length) (hkeyX : keydb.x 0x2c = some keyX)
    (hagree : Agree keystream keyX keydb ncchFile inputFile) :
    Unmistakable keystream keyX inputFile.data := by
  rw [Agree, getExtendedHeader_eq h hsize hkeyX, getExtendedHeaderOfTitle_eq hsize hkeyX,
    Except.ok.injEq, Except.ok.injEq] at hagree
  obtain ⟨hfile, htitle⟩ := hagree
  by_cases hcontent : (headerOf inputFile.data).hasContentEncryption = true
  · rw [if_pos hcontent] at htitle
    by_cases henc : ExtendedHeaderEncrypted inputFile.data
    · exact .inr (.inl ⟨henc, (slotDecrypted_eq_iff hsize henc).1 htitle⟩)
    · rw [decryptedExtendedHeader, if_neg henc] at htitle
      exact .inr (.inr ⟨henc, (slotDecrypted_eq_self_iff hsize).1 htitle⟩)
  · exact .inl (Bool.eq_false_iff.2 hcontent)

theorem agree_of_unmistakable (h : Image ncchFile inputFile.data)
    (hsize : 0xa00 ≤ inputFile.data.length) (hkeyX : keydb.x 0x2c = some keyX)
    (hplain : Unmistakable keystream keyX inputFile.data) :
    Agree keystream keyX keydb ncchFile inputFile := by
  rw [Agree, getExtendedHeader_eq h hsize hkeyX, getExtendedHeaderOfTitle_eq hsize hkeyX,
    Except.ok.injEq, Except.ok.injEq]
  rcases hplain with hcontent | ⟨henc, hkey⟩ | ⟨henc, hzero⟩
  · have henc : ¬ExtendedHeaderEncrypted inputFile.data := fun henc => by
      rw [henc.1] at hcontent
      cases hcontent
    rw [decryptedExtendedHeader, if_neg henc, if_neg henc, if_neg (Bool.eq_false_iff.1 hcontent)]
    exact ⟨rfl, rfl⟩
  · have hslot := (slotDecrypted_eq_iff hsize henc).2 hkey
    rw [if_pos henc, if_pos henc.1]
    exact ⟨hslot, hslot⟩
  · have hslot := (slotDecrypted_eq_self_iff hsize).2 hzero
    rw [decryptedExtendedHeader, if_neg henc, if_neg henc]
    refine ⟨rfl, ?_⟩
    split_ifs
    · exact hslot
    · rfl

/-- The two ways agree where the title is not encrypted. Where it is, only one of them sees that an
extended header is in plain text, and none of them knows of the fixed key. -/
theorem agree_iff_unmistakable (keystream : Keystream) (keydb : KeyDatabase) (keyX : AESKey)
    (ncchFile : File) (inputFile : HostFile) (h : Image ncchFile inputFile.data)
    (hsize : 0xa00 ≤ inputFile.data.length) (hkeyX : keydb.x 0x2c = some keyX) :
    Agree keystream keyX keydb ncchFile inputFile ↔
      Unmistakable keystream keyX inputFile.data :=
  ⟨Agree.unmistakable h hsize hkeyX, agree_of_unmistakable h hsize hkeyX⟩

/-- A title of zeros. Its flags say that it is encrypted, and its ids are equal. -/
def blankTitle : HostFile where
  data := List.replicate 0xa00 0
  small := by rw [List.length_replicate]; decide

def blankKeys : KeyDatabase where
  x := fun _ => some ⟨List.replicate 16 0, zeros_length⟩

theorem blankTitle_length : blankTitle.data.length = 0xa00 := List.length_replicate

theorem blankTitle_zero : ∀ b ∈ blankTitle.data, b = 0 := fun _ hb => List.eq_of_mem_replicate hb

theorem blankTitle_plain : ¬ExtendedHeaderEncrypted blankTitle.data := by
  rintro ⟨-, hne⟩
  apply hne
  have hzero : ∀ l : List UInt8, (∀ b ∈ l, b = 0) → leValue l = 0 := by
    intro l
    induction l with
    | nil => exact fun _ => rfl
    | cons b l ih =>
      intro h
      change b.toNat + 0x100 * leValue l = 0
      rw [ih fun c hc => h c (List.mem_cons_of_mem _ hc), h b List.mem_cons_self]
      rfl
  have hid : aciProgramId (exheaderOf blankTitle.data) = 0 :=
    congrArg (BitVec.ofNat 64) (hzero _ fun b hb => blankTitle_zero b (List.mem_of_mem_drop
      (List.mem_of_mem_take (List.mem_of_mem_drop (List.mem_of_mem_take hb)))))
  have hid' : (headerOf blankTitle.data).programId = 0 :=
    congrArg (BitVec.ofNat 64) (hzero _ fun b hb => blankTitle_zero b (List.mem_of_mem_take
      (List.mem_of_mem_drop (List.mem_of_mem_take hb))))
  rw [hid, hid']

theorem agree_iff_unmistakable_blank :
    Agree (fun _ _ _ => 0) ⟨List.replicate 16 0, zeros_length⟩ blankKeys (.host blankTitle) blankTitle ↔
      Unmistakable (fun _ _ _ => 0) ⟨List.replicate 16 0, zeros_length⟩ blankTitle.data :=
  agree_iff_unmistakable _ blankKeys _ (.host blankTitle) blankTitle (image_host blankTitle)
    blankTitle_length.ge rfl

/-- An extended header in plain text, in a title with the flags of an encrypted one, is decrypted
when it is read by the name of the title. -/
theorem not_agree_blank :
    ¬Agree (fun _ _ _ => 1) ⟨List.replicate 16 0, zeros_length⟩ blankKeys (.host blankTitle) blankTitle := by
  intro hagree
  rcases hagree.unmistakable (image_host blankTitle) blankTitle_length.ge rfl with
    h | ⟨h, -⟩ | ⟨-, h⟩
  · have hflags : (headerOf blankTitle.data).flags = 0 := by
      rw [flags_headerOf]
      cases hflag : (blankTitle.data.drop 0x18f).take 1 with
      | nil => rfl
      | cons b l =>
        have hmem : b ∈ (blankTitle.data.drop 0x18f).take 1 := by
          rw [hflag]
          exact List.mem_cons_self
        rw [List.headD_cons, blankTitle_zero b (List.mem_of_mem_drop (List.mem_of_mem_take hmem))]
        rfl
    rw [NCCHHeader.hasContentEncryption, hflags] at h
    exact absurd h (by decide)
  · exact blankTitle_plain h
  · exact absurd (h 0 (by decide)) (by decide)

end Reads

end Mikage.PXI
