import Mathlib.Tactic

/-!
# Serialised structures

A structure is loaded member by member from a reader and saved member by member to a writer. Its
description says how: integers of four widths, arrays and structures, and the tags of a structure,
which may set a byte order for what is inside and the size that is expected.

- `Data`, `Members`: the descriptions, with their layout in memory.
- `construct`, `write`: the recursions of `ConstructFromReadCallback` and `SaveWithWriteCallback`.
- `Description.load`, `Description.save`: `SerializationInterface`.
- `Description.RoundTrips`: what they are for. They do it unless a small structure is read in one
  piece that is as long as the structure is in memory.
-/

namespace Mikage.FileFormat.Serialization

abbrev Bytes := List (BitVec 8)

/-! ## Descriptions -/

inductive Endianness where
  | big
  | little
  | undefined
  deriving DecidableEq, Repr

/-- What the `Tags` of a structure say. -/
structure Tags where
  endianness : Option Endianness
  expectedSerializedSize : Option ℕ
  deriving DecidableEq, Repr

inductive Width where
  | uint8
  | uint16
  | uint32
  | uint64
  deriving DecidableEq, Repr

def Width.bytes : Width → ℕ
  | .uint8 => 1
  | .uint16 => 2
  | .uint32 => 4
  | .uint64 => 8

mutual

inductive Data where
  | int (width : Width)
  | array (n : ℕ) (elem : Data)
  | struct (tags : Tags) (members : Members)

inductive Members where
  | nil
  | cons (head : Data) (tail : Members)

end

mutual

def Data.Value : Data → Type
  | .int width => BitVec (8 * width.bytes)
  | .array n elem => Fin n → elem.Value
  | .struct _ members => members.Values

def Members.Values : Members → Type
  | .nil => Unit
  | .cons head tail => head.Value × tail.Values

end

mutual

/-- `SerializedSize` -/
def Data.serializedSize : Data → ℕ
  | .int width => width.bytes
  | .array n elem => n * elem.serializedSize
  | .struct _ members => members.serializedSize

def Members.serializedSize : Members → ℕ
  | .nil => 0
  | .cons head tail => head.serializedSize + tail.serializedSize

end

/-! ## The layout in memory -/

def roundUp (n alignment : ℕ) : ℕ := (n + alignment - 1) / alignment * alignment

mutual

/-- `alignof`. An array of no elements is an empty class. -/
def Data.alignment : Data → ℕ
  | .int width => width.bytes
  | .array n elem => if n = 0 then 1 else elem.alignment
  | .struct _ members => members.alignment

def Members.alignment : Members → ℕ
  | .nil => 1
  | .cons head tail => max head.alignment tail.alignment

end

mutual

/-- `sizeof` -/
def Data.memorySize : Data → ℕ
  | .int width => width.bytes
  | .array n elem => if n = 0 then 1 else n * elem.memorySize
  | .struct _ members => max 1 (roundUp (members.memoryEnd 0) members.alignment)

/-- Where the last member ends if the first may begin at `offset`. -/
def Members.memoryEnd : Members → ℕ → ℕ
  | .nil, offset => offset
  | .cons head tail, offset =>
    tail.memoryEnd (roundUp offset head.alignment + head.memorySize)

end

/-! ## Tags -/

structure DataTags where
  endianness : Endianness
  expectedSerializedSize : ℕ

def defaultTags : DataTags := { endianness := .undefined, expectedSerializedSize := 0 }

/-- `MergeTags`: the byte order is inherited, the expected size is not. -/
def mergeTags (tags : DataTags) : Data → DataTags
  | .struct new _ =>
    { endianness := new.endianness.getD tags.endianness
      expectedSerializedSize := new.expectedSerializedSize.getD 0 }
  | _ => { endianness := tags.endianness, expectedSerializedSize := 0 }

def tagsOf (data : Data) : DataTags := mergeTags defaultTags data

mutual

/-- `CheckSizeExpectations` in every structure. -/
def Data.Checked : Data → Prop
  | .int _ => True
  | .array _ elem => elem.Checked
  | .struct tags members =>
    (tags.expectedSerializedSize.getD 0 ≠ 0 →
      members.serializedSize = tags.expectedSerializedSize.getD 0) ∧ members.Checked

def Members.Checked : Members → Prop
  | .nil => True
  | .cons head tail => head.Checked ∧ tail.Checked

end

/-- A structure that compiles. -/
structure Description where
  tags : Tags
  members : Members
  checked : (Data.struct tags members).Checked

def Description.data (d : Description) : Data := .struct d.tags d.members

/-! ## Integers -/

/-- The lowest `n` bytes of a number, the lowest first. -/
def littleBytes : ℕ → ℕ → Bytes
  | 0, _ => []
  | n + 1, v => BitVec.ofNat 8 v :: littleBytes n (v / 256)

def littleValue : Bytes → ℕ
  | [] => 0
  | b :: s => b.toNat + 256 * littleValue s

/-- `TypeMapperBigEndian` or `TypeMapper3DS`. -/
def orderedBytes (endianness : Endianness) (s : Bytes) : Bytes :=
  if endianness = .big then s.reverse else s

/-! ## Reading and writing -/

/-- What a reader has left. A read of more than that fails. -/
def read (size : ℕ) : StateT Bytes Option Bytes := fun s =>
  if size ≤ s.length then some (s.take size, s.drop size) else none

def readArray {V : Type} (construct : StateT Bytes Option V) :
    (n : ℕ) → StateT Bytes Option (Fin n → V)
  | 0 => pure Fin.elim0
  | n + 1 => do
    let val ← construct
    let rest ← readArray construct n
    return Fin.cons val rest

mutual

/-- `ConstructFromReadCallback` -/
def construct (tags : DataTags) : (data : Data) → StateT Bytes Option data.Value
  | .int width => do
    let raw ← read width.bytes
    return BitVec.ofNat _ (littleValue (orderedBytes tags.endianness raw))
  | .array n elem => readArray (construct (mergeTags tags elem) elem) n
  | .struct _ members => constructMembers tags members

def constructMembers (tags : DataTags) : (members : Members) → StateT Bytes Option members.Values
  | .nil => pure ()
  | .cons head tail => do
    let val ← construct (mergeTags tags head) head
    let rest ← constructMembers tags tail
    return (val, rest)

end

mutual

/-- `SaveWithWriteCallback` -/
def write (tags : DataTags) : (data : Data) → data.Value → Bytes
  | .int width, val => orderedBytes tags.endianness (littleBytes width.bytes (BitVec.toNat val))
  | .array _ elem, vals => (List.ofFn vals).flatMap (write (mergeTags tags elem) elem)
  | .struct _ members, vals => writeMembers tags members vals

def writeMembers (tags : DataTags) : (members : Members) → members.Values → Bytes
  | .nil, _ => []
  | .cons head tail, (val, rest) =>
    write (mergeTags tags head) head val ++ writeMembers tags tail rest

end

/-- `SerializationInterface::Load` -/
def Description.load (d : Description) : StateT Bytes Option d.data.Value :=
  if d.data.memorySize ≤ 0x200 then do
    let readSize := if (tagsOf d.data).expectedSerializedSize ≠ 0 then
      (tagsOf d.data).expectedSerializedSize else d.data.memorySize
    let raw ← read readSize
    match construct (tagsOf d.data) d.data raw with
    | none => failure
    | some (val, _) => return val
  else construct (tagsOf d.data) d.data

/-- `SerializationInterface::Save` -/
def Description.save (d : Description) (val : d.data.Value) : Bytes :=
  write (tagsOf d.data) d.data val

/-- What is saved is loaded from the bytes that are saved, whatever is behind them, and the other
way round. -/
structure Description.RoundTrips (d : Description) : Prop where
  load_save : ∀ val rest, d.load (d.save val ++ rest) = some (val, rest)
  save_load : ∀ s, s.length = d.data.serializedSize →
    ∃ val, d.load s = some (val, []) ∧ d.save val = s
  size : ∀ val, (d.save val).length = d.data.serializedSize

/-! ## Sizes -/

theorem le_roundUp (n : ℕ) {alignment : ℕ} (h : 0 < alignment) : n ≤ roundUp n alignment := by
  have hdiv := Nat.div_add_mod (n + alignment - 1) alignment
  have hmod := Nat.mod_lt (n + alignment - 1) h
  rw [roundUp, Nat.mul_comm]
  omega

mutual

theorem Data.alignment_pos : ∀ data : Data, 0 < data.alignment
  | .int width => by cases width <;> decide
  | .array n elem => by
    rw [Data.alignment]
    split_ifs
    · exact Nat.one_pos
    · exact elem.alignment_pos
  | .struct _ members => members.alignment_pos

theorem Members.alignment_pos : ∀ members : Members, 0 < members.alignment
  | .nil => Nat.one_pos
  | .cons head _ => lt_max_of_lt_left head.alignment_pos

end

mutual

/-- Padding makes a structure longer. -/
theorem Data.serializedSize_le : ∀ data : Data, data.serializedSize ≤ data.memorySize
  | .int _ => le_rfl
  | .array n elem => by
    rw [Data.serializedSize, Data.memorySize]
    split_ifs with hn
    · simp [hn]
    · exact Nat.mul_le_mul_left n elem.serializedSize_le
  | .struct _ members =>
    calc members.serializedSize ≤ members.memoryEnd 0 := by
          simpa using members.serializedSize_le 0
      _ ≤ roundUp (members.memoryEnd 0) members.alignment := le_roundUp _ members.alignment_pos
      _ ≤ max 1 (roundUp (members.memoryEnd 0) members.alignment) := le_max_right _ _

theorem Members.serializedSize_le :
    ∀ (members : Members) (offset : ℕ), offset + members.serializedSize ≤ members.memoryEnd offset
  | .nil, _ => le_rfl
  | .cons head tail, offset => by
    have hoffset := le_roundUp offset head.alignment_pos
    have hhead := head.serializedSize_le
    have htail := tail.serializedSize_le (roundUp offset head.alignment + head.memorySize)
    rw [Members.serializedSize, Members.memoryEnd]
    omega

end

/-! ## Integers -/

theorem littleBytes_length (n v : ℕ) : (littleBytes n v).length = n := by
  induction n generalizing v with
  | zero => rfl
  | succ n ih => rw [littleBytes, List.length_cons, ih]

theorem littleValue_littleBytes (n v : ℕ) : littleValue (littleBytes n v) = v % 256 ^ n := by
  induction n generalizing v with
  | zero => rw [pow_zero, Nat.mod_one]; rfl
  | succ n ih =>
    rw [littleBytes, littleValue, ih, BitVec.toNat_ofNat,
      show 256 ^ (n + 1) = 256 * 256 ^ n from pow_succ' _ _, Nat.mod_mul]

theorem littleValue_lt (s : Bytes) : littleValue s < 256 ^ s.length := by
  induction s with
  | nil => exact Nat.one_pos
  | cons b s ih =>
    have hb : b.toNat < 256 := b.isLt
    rw [littleValue, List.length_cons, pow_succ']
    omega

theorem littleBytes_littleValue (s : Bytes) : littleBytes s.length (littleValue s) = s := by
  induction s with
  | nil => rfl
  | cons b s ih =>
    have hb : b.toNat < 256 := b.isLt
    have hdiv : (b.toNat + 256 * littleValue s) / 256 = littleValue s := by omega
    have hlow : BitVec.ofNat 8 (b.toNat + 256 * littleValue s) = b := by
      apply BitVec.eq_of_toNat_eq
      rw [BitVec.toNat_ofNat]
      omega
    rw [List.length_cons, littleBytes, littleValue, hdiv, ih, hlow]

theorem orderedBytes_orderedBytes (endianness : Endianness) (s : Bytes) :
    orderedBytes endianness (orderedBytes endianness s) = s := by
  rw [orderedBytes, orderedBytes]
  split_ifs
  · exact List.reverse_reverse s
  · rfl

theorem orderedBytes_length (endianness : Endianness) (s : Bytes) :
    (orderedBytes endianness s).length = s.length := by
  rw [orderedBytes]
  split_ifs
  · exact List.length_reverse
  · rfl

theorem pow_bytes (n : ℕ) : 256 ^ n = 2 ^ (8 * n) := by
  rw [pow_mul]
  norm_num

/-! ## Round trips -/

theorem read_append {size : ℕ} {s : Bytes} (h : s.length = size) (rest : Bytes) :
    read size (s ++ rest) = some (s, rest) := by
  subst h
  rw [read, if_pos (by simp), List.take_left, List.drop_left]

theorem readArray_flatMap {V : Type} {construct : StateT Bytes Option V} {write : V → Bytes}
    (h : ∀ val rest, construct (write val ++ rest) = some (val, rest)) {n : ℕ} (vals : Fin n → V)
    (rest : Bytes) :
    readArray construct n ((List.ofFn vals).flatMap write ++ rest) = some (vals, rest) := by
  induction n with
  | zero => exact congrArg (fun vals => some (vals, rest)) (Subsingleton.elim _ _)
  | succ n ih =>
    have hfirst := h (vals 0) ((List.ofFn (Fin.tail vals)).flatMap write ++ rest)
    have hrest := ih (Fin.tail vals)
    rw [List.ofFn_succ, List.flatMap_cons, List.append_assoc]
    change (construct (write (vals 0) ++ ((List.ofFn (Fin.tail vals)).flatMap write ++ rest))).bind
      (fun out => (readArray construct n out.2).bind fun out' =>
        some (Fin.cons (α := fun _ => V) out.1 out'.1, out'.2)) = _
    rw [hfirst]
    change ((readArray construct n ((List.ofFn (Fin.tail vals)).flatMap write ++ rest)).bind
      fun out' => some (Fin.cons (α := fun _ => V) (vals 0) out'.1, out'.2)) = _
    rw [hrest]
    exact congrArg (fun vals => some (vals, rest)) (Fin.cons_self_tail vals)

mutual

/-- What is written is read. -/
theorem construct_write (tags : DataTags) : ∀ (data : Data) (val : data.Value) (rest : Bytes),
    construct tags data (write tags data val ++ rest) = some (val, rest)
  | .int width, val, rest => by
    have hlength : (write tags (.int width) val).length = width.bytes :=
      (orderedBytes_length _ _).trans (littleBytes_length _ _)
    have hvalue : BitVec.ofNat (8 * width.bytes)
        (littleValue (orderedBytes tags.endianness (write tags (.int width) val))) = val := by
      rw [write, orderedBytes_orderedBytes, littleValue_littleBytes, pow_bytes]
      apply BitVec.eq_of_toNat_eq
      rw [BitVec.toNat_ofNat, Nat.mod_mod, Nat.mod_eq_of_lt (BitVec.isLt val)]
    change (read width.bytes (write tags (.int width) val ++ rest)).bind (fun out =>
      some (BitVec.ofNat (8 * width.bytes) (littleValue (orderedBytes tags.endianness out.1)),
        out.2)) = _
    rw [read_append hlength]
    exact congrArg (fun val => some (val, rest)) hvalue
  | .array _ elem, vals, rest => readArray_flatMap (construct_write _ elem) vals rest
  | .struct _ members, vals, rest => constructMembers_write tags members vals rest

theorem constructMembers_write (tags : DataTags) :
    ∀ (members : Members) (vals : members.Values) (rest : Bytes),
      constructMembers tags members (writeMembers tags members vals ++ rest) = some (vals, rest)
  | .nil, _, _ => rfl
  | .cons head tail, (val, vals), rest => by
    have hhead := construct_write (mergeTags tags head) head val
      (writeMembers tags tail vals ++ rest)
    have htail := constructMembers_write tags tail vals rest
    rw [writeMembers, List.append_assoc]
    change (construct (mergeTags tags head) head _).bind (fun out =>
      (constructMembers tags tail out.2).bind fun out' => some ((out.1, out'.1), out'.2)) = _
    rw [hhead]
    change (constructMembers tags tail _).bind (fun out' => some ((val, out'.1), out'.2)) = _
    rw [htail]
    rfl

end

theorem exists_flatMap {V : Type} {write : V → Bytes} {size : ℕ}
    (h : ∀ s, (∃ val, write val = s) ↔ s.length = size) {n : ℕ} (s : Bytes) :
    (∃ vals : Fin n → V, (List.ofFn vals).flatMap write = s) ↔ s.length = n * size := by
  induction n generalizing s with
  | zero =>
    rw [Nat.zero_mul, List.length_eq_zero_iff]
    exact ⟨fun ⟨_, h⟩ => h.symm, fun h => ⟨Fin.elim0, h.symm⟩⟩
  | succ n ih =>
    rw [Nat.succ_mul]
    constructor
    · rintro ⟨vals, rfl⟩
      have hfirst := (h (write (vals 0))).1 ⟨_, rfl⟩
      have hrest := (ih ((List.ofFn (Fin.tail vals)).flatMap write)).1 ⟨_, rfl⟩
      rw [List.ofFn_succ, List.flatMap_cons, List.length_append, hfirst, Nat.add_comm]
      exact congrArg (· + size) hrest
    · intro hs
      obtain ⟨val, hval⟩ := (h (s.take size)).2 (by rw [List.length_take]; omega)
      obtain ⟨vals, hvals⟩ := (ih (s.drop size)).2 (by rw [List.length_drop]; omega)
      refine ⟨Fin.cons val vals, ?_⟩
      rw [List.ofFn_succ, List.flatMap_cons]
      simp only [Fin.cons_zero, Fin.cons_succ]
      rw [hval, hvals, List.take_append_drop]

mutual

/-- Exactly the strings of the serialised size are written. -/
theorem exists_write (tags : DataTags) : ∀ (data : Data) (s : Bytes),
    (∃ val, write tags data val = s) ↔ s.length = data.serializedSize
  | .int width, s => by
    constructor
    · rintro ⟨val, rfl⟩
      exact (orderedBytes_length _ _).trans (littleBytes_length _ _)
    · intro hs
      have hs : s.length = width.bytes := hs
      refine ⟨BitVec.ofNat _ (littleValue (orderedBytes tags.endianness s)), ?_⟩
      have hlt := littleValue_lt (orderedBytes tags.endianness s)
      rw [orderedBytes_length, hs, pow_bytes] at hlt
      have hbytes := littleBytes_littleValue (orderedBytes tags.endianness s)
      rw [orderedBytes_length, hs] at hbytes
      change orderedBytes tags.endianness (littleBytes width.bytes
        (BitVec.ofNat (8 * width.bytes) (littleValue (orderedBytes tags.endianness s))).toNat) = s
      rw [BitVec.toNat_ofNat, Nat.mod_eq_of_lt hlt, hbytes, orderedBytes_orderedBytes]
  | .array _ elem, s => exists_flatMap (exists_write _ elem) s
  | .struct _ members, s => exists_writeMembers tags members s

theorem exists_writeMembers (tags : DataTags) : ∀ (members : Members) (s : Bytes),
    (∃ vals, writeMembers tags members vals = s) ↔ s.length = members.serializedSize
  | .nil, s => by
    rw [Members.serializedSize, List.length_eq_zero_iff]
    exact ⟨fun ⟨_, h⟩ => h.symm, fun h => ⟨(), h.symm⟩⟩
  | .cons head tail, s => by
    constructor
    · rintro ⟨⟨val, vals⟩, rfl⟩
      rw [writeMembers, List.length_append,
        (exists_write (mergeTags tags head) head _).1 ⟨val, rfl⟩,
        (exists_writeMembers tags tail _).1 ⟨vals, rfl⟩]
      rfl
    · intro hs
      rw [Members.serializedSize] at hs
      obtain ⟨val, hval⟩ := (exists_write (mergeTags tags head) head (s.take head.serializedSize)).2
        (by rw [List.length_take]; omega)
      obtain ⟨vals, hvals⟩ := (exists_writeMembers tags tail (s.drop head.serializedSize)).2
        (by rw [List.length_drop]; omega)
      exact ⟨(val, vals), by rw [writeMembers, hval, hvals, List.take_append_drop]⟩

end

/-! ## The interface -/

section Interface

variable {d : Description}

theorem Description.save_length (val : d.data.Value) :
    (d.save val).length = d.data.serializedSize := (exists_write _ d.data _).1 ⟨val, rfl⟩

/-- An expected size is the size. -/
theorem Description.expected (h : (tagsOf d.data).expectedSerializedSize ≠ 0) :
    (tagsOf d.data).expectedSerializedSize = d.data.serializedSize := (d.checked.1 h).symm

/-- A description for which nothing beyond the serialised structure is read. -/
def Description.Exact (d : Description) : Prop :=
  d.data.memorySize = d.data.serializedSize ∨ 0x200 < d.data.memorySize ∨
    (tagsOf d.data).expectedSerializedSize ≠ 0

theorem Description.load_prefetch {size : ℕ} {s : Bytes} (hsmall : d.data.memorySize ≤ 0x200)
    (hsize : (if (tagsOf d.data).expectedSerializedSize ≠ 0 then
      (tagsOf d.data).expectedSerializedSize else d.data.memorySize) = size) :
    d.load s = (read size s).bind fun out =>
      ((construct (tagsOf d.data) d.data out.1).map Prod.fst).map fun val => (val, out.2) := by
  rw [Description.load, if_pos hsmall]
  change (read _ s).bind _ = _
  rw [hsize]
  refine congrArg (Option.bind _) (funext fun out => ?_)
  change (match construct (tagsOf d.data) d.data out.1 with
    | none => failure
    | some (val, _) => pure val : StateT Bytes Option d.data.Value) out.2 = _
  cases construct (tagsOf d.data) d.data out.1 <;> rfl

theorem Description.load_save (h : d.Exact) (val : d.data.Value) (rest : Bytes) :
    d.load (d.save val ++ rest) = some (val, rest) := by
  by_cases hsmall : d.data.memorySize ≤ 0x200
  · have hsize : (if (tagsOf d.data).expectedSerializedSize ≠ 0 then
        (tagsOf d.data).expectedSerializedSize else d.data.memorySize) =
        d.data.serializedSize := by
      split_ifs with htag
      · exact Description.expected htag
      · rcases h with h | h | h
        · exact h
        · omega
        · exact absurd h htag
    have hread := construct_write (tagsOf d.data) d.data val []
    rw [List.append_nil] at hread
    rw [load_prefetch hsmall hsize, read_append (save_length val), Option.bind_some,
      Description.save,
      hread]
    rfl
  · rw [Description.load, if_neg hsmall]
    exact construct_write _ _ val rest

theorem Description.RoundTrips.exact (h : d.RoundTrips) : d.Exact := by
  by_contra hexact
  rw [Description.Exact] at hexact
  push Not at hexact
  obtain ⟨hpadded, hsmall, htag⟩ := hexact
  have hle := Data.serializedSize_le d.data
  obtain ⟨val, hload, -⟩ := h.save_load (List.replicate d.data.serializedSize 0)
    List.length_replicate
  rw [Description.load_prefetch hsmall (if_neg (not_not.2 htag)), read,
    if_neg (by rw [List.length_replicate]; omega)] at hload
  cases hload

/-- Structures round trip, but for the small ones with padding and without an expected size: a
reader that has nothing more than they are serialised to is asked for their size in memory. -/
theorem roundTrips_iff_exact (d : Description) : d.RoundTrips ↔ d.Exact := by
  refine ⟨Description.RoundTrips.exact, fun h =>
    ⟨Description.load_save h, fun s hs => ?_, Description.save_length⟩⟩
  obtain ⟨val, rfl⟩ := (exists_write (tagsOf d.data) d.data s).2 hs
  have hload := Description.load_save h val []
  rw [List.append_nil] at hload
  exact ⟨val, hload, rfl⟩

/-- A byte and a half word, with a byte of padding between them. -/
def padded : Description where
  tags := { endianness := none, expectedSerializedSize := none }
  members := .cons (.int .uint8) (.cons (.int .uint16) .nil)
  checked := by simp [Data.Checked, Members.Checked]

theorem not_roundTrips_padded : ¬padded.RoundTrips := by
  intro hround
  rcases hround.exact with h | h | h
  · exact absurd h (by decide)
  · exact absurd h (by decide)
  · exact h rfl

end Interface

end Mikage.FileFormat.Serialization
