import Mikage.Lib.RingBuffer
import Mikage.Lib.Run
import Mikage.Framework.Exceptions

/-!
# Pipes of the DSP

A pipe is a ring in the memory of the DSP. Its two cursors have an iteration bit that flips each
time they pass the end, which tells a full pipe from an empty one. Both sides move their cursor in
chunks that end where the ring does.

- `SubPipeInfo`: the cursors and their distance; `Holds` says what a number of unread bytes means
  for them.
- `writeProcessPipe`, `readPipe`: the transfers.
- `Plain`: a write that the special case for four bytes leaves alone.
- `pipe_exact`: in every run whose writes are plain, the bytes come out as they went in.
-/

namespace Mikage.DSP

open Lib

abbrev Byte := BitVec 8

/-- The low 15 bits and the bit above them. -/
structure Cursor where
  value : BitVec 15
  iteration : Bool
  deriving DecidableEq, Repr

structure SubPipeInfo where
  pipeOffsetWords : BitVec 16
  numBytes : BitVec 16
  readCursor : Cursor
  writeCursor : Cursor
  subpipeIndex : BitVec 8
  unknownflags : BitVec 8
  deriving DecidableEq, Repr

namespace SubPipeInfo

variable (pipe : SubPipeInfo)

def getWritableBytesUntilWrap : BitVec 16 := pipe.numBytes - pipe.writeCursor.value.setWidth 16

def cursorDistance : Except Exception (BitVec 16) :=
  let ret := pipe.writeCursor.value.setWidth 16 - pipe.readCursor.value.setWidth 16
  if pipe.writeCursor.iteration = pipe.readCursor.iteration then
    if pipe.writeCursor.value < pipe.readCursor.value then
      .error (.invalid "Read cursor for DSP pipe overlaps write cursor")
    else .ok ret
  else if pipe.writeCursor.value > pipe.readCursor.value ∨
      pipe.readCursor.value.toNat - pipe.writeCursor.value.toNat > pipe.numBytes.toNat then
    .error (.invalid "Write cursor for DSP pipe overlaps read cursor")
  else .ok (ret + pipe.numBytes)

def getReadableBytesUntilWrap : Except Exception (BitVec 16) := do
  let distance ← pipe.cursorDistance
  let untilWrap := pipe.numBytes - pipe.readCursor.value.setWidth 16
  return if untilWrap < distance then untilWrap else distance

def getWritableBytes : Except Exception (BitVec 16) := do
  return pipe.numBytes - (← pipe.cursorDistance)

def isFull : Except Exception Bool := do
  return (← pipe.cursorDistance) == pipe.numBytes

/-- `MoveCursor` -/
def moveCursor (cursor : Cursor) (offset : BitVec 16) : Cursor :=
  let newValue := cursor.value.toNat + offset.toNat
  if pipe.numBytes.toNat ≤ newValue then
    ⟨BitVec.ofNat 15 (newValue - pipe.numBytes.toNat), !cursor.iteration⟩
  else ⟨BitVec.ofNat 15 newValue, cursor.iteration⟩

/-- Where the data of the pipe is in the memory of the DSP. -/
def base : ℕ := 0x40000 + 2 * pipe.pipeOffsetWords.toNat

/-- The address is in the data area. -/
def InArea (a : ℕ) : Prop := pipe.base ≤ a ∧ a < pipe.base + pipe.numBytes.toNat

end SubPipeInfo

/-- A transfer on its way: the header as it will be written back, the memory of the DSP, which
addresses of it have been accessed, and the bytes handed to the client. -/
structure Transfer where
  pipe : SubPipeInfo
  memory : ℕ → Byte
  accessed : List ℕ
  out : List Byte

/-- What is written for a byte of a chunk when `numBytes` are left. -/
def storedByte (numBytes : BitVec 32) (offset : ℕ) (val : Byte) : Byte :=
  -- the special case "Apparently actual DSP does this?"
  if numBytes = 4 ∧ 2 ≤ offset then 0 else val

def writeByte (thread : BitVec 32 → Byte) (numBytes bufferAddr : BitVec 32) (t : Transfer)
    (offset : ℕ) : Transfer :=
  let a := t.pipe.base + t.pipe.writeCursor.value.toNat + offset
  { t with
    memory := Function.update t.memory a
      (storedByte numBytes offset (thread (bufferAddr + BitVec.ofNat 32 offset)))
    accessed := t.accessed ++ [a] }

def writeChunk (thread : BitVec 32 → Byte) (numBytes bufferAddr : BitVec 32) (chunkSize : BitVec 16)
    (t : Transfer) : Transfer :=
  let t := (List.range chunkSize.toNat).foldl (writeByte thread numBytes bufferAddr) t
  { t with
    pipe := { t.pipe with writeCursor := t.pipe.moveCursor t.pipe.writeCursor chunkSize } }

/-- The smaller one, of 16 bits each. -/
def min16 (numBytes : BitVec 32) (b : BitVec 16) : BitVec 16 :=
  if b < numBytes.setWidth 16 then b else numBytes.setWidth 16

/-- The loop of `HandleWriteProcessPipe`. `none` is a loop that has not ended. -/
def writeLoop (thread : BitVec 32 → Byte) :
    ℕ → (numBytes bufferAddr : BitVec 32) → Transfer → Option (Except Exception Unit × Transfer)
  | 0, _, _, _ => none
  | fuel + 1, numBytes, bufferAddr, t =>
    if numBytes = 0 then some (.ok (), t)
    else
      match t.pipe.isFull, t.pipe.getWritableBytes with
      | .ok full, .ok writable =>
        if full ∨ numBytes > writable.setWidth 32 then
          some (.error (.runtimeError "Cannot flush partial pipe writes"), t)
        else
          let chunkSize := min16 numBytes t.pipe.getWritableBytesUntilWrap
          writeLoop thread fuel (numBytes - chunkSize.setWidth 32)
            (bufferAddr + chunkSize.setWidth 32)
            (writeChunk thread numBytes bufferAddr chunkSize t)
      | .error e, _ => some (.error e, t)
      | _, .error e => some (.error e, t)

def readByte (t : Transfer) (offset : ℕ) : Transfer :=
  let a := t.pipe.base + t.pipe.readCursor.value.toNat + offset
  { t with accessed := t.accessed ++ [a], out := t.out ++ [t.memory a] }

def readChunk (chunkSize : BitVec 16) (t : Transfer) : Transfer :=
  let t := (List.range chunkSize.toNat).foldl readByte t
  { t with pipe := { t.pipe with readCursor := t.pipe.moveCursor t.pipe.readCursor chunkSize } }

/-- The loop of `HandleReadPipeIfPossible`. -/
def readLoop : ℕ → (bytesLeft : BitVec 32) → Transfer → Option (Except Exception Unit × Transfer)
  | 0, _, _ => none
  | fuel + 1, bytesLeft, t =>
    if bytesLeft = 0 then some (.ok (), t)
    else
      match t.pipe.cursorDistance, t.pipe.getReadableBytesUntilWrap with
      | .ok distance, .ok untilWrap =>
        if bytesLeft > distance.setWidth 32 then
          some (.error (.runtimeError "Partial pipe reads not supported"), t)
        else
          let chunkSize := min16 bytesLeft untilWrap
          readLoop fuel (bytesLeft - chunkSize.setWidth 32) (readChunk chunkSize t)
      | .error e, _ => some (.error e, t)
      | _, .error e => some (.error e, t)

/-- The header and the memory of the DSP. -/
structure Ring where
  pipe : SubPipeInfo
  memory : ℕ → Byte

/-- The header is written back when the loop has not thrown. -/
def Ring.after (ring : Ring) : Except Exception Unit × Transfer → Ring
  | (.ok _, t) => ⟨t.pipe, t.memory⟩
  | (.error _, t) => ⟨ring.pipe, t.memory⟩

def writeProcessPipe (thread : BitVec 32 → Byte) (fuel : ℕ) (numBytes bufferAddr : BitVec 32)
    (ring : Ring) : Option (Except Exception Unit × Transfer) :=
  writeLoop thread fuel numBytes bufferAddr ⟨ring.pipe, ring.memory, [], []⟩

def readPipe (fuel : ℕ) (numBytes : BitVec 32) (ring : Ring) :
    Option (Except Exception Unit × Transfer) :=
  readLoop fuel numBytes ⟨ring.pipe, ring.memory, [], []⟩

/-! ## Cursors -/

section Cursors

variable {pipe : SubPipeInfo} {d k : ℕ}

/-- The cursors are in the ring, `d` bytes apart. -/
structure Holds (pipe : SubPipeInfo) (d : ℕ) : Prop where
  size : 0 < pipe.numBytes.toNat ∧ pipe.numBytes.toNat ≤ 0x7fff
  read : pipe.readCursor.value.toNat < pipe.numBytes.toNat
  write : pipe.writeCursor.value.toNat < pipe.numBytes.toNat
  apart : pipe.writeCursor.iteration = pipe.readCursor.iteration ∧
      pipe.writeCursor.value.toNat = pipe.readCursor.value.toNat + d ∨
    pipe.writeCursor.iteration ≠ pipe.readCursor.iteration ∧ d ≤ pipe.numBytes.toNat ∧
      pipe.writeCursor.value.toNat + pipe.numBytes.toNat = pipe.readCursor.value.toNat + d

theorem Holds.le (h : Holds pipe d) : d ≤ pipe.numBytes.toNat := by
  have := h.write
  obtain ⟨-, h⟩ | ⟨-, h, -⟩ := h.apart <;> omega

/-- The write cursor is `d` places behind the read cursor. -/
theorem Holds.write_eq (h : Holds pipe d) : pipe.writeCursor.value.toNat =
    (pipe.readCursor.value.toNat + d) % pipe.numBytes.toNat := by
  have hwrite := h.write
  obtain ⟨-, heq⟩ | ⟨-, -, heq⟩ := h.apart
  · rw [← heq, Nat.mod_eq_of_lt hwrite]
  · rw [← heq, Nat.add_mod_right, Nat.mod_eq_of_lt hwrite]

theorem toNat_setWidth16 (x : BitVec 15) : (x.setWidth 16).toNat = x.toNat := by
  have := x.isLt
  rw [BitVec.toNat_setWidth, Nat.mod_eq_of_lt (by omega)]

theorem Holds.cursorDistance (h : Holds pipe d) :
    pipe.cursorDistance = .ok (BitVec.ofNat 16 d) := by
  obtain ⟨hsize, hread, hwrite, hapart⟩ := h
  have hr := toNat_setWidth16 pipe.readCursor.value
  have hw := toNat_setWidth16 pipe.writeCursor.value
  rw [SubPipeInfo.cursorDistance]
  obtain ⟨hiter, heq⟩ | ⟨hiter, hle, heq⟩ := hapart
  · rw [if_pos hiter, if_neg (by rw [BitVec.lt_def]; omega)]
    congr 1
    apply BitVec.eq_of_toNat_eq
    rw [BitVec.toNat_sub, BitVec.toNat_ofNat, hr, hw]
    omega
  · rw [if_neg hiter, if_neg (by rw [gt_iff_lt, BitVec.lt_def]; omega)]
    congr 1
    apply BitVec.eq_of_toNat_eq
    rw [BitVec.toNat_add, BitVec.toNat_sub, BitVec.toNat_ofNat, hr, hw]
    omega

theorem Holds.isFull (h : Holds pipe d) :
    pipe.isFull = .ok (decide (d = pipe.numBytes.toNat)) := by
  have hle := h.le
  have hsize := h.size
  rw [SubPipeInfo.isFull, h.cursorDistance]
  change Except.ok _ = _
  congr 1
  rw [Bool.eq_iff_iff, beq_iff_eq, decide_eq_true_eq, BitVec.toNat_eq, BitVec.toNat_ofNat]
  omega

theorem Holds.getWritableBytes (h : Holds pipe d) :
    pipe.getWritableBytes = .ok (BitVec.ofNat 16 (pipe.numBytes.toNat - d)) := by
  have hle := h.le
  have hsize := h.size
  rw [SubPipeInfo.getWritableBytes, h.cursorDistance]
  change Except.ok _ = _
  congr 1
  apply BitVec.eq_of_toNat_eq
  rw [BitVec.toNat_sub, BitVec.toNat_ofNat, BitVec.toNat_ofNat]
  omega

theorem Holds.writableUntilWrap (h : Holds pipe d) : pipe.getWritableBytesUntilWrap.toNat =
    pipe.numBytes.toNat - pipe.writeCursor.value.toNat := by
  have hw := toNat_setWidth16 pipe.writeCursor.value
  have hwrite := h.write
  rw [SubPipeInfo.getWritableBytesUntilWrap, BitVec.toNat_sub_of_le (BitVec.le_def.2 (by omega)),
    hw]

theorem Holds.readableUntilWrap (h : Holds pipe d) : pipe.getReadableBytesUntilWrap =
    .ok (BitVec.ofNat 16 (min d (pipe.numBytes.toNat - pipe.readCursor.value.toNat))) := by
  have hr := toNat_setWidth16 pipe.readCursor.value
  have hread := h.read
  have hle := h.le
  have hsize := h.size
  have hwrap : (pipe.numBytes - pipe.readCursor.value.setWidth 16).toNat =
      pipe.numBytes.toNat - pipe.readCursor.value.toNat := by
    rw [BitVec.toNat_sub_of_le (BitVec.le_def.2 (by omega)), hr]
  rw [SubPipeInfo.getReadableBytesUntilWrap, h.cursorDistance]
  change Except.ok _ = _
  congr 1
  apply BitVec.eq_of_toNat_eq
  split
  next hlt =>
    rw [BitVec.lt_def, hwrap, BitVec.toNat_ofNat] at hlt
    rw [hwrap, BitVec.toNat_ofNat]
    omega
  next hlt =>
    rw [BitVec.lt_def, hwrap, BitVec.toNat_ofNat] at hlt
    rw [BitVec.toNat_ofNat, BitVec.toNat_ofNat]
    omega

theorem min16_toNat {n : BitVec 32} {b : BitVec 16} (h : n.toNat < 2 ^ 16) :
    (min16 n b).toNat = min n.toNat b.toNat := by
  have hn : (n.setWidth 16).toNat = n.toNat := by
    rw [BitVec.toNat_setWidth, Nat.mod_eq_of_lt h]
  unfold min16
  split
  next hlt =>
    rw [BitVec.lt_def] at hlt
    omega
  next hlt =>
    rw [BitVec.lt_def] at hlt
    omega

/-- A cursor that is not moved over the end. -/
theorem moveCursor_cases (cursor : Cursor) (offset : BitVec 16)
    (hsize : pipe.numBytes.toNat ≤ 0x7fff)
    (hoffset : offset.toNat + cursor.value.toNat ≤ pipe.numBytes.toNat) :
    cursor.value.toNat + offset.toNat = pipe.numBytes.toNat ∧
      pipe.moveCursor cursor offset = ⟨0, !cursor.iteration⟩ ∨
    cursor.value.toNat + offset.toNat < pipe.numBytes.toNat ∧
      (pipe.moveCursor cursor offset).value.toNat = cursor.value.toNat + offset.toNat ∧
      (pipe.moveCursor cursor offset).iteration = cursor.iteration := by
  unfold SubPipeInfo.moveCursor
  dsimp only
  split
  next hle =>
    have heq : cursor.value.toNat + offset.toNat = pipe.numBytes.toNat := by omega
    refine .inl ⟨heq, ?_⟩
    rw [heq, Nat.sub_self]
    rfl
  next hlt =>
    refine .inr ⟨by omega, ?_, rfl⟩
    rw [BitVec.toNat_ofNat, Nat.mod_eq_of_lt (by omega)]

/-- A moved cursor stays in the ring. -/
theorem moveCursor_lt (cursor : Cursor) (offset : BitVec 16)
    (hsize : 0 < pipe.numBytes.toNat ∧ pipe.numBytes.toNat ≤ 0x7fff)
    (hoffset : offset.toNat + cursor.value.toNat ≤ pipe.numBytes.toNat) :
    (pipe.moveCursor cursor offset).value.toNat < pipe.numBytes.toNat := by
  obtain ⟨-, hmoved⟩ | ⟨hlt, hmoved, -⟩ := moveCursor_cases cursor offset hsize.2 hoffset
  · rw [hmoved]
    exact hsize.1
  · rw [hmoved]
    exact hlt

/-- Moving the write cursor, if there is room, puts it that much further behind. -/
theorem Holds.moveWrite {offset : BitVec 16} (h : Holds pipe d)
    (hroom : d + offset.toNat ≤ pipe.numBytes.toNat)
    (hwrap : offset.toNat + pipe.writeCursor.value.toNat ≤ pipe.numBytes.toNat) :
    Holds { pipe with writeCursor := pipe.moveCursor pipe.writeCursor offset }
      (d + offset.toNat) := by
  refine ⟨h.size, h.read, moveCursor_lt pipe.writeCursor offset h.size hwrap, ?_⟩
  have hread := h.read
  dsimp only
  obtain ⟨heq, hmoved⟩ | ⟨hlt, hmoved, hiter⟩ := moveCursor_cases pipe.writeCursor
    offset h.size.2 hwrap
  · rw [hmoved]
    obtain ⟨hi, hapart⟩ | ⟨hi, -, hapart⟩ := h.apart
    · refine .inr ⟨by rw [hi]; cases pipe.readCursor.iteration <;> decide, by omega, ?_⟩
      change 0 + _ = _
      omega
    · omega
  · rw [hmoved, hiter]
    obtain ⟨hi, hapart⟩ | ⟨hi, -, hapart⟩ := h.apart
    · exact .inl ⟨hi, by omega⟩
    · exact .inr ⟨hi, by omega, by omega⟩

/-- Moving the read cursor over unread bytes leaves the rest unread. -/
theorem Holds.moveRead {offset : BitVec 16} (h : Holds pipe d) (hroom : offset.toNat ≤ d)
    (hwrap : offset.toNat + pipe.readCursor.value.toNat ≤ pipe.numBytes.toNat) :
    Holds { pipe with readCursor := pipe.moveCursor pipe.readCursor offset }
      (d - offset.toNat) := by
  refine ⟨h.size, moveCursor_lt pipe.readCursor offset h.size hwrap, h.write, ?_⟩
  have hwrite := h.write
  dsimp only
  obtain ⟨heq, hmoved⟩ | ⟨hlt, hmoved, hiter⟩ := moveCursor_cases pipe.readCursor
    offset h.size.2 hwrap
  · rw [hmoved]
    obtain ⟨hi, hapart⟩ | ⟨hi, hle, hapart⟩ := h.apart
    · omega
    · refine .inl ⟨?_, ?_⟩
      · change _ = !pipe.readCursor.iteration
        revert hi
        cases pipe.writeCursor.iteration <;> cases pipe.readCursor.iteration <;> simp
      · change _ = 0 + _
        omega
  · rw [hmoved, hiter]
    obtain ⟨hi, hapart⟩ | ⟨hi, hle, hapart⟩ := h.apart
    · exact .inl ⟨hi, by omega⟩
    · exact .inr ⟨hi, by omega, by omega⟩

/-- A chunk that does not go over the end of the ring is in the data area. -/
theorem inArea_chunk {cursor : Cursor} {k i : ℕ} (hi : i < k)
    (hwrap : k + cursor.value.toNat ≤ pipe.numBytes.toNat) :
    pipe.InArea (pipe.base + cursor.value.toNat + i) := by
  unfold SubPipeInfo.InArea
  omega

end Cursors

/-! ## Chunks -/

/-- The unread bytes, the oldest first. -/
def unread (pipe : SubPipeInfo) (memory : ℕ → Byte) (d : ℕ) : List Byte :=
  RingBuffer.contents pipe.numBytes.toNat (fun i => memory (pipe.base + i))
    pipe.readCursor.value.toNat d

section Writes

variable {thread : BitVec 32 → Byte} {numBytes bufferAddr : BitVec 32} {chunkSize : BitVec 16}
  {t t' t'' : Transfer} {d k m : ℕ} {bytes : ℕ → Byte}

/-- What a part of a write of `k` bytes does. -/
structure Wrote (d : ℕ) (bytes : ℕ → Byte) (k : ℕ) (t t' : Transfer) : Prop where
  holds : Holds t'.pipe (d + k)
  pipe : t'.pipe = { t.pipe with writeCursor := t'.pipe.writeCursor }
  unread : unread t'.pipe t'.memory (d + k) =
    unread t.pipe t.memory d ++ (List.range k).map bytes
  outside : ∀ a, ¬ t.pipe.InArea a → t'.memory a = t.memory a
  accessed : ∀ a ∈ t'.accessed, a ∈ t.accessed ∨ t.pipe.InArea a
  out : t'.out = t.out

theorem Wrote.inArea (h : Wrote d bytes k t t') (a : ℕ) :
    t'.pipe.InArea a ↔ t.pipe.InArea a := by
  rw [h.pipe]
  rfl

theorem Wrote.congr {f : ℕ → Byte} (h : Wrote d bytes k t t')
    (hbytes : ∀ i < k, bytes i = f i) : Wrote d f k t t' := by
  refine { h with unread := ?_ }
  rw [h.unread]
  congr 1
  exact List.map_congr_left fun i hi => hbytes i (List.mem_range.1 hi)

theorem Wrote.trans (h : Wrote d bytes k t t')
    (h' : Wrote (d + k) (fun i => bytes (k + i)) m t' t'') : Wrote d bytes (k + m) t t'' := by
  refine ⟨by rw [← Nat.add_assoc]; exact h'.holds, ?_, ?_, fun a ha => ?_, fun a ha => ?_,
    h'.out.trans h.out⟩
  · have hpipe := h'.pipe
    rw [h.pipe] at hpipe
    exact hpipe
  · rw [← Nat.add_assoc, h'.unread, h.unread, List.append_assoc, List.range_add, List.map_append,
      List.map_map]
    rfl
  · rw [h'.outside a fun hin => ha ((h.inArea a).1 hin), h.outside a ha]
  · obtain ha | ha := h'.accessed a ha
    · exact h.accessed a ha
    · exact .inr ((h.inArea a).1 ha)

variable (thread numBytes bufferAddr) in
/-- The inner loop. -/
theorem writeBytes_spec (k : ℕ) :
    let r := (List.range k).foldl (writeByte thread numBytes bufferAddr) t
    let start := t.pipe.base + t.pipe.writeCursor.value.toNat
    r.pipe = t.pipe ∧ r.out = t.out ∧
      r.accessed = t.accessed ++ (List.range k).map (start + ·) ∧
      ∀ a, r.memory a = if start ≤ a ∧ a < start + k then
        storedByte numBytes (a - start) (thread (bufferAddr + BitVec.ofNat 32 (a - start)))
        else t.memory a := by
  induction k with
  | zero =>
    refine ⟨rfl, rfl, by simp, fun a => (if_neg ?_).symm⟩
    omega
  | succ k ih =>
    obtain ⟨hpipe, hout, haccessed, hmemory⟩ := ih
    dsimp only at *
    rw [List.range_succ, List.foldl_append, List.foldl_cons, List.foldl_nil]
    refine ⟨hpipe, hout, ?_, fun a => ?_⟩
    · rw [writeByte]
      dsimp only
      rw [haccessed, hpipe, List.map_append, List.append_assoc]
      rfl
    · rw [writeByte]
      dsimp only
      rw [hpipe]
      by_cases ha : a = t.pipe.base + t.pipe.writeCursor.value.toNat + k
      · rw [if_pos (by omega), ha, Function.update_self, Nat.add_sub_cancel_left]
      · rw [Function.update_of_ne ha, hmemory]
        by_cases hin : t.pipe.base + t.pipe.writeCursor.value.toNat ≤ a ∧
            a < t.pipe.base + t.pipe.writeCursor.value.toNat + k
        · rw [if_pos hin, if_pos (by omega)]
        · rw [if_neg hin, if_neg (by omega)]

variable (thread numBytes bufferAddr) in
/-- One chunk, which has room in front of the end of the ring. -/
theorem wrote_chunk (h : Holds t.pipe d)
    (hroom : d + chunkSize.toNat ≤ t.pipe.numBytes.toNat)
    (hwrap : t.pipe.writeCursor.value.toNat + chunkSize.toNat ≤ t.pipe.numBytes.toNat) :
    Wrote d (fun i => storedByte numBytes i (thread (bufferAddr + BitVec.ofNat 32 i)))
      chunkSize.toNat t (writeChunk thread numBytes bufferAddr chunkSize t) := by
  have hspec := writeBytes_spec (t := t) thread numBytes bufferAddr chunkSize.toNat
  obtain ⟨hpipe, hout, haccessed, hmemory⟩ := hspec
  have hwrite := h.write_eq
  have hsize := h.size
  have hread := h.read
  have hchunk : (writeChunk thread numBytes bufferAddr chunkSize t).pipe =
      { t.pipe with writeCursor := t.pipe.moveCursor t.pipe.writeCursor chunkSize } := by
    rw [writeChunk]
    dsimp only
    rw [hpipe]
  have hmemory (a : ℕ) : (writeChunk thread numBytes bufferAddr chunkSize t).memory a = _ :=
    hmemory a
  have haccessed : (writeChunk thread numBytes bufferAddr chunkSize t).accessed = _ := haccessed
  refine ⟨?_, ?_, ?_, fun a ha => ?_, fun a ha => ?_, hout⟩
  · rw [hchunk]
    exact h.moveWrite hroom (by omega)
  · rw [hchunk]
  · rw [unread, unread, hchunk]
    change RingBuffer.contents t.pipe.numBytes.toNat
      (fun i => (writeChunk thread numBytes bufferAddr chunkSize t).memory (t.pipe.base + i))
      t.pipe.readCursor.value.toNat _ = _
    refine RingBuffer.contents_append hroom (fun i hi => ?_) fun a ha => ?_
    · have hplace : (t.pipe.readCursor.value.toNat + d + i) % t.pipe.numBytes.toNat =
          t.pipe.writeCursor.value.toNat + i := by
        rw [← Nat.mod_add_mod, ← hwrite, Nat.mod_eq_of_lt (by omega)]
      rw [hplace, hmemory, if_pos (by omega), ← Nat.add_assoc, Nat.add_sub_cancel_left]
    · rw [hmemory]
      refine if_neg fun hin => ?_
      refine ha (a - t.pipe.writeCursor.value.toNat) (by omega) ?_
      rw [← Nat.mod_add_mod, ← hwrite, Nat.mod_eq_of_lt (by omega)]
      omega
  · rw [hmemory]
    refine if_neg fun hin => ha ?_
    have harea : t.pipe.InArea (t.pipe.base + t.pipe.writeCursor.value.toNat +
        (a - (t.pipe.base + t.pipe.writeCursor.value.toNat))) :=
      inArea_chunk (k := chunkSize.toNat) (by omega) (by omega)
    rwa [Nat.add_sub_cancel' hin.1] at harea
  · rw [haccessed] at ha
    obtain ha | ha := List.mem_append.1 ha
    · exact .inl ha
    · obtain ⟨i, hi, rfl⟩ := List.mem_map.1 ha
      exact .inr (inArea_chunk (List.mem_range.1 hi) (by omega))

/-! ## The loop that writes -/

variable (thread bufferAddr) in
/-- There is no room for all of the bytes. -/
theorem writeLoop_full (fuel : ℕ) (h : Holds t.pipe d) (hn : numBytes ≠ 0)
    (hbig : t.pipe.numBytes.toNat - d < numBytes.toNat) :
    ∃ e, writeLoop thread (fuel + 1) numBytes bufferAddr t = some (.error e, t) := by
  have hsize := h.size
  have hwide : ((BitVec.ofNat 16 (t.pipe.numBytes.toNat - d)).setWidth 32).toNat =
      t.pipe.numBytes.toNat - d := by
    rw [BitVec.toNat_setWidth, BitVec.toNat_ofNat]
    omega
  refine ⟨.runtimeError "Cannot flush partial pipe writes", ?_⟩
  rw [writeLoop, if_neg hn, h.isFull, h.getWritableBytes]
  exact if_pos (.inr (by rw [gt_iff_lt, BitVec.lt_def]; omega))

variable (thread bufferAddr) in
/-- There is room, so a chunk is written: all of the bytes, or as many as fit in front of the end of
the ring. -/
theorem writeLoop_chunk (fuel : ℕ) (h : Holds t.pipe d) (hn : numBytes ≠ 0)
    (hfits : numBytes.toNat ≤ t.pipe.numBytes.toNat - d) :
    ∃ c : BitVec 16,
      c.toNat = min numBytes.toNat (t.pipe.numBytes.toNat - t.pipe.writeCursor.value.toNat) ∧
      writeLoop thread (fuel + 1) numBytes bufferAddr t =
        writeLoop thread fuel (numBytes - c.setWidth 32) (bufferAddr + c.setWidth 32)
          (writeChunk thread numBytes bufferAddr c t) := by
  have hsize := h.size
  have hle := h.le
  have hpos : 0 < numBytes.toNat := Nat.pos_of_ne_zero fun h => hn (BitVec.eq_of_toNat_eq h)
  have hwide : ((BitVec.ofNat 16 (t.pipe.numBytes.toNat - d)).setWidth 32).toNat =
      t.pipe.numBytes.toNat - d := by
    rw [BitVec.toNat_setWidth, BitVec.toNat_ofNat]
    omega
  refine ⟨min16 numBytes t.pipe.getWritableBytesUntilWrap, ?_, ?_⟩
  · rw [min16_toNat (by omega), h.writableUntilWrap]
  · rw [writeLoop, if_neg hn, h.isFull, h.getWritableBytes]
    refine if_neg ?_
    rintro (hfull | hgt)
    · rw [decide_eq_true_eq] at hfull
      omega
    · rw [gt_iff_lt, BitVec.lt_def] at hgt
      omega

theorem Wrote.refl (h : Holds t.pipe d) : Wrote d bytes 0 t t :=
  ⟨h, rfl, by rw [Nat.add_zero, List.range_zero, List.map_nil, List.append_nil],
    fun _ _ => rfl, fun _ ha => .inl ha, rfl⟩

theorem sub_setWidth {n : BitVec 32} {c : BitVec 16} (h : c.toNat ≤ n.toNat) :
    (n - c.setWidth 32).toNat = n.toNat - c.toNat := by
  have hc : (c.setWidth 32).toNat = c.toNat := by
    rw [BitVec.toNat_setWidth, Nat.mod_eq_of_lt (by have := c.isLt; omega)]
  rw [BitVec.toNat_sub_of_le (BitVec.le_def.2 (by omega)), hc]

variable (thread bufferAddr) in
/-- The last chunk. -/
theorem writeLoop_last (h : Holds t.pipe d)
    (hfits : numBytes.toNat ≤ t.pipe.numBytes.toNat - d)
    (hwrap : numBytes.toNat ≤ t.pipe.numBytes.toNat - t.pipe.writeCursor.value.toNat) :
    ∃ t', writeLoop thread 2 numBytes bufferAddr t = some (.ok (), t') ∧
      Wrote d (fun i => storedByte numBytes i (thread (bufferAddr + BitVec.ofNat 32 i)))
        numBytes.toNat t t' := by
  by_cases hn : numBytes = 0
  · refine ⟨t, by rw [writeLoop, if_pos hn], ?_⟩
    subst hn
    exact Wrote.refl h
  · obtain ⟨c, hc, hloop⟩ := writeLoop_chunk thread bufferAddr 1 h hn hfits
    rw [Nat.min_eq_left hwrap] at hc
    have hwrite := h.write
    have hle := h.le
    have hzero : numBytes - c.setWidth 32 = 0 := by
      apply BitVec.eq_of_toNat_eq
      rw [sub_setWidth (by omega)]
      change _ = 0
      omega
    refine ⟨writeChunk thread numBytes bufferAddr c t, ?_, ?_⟩
    · rw [hloop, writeLoop, if_pos hzero]
    · rw [← hc]
      exact wrote_chunk thread numBytes bufferAddr h (by omega) (by omega)

/-- What gets into the ring for byte `i` of a transfer, with `room` bytes in front of the end of the
ring. -/
def sentByte (thread : BitVec 32 → Byte) (room : ℕ) (numBytes bufferAddr : BitVec 32) (i : ℕ) :
    Byte :=
  if i < room then storedByte numBytes i (thread (bufferAddr + BitVec.ofNat 32 i))
  else storedByte (numBytes - BitVec.ofNat 32 room) (i - room)
    (thread (bufferAddr + BitVec.ofNat 32 i))

variable (thread bufferAddr) in
/-- **Writes.** A transfer that fits ends, in at most two chunks. -/
theorem writeLoop_fits (h : Holds t.pipe d)
    (hfits : numBytes.toNat ≤ t.pipe.numBytes.toNat - d) :
    ∃ fuel t', writeLoop thread fuel numBytes bufferAddr t = some (.ok (), t') ∧
      Wrote d (sentByte thread (t.pipe.numBytes.toNat - t.pipe.writeCursor.value.toNat) numBytes
        bufferAddr) numBytes.toNat t t' := by
  have hwrite := h.write
  have hle := h.le
  have hsize := h.size
  by_cases hwrap : numBytes.toNat ≤ t.pipe.numBytes.toNat - t.pipe.writeCursor.value.toNat
  · obtain ⟨t', hloop, hwrote⟩ := writeLoop_last thread bufferAddr h hfits hwrap
    exact ⟨2, t', hloop, hwrote.congr fun i hi => (if_pos (by omega)).symm⟩
  · have hn : numBytes ≠ 0 := by
      rintro rfl
      exact hwrap (Nat.zero_le _)
    obtain ⟨c, hc, hloop⟩ := writeLoop_chunk thread bufferAddr 2 h hn hfits
    have hc : c.toNat = t.pipe.numBytes.toNat - t.pipe.writeCursor.value.toNat := by omega
    have hfirst := wrote_chunk thread numBytes bufferAddr h (show d + c.toNat ≤ _ by omega)
      (by omega)
    have hrest := sub_setWidth (n := numBytes) (c := c) (by omega)
    have hsame : (writeChunk thread numBytes bufferAddr c t).pipe.numBytes = t.pipe.numBytes := by
      rw [hfirst.pipe]
    have hstart : (writeChunk thread numBytes bufferAddr c t).pipe.writeCursor.value.toNat = 0 := by
      rw [hfirst.holds.write_eq, hsame, hfirst.pipe, ← Nat.add_assoc, ← Nat.mod_add_mod,
        ← h.write_eq, hc, Nat.add_sub_cancel' hwrite.le, Nat.mod_self]
    obtain ⟨t', hloop', hwrote⟩ := writeLoop_last thread (bufferAddr + c.setWidth 32)
      hfirst.holds (show (numBytes - c.setWidth 32).toNat ≤ _ by rw [hrest, hsame]; omega)
      (by rw [hrest, hsame, hstart]; omega)
    have hwide : c.setWidth 32 = BitVec.ofNat 32 c.toNat := by
      apply BitVec.eq_of_toNat_eq
      rw [BitVec.toNat_setWidth, BitVec.toNat_ofNat]
    refine ⟨3, t', by rw [hloop, hloop'], ?_⟩
    have hsplit : numBytes.toNat = c.toNat + (numBytes - c.setWidth 32).toNat := by omega
    rw [hsplit]
    have hsecond := hwrote.congr (f := fun i => sentByte thread c.toNat numBytes bufferAddr
      (c.toNat + i)) fun i hi => ?_
    · rw [← hc]
      exact (hfirst.congr fun i hi => (if_pos hi).symm).trans hsecond
    · rw [sentByte, if_neg (by omega), Nat.add_sub_cancel_left, hwide, BitVec.add_assoc,
        ← BitVec.ofNat_add]

end Writes

/-! ## The loop that reads -/

section Reads

variable {numBytes : BitVec 32} {chunkSize : BitVec 16} {t t' t'' : Transfer} {d k m : ℕ}

/-- What a part of a read of `k` bytes does. -/
structure Got (d k : ℕ) (t t' : Transfer) : Prop where
  le : k ≤ d
  holds : Holds t'.pipe (d - k)
  pipe : t'.pipe = { t.pipe with readCursor := t'.pipe.readCursor }
  memory : t'.memory = t.memory
  out : t'.out = t.out ++ (unread t.pipe t.memory d).take k
  unread : unread t'.pipe t'.memory (d - k) = (unread t.pipe t.memory d).drop k
  accessed : ∀ a ∈ t'.accessed, a ∈ t.accessed ∨ t.pipe.InArea a

theorem Got.inArea (h : Got d k t t') (a : ℕ) : t'.pipe.InArea a ↔ t.pipe.InArea a := by
  rw [h.pipe]
  rfl

theorem Got.trans (h : Got d k t t') (h' : Got (d - k) m t' t'') : Got d (k + m) t t'' := by
  have hle := h'.le
  have hle' := h.le
  refine ⟨by omega, by rw [← Nat.sub_sub]; exact h'.holds, ?_, h'.memory.trans h.memory, ?_, ?_,
    fun a ha => ?_⟩
  · have hpipe := h'.pipe
    rw [h.pipe] at hpipe
    exact hpipe
  · rw [h'.out, h.out, h.unread, List.append_assoc, ← List.take_add]
  · rw [← Nat.sub_sub, h'.unread, h.unread, List.drop_drop]
  · obtain ha | ha := h'.accessed a ha
    · exact h.accessed a ha
    · exact .inr ((h.inArea a).1 ha)

/-- The inner loop. -/
theorem readBytes_spec (k : ℕ) :
    let start := t.pipe.base + t.pipe.readCursor.value.toNat
    (List.range k).foldl readByte t =
      { t with
        accessed := t.accessed ++ (List.range k).map (start + ·)
        out := t.out ++ (List.range k).map fun i => t.memory (start + i) } := by
  induction k with
  | zero => simp
  | succ k ih =>
    dsimp only at *
    rw [List.range_succ, List.foldl_append, ih, List.map_append, List.map_append,
      ← List.append_assoc, ← List.append_assoc]
    rfl

/-- One chunk, up to the end of the ring at most. -/
theorem got_chunk (h : Holds t.pipe d) (hroom : chunkSize.toNat ≤ d)
    (hwrap : t.pipe.readCursor.value.toNat + chunkSize.toNat ≤ t.pipe.numBytes.toNat) :
    Got d chunkSize.toNat t (readChunk chunkSize t) := by
  have hspec := readBytes_spec (t := t) chunkSize.toNat
  have hchunk : readChunk chunkSize t =
      { t with
        pipe := { t.pipe with readCursor := t.pipe.moveCursor t.pipe.readCursor chunkSize }
        accessed := t.accessed ++ (List.range chunkSize.toNat).map
          (t.pipe.base + t.pipe.readCursor.value.toNat + ·)
        out := t.out ++ (List.range chunkSize.toNat).map fun i =>
          t.memory (t.pipe.base + t.pipe.readCursor.value.toNat + i) } := by
    rw [readChunk, hspec]
  have hsize := h.size
  have hwrite := h.write
  have hread := h.read
  have hcursor := moveCursor_cases t.pipe.readCursor chunkSize hsize.2 (by omega)
  rw [hchunk]
  refine ⟨hroom, h.moveRead hroom (by omega), rfl, rfl, ?_, ?_, fun a ha => ?_⟩
  · rw [unread, RingBuffer.contents_take hroom]
    refine congrArg (t.out ++ ·) (List.map_congr_left fun i hi => ?_)
    have hi := List.mem_range.1 hi
    rw [Nat.mod_eq_of_lt (by omega), Nat.add_assoc]
  · rw [unread, unread, ← RingBuffer.contents_drop]
    change RingBuffer.contents _ _ (t.pipe.moveCursor _ _).value.toNat _ = _
    congr 1
    obtain ⟨heq, hmoved⟩ | ⟨hlt, hmoved, -⟩ := hcursor
    · rw [hmoved, heq, Nat.mod_self]
      rfl
    · rw [hmoved, Nat.mod_eq_of_lt hlt]
  · obtain ha | ha := List.mem_append.1 ha
    · exact .inl ha
    · obtain ⟨i, hi, rfl⟩ := List.mem_map.1 ha
      exact .inr (inArea_chunk (List.mem_range.1 hi) (by omega))

theorem readLoop_short (fuel : ℕ) (h : Holds t.pipe d) (hn : numBytes ≠ 0)
    (hbig : d < numBytes.toNat) :
    ∃ e, readLoop (fuel + 1) numBytes t = some (.error e, t) := by
  have hsize := h.size
  have hle := h.le
  have hwide : ((BitVec.ofNat 16 d).setWidth 32).toNat = d := by
    rw [BitVec.toNat_setWidth, BitVec.toNat_ofNat]
    omega
  refine ⟨.runtimeError "Partial pipe reads not supported", ?_⟩
  rw [readLoop, if_neg hn, h.cursorDistance, h.readableUntilWrap]
  exact if_pos (by rw [gt_iff_lt, BitVec.lt_def]; omega)

theorem readLoop_chunk (fuel : ℕ) (h : Holds t.pipe d) (hn : numBytes ≠ 0)
    (hfits : numBytes.toNat ≤ d) :
    ∃ c : BitVec 16,
      c.toNat = min numBytes.toNat (t.pipe.numBytes.toNat - t.pipe.readCursor.value.toNat) ∧
      readLoop (fuel + 1) numBytes t =
        readLoop fuel (numBytes - c.setWidth 32) (readChunk c t) := by
  have hsize := h.size
  have hle := h.le
  have hwide : ((BitVec.ofNat 16 d).setWidth 32).toNat = d := by
    rw [BitVec.toNat_setWidth, BitVec.toNat_ofNat]
    omega
  refine ⟨min16 numBytes (BitVec.ofNat 16
    (min d (t.pipe.numBytes.toNat - t.pipe.readCursor.value.toNat))), ?_, ?_⟩
  · rw [min16_toNat (by omega), BitVec.toNat_ofNat]
    omega
  · rw [readLoop, if_neg hn, h.cursorDistance, h.readableUntilWrap]
    exact if_neg (by rw [gt_iff_lt, BitVec.lt_def]; omega)

theorem Got.refl (h : Holds t.pipe d) : Got d 0 t t :=
  ⟨Nat.zero_le _, h, rfl, rfl, by simp, by simp, fun _ ha => .inl ha⟩

theorem readLoop_last (h : Holds t.pipe d) (hfits : numBytes.toNat ≤ d)
    (hwrap : numBytes.toNat ≤ t.pipe.numBytes.toNat - t.pipe.readCursor.value.toNat) :
    ∃ t', readLoop 2 numBytes t = some (.ok (), t') ∧ Got d numBytes.toNat t t' := by
  by_cases hn : numBytes = 0
  · refine ⟨t, by rw [readLoop, if_pos hn], ?_⟩
    subst hn
    exact Got.refl h
  · obtain ⟨c, hc, hloop⟩ := readLoop_chunk 1 h hn hfits
    rw [Nat.min_eq_left hwrap] at hc
    have hread := h.read
    have hzero : numBytes - c.setWidth 32 = 0 := by
      apply BitVec.eq_of_toNat_eq
      rw [sub_setWidth (by omega)]
      change _ = 0
      omega
    refine ⟨readChunk c t, ?_, ?_⟩
    · rw [hloop, readLoop, if_pos hzero]
    · rw [← hc]
      exact got_chunk h (by omega) (by omega)

/-- The read cursor is where it was, `d` bytes in front of the write cursor. -/
theorem Holds.read_zero (h : Holds t.pipe d) (hle : k ≤ d)
    (hgot : Got d k t t') (hk : t.pipe.readCursor.value.toNat + k = t.pipe.numBytes.toNat) :
    t'.pipe.readCursor.value.toNat = 0 := by
  have hread := h.read
  have hsame : t'.pipe.numBytes = t.pipe.numBytes := by rw [hgot.pipe]
  have hwrite : t'.pipe.writeCursor = t.pipe.writeCursor := by rw [hgot.pipe]
  have hread' := hgot.holds.read
  have hapart := h.apart
  have hapart' := hgot.holds.apart
  rw [hsame] at hread' hapart'
  rw [hwrite] at hapart'
  have := h.write
  omega

/-- **Reads.** A read of no more than there is ends, in at most two chunks. -/
theorem readLoop_fits (h : Holds t.pipe d) (hfits : numBytes.toNat ≤ d) :
    ∃ fuel t', readLoop fuel numBytes t = some (.ok (), t') ∧ Got d numBytes.toNat t t' := by
  have hread := h.read
  have hle := h.le
  by_cases hwrap : numBytes.toNat ≤ t.pipe.numBytes.toNat - t.pipe.readCursor.value.toNat
  · exact ⟨2, readLoop_last h hfits hwrap⟩
  · have hn : numBytes ≠ 0 := by
      rintro rfl
      exact hwrap (Nat.zero_le _)
    obtain ⟨c, hc, hloop⟩ := readLoop_chunk 2 h hn hfits
    have hc : c.toNat = t.pipe.numBytes.toNat - t.pipe.readCursor.value.toNat := by omega
    have hfirst := got_chunk h (show c.toNat ≤ d by omega) (by omega)
    have hrest := sub_setWidth (n := numBytes) (c := c) (by omega)
    have hsame : (readChunk c t).pipe.numBytes = t.pipe.numBytes := by rw [hfirst.pipe]
    have hstart := h.read_zero hfirst.le hfirst (by omega)
    obtain ⟨t', hloop', hgot⟩ := readLoop_last hfirst.holds
      (show (numBytes - c.setWidth 32).toNat ≤ _ by omega) (by rw [hrest, hsame, hstart]; omega)
    refine ⟨3, t', by rw [hloop, hloop'], ?_⟩
    have hsplit : numBytes.toNat = c.toNat + (numBytes - c.setWidth 32).toNat := by omega
    rw [hsplit]
    exact hfirst.trans hgot

end Reads

/-! ## Runs -/

/-- The bytes of the buffer of a client. -/
def bufferBytes (thread : BitVec 32 → Byte) (numBytes bufferAddr : BitVec 32) : List Byte :=
  (List.range numBytes.toNat).map fun i => thread (bufferAddr + BitVec.ofNat 32 i)

/-- A pipe, with all the bytes that accepted writes were given and all that reads have returned. -/
structure PipeRun where
  ring : Ring
  written : List Byte
  read : List Byte

/-- The special case for the last four bytes of a write, which clears the bytes of the same chunk
behind the first two, changes nothing. A chunk ends with the ring. -/
def Plain (pipe : SubPipeInfo) (thread : BitVec 32 → Byte) (numBytes bufferAddr : BitVec 32) :
    Prop :=
  let room := pipe.numBytes.toNat - pipe.writeCursor.value.toNat
  (numBytes = 4 → ∀ i, 2 ≤ i → i < min 4 room → thread (bufferAddr + BitVec.ofNat 32 i) = 0) ∧
    (numBytes.toNat = room + 4 → ∀ i, room + 2 ≤ i → i < room + 4 →
      thread (bufferAddr + BitVec.ofNat 32 i) = 0)

/-- The transfers of both sides. `Ok` is what is asked of the writes that are accepted. -/
inductive PipeStep (Ok : SubPipeInfo → (BitVec 32 → Byte) → BitVec 32 → BitVec 32 → Prop) :
    PipeRun → PipeRun → Prop where
  | write {s thread fuel numBytes bufferAddr t} : Ok s.ring.pipe thread numBytes bufferAddr →
      writeProcessPipe thread fuel numBytes bufferAddr s.ring = some (.ok (), t) →
      PipeStep Ok s ⟨s.ring.after (.ok (), t),
        s.written ++ bufferBytes thread numBytes bufferAddr, s.read⟩
  | writeRejected {s thread fuel numBytes bufferAddr e t} :
      writeProcessPipe thread fuel numBytes bufferAddr s.ring = some (.error e, t) →
      PipeStep Ok s { s with ring := s.ring.after (.error e, t) }
  | read {s fuel numBytes t} : readPipe fuel numBytes s.ring = some (.ok (), t) →
      PipeStep Ok s ⟨s.ring.after (.ok (), t), s.written, s.read ++ t.out⟩
  | readRejected {s fuel numBytes e t} : readPipe fuel numBytes s.ring = some (.error e, t) →
      PipeStep Ok s { s with ring := s.ring.after (.error e, t) }

/-- An empty pipe. -/
structure Empty (s : PipeRun) : Prop where
  size : 0 < s.ring.pipe.numBytes.toNat ∧ s.ring.pipe.numBytes.toNat ≤ 0x7fff
  cursors : s.ring.pipe.readCursor = s.ring.pipe.writeCursor
  inside : s.ring.pipe.readCursor.value.toNat < s.ring.pipe.numBytes.toNat
  nothing : s.written = [] ∧ s.read = []

/-- A transfer of a ring: it ends, within the data area, and when it throws nothing has changed. -/
structure TransferExact (ring : Ring) (fits : Prop)
    (run : ℕ → Option (Except Exception Unit × Transfer)) : Prop where
  terminates : ∃ fuel r, run fuel = some r
  accessed : ∀ fuel r, run fuel = some r → ∀ a ∈ r.2.accessed, ring.pipe.InArea a
  outside : ∀ fuel r, run fuel = some r → ∀ a, ¬ ring.pipe.InArea a → r.2.memory a = ring.memory a
  accepts : ∀ fuel r, run fuel = some r → (r.1 = .ok () ↔ fits)
  rejects : ∀ fuel e t, run fuel = some (.error e, t) → ring.after (.error e, t) = ring

/-- **The pipe in a state of a run**: its cursors, their distance, the order of the bytes and what
any transfer does next. -/
structure PipeExact (s : PipeRun) : Prop where
  cursors : s.ring.pipe.readCursor.value.toNat < s.ring.pipe.numBytes.toNat ∧
    s.ring.pipe.writeCursor.value.toNat < s.ring.pipe.numBytes.toNat
  distance : ∃ d : BitVec 16, s.ring.pipe.cursorDistance = .ok d ∧
    s.read.length + d.toNat = s.written.length ∧ d.toNat ≤ s.ring.pipe.numBytes.toNat
  fifo : s.read <+: s.written
  write : ∀ thread numBytes bufferAddr, TransferExact s.ring
    (s.read.length + s.ring.pipe.numBytes.toNat ≥ s.written.length + numBytes.toNat)
    fun fuel => writeProcessPipe thread fuel numBytes bufferAddr s.ring
  readBytes : ∀ numBytes, TransferExact s.ring
    (s.read.length + numBytes.toNat ≤ s.written.length)
    fun fuel => readPipe fuel numBytes s.ring

/-- The invariant: what has not been read is in the ring. -/
structure PipeInv (s : PipeRun) (d : ℕ) : Prop where
  holds : Holds s.ring.pipe d
  bytes : s.written = s.read ++ unread s.ring.pipe s.ring.memory d

section Runs

variable {thread : BitVec 32 → Byte} {numBytes bufferAddr : BitVec 32} {s s' : PipeRun}
  {t : Transfer} {d fuel fuel' : ℕ} {r r' : Except Exception Unit × Transfer}

theorem writeLoop_mono (hle : fuel ≤ fuel')
    (h : writeLoop thread fuel numBytes bufferAddr t = some r) :
    writeLoop thread fuel' numBytes bufferAddr t = some r := by
  induction fuel generalizing fuel' numBytes bufferAddr t with
  | zero => cases h
  | succ fuel ih =>
    obtain ⟨m, rfl⟩ : ∃ m, fuel' = m + 1 := ⟨fuel' - 1, by omega⟩
    rw [writeLoop] at h ⊢
    by_cases hn : numBytes = 0
    · rw [if_pos hn] at h ⊢
      exact h
    · rw [if_neg hn] at h ⊢
      cases hfull : t.pipe.isFull <;> cases hwritable : t.pipe.getWritableBytes <;>
        rw [hfull, hwritable] at h
      · exact h
      · exact h
      · exact h
      · dsimp only at h ⊢
        split_ifs at h ⊢
        · exact h
        · exact ih (by omega) h

theorem readLoop_mono (hle : fuel ≤ fuel') (h : readLoop fuel numBytes t = some r) :
    readLoop fuel' numBytes t = some r := by
  induction fuel generalizing fuel' numBytes t with
  | zero => cases h
  | succ fuel ih =>
    obtain ⟨m, rfl⟩ : ∃ m, fuel' = m + 1 := ⟨fuel' - 1, by omega⟩
    rw [readLoop] at h ⊢
    by_cases hn : numBytes = 0
    · rw [if_pos hn] at h ⊢
      exact h
    · rw [if_neg hn] at h ⊢
      cases hdistance : t.pipe.cursorDistance <;>
        cases huntil : t.pipe.getReadableBytesUntilWrap <;> rw [hdistance, huntil] at h
      · exact h
      · exact h
      · exact h
      · dsimp only at h ⊢
        split_ifs at h ⊢
        · exact h
        · exact ih (by omega) h

/-- Where a loop ends, it ends in one way. -/
theorem writeProcessPipe_unique {ring : Ring}
    (h : writeProcessPipe thread fuel numBytes bufferAddr ring = some r)
    (h' : writeProcessPipe thread fuel' numBytes bufferAddr ring = some r') : r = r' := by
  have h1 := writeLoop_mono (Nat.le_max_left fuel fuel') h
  have h2 := writeLoop_mono (Nat.le_max_right fuel fuel') h'
  exact Option.some.inj (h1.symm.trans h2)

theorem readPipe_unique {ring : Ring} (h : readPipe fuel numBytes ring = some r)
    (h' : readPipe fuel' numBytes ring = some r') : r = r' := by
  have h1 := readLoop_mono (Nat.le_max_left fuel fuel') h
  have h2 := readLoop_mono (Nat.le_max_right fuel fuel') h'
  exact Option.some.inj (h1.symm.trans h2)

/-- How every write ends. -/
theorem write_cases (thread : BitVec 32 → Byte) (numBytes bufferAddr : BitVec 32) {ring : Ring}
    (h : Holds ring.pipe d) :
    ∃ fuel r, writeProcessPipe thread fuel numBytes bufferAddr ring = some r ∧
      (numBytes.toNat ≤ ring.pipe.numBytes.toNat - d ∧ r.1 = .ok () ∧
        Wrote d (sentByte thread (ring.pipe.numBytes.toNat - ring.pipe.writeCursor.value.toNat)
          numBytes bufferAddr) numBytes.toNat ⟨ring.pipe, ring.memory, [], []⟩ r.2 ∨
      ring.pipe.numBytes.toNat - d < numBytes.toNat ∧ (∃ e, r.1 = .error e) ∧
        r.2 = ⟨ring.pipe, ring.memory, [], []⟩) := by
  by_cases hfits : numBytes.toNat ≤ ring.pipe.numBytes.toNat - d
  · obtain ⟨fuel, t', hloop, hwrote⟩ := writeLoop_fits thread bufferAddr
      (t := ⟨ring.pipe, ring.memory, [], []⟩) h hfits
    exact ⟨fuel, _, hloop, .inl ⟨hfits, rfl, hwrote⟩⟩
  · have hn : numBytes ≠ 0 := by
      rintro rfl
      exact hfits (Nat.zero_le _)
    obtain ⟨e, hloop⟩ := writeLoop_full thread bufferAddr
      (t := ⟨ring.pipe, ring.memory, [], []⟩) 0 h hn (not_le.1 hfits)
    exact ⟨1, _, hloop, .inr ⟨not_le.1 hfits, ⟨e, rfl⟩, rfl⟩⟩

theorem read_cases (numBytes : BitVec 32) {ring : Ring} (h : Holds ring.pipe d) :
    ∃ fuel r, readPipe fuel numBytes ring = some r ∧
      (numBytes.toNat ≤ d ∧ r.1 = .ok () ∧
        Got d numBytes.toNat ⟨ring.pipe, ring.memory, [], []⟩ r.2 ∨
      d < numBytes.toNat ∧ (∃ e, r.1 = .error e) ∧ r.2 = ⟨ring.pipe, ring.memory, [], []⟩) := by
  by_cases hfits : numBytes.toNat ≤ d
  · obtain ⟨fuel, t', hloop, hgot⟩ := readLoop_fits (t := ⟨ring.pipe, ring.memory, [], []⟩) h hfits
    exact ⟨fuel, _, hloop, .inl ⟨hfits, rfl, hgot⟩⟩
  · have hn : numBytes ≠ 0 := by
      rintro rfl
      exact hfits (Nat.zero_le _)
    obtain ⟨e, hloop⟩ := readLoop_short (t := ⟨ring.pipe, ring.memory, [], []⟩) 0 h hn
      (not_le.1 hfits)
    exact ⟨1, _, hloop, .inr ⟨not_le.1 hfits, ⟨e, rfl⟩, rfl⟩⟩

/-- A plain write puts the bytes of the client into the ring. -/
theorem sentByte_plain {pipe : SubPipeInfo} (h : Plain pipe thread numBytes bufferAddr)
    {i : ℕ} (hi : i < numBytes.toNat) :
    sentByte thread (pipe.numBytes.toNat - pipe.writeCursor.value.toNat) numBytes bufferAddr i =
      thread (bufferAddr + BitVec.ofNat 32 i) := by
  obtain ⟨hfour, hrest⟩ := h
  have hnum : (4 : BitVec 32).toNat = 4 := rfl
  rw [sentByte]
  split
  next hroom =>
    rw [storedByte]
    split
    next hspecial =>
      refine (hfour hspecial.1 i hspecial.2 ?_).symm
      rw [hspecial.1, hnum] at hi
      omega
    next => rfl
  next hroom =>
    rw [storedByte]
    split
    next hspecial =>
      have hlt := numBytes.isLt
      have hsmall : (BitVec.ofNat 32 (pipe.numBytes.toNat - pipe.writeCursor.value.toNat)).toNat =
          pipe.numBytes.toNat - pipe.writeCursor.value.toNat := by
        rw [BitVec.toNat_ofNat, Nat.mod_eq_of_lt (by omega)]
      have hfour := congrArg BitVec.toNat hspecial.1
      rw [BitVec.toNat_sub_of_le (BitVec.le_def.2 (by omega)), hsmall, hnum] at hfour
      exact (hrest (by omega) i (by omega) (by omega)).symm
    next => rfl

theorem PipeInv.step (h : PipeInv s d) (hstep : PipeStep Plain s s') : ∃ d', PipeInv s' d' := by
  cases hstep with
  | @write thread fuel numBytes bufferAddr t hplain hrun =>
    obtain ⟨fuel', r, hrun', ⟨-, -, hwrote⟩ | ⟨-, ⟨e, he⟩, -⟩⟩ :=
      write_cases thread numBytes bufferAddr h.holds
    · obtain rfl := writeProcessPipe_unique hrun hrun'
      refine ⟨d + numBytes.toNat, hwrote.holds, ?_⟩
      change s.written ++ _ = s.read ++ unread t.pipe t.memory _
      rw [hwrote.unread, h.bytes, List.append_assoc]
      refine congrArg (s.read ++ ·) (congrArg _ ?_)
      exact List.map_congr_left fun i hi => (sentByte_plain hplain (List.mem_range.1 hi)).symm
    · obtain rfl := writeProcessPipe_unique hrun hrun'
      cases he
  | @writeRejected thread fuel numBytes bufferAddr e t hrun =>
    obtain ⟨fuel', r, hrun', ⟨-, hok, -⟩ | ⟨-, -, hsame⟩⟩ :=
      write_cases thread numBytes bufferAddr h.holds
    · obtain rfl := writeProcessPipe_unique hrun hrun'
      cases hok
    · obtain rfl := writeProcessPipe_unique hrun hrun'
      obtain rfl := hsame
      exact ⟨d, h.holds, h.bytes⟩
  | @read fuel numBytes t hrun =>
    obtain ⟨fuel', r, hrun', ⟨-, -, hgot⟩ | ⟨-, ⟨e, he⟩, -⟩⟩ := read_cases numBytes h.holds
    · obtain rfl := readPipe_unique hrun hrun'
      refine ⟨d - numBytes.toNat, hgot.holds, ?_⟩
      change s.written = s.read ++ t.out ++ unread t.pipe t.memory _
      rw [hgot.unread, hgot.out, h.bytes, List.nil_append, List.append_assoc,
        List.take_append_drop]
    · obtain rfl := readPipe_unique hrun hrun'
      cases he
  | @readRejected fuel numBytes e t hrun =>
    obtain ⟨fuel', r, hrun', ⟨-, hok, -⟩ | ⟨-, -, hsame⟩⟩ := read_cases numBytes h.holds
    · obtain rfl := readPipe_unique hrun hrun'
      cases hok
    · obtain rfl := readPipe_unique hrun hrun'
      obtain rfl := hsame
      exact ⟨d, h.holds, h.bytes⟩

theorem PipeInv.exact (h : PipeInv s d) : PipeExact s := by
  have hle := h.holds.le
  have hsize := h.holds.size
  have hd : (BitVec.ofNat 16 d).toNat = d := by
    rw [BitVec.toNat_ofNat, Nat.mod_eq_of_lt (by omega)]
  have hlength : s.read.length + d = s.written.length := by
    rw [h.bytes, List.length_append, unread, RingBuffer.contents_length]
  refine ⟨⟨h.holds.read, h.holds.write⟩, ⟨_, h.holds.cursorDistance, by omega, by omega⟩,
    h.bytes ▸ List.prefix_append _ _, fun thread numBytes bufferAddr => ?_, fun numBytes => ?_⟩
  · obtain ⟨fuel', r', hrun', hr⟩ := write_cases thread numBytes bufferAddr h.holds
    have hunique {fuel r} (hrun : writeProcessPipe thread fuel numBytes bufferAddr s.ring =
        some r) : r = r' := writeProcessPipe_unique hrun hrun'
    refine ⟨⟨fuel', r', hrun'⟩, fun fuel r hrun a ha => ?_, fun fuel r hrun a ha => ?_,
      fun fuel r hrun => ?_, fun fuel e t hrun => ?_⟩
    all_goals obtain rfl := hunique hrun
    · obtain ⟨-, -, hwrote⟩ | ⟨-, -, hsame⟩ := hr
      · exact (hwrote.accessed a ha).resolve_left List.not_mem_nil
      · rw [hsame] at ha
        cases ha
    · obtain ⟨-, -, hwrote⟩ | ⟨-, -, hsame⟩ := hr
      · exact hwrote.outside a ha
      · rw [hsame]
    · obtain ⟨hfits, hok, -⟩ | ⟨hbig, ⟨e, he⟩, -⟩ := hr
      · exact iff_of_true hok (by omega)
      · exact iff_of_false (by rw [he]; nofun) (by omega)
    · obtain ⟨-, hok, -⟩ | ⟨-, -, hsame⟩ := hr
      · cases hok
      · obtain rfl := hsame
        rfl
  · obtain ⟨fuel', r', hrun', hr⟩ := read_cases numBytes h.holds
    have hunique {fuel r} (hrun : readPipe fuel numBytes s.ring = some r) : r = r' :=
      readPipe_unique hrun hrun'
    refine ⟨⟨fuel', r', hrun'⟩, fun fuel r hrun a ha => ?_, fun fuel r hrun a ha => ?_,
      fun fuel r hrun => ?_, fun fuel e t hrun => ?_⟩
    all_goals obtain rfl := hunique hrun
    · obtain ⟨-, -, hgot⟩ | ⟨-, -, hsame⟩ := hr
      · exact (hgot.accessed a ha).resolve_left List.not_mem_nil
      · rw [hsame] at ha
        cases ha
    · obtain ⟨-, -, hgot⟩ | ⟨-, -, hsame⟩ := hr
      · rw [hgot.memory]
      · rw [hsame]
    · obtain ⟨hfits, hok, -⟩ | ⟨hbig, ⟨e, he⟩, -⟩ := hr
      · exact iff_of_true hok (by omega)
      · exact iff_of_false (by rw [he]; nofun) (by omega)
    · obtain ⟨-, hok, -⟩ | ⟨-, -, hsame⟩ := hr
      · cases hok
      · obtain rfl := hsame
        rfl

/-- **Pipes.** In every run from an empty pipe whose accepted writes are plain, the pipe is
exact. -/
theorem pipe_exact (hs : Run.Reachable Empty (PipeStep Plain) s) : PipeExact s := by
  have hinv : ∃ d, PipeInv s d := by
    refine hs.invariant (I := fun s => ∃ d, PipeInv s d)
      (fun s h => ⟨0, ⟨h.size, h.inside, ?_, .inl ⟨?_, ?_⟩⟩, ?_⟩)
      fun s s' ⟨d, h⟩ hstep => h.step hstep
    · rw [← h.cursors]
      exact h.inside
    · rw [h.cursors]
    · rw [h.cursors]
      rfl
    · rw [h.nothing.1, h.nothing.2]
      rfl
  obtain ⟨d, hinv⟩ := hinv
  exact hinv.exact

end Runs

/-- A pipe of eight bytes. -/
def eightBytes : PipeRun :=
  ⟨⟨⟨0, 8, ⟨0, false⟩, ⟨0, false⟩, 1, 0⟩, fun _ => 0⟩, [], []⟩

theorem eightBytes_empty : Empty eightBytes := ⟨by decide, rfl, by decide, rfl, rfl⟩

theorem pipe_exact_eightBytes : ∃ s, s.written = [0xff, 0xff] ∧ PipeExact s :=
  ⟨_, rfl, pipe_exact (.next (.start eightBytes_empty)
    (@PipeStep.write _ _ (fun _ => 0xff) 2 2 0 _
      ⟨fun h => absurd h (by decide), fun h => absurd h (by decide)⟩ rfl))⟩

/-- Four bytes come out as two of them and two zeros. -/
theorem fourBytes_cleared : ¬ ∀ s, Run.Reachable Empty (PipeStep fun _ _ _ _ => True) s →
    PipeExact s := by
  intro h
  have hrun : Run.Reachable Empty (PipeStep fun _ _ _ _ => True) _ :=
    .next (.next (.start eightBytes_empty)
      (@PipeStep.write _ _ (fun _ => 0xff) 2 4 0 _ trivial rfl))
      (@PipeStep.read _ _ 2 4 _ rfl)
  have hfifo := (h _ hrun).fifo
  exact absurd hfifo (by decide)

end Mikage.DSP
