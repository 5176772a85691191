import Mathlib
import Mikage.Framework.Exceptions

/-!
# Windows on files

A `FileView` or a `SubFile` shows part of another file, which may be such a window itself. Each
layer compares the end of a request with its size and adds its own offset, in 64 bits.

- `PXI.File`, `FS.File`: the files of the two processes, windows on windows on a file of the host.
- `Within`, `position`: where a request lies, with sums that do not wrap.
- `Slips`: the requests for which a sum wraps, or which end at an empty view, and which no layer
  rejects.
- `exact_iff`: all the others, and only they, stay within every window and move the bytes at the sum
  of the offsets.
-/

namespace Mikage

abbrev U32 := BitVec 32
abbrev U64 := BitVec 64

/-! ## Files of the host -/

/-- A file of the host. Positions in it are signed. -/
structure HostFile where
  data : List UInt8
  small : data.length < 2 ^ 63

namespace HostFile

def seek (position : U64) : Except Exception Nat :=
  if position.toNat < 2 ^ 63 then .ok position.toNat else .error (.runtimeError "seekg")

def read (file : HostFile) (offset : U64) (numBytes : U32) : Except Exception (List UInt8) := do
  let position ← seek offset
  -- The stream throws at the end of the file, but not when there is nothing to read.
  if numBytes = 0 ∨ position + numBytes.toNat ≤ file.data.length then
    pure ((file.data.drop position).take numBytes.toNat)
  else throw (.runtimeError "read")

/-- The contents with some bytes replaced. -/
def patch (data : List UInt8) (position : Nat) (bytes : List UInt8) : List UInt8 :=
  data.take position ++ bytes ++ data.drop (position + bytes.length)

/-- The bytes of a PXI buffer. -/
def bytesOf (numBytes : U32) (input : Nat → UInt8) : List UInt8 :=
  (List.range numBytes.toNat).map input

/-- The contents afterwards. -/
def overwrite (file : HostFile) (offset : U64) (numBytes : U32) (input : Nat → UInt8) :
    Except Exception (List UInt8) := do
  let position ← seek offset
  let bytesLeft : Int := file.data.length - position
  if bytesLeft < numBytes.toNat then throw (.invalid "Kernel panic:")
  else pure (patch file.data position (bytesOf numBytes input))

end HostFile

/-! ## The files of PXI -/

namespace PXI

inductive File where
  | host (file : HostFile)
  | view (file : File) (offset : U64) (numBytes : U32)

namespace File

def getSize : File → U64
  | host file => BitVec.ofNat 64 file.data.length
  | view _ _ numBytes => numBytes.setWidth 64

def «open» : File → Except Exception Unit
  | host _ => .ok ()
  | view file offset numBytes =>
    if offset + numBytes.setWidth 64 > file.getSize then
      .error (.invalid "Attempted to open FileView at range exceeding the original file size")
    else file.open

def read : File → U64 → U32 → Except Exception (List UInt8)
  | host file, offset, numBytes => file.read offset numBytes
  | view file offset numBytes, offsetInView, bytesToRead =>
    if numBytes = 0 then .ok []
    else if offsetInView + bytesToRead.setWidth 64 > numBytes.setWidth 64 then
      .error (.runtimeError "Requested reading more bytes than there are in this file view")
    else file.read (offset + offsetInView) bytesToRead

def overwrite : File → U64 → U32 → (Nat → UInt8) → Except Exception (List UInt8)
  | host file, offset, numBytes, input => file.overwrite offset numBytes input
  | view file offset numBytes, offsetInView, bytesToWrite, input =>
    if offsetInView + bytesToWrite.setWidth 64 > numBytes.setWidth 64 then
      .error (.invalid "Kernel panic:")
    else file.overwrite (offset + offsetInView) bytesToWrite input

/-! ### Where a request lies -/

/-- The bytes at the bottom of the stack. -/
def contents : File → List UInt8
  | host file => file.data
  | view file _ _ => file.contents

def position : File → Nat → Nat
  | host _, x => x
  | view file offset _, x => file.position (x + offset.toNat)

/-- `n` bytes from `x` on lie within every window. -/
def Within : File → (x n : Nat) → Prop
  | host _, _, _ => True
  | view file offset numBytes, x, n =>
    x + n ≤ numBytes.toNat ∧ file.Within (x + offset.toNat) n

inductive Op where
  | read
  | overwrite
  deriving DecidableEq

/-- The comparisons let the request through, as they are made in 64 bits. -/
def Passes (op : Op) : File → (x n : Nat) → Prop
  | host file, x, n =>
    x % 2 ^ 64 < 2 ^ 63 ∧ (x % 2 ^ 64 + n ≤ file.data.length ∨ op = .read ∧ n = 0)
  | view file offset numBytes, x, n =>
    op = .read ∧ numBytes = 0 ∨
      (x + n) % 2 ^ 64 ≤ numBytes.toNat ∧ file.Passes op (x + offset.toNat) n

/-- The request gets through though a sum wraps on the way, or meets an empty view. -/
def Slips (op : Op) : File → (x n : Nat) → Prop
  | host file, x, n => n ≠ 0 ∧ 2 ^ 64 ≤ x ∧ (host file).Passes op x n
  | view file offset numBytes, x, n =>
    if op = .read ∧ numBytes = 0 then ¬ (x + n = 0 ∧ file.Within (x + offset.toNat) n)
    else if x + n < 2 ^ 64 then x + n ≤ numBytes.toNat ∧ file.Slips op (x + offset.toNat) n
    else (x + n) % 2 ^ 64 ≤ numBytes.toNat ∧ file.Passes op (x + offset.toNat) n

end File

end PXI

/-! ## One window -/

section Window

variable {α : Type} {inner : Except Exception α} {e : Exception} {B : α → Prop} {W S A c : Prop}
  {x n size : Nat}

/-- A layer that compares in 64 bits, over one for which the law is known. -/
theorem window_iff [Decidable c] (hsize : size < 2 ^ 64) (hc : c ↔ ¬ (x + n) % 2 ^ 64 ≤ size)
    (hinner : (∀ a, inner = .ok a → W ∧ B a) ↔ ¬ S) (hpass : (∃ a, inner = .ok a) ↔ A) :
    (∀ a, (if c then .error e else inner) = .ok a → (x + n ≤ size ∧ W) ∧ B a) ↔
      ¬ if x + n < 2 ^ 64 then x + n ≤ size ∧ S else (x + n) % 2 ^ 64 ≤ size ∧ A := by
  by_cases hrej : c
  · have hout := hc.1 hrej
    have hin : ¬ x + n ≤ size := by
      intro h
      exact hout (by rw [Nat.mod_eq_of_lt (by omega)]; exact h)
    rw [if_pos hrej]
    constructor
    · intro _
      split
      · exact fun h => hin h.1
      · exact fun h => hout h.1
    · intro _ a h
      cases h
  · have hok : (x + n) % 2 ^ 64 ≤ size := by
      by_contra h
      exact hrej (hc.2 h)
    rw [if_neg hrej]
    by_cases hwrap : x + n < 2 ^ 64
    · have hin : x + n ≤ size := by rwa [Nat.mod_eq_of_lt hwrap] at hok
      rw [if_pos hwrap]
      simp only [hin, true_and]
      exact hinner
    · have hin : ¬ x + n ≤ size := by omega
      rw [if_neg hwrap]
      simp only [hok, hin, false_and, true_and]
      rw [← hpass]
      simp

/-- Whether the request gets through such a layer. -/
theorem window_passes [Decidable c] (hc : c ↔ ¬ (x + n) % 2 ^ 64 ≤ size)
    (hpass : (∃ a, inner = .ok a) ↔ A) :
    (∃ a, (if c then .error e else inner) = .ok a) ↔ (x + n) % 2 ^ 64 ≤ size ∧ A := by
  by_cases hrej : c
  · have hout := hc.1 hrej
    rw [if_pos hrej]
    simp only [hout, false_and, iff_false]
    intro h
    obtain ⟨a, h⟩ := h
    cases h
  · have hok : (x + n) % 2 ^ 64 ≤ size := by
      by_contra h
      exact hrej (hc.2 h)
    rw [if_neg hrej]
    simp only [hok, true_and]
    exact hpass

/-- The comparison of a layer, in numbers. -/
theorem sum_gt_iff (x : Nat) (n : U32) (size : U64) :
    BitVec.ofNat 64 x + n.setWidth 64 > size ↔ ¬ (x + n.toNat) % 2 ^ 64 ≤ size.toNat := by
  rw [gt_iff_lt, BitVec.lt_def, BitVec.toNat_add, BitVec.toNat_ofNat, BitVec.toNat_setWidth]
  have hn := n.isLt
  omega

theorem offset_add_ofNat (offset : U64) (x : Nat) :
    offset + BitVec.ofNat 64 x = BitVec.ofNat 64 (x + offset.toNat) := by
  rw [← BitVec.toNat_inj, BitVec.toNat_add, BitVec.toNat_ofNat, BitVec.toNat_ofNat]
  omega

end Window

/-! ## A file of the host -/

namespace HostFile

variable {file : HostFile} {bytes : List UInt8} {input : Nat → UInt8}

theorem read_ok_iff {x : Nat} {n : U32} :
    file.read (BitVec.ofNat 64 x) n = .ok bytes ↔
      (PXI.File.host file).Passes .read x n.toNat ∧
        bytes = (file.data.drop (x % 2 ^ 64)).take n.toNat := by
  have hzero : n = 0 ↔ n.toNat = 0 := by rw [← BitVec.toNat_inj]; rfl
  simp only [read, seek, BitVec.toNat_ofNat, PXI.File.Passes, true_and]
  split
  next hpos =>
    simp only [hpos, true_and, bind, Except.bind, hzero, Or.comm]
    split
    next hin =>
      simp only [hin, pure, Except.pure, Except.ok.injEq, true_and]
      exact eq_comm
    next hin =>
      simp only [hin, false_and, iff_false]
      exact fun h => by cases h
  next hpos =>
    simp only [hpos, false_and, iff_false]
    exact fun h => by cases h

theorem overwrite_ok_iff {x : Nat} {n : U32} {data : List UInt8} :
    file.overwrite (BitVec.ofNat 64 x) n input = .ok data ↔
      (PXI.File.host file).Passes .overwrite x n.toNat ∧
        data = patch file.data (x % 2 ^ 64) (bytesOf n input) := by
  simp only [overwrite, seek, BitVec.toNat_ofNat, PXI.File.Passes, reduceCtorEq, false_and,
    or_false]
  split
  next hpos =>
    simp only [hpos, true_and, bind, Except.bind]
    split
    next hout =>
      have hout : ¬ x % 2 ^ 64 + n.toNat ≤ file.data.length := by omega
      simp only [hout, false_and, iff_false]
      exact fun h => by cases h
    next hin =>
      have hin : x % 2 ^ 64 + n.toNat ≤ file.data.length := by omega
      simp only [hin, pure, Except.pure, Except.ok.injEq, true_and]
      exact eq_comm
  next hpos =>
    simp only [hpos, false_and, iff_false]
    exact fun h => by cases h

theorem take_drop_beyond {data : List UInt8} {x : Nat} (h : data.length ≤ x) (n : Nat) :
    (data.drop x).take n = [] := by
  rw [List.drop_eq_nil_of_le h, List.take_nil]

theorem patch_beyond {data bytes : List UInt8} {x : Nat} (h : data.length ≤ x) :
    patch data x bytes = data ++ bytes := by
  rw [patch, List.take_of_length_le h, List.drop_eq_nil_of_le (by omega), List.append_nil]

theorem read_exact (x : Nat) (n : U32) :
    (∀ bytes, file.read (BitVec.ofNat 64 x) n = .ok bytes →
        True ∧ bytes = (file.data.drop x).take n.toNat) ↔
      ¬ (PXI.File.host file).Slips .read x n.toNat := by
  have hsmall := file.small
  simp only [read_ok_iff, PXI.File.Slips, true_and, and_imp]
  by_cases hx : 2 ^ 64 ≤ x
  · rw [take_drop_beyond (x := x) (by omega)]
    constructor
    · intro h hslip
      obtain ⟨hn, -, hpass⟩ := hslip
      have hlen := congrArg List.length (h _ hpass rfl)
      have hin := hpass.2.resolve_right (fun h => hn h.2)
      rw [List.length_take, List.length_drop, List.length_nil] at hlen
      omega
    · intro h bytes hpass hbytes
      have hn : n.toNat = 0 := by
        by_contra hn
        exact h ⟨hn, hx, hpass⟩
      rw [hbytes, hn, List.take_zero]
  · have hmod : x % 2 ^ 64 = x := Nat.mod_eq_of_lt (by omega)
    simp only [hx, hmod, false_and, and_false, not_false_eq_true]
    exact iff_of_true (fun _ _ h => h) trivial

theorem overwrite_exact (x : Nat) (n : U32) (input : Nat → UInt8) :
    (∀ data, file.overwrite (BitVec.ofNat 64 x) n input = .ok data →
        True ∧ data = patch file.data x (bytesOf n input)) ↔
      ¬ (PXI.File.host file).Slips .overwrite x n.toNat := by
  have hsmall := file.small
  have hlen : (bytesOf n input).length = n.toNat := by simp [bytesOf]
  simp only [overwrite_ok_iff, PXI.File.Slips, true_and, and_imp]
  by_cases hx : 2 ^ 64 ≤ x
  · rw [patch_beyond (x := x) (by omega)]
    constructor
    · intro h hslip
      obtain ⟨hn, -, hpass⟩ := hslip
      have heq := congrArg List.length (h _ hpass rfl)
      have hin : x % 2 ^ 64 + n.toNat ≤ file.data.length := by
        simpa [PXI.File.Passes] using hpass.2
      rw [patch, List.length_append, List.length_append, List.length_append, List.length_take,
        List.length_drop, hlen] at heq
      omega
    · intro h data hpass hdata
      have hn : n.toNat = 0 := by
        by_contra hn
        exact h ⟨hn, hx, hpass⟩
      have hempty : bytesOf n input = [] := List.length_eq_zero_iff.1 (hlen.trans hn)
      rw [hdata, hempty, patch]
      simp
  · have hmod : x % 2 ^ 64 = x := Nat.mod_eq_of_lt (by omega)
    simp only [hx, hmod, false_and, and_false, not_false_eq_true]
    exact iff_of_true (fun _ _ h => h) trivial

end HostFile

/-! ## Stacks of views -/

namespace PXI.File

variable {f : File}

theorem read_passes (f : File) (x : Nat) (n : U32) :
    (∃ bytes, f.read (BitVec.ofNat 64 x) n = .ok bytes) ↔ f.Passes .read x n.toNat := by
  induction f generalizing x with
  | host file =>
    simp only [read, HostFile.read_ok_iff]
    simp
  | view file offset numBytes ih =>
    rw [read, Passes]
    by_cases hzero : numBytes = 0
    · simp [hzero]
    · have hc := sum_gt_iff x n (numBytes.setWidth 64)
      rw [BitVec.toNat_setWidth_of_le (by decide)] at hc
      have hzero' : ¬ (Op.read = .read ∧ numBytes = 0) := fun h => hzero h.2
      rw [if_neg hzero, offset_add_ofNat, window_passes hc (ih _), or_iff_right hzero']

theorem read_iff (f : File) (x : Nat) (n : U32) :
    (∀ bytes, f.read (BitVec.ofNat 64 x) n = .ok bytes → f.Within x n.toNat ∧
        bytes = (f.contents.drop (f.position x)).take n.toNat) ↔
      ¬ f.Slips .read x n.toNat := by
  induction f generalizing x with
  | host file => exact HostFile.read_exact x n
  | view file offset numBytes ih =>
    simp only [read, Slips, Within, contents, position, true_and]
    by_cases hzero : numBytes = 0
    · simp only [hzero, if_true]
      constructor
      · intro h
        obtain ⟨⟨hle, hwithin⟩, -⟩ := h [] rfl
        exact not_not.2 ⟨Nat.le_zero.1 hle, hwithin⟩
      · intro h bytes hbytes
        obtain ⟨hnone, hwithin⟩ := not_not.1 h
        cases hbytes
        have hn : n.toNat = 0 := by omega
        refine ⟨⟨Nat.le_of_eq hnone, hwithin⟩, ?_⟩
        rw [hn, List.take_zero]
    · have hc := sum_gt_iff x n (numBytes.setWidth 64)
      rw [BitVec.toNat_setWidth_of_le (by decide)] at hc
      simp only [if_neg hzero]
      rw [offset_add_ofNat]
      exact window_iff (by have := numBytes.isLt; omega) hc (ih _) (read_passes file _ n)

theorem overwrite_passes (f : File) (x : Nat) (n : U32) (input : Nat → UInt8) :
    (∃ data, f.overwrite (BitVec.ofNat 64 x) n input = .ok data) ↔
      f.Passes .overwrite x n.toNat := by
  induction f generalizing x with
  | host file =>
    simp only [overwrite, HostFile.overwrite_ok_iff]
    simp
  | view file offset numBytes ih =>
    have hc := sum_gt_iff x n (numBytes.setWidth 64)
    rw [BitVec.toNat_setWidth_of_le (by decide)] at hc
    have hop : ¬ (Op.overwrite = .read ∧ numBytes = 0) := fun h => by cases h.1
    rw [overwrite, Passes, offset_add_ofNat, window_passes hc (ih _), or_iff_right hop]

theorem overwrite_iff (f : File) (x : Nat) (n : U32) (input : Nat → UInt8) :
    (∀ data, f.overwrite (BitVec.ofNat 64 x) n input = .ok data → f.Within x n.toNat ∧
        data = HostFile.patch f.contents (f.position x) (HostFile.bytesOf n input)) ↔
      ¬ f.Slips .overwrite x n.toNat := by
  induction f generalizing x with
  | host file => exact HostFile.overwrite_exact x n input
  | view file offset numBytes ih =>
    have hc := sum_gt_iff x n (numBytes.setWidth 64)
    rw [BitVec.toNat_setWidth_of_le (by decide)] at hc
    have hop : ¬ (Op.overwrite = .read ∧ numBytes = 0) := fun h => by cases h.1
    simp only [overwrite, Slips, Within, contents, position, if_neg hop]
    rw [offset_add_ofNat]
    exact window_iff (by have := numBytes.isLt; omega) hc (ih _)
      (overwrite_passes file _ n input)

end PXI.File

/-! ## The files of FS -/

namespace FS

inductive File where
  /-- `FilePXI`, which forwards everything to the other process. -/
  | pxi (file : PXI.File)
  /-- `RomfsFile`. -/
  | romfs (ncch : HostFile) (romfsStart : U64) (romfsSize : U32)
  /-- `SubFile`. -/
  | sub (file : File) (offset numBytes : U64)

namespace File

def read : File → U64 → U32 → Except Exception (List UInt8)
  | pxi file, offset, numBytes => file.read offset numBytes
  | romfs ncch romfsStart romfsSize, offset, numBytes => do
    let _ ← HostFile.seek (romfsStart + offset)
    if offset + numBytes.setWidth 64 > romfsSize.setWidth 64 then
      throw (.runtimeError "Read end address exceeds RomFS size")
    else ncch.read (romfsStart + offset) numBytes
  | sub file offset numBytes, subfileOffset, subfileNumBytes =>
    if subfileOffset + subfileNumBytes.setWidth 64 > numBytes then
      .error (.invalid "Attempted to read past sub file boundaries")
    else file.read (offset + subfileOffset) subfileNumBytes

/-- The file `ArchiveNCCHSection` opens for a RomFS: FS skips the header of the section. -/
def openRomFS (file : PXI.File) : File := sub (pxi file) 0x1000 (file.getSize - 0x1000)

/-- Every view in the stack was opened. -/
def Opened : File → Prop
  | pxi file => file.open = .ok ()
  | romfs _ _ _ => True
  | sub file _ _ => file.Opened

def contents : File → List UInt8
  | pxi file => file.contents
  | romfs ncch _ _ => ncch.data
  | sub file _ _ => file.contents

def position : File → Nat → Nat
  | pxi file, x => file.position x
  | romfs _ romfsStart _, x => x + romfsStart.toNat
  | sub file offset _, x => file.position (x + offset.toNat)

def Within : File → (x n : Nat) → Prop
  | pxi file, x, n => file.Within x n
  | romfs _ _ romfsSize, x, n => x + n ≤ romfsSize.toNat
  | sub file offset numBytes, x, n =>
    x + n ≤ numBytes.toNat ∧ file.Within (x + offset.toNat) n

def Passes : File → (x n : Nat) → Prop
  | pxi file, x, n => file.Passes .read x n
  | romfs ncch romfsStart romfsSize, x, n =>
    (x + n) % 2 ^ 64 ≤ romfsSize.toNat ∧
      (PXI.File.host ncch).Passes .read (x + romfsStart.toNat) n
  | sub file offset numBytes, x, n =>
    (x + n) % 2 ^ 64 ≤ numBytes.toNat ∧ file.Passes (x + offset.toNat) n

def Slips : File → (x n : Nat) → Prop
  | pxi file, x, n => file.Slips .read x n
  | romfs ncch romfsStart romfsSize, x, n =>
    if x + n < 2 ^ 64 then
      x + n ≤ romfsSize.toNat ∧ (PXI.File.host ncch).Slips .read (x + romfsStart.toNat) n
    else
      (x + n) % 2 ^ 64 ≤ romfsSize.toNat ∧
        (PXI.File.host ncch).Passes .read (x + romfsStart.toNat) n
  | sub file offset numBytes, x, n =>
    if x + n < 2 ^ 64 then x + n ≤ numBytes.toNat ∧ file.Slips (x + offset.toNat) n
    else (x + n) % 2 ^ 64 ≤ numBytes.toNat ∧ file.Passes (x + offset.toNat) n

/-- A read that is accepted lies within every window and returns the bytes there. -/
def ReadExact (f : File) (offset : U64) (numBytes : U32) : Prop :=
  ∀ bytes, f.read offset numBytes = .ok bytes → f.Within offset.toNat numBytes.toNat ∧
    bytes = (f.contents.drop (f.position offset.toNat)).take numBytes.toNat

/-- The seek before the comparison fails only where the read would. -/
theorem romfs_read (ncch : HostFile) (romfsStart offset : U64) (romfsSize numBytes : U32) :
    ∀ bytes, (romfs ncch romfsStart romfsSize).read offset numBytes = .ok bytes ↔
      (if offset + numBytes.setWidth 64 > romfsSize.setWidth 64 then
        .error (.runtimeError "Read end address exceeds RomFS size")
      else ncch.read (romfsStart + offset) numBytes) = .ok bytes := by
  intro bytes
  rw [read]
  cases hseek : HostFile.seek (romfsStart + offset) with
  | ok position => rfl
  | error e =>
    rw [HostFile.read, hseek]
    constructor
    · intro h
      cases h
    · intro h
      split at h
      · cases h
      · cases h

theorem read_passes (f : File) (x : Nat) (n : U32) :
    (∃ bytes, f.read (BitVec.ofNat 64 x) n = .ok bytes) ↔ f.Passes x n.toNat := by
  induction f generalizing x with
  | pxi file => exact file.read_passes x n
  | romfs ncch romfsStart romfsSize =>
    have hc := sum_gt_iff x n (romfsSize.setWidth 64)
    rw [BitVec.toNat_setWidth_of_le (by decide)] at hc
    simp only [romfs_read]
    rw [Passes, offset_add_ofNat]
    exact window_passes hc ((PXI.File.host ncch).read_passes _ n)
  | sub file offset numBytes ih =>
    rw [read, Passes, offset_add_ofNat]
    exact window_passes (sum_gt_iff x n numBytes) (ih _)

theorem read_iff (f : File) (x : Nat) (n : U32) :
    (∀ bytes, f.read (BitVec.ofNat 64 x) n = .ok bytes → f.Within x n.toNat ∧
        bytes = (f.contents.drop (f.position x)).take n.toNat) ↔ ¬ f.Slips x n.toNat := by
  induction f generalizing x with
  | pxi file => exact file.read_iff x n
  | romfs ncch romfsStart romfsSize =>
    have hc := sum_gt_iff x n (romfsSize.setWidth 64)
    rw [BitVec.toNat_setWidth_of_le (by decide)] at hc
    have hiff := window_iff (e := .runtimeError "Read end address exceeds RomFS size")
      (by have := romfsSize.isLt; omega) hc
      ((PXI.File.host ncch).read_iff (x + romfsStart.toNat) n)
      ((PXI.File.host ncch).read_passes (x + romfsStart.toNat) n)
    rw [Slips]
    simp only [romfs_read, Within, contents, position]
    rw [offset_add_ofNat]
    simpa only [PXI.File.read, PXI.File.Within, PXI.File.contents, PXI.File.position,
      and_true] using hiff
  | sub file offset numBytes ih =>
    rw [Slips]
    simp only [read, Within, contents, position]
    rw [offset_add_ofNat]
    exact window_iff numBytes.isLt (sum_gt_iff x n numBytes) (ih _) (read_passes file _ n)

/-- A write that is accepted lies within every window and replaces the bytes there. -/
def OverwriteExact (f : PXI.File) (offset : U64) (numBytes : U32) (input : Nat → UInt8) : Prop :=
  ∀ data, f.overwrite offset numBytes input = .ok data →
    f.Within offset.toNat numBytes.toNat ∧
      data = HostFile.patch f.contents (f.position offset.toNat) (HostFile.bytesOf numBytes input)

/-- Every request on a stack of windows is exact unless it slips through. -/
theorem exact_iff (f : File) (g : PXI.File) (offset : U64) (numBytes : U32)
    (input : Nat → UInt8) :
    (f.ReadExact offset numBytes ↔ ¬ f.Slips offset.toNat numBytes.toNat) ∧
      (OverwriteExact g offset numBytes input ↔
        ¬ g.Slips .overwrite offset.toNat numBytes.toNat) := by
  have hread := f.read_iff offset.toNat numBytes
  have hwrite := g.overwrite_iff offset.toNat numBytes input
  rw [BitVec.ofNat_toNat, BitVec.setWidth_eq] at hread hwrite
  exact ⟨hread, hwrite⟩

/-- The bytes before a window are there for a request at the end of the 64-bit range: of a RomFS,
the header that FS skips. -/
theorem openRomFS_header (file : HostFile) (h : 0x1000 ≤ file.data.length) :
    (openRomFS (.host file)).read (-0x1000) 0x1000 = .ok (file.data.take 0x1000) := by
  have hsum : (-0x1000 : U64) + (0x1000 : U32).setWidth 64 = 0 := rfl
  have hoffset : (0x1000 : U64) + -0x1000 = 0 := rfl
  have hn : (0x1000 : U32).toNat = 0x1000 := rfl
  have hzero : ¬ (0 : U64) > (PXI.File.host file).getSize - 0x1000 := by
    rw [gt_iff_lt, BitVec.lt_def]
    exact Nat.not_lt_zero _
  rw [openRomFS, read, hsum, if_neg hzero, hoffset, read, PXI.File.read, HostFile.read]
  have hseek : HostFile.seek 0 = .ok 0 := rfl
  simp only [hseek, bind, Except.bind, hn, Nat.zero_add, h, or_true, if_true, List.drop_zero]
  rfl

/-- Four bytes of the host, of which a view shows the last two. -/
def lastTwo : File :=
  pxi (.view (.host { data := [10, 11, 12, 13], small := by decide }) 2 2)

/-- Two bytes from `2 ^ 64 - 2` on are the two before the view. -/
theorem not_read_exact :
    ¬ ∀ (f : File) (offset : U64) (numBytes : U32),
      f.Opened → f.ReadExact offset numBytes := by
  intro h
  obtain ⟨hwithin, -⟩ := h lastTwo 0xfffffffffffffffe 2 rfl [10, 11] rfl
  have hwithin : 0xfffffffffffffffe + 2 ≤ 2 := hwithin.1
  omega

end File

end FS

end Mikage
