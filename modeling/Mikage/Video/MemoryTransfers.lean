import Mathlib
import Mikage.Video.DisplayTransfer

/-!
# Memory fills and texture copies

The transfers that move bytes without looking at them, with what the renderer does around them. A
byte of a render target that was last rendered on the host is in the guest's memory only after a
flush; a transfer that invalidates the target without one loses it. `Guest.read` is what the guest
gets to see.
-/

namespace Mikage.GPU

/-! ## Render targets -/

/-- `Resource::State`. -/
inductive ResourceState where
  | invalidated | stagingUpToDate | hostUpToDate | synchronized
  deriving DecidableEq, Repr

structure RenderTarget where
  start : ℕ
  numBytes : ℕ
  state : ResourceState

/-- The memory, and the encoded contents of the render targets at the addresses that they are at.
No two targets in the state `hostUpToDate` overlap. -/
structure Guest where
  memory : Memory
  host : Memory
  targets : List RenderTarget

namespace RenderTarget

def Contains (t : RenderTarget) (a : ℕ) : Prop := t.start ≤ a ∧ a < t.start + t.numBytes

instance (t : RenderTarget) (a : ℕ) : Decidable (t.Contains a) := inferInstanceAs (Decidable (_ ∧ _))

def Overlaps (t : RenderTarget) (start numBytes : ℕ) : Prop :=
  ¬ (t.start + t.numBytes ≤ start ∨ start + numBytes ≤ t.start)

instance (t : RenderTarget) (start numBytes : ℕ) : Decidable (t.Overlaps start numBytes) :=
  inferInstanceAs (Decidable (¬ _))

/-- The target was last rendered on the host. -/
def Ahead (t : RenderTarget) : Prop := t.state = .hostUpToDate

instance (t : RenderTarget) : Decidable t.Ahead := inferInstanceAs (Decidable (_ = _))

end RenderTarget

namespace Guest

variable (g : Guest) (start numBytes : ℕ)

/-- The host is ahead of the memory at an address. -/
def Ahead (a : ℕ) : Prop := ∃ t ∈ g.targets, t.Ahead ∧ t.Contains a

instance (a : ℕ) : Decidable (g.Ahead a) := inferInstanceAs (Decidable (∃ t ∈ _, _))

/-- What a read gives: a hook flushes the target first. -/
def read (a : ℕ) : BitVec 8 := if g.Ahead a then g.host a else g.memory a

/-- `FlushRange`: every target that overlaps the range is written back as a whole. -/
def flushRange : Guest :=
  { g with
    memory := fun a => if ∃ t ∈ g.targets, t.Ahead ∧ t.Overlaps start numBytes ∧ t.Contains a
      then g.host a else g.memory a
    targets := g.targets.map fun t => if t.Ahead ∧ t.Overlaps start numBytes
      then { t with state := .synchronized } else t }

/-- `InvalidateRange`: every target that overlaps the range is dropped as a whole. -/
def invalidateRange : Guest :=
  { g with
    targets := g.targets.map fun t => if t.Overlaps start numBytes
      then { t with state := .invalidated } else t }

end Guest

/-! ## Memory fills -/

/-- An entry of `memory_fill_config`. -/
structure MemoryFillConfig where
  addressStart : BitVec 32
  addressEnd : BitVec 32
  value : BitVec 32
  trigger : Bool
  fill24Bit : Bool
  fill32Bit : Bool

namespace MemoryFillConfig

variable (c : MemoryFillConfig)

def startAddress : ℕ := (c.addressStart * 8).toNat
def endAddress : ℕ := (c.addressEnd * 8).toNat
def numBytes : ℕ := (c.addressEnd * 8 - c.addressStart * 8).toNat

/-- The bytes of the value. -/
def pattern : List (BitVec 8) :=
  if c.fill24Bit then [c.value.extractLsb' 0 8, c.value.extractLsb' 8 8, c.value.extractLsb' 16 8]
  else if c.fill32Bit then [c.value.extractLsb' 0 8, c.value.extractLsb' 8 8,
    c.value.extractLsb' 16 8, c.value.extractLsb' 24 8]
  else [c.value.extractLsb' 0 8, c.value.extractLsb' 8 8]

/-- How often the loops run. The one for 32 bits counts words, the other two go on until the offset
is not below the number of bytes. -/
def rounds : ℕ :=
  if c.fill24Bit then (c.numBytes + 2) / 3
  else if c.fill32Bit then c.numBytes / 4
  else (c.numBytes + 1) / 2

def fillLoop (mem : Memory) : Memory :=
  (List.range c.rounds).foldl
    (fun mem i => writeBytes mem (c.startAddress + i * c.pattern.length) c.pattern) mem

def Triggered : Prop := c.addressStart ≠ 0 ∧ c.trigger = true

instance : Decidable c.Triggered := inferInstanceAs (Decidable (_ ∧ _))

end MemoryFillConfig

/-- The effect of a memory fill on the guest. -/
def memoryFill (backed : ℕ → ℕ → Bool) (c : MemoryFillConfig) (g : Guest) : Except Fault Guest :=
  if c.Triggered then do
    let g := g.invalidateRange c.startAddress c.numBytes
    lookup backed c.startAddress c.numBytes
    pure { g with memory := c.fillLoop g.memory }
  else pure g

/-! ## Texture copies -/

/-- `display_transfer_config` with `texture_copy`; the addresses are decoded. -/
structure TextureCopyConfig where
  inputAddress : ℕ
  outputAddress : ℕ
  totalBytesToCopy : BitVec 32
  inputSizeWithPadding : BitVec 32
  outputSizeWithPadding : BitVec 32
  convertToTiled : Bool
  disableUntiling : Bool
  outputTiled : Bool
  scalingMode : BitVec 2

namespace TextureCopyConfig

variable (c : TextureCopyConfig)

def inputBytesPerLine : ℕ := c.inputSizeWithPadding.toNat % 2 ^ 16 * 16
def outputBytesPerLine : ℕ := c.outputSizeWithPadding.toNat % 2 ^ 16 * 16
def inputPaddingBytesPerLine : ℕ := c.inputSizeWithPadding.toNat / 2 ^ 16 * 16
def outputPaddingBytesPerLine : ℕ := c.outputSizeWithPadding.toNat / 2 ^ 16 * 16
def inputTotalBytesPerLine : ℕ := c.inputBytesPerLine + c.inputPaddingBytesPerLine
def outputTotalBytesPerLine : ℕ := c.outputBytesPerLine + c.outputPaddingBytesPerLine
def numLines : ℕ := c.totalBytesToCopy.toNat / c.inputBytesPerLine

def inputMemorySize : ℕ :=
  u32 (u32 (c.numLines * c.inputTotalBytesPerLine) + (2 ^ 32 - c.inputPaddingBytesPerLine))

def outputMemorySize : ℕ :=
  u32 (u32 (c.numLines * c.outputTotalBytesPerLine) + (2 ^ 32 - c.outputPaddingBytesPerLine))

/-- The size of the flush that is meant for the padding of the output. -/
def paddingFlushSize : ℕ :=
  u32 (u32 (c.numLines * c.outputTotalBytesPerLine) + (2 ^ 32 - c.outputBytesPerLine))

/-- The division comes before the checks. -/
def checks : Except Fault Unit :=
  if c.inputBytesPerLine = 0 then throw .divisionByZero
  else if u32 (c.numLines * c.inputBytesPerLine) ≠ c.totalBytesToCopy.toNat then
    throw (.thrown (.runtimeError "Attempted to perform unaligned texture copy"))
  else if c.totalBytesToCopy.toNat % 16 ≠ 0 then
    throw (.thrown (.runtimeError "Number of bytes to copy for TextureCopy was not aligned"))
  else if c.totalBytesToCopy = 0 then
    throw (.thrown (.runtimeError "Attempted to perform zero-sized texture copy"))
  else if c.inputBytesPerLine = 0 ∨ c.outputBytesPerLine = 0 then
    throw (.thrown (.runtimeError "Attempted to perform texture copy with zero line size"))
  else if c.convertToTiled ∨ c.disableUntiling then
    throw (.thrown (.runtimeError "Attempted to set tiling flags in a texture copy"))
  else if c.outputTiled then
    throw (.thrown (.runtimeError "Attempted to use 32x32 tiling mode in a texture copy"))
  else if c.scalingMode ≠ 0 then
    throw (.thrown (.runtimeError "Attempted to use scaling in a texture copy"))
  else pure ()

/-- The flushes before the copy. The second is for the padding of the output, but is given the
address of the input. -/
def flushes (g : Guest) : Guest :=
  let g := g.flushRange c.inputAddress c.inputMemorySize
  if c.outputPaddingBytesPerLine ≠ 0 then
    g.flushRange (c.inputAddress + c.outputBytesPerLine) c.paddingFlushSize
  else g

/-- The bytes of a line of the input. -/
def inputLine (mem : Memory) (y : ℕ) : List (BitVec 8) :=
  (List.range c.inputBytesPerLine).map fun k =>
    mem (c.inputAddress + u32 (y * c.inputTotalBytesPerLine) + k)

def copyLoop (mem : Memory) : Memory :=
  (List.range c.numLines).foldl (fun mem y =>
    writeBytes mem (c.outputAddress + u32 (y * c.outputTotalBytesPerLine)) (c.inputLine mem y)) mem

end TextureCopyConfig

def textureCopy (backed : ℕ → ℕ → Bool) (c : TextureCopyConfig) (g : Guest) :
    Except Fault Guest := do
  c.checks
  let g := (c.flushes g).invalidateRange c.outputAddress c.outputMemorySize
  lookup backed c.inputAddress c.inputMemorySize
  lookup backed c.outputAddress c.outputMemorySize
  if c.inputBytesPerLine ≠ c.outputBytesPerLine then
    throw (.thrown (.runtimeError "TextureCopy with differing line sizes not implemented"))
  pure { g with memory := c.copyLoop g.memory }

/-! ## What the renderer does to the guest's view -/

section Targets

variable {g : Guest} {start numBytes a : ℕ}

/-- The targets that are still ahead after a flush. -/
theorem ahead_flushRange (P : RenderTarget → Prop) :
    (∃ t ∈ (g.flushRange start numBytes).targets, t.Ahead ∧ P t) ↔
      ∃ t ∈ g.targets, t.Ahead ∧ ¬ t.Overlaps start numBytes ∧ P t := by
  simp only [Guest.flushRange, List.mem_map, exists_exists_and_eq_and]
  refine exists_congr fun t => and_congr_right fun _ => ?_
  split
  next h => exact iff_of_false (fun h' => nomatch h'.1) fun h' => h'.2.1 h.2
  next h => exact ⟨fun h' => ⟨h'.1, fun ho => h ⟨h'.1, ho⟩, h'.2⟩, fun h' => ⟨h'.1, h'.2.2⟩⟩

theorem ahead_invalidateRange : (g.invalidateRange start numBytes).Ahead a ↔
    ∃ t ∈ g.targets, t.Ahead ∧ ¬ t.Overlaps start numBytes ∧ t.Contains a := by
  simp only [Guest.Ahead, Guest.invalidateRange, List.mem_map, exists_exists_and_eq_and]
  refine exists_congr fun t => and_congr_right fun _ => ?_
  split
  next h => exact iff_of_false (fun h' => nomatch h'.1) fun h' => h'.2.1 h
  next h => exact ⟨fun h' => ⟨h'.1, h, h'.2⟩, fun h' => ⟨h'.1, h'.2.2⟩⟩

/-- What an invalidation leaves the guest to see. -/
theorem read_invalidateRange (g : Guest) (start numBytes a : ℕ) :
    (g.invalidateRange start numBytes).read a =
      if ∃ t ∈ g.targets, t.Ahead ∧ ¬ t.Overlaps start numBytes ∧ t.Contains a
      then g.host a else g.memory a := by
  rw [Guest.read]
  simp only [ahead_invalidateRange]
  rfl

theorem overlaps_of_contains {t : RenderTarget} (ht : t.Contains a) (h : start ≤ a)
    (h' : a < start + numBytes) : t.Overlaps start numBytes := by
  obtain ⟨h1, h2⟩ := ht
  rw [RenderTarget.Overlaps]
  omega

end Targets

/-! ## Fills -/

section Fills

variable {c : MemoryFillConfig} {backed : ℕ → ℕ → Bool} {g g' : Guest} {a : ℕ}
  {targets : List RenderTarget}

/-- A pattern that is written again and again. -/
theorem repeat_apply (mem : Memory) (start : ℕ) {pattern : List (BitVec 8)}
    (hp : 0 < pattern.length) (n a : ℕ) :
    (List.range n).foldl (fun mem i => writeBytes mem (start + i * pattern.length) pattern) mem a =
      if start ≤ a ∧ a < start + n * pattern.length
      then pattern.getD ((a - start) % pattern.length) 0 else mem a := by
  induction n with
  | zero => rw [if_neg (by omega)]; rfl
  | succ n ih =>
    rw [List.range_succ, List.foldl_append, List.foldl_cons, List.foldl_nil, writeBytes, ih,
      Nat.succ_mul]
    by_cases hlast : start + n * pattern.length ≤ a ∧
        a < start + n * pattern.length + pattern.length
    · have hmod : (a - start) % pattern.length = a - (start + n * pattern.length) := by
        have hsub : a - start = a - (start + n * pattern.length) + n * pattern.length := by omega
        rw [hsub, Nat.add_mul_mod_self_right, Nat.mod_eq_of_lt (by omega)]
      rw [if_pos hlast, if_pos ⟨by omega, by omega⟩, hmod]
    · rw [if_neg hlast]
      by_cases hin : start ≤ a ∧ a < start + n * pattern.length
      · rw [if_pos hin, if_pos ⟨hin.1, by omega⟩]
      · rw [if_neg hin, if_neg (by omega)]

/-- The bytes that the loops write. -/
def MemoryFillConfig.written (c : MemoryFillConfig) : ℕ := c.rounds * c.pattern.length

theorem pattern_length (c : MemoryFillConfig) :
    c.pattern.length = if c.fill24Bit then 3 else if c.fill32Bit then 4 else 2 := by
  rw [MemoryFillConfig.pattern]
  split
  · rfl
  · split <;> rfl

theorem pattern_pos (c : MemoryFillConfig) : 0 < c.pattern.length := by
  rw [pattern_length]
  split
  · decide
  · split <;> decide

theorem numBytes_mod (c : MemoryFillConfig) : c.numBytes % 8 = 0 := by
  have height : (8 : BitVec 32).toNat = 8 := rfl
  rw [MemoryFillConfig.numBytes, BitVec.toNat_sub, BitVec.toNat_mul, BitVec.toNat_mul, height]
  omega

/-- Only the loop for 24 bits writes more than it should. -/
theorem written_eq (c : MemoryFillConfig) : c.numBytes ≤ c.written ∧
    (c.written = c.numBytes ↔ (c.fill24Bit = true → 3 ∣ c.numBytes)) := by
  have hmod := numBytes_mod c
  rw [MemoryFillConfig.written, MemoryFillConfig.rounds, pattern_length]
  cases c.fill24Bit <;> cases c.fill32Bit <;> simp only [Bool.false_eq_true, if_true, if_false,
    forall_const, false_imp_iff, iff_true] <;> omega

theorem fillLoop_apply (c : MemoryFillConfig) (mem : Memory) (a : ℕ) :
    c.fillLoop mem a = if c.startAddress ≤ a ∧ a < c.startAddress + c.written
      then c.pattern.getD ((a - c.startAddress) % c.pattern.length) 0 else mem a :=
  repeat_apply mem c.startAddress (pattern_pos c) c.rounds a

def MemoryFillConfig.InRange (c : MemoryFillConfig) (a : ℕ) : Prop :=
  c.startAddress ≤ a ∧ a < c.endAddress

/-- A fill sets the bytes of the range to the repeated pattern. Everything else stays, in memory
and in what the guest sees of the host's. -/
structure Fills (c : MemoryFillConfig) (g g' : Guest) : Prop where
  inside : ∀ a, c.InRange a →
    g'.read a = c.pattern.getD ((a - c.startAddress) % c.pattern.length) 0
  outside : ∀ a, ¬ c.InRange a → g'.memory a = g.memory a ∧ g'.read a = g.read a

/-- The fill is triggered and its memory is there. -/
def FillAccepted (backed : ℕ → ℕ → Bool) (c : MemoryFillConfig) : Prop :=
  c.Triggered ∧ lookup backed c.startAddress c.numBytes = .ok ()

/-- Whatever the memory and the targets hold, a fill sets its range and an idle one nothing. -/
def FillsExactly (backed : ℕ → ℕ → Bool) (c : MemoryFillConfig) (targets : List RenderTarget) :
    Prop :=
  ∀ memory host g', memoryFill backed c ⟨memory, host, targets⟩ = .ok g' →
    (c.Triggered → Fills c ⟨memory, host, targets⟩ g') ∧
      (¬ c.Triggered → g' = ⟨memory, host, targets⟩)

/-- No byte that the host is ahead with is dropped outside the range. -/
def FillKeeps (c : MemoryFillConfig) (targets : List RenderTarget) : Prop :=
  ∀ t ∈ targets, t.Ahead → t.Overlaps c.startAddress c.numBytes → ∀ a, t.Contains a →
    c.InRange a ∨ ∃ t ∈ targets, t.Ahead ∧ ¬ t.Overlaps c.startAddress c.numBytes ∧ t.Contains a

theorem memoryFill_ok : memoryFill backed c g = .ok g' ∧ c.Triggered ↔
    FillAccepted backed c ∧
      g' = { g.invalidateRange c.startAddress c.numBytes with memory := c.fillLoop g.memory } := by
  rw [memoryFill, FillAccepted]
  by_cases ht : c.Triggered
  · rw [if_pos ht]
    simp only [ht, and_true, true_and]
    cases hlookup : lookup backed c.startAddress c.numBytes with
    | error e => exact iff_of_false nofun fun h => nomatch h.1
    | ok u => exact ⟨fun h => ⟨rfl, (Except.ok.inj h).symm⟩, fun h => congrArg Except.ok h.2.symm⟩
  · simp [ht]

theorem read_filled (g : Guest) (a : ℕ) :
    ({ g.invalidateRange c.startAddress c.numBytes with memory := c.fillLoop g.memory } :
      Guest).read a =
      if ∃ t ∈ g.targets, t.Ahead ∧ ¬ t.Overlaps c.startAddress c.numBytes ∧ t.Contains a
      then g.host a else c.fillLoop g.memory a := by
  have h := read_invalidateRange { g with memory := c.fillLoop g.memory } c.startAddress
    c.numBytes a
  exact h

theorem endAddress_eq (h : c.startAddress ≤ c.endAddress) :
    c.startAddress + c.numBytes = c.endAddress := by
  rw [MemoryFillConfig.startAddress, MemoryFillConfig.endAddress] at *
  rw [MemoryFillConfig.numBytes, BitVec.toNat_sub]
  have := (c.addressStart * 8).isLt
  have := (c.addressEnd * 8).isLt
  omega

theorem fills_of_keeps (hle : c.startAddress ≤ c.endAddress)
    (h24 : c.fill24Bit = true → 3 ∣ c.numBytes) (hkeeps : FillKeeps c g.targets) :
    Fills c g
      { g.invalidateRange c.startAddress c.numBytes with memory := c.fillLoop g.memory } := by
  have hend := endAddress_eq hle
  have hwritten := (written_eq c).2.2 h24
  constructor
  · rintro a ⟨hstart, hlt⟩
    rw [read_filled, if_neg, fillLoop_apply, if_pos ⟨hstart, by omega⟩]
    rintro ⟨t, -, -, hno, hcontains⟩
    exact hno (overlaps_of_contains hcontains hstart (by omega))
  · intro a ha
    have hmem : c.fillLoop g.memory a = g.memory a := by
      rw [fillLoop_apply, if_neg]
      rintro ⟨hstart, hlt⟩
      exact ha ⟨hstart, by omega⟩
    refine ⟨hmem, ?_⟩
    rw [read_filled, hmem, Guest.read]
    by_cases hahead : g.Ahead a
    · rw [if_pos hahead, if_pos]
      obtain ⟨t, ht, htahead, hcontains⟩ := hahead
      by_cases hoverlaps : t.Overlaps c.startAddress c.numBytes
      · obtain hin | hother := hkeeps t ht htahead hoverlaps a hcontains
        · exact absurd hin ha
        · exact hother
      · exact ⟨t, ht, htahead, hoverlaps, hcontains⟩
    · rw [if_neg hahead, if_neg]
      rintro ⟨t, ht, htahead, -, hcontains⟩
      exact hahead ⟨t, ht, htahead, hcontains⟩

/-- When a fill touches its range only. -/
theorem fillsExactly_iff (backed : ℕ → ℕ → Bool) (c : MemoryFillConfig)
    (targets : List RenderTarget) : FillsExactly backed c targets ↔
      (FillAccepted backed c → c.startAddress ≤ c.endAddress ∧
        (c.fill24Bit = true → 3 ∣ c.numBytes) ∧ FillKeeps c targets) := by
  constructor
  · intro h haccepted
    have hfills (memory host : Memory) := (h memory host _
      ((memoryFill_ok (g := ⟨memory, host, targets⟩)).2 ⟨haccepted, rfl⟩).1).1 haccepted.1
    -- A byte that the loop writes is in the range: memory may hold another one there.
    have hwrites (a : ℕ) (hstart : c.startAddress ≤ a) (hlt : a < c.startAddress + c.written) :
        c.InRange a := by
      by_contra ha
      have hsame := ((hfills (fun _ => c.pattern.getD ((a - c.startAddress) % c.pattern.length) 0 +
        1) fun _ => 0).outside a ha).1
      change c.fillLoop _ a = _ at hsame
      rw [fillLoop_apply, if_pos ⟨hstart, hlt⟩] at hsame
      bv_omega
    have hpos : 0 < c.numBytes := by
      by_contra hzero
      have hlookup := haccepted.2
      rw [lookup, if_pos (by omega)] at hlookup
      cases hlookup
    have hwritten := written_eq c
    have hfirst := hwrites c.startAddress le_rfl (by omega)
    have hle : c.startAddress ≤ c.endAddress := hfirst.2.le
    refine ⟨hle, hwritten.2.1 ?_, ?_⟩
    · have hend := endAddress_eq hle
      have hlast := (hwrites (c.startAddress + c.written - 1) (by omega) (by omega)).2
      omega
    · intro t ht hahead hoverlaps a hcontains
      by_contra hlost
      rw [not_or] at hlost
      have hsame := ((hfills (fun _ => 0) fun _ => 1).outside a hlost.1)
      have hread := hsame.2
      rw [read_filled, if_neg hlost.2, Guest.read, if_pos ⟨t, ht, hahead, hcontains⟩] at hread
      have hmem := hsame.1
      change c.fillLoop _ a = _ at hmem
      rw [hmem] at hread
      cases hread
  · intro h memory host g' hrun
    refine ⟨fun ht => ?_, fun ht => ?_⟩
    · obtain ⟨haccepted, rfl⟩ := memoryFill_ok.1 ⟨hrun, ht⟩
      obtain ⟨hle, h24, hkeeps⟩ := h haccepted
      exact fills_of_keeps hle h24 hkeeps
    · rw [memoryFill, if_neg ht] at hrun
      exact (Except.ok.inj hrun).symm

end Fills

/-! ## Copies -/

section Lines

/-- Lines that are copied one after the other, from where none of them is written. -/
theorem copy_apply (src dst : ℕ → ℕ) (len : ℕ) (mem : Memory) (n : ℕ)
    (hsrc : ∀ y < n, ∀ y' < n, ∀ k < len, src y + k < dst y' ∨ dst y' + len ≤ src y + k)
    (hdst : ∀ y < n, ∀ y' < n, y ≠ y' → dst y + len ≤ dst y' ∨ dst y' + len ≤ dst y) :
    let mem' := (List.range n).foldl (fun mem y =>
      writeBytes mem (dst y) ((List.range len).map fun k => mem (src y + k))) mem
    (∀ y < n, ∀ k < len, mem' (dst y + k) = mem (src y + k)) ∧
      ∀ a, (∀ y < n, a < dst y ∨ dst y + len ≤ a) → mem' a = mem a := by
  induction n with
  | zero => exact ⟨nofun, fun _ _ => rfl⟩
  | succ n ih =>
    obtain ⟨hlines, hothers⟩ := ih
      (fun y hy y' hy' => hsrc y (by omega) y' (by omega))
      (fun y hy y' hy' => hdst y (by omega) y' (by omega))
    rw [List.range_succ, List.foldl_append, List.foldl_cons, List.foldl_nil]
    generalize (List.range n).foldl (fun mem y =>
      writeBytes mem (dst y) ((List.range len).map fun k => mem (src y + k))) mem = mem1 at *
    have hlength : ((List.range len).map fun k => mem1 (src n + k)).length = len := by
      rw [List.length_map, List.length_range]
    constructor
    · intro y hy k hk
      obtain rfl | hlt : y = n ∨ y < n := by omega
      · rw [writeBytes_of_mem (by rwa [hlength]), List.getD_eq_getElem?_getD, List.getElem?_map,
          List.getElem?_range hk]
        exact hothers _ fun y' hy' => hsrc y (by omega) y' (by omega) k hk
      · have hapart := hdst y (by omega) n (by omega) (by omega)
        rw [writeBytes_of_not_mem (by rw [hlength]; omega)]
        exact hlines y hlt k hk
    · intro a ha
      have hlast := ha n (by omega)
      rw [writeBytes_of_not_mem (by rwa [hlength])]
      exact hothers a fun y hy => ha y (by omega)

end Lines

section Copies

variable {c : TextureCopyConfig} {backed : ℕ → ℕ → Bool} {g g' : Guest} {a y k : ℕ}
  {targets : List RenderTarget}

/-- The bytes of the output that a copy is for. -/
def InLine (c : TextureCopyConfig) (a : ℕ) : Prop :=
  ∃ y < c.numLines, ∃ k < c.inputBytesPerLine,
    a = c.outputAddress + y * c.outputTotalBytesPerLine + k

/-- A copy puts the lines of the input into those of the output, and the guest sees no other byte
change. -/
structure Copies (c : TextureCopyConfig) (g g' : Guest) : Prop where
  lines : ∀ y < c.numLines, ∀ k < c.inputBytesPerLine,
    g'.read (c.outputAddress + y * c.outputTotalBytesPerLine + k) =
      g.read (c.inputAddress + y * c.inputTotalBytesPerLine + k)
  others : ∀ a, ¬ InLine c a → g'.read a = g.read a

/-- All checks pass, and the memory is there. -/
def CopyAccepted (backed : ℕ → ℕ → Bool) (c : TextureCopyConfig) : Prop :=
  c.checks = .ok () ∧ lookup backed c.inputAddress c.inputMemorySize = .ok () ∧
    lookup backed c.outputAddress c.outputMemorySize = .ok () ∧
    c.inputBytesPerLine = c.outputBytesPerLine

/-- Whatever the memory and the targets hold, nothing is divided by zero, and a copy that is not
refused is exact. -/
def CopiesExactly (backed : ℕ → ℕ → Bool) (c : TextureCopyConfig) (targets : List RenderTarget) :
    Prop :=
  ∀ memory host, textureCopy backed c ⟨memory, host, targets⟩ ≠ .error .divisionByZero ∧
    ∀ g', textureCopy backed c ⟨memory, host, targets⟩ = .ok g' →
      Copies c ⟨memory, host, targets⟩ g'

/-- The products of lines and their sizes are 32-bit numbers. -/
def NoWrap (c : TextureCopyConfig) : Prop :=
  c.numLines * c.inputTotalBytesPerLine < 2 ^ 32 ∧ c.numLines * c.outputTotalBytesPerLine < 2 ^ 32

/-- The input and the output do not overlap. -/
def AreasApart (c : TextureCopyConfig) : Prop :=
  c.inputAddress + c.inputMemorySize ≤ c.outputAddress ∨
    c.outputAddress + c.outputMemorySize ≤ c.inputAddress

/-- The flushes reach a target. -/
def Flushed (c : TextureCopyConfig) (t : RenderTarget) : Prop :=
  t.Overlaps c.inputAddress c.inputMemorySize ∨ c.outputPaddingBytesPerLine ≠ 0 ∧
    t.Overlaps (c.inputAddress + c.outputBytesPerLine) c.paddingFlushSize

instance (c : TextureCopyConfig) (t : RenderTarget) : Decidable (Flushed c t) :=
  inferInstanceAs (Decidable (_ ∨ _ ∧ _))

/-- No byte that the host is ahead with is dropped outside the lines before it is flushed. -/
def CopyKeeps (c : TextureCopyConfig) (targets : List RenderTarget) : Prop :=
  ∀ t ∈ targets, t.Ahead → ¬ Flushed c t → t.Overlaps c.outputAddress c.outputMemorySize →
    ∀ a, t.Contains a → InLine c a ∨ ∃ t ∈ targets, t.Ahead ∧
      (Flushed c t ∨ ¬ t.Overlaps c.outputAddress c.outputMemorySize) ∧ t.Contains a

theorem host_flushes (c : TextureCopyConfig) (g : Guest) : (c.flushes g).host = g.host := by
  rw [TextureCopyConfig.flushes]
  split <;> rfl

/-- The targets that are still ahead after the flushes. -/
theorem ahead_flushes (P : RenderTarget → Prop) :
    (∃ t ∈ (c.flushes g).targets, t.Ahead ∧ P t) ↔
      ∃ t ∈ g.targets, t.Ahead ∧ ¬ Flushed c t ∧ P t := by
  simp only [TextureCopyConfig.flushes, Flushed, not_or, not_and]
  split
  next h =>
    rw [ahead_flushRange, ahead_flushRange fun t =>
      ¬ t.Overlaps (c.inputAddress + c.outputBytesPerLine) c.paddingFlushSize ∧ P t]
    simp only [h, not_false_eq_true, forall_true_left, and_assoc, ne_eq]
  next h =>
    rw [ahead_flushRange]
    simp only [h, false_imp_iff, and_true]

/-- What the flushes write back. -/
theorem memory_flushes (c : TextureCopyConfig) (g : Guest) (a : ℕ) :
    ((∃ t ∈ g.targets, t.Ahead ∧ Flushed c t ∧ t.Contains a) →
      (c.flushes g).memory a = g.host a) ∧
    (¬ (∃ t ∈ g.targets, t.Ahead ∧ Flushed c t ∧ t.Contains a) →
      (c.flushes g).memory a = g.memory a) := by
  rw [TextureCopyConfig.flushes]
  split
  next h =>
    have hsecond : (∃ t ∈ (g.flushRange c.inputAddress c.inputMemorySize).targets, t.Ahead ∧
        t.Overlaps (c.inputAddress + c.outputBytesPerLine) c.paddingFlushSize ∧ t.Contains a) ↔ _ :=
      ahead_flushRange _
    constructor
    · rintro ⟨t, ht, hahead, hflushed, hcontains⟩
      by_cases hone : t.Overlaps c.inputAddress c.inputMemorySize
      · exact (ite_congr rfl (fun _ => rfl) fun _ =>
          if_pos ⟨t, ht, hahead, hone, hcontains⟩).trans (ite_self _)
      · refine if_pos (hsecond.2 ⟨t, ht, hahead, hone, ?_, hcontains⟩)
        exact (hflushed.resolve_left hone).2
    · intro hnone
      refine (if_neg fun hex => ?_).trans (if_neg ?_)
      · obtain ⟨t, ht, hahead, -, hoverlaps, hcontains⟩ := hsecond.1 hex
        exact hnone ⟨t, ht, hahead, .inr ⟨h, hoverlaps⟩, hcontains⟩
      · rintro ⟨t, ht, hahead, hoverlaps, hcontains⟩
        exact hnone ⟨t, ht, hahead, .inl hoverlaps, hcontains⟩
  next h =>
    constructor
    · rintro ⟨t, ht, hahead, hflushed, hcontains⟩
      exact if_pos ⟨t, ht, hahead, hflushed.resolve_right fun h' => h h'.1, hcontains⟩
    · intro hnone
      refine if_neg ?_
      rintro ⟨t, ht, hahead, hoverlaps, hcontains⟩
      exact hnone ⟨t, ht, hahead, .inl hoverlaps, hcontains⟩

/-- The guest after the flushes, the invalidation and a copy. -/
def copied (c : TextureCopyConfig) (g : Guest) : Guest :=
  { (c.flushes g).invalidateRange c.outputAddress c.outputMemorySize with
    memory := c.copyLoop (c.flushes g).memory }

/-- The host stays ahead with what is neither flushed nor dropped. -/
theorem ahead_copied (c : TextureCopyConfig) (g : Guest) (a : ℕ) : (copied c g).Ahead a ↔
    ∃ t ∈ g.targets, t.Ahead ∧ ¬ Flushed c t ∧
      ¬ t.Overlaps c.outputAddress c.outputMemorySize ∧ t.Contains a := by
  rw [← ahead_flushes fun t => ¬ t.Overlaps c.outputAddress c.outputMemorySize ∧ t.Contains a,
    ← ahead_invalidateRange]
  rfl

theorem read_copied_ahead (h : (copied c g).Ahead a) : (copied c g).read a = g.host a := by
  rw [Guest.read, if_pos h, ← host_flushes c g]
  rfl

theorem read_copied_memory (h : ¬ (copied c g).Ahead a) :
    (copied c g).read a = c.copyLoop (c.flushes g).memory a := by
  rw [Guest.read, if_neg h]
  rfl

theorem checks_ok (h : c.checks = .ok ()) : c.inputBytesPerLine ≠ 0 ∧
    c.numLines * c.inputBytesPerLine = c.totalBytesToCopy.toNat ∧ 0 < c.numLines := by
  rw [TextureCopyConfig.checks] at h
  split at h
  · cases h
  next hzero =>
  split at h
  · cases h
  next hlines =>
  split at h
  · cases h
  split at h
  · cases h
  next htotal =>
    have hlt := c.totalBytesToCopy.isLt
    have hle : c.numLines * c.inputBytesPerLine ≤ c.totalBytesToCopy.toNat :=
      Nat.div_mul_le_self _ _
    rw [u32_of_lt (by omega), ne_eq, not_not] at hlines
    refine ⟨hzero, hlines, Nat.pos_of_ne_zero fun h0 => htotal ?_⟩
    rw [h0, Nat.zero_mul] at hlines
    exact BitVec.eq_of_toNat_eq hlines.symm

/-- The division is the only one. -/
theorem checks_ne (h : c.inputBytesPerLine ≠ 0) : c.checks ≠ .error .divisionByZero := by
  intro heq
  rw [TextureCopyConfig.checks, if_neg h] at heq
  split_ifs at heq <;> cases heq

theorem lookup_ne (backed : ℕ → ℕ → Bool) (address bytes : ℕ) :
    lookup backed address bytes ≠ .error .divisionByZero := by
  intro heq
  rw [lookup] at heq
  split_ifs at heq <;> cases heq

/-- Past the checks nothing is divided. -/
theorem textureCopy_ne (h : c.inputBytesPerLine ≠ 0) :
    textureCopy backed c g ≠ .error .divisionByZero := by
  intro heq
  rw [textureCopy] at heq
  cases hchecks : c.checks with
  | error e =>
    rw [hchecks] at heq
    obtain rfl : e = .divisionByZero := Except.error.inj heq
    exact checks_ne h hchecks
  | ok u =>
    rw [hchecks] at heq
    cases hin : lookup backed c.inputAddress c.inputMemorySize with
    | error e =>
      rw [hin] at heq
      obtain rfl : e = .divisionByZero := Except.error.inj heq
      exact lookup_ne _ _ _ hin
    | ok u =>
      rw [hin] at heq
      cases hout : lookup backed c.outputAddress c.outputMemorySize with
      | error e =>
        rw [hout] at heq
        obtain rfl : e = .divisionByZero := Except.error.inj heq
        exact lookup_ne _ _ _ hout
      | ok u =>
        rw [hout] at heq
        by_cases hsize : c.inputBytesPerLine = c.outputBytesPerLine
        · simp only [hsize, ne_eq, not_true_eq_false, if_false] at heq
          cases heq
        · simp only [hsize, ne_eq, not_false_eq_true, if_true] at heq
          cases heq

theorem textureCopy_ok : textureCopy backed c g = .ok g' ↔
    CopyAccepted backed c ∧ g' = copied c g := by
  rw [textureCopy, CopyAccepted]
  cases hchecks : c.checks with
  | error e => exact iff_of_false nofun fun h => nomatch h.1.1
  | ok u =>
    cases hin : lookup backed c.inputAddress c.inputMemorySize with
    | error e => exact iff_of_false nofun fun h => nomatch h.1.2.1
    | ok u =>
      cases hout : lookup backed c.outputAddress c.outputMemorySize with
      | error e => exact iff_of_false nofun fun h => nomatch h.1.2.2.1
      | ok u =>
        by_cases hsize : c.inputBytesPerLine = c.outputBytesPerLine
        · simp only [hsize, ne_eq, not_true_eq_false, if_false]
          constructor
          · intro h
            exact ⟨⟨trivial, trivial, trivial, trivial⟩, (Except.ok.inj h).symm⟩
          · rintro ⟨-, rfl⟩
            rfl
        · simp only [hsize, ne_eq, not_false_eq_true, if_true]
          exact iff_of_false nofun fun h => nomatch h.1.2.2.2

/-- The sizes that are looked up, where nothing wraps. -/
theorem sizes_eq (h : c.checks = .ok ()) (hwrap : NoWrap c) :
    c.inputMemorySize + c.inputPaddingBytesPerLine = c.numLines * c.inputTotalBytesPerLine ∧
      c.outputMemorySize + c.outputPaddingBytesPerLine =
        c.numLines * c.outputTotalBytesPerLine := by
  obtain ⟨-, -, hpos⟩ := checks_ok h
  have hin : c.inputTotalBytesPerLine ≤ c.numLines * c.inputTotalBytesPerLine :=
    Nat.le_mul_of_pos_left _ hpos
  have hout : c.outputTotalBytesPerLine ≤ c.numLines * c.outputTotalBytesPerLine :=
    Nat.le_mul_of_pos_left _ hpos
  obtain ⟨hwin, hwout⟩ := hwrap
  rw [TextureCopyConfig.inputTotalBytesPerLine] at *
  rw [TextureCopyConfig.outputTotalBytesPerLine] at *
  rw [TextureCopyConfig.inputMemorySize, TextureCopyConfig.outputMemorySize,
    TextureCopyConfig.inputTotalBytesPerLine, TextureCopyConfig.outputTotalBytesPerLine,
    u32_of_lt hwin, u32_of_lt hwout, u32, u32]
  omega

/-- Every line is inside the area that is looked up. -/
theorem line_le {total bytes padding size n : ℕ} (htotal : total = bytes + padding)
    (hsize : size + padding = n * total) (hy : y < n) (hk : k < bytes) :
    y * total + k < size := by
  have hle : (y + 1) * total ≤ n * total := Nat.mul_le_mul_right _ hy
  rw [Nat.succ_mul] at hle
  omega

theorem NoWrap.input (hwrap : NoWrap c) {y : ℕ} (hy : y < c.numLines) :
    u32 (y * c.inputTotalBytesPerLine) = y * c.inputTotalBytesPerLine :=
  u32_of_lt ((Nat.mul_le_mul_right _ hy.le).trans_lt hwrap.1)

theorem NoWrap.output (hwrap : NoWrap c) {y : ℕ} (hy : y < c.numLines) :
    u32 (y * c.outputTotalBytesPerLine) = y * c.outputTotalBytesPerLine :=
  u32_of_lt ((Nat.mul_le_mul_right _ hy.le).trans_lt hwrap.2)

/-- No byte that is read is in a line that is written. -/
theorem source_apart (h : CopyAccepted backed c) (hwrap : NoWrap c) (hapart : AreasApart c)
    {y y' k : ℕ} (hy : y < c.numLines) (hy' : y' < c.numLines) (hk : k < c.inputBytesPerLine) :
    c.inputAddress + u32 (y * c.inputTotalBytesPerLine) + k <
        c.outputAddress + u32 (y' * c.outputTotalBytesPerLine) ∨
      c.outputAddress + u32 (y' * c.outputTotalBytesPerLine) + c.inputBytesPerLine ≤
        c.inputAddress + u32 (y * c.inputTotalBytesPerLine) + k := by
  obtain ⟨hchecks, -, -, hsame⟩ := h
  obtain ⟨hsin, hsout⟩ := sizes_eq hchecks hwrap
  rw [hwrap.input hy, hwrap.output hy']
  have hsrc := line_le (rfl : c.inputTotalBytesPerLine = _) hsin hy hk
  have hpos : c.outputBytesPerLine - 1 < c.outputBytesPerLine := by omega
  have hdst := line_le (rfl : c.outputTotalBytesPerLine = _) hsout hy' hpos
  obtain hapart | hapart := hapart <;> omega

/-- The lines that are written are one after the other. -/
theorem lines_apart (h : CopyAccepted backed c) (hwrap : NoWrap c) {y y' : ℕ}
    (hlt : y < y') (hy' : y' < c.numLines) :
    c.outputAddress + u32 (y * c.outputTotalBytesPerLine) + c.inputBytesPerLine ≤
      c.outputAddress + u32 (y' * c.outputTotalBytesPerLine) := by
  obtain ⟨-, -, -, hsame⟩ := h
  rw [hwrap.output (hlt.trans hy'), hwrap.output hy']
  have hle : c.inputBytesPerLine ≤ c.outputTotalBytesPerLine := by
    rw [TextureCopyConfig.outputTotalBytesPerLine]
    omega
  have hnext : y * c.outputTotalBytesPerLine + c.outputTotalBytesPerLine ≤
      y' * c.outputTotalBytesPerLine := by
    rw [← Nat.succ_mul]
    exact Nat.mul_le_mul_right _ hlt
  omega

/-- The loop, where nothing wraps and the areas are apart. -/
theorem copyLoop_spec (h : CopyAccepted backed c) (hwrap : NoWrap c) (hapart : AreasApart c)
    (mem : Memory) :
    (∀ y < c.numLines, ∀ k < c.inputBytesPerLine,
      c.copyLoop mem (c.outputAddress + y * c.outputTotalBytesPerLine + k) =
        mem (c.inputAddress + y * c.inputTotalBytesPerLine + k)) ∧
    ∀ a, ¬ InLine c a → c.copyLoop mem a = mem a := by
  obtain ⟨hlines, hothers⟩ := copy_apply _ _ _ mem c.numLines
    (fun y hy y' hy' k hk => source_apart h hwrap hapart hy hy' hk)
    (fun y hy y' hy' hne => by
      obtain hlt | hlt := Nat.lt_or_gt_of_ne hne
      · exact .inl (lines_apart h hwrap hlt hy')
      · exact .inr (lines_apart h hwrap hlt hy))
  refine ⟨fun y hy k hk => ?_, fun a ha => hothers a fun y hy => ?_⟩
  · have := hlines y hy k hk
    rwa [hwrap.input hy, hwrap.output hy] at this
  · rw [hwrap.output hy]
    by_contra hmem
    exact ha ⟨y, hy, a - (c.outputAddress + y * c.outputTotalBytesPerLine), by omega, by
      have := h.2.2.2
      omega⟩

theorem copies_of_keeps (h : CopyAccepted backed c) (hwrap : NoWrap c) (hapart : AreasApart c)
    (hkeeps : CopyKeeps c g.targets) : Copies c g (copied c g) := by
  obtain ⟨hlines, hothers⟩ := copyLoop_spec h hwrap hapart (c.flushes g).memory
  obtain ⟨hsin, hsout⟩ := sizes_eq h.1 hwrap
  constructor
  · intro y hy k hk
    have hdst := line_le (rfl : c.outputTotalBytesPerLine = _) hsout hy (h.2.2.2 ▸ hk)
    have hsrc := line_le (rfl : c.inputTotalBytesPerLine = _) hsin hy hk
    rw [read_copied_memory, hlines y hy k hk, Guest.read]
    · split
      next hahead =>
        obtain ⟨t, ht, htahead, hcontains⟩ := hahead
        exact (memory_flushes c g _).1 ⟨t, ht, htahead,
          .inl (overlaps_of_contains hcontains (by omega) (by omega)), hcontains⟩
      next hahead =>
        exact (memory_flushes c g _).2 fun ⟨t, ht, htahead, _, hcontains⟩ =>
          hahead ⟨t, ht, htahead, hcontains⟩
    · rw [ahead_copied]
      rintro ⟨t, -, -, -, hno, hcontains⟩
      exact hno (overlaps_of_contains hcontains (by omega) (by omega))
  · intro a ha
    by_cases hafter : (copied c g).Ahead a
    · obtain ⟨t, ht, htahead, -, -, hcontains⟩ := (ahead_copied c g a).1 hafter
      rw [read_copied_ahead hafter, Guest.read, if_pos ⟨t, ht, htahead, hcontains⟩]
    · rw [read_copied_memory hafter, hothers a ha, Guest.read]
      rw [ahead_copied] at hafter
      split
      next hahead =>
        obtain ⟨t, ht, htahead, hcontains⟩ := hahead
        refine (memory_flushes c g a).1 ?_
        by_cases hflushed : Flushed c t
        · exact ⟨t, ht, htahead, hflushed, hcontains⟩
        by_cases hoverlaps : t.Overlaps c.outputAddress c.outputMemorySize
        · obtain hline | ⟨t', ht', htahead', hother, hcontains'⟩ :=
            hkeeps t ht htahead hflushed hoverlaps a hcontains
          · exact absurd hline ha
          · by_cases hflushed' : Flushed c t'
            · exact ⟨t', ht', htahead', hflushed', hcontains'⟩
            · exact absurd ⟨t', ht', htahead', hflushed', hother.resolve_left hflushed',
                hcontains'⟩ hafter
        · exact absurd ⟨t, ht, htahead, hflushed, hoverlaps, hcontains⟩ hafter
      next hahead =>
        exact (memory_flushes c g a).2 fun ⟨t, ht, htahead, _, hcontains⟩ =>
          hahead ⟨t, ht, htahead, hcontains⟩

/-- When a copy is exact. -/
theorem copiesExactly_of_keeps (hzero : c.inputBytesPerLine ≠ 0)
    (h : CopyAccepted backed c → NoWrap c ∧ AreasApart c ∧ CopyKeeps c targets) :
    CopiesExactly backed c targets := by
  refine fun memory host => ⟨textureCopy_ne hzero, fun g' hrun => ?_⟩
  obtain ⟨haccepted, rfl⟩ := textureCopy_ok.1 hrun
  obtain ⟨hwrap, hapart, hkeeps⟩ := h haccepted
  exact copies_of_keeps haccepted hwrap hapart hkeeps

theorem keeps_of_copiesExactly (h : CopiesExactly backed c targets) :
    c.inputBytesPerLine ≠ 0 ∧
      (CopyAccepted backed c → NoWrap c → AreasApart c → CopyKeeps c targets) := by
  refine ⟨fun hzero => (h (fun _ => 0) fun _ => 0).1 ?_, fun haccepted hwrap hapart => ?_⟩
  · rw [textureCopy, TextureCopyConfig.checks, if_pos hzero]
    rfl
  · intro t ht hahead hflushed hoverlaps a hcontains
    by_contra hlost
    rw [not_or] at hlost
    have hcopies := (h (fun _ => 0) fun _ => 1).2 _ (textureCopy_ok.2 ⟨haccepted, rfl⟩)
    have hread := hcopies.others a hlost.1
    have hbefore : Guest.Ahead ⟨fun _ => 0, fun _ => 1, targets⟩ a := ⟨t, ht, hahead, hcontains⟩
    rw [read_copied_memory, (copyLoop_spec haccepted hwrap hapart _).2 a hlost.1,
      (memory_flushes c _ a).2, Guest.read, if_pos hbefore] at hread
    · cases hread
    · rintro ⟨t', ht', hahead', hflushed', hcontains'⟩
      exact hlost.2 ⟨t', ht', hahead', .inl hflushed', hcontains'⟩
    · rw [ahead_copied]
      rintro ⟨t', ht', hahead', -, hno, hcontains'⟩
      exact hlost.2 ⟨t', ht', hahead', .inr hno, hcontains'⟩

/-- **Fills and copies.** When they touch exactly their target. -/
theorem transfers_exact (backed : ℕ → ℕ → Bool) (targets : List RenderTarget) :
    (∀ c : MemoryFillConfig, FillsExactly backed c targets ↔
      (FillAccepted backed c → c.startAddress ≤ c.endAddress ∧
        (c.fill24Bit = true → 3 ∣ c.numBytes) ∧ FillKeeps c targets)) ∧
    ∀ c : TextureCopyConfig,
      (c.inputBytesPerLine ≠ 0 ∧
        (CopyAccepted backed c → NoWrap c ∧ AreasApart c ∧ CopyKeeps c targets) →
          CopiesExactly backed c targets) ∧
      (CopiesExactly backed c targets → c.inputBytesPerLine ≠ 0 ∧
        (CopyAccepted backed c → NoWrap c → AreasApart c → CopyKeeps c targets)) :=
  ⟨fun c => fillsExactly_iff backed c targets,
    fun _ => ⟨fun h => copiesExactly_of_keeps h.1 h.2, keeps_of_copiesExactly⟩⟩

/-- Two lines of sixteen bytes, with as much padding in the output. -/
def paddedCopy : TextureCopyConfig :=
  ⟨0x18000000, 0x18001000, 32, 0x00001, 0x10001, false, false, false, 0⟩

/-- A target that was rendered over the output loses its bytes in the padding. -/
theorem padding_lost :
    ¬ CopiesExactly (fun _ _ => true) paddedCopy [⟨0x18001000, 64, .hostUpToDate⟩] := by
  intro h
  have hrun := (h (fun _ => 0) fun _ => 1).2 _ (textureCopy_ok.2 ⟨⟨rfl, rfl, rfl, rfl⟩, rfl⟩)
  have hpadding : ¬ InLine paddedCopy 0x18001010 := by
    rintro ⟨y, hy, k, hk, heq⟩
    change k < 16 at hk
    change 0x18001010 = 0x18001000 + y * 32 + k at heq
    omega
  have hread := hrun.others 0x18001010 hpadding
  have hlost : (copied paddedCopy ⟨fun _ => 0, fun _ => 1,
      [⟨0x18001000, 64, .hostUpToDate⟩]⟩).read 0x18001010 = 0 := by decide
  have hseen : Guest.read ⟨fun _ => 0, fun _ => 1,
      [⟨0x18001000, 64, .hostUpToDate⟩]⟩ 0x18001010 = 1 := by decide
  rw [hlost, hseen] at hread
  cases hread

end Copies

end Mikage.GPU
