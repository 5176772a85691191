import Mikage.Lib.Words
import Mikage.Memory.VirtualMemory

/-!
# Shared memory of the HID module

`OnDataPollingTimer` puts the buttons and the circle pad, then the touch state, into two rings of
eight entries. Each ring has a section of the shared memory for itself, with the time of the last
two turns in front. The memory is one of bytes, and all writes are words; the addresses that are
written are kept, for each section.

`hidRings_exact_iff`: the rings hold the last samples and the sections keep apart. The time of the
turn before the last one is right only by accident: its upper half is computed from the lower one.
-/

namespace Mikage.HID

open Lib.Words

/-! ## The code -/

/-- What is read in one call: the registers of `IO_HID` and the system tick. -/
structure Poll where
  buttons : BitVec 16
  circleX : BitVec 16
  circleY : BitVec 16
  touchX : BitVec 16
  touchY : BitVec 16
  tick : BitVec 64
  deriving DecidableEq, Repr

namespace Poll

/-- The register has a zero for each button that is pressed. -/
def binaryState (p : Poll) : BitVec 32 := (~~~p.buttons).setWidth 32

def circlePadState (p : Poll) : BitVec 32 :=
  (p.circleX - 0x9c).setWidth 32 ||| ((p.circleY - 0x9c).setWidth 32 <<< 16)

end Poll

structure BinaryStateAndCirclePad where
  currentBinary : BitVec 32
  activatedBinary : BitVec 32
  deactivatedBinary : BitVec 32
  circlePad : BitVec 32
  deriving DecidableEq, Repr

structure TouchState where
  x : BitVec 16
  y : BitVec 16
  flags : BitVec 32
  deriving DecidableEq, Repr

def padEntry (previous : BitVec 32) (p : Poll) : BinaryStateAndCirclePad where
  currentBinary := p.binaryState
  activatedBinary := ~~~previous &&& p.binaryState
  deactivatedBinary := previous &&& ~~~p.binaryState
  circlePad := p.circlePadState

def touchEntry (p : Poll) : TouchState :=
  if 0xffff ≠ p.touchX ∨ 0xffff ≠ p.touchY then ⟨p.touchX, p.touchY, 1⟩ else ⟨0, 0, 0⟩

/-- The memory, and the addresses of the words written. -/
structure Shared where
  memory : Bytes 32
  written : List VAddr

namespace Shared

def readMemory32 (s : Shared) (addr : VAddr) : BitVec 32 := word s.memory addr

def writeMemory32 (s : Shared) (addr : VAddr) (value : BitVec 32) : Shared :=
  ⟨putWords s.memory addr [value], s.written ++ [addr]⟩

end Shared

/-- The start of both blocks of `OnDataPollingTimer`: the index, and the times if it is 0. -/
def updateIndex (start : VAddr) (tick : BitVec 64) (s : Shared) : BitVec 32 × Shared :=
  let entryIndex := (1 + s.readMemory32 (start + 0x10)) % 8
  let s := s.writeMemory32 (start + 0x10) entryIndex
  if entryIndex = 0 then
    let s := s.writeMemory32 (start + 0x8) (s.readMemory32 start)
    let s := s.writeMemory32 (start + 0xc) (s.readMemory32 start + 4)
    let s := s.writeMemory32 (start + 0x0) (tick.extractLsb' 0 32)
    (entryIndex, s.writeMemory32 (start + 0x4) (tick.extractLsb' 32 32))
  else (entryIndex, s)

/-- The slider always stands at `100.0f`. -/
def slider3dPercentageRaw : BitVec 32 := 0x42C80000

/-- Button and circle pad state -/
def updatePad (sharedMem : VAddr) (previous : BitVec 32) (p : Poll) (s : Shared) : Shared :=
  let (entryIndex, s) := updateIndex sharedMem p.tick s
  let s := s.writeMemory32 (sharedMem + 0x18) slider3dPercentageRaw
  let s := s.writeMemory32 (sharedMem + 0x1c) p.binaryState
  let s := s.writeMemory32 (sharedMem + 0x20) p.circlePadState
  let entry := padEntry previous p
  let s := s.writeMemory32 (sharedMem + 0x28 + entryIndex * 16) entry.currentBinary
  let s := s.writeMemory32 (sharedMem + 0x2c + entryIndex * 16) entry.activatedBinary
  let s := s.writeMemory32 (sharedMem + 0x30 + entryIndex * 16) entry.deactivatedBinary
  s.writeMemory32 (sharedMem + 0x34 + entryIndex * 16) p.circlePadState

/-- Touch state -/
def updateTouch (sharedMem : VAddr) (p : Poll) (s : Shared) : Shared :=
  let blockStart := sharedMem + 0xa8
  let (entryIndex, s) := updateIndex blockStart p.tick s
  let entry := touchEntry p
  let s := s.writeMemory32 (blockStart + 0x20 + entryIndex * 8)
    (entry.y.setWidth 32 <<< 16 ||| entry.x.setWidth 32)
  s.writeMemory32 (blockStart + 0x24 + entryIndex * 8) entry.flags

/-- The module, with the addresses it has written in each of the two blocks. -/
structure FakeHID where
  memory : Bytes 32
  padWrites : List VAddr
  touchWrites : List VAddr
  previousBinaryState : BitVec 32

def onDataPollingTimer (sharedMem : VAddr) (h : FakeHID) (p : Poll) : FakeHID :=
  let pad := updatePad sharedMem h.previousBinaryState p ⟨h.memory, h.padWrites⟩
  let touch := updateTouch sharedMem p ⟨pad.memory, h.touchWrites⟩
  ⟨touch.memory, pad.written, touch.written, p.binaryState⟩

/-- What is in the memory at first is not known. -/
def initial (memory : Bytes 32) : FakeHID := ⟨memory, [], [], 0⟩

def run (sharedMem : VAddr) (memory : Bytes 32) (polls : List Poll) : FakeHID :=
  polls.foldl (onDataPollingTimer sharedMem) (initial memory)

/-! ## The sections -/

/-- The word behind `k` others. -/
def wordAt (memory : Bytes 32) (start : VAddr) (k : ℕ) : BitVec 32 :=
  word memory (start + BitVec.ofNat 32 (4 * k))

def timestamp (memory : Bytes 32) (start : VAddr) : BitVec 64 :=
  wordAt memory start 1 ++ wordAt memory start 0

def previousTimestamp (memory : Bytes 32) (start : VAddr) : BitVec 64 :=
  wordAt memory start 3 ++ wordAt memory start 2

def activeEntry (memory : Bytes 32) (start : VAddr) : BitVec 32 := wordAt memory start 4

def padEntryAt (memory : Bytes 32) (start : VAddr) (i : ℕ) : BinaryStateAndCirclePad where
  currentBinary := wordAt memory start (10 + 4 * i)
  activatedBinary := wordAt memory start (11 + 4 * i)
  deactivatedBinary := wordAt memory start (12 + 4 * i)
  circlePad := wordAt memory start (13 + 4 * i)

def touchEntryAt (memory : Bytes 32) (start : VAddr) (i : ℕ) : TouchState where
  x := (wordAt memory start (8 + 2 * i)).extractLsb' 0 16
  y := (wordAt memory start (8 + 2 * i)).extractLsb' 16 16
  flags := wordAt memory start (9 + 2 * i)

/-! ## What the sections are for -/

/-- Each sample tells the changes since the one before. -/
def padSamples (polls : List Poll) : List BinaryStateAndCirclePad :=
  List.zipWith padEntry (0 :: polls.map Poll.binaryState) polls

def touchSamples (polls : List Poll) : List TouchState := polls.map touchEntry

/-- The entries of a ring of eight, the active one first. -/
def newest {α : Type} (entryAt : ℕ → α) (active count : ℕ) : List α :=
  (List.range (min count 8)).map fun j => entryAt ((active + 8 - j) % 8)

/-- The ticks of the polls that set the index to 0, the newest first. -/
def wrapTicks (index : BitVec 32) (polls : List Poll) : List (BitVec 64) :=
  ((polls.zipIdx 1).filterMap fun pk =>
    if (index.toNat + pk.2) % 8 = 0 then some pk.1.tick else none).reverse

/-- The times of the last two turns. -/
def TimestampsExact (memory : Bytes 32) (start : VAddr) (ticks : List (BitVec 64)) : Prop :=
  (∀ t, ticks[0]? = some t → timestamp memory start = t) ∧
    ∀ t, ticks[1]? = some t → previousTimestamp memory start = t

/-- The later sample is the earlier one with its changes made. -/
def Follows (earlier later : BinaryStateAndCirclePad) : Prop :=
  later.currentBinary =
    (earlier.currentBinary ||| later.activatedBinary) &&& ~~~later.deactivatedBinary

/-- The word is one of the section. -/
def InSection (start : VAddr) (size : ℕ) (addr : VAddr) : Prop :=
  ∃ offset, offset + 4 ≤ size ∧ addr = start + BitVec.ofNat 32 offset

def padSize : ℕ := 0xa8
def touchSize : ℕ := 0x60

/-- The shared memory after the polls, `memory` being the one before them. -/
structure Exact (sharedMem : VAddr) (memory : Bytes 32) (polls : List Poll) (h : FakeHID) :
    Prop where
  pad : ∃ active < 8, activeEntry h.memory sharedMem = BitVec.ofNat 32 active ∧
    newest (padEntryAt h.memory sharedMem) active polls.length =
      (padSamples polls).reverse.take 8 ∧
    (newest (padEntryAt h.memory sharedMem) active polls.length).IsChain fun later earlier =>
      Follows earlier later
  touch : ∃ active < 8, activeEntry h.memory (sharedMem + 0xa8) = BitVec.ofNat 32 active ∧
    newest (touchEntryAt h.memory (sharedMem + 0xa8)) active polls.length =
      (touchSamples polls).reverse.take 8
  padTimes : TimestampsExact h.memory sharedMem (wrapTicks (activeEntry memory sharedMem) polls)
  touchTimes : TimestampsExact h.memory (sharedMem + 0xa8)
    (wrapTicks (activeEntry memory (sharedMem + 0xa8)) polls)
  padWrites : ∀ a ∈ h.padWrites, InSection sharedMem padSize a
  touchWrites : ∀ a ∈ h.touchWrites, InSection (sharedMem + 0xa8) touchSize a

/-- The upper half of the time is what is computed for it later, 4 more than the lower one. -/
def Survives (t : BitVec 64) : Prop := t.extractLsb' 32 32 = t.extractLsb' 0 32 + 4

instance (t : BitVec 64) : Decidable (Survives t) := inferInstanceAs (Decidable (_ = _))

/-- It is, for the turn before the last one. -/
def TurnsSurvive (sharedMem : VAddr) (memory : Bytes 32) (polls : List Poll) : Prop :=
  (∀ t, (wrapTicks (activeEntry memory sharedMem) polls)[1]? = some t → Survives t) ∧
    ∀ t, (wrapTicks (activeEntry memory (sharedMem + 0xa8)) polls)[1]? = some t → Survives t

/-! ## Words of a section -/

section Puts

variable {s : Shared} {start : VAddr} {l : List (ℕ × BitVec 32)} {j k : ℕ} {v : BitVec 32}

/-- Words written one after the other. -/
def puts (start : VAddr) (l : List (ℕ × BitVec 32)) (s : Shared) : Shared :=
  l.foldl (fun s kv => s.writeMemory32 (start + BitVec.ofNat 32 (4 * kv.1)) kv.2) s

/-- The value that is there afterwards. -/
def latest (l : List (ℕ × BitVec 32)) (j : ℕ) (v : BitVec 32) : BitVec 32 :=
  l.foldl (fun v kv => if kv.1 = j then kv.2 else v) v

theorem wordAt_writeMemory32 (hj : j < 2 ^ 30) (hk : k < 2 ^ 30) :
    wordAt (s.writeMemory32 (start + BitVec.ofNat 32 (4 * k)) v).memory start j =
      if k = j then v else wordAt s.memory start j := by
  by_cases h : k = j
  · subst h
    have hword := word_putWords (f := s.memory) (a := start + BitVec.ofNat 32 (4 * k))
      (l := [v]) (j := 0) (by simp) (by simp)
    rw [Nat.mul_zero, BitVec.add_zero] at hword
    rw [if_pos rfl]
    exact hword
  · rw [if_neg h]
    have hbeside (m : ℕ) (hm : m < 4) : putWords s.memory (start + BitVec.ofNat 32 (4 * k)) [v]
        (start + BitVec.ofNat 32 (4 * j) + BitVec.ofNat 32 m) =
          s.memory (start + BitVec.ofNat 32 (4 * j) + BitVec.ofNat 32 m) := by
      refine putWords_beside fun i hi heq => ?_
      rw [List.length_singleton] at hi
      rw [BitVec.add_assoc, BitVec.add_assoc, ← BitVec.ofNat_add, ← BitVec.ofNat_add] at heq
      have heq := congrArg BitVec.toNat (add_left_cancel heq)
      rw [BitVec.toNat_ofNat, BitVec.toNat_ofNat, Nat.mod_eq_of_lt (by omega),
        Nat.mod_eq_of_lt (by omega)] at heq
      omega
    have h0 := hbeside 0 (by decide)
    rw [BitVec.add_zero] at h0
    simp only [wordAt, word, Shared.writeMemory32, hbeside 1 (by decide), hbeside 2 (by decide),
      hbeside 3 (by decide), h0]

theorem wordAt_puts (hj : j < 2 ^ 30) (hl : ∀ kv ∈ l, kv.1 < 2 ^ 30) :
    wordAt (puts start l s).memory start j = latest l j (wordAt s.memory start j) := by
  induction l generalizing s with
  | nil => rfl
  | cons kv l ih =>
    have htail := ih (s := s.writeMemory32 (start + BitVec.ofNat 32 (4 * kv.1)) kv.2)
      fun kv' h => hl kv' (List.mem_cons_of_mem _ h)
    rw [wordAt_writeMemory32 hj (hl kv List.mem_cons_self)] at htail
    exact htail

theorem latest_of_not_mem (h : ∀ kv ∈ l, kv.1 ≠ j) : latest l j v = v := by
  induction l generalizing v with
  | nil => rfl
  | cons kv l ih =>
    rw [latest, List.foldl_cons, if_neg (h kv List.mem_cons_self)]
    exact ih fun kv' h' => h kv' (List.mem_cons_of_mem _ h')

theorem puts_append (l l' : List (ℕ × BitVec 32)) :
    puts start (l ++ l') s = puts start l' (puts start l s) := List.foldl_append ..

theorem written_puts : (puts start l s).written =
    s.written ++ l.map fun kv => start + BitVec.ofNat 32 (4 * kv.1) := by
  induction l generalizing s with
  | nil => simp [puts]
  | cons kv l ih =>
    have htail := ih (s := s.writeMemory32 (start + BitVec.ofNat 32 (4 * kv.1)) kv.2)
    rw [Shared.writeMemory32, List.append_assoc] at htail
    exact htail

end Puts

/-! ## One poll -/

section Step

variable {s : Shared} {start : VAddr} {tick : BitVec 64} {j i : ℕ} {p : Poll} {previous : BitVec 32}

def nextIndex (index : BitVec 32) : ℕ := (index.toNat + 1) % 8

theorem nextIndex_lt (index : BitVec 32) : nextIndex index < 8 := Nat.mod_lt _ (by decide)

theorem nextIndex_eq (index : BitVec 32) : (1 + index) % 8 = BitVec.ofNat 32 (nextIndex index) := by
  have h := index.isLt
  refine BitVec.eq_of_toNat_eq ?_
  rw [BitVec.toNat_umod, BitVec.toNat_add, nextIndex]
  simp only [BitVec.ofNat_eq_ofNat, BitVec.toNat_ofNat, Nat.reducePow, Nat.reduceMod]
  omega

/-- The words `updateIndex` writes, with their values. -/
def indexPuts (next : ℕ) (low : BitVec 32) (tick : BitVec 64) : List (ℕ × BitVec 32) :=
  (4, BitVec.ofNat 32 next) ::
    if next = 0 then
      [(2, low), (3, low + 4), (0, tick.extractLsb' 0 32), (1, tick.extractLsb' 32 32)]
    else []

theorem readMemory32_eq : s.readMemory32 start = wordAt s.memory start 0 := by
  rw [Shared.readMemory32, wordAt, Nat.mul_zero, BitVec.add_zero]

theorem updateIndex_eq : updateIndex start tick s =
    (BitVec.ofNat 32 (nextIndex (activeEntry s.memory start)),
      puts start (indexPuts (nextIndex (activeEntry s.memory start)) (wordAt s.memory start 0) tick)
        s) := by
  have hnext : (1 + s.readMemory32 (start + 0x10)) % 8 =
      BitVec.ofNat 32 (nextIndex (activeEntry s.memory start)) := nextIndex_eq _
  have hzero : BitVec.ofNat 32 (nextIndex (activeEntry s.memory start)) = 0 ↔
      nextIndex (activeEntry s.memory start) = 0 := by
    have hlt := nextIndex_lt (activeEntry s.memory start)
    rw [BitVec.toNat_eq, BitVec.toNat_ofNat, Nat.mod_eq_of_lt (by omega)]
    rfl
  simp only [updateIndex, hnext]
  generalize nextIndex (activeEntry s.memory start) = next at *
  -- neither the index nor the older time is where the newer time is read from
  have hlow : (s.writeMemory32 (start + 0x10) (BitVec.ofNat 32 next)).readMemory32 start =
      wordAt s.memory start 0 :=
    readMemory32_eq.trans (wordAt_writeMemory32 (k := 4) (by decide) (by decide))
  have hlow' : ((s.writeMemory32 (start + 0x10) (BitVec.ofNat 32 next)).writeMemory32 (start + 0x8)
      (wordAt s.memory start 0)).readMemory32 start = wordAt s.memory start 0 :=
    (readMemory32_eq.trans (wordAt_writeMemory32 (k := 2) (by decide) (by decide))).trans
      (wordAt_writeMemory32 (k := 4) (by decide) (by decide))
  by_cases h : next = 0
  · rw [if_pos (hzero.2 h), hlow, hlow', indexPuts, if_pos h]
    rfl
  · rw [if_neg fun hz => h (hzero.1 hz), indexPuts, if_neg h]
    rfl

def padPuts (next : ℕ) (low previous : BitVec 32) (p : Poll) : List (ℕ × BitVec 32) :=
  indexPuts next low p.tick ++
    [(6, slider3dPercentageRaw), (7, p.binaryState), (8, p.circlePadState),
      (10 + 4 * next, (padEntry previous p).currentBinary),
      (11 + 4 * next, (padEntry previous p).activatedBinary),
      (12 + 4 * next, (padEntry previous p).deactivatedBinary),
      (13 + 4 * next, p.circlePadState)]

def touchPuts (next : ℕ) (low : BitVec 32) (p : Poll) : List (ℕ × BitVec 32) :=
  indexPuts next low p.tick ++
    [(8 + 2 * next, (touchEntry p).y.setWidth 32 <<< 16 ||| (touchEntry p).x.setWidth 32),
      (9 + 2 * next, (touchEntry p).flags)]

/-- The address of a word of an entry. -/
theorem entry_address (start : VAddr) (size offset next : ℕ) :
    start + BitVec.ofNat 32 (4 * offset) + BitVec.ofNat 32 next * BitVec.ofNat 32 (4 * size) =
      start + BitVec.ofNat 32 (4 * (offset + size * next)) := by
  rw [← BitVec.ofNat_mul, BitVec.add_assoc, ← BitVec.ofNat_add]
  congr 2
  ring

theorem updatePad_eq : updatePad start previous p s =
    puts start (padPuts (nextIndex (activeEntry s.memory start)) (wordAt s.memory start 0)
      previous p) s := by
  rw [updatePad, updateIndex_eq, padPuts, puts_append]
  generalize nextIndex (activeEntry s.memory start) = next
  have h10 := entry_address start 4 10 next
  have h11 := entry_address start 4 11 next
  have h12 := entry_address start 4 12 next
  have h13 := entry_address start 4 13 next
  simp only [puts, List.foldl_cons, List.foldl_nil]
  rw [← h10, ← h11, ← h12, ← h13]
  rfl

theorem updateTouch_eq : updateTouch start p s =
    puts (start + 0xa8) (touchPuts (nextIndex (activeEntry s.memory (start + 0xa8)))
      (wordAt s.memory (start + 0xa8) 0) p) s := by
  rw [updateTouch, updateIndex_eq, touchPuts, puts_append]
  generalize nextIndex (activeEntry s.memory (start + 0xa8)) = next
  have h8 := entry_address (start + 0xa8) 2 8 next
  have h9 := entry_address (start + 0xa8) 2 9 next
  simp only [puts, List.foldl_cons, List.foldl_nil]
  rw [← h8, ← h9]
  rfl

theorem padPuts_lt {next : ℕ} {low : BitVec 32} (h : next < 8) :
    ∀ kv ∈ padPuts next low previous p, kv.1 < 42 := by
  unfold padPuts indexPuts
  split <;> simp <;> omega

theorem touchPuts_lt {next : ℕ} {low : BitVec 32} (h : next < 8) :
    ∀ kv ∈ touchPuts next low p, kv.1 < 24 := by
  unfold touchPuts indexPuts
  split <;> simp <;> omega

theorem latest_append (l l' : List (ℕ × BitVec 32)) (v : BitVec 32) :
    latest (l ++ l') j v = latest l' j (latest l j v) := List.foldl_append ..

/-- A word that is none of `updateIndex`. -/
theorem latest_indexPuts_other {next : ℕ} {low v : BitVec 32} (h : 4 < j) :
    latest (indexPuts next low tick) j v = v := by
  refine latest_of_not_mem ?_
  unfold indexPuts
  split <;> simp <;> omega

/-- A word in front of the entries. -/
theorem latest_padPuts_head {next : ℕ} {low v : BitVec 32} (h : j ≤ 4) :
    latest (padPuts next low previous p) j v = latest (indexPuts next low p.tick) j v := by
  rw [padPuts, latest_append]
  refine latest_of_not_mem ?_
  simp
  omega

theorem latest_touchPuts_head {next : ℕ} {low v : BitVec 32} (h : j ≤ 4) :
    latest (touchPuts next low p) j v = latest (indexPuts next low p.tick) j v := by
  rw [touchPuts, latest_append]
  refine latest_of_not_mem ?_
  simp
  omega

theorem latest_indexPuts_active {next : ℕ} {low v : BitVec 32} :
    latest (indexPuts next low tick) 4 v = BitVec.ofNat 32 next := by
  unfold indexPuts
  split <;> simp [latest]

/-- The times afterwards. -/
theorem latest_indexPuts_times (next : ℕ) (low : BitVec 32) (tick : BitVec 64)
    (w : ℕ → BitVec 32) :
    (next = 0 → latest (indexPuts next low tick) 0 (w 0) = tick.extractLsb' 0 32 ∧
      latest (indexPuts next low tick) 1 (w 1) = tick.extractLsb' 32 32 ∧
      latest (indexPuts next low tick) 2 (w 2) = low ∧
      latest (indexPuts next low tick) 3 (w 3) = low + 4) ∧
    (next ≠ 0 → ∀ j < 4, latest (indexPuts next low tick) j (w j) = w j) := by
  unfold indexPuts
  constructor
  · intro h
    simp [h, latest]
  · intro h j hj
    rw [if_neg h]
    exact latest_of_not_mem (by simp; omega)

/-- The words of an entry of the first ring. -/
theorem latest_padPuts_entry {next c : ℕ} {low v : BitVec 32} (hc : c < 4) :
    latest (padPuts next low previous p) (10 + c + 4 * i) v =
      if i = next then
        [(padEntry previous p).currentBinary, (padEntry previous p).activatedBinary,
          (padEntry previous p).deactivatedBinary, (padEntry previous p).circlePad].getD c 0
      else v := by
  rw [padPuts, latest_append, latest_indexPuts_other (by omega)]
  split
  next h =>
    subst h
    simp only [latest, List.foldl_cons, List.foldl_nil]
    interval_cases c <;> split_ifs <;> first | rfl | (exfalso; omega)
  next h => exact latest_of_not_mem (by simp; omega)

theorem latest_touchPuts_entry {next c : ℕ} {low v : BitVec 32} (hc : c < 2) :
    latest (touchPuts next low p) (8 + c + 2 * i) v =
      if i = next then
        [(touchEntry p).y.setWidth 32 <<< 16 ||| (touchEntry p).x.setWidth 32,
          (touchEntry p).flags].getD c 0
      else v := by
  rw [touchPuts, latest_append, latest_indexPuts_other (by omega)]
  split
  next h =>
    subst h
    simp only [latest, List.foldl_cons, List.foldl_nil]
    interval_cases c <;> split_ifs <;> first | rfl | (exfalso; omega)
  next h => exact latest_of_not_mem (by simp; omega)

theorem wordAt_shift (memory : Bytes 32) (j : ℕ) :
    wordAt memory (start + 0xa8) j = wordAt memory start (42 + j) := by
  rw [wordAt, wordAt, Nat.mul_add, BitVec.ofNat_add, ← BitVec.add_assoc]
  rfl

theorem wordAt_updatePad (hj : j < 2 ^ 30) :
    wordAt (updatePad start previous p s).memory start j =
      latest (padPuts (nextIndex (activeEntry s.memory start)) (wordAt s.memory start 0) previous p)
        j (wordAt s.memory start j) := by
  rw [updatePad_eq, wordAt_puts hj fun kv h => ?_]
  have hlt := padPuts_lt (nextIndex_lt _) kv h
  omega

theorem wordAt_updateTouch (hj : j < 2 ^ 30) :
    wordAt (updateTouch start p s).memory (start + 0xa8) j =
      latest (touchPuts (nextIndex (activeEntry s.memory (start + 0xa8)))
        (wordAt s.memory (start + 0xa8) 0) p) j (wordAt s.memory (start + 0xa8) j) := by
  rw [updateTouch_eq, wordAt_puts hj fun kv h => ?_]
  have hlt := touchPuts_lt (nextIndex_lt _) kv h
  omega

/-- The first block does not change the second one's words. -/
theorem wordAt_updatePad_beside (hj : j < 2 ^ 20) :
    wordAt (updatePad start previous p s).memory (start + 0xa8) j =
      wordAt s.memory (start + 0xa8) j := by
  rw [wordAt_shift, wordAt_shift, wordAt_updatePad (by omega)]
  refine latest_of_not_mem fun kv h => ?_
  have hlt := padPuts_lt (nextIndex_lt _) kv h
  omega

/-- Nor the second block the first one's. -/
theorem wordAt_updateTouch_beside (hj : j < 42) :
    wordAt (updateTouch start p s).memory start j = wordAt s.memory start j := by
  have hback : start = start + 0xa8 + BitVec.ofNat 32 (4 * (2 ^ 30 - 42)) := by
    rw [BitVec.add_assoc]
    exact (BitVec.add_zero start).symm
  have hshift (memory : Bytes 32) :
      wordAt memory start j = wordAt memory (start + 0xa8) (2 ^ 30 - 42 + j) := by
    conv_lhs => rw [hback]
    rw [wordAt, wordAt, Nat.mul_add, BitVec.ofNat_add, ← BitVec.add_assoc]
  rw [hshift, hshift, wordAt_updateTouch (by omega)]
  refine latest_of_not_mem fun kv h => ?_
  have hlt := touchPuts_lt (nextIndex_lt _) kv h
  omega

theorem mem_written_updatePad {a : VAddr} (h : a ∈ (updatePad start previous p s).written) :
    a ∈ s.written ∨ InSection start padSize a := by
  rw [updatePad_eq, written_puts, List.mem_append, List.mem_map] at h
  rcases h with h | ⟨kv, hkv, rfl⟩
  · exact .inl h
  · have hlt := padPuts_lt (nextIndex_lt _) kv hkv
    exact .inr ⟨4 * kv.1, by unfold padSize; omega, rfl⟩

theorem mem_written_updateTouch {a : VAddr} (h : a ∈ (updateTouch start p s).written) :
    a ∈ s.written ∨ InSection (start + 0xa8) touchSize a := by
  rw [updateTouch_eq, written_puts, List.mem_append, List.mem_map] at h
  rcases h with h | ⟨kv, hkv, rfl⟩
  · exact .inl h
  · have hlt := touchPuts_lt (nextIndex_lt _) kv hkv
    exact .inr ⟨4 * kv.1, by unfold touchSize; omega, rfl⟩

end Step

/-! ## Rings -/

section Rings

variable {α : Type} {index active active' : BitVec 32} {samples : List α} {entryAt entryAt' : ℕ → α}

/-- The last eight samples are where the index says. -/
structure RingInv (index : BitVec 32) (samples : List α) (active : BitVec 32) (entryAt : ℕ → α) :
    Prop where
  next : nextIndex active = (index.toNat + samples.length + 1) % 8
  active : samples ≠ [] → active = BitVec.ofNat 32 ((index.toNat + samples.length) % 8)
  entries : ∀ k (h : k < samples.length), samples.length ≤ k + 8 →
    entryAt ((index.toNat + k + 1) % 8) = samples[k]

theorem RingInv.start : RingInv index ([] : List α) index entryAt where
  next := rfl
  active h := absurd rfl h
  entries _ h := absurd h (Nat.not_lt_zero _)

theorem RingInv.push (h : RingInv index samples active entryAt) {a : α}
    (hactive : active' = BitVec.ofNat 32 (nextIndex active))
    (hother : ∀ i < 8, i ≠ nextIndex active → entryAt' i = entryAt i)
    (hnew : entryAt' (nextIndex active) = a) :
    RingInv index (samples ++ [a]) active' entryAt' where
  next := by
    have hsmall : nextIndex active < 2 ^ 32 := (nextIndex_lt active).trans (by decide)
    change (active'.toNat + 1) % 8 = _
    rw [hactive, BitVec.toNat_ofNat, Nat.mod_eq_of_lt hsmall, List.length_append,
      List.length_singleton, h.next, Nat.mod_add_mod]
    rfl
  active _ := by rw [hactive, h.next, List.length_append, List.length_singleton, Nat.add_assoc]
  entries k hk hlast := by
    rw [List.length_append, List.length_singleton] at hk hlast
    by_cases hlt : k < samples.length
    · have hne : (index.toNat + k + 1) % 8 ≠ nextIndex active := by
        rw [h.next]
        omega
      rw [hother _ (Nat.mod_lt _ (by decide)) hne, h.entries k hlt (by omega),
        List.getElem_append_left hlt]
    · obtain rfl : k = samples.length := by omega
      rw [← h.next, hnew, List.getElem_append_right (Nat.le_refl _)]
      simp

theorem RingInv.newest (h : RingInv index samples active entryAt) (hne : samples ≠ []) :
    active = BitVec.ofNat 32 ((index.toNat + samples.length) % 8) ∧
      newest entryAt ((index.toNat + samples.length) % 8) samples.length =
        samples.reverse.take 8 := by
  refine ⟨h.active hne, List.ext_getElem (by simp [HID.newest, Nat.min_comm]) fun j hj hj' => ?_⟩
  have hj : j < min samples.length 8 := by simpa [HID.newest] using hj
  simp only [HID.newest, List.getElem_map, List.getElem_range, List.getElem_take,
    List.getElem_reverse]
  rw [← h.entries (samples.length - 1 - j) (by omega) (by omega)]
  congr 1
  omega

end Rings

section Times

variable {index : BitVec 32} {ticks : List (BitVec 64)} {w w' : ℕ → BitVec 32} {p : Poll}
  {polls : List Poll} {next : ℕ} {tick : BitVec 64}

/-- What the words of the times are. -/
structure TimesInv (ticks : List (BitVec 64)) (w : ℕ → BitVec 32) : Prop where
  time : ∀ t, ticks[0]? = some t → w 0 = t.extractLsb' 0 32 ∧ w 1 = t.extractLsb' 32 32
  previous : ∀ t, ticks[1]? = some t →
    w 2 = t.extractLsb' 0 32 ∧ w 3 = t.extractLsb' 0 32 + 4

theorem TimesInv.start : TimesInv [] w := ⟨by simp, by simp⟩

theorem TimesInv.step (h : TimesInv ticks w)
    (hw : ∀ j < 4, w' j = latest (indexPuts next (w 0) tick) j (w j)) :
    TimesInv (if next = 0 then tick :: ticks else ticks) w' := by
  obtain ⟨hzero, hother⟩ := latest_indexPuts_times next (w 0) tick w
  by_cases hn : next = 0
  · obtain ⟨h0, h1, h2, h3⟩ := hzero hn
    rw [if_pos hn]
    constructor
    · intro t ht
      obtain rfl : tick = t := by simpa using ht
      exact ⟨(hw 0 (by decide)).trans h0, (hw 1 (by decide)).trans h1⟩
    · intro t ht
      have hlow := (h.time t (by simpa using ht)).1
      rw [hw 2 (by decide), hw 3 (by decide), h2, h3, hlow]
      exact ⟨rfl, rfl⟩
  · have hsame : ∀ j < 4, w' j = w j := fun j hj => (hw j hj).trans (hother hn j hj)
    rw [if_neg hn]
    constructor
    · intro t ht
      rw [hsame 0 (by decide), hsame 1 (by decide)]
      exact h.time t ht
    · intro t ht
      rw [hsame 2 (by decide), hsame 3 (by decide)]
      exact h.previous t ht

theorem wrapTicks_append :
    wrapTicks index (polls ++ [p]) =
      if (index.toNat + polls.length + 1) % 8 = 0 then p.tick :: wrapTicks index polls
      else wrapTicks index polls := by
  have hplace : index.toNat + (1 + polls.length) = index.toNat + polls.length + 1 := by omega
  simp only [wrapTicks, List.zipIdx_append, List.filterMap_append, List.reverse_append,
    List.zipIdx_cons, List.zipIdx_nil, List.filterMap_cons, List.filterMap_nil, hplace]
  by_cases h : (index.toNat + polls.length + 1) % 8 = 0 <;> simp [h]

/-- Two words are the two halves. -/
theorem append_halves (t : BitVec 64) : t.extractLsb' 32 32 ++ t.extractLsb' 0 32 = t := by
  apply BitVec.eq_of_getLsbD_eq
  intro i hi
  simp only [BitVec.getLsbD_append, BitVec.getLsbD_extractLsb']
  grind

theorem high_append_low (t : BitVec 64) (h l : BitVec 32) :
    h ++ l = t ↔ h = t.extractLsb' 32 32 ∧ l = t.extractLsb' 0 32 := by
  constructor
  · rintro rfl
    constructor <;>
    · apply BitVec.eq_of_getLsbD_eq
      intro i hi
      simp only [BitVec.getLsbD_append, BitVec.getLsbD_extractLsb']
      grind
  · rintro ⟨rfl, rfl⟩
    exact append_halves t

/-- The times of a section are right exactly where the older one survives. -/
theorem TimesInv.times_iff {memory : Bytes 32} {start : VAddr}
    (h : TimesInv ticks (wordAt memory start)) :
    TimestampsExact memory start ticks ↔ ∀ t, ticks[1]? = some t → Survives t := by
  have hprevious (t : BitVec 64) (ht : ticks[1]? = some t) :
      previousTimestamp memory start = t ↔ Survives t := by
    obtain ⟨h2, h3⟩ := h.previous t ht
    rw [previousTimestamp, high_append_low, h2, h3, Survives]
    simp [eq_comm]
  constructor
  · exact fun hexact t ht => (hprevious t ht).1 (hexact.2 t ht)
  · intro hs
    refine ⟨fun t ht => ?_, fun t ht => (hprevious t ht).2 (hs t ht)⟩
    obtain ⟨h0, h1⟩ := h.time t ht
    rw [timestamp, h0, h1, append_halves]

end Times

/-! ## Runs -/

section Runs

variable {sharedMem : VAddr} {memory : Bytes 32} {polls : List Poll} {h : FakeHID} {p : Poll}

/-- The state after the polls, but for the newer halves of the times. -/
structure Inv (sharedMem : VAddr) (memory : Bytes 32) (polls : List Poll) (h : FakeHID) :
    Prop where
  previous : h.previousBinaryState = (0 :: polls.map Poll.binaryState).getLast (by simp)
  pad : RingInv (activeEntry memory sharedMem) (padSamples polls)
    (activeEntry h.memory sharedMem) (padEntryAt h.memory sharedMem)
  touch : RingInv (activeEntry memory (sharedMem + 0xa8)) (touchSamples polls)
    (activeEntry h.memory (sharedMem + 0xa8)) (touchEntryAt h.memory (sharedMem + 0xa8))
  padTimes : TimesInv (wrapTicks (activeEntry memory sharedMem) polls)
    (wordAt h.memory sharedMem)
  touchTimes : TimesInv (wrapTicks (activeEntry memory (sharedMem + 0xa8)) polls)
    (wordAt h.memory (sharedMem + 0xa8))
  padWrites : ∀ a ∈ h.padWrites, InSection sharedMem padSize a
  touchWrites : ∀ a ∈ h.touchWrites, InSection (sharedMem + 0xa8) touchSize a

theorem padSamples_length : (padSamples polls).length = polls.length := by
  simp [padSamples]

theorem zipWith_padEntry_append (previous : BitVec 32) :
    List.zipWith padEntry (previous :: (polls ++ [p]).map Poll.binaryState) (polls ++ [p]) =
      List.zipWith padEntry (previous :: polls.map Poll.binaryState) polls ++
        [padEntry ((previous :: polls.map Poll.binaryState).getLast (by simp)) p] := by
  induction polls generalizing previous with
  | nil => rfl
  | cons q polls ih => simpa using ih q.binaryState

theorem padSamples_append : padSamples (polls ++ [p]) = padSamples polls ++
    [padEntry ((0 :: polls.map Poll.binaryState).getLast (by simp)) p] :=
  zipWith_padEntry_append 0

theorem Inv.initial : Inv sharedMem memory [] (initial memory) where
  previous := rfl
  pad := .start
  touch := .start
  padTimes := .start
  touchTimes := .start
  padWrites := by simp [HID.initial]
  touchWrites := by simp [HID.initial]

/-- The words of the first block after a poll. -/
theorem wordAt_pad {j : ℕ} (hj : j < 42) :
    wordAt (onDataPollingTimer sharedMem h p).memory sharedMem j =
      latest (padPuts (nextIndex (activeEntry h.memory sharedMem)) (wordAt h.memory sharedMem 0)
        h.previousBinaryState p) j (wordAt h.memory sharedMem j) := by
  rw [onDataPollingTimer, wordAt_updateTouch_beside hj, wordAt_updatePad (by omega)]

/-- The words of the second block. -/
theorem wordAt_touch {j : ℕ} (hj : j < 24) :
    wordAt (onDataPollingTimer sharedMem h p).memory (sharedMem + 0xa8) j =
      latest (touchPuts (nextIndex (activeEntry h.memory (sharedMem + 0xa8)))
        (wordAt h.memory (sharedMem + 0xa8) 0) p) j (wordAt h.memory (sharedMem + 0xa8) j) := by
  simp only [onDataPollingTimer, activeEntry]
  rw [wordAt_updateTouch (by omega), activeEntry, wordAt_updatePad_beside (by omega),
    wordAt_updatePad_beside (by omega), wordAt_updatePad_beside (by omega)]

theorem activeEntry_pad :
    activeEntry (onDataPollingTimer sharedMem h p).memory sharedMem =
      BitVec.ofNat 32 (nextIndex (activeEntry h.memory sharedMem)) := by
  rw [activeEntry, wordAt_pad (by decide), latest_padPuts_head (by decide),
    latest_indexPuts_active]

theorem activeEntry_touch :
    activeEntry (onDataPollingTimer sharedMem h p).memory (sharedMem + 0xa8) =
      BitVec.ofNat 32 (nextIndex (activeEntry h.memory (sharedMem + 0xa8))) := by
  rw [activeEntry, wordAt_touch (by decide), latest_touchPuts_head (by decide),
    latest_indexPuts_active]

theorem padEntryAt_next {i : ℕ} (hi : i < 8) :
    padEntryAt (onDataPollingTimer sharedMem h p).memory sharedMem i =
      if i = nextIndex (activeEntry h.memory sharedMem) then padEntry h.previousBinaryState p
      else padEntryAt h.memory sharedMem i := by
  have hword (c : ℕ) (hc : c < 4) :=
    (@wordAt_pad sharedMem h p (10 + c + 4 * i) (by omega)).trans (latest_padPuts_entry hc)
  have h0 := hword 0 (by decide)
  have h1 := hword 1 (by decide)
  have h2 := hword 2 (by decide)
  have h3 := hword 3 (by decide)
  simp only [padEntryAt] at *
  rw [h0, h1, h2, h3]
  split <;> rfl

theorem touch_halves (e : TouchState) :
    (e.y.setWidth 32 <<< 16 ||| e.x.setWidth 32).extractLsb' 0 16 = e.x ∧
      (e.y.setWidth 32 <<< 16 ||| e.x.setWidth 32).extractLsb' 16 16 = e.y := by
  constructor <;>
  · apply BitVec.eq_of_getLsbD_eq
    intro i hi
    simp only [BitVec.getLsbD_extractLsb', BitVec.getLsbD_or, BitVec.getLsbD_shiftLeft,
      BitVec.getLsbD_setWidth]
    grind

theorem touchEntryAt_next {i : ℕ} (hi : i < 8) :
    touchEntryAt (onDataPollingTimer sharedMem h p).memory (sharedMem + 0xa8) i =
      if i = nextIndex (activeEntry h.memory (sharedMem + 0xa8)) then touchEntry p
      else touchEntryAt h.memory (sharedMem + 0xa8) i := by
  have hword (c : ℕ) (hc : c < 2) :=
    (@wordAt_touch sharedMem h p (8 + c + 2 * i) (by omega)).trans (latest_touchPuts_entry hc)
  have h0 := hword 0 (by decide)
  have h1 := hword 1 (by decide)
  obtain ⟨hx, hy⟩ := touch_halves (touchEntry p)
  simp only [touchEntryAt] at *
  rw [h0, h1]
  split
  · exact congrArg₂ (fun x y => (⟨x, y, (touchEntry p).flags⟩ : TouchState)) hx hy
  · rfl

theorem Inv.step (hinv : Inv sharedMem memory polls h) :
    Inv sharedMem memory (polls ++ [p]) (onDataPollingTimer sharedMem h p) where
  previous := by simp [onDataPollingTimer]
  pad := by
    rw [padSamples_append, ← hinv.previous]
    refine hinv.pad.push activeEntry_pad (fun i hi hne => ?_) ?_
    · rw [padEntryAt_next hi, if_neg hne]
    · rw [padEntryAt_next (nextIndex_lt _), if_pos rfl]
  touch := by
    rw [touchSamples, List.map_append]
    refine hinv.touch.push activeEntry_touch (fun i hi hne => ?_) ?_
    · rw [touchEntryAt_next hi, if_neg hne]
    · rw [touchEntryAt_next (nextIndex_lt _), if_pos rfl]
  padTimes := by
    have hnext := hinv.pad.next
    rw [padSamples_length] at hnext
    rw [wrapTicks_append, ← hnext]
    refine hinv.padTimes.step fun j hj => ?_
    rw [wordAt_pad (by omega), latest_padPuts_head (by omega)]
  touchTimes := by
    have hnext := hinv.touch.next
    rw [touchSamples, List.length_map] at hnext
    rw [wrapTicks_append, ← hnext]
    refine hinv.touchTimes.step fun j hj => ?_
    rw [wordAt_touch (by omega), latest_touchPuts_head (by omega)]
  padWrites a ha := by
    rcases mem_written_updatePad ha with h' | h'
    · exact hinv.padWrites a h'
    · exact h'
  touchWrites a ha := by
    rcases mem_written_updateTouch ha with h' | h'
    · exact hinv.touchWrites a h'
    · exact h'

theorem run_inv (polls : List Poll) : Inv sharedMem memory polls (run sharedMem memory polls) := by
  induction polls using List.reverseRecOn with
  | nil => exact .initial
  | append_singleton polls p ih =>
    rw [run, List.foldl_append]
    exact ih.step

/-- Neighbouring samples follow one another. -/
theorem follows_padEntry (previous : BitVec 32) {earlier : BinaryStateAndCirclePad}
    (hprev : earlier.currentBinary = previous) : Follows earlier (padEntry previous p) := by
  subst hprev
  unfold Follows padEntry
  apply BitVec.eq_of_getLsbD_eq
  intro i hi
  simp only [BitVec.getLsbD_and, BitVec.getLsbD_or, BitVec.getLsbD_not, hi, decide_true,
    Bool.true_and]
  grind

theorem padSamples_isChain (previous : BitVec 32) :
    (List.zipWith padEntry (previous :: polls.map Poll.binaryState) polls).IsChain Follows := by
  induction polls generalizing previous with
  | nil => exact .nil
  | cons p polls ih =>
    have htail := ih p.binaryState
    cases polls with
    | nil => exact .singleton _
    | cons q polls => exact .cons_cons (follows_padEntry _ rfl) htail

/-- **The rings of the HID module**: after any polls both rings hold the last samples, each pad
sample follows the one before, nothing is written outside the sections, and the times are those of
the last two turns exactly where the time of the turn before the last one survives. -/
theorem hidRings_exact_iff (sharedMem : VAddr) (memory : Bytes 32) (polls : List Poll)
    (hne : polls ≠ []) :
    Exact sharedMem memory polls (run sharedMem memory polls) ↔
      TurnsSurvive sharedMem memory polls := by
  have hinv : Inv sharedMem memory polls _ := run_inv polls
  have hpad : padSamples polls ≠ [] := by
    intro hnil
    rw [← List.length_eq_zero_iff, padSamples_length, List.length_eq_zero_iff] at hnil
    exact hne hnil
  have htouch : touchSamples polls ≠ [] := by simpa [touchSamples] using hne
  have htimes := and_congr hinv.padTimes.times_iff hinv.touchTimes.times_iff
  constructor
  · exact fun hexact => htimes.1 ⟨hexact.padTimes, hexact.touchTimes⟩
  · intro hsurvive
    obtain ⟨hpadTimes, htouchTimes⟩ := htimes.2 hsurvive
    obtain ⟨hactive, hnewest⟩ := hinv.pad.newest hpad
    obtain ⟨hactive', hnewest'⟩ := hinv.touch.newest htouch
    rw [padSamples_length] at hactive hnewest
    rw [touchSamples, List.length_map] at hactive' hnewest'
    refine ⟨⟨_, Nat.mod_lt _ (by decide), hactive, hnewest, ?_⟩,
      ⟨_, Nat.mod_lt _ (by decide), hactive', hnewest'⟩, hpadTimes, htouchTimes,
      hinv.padWrites, hinv.touchWrites⟩
    rw [hnewest]
    exact (List.isChain_reverse.2 (padSamples_isChain 0)).take 8

/-- Two turns of the rings, with nothing pressed and the same tick in all polls. -/
def twoTurns (tick : BitVec 64) : List Poll :=
  List.replicate 16 ⟨0xffff, 0x9c, 0x9c, 0xffff, 0xffff, tick⟩

theorem wrapTicks_twoTurns (tick : BitVec 64) : wrapTicks 0 (twoTurns tick) = [tick, tick] := by
  simp [wrapTicks, twoTurns, List.replicate_succ, List.zipIdx_cons]

/-- A tick whose upper half is 4. -/
theorem hidRings_exact_survives :
    Exact 0x14000000 (fun _ => 0) (twoTurns 0x400000000)
      (run 0x14000000 (fun _ => 0) (twoTurns 0x400000000)) := by
  refine (hidRings_exact_iff 0x14000000 (fun _ => 0) (twoTurns 0x400000000) (by decide)).2 ?_
  have hturns : ∀ t, (wrapTicks 0 (twoTurns 0x400000000))[1]? = some t → Survives t := by
    intro t ht
    rw [wrapTicks_twoTurns] at ht
    obtain rfl : 0x400000000 = t := Option.some.inj ht
    decide
  exact ⟨hturns, hturns⟩

/-- The first turn is at tick 0, but is said to have been at tick 2 ^ 34. -/
theorem hidRings_previousTimestamp :
    let polls := twoTurns 0
    let h := run 0x14000000 (fun _ => 0) polls
    wrapTicks (activeEntry (fun _ => 0) 0x14000000) polls = [0, 0] ∧
    previousTimestamp h.memory 0x14000000 = 0x400000000 ∧
    ¬ Exact 0x14000000 (fun _ => 0) polls h := by
  have hinv : Inv 0x14000000 (fun _ => 0) (twoTurns 0) _ := run_inv (twoTurns 0)
  obtain ⟨h2, h3⟩ := hinv.padTimes.previous 0 rfl
  refine ⟨rfl, ?_, fun hexact => ?_⟩
  · rw [previousTimestamp, h2, h3]
    rfl
  · have hturn := (hinv.padTimes.times_iff.1 hexact.padTimes) 0 rfl
    exact absurd hturn (by decide)

end Runs

end Mikage.HID
