import Mathlib
import Mikage.Framework.Exceptions
import Mikage.Lib.Run

/-!
# GPU command lists

A command list is a sequence of blocks: a value, a header, and as many further values as the header
says, padded to 8 bytes. `CommandListIterator` walks through the list in memory and prefetches: it
always holds the command it is going to yield next. A command may send it to another list.

- `CommandListIterator`: the iterator, with the addresses its last operation read.
- `commandsOf`: the commands the words of a list define.
- `Cursor`: an iterator next to the commands that are still to come.
- `Cursor.Sound`: where the iterator keeps in step. It does not where a block claims more values than
  its list has, nor where it is sent to an empty list before it has reached the end of the last one.
-/

namespace Mikage.Pica

abbrev Word := BitVec 32

/-- Physical memory as the iterator sees it: the words at byte addresses, and which ranges
`LookupContiguousMemoryBackedPage` finds. -/
structure PhysicalMemory where
  word : Nat → Word
  backed : (address numBytes : Word) → Bool

/-! ## The iterator -/

namespace CommandHeader

def cmdId (header : Word) : Word := header &&& 0xffff
def parameterMask (header : Word) : Word := header >>> 16 &&& 0xf
def extraDataLength (header : Word) : Nat := (header >>> 20 &&& 0x7ff).toNat
def groupCommands (header : Word) : Bool := header.getLsbD 31

/-- The bits of the register a command writes. -/
def writeMask (header : Word) : Word :=
  (if (parameterMask header).getLsbD 0 then 0xff else 0) |||
  (if (parameterMask header).getLsbD 1 then 0xff <<< 8 else 0) |||
  (if (parameterMask header).getLsbD 2 then 0xff <<< 16 else 0) |||
  (if (parameterMask header).getLsbD 3 then 0xff <<< 24 else 0)

end CommandHeader

structure CommandBlock where
  /-- There may be 4 bytes of padding between this and the next block. -/
  endAddress : Word := 0
  writeMask : Word := 0
  groupCommands : Bool := false
  deriving DecidableEq, Repr

structure CommandListIterator where
  currentValue : Word := 0
  /-- 0xffffffff at the end of the list. -/
  currentCommandId : Word := 0xffffffff
  startAddress : Word := 0
  nextAddress : Word
  endAddress : Word
  currentCommandBlock : CommandBlock := {}
  /-- The addresses the last operation read. -/
  reads : List Nat := []
  deriving DecidableEq, Repr

namespace CommandListIterator

/-- `Memory::Read` at an offset behind `startAddress`, where `data` begins. -/
def address (it : CommandListIterator) (offset : Word) : Nat := it.startAddress.toNat + offset.toNat

def updateCommandBlock (mem : PhysicalMemory) (it : CommandListIterator) :
    Except Exception CommandListIterator :=
  let it := { it with startAddress := it.nextAddress }
  if it.startAddress < it.endAddress then
    if mem.backed it.startAddress (it.endAddress - it.startAddress) then
      let header := mem.word (it.address 4)
      let nextAddress := it.nextAddress + 8
      .ok { it with
        currentValue := mem.word (it.address 0)
        nextAddress := nextAddress
        currentCommandId := CommandHeader.cmdId header
        currentCommandBlock := {
          endAddress := nextAddress + 4 * BitVec.ofNat 32 (CommandHeader.extraDataLength header)
          writeMask := CommandHeader.writeMask header
          groupCommands := CommandHeader.groupCommands header }
        reads := [it.address 0, it.address 4] }
    else .error (.runtimeError "LookupContiguousMemoryBackedPage")
  else .error (.contractViolated "start_address < end_address")

/-- The constructor. -/
def create (mem : PhysicalMemory) (addr size : Word) : Except Exception CommandListIterator :=
  let it : CommandListIterator := { nextAddress := addr, endAddress := addr + size }
  if size ≠ 0 then it.updateCommandBlock mem else .ok it

def restartAt (mem : PhysicalMemory) (it : CommandListIterator) (addr size : Word) :
    Except Exception CommandListIterator :=
  let it := { it with nextAddress := addr, endAddress := addr + size, reads := [] }
  if size ≠ 0 then it.updateCommandBlock mem else .ok it

/-- The next multiple of 8. -/
def aligned (address : Word) : Word := (address + 7) &&& 0xfffffff8

/-- `operator++`. -/
def advance (mem : PhysicalMemory) (it : CommandListIterator) :
    Except Exception CommandListIterator :=
  let it := { it with reads := [] }
  if it.nextAddress = it.currentCommandBlock.endAddress then
    if aligned it.nextAddress = it.endAddress then .ok { it with currentCommandId := 0xffffffff }
    else { it with nextAddress := aligned it.nextAddress }.updateCommandBlock mem
  else
    let offset := it.nextAddress - it.startAddress
    .ok { it with
      currentCommandId := if it.currentCommandBlock.groupCommands then it.currentCommandId + 1
        else it.currentCommandId
      currentValue := mem.word (it.address offset)
      nextAddress := it.nextAddress + 4
      reads := [it.address offset] }

/-- `operator bool`. -/
def live (it : CommandListIterator) : Bool := it.currentCommandId ≠ 0xffffffff

end CommandListIterator

/-! ## What a list says -/

structure Command where
  id : Word
  value : Word
  mask : Word
  deriving DecidableEq, Repr

/-- The commands for the further values of a block, whose last command had this id. -/
def dataCommands (group : Bool) (mask : Word) : Word → List Word → List Command
  | _, [] => []
  | id, value :: values =>
    let id := if group then id + 1 else id
    { id, value, mask } :: dataCommands group mask id values

/-- The commands of the blocks of a list. -/
def commandsOf : List Word → List Command
  | value :: header :: rest =>
    let n := CommandHeader.extraDataLength header
    let id := CommandHeader.cmdId header
    let mask := CommandHeader.writeMask header
    { id, value, mask } ::
      (dataCommands (CommandHeader.groupCommands header) mask id (rest.take n) ++
        commandsOf (rest.drop (n + n % 2)))
  | [] | [_] => []
termination_by words => words.length
decreasing_by simp only [List.length_drop, List.length_cons]; omega

/-- The words of the list at an address. -/
def PhysicalMemory.words (mem : PhysicalMemory) (addr : Word) (numBytes : Nat) : List Word :=
  (List.range (numBytes / 4)).map fun i => mem.word (addr.toNat + 4 * i)

/-! ## The iterator next to the commands -/

/-- An iterator, the list it was sent to last and the commands of that list still to come. -/
structure Cursor where
  it : CommandListIterator
  addr : Word
  size : Word
  rest : List Command

/-- What the handler of a command does with the iterator. -/
inductive Cursor.Op where
  | advance
  | restartAt (addr size : Word)

namespace Cursor

variable {mem : PhysicalMemory} {c c' : Cursor} {it it' : CommandListIterator} {addr size : Word}

def next (mem : PhysicalMemory) (c : Cursor) : Op → Except Exception Cursor
  | .advance => do
    let it ← c.it.advance mem
    pure { c with it, rest := c.rest.tail }
  | .restartAt addr size => do
    let it ← c.it.restartAt mem addr size
    pure { it, addr, size, rest := commandsOf (mem.words addr size.toNat) }

/-- The iterator does not run into what a list claims beyond its end, and is sent to an empty list
only when it is at the end already. -/
def Sound (c : Cursor) : Op → Prop
  | .advance => c.size ≠ 0 ∧
    if c.it.nextAddress = c.it.currentCommandBlock.endAddress then c.addr.toNat % 8 = 0
    else c.it.nextAddress < c.it.endAddress
  | .restartAt _ size => size = 0 → c.it.live = false

inductive Start (mem : PhysicalMemory) : Cursor → Prop where
  | create {addr size : Word} {it : CommandListIterator} : size.toNat % 8 = 0 →
      CommandListIterator.create mem addr size = .ok it →
      Start mem { it, addr, size, rest := commandsOf (mem.words addr size.toNat) }

def Op.Whole : Op → Prop
  | .advance => True
  | .restartAt _ size => size.toNat % 8 = 0

/-- An operation that `P` allows. -/
inductive Step (mem : PhysicalMemory) (P : Cursor → Op → Prop) : Cursor → Cursor → Prop where
  | step {c c' : Cursor} {op : Op} : P c op → op.Whole → c.next mem op = .ok c' → Step mem P c c'

/-- The iterator shows the next command, and its last operation stayed within the list. -/
structure Exact (c : Cursor) : Prop where
  live : c.it.live = !c.rest.isEmpty
  head : ∀ command ∈ c.rest.head?, command =
    { id := c.it.currentCommandId, value := c.it.currentValue,
      mask := c.it.currentCommandBlock.writeMask }
  reads : ∀ a ∈ c.it.reads, ∃ i, a = c.addr.toNat + 4 * i ∧ 4 * i + 4 ≤ c.size.toNat

/-- The list is in memory. -/
def Backed (mem : PhysicalMemory) (c : Cursor) : Prop :=
  ∀ a : Word, c.addr ≤ a → a < c.addr + c.size → mem.backed a (c.addr + c.size - a)

/-! ### Positions in a list -/

/-- The command at hand is the one before word `i`, and its block has `left` more values. -/
structure At (mem : PhysicalMemory) (c : Cursor) (i left : Nat) : Prop where
  whole : c.size.toNat % 8 = 0
  stop : c.it.endAddress.toNat = c.addr.toNat + c.size.toNat
  start : c.it.startAddress.toNat ≤ c.addr.toNat + 4 * i
  next : c.it.nextAddress.toNat = c.addr.toNat + 4 * i
  inside : 4 * i ≤ c.size.toNat
  block : c.it.currentCommandBlock.endAddress = c.it.nextAddress + 4 * BitVec.ofNat 32 left
  short : left < 2 ^ 11
  id : c.it.currentCommandId.toNat + left < 2 ^ 17
  rest : c.rest =
    { id := c.it.currentCommandId, value := c.it.currentValue,
      mask := c.it.currentCommandBlock.writeMask } ::
    (dataCommands c.it.currentCommandBlock.groupCommands c.it.currentCommandBlock.writeMask
      c.it.currentCommandId (((mem.words c.addr c.size.toNat).drop i).take left) ++
    commandsOf ((mem.words c.addr c.size.toNat).drop (i + left + (i + left) % 2)))

/-- The end of a list that is not empty. -/
structure Over (c : Cursor) : Prop where
  id : c.it.currentCommandId = 0xffffffff
  rest : c.rest = []
  stay : c.size ≠ 0 → c.it.nextAddress = c.it.currentCommandBlock.endAddress ∧
    CommandListIterator.aligned c.it.nextAddress = c.it.endAddress

theorem words_length (numBytes : Nat) : (mem.words addr numBytes).length = numBytes / 4 := by
  simp [PhysicalMemory.words]

theorem words_drop {numBytes i : Nat} (h : i < numBytes / 4) :
    (mem.words addr numBytes).drop i =
      mem.word (addr.toNat + 4 * i) :: (mem.words addr numBytes).drop (i + 1) := by
  rw [List.drop_eq_getElem_cons (by rw [words_length]; exact h)]
  simp [PhysicalMemory.words]

theorem words_drop_nil {numBytes i : Nat} (h : numBytes / 4 ≤ i) :
    (mem.words addr numBytes).drop i = [] :=
  List.drop_eq_nil_of_le (by rw [words_length]; exact h)

theorem extraDataLength_lt (header : Word) : CommandHeader.extraDataLength header < 2 ^ 11 := by
  rw [CommandHeader.extraDataLength, BitVec.toNat_and]
  exact Nat.lt_of_le_of_lt Nat.and_le_right (by decide)

theorem cmdId_lt (header : Word) : (CommandHeader.cmdId header).toNat < 2 ^ 16 := by
  rw [CommandHeader.cmdId, BitVec.toNat_and]
  exact Nat.lt_of_le_of_lt Nat.and_le_right (by decide)

theorem aligned_toNat {a : Word} (h : a.toNat + 7 < 2 ^ 32) :
    (CommandListIterator.aligned a).toNat = (a.toNat + 7) / 8 * 8 := by
  have hbit : ∀ i : Fin 32, (0xfffffff8#32).getLsbD i = decide (3 ≤ i.val) := by decide
  have hmask : ∀ x : Word, x &&& 0xfffffff8#32 = x >>> 3 <<< 3 := by
    intro x
    refine BitVec.eq_of_getLsbD_eq fun i hi => ?_
    have hi' := hbit ⟨i, hi⟩
    rw [BitVec.getLsbD_and, hi', BitVec.getLsbD_shiftLeft, BitVec.getLsbD_ushiftRight]
    by_cases h3 : 3 ≤ i
    · simp [h3, hi, Nat.not_lt.2 h3]
    · simp [h3, Nat.not_le.1 h3]
  have h7 : (7 : Word).toNat = 7 := rfl
  have hval : CommandListIterator.aligned a = (a + 7) >>> 3 <<< 3 := hmask (a + 7)
  rw [hval, BitVec.toNat_shiftLeft, BitVec.toNat_ushiftRight,
    BitVec.toNat_add, h7, Nat.shiftLeft_eq, Nat.shiftRight_eq_div_pow]
  omega

/-- The iterator after the two words of a block's beginning. -/
theorem updateCommandBlock_ok (h : it.updateCommandBlock mem = .ok it') :
    it.nextAddress < it.endAddress ∧ it' = { it with
      startAddress := it.nextAddress
      currentValue := mem.word it.nextAddress.toNat
      currentCommandId := CommandHeader.cmdId (mem.word (it.nextAddress.toNat + 4))
      nextAddress := it.nextAddress + 8
      currentCommandBlock := {
        endAddress := it.nextAddress + 8 + 4 * BitVec.ofNat 32
          (CommandHeader.extraDataLength (mem.word (it.nextAddress.toNat + 4)))
        writeMask := CommandHeader.writeMask (mem.word (it.nextAddress.toNat + 4))
        groupCommands := CommandHeader.groupCommands (mem.word (it.nextAddress.toNat + 4)) }
      reads := [it.nextAddress.toNat, it.nextAddress.toNat + 4] } := by
  simp only [CommandListIterator.updateCommandBlock] at h
  split at h
  next hlt =>
    split at h
    next =>
      cases h
      exact ⟨hlt, rfl⟩
    next => cases h
  next => cases h

/-- A block that begins at an even word of the list. -/
theorem updateCommandBlock_at {i : Nat} (h : it.updateCommandBlock mem = .ok it')
    (hwhole : size.toNat % 8 = 0) (hstop : it.endAddress.toNat = addr.toNat + size.toNat)
    (hnext : it.nextAddress.toNat = addr.toNat + 4 * i) (hi : i % 2 = 0) :
    ∃ left, At mem ⟨it', addr, size, commandsOf ((mem.words addr size.toNat).drop i)⟩ (i + 2) left ∧
    ∀ a ∈ it'.reads, ∃ i, a = addr.toNat + 4 * i ∧ 4 * i + 4 ≤ size.toNat := by
  obtain ⟨hlt, rfl⟩ := updateCommandBlock_ok h
  have hlt : addr.toNat + 4 * i < addr.toNat + size.toNat := by
    rw [← hnext, ← hstop]
    exact hlt
  have hend := it.endAddress.isLt
  have h₁ : i < size.toNat / 4 := by omega
  have h₂ : i + 1 < size.toNat / 4 := by omega
  have h₃ : addr.toNat + 4 * i + 4 = addr.toNat + 4 * (i + 1) := by omega
  have h₈ : (it.nextAddress + 8).toNat = addr.toNat + 4 * (i + 2) := by
    have h8 : (8 : Word).toNat = 8 := rfl
    rw [BitVec.toNat_add, h8, Nat.mod_eq_of_lt (by omega)]
    omega
  rw [hnext, h₃]
  have hlen := extraDataLength_lt (mem.word (addr.toNat + 4 * (i + 1)))
  have hid := cmdId_lt (mem.word (addr.toNat + 4 * (i + 1)))
  refine ⟨CommandHeader.extraDataLength (mem.word (addr.toNat + 4 * (i + 1))), ?_, ?_⟩
  · constructor
    case whole => exact hwhole
    case stop => exact hstop
    case start =>
      show it.nextAddress.toNat ≤ addr.toNat + 4 * (i + 2)
      omega
    case next => exact h₈
    case inside =>
      show 4 * (i + 2) ≤ size.toNat
      omega
    case block => rfl
    case short => exact hlen
    case id =>
      show (CommandHeader.cmdId _).toNat + _ < _
      omega
    case rest =>
      have hpad : ∀ n, i + 2 + n + (i + 2 + n) % 2 = i + 2 + (n + n % 2) := by omega
      rw [words_drop h₁, words_drop h₂, commandsOf, List.drop_drop, hpad]
  · intro a ha
    simp only [List.mem_cons, List.not_mem_nil, or_false] at ha
    cases ha with
    | inl ha => exact ⟨i, ha, by omega⟩
    | inr ha => exact ⟨i + 1, ha, by omega⟩

/-- The iterator is somewhere in its list or at the end of it. -/
structure Held (mem : PhysicalMemory) (c : Cursor) : Prop where
  place : (∃ i left, At mem c i left) ∨ Over c
  reads : ∀ a ∈ c.it.reads, ∃ i, a = c.addr.toNat + 4 * i ∧ 4 * i + 4 ≤ c.size.toNat

theorem At.id_ne {i left : Nat} (h : At mem c i left) : c.it.currentCommandId ≠ 0xffffffff := by
  intro heq
  have hid := h.id
  rw [heq] at hid
  have : (0xffffffff : Word).toNat = 0xffffffff := rfl
  omega

theorem At.next_eq_iff {i left : Nat} (h : At mem c i left) :
    c.it.nextAddress = c.it.currentCommandBlock.endAddress ↔ left = 0 := by
  have hshort := h.short
  have h4 : (4 : Word).toNat = 4 := rfl
  rw [h.block, ← BitVec.toNat_inj, BitVec.toNat_add, BitVec.toNat_mul, BitVec.toNat_ofNat, h4]
  have := c.it.nextAddress.isLt
  omega

/-- A further value of the block. -/
theorem At.advance_value {i left : Nat} (h : At mem c i (left + 1))
    (hlt : c.it.nextAddress < c.it.endAddress) (hnext : c.next mem .advance = .ok c') :
    Held mem c' := by
  have hne : ¬ c.it.nextAddress = c.it.currentCommandBlock.endAddress := by
    rw [h.next_eq_iff]
    omega
  simp only [Cursor.next, CommandListIterator.advance, if_neg hne] at hnext
  cases hnext
  have hlt : c.addr.toNat + 4 * i < c.addr.toNat + c.size.toNat := by
    rw [← h.next, ← h.stop]
    exact hlt
  have hwhole := h.whole
  have hend := c.it.endAddress.isLt
  have hstop := h.stop
  have hshort := h.short
  have hid := h.id
  have hi : i < c.size.toNat / 4 := by omega
  have haddr : c.it.startAddress.toNat + (c.it.nextAddress - c.it.startAddress).toNat =
      c.addr.toNat + 4 * i := by
    have hstart := h.start
    have hstart' := c.it.startAddress.isLt
    rw [BitVec.toNat_sub, h.next]
    omega
  have h4 : (4 : Word).toNat = 4 := rfl
  have hone : (1 : Word).toNat = 1 := rfl
  constructor
  case place =>
    refine .inl ⟨i + 1, left, ?_⟩
    constructor
    case whole => exact hwhole
    case stop => exact hstop
    case start =>
      show c.it.startAddress.toNat ≤ c.addr.toNat + 4 * (i + 1)
      have := h.start
      omega
    case next =>
      show (c.it.nextAddress + 4).toNat = c.addr.toNat + 4 * (i + 1)
      rw [BitVec.toNat_add, h.next, h4, Nat.mod_eq_of_lt (by omega)]
      omega
    case inside =>
      show 4 * (i + 1) ≤ c.size.toNat
      omega
    case block =>
      show c.it.currentCommandBlock.endAddress = c.it.nextAddress + 4 + 4 * BitVec.ofNat 32 left
      rw [h.block, BitVec.ofNat_add, BitVec.mul_add, BitVec.add_assoc, BitVec.add_comm 4]
      rfl
    case short => omega
    case id =>
      show (if c.it.currentCommandBlock.groupCommands = true then c.it.currentCommandId + 1
        else c.it.currentCommandId).toNat + left < 2 ^ 17
      split
      · rw [BitVec.toNat_add, hone]
        omega
      · omega
    case rest =>
      have hpad : i + (left + 1) = i + 1 + left := by omega
      show c.rest.tail = _
      rw [h.rest, words_drop hi, List.take_succ_cons, dataCommands, hpad]
      simp only [CommandListIterator.address, haddr, List.cons_append, List.tail_cons]
  case reads =>
    intro a ha
    have hin : 4 * i + 4 ≤ c.size.toNat := by omega
    simp only [List.mem_singleton, CommandListIterator.address, haddr] at ha
    exact ⟨i, ha, hin⟩

/-- Past the last value of a block. -/
theorem At.advance_block {i : Nat} (h : At mem c i 0) (haligned : c.addr.toNat % 8 = 0)
    (hnext : c.next mem .advance = .ok c') : Held mem c' := by
  have hwhole := h.whole
  have hend := c.it.endAddress.isLt
  have hstop := h.stop
  have hinside := h.inside
  have heq := h.next_eq_iff.2 rfl
  have halign : (CommandListIterator.aligned c.it.nextAddress).toNat =
      c.addr.toNat + 4 * (i + i % 2) := by
    rw [aligned_toNat (by rw [h.next]; omega), h.next]
    omega
  have hrest : c.rest.tail = commandsOf ((mem.words c.addr c.size.toNat).drop (i + i % 2)) := by
    rw [h.rest, List.take_zero, dataCommands, List.nil_append, List.tail_cons, Nat.add_zero]
  simp only [Cursor.next, CommandListIterator.advance, if_pos heq] at hnext
  split at hnext
  next hover =>
    cases hnext
    have hsize : c.size.toNat / 4 ≤ i + i % 2 := by
      rw [← BitVec.toNat_inj, halign] at hover
      omega
    refine ⟨.inr ⟨rfl, ?_, fun _ => ⟨heq, hover⟩⟩, fun a ha => by cases ha⟩
    show c.rest.tail = []
    rw [hrest, words_drop_nil hsize, commandsOf]
  next =>
    obtain ⟨it, hit, hnext⟩ := bind_ok hnext
    cases hnext
    obtain ⟨left, hat, hreads⟩ := updateCommandBlock_at hit hwhole hstop halign (by omega)
    rw [hrest]
    exact ⟨.inl ⟨_, left, hat⟩, hreads⟩

theorem Over.advance (h : Over c) (hsize : c.size ≠ 0) (hnext : c.next mem .advance = .ok c') :
    Held mem c' := by
  obtain ⟨heq, hover⟩ := h.stay hsize
  simp only [next, CommandListIterator.advance, if_pos heq, if_pos hover] at hnext
  cases hnext
  refine ⟨.inr ⟨rfl, ?_, fun _ => ⟨heq, hover⟩⟩, fun a ha => by cases ha⟩
  show c.rest.tail = []
  rw [h.rest, List.tail_nil]

theorem Held.advance (h : Held mem c) (hs : c.Sound .advance)
    (hnext : c.next mem .advance = .ok c') : Held mem c' := by
  obtain ⟨hsize, hs⟩ := hs
  cases h.place with
  | inl hat =>
    obtain ⟨i, left, hat⟩ := hat
    cases left with
    | zero =>
      rw [if_pos (hat.next_eq_iff.2 rfl)] at hs
      exact hat.advance_block hs hnext
    | succ left =>
      rw [if_neg (by rw [hat.next_eq_iff]; omega)] at hs
      exact hat.advance_value hs hnext
  | inr hover => exact hover.advance hsize hnext

/-- The beginning of a list with at least one block. -/
theorem updateCommandBlock_start (hwhole : size.toNat % 8 = 0) (hnext : it.nextAddress = addr)
    (hstop : it.endAddress = addr + size) (h : it.updateCommandBlock mem = .ok it') :
    Held mem ⟨it', addr, size, commandsOf (mem.words addr size.toNat)⟩ := by
  obtain ⟨hlt, -⟩ := updateCommandBlock_ok h
  rw [hnext, hstop] at hlt
  have hlt : addr.toNat < (addr + size).toNat := hlt
  have hstop : it.endAddress.toNat = addr.toNat + size.toNat := by
    have haddr := addr.isLt
    have hsize := size.isLt
    rw [BitVec.toNat_add] at hlt
    rw [hstop, BitVec.toNat_add, Nat.mod_eq_of_lt]
    omega
  have hnext : it.nextAddress.toNat = addr.toNat + 4 * 0 := by rw [hnext]; rfl
  obtain ⟨left, hat, hreads⟩ := updateCommandBlock_at h hwhole hstop hnext rfl
  exact ⟨.inl ⟨_, left, hat⟩, hreads⟩

theorem commandsOf_empty : commandsOf (mem.words addr (0 : Word).toNat) = [] := by
  have : mem.words addr (0 : Word).toNat = [] := rfl
  rw [this, commandsOf]

theorem Start.held (h : Start mem c) : Held mem c := by
  cases h with
  | @create addr size it hwhole hit =>
    simp only [CommandListIterator.create] at hit
    split at hit
    next => exact updateCommandBlock_start hwhole rfl rfl hit
    next hsize =>
      cases hit
      have hsize : size = 0 := not_not.1 hsize
      refine ⟨.inr ⟨rfl, ?_, fun h => absurd hsize h⟩, fun a ha => by cases ha⟩
      show commandsOf (mem.words addr size.toNat) = []
      rw [hsize, commandsOf_empty]

theorem held_restartAt (hs : c.Sound (.restartAt addr size))
    (hwhole : size.toNat % 8 = 0) (hnext : c.next mem (.restartAt addr size) = .ok c') :
    Held mem c' := by
  simp only [next, CommandListIterator.restartAt] at hnext
  split at hnext
  next =>
    obtain ⟨it, hit, hnext⟩ := bind_ok hnext
    cases hnext
    exact updateCommandBlock_start hwhole rfl rfl hit
  next hsize =>
    have hsize : size = 0 := not_not.1 hsize
    have hdead := hs hsize
    cases hnext
    have hid : c.it.currentCommandId = 0xffffffff := by
      simpa [CommandListIterator.live] using hdead
    refine ⟨.inr ⟨hid, ?_, fun h => absurd hsize h⟩, fun a ha => by cases ha⟩
    show commandsOf (mem.words addr size.toNat) = []
    rw [hsize, commandsOf_empty]

theorem Held.step (h : Held mem c) (hs : Step mem Sound c c') : Held mem c' := by
  cases hs with
  | @step op hsound hwhole hnext =>
    cases op with
    | advance => exact h.advance hsound hnext
    | restartAt addr size => exact held_restartAt hsound hwhole hnext

theorem Held.exact (h : Held mem c) : c.Exact := by
  cases h.place with
  | inl hat =>
    obtain ⟨i, left, hat⟩ := hat
    constructor
    case live =>
      have hlive : c.it.live = true := decide_eq_true hat.id_ne
      rw [hlive, hat.rest]
      rfl
    case head =>
      intro command hhead
      rw [hat.rest] at hhead
      simpa using hhead.symm
    case reads => exact h.reads
  | inr hover =>
    constructor
    case live => simp [CommandListIterator.live, hover.id, hover.rest]
    case head =>
      intro command hhead
      rw [hover.rest] at hhead
      cases hhead
    case reads => exact h.reads

theorem updateCommandBlock_total (mem : PhysicalMemory) (it : CommandListIterator)
    (hlt : it.nextAddress < it.endAddress)
    (hbacked : mem.backed it.nextAddress (it.endAddress - it.nextAddress)) :
    ∃ it', it.updateCommandBlock mem = .ok it' := by
  simp only [CommandListIterator.updateCommandBlock, if_pos hlt, if_pos hbacked]
  exact ⟨_, rfl⟩

/-- The end of a list and the beginning of a block are never mistaken for one another. -/
theorem At.advance_block_total {i : Nat} (h : At mem c i 0) (haligned : c.addr.toNat % 8 = 0)
    (hbacked : c.Backed mem) : ∃ c', c.next mem .advance = .ok c' := by
  have hend := c.it.endAddress.isLt
  have hstop := h.stop
  have hinside := h.inside
  have hwhole := h.whole
  have heq := h.next_eq_iff.2 rfl
  have halign : (CommandListIterator.aligned c.it.nextAddress).toNat =
      c.addr.toNat + 4 * (i + i % 2) := by
    rw [aligned_toNat (by rw [h.next]; omega), h.next]
    omega
  simp only [Cursor.next, CommandListIterator.advance, if_pos heq]
  split
  next => exact ⟨_, rfl⟩
  next hover =>
    have hlt : CommandListIterator.aligned c.it.nextAddress < c.it.endAddress := by
      rw [← BitVec.toNat_inj, halign] at hover
      show (CommandListIterator.aligned c.it.nextAddress).toNat < _
      omega
    have hend : c.it.endAddress = c.addr + c.size := by
      rw [← BitVec.toNat_inj, BitVec.toNat_add, hstop]
      omega
    have hpage : mem.backed (CommandListIterator.aligned c.it.nextAddress)
        (c.it.endAddress - CommandListIterator.aligned c.it.nextAddress) := by
      rw [hend]
      refine hbacked _ ?_ (by rw [← hend]; exact hlt)
      show c.addr.toNat ≤ _
      rw [halign]
      omega
    obtain ⟨it', hit⟩ := updateCommandBlock_total mem
      { c.it with reads := [], nextAddress := CommandListIterator.aligned c.it.nextAddress }
      hlt hpage
    rw [hit]
    exact ⟨_, rfl⟩

theorem Held.advance_total (h : Held mem c) (hs : c.Sound .advance) (hbacked : c.Backed mem) :
    ∃ c', c.next mem .advance = .ok c' := by
  obtain ⟨hsize, hs⟩ := hs
  cases h.place with
  | inl hat =>
    obtain ⟨i, left, hat⟩ := hat
    cases left with
    | zero =>
      rw [if_pos (hat.next_eq_iff.2 rfl)] at hs
      exact hat.advance_block_total hs hbacked
    | succ left =>
      have hne : ¬ c.it.nextAddress = c.it.currentCommandBlock.endAddress := by
        rw [hat.next_eq_iff]
        omega
      simp only [Cursor.next, CommandListIterator.advance, if_neg hne]
      exact ⟨_, rfl⟩
  | inr hover =>
    obtain ⟨heq, hover⟩ := hover.stay hsize
    simp only [Cursor.next, CommandListIterator.advance, if_pos heq, if_pos hover]
    exact ⟨_, rfl⟩

/-- Through every chain of lists the iterator shows their commands in order, reads only within the
list it is in and goes on to its end, while no operation takes it past what the list holds. -/
theorem run_exact (h : Run.Reachable (Start mem) (Step mem Sound) c) :
    c.Exact ∧ (c.Sound .advance → c.Backed mem → ∃ c', c.next mem .advance = .ok c') := by
  have hheld : Held mem c := h.invariant (fun _ h => h.held) (fun _ _ h hs => h.step hs)
  exact ⟨hheld.exact, hheld.advance_total⟩

/-- One block at address 0, whose header claims one further value. -/
def oneBlock : PhysicalMemory where
  word a := if a = 4 then 1 <<< 20 else 0
  backed _ _ := true

/-- The iterator on `oneBlock`, in a list of `size` bytes. -/
def oneBlockCursor (next size : Word) (reads : List Nat) (rest : List Command) : Cursor where
  it := {
    currentCommandId := 0
    startAddress := 0
    nextAddress := next
    endAddress := size
    currentCommandBlock := { endAddress := 12, writeMask := 0, groupCommands := false }
    reads }
  addr := 0
  size
  rest

theorem oneBlock_start :
    Start oneBlock (oneBlockCursor 8 16 [0, 4] (commandsOf (oneBlock.words 0 16))) :=
  .create rfl rfl

theorem oneBlock_advance :
    (oneBlockCursor 8 16 [0, 4] (commandsOf (oneBlock.words 0 16))).next oneBlock .advance =
      .ok (oneBlockCursor 12 16 [8] (commandsOf (oneBlock.words 0 16)).tail) := rfl

theorem oneBlock_sound :
    (oneBlockCursor 8 16 [0, 4] (commandsOf (oneBlock.words 0 16))).Sound .advance := by
  refine ⟨by decide, ?_⟩
  show (8 : Word) < 16
  decide

theorem run_exact_oneBlock :
    (oneBlockCursor 12 16 [8] (commandsOf (oneBlock.words 0 16)).tail).Exact ∧
      ((oneBlockCursor 12 16 [8] (commandsOf (oneBlock.words 0 16)).tail).Sound .advance →
        (oneBlockCursor 12 16 [8] (commandsOf (oneBlock.words 0 16)).tail).Backed oneBlock →
        ∃ c', (oneBlockCursor 12 16 [8] (commandsOf (oneBlock.words 0 16)).tail).next oneBlock
          .advance = .ok c') :=
  run_exact (.next (.start oneBlock_start)
    (@Step.step _ _ _ _ .advance oneBlock_sound trivial oneBlock_advance))

theorem oneBlock_short_start :
    Start oneBlock (oneBlockCursor 8 8 [0, 4] (commandsOf (oneBlock.words 0 8))) :=
  .create rfl rfl

theorem oneBlock_short_advance :
    (oneBlockCursor 8 8 [0, 4] (commandsOf (oneBlock.words 0 8))).next oneBlock .advance =
      .ok (oneBlockCursor 12 8 [8] (commandsOf (oneBlock.words 0 8)).tail) := rfl

/-- In a list of 8 bytes the block claims a value that the list does not have. -/
theorem run_not_exact :
    ¬ ∀ (mem : PhysicalMemory) (c : Cursor),
      Run.Reachable (Start mem) (Step mem fun _ _ => True) c → c.Exact := by
  intro h
  have hexact := h oneBlock _ (.next (.start oneBlock_short_start)
    (@Step.step _ _ _ _ .advance trivial trivial oneBlock_short_advance))
  obtain ⟨i, ha, hi⟩ := hexact.reads 8 (List.mem_singleton.2 rfl)
  have ha : 8 = 0 + 4 * i := ha
  have hi : 4 * i + 4 ≤ 8 := hi
  omega

end Cursor

end Mikage.Pica
