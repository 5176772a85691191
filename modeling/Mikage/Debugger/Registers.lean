import Mathlib.Tactic
import Mikage.Debugger.PacketStream
import Mikage.Lib.Words

/-!
# The register packets of the GDB stub

GDB numbers the registers of a CPU. The stub reads one register for `p`, all of them for `g`, and
writes one for `P`, each with its own way from the number to the CPU.

- `getRegisterValue`, `setRegisterValue`: the two ways.
- `readRegister`, `readRegisters`, `writeRegister`: the handlers of `p`, `g` and `P`.
- `Served`: what an answer to `P` has to be.
-/

namespace Mikage.GDB

/-! ## Hexadecimal text -/

/-- A digit of what the stub and GDB print. -/
def hexDigit (k : ℕ) : UInt8 := if k < 10 then UInt8.ofNat (0x30 + k) else UInt8.ofNat (0x57 + k)

def byteHex (b : BitVec 8) : Bytes := [hexDigit (b.toNat / 16), hexDigit (b.toNat % 16)]

/-- A word in guest byte order. -/
def wordHex (v : BitVec 32) : Bytes :=
  (List.range 4).flatMap fun k => byteHex (Lib.Words.byteAt v k)

/-- A number without leading zeros. -/
def hexNumber (n : ℕ) : Bytes :=
  if n < 16 then [hexDigit n] else hexNumber (n / 16) ++ [hexDigit (n % 16)]
termination_by n

theorem hexCharToInt_hexDigit :
    ∀ {k : ℕ}, k < 16 → hexCharToInt (hexDigit k) = some (UInt8.ofNat k) := by
  decide

theorem digits_toNat : ∀ {a : ℕ}, a < 16 → ∀ {b : ℕ}, b < 16 →
    (UInt8.ofNat a <<< 4 ||| UInt8.ofNat b).toNat = 16 * a + b := by
  decide

theorem wordHex_length (v : BitVec 32) : (wordHex v).length = 8 := rfl

/-- A number of more than one digit begins with two of them, and the first is not zero. -/
theorem hexNumber_two (n : ℕ) (h : 16 ≤ n) : ∃ a b rest, 0 < a ∧ a < 16 ∧ b < 16 ∧
    hexNumber n = hexDigit a :: hexDigit b :: rest ∧ (n < 256 → 16 * a + b = n ∧ rest = []) := by
  induction n using Nat.strong_induction_on with
  | h n ih =>
    rw [hexNumber, if_neg (by omega)]
    by_cases hsmall : n / 16 < 16
    · refine ⟨n / 16, n % 16, [], by omega, hsmall, Nat.mod_lt n (by decide), ?_, fun _ =>
        ⟨Nat.div_add_mod n 16, rfl⟩⟩
      rw [hexNumber, if_pos hsmall]
      rfl
    · obtain ⟨a, b, rest, hpos, ha, hb, heq, -⟩ := ih (n / 16) (by omega) (by omega)
      exact ⟨a, b, rest ++ [hexDigit (n % 16)], hpos, ha, hb, by rw [heq]; rfl, fun h => by omega⟩

/-! ## Registers -/

/-- `ARM::State`, as far as GDB sees it, and whether the stub is attached to a process. -/
structure Cpu where
  reg : ℕ → BitVec 32
  cpsr : BitVec 32
  fpreg : ℕ → BitVec 32
  fpscr : BitVec 32
  attached : Bool

/-- How a handler ends when it does not answer. -/
inductive Failure where
  /-- An exception is thrown, which no one catches. -/
  | thrown
  /-- An empty optional is read, or a string is read behind its end. -/
  | undefined
  deriving DecidableEq, Repr

/-- `Thread::GetCPURegisterValue` -/
def Cpu.getCPURegisterValue (cpu : Cpu) (regIndex : ℕ) : BitVec 32 :=
  if regIndex < 16 then cpu.reg regIndex
  else if regIndex = 17 then cpu.cpsr
  else if 18 ≤ regIndex ∧ regIndex < 50 then cpu.fpreg (regIndex - 18)
  else if regIndex = 50 then cpu.fpscr
  else 0

def getRegisterValue (cpu : Cpu) (regIndex : ℕ) : Option (BitVec 32) :=
  if regIndex < 16 then some (cpu.getCPURegisterValue regIndex)
  else if regIndex = 25 then some (cpu.getCPURegisterValue 17)
  else if 26 ≤ regIndex ∧ regIndex ≤ 58 then some (cpu.getCPURegisterValue (regIndex - 26 + 18))
  else none

/-- `SetRegisterValue`. It calls `Thread::SetCPURegisterValue` for the core registers only. -/
def setRegisterValue (cpu : Cpu) (regIndex : ℕ) (value : BitVec 32) : Cpu :=
  if regIndex < 16 then { cpu with reg := Function.update cpu.reg regIndex value } else cpu

/-! ## The handlers -/

/-- `command[i]`. Right behind its end a string has a zero. -/
def charAt (command : Bytes) (i : ℕ) : Except Failure UInt8 :=
  if i ≤ command.length then .ok (command.getD i 0) else .error .undefined

/-- `*HexCharToInt(command[i])` -/
def digitAt (command : Bytes) (i : ℕ) : Except Failure UInt8 := do
  match hexCharToInt (← charAt command i) with
  | some digit => .ok digit
  | none => .error .undefined

def registerIndex (command : Bytes) : Except Failure ℕ := do
  if (hexCharToInt (← charAt command 2)).isSome then
    return ((← digitAt command 1) <<< 4 ||| (← digitAt command 2)).toNat
  else return (← digitAt command 1).toNat

/-- `command.find('=', 2)` -/
def findEquals (command : Bytes) : Option ℕ := ((command.drop 2).findIdx? (· = 0x3d)).map (· + 2)

def readValue (command : Bytes) (valuePos : ℕ) : Except Failure (BitVec 32) :=
  (List.range 4).foldlM (fun value digitPair => do
    let byte := (← digitAt command (valuePos + digitPair * 2)) <<< 4 |||
      (← digitAt command (valuePos + digitPair * 2 + 1))
    return value ||| (byte.toBitVec.setWidth 32 <<< (digitPair * 8))) 0

/-- `P` -/
def writeRegister (command : Bytes) (cpu : Cpu) : Except Failure (Bytes × Cpu) := do
  let index ← registerIndex command
  match findEquals command with
  | none => return ([0x45, 0x30, 0x30], cpu)
  | some pos =>
    if 26 ≤ index then throw .thrown
    else
      let value ← readValue command (pos + 1)
      return ([0x4f, 0x4b], setRegisterValue cpu index value)

/-- `p` -/
def readRegister (command : Bytes) (cpu : Cpu) : Except Failure Bytes := do
  let index ← registerIndex command
  if 26 ≤ index then throw .thrown
  else
    match getRegisterValue cpu index with
    | some value => return wordHex value
    | none => return List.replicate 8 0x78

/-- The registers in the order of the answer to `g`. -/
def reported : List ℕ := List.range 16 ++ [25] ++ (List.range 32).map (· + 26) ++ [58]

/-- `g` -/
def readRegisters (cpu : Cpu) : Bytes :=
  if cpu.attached then reported.flatMap fun i => wordHex ((getRegisterValue cpu i).getD 0)
  else [0x45, 0x30, 0x31]

/-! ## What the packets say -/

/-- The first word of a register of the target description in the answer to `g`, and its number of
words: `r0` to `pc`, `cpsr`, `d0` to `d15` and `fpscr`. -/
def described (n : ℕ) : Option (ℕ × ℕ) :=
  if n < 16 then some (n, 1)
  else if n = 25 then some (16, 1)
  else if 26 ≤ n ∧ n < 42 then some (17 + 2 * (n - 26), 2)
  else if n = 42 then some (49, 1)
  else none

/-- A value of the register, as many words of it as it has. -/
def valueHex (n : ℕ) (v : BitVec 64) : Bytes :=
  if (described n).map Prod.snd = some 2 then
    wordHex (v.extractLsb' 0 32) ++ wordHex (v.extractLsb' 32 32)
  else wordHex (v.extractLsb' 0 32)

/-- `P n=v` -/
def writePacket (n : ℕ) (v : BitVec 64) : Bytes :=
  0x50 :: (hexNumber n ++ 0x3d :: valueHex n v)

/-- `p n` -/
def readPacket (n : ℕ) : Bytes := 0x70 :: hexNumber n

/-- The words from the `k`th on in the answer to `g`. -/
def field (place : ℕ × ℕ) (cpu : Cpu) : Bytes :=
  ((readRegisters cpu).drop (8 * place.1)).take (8 * place.2)

/-- A register that is described is written, and no other; or the answer is an error and nothing
is written. -/
def Served (cpu : Cpu) (n : ℕ) (v : BitVec 64) : Prop :=
  (∃ cpu' place, writeRegister (writePacket n v) cpu = .ok ([0x4f, 0x4b], cpu') ∧
    described n = some place ∧
    readRegister (readPacket n) cpu' = .ok (valueHex n v) ∧
    (cpu'.attached = true → field place cpu' = valueHex n v) ∧
    ∀ m other, described m = some other → m ≠ n → field other cpu' = field other cpu) ∨
  ∃ code, writeRegister (writePacket n v) cpu = .ok (0x45 :: code, cpu)

/-! ## Reading a packet -/

section Packets

variable {s rest : Bytes}

theorem charAt_of_some {i : ℕ} {b : UInt8} (h : s[i]? = some b) : charAt s i = .ok b := by
  obtain ⟨hi, heq⟩ := List.getElem?_eq_some_iff.1 h
  rw [charAt, if_pos hi.le, List.getD_eq_getElem _ _ hi, heq]

theorem digitAt_hexDigit {i k : ℕ} (hk : k < 16) (h : s[i]? = some (hexDigit k)) :
    digitAt s i = .ok (UInt8.ofNat k) := by
  rw [digitAt, charAt_of_some h]
  change (match hexCharToInt (hexDigit k) with
    | some digit => Except.ok digit
    | none => .error Failure.undefined) = _
  rw [hexCharToInt_hexDigit hk]

/-- One digit, and no other behind it. -/
theorem registerIndex_one {n : ℕ} (hn : n < 16) (b : UInt8)
    (hrest : hexCharToInt (rest.getD 0 0) = none) :
    registerIndex (b :: hexDigit n :: rest) = .ok n := by
  have hchar : charAt (b :: hexDigit n :: rest) 2 = .ok (rest.getD 0 0) := by
    rw [charAt, if_pos (by simp)]
    rfl
  have hdigit : digitAt (b :: hexDigit n :: rest) 1 = .ok (UInt8.ofNat n) :=
    digitAt_hexDigit hn rfl
  rw [registerIndex, hchar]
  change (if (hexCharToInt (rest.getD 0 0)).isSome then _ else _) = _
  rw [hrest, hdigit]
  change Except.ok (UInt8.ofNat n).toNat = _
  rw [UInt8.toNat_ofNat', Nat.mod_eq_of_lt (by omega)]

/-- Two digits. -/
theorem registerIndex_two {a d : ℕ} (ha : a < 16) (hd : d < 16) (b : UInt8) :
    registerIndex (b :: hexDigit a :: hexDigit d :: rest) = .ok (16 * a + d) := by
  have hchar : charAt (b :: hexDigit a :: hexDigit d :: rest) 2 = .ok (hexDigit d) :=
    charAt_of_some rfl
  have hhigh : digitAt (b :: hexDigit a :: hexDigit d :: rest) 1 = .ok (UInt8.ofNat a) :=
    digitAt_hexDigit ha rfl
  have hlow : digitAt (b :: hexDigit a :: hexDigit d :: rest) 2 = .ok (UInt8.ofNat d) :=
    digitAt_hexDigit hd rfl
  rw [registerIndex, hchar]
  change (if (hexCharToInt (hexDigit d)).isSome then _ else _) = _
  rw [hexCharToInt_hexDigit hd, hhigh, hlow]
  change Except.ok (UInt8.ofNat a <<< 4 ||| UInt8.ofNat d).toNat = _
  rw [digits_toNat ha hd]

theorem or_bytes (v : BitVec 32) :
    (0 : BitVec 32) ||| (Lib.Words.byteAt v 0).setWidth 32 <<< 0 |||
      (Lib.Words.byteAt v 1).setWidth 32 <<< 8 ||| (Lib.Words.byteAt v 2).setWidth 32 <<< 16 |||
      (Lib.Words.byteAt v 3).setWidth 32 <<< 24 = v := by
  apply BitVec.eq_of_getLsbD_eq
  intro i hi
  simp only [Lib.Words.byteAt, BitVec.getLsbD_or, BitVec.getLsbD_shiftLeft, BitVec.getLsbD_setWidth,
    BitVec.getLsbD_extractLsb']
  grind

theorem readValue_wordHex {pos : ℕ} {v : BitVec 32} (h : s.drop pos = wordHex v ++ rest) :
    readValue s pos = .ok v := by
  have hat : ∀ j < 8, s[pos + j]? = (wordHex v)[j]? := fun j hj => by
    rw [← List.getElem?_drop, h, List.getElem?_append_left (by rwa [wordHex_length])]
  have hbyte : ∀ k < 4,
      digitAt s (pos + k * 2) = .ok (UInt8.ofNat ((Lib.Words.byteAt v k).toNat / 16)) ∧
      digitAt s (pos + k * 2 + 1) = .ok (UInt8.ofNat ((Lib.Words.byteAt v k).toNat % 16)) := by
    intro k hk
    have hlt : (Lib.Words.byteAt v k).toNat < 256 := (Lib.Words.byteAt v k).isLt
    refine ⟨digitAt_hexDigit (by omega) ?_, digitAt_hexDigit (Nat.mod_lt _ (by decide)) ?_⟩
    · rw [hat (k * 2) (by omega)]
      interval_cases k <;> rfl
    · rw [Nat.add_assoc, hat (k * 2 + 1) (by omega)]
      interval_cases k <;> rfl
  have hpair : ∀ b : BitVec 8,
      (UInt8.ofNat (b.toNat / 16) <<< 4 ||| UInt8.ofNat (b.toNat % 16)).toBitVec = b := fun b => by
    apply BitVec.eq_of_toNat_eq
    have hlt : b.toNat < 256 := b.isLt
    have := digits_toNat (a := b.toNat / 16) (by omega) (Nat.mod_lt b.toNat (by decide : 16 > 0))
    rw [Nat.div_add_mod] at this
    exact this
  have hstep : ∀ k < 4, ∀ value : BitVec 32, (do
      let byte := (← digitAt s (pos + k * 2)) <<< 4 ||| (← digitAt s (pos + k * 2 + 1))
      return value ||| (byte.toBitVec.setWidth 32 <<< (k * 8)) : Except Failure (BitVec 32)) =
      .ok (value ||| (Lib.Words.byteAt v k).setWidth 32 <<< (k * 8)) := by
    intro k hk value
    rw [(hbyte k hk).1, (hbyte k hk).2]
    change Except.ok (value ||| BitVec.setWidth 32 (UInt8.toBitVec _) <<< (k * 8)) = _
    rw [hpair]
  rw [readValue, show List.range 4 = [0, 1, 2, 3] from rfl]
  simp only [List.foldlM_cons, List.foldlM_nil, hstep 0 (by decide), hstep 1 (by decide),
    hstep 2 (by decide), hstep 3 (by decide)]
  exact congrArg Except.ok (or_bytes v)

theorem wordHex_injective {v w : BitVec 32} (h : wordHex v = wordHex w) : v = w := by
  have hread : ∀ v, readValue (wordHex v) 0 = .ok v := fun v =>
    readValue_wordHex (List.append_nil _).symm
  have hv := hread v
  rw [h, hread w] at hv
  exact (Except.ok.inj hv).symm

theorem writeRegister_error {cpu cpu' : Cpu} {code : Bytes}
    (h : writeRegister s cpu = .ok (0x45 :: code, cpu')) : findEquals s = none := by
  unfold writeRegister at h
  obtain ⟨index, -, h⟩ := Mikage.bind_ok h
  revert h
  cases findEquals s with
  | none => exact fun _ => rfl
  | some pos =>
    intro h
    by_cases hindex : 26 ≤ index
    · simp only [hindex, if_true] at h
      cases h
    · simp only [hindex, if_false] at h
      obtain ⟨value, -, h⟩ := Mikage.bind_ok h
      cases h

theorem writeRegister_thrown (cpu : Cpu) {index pos : ℕ} (hindex : registerIndex s = .ok index)
    (hge : 26 ≤ index) (hpos : findEquals s = some pos) :
    writeRegister s cpu = .error .thrown := by
  rw [writeRegister, hindex]
  change (match findEquals s with
    | none => _
    | some pos => _) = _
  rw [hpos]
  exact if_pos hge

theorem writeRegister_set {cpu : Cpu} {index : ℕ} (pos : ℕ) {v : BitVec 32}
    (hindex : registerIndex s = .ok index) (hlt : index < 26) (hpos : findEquals s = some pos)
    (hvalue : s.drop (pos + 1) = wordHex v ++ rest) :
    writeRegister s cpu = .ok ([0x4f, 0x4b], setRegisterValue cpu index v) := by
  rw [writeRegister, hindex]
  change (match findEquals s with
    | none => _
    | some pos => _) = _
  rw [hpos]
  change (if 26 ≤ index then _ else _) = _
  rw [if_neg (by omega), readValue_wordHex hvalue]
  rfl

end Packets

/-! ## The answer to `g` -/

theorem flatMap_field {f : ℕ → Bytes} (hf : ∀ i, (f i).length = 8) (l : List ℕ) (k c : ℕ) :
    ((l.flatMap f).drop (8 * k)).take (8 * c) = ((l.drop k).take c).flatMap f := by
  have hdrop : ∀ k (l : List ℕ), (l.flatMap f).drop (8 * k) = (l.drop k).flatMap f := by
    intro k
    induction k with
    | zero => exact fun l => rfl
    | succ k ih =>
      intro l
      cases l with
      | nil => rfl
      | cons i l =>
        rw [List.flatMap_cons, List.drop_succ_cons, ← ih l,
          show 8 * (k + 1) = (f i).length + 8 * k by rw [hf]; ring, List.drop_append]
        simp
  have htake : ∀ c (l : List ℕ), (l.flatMap f).take (8 * c) = (l.take c).flatMap f := by
    intro c
    induction c with
    | zero => exact fun l => rfl
    | succ c ih =>
      intro l
      cases l with
      | nil => rfl
      | cons i l =>
        rw [List.flatMap_cons, List.take_succ_cons, List.flatMap_cons, ← ih l,
          show 8 * (c + 1) = (f i).length + 8 * c by rw [hf]; ring, List.take_length_add_append]
  rw [hdrop, htake]

theorem field_eq (place : ℕ × ℕ) {cpu : Cpu} (h : cpu.attached = true) :
    field place cpu = ((reported.drop place.1).take place.2).flatMap
      fun i => wordHex ((getRegisterValue cpu i).getD 0) := by
  rw [field, readRegisters, if_pos h, flatMap_field fun i => wordHex_length _]

/-- The core registers in the field of a register of the description. -/
theorem eq_of_mem_field {m i : ℕ} {place : ℕ × ℕ} (h : described m = some place)
    (hi : i ∈ (reported.drop place.1).take place.2) (hcore : i < 16) : i = m := by
  have hfloat : ∀ i ∈ reported.drop 16, 16 ≤ i := by decide
  have hlate : 16 ≤ place.1 → 16 ≤ i := by
    intro hle
    have hmem := List.mem_of_mem_take hi
    rw [show place.1 = 16 + (place.1 - 16) by omega, ← List.drop_drop] at hmem
    exact hfloat i (List.mem_of_mem_drop hmem)
  unfold described at h
  split_ifs at h with hm
  · obtain rfl : (m, 1) = place := Option.some.inj h
    have hone : ∀ m < 16, (reported.drop m).take 1 = [m] := by decide
    rw [hone m hm] at hi
    exact List.mem_singleton.1 hi
  all_goals
    rw [← Option.some.inj h] at hlate
    have := hlate (by dsimp only; omega)
    omega

/-! ## Writing a register -/

section Writing

variable {n : ℕ} {v : BitVec 64}

theorem valueHex_core (h : (described n).map Prod.snd ≠ some 2) :
    valueHex n v = wordHex (v.extractLsb' 0 32) := if_neg h

theorem findEquals_writePacket (h : 16 ≤ n) : ∃ pos, findEquals (writePacket n v) = some pos := by
  obtain ⟨a, b, rest, -, -, -, heq, -⟩ := hexNumber_two n h
  have hmem : (0x3d : UInt8) ∈ (writePacket n v).drop 2 := by
    rw [writePacket, heq]
    simp
  obtain ⟨i, hi⟩ := Option.isSome_iff_exists.1
    (show (((writePacket n v).drop 2).findIdx? (· = 0x3d)).isSome = true by
      rw [List.findIdx?_isSome]
      exact List.any_eq_true.2 ⟨0x3d, hmem, rfl⟩)
  exact ⟨i + 2, by rw [findEquals, hi]; rfl⟩

theorem writeRegister_core (cpu : Cpu) (h : n < 16) :
    writeRegister (writePacket n v) cpu =
      .ok ([0x4f, 0x4b], setRegisterValue cpu n (v.extractLsb' 0 32)) := by
  have hpacket : writePacket n v = 0x50 :: hexDigit n :: 0x3d :: wordHex (v.extractLsb' 0 32) := by
    rw [writePacket, hexNumber, if_pos h, valueHex_core (by rw [described, if_pos h]; simp)]
    rfl
  rw [hpacket]
  exact writeRegister_set 2 (registerIndex_one h _ rfl) (by omega) rfl
    (List.append_nil _).symm

theorem writeRegister_cpsr (cpu : Cpu) : writeRegister (writePacket 25 v) cpu =
    .ok ([0x4f, 0x4b], cpu) := by
  have hpacket : writePacket 25 v =
      0x50 :: hexDigit 1 :: hexDigit 9 :: 0x3d :: wordHex (v.extractLsb' 0 32) := by
    rw [writePacket, hexNumber, hexNumber, valueHex_core (by decide)]
    rfl
  rw [hpacket]
  exact writeRegister_set 3 (registerIndex_two (by decide) (by decide) _) (by decide) rfl
    (List.append_nil _).symm

theorem readRegister_core (cpu : Cpu) (h : n < 16) :
    readRegister (readPacket n) cpu = .ok (wordHex (cpu.reg n)) := by
  have hpacket : readPacket n = 0x70 :: hexDigit n :: [] := by
    rw [readPacket, hexNumber, if_pos h]
  have hget : getRegisterValue cpu n = some (cpu.reg n) := by
    rw [getRegisterValue, if_pos h, Cpu.getCPURegisterValue, if_pos h]
  rw [hpacket, readRegister, registerIndex_one h _ rfl]
  change (if 26 ≤ n then _ else _) = _
  rw [if_neg (by omega), hget]
  rfl

theorem readRegister_cpsr (cpu : Cpu) :
    readRegister (readPacket 25) cpu = .ok (wordHex cpu.cpsr) := by
  have hpacket : readPacket 25 = 0x70 :: hexDigit 1 :: hexDigit 9 :: [] := by
    rw [readPacket, hexNumber, hexNumber]
    rfl
  rw [hpacket, readRegister, registerIndex_two (by decide) (by decide)]
  rfl

/-- A core register that is set is reported, and nothing else changes. -/
theorem getRegisterValue_set (cpu : Cpu) (h : n < 16) (w : BitVec 32) (i : ℕ) :
    getRegisterValue (setRegisterValue cpu n w) i =
      if i = n then some w else getRegisterValue cpu i := by
  rw [setRegisterValue, if_pos h]
  by_cases hi : i < 16
  · simp only [getRegisterValue, if_pos hi, Cpu.getCPURegisterValue, Function.update_apply]
    split_ifs <;> rfl
  · simp only [getRegisterValue, if_neg hi, Cpu.getCPURegisterValue]
    rw [if_neg (by omega : ¬i = n)]
    split_ifs <;> first | rfl | omega

theorem served_core (cpu : Cpu) (h : n < 16) : Served cpu n v := by
  have hdescribed : described n = some (n, 1) := if_pos h
  have hvalue : valueHex n v = wordHex (v.extractLsb' 0 32) :=
    valueHex_core (by rw [hdescribed]; simp)
  have hset : (setRegisterValue cpu n (v.extractLsb' 0 32)).attached = cpu.attached := by
    rw [setRegisterValue, if_pos h]
  refine .inl ⟨_, _, writeRegister_core cpu h, hdescribed, ?_, ?_, ?_⟩
  · rw [readRegister_core _ h, hvalue, setRegisterValue, if_pos h]
    exact congrArg (fun w => Except.ok (wordHex w)) (Function.update_self n _ _)
  · intro hattached
    have hone : ∀ n < 16, (reported.drop n).take 1 = [n] := by decide
    rw [field_eq _ hattached, hone n h, hvalue, List.flatMap_singleton, getRegisterValue_set cpu h,
      if_pos rfl]
    rfl
  · intro m other hm hne
    by_cases hattached : cpu.attached = true
    · rw [field_eq _ hattached, field_eq _ (hset.trans hattached)]
      refine List.flatMap_congr fun i hi => ?_
      rw [getRegisterValue_set cpu h, if_neg fun heq => hne ?_]
      rw [← heq]
      exact (eq_of_mem_field hm hi (heq ▸ h)).symm
    · rw [field, field, readRegisters, readRegisters, if_neg hattached,
        if_neg fun hattached' => hattached (hset.symm.trans hattached')]

theorem served_cpsr (cpu : Cpu) : Served cpu 25 v ↔ v.extractLsb' 0 32 = cpu.cpsr := by
  have hvalue : valueHex 25 v = wordHex (v.extractLsb' 0 32) := valueHex_core (by decide)
  constructor
  · rintro (⟨cpu', place, hwrite, -, hread, -, -⟩ | ⟨code, hwrite⟩)
    · rw [writeRegister_cpsr] at hwrite
      obtain rfl : cpu = cpu' := (Prod.mk.inj (Except.ok.inj hwrite)).2
      rw [readRegister_cpsr, hvalue] at hread
      exact (wordHex_injective (Except.ok.inj hread)).symm
    · rw [writeRegister_cpsr] at hwrite
      cases hwrite
  · intro heq
    refine .inl ⟨cpu, (16, 1), writeRegister_cpsr cpu, rfl, ?_, fun hattached => ?_,
      fun _ _ _ _ => rfl⟩
    · rw [readRegister_cpsr, hvalue, heq]
    · rw [field_eq _ hattached, hvalue, heq]
      exact List.flatMap_singleton _ _

theorem not_served (cpu : Cpu) (h : 16 ≤ n) (hcpsr : n ≠ 25) : ¬Served cpu n v := by
  obtain ⟨pos, hpos⟩ := findEquals_writePacket (v := v) h
  rintro (⟨cpu', place, hwrite, hplace, -, -, -⟩ | ⟨code, hwrite⟩)
  · obtain ⟨a, b, rest, hapos, ha, hb, heq, hsmall⟩ := hexNumber_two n h
    have hindex : registerIndex (writePacket n v) = .ok (16 * a + b) := by
      rw [writePacket, heq]
      exact registerIndex_two ha hb _
    have hrange : 26 ≤ n ∧ n < 256 := by
      unfold described at hplace
      split_ifs at hplace <;> omega
    have hthrown := writeRegister_thrown cpu hindex
      (by rw [(hsmall hrange.2).1]; exact hrange.1) hpos
    rw [hthrown] at hwrite
    cases hwrite
  · rw [writeRegister_error hwrite] at hpos
    cases hpos

/-- The core registers are written as they are read. The status register is not written, which a
write of its own value does not show. -/
theorem served_iff (cpu : Cpu) (n : ℕ) (v : BitVec 64) :
    Served cpu n v ↔ n < 16 ∨ n = 25 ∧ v.extractLsb' 0 32 = cpu.cpsr := by
  by_cases hcore : n < 16
  · exact iff_of_true (served_core cpu hcore) (.inl hcore)
  · by_cases hcpsr : n = 25
    · subst hcpsr
      rw [served_cpsr]
      simp
    · exact iff_of_false (not_served cpu (by omega) hcpsr) (by simp [hcore, hcpsr])

/-- A halted CPU that gets a status register. -/
def halted : Cpu :=
  { reg := fun _ => 0, cpsr := 0x10, fpreg := fun _ => 0, fpscr := 0, attached := true }

/-- The supervisor mode written to the status register is not what is read from it. -/
theorem not_served_cpsr : ¬Served halted 25 0x13 := by
  rw [served_cpsr]
  decide

end Writing

end Mikage.GDB
