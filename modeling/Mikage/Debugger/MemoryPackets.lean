import Mathlib.Tactic
import Mikage.Debugger.Registers

/-!
# The memory packets of the GDB stub

`X addr,length:data` writes the bytes of the data, where a `}` escapes the byte behind it, and
`m addr,length` reads them back.

- `writeMemory`, `readMemory`: the handlers of `X` and `m`.
- `WellFormed`: the packets that say what to write.
- `Handled`: what an answer to `X` has to be.
-/

namespace Mikage.GDB

/-! ## Numbers -/

def readDigits (ret : BitVec 32) (index : ℕ) : Bytes → Option (BitVec 32 × ℕ)
  | [] => some (ret, index)
  | b :: s =>
    match hexCharToInt b with
    | none => some (ret, index)
    | some digit =>
      if ret &&& 0xf0000000 ≠ 0 then none
      else readDigits (ret <<< 4 ||| digit.toBitVec.setWidth 32) (index + 1) s

def readHexNumber (str : Bytes) : Option (BitVec 32 × ℕ) :=
  match str.head?.bind hexCharToInt with
  | none => none
  | some _ => readDigits 0 0 str

/-- The number behind the digits `s`, which `v` is in front of. -/
def hexValueFrom (v : ℕ) (s : Bytes) : ℕ :=
  s.foldl (fun v b => 16 * v + ((hexCharToInt b).getD 0).toNat) v

def hexValue (s : Bytes) : ℕ := hexValueFrom 0 s

def isHex (b : UInt8) : Bool := (hexCharToInt b).isSome

def isSpace (b : UInt8) : Bool := b = 0x20 || (0x09 ≤ b && b ≤ 0x0d)

/-- `ss >> std::hex >> value` for a word: the value, what is left, and whether the stream is still
good. Nothing is stored when there is nothing to read. -/
def extract (s : Bytes) : Option (BitVec 32 × Bytes × Bool) :=
  let s := s.dropWhile isSpace
  if s = [] then none
  else
    let negative := s.head? = some 0x2d
    let s := if s.head? = some 0x2d ∨ s.head? = some 0x2b then s.tail else s
    let s := if s.take 2 = [0x30, 0x78] ∨ s.take 2 = [0x30, 0x58] then s.drop 2 else s
    let digits := s.takeWhile isHex
    let rest := s.dropWhile isHex
    if digits = [] then some (0, rest, false)
    else if 2 ^ 32 ≤ hexValue digits then some (0xffffffff, rest, false)
    else if negative then some (-BitVec.ofNat 32 (hexValue digits), rest, true)
    else some (BitVec.ofNat 32 (hexValue digits), rest, true)

/-! ## Memory -/

/-- The memory of the process that the stub is attached to: where its addresses are, and the bytes
there. Two addresses may be in one place. -/
structure Memory (Place : Type) where
  resolve : BitVec 32 → Option Place
  bytes : Place → UInt8

variable {Place : Type} [DecidableEq Place]

def Memory.write (mem : Memory Place) (addr : BitVec 32) (value : UInt8) :
    Option (Memory Place) :=
  (mem.resolve addr).map fun p => { mem with bytes := Function.update mem.bytes p value }

def Memory.read (mem : Memory Place) (addr : BitVec 32) : Option UInt8 :=
  (mem.resolve addr).map mem.bytes

/-! ## The handlers -/

/-- The byte that `X` writes for what is at `pos`, and the number of characters it skips for it. -/
def decodeAt (command : Bytes) (pos : ℕ) : Except Failure (UInt8 × ℕ) := do
  let value ← charAt command pos
  if value = 0x7d then return ((← charAt command (pos + 1)) ^^^ 0x20, 1) else return (value, 0)

/-- The loop of `X`, with the number of bytes it still has to write. -/
def writeLoop (command : Bytes) (address : BitVec 32) :
    ℕ → ℕ → ℕ → Memory Place → Except Failure (Memory Place)
  | 0, _, _, mem => .ok mem
  | n + 1, offset, start, mem => do
    let (value, skipped) ← decodeAt command (start + offset)
    match mem.write (address + BitVec.ofNat 32 offset) value with
    | none => throw .thrown
    | some mem => writeLoop command address n (offset + 1) (start + skipped) mem

/-- `X` -/
def writeMemory (command : Bytes) (mem : Memory Place) :
    Except Failure (Bytes × Memory Place) :=
  match readHexNumber (command.drop 1) with
  | none => .ok ([0x45, 0x30, 0x30], mem)
  | some (address, parsed) =>
    let start := 1 + (parsed + 1)
    if command.length < start then .error .undefined
    else
      match readHexNumber (command.drop start) with
      | none => .ok ([0x45, 0x30, 0x31], mem)
      | some (length, parsed) => do
        let start := start + (parsed + 1)
        if command.length < start then throw .thrown
        let mem ← writeLoop command address length.toNat 0 start mem
        return ([0x4f, 0x4b], mem)

/-- The loop of `m`: what it has put out when it ends, and whether it got through. -/
def readLoop (mem : Memory Place) : ℕ → BitVec 32 → Bytes × Bool
  | 0, _ => ([], true)
  | n + 1, address =>
    match mem.read address with
    | none => ([], false)
    | some value =>
      let out := readLoop mem n (address + 1)
      (byteHex value.toBitVec ++ out.1, out.2)

/-- `m` -/
def readMemory (command : Bytes) (mem : Memory Place) : Except Failure Bytes :=
  match extract (command.drop 1) with
  | some (address, rest, true) =>
    if rest = [] then .error .undefined
    else
      match extract (rest.drop 1) with
      | none => .error .undefined
      | some (length, _, _) =>
        let out := readLoop mem length.toNat address
        if out.2 = false ∧ out.1 = [] then .ok [0x45, 0x30, 0x30] else .ok out.1
  | _ => .error .undefined

/-! ## What the packets say -/

/-- The bytes that escaped data stand for. -/
def unescape : Bytes → Option Bytes
  | [] => some []
  | [b] => if b = 0x7d then none else some [b]
  | b :: b' :: s =>
    if b = 0x7d then (unescape s).map ((b' ^^^ 0x20) :: ·) else (unescape (b' :: s)).map (b :: ·)

/-- `X addr,length:data`, with the length of the data. -/
def WellFormed (command : Bytes) (address : ℕ) (data : Bytes) : Prop :=
  ∃ a l e, command = 0x58 :: (a ++ 0x2c :: (l ++ 0x3a :: e)) ∧ a ≠ [] ∧ (∀ b ∈ a, isHex b) ∧
    hexValue a = address ∧ l ≠ [] ∧ (∀ b ∈ l, isHex b) ∧ hexValue l = data.length ∧
    address < 2 ^ 32 ∧ data.length < 2 ^ 32 ∧ unescape e = some data

/-- `m addr,length` -/
def readCommand (address : ℕ) (length : ℕ) : Bytes :=
  0x6d :: (hexNumber address ++ 0x2c :: hexNumber length)

/-- The place of a byte. -/
def Memory.at (mem : Memory Place) (address offset : ℕ) : Option Place :=
  mem.resolve (BitVec.ofNat 32 address + BitVec.ofNat 32 offset)

/-- The bytes are at their addresses, and every other place is as it was. -/
structure Written (mem : Memory Place) (address : ℕ) (data : Bytes) (mem' : Memory Place) :
    Prop where
  resolve : mem'.resolve = mem.resolve
  written : ∀ k, ∀ b ∈ data[k]?, ∃ p, mem.at address k = some p ∧ mem'.bytes p = b
  kept : ∀ p, (∀ k < data.length, mem.at address k ≠ some p) → mem'.bytes p = mem.bytes p

/-- A packet that is well formed writes its bytes, which are then reported; any other is answered
with an error. -/
def Handled (mem : Memory Place) (command : Bytes) : Prop :=
  (∃ address data, WellFormed command address data ∧ ∃ mem',
    writeMemory command mem = .ok ([0x4f, 0x4b], mem') ∧ Written mem address data mem' ∧
    readMemory (readCommand address data.length) mem' =
      .ok (data.flatMap fun b => byteHex b.toBitVec)) ∨
  (¬∃ address data, WellFormed command address data) ∧
    ∃ code, writeMemory command mem = .ok (0x45 :: code, mem)

/-- Every byte has a place, and no place is to hold two values. -/
def Takes (mem : Memory Place) (address : ℕ) (data : Bytes) : Prop :=
  (∀ k < data.length, (mem.at address k).isSome) ∧
    ∀ j k, ∀ b ∈ data[j]?, ∀ b' ∈ data[k]?, mem.at address j = mem.at address k → b = b'

/-- The packets that are handled: one of the numbers is missing, and the first has a character
behind it, or it is all there. -/
def Accepted (mem : Memory Place) (command : Bytes) : Prop :=
  readHexNumber (command.drop 1) = none ∨
  (∃ address parsed, readHexNumber (command.drop 1) = some (address, parsed) ∧
    parsed + 2 ≤ command.length ∧ readHexNumber (command.drop (parsed + 2)) = none) ∨
  ∃ address data, WellFormed command address data ∧ Takes mem address data

/-! ## Reading numbers -/

section Numbers

theorem hexCharToInt_lt {b digit : UInt8} (h : hexCharToInt b = some digit) : digit.toNat < 16 := by
  unfold hexCharToInt at h
  simp only [UInt8.le_iff_toNat_le] at h
  split_ifs at h with h1 h2 h3 <;> obtain rfl := Option.some.inj h
  all_goals
    simp only [UInt8.toNat_add, UInt8.toNat_sub]
    simp at *
    omega

theorem le_hexValueFrom (v : ℕ) (s : Bytes) : v ≤ hexValueFrom v s := by
  induction s generalizing v with
  | nil => exact le_rfl
  | cons b s ih =>
    calc v ≤ 16 * v + ((hexCharToInt b).getD 0).toNat := by omega
      _ ≤ hexValueFrom v (b :: s) := ih _

theorem shift_digit {v d : ℕ} (hv : v < 2 ^ 28) (hd : d < 16) :
    BitVec.ofNat 32 v &&& 0xf0000000 = 0 ∧
      BitVec.ofNat 32 v <<< 4 ||| BitVec.ofNat 32 d = BitVec.ofNat 32 (16 * v + d) := by
  constructor
  · apply BitVec.eq_of_getLsbD_eq
    intro i hi
    have hhigh : 28 ≤ i → v.testBit i = false := fun hge =>
      Nat.testBit_lt_two_pow (hv.trans_le (Nat.pow_le_pow_right (by decide) hge))
    have hlow : ∀ i < 28, (0xf0000000 : BitVec 32).getLsbD i = false := by decide
    rw [BitVec.getLsbD_and, BitVec.getLsbD_ofNat]
    by_cases hlt : i < 28
    · rw [hlow i hlt]
      simp
    · rw [hhigh (by omega)]
      simp
  · apply BitVec.eq_of_toNat_eq
    rw [BitVec.toNat_or, BitVec.toNat_shiftLeft]
    simp only [BitVec.toNat_ofNat]
    rw [Nat.mod_eq_of_lt (by omega : v < 2 ^ 32), Nat.mod_eq_of_lt (by omega : d < 2 ^ 32),
      Nat.shiftLeft_eq, Nat.mod_eq_of_lt (by omega), Nat.mod_eq_of_lt (by omega),
      ← Nat.shiftLeft_eq, ← Nat.shiftLeft_add_eq_or_of_lt (by omega), Nat.shiftLeft_eq]
    omega

/-- Digits are read up to a character that is none. -/
theorem readDigits_append {s rest : Bytes} {v : ℕ} (index : ℕ) (hs : ∀ b ∈ s, isHex b)
    (hrest : rest.head?.bind hexCharToInt = none) (hlt : hexValueFrom v s < 2 ^ 32) :
    readDigits (BitVec.ofNat 32 v) index (s ++ rest) =
      some (BitVec.ofNat 32 (hexValueFrom v s), index + s.length) := by
  induction s generalizing v index with
  | nil =>
    cases rest with
    | nil => rfl
    | cons b rest =>
      have hnone : hexCharToInt b = none := hrest
      rw [List.nil_append, readDigits, hnone]
      rfl
  | cons b s ih =>
    obtain ⟨digit, hdigit⟩ := Option.isSome_iff_exists.1 (hs b List.mem_cons_self)
    have hstep : hexValueFrom v (b :: s) = hexValueFrom (16 * v + digit.toNat) s := by
      change hexValueFrom (16 * v + ((hexCharToInt b).getD 0).toNat) s = _
      rw [hdigit]
      rfl
    rw [hstep] at hlt ⊢
    have hle := le_hexValueFrom (16 * v + digit.toNat) s
    obtain ⟨hmask, hshift⟩ := shift_digit (v := v) (by omega) (hexCharToInt_lt hdigit)
    have hword : digit.toBitVec.setWidth 32 = BitVec.ofNat 32 digit.toNat := by
      rw [← BitVec.ofNat_toNat]
      rfl
    rw [List.cons_append, readDigits, hdigit]
    simp only [hmask, ne_eq, not_true_eq_false, if_false]
    rw [hword, hshift, ih _ (fun b hb => hs b (List.mem_cons_of_mem _ hb)) hlt, List.length_cons,
      Nat.add_assoc, Nat.add_comm 1]

theorem readHexNumber_append {s rest : Bytes} (hne : s ≠ []) (hs : ∀ b ∈ s, isHex b)
    (hrest : rest.head?.bind hexCharToInt = none) (hlt : hexValue s < 2 ^ 32) :
    readHexNumber (s ++ rest) = some (BitVec.ofNat 32 (hexValue s), s.length) := by
  obtain ⟨b, s, rfl⟩ := List.exists_cons_of_ne_nil hne
  obtain ⟨digit, hdigit⟩ := Option.isSome_iff_exists.1 (hs b List.mem_cons_self)
  rw [readHexNumber, List.cons_append, List.head?_cons, Option.bind_some, hdigit]
  have := readDigits_append 0 hs hrest hlt
  rw [Nat.zero_add] at this
  exact this

theorem isHex_hexDigit {k : ℕ} (h : k < 16) : isHex (hexDigit k) := by
  rw [isHex, hexCharToInt_hexDigit h]
  rfl

theorem hexValueFrom_digit (v : ℕ) {k : ℕ} (h : k < 16) :
    hexValueFrom v [hexDigit k] = 16 * v + k := by
  change 16 * v + ((hexCharToInt (hexDigit k)).getD 0).toNat = _
  rw [hexCharToInt_hexDigit h, Option.getD_some, UInt8.toNat_ofNat', Nat.mod_eq_of_lt (by omega)]

theorem hexNumber_digits (n : ℕ) :
    hexNumber n ≠ [] ∧ (∀ b ∈ hexNumber n, isHex b) ∧ hexValue (hexNumber n) = n := by
  induction n using Nat.strong_induction_on with
  | h n ih =>
    rw [hexNumber]
    split_ifs with hsmall
    · refine ⟨List.cons_ne_nil _ _, fun b hb => ?_, ?_⟩
      · rw [List.mem_singleton.1 hb]
        exact isHex_hexDigit hsmall
      · exact (hexValueFrom_digit 0 hsmall).trans (by omega)
    · obtain ⟨hne, hhex, hvalue⟩ := ih (n / 16) (by omega)
      have hmod : n % 16 < 16 := Nat.mod_lt n (by decide)
      refine ⟨by simp, fun b hb => ?_, ?_⟩
      · rcases List.mem_append.1 hb with hb | hb
        · exact hhex b hb
        · rw [List.mem_singleton.1 hb]
          exact isHex_hexDigit hmod
      · calc hexValue (hexNumber (n / 16) ++ [hexDigit (n % 16)])
            = hexValueFrom (hexValue (hexNumber (n / 16))) [hexDigit (n % 16)] :=
              List.foldl_append
          _ = 16 * (n / 16) + n % 16 := by rw [hexValueFrom_digit _ hmod, hvalue]
          _ = n := Nat.div_add_mod n 16

theorem isHex_range {b : UInt8} (h : isHex b) : 0x30 ≤ b.toNat := by
  by_contra hlt
  have hlow : ∀ x : UInt8, 0x30 ≤ x.toNat → ¬x ≤ b := fun x hx hle =>
    hlt (hx.trans (UInt8.le_iff_toNat_le.1 hle))
  have hnone : hexCharToInt b = none := by
    rw [hexCharToInt, if_neg fun hle => hlow 0x61 (by decide) hle.1,
      if_neg fun hle => hlow 0x41 (by decide) hle.1, if_neg fun hle => hlow 0x30 (by decide) hle.1]
  rw [isHex, hnone] at h
  cases h

theorem take_two_ne {s rest : Bytes} {x : UInt8} (hs : ∀ b ∈ s, isHex b) (hne : s ≠ [])
    (hrest : rest.head? ≠ some x) (hx : isHex x = false) : (s ++ rest).take 2 ≠ [0x30, x] := by
  intro h
  obtain ⟨b, s, rfl⟩ := List.exists_cons_of_ne_nil hne
  have htail : ((s ++ rest).take 1) = [x] := (List.cons.inj h).2
  cases s with
  | nil =>
    rw [List.nil_append, List.take_one] at htail
    exact hrest (by cases hhead : rest.head? <;> simp_all)
  | cons c s =>
    have hc := hs c (by simp)
    rw [show c = x from (List.cons.inj htail).1, hx] at hc
    cases hc

/-- A number in hexadecimal digits, up to a character that is none, is what the stream stores. -/
theorem extract_append {s : Bytes} (rest : Bytes) (hne : s ≠ []) (hs : ∀ b ∈ s, isHex b)
    (hrest : ∀ b ∈ rest.head?, isHex b = false) (hx : ∀ b ∈ rest.head?, b ≠ 0x78 ∧ b ≠ 0x58)
    (hlt : hexValue s < 2 ^ 32) :
    extract (s ++ rest) = some (BitVec.ofNat 32 (hexValue s), rest, true) := by
  obtain ⟨b, t, rfl⟩ := List.exists_cons_of_ne_nil hne
  have hb := isHex_range (hs b List.mem_cons_self)
  have hspace : ((b :: t) ++ rest).dropWhile isSpace = (b :: t) ++ rest := by
    refine List.dropWhile_cons_of_neg fun h => ?_
    simp only [isSpace, Bool.or_eq_true, Bool.and_eq_true, decide_eq_true_eq,
      UInt8.le_iff_toNat_le] at h
    rcases h with rfl | ⟨-, h⟩
    · exact absurd hb (by decide)
    · simp at h
      omega
  have hsign : ∀ x : UInt8, x.toNat < 0x30 → ((b :: t) ++ rest).head? ≠ some x := by
    intro x hlt heq
    rw [List.cons_append, List.head?_cons] at heq
    rw [Option.some.inj heq] at hb
    omega
  have hstop : rest.takeWhile isHex = [] ∧ rest.dropWhile isHex = rest := by
    cases rest with
    | nil => exact ⟨rfl, rfl⟩
    | cons c rest => simp [hrest c rfl]
  rw [extract]
  simp only [hspace]
  rw [if_neg (by simp), if_neg (not_or.2 ⟨hsign _ (by decide), hsign _ (by decide)⟩),
    if_neg (not_or.2 ⟨take_two_ne hs hne (fun h => (hx _ h).1 rfl) (by decide),
      take_two_ne hs hne (fun h => (hx _ h).2 rfl) (by decide)⟩),
    List.takeWhile_append_of_pos hs, List.dropWhile_append_of_pos hs, hstop.1, hstop.2,
    List.append_nil, if_neg hne, if_neg (not_le.2 hlt)]
  exact if_neg (hsign 0x2d (by decide))

end Numbers

/-! ## Writing and reading memory -/

section Memory

variable {mem mem' : Memory Place}

/-- What the bytes `s`, written from `addr` on one after the other, leave. -/
def Memory.writeAll (mem : Memory Place) (addr : BitVec 32) : Bytes → Option (Memory Place)
  | [] => some mem
  | b :: s => (mem.write addr b).bind fun mem => mem.writeAll (addr + 1) s

theorem resolve_write {addr : BitVec 32} {b : UInt8} (h : mem.write addr b = some mem') :
    mem'.resolve = mem.resolve ∧ ∃ p, mem.resolve addr = some p ∧
      mem'.bytes = Function.update mem.bytes p b := by
  obtain ⟨p, hp, rfl⟩ := Option.map_eq_some_iff.1 h
  exact ⟨rfl, p, hp, rfl⟩

/-- Every place that is written holds one of the bytes that are written there. -/
theorem writeAll_spec {addr : BitVec 32} {s : Bytes} (h : mem.writeAll addr s = some mem') :
    mem'.resolve = mem.resolve ∧
      (∀ k < s.length, (mem.resolve (addr + BitVec.ofNat 32 k)).isSome) ∧
      ∀ p, mem'.bytes p = mem.bytes p ∧
          (∀ k < s.length, mem.resolve (addr + BitVec.ofNat 32 k) ≠ some p) ∨
        ∃ k, ∃ b ∈ s[k]?, mem.resolve (addr + BitVec.ofNat 32 k) = some p ∧ mem'.bytes p = b := by
  induction s generalizing mem addr with
  | nil =>
    obtain rfl : mem = mem' := Option.some.inj h
    exact ⟨rfl, fun k hk => absurd hk (Nat.not_lt_zero k), fun p =>
      .inl ⟨rfl, fun k hk => absurd hk (Nat.not_lt_zero k)⟩⟩
  | cons b s ih =>
    obtain ⟨mem1, hwrite, hrest⟩ := Option.bind_eq_some_iff.1 h
    obtain ⟨hresolve1, p0, hp0, hbytes1⟩ := resolve_write hwrite
    obtain ⟨hresolve, hall, hplaces⟩ := ih hrest
    rw [hresolve1] at hresolve hall hplaces
    have hnext : ∀ k, addr + 1 + BitVec.ofNat 32 k = addr + BitVec.ofNat 32 (k + 1) := fun k => by
      rw [BitVec.add_assoc, Nat.add_comm k, BitVec.ofNat_add]
      rfl
    have hfirst : addr + BitVec.ofNat 32 0 = addr := BitVec.add_zero addr
    refine ⟨hresolve, fun k hk => ?_, fun p => ?_⟩
    · cases k with
      | zero => rw [hfirst, hp0]; rfl
      | succ k => rw [← hnext]; exact hall k (Nat.lt_of_succ_lt_succ hk)
    · rcases hplaces p with ⟨hsame, hother⟩ | ⟨k, c, hc, hk, hvalue⟩
      · by_cases hp : p = p0
        · subst hp
          refine .inr ⟨0, b, rfl, by rw [hfirst, hp0], ?_⟩
          rw [hsame, hbytes1, Function.update_self]
        · refine .inl ⟨by rw [hsame, hbytes1, Function.update_of_ne hp], fun k hk => ?_⟩
          cases k with
          | zero =>
            rw [hfirst, hp0]
            exact fun heq => hp (Option.some.inj heq).symm
          | succ k => rw [← hnext]; exact hother k (Nat.lt_of_succ_lt_succ hk)
      · exact .inr ⟨k + 1, c, hc, by rw [← hnext, hk], hvalue⟩

theorem writeAll_isSome {addr : BitVec 32} {s : Bytes}
    (h : ∀ k < s.length, (mem.resolve (addr + BitVec.ofNat 32 k)).isSome) :
    ∃ mem', mem.writeAll addr s = some mem' := by
  induction s generalizing mem addr with
  | nil => exact ⟨mem, rfl⟩
  | cons b s ih =>
    obtain ⟨p, hp⟩ := Option.isSome_iff_exists.1 (h 0 (Nat.succ_pos _))
    rw [show addr + BitVec.ofNat 32 0 = addr from BitVec.add_zero addr] at hp
    obtain ⟨mem', hmem'⟩ :=
      @ih { mem with bytes := Function.update mem.bytes p b } (addr + 1) fun k hk => by
        have := h (k + 1) (Nat.succ_lt_succ hk)
        rwa [Nat.add_comm k, BitVec.ofNat_add, ← BitVec.add_assoc] at this
    exact ⟨mem', by rw [Memory.writeAll, Memory.write, hp]; exact hmem'⟩

/-- Bytes that are to be where one place holds one value are written. -/
theorem written_of_takes {address : ℕ} {data : Bytes} (h : Takes mem address data) :
    ∃ mem', mem.writeAll (BitVec.ofNat 32 address) data = some mem' ∧
      Written mem address data mem' := by
  obtain ⟨mem', hmem'⟩ := writeAll_isSome h.1
  obtain ⟨hresolve, hall, hplaces⟩ := writeAll_spec hmem'
  refine ⟨mem', hmem', hresolve, fun k b hb => ?_, fun p hp => ?_⟩
  · obtain ⟨hk, -⟩ := List.getElem?_eq_some_iff.1 hb
    obtain ⟨p, hp⟩ := Option.isSome_iff_exists.1 (hall k hk)
    refine ⟨p, hp, ?_⟩
    rcases hplaces p with ⟨-, hother⟩ | ⟨j, c, hc, hj, hvalue⟩
    · exact absurd hp (hother k hk)
    · rw [hvalue]
      exact h.2 j k c hc b hb (hj.trans hp.symm)
  · rcases hplaces p with ⟨hsame, -⟩ | ⟨k, c, hc, hk, -⟩
    · exact hsame
    · exact absurd hk (hp k (List.getElem?_eq_some_iff.1 hc).1)

omit [DecidableEq Place] in
/-- Bytes that can be read from `a` on are what `m` puts out. -/
theorem readLoop_eq {a : BitVec 32} {data : Bytes}
    (h : ∀ k, ∀ b ∈ data[k]?, mem.read (a + BitVec.ofNat 32 k) = some b) :
    readLoop mem data.length a = (data.flatMap fun b => byteHex b.toBitVec, true) := by
  induction data generalizing a with
  | nil => rfl
  | cons b s ih =>
    have hb : mem.read a = some b := by
      have := h 0 b rfl
      rwa [show a + BitVec.ofNat 32 0 = a from BitVec.add_zero a] at this
    have hs := ih (a := a + 1) fun k c hc => by
      have := h (k + 1) c hc
      rwa [Nat.add_comm k, BitVec.ofNat_add, ← BitVec.add_assoc] at this
    rw [List.length_cons, readLoop, hb]
    simp only [hs]
    rfl

end Memory

/-! ## Packets that are well formed -/

section Packets

variable {command : Bytes} {mem mem' : Memory Place} {address : ℕ} {data : Bytes}

theorem decodeAt_unescape {pos : ℕ} {b : UInt8}
    (h : unescape (command.drop pos) = some (b :: data)) :
    ∃ skipped, decodeAt command pos = .ok (b, skipped) ∧
      unescape (command.drop (pos + 1 + skipped)) = some data := by
  have hchar : ∀ k c, (command.drop pos)[k]? = some c → charAt command (pos + k) = .ok c :=
    fun k c hc => charAt_of_some (by rwa [List.getElem?_drop] at hc)
  have hfirst : ∀ c, (command.drop pos)[0]? = some c → charAt command pos = .ok c := hchar 0
  have hdrop : ∀ k, command.drop (pos + k) = (command.drop pos).drop k := fun k => by
    rw [List.drop_drop]
  rw [decodeAt]
  match he : command.drop pos, h with
  | [c], h =>
    rw [hfirst c (by rw [he]; rfl)]
    rw [unescape] at h
    split_ifs at h with hc
    obtain ⟨rfl, rfl⟩ := List.cons.inj (Option.some.inj h)
    exact ⟨0, if_neg hc, by rw [Nat.add_zero, hdrop, he]; rfl⟩
  | c :: c' :: s, h =>
    rw [hfirst c (by rw [he]; rfl)]
    rw [unescape] at h
    split_ifs at h with hc
    · obtain ⟨t, ht, heq⟩ := Option.map_eq_some_iff.1 h
      obtain ⟨rfl, rfl⟩ := List.cons.inj heq
      refine ⟨1, (if_pos hc).trans ?_, by rw [Nat.add_assoc, hdrop, he]; exact ht⟩
      rw [hchar 1 c' (by rw [he]; rfl)]
      rfl
    · obtain ⟨t, ht, heq⟩ := Option.map_eq_some_iff.1 h
      obtain ⟨rfl, rfl⟩ := List.cons.inj heq
      exact ⟨0, if_neg hc, by rw [Nat.add_zero, hdrop, he]; exact ht⟩

/-- The loop writes the bytes that its data stands for. -/
theorem writeLoop_eq {a : BitVec 32} {offset start : ℕ}
    (he : unescape (command.drop (start + offset)) = some data)
    (h : mem.writeAll (a + BitVec.ofNat 32 offset) data = some mem') :
    writeLoop command a data.length offset start mem = .ok mem' := by
  induction data generalizing mem offset start with
  | nil =>
    obtain rfl : mem = mem' := Option.some.inj h
    rfl
  | cons b s ih =>
    obtain ⟨skipped, hdecode, hrest⟩ := decodeAt_unescape he
    obtain ⟨mem1, hwrite, hall⟩ := Option.bind_eq_some_iff.1 h
    rw [List.length_cons, writeLoop, hdecode]
    change (match mem.write (a + BitVec.ofNat 32 offset) b with
      | none => throw Failure.thrown
      | some mem => writeLoop command a s.length (offset + 1) (start + skipped) mem) = _
    rw [hwrite]
    refine ih ?_ ?_
    · rwa [show start + skipped + (offset + 1) = start + offset + 1 + skipped by omega]
    · rwa [BitVec.ofNat_add, ← BitVec.add_assoc]

/-- The numbers and the data of a packet are found where they are. -/
theorem WellFormed.parse (h : WellFormed command address data) : ∃ n m,
    readHexNumber (command.drop 1) = some (BitVec.ofNat 32 address, n) ∧
    1 + (n + 1) + (m + 1) ≤ command.length ∧
    readHexNumber (command.drop (1 + (n + 1))) = some (BitVec.ofNat 32 data.length, m) ∧
    unescape (command.drop (1 + (n + 1) + (m + 1))) = some data := by
  obtain ⟨a, l, e, rfl, ha, hahex, rfl, hl, hlhex, hlength, halt, hllt, he⟩ := h
  have hdrop : ∀ (x y : UInt8) (s t : Bytes),
      (x :: (s ++ y :: t)).drop (1 + (s.length + 1)) = t := by
    intro x y s t
    rw [Nat.add_comm, List.drop_succ_cons, List.drop_append]
    simp
  refine ⟨a.length, l.length, readHexNumber_append ha hahex rfl halt, ?_, ?_, ?_⟩
  · simp
    omega
  · rw [hdrop, ← hlength]
    exact readHexNumber_append hl hlhex rfl (hlength ▸ hllt)
  · rw [← List.drop_drop, hdrop, Nat.add_comm l.length, ← he]
    congr 1
    rw [Nat.add_comm, List.drop_append]
    simp

theorem WellFormed.lt (h : WellFormed command address data) :
    address < 2 ^ 32 ∧ data.length < 2 ^ 32 := by
  obtain ⟨a, l, e, -, -, -, -, -, -, -, halt, hllt, -⟩ := h
  exact ⟨halt, hllt⟩

theorem writeMemory_wellFormed (h : WellFormed command address data)
    (hwrite : mem.writeAll (BitVec.ofNat 32 address) data = some mem') :
    writeMemory command mem = .ok ([0x4f, 0x4b], mem') := by
  obtain ⟨n, m, haddress, hlength, hcount, hdata⟩ := h.parse
  have hloop :
      writeLoop command (BitVec.ofNat 32 address) data.length 0 (1 + (n + 1) + (m + 1)) mem =
      .ok mem' :=
    writeLoop_eq hdata (by rwa [show BitVec.ofNat 32 address + BitVec.ofNat 32 0 = _ from
      BitVec.add_zero _])
  have hnat : (BitVec.ofNat 32 data.length).toNat = data.length := by
    rw [BitVec.toNat_ofNat, Nat.mod_eq_of_lt h.lt.2]
  rw [writeMemory, haddress]
  simp only
  rw [if_neg (by omega), hcount]
  simp only
  rw [if_neg (by omega), hnat, hloop]
  rfl

omit [DecidableEq Place] in
theorem readMemory_readCommand {length : ℕ} (ha : address < 2 ^ 32) (hl : length < 2 ^ 32) :
    readMemory (readCommand address length) mem =
      if (readLoop mem length (BitVec.ofNat 32 address)).2 = false ∧
          (readLoop mem length (BitVec.ofNat 32 address)).1 = [] then .ok [0x45, 0x30, 0x30]
      else .ok (readLoop mem length (BitVec.ofNat 32 address)).1 := by
  obtain ⟨hane, hahex, havalue⟩ := hexNumber_digits address
  obtain ⟨hlne, hlhex, hlvalue⟩ := hexNumber_digits length
  have haddress := extract_append (0x2c :: hexNumber length) hane hahex
    (fun b hb => by rw [← Option.some.inj hb]; rfl)
    (fun b hb => by rw [← Option.some.inj hb]; decide) (by rwa [havalue])
  have hlength := extract_append [] hlne hlhex (fun b hb => by cases hb)
    (fun b hb => by cases hb) (by rwa [hlvalue])
  rw [List.append_nil, hlvalue] at hlength
  rw [havalue] at haddress
  rw [readMemory, readCommand, List.drop_succ_cons, List.drop_zero, haddress]
  simp only
  rw [if_neg (List.cons_ne_nil _ _), List.drop_succ_cons, List.drop_zero, hlength]
  simp only [BitVec.toNat_ofNat, Nat.mod_eq_of_lt hl]

theorem handled_wellFormed (h : WellFormed command address data) (ht : Takes mem address data) :
    Handled mem command := by
  obtain ⟨mem', hall, hwritten⟩ := written_of_takes ht
  refine .inl ⟨address, data, h, mem', writeMemory_wellFormed h hall, hwritten, ?_⟩
  have hloop : readLoop mem' data.length (BitVec.ofNat 32 address) =
      (data.flatMap fun b => byteHex b.toBitVec, true) := readLoop_eq fun k b hb => by
    obtain ⟨p, hp, hvalue⟩ := hwritten.written k b hb
    rw [Memory.read, hwritten.resolve]
    exact (congrArg (Option.map mem'.bytes) hp).trans (congrArg some hvalue)
  rw [readMemory_readCommand h.lt.1 h.lt.2, hloop]
  exact if_neg (by simp)

omit [DecidableEq Place] in
theorem takes_of_written (h : Written mem address data mem') : Takes mem address data := by
  refine ⟨fun k hk => ?_, fun j k b hb b' hb' heq => ?_⟩
  · obtain ⟨p, hp, -⟩ := h.written k data[k] (List.getElem?_eq_getElem hk)
    rw [hp]
    rfl
  · obtain ⟨p, hp, hpb⟩ := h.written j b hb
    obtain ⟨q, hq, hqb⟩ := h.written k b' hb'
    rw [hp, hq] at heq
    rw [← hpb, ← hqb, Option.some.inj heq]

/-- The errors that are answered are those of the numbers. -/
theorem accepted_of_error {code : Bytes}
    (h : writeMemory command mem = .ok (0x45 :: code, mem')) : Accepted mem command := by
  unfold writeMemory at h
  cases haddress : readHexNumber (command.drop 1) with
  | none => exact .inl haddress
  | some number =>
    obtain ⟨a, n⟩ := number
    rw [haddress] at h
    simp only at h
    split_ifs at h with hstart
    have hadd : 1 + (n + 1) = n + 2 := by omega
    rw [hadd] at hstart h
    cases hlength : readHexNumber (command.drop (n + 2)) with
    | none => exact .inr (.inl ⟨a, n, haddress, not_lt.1 hstart, hlength⟩)
    | some number =>
      obtain ⟨l, m⟩ := number
      rw [hlength] at h
      simp only at h
      split_ifs at h with hstart'
      · cases h
      · obtain ⟨mem1, -, h⟩ := Mikage.bind_ok h
        cases h

theorem Handled.accepted (h : Handled mem command) : Accepted mem command := by
  rcases h with ⟨address, data, hformed, mem', -, hwritten, -⟩ | ⟨-, code, herror⟩
  · exact .inr (.inr ⟨address, data, hformed, takes_of_written hwritten⟩)
  · exact accepted_of_error herror

/-- The stub handles the packets that are all there and those that lack a number. It takes any
character for a separator, reads behind the end of a packet that is too short, and leaves out the
end of one that is too long. -/
theorem handled_iff (mem : Memory Place) (command : Bytes) :
    Handled mem command ↔ Accepted mem command := by
  refine ⟨Handled.accepted, ?_⟩
  rintro (haddress | ⟨a, n, haddress, hstart, hlength⟩ | ⟨address, data, hformed, htakes⟩)
  · refine .inr ⟨fun ⟨address, data, hformed⟩ => ?_, [0x30, 0x30], ?_⟩
    · obtain ⟨n, m, hparse, -⟩ := hformed.parse
      rw [haddress] at hparse
      cases hparse
    · rw [writeMemory, haddress]
  · have hadd : 1 + (n + 1) = n + 2 := by omega
    refine .inr ⟨fun ⟨address, data, hformed⟩ => ?_, [0x30, 0x31], ?_⟩
    · obtain ⟨n', m, hparse, -, hparse', -⟩ := hformed.parse
      rw [haddress] at hparse
      obtain rfl : n = n' := (Prod.mk.inj (Option.some.inj hparse)).2
      rw [hadd, hlength] at hparse'
      cases hparse'
    · rw [writeMemory, haddress]
      simp only
      rw [if_neg (by omega), hadd, hlength]
  · exact handled_wellFormed hformed htakes

/-- A byte of memory. -/
def oneByte : Memory Unit where
  resolve a := if a = 0 then some () else none
  bytes _ := 0

/-- `X0,0` has no colon, and the stub looks for the data behind its end. -/
theorem not_handled_short : ¬Handled oneByte [0x58, 0x30, 0x2c, 0x30] := by
  intro hhandled
  have hfirst : readHexNumber (([0x58, 0x30, 0x2c, 0x30] : Bytes).drop 1) = some (0, 1) := by decide
  have hsecond : readHexNumber (([0x58, 0x30, 0x2c, 0x30] : Bytes).drop 3) = some (0, 1) := by
    decide
  rcases hhandled.accepted with h | ⟨a, n, h, -, hlength⟩ | ⟨address, data, h, -⟩
  · rw [hfirst] at h
    cases h
  · obtain rfl : 1 = n := (Prod.mk.inj (Option.some.inj (hfirst.symm.trans h))).2
    cases hsecond.symm.trans hlength
  · obtain ⟨n, m, haddress, hend, hlength, -⟩ := h.parse
    obtain rfl : 1 = n := (Prod.mk.inj (Option.some.inj (hfirst.symm.trans haddress))).2
    obtain rfl : 1 = m := (Prod.mk.inj (Option.some.inj (hsecond.symm.trans hlength))).2
    exact absurd hend (by decide)

end Packets

end Mikage.GDB
