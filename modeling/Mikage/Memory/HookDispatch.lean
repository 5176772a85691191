import Mikage.Memory.ByteAccess
import Mikage.Memory.HookCover

/-!
# Which hooks an access meets

The accesses of `MemoryBus`, which look for a hook by the page, and
`LookupContiguousMemoryBackedPage`, which looks at every hook of every page of a range. Both are compared with the hooks whose range
overlaps the bytes.
-/

namespace Mikage

variable {H : Type}

/-! ## Accesses of a bus -/

/-- A call of a handler. -/
inductive Invocation (H : Type) where
  | onRead (handler : H) (address : PAddr) (numBytes : Nat)
  | onWrite (handler : H) (address : PAddr) (numBytes value : Nat)
  deriving DecidableEq

def Invocation.handler : Invocation H → H
  | onRead handler .. | onWrite handler .. => handler

/-- `LookupReadHookFor` and `LookupWriteHookFor`: the first hook of the page. -/
def lookupHookFor (m : Hooks H) (kind : Access) (bus : Bus) (address : PAddr) : Option (Hook H) :=
  (m kind (bus.pageAddr ((address - bus.start) >>> 12))).head?

/-- `Read8`, `Read16` and `Read32`. -/
def busRead (m : Hooks H) (data : PAddr → BitVec 8) (bus : Bus) (n : Nat) (address : PAddr) :
    List (Invocation H) × Nat :=
  match lookupHookFor m .read bus address with
  | some hook => ([.onRead hook.handler address n], littleEndian data n address)
  | none => ([], littleEndian data n address)

/-- `Write8`, `Write16` and `Write32`. -/
def busWrite (m : Hooks H) (data : PAddr → BitVec 8) (bus : Bus) (n : Nat) (address : PAddr)
    (value : Nat) : List (Invocation H) × (PAddr → BitVec 8) :=
  match lookupHookFor m .write bus address with
  | some hook => ([.onWrite hook.handler address n value], storeBytes n address value data)
  | none => ([], storeBytes n address value data)

/-- A hook that is set, on whatever page, overlaps the bytes. -/
def Hit (m : Hooks H) (kind : Access) (address : PAddr) (n : Nat) (h : Hook H) : Prop :=
  (∃ page, h ∈ m kind page) ∧ h.overlaps address (BitVec.ofNat 32 n) = true

/-- The handlers of the hooks that are hit, and no others. -/
def InvokesHit (m : Hooks H) (kind : Access) (address : PAddr) (n : Nat)
    (calls : List (Invocation H)) : Prop :=
  ∀ handler, (∃ call ∈ calls, call.handler = handler) ↔
    ∃ h, Hit m kind address n h ∧ h.handler = handler

/-- The page of the first byte has no hook and none is hit, or its first hook stands for all that
are hit, of which there is one. -/
def FirstStandsForHit (m : Hooks H) (kind : Access) (bus : Bus) (address : PAddr) (n : Nat) :
    Prop :=
  match lookupHookFor m kind bus address with
  | none => ∀ h, ¬ Hit m kind address n h
  | some first => (∃ h, Hit m kind address n h) ∧
    ∀ h, Hit m kind address n h → h.handler = first.handler

theorem invokes_none {m : Hooks H} {kind : Access} {address : PAddr} {n : Nat} :
    InvokesHit m kind address n [] ↔ ∀ h, ¬ Hit m kind address n h := by
  constructor
  · intro h hook hhit
    obtain ⟨call, hcall, -⟩ := (h hook.handler).2 ⟨hook, hhit, rfl⟩
    cases hcall
  · intro h handler
    constructor
    · rintro ⟨call, hcall, -⟩
      cases hcall
    · rintro ⟨hook, hhit, -⟩
      exact absurd hhit (h hook)

theorem invokes_one {m : Hooks H} {kind : Access} {address : PAddr} {n : Nat}
    {call : Invocation H} : InvokesHit m kind address n [call] ↔
      (∃ h, Hit m kind address n h) ∧ ∀ h, Hit m kind address n h → h.handler = call.handler := by
  constructor
  · intro h
    obtain ⟨hook, hhit, -⟩ := (h call.handler).1 ⟨call, .head _, rfl⟩
    refine ⟨⟨hook, hhit⟩, fun hook' hhit' => ?_⟩
    obtain ⟨call', hcall', heq⟩ := (h hook'.handler).2 ⟨hook', hhit', rfl⟩
    rw [List.mem_singleton.1 hcall'] at heq
    exact heq.symm
  · rintro ⟨⟨hook, hhit⟩, hall⟩ handler
    constructor
    · rintro ⟨call', hcall', rfl⟩
      rw [List.mem_singleton.1 hcall']
      exact ⟨hook, hhit, hall hook hhit⟩
    · rintro ⟨hook', hhit', rfl⟩
      exact ⟨call, .head _, (hall hook' hhit').symm⟩

/-- **Hook dispatch**: an access of a bus calls the handlers of the hooks it overlaps exactly where
the first hook of the page of its first byte stands for them. -/
theorem hookDispatch_exact (m : Hooks H) (data : PAddr → BitVec 8) (bus : Bus) (n : Nat)
    (address : PAddr) (value : Nat) :
    (InvokesHit m .read address n (busRead m data bus n address).1 ↔
      FirstStandsForHit m .read bus address n) ∧
    (InvokesHit m .write address n (busWrite m data bus n address value).1 ↔
      FirstStandsForHit m .write bus address n) := by
  constructor
  · rw [busRead, FirstStandsForHit]
    cases lookupHookFor m .read bus address with
    | none => exact invokes_none
    | some hook => exact invokes_one
  · rw [busWrite, FirstStandsForHit]
    cases lookupHookFor m .write bus address with
    | none => exact invokes_none
    | some hook => exact invokes_one

theorem oneHook_hooks (kind : Access) (page : PAddr) : oneHook.1 kind page =
    if kind = .write ∧ page = 0x20000000 then [⟨0x20000100, 0x100, 7⟩] else [] := rfl

/-- A write on the page of a hook that does not overlap it. -/
theorem write_beside_hook_invokes : ¬ ∀ s : Hooks Nat × Cover Nat,
    HookRun (fun _ c => c.Physical) s → ∀ data address value,
      InvokesHit s.1 .write address 1 (busWrite s.1 data .fcram 1 address value).1 := by
  intro h
  have hset : (HookCall.set .write 0x20000100 0x100 7).Physical := ⟨.fcram, by decide, by decide⟩
  have hrun : HookRun (fun _ c => c.Physical) (oneHook : Hooks Nat × Cover Nat) :=
    .next (.start rfl) ⟨_, hset, rfl⟩
  have hcalls : (busWrite oneHook.1 (fun _ => 0) .fcram 1 0x20000000 0).1 =
      [.onWrite 7 0x20000000 1 0] := rfl
  have hinv := h _ hrun (fun _ => 0) 0x20000000 0
  rw [hcalls, invokes_one] at hinv
  obtain ⟨⟨hook, ⟨page, hmem⟩, hover⟩, -⟩ := hinv
  rw [oneHook_hooks] at hmem
  split at hmem
  · rw [List.mem_singleton.1 hmem] at hover
    exact absurd hover (by decide)
  · cases hmem

/-! ## Contiguous ranges -/

/-- How `LookupContiguousMemoryBackedPage` ends: with the host memory of the first byte, with an
exception, or reading behind the array of the hooks. -/
inductive ContiguousLookup where
  | pointer (location : PAddr)
  | thrown (e : Exception)
  | undefined
  deriving DecidableEq, Repr

def extendsPast := "Requested contiguous memory region that extends past available physical memory"
def invalidRegion := "Requested invalid physical memory region"
def coversReadHooks := "Requested contiguous memory region covers read hooks"
def coversWriteHooks := "Requested contiguous memory region covers write hooks"

section

variable (m : Hooks H) (mode : HookKind) (bus : Bus) (address : PAddr) (numBytes : BitVec 32)

/-- The index of the page number `i` of the range. -/
def hookIndex (i : Nat) : BitVec 32 :=
  let pageStart := (address >>> 12 + BitVec.ofNat 32 i) <<< 12
  (pageStart - bus.start) >>> 12

def overlapsOn (kind : Access) (index : BitVec 32) : Bool :=
  (m kind (bus.pageAddr index)).any (·.overlaps address numBytes)

/-- The body of the loop, which ends it or goes on. -/
def checkPage (i : Nat) : Option ContiguousLookup :=
  let index := hookIndex bus address i
  if bus.size >>> 12 ≤ index then some .undefined
  else if mode.has .read ∧ overlapsOn m bus address numBytes .read index then
    some (.thrown (.runtimeError coversReadHooks))
  else if mode.has .write ∧ overlapsOn m bus address numBytes .write index then
    some (.thrown (.runtimeError coversWriteHooks))
  else none

def lastPageIndex : BitVec 32 := ((address &&& 0xfff) + numBytes - 1) >>> 12

def lookupContiguousMemoryBackedPage : ContiguousLookup :=
  if numBytes = 0 then .thrown (.contractViolated "num_bytes != 0")
  else match Bus.find address with
  | none => .thrown (.runtimeError invalidRegion)
  | some bus =>
    if bus.start + bus.size < address + numBytes then .thrown (.runtimeError extendsPast)
    else
      match (List.range ((lastPageIndex address numBytes).toNat + 1)).findSome?
        (checkPage m mode bus address numBytes) with
      | some r => r
      | none => .pointer address

/-- A hook that the mode forbids overlaps the range. -/
def Forbidden : Prop :=
  ∃ kind, mode.has kind = true ∧ ∃ page, ∃ h ∈ m kind page, h.overlaps address numBytes = true

/-- One on a page of the range. -/
def ForbiddenOnPages : Prop :=
  ∃ kind, mode.has kind = true ∧ ∃ page ∈ pagesOf bus address numBytes,
    ∃ h ∈ m kind page, h.overlaps address numBytes = true

/-- A pointer exactly where the range is in a bus, and no forbidden hook overlaps it. -/
def LooksUp : Prop :=
  lookupContiguousMemoryBackedPage m mode address numBytes ≠ .undefined ∧
  (lookupContiguousMemoryBackedPage m mode address numBytes = .pointer address ↔
    (∃ bus : Bus, bus.Holds address numBytes) ∧ ¬ Forbidden m mode address numBytes)

/-- Of a range that wraps: a hook stops the loop before it is behind the pages of the bus. -/
def StopsEarly : Prop :=
  ∃ i ≤ (lastPageIndex address numBytes).toNat,
    (∀ j ≤ i, hookIndex bus address j < bus.size >>> 12) ∧
    ∃ kind, mode.has kind = true ∧
      overlapsOn m bus address numBytes kind (hookIndex bus address i) = true

/-- The range does not reach the top of the address space, and a hook that overlaps it is on one of
its pages; or it does, and a hook stops the loop. -/
def Checked : Prop :=
  ∀ bus, Bus.find address = some bus →
    if address.toNat + numBytes.toNat < 2 ^ 32 then
      bus.Holds address numBytes → Forbidden m mode address numBytes →
        ForbiddenOnPages m mode bus address numBytes
    else StopsEarly m mode bus address numBytes

end

section

variable {m : Hooks H} {mode : HookKind} {bus : Bus} {address : PAddr} {numBytes : BitVec 32}
  {i : Nat}

theorem checkPage_none : checkPage m mode bus address numBytes i = none ↔
    hookIndex bus address i < bus.size >>> 12 ∧ ∀ kind, mode.has kind = true →
      overlapsOn m bus address numBytes kind (hookIndex bus address i) = false := by
  have hkinds : ∀ p : Access → Prop, (∀ kind, p kind) ↔ p .read ∧ p .write := by
    intro p
    refine ⟨fun h => ⟨h _, h _⟩, fun h kind => ?_⟩
    cases kind with
    | read => exact h.1
    | write => exact h.2
  rw [hkinds]
  simp only [checkPage, ← BitVec.not_lt]
  by_cases hin : hookIndex bus address i < bus.size >>> 12
  · rw [if_neg (not_not.2 hin)]
    cases mode.has .read <;> cases mode.has .write <;>
      cases overlapsOn m bus address numBytes .read (hookIndex bus address i) <;>
        cases overlapsOn m bus address numBytes .write (hookIndex bus address i) <;> simp [hin]
  · simp [hin]

theorem checkPage_ne_pointer {location : PAddr} :
    checkPage m mode bus address numBytes i ≠ some (.pointer location) := by
  rw [checkPage]
  repeat' split
  all_goals rintro ⟨⟩

theorem checkPage_undefined : checkPage m mode bus address numBytes i = some .undefined ↔
    ¬ hookIndex bus address i < bus.size >>> 12 := by
  simp only [checkPage, ← BitVec.not_lt]
  split
  next h => simp [h]
  next h =>
    refine iff_of_false ?_ h
    repeat' split
    all_goals rintro ⟨⟩

theorem findBus_inside (h : Bus.find address = some bus) :
    bus.start.toNat ≤ address.toNat ∧ address.toNat < bus.start.toNat + bus.size.toNat := by
  have hbound := (Bus.placed bus (List.mem_of_find?_eq_some h)).2.2
  have hin := List.find?_some h
  simp only [Bus.isInside, decide_eq_true_eq, BitVec.le_def, BitVec.lt_def, BitVec.toNat_add] at hin
  omega

theorem and_pageMask (address : BitVec 32) :
    (address &&& 0xfff).toNat = address.toNat % 0x1000 := by
  rw [BitVec.toNat_and]
  exact Nat.and_two_pow_sub_one_eq_mod _ 12

/-- The last page of a range that does not wrap. -/
theorem lastPageIndex_eq (h : bus.Holds address numBytes) (hpos : numBytes ≠ 0) :
    (lastPageIndex address numBytes).toNat + 1 = numPages bus address numBytes := by
  have hnum := h.numPages
  have hle := h.start_le
  have haligned := h.aligned
  have hrange := h.range
  have hpos : 0 < numBytes.toNat := by bv_omega
  have hlast : (lastPageIndex address numBytes).toNat =
      (address.toNat % 0x1000 + numBytes.toNat - 1) / 0x1000 := by
    rw [lastPageIndex, BitVec.toNat_ushiftRight, Nat.shiftRight_eq_div_pow, BitVec.toNat_sub,
      BitVec.toNat_add, and_pageMask]
    show (2 ^ 32 - 1 + _) % 2 ^ 32 / 2 ^ 12 = _
    omega
  rw [hlast]
  omega

theorem hookIndex_eq (h : bus.Holds address numBytes) (hi : i < numPages bus address numBytes) :
    hookIndex bus address i = firstPage bus address + BitVec.ofNat 32 i ∧
      hookIndex bus address i < bus.size >>> 12 := by
  have hnum := h.numPages
  have hle := h.start_le
  have haligned := h.aligned
  have hbound := h.bound
  have hfits := h.fits
  have hfirst := h.firstPage
  have hsize := (Bus.placed bus h.mem).2.1
  have hindex : (hookIndex bus address i).toNat =
      (address.toNat - bus.start.toNat) / 0x1000 + i := by
    rw [hookIndex, BitVec.toNat_ushiftRight, Nat.shiftRight_eq_div_pow, BitVec.toNat_sub,
      BitVec.toNat_shiftLeft, BitVec.toNat_add, BitVec.toNat_ushiftRight, BitVec.toNat_ofNat,
      Nat.shiftLeft_eq, Nat.shiftRight_eq_div_pow]
    omega
  constructor
  · apply BitVec.eq_of_toNat_eq
    rw [hindex, BitVec.toNat_add, hfirst, BitVec.toNat_ofNat]
    omega
  · rw [BitVec.lt_def, hindex, BitVec.toNat_ushiftRight, Nat.shiftRight_eq_div_pow]
    omega

theorem overlapsOn_iff {kind : Access} {index : BitVec 32} :
    overlapsOn m bus address numBytes kind index = true ↔
      ∃ h ∈ m kind (bus.pageAddr index), h.overlaps address numBytes = true := List.any_eq_true

/-- The loop over a range in a bus ends early exactly at a hook on one of its pages. -/
theorem loop_none_iff (h : bus.Holds address numBytes) (hpos : numBytes ≠ 0) :
    (List.range ((lastPageIndex address numBytes).toNat + 1)).findSome?
      (checkPage m mode bus address numBytes) = none ↔
        ¬ ForbiddenOnPages m mode bus address numBytes := by
  rw [lastPageIndex_eq h hpos, List.findSome?_eq_none_iff]
  simp only [List.mem_range, checkPage_none]
  constructor
  · rintro hall ⟨kind, hkind, page, hpage, hook, hmem, hover⟩
    obtain ⟨i, hi, rfl⟩ := mem_pagesOf.1 hpage
    have hfalse := (hall i hi).2 kind hkind
    rw [(hookIndex_eq h hi).1] at hfalse
    rw [overlapsOn_iff.2 ⟨hook, hmem, hover⟩] at hfalse
    cases hfalse
  · intro hnone i hi
    refine ⟨(hookIndex_eq h hi).2, fun kind hkind => ?_⟩
    rw [← Bool.not_eq_true, (hookIndex_eq h hi).1, overlapsOn_iff]
    rintro ⟨hook, hmem, hover⟩
    exact hnone ⟨kind, hkind, _, mem_pagesOf.2 ⟨i, hi, rfl⟩, hook, hmem, hover⟩

/-- How the loop ends, where it does. -/
theorem loop_some {r : ContiguousLookup} {k : Nat} (h : (List.range k).findSome?
    (checkPage m mode bus address numBytes) = some r) : ∃ i < k,
      checkPage m mode bus address numBytes i = some r ∧
        ∀ j < i, checkPage m mode bus address numBytes j = none := by
  induction k with
  | zero => cases h
  | succ k ih =>
    rw [List.range_succ, List.findSome?_append] at h
    cases hk : (List.range k).findSome? (checkPage m mode bus address numBytes) with
    | some r' =>
      rw [hk] at h
      obtain rfl : r' = r := Option.some.inj h
      obtain ⟨i, hi, hrest⟩ := ih hk
      exact ⟨i, by omega, hrest⟩
    | none =>
      rw [hk] at h
      refine ⟨k, by omega, ?_, fun j hj => ?_⟩
      · simp only [List.findSome?_cons, List.findSome?_nil, Option.none_or] at h
        cases hc : checkPage m mode bus address numBytes k with
        | some r' =>
          rw [hc] at h
          exact h
        | none =>
          rw [hc] at h
          cases h
      · exact List.findSome?_eq_none_iff.1 hk j (List.mem_range.2 hj)

theorem ForbiddenOnPages.forbidden (h : ForbiddenOnPages m mode bus address numBytes) :
    Forbidden m mode address numBytes := by
  obtain ⟨kind, hkind, page, -, hook⟩ := h
  exact ⟨kind, hkind, page, hook⟩

theorem toNat_busEnd (h : Bus.find address = some bus) :
    (bus.start + bus.size).toNat = bus.start.toNat + bus.size.toNat := by
  have hbound := (Bus.placed bus (List.mem_of_find?_eq_some h)).2.2
  rw [BitVec.toNat_add]
  omega

/-- A range that does not wrap. -/
theorem looksUp_short (hpos : numBytes ≠ 0) (hbus : Bus.find address = some bus)
    (hshort : address.toNat + numBytes.toNat < 2 ^ 32) : LooksUp m mode address numBytes ↔
      (bus.Holds address numBytes → Forbidden m mode address numBytes →
        ForbiddenOnPages m mode bus address numBytes) := by
  have hstop : (address + numBytes).toNat = address.toNat + numBytes.toNat := by
    rw [BitVec.toNat_add]
    omega
  have hend := toNat_busEnd hbus
  rw [LooksUp, lookupContiguousMemoryBackedPage, if_neg hpos, hbus]
  by_cases hfits : address.toNat + numBytes.toNat ≤ bus.start.toNat + bus.size.toNat
  · have hholds : bus.Holds address numBytes := ⟨hbus, hfits⟩
    have hpast : ¬ bus.start + bus.size < address + numBytes := by
      rw [BitVec.lt_def]
      omega
    simp only [if_neg hpast]
    have hnone := @loop_none_iff _ m mode _ _ _ hholds hpos
    cases hloop : (List.range ((lastPageIndex address numBytes).toNat + 1)).findSome?
        (checkPage m mode bus address numBytes) with
    | none =>
      have hclean := hnone.1 hloop
      refine ⟨fun h _ hf => absurd hf (h.2.1 rfl).2, fun h => ⟨nofun, fun _ => ?_, fun _ => rfl⟩⟩
      exact ⟨⟨bus, hholds⟩, fun hf => hclean (h hholds hf)⟩
    | some r =>
      have hon : ForbiddenOnPages m mode bus address numBytes := by
        by_contra hclean
        rw [hnone.2 hclean] at hloop
        cases hloop
      obtain ⟨i, hi, hr, -⟩ := loop_some hloop
      rw [lastPageIndex_eq hholds hpos] at hi
      have hindex := (hookIndex_eq hholds hi).2
      refine ⟨fun _ _ _ => hon, fun _ => ⟨?_, ?_, fun h => absurd hon.forbidden h.2⟩⟩
      · rintro rfl
        exact checkPage_undefined.1 hr hindex
      · rintro rfl
        exact absurd hr checkPage_ne_pointer
  · have hpast : bus.start + bus.size < address + numBytes := by
      rw [BitVec.lt_def]
      omega
    simp only [if_pos hpast]
    refine iff_of_true ⟨nofun, nofun, ?_⟩ fun h => absurd h.fits hfits
    rintro ⟨⟨bus', hbus'⟩, -⟩
    obtain rfl : bus = bus' := Option.some.inj (hbus.symm.trans hbus'.found)
    exact absurd hbus'.fits hfits

/-- A range that reaches the top of the address space is in no bus, and the check against the end of
the bus does not see it. -/
theorem looksUp_wrapping (hpos : numBytes ≠ 0) (hbus : Bus.find address = some bus)
    (hwrap : ¬ address.toNat + numBytes.toNat < 2 ^ 32) : LooksUp m mode address numBytes ↔
      StopsEarly m mode bus address numBytes := by
  have hinside := findBus_inside hbus
  have hend := toNat_busEnd hbus
  have hnum := numBytes.isLt
  have hstop : (address + numBytes).toNat = address.toNat + numBytes.toNat - 2 ^ 32 := by
    rw [BitVec.toNat_add]
    omega
  have hpast : ¬ bus.start + bus.size < address + numBytes := by
    rw [BitVec.lt_def]
    omega
  have hout : ¬ ∃ bus : Bus, bus.Holds address numBytes := by
    rintro ⟨bus', hbus'⟩
    exact hwrap hbus'.range
  rw [LooksUp, lookupContiguousMemoryBackedPage, if_neg hpos, hbus]
  simp only [if_neg hpast]
  cases hloop : (List.range ((lastPageIndex address numBytes).toNat + 1)).findSome?
      (checkPage m mode bus address numBytes) with
  | none =>
    refine iff_of_false (fun h => hout (h.2.1 rfl).1) ?_
    rintro ⟨i, hi, -, kind, hkind, hover⟩
    have hnone := List.findSome?_eq_none_iff.1 hloop i (List.mem_range.2 (by omega))
    rw [(checkPage_none.1 hnone).2 kind hkind] at hover
    cases hover
  | some r =>
    obtain ⟨i, hi, hr, hbefore⟩ := loop_some hloop
    have hindex : ∀ j < i, hookIndex bus address j < bus.size >>> 12 :=
      fun j hj => (checkPage_none.1 (hbefore j hj)).1
    by_cases hin : hookIndex bus address i < bus.size >>> 12
    · have hstops : StopsEarly m mode bus address numBytes := by
        have hsome : ¬ checkPage m mode bus address numBytes i = none := by
          rw [hr]
          exact nofun
        rw [checkPage_none] at hsome
        push Not at hsome
        obtain ⟨kind, hkind, hover⟩ := hsome hin
        refine ⟨i, by omega, fun j hj => ?_, kind, hkind, by simpa using hover⟩
        rcases Nat.lt_or_eq_of_le hj with hlt | rfl
        · exact hindex j hlt
        · exact hin
      refine iff_of_true ⟨?_, ?_, fun h => absurd h.1 hout⟩ hstops
      · rintro rfl
        exact checkPage_undefined.1 hr hin
      · rintro rfl
        exact absurd hr checkPage_ne_pointer
    · obtain rfl : ContiguousLookup.undefined = r := by
        rw [checkPage_undefined.2 hin] at hr
        exact Option.some.inj hr
      refine iff_of_false (fun h => h.1 rfl) ?_
      rintro ⟨k, hk, hall, kind, hkind, hover⟩
      -- the loop would have stopped at `k` before it came to `i`
      rcases Nat.lt_or_ge k i with hlt | hge
      · rw [(checkPage_none.1 (hbefore k hlt)).2 kind hkind] at hover
        cases hover
      · exact hin (hall i hge)

/-- **Contiguous ranges**: there is a pointer exactly for a range in a bus that no forbidden hook
overlaps, if the range does not wrap and the hooks that overlap it are on its pages. -/
theorem lookupContiguous_exact (m : Hooks H) (mode : HookKind) (address : PAddr)
    {numBytes : BitVec 32} (hpos : numBytes ≠ 0) :
    LooksUp m mode address numBytes ↔ Checked m mode address numBytes := by
  cases hbus : Bus.find address with
  | none =>
    have hout : ¬ ∃ bus : Bus, bus.Holds address numBytes := by
      rintro ⟨bus', hbus'⟩
      rw [hbus'.found] at hbus
      cases hbus
    have hthrown : lookupContiguousMemoryBackedPage m mode address numBytes =
        .thrown (.runtimeError invalidRegion) := by
      rw [lookupContiguousMemoryBackedPage, if_neg hpos, hbus]
    rw [LooksUp, hthrown]
    refine iff_of_true ⟨nofun, nofun, fun h => absurd h.1 hout⟩ fun bus h => ?_
    rw [hbus] at h
    cases h
  | some bus =>
    have hchecked : Checked m mode address numBytes ↔
        if address.toNat + numBytes.toNat < 2 ^ 32 then
          bus.Holds address numBytes → Forbidden m mode address numBytes →
            ForbiddenOnPages m mode bus address numBytes
        else StopsEarly m mode bus address numBytes := by
      refine ⟨fun h => h bus hbus, fun h bus' hbus' => ?_⟩
      obtain rfl : bus = bus' := Option.some.inj (hbus.symm.trans hbus')
      exact h
    rw [hchecked]
    split
    next h => exact looksUp_short hpos hbus h
    next h => exact looksUp_wrapping hpos hbus h

end

/-- Without hooks. -/
theorem lookupContiguous_exact_free :
    LooksUp (fun _ _ => [] : Hooks Nat) .readWrite 0x20000F00 0x200 := by
  refine (lookupContiguous_exact _ .readWrite 0x20000F00 (by decide)).2 fun bus _ => ?_
  rw [if_pos (by decide)]
  rintro - ⟨kind, -, page, hook, hmem, -⟩
  cases hmem

/-- A range that wraps gets a pointer. -/
theorem lookupContiguous_wraps :
    ¬ LooksUp (fun _ _ => [] : Hooks Nat) .readWrite 0x20000002 0xFFFFFFFF := by
  rintro ⟨-, h⟩
  have hpointer : lookupContiguousMemoryBackedPage (fun _ _ => [] : Hooks Nat) .readWrite 0x20000002
      0xFFFFFFFF = .pointer 0x20000002 := by decide
  obtain ⟨⟨bus, hbus⟩, -⟩ := h.1 hpointer
  exact absurd hbus.range (by decide)

end Mikage
