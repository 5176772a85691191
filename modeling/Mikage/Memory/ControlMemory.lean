import Mikage.Memory.FirstFit
import Mikage.Memory.UnmapProof

/-!
# Memory operations of a process

`SVCControlProcessMemory` maps a range of a process a second time (operation 4) or gives it other
permissions (operation 6). Both translate the first address of the range only, and take the rest to
be behind it in physical memory.

- `mapFound`: what a mapping at the address does that the search has returned for a fixed range.
- `contents_kept`: when the two operations keep the contents of the range.
-/

namespace Mikage

def MemoryPermissions.executable : MemoryPermissions → Bool
  | .exec | .readExec => true
  | _ => false

/-- How an operation ends: its result and the map it leaves. -/
structure ControlResult where
  outcome : Except Exception (BitVec 32)
  memory : VirtualMemory

/-- What an operation needs to know besides the map: whether the calling thread belongs to the
process, what the process's memory manager and those of the three regions allocate, and the base of
its linear memory. -/
structure ControlEnv where
  own : Bool
  allocateBlock : BitVec 32 → BitVec 32 → Option PAddr
  linearBaseAddr : VAddr

/-- `MapVirtualMemory` with the exception for its failure. -/
def mapOrThrow (m : VirtualMemory) (paddr : PAddr) (size : BitVec 32) (vaddr : VAddr)
    (permissions : MemoryPermissions) (failure : Exception) (result : BitVec 32) : ControlResult :=
  let r := mapVirtualMemory m paddr size vaddr permissions
  match r.outcome with
  | .ok true => ⟨.ok result, r.memory⟩
  | .ok false => ⟨.error failure, r.memory⟩
  | .error e => ⟨.error e, r.memory⟩

/-- Operation 3. -/
def allocateMemory (env : ControlEnv) (m : VirtualMemory) (addr0 size operation : BitVec 32)
    (permissions : MemoryPermissions) : ControlResult :=
  if operation &&& 0xF00 ∉ [(0 : BitVec 32), 0x100, 0x200, 0x300] then
    ⟨.error (.invalid "ControlMemory: Invalid memory region"), m⟩
  else match env.allocateBlock (operation &&& 0xF00) size with
    | none => ⟨.error (.invalid "Failed to allocate physical memory"), m⟩
    | some block =>
      let linear := operation &&& 0x10000 ≠ 0
      let vaddrStart := if linear then env.linearBaseAddr + (block - 0x20000000) else 0x8000000
      let vaddrEnd := vaddrStart + if linear then size else 0x8000000
      let found := if addr0 = 0 then findAvailableVirtualMemory m size vaddrStart vaddrEnd
        else findAvailableVirtualMemory m size addr0 (addr0 + size)
      match found with
      | none => ⟨.error (.invalid "Failed to reserve virtual memory address space"), m⟩
      | some vaddr =>
        mapOrThrow m block size vaddr permissions (.invalid "Failed to map virtual memory") vaddr

/-- Operation 4. A range of another process is unmapped first if it is not available. -/
def mapMemory (env : ControlEnv) (m : VirtualMemory) (addr0 addr1 size : BitVec 32)
    (permissions : MemoryPermissions) : ControlResult :=
  match resolveVirtualAddr m addr1 with
  | none => ⟨.error (.invalid "Input virtual address not mapped"), m⟩
  | some paddr =>
    let mapAt (m : VirtualMemory) (vaddr : VAddr) :=
      mapOrThrow m paddr size vaddr permissions (.invalid "Mapping memory failed") 0
    let unavailable : Exception := .invalid "Target virtual memory range for mapping not available"
    match findAvailableVirtualMemory m size addr0 (addr0 + size) with
    | some vaddr => mapAt m vaddr
    | none =>
      if env.own then ⟨.error unavailable, m⟩
      else
        let r := unmapVirtualMemory m addr0 size
        match r.outcome with
        | .error e => ⟨.error e, r.memory⟩
        | .ok _ =>
          match findAvailableVirtualMemory r.memory size addr0 (addr0 + size) with
          | some vaddr => mapAt r.memory vaddr
          | none => ⟨.error unavailable, r.memory⟩

/-- Operation 5. -/
def unmapMemory (m : VirtualMemory) (addr0 size : BitVec 32) : ControlResult :=
  let r := unmapVirtualMemory m addr0 size
  match r.outcome with
  | .ok true => ⟨.ok 0, r.memory⟩
  | .ok false => ⟨.error (.invalid "Failed to unmap memory"), r.memory⟩
  | .error e => ⟨.error e, r.memory⟩

/-- Operation 6. -/
def protectMemory (m : VirtualMemory) (addr0 size : BitVec 32) (permissions : MemoryPermissions) :
    ControlResult :=
  match resolveVirtualAddr m addr0 with
  | none => ⟨.error (.invalid "Input virtual address not mapped"), m⟩
  | some paddr =>
    let r := unmapVirtualMemory m addr0 size
    match r.outcome with
    | .error e => ⟨.error e, r.memory⟩
    | .ok false => ⟨.error (.invalid "Failed to unmap memory"), r.memory⟩
    | .ok true =>
      match findAvailableVirtualMemory r.memory size addr0 (addr0 + size) with
      | none => ⟨.error (.contractViolated "vaddr_opt"), r.memory⟩
      | some vaddr =>
        mapOrThrow r.memory paddr size vaddr permissions (.contractViolated "success") addr0

def svcControlProcessMemory (env : ControlEnv) (m : VirtualMemory)
    (addr0 addr1 size operation : BitVec 32) (permissions : MemoryPermissions) : ControlResult :=
  if ¬ env.own ∧ (operation < 4 ∨ 6 < operation) then
    ⟨.error (.invalid "Invalid memory control operation attempted across processes"), m⟩
  else if permissions.executable ∧ operation ≠ 6 then
    ⟨.error (.invalid "Invalid MemoryOperation with executable permissions"), m⟩
  else match (operation &&& 0xFF).toNat with
    | 1 => ⟨.ok 0, m⟩
    | 3 => allocateMemory env m addr0 size operation permissions
    | 4 => mapMemory env m addr0 addr1 size permissions
    | 5 => unmapMemory m addr0 size
    | 6 => protectMemory m addr0 size permissions
    | _ => ⟨.error (.runtimeError "MemoryOperation not implemented"), m⟩

/-- On the process of the calling thread. -/
def svcControlMemory (env : ControlEnv) (m : VirtualMemory)
    (addr0 addr1 size operation : BitVec 32) (permissions : MemoryPermissions) : ControlResult :=
  svcControlProcessMemory { env with own := true } m addr0 addr1 size operation permissions

/-! ## Mapping what was found -/

section

variable {m m' : VirtualMemory} {size : BitVec 32} {addr0 vaddr a : VAddr} {paddr : PAddr}
  {permissions : MemoryPermissions}

theorem le_moveCandidate {c : VAddr} {l : List (VAddr × VirtualMemoryBlock)} :
    c ≤ moveCandidate size c l := by
  induction l generalizing c with
  | nil => exact le_rfl
  | cons e l ih =>
    unfold moveCandidate
    split
    · exact ih
    next h =>
      split
      · exact (not_lt.1 h).trans ih
      · exact le_rfl

/-- A mapping that runs past the top is accepted, but translates nothing and hides nothing. -/
theorem resolve_insert_past_top (hm : Disjoint m) (hwrap : 2 ^ 32 ≤ vaddr.toNat + size.toNat)
    (h : ∀ e ∈ m, e.1 < vaddr → ¬ Contains e vaddr) :
    resolve (m.insert vaddr ⟨paddr, size, permissions⟩) a = resolve m a := by
  by_cases hfresh : ∀ e ∈ m, e.1 ≠ vaddr
  · have hmem {e} := SortedMap.mem_insert_of_fresh (m := m) (v := (⟨paddr, size, permissions⟩ :
      VirtualMemoryBlock)) (e := e) hfresh
    cases hx : (m.insert vaddr ⟨paddr, size, permissions⟩).prevUpperBound a with
    | none =>
      have habove := SortedMap.prevUpperBound_eq_none_iff.1 hx
      have hnone : m.prevUpperBound a = none :=
        SortedMap.prevUpperBound_eq_none_iff.2 fun e he => habove e (hmem.2 (.inl he))
      simp only [resolve, resolveBlock, hx, hnone]
    | some x =>
      obtain ⟨hxm, hxa, hmax⟩ := SortedMap.prevUpperBound_spec hx
      rcases hmem.1 hxm with hxm | rfl
      · have hsome : m.prevUpperBound a = some x := by
          cases hy : m.prevUpperBound a with
          | none => exact absurd hxa (not_le.2 (SortedMap.prevUpperBound_eq_none_iff.1 hy x hxm))
          | some y =>
            obtain ⟨hym, hya, hmax'⟩ := SortedMap.prevUpperBound_spec hy
            rcases hmax y (hmem.2 (.inl hym)) hya with rfl | hlt
            · rfl
            · rcases hmax' x hxm hxa with rfl | hlt'
              · rfl
              · exact absurd hlt (lt_asymm hlt')
        simp only [resolve, resolveBlock, hx, hsome]
      · have hout : ¬ ¬ vaddr + size ≤ a := by
          rw [not_not]
          simp only at hxa
          bv_omega
        have hnone : resolve m a = none := by
          refine (resolve_eq_none_iff hm).2 fun e he hc => ?_
          have hle : e.1 ≤ a := hc.1
          rcases hmax e (hmem.2 (.inl he)) hle with rfl | hlt
          · exact hfresh _ he rfl
          · refine h e he hlt ⟨le_of_lt hlt, ?_⟩
            have h₁ : vaddr.toNat ≤ a.toNat := hxa
            exact Nat.lt_of_le_of_lt h₁ hc.2
        rw [hnone, resolve, resolveBlock, hx, Option.filter_some, if_neg (by simpa using hout)]
        rfl
  · push Not at hfresh
    obtain ⟨e, he, hkey⟩ := hfresh
    have hsame : m.insert vaddr ⟨paddr, size, permissions⟩ = m := by
      refine SortedMap.ext (SortedMap.insertEntry_of_taken m.sorted he hkey)
    rw [hsame]

/-- The range ends below the top of the address space and is free. -/
def Placeable (m : VirtualMemory) (size : BitVec 32) (addr0 : VAddr) : Prop :=
  addr0.toNat + size.toNat < 2 ^ 32 ∧ Unmapped m addr0 size

/-- A search for the range at `addr0` only returns `addr0` if that is free, or an address from which
the range runs past the top. -/
theorem found_cases (hm : Disjoint m) (hs : size ≠ 0)
    (hfind : findAvailableVirtualMemory m size addr0 (addr0 + size) = some vaddr) :
    Placeable m size addr0 ∧ vaddr = addr0 ∨
      ¬ Placeable m size addr0 ∧ 2 ^ 32 ≤ vaddr.toNat + size.toNat := by
  simp only [findAvailableVirtualMemory] at hfind
  split at hfind
  · cases hfind
  next hlimit =>
  rw [Option.some_inj] at hfind
  have hle : addr0 ≤ vaddr := hfind ▸ le_moveCandidate
  rw [hfind] at hlimit
  have hleast (h : addr0.toNat + size.toNat < 2 ^ 32) :=
    hfind ▸ moveCandidate_isLeast (E := EndOf m) hm.nonempty hm.intervals.within
      (entries_apart hm.intervals) (fun e he => ⟨e, he, rfl⟩) (fun _ h => .inr h) (.inl h)
  by_cases hfree : Placeable m size addr0
  · refine .inl ⟨hfree, le_antisymm ((hleast hfree.1).2 ⟨le_rfl, fun e he _ => ?_⟩) hle⟩
    have hfit := hfree.1
    rcases (unmapped_iff hm.intervals hs).1 hfree.2 e he with h | h
    · exact .inl h
    · exact .inr ⟨by omega, .inl h⟩
  · refine .inr ⟨hfree, ?_⟩
    by_contra hbelow
    have hfit : addr0.toNat + size.toNat < 2 ^ 32 := by bv_omega
    have haddr : vaddr = addr0 := by bv_omega
    subst haddr
    refine hfree ⟨hfit, (unmapped_iff hm.intervals hs).2 fun e he => ?_⟩
    rcases (hleast hfit).1.2 e he (hm.below_top e he) with h | ⟨-, h | ⟨h, -⟩⟩
    · exact .inl h
    · exact .inr h
    · omega

/-- Where the range is free, the mapping goes there. -/
theorem mapFound_placeable (hm : Disjoint m) (hs : size ≠ 0) (hfree : Placeable m size addr0)
    (hfind : findAvailableVirtualMemory m size addr0 (addr0 + size) = some vaddr)
    (hok : (mapVirtualMemory m paddr size vaddr permissions).outcome = .ok true) :
    resolve (mapVirtualMemory m paddr size vaddr permissions).memory a =
      if InRange addr0 size a then some (paddr + (a - addr0), permissions) else resolve m a := by
  rcases found_cases hm hs hfind with ⟨-, rfl⟩ | ⟨h, -⟩
  · exact ((mapExact_iff hm hs).2 (.inl hfree.1)).2.1 hok a
  · exact absurd hfree h

/-- Where it is not, the mapping has no effect on any translation. -/
theorem mapFound_occupied (hm : Disjoint m) (hs : size ≠ 0) (hfree : ¬ Placeable m size addr0)
    (hfind : findAvailableVirtualMemory m size addr0 (addr0 + size) = some vaddr) :
    resolve (mapVirtualMemory m paddr size vaddr permissions).memory a = resolve m a := by
  rcases found_cases hm hs hfind with ⟨h, -⟩ | ⟨-, hwrap⟩
  · exact absurd h hfree
  · by_cases hrejected : Rejected m size vaddr
    · rw [mapVirtualMemory_rejected hm hs hrejected]
    · rw [mapVirtualMemory_accepted hm hs hrejected]
      exact resolve_insert_past_top hm hwrap fun e he hlt hc => hrejected (.inr ⟨e, he, hlt, hc⟩)

end

/-! ## The two operations -/

section

variable {m m' : VirtualMemory} {env : ControlEnv} {addr0 addr1 size operation : BitVec 32}
  {permissions : MemoryPermissions} {r : BitVec 32} {vaddr : VAddr}

theorem mapOrThrow_ok {paddr : PAddr} {failure : Exception} {result : BitVec 32}
    (h : mapOrThrow m paddr size vaddr permissions failure result = ⟨.ok r, m'⟩) : size ≠ 0 ∧
      (mapVirtualMemory m paddr size vaddr permissions).outcome = .ok true ∧
      m' = (mapVirtualMemory m paddr size vaddr permissions).memory := by
  unfold mapOrThrow at h
  simp only at h
  split at h
  next hok =>
    cases h
    refine ⟨?_, hok, rfl⟩
    rintro rfl
    rw [mapVirtualMemory, if_pos rfl] at hok
    cases hok
  next => cases h
  next => cases h

theorem mapMemory_ok (hown : env.own = true)
    (h : mapMemory env m addr0 addr1 size permissions = ⟨.ok r, m'⟩) :
    ∃ paddr vaddr, resolveVirtualAddr m addr1 = some paddr ∧
      findAvailableVirtualMemory m size addr0 (addr0 + size) = some vaddr ∧ size ≠ 0 ∧
      (mapVirtualMemory m paddr size vaddr permissions).outcome = .ok true ∧
      m' = (mapVirtualMemory m paddr size vaddr permissions).memory := by
  unfold mapMemory at h
  split at h
  · cases h
  next paddr hp =>
    simp only [hown, if_true] at h
    split at h
    next vaddr hv => exact ⟨paddr, vaddr, hp, hv, mapOrThrow_ok h⟩
    next => cases h

theorem protectMemory_ok (h : protectMemory m addr0 size permissions = ⟨.ok r, m'⟩) :
    ∃ paddr vaddr, resolveVirtualAddr m addr0 = some paddr ∧
      (unmapVirtualMemory m addr0 size).outcome = .ok true ∧
      findAvailableVirtualMemory (unmapVirtualMemory m addr0 size).memory size addr0
        (addr0 + size) = some vaddr ∧ size ≠ 0 ∧
      (mapVirtualMemory (unmapVirtualMemory m addr0 size).memory paddr size vaddr
        permissions).outcome = .ok true ∧
      m' = (mapVirtualMemory (unmapVirtualMemory m addr0 size).memory paddr size vaddr
        permissions).memory := by
  unfold protectMemory at h
  split at h
  · cases h
  next paddr hp =>
    simp only at h
    split at h
    · cases h
    · cases h
    next hun =>
      split at h
      · cases h
      next vaddr hv => exact ⟨paddr, vaddr, hp, hun, hv, mapOrThrow_ok h⟩

/-- After operation 4: the range at `addr0` is what the range at `addr1` was, all else is as it
was. -/
def Mirrored (m m' : VirtualMemory) (addr0 addr1 size : BitVec 32) : Prop := ∀ a,
  (InRange addr0 size a → ∃ p, resolveVirtualAddr m (addr1 + (a - addr0)) = some p ∧
    resolveVirtualAddr m' a = some p) ∧
  (¬ InRange addr0 size a → resolve m' a = resolve m a)

/-- After operation 6: the range is where it was, with the new permissions, all else is as it
was. -/
def Protected (m m' : VirtualMemory) (addr0 size : BitVec 32) (permissions : MemoryPermissions) :
    Prop := ∀ a,
  (InRange addr0 size a → ∃ p, resolveVirtualAddr m a = some p ∧
    resolve m' a = some (p, permissions)) ∧
  (¬ InRange addr0 size a → resolve m' a = resolve m a)

/-- The range is mapped to one range of physical memory. -/
def Contiguous (m : VirtualMemory) (addr size : BitVec 32) : Prop :=
  ∃ p, ∀ o < size, resolveVirtualAddr m (addr + o) = some (p + o)

/-- The source is contiguous, if the target is free. Where the search has passed the top of the
address space, the ranges are the same memory already. -/
def Mirrorable (m : VirtualMemory) (addr0 addr1 size : BitVec 32) : Prop :=
  (Placeable m size addr0 → Contiguous m addr1 size) ∧
  (¬ Placeable m size addr0 → ∀ o < size, ∃ p, resolveVirtualAddr m (addr1 + o) = some p ∧
    resolveVirtualAddr m (addr0 + o) = some p)

theorem contiguous_start {p : PAddr} (hs : size ≠ 0)
    (h : ∀ o < size, resolveVirtualAddr m (addr0 + o) = some (p + o)) :
    resolveVirtualAddr m addr0 = some p := by
  have h₀ := h 0 (by bv_omega)
  rwa [add_zero, add_zero] at h₀

theorem mapMemory_iff (hm : Disjoint m) (hown : env.own = true)
    (h : mapMemory env m addr0 addr1 size permissions = ⟨.ok r, m'⟩) :
    Mirrored m m' addr0 addr1 size ↔ Mirrorable m addr0 addr1 size := by
  obtain ⟨paddr, vaddr, hp, hfind, hs, hok, rfl⟩ := mapMemory_ok hown h
  have hoffset (o : BitVec 32) : addr0 + o - addr0 = o := by ring
  have hback (a : VAddr) : addr0 + (a - addr0) = a := by ring
  by_cases hfree : Placeable m size addr0
  · have hres (a : VAddr) := mapFound_placeable (a := a) hm hs hfree hfind hok
    constructor
    · intro hmir
      refine ⟨fun _ => ⟨paddr, fun o ho => ?_⟩, fun h => absurd hfree h⟩
      have hin : InRange addr0 size (addr0 + o) := by rwa [InRange, hoffset]
      obtain ⟨p, h₁, h₂⟩ := (hmir (addr0 + o)).1 hin
      rw [hoffset] at h₁
      rw [resolveVirtualAddr_eq, hres, if_pos hin, hoffset] at h₂
      exact h₁.trans h₂.symm
    · rintro ⟨hcont, -⟩ a
      obtain ⟨p, hcont⟩ := hcont hfree
      have hpaddr : p = paddr := Option.some.inj ((contiguous_start hs hcont).symm.trans hp)
      refine ⟨fun hin => ⟨p + (a - addr0), hcont _ hin, ?_⟩, fun hout => ?_⟩
      · rw [resolveVirtualAddr_eq, hres, if_pos hin, hpaddr]
        rfl
      · rw [hres, if_neg hout]
  · have hres (a : VAddr) : resolve (mapVirtualMemory m paddr size vaddr permissions).memory a =
        resolve m a := mapFound_occupied hm hs hfree hfind
    have hsame (a : VAddr) : resolveVirtualAddr (mapVirtualMemory m paddr size vaddr
        permissions).memory a = resolveVirtualAddr m a := by
      rw [resolveVirtualAddr_eq, hres, resolveVirtualAddr_eq]
    constructor
    · intro hmir
      refine ⟨fun h => absurd h hfree, fun _ o ho => ?_⟩
      have hin : InRange addr0 size (addr0 + o) := by rwa [InRange, hoffset]
      obtain ⟨p, h₁, h₂⟩ := (hmir (addr0 + o)).1 hin
      rw [hoffset] at h₁
      exact ⟨p, h₁, (hsame _).symm.trans h₂⟩
    · rintro ⟨-, hequal⟩ a
      refine ⟨fun hin => ?_, fun _ => hres a⟩
      obtain ⟨p, h₁, h₂⟩ := hequal hfree (a - addr0) hin
      rw [hback] at h₂
      exact ⟨p, h₁, (hsame a).trans h₂⟩

theorem protectMemory_iff (hm : Disjoint m)
    (h : protectMemory m addr0 size permissions = ⟨.ok r, m'⟩) :
    Protected m m' addr0 size permissions ↔ Contiguous m addr0 size := by
  obtain ⟨paddr, vaddr, hp, hun, hfind, hs, hok, rfl⟩ := protectMemory_ok h
  have hback (a : VAddr) : addr0 + (a - addr0) = a := by ring
  have hfit : addr0.toNat + size.toNat < 2 ^ 32 := by
    by_contra hwrap
    exact unmap_past_top hm (not_lt.1 hwrap) hun
  have hin (a : VAddr) := inRange_iff (a := a) (Nat.le_of_lt hfit)
  -- where every address of the range was mapped, the new mapping goes into the hole
  have hres (hall : ∀ a, InRange addr0 size a → resolve m a ≠ none) (a : VAddr) :
      resolve (mapVirtualMemory (unmapVirtualMemory m addr0 size).memory paddr size vaddr
        permissions).memory a = if InRange addr0 size a then some (paddr + (a - addr0), permissions)
          else resolve m a := by
    obtain ⟨-, hrem⟩ := unmap_of_mapped hm hs hfit fun a h₁ h₂ => hall a ((hin a).2 ⟨h₁, h₂⟩)
    have hfree : Placeable (unmapVirtualMemory m addr0 size).memory size addr0 := by
      refine ⟨hfit, fun x h₁ h₂ => (resolve_eq_none_iff hm.unmap).1 ?_⟩
      rw [hrem x, if_pos ⟨h₁, h₂⟩]
    rw [mapFound_placeable hm.unmap hs hfree hfind hok]
    by_cases ha : InRange addr0 size a
    · rw [if_pos ha, if_pos ha]
    · rw [if_neg ha, if_neg ha, hrem a, if_neg fun h => ha ((hin a).2 h)]
  constructor
  · intro hprot
    have hall : ∀ a, InRange addr0 size a → resolve m a ≠ none := by
      intro a ha hnone
      obtain ⟨p, h₁, -⟩ := (hprot a).1 ha
      rw [resolveVirtualAddr_eq, hnone] at h₁
      cases h₁
    refine ⟨paddr, fun o ho => ?_⟩
    have hoffset : addr0 + o - addr0 = o := by ring
    have hino : InRange addr0 size (addr0 + o) := by rwa [InRange, hoffset]
    obtain ⟨p, h₁, h₂⟩ := (hprot (addr0 + o)).1 hino
    rw [hres hall, if_pos hino, hoffset] at h₂
    cases h₂
    exact h₁
  · rintro ⟨p, hcont⟩ a
    have hall : ∀ a, InRange addr0 size a → resolve m a ≠ none := by
      intro a ha hnone
      have := hcont (a - addr0) ha
      rw [hback, resolveVirtualAddr_eq, hnone] at this
      cases this
    have hpaddr : p = paddr := Option.some.inj ((contiguous_start hs hcont).symm.trans hp)
    refine ⟨fun ha => ⟨p + (a - addr0), ?_, ?_⟩, fun ha => ?_⟩
    · rw [← hback a, hcont _ ha, hback]
    · rw [hres hall, if_pos ha, hpaddr]
    · rw [hres hall, if_neg ha]

/-- **Operations 4 and 6 keep the contents** exactly where the range they translate is contiguous in
physical memory (for operation 4, and the target is free). -/
theorem contents_kept (hm : Disjoint m)
    (h : svcControlMemory env m addr0 addr1 size operation permissions = ⟨.ok r, m'⟩) :
    (operation &&& 0xFF = 4 → (Mirrored m m' addr0 addr1 size ↔ Mirrorable m addr0 addr1 size)) ∧
    (operation &&& 0xFF = 6 →
      (Protected m m' addr0 size permissions ↔ Contiguous m addr0 size)) := by
  unfold svcControlMemory svcControlProcessMemory at h
  rw [if_neg fun h => h.1 rfl] at h
  split at h
  · cases h
  constructor
  · intro hop
    rw [hop] at h
    exact mapMemory_iff hm rfl h
  · intro hop
    rw [hop] at h
    exact protectMemory_iff hm h

end

/-- Nothing to allocate, for operations on the process of the calling thread. -/
def ControlEnv.bare : ControlEnv := ⟨true, fun _ _ => none, 0x14000000⟩

/-- Two pages, mapped to the first and the third page of a range of physical memory. -/
def twoPages : VirtualMemory :=
  ⟨[(0x8000000, ⟨0x20000000, 0x1000, .readWrite⟩), (0x8001000, ⟨0x20002000, 0x1000, .readWrite⟩)],
    List.pairwise_pair.2 (by decide)⟩

theorem twoPages_disjoint : Disjoint twoPages where
  nonempty := by
    show ∀ e ∈ twoPages.entries, _
    decide
  below_top := by
    show ∀ e ∈ twoPages.entries, _
    decide
  disjoint := by
    show ∀ e ∈ twoPages.entries, ∀ e' ∈ twoPages.entries, _
    decide

/-- One page keeps its contents. -/
theorem contents_kept_page : ∃ m', Protected twoPages m' 0x8000000 0x1000 .read := by
  have hexact := @contents_kept twoPages _ .bare 0x8000000 0 0x1000 6 .read _ twoPages_disjoint rfl
  refine ⟨_, (hexact.2 rfl).2 ⟨0x20000000, fun o ho => ?_⟩⟩
  have hc : Contains (0x8000000, ⟨0x20000000, 0x1000, .readWrite⟩) (0x8000000 + o) := by
    unfold Contains
    bv_omega
  rw [resolveVirtualAddr_eq, resolve_mapped twoPages_disjoint (by decide) hc]
  simp [target]

/-- Two pages do not: the second one then is the second page of the physical range. -/
theorem contents_not_kept : ¬ ∀ (env : ControlEnv) m, Disjoint m →
    ∀ (addr0 addr1 size operation : BitVec 32) permissions r m',
    addr0 &&& 0xFFF = 0 → addr1 &&& 0xFFF = 0 → size &&& 0xFFF = 0 →
    svcControlMemory env m addr0 addr1 size operation permissions = ⟨.ok r, m'⟩ →
    (operation &&& 0xFF = 4 → Mirrored m m' addr0 addr1 size) ∧
    (operation &&& 0xFF = 6 → Protected m m' addr0 size permissions) := by
  intro h
  have hprot := (h .bare twoPages twoPages_disjoint 0x8000000 0 0x2000 6 .read _ _ (by decide)
    (by decide) (by decide) rfl).2 (by decide) 0x8001000
  obtain ⟨p, h₁, h₂⟩ := hprot.1 (by decide)
  have hbefore : resolveVirtualAddr twoPages 0x8001000 = some 0x20002000 := by decide
  rw [hbefore] at h₁
  cases h₁
  exact absurd h₂ (by decide)

end Mikage
