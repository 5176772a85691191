import Mikage.Lib.Masks
import Mikage.Memory.MapProof

/-!
# Querying the memory map

`SVCQueryMemory` and `SVCQueryProcessMemory` return the range around an address: the mapping that
contains it, with the mappings right behind it where it is one of a program image, or the range
between two mappings.

- `queryMemory`: what both calls compute.
- `Describes`: what the answer says about every address of the range.
- `queryMemory_describes`, `queryMemory_error_iff`: what is answered, and when nothing is.
-/

namespace Mikage

structure MemoryInfo where
  baseVaddr : VAddr
  size : BitVec 32
  permissions : MemoryPermissions
  state : BitVec 32
  pageFlags : BitVec 32
  deriving DecidableEq, Repr

/-- The loop that joins mappings of equal permissions, over those behind the first one. -/
def joinBehind (permissions : MemoryPermissions) (base : VAddr) :
    BitVec 32 → List (VAddr × VirtualMemoryBlock) → BitVec 32
  | size, [] => size
  | size, e :: l =>
    if e.1 = base + size ∧ e.2.permissions = permissions then
      joinBehind permissions base (size + e.2.size) l
    else size

/-- The range between the end of the mapping before and the next mapping. -/
def queryGap (m : VirtualMemory) (address previousEnd : VAddr) : Except Exception MemoryInfo :=
  match m.upperBound address with
  | none => .error (.runtimeError "NotImplemented")
  | some next => .ok ⟨previousEnd, next.1 - previousEnd, .none, 0, 0⟩

def queryMapped (m : VirtualMemory) (linearBaseAddr : VAddr) (e : VAddr × VirtualMemoryBlock) :
    Except Exception MemoryInfo :=
  let last := e.1 + e.2.size
  let info (size state : BitVec 32) : Except Exception MemoryInfo :=
    .ok ⟨e.1, size, e.2.permissions, state, 0⟩
  if linearBaseAddr ≤ e.1 ∧ last ≤ linearBaseAddr + 0x8000000 then info e.2.size 6
  else if 0x08000000 ≤ e.1 ∧ last < 0x10000000 then info e.2.size 5
  else if 0x100000 ≤ e.1 ∧ last < 0x10000000 then
    info (joinBehind e.2.permissions e.1 e.2.size (m.entries.filter (e.1 < ·.1))) 10
  else if last ≤ 0x10000000 then info e.2.size 11
  else .error (.runtimeError "Unknown memory region")

def queryMemory (m : VirtualMemory) (linearBaseAddr address : VAddr) : Except Exception MemoryInfo :=
  if address &&& 0xc0000000 ≠ 0 then .error (.invalid "Kernel panic:")
  else match m.prevUpperBound address with
    | none => queryGap m address 0
    | some e =>
      if e.1 + e.2.size ≤ address then queryGap m address (e.1 + e.2.size)
      else queryMapped m linearBaseAddr e

/-! ## What an answer says -/

/-- The permissions an address is mapped with. -/
def permissionsAt (m : VirtualMemory) (a : VAddr) : Option MemoryPermissions :=
  (resolve m a).map (·.2)

/-- The addresses `[base, base + size)`, which do not wrap. -/
structure Within (base : VAddr) (size : BitVec 32) (a : VAddr) : Prop where
  below_top : base.toNat + size.toNat < 2 ^ 32
  lower : base.toNat ≤ a.toNat
  upper : a.toNat < base.toNat + size.toNat

/-- **What an answer is for**: a range around the address that is mapped alike everywhere. An unmapped
range is as long as it can be; a mapped one begins where a mapping begins, and that of a program image
ends where the permissions change. -/
structure Describes (m : VirtualMemory) (address : VAddr) (info : MemoryInfo) : Prop where
  contains : Within info.baseVaddr info.size address
  alike : ∀ a, Within info.baseVaddr info.size a → permissionsAt m a = permissionsAt m address
  unmapped : permissionsAt m address = none → info.permissions = .none ∧ info.state = 0 ∧
    (info.baseVaddr = 0 ∨ permissionsAt m (info.baseVaddr - 1) ≠ none) ∧
    permissionsAt m (info.baseVaddr + info.size) ≠ none
  mapped : ∀ permissions, permissionsAt m address = some permissions →
    info.permissions = permissions ∧
    (∃ e ∈ m, Contains e address ∧ e.1 = info.baseVaddr ∧
      (info.state ≠ 10 → e.2.size = info.size)) ∧
    (info.state = 10 → permissionsAt m (info.baseVaddr + info.size) ≠ some permissions)

section

variable {m : VirtualMemory} {linearBaseAddr address base a : VAddr} {size : BitVec 32}
  {e : VAddr × VirtualMemoryBlock} {permissions : MemoryPermissions} {info : MemoryInfo}

theorem permissionsAt_mapped (hm : Disjoint m) (he : e ∈ m) (h : Contains e a) :
    permissionsAt m a = some e.2.permissions := by
  rw [permissionsAt, resolve_mapped hm he h]
  rfl

theorem permissionsAt_eq_none_iff (hm : Disjoint m) :
    permissionsAt m a = none ↔ ∀ e ∈ m, ¬ Contains e a := by
  rw [permissionsAt, Option.map_eq_none_iff, resolve_eq_none_iff hm]

/-- The mappings apart from those joined so far: they end before `stop`, or they are still to come. -/
structure Behind (m : VirtualMemory) (stop : Nat) (l : List (VAddr × VirtualMemoryBlock)) : Prop where
  sorted : l.Pairwise (·.1 < ·.1)
  mem : ∀ e ∈ l, e ∈ m ∧ stop ≤ e.1.toNat
  all : ∀ e ∈ m, e.1.toNat + e.2.size.toNat ≤ stop ∨ e ∈ l

theorem Behind.of_mem (hm : Disjoint m) (he : e ∈ m) :
    Behind m (e.1.toNat + e.2.size.toNat) (m.entries.filter (e.1 < ·.1)) where
  sorted := m.sorted.filter _
  mem e' he' := by
    obtain ⟨hmem, hlt⟩ := List.mem_filter.mp he'
    exact ⟨hmem, hm.disjoint e he e' hmem (by simpa using hlt)⟩
  all e' he' := by
    rcases lt_trichotomy e.1 e'.1 with hlt | heq | hlt
    · exact .inr (List.mem_filter.mpr ⟨he', by simpa using hlt⟩)
    · rw [SortedMap.eq_of_fst_eq he he' heq]
      exact .inl (Nat.le_refl _)
    · have := hm.disjoint e' he' e he hlt
      exact .inl (by omega)

variable (permissions) in
/-- Where the loop stops. -/
theorem joinBehind_spec (hm : Disjoint m) {l : List (VAddr × VirtualMemoryBlock)}
    (hl : Behind m (base.toNat + size.toNat) l) (hfit : base.toNat + size.toNat < 2 ^ 32) :
    let joined := joinBehind permissions base size l
    size.toNat ≤ joined.toNat ∧ base.toNat + joined.toNat < 2 ^ 32 ∧
    (∀ a : VAddr, base.toNat + size.toNat ≤ a.toNat → a.toNat < base.toNat + joined.toNat →
      permissionsAt m a = some permissions) ∧
    permissionsAt m (base + joined) ≠ some permissions := by
  induction l generalizing size with
  | nil =>
    refine ⟨Nat.le_refl _, hfit, fun a h₁ h₂ => absurd h₂ (Nat.not_lt.mpr h₁), ?_⟩
    have hnone : permissionsAt m (base + size) = none := by
      rw [permissionsAt_eq_none_iff hm]
      rintro e he ⟨-, hlt⟩
      rcases hl.all e he with hle | hmem
      · bv_omega
      · cases hmem
    show permissionsAt m (base + size) ≠ some permissions
    rw [hnone]
    nofun
  | cons e l ih =>
    obtain ⟨hem, hle⟩ := hl.mem e List.mem_cons_self
    have htop := hm.below_top e hem
    have hpos := hm.nonempty e hem
    unfold joinBehind
    split_ifs with hjoin
    · obtain ⟨hstart, hperm⟩ := hjoin
      have hnext : base.toNat + (size + e.2.size).toNat = e.1.toNat + e.2.size.toNat := by bv_omega
      have hl' : Behind m (base.toNat + (size + e.2.size).toNat) l := by
        refine ⟨hl.sorted.of_cons, fun e' he' => ?_, fun e' he' => ?_⟩
        · obtain ⟨hem', -⟩ := hl.mem e' (List.mem_cons_of_mem _ he')
          rw [hnext]
          exact ⟨hem', hm.disjoint e hem e' hem' (List.rel_of_pairwise_cons hl.sorted he')⟩
        · rcases hl.all e' he' with h | h
          · exact .inl (by omega)
          · rcases List.mem_cons.mp h with rfl | h
            · exact .inl (by omega)
            · exact .inr h
      obtain ⟨h₁, h₂, h₃, h₄⟩ := ih hl' (by omega)
      refine ⟨by bv_omega, h₂, fun a ha₁ ha₂ => ?_, h₄⟩
      by_cases hin : a.toNat < e.1.toNat + e.2.size.toNat
      · rw [permissionsAt_mapped hm hem ⟨by bv_omega, hin⟩, hperm]
      · exact h₃ a (by omega) ha₂
    · refine ⟨Nat.le_refl _, hfit, fun a h₁ h₂ => absurd h₂ (Nat.not_lt.mpr h₁), fun hsome => hjoin ?_⟩
      -- a mapping of the address behind the range begins there, hence it is the first one to come
      obtain ⟨t, ht, hperm⟩ := Option.map_eq_some_iff.mp hsome
      obtain ⟨e', he', ⟨hlo, hhi⟩, rfl⟩ := (resolve_eq_some_iff hm).mp ht
      have hmem : e' ∈ e :: l := (hl.all e' he').resolve_left (by bv_omega)
      obtain ⟨-, hle'⟩ := hl.mem e' hmem
      have hstart : e'.1 = base + size := by bv_omega
      rcases List.mem_cons.mp hmem with rfl | hmem
      · exact ⟨hstart, hperm⟩
      · have hlt := List.rel_of_pairwise_cons hl.sorted hmem
        bv_omega

theorem queryGap_describes (hm : Disjoint m) (hfree : permissionsAt m address = none)
    (hbase : base.toNat ≤ address.toNat)
    (hbefore : ∀ e ∈ m, e.1 ≤ address → e.1.toNat + e.2.size.toNat ≤ base.toNat)
    (hmapped : base = 0 ∨ permissionsAt m (base - 1) ≠ none)
    (h : queryGap m address base = .ok info) : Describes m address info := by
  unfold queryGap at h
  cases hu : m.upperBound address with
  | none =>
    rw [hu] at h
    cases h
  | some next =>
    rw [hu] at h
    cases h
    obtain ⟨hnext, hlt, hmin⟩ := SortedMap.upperBound_spec hu
    have hend : base + (next.1 - base) = next.1 := by bv_omega
    have hstop : base.toNat + (next.1 - base).toNat = next.1.toNat := by bv_omega
    refine ⟨⟨by bv_omega, hbase, by bv_omega⟩, ?_, fun _ => ⟨rfl, rfl, hmapped, ?_⟩, fun p hp => ?_⟩
    · rintro a ⟨-, hlo, hhi⟩
      rw [hfree, permissionsAt_eq_none_iff hm]
      rintro e he ⟨h₁, h₂⟩
      simp only [hstop] at hlo hhi
      rcases le_or_gt e.1 address with hle | hgt
      · have := hbefore e he hle
        omega
      · rcases hmin e he hgt with rfl | hlt'
        · omega
        · bv_omega
    · simp only [hend]
      have hpos := hm.nonempty next hnext
      rw [permissionsAt_mapped hm hnext ⟨Nat.le_refl _, by omega⟩]
      nofun
    · rw [hfree] at hp
      cases hp

theorem queryMapped_describes (hm : Disjoint m) (he : e ∈ m) (hc : Contains e address)
    (h : queryMapped m linearBaseAddr e = .ok info) : Describes m address info := by
  have htop := hm.below_top e he
  have hat : permissionsAt m address = some e.2.permissions := permissionsAt_mapped hm he hc
  have hwhole : ∀ state, state ≠ 10 →
      Describes m address ⟨e.1, e.2.size, e.2.permissions, state, 0⟩ := by
    intro state hstate
    refine ⟨⟨htop, hc.1, hc.2⟩, fun a ha => ?_, fun hnone => ?_, fun p hp => ?_⟩
    · rw [hat, permissionsAt_mapped hm he ⟨ha.lower, ha.upper⟩]
    · rw [hat] at hnone
      cases hnone
    · rw [hat] at hp
      exact ⟨Option.some.inj hp, ⟨e, he, hc, rfl, fun _ => rfl⟩, fun h => absurd h hstate⟩
  unfold queryMapped at h
  simp only at h
  split at h
  · cases h
    exact hwhole 6 (by decide)
  split at h
  · cases h
    exact hwhole 5 (by decide)
  split at h
  · cases h
    obtain ⟨hle, hfit, hsame, hchange⟩ :=
      joinBehind_spec e.2.permissions hm (Behind.of_mem hm he) htop
    refine ⟨⟨hfit, hc.1, by have := hc.2; simp only; omega⟩, fun a ha => ?_, fun hnone => ?_,
      fun p hp => ?_⟩
    · rw [hat]
      by_cases hin : a.toNat < e.1.toNat + e.2.size.toNat
      · exact permissionsAt_mapped hm he ⟨ha.lower, hin⟩
      · exact hsame a (by omega) ha.upper
    · rw [hat] at hnone
      cases hnone
    · rw [hat] at hp
      cases hp
      exact ⟨rfl, ⟨e, he, hc, rfl, fun h => absurd rfl h⟩, fun _ => hchange⟩
  split at h
  · cases h
    exact hwhole 11 (by decide)
  · cases h

variable (address) in
/-- The mapping an address is looked up in. -/
theorem query_cases (hm : Disjoint m) :
    (∃ e ∈ m, Contains e address ∧ m.prevUpperBound address = some e ∧
      ¬ e.1 + e.2.size ≤ address) ∨
    permissionsAt m address = none := by
  rcases hp : permissionsAt m address with _ | p
  · exact .inr rfl
  · obtain ⟨t, ht, -⟩ := Option.map_eq_some_iff.mp hp
    obtain ⟨e, he, hc, -⟩ := (resolve_eq_some_iff hm).mp ht
    have hblock := (resolveBlock_eq_some_iff hm).mpr ⟨he, hc⟩
    rw [resolveBlock, Option.filter_eq_some_iff] at hblock
    exact .inl ⟨e, he, hc, hblock.1, by simpa using hblock.2⟩

theorem queryMemory_describes (hm : Disjoint m)
    (h : queryMemory m linearBaseAddr address = .ok info) : Describes m address info := by
  unfold queryMemory at h
  split at h
  · cases h
  rcases query_cases address hm with ⟨e, he, hc, hprev, hin⟩ | hfree
  · rw [hprev] at h
    simp only [hin, if_false] at h
    exact queryMapped_describes hm he hc h
  · split at h
    next hnone =>
      refine queryGap_describes hm hfree (Nat.zero_le _) (fun e he hle => ?_) (.inl rfl) h
      exact absurd hle (not_le.mpr (SortedMap.prevUpperBound_eq_none_iff.mp hnone e he))
    next e hsome =>
      obtain ⟨he, hle, hmax⟩ := SortedMap.prevUpperBound_spec hsome
      have htop := hm.below_top e he
      have hpos := hm.nonempty e he
      split at h
      · refine queryGap_describes hm hfree (by bv_omega) (fun e' he' hle' => ?_) (.inr ?_) h
        · rcases hmax e' he' hle' with rfl | hlt
          · bv_omega
          · have := hm.disjoint e' he' e he hlt
            bv_omega
        · rw [permissionsAt_mapped hm he ⟨by bv_omega, by bv_omega⟩]
          nofun
      · have hnc := (permissionsAt_eq_none_iff hm).mp hfree e he
        exact absurd ⟨by bv_omega, by bv_omega⟩ hnc

/-- Where no answer is given: addresses from 2^30 on, those behind the last mapping, and mappings of
a region without a state. -/
def Unanswered (m : VirtualMemory) (linearBaseAddr address : VAddr) : Prop :=
  2 ^ 30 ≤ address.toNat ∨
  (permissionsAt m address = none ∧ ∀ e ∈ m, e.1 ≤ address) ∨
  ∃ e ∈ m, Contains e address ∧ ¬ (linearBaseAddr ≤ e.1 ∧
    e.1 + e.2.size ≤ linearBaseAddr + 0x8000000) ∧ 0x10000000 < e.1 + e.2.size

theorem high_bits_iff : address &&& 0xc0000000 ≠ 0 ↔ 2 ^ 30 ≤ address.toNat := by
  have hmask : (0xc0000000 : BitVec 32) = ~~~BitVec.ofNat 32 (2 ^ 30 - 1) := by decide
  rw [hmask, Ne, ← BitVec.toNat_inj, BitVec.toNat_and_not_mask,
    show (0 : BitVec 32).toNat = 0 from rfl]
  omega

theorem queryMapped_error_iff : (∃ err, queryMapped m linearBaseAddr e = .error err) ↔
    ¬ (linearBaseAddr ≤ e.1 ∧ e.1 + e.2.size ≤ linearBaseAddr + 0x8000000) ∧
      0x10000000 < e.1 + e.2.size := by
  unfold queryMapped
  simp only
  split_ifs with h₁ h₂ h₃ h₄
  · exact ⟨nofun, fun h => absurd h₁ h.1⟩
  · exact ⟨nofun, fun h => absurd h₂.2 (not_lt.mpr h.2.le)⟩
  · exact ⟨nofun, fun h => absurd h₃.2 (not_lt.mpr h.2.le)⟩
  · exact ⟨nofun, fun h => absurd h₄ (not_le.mpr h.2)⟩
  · exact ⟨fun _ => ⟨h₁, not_le.mp h₄⟩, fun _ => ⟨_, rfl⟩⟩

theorem queryGap_error_iff : (∃ err, queryGap m address base = .error err) ↔
    ∀ e ∈ m, e.1 ≤ address := by
  unfold queryGap
  rw [← SortedMap.upperBound_eq_none_iff]
  cases m.upperBound address with
  | none => exact ⟨fun _ => rfl, fun _ => ⟨_, rfl⟩⟩
  | some next => exact ⟨nofun, nofun⟩

theorem queryMemory_error_iff (hm : Disjoint m) :
    (∃ err, queryMemory m linearBaseAddr address = .error err) ↔
      Unanswered m linearBaseAddr address := by
  unfold queryMemory Unanswered
  split
  next hhigh => exact ⟨fun _ => .inl (high_bits_iff.mp hhigh), fun _ => ⟨_, rfl⟩⟩
  next hlow =>
    rw [high_bits_iff] at hlow
    rcases query_cases address hm with ⟨e, he, hc, hprev, hin⟩ | hfree
    · have hat := permissionsAt_mapped hm he hc
      simp only [hprev, hin, if_false, queryMapped_error_iff, hat, hlow, false_or, reduceCtorEq,
        false_and]
      exact ⟨fun h => ⟨e, he, hc, h⟩, fun ⟨e', he', hc', h⟩ => hm.unique he' he hc' hc ▸ h⟩
    · have hnone := (permissionsAt_eq_none_iff hm).mp hfree
      have hgap : ∀ base, (∃ err, queryGap m address base = .error err) ↔
          2 ^ 30 ≤ address.toNat ∨ (permissionsAt m address = none ∧ ∀ e ∈ m, e.1 ≤ address) ∨
            ∃ e ∈ m, Contains e address ∧ ¬ (linearBaseAddr ≤ e.1 ∧
              e.1 + e.2.size ≤ linearBaseAddr + 0x8000000) ∧ 0x10000000 < e.1 + e.2.size := by
        intro base
        rw [queryGap_error_iff]
        refine ⟨fun h => .inr (.inl ⟨hfree, h⟩), ?_⟩
        rintro (h | ⟨-, h⟩ | ⟨e, he, hc, -⟩)
        · exact absurd h hlow
        · exact h
        · exact absurd hc (hnone e he)
      split
      · exact hgap 0
      next e hsome =>
        obtain ⟨he, hle, -⟩ := SortedMap.prevUpperBound_spec hsome
        have htop := hm.below_top e he
        rw [if_pos (by
          by_contra hin
          exact hnone e he ⟨by bv_omega, by bv_omega⟩)]
        exact hgap _

/-- A text segment in two chunks, with read-only data behind it. -/
def threeChunks : VirtualMemory :=
  ⟨[(0x100000, ⟨0x20000000, 0x1000, .readExec⟩), (0x101000, ⟨0x24000000, 0x2000, .readExec⟩),
    (0x103000, ⟨0x20001000, 0x1000, .read⟩)], by simp [SortedMap.Sorted]⟩

theorem threeChunks_disjoint : Disjoint threeChunks where
  nonempty := by
    show ∀ e ∈ threeChunks.entries, _
    decide
  below_top := by
    show ∀ e ∈ threeChunks.entries, _
    decide
  disjoint := by
    show ∀ e ∈ threeChunks.entries, ∀ e' ∈ threeChunks.entries, _
    decide

end

end Mikage
