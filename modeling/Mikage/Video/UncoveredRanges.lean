import Mikage.Memory.Hooks

/-!
# Parts of a page that no resource covers

The resource manager keeps, for each page, the resources on it and the kinds of hooks they have.
`ForEachUncoveredRange` calls back on the parts of a subrange that no resource with a hook of the
same kind covers; a range over several pages is cut by `IterateMemoryPages`.

All sums are of 32 bits. A range covers the bytes from its start on, around the end of the address
space; `Overlaps` compares ends that have wrapped.
-/

namespace Mikage.Pica.TrackedPages

/-! ## Ranges -/

structure MemoryRange where
  start : PAddr
  numBytes : BitVec 32
  deriving DecidableEq, Repr

namespace MemoryRange

/-- `range.start + range.num_bytes` -/
def stop (r : MemoryRange) : PAddr := r.start + r.numBytes

def overlaps (range other : MemoryRange) : Bool :=
  !(range.stop ≤ other.start || other.stop ≤ range.start)

def Contains (r : MemoryRange) (x : PAddr) : Prop := x - r.start < r.numBytes

instance (r : MemoryRange) (x : PAddr) : Decidable (r.Contains x) :=
  inferInstanceAs (Decidable (_ < _))

/-- The end of the range does not wrap. -/
def Ends (r : MemoryRange) : Prop := r.start.toNat + r.numBytes.toNat < 2 ^ 32

instance (r : MemoryRange) : Decidable r.Ends := inferInstanceAs (Decidable (_ < _))

/-- The bytes of the range in order. -/
def bytes (r : MemoryRange) : List PAddr :=
  (List.range r.numBytes.toNat).map fun i => r.start + BitVec.ofNat 32 i

end MemoryRange

/-! ## The code -/

/-- `TrackedMemoryPage::Entry`, with the range of its resource. -/
structure Entry where
  range : MemoryRange
  hookKind : HookKind
  deriving DecidableEq, Repr

/-- The start of the page `GetTrackedMemoryPage` finds. -/
def getTrackedMemoryPage (addr : PAddr) : Except Exception PAddr :=
  if Bus.fcram.isInside addr then pure (Bus.fcram.pageAddr ((addr - Bus.fcram.start) >>> 12))
  else if Bus.vram.isInside addr then pure (Bus.vram.pageAddr ((addr - Bus.vram.start) >>> 12))
  else throw (.runtimeError
    "ResourceManager attempted to read memory that is neither FCRAM nor VRAM")

def hooksInCommon (hookKind : HookKind) (entry : Entry) : Bool :=
  hookKind.has .write && entry.hookKind.has .write || hookKind.has .read && entry.hookKind.has .read

/-- The order of `std::tie(start, num_bytes)`. -/
def before (a b : Entry) : Bool :=
  a.range.start < b.range.start ∨
    a.range.start = b.range.start ∧ a.range.numBytes < b.range.numBytes

/-- The first of the least. -/
def minElement (less : Entry → Entry → Bool) : List Entry → Option Entry
  | [] => none
  | e :: es => some (es.foldl (fun least e => if less e least then e else least) e)

/-- `remaining_resource_it` -/
def remainingResource (hookKind : HookKind) (resources : List Entry) (subrange : MemoryRange) :
    Option Entry :=
  minElement before (resources.filter fun entry =>
    hooksInCommon hookKind entry && subrange.overlaps entry.range)

/-- The ranges `ForEachUncoveredRange` calls back on, in order; `none` where so many rounds do not
end the loop. -/
def forEachUncoveredRange (hookKind : HookKind) (resources : List Entry) :
    ℕ → MemoryRange → Option (List MemoryRange)
  | 0, _ => none
  | rounds + 1, subrange =>
    match remainingResource hookKind resources subrange with
    | some entry =>
      if subrange.numBytes = 0 then some []
      else
        let cleared := if entry.range.start > subrange.start then
          [⟨subrange.start, entry.range.start - subrange.start⟩] else []
        let diff := entry.range.stop - subrange.start
        let rest := ⟨subrange.start + diff, max subrange.numBytes diff - diff⟩
        (forEachUncoveredRange hookKind resources rounds rest).map (cleared ++ ·)
    | none => if subrange.numBytes = 0 then some [] else some [subrange]

def endPageIndex (range : MemoryRange) : BitVec 32 :=
  ((range.start &&& 0xfff) + 0x1000 + range.numBytes - 1) >>> 12

/-- `operator*` of the iterator. -/
def pageRange (range : MemoryRange) (pageIndex : BitVec 32) : MemoryRange :=
  let pageStart := ((range.start >>> 12) + pageIndex) <<< 12
  let hookRangeStart := if pageIndex = 0 then range.start else pageStart
  let hookRangeEnd := if pageIndex = endPageIndex range - 1 then range.stop else pageStart + 0x1000
  ⟨hookRangeStart, hookRangeEnd - hookRangeStart⟩

def iterateMemoryPages (range : MemoryRange) : List MemoryRange :=
  (List.range (endPageIndex range).toNat).map fun i => pageRange range (BitVec.ofNat 32 i)

/-! ## What the loop is for -/

/-- A resource with a hook of the kind covers the byte. -/
def Covered (hookKind : HookKind) (resources : List Entry) (x : PAddr) : Prop :=
  ∃ entry ∈ resources, hooksInCommon hookKind entry = true ∧ entry.range.Contains x

/-- One does whose end does not wrap. -/
def CoveredBelow (hookKind : HookKind) (resources : List Entry) (x : PAddr) : Prop :=
  ∃ entry ∈ resources, hooksInCommon hookKind entry = true ∧ entry.range.Contains x ∧
    entry.range.Ends

structure Exact (hookKind : HookKind) (resources : List Entry) (subrange : MemoryRange)
    (chunks : List MemoryRange) : Prop where
  nonempty : ∀ c ∈ chunks, c.numBytes ≠ 0
  disjoint : chunks.Pairwise fun c c' => ∀ x, c.Contains x → ¬ c'.Contains x
  union : ∀ x, (∃ c ∈ chunks, c.Contains x) ↔
    subrange.Contains x ∧ ¬ Covered hookKind resources x

/-- The loop ends, and what it calls back on is exact. -/
def Uncovers (hookKind : HookKind) (resources : List Entry) (subrange : MemoryRange) : Prop :=
  ∃ chunks, Exact hookKind resources subrange chunks ∧
    ∀ rounds > subrange.numBytes.toNat,
      forEachUncoveredRange hookKind resources rounds subrange = some chunks

/-- The subrange lies in the page. -/
def Subrange (page : PAddr) (subrange : MemoryRange) : Prop :=
  page.toNat ≤ subrange.start.toNat ∧
    subrange.start.toNat + subrange.numBytes.toNat ≤ page.toNat + 0x1000

/-- Every covered byte of the subrange is covered by a resource whose end does not wrap. -/
def NoneWraps (hookKind : HookKind) (resources : List Entry) (subrange : MemoryRange) : Prop :=
  ∀ x, subrange.Contains x → Covered hookKind resources x → CoveredBelow hookKind resources x

/-- The pages cut the range into pieces of one page each, in order. -/
structure Partitions (range : MemoryRange) (pages : List MemoryRange) : Prop where
  nonempty : ∀ p ∈ pages, p.numBytes ≠ 0
  onePage : ∀ p ∈ pages, ∀ x ∈ p.bytes, x >>> 12 = p.start >>> 12
  inOrder : pages.flatMap (·.bytes) = range.bytes

/-! ## Ranges in numbers -/

section Ranges

variable {r sub : MemoryRange} {x : PAddr}

theorem contains_iff : r.Contains x ↔
    (2 ^ 32 - r.start.toNat + x.toNat) % 2 ^ 32 < r.numBytes.toNat := by
  rw [MemoryRange.Contains, BitVec.lt_def, BitVec.toNat_sub]

theorem contains_iff_of_ends (h : r.Ends) :
    r.Contains x ↔ r.start.toNat ≤ x.toNat ∧ x.toNat < r.start.toNat + r.numBytes.toNat := by
  have hx := x.isLt
  rw [contains_iff]
  unfold MemoryRange.Ends at h
  omega

theorem contains_iff_of_wraps (h : ¬ r.Ends) :
    r.Contains x ↔ r.start.toNat ≤ x.toNat ∨ x.toNat < r.stop.toNat := by
  have hx := x.isLt
  have hs := r.start.isLt
  have hn := r.numBytes.isLt
  rw [contains_iff, MemoryRange.stop, BitVec.toNat_add]
  unfold MemoryRange.Ends at h
  omega

theorem stop_of_ends (h : r.Ends) : r.stop.toNat = r.start.toNat + r.numBytes.toNat := by
  unfold MemoryRange.Ends at h
  rw [MemoryRange.stop, BitVec.toNat_add, Nat.mod_eq_of_lt h]

theorem stop_le_of_wraps (h : ¬ r.Ends) : r.stop.toNat < r.start.toNat := by
  have hs := r.start.isLt
  have hn := r.numBytes.isLt
  unfold MemoryRange.Ends at h
  rw [MemoryRange.stop, BitVec.toNat_add]
  omega

theorem overlaps_iff (h : sub.Ends) : sub.overlaps r = true ↔
    r.start.toNat < sub.start.toNat + sub.numBytes.toNat ∧ sub.start.toNat < r.stop.toNat := by
  simp only [MemoryRange.overlaps, Bool.not_eq_true', Bool.or_eq_false_iff,
    decide_eq_false_iff_not, BitVec.not_le, BitVec.lt_def, stop_of_ends h]

theorem mem_bytes : x ∈ r.bytes ↔ r.Contains x := by
  have hx := x.isLt
  have hn := r.numBytes.isLt
  simp only [MemoryRange.bytes, List.mem_map, List.mem_range]
  constructor
  · rintro ⟨i, hi, rfl⟩
    rw [MemoryRange.Contains, BitVec.lt_def, BitVec.add_comm, BitVec.add_sub_cancel,
      BitVec.toNat_ofNat, Nat.mod_eq_of_lt (by omega)]
    exact hi
  · intro h
    refine ⟨(x - r.start).toNat, h, ?_⟩
    rw [BitVec.ofNat_toNat, BitVec.setWidth_eq, BitVec.add_comm, BitVec.sub_add_cancel]

end Ranges

/-! ## One round of the loop -/

section Round

variable {hookKind : HookKind} {resources : List Entry} {sub : MemoryRange} {e : Entry} {x : PAddr}

theorem before_start {a b : Entry} (h : before a b = true) : a.range.start ≤ b.range.start := by
  unfold before at h
  rcases of_decide_eq_true h with h | h
  · exact BitVec.le_of_lt h
  · exact BitVec.le_of_eq h.1

theorem start_le_of_not_before {a b : Entry} (h : ¬ before a b = true) :
    b.range.start ≤ a.range.start := by
  unfold before at h
  rw [decide_eq_true_eq, not_or, BitVec.not_lt] at h
  exact h.1

/-- The least entry is one of the list and starts no later than the others. -/
theorem foldl_least (es : List Entry) (e : Entry) :
    let least := es.foldl (fun least e => if before e least then e else least) e
    least ∈ e :: es ∧ ∀ e' ∈ e :: es, least.range.start ≤ e'.range.start := by
  induction es generalizing e with
  | nil => simp
  | cons a es ih =>
    obtain ⟨hmem, hle⟩ := ih (if before a e then a else e)
    rw [List.foldl_cons]
    by_cases hb : before a e = true
    · rw [if_pos hb] at hmem hle ⊢
      refine ⟨List.mem_cons_of_mem _ hmem, fun e' he' => ?_⟩
      rcases List.mem_cons.1 he' with rfl | he'
      · exact BitVec.le_trans (hle a List.mem_cons_self) (before_start hb)
      · exact hle e' he'
    · rw [if_neg hb] at hmem hle ⊢
      refine ⟨?_, fun e' he' => ?_⟩
      · rcases List.mem_cons.1 hmem with h | h
        · rw [h]
          exact List.mem_cons_self
        · exact List.mem_cons_of_mem _ (List.mem_cons_of_mem _ h)
      · rcases List.mem_cons.1 he' with rfl | he'
        · exact hle _ List.mem_cons_self
        · rcases List.mem_cons.1 he' with rfl | he'
          · exact BitVec.le_trans (hle e List.mem_cons_self) (start_le_of_not_before hb)
          · exact hle e' (List.mem_cons_of_mem _ he')

theorem minElement_none {l : List Entry} (h : minElement before l = none) : l = [] := by
  cases l with
  | nil => rfl
  | cons e es => simp [minElement] at h

theorem minElement_some {l : List Entry} (h : minElement before l = some e) :
    e ∈ l ∧ ∀ e' ∈ l, e.range.start ≤ e'.range.start := by
  cases l with
  | nil => simp [minElement] at h
  | cons a es =>
    rw [minElement, Option.some.injEq] at h
    rw [← h]
    exact foldl_least es a

/-- The entry can be picked. -/
def Candidate (hookKind : HookKind) (resources : List Entry) (sub : MemoryRange) (e : Entry) :
    Prop :=
  e ∈ resources ∧ hooksInCommon hookKind e = true ∧
    e.range.start.toNat < sub.start.toNat + sub.numBytes.toNat ∧
    sub.start.toNat < e.range.stop.toNat

theorem mem_candidates (h : sub.Ends) :
    (e ∈ resources.filter fun e => hooksInCommon hookKind e && sub.overlaps e.range) ↔
      Candidate hookKind resources sub e := by
  rw [List.mem_filter, Bool.and_eq_true, overlaps_iff h, Candidate]

/-- What a resource that is left covers, where none is picked. -/
theorem remainingResource_none (h : sub.Ends)
    (hnone : remainingResource hookKind resources sub = none) :
    ¬ Candidate hookKind resources sub e := by
  intro he
  rw [← mem_candidates h, minElement_none hnone] at he
  cases he

theorem remainingResource_some (h : sub.Ends)
    (hsome : remainingResource hookKind resources sub = some e) :
    Candidate hookKind resources sub e ∧
      ∀ e', Candidate hookKind resources sub e' → e.range.start.toNat ≤ e'.range.start.toNat := by
  obtain ⟨hmem, hle⟩ := minElement_some hsome
  exact ⟨(mem_candidates h).1 hmem, fun e' he' => hle e' ((mem_candidates h).2 he')⟩

/-- A resource that covers a byte of the subrange and does not wrap can be picked. -/
theorem candidate_of_contains (h : sub.Ends) (hx : sub.Contains x) (he : e ∈ resources)
    (hcommon : hooksInCommon hookKind e = true) (hcontains : e.range.Contains x)
    (hends : e.range.Ends) : Candidate hookKind resources sub e := by
  rw [contains_iff_of_ends h] at hx
  rw [contains_iff_of_ends hends] at hcontains
  refine ⟨he, hcommon, ?_, ?_⟩
  · omega
  · rw [stop_of_ends hends]
    omega

/-- The bytes before the resource. -/
def cleared (sub : MemoryRange) (e : Entry) : List MemoryRange :=
  if e.range.start > sub.start then [⟨sub.start, e.range.start - sub.start⟩] else []

/-- The subrange behind the resource. -/
def behind (sub : MemoryRange) (e : Entry) : MemoryRange :=
  let diff := e.range.stop - sub.start
  ⟨sub.start + diff, max sub.numBytes diff - diff⟩

theorem forEachUncoveredRange_some {rounds : ℕ} (hn : sub.numBytes ≠ 0)
    (hsome : remainingResource hookKind resources sub = some e) :
    forEachUncoveredRange hookKind resources (rounds + 1) sub =
      (forEachUncoveredRange hookKind resources rounds (behind sub e)).map
        (cleared sub e ++ ·) := by
  rw [forEachUncoveredRange, hsome]
  exact if_neg hn

theorem behind_start : (behind sub e).start = e.range.stop := by
  simp only [behind]
  rw [BitVec.add_comm, BitVec.sub_add_cancel]

theorem behind_numBytes (he : Candidate hookKind resources sub e) :
    (behind sub e).numBytes.toNat =
      sub.start.toNat + sub.numBytes.toNat - e.range.stop.toNat := by
  obtain ⟨-, -, -, hstop⟩ := he
  have hs := sub.start.isLt
  have he := e.range.stop.isLt
  have hdiff : (e.range.stop - sub.start).toNat = e.range.stop.toNat - sub.start.toNat := by
    rw [BitVec.toNat_sub]
    omega
  have hmax : (max sub.numBytes (e.range.stop - sub.start)).toNat =
      max sub.numBytes.toNat (e.range.stop - sub.start).toNat := by
    simp only [max_def, BitVec.le_def]
    split <;> rfl
  have hn := sub.numBytes.isLt
  simp only [behind]
  rw [BitVec.toNat_sub, hmax, hdiff]
  omega

theorem behind_ends (h : sub.Ends) (he : Candidate hookKind resources sub e) :
    (behind sub e).Ends := by
  have hb := e.range.stop.isLt
  unfold MemoryRange.Ends at *
  rw [behind_start, behind_numBytes he]
  omega

theorem behind_contains (h : sub.Ends) (he : Candidate hookKind resources sub e) :
    (behind sub e).Contains x ↔ sub.Contains x ∧ e.range.stop.toNat ≤ x.toNat := by
  have hstop := he.2.2.2
  rw [contains_iff_of_ends (behind_ends h he), contains_iff_of_ends h, behind_start,
    behind_numBytes he]
  omega

theorem behind_shorter (hn : sub.numBytes ≠ 0) (he : Candidate hookKind resources sub e) :
    (behind sub e).numBytes.toNat < sub.numBytes.toNat := by
  have hpos : sub.numBytes.toNat ≠ 0 := fun h => hn (BitVec.eq_of_toNat_eq h)
  have hstop := he.2.2.2
  rw [behind_numBytes he]
  omega

theorem mem_cleared (h : sub.Ends) (he : Candidate hookKind resources sub e) :
    (∃ c ∈ cleared sub e, c.Contains x) ↔ sub.Contains x ∧ x.toNat < e.range.start.toNat := by
  have hx := x.isLt
  have hs := e.range.start.isLt
  have hstart := he.2.2.1
  rw [contains_iff_of_ends h]
  unfold cleared
  split
  next hlt =>
    have hlt : sub.start.toNat < e.range.start.toNat := hlt
    simp only [List.mem_singleton, exists_eq_left, contains_iff, BitVec.toNat_sub]
    unfold MemoryRange.Ends at h
    omega
  next hle =>
    have hle : ¬ sub.start.toNat < e.range.start.toNat := hle
    simp only [List.not_mem_nil, false_and, exists_false, false_iff]
    omega

theorem cleared_nonempty {c : MemoryRange} (hc : c ∈ cleared sub e) : c.numBytes ≠ 0 := by
  unfold cleared at hc
  split at hc
  next hlt =>
    have hlt : sub.start.toNat < e.range.start.toNat := hlt
    have hs := e.range.start.isLt
    rw [List.mem_singleton.1 hc]
    intro h
    have h := congrArg BitVec.toNat h
    simp only [BitVec.toNat_sub] at h
    change _ = 0 at h
    omega
  next => cases hc

theorem cleared_pairwise {R : MemoryRange → MemoryRange → Prop} : (cleared sub e).Pairwise R := by
  unfold cleared
  split
  · exact List.pairwise_singleton _ _
  · exact .nil

end Round

/-! ## The loop -/

section Loop

variable {hookKind : HookKind} {resources : List Entry} {sub : MemoryRange} {e : Entry} {x : PAddr}
  {chunks rest : List MemoryRange} {rounds : ℕ}

theorem forEachUncoveredRange_none (hn : sub.numBytes ≠ 0)
    (hnone : remainingResource hookKind resources sub = none) :
    forEachUncoveredRange hookKind resources (rounds + 1) sub = some [sub] := by
  rw [forEachUncoveredRange, hnone]
  exact if_neg hn

theorem forEachUncoveredRange_empty (hn : sub.numBytes = 0) :
    forEachUncoveredRange hookKind resources (rounds + 1) sub = some [] := by
  rw [forEachUncoveredRange]
  split
  · exact if_pos hn
  · exact if_pos hn

/-- The loop ends: every round takes a byte from the subrange. -/
theorem forEachUncoveredRange_ends (h : sub.Ends) :
    ∃ chunks, ∀ rounds > sub.numBytes.toNat,
      forEachUncoveredRange hookKind resources rounds sub = some chunks := by
  induction hsize : sub.numBytes.toNat using Nat.strong_induction_on generalizing sub with
  | _ size ih =>
    by_cases hn : sub.numBytes = 0
    · refine ⟨[], fun rounds hr => ?_⟩
      obtain ⟨n, rfl⟩ := Nat.exists_eq_succ_of_ne_zero (Nat.ne_zero_of_lt hr)
      exact forEachUncoveredRange_empty hn
    cases hrem : remainingResource hookKind resources sub with
    | none =>
      refine ⟨[sub], fun rounds hr => ?_⟩
      obtain ⟨n, rfl⟩ := Nat.exists_eq_succ_of_ne_zero (Nat.ne_zero_of_lt hr)
      exact forEachUncoveredRange_none hn hrem
    | some e =>
      have he := (remainingResource_some h hrem).1
      have hlt := behind_shorter hn he
      rw [hsize] at hlt
      obtain ⟨rest, hrest⟩ := ih _ hlt (behind_ends h he) rfl
      refine ⟨cleared sub e ++ rest, fun rounds hr => ?_⟩
      obtain ⟨n, rfl⟩ := Nat.exists_eq_succ_of_ne_zero (Nat.ne_zero_of_lt hr)
      rw [forEachUncoveredRange_some hn hrem, hrest n (by omega), Option.map_some]

theorem contains_of_numBytes_zero (hn : sub.numBytes = 0) : ¬ sub.Contains x := by
  rw [MemoryRange.Contains, hn]
  exact BitVec.not_lt_zero

/-- How the loop comes to its result. -/
theorem forEachUncoveredRange_cases (h : sub.Ends)
    (hrun : forEachUncoveredRange hookKind resources (rounds + 1) sub = some chunks) :
    (sub.numBytes = 0 ∧ chunks = []) ∨
    (sub.numBytes ≠ 0 ∧ (∀ e, ¬ Candidate hookKind resources sub e) ∧ chunks = [sub]) ∨
    ∃ e rest, sub.numBytes ≠ 0 ∧ Candidate hookKind resources sub e ∧
      (∀ e', Candidate hookKind resources sub e' → e.range.start.toNat ≤ e'.range.start.toNat) ∧
      forEachUncoveredRange hookKind resources rounds (behind sub e) = some rest ∧
      chunks = cleared sub e ++ rest := by
  by_cases hn : sub.numBytes = 0
  · rw [forEachUncoveredRange_empty hn] at hrun
    exact .inl ⟨hn, (Option.some.inj hrun).symm⟩
  cases hrem : remainingResource hookKind resources sub with
  | none =>
    rw [forEachUncoveredRange_none hn hrem] at hrun
    exact .inr (.inl ⟨hn, fun e => remainingResource_none h hrem, (Option.some.inj hrun).symm⟩)
  | some e =>
    rw [forEachUncoveredRange_some hn hrem, Option.map_eq_some_iff] at hrun
    obtain ⟨rest, hrest, hchunks⟩ := hrun
    obtain ⟨he, hle⟩ := remainingResource_some h hrem
    exact .inr (.inr ⟨e, rest, hn, he, hle, hrest, hchunks.symm⟩)

/-- A picked resource that wraps covers the first byte of the subrange. -/
theorem wraps_contains_start (he : Candidate hookKind resources sub e) (hw : ¬ e.range.Ends) :
    e.range.Contains sub.start ∧ sub.start.toNat < e.range.start.toNat := by
  have hstop := he.2.2.2
  have hlt := stop_le_of_wraps hw
  rw [contains_iff_of_wraps hw]
  exact ⟨.inr hstop, by omega⟩

theorem contains_start (h : sub.Ends) (hn : sub.numBytes ≠ 0) : sub.Contains sub.start := by
  have hpos : sub.numBytes.toNat ≠ 0 := fun hz => hn (BitVec.eq_of_toNat_eq hz)
  rw [contains_iff_of_ends h]
  omega

/-- No resource that wraps is picked where others cover what it covers. -/
theorem ends_of_noneWraps (h : sub.Ends) (hn : sub.numBytes ≠ 0)
    (hw : NoneWraps hookKind resources sub) (he : Candidate hookKind resources sub e)
    (hle : ∀ e', Candidate hookKind resources sub e' →
      e.range.start.toNat ≤ e'.range.start.toNat) : e.range.Ends := by
  by_contra hwraps
  obtain ⟨hcontains, hlt⟩ := wraps_contains_start he hwraps
  have hstart := contains_start h hn
  obtain ⟨e', he', hcommon, hcontains', hends⟩ :=
    hw _ hstart ⟨e, he.1, he.2.1, hcontains⟩
  have hfirst := hle e' (candidate_of_contains h hstart he' hcommon hcontains' hends)
  rw [contains_iff_of_ends hends] at hcontains'
  omega

theorem NoneWraps.behind (h : sub.Ends) (he : Candidate hookKind resources sub e)
    (hw : NoneWraps hookKind resources sub) :
    NoneWraps hookKind resources (behind sub e) := fun x hx =>
  hw x ((behind_contains h he).1 hx).1

/-- A byte before the first resource that can be picked is not covered. -/
theorem not_covered_before (h : sub.Ends) (hw : NoneWraps hookKind resources sub)
    (hfirst : ∀ e', Candidate hookKind resources sub e' → x.toNat < e'.range.start.toNat)
    (hx : sub.Contains x) : ¬ Covered hookKind resources x := by
  intro hcov
  obtain ⟨e', he', hcommon, hcontains, hends⟩ := hw x hx hcov
  have hlt := hfirst e' (candidate_of_contains h hx he' hcommon hcontains hends)
  rw [contains_iff_of_ends hends] at hcontains
  omega

theorem exact_nil (hn : sub.numBytes = 0) : Exact hookKind resources sub [] where
  nonempty := nofun
  disjoint := .nil
  union x := by simp [contains_of_numBytes_zero hn]

/-- What the loop calls back on is exact where no resource wraps. -/
theorem exact_of_noneWraps (h : sub.Ends) (hw : NoneWraps hookKind resources sub)
    (hrun : forEachUncoveredRange hookKind resources rounds sub = some chunks) :
    Exact hookKind resources sub chunks := by
  induction rounds generalizing sub chunks with
  | zero => cases hrun
  | succ rounds ih =>
    rcases forEachUncoveredRange_cases h hrun with
      ⟨hn, rfl⟩ | ⟨hn, hnone, rfl⟩ | ⟨e, rest, hn, he, hle, hrest, rfl⟩
    · exact exact_nil hn
    · refine ⟨by simpa using hn, List.pairwise_singleton _ _, fun x => ?_⟩
      simp only [List.mem_singleton, exists_eq_left]
      refine ⟨fun hx => ⟨hx, ?_⟩, fun hx => hx.1⟩
      exact not_covered_before h hw (fun e' he' => absurd he' (hnone e')) hx
    · have hends := ends_of_noneWraps h hn hw he hle
      have hbehind := ih (behind_ends h he) (hw.behind h he) hrest
      have hstop := stop_of_ends hends
      refine ⟨fun c hc => ?_, ?_, fun x => ?_⟩
      · rcases List.mem_append.1 hc with hc | hc
        · exact cleared_nonempty hc
        · exact hbehind.nonempty c hc
      · refine List.pairwise_append.2 ⟨cleared_pairwise, hbehind.disjoint, ?_⟩
        intro c hc c' hc' x hx hx'
        have hbefore := ((mem_cleared h he).1 ⟨c, hc, hx⟩).2
        have hafter := ((behind_contains h he).1 ((hbehind.union x).1 ⟨c', hc', hx'⟩).1).2
        omega
      · simp only [List.mem_append, or_and_right, exists_or]
        rw [mem_cleared h he, hbehind.union, behind_contains h he]
        constructor
        · rintro (⟨hx, hlt⟩ | ⟨⟨hx, -⟩, hnot⟩)
          · exact ⟨hx, not_covered_before h hw (fun e' he' => by have := hle e' he'; omega) hx⟩
          · exact ⟨hx, hnot⟩
        · rintro ⟨hx, hnot⟩
          have hnotin : ¬ e.range.Contains x := fun hin => hnot ⟨e, he.1, he.2.1, hin⟩
          rw [contains_iff_of_ends hends] at hnotin
          by_cases hlt : x.toNat < e.range.start.toNat
          · exact .inl ⟨hx, hlt⟩
          · exact .inr ⟨⟨hx, by omega⟩, hnot⟩

/-- If it calls back on no covered byte, every one is covered by a resource that does not wrap. -/
theorem noneWraps_of_exact (h : sub.Ends)
    (hexact : ∀ x, (∃ c ∈ chunks, c.Contains x) → ¬ Covered hookKind resources x)
    (hrun : forEachUncoveredRange hookKind resources rounds sub = some chunks) :
    NoneWraps hookKind resources sub := by
  induction rounds generalizing sub chunks with
  | zero => cases hrun
  | succ rounds ih =>
    intro x hx hcov
    rcases forEachUncoveredRange_cases h hrun with
      ⟨hn, rfl⟩ | ⟨hn, hnone, rfl⟩ | ⟨e, rest, hn, he, hle, hrest, rfl⟩
    · exact absurd hx (contains_of_numBytes_zero hn)
    · exact absurd hcov (hexact x ⟨sub, List.mem_singleton_self _, hx⟩)
    · have hcleared : ∀ x, sub.Contains x → x.toNat < e.range.start.toNat →
          ¬ Covered hookKind resources x := by
        intro x hx hlt
        obtain ⟨c, hc, hin⟩ := (mem_cleared h he).2 ⟨hx, hlt⟩
        exact hexact x ⟨c, List.mem_append_left _ hc, hin⟩
      have hends : e.range.Ends := by
        by_contra hwraps
        obtain ⟨hcontains, hlt⟩ := wraps_contains_start he hwraps
        exact hcleared _ (contains_start h hn) hlt ⟨e, he.1, he.2.1, hcontains⟩
      have hstop := stop_of_ends hends
      by_cases hlt : x.toNat < e.range.start.toNat
      · exact absurd hcov (hcleared x hx hlt)
      by_cases hin : x.toNat < e.range.stop.toNat
      · refine ⟨e, he.1, he.2.1, ?_, hends⟩
        rw [contains_iff_of_ends hends]
        omega
      · refine ih (behind_ends h he) (fun x ⟨c, hc, hin⟩ => ?_) hrest x
          ((behind_contains h he).2 ⟨hx, by omega⟩) hcov
        exact hexact x ⟨c, List.mem_append_right _ hc, hin⟩

theorem uncovers_iff (h : sub.Ends) :
    Uncovers hookKind resources sub ↔ NoneWraps hookKind resources sub := by
  constructor
  · rintro ⟨chunks, hexact, hrun⟩
    exact noneWraps_of_exact h (fun x hx => ((hexact.union x).1 hx).2) (hrun _ (Nat.lt_succ_self _))
  · intro hw
    obtain ⟨chunks, hrun⟩ := forEachUncoveredRange_ends h
    exact ⟨chunks, exact_of_noneWraps h hw (hrun _ (Nat.lt_succ_self _)), hrun⟩

end Loop

/-! ## Pages of a range -/

section Pages

variable {r : MemoryRange} {i k : ℕ}

/-- The sum that the last page is computed from does not wrap. -/
def MemoryRange.SumFits (r : MemoryRange) : Prop :=
  r.start.toNat % 0x1000 + 0xfff + r.numBytes.toNat < 2 ^ 32

instance (r : MemoryRange) : Decidable r.SumFits := inferInstanceAs (Decidable (_ < _))

theorem endPageIndex_toNat : (endPageIndex r).toNat =
    (r.start.toNat % 0x1000 + 0xfff + r.numBytes.toNat) % 2 ^ 32 / 0x1000 := by
  have hand : (r.start &&& 0xfff).toNat = r.start.toNat % 0x1000 := by
    rw [BitVec.toNat_and]
    exact Nat.and_two_pow_sub_one_eq_mod _ 12
  rw [endPageIndex, BitVec.toNat_ushiftRight, Nat.shiftRight_eq_div_pow, BitVec.toNat_sub,
    BitVec.toNat_add, BitVec.toNat_add, hand]
  simp only [BitVec.ofNat_eq_ofNat, BitVec.toNat_ofNat]
  omega

/-- Where the page begins, from the start of the range. -/
def cut (r : MemoryRange) (i : ℕ) : ℕ :=
  if i = 0 then 0
  else if i = (endPageIndex r).toNat then r.numBytes.toNat
  else 0x1000 * i - r.start.toNat % 0x1000

theorem cut_le (h : r.SumFits) (hn : r.numBytes ≠ 0) (hi : i < (endPageIndex r).toNat) :
    cut r i < cut r (i + 1) ∧ cut r (i + 1) ≤ r.numBytes.toNat ∧
      r.start.toNat % 0x1000 + cut r i < 0x1000 * (i + 1) ∧
      r.start.toNat % 0x1000 + cut r (i + 1) ≤ 0x1000 * (i + 1) ∧
      0x1000 * i ≤ r.start.toNat % 0x1000 + cut r i := by
  have hpos : r.numBytes.toNat ≠ 0 := fun hz => hn (BitVec.eq_of_toNat_eq hz)
  have hend := endPageIndex_toNat (r := r)
  unfold MemoryRange.SumFits at h
  rw [Nat.mod_eq_of_lt h] at hend
  have hthis : (i = 0 ∧ cut r i = 0) ∨
      (i ≠ 0 ∧ cut r i = 0x1000 * i - r.start.toNat % 0x1000) := by
    unfold cut
    by_cases h0 : i = 0
    · exact .inl ⟨h0, if_pos h0⟩
    · exact .inr ⟨h0, by rw [if_neg h0, if_neg (Nat.ne_of_lt hi)]⟩
  have hnext : (i + 1 = (endPageIndex r).toNat ∧ cut r (i + 1) = r.numBytes.toNat) ∨
      (i + 1 ≠ (endPageIndex r).toNat ∧
        cut r (i + 1) = 0x1000 * (i + 1) - r.start.toNat % 0x1000) := by
    unfold cut
    rw [if_neg (Nat.succ_ne_zero i)]
    by_cases hl : i + 1 = (endPageIndex r).toNat
    · exact .inl ⟨hl, if_pos hl⟩
    · exact .inr ⟨hl, if_neg hl⟩
  omega

theorem pageStart_eq : ((r.start >>> 12) + BitVec.ofNat 32 i) <<< 12 =
    r.start - BitVec.ofNat 32 (r.start.toNat % 0x1000) + BitVec.ofNat 32 (0x1000 * i) := by
  have hs := r.start.isLt
  refine BitVec.eq_of_toNat_eq ?_
  rw [BitVec.toNat_shiftLeft, Nat.shiftLeft_eq, BitVec.toNat_add, BitVec.toNat_ushiftRight,
    Nat.shiftRight_eq_div_pow, BitVec.toNat_add, BitVec.toNat_sub]
  simp only [BitVec.toNat_ofNat]
  omega

theorem pageRange_eq (h : r.SumFits) (hn : r.numBytes ≠ 0) (hi : i < (endPageIndex r).toNat) :
    pageRange r (BitVec.ofNat 32 i) =
      ⟨r.start + BitVec.ofNat 32 (cut r i), BitVec.ofNat 32 (cut r (i + 1) - cut r i)⟩ := by
  have hend := (endPageIndex r).isLt
  have hs := r.start.isLt
  have hbytes := r.numBytes.isLt
  obtain ⟨hlt, hle, -, -, -⟩ := cut_le h hn hi
  have hzero : BitVec.ofNat 32 i = 0 ↔ i = 0 := by
    rw [BitVec.toNat_eq, BitVec.toNat_ofNat, Nat.mod_eq_of_lt (by omega)]
    rfl
  have hlast : BitVec.ofNat 32 i = endPageIndex r - 1 ↔ i + 1 = (endPageIndex r).toNat := by
    rw [BitVec.toNat_eq, BitVec.toNat_ofNat, BitVec.toNat_sub, Nat.mod_eq_of_lt (by omega)]
    simp only [BitVec.ofNat_eq_ofNat, BitVec.toNat_ofNat]
    omega
  have hstart : (if BitVec.ofNat 32 i = 0 then r.start else
      ((r.start >>> 12) + BitVec.ofNat 32 i) <<< 12) = r.start + BitVec.ofNat 32 (cut r i) := by
    rw [pageStart_eq]
    unfold cut
    by_cases h0 : i = 0
    · rw [if_pos (hzero.2 h0), if_pos h0, BitVec.add_zero]
    · rw [if_neg (fun hz => h0 (hzero.1 hz)), if_neg h0, if_neg (by omega)]
      refine BitVec.eq_of_toNat_eq ?_
      rw [BitVec.toNat_add, BitVec.toNat_add, BitVec.toNat_sub]
      simp only [BitVec.toNat_ofNat]
      omega
  have hstop : (if BitVec.ofNat 32 i = endPageIndex r - 1 then r.stop else
      ((r.start >>> 12) + BitVec.ofNat 32 i) <<< 12 + 0x1000) =
      r.start + BitVec.ofNat 32 (cut r (i + 1)) := by
    rw [pageStart_eq]
    unfold cut
    by_cases hl : i + 1 = (endPageIndex r).toNat
    · rw [if_pos (hlast.2 hl), if_neg (by omega), if_pos hl, MemoryRange.stop, BitVec.ofNat_toNat,
        BitVec.setWidth_eq]
    · rw [if_neg (fun hz => hl (hlast.1 hz)), if_neg (by omega), if_neg hl]
      refine BitVec.eq_of_toNat_eq ?_
      rw [BitVec.toNat_add, BitVec.toNat_add, BitVec.toNat_add, BitVec.toNat_sub]
      simp only [BitVec.ofNat_eq_ofNat, BitVec.toNat_ofNat]
      omega
  simp only [pageRange, hstart, hstop, MemoryRange.mk.injEq, true_and]
  refine BitVec.eq_of_toNat_eq ?_
  rw [BitVec.toNat_sub, BitVec.toNat_add, BitVec.toNat_add]
  simp only [BitVec.toNat_ofNat]
  omega

theorem bytes_pageRange (h : r.SumFits) (hn : r.numBytes ≠ 0) (hi : i < (endPageIndex r).toNat) :
    (pageRange r (BitVec.ofNat 32 i)).bytes =
      (List.range (cut r (i + 1) - cut r i)).map fun j =>
        r.start + BitVec.ofNat 32 (cut r i + j) := by
  have hbytes := r.numBytes.isLt
  obtain ⟨-, hle, -, -, -⟩ := cut_le h hn hi
  rw [pageRange_eq h hn hi, MemoryRange.bytes, BitVec.toNat_ofNat, Nat.mod_eq_of_lt (by omega)]
  refine List.map_congr_left fun j _ => ?_
  rw [BitVec.ofNat_add, BitVec.add_assoc]

/-- The bytes of the first pages. -/
theorem flatMap_bytes (h : r.SumFits) (hn : r.numBytes ≠ 0) (hk : k ≤ (endPageIndex r).toNat) :
    (List.range k).flatMap (fun i => (pageRange r (BitVec.ofNat 32 i)).bytes) =
      (List.range (cut r k)).map fun j => r.start + BitVec.ofNat 32 j := by
  induction k with
  | zero => rfl
  | succ k ih =>
    obtain ⟨hlt, -, -, -, -⟩ := cut_le h hn hk
    rw [List.range_succ, List.flatMap_append, ih (Nat.le_of_succ_le hk), List.flatMap_singleton,
      bytes_pageRange h hn hk]
    conv_rhs => rw [← Nat.add_sub_of_le (Nat.le_of_lt hlt), List.range_add, List.map_append,
      List.map_map]
    rfl

theorem page_of_mem {x : PAddr} (h : r.SumFits) (hn : r.numBytes ≠ 0)
    (hi : i < (endPageIndex r).toNat) (hx : x ∈ (pageRange r (BitVec.ofNat 32 i)).bytes) :
    (x >>> 12).toNat = (r.start.toNat / 0x1000 + i) % 2 ^ 20 := by
  have hs := r.start.isLt
  obtain ⟨hlt, hle, hlow, hhigh, hfrom⟩ := cut_le h hn hi
  rw [bytes_pageRange h hn hi, List.mem_map] at hx
  obtain ⟨j, hj, rfl⟩ := hx
  have hj := List.mem_range.1 hj
  rw [BitVec.toNat_ushiftRight, Nat.shiftRight_eq_div_pow, BitVec.toNat_add, BitVec.toNat_ofNat]
  omega

theorem endPageIndex_pos (h : r.SumFits) (hn : r.numBytes ≠ 0) : 0 < (endPageIndex r).toNat := by
  have hpos : r.numBytes.toNat ≠ 0 := fun hz => hn (BitVec.eq_of_toNat_eq hz)
  unfold MemoryRange.SumFits at h
  rw [endPageIndex_toNat, Nat.mod_eq_of_lt h]
  omega

theorem partitions_of_sumFits (h : r.SumFits) (hn : r.numBytes ≠ 0) :
    Partitions r (iterateMemoryPages r) where
  nonempty p hp := by
    obtain ⟨i, hi, rfl⟩ := List.mem_map.1 hp
    have hi := List.mem_range.1 hi
    obtain ⟨hlt, hle, -, -, -⟩ := cut_le h hn hi
    have hbytes := r.numBytes.isLt
    rw [pageRange_eq h hn hi]
    intro hzero
    have hzero := congrArg BitVec.toNat hzero
    rw [BitVec.toNat_ofNat, Nat.mod_eq_of_lt (by omega)] at hzero
    change _ = 0 at hzero
    omega
  onePage p hp x hx := by
    obtain ⟨i, hi, rfl⟩ := List.mem_map.1 hp
    have hi := List.mem_range.1 hi
    have hbytes := r.numBytes.isLt
    obtain ⟨hlt, hle, -, -, -⟩ := cut_le h hn hi
    have hfirst : (pageRange r (BitVec.ofNat 32 i)).start ∈
        (pageRange r (BitVec.ofNat 32 i)).bytes := by
      rw [bytes_pageRange h hn hi, pageRange_eq h hn hi]
      exact List.mem_map.2 ⟨0, List.mem_range.2 (by omega), rfl⟩
    refine BitVec.eq_of_toNat_eq ?_
    rw [page_of_mem h hn hi hx, page_of_mem h hn hi hfirst]
  inOrder := by
    have hpos := endPageIndex_pos h hn
    have hlast : cut r (endPageIndex r).toNat = r.numBytes.toNat := by
      rw [cut, if_neg (Nat.ne_of_gt hpos), if_pos rfl]
    rw [iterateMemoryPages, List.flatMap_map, flatMap_bytes h hn (Nat.le_refl _), hlast]
    rfl

/-- A range whose sum wraps is cut into no page, or into one. -/
theorem endPageIndex_of_wraps (h : ¬ r.SumFits) :
    (endPageIndex r).toNat = 0 ∨ (endPageIndex r).toNat = 1 := by
  have hn := r.numBytes.isLt
  unfold MemoryRange.SumFits at h
  rw [endPageIndex_toNat]
  omega

theorem sumFits_of_partitions (hp : Partitions r (iterateMemoryPages r)) : r.SumFits := by
  by_contra h
  have hbig : 0x2000 < r.numBytes.toNat := by
    unfold MemoryRange.SumFits at h
    omega
  have hall := hp.inOrder
  rcases endPageIndex_of_wraps h with hzero | hone
  · have hlength := congrArg List.length hall
    rw [iterateMemoryPages, hzero] at hlength
    simp only [List.range_zero, List.map_nil, List.flatMap_nil, List.length_nil,
      MemoryRange.bytes, List.length_map, List.length_range] at hlength
    omega
  · -- the only page is the whole range
    have hpages : iterateMemoryPages r = [pageRange r 0] := by
      rw [iterateMemoryPages, hone]
      rfl
    rw [hpages, List.flatMap_singleton] at hall
    have hmem (k : ℕ) (hk : k < r.numBytes.toNat) :
        r.start + BitVec.ofNat 32 k ∈ (pageRange r 0).bytes := by
      rw [hall]
      exact List.mem_map.2 ⟨k, List.mem_range.2 hk, rfl⟩
    have hsame := hp.onePage (pageRange r 0) (by rw [hpages]; exact List.mem_singleton_self _)
    have h0 := hsame _ (hmem 0 (by omega))
    have h1 := hsame _ (hmem 0x1000 (by omega))
    have heq := congrArg BitVec.toNat (h0.trans h1.symm)
    have hs := r.start.isLt
    rw [BitVec.toNat_ushiftRight, BitVec.toNat_ushiftRight, Nat.shiftRight_eq_div_pow,
      Nat.shiftRight_eq_div_pow, BitVec.toNat_add, BitVec.toNat_add] at heq
    simp only [BitVec.toNat_ofNat] at heq
    omega

theorem partitions_iff (hn : r.numBytes ≠ 0) :
    Partitions r (iterateMemoryPages r) ↔ r.SumFits :=
  ⟨sumFits_of_partitions, fun h => partitions_of_sumFits h hn⟩

end Pages

/-! ## Subranges of tracked pages -/

/-- The address of a tracked page is far below the end of the address space. -/
theorem getTrackedMemoryPage_lt {addr page : PAddr} (h : getTrackedMemoryPage addr = .ok page) :
    page.toNat + 0x1000 < 2 ^ 32 := by
  have hpage (bus : Bus) (hin : bus.isInside addr = true)
      (hstop : bus.start.toNat + bus.size.toNat + 0x1000 < 2 ^ 32) :
      (bus.pageAddr ((addr - bus.start) >>> 12)).toNat + 0x1000 < 2 ^ 32 := by
    have hx := addr.isLt
    simp only [Bus.isInside, decide_eq_true_eq, BitVec.le_def, BitVec.lt_def,
      BitVec.toNat_add] at hin
    rw [Bus.pageAddr, BitVec.toNat_add, BitVec.toNat_shiftLeft, BitVec.toNat_ushiftRight,
      Nat.shiftLeft_eq, Nat.shiftRight_eq_div_pow, BitVec.toNat_sub]
    omega
  unfold getTrackedMemoryPage at h
  split at h
  next hin =>
    rw [← Except.ok.inj h]
    exact hpage Bus.fcram hin (by decide)
  next =>
    split at h
    next hin =>
      rw [← Except.ok.inj h]
      exact hpage Bus.vram hin (by decide)
    next => exact nomatch h

theorem Subrange.ends {addr page : PAddr} {sub : MemoryRange}
    (h : getTrackedMemoryPage addr = .ok page) (hsub : Subrange page sub) : sub.Ends := by
  have hlt := getTrackedMemoryPage_lt h
  unfold Subrange at hsub
  unfold MemoryRange.Ends
  omega

/-- **Uncovered subranges**: the loop ends with the uncovered parts of the subrange exactly where
no resource that wraps covers a byte alone; the pages of a range are a partition of it exactly where
the sum behind the last page does not wrap. -/
theorem uncoveredSubranges_iff (hookKind : HookKind) (resources : List Entry) (addr page : PAddr)
    (subrange range : MemoryRange) :
    (getTrackedMemoryPage addr = .ok page → Subrange page subrange →
      (Uncovers hookKind resources subrange ↔ NoneWraps hookKind resources subrange)) ∧
    (range.numBytes ≠ 0 → (Partitions range (iterateMemoryPages range) ↔ range.SumFits)) :=
  ⟨fun hpage hsub => uncovers_iff (hsub.ends hpage), fun hn => partitions_iff hn⟩

theorem noneWraps_of_ends {hookKind : HookKind} {resources : List Entry} {sub : MemoryRange}
    (h : ∀ e ∈ resources, e.range.Ends) : NoneWraps hookKind resources sub :=
  fun _ _ ⟨e, he, hcommon, hin⟩ => ⟨e, he, hcommon, hin, h e he⟩

/-- Two resources that start together, a range on three pages. -/
theorem uncoveredSubranges_nested :
    Uncovers .write [⟨⟨0x20000200, 0x300⟩, .readWrite⟩, ⟨⟨0x20000200, 0x100⟩, .write⟩]
      ⟨0x20000100, 0x800⟩ ∧
    Partitions ⟨0x20000ff0, 0x1020⟩ (iterateMemoryPages ⟨0x20000ff0, 0x1020⟩) :=
  have h := uncoveredSubranges_iff .write [⟨⟨0x20000200, 0x300⟩, .readWrite⟩,
    ⟨⟨0x20000200, 0x100⟩, .write⟩] 0x20000000 0x20000000 ⟨0x20000100, 0x800⟩ ⟨0x20000ff0, 0x1020⟩
  ⟨(h.1 rfl ⟨by decide, by decide⟩).2 (noneWraps_of_ends (by decide)),
    (h.2 (by decide)).2 (by decide)⟩

/-- A resource up to the end of the address space covers the page, but the loop calls back on all
of it; a range of nearly all addresses has no page. -/
theorem uncoveredSubranges_wrap :
    let resources : List Entry := [⟨⟨0x18000000, 0xE8000000⟩, .write⟩]
    let page : MemoryRange := ⟨0x20000000, 0x1000⟩
    getTrackedMemoryPage 0x20000000 = .ok 0x20000000 ∧ Subrange 0x20000000 page ∧
    (∀ rounds, forEachUncoveredRange .write resources (rounds + 1) page = some [page]) ∧
    ¬ Uncovers .write resources page ∧
    iterateMemoryPages ⟨0x20000000, 0xFFFFFFFF⟩ = [] ∧
    ¬ Partitions ⟨0x20000000, 0xFFFFFFFF⟩ (iterateMemoryPages ⟨0x20000000, 0xFFFFFFFF⟩) := by
  refine ⟨rfl, ⟨by decide, by decide⟩, fun _ => rfl, fun h => ?_, rfl, fun h => ?_⟩
  · have hends : MemoryRange.Ends ⟨0x20000000, 0x1000⟩ := by decide
    have hcovered := (uncovers_iff hends).1 h 0x20000000 (by decide)
      ⟨_, List.mem_singleton_self _, rfl, by decide⟩
    obtain ⟨e, he, -, -, hwraps⟩ := hcovered
    rw [List.mem_singleton.1 he] at hwraps
    exact absurd hwraps (by decide)
  · exact absurd (sumFits_of_partitions h) (by decide)

end Mikage.Pica.TrackedPages
