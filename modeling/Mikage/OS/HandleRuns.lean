import Mikage.OS.Clock

/-!
# Handles over the life of a table

One handle table through a run of calls. The counter behind the handles is never compared with the
handles that are in the table or reserved.

- `HandleCall`: the calls that change the table; a duplicate of a handle is another `create`.
- `UniqueHandles`: what a run should be like, and `uniqueHandles_iff` when it is.
-/

namespace Mikage

open KM

structure HandleTable (α : Type) where
  table : List (Handle × α) := []
  curHandle : Handle := 0

inductive HandleCall (α : Type) where
  | create (object : α)
  /-- `CreateEntry`, which its callers use for the handle of the current process only. -/
  | createEntry (object : α)
  | setCurrentThread (thread : Option α)
  | close (handle : Handle)

namespace HandleTable

variable {α : Type}

def handles (h : HandleTable α) : List Handle := h.table.map (·.1)

/-- `table[handle] = object`. -/
def set (h : HandleTable α) (handle : Handle) (object : α) : HandleTable α :=
  { h with table := h.table.filter (·.1 ≠ handle) ++ [(handle, object)] }

def createHandle (h : HandleTable α) (object : α) : Handle × HandleTable α :=
  let handle := (h.curHandle + 1) % 2 ^ 32
  (handle, set { h with curHandle := handle } handle object)

def createEntry (h : HandleTable α) (handle : Handle) (object : α) :
    Except Exception (HandleTable α) :=
  if handle ∈ h.handles then throw (.runtimeError "Handle already in table!")
  else pure (h.set handle object)

def closeHandle (h : HandleTable α) (handle : Handle) : HandleTable α :=
  { h with table := h.table.filter (·.1 ≠ handle) }

def setCurrentThread (h : HandleTable α) (thread : Option α) : HandleTable α :=
  match thread with
  | none => h.closeHandle handleCurrentThread
  | some object => h.set handleCurrentThread object

/-- The table after a call. A call that throws leaves it as it is. -/
def call (h : HandleTable α) : HandleCall α → HandleTable α
  | .create object => (h.createHandle object).2
  | .createEntry object => (h.createEntry handleCurrentProcess object).toOption.getD h
  | .setCurrentThread thread => h.setCurrentThread thread
  | .close handle => h.closeHandle handle

def after (calls : List (HandleCall α)) : HandleTable α := calls.foldl call {}

theorem after_append (calls : List (HandleCall α)) (c : HandleCall α) :
    after (calls ++ [c]) = (after calls).call c := by
  simp [after]

theorem mem_handles_set {h : HandleTable α} {handle x : Handle} {object : α}
    (hx : x ∈ (h.set handle object).handles) : x = handle ∨ x ∈ h.handles := by
  simp only [handles, set, List.map_append, List.mem_append, List.mem_map, List.mem_filter] at hx ⊢
  rcases hx with ⟨e, he, rfl⟩ | ⟨e, he, rfl⟩
  · exact .inr ⟨e, he.1, rfl⟩
  · exact .inl (by rw [List.mem_singleton.1 he])

theorem mem_handles_close {h : HandleTable α} {handle x : Handle}
    (hx : x ∈ (h.closeHandle handle).handles) : x ∈ h.handles := by
  simp only [handles, closeHandle, List.mem_map, List.mem_filter] at hx ⊢
  obtain ⟨e, he, rfl⟩ := hx
  exact ⟨e, he.1, rfl⟩

theorem mem_set {h : HandleTable α} {handle : Handle} {object : α} {e : Handle × α}
    (he : e ∈ h.table) (hne : handle ∉ h.handles) : e ∈ (h.set handle object).table := by
  refine List.mem_append_left _ (List.mem_filter.2 ⟨he, ?_⟩)
  have hother : e.1 ≠ handle := fun h' => hne (h' ▸ List.mem_map_of_mem he)
  simpa using hother

end HandleTable

/-- The two pseudo handles. -/
def Reserved (handle : Handle) : Prop :=
  handle = handleCurrentThread ∨ handle = handleCurrentProcess

namespace HandleCall

variable {α : Type}

def creates : HandleCall α → Bool
  | create _ => true
  | _ => false

end HandleCall

/-- How many handles a run has created. -/
def created {α : Type} (calls : List (HandleCall α)) : ℕ := calls.countP HandleCall.creates

section

variable {α : Type} {calls : List (HandleCall α)}

theorem created_append (calls : List (HandleCall α)) (c : HandleCall α) :
    created (calls ++ [c]) = created calls + if c.creates then 1 else 0 := by
  rw [created, List.countP_append, List.countP_singleton, created]

theorem created_le {l : List (HandleCall α)} (h : l <+: calls) : created l ≤ created calls :=
  h.sublist.countP_le

/-- The counter, and the handles there are, before the counter comes to the reserved ones. -/
structure Counted (calls : List (HandleCall α)) (h : HandleTable α) : Prop where
  curHandle : h.curHandle = created calls % 2 ^ 32
  handles : created calls < handleCurrentThread →
    ∀ handle ∈ h.handles, handle ≤ created calls ∨ Reserved handle

theorem Counted.call {h : HandleTable α} (hc : Counted calls h) (c : HandleCall α) :
    Counted (calls ++ [c]) (h.call c) := by
  cases c with
  | create object =>
    have hcreated : created (calls ++ [.create object]) = created calls + 1 := created_append _ _
    have hcur : (h.curHandle + 1) % 2 ^ 32 = created (calls ++ [.create object]) % 2 ^ 32 := by
      rw [hc.curHandle, hcreated, Nat.mod_add_mod]
    refine ⟨hcur, fun hlast x hx => ?_⟩
    rw [hcreated] at hlast ⊢
    rcases HandleTable.mem_handles_set hx with rfl | hx
    · refine .inl ?_
      rw [hcur, hcreated]
      exact Nat.mod_le _ _
    · exact (hc.handles (Nat.lt_of_succ_lt hlast) x hx).imp_left fun h => Nat.le_succ_of_le h
  | createEntry object =>
    have hcreated : created (calls ++ [.createEntry object]) = created calls := created_append _ _
    have hcases : h.call (.createEntry object) = h ∨
        h.call (.createEntry object) = h.set handleCurrentProcess object := by
      simp only [HandleTable.call, HandleTable.createEntry]
      split
      · exact .inl rfl
      · exact .inr rfl
    rcases hcases with heq | heq
    · rw [heq]
      exact ⟨hcreated ▸ hc.curHandle, hcreated ▸ hc.handles⟩
    · rw [heq]
      refine ⟨hcreated ▸ hc.curHandle, fun hlast x hx => ?_⟩
      rw [hcreated] at hlast ⊢
      rcases HandleTable.mem_handles_set hx with rfl | hx
      · exact .inr (.inr rfl)
      · exact hc.handles hlast x hx
  | setCurrentThread thread =>
    have hcreated : created (calls ++ [.setCurrentThread thread]) = created calls :=
      created_append _ _
    cases thread with
    | none =>
      refine ⟨hcreated ▸ hc.curHandle, fun hlast x hx => ?_⟩
      rw [hcreated] at hlast ⊢
      exact hc.handles hlast x (HandleTable.mem_handles_close hx)
    | some object =>
      refine ⟨hcreated ▸ hc.curHandle, fun hlast x hx => ?_⟩
      rw [hcreated] at hlast ⊢
      rcases HandleTable.mem_handles_set hx with rfl | hx
      · exact .inr (.inl rfl)
      · exact hc.handles hlast x hx
  | close handle =>
    have hcreated : created (calls ++ [.close handle]) = created calls := created_append _ _
    refine ⟨hcreated ▸ hc.curHandle, fun hlast x hx => ?_⟩
    rw [hcreated] at hlast ⊢
    exact hc.handles hlast x (HandleTable.mem_handles_close hx)

theorem counted_after (calls : List (HandleCall α)) : Counted calls (HandleTable.after calls) := by
  induction calls using List.reverseRecOn with
  | nil => exact ⟨rfl, fun _ _ h => nomatch h⟩
  | append_singleton calls c ih =>
    rw [HandleTable.after_append]
    exact ih.call c

/-- Every handle a run creates is new to the table and not a reserved one, and the entries that are
in the table stay there. -/
structure UniqueHandles (calls : List (HandleCall α)) : Prop where
  fresh : ∀ l object, l ++ [.create object] <+: calls →
    ((HandleTable.after l).createHandle object).1 ∉ (HandleTable.after l).handles
  unreserved : ∀ l object, l ++ [.create object] <+: calls →
    ¬ Reserved ((HandleTable.after l).createHandle object).1
  kept : ∀ l object, l ++ [.create object] <+: calls → ∀ e ∈ (HandleTable.after l).table,
    e ∈ ((HandleTable.after l).createHandle object).2.table

theorem createHandle_after {l : List (HandleCall α)} {object : α}
    (h : created l < handleCurrentThread) :
    ((HandleTable.after l).createHandle object).1 = created l + 1 := by
  show ((HandleTable.after l).curHandle + 1) % 2 ^ 32 = _
  have hlt : created l + 1 < 2 ^ 32 := Nat.lt_of_le_of_lt h (by decide)
  rw [(counted_after l).curHandle, Nat.mod_add_mod, Nat.mod_eq_of_lt hlt]

/-- The call that creates a run's `n`-th handle. -/
theorem exists_creation {n : ℕ} (h : n < created calls) :
    ∃ l object, l ++ [.create object] <+: calls ∧ created l = n := by
  induction calls using List.reverseRecOn with
  | nil => exact absurd h (Nat.not_lt_zero _)
  | append_singleton calls c ih =>
    by_cases hn : n < created calls
    · obtain ⟨l, object, hl, hcount⟩ := ih hn
      exact ⟨l, object, hl.trans (List.prefix_append _ _), hcount⟩
    · rw [created_append] at h
      cases c with
      | create object =>
        rw [HandleCall.creates, if_pos rfl] at h
        exact ⟨calls, object, List.prefix_refl _, by omega⟩
      | createEntry | setCurrentThread | close => exact absurd h hn

/-- Handles are unique as long as the counter has not come to the reserved ones, and no longer. -/
theorem uniqueHandles_iff (calls : List (HandleCall α)) :
    UniqueHandles calls ↔ created calls < handleCurrentThread := by
  constructor
  · intro h
    by_contra hlast
    obtain ⟨l, object, hl, hcount⟩ : ∃ l object, l ++ [.create object] <+: calls ∧
        created l = handleCurrentThread - 1 :=
      exists_creation (Nat.lt_of_lt_of_le (by decide) (Nat.not_lt.1 hlast))
    refine h.unreserved l object hl (.inl ?_)
    rw [createHandle_after (by rw [hcount]; decide), hcount]
    rfl
  · intro hlast
    have hbelow {l : List (HandleCall α)} {object : α} (hl : l ++ [.create object] <+: calls) :
        created l + 1 < handleCurrentThread := by
      have hle := created_le hl
      rw [created_append, HandleCall.creates, if_pos rfl] at hle
      exact Nat.lt_of_le_of_lt hle hlast
    have hnew {l : List (HandleCall α)} {object : α} (hl : l ++ [.create object] <+: calls) :
        ((HandleTable.after l).createHandle object).1 = created l + 1 :=
      createHandle_after (Nat.lt_of_succ_lt (hbelow hl))
    have hunreserved {l : List (HandleCall α)} {object : α}
        (hl : l ++ [.create object] <+: calls) : ¬ Reserved (created l + 1) := by
      have hlt := hbelow hl
      rintro (h | h)
      · exact Nat.lt_irrefl _ (h ▸ hlt)
      · rw [h] at hlt
        exact absurd hlt (by decide)
    have hfresh : ∀ l object, l ++ [.create object] <+: calls →
        ((HandleTable.after l).createHandle object).1 ∉ (HandleTable.after l).handles := by
      intro l object hl hmem
      rw [hnew hl] at hmem
      rcases (counted_after l).handles (Nat.lt_of_succ_lt (hbelow hl)) _ hmem with h | h
      · exact Nat.not_succ_le_self _ h
      · exact hunreserved hl h
    refine ⟨hfresh, fun l object hl h => hunreserved hl (hnew hl ▸ h), fun l object hl e he => ?_⟩
    exact HandleTable.mem_set (h := { HandleTable.after l with curHandle := _ }) he
      (hfresh l object hl)

/-- After as many handles the next one is that of the current thread. -/
theorem handles_reserved :
    ¬ UniqueHandles (List.replicate handleCurrentThread (HandleCall.create ())) := by
  rw [uniqueHandles_iff, created, List.countP_replicate]
  exact Nat.lt_irrefl _

end

/-! ## The tables of the kernel -/

/-- The handle table of a process. -/
def Kernel.handleTableOf (k : Kernel) (p : Ref) : HandleTable Ref :=
  ⟨(k.process p).table, (k.process p).curHandle⟩

theorem collectWithin_process : ∀ (fuel : ℕ) (k : Kernel),
    Ends (collectWithin fuel) k (fun _ k' => k'.process = k.process) (fun _ _ => True)
  | 0, _ => rfl
  | fuel + 1, k => by
    unfold collectWithin
    simp only [ends_get]
    cases k.garbage with
    | none => exact ends_pure.2 rfl
    | some r => exact collectWithin_process fuel { k with trace := _, dead := _ }

theorem createHandle_refines {k k' : Kernel} {p r : Ref} {handle : Handle}
    (h : createHandle p r k = .ok handle k') :
    (handle, k'.handleTableOf p) = (k.handleTableOf p).createHandle r := by
  have hends : Ends (createHandle p r) k
      (fun handle k' => (handle, k'.handleTableOf p) = (k.handleTableOf p).createHandle r)
      (fun _ _ => True) := by
    have hset (k₁ : Kernel)
        (hk₁ : k₁.process = k.process.modify p fun process =>
          { process with curHandle := ((k.process p).curHandle + 1) % 2 ^ 32 }) :
        Ends (do
          modifyProcess p fun process => { process with
            table := removeEntry process.table (((k.process p).curHandle + 1) % 2 ^ 32) ++
              (some r).toList.map ((((k.process p).curHandle + 1) % 2 ^ 32), ·) }
          collect
          pure (((k.process p).curHandle + 1) % 2 ^ 32)) k₁
        (fun handle k' => (handle, k'.handleTableOf p) = (k.handleTableOf p).createHandle r)
        (fun _ _ => True) := by
      unfold modifyProcess collect
      simp only [ends_modify]
      refine Ends.bind (collectWithin_process _ _) fun _ k₂ hk₂ => ?_
      refine ends_pure.2 ?_
      unfold Kernel.handleTableOf HandleTable.createHandle HandleTable.set
      rw [hk₂, hk₁]
      simp [removeEntry]
    unfold createHandle setEntry
    simp only [ends_get, modifyProcess, ends_modify, ends_assoc]
    split
    · exact hset _ rfl
    · exact hset _ rfl
  exact hends.ok h

end Mikage
