import Mikage.OS.Elapse

/-!
# Handle tables, accounted for

`Running` says what kernel code that serves a system call of `t` relies on.
-/

namespace Mikage

open KM Account

variable {P P' : Powers} {α β : Type} {k k' s₁ : Kernel} {g : Phase} {p r s t : Ref}
  {handle : Handle} {type : Kind → Bool} {R : β → Kernel → Phase → Prop}

/-! ## The running thread -/

/-- The kernel runs on behalf of `t` and holds references to it and its process. -/
structure Running (k : Kernel) (t : Ref) : Prop where
  ready : (k.thread t).status = .ready
  callback : (k.thread t).callback = none
  self : t ∈ k.locals
  parent : (k.thread t).process ∈ k.locals

namespace Running

theorem kind (h : Running k t) (hI : Inv k) : k.kind t = .thread :=
  hI.ready_thread (by rw [h.ready]; decide)

theorem lt (h : Running k t) (hI : Inv k) : t < k.next := hI.lt (by rw [h.kind hI]; decide)

theorem dead (h : Running k t) (hI : Inv k) : k.dead t = false := hI.locals t h.self

theorem parent_kind (h : Running k t) (hI : Inv k) : k.kind (k.thread t).process = .process :=
  hI.parent t (h.kind hI)

theorem parent_alive (h : Running k t) (hI : Inv k) : k.Alive (k.thread t).process :=
  ⟨hI.lt (by rw [h.parent_kind hI]; decide), hI.locals _ h.parent⟩

/-- What leaves the thread alone leaves it running. -/
theorem frame (h : Running k t) (hI : Inv k) (hF : Frame P k k') (hl : k'.locals = k.locals)
    (hP : ¬ P.turn t) (hP' : ¬ P.sleep t) : Running k' t where
  ready := hF.ready t hP hP' h.ready
  callback := (hF.callback t hP (h.lt hI)).trans h.callback
  self := hl ▸ h.self
  parent := by
    rw [hF.process t (h.lt hI), hl]
    exact h.parent

end Running

/-! ## Looking up handles -/

theorem Kernel.lookup_mem (h : k.lookup t handle = some r) :
    ∃ entry ∈ k.handleTable t, entry.1 = handle ∧ entry.2 = r := by
  obtain ⟨entry, he, rfl⟩ := Option.map_eq_some_iff.1 h
  exact ⟨entry, List.mem_of_find?_eq_some he, by simpa using List.find?_some he, rfl⟩

theorem Inv.lookup_alive (hI : Inv k) (hp : k.dead (k.thread t).process = false)
    (h : k.lookup t handle = some r) : k.Alive r := by
  obtain ⟨entry, he, -, rfl⟩ := Kernel.lookup_mem h
  exact hI.alive_of_table hp he

theorem findObject_ends {failExpected : Bool} :
    Ends (findObject t handle type failExpected) k
      (fun r k' => k' = k ∧ ∀ x ∈ r, k.lookup t handle = some x ∧ type (k.kind x) = true)
      (fun e k' => k' = k ∧ e ∉ Exception.asserted) := by
  simp only [findObject, ends_get]
  cases hl : k.lookup t handle with
  | none =>
    apply Ends.split
    · intro _
      simp
    · intro _
      simp [Exception.asserted]
  | some r =>
    apply Ends.split
    · intro ht
      simp [ht]
    · intro _
      apply Ends.split
      · intro _
        simp
      · intro _
        simp [Exception.asserted]

theorem getObject_ends : Ends (getObject t handle type) k
    (fun r k' => k' = k ∧ k.lookup t handle = some r ∧ type (k.kind r) = true)
    (fun e k' => k' = k ∧ e ∉ Exception.asserted) := by
  refine Ends.bind findObject_ends ?_
  rintro r _ ⟨rfl, hr⟩
  cases r with
  | none => simp [Exception.asserted]
  | some r => exact ⟨rfl, hr r rfl⟩

/-! ## Changing entries -/

theorem setEntry_ends {o : Option Ref} {E : Exception → Kernel → Prop} :
    Ends (setEntry p handle o) k (fun _ k' => k' = { k with
      process := k.process.modify p (fun process => { process with
        table := removeEntry process.table handle ++ o.toList.map (handle, ·) })
      trace := k.trace ++ k.replaced p handle }) E := by
  simp only [setEntry, ends_get, Kernel.replaced, modifyProcess]
  cases (k.process p).table.find? (·.1 = handle) <;> simp [emit]

/-- `table[handle] = object` for an object that is alive. -/
theorem setEntry_does {o : Option Ref} (hP : P.tables) (hp : k.Alive p) (hk : k.kind p = .process)
    (ho : ∀ x ∈ o, k.Alive x) :
    Does P (setEntry p handle o) k g (fun _ k' g' =>
      g' = { g with making := g.making.filter (some · ≠ o) } ∧
      ∃ process trace, k' = { k with process := process, trace := trace }) := by
  refine Ends.mono setEntry_ends ?_ (fun _ _ h => h)
  rintro _ k' rfl
  have hact := @Act.entry P k g p handle o id hP hp hk ho
  exact ⟨_, .single hact, rfl, rfl, _, _, rfl⟩

theorem createHandle_does (hP : P.tables) (hI : Inv k) (hm : ∀ x ∈ g.making, x = r)
    (hp : k.Alive p) (hk : k.kind p = .process) (hr : k.Alive r) :
    Does P (createHandle p r) k g (fun _ k' g' => g' = { g with making := [] } ∧
      ∃ process dead trace, k' = { k with process := process, dead := dead, trace := trace }) := by
  simp only [createHandle, modifyProcess, ends_get, ends_modify]
  refine Ends.bind setEntry_ends ?_
  rintro _ k' rfl
  have hact := @Act.entry P k g p (((k.process p).curHandle + 1) % 2 ^ 32) (some r)
    (fun _ => ((k.process p).curHandle + 1) % 2 ^ 32) hP hp hk (by simpa using hr)
  have hmaking : g.making.filter (some · ≠ some r) = [] := by simpa using hm
  rw [hmaking] at hact
  have hI' := hI.act hact
  simp only [Store.modify_modify, Kernel.replaced, Store.get_modify_self]
  refine step hact rfl (call hI' (.refl P) (collect_does hI' rfl) ?_)
  rintro _ k'' _ - - - ⟨rfl, ⟨_, _, rfl⟩, -⟩
  exact done ⟨rfl, _, _, _, rfl⟩

end Mikage
