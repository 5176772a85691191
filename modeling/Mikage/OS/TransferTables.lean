import Mikage.OS.HandleTransfer

/-!
# The handle tables behind a message

The handles of a message over the two handle tables, and the mutexes that are released when handles
are moved.

- `Free`, `Unlocked`: the conditions on the handles and on the mutexes of a message.
- `Steps.handed`: the words of the destination name what those of the source do.
- `Steps.finalised_iff`: an object is finalised exactly if a locked mutex is moved.
-/

namespace Mikage.IPC.Transfer

variable {Object : Type}

/-! ## Handle tables -/

theorem find_removed (l : List (ℕ × Object)) (handle x : ℕ) :
    (l.filter (·.1 ≠ handle)).find? (·.1 = x) =
      if x = handle then none else l.find? (·.1 = x) := by
  induction l with
  | nil => simp
  | cons e l ih =>
    by_cases removed : e.1 = handle
    · rw [List.filter_cons_of_neg (by simp [removed]), ih]
      by_cases same : x = handle
      · rw [if_pos same, if_pos same]
      · rw [if_neg same, if_neg same, List.find?_cons_of_neg]
        simpa [removed] using Ne.symm same
    · rw [List.filter_cons_of_pos (by simp [removed])]
      by_cases at_x : e.1 = x
      · rw [List.find?_cons_of_pos (by simp [at_x]), List.find?_cons_of_pos (by simp [at_x]),
          if_neg (at_x ▸ removed)]
      · rw [List.find?_cons_of_neg (by simp [at_x]), List.find?_cons_of_neg (by simp [at_x]), ih]

theorem lookup_close (table : HandleTable Object) (handle x : ℕ) :
    lookup (table.closeHandle handle) x = if x = handle then none else lookup table x := by
  rw [lookup, HandleTable.closeHandle, find_removed, apply_ite (Option.map Prod.snd)]
  rfl

theorem lookup_set (table : HandleTable Object) (handle : ℕ) (object : Object) (x : ℕ) :
    lookup (table.set handle object) x = if x = handle then some object else lookup table x := by
  rw [lookup, HandleTable.set, List.find?_append, find_removed]
  by_cases same : x = handle
  · simp [same]
  · rw [if_neg same, if_neg same, List.find?_cons_of_neg (by simpa using Ne.symm same),
      List.find?_nil, Option.or_none]
    rfl

/-- The handles that a table gives out next. -/
def nextHandle (curHandle k : ℕ) : ℕ := (curHandle + 1 + k) % 2 ^ 32

theorem nextHandle_lt (curHandle k : ℕ) : nextHandle curHandle k < 2 ^ 32 :=
  Nat.mod_lt _ (by decide)

theorem nextHandle_succ (curHandle k : ℕ) :
    nextHandle (nextHandle curHandle 0) k = nextHandle curHandle (k + 1) := by
  unfold nextHandle
  omega

theorem nextHandle_ne (curHandle : ℕ) {k : ℕ} (lt : k + 1 < 2 ^ 32) :
    nextHandle curHandle (k + 1) ≠ nextHandle curHandle 0 := by
  unfold nextHandle
  omega

section

variable {st : Setting Object} {word word' dest : ℕ → BitVec 32}
  {w w₁ w' : World Object} {l : List (Item × ℕ)} {item : Item} {o : ℕ}

theorem createHandle_eq (object : Object) (w : World Object) :
    (createHandle st object w).1 = nextHandle (w.tables (st.process .dest)).curHandle 0 := rfl

theorem lookup_created (object : Object) (w : World Object) (p x : ℕ) :
    lookup ((createHandle st object w).2.tables p) x =
      if p = st.process .dest ∧ x = nextHandle (w.tables (st.process .dest)).curHandle 0
      then some object else lookup (w.tables p) x := by
  by_cases at_dest : p = st.process .dest
  · subst at_dest
    simp only [createHandle, Function.update_self, HandleTable.createHandle, lookup_set, true_and]
    rfl
  · simp [createHandle, at_dest]

section

variable [DecidableEq Object]

theorem closeHandle_tables (handle : ℕ) (w : World Object) :
    (closeHandle st handle w).tables = Function.update w.tables (st.process .source)
      ((w.tables (st.process .source)).closeHandle handle) := by
  unfold closeHandle
  dsimp only
  split
  · rfl
  · split <;> rfl

theorem lookup_closed (handle : ℕ) (w : World Object) (p x : ℕ) :
    lookup ((closeHandle st handle w).tables p) x =
      if p = st.process .source ∧ x = handle then none else lookup (w.tables p) x := by
  rw [closeHandle_tables]
  by_cases at_source : p = st.process .source
  · subst at_source
    simp only [Function.update_self, lookup_close, true_and]
  · simp [at_source]

/-- While a handle is moved the object is referred to by the translation: closing the source's
handle does nothing but release a mutex. -/
theorem finalises_eq (w : World Object) (object : Object) :
    finalises st w object = (decide (st.kind object = .mutex) && decide (w.locks object ≠ 0)) := by
  have held : useCount st w object ≠ 1 := by
    unfold useCount
    dsimp only
    omega
  unfold finalises
  cases st.kind object <;> simp [held]

/-- `CloseHandle` finalises nothing unless the object is a mutex of the sending thread. -/
theorem closeHandle_quiet {handle : ℕ} {object : Object}
    (live : lookup (w.tables (st.process .source)) handle = some object)
    (unlocked : st.kind object = .mutex → w.locks object = 0) :
    (closeHandle st handle w).finalised = w.finalised ∧
      (closeHandle st handle w).locks = w.locks := by
  have quiet : finalises st w object = false := by
    rw [finalises_eq]
    by_cases mutex : st.kind object = .mutex
    · simp [mutex, unlocked mutex]
    · simp [mutex]
  unfold closeHandle
  simp only [live, quiet]
  exact ⟨rfl, rfl⟩

theorem closeHandle_locked {handle : ℕ} {object : Object}
    (live : lookup (w.tables (st.process .source)) handle = some object)
    (mutex : st.kind object = .mutex) (locked : w.locks object ≠ 0) :
    (closeHandle st handle w).finalised = w.finalised ++ [object] := by
  have released : finalises st w object = true := by
    rw [finalises_eq]
    simp [mutex, locked]
  unfold closeHandle
  simp only [live, released]
  rfl

theorem closeHandle_finalised_le (handle : ℕ) (w : World Object) :
    w.finalised.length ≤ (closeHandle st handle w).finalised.length := by
  unfold closeHandle
  dsimp only
  split
  · exact le_rfl
  · split
    · rw [List.length_append]
      exact Nat.le_add_right ..
    · exact le_rfl

end

/-! ## The handles of a message -/

/-- A handle that is moved. -/
def Moved (word : ℕ → BitVec 32) (l : List (Item × ℕ)) (h : ℕ) : Prop :=
  ∃ o, (.handle true, o) ∈ l ∧ word o ≠ 0 ∧ h = (word o).toNat

/-- A handle that the destination gets. -/
def Given (word word' : ℕ → BitVec 32) (l : List (Item × ℕ)) (h : ℕ) : Prop :=
  ∃ close o, (.handle close, o) ∈ l ∧ word o ≠ 0 ∧ h = (word' o).toNat

def creating (word : ℕ → BitVec 32) (p : Item × ℕ) : Bool :=
  match p.1 with
  | .handle _ => word p.2 ≠ 0
  | _ => false

/-- How many handles a message has the destination create. -/
def creates (word : ℕ → BitVec 32) (l : List (Item × ℕ)) : ℕ := l.countP (creating word)

theorem moved_cons {h : ℕ} : Moved word ((item, o) :: l) h ↔
    (item = .handle true ∧ word o ≠ 0 ∧ h = (word o).toNat) ∨ Moved word l h := by
  constructor
  · rintro ⟨o', mem, nonzero, rfl⟩
    rcases List.mem_cons.1 mem with same | mem
    · cases same
      exact .inl ⟨rfl, nonzero, rfl⟩
    · exact .inr ⟨o', mem, nonzero, rfl⟩
  · rintro (⟨rfl, nonzero, rfl⟩ | ⟨o', mem, rest⟩)
    · exact ⟨o, List.mem_cons_self .., nonzero, rfl⟩
    · exact ⟨o', List.mem_cons_of_mem _ mem, rest⟩

theorem given_cons {h : ℕ} : Given word word' ((item, o) :: l) h ↔
    ((∃ close, item = .handle close) ∧ word o ≠ 0 ∧ h = (word' o).toNat) ∨
      Given word word' l h := by
  constructor
  · rintro ⟨close, o', mem, nonzero, rfl⟩
    rcases List.mem_cons.1 mem with same | mem
    · cases same
      exact .inl ⟨⟨close, rfl⟩, nonzero, rfl⟩
    · exact .inr ⟨close, o', mem, nonzero, rfl⟩
  · rintro (⟨⟨close, rfl⟩, nonzero, rfl⟩ | ⟨close, o', mem, rest⟩)
    · exact ⟨close, o, List.mem_cons_self .., nonzero, rfl⟩
    · exact ⟨close, o', List.mem_cons_of_mem _ mem, rest⟩

/-- What a word of the destination says about a word of the source. -/
def Names (st : Setting Object) (word word' : ℕ → BitVec 32) (w w' : World Object)
    (p : Item × ℕ) : Prop :=
  match p.1 with
  | .processId => word' p.2 = BitVec.ofNat 32 (st.process .source)
  | .handle _ =>
    if word p.2 = 0 then word' p.2 = 0
    else ∃ object, lookup (w.tables (st.process .source)) (word p.2).toNat = some object ∧
      lookup (w'.tables (st.process .dest)) (word' p.2).toNat = some object
  | .staticBuffer _ => True

/-- What the handles of a message do to the two tables. -/
structure Handed (st : Setting Object) (word word' : ℕ → BitVec 32) (l : List (Item × ℕ))
    (w w' : World Object) : Prop where
  names : ∀ p ∈ l, Names st word word' w w' p
  moved : ∀ h, Moved word l h → lookup (w'.tables (st.process .source)) h = none
  kept : ∀ p h, ¬(p = st.process .source ∧ Moved word l h) →
    ¬(p = st.process .dest ∧ Given word word' l h) →
    lookup (w'.tables p) h = lookup (w.tables p) h
  given : ∀ h, Given word word' l h →
    ∃ k < creates word l, h = nextHandle (w.tables (st.process .dest)).curHandle k

/-- The handles that a message has the destination create are not in use, and it does not name them
itself. -/
structure Free (st : Setting Object) (word : ℕ → BitVec 32) (l : List (Item × ℕ))
    (w : World Object) : Prop where
  fresh : ∀ k < creates word l, lookup (w.tables (st.process .dest))
    (nextHandle (w.tables (st.process .dest)).curHandle k) = none
  others : st.process .dest = st.process .source → ∀ close o, (.handle close, o) ∈ l → word o ≠ 0 →
    ∀ k < creates word l, (word o).toNat ≠ nextHandle (w.tables (st.process .dest)).curHandle k

/-- No mutex is moved that the sending thread has locked. -/
def Unlocked (st : Setting Object) (word : ℕ → BitVec 32) (l : List (Item × ℕ))
    (w : World Object) : Prop :=
  ∀ o object, (.handle true, o) ∈ l → word o ≠ 0 →
    lookup (w.tables (st.process .source)) (word o).toNat = some object →
    st.kind object = .mutex → w.locks object = 0

/-- A word that is not a handle does nothing to the tables. -/
theorem Handed.skip (h : Handed st word word' l w₁ w') (none : creating word (item, o) = false)
    (names : Names st word word' w w' (item, o)) (tables : w₁.tables = w.tables) :
    Handed st word word' ((item, o) :: l) w w' := by
  have not_handle {close : Bool} : ¬(item = .handle close ∧ word o ≠ 0) := by
    rintro ⟨rfl, nonzero⟩
    exact nonzero (by simpa [creating] using none)
  have moved_iff (h : ℕ) : Moved word ((item, o) :: l) h ↔ Moved word l h := by
    rw [moved_cons, or_iff_right]
    exact fun at_o => not_handle ⟨at_o.1, at_o.2.1⟩
  have given_iff (h : ℕ) : Given word word' ((item, o) :: l) h ↔ Given word word' l h := by
    rw [given_cons, or_iff_right]
    rintro ⟨⟨close, rfl⟩, nonzero, -⟩
    exact not_handle ⟨rfl, nonzero⟩
  have count : creates word ((item, o) :: l) = creates word l := by
    rw [creates, List.countP_cons_of_neg (by simp [none])]
    rfl
  refine ⟨fun p mem => ?_, fun x moved => h.moved x ((moved_iff x).1 moved), fun p x => ?_,
    fun x given => ?_⟩
  · rcases List.mem_cons.1 mem with rfl | mem
    · exact names
    · have := h.names p mem
      unfold Names at this ⊢
      rwa [tables] at this
  · rw [moved_iff, given_iff, ← tables]
    exact h.kept p x
  · rw [count, ← tables]
    exact h.given x ((given_iff x).1 given)

theorem Free.tail (h : Free st word ((item, o) :: l) w) (none : creating word (item, o) = false)
    (tables : w₁.tables = w.tables) : Free st word l w₁ := by
  have count : creates word ((item, o) :: l) = creates word l := by
    rw [creates, List.countP_cons_of_neg (by simp [none])]
    rfl
  have fresh := h.fresh
  have others := h.others
  rw [count] at fresh others
  refine ⟨by rwa [tables], fun self close o' mem => ?_⟩
  rw [tables]
  exact others self close o' (List.mem_cons_of_mem _ mem)

end

/-! ## A message as a whole -/

section

variable {st : Setting Object} {word word' : ℕ → BitVec 32} {w w₁ w' : World Object}
  {l : List (Item × ℕ)} {o : ℕ}

/-- What a word that is a handle does. -/
structure Created (st : Setting Object) (word word' : ℕ → BitVec 32) (close : Bool) (o : ℕ)
    (object : Object) (w w₁ : World Object) : Prop where
  live : lookup (w.tables (st.process .source)) (word o).toNat = some object
  given : (word' o).toNat = nextHandle (w.tables (st.process .dest)).curHandle 0
  curHandle : (w₁.tables (st.process .dest)).curHandle =
    nextHandle (w.tables (st.process .dest)).curHandle 0
  entries : ∀ p x, lookup (w₁.tables p) x =
    if close ∧ p = st.process .source ∧ x = (word o).toNat then none
    else if p = st.process .dest ∧ x = nextHandle (w.tables (st.process .dest)).curHandle 0
    then some object else lookup (w.tables p) x

theorem creates_handle {close : Bool} (nonzero : word o ≠ 0) :
    creates word ((.handle close, o) :: l) = creates word l + 1 := by
  rw [creates, List.countP_cons_of_pos (by simpa [creating] using nonzero)]
  rfl

/-- What the words behind a handle rely on. -/
theorem Free.created {close : Bool} {object : Object} (nonzero : word o ≠ 0)
    (free : Free st word ((.handle close, o) :: l) w)
    (few : creates word ((.handle close, o) :: l) ≤ 2 ^ 32)
    (created : Created st word word' close o object w w₁) : Free st word l w₁ := by
  have count : creates word ((.handle close, o) :: l) = creates word l + 1 :=
    creates_handle nonzero
  refine ⟨fun k lt => ?_, fun self close' o' mem nonzero' k lt => ?_⟩
  · rw [created.curHandle, nextHandle_succ, created.entries]
    split
    · rfl
    · rw [if_neg fun same => nextHandle_ne _ (by omega) same.2]
      exact free.fresh (k + 1) (by omega)
  · rw [created.curHandle, nextHandle_succ]
    exact free.others self close' o' (List.mem_cons_of_mem _ mem) nonzero' (k + 1) (by omega)

/-- The words behind a handle name what they have named before. -/
theorem Created.live_before {close close' : Bool} {object object' : Object} {o' : ℕ}
    (created : Created st word word' close o object w w₁)
    (free : Free st word ((.handle close, o) :: l) w) (nonzero : word o ≠ 0)
    (mem : (.handle close', o') ∈ l) (nonzero' : word o' ≠ 0)
    (live : lookup (w₁.tables (st.process .source)) (word o').toNat = some object') :
    lookup (w.tables (st.process .source)) (word o').toNat = some object' := by
  rw [created.entries] at live
  split at live
  · cases live
  · split at live
    next same =>
      exact absurd same.2 (free.others same.1.symm close' o' (List.mem_cons_of_mem _ mem) nonzero' 0
        (by rw [creates_handle nonzero]; omega))
    next => exact live

/-- A handle in front of the words of a message. -/
theorem Handed.create {close : Bool} {object : Object} (h : Handed st word word' l w₁ w')
    (nonzero : word o ≠ 0) (free : Free st word ((.handle close, o) :: l) w)
    (few : creates word ((.handle close, o) :: l) ≤ 2 ^ 32)
    (created : Created st word word' close o object w w₁) :
    Handed st word word' ((.handle close, o) :: l) w w' := by
  have count : creates word ((.handle close, o) :: l) = creates word l + 1 :=
    creates_handle nonzero
  have later {x : ℕ} (given : Given word word' l x) : ∃ k < creates word l,
      x = nextHandle (w.tables (st.process .dest)).curHandle (k + 1) := by
    obtain ⟨k, lt, rfl⟩ := h.given x given
    exact ⟨k, lt, by rw [created.curHandle, nextHandle_succ]⟩
  -- no handle of the message is one that it gives out
  have other (self : st.process .dest = st.process .source) {close' : Bool} {o' : ℕ}
      (mem : (.handle close', o') ∈ (.handle close, o) :: l) (nonzero' : word o' ≠ 0) {k : ℕ}
      (lt : k < creates word l + 1) :
      (word o').toNat ≠ nextHandle (w.tables (st.process .dest)).curHandle k :=
    free.others self close' o' mem nonzero' k (by omega)
  have not_given : ¬Given word word' l (nextHandle (w.tables (st.process .dest)).curHandle 0) := by
    intro given
    obtain ⟨k, lt, same⟩ := later given
    exact nextHandle_ne _ (by omega) same.symm
  refine ⟨fun p mem => ?_, fun x moved => ?_, fun p x not_moved not_given => ?_,
    fun x given => ?_⟩
  · rcases List.mem_cons.1 mem with rfl | mem
    · rw [Names, if_neg nonzero]
      refine ⟨object, created.live, ?_⟩
      rw [created.given, h.kept, created.entries, if_neg, if_pos ⟨rfl, rfl⟩]
      · rintro ⟨-, self, same⟩
        exact other self (List.mem_cons_self ..) nonzero (k := 0) (by omega) same.symm
      · rintro ⟨self, o', mem, nonzero', same⟩
        exact other self (List.mem_cons_of_mem _ mem) nonzero' (k := 0) (by omega) same.symm
      · exact fun given => not_given given.2
    · have names := h.names p mem
      obtain ⟨item, o'⟩ := p
      cases item with
      | processId => exact names
      | staticBuffer d => trivial
      | handle close' =>
        simp only [Names] at names ⊢
        split_ifs at names ⊢ with zero'
        · exact names
        · obtain ⟨object', live, named⟩ := names
          exact ⟨object', created.live_before free nonzero mem zero' live, named⟩
  · rcases moved_cons.1 moved with ⟨is_move, -, rfl⟩ | moved
    · cases is_move
      by_cases again : Moved word l (word o).toNat
      · exact h.moved _ again
      · rw [h.kept _ _ (fun both => again both.2), created.entries, if_pos ⟨rfl, rfl, rfl⟩]
        rintro ⟨self, given⟩
        obtain ⟨k, lt, same⟩ := later given
        exact other self.symm (List.mem_cons_self ..) nonzero (k := k + 1) (by omega) same
    · exact h.moved x moved
  · rw [h.kept p x (fun both => not_moved ⟨both.1, moved_cons.2 (.inr both.2)⟩)
      fun both => not_given ⟨both.1, given_cons.2 (.inr both.2)⟩, created.entries, if_neg, if_neg]
    · rintro ⟨at_dest, same⟩
      exact not_given ⟨at_dest, given_cons.2 (.inl ⟨⟨close, rfl⟩, nonzero,
        same.trans created.given.symm⟩)⟩
    · rintro ⟨is_close, at_source, same⟩
      exact not_moved ⟨at_source, moved_cons.2 (.inl ⟨by rw [is_close], nonzero, same⟩)⟩
  · rcases given_cons.1 given with ⟨-, -, rfl⟩ | given
    · exact ⟨0, by omega, created.given⟩
    · obtain ⟨k, lt, same⟩ := later given
      exact ⟨k + 1, by omega, same⟩

end

section

variable [DecidableEq Object] {st : Setting Object} {word word' dest : ℕ → BitVec 32}
  {w w₁ w' : World Object} {l : List (Item × ℕ)} {o : ℕ}

theorem Step.created {close : Bool} (nonzero : word o ≠ 0)
    (step : Step st word word' dest (.handle close) o w w₁) :
    ∃ object, Created st word word' close o object w w₁ := by
  rw [Step, if_neg nonzero] at step
  obtain ⟨object, live, at_o, rfl⟩ := step
  have given : (word' o).toNat = nextHandle (w.tables (st.process .dest)).curHandle 0 := by
    rw [at_o, createHandle_eq, BitVec.toNat_ofNat, Nat.mod_eq_of_lt (nextHandle_lt _ _)]
  have curHandle : ((createHandle st object w).2.tables (st.process .dest)).curHandle =
      nextHandle (w.tables (st.process .dest)).curHandle 0 := by
    rw [createHandle]
    dsimp only
    rw [Function.update_self]
    rfl
  refine ⟨object, ?_⟩
  cases close with
  | false =>
    refine ⟨live, given, curHandle, fun p x => ?_⟩
    rw [if_neg (by simp), ← lookup_created]
    rfl
  | true =>
    refine ⟨live, given, ?_, fun p x => ?_⟩
    · rw [if_pos rfl, closeHandle_tables]
      by_cases self : st.process .dest = st.process .source
      · rw [self, Function.update_self, ← self]
        exact curHandle
      · rw [Function.update_of_ne self]
        exact curHandle
    · rw [if_pos rfl, lookup_closed, lookup_created]
      simp

/-- The handles of a message. -/
theorem Steps.handed (h : Steps st word word' dest l w w') (free : Free st word l w)
    (few : creates word l ≤ 2 ^ 32) : Handed st word word' l w w' := by
  induction h with
  | nil =>
    refine ⟨fun p mem => absurd mem List.not_mem_nil, ?_, fun _ _ _ _ => rfl, ?_⟩
    · rintro h ⟨o, mem, -⟩
      exact absurd mem List.not_mem_nil
    · rintro h ⟨close, o, mem, -⟩
      exact absurd mem List.not_mem_nil
  | @cons item o l w w₁ w' step rest ih =>
    have few' : creates word l ≤ 2 ^ 32 := (List.sublist_cons_self _ _).countP_le.trans few
    cases item with
    | processId =>
      obtain ⟨rfl, at_o⟩ := step
      exact (ih (free.tail rfl rfl) few').skip rfl at_o rfl
    | staticBuffer d =>
      obtain ⟨-, -, -, rfl⟩ := step
      exact (ih (free.tail rfl rfl) few').skip rfl trivial rfl
    | handle close =>
      by_cases zero : word o = 0
      · have none : creating word (Item.handle close, o) = false := by simp [creating, zero]
        rw [Step, if_pos zero] at step
        obtain ⟨rfl, at_o⟩ := step
        refine (ih (free.tail none rfl) few').skip none ?_ rfl
        rw [Names, if_pos zero]
        exact at_o
      · obtain ⟨object, created⟩ := step.created zero
        exact (ih (free.created zero few created) few').create zero free few created

/-- The first of the handles that are given out goes to the first word, and so on. -/
theorem Steps.gives (h : Steps st word word' dest l w w') {k : ℕ} (lt : k < creates word l) :
    Given word word' l (nextHandle (w.tables (st.process .dest)).curHandle k) := by
  induction h generalizing k with
  | nil => exact absurd lt (Nat.not_lt_zero k)
  | @cons item o l w w₁ w' step rest ih =>
    have skip (none : creating word (item, o) = false) (tables : w₁.tables = w.tables) :
        Given word word' ((item, o) :: l)
          (nextHandle (w.tables (st.process .dest)).curHandle k) := by
      rw [creates, List.countP_cons_of_neg (by simp [none])] at lt
      rw [← tables]
      exact given_cons.2 (.inr (ih lt))
    cases item with
    | processId =>
      obtain ⟨rfl, at_o⟩ := step
      exact skip rfl rfl
    | staticBuffer d =>
      obtain ⟨-, -, -, rfl⟩ := step
      exact skip rfl rfl
    | handle close =>
      by_cases zero : word o = 0
      · rw [Step, if_pos zero] at step
        exact skip (by simp [creating, zero]) (congrArg _ step.1)
      · obtain ⟨object, created⟩ := step.created zero
        cases k with
        | zero => exact given_cons.2 (.inl ⟨⟨close, rfl⟩, zero, created.given.symm⟩)
        | succ k =>
          have given := ih (k := k) (by rw [creates_handle zero] at lt; omega)
          rw [created.curHandle, nextHandle_succ] at given
          exact given_cons.2 (.inr given)

/-! ## Mutexes -/

/-- A handle word, as far as objects are finalised. -/
theorem Step.finalised_iff {close : Bool} {object : Object} (nonzero : word o ≠ 0)
    (step : Step st word word' dest (.handle close) o w w₁)
    (live : lookup (w.tables (st.process .source)) (word o).toNat = some object) :
    w.finalised.length ≤ w₁.finalised.length ∧
    (w₁.finalised.length = w.finalised.length ↔
      (close = true → st.kind object = .mutex → w.locks object = 0)) ∧
    (w₁.finalised.length = w.finalised.length →
      w₁.finalised = w.finalised ∧ w₁.locks = w.locks) := by
  rw [Step, if_neg nonzero] at step
  obtain ⟨object', live', -, rfl⟩ := step
  obtain rfl : object' = object := Option.some.inj (live'.symm.trans live)
  have live₁ : lookup ((createHandle st object' w).2.tables (st.process .source))
      (word o).toNat = some object' := by
    rw [lookup_created, live]
    split <;> rfl
  cases close with
  | false => exact ⟨le_rfl, iff_of_true rfl (by simp), fun _ => ⟨rfl, rfl⟩⟩
  | true =>
    rw [if_pos rfl]
    refine ⟨closeHandle_finalised_le _ (createHandle st object' w).2, ?_⟩
    by_cases locked : st.kind object' = .mutex ∧ w.locks object' ≠ 0
    · have released := closeHandle_locked live₁ locked.1 locked.2
      have longer : (closeHandle st (word o).toNat (createHandle st object' w).2).finalised.length ≠
          w.finalised.length := by
        rw [released, List.length_append]
        exact Nat.succ_ne_self _
      exact ⟨iff_of_false longer fun h => locked.2 (h rfl locked.1), fun h => absurd h longer⟩
    · have unlocked (mutex : st.kind object' = .mutex) : w.locks object' = 0 := by
        by_contra held
        exact locked ⟨mutex, held⟩
      have quiet := closeHandle_quiet live₁ unlocked
      exact ⟨iff_of_true (congrArg _ quiet.1) fun _ => unlocked, fun _ => quiet⟩

theorem Steps.finalised_le (h : Steps st word word' dest l w w') :
    w.finalised.length ≤ w'.finalised.length := by
  induction h with
  | nil => exact le_rfl
  | @cons item o l w w₁ w' step rest ih =>
    refine le_trans ?_ ih
    cases item with
    | processId => rw [step.1]
    | staticBuffer d => rw [step.2.2.2]
    | handle close =>
      by_cases zero : word o = 0
      · rw [Step, if_pos zero] at step
        rw [step.1]
      · obtain ⟨object, created⟩ := step.created zero
        exact (step.finalised_iff zero created.live).1

/-- A message finalises an object exactly if it moves a mutex that its sender has locked. -/
theorem Steps.finalised_iff (h : Steps st word word' dest l w w') (free : Free st word l w)
    (few : creates word l ≤ 2 ^ 32) :
    (w'.finalised = w.finalised ∧ w'.locks = w.locks) ↔ Unlocked st word l w := by
  induction h with
  | nil => exact iff_of_true ⟨rfl, rfl⟩ fun o object mem => absurd mem List.not_mem_nil
  | @cons item o l w w₁ w' step rest ih =>
    have few' : creates word l ≤ 2 ^ 32 := (List.sublist_cons_self _ _).countP_le.trans few
    have skip (none : creating word (item, o) = false) (tables : w₁.tables = w.tables)
        (finalised : w₁.finalised = w.finalised) (locks : w₁.locks = w.locks) :
        (w'.finalised = w.finalised ∧ w'.locks = w.locks) ↔
          Unlocked st word ((item, o) :: l) w := by
      rw [← finalised, ← locks, ih (free.tail none tables) few']
      unfold Unlocked
      rw [tables, locks]
      refine ⟨fun unlocked o' object mem nonzero => ?_, fun unlocked o' object mem =>
        unlocked o' object (List.mem_cons_of_mem _ mem)⟩
      rcases List.mem_cons.1 mem with same | mem
      · cases same
        exact absurd (by simpa [creating] using none) nonzero
      · exact unlocked o' object mem nonzero
    cases item with
    | processId =>
      obtain ⟨rfl, at_o⟩ := step
      exact skip rfl rfl rfl rfl
    | staticBuffer d =>
      obtain ⟨-, -, -, rfl⟩ := step
      exact skip rfl rfl rfl rfl
    | handle close =>
      by_cases zero : word o = 0
      · rw [Step, if_pos zero] at step
        obtain ⟨rfl, -⟩ := step
        exact skip (by simp [creating, zero]) rfl rfl rfl
      · obtain ⟨object, created⟩ := step.created zero
        obtain ⟨le, head_iff, same⟩ := step.finalised_iff zero created.live
        have free₁ := free.created zero few created
        have tail := ih free₁ few'
        have le' := rest.finalised_le
        have handed := rest.handed free₁ few'
        -- the words behind the handle name the same objects before it and after it
        have tail_live {o' : ℕ} {object' : Object} (mem : (.handle true, o') ∈ l)
            (nonzero : word o' ≠ 0)
            (live : lookup (w.tables (st.process .source)) (word o').toNat = some object') :
            lookup (w₁.tables (st.process .source)) (word o').toNat = some object' := by
          have names := handed.names _ mem
          rw [Names, if_neg nonzero] at names
          obtain ⟨object'', live₁, -⟩ := names
          have before := created.live_before free zero mem nonzero live₁
          rw [live] at before
          rwa [Option.some.inj before]
        constructor
        · rintro ⟨finalised, locks⟩
          have length : w₁.finalised.length = w.finalised.length :=
            le_antisymm (finalised ▸ le') le
          obtain ⟨finalised₁, locks₁⟩ := same length
          have unlocked := tail.1 ⟨finalised.trans finalised₁.symm, locks.trans locks₁.symm⟩
          intro o' object' mem nonzero live mutex
          rcases List.mem_cons.1 mem with at_head | mem
          · cases at_head
            obtain rfl : object = object' := Option.some.inj (created.live.symm.trans live)
            exact head_iff.1 length rfl mutex
          · rw [← locks₁]
            exact unlocked o' object' mem nonzero (tail_live mem nonzero live) mutex
        · intro unlocked
          have head (is_close : close = true) (mutex : st.kind object = .mutex) :
              w.locks object = 0 := by
            subst is_close
            exact unlocked o object (List.mem_cons_self ..) zero created.live mutex
          obtain ⟨finalised₁, locks₁⟩ := same (head_iff.2 head)
          rw [← finalised₁, ← locks₁]
          refine tail.2 fun o' object' mem nonzero live mutex => ?_
          rw [locks₁]
          exact unlocked o' object' (List.mem_cons_of_mem _ mem) nonzero
            (created.live_before free zero mem nonzero live) mutex

end

end Mikage.IPC.Transfer
