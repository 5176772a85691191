import Mathlib

/-!
# Lexical paths

Paths as strings of bytes with `/` between the file names, the way a file system library reads them
without looking at the disk.

- `names`, `elements`: the file names of a path, and all its elements.
- `lexicallyNormal`: the path without `.`, and without each `..` that takes back a file name.
- `walk_relative`: walking a path from somewhere below the root is climbing as far as the path,
  taken as a relative one, climbs, and then entering the file names it ends with.
- `joined_prefix_iff`: when one path is a prefix of another as a string.
-/

namespace Path

/-- A path, or a file name in one. -/
abbrev Bytes := List UInt8

def slash : UInt8 := 0x2f
def dot : Bytes := [0x2e]
def dotDot : Bytes := [0x2e, 0x2e]

/-! ## Paths and their elements -/

/-- The file names of a path, `.` and `..` among them. -/
def names (s : Bytes) : List Bytes := (s.splitOn slash).filter (· ≠ [])

def rooted (s : Bytes) : Bool := s.head? = some slash

/-- The elements one finds from `begin()` to `end()`: a separator behind the last file name counts
as an empty one. -/
def elements (s : Bytes) : List Bytes :=
  (if rooted s then [[slash]] else []) ++ names s ++
    (if names s ≠ [] ∧ s.getLast? = some slash then [[]] else [])

/-- The file names on a stack, the last one first, after one more. -/
def enter (rooted : Bool) (stack : List Bytes) (name : Bytes) : List Bytes :=
  if name = dot then stack
  else if name = dotDot then
    match stack with
    | [] => if rooted then [] else [dotDot]
    | top :: rest => if top = dotDot then dotDot :: top :: rest else rest
  else name :: stack

def walk (rooted : Bool) (stack : List Bytes) (ns : List Bytes) : List Bytes :=
  ns.foldl (enter rooted) stack

/-- The file names with a separator before each. -/
def joined (ns : List Bytes) : Bytes := ns.flatMap fun n => slash :: n

/-- The path names a directory, so its normal form ends in a separator. -/
def directory (s : Bytes) : Bool :=
  s.getLast? = some slash || (names s).getLast? = some dot || (names s).getLast? = some dotDot

/-- `lexically_normal`. -/
def lexicallyNormal (s : Bytes) : Bytes :=
  if s = [] then [] else
    match walk (rooted s) [] (names s) with
    | [] => if rooted s then [slash] else dot
    | top :: rest =>
      (if rooted s then joined (top :: rest).reverse else (joined (top :: rest).reverse).tail) ++
        (if directory s ∧ top ≠ dotDot then [slash] else [])

/-! ## File names -/

/-- What stands between separators. -/
def IsName (n : Bytes) : Prop := n ≠ [] ∧ slash ∉ n

instance (n : Bytes) : Decidable (IsName n) := inferInstanceAs (Decidable (n ≠ [] ∧ slash ∉ n))

/-- Nothing, or something behind a separator. -/
def Delimited (s : Bytes) : Prop := ∀ c ∈ s.head?, c = slash

variable {n m a b s t : Bytes} {ns r f : List Bytes}

theorem not_mem_splitOn (s : Bytes) : ∀ n ∈ s.splitOn slash, slash ∉ n := by
  induction s with
  | nil => simp [List.splitOn_nil]
  | cons c s ih =>
    rw [List.splitOn_cons_eq_if_modifyHead]
    split
    next => simpa using ih
    next hc =>
      obtain ⟨n, ns, hsplit⟩ := List.exists_cons_of_ne_nil (List.splitOn_ne_nil slash s)
      rw [hsplit] at ih ⊢
      have hc : slash ≠ c := fun h => hc (by simp [h])
      simpa [hc] using ih

theorem isName_of_mem_names (h : n ∈ names s) : IsName n := by
  simp only [names, List.mem_filter, decide_eq_true_eq] at h
  exact ⟨h.2, not_mem_splitOn s n h.1⟩

@[simp] theorem names_nil : names [] = [] := rfl

@[simp] theorem names_slash (s : Bytes) : names (slash :: s) = names s := by
  rw [names, List.splitOn_cons_eq_if_modifyHead]
  simp [names]

theorem names_name_append (hn : IsName n) (ht : Delimited t) : names (n ++ t) = n :: names t := by
  cases t with
  | nil =>
    rw [List.append_nil, names, List.splitOn_eq_singleton hn.2]
    simp [hn.1]
  | cons c t =>
    obtain rfl : c = slash := ht c rfl
    rw [names, List.splitOn_append_cons_self_of_not_mem hn.2, names_slash]
    simp [names, hn.1]

theorem delimited_joined_append (ht : Delimited t) : Delimited (joined ns ++ t) := by
  cases ns with
  | nil => exact ht
  | cons n ns =>
    intro c hc
    simpa [joined] using hc.symm

theorem names_joined_append (hns : ∀ n ∈ ns, IsName n) (ht : Delimited t) :
    names (joined ns ++ t) = ns ++ names t := by
  induction ns with
  | nil => rfl
  | cons n ns ih =>
    have hsplit : joined (n :: ns) ++ t = slash :: (n ++ (joined ns ++ t)) := by simp [joined]
    rw [hsplit, names_slash, names_name_append (hns n (by simp)) (delimited_joined_append ht),
      ih fun m hm => hns m (by simp [hm]), List.cons_append]

/-! ## Walking -/

theorem walk_append (k : Bool) (stack ns ms : List Bytes) :
    walk k stack (ns ++ ms) = walk k (walk k stack ns) ms := List.foldl_append

theorem isName_enter {k : Bool} {stack : List Bytes} (hstack : ∀ m ∈ stack, IsName m)
    (hn : IsName n) : ∀ m ∈ enter k stack n, IsName m := by
  unfold enter
  split
  · exact hstack
  · split
    next heq =>
      rw [heq] at hn
      split
      · split
        · exact hstack
        · simpa using hn
      · split
        · simpa [hn] using hstack
        · exact fun m hm => hstack m (by simp [hm])
    next => simpa [hn] using hstack

theorem isName_walk {k : Bool} {stack : List Bytes} (hstack : ∀ m ∈ stack, IsName m)
    (hns : ∀ m ∈ ns, IsName m) : ∀ m ∈ walk k stack ns, IsName m := by
  induction ns generalizing stack with
  | nil => exact hstack
  | cons n ns ih =>
    exact ih (isName_enter hstack (hns n (by simp))) fun m hm => hns m (by simp [hm])

/-- How many levels a path climbs, taken as a relative one. -/
def climbs (ns : List Bytes) : Nat := (walk false [] ns).count dotDot

/-- The file names a path enters after its climb, taken as a relative one. -/
def enters (ns : List Bytes) : List Bytes := ((walk false [] ns).filter (· ≠ dotDot)).reverse

/-- After `k` levels up and down into `down`, on a stack of file names. -/
def At (k : Nat) (down ns stack : List Bytes) : Prop :=
  walk false [] ns = down ++ List.replicate k dotDot ∧ dotDot ∉ down ∧
    walk true stack ns = down ++ stack.drop k

theorem At.name {k : Nat} {down stack : List Bytes} (h : At k down ns stack) (hdot : n ≠ dot)
    (hup : n ≠ dotDot) : At k (n :: down) (ns ++ [n]) stack := by
  obtain ⟨hrel, hdown, habs⟩ := h
  refine ⟨?_, by simp [hdown, Ne.symm hup], ?_⟩
  · rw [walk_append, hrel]
    simp [walk, enter, hdot, hup]
  · rw [walk_append, habs]
    simp [walk, enter, hdot, hup]

theorem At.dot {k : Nat} {down stack : List Bytes} (h : At k down ns stack) :
    At k down (ns ++ [Path.dot]) stack := by
  obtain ⟨hrel, hdown, habs⟩ := h
  refine ⟨?_, hdown, ?_⟩
  · rw [walk_append, hrel]
    simp [walk, enter]
  · rw [walk_append, habs]
    simp [walk, enter]

theorem enter_true_dotDot {stack : List Bytes} (h : dotDot ∉ stack) :
    enter true stack dotDot = stack.tail := by
  cases stack with
  | nil => rfl
  | cons top rest =>
    have htop : top ≠ dotDot := fun heq => h (by simp [heq])
    have hdot : dotDot ≠ Path.dot := by decide
    simp [enter, htop, hdot]

theorem At.dotDot {k : Nat} {down stack : List Bytes} (hstack : Path.dotDot ∉ stack)
    (h : At k down ns stack) : ∃ k' down', At k' down' (ns ++ [Path.dotDot]) stack := by
  obtain ⟨hrel, hdown, habs⟩ := h
  have hdot : Path.dotDot ≠ Path.dot := by decide
  have hclean : Path.dotDot ∉ down ++ stack.drop k := by
    simpa [hdown] using fun hmem => hstack (List.mem_of_mem_drop hmem)
  have habs' : walk true stack (ns ++ [Path.dotDot]) = (down ++ stack.drop k).tail := by
    rw [walk_append, habs]
    exact enter_true_dotDot hclean
  cases down with
  | nil =>
    refine ⟨k + 1, [], ?_, by simp, ?_⟩
    · rw [walk_append, hrel]
      cases k with
      | zero => simp [walk, enter, hdot]
      | succ k => simp [walk, enter, hdot, List.replicate_succ]
    · rw [habs']
      simp
  | cons top down =>
    have htop : top ≠ Path.dotDot := fun heq => hdown (by simp [heq])
    refine ⟨k, down, ?_, fun hmem => hdown (by simp [hmem]), ?_⟩
    · rw [walk_append, hrel]
      simp [walk, enter, hdot, htop]
    · rw [habs']
      rfl

theorem exists_at {stack : List Bytes} (hstack : dotDot ∉ stack) (ns : List Bytes) :
    ∃ k down, At k down ns stack := by
  induction ns using List.reverseRecOn with
  | nil => exact ⟨0, [], rfl, by simp, rfl⟩
  | append_singleton ns n ih =>
    obtain ⟨k, down, h⟩ := ih
    by_cases hdot : n = dot
    · rw [hdot]
      exact ⟨k, down, h.dot⟩
    · by_cases hup : n = dotDot
      · rw [hup]
        exact h.dotDot hstack
      · exact ⟨k, n :: down, h.name hdot hup⟩

/-- Walking a path from a stack of file names climbs and enters what it does as a relative path. -/
theorem walk_relative {stack : List Bytes} (hstack : dotDot ∉ stack) (ns : List Bytes) :
    walk true stack ns = (enters ns).reverse ++ stack.drop (climbs ns) := by
  obtain ⟨k, down, hrel, hdown, habs⟩ := exists_at hstack ns
  have hcount : climbs ns = k := by
    rw [climbs, hrel, List.count_append, List.count_eq_zero_of_not_mem hdown,
      List.count_replicate_self, Nat.zero_add]
  have hfilter : (enters ns).reverse = down := by
    rw [enters, List.reverse_reverse, hrel, List.filter_append]
    have hkeep : down.filter (· ≠ dotDot) = down := by
      rw [List.filter_eq_self]
      intro m hm
      have hne : m ≠ dotDot := fun heq => hdown (by rwa [← heq])
      simpa using hne
    rw [hkeep]
    simp
  rw [habs, hcount, hfilter]

/-! ## Prefixes of the string -/

theorem prefix_name (hn : slash ∉ n) (hm : slash ∉ m) (ha : Delimited a) (hb : Delimited b)
    (h : n ++ a <+: m ++ b) : a = [] ∧ n <+: m ∨ n = m ∧ a <+: b := by
  induction n generalizing m with
  | nil =>
    cases m with
    | nil => exact .inr ⟨rfl, h⟩
    | cons d m =>
      cases a with
      | nil => exact .inl ⟨rfl, List.nil_prefix⟩
      | cons c a =>
        obtain rfl : c = slash := ha c rfl
        obtain rfl : slash = d := (List.cons_prefix_cons.1 h).1
        exact absurd List.mem_cons_self hm
  | cons c n ih =>
    cases m with
    | nil =>
      cases b with
      | nil => simp at h
      | cons d b =>
        obtain rfl : d = slash := hb d rfl
        obtain rfl : c = slash := (List.cons_prefix_cons.1 h).1
        exact absurd List.mem_cons_self hn
    | cons d m =>
      obtain ⟨rfl, htail⟩ := List.cons_prefix_cons.1 h
      cases ih (List.not_mem_of_not_mem_cons hn) (List.not_mem_of_not_mem_cons hm) htail with
      | inl h => exact .inl ⟨h.1, List.cons_prefix_cons.2 ⟨rfl, h.2⟩⟩
      | inr h => exact .inr ⟨congrArg _ h.1, h.2⟩

/-- One path is a prefix of another as a string if it is one by file names, or if its last file name
is a prefix of the one that stands in its place. -/
theorem joined_prefix_iff (hr : ∀ n ∈ r, IsName n) (hf : ∀ n ∈ f, IsName n)
    (ht : t = [] ∨ t = [slash]) :
    joined r <+: joined f ++ t ↔
      r <+: f ∨ ∃ pre x y post, r = pre ++ [x] ∧ f = pre ++ y :: post ∧ x <+: y := by
  have hdel : Delimited t := by
    cases ht with
    | inl ht => simp [ht, Delimited]
    | inr ht => simp [ht, Delimited]
  induction r generalizing f with
  | nil => simp [joined]
  | cons n r ih =>
    have hn := hr n (by simp)
    cases f with
    | nil =>
      have hlen : ¬ joined (n :: r) <+: joined [] ++ t := by
        intro h
        have hlen := h.length_le
        have hpos : 0 < n.length := List.length_pos_iff.2 hn.1
        cases ht with
        | inl ht => simp [joined, ht] at hlen
        | inr ht =>
          simp only [joined, ht, List.flatMap_cons, List.flatMap_nil, List.nil_append,
            List.length_append, List.length_cons, List.length_nil] at hlen
          omega
      simp [hlen]
    | cons m f =>
      have hm := hf m (by simp)
      have hsplit : joined (n :: r) <+: joined (m :: f) ++ t ↔
          n ++ joined r <+: m ++ (joined f ++ t) := by simp [joined]
      have hr' : ∀ k ∈ r, IsName k := fun k hk => hr k (List.mem_cons_of_mem _ hk)
      have hf' : ∀ k ∈ f, IsName k := fun k hk => hf k (List.mem_cons_of_mem _ hk)
      have ih := ih hr' hf'
      rw [hsplit]
      constructor
      · intro h
        have hdel' : Delimited (joined r ++ []) := delimited_joined_append (by simp [Delimited])
        rw [List.append_nil] at hdel'
        cases prefix_name hn.2 hm.2 hdel' (delimited_joined_append hdel) h with
        | inl h =>
          have hr : r = [] := by
            cases r with
            | nil => rfl
            | cons k r => simp [joined] at h
          exact .inr ⟨[], n, m, f, by simp [hr], rfl, h.2⟩
        | inr h =>
          obtain ⟨rfl, hrest⟩ := h
          cases ih.1 hrest with
          | inl h => exact .inl (List.cons_prefix_cons.2 ⟨rfl, h⟩)
          | inr h =>
            obtain ⟨pre, x, y, post, hr, hf, hxy⟩ := h
            exact .inr ⟨n :: pre, x, y, post, by simp [hr], by simp [hf], hxy⟩
      · intro h
        cases h with
        | inl h =>
          obtain ⟨rfl, hrest⟩ := List.cons_prefix_cons.1 h
          exact (List.prefix_append_right_inj n).2 (ih.2 (.inl hrest))
        | inr h =>
          obtain ⟨pre, x, y, post, hr, hf, hxy⟩ := h
          cases pre with
          | nil =>
            obtain ⟨rfl, rfl⟩ := List.cons.inj hr
            obtain ⟨rfl, rfl⟩ := List.cons.inj hf
            simpa [joined] using hxy.trans (List.prefix_append _ _)
          | cons k pre =>
            obtain ⟨rfl, rfl⟩ := List.cons.inj hr
            obtain ⟨rfl, rfl⟩ := List.cons.inj hf
            exact (List.prefix_append_right_inj _).2 (ih.2 (.inr ⟨pre, x, y, post, rfl, rfl, hxy⟩))

/-! ## Normal forms -/

theorem walk_clean {stack : List Bytes} (h : ∀ n ∈ ns, n ≠ dot ∧ n ≠ dotDot) :
    walk true stack ns = ns.reverse ++ stack := by
  induction ns generalizing stack with
  | nil => rfl
  | cons n ns ih =>
    obtain ⟨hdot, hup⟩ := h n (by simp)
    have hstep : walk true stack (n :: ns) = walk true (n :: stack) ns := by
      simp [walk, enter, hdot, hup]
    rw [hstep, ih fun m hm => h m (by simp [hm])]
    simp

theorem isName_walk_names (k : Bool) (s : Bytes) : ∀ n ∈ walk k [] (names s), IsName n :=
  isName_walk (by simp) fun _ => isName_of_mem_names

/-- The normal form of a rooted path, as a string. -/
theorem lexicallyNormal_rooted (h : rooted s = true) :
    ∃ t, (t = [] ∨ t = [slash]) ∧
      lexicallyNormal s = joined (walk true [] (names s)).reverse ++ t ∧ lexicallyNormal s ≠ [] := by
  have hne : s ≠ [] := by
    intro heq
    rw [heq] at h
    cases h
  rw [lexicallyNormal, if_neg hne, h]
  cases walk true [] (names s) with
  | nil => exact ⟨[slash], .inr rfl, by simp [joined], by simp⟩
  | cons top rest =>
    refine ⟨if directory s ∧ top ≠ dotDot then [slash] else [], ?_, by simp, by simp [joined]⟩
    split
    · exact .inr rfl
    · exact .inl rfl

/-- The elements of a rooted path, from its string. -/
theorem elements_joined (hf : ∀ n ∈ f, IsName n) (ht : t = [] ∨ t = [slash])
    (hne : joined f ++ t ≠ []) :
    ∃ u, (u = [] ∨ u = [[]]) ∧ elements (joined f ++ t) = [slash] :: (f ++ u) := by
  have hdel : Delimited t := by
    cases ht with
    | inl ht => simp [ht, Delimited]
    | inr ht => simp [ht, Delimited]
  have hnames : names t = [] := by
    cases ht with
    | inl ht => rw [ht]; rfl
    | inr ht => rw [ht]; rfl
  have hroot : rooted (joined f ++ t) = true := by
    cases f with
    | nil =>
      cases ht with
      | inl ht => simp [joined, ht] at hne
      | inr ht => simp [joined, ht, rooted]
    | cons n f => simp [joined, rooted]
  rw [elements, names_joined_append hf hdel, hnames, hroot, List.append_nil]
  refine ⟨if f ≠ [] ∧ (joined f ++ t).getLast? = some slash then [[]] else [], ?_, by simp⟩
  split
  · exact .inr rfl
  · exact .inl rfl

/-- A path without a separator at its end. -/
theorem elements_joined_exact (hf : ∀ n ∈ f, IsName n) (hne : f ≠ []) :
    elements (joined f) = [slash] :: f := by
  have hlast : (joined f).getLast? ≠ some slash := by
    obtain ⟨init, n, rfl⟩ := (List.eq_nil_or_concat f).resolve_left hne
    have hn := hf n (by simp)
    have hjoined : joined (init.concat n) = joined init ++ [slash] ++ n := by simp [joined]
    rw [hjoined, List.getLast?_append_of_ne_nil _ hn.1]
    exact fun h => hn.2 (List.mem_of_getLast? h)
  have hroot : rooted (joined f) = true := by
    cases f with
    | nil => exact absurd rfl hne
    | cons n f => simp [joined, rooted]
  have hnames : names (joined f) = f := by
    simpa using names_joined_append (t := []) hf (by simp [Delimited])
  simp [elements, hroot, hnames, hlast]

theorem rooted_of_mem_elements (h : [slash] ∈ elements s) : rooted s = true := by
  by_contra hroot
  have hroot : rooted s = false := by simpa using hroot
  rw [elements, hroot] at h
  simp only [Bool.false_eq_true, ↓reduceIte, List.nil_append, List.mem_append] at h
  cases h with
  | inl h => exact (isName_of_mem_names h).2 (by simp)
  | inr h =>
    split at h
    · simp at h
    · simp at h

theorem rooted_lexicallyNormal (h : rooted (lexicallyNormal s) = true) : rooted s = true := by
  by_contra hroot
  have hroot : rooted s = false := by simpa using hroot
  rw [lexicallyNormal] at h
  split at h
  next => cases h
  next =>
    have hnames := isName_walk_names (rooted s) s
    split at h
    next => cases h
    next top rest hwalk =>
      obtain ⟨n, ns, hrev⟩ : ∃ n ns, (top :: rest).reverse = n :: ns :=
        List.exists_cons_of_ne_nil (by simp)
      have hn : IsName n := by
        refine hnames n ?_
        rw [hwalk, ← List.mem_reverse, hrev]
        exact List.mem_cons_self
      rw [hrev] at h
      cases n with
      | nil => exact hn.1 rfl
      | cons c n =>
        have hc : c = slash := by simpa [joined, rooted] using h
        exact hn.2 (by simp [hc])

end Path
