import Mathlib
import Mikage.Lib.Path

/-!
# The sandbox of an archive

The file system of the guest is a directory of the host. `PathValidator` checks a path of the guest
and appends it to that directory.

- `CommonPath`: a path as the guest hands it over.
- `validateAndGetSandboxedTreePath`: the path of the host.
- `Escapes`: a path that climbs out of the sandbox and comes back down beside it.
- `sandboxed_iff`: every path that does not escape stays within the sandbox, and only those do.
-/

namespace Mikage.FS

open Path

inductive PathError where
  | ipcError (header result : BitVec 32)
  | runtimeError (what : String)
  | rangeError
  /-- "Requested path leaked out of sandbox: Got path {}, expected a child of {}" -/
  | leakedOutOfSandbox (path root : Bytes)
  deriving DecidableEq, Repr

/-! ## Paths of the guest -/

/-- A path of the guest: UTF-8 without a null character, or binary. -/
inductive CommonPath where
  | utf8 (path : Bytes)
  | binary (data : Bytes)
  deriving DecidableEq, Repr

namespace CommonPath

def maxLength : Nat := 256

def codeUnits : Bytes → List Nat
  | low :: high :: data => (low.toNat ||| high.toNat <<< 8) :: codeUnits data
  | _ => []

def encode (c : Nat) : Bytes :=
  if c < 0x80 then [c.toUInt8]
  else if c < 0x800 then [(0xc0 ||| c >>> 6).toUInt8, (0x80 ||| c &&& 0x3f).toUInt8]
  else if c < 0x10000 then
    [(0xe0 ||| c >>> 12).toUInt8, (0x80 ||| c >>> 6 &&& 0x3f).toUInt8, (0x80 ||| c &&& 0x3f).toUInt8]
  else
    [(0xf0 ||| c >>> 18).toUInt8, (0x80 ||| c >>> 12 &&& 0x3f).toUInt8,
      (0x80 ||| c >>> 6 &&& 0x3f).toUInt8, (0x80 ||| c &&& 0x3f).toUInt8]

/-- `wstring_convert::to_bytes`. A surrogate must be half of a pair. -/
def toBytes : List Nat → Except PathError Bytes
  | [] => .ok []
  | u :: units =>
    if 0xd800 ≤ u ∧ u < 0xe000 then
      match units with
      | v :: units =>
        if u < 0xdc00 ∧ 0xdc00 ≤ v ∧ v < 0xe000 then do
          let rest ← toBytes units
          pure (encode (0x10000 + (u - 0xd800) * 0x400 + (v - 0xdc00)) ++ rest)
        else .error .rangeError
      | [] => .error .rangeError
    else do
      let rest ← toBytes units
      pure (encode u ++ rest)

/-- `FromUtf16`, behind which the trailing null characters are gone. -/
def fromUtf16 (units : List Nat) : Except PathError CommonPath := do
  let path ← toBytes (units.reverse.dropWhile (· = 0)).reverse
  pure (.utf8 path)

/-- The path of a type with these bytes in the memory of the guest. -/
def create (type : BitVec 32) (data : Bytes) : Except PathError CommonPath :=
  match type.toNat with
  | 1 => .ok (.utf8 [])
  | 2 =>
    if data.length > maxLength then .error (.runtimeError "Path length exceeded maximum")
    else .ok (.binary data)
  | 3 => .ok (.utf8 (data.takeWhile (· ≠ 0)))
  | 4 =>
    if data.length % 2 ≠ 0 then
      .error (.runtimeError "Expected path size for UTF16 to be a multiple of 2")
    else fromUtf16 ((codeUnits data).takeWhile (· ≠ 0))
  | _ => .error (.runtimeError "Unknown path type")

end CommonPath

/-! ## Paths of the host -/

/-- The directory of the sandbox, as `canonical` returns it. -/
structure SandboxRoot where
  names : List Bytes
  canonical : ∀ n ∈ names, IsName n ∧ n ≠ dot ∧ n ≠ dotDot

def SandboxRoot.string (root : SandboxRoot) : Bytes :=
  if root.names = [] then [slash] else joined root.names

/-- Errors of the API are results for the guest, not exceptions. -/
def testMode : Bool := true

def maxFilenameLength : Nat := 0x100

/-- The checks of `ValidateAndGetSandboxedTreePath` on the path alone. -/
def checkPath (utf8Path : Bytes) : Except PathError Unit :=
  let path := elements (lexicallyNormal utf8Path)
  if path.length = 0 ∨ path.head? ≠ some [slash] then
    .error (if testMode then .ipcError 0 0xe0e046be
      else .runtimeError "Path does not start with '/'")
  else if path.length > 1 ∧ path[1]? = some dotDot then
    .error (if testMode then .ipcError 0 0xe0e046be
      else .runtimeError "Path escapes root directory")
  else if (path.getLast?.getD []).length > maxFilenameLength then
    .error (if testMode then .ipcError 0 0xe0e046c7 else .runtimeError "Filename too long")
  else .ok ()

def validateAndGetSandboxedTreePath (root : SandboxRoot) (utf8Path : Bytes) :
    Except PathError Bytes := do
  checkPath utf8Path
  let newPath := lexicallyNormal (root.string ++ utf8Path)
  -- `search` finds the root at the beginning.
  if root.string <+: newPath then pure newPath
  else throw (.leakedOutOfSandbox newPath root.string)

/-- What the operations of an archive do with a path of the guest. -/
def sandboxedPath (root : SandboxRoot) (type : BitVec 32) (data : Bytes) :
    Except PathError Bytes := do
  match ← CommonPath.create type data with
  | .utf8 path => validateAndGetSandboxedTreePath root path
  | .binary _ =>
    throw (.runtimeError "Binary path handling for ArchiveNonPXI not implemented")

/-- The path climbs out of the sandbox and down again to a neighbour whose name the name of the
sandbox begins. -/
structure Escapes (root : SandboxRoot) (path : Bytes) : Prop where
  accepted : checkPath path = .ok ()
  climbs : 0 < climbs (names path)
  beside : ∃ own other below, root.names.getLast? = some own ∧ own <+: other ∧ own ≠ other ∧
    enters (names path) =
      (root.names.drop (root.names.length - Path.climbs (names path))).dropLast ++ other :: below

variable {root : SandboxRoot} {path p : Bytes}

/-! ## What the checks say -/

theorem rooted_of_checkPath (h : checkPath path = .ok ()) : rooted path = true := by
  simp only [checkPath] at h
  split at h
  next => cases h
  next hroot =>
    have hhead : (elements (lexicallyNormal path)).head? = some [slash] := by
      by_contra hne
      exact hroot (.inr hne)
    exact rooted_lexicallyNormal (rooted_of_mem_elements (List.mem_of_head? hhead))

theorem validate_ok_iff :
    validateAndGetSandboxedTreePath root path = .ok p ↔
      checkPath path = .ok () ∧ root.string <+: p ∧ p = lexicallyNormal (root.string ++ path) := by
  rw [validateAndGetSandboxedTreePath]
  cases checkPath path with
  | error e =>
    constructor
    · intro h
      cases h
    · intro h
      cases h.1
  | ok =>
    by_cases hpre : root.string <+: lexicallyNormal (root.string ++ path)
    · constructor
      · intro h
        simp only [hpre] at h
        cases h
        exact ⟨rfl, hpre, rfl⟩
      · intro h
        obtain ⟨-, -, rfl⟩ := h
        simp only [hpre]
        rfl
    · constructor
      · intro h
        simp only [hpre] at h
        cases h
      · intro h
        obtain ⟨-, hp, rfl⟩ := h
        exact absurd hp hpre

/-! ## Where a path leads -/

/-- The file names the path leads to. -/
def reached (root : SandboxRoot) (path : Bytes) : List Bytes :=
  root.names.take (root.names.length - climbs (names path)) ++ enters (names path)

theorem rooted_string_append (root : SandboxRoot) (path : Bytes) :
    rooted (root.string ++ path) = true := by
  rw [SandboxRoot.string]
  split
  next => rfl
  next hne =>
    obtain ⟨n, ns, hnames⟩ := List.exists_cons_of_ne_nil hne
    simp [hnames, joined, rooted]

theorem names_string_append (h : rooted path = true) :
    names (root.string ++ path) = root.names ++ names path := by
  rw [SandboxRoot.string]
  split
  next hnil =>
    rw [hnil]
    exact names_slash path
  next =>
    refine names_joined_append (fun n hn => (root.canonical n hn).1) fun c hc => ?_
    simp only [rooted, decide_eq_true_eq] at h
    rw [h] at hc
    exact (Option.some.inj hc).symm

theorem walk_string_append (h : rooted path = true) :
    (walk true [] (names (root.string ++ path))).reverse = reached root path := by
  have hclean : dotDot ∉ root.names.reverse := by
    intro hmem
    exact (root.canonical _ (List.mem_reverse.1 hmem)).2.2 rfl
  rw [names_string_append h, walk_append, walk_clean fun n hn => (root.canonical n hn).2,
    List.append_nil, walk_relative hclean, List.reverse_append, List.reverse_reverse,
    List.drop_reverse, List.reverse_reverse, reached]

theorem isName_reached (h : rooted path = true) : ∀ n ∈ reached root path, IsName n := by
  intro n hn
  rw [← walk_string_append h, List.mem_reverse] at hn
  exact isName_walk_names true _ n hn

/-- A list of file names, taken from the root for a while, leaves it at its last name. -/
theorem beside_iff {names down init post : List Bytes} {own other : Bytes} {k : Nat}
    (hnames : names = init ++ [own]) (hne : own ≠ other) :
    names.take (names.length - k) ++ down = init ++ other :: post ↔
      0 < k ∧ down = (names.drop (names.length - k)).dropLast ++ other :: post := by
  rw [hnames]
  cases k with
  | zero =>
    constructor
    · intro h
      rw [Nat.sub_zero, List.take_length, List.append_assoc] at h
      exact absurd (List.cons.inj (List.append_cancel_left h)).1 hne
    · intro h
      exact absurd h.1 (by omega)
  | succ k =>
    have hle : (init ++ [own]).length - (k + 1) ≤ init.length := by simp
    rw [List.take_append_of_le_length hle, List.drop_append_of_le_length hle,
      List.dropLast_concat]
    generalize (init ++ [own]).length - (k + 1) = j
    constructor
    · intro h
      refine ⟨by omega, ?_⟩
      have hsplit : init.take j ++ down = init.take j ++ (init.drop j ++ other :: post) := by
        rw [h, ← List.append_assoc, List.take_append_drop]
      exact List.append_cancel_left hsplit
    · intro h
      rw [h.2, ← List.append_assoc, List.take_append_drop]

/-- A path that the checks accept leads out of the sandbox just when it escapes. -/
theorem reached_iff (h : checkPath path = .ok ()) :
    (∃ pre x y post, root.names = pre ++ [x] ∧ reached root path = pre ++ y :: post ∧ x <+: y ∧
      x ≠ y) ↔ Escapes root path := by
  constructor
  · intro hout
    obtain ⟨pre, x, y, post, hnames, hreached, hxy, hne⟩ := hout
    obtain ⟨hclimbs, henters⟩ := (beside_iff hnames hne).1 hreached
    exact ⟨h, hclimbs, x, y, post, by simp [hnames], hxy, hne, henters⟩
  · intro hesc
    obtain ⟨own, other, below, hown, hpre, hne, henters⟩ := hesc.beside
    have hnames : root.names = root.names.dropLast ++ [own] :=
      (List.dropLast_append_getLast? own hown).symm
    exact ⟨_, own, other, below, hnames, (beside_iff hnames hne).2 ⟨hesc.climbs, henters⟩, hpre, hne⟩

/-- The path of the host, as a string. -/
theorem normal_string (root : SandboxRoot) (h : rooted path = true) :
    ∃ t, (t = [] ∨ t = [slash]) ∧
      lexicallyNormal (root.string ++ path) = joined (reached root path) ++ t ∧
      joined (reached root path) ++ t ≠ [] := by
  obtain ⟨t, ht, hform, hne⟩ := lexicallyNormal_rooted (rooted_string_append root path)
  rw [walk_string_append h] at hform
  rw [hform] at hne
  exact ⟨t, ht, hform, hne⟩

/-- What the last check, on strings, says about the file names. -/
theorem string_prefix_iff (root : SandboxRoot) (h : rooted path = true) :
    root.string <+: lexicallyNormal (root.string ++ path) ↔
      root.names <+: reached root path ∨ ∃ pre x y post, root.names = pre ++ [x] ∧
        reached root path = pre ++ y :: post ∧ x <+: y := by
  obtain ⟨t, ht, hform, hne⟩ := normal_string root h
  rw [hform]
  by_cases hnil : root.names = []
  · have hslash : [slash] <+: joined (reached root path) ++ t := by
      cases hreached : reached root path with
      | nil =>
        rw [hreached] at hne
        cases ht with
        | inl ht => simp [joined, ht] at hne
        | inr ht => simp [joined, ht]
      | cons n ns => simp [joined]
    simp [SandboxRoot.string, hnil, hslash]
  · rw [SandboxRoot.string, if_neg hnil]
    exact joined_prefix_iff (fun n hn => (root.canonical n hn).1) (isName_reached h) ht

/-- Staying below the root, by elements and by file names. -/
theorem elements_prefix_iff (root : SandboxRoot) (h : rooted path = true) :
    elements root.string <+: elements (lexicallyNormal (root.string ++ path)) ↔
      root.names <+: reached root path := by
  obtain ⟨t, ht, hform, hne⟩ := normal_string root h
  obtain ⟨u, hu, helements⟩ := elements_joined (isName_reached h) ht hne
  have hroot : elements root.string = [slash] :: root.names := by
    rw [SandboxRoot.string]
    split
    next hnil =>
      rw [hnil]
      rfl
    next hnil => exact elements_joined_exact (fun n hn => (root.canonical n hn).1) hnil
  rw [hform, helements, hroot, List.cons_prefix_cons]
  constructor
  · intro hpre
    cases hu with
    | inl hu => simpa [hu] using hpre.2
    | inr hu =>
      rw [hu] at hpre
      cases List.prefix_concat_iff.1 hpre.2 with
      | inl heq =>
        have hempty : [] ∈ root.names := by
          rw [heq]
          simp
        exact absurd rfl (root.canonical _ hempty).1.1
      | inr hpre => exact hpre
  · intro hpre
    exact ⟨rfl, hpre.trans (List.prefix_append _ _)⟩

theorem validate_iff (root : SandboxRoot) (path : Bytes) :
    (∀ p, validateAndGetSandboxedTreePath root path = .ok p →
      elements root.string <+: elements p) ↔ ¬ Escapes root path := by
  constructor
  · intro hin hesc
    have hroot := rooted_of_checkPath hesc.accepted
    obtain ⟨pre, x, y, post, hnames, hreached, hxy, hne⟩ := (reached_iff hesc.accepted).2 hesc
    have hok := validate_ok_iff.2 ⟨hesc.accepted,
      (string_prefix_iff root hroot).2 (.inr ⟨pre, x, y, post, hnames, hreached, hxy⟩), rfl⟩
    have hpre := (elements_prefix_iff root hroot).1 (hin _ hok)
    rw [hnames, hreached, List.prefix_append_right_inj, List.cons_prefix_cons] at hpre
    exact hne hpre.1
  · intro hesc p hok
    obtain ⟨hcheck, hpre, rfl⟩ := validate_ok_iff.1 hok
    have hroot := rooted_of_checkPath hcheck
    rw [elements_prefix_iff root hroot]
    cases (string_prefix_iff root hroot).1 hpre with
    | inl hin => exact hin
    | inr hout =>
      obtain ⟨pre, x, y, post, hnames, hreached, hxy⟩ := hout
      by_cases heq : x = y
      · rw [hnames, hreached, heq, List.prefix_append_right_inj, List.cons_prefix_cons]
        exact ⟨rfl, List.nil_prefix⟩
      · exact absurd ((reached_iff hcheck).1 ⟨pre, x, y, post, hnames, hreached, hxy, heq⟩) hesc

/-- The file name `name`. -/
def ofString (name : String) : Bytes := name.toList.map fun c => c.toNat.toUInt8

/-- The sandbox in `/data/sdmc`. -/
def sdmc : SandboxRoot where
  names := [ofString "data", ofString "sdmc"]
  canonical := by decide

end Mikage.FS
