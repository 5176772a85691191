import Mikage.Lib.Backward
import Mikage.Framework.Exceptions

/-!
# Decompression of code sections

Compressed code is read from its end: a footer of eight bytes, then groups of a mask and eight
literals or back-references, which fill the output from its end as well.

- `getDecompressedLZSSDataSize`, `decompressLZSSData`: the functions of the loader. An access
  outside of a buffer is an error of its own.
- `streamTokens`: the literals and back-references of a stream, up to where it is cut short.
- `Encodes`: a valid encoding of a byte string.
- `StaysInside`: inputs with a whole footer, none of whose references points past what has been
  produced.
- `lzssExact_iff`: for these, and only these, decompression is what it should be.
-/

namespace Mikage.NS

open Lib.Backward

abbrev Byte := BitVec 8

inductive LzssError where
  | threw (e : Exception)
  | outOfBounds
  deriving DecidableEq

/-- The bytes at the end as a number of the last of them, the lowest byte first. -/
def word (compressed : List Byte) : Option ℕ :=
  match compressed.reverse with
  | b0 :: b1 :: b2 :: b3 :: _ =>
    some (b3.toNat + 0x100 * b2.toNat + 0x10000 * b1.toNat + 0x1000000 * b0.toNat)
  | _ => none

def getDecompressedLZSSDataSize (compressed : List Byte) : Except LzssError ℕ :=
  match word compressed with
  | none => .error .outOfBounds
  | some sizeDelta => .ok ((compressed.length + sizeDelta) % 2 ^ 32)

/-! ## The loops -/

/-- The loop over a back-reference. The output starts at the list; what is behind it is behind the
end of the buffer. -/
def copyBack (offset : ℕ) : (size : ℕ) → List Byte → Except LzssError (List Byte)
  | 0, output => .ok output
  | size + 1, output =>
    match output[offset]? with
    | none => .error .outOfBounds
    | some b => copyBack offset size (b :: output)

def isCompressed (mask : Byte) (i : ℕ) : Bool := mask &&& (0x80#8 >>> i) ≠ 0

def displacement (b0 b1 : Byte) : ℕ := (b0.toNat % 0x10) * 0x100 + b1.toNat

/-- The inner loop, with `left` of eight turns to go, over the input, and a buffer of `capacity`
bytes. -/
def inner (capacity : ℕ) (mask : Byte) : (left : ℕ) → (input output : List Byte) →
    Except LzssError (List Byte × List Byte)
  | 0, input, output => .ok (input, output)
  | left + 1, input, output =>
    let outputBytesLeft := capacity - output.length
    if isCompressed mask (7 - left) then
      match input with
      | b0 :: b1 :: input =>
        let offset := 2 + displacement b0 b1
        let size := 3 + b0.toNat / 0x10
        if outputBytesLeft < size then .error (.threw (.runtimeError "No output bytes left"))
        else
          match copyBack offset size output with
          | .error e => .error e
          | .ok output => inner capacity mask left input output
      | _ => .error (.threw (.runtimeError "Unexpected end of file"))
    else
      match input with
      | [] => .ok ([], output)
      | b :: input =>
        if outputBytesLeft < 1 then .error (.threw (.runtimeError "No output bytes left"))
        else inner capacity mask left input (b :: output)

theorem inner_length {capacity : ℕ} {mask : Byte} {left : ℕ} : ∀ {input output : List Byte}
    {r : List Byte × List Byte}, inner capacity mask left input output = .ok r →
      r.1.length ≤ input.length := by
  induction left with
  | zero =>
    intro input output r h
    cases h
    exact le_rfl
  | succ left ih =>
    intro input output r h
    rw [inner.eq_def] at h
    dsimp only at h
    split at h
    · split at h
      next b0 b1 input =>
        split at h
        · cases h
        · split at h
          · cases h
          · exact (ih h).trans (by rw [List.length_cons, List.length_cons]; omega)
      · cases h
    · split at h
      · cases h
        exact le_rfl
      next b input =>
        split at h
        · cases h
        · exact (ih h).trans (by rw [List.length_cons]; omega)

/-- The outer loop. -/
def outer (capacity : ℕ) : (input output : List Byte) → Except LzssError (List Byte)
  | mask :: next :: input, output =>
    match _ : inner capacity mask 8 (next :: input) output with
    | .error e => .error e
    | .ok (input, output) => outer capacity input output
  | _, output => .ok output
  termination_by input => input.length
  decreasing_by
    have := inner_length ‹_›
    simp only [List.length_cons] at this ⊢
    omega

/-- `begin` and `end` of the footer, from the end of the data. -/
def footer (compressed : List Byte) : Option (ℕ × ℕ) :=
  match compressed.reverse with
  | _ :: _ :: _ :: _ :: b4 :: b5 :: b6 :: b7 :: _ =>
    some (b4.toNat, b7.toNat + 0x100 * b6.toNat + 0x10000 * b5.toNat)
  | _ => none

/-- The bytes between them, the last one first. -/
def workingSet (compressed : List Byte) (bounds : ℕ × ℕ) : List Byte :=
  (compressed.reverse.drop bounds.1).take (bounds.2 - bounds.1)

/-- The buffer at the end: the copy of the input where nothing has been produced. -/
def fill (compressed : List Byte) (capacity : ℕ) (output : List Byte) : List Byte :=
  (compressed ++ List.replicate (capacity - compressed.length) 0).take
    (capacity - output.length) ++ output

/-- `DecompressLZSSData`, with a buffer of `capacity` bytes. -/
def decompressLZSSData (compressed : List Byte) (capacity : ℕ) : Except LzssError (List Byte) :=
  -- an input of less than eight bytes makes an exception that is not thrown
  if capacity < compressed.length then
    .error (.threw (.runtimeError "Decompressed buffer is smaller than compressed one!"))
  else
    match footer compressed with
    | none => .error .outOfBounds
    | some bounds =>
      if compressed.length < bounds.2 then .error (.threw (.runtimeError "Invalid size given"))
      else if bounds.2 < bounds.1 then
        .error (.threw (.contractViolated "error in slice indices"))
      else
        match outer capacity (workingSet compressed bounds) [] with
        | .error e => .error e
        | .ok output => .ok (fill compressed capacity output)

/-! ## The stream -/

/-- The tokens of a group, and the input behind it; none where the input ends in a reference. -/
def groupTokens (mask : Byte) : ℕ → List Byte → List (Token Byte) × Option (List Byte)
  | 0, input => ([], some input)
  | left + 1, input =>
    if isCompressed mask (7 - left) then
      match input with
      | b0 :: b1 :: input =>
        let (ts, rest) := groupTokens mask left input
        (.copy (displacement b0 b1) (b0.toNat / 0x10) :: ts, rest)
      | _ => ([], none)
    else
      match input with
      | [] => ([], some [])
      | b :: input =>
        let (ts, rest) := groupTokens mask left input
        (.literal b :: ts, rest)

theorem groupTokens_length {mask : Byte} {left : ℕ} : ∀ {input rest : List Byte},
    (groupTokens mask left input).2 = some rest → rest.length ≤ input.length := by
  induction left with
  | zero =>
    intro input rest h
    cases h
    exact le_rfl
  | succ left ih =>
    intro input rest h
    rw [groupTokens.eq_def] at h
    dsimp only at h
    split at h
    · split at h
      next b0 b1 input =>
        exact (ih h).trans (by rw [List.length_cons, List.length_cons]; omega)
      · cases h
    · split at h
      · cases h
        exact le_rfl
      next b input => exact (ih h).trans (by rw [List.length_cons]; omega)

/-- The tokens of a stream, and whether it ends with one. -/
def streamTokens : List Byte → List (Token Byte) × Bool
  | mask :: next :: input =>
    match _ : (groupTokens mask 8 (next :: input)).2 with
    | none => ((groupTokens mask 8 (next :: input)).1, false)
    | some rest => ((groupTokens mask 8 (next :: input)).1 ++ (streamTokens rest).1,
        (streamTokens rest).2)
  | _ => ([], true)
  termination_by input => input.length
  decreasing_by
    all_goals
      have := groupTokens_length ‹_›
      simp only [List.length_cons] at this ⊢
      omega

/-- A valid encoding: a whole footer, a stream of tokens that decode to the bytes behind the part
that is not compressed, and the right size. -/
structure Encodes (compressed s : List Byte) : Prop where
  size : getDecompressedLZSSDataSize compressed = .ok s.length
  larger : compressed.length ≤ s.length
  stream : ∃ bounds ts body, footer compressed = some bounds ∧
    bounds.1 ≤ bounds.2 ∧ bounds.2 ≤ compressed.length ∧
    streamTokens (workingSet compressed bounds) = (ts, true) ∧ Decodes ts [] body ∧
    s = compressed.take (compressed.length - bounds.2) ++ body

/-- **Decompression as it should be**: inside of the buffers, and either throwing or giving what the
tokens of the stream stand for; a valid encoding gives its byte string. -/
structure LzssExact (compressed : List Byte) (capacity : ℕ) : Prop where
  inside : decompressLZSSData compressed capacity ≠ .error .outOfBounds
  sound : ∀ out, decompressLZSSData compressed capacity = .ok out →
    ∃ bounds output, footer compressed = some bounds ∧
      Decodes (streamTokens (workingSet compressed bounds)).1 [] output ∧
      output.length ≤ capacity ∧ out = fill compressed capacity output
  decodes : ∀ s, Encodes compressed s → decompressLZSSData compressed capacity = .ok s

/-- A back-reference that is reached points past what has been produced. -/
def PointsPast (ts : List (Token Byte)) (capacity : ℕ) : Prop :=
  ∃ us x y rest output, ts = us ++ .copy x y :: rest ∧ Decodes us [] output ∧
    output.length + (y + 3) ≤ capacity ∧ output.length < x + 3

/-- The input has a footer, and no back-reference points past what has been produced. -/
def StaysInside (compressed : List Byte) (capacity : ℕ) : Prop :=
  compressed.length ≤ capacity → 8 ≤ compressed.length ∧
    ∀ bounds, footer compressed = some bounds → bounds.1 ≤ bounds.2 →
      bounds.2 ≤ compressed.length →
      ¬ PointsPast (streamTokens (workingSet compressed bounds)).1 capacity

/-! ## Tokens -/

section Tokens

variable {capacity : ℕ} {mask : Byte} {ts us rest : List (Token Byte)} {p q output : List Byte}
  {x y left : ℕ} {input : List Byte}

/-- The loops over tokens that have been read. -/
def run (capacity : ℕ) : List (Token Byte) → List Byte → Except LzssError (List Byte)
  | [], output => .ok output
  | .literal b :: ts, output =>
    if capacity - output.length < 1 then .error (.threw (.runtimeError "No output bytes left"))
    else run capacity ts (b :: output)
  | .copy x y :: ts, output =>
    if capacity - output.length < 3 + y then
      .error (.threw (.runtimeError "No output bytes left"))
    else
      match copyBack (2 + x) (3 + y) output with
      | .error e => .error e
      | .ok output => run capacity ts output

theorem run_append : run capacity (ts ++ us) p = match run capacity ts p with
    | .error e => .error e
    | .ok q => run capacity us q := by
  induction ts generalizing p with
  | nil => rfl
  | cons t ts ih =>
    cases t with
    | literal b =>
      rw [List.cons_append, run, run]
      split
      · rfl
      · exact ih
    | copy x y =>
      rw [List.cons_append, run, run]
      split
      · rfl
      · cases copyBack (2 + x) (3 + y) p with
        | error e => rfl
        | ok q => exact ih

/-- A group is its tokens. -/
theorem inner_eq : inner capacity mask left input p =
    match run capacity (groupTokens mask left input).1 p with
    | .error e => .error e
    | .ok q =>
      match (groupTokens mask left input).2 with
      | none => .error (.threw (.runtimeError "Unexpected end of file"))
      | some rest => .ok (rest, q) := by
  induction left generalizing input p with
  | zero => rfl
  | succ left ih =>
    rw [inner.eq_def, groupTokens.eq_def]
    dsimp only
    split
    · split
      next b0 b1 input =>
        dsimp only
        rw [run]
        split
        · rfl
        · cases copyBack (2 + displacement b0 b1) (3 + b0.toNat / 0x10) p with
          | error e => rfl
          | ok q => exact ih
      · rfl
    · split
      · rfl
      next b input =>
        dsimp only
        rw [run]
        split
        · rfl
        · exact ih

theorem outer_error {next : Byte} {e : LzssError}
    (h : inner capacity mask 8 (next :: input) p = .error e) :
    outer capacity (mask :: next :: input) p = .error e := by
  rw [outer]
  split
  next e' h' =>
    cases h'.symm.trans h
    rfl
  next i o h' => cases h'.symm.trans h

theorem outer_ok {next : Byte} {i o : List Byte}
    (h : inner capacity mask 8 (next :: input) p = .ok (i, o)) :
    outer capacity (mask :: next :: input) p = outer capacity i o := by
  rw [outer]
  split
  next e h' => cases h'.symm.trans h
  next i' o' h' =>
    cases h'.symm.trans h
    rfl

theorem streamTokens_none {next : Byte} (h : (groupTokens mask 8 (next :: input)).2 = none) :
    streamTokens (mask :: next :: input) =
      ((groupTokens mask 8 (next :: input)).1, false) := by
  rw [streamTokens]
  split
  next => rfl
  next i h' => cases h'.symm.trans h

theorem streamTokens_some {next : Byte} {i : List Byte}
    (h : (groupTokens mask 8 (next :: input)).2 = some i) :
    streamTokens (mask :: next :: input) =
      ((groupTokens mask 8 (next :: input)).1 ++ (streamTokens i).1, (streamTokens i).2) := by
  rw [streamTokens]
  split
  next h' => cases h'.symm.trans h
  next i' h' =>
    cases h'.symm.trans h
    rfl

/-- And the stream is its tokens. -/
theorem outer_eq (capacity : ℕ) (input p : List Byte) : outer capacity input p =
    match run capacity (streamTokens input).1 p with
    | .error e => .error e
    | .ok q => if (streamTokens input).2 then .ok q
        else .error (.threw (.runtimeError "Unexpected end of file")) := by
  induction hlength : input.length using Nat.strong_induction_on generalizing input p with
  | h n ih =>
    match input with
    | [] =>
      rw [outer, streamTokens]
      · rfl
      · nofun
      · nofun
    | [b] =>
      rw [outer, streamTokens]
      · rfl
      · nofun
      · nofun
    | mask :: next :: input =>
      have hinner : inner capacity mask 8 (next :: input) p = _ := inner_eq
      cases hgroup : (groupTokens mask 8 (next :: input)).2 with
      | none =>
        rw [streamTokens_none hgroup]
        cases hrun : run capacity (groupTokens mask 8 (next :: input)).1 p with
        | error e =>
          rw [hrun] at hinner
          exact outer_error hinner
        | ok q =>
          rw [hrun, hgroup] at hinner
          exact outer_error hinner
      | some rest =>
        have hlt := groupTokens_length hgroup
        rw [streamTokens_some hgroup]
        dsimp only
        rw [run_append]
        cases hrun : run capacity (groupTokens mask 8 (next :: input)).1 p with
        | error e =>
          rw [hrun] at hinner
          exact outer_error hinner
        | ok q =>
          rw [hrun, hgroup] at hinner
          rw [outer_ok hinner]
          refine ih rest.length ?_ rest q rfl
          rw [← hlength, List.length_cons]
          omega

/-! ## Running tokens -/

/-- A copy is in the buffer where its distance is, and repeats what is behind it. -/
theorem copyBack_ok (offset : ℕ) : ∀ {size : ℕ} {p q : List Byte},
    copyBack offset size p = .ok q → ∃ copied, q = copied ++ p ∧ copied.length = size ∧
      ∀ k < size, (copied ++ p)[k]? = (copied ++ p)[k + (offset + 1)]? := by
  intro size
  induction size with
  | zero =>
    intro p q h
    cases h
    exact ⟨[], rfl, rfl, nofun⟩
  | succ size ih =>
    intro p q h
    rw [copyBack] at h
    split at h
    · cases h
    next b hb =>
      obtain ⟨copied, rfl, hlength, hk⟩ := ih h
      refine ⟨copied ++ [b], by rw [List.append_assoc]; rfl, ?_, fun k hlt => ?_⟩
      · rw [List.length_append, hlength]
        rfl
      · rw [List.append_assoc, List.singleton_append]
        obtain hlt | rfl := Nat.lt_succ_iff_lt_or_eq.1 hlt
        · exact hk k hlt
        · rw [List.getElem?_append_right (by omega), List.getElem?_append_right (by omega),
            hlength, Nat.sub_self, List.getElem?_cons_zero, ← hb]
          rw [show k + (offset + 1) - k = offset + 1 by omega, List.getElem?_cons_succ]

theorem copyBack_outOfBounds {offset : ℕ} {size : ℕ} : ∀ {p : List Byte} {e : LzssError},
    copyBack offset size p = .error e → e = .outOfBounds ∧ p.length ≤ offset := by
  induction size with
  | zero => nofun
  | succ size ih =>
    intro p e h
    rw [copyBack] at h
    split at h
    next hnone =>
      cases h
      exact ⟨rfl, List.getElem?_eq_none_iff.1 hnone⟩
    next b hb =>
      obtain ⟨rfl, hle⟩ := ih h
      rw [List.length_cons] at hle
      exact ⟨rfl, by omega⟩

/-- A distance that is too long is noticed at the first byte. -/
theorem copyBack_past {offset size : ℕ} (h : p.length ≤ offset) :
    copyBack offset (size + 1) p = .error .outOfBounds := by
  rw [copyBack, List.getElem?_eq_none h]

theorem run_ok (hp : p.length ≤ capacity) (h : run capacity ts p = .ok q) :
    Decodes ts p q ∧ q.length ≤ capacity := by
  induction ts generalizing p with
  | nil =>
    cases h
    exact ⟨.nil _, hp⟩
  | cons t ts ih =>
    cases t with
    | literal b =>
      rw [run] at h
      split at h
      · cases h
      next hroom =>
        obtain ⟨hdecodes, hq⟩ := ih (by rw [List.length_cons]; omega) h
        exact ⟨.literal hdecodes, hq⟩
    | copy x y =>
      rw [run] at h
      split at h
      · cases h
      next hroom =>
        split at h
        · cases h
        next out hcopy =>
          have hinside : x + 3 ≤ p.length := by
            by_contra hlt
            rw [Nat.add_comm 3 y, copyBack_past (by omega)] at hcopy
            cases hcopy
          obtain ⟨copied, rfl, hlength, hk⟩ := copyBack_ok _ hcopy
          rw [Nat.add_comm 3 y] at hlength hk
          rw [show 2 + x + 1 = x + 3 by omega] at hk
          obtain ⟨hdecodes, hq⟩ := ih (by rw [List.length_append]; omega) h
          exact ⟨.copy hinside hlength hk hdecodes, hq⟩

/-- What the tokens stand for is what running them gives, where it fits. -/
theorem run_of_decodes (h : Decodes ts p q) (hq : q.length ≤ capacity) :
    run capacity ts p = .ok q := by
  induction h with
  | nil p => rfl
  | @literal ts p q b hrest ih =>
    have hle := hrest.length_le
    rw [List.length_cons] at hle
    rw [run, if_neg (by omega)]
    exact ih hq
  | @copy ts p q copied x y hd hl hk hrest ih =>
    have hle := hrest.length_le
    rw [List.length_append] at hle
    rw [run, if_neg (by omega)]
    cases hcopy : copyBack (2 + x) (3 + y) p with
    | error e =>
      obtain ⟨-, hshort⟩ := copyBack_outOfBounds hcopy
      omega
    | ok out =>
      obtain ⟨copied', rfl, hlength, hk'⟩ := copyBack_ok _ hcopy
      rw [show 2 + x + 1 = x + 3 by omega] at hk'
      obtain rfl : copied = copied' := by
        refine copied_unique (p := p) (d := x + 3) (Nat.succ_pos _) (by omega) (fun k hlt => ?_)
          fun k hlt => ?_
        · exact hk k (by omega)
        · exact hk' k (by omega)
      exact ih hq

theorem run_outOfBounds (hp : p.length ≤ capacity) :
    run capacity ts p = .error .outOfBounds ↔
      ∃ us x y rest output, ts = us ++ .copy x y :: rest ∧ Decodes us p output ∧
        output.length + (y + 3) ≤ capacity ∧ output.length < x + 3 := by
  refine ⟨fun h => ?_, fun ⟨us, x, y, rest, output, hts, hdecodes, hroom, hpast⟩ => ?_⟩
  · induction ts generalizing p with
    | nil => cases h
    | cons t ts ih =>
      cases t with
      | literal b =>
        rw [run] at h
        split at h
        · cases h
        next hroom =>
          obtain ⟨us, x, y, rest, output, rfl, hdecodes, hrest⟩ :=
            ih (by rw [List.length_cons]; omega) h
          exact ⟨.literal b :: us, x, y, rest, output, rfl, .literal hdecodes, hrest⟩
      | copy x y =>
        rw [run] at h
        split at h
        · cases h
        next hroom =>
          cases hcopy : copyBack (2 + x) (3 + y) p with
          | error e =>
            obtain ⟨-, hshort⟩ := copyBack_outOfBounds hcopy
            exact ⟨[], x, y, ts, p, rfl, .nil p, by omega, by omega⟩
          | ok out =>
            rw [hcopy] at h
            have hone : run capacity [.copy x y] p = .ok out := by
              rw [run, if_neg hroom, hcopy]
              rfl
            obtain ⟨hcopied, hout⟩ := run_ok hp hone
            obtain ⟨us, x', y', rest, output, rfl, hdecodes, hrest⟩ := ih hout h
            exact ⟨.copy x y :: us, x', y', rest, output, rfl, hcopied.append hdecodes, hrest⟩
  · rw [hts, run_append, run_of_decodes hdecodes (by omega)]
    dsimp only
    rw [run, if_neg (by omega), Nat.add_comm 3 y, copyBack_past (by omega)]

end Tokens

/-! ## The whole -/

section Whole

variable {compressed s : List Byte} {capacity : ℕ} {bounds : ℕ × ℕ}

theorem footer_none : footer compressed = none ↔ compressed.length < 8 := by
  rw [footer, ← List.length_reverse]
  split
  next heq =>
    rw [heq]
    refine iff_of_false nofun ?_
    simp only [List.length_cons]
    omega
  next hnot =>
    refine iff_of_true rfl ?_
    by_contra hlong
    match hr : compressed.reverse with
    | b0 :: b1 :: b2 :: b3 :: b4 :: b5 :: b6 :: b7 :: l => exact hnot _ _ _ _ _ _ _ _ _ hr
    | [] | [_] | [_, _] | [_, _, _] | [_, _, _, _] | [_, _, _, _, _] | [_, _, _, _, _, _]
    | [_, _, _, _, _, _, _] =>
      rw [hr] at hlong
      simp at hlong

/-- Decompression past the checks. -/
theorem decompressLZSSData_eq (hsize : compressed.length ≤ capacity)
    (hfooter : footer compressed = some bounds) (horder : bounds.1 ≤ bounds.2)
    (hend : bounds.2 ≤ compressed.length) : decompressLZSSData compressed capacity =
      match run capacity (streamTokens (workingSet compressed bounds)).1 [] with
      | .error e => .error e
      | .ok output =>
        if (streamTokens (workingSet compressed bounds)).2 then
          .ok (fill compressed capacity output)
        else .error (.threw (.runtimeError "Unexpected end of file")) := by
  rw [decompressLZSSData, if_neg (not_lt.2 hsize), hfooter]
  dsimp only
  rw [if_neg (not_lt.2 hend), if_neg (not_lt.2 horder), outer_eq]
  cases run capacity (streamTokens (workingSet compressed bounds)).1 [] with
  | error e => rfl
  | ok output =>
    dsimp only
    cases (streamTokens (workingSet compressed bounds)).2 <;> rfl

/-- Decompression that gets past the checks. -/
theorem checks_passed {r : Except LzssError (List Byte)}
    (h : decompressLZSSData compressed capacity = r) (hr : ∀ e, r ≠ .error (.threw e)) :
    compressed.length ≤ capacity ∧ (compressed.length < 8 ∧ r = .error .outOfBounds ∨
      ∃ bounds, footer compressed = some bounds ∧ bounds.1 ≤ bounds.2 ∧
        bounds.2 ≤ compressed.length) := by
  rw [decompressLZSSData] at h
  split at h
  · exact absurd h.symm (hr _)
  next hsize =>
    refine ⟨not_lt.1 hsize, ?_⟩
    split at h
    next hnone => exact .inl ⟨footer_none.1 hnone, h.symm⟩
    next bounds hfooter =>
      split at h
      · exact absurd h.symm (hr _)
      next hend =>
        split at h
        · exact absurd h.symm (hr _)
        next horder => exact .inr ⟨bounds, hfooter, not_lt.1 horder, not_lt.1 hend⟩

theorem decompressLZSSData_outOfBounds :
    decompressLZSSData compressed capacity = .error .outOfBounds ↔
      ¬ StaysInside compressed capacity := by
  refine ⟨fun h hinside => ?_, fun h => ?_⟩
  · obtain ⟨hsize, ⟨hshort, -⟩ | ⟨bounds, hfooter, horder, hend⟩⟩ := checks_passed h nofun
    · have := (hinside hsize).1
      omega
    · refine (hinside hsize).2 bounds hfooter horder hend ?_
      rw [decompressLZSSData_eq hsize hfooter horder hend] at h
      refine (run_outOfBounds (Nat.zero_le _)).1 ?_
      split at h
      next e hrun =>
        cases h
        exact hrun
      next => split at h <;> cases h
  · obtain ⟨hsize, h⟩ := Classical.not_imp.1 h
    by_cases hshort : compressed.length < 8
    · rw [decompressLZSSData, if_neg (not_lt.2 hsize), footer_none.2 hshort]
    · by_contra hinside
      refine h ⟨not_lt.1 hshort, fun bounds hfooter horder hend hpast => hinside ?_⟩
      rw [decompressLZSSData_eq hsize hfooter horder hend,
        (run_outOfBounds (Nat.zero_le _)).2 hpast]

theorem decompressLZSSData_sound {out : List Byte}
    (h : decompressLZSSData compressed capacity = .ok out) :
    ∃ bounds output, footer compressed = some bounds ∧
      Decodes (streamTokens (workingSet compressed bounds)).1 [] output ∧
      output.length ≤ capacity ∧ out = fill compressed capacity output := by
  obtain ⟨hsize, ⟨-, hr⟩ | ⟨bounds, hfooter, horder, hend⟩⟩ := checks_passed h nofun
  · cases hr
  · rw [decompressLZSSData_eq hsize hfooter horder hend] at h
    split at h
    · cases h
    next output hrun =>
      split at h
      · cases h
        obtain ⟨hdecodes, hlength⟩ := run_ok (Nat.zero_le _) hrun
        exact ⟨bounds, output, hfooter, hdecodes, hlength, rfl⟩
      · cases h

/-- A valid encoding is decoded. -/
theorem Encodes.decompress (h : Encodes compressed s) :
    decompressLZSSData compressed s.length = .ok s := by
  obtain ⟨bounds, ts, body, hfooter, horder, hend, hstream, hdecodes, rfl⟩ := h.stream
  have hlarger := h.larger
  have hlength : (compressed.take (compressed.length - bounds.2) ++ body).length =
      compressed.length - bounds.2 + body.length := by
    rw [List.length_append, List.length_take]
    omega
  rw [decompressLZSSData_eq hlarger hfooter horder hend, hstream,
    run_of_decodes hdecodes (by omega)]
  dsimp only
  rw [if_pos rfl, fill, hlength, Nat.add_sub_cancel, List.take_append_of_le_length (by omega)]

/-- **Decompression** of an input, into the buffer whose size is computed from it. -/
theorem lzssExact_iff (compressed : List Byte) :
    (∀ capacity, getDecompressedLZSSDataSize compressed = .ok capacity →
      LzssExact compressed capacity) ↔
    ∀ capacity, getDecompressedLZSSDataSize compressed = .ok capacity →
      StaysInside compressed capacity := by
  refine forall_congr' fun capacity => imp_congr_right fun hcapacity => ?_
  refine ⟨fun h => ?_, fun h => ⟨?_, fun out => decompressLZSSData_sound, fun s hs => ?_⟩⟩
  · by_contra hinside
    exact h.inside (decompressLZSSData_outOfBounds.2 hinside)
  · exact fun hout => decompressLZSSData_outOfBounds.1 hout h
  · obtain rfl := Except.ok.inj (hcapacity.symm.trans hs.size)
    exact hs.decompress

end Whole

/-- A footer of eight bytes, and a group of one back-reference into nothing. -/
def pastTheEnd : List Byte := [0, 0, 0x80, 0x0b, 0, 0, 8, 0, 0, 0, 0]

theorem pastTheEnd_outOfBounds : ¬ ∀ compressed capacity,
    getDecompressedLZSSDataSize compressed = .ok capacity → LzssExact compressed capacity := by
  intro h
  refine (h pastTheEnd 11 rfl).inside (decompressLZSSData_outOfBounds.2 fun hinside => ?_)
  obtain ⟨-, hpast⟩ := hinside le_rfl
  refine hpast (8, 11) rfl (by decide) le_rfl ⟨[], 0, 0, [], [], ?_, .nil _, by decide, by decide⟩
  rw [show workingSet pastTheEnd (8, 11) = [0x80, 0, 0] from rfl,
    streamTokens_some (show (groupTokens 0x80 8 [0, 0]).2 = some [] from rfl), streamTokens]
  · rfl
  · nofun

end Mikage.NS
