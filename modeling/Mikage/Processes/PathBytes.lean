import Mikage.Processes.Sandbox

/-!
# The bytes of a path

A command declares how many bytes its path has, and the static buffer it comes in has a size of its
own. What a path of the buffer's size says about the declared bytes alone.

- `decode_ended`: UTF-16 text that has come to its end, or is ill-formed, is not read any further.
- `utf8Path_settled`: when the path is the same whatever follows the declared bytes.
-/

namespace Mikage.FS

open Path

namespace CommonPath

/-! ## UTF-16 up to its end -/

def decode (units : List Nat) : Except PathError Bytes := toBytes (units.takeWhile (· ≠ 0))

/-- How far code units have been read: to the end of the text, which may be an error, or with more to
come, possibly the second half of a surrogate pair. -/
inductive Scan where
  | ended
  | unfinished (pending : Bool)
  deriving DecidableEq, Repr

def scan : List Nat → Scan
  | [] => .unfinished false
  | u :: units =>
    if u = 0 then .ended
    else if 0xd800 ≤ u ∧ u < 0xe000 then
      match units with
      | [] => if u < 0xdc00 then .unfinished true else .ended
      | v :: units => if u < 0xdc00 ∧ 0xdc00 ≤ v ∧ v < 0xe000 then scan units else .ended
    else scan units

variable {u v : Nat} {units rest : List Nat}

@[simp] theorem decode_nil : decode [] = .ok [] := rfl

@[simp] theorem decode_zero : decode (0 :: units) = .ok [] := rfl

theorem decode_plain (hu : u ≠ 0) (hs : ¬(0xd800 ≤ u ∧ u < 0xe000)) :
    decode (u :: units) = (do
      let rest ← decode units
      pure (encode u ++ rest)) := by
  rw [decode, List.takeWhile_cons_of_pos (by simpa using hu), toBytes.eq_def]
  exact if_neg hs

theorem decode_pair (hs : 0xd800 ≤ u ∧ u < 0xe000) (hv : v ≠ 0) :
    decode (u :: v :: units) =
      if u < 0xdc00 ∧ 0xdc00 ≤ v ∧ v < 0xe000 then (do
        let rest ← decode units
        pure (encode (0x10000 + (u - 0xd800) * 0x400 + (v - 0xdc00)) ++ rest))
      else .error .rangeError := by
  have hu : u ≠ 0 := by omega
  rw [decode, List.takeWhile_cons_of_pos (by simpa using hu),
    List.takeWhile_cons_of_pos (by simpa using hv), toBytes, if_pos hs]
  rfl

theorem decode_lone (hs : 0xd800 ≤ u ∧ u < 0xe000) : decode [u] = .error .rangeError := by
  have hu : u ≠ 0 := by omega
  rw [decode, List.takeWhile_cons_of_pos (by simpa using hu), List.takeWhile_nil, toBytes, if_pos hs]

theorem decode_cut (hs : 0xd800 ≤ u ∧ u < 0xe000) :
    decode (u :: 0 :: units) = .error .rangeError := by
  have hu : u ≠ 0 := by omega
  rw [decode, List.takeWhile_cons_of_pos (by simpa using hu),
    List.takeWhile_cons_of_neg (by simp), toBytes, if_pos hs]

/-- A surrogate that is not the first half of a pair. -/
theorem decode_unpaired (hs : 0xd800 ≤ u ∧ u < 0xe000)
    (hv : ¬(u < 0xdc00 ∧ 0xdc00 ≤ v ∧ v < 0xe000)) :
    decode (u :: v :: units) = .error .rangeError := by
  by_cases h0 : v = 0
  · rw [h0, decode_cut hs]
  · rw [decode_pair hs h0, if_neg hv]

/-- Nothing behind the end of the text matters. -/
theorem decode_ended : ∀ {units : List Nat}, scan units = .ended →
    ∀ rest, decode (units ++ rest) = decode units
  | [], h, _ => by cases h
  | u :: units, h, rest => by
    unfold scan at h
    by_cases h0 : u = 0
    · subst h0
      rfl
    rw [if_neg h0] at h
    by_cases hs : 0xd800 ≤ u ∧ u < 0xe000
    · rw [if_pos hs] at h
      cases units with
      | nil =>
        have hlow : ¬ u < 0xdc00 := fun hlow => by
          simp [hlow] at h
        cases rest with
        | nil => rfl
        | cons v rest =>
          rw [List.singleton_append, decode_lone hs, decode_unpaired hs fun hv => hlow hv.1]
      | cons v units =>
        by_cases hv : u < 0xdc00 ∧ 0xdc00 ≤ v ∧ v < 0xe000
        · have h0 : v ≠ 0 := by omega
          simp only [hv, and_self, if_true] at h
          rw [List.cons_append, List.cons_append, decode_pair hs h0, decode_pair hs h0,
            decode_ended h]
        · rw [List.cons_append, List.cons_append, decode_unpaired hs hv, decode_unpaired hs hv]
    · rw [if_neg hs] at h
      rw [List.cons_append, decode_plain h0 hs, decode_plain h0 hs, decode_ended h]

theorem isOk_bind_pure {α β : Type} (x : Except PathError α) (f : α → β) :
    (do
      let a ← x
      pure (f a) : Except PathError β).isOk = x.isOk := by
  cases x <;> rfl

/-- Whether unfinished text is well-formed is up to what follows. -/
theorem decode_unfinished : ∀ {units : List Nat}, scan units = .unfinished false →
    ∀ rest, (decode (units ++ rest)).isOk = (decode rest).isOk
  | [], _, _ => rfl
  | u :: units, h, rest => by
    unfold scan at h
    by_cases h0 : u = 0
    · rw [if_pos h0] at h
      cases h
    rw [if_neg h0] at h
    by_cases hs : 0xd800 ≤ u ∧ u < 0xe000
    · rw [if_pos hs] at h
      cases units with
      | nil =>
        simp only at h
        split at h <;> cases h
      | cons v units =>
        simp only at h
        split at h
        next hv =>
          rw [List.cons_append, List.cons_append, decode_pair hs (by omega), if_pos hv,
            isOk_bind_pure, decode_unfinished h]
        next => cases h
    · rw [if_neg hs] at h
      rw [List.cons_append, decode_plain h0 hs, isOk_bind_pure, decode_unfinished h]

theorem decode_pending : ∀ {units : List Nat}, scan units = .unfinished true → ∀ v rest,
    (decode (units ++ v :: rest)).isOk = (decide (0xdc00 ≤ v ∧ v < 0xe000) && (decode rest).isOk)
  | [], h, _, _ => by cases h
  | u :: units, h, v, rest => by
    unfold scan at h
    by_cases h0 : u = 0
    · rw [if_pos h0] at h
      cases h
    rw [if_neg h0] at h
    by_cases hs : 0xd800 ≤ u ∧ u < 0xe000
    · rw [if_pos hs] at h
      cases units with
      | nil =>
        simp only at h
        split at h
        next hlow =>
          rw [List.singleton_append]
          by_cases hv : 0xdc00 ≤ v ∧ v < 0xe000
          · rw [decode_pair hs (by omega), if_pos ⟨hlow, hv⟩, isOk_bind_pure, decide_eq_true hv,
              Bool.true_and]
          · rw [decode_unpaired hs fun h => hv h.2, decide_eq_false hv, Bool.false_and]
            rfl
        next => cases h
      | cons w units =>
        simp only at h
        split at h
        next hw =>
          rw [List.cons_append, List.cons_append, decode_pair hs (by omega), if_pos hw,
            isOk_bind_pure, decode_pending h]
        next => cases h
    · rw [if_neg hs] at h
      rw [List.cons_append, decode_plain h0 hs, isOk_bind_pure, decode_pending h]

/-! ## Code units of bytes -/

theorem codeUnits_append : ∀ (data more : Bytes), data.length % 2 = 0 →
    codeUnits (data ++ more) = codeUnits data ++ codeUnits more
  | [], _, _ => rfl
  | [_], _, h => by simp at h
  | low :: high :: data, more, h => by
    have h : data.length % 2 = 0 := by
      simp only [List.length_cons] at h
      omega
    simp only [List.cons_append, codeUnits, codeUnits_append data more h]

/-- A single byte behind the code units is not one. -/
theorem codeUnits_concat {data : Bytes} (h : data.length % 2 = 0) (b : UInt8) :
    codeUnits (data ++ [b]) = codeUnits data := by
  rw [codeUnits_append _ _ h]
  exact List.append_nil _

theorem codeUnits_initial : ∀ data more : Bytes, codeUnits data <+: codeUnits (data ++ more)
  | [], _ => List.nil_prefix
  | [_], _ => List.nil_prefix
  | _ :: _ :: data, more => List.prefix_cons_inj _ |>.2 (codeUnits_initial data more)

theorem decode_zeros : ∀ n, decode (codeUnits (List.replicate n 0)) = .ok []
  | 0 => rfl
  | 1 => rfl
  | _ + 2 => rfl

theorem create_utf16 (data : Bytes) (h : data.length % 2 = 0) :
    create 4 data = (decode (codeUnits data)).map .utf8 := by
  have hstrip : ∀ l : List Nat, (∀ u ∈ l, u ≠ 0) → (l.reverse.dropWhile (· = 0)).reverse = l := by
    intro l hl
    have hkeep : l.reverse.dropWhile (· = 0) = l.reverse := by
      cases hr : l.reverse with
      | nil => rfl
      | cons u r =>
        have hu : u ≠ 0 := hl u (List.mem_reverse.1 (hr ▸ List.mem_cons_self))
        rw [List.dropWhile_cons_of_neg (by simpa using hu)]
    rw [hkeep, List.reverse_reverse]
  have hcreate : create 4 data = fromUtf16 ((codeUnits data).takeWhile (· ≠ 0)) :=
    if_neg (by simpa using h)
  rw [hcreate, fromUtf16, hstrip _ fun u hu => by simpa using List.mem_takeWhile_imp hu, decode]
  cases toBytes ((codeUnits data).takeWhile (· ≠ 0)) <;> rfl

end CommonPath

/-! ## Paths in a buffer -/

/-- A path as a command describes it, and the size of the static buffer it comes in. -/
structure PathArgument where
  type : BitVec 32
  size : Nat
  bufferSize : Nat

/-- The first bytes of a buffer with this byte at each offset. -/
def bytes (content : Nat → UInt8) (n : Nat) : Bytes := (List.range n).map content

variable {content content' : Nat → UInt8} {n m : Nat}

@[simp] theorem length_bytes : (bytes content n).length = n := by simp [bytes]

theorem bytes_congr (h : ∀ o < n, content' o = content o) : bytes content' n = bytes content n :=
  List.map_congr_left fun o ho => h o (List.mem_range.1 ho)

theorem bytes_add : bytes content (n + m) = bytes content n ++ bytes (fun o => content (n + o)) m := by
  simp only [bytes, List.range_add, List.map_append, List.map_map]
  rfl

/-- What the archives that are not behind PXI make of a path of the buffer's size. -/
def utf8Path (path : PathArgument) (content : Nat → UInt8) : Except PathError Bytes := do
  match ← CommonPath.create path.type (bytes content path.bufferSize) with
  | .utf8 path => pure path
  | .binary _ => throw (.runtimeError "Binary path handling for ArchiveNonPXI not implemented")

/-- The buffer ends with the declared bytes, or these hold the end of the path, or the path is not
taken whatever it is. -/
def Settled (path : PathArgument) (content : Nat → UInt8) : Prop :=
  path.bufferSize = path.size ∨
  match path.type.toNat with
  | 3 => ∃ o < path.size, content o = 0
  | 4 => path.bufferSize % 2 = 1 ∨
    CommonPath.scan (CommonPath.codeUnits (bytes content path.size)) = .ended
  | _ => True

variable {path : PathArgument}

theorem utf8Path_ascii (h : path.type.toNat = 3) :
    utf8Path path content = .ok ((bytes content path.bufferSize).takeWhile (· ≠ 0)) := by
  simp only [utf8Path, CommonPath.create, h]
  rfl

theorem utf8Path_utf16 (h : path.type.toNat = 4) (heven : path.bufferSize % 2 = 0) :
    utf8Path path content = CommonPath.decode (CommonPath.codeUnits (bytes content path.bufferSize)) := by
  have htype : path.type = 4 := BitVec.eq_of_toNat_eq h
  rw [utf8Path, htype, CommonPath.create_utf16 _ (by simpa using heven)]
  cases CommonPath.decode (CommonPath.codeUnits (bytes content path.bufferSize)) <;> rfl

theorem utf8Path_odd (h : path.type.toNat = 4) (hodd : path.bufferSize % 2 = 1) :
    utf8Path path content =
      .error (.runtimeError "Expected path size for UTF16 to be a multiple of 2") := by
  simp only [utf8Path, CommonPath.create, h, length_bytes, hodd]
  rfl

/-- Empty, binary and unknown paths do not depend on their bytes. -/
theorem utf8Path_other (h3 : path.type.toNat ≠ 3) (h4 : path.type.toNat ≠ 4) :
    utf8Path path content' = utf8Path path content := by
  unfold utf8Path CommonPath.create
  split
  · rfl
  · simp only [length_bytes]
    split <;> rfl
  next h => exact absurd h h3
  next h => exact absurd h h4
  · rfl

theorem utf8Path_eq_of_settled (hle : path.size ≤ path.bufferSize) (h : Settled path content)
    (hagree : ∀ o < path.size, content' o = content o) :
    utf8Path path content' = utf8Path path content := by
  have hbytes := bytes_congr hagree
  obtain ⟨m, hm⟩ := Nat.exists_eq_add_of_le hle
  rcases h with h | h
  · unfold utf8Path
    rw [h, hbytes]
  by_cases h3 : path.type.toNat = 3
  · simp only [h3] at h
    obtain ⟨o, ho, hzero⟩ := h
    have hcut (content : Nat → UInt8) (hzero : content o = 0) (more : Bytes) :
        (bytes content path.size ++ more).takeWhile (· ≠ 0) =
          (bytes content path.size).takeWhile (· ≠ 0) := by
      refine List.takeWhile_append.trans (if_neg fun hlen => ?_)
      have hall := List.takeWhile_eq_self_iff.1 ((List.takeWhile_prefix _).eq_of_length hlen)
      have := hall (content o) (List.mem_map.2 ⟨o, List.mem_range.2 ho, rfl⟩)
      simp [hzero] at this
    rw [utf8Path_ascii h3, utf8Path_ascii h3, hm, bytes_add, bytes_add,
      hcut _ ((hagree o ho).trans hzero), hcut _ hzero, hbytes]
  by_cases h4 : path.type.toNat = 4
  · simp only [h4] at h
    rcases h with hodd | hended
    · rw [utf8Path_odd h4 hodd, utf8Path_odd h4 hodd]
    · by_cases heven : path.bufferSize % 2 = 0
      · have hread (content : Nat → UInt8)
            (hended : CommonPath.scan (CommonPath.codeUnits (bytes content path.size)) = .ended) :
            utf8Path path content =
              CommonPath.decode (CommonPath.codeUnits (bytes content path.size)) := by
          obtain ⟨rest, hrest⟩ := CommonPath.codeUnits_initial (bytes content path.size)
            (bytes (fun o => content (path.size + o)) m)
          rw [utf8Path_utf16 h4 heven, hm, bytes_add, ← hrest, CommonPath.decode_ended hended]
        rw [hread _ hended, hread _ (hbytes ▸ hended), hbytes]
      · rw [utf8Path_odd h4 (by omega), utf8Path_odd h4 (by omega)]
  · exact utf8Path_other h3 h4

/-! ## Paths that go on behind their bytes -/

/-- The declared bytes, with others behind them. -/
def extend (content : Nat → UInt8) (n : Nat) (more : Nat → UInt8) (o : Nat) : UInt8 :=
  if o < n then content o else more (o - n)

theorem extend_agrees {more : Nat → UInt8} : ∀ o < n, extend content n more o = content o :=
  fun _ ho => if_pos ho

theorem bytes_extend {more : Nat → UInt8} :
    bytes (extend content n more) (n + m) = bytes content n ++ bytes more m := by
  rw [bytes_add, bytes_congr extend_agrees]
  congr 1
  refine bytes_congr fun o _ => ?_
  rw [extend, if_neg (by omega), Nat.add_sub_cancel_left]

/-- An ASCII path without an end is as long as its buffer, or ends where zeros follow. -/
theorem ascii_goes_on (hlt : path.size < path.bufferSize) (h3 : path.type.toNat = 3)
    (hnone : ∀ o < path.size, content o ≠ 0) : ∃ more more',
    utf8Path path (extend content path.size more) ≠ utf8Path path (extend content path.size more') := by
  obtain ⟨m, hm⟩ := Nat.exists_eq_add_of_lt hlt
  have hall : ∀ b ∈ bytes content path.size, decide (b ≠ 0) = true := by
    intro b hb
    obtain ⟨o, ho, rfl⟩ := List.mem_map.1 hb
    exact decide_eq_true (hnone o (List.mem_range.1 ho))
  refine ⟨fun _ => 0, fun _ => 1, fun heq => ?_⟩
  rw [utf8Path_ascii h3, utf8Path_ascii h3, hm, Nat.add_assoc, bytes_extend, bytes_extend,
    List.takeWhile_append_of_pos hall, List.takeWhile_append_of_pos hall] at heq
  have hlen := congrArg List.length (Except.ok.inj heq)
  simp [bytes, List.range_succ_eq_map] at hlen

/-- The bytes of one code unit with zeros behind them, where the first may be declared already. -/
def unit (n : Nat) (low high : UInt8) (o : Nat) : UInt8 :=
  if n % 2 = 0 then if o = 0 then low else if o = 1 then high else 0
  else if o = 0 then high else 0

theorem bytes_zero : bytes (fun _ => 0) m = List.replicate m 0 := by
  simp [bytes, List.map_const']

theorem codeUnits_extend (content : Nat → UInt8) (heven : (n + (m + 1)) % 2 = 0) :
    ∃ low : UInt8, ∀ high : UInt8, ∃ zeros,
    CommonPath.codeUnits (bytes (extend content n (unit n 0x61 high)) (n + (m + 1))) =
      CommonPath.codeUnits (bytes content n) ++
        (low.toNat ||| high.toNat <<< 8) :: CommonPath.codeUnits (List.replicate zeros 0) := by
  by_cases hn : n % 2 = 0
  · refine ⟨0x61, fun high => ⟨m - 1, ?_⟩⟩
    have hunit : bytes (unit n 0x61 high) (m + 1) = 0x61 :: high :: List.replicate (m - 1) 0 := by
      obtain ⟨j, hj⟩ : ∃ j, m + 1 = 2 + j := ⟨m - 1, by omega⟩
      have hj' : m - 1 = j := by omega
      rw [hj, bytes_add, hj', ← bytes_zero]
      have hrest : bytes (fun o => unit n 0x61 high (2 + o)) j = bytes (fun _ => 0) j := by
        refine bytes_congr fun o _ => ?_
        rw [unit, if_pos hn, if_neg (by omega), if_neg (by omega)]
      rw [hrest]
      simp [bytes, unit, hn, List.range_succ]
    rw [bytes_extend, CommonPath.codeUnits_append _ _ (by simpa using hn), hunit]
    rfl
  · obtain ⟨j, rfl⟩ : ∃ j, n = j + 1 := ⟨n - 1, by omega⟩
    have hj : (bytes content j).length % 2 = 0 := by
      rw [length_bytes]
      omega
    have hsplit : bytes content (j + 1) = bytes content j ++ [content j] := by
      rw [bytes_add]
      rfl
    refine ⟨content j, fun high => ⟨m, ?_⟩⟩
    have hunit : bytes (unit (j + 1) 0x61 high) (m + 1) = high :: List.replicate m 0 := by
      rw [Nat.add_comm m, bytes_add, ← bytes_zero]
      have hrest : bytes (fun o => unit (j + 1) 0x61 high (1 + o)) m = bytes (fun _ => 0) m := by
        refine bytes_congr fun o _ => ?_
        rw [unit, if_neg hn, if_neg (by omega)]
      rw [hrest]
      simp [bytes, unit, hn, List.range_succ]
    rw [bytes_extend, hsplit, List.append_assoc, CommonPath.codeUnits_append _ _ hj,
      CommonPath.codeUnits_concat hj, hunit]
    rfl

theorem unit_value (low high : UInt8) :
    low.toNat ||| high.toNat <<< 8 = high.toNat * 256 + low.toNat := by
  rw [Nat.or_comm, ← Nat.shiftLeft_add_eq_or_of_lt low.toNat_lt, Nat.shiftLeft_eq]

theorem decode_small {v : Nat} (hv : v < 256) (zeros : Nat) :
    (CommonPath.decode (v :: CommonPath.codeUnits (List.replicate zeros 0))).isOk = true := by
  by_cases h0 : v = 0
  · subst h0
    rfl
  · rw [CommonPath.decode_plain h0 (by omega), CommonPath.isOk_bind_pure, CommonPath.decode_zeros]
    rfl

theorem decode_half {v : Nat} (hv : 0xd800 ≤ v ∧ v < 0xe000) : ∀ zeros,
    CommonPath.decode (v :: CommonPath.codeUnits (List.replicate zeros 0)) = .error .rangeError
  | 0 => CommonPath.decode_lone hv
  | 1 => CommonPath.decode_lone hv
  | _ + 2 => CommonPath.decode_cut hv

/-- UTF-16 text without an end can be made well-formed and ill-formed by what follows it. -/
theorem utf16_goes_on (hlt : path.size < path.bufferSize) (h4 : path.type.toNat = 4)
    (heven : path.bufferSize % 2 = 0)
    (hopen : CommonPath.scan (CommonPath.codeUnits (bytes content path.size)) ≠ .ended) :
    ∃ more more',
    utf8Path path (extend content path.size more) ≠ utf8Path path (extend content path.size more') := by
  obtain ⟨m, hm⟩ := Nat.exists_eq_add_of_lt hlt
  have hm : path.bufferSize = path.size + (m + 1) := by omega
  obtain ⟨low, hunits⟩ := codeUnits_extend content (hm ▸ heven)
  have hread (high : UInt8) : ∃ zeros, utf8Path path (extend content path.size (unit path.size 0x61
      high)) = CommonPath.decode (CommonPath.codeUnits (bytes content path.size) ++
        (high.toNat * 256 + low.toNat) :: CommonPath.codeUnits (List.replicate zeros 0)) := by
    obtain ⟨zeros, hz⟩ := hunits high
    exact ⟨zeros, by rw [utf8Path_utf16 h4 heven, hm, hz, unit_value]⟩
  have hlow := low.toNat_lt
  have differ (high high' : UInt8)
      (hok : (utf8Path path (extend content path.size (unit path.size 0x61 high))).isOk = true)
      (hbad : (utf8Path path (extend content path.size (unit path.size 0x61 high'))).isOk = false) :
      ∃ more more', utf8Path path (extend content path.size more) ≠
        utf8Path path (extend content path.size more') := by
    refine ⟨unit path.size 0x61 high, unit path.size 0x61 high', fun heq => ?_⟩
    rw [heq, hbad] at hok
    cases hok
  cases hscan : CommonPath.scan (CommonPath.codeUnits (bytes content path.size)) with
  | ended => exact absurd hscan hopen
  | unfinished pending =>
    cases pending with
    | false =>
      obtain ⟨zeros, hz⟩ := hread 0
      obtain ⟨zeros', hz'⟩ := hread 0xd8
      refine differ 0 0xd8 ?_ ?_
      · rw [hz, CommonPath.decode_unfinished hscan]
        exact decode_small (by simpa using hlow) _
      · have hhalf : (0xd8 : UInt8).toNat = 0xd8 := rfl
        rw [hz', CommonPath.decode_unfinished hscan, hhalf, decode_half (by omega)]
        rfl
    | true =>
      obtain ⟨zeros, hz⟩ := hread 0xdc
      obtain ⟨zeros', hz'⟩ := hread 0
      have hhalf : (0xdc : UInt8).toNat = 0xdc := rfl
      have hzero : (0 : UInt8).toNat = 0 := rfl
      refine differ 0xdc 0 ?_ ?_
      · rw [hz, CommonPath.decode_pending hscan, hhalf, CommonPath.decode_zeros,
          decide_eq_true (by omega)]
        rfl
      · rw [hz', CommonPath.decode_pending hscan, hzero, decide_eq_false (by omega),
          Bool.false_and]

/-- **A path is settled** exactly if nothing behind its declared bytes changes it. -/
theorem utf8Path_settled (hle : path.size ≤ path.bufferSize) : Settled path content ↔
    ∀ content', (∀ o < path.size, content' o = content o) →
      utf8Path path content' = utf8Path path content := by
  refine ⟨fun h content' => utf8Path_eq_of_settled hle h, fun h => ?_⟩
  by_contra hopen
  have hlt : path.size < path.bufferSize :=
    Nat.lt_of_le_of_ne hle fun he => hopen (.inl he.symm)
  have hmore : ∃ more more', utf8Path path (extend content path.size more) ≠
      utf8Path path (extend content path.size more') := by
    by_cases h3 : path.type.toNat = 3
    · refine ascii_goes_on hlt h3 fun o ho hzero => hopen (.inr ?_)
      simp only [h3]
      exact ⟨o, ho, hzero⟩
    by_cases h4 : path.type.toNat = 4
    · refine utf16_goes_on hlt h4 ?_ fun hended => hopen (.inr ?_)
      · by_contra hodd
        refine hopen (.inr ?_)
        simp only [h4]
        exact .inl (by omega)
      · simp only [h4]
        exact .inr hended
    · refine absurd (.inr ?_) hopen
      split
      · exact absurd ‹_› h3
      · exact absurd ‹_› h4
      · trivial
  obtain ⟨more, more', hne⟩ := hmore
  exact hne ((h _ extend_agrees).trans (h _ extend_agrees).symm)

end Mikage.FS
