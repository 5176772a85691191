import Mikage.Video.CommandList

/-!
# Data registers

A few registers take in more data than a word: each write to one of them hands over the next word
for a table or a vector. The command processor pulls the words that follow out of the list in one
go. `bulkStep` is what it does, `singleStep` what single writes would do, with the words of a vector
that is not complete kept until the rest of them comes.

`bulk_exact` says where both do the same: every vector has to be written without anything in between.
-/

namespace Mikage.Pica.DataSinks

/-- The state that the data registers write to; `F` is `float24` and `rest` everything else. -/
structure Context (F R : Type) where
  registers : Word → Word
  uniforms : ℕ → F × F × F × F
  attributes : ℕ → F × F × F × F
  lightLutData : ℕ → ℕ → Word
  rest : R

/-- The conversions, and what the other commands do to the context and the rest of the list: they
include the vertices of immediate mode and the jumps to other lists. -/
structure Env (F R : Type) where
  fromRawFloat : Word → F
  fromFloat32 : Word → F
  other : Context F R → Command → List Command → Except Exception (Context F R × List Command)

variable {F R : Type}

/-! ## The registers -/

def fullMask : Word := 0xffffffff

def isLutData (id : Word) : Bool := decide (0x1c8 ≤ id ∧ id ≤ 0x1cf)
def isAttributeData (id : Word) : Bool := decide (0x233 ≤ id ∧ id ≤ 0x235)
def isUniformData (id : Word) : Bool := decide (0x2c1 ≤ id ∧ id ≤ 0x2c8)

namespace Context

variable (ctx : Context F R)

/-- `lighting.lut_write_index`. -/
def lutEntry : ℕ := (ctx.registers 0x1c5 &&& 0xff).toNat
def lutSelector : ℕ := (ctx.registers 0x1c5 >>> 8 &&& 0x1f).toNat

/-- `fixed_vertex_attribute_sink.index`. -/
def sinkIndex : ℕ := (ctx.registers 0x232).toNat
def isImmediateSubmission : Prop := ctx.registers 0x232 = 0xf

instance : Decidable ctx.isImmediateSubmission := inferInstanceAs (Decidable (_ = _))

/-- `vs_uniform_setup`. -/
def uniformIndex : ℕ := (ctx.registers 0x2c0 &&& 0x7f).toNat
def isFloat32 : Bool := (ctx.registers 0x2c0).getLsbD 31

def setRegister (id value : Word) : Context F R :=
  { ctx with registers := Function.update ctx.registers id value }

end Context

/-! ## What the words are for -/

/-- Four 24-bit numbers in three words. -/
def unpack (env : Env F R) (words : List Word) : F × F × F × F :=
  let word (i : ℕ) := words.getD i 0
  (env.fromRawFloat (word 2 &&& 0xffffff),
    env.fromRawFloat ((word 1 &&& 0xffff) <<< 8 ||| (word 2 >>> 24 &&& 0xff)),
    env.fromRawFloat ((word 0 &&& 0xff) <<< 16 ||| (word 1 >>> 16 &&& 0xffff)),
    env.fromRawFloat (word 0 >>> 8))

/-- How many words a uniform has. -/
def uniformWords (ctx : Context F R) : ℕ := if ctx.isFloat32 then 4 else 3

/-- A uniform from its words. Nothing is written, and the index stays, where it is too large. -/
def setUniform (env : Env F R) (ctx : Context F R) (words : List Word) : Context F R :=
  if 95 < ctx.uniformIndex then ctx
  else
    let value :=
      if ctx.isFloat32 then
        (env.fromFloat32 (words.getD 3 0), env.fromFloat32 (words.getD 2 0),
          env.fromFloat32 (words.getD 1 0), env.fromFloat32 (words.getD 0 0))
      else unpack env words
    let setup := (ctx.registers 0x2c0 &&& ~~~0x7f) ||| (ctx.registers 0x2c0 + 1 &&& 0x7f)
    { ctx.setRegister 0x2c0 setup with
      uniforms := Function.update ctx.uniforms ctx.uniformIndex value }

/-- A fixed attribute from its three words. -/
def setAttribute (env : Env F R) (ctx : Context F R) (words : List Word) : Context F R :=
  { ctx.setRegister 0x232 (ctx.registers 0x232 + 1) with
    attributes := Function.update ctx.attributes ctx.sinkIndex (unpack env words) }

/-- An entry of the table that was selected. -/
def setLutEntry (selector : ℕ) (ctx : Context F R) (value : Word) : Context F R :=
  let index := (ctx.registers 0x1c5 &&& ~~~0xff) ||| BitVec.ofNat 32 ((ctx.lutEntry + 1) % 256)
  { ctx.setRegister 0x1c5 index with
    lightLutData := Function.update ctx.lightLutData selector
      (Function.update (ctx.lightLutData selector) ctx.lutEntry value) }

/-! ## The code -/

/-- `next_command.Id()`. -/
def nextId : List Command → Word
  | [] => 0xffffffff
  | c :: _ => c.id

/-- `next_command.Value()`, which stays what it was at the end of the list. -/
def nextValue (last : Word) : List Command → Word
  | [] => last
  | c :: _ => c.value

/-- A loop that pulls words out of the list, unless the next command makes it stop. -/
def pull (stop : Word → Bool) (message : String) :
    ℕ → Word → List Command → Except Exception (List Word × List Command)
  | 0, _, rest => .ok ([], rest)
  | n + 1, last, rest =>
    if stop (nextId rest) then .error (.runtimeError message)
    else do
      let (words, rest') ← pull stop message n (nextValue last rest) rest.tail
      .ok (nextValue last rest :: words, rest')

/-- The check of the uniform upload, as it stands. -/
def stopsUniform (id : Word) : Bool := decide (id < 0x2c1 ∧ 0x2c8 < id)

/-- The loop over the entries of a table. -/
def lutLoop (selector : ℕ) (ctx : Context F R) (value : Word) :
    List Command → Except Exception (Context F R × List Command)
  | [] =>
    if 256 ≤ ctx.lutEntry then .error (.invalid "Tried writing outside of light LUT bounds")
    else .ok (setLutEntry selector ctx value, [])
  | c :: rest =>
    if 256 ≤ ctx.lutEntry then .error (.invalid "Tried writing outside of light LUT bounds")
    else if isLutData c.id ∧ c.mask = fullMask then
      lutLoop selector (setLutEntry selector ctx value) c.value rest
    else .ok (setLutEntry selector ctx value, c :: rest)

/-- `WritePicaReg`. The values that the data registers themselves keep are not part of the context:
nothing reads them. -/
def bulkStep (env : Env F R) (ctx : Context F R) (c : Command) (rest : List Command) :
    Except Exception (Context F R × List Command) :=
  if isLutData c.id then
    if 24 ≤ ctx.lutSelector then .error (.invalid "Tried writing to invalid LUT")
    else lutLoop ctx.lutSelector ctx c.value rest
  else if isAttributeData c.id ∧ ¬ ctx.isImmediateSubmission then
    if c.mask ≠ fullMask then .error (.runtimeError "Tried to submit vertex attributes with mask")
    else if 12 ≤ ctx.sinkIndex then
      .error (.runtimeError "Invalid index for fixed vertex attribute")
    else do
      let (words, rest') ←
        pull (fun id => !isAttributeData id) "Expected full vertex attribute" 2 c.value rest
      .ok (setAttribute env ctx (c.value :: words), rest')
  else if isUniformData c.id then
    if c.mask ≠ fullMask then .error (.runtimeError "Tried to overwrite uniforms with mask")
    else do
      let (words, rest') ←
        pull stopsUniform "Unexpected partial uniform update" (uniformWords ctx - 1) c.value rest
      .ok (setUniform env ctx (c.value :: words), rest')
  else env.other ctx c rest

/-! ## One write at a time -/

/-- The context, with the words of a uniform and an attribute that are not complete. -/
structure Single (F R : Type) where
  context : Context F R
  uniformWords : List Word
  attributeWords : List Word

/-- The effect of a single write. -/
def singleStep (env : Env F R) (s : Single F R) (c : Command) (rest : List Command) :
    Except Exception (Single F R × List Command) :=
  if isLutData c.id then
    if 24 ≤ s.context.lutSelector then .error (.invalid "Tried writing to invalid LUT")
    else .ok ({ s with context := setLutEntry s.context.lutSelector s.context c.value }, rest)
  else if isAttributeData c.id ∧ ¬ s.context.isImmediateSubmission then
    if c.mask ≠ fullMask then .error (.runtimeError "Tried to submit vertex attributes with mask")
    else if 12 ≤ s.context.sinkIndex then
      .error (.runtimeError "Invalid index for fixed vertex attribute")
    else
      let words := s.attributeWords ++ [c.value]
      if words.length = 3 then
        .ok (⟨setAttribute env s.context words, s.uniformWords, []⟩, rest)
      else .ok ({ s with attributeWords := words }, rest)
  else if isUniformData c.id then
    if c.mask ≠ fullMask then .error (.runtimeError "Tried to overwrite uniforms with mask")
    else
      let words := s.uniformWords ++ [c.value]
      if words.length = uniformWords s.context then
        .ok (⟨setUniform env s.context words, [], s.attributeWords⟩, rest)
      else .ok ({ s with uniformWords := words }, rest)
  else do
    let (context, rest') ← env.other s.context c rest
    .ok ({ s with context }, rest')

/-! ## Runs -/

/-- The runs of a step function over a list, with steps that are allowed only. A run can be stopped
anywhere; its result is the state it is in then and what is left of the list. -/
inductive Runs {σ : Type}
    (step : σ → Command → List Command → Except Exception (σ × List Command))
    (allowed : σ → Command → List Command → Prop) :
    σ → List Command → Except Exception (σ × List Command) → Prop where
  | stopped {s : σ} {l : List Command} : Runs step allowed s l (.ok (s, l))
  | failed {s : σ} {c : Command} {rest : List Command} {e : Exception} (ha : allowed s c rest)
      (h : step s c rest = .error e) : Runs step allowed s (c :: rest) (.error e)
  | next {s s' : σ} {c : Command} {rest rest' : List Command}
      {r : Except Exception (σ × List Command)} (ha : allowed s c rest)
      (h : step s c rest = .ok (s', rest')) (hrun : Runs step allowed s' rest' r) :
      Runs step allowed s (c :: rest) r

/-- The commands that start the list are `n` full writes of this kind. -/
def Followed (isData : Word → Bool) (n : ℕ) (rest : List Command) : Prop :=
  n ≤ rest.length ∧ ∀ c ∈ rest.take n, isData c.id = true ∧ c.mask = fullMask

/-- The words of a vector follow its first. -/
def Complete (ctx : Context F R) (c : Command) (rest : List Command) : Prop :=
  (isUniformData c.id = true → Followed isUniformData (uniformWords ctx - 1) rest) ∧
    (isAttributeData c.id = true → ¬ ctx.isImmediateSubmission → Followed isAttributeData 2 rest)

/-- The same outcome at the same place, with no words left over. -/
def Same : Except Exception (Context F R × List Command) →
    Except Exception (Single F R × List Command) → Prop
  | .ok (ctx, l), .ok (s, l') => s = ⟨ctx, [], []⟩ ∧ l = l'
  | .error e, .error e' => e = e'
  | _, _ => False

/-! ## Tables -/

section Tables

variable {env : Env F R} {ctx ctx' : Context F R} {c : Command} {rest rest' : List Command}
  {u a : List Word} {r : Except Exception (Single F R × List Command)} {selector : ℕ}

/-- Every step is allowed. -/
def All (_ : Single F R) (_ : Command) (_ : List Command) : Prop := True

theorem lutEntry_lt (ctx : Context F R) : ctx.lutEntry < 256 := by
  rw [Context.lutEntry, BitVec.toNat_and]
  exact Nat.lt_of_le_of_lt Nat.and_le_right (by decide)

/-- Entries come one after the other in the same table. -/
theorem lutSelector_setLutEntry (selector : ℕ) (ctx : Context F R) (value : Word) :
    (setLutEntry selector ctx value).lutSelector = ctx.lutSelector := by
  have hregister : (setLutEntry selector ctx value).registers 0x1c5 =
      (ctx.registers 0x1c5 &&& ~~~0xff) ||| BitVec.ofNat 32 ((ctx.lutEntry + 1) % 256) := by
    simp [setLutEntry, Context.setRegister]
  rw [Context.lutSelector, Context.lutSelector, hregister]
  generalize ctx.registers 0x1c5 = x
  generalize hy : BitVec.ofNat 32 ((ctx.lutEntry + 1) % 256) = y
  have hlt : y.toNat < 2 ^ 8 := by
    rw [← hy, BitVec.toNat_ofNat]
    omega
  have hhigh : y >>> 8 = 0#32 := by
    apply BitVec.eq_of_toNat_eq
    rw [BitVec.toNat_ushiftRight, Nat.shiftRight_eq_div_pow, Nat.div_eq_of_lt hlt]
    rfl
  have hmask : (~~~0xff : Word) >>> 8 = 0xffffff := by decide
  rw [BitVec.ushiftRight_or_distrib, BitVec.ushiftRight_and_distrib, hhigh, hmask,
    BitVec.or_zero, BitVec.and_assoc]
  rfl

theorem lutLoop_ok (selector : ℕ) (ctx : Context F R) (value : Word) (rest : List Command) :
    ∃ ctx' rest', lutLoop selector ctx value rest = .ok (ctx', rest') := by
  induction rest generalizing ctx value with
  | nil => exact ⟨_, _, if_neg (not_le.2 (lutEntry_lt ctx))⟩
  | cons c rest ih =>
    rw [lutLoop, if_neg (not_le.2 (lutEntry_lt ctx))]
    split
    · exact ih _ _
    · exact ⟨_, _, rfl⟩

theorem singleStep_lut {s : Single F R} (hc : isLutData c.id = true)
    (hs : s.context.lutSelector < 24) : singleStep env s c rest =
      .ok ({ s with context := setLutEntry s.context.lutSelector s.context c.value }, rest) := by
  rw [singleStep, if_pos hc, if_neg (not_le.2 hs)]

/-- The loop over the entries is the single writes of them. -/
theorem lut_runs (hselector : ctx.lutSelector = selector) (hlt : selector < 24)
    (hc : isLutData c.id = true) (h : lutLoop selector ctx c.value rest = .ok (ctx', rest'))
    (hrun : Runs (singleStep env) All ⟨ctx', u, a⟩ rest' r) :
    Runs (singleStep env) All ⟨ctx, u, a⟩ (c :: rest) r := by
  induction rest generalizing ctx c with
  | nil =>
    rw [lutLoop, if_neg (not_le.2 (lutEntry_lt ctx))] at h
    cases h
    subst hselector
    exact .next trivial (singleStep_lut hc hlt) hrun
  | cons c' rest ih =>
    rw [lutLoop, if_neg (not_le.2 (lutEntry_lt ctx))] at h
    split at h
    next hc' =>
      have hnext := ih (by rw [lutSelector_setLutEntry, hselector]) hc'.1 h
      subst hselector
      exact .next trivial (singleStep_lut hc hlt) hnext
    next =>
      cases h
      subst hselector
      exact .next trivial (singleStep_lut hc hlt) hrun

end Tables

/-! ## Vectors -/

section Vectors

variable {env : Env F R} {ctx : Context F R} {c : Command} {rest : List Command} {a u : List Word}
  {r : Except Exception (Single F R × List Command)} {n : ℕ} {stop isData : Word → Bool}

/-- What the loops pull, where no command makes them stop. -/
theorem pull_eq (message : String) (last : Word) (hn : n ≤ rest.length)
    (hstop : ∀ c ∈ rest.take n, stop c.id = false) : pull stop message n last rest =
      .ok ((rest.take n).map Command.value, rest.drop n) := by
  induction n generalizing last rest with
  | zero => simp [pull]
  | succ n ih =>
    cases rest with
    | nil => simp at hn
    | cons c rest =>
      rw [List.take_succ_cons, List.forall_mem_cons] at hstop
      rw [List.length_cons] at hn
      have hrest : pull stop message n c.value rest = _ := ih c.value (by omega) hstop.2
      have hhead : ¬ stop (nextId (c :: rest)) = true := by
        rw [nextId, hstop.1]
        simp
      rw [pull, if_neg hhead, nextValue, List.tail_cons, hrest]
      rfl

/-- The words of a vector, written one at a time. -/
theorem words_runs (isData : Word → Bool) (n : ℕ) (pending done : List Word → Single F R)
    (hmore : ∀ p c rest, isData c.id = true ∧ c.mask = fullMask → p.length + 1 ≠ n →
      singleStep env (pending p) c rest = .ok (pending (p ++ [c.value]), rest))
    (hlast : ∀ p c rest, isData c.id = true ∧ c.mask = fullMask → p.length + 1 = n →
      singleStep env (pending p) c rest = .ok (done (p ++ [c.value]), rest))
    {ws : List Command} {p : List Word} (hlength : p.length + ws.length + 1 = n)
    (hc : isData c.id = true ∧ c.mask = fullMask)
    (hws : ∀ c ∈ ws, isData c.id = true ∧ c.mask = fullMask)
    (hrun : Runs (singleStep env) All (done (p ++ c.value :: ws.map Command.value)) rest r) :
    Runs (singleStep env) All (pending p) (c :: (ws ++ rest)) r := by
  induction ws generalizing p c with
  | nil =>
    refine .next trivial (hlast p c rest hc ?_) hrun
    simpa using hlength
  | cons c' ws ih =>
    rw [List.forall_mem_cons] at hws
    rw [List.length_cons] at hlength
    refine .next trivial (hmore p c _ hc (by omega)) (ih ?_ hws.1 hws.2 ?_)
    · rw [List.length_append, List.length_singleton]
      omega
    · rw [List.append_assoc]
      exact hrun

/-- The check never makes the loop stop: no number is below the first and above the last. -/
theorem stopsUniform_eq (id : Word) : stopsUniform id = false := by
  simp only [stopsUniform, decide_eq_false_iff_not, BitVec.lt_def, BitVec.reduceToNat]
  omega

theorem not_isLutData_uniform {id : Word} (h : isUniformData id = true) :
    isLutData id = false ∧ isAttributeData id = false := by
  simp only [isUniformData, isLutData, isAttributeData, decide_eq_true_eq, decide_eq_false_iff_not,
    BitVec.le_def] at *
  simp only [BitVec.reduceToNat] at *
  omega

theorem not_isLutData_attribute {id : Word} (h : isAttributeData id = true) :
    isLutData id = false := by
  simp only [isLutData, isAttributeData, decide_eq_true_eq, decide_eq_false_iff_not,
    BitVec.le_def] at *
  simp only [BitVec.reduceToNat] at *
  omega

theorem uniform_runs {ws : List Command} (hlength : ws.length + 1 = uniformWords ctx)
    (hc : isUniformData c.id = true ∧ c.mask = fullMask)
    (hws : ∀ c ∈ ws, isUniformData c.id = true ∧ c.mask = fullMask)
    (hrun : Runs (singleStep env) All
      ⟨setUniform env ctx (c.value :: ws.map Command.value), [], a⟩ rest r) :
    Runs (singleStep env) All ⟨ctx, [], a⟩ (c :: (ws ++ rest)) r := by
  have hstep (p : List Word) (c : Command) (rest : List Command)
      (h : isUniformData c.id = true ∧ c.mask = fullMask) :
      singleStep env ⟨ctx, p, a⟩ c rest =
        if (p ++ [c.value]).length = uniformWords ctx then
          .ok (⟨setUniform env ctx (p ++ [c.value]), [], a⟩, rest)
        else .ok (⟨ctx, p ++ [c.value], a⟩, rest) := by
    obtain ⟨hlut, hattribute⟩ := not_isLutData_uniform h.1
    rw [singleStep, hlut, if_neg (by simp), hattribute, if_neg (by simp), if_pos h.1,
      if_neg (not_not.2 h.2)]
  refine words_runs isUniformData (uniformWords ctx) (fun p => ⟨ctx, p, a⟩)
    (fun p => ⟨setUniform env ctx p, [], a⟩) ?_ ?_ (by simpa using hlength) hc hws hrun
  · intro p c rest h hne
    rw [hstep p c rest h, if_neg (by simpa using hne)]
  · intro p c rest h heq
    rw [hstep p c rest h, if_pos (by simpa using heq)]

theorem attribute_runs {ws : List Command} (hlength : ws.length = 2)
    (himmediate : ¬ ctx.isImmediateSubmission) (hindex : ctx.sinkIndex < 12)
    (hc : isAttributeData c.id = true ∧ c.mask = fullMask)
    (hws : ∀ c ∈ ws, isAttributeData c.id = true ∧ c.mask = fullMask)
    (hrun : Runs (singleStep env) All
      ⟨setAttribute env ctx (c.value :: ws.map Command.value), u, []⟩ rest r) :
    Runs (singleStep env) All ⟨ctx, u, []⟩ (c :: (ws ++ rest)) r := by
  have hstep (p : List Word) (c : Command) (rest : List Command)
      (h : isAttributeData c.id = true ∧ c.mask = fullMask) :
      singleStep env ⟨ctx, u, p⟩ c rest =
        if (p ++ [c.value]).length = 3 then
          .ok (⟨setAttribute env ctx (p ++ [c.value]), u, []⟩, rest)
        else .ok (⟨ctx, u, p ++ [c.value]⟩, rest) := by
    rw [singleStep, not_isLutData_attribute h.1, if_neg (by simp), if_pos ⟨h.1, himmediate⟩,
      if_neg (not_not.2 h.2), if_neg (not_le.2 hindex)]
  refine words_runs isAttributeData 3 (fun p => ⟨ctx, u, p⟩)
    (fun p => ⟨setAttribute env ctx p, u, []⟩) ?_ ?_ (by simpa using hlength) hc hws hrun
  · intro p c rest h hne
    rw [hstep p c rest h, if_neg (by simpa using hne)]
  · intro p c rest h heq
    rw [hstep p c rest h, if_pos (by simpa using heq)]

end Vectors

/-! ## Lists -/

section Lists

variable {env : Env F R} {ctx ctx' : Context F R} {c : Command} {l rest rest' : List Command}
  {r : Except Exception (Context F R × List Command)}

theorem Followed.split {isData : Word → Bool} {n : ℕ} (h : Followed isData n rest) :
    rest.take n ++ rest.drop n = rest ∧ (rest.take n).length = n :=
  ⟨List.take_append_drop n rest, List.length_take_of_le h.1⟩

/-- What the code does and what single writes do from the same place on: they get to the same place,
or throw the same exception. -/
def Matches (env : Env F R) (ctx : Context F R) (l : List Command) :
    Except Exception (Context F R × List Command) → Prop
  | .ok (ctx', rest') => ∀ r, Runs (singleStep env) All ⟨ctx', [], []⟩ rest' r →
    Runs (singleStep env) All ⟨ctx, [], []⟩ l r
  | .error e => Runs (singleStep env) All ⟨ctx, [], []⟩ l (.error e)

theorem attribute_matches (hc : isAttributeData c.id = true)
    (himmediate : ¬ ctx.isImmediateSubmission) (hfollowed : Followed isAttributeData 2 rest) :
    Matches env ctx (c :: rest) (bulkStep env ctx c rest) := by
  have hlut := not_isLutData_attribute hc
  rw [bulkStep, hlut, if_neg (by simp), if_pos ⟨hc, himmediate⟩]
  split
  next hmask =>
    refine .failed trivial ?_
    rw [singleStep, hlut, if_neg (by simp), if_pos ⟨hc, himmediate⟩, if_pos hmask]
  next hmask =>
  split
  next hindex =>
    refine .failed trivial ?_
    rw [singleStep, hlut, if_neg (by simp), if_pos ⟨hc, himmediate⟩, if_neg hmask, if_pos hindex]
  next hindex =>
    rw [pull_eq _ _ hfollowed.1 fun c hc => by rw [(hfollowed.2 c hc).1]; rfl]
    intro r hrun
    obtain ⟨hsplit, hlength⟩ := hfollowed.split
    have hruns := attribute_runs hlength himmediate (not_le.1 hindex) ⟨hc, not_not.1 hmask⟩
      hfollowed.2 hrun
    rwa [hsplit] at hruns

theorem uniform_matches (hc : isUniformData c.id = true)
    (hfollowed : Followed isUniformData (uniformWords ctx - 1) rest) :
    Matches env ctx (c :: rest) (bulkStep env ctx c rest) := by
  obtain ⟨hlut, hattribute⟩ := not_isLutData_uniform hc
  rw [bulkStep, hlut, if_neg (by simp), hattribute, if_neg (by simp), if_pos hc]
  split
  next hmask =>
    refine .failed trivial ?_
    rw [singleStep, hlut, if_neg (by simp), hattribute, if_neg (by simp), if_pos hc, if_pos hmask]
  next hmask =>
    rw [pull_eq _ _ hfollowed.1 fun c _ => stopsUniform_eq c.id]
    intro r hrun
    obtain ⟨hsplit, hlength⟩ := hfollowed.split
    have hwords : (rest.take (uniformWords ctx - 1)).length + 1 = uniformWords ctx := by
      rw [hlength, uniformWords]
      split <;> rfl
    have hruns := uniform_runs hwords ⟨hc, not_not.1 hmask⟩ hfollowed.2 hrun
    rwa [hsplit] at hruns

theorem lut_matches (hc : isLutData c.id = true) :
    Matches env ctx (c :: rest) (bulkStep env ctx c rest) := by
  rw [bulkStep, if_pos hc]
  split
  next hselector =>
    refine .failed trivial ?_
    rw [singleStep, if_pos hc, if_pos hselector]
  next hselector =>
    obtain ⟨ctx', rest', heq⟩ := lutLoop_ok ctx.lutSelector ctx c.value rest
    rw [heq]
    exact fun r hrun => lut_runs rfl (not_le.1 hselector) hc heq hrun

/-- One step of the code. -/
theorem step_matches (hcomplete : Complete ctx c rest) :
    Matches env ctx (c :: rest) (bulkStep env ctx c rest) := by
  by_cases hlut : isLutData c.id = true
  · exact lut_matches hlut
  by_cases hattribute : isAttributeData c.id = true ∧ ¬ ctx.isImmediateSubmission
  · exact attribute_matches hattribute.1 hattribute.2 (hcomplete.2 hattribute.1 hattribute.2)
  by_cases huniform : isUniformData c.id = true
  · exact uniform_matches huniform (hcomplete.1 huniform)
  have hsingle : singleStep env ⟨ctx, [], []⟩ c rest =
      (env.other ctx c rest).map fun r => (⟨r.1, [], []⟩, r.2) := by
    rw [singleStep, if_neg hlut, if_neg hattribute, if_neg huniform]
    cases env.other ctx c rest <;> rfl
  rw [bulkStep, if_neg hlut, if_neg hattribute, if_neg huniform]
  cases hother : env.other ctx c rest with
  | error e =>
    rw [hother] at hsingle
    exact .failed trivial hsingle
  | ok r =>
    rw [hother] at hsingle
    exact fun _ hrun => .next trivial hsingle hrun

/-- **Data registers.** Wherever a run over a list whose vectors are complete gets to, the single
writes get there. -/
theorem bulk_exact (h : Runs (bulkStep env) Complete ctx l r) :
    ∃ r', Runs (singleStep env) All ⟨ctx, [], []⟩ l r' ∧ Same r r' := by
  induction h with
  | stopped => exact ⟨_, .stopped, rfl, rfl⟩
  | failed hcomplete hstep =>
    have hmatches : Matches env _ _ (bulkStep env _ _ _) := step_matches hcomplete
    rw [hstep] at hmatches
    exact ⟨_, hmatches, rfl⟩
  | next hcomplete hstep _ ih =>
    have hmatches : Matches env _ _ (bulkStep env _ _ _) := step_matches hcomplete
    rw [hstep] at hmatches
    obtain ⟨r', hrun, hsame⟩ := ih
    exact ⟨r', hmatches r' hrun, hsame⟩

/-! A list without other effects than on registers. -/

def plainEnv : Env Word Unit where
  fromRawFloat := id
  fromFloat32 := id
  other ctx c rest :=
    .ok (ctx.setRegister c.id ((ctx.registers c.id &&& ~~~c.mask) ||| (c.value &&& c.mask)), rest)

def cleared : Context Word Unit :=
  ⟨fun _ => 0, fun _ => (0, 0, 0, 0), fun _ => (0, 0, 0, 0), fun _ _ => 0, ()⟩

theorem bulk_exact_upload : ∃ ctx' r', Runs (singleStep plainEnv) All ⟨cleared, [], []⟩
    [⟨0x2c1, 1, fullMask⟩, ⟨0x2c2, 2, fullMask⟩, ⟨0x2c3, 3, fullMask⟩, ⟨0x40, 5, fullMask⟩] r' ∧
      Same (.ok (ctx', [])) r' := by
  refine ⟨_, bulk_exact (.next ⟨fun _ => ⟨by decide, by decide⟩, nofun⟩ rfl
    (.next ⟨nofun, nofun⟩ rfl .stopped))⟩

/-- A run that goes on takes the step. -/
theorem Runs.step {σ : Type}
    {step : σ → Command → List Command → Except Exception (σ × List Command)}
    {allowed : σ → Command → List Command → Prop} {s s' : σ} {rest rest' : List Command}
    {c : Command} {r : Except Exception (σ × List Command)}
    (h : Runs step allowed s (c :: rest) r) (hstep : step s c rest = .ok (s', rest')) :
    r = .ok (s, c :: rest) ∨ Runs step allowed s' rest' r := by
  cases h with
  | stopped => exact .inl rfl
  | failed ha h => rw [hstep] at h; cases h
  | next ha h hrun =>
    rw [hstep] at h
    cases h
    exact .inr hrun

/-- A write between the words of a uniform is taken for one of them. -/
theorem write_swallowed : ¬ ∀ l r, Runs (bulkStep plainEnv) (fun _ _ _ => True) cleared l r →
    ∃ r', Runs (singleStep plainEnv) All ⟨cleared, [], []⟩ l r' ∧ Same r r' := by
  intro h
  obtain ⟨r', hrun, hsame⟩ := h
    [⟨0x2c1, 1, fullMask⟩, ⟨0x40, 5, fullMask⟩, ⟨0x2c2, 2, fullMask⟩] _
    (.next trivial rfl .stopped)
  obtain rfl | hrun := hrun.step rfl
  · cases hsame.2
  obtain rfl | hrun := hrun.step rfl
  · cases hsame.2
  obtain rfl | hrun := hrun.step rfl
  · cases hsame.2
  cases hrun
  cases congrArg Single.uniformWords hsame.1

end Lists

end Mikage.Pica.DataSinks
