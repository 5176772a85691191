import Mikage.Video.CombinerStages

/-!
# The combiners of the two renderers

The recurrence through the six stages. The emitted code clamps the sum of two alphas times a third
after the division by 255 and the software rasterizer before it, which makes a difference from
`2 * 255` on. Otherwise both have the same state after every stage.
-/

namespace Mikage.Pica.TextureEnv

open VectorCode

/-! ## Where the two part -/

section Divergence

variable {registers : Registers} {inputs : FragmentInputs} {rest : ShaderStore} {index : Fin 6}
  {s : CombinerState ℕ} {indices : List (Fin 6)}

theorem clamped_eq_iff {p m : ℕ} (hm : 1 ≤ m ∧ m ≤ 4) :
    min 255 (min 255 p / 255 * m) = min 255 (min 255 (p / 255) * m) ↔ p < 510 := by
  obtain hp | hp := lt_or_ge p 510
  · have hq : min 255 p / 255 = min 255 (p / 255) := by omega
    exact iff_of_true (by rw [hq]) hp
  · have hq : min 255 p / 255 = 1 := by omega
    have hq' : 2 ≤ min 255 (p / 255) := by omega
    have hle := Nat.mul_le_mul_right m hq'
    rw [hq]
    omega

theorem Stages.next_eq_iff (he : (registers.tevStages index).multiplierExpA ≤ 2) :
    next registers inputs index s blend = next registers inputs index s blendSoftware ↔
      QuotientFits registers inputs index s := by
  have hm := two_pow_le he
  constructor
  · intro h hop
    have halpha := congrFun (congrArg CombinerState.output h) 3
    rw [next_output, next_output] at halpha
    refine (clamped_eq_iff hm).1 (Eq.trans ?_ (halpha.symm.trans ?_)) <;>
    · simp only [rgba, alphaBlend, hop]
      rfl
  · intro hfits
    refine CombinerState.ext rfl ?_
    rw [next_output, next_output]
    refine congrArg (rgba _) ?_
    by_cases hop : (registers.tevStages index).alphaOp = .addThenMultiply
    · have h := (clamped_eq_iff hm).2 (hfits hop)
      simp only [alphaBlend, hop]
      exact h.symm
    · simp only [alphaBlend, blendSoftware_eq hop]

theorem Stages.run_append (alpha : Operation → ℕ → ℕ → ℕ → ℕ) :
    run registers inputs alpha (indices ++ [index]) =
      next registers inputs index (run registers inputs alpha indices) alpha := by
  rw [run, List.foldl_append]
  rfl

/-- **The recurrence.** The two runs have the same states exactly as long as every stage meets its
condition in the state before it. -/
theorem Stages.run_eq_iff {all : List (Fin 6)}
    (he : ∀ index, (registers.tevStages index).multiplierExpA ≤ 2) :
    (∀ indices, indices <+: all →
      run registers inputs blend indices = run registers inputs blendSoftware indices) ↔
    ∀ indices index, indices ++ [index] <+: all →
      QuotientFits registers inputs index (run registers inputs blendSoftware indices) := by
  constructor
  · intro h indices index hall
    have hlast := h _ hall
    rw [run_append, run_append, h indices ((List.prefix_append _ _).trans hall)] at hlast
    exact (next_eq_iff (he index)).1 hlast
  · intro h indices hall
    induction indices using List.reverseRecOn with
    | nil => rfl
    | append_singleton indices index ih =>
      rw [run_append, run_append, ih ((List.prefix_append _ _).trans hall)]
      exact (next_eq_iff (he index)).2 (h _ _ hall)

end Divergence

/-! ## Whole configurations -/

/-- No stage reads a colour of the fragment lighting. -/
def Registers.NoLighting (registers : Registers) : Prop :=
  ∀ index i, ((registers.tevStages index).colorSource i).ofLighting = false ∧
    ((registers.tevStages index).alphaSource i).ofLighting = false

section Renderers

variable {registers : Registers} {inputs : FragmentInputs} {rest : ShaderStore}
  {index : Fin 6} {indices : List (Fin 6)} {code : List Statement}

/-- What the software rasterizer accepts of a stage. -/
structure Registers.Accepted (registers : Registers) (index : Fin 6) : Prop where
  color : (registers.tevStages index).colorOp.isDot3 = false
  alpha : (registers.tevStages index).alphaOp.isDot3 = false
  multiplier : (registers.tevStages index).multiplierExpA ≤ 2

theorem accepted_of_stage {s s' : CombinerState (BitVec 8)}
    (h : softwareStage registers inputs index s = .ok s') : registers.Accepted index := by
  obtain ⟨_, _, h⟩ := ok_of_bind h
  obtain ⟨_, _, h⟩ := ok_of_bind h
  obtain ⟨_, _, h⟩ := ok_of_bind h
  obtain ⟨_, hcolor, h⟩ := ok_of_bind h
  obtain ⟨_, _, h⟩ := ok_of_bind h
  obtain ⟨_, _, h⟩ := ok_of_bind h
  obtain ⟨_, _, h⟩ := ok_of_bind h
  obtain ⟨_, halpha, h⟩ := ok_of_bind h
  obtain ⟨_, _, h⟩ := ok_of_bind h
  obtain ⟨_, hm, -⟩ := ok_of_bind h
  refine ⟨?_, ?_, (getMultiplierA_eq hm).2⟩
  · revert hcolor
    cases (registers.tevStages index).colorOp <;> first | exact fun _ => rfl | exact nofun
  · revert halpha
    cases (registers.tevStages index).alphaOp <;> first | exact fun _ => rfl | exact nofun

theorem softwareStages_append {s : CombinerState (BitVec 8)}
    (h : softwareStages registers inputs (indices ++ [index]) = .ok s) :
    ∃ t, softwareStages registers inputs indices = .ok t ∧
      softwareStage registers inputs index t = .ok s := by
  rw [softwareStages, List.foldlM_append] at h
  obtain ⟨t, ht, h⟩ := ok_of_bind h
  obtain ⟨t', ht', h⟩ := ok_of_bind h
  cases h
  exact ⟨t, ht, ht'⟩

theorem softwareStages_initial {s : CombinerState (BitVec 8)} {more : List (Fin 6)}
    (h : softwareStages registers inputs (indices ++ more) = .ok s) :
    ∃ t, softwareStages registers inputs indices = .ok t := by
  rw [softwareStages, List.foldlM_append] at h
  obtain ⟨t, ht, -⟩ := ok_of_bind h
  exact ⟨t, ht⟩

theorem accepted_of_stages {s : CombinerState (BitVec 8)}
    (h : softwareStages registers inputs indices = .ok s) (hindex : index ∈ indices) :
    registers.Accepted index := by
  obtain ⟨before, after, rfl⟩ := List.append_of_mem hindex
  rw [List.append_cons] at h
  obtain ⟨t, ht⟩ := softwareStages_initial h
  obtain ⟨t', -, hstage⟩ := softwareStages_append ht
  exact accepted_of_stage hstage

theorem stagesCode_append (h : stagesCode registers (indices ++ [index]) = .ok code) :
    ∃ before last, stagesCode registers indices = .ok before ∧
      stageCode registers index = .ok last ∧ code = before ++ last := by
  rw [stagesCode, List.foldlM_append] at h
  obtain ⟨before, hbefore, h⟩ := ok_of_bind h
  obtain ⟨all, hall, h⟩ := ok_of_bind h
  obtain ⟨last, hlast, hall⟩ := ok_of_bind hall
  cases hall
  cases h
  exact ⟨before, last, hbefore, hlast, rfl⟩

theorem stagesCode_initial {more : List (Fin 6)}
    (h : stagesCode registers (indices ++ more) = .ok code) :
    ∃ before, stagesCode registers indices = .ok before := by
  rw [stagesCode, List.foldlM_append] at h
  obtain ⟨t, ht, -⟩ := ok_of_bind h
  exact ⟨t, ht⟩

/-- The emitted stages run to what the stages compute. -/
theorem stagesCode_runs (inputs : FragmentInputs) (rest : ShaderStore)
    (hcode : stagesCode registers indices = .ok code)
    (haccepted : ∀ index ∈ indices, registers.Accepted index) (hlight : registers.NoLighting) :
    ∃ σ, Runs code (uploads registers inputs rest) σ ∧
      Holds registers inputs rest (Stages.run registers inputs blend indices) σ := by
  induction indices using List.reverseRecOn generalizing code with
  | nil =>
    cases hcode
    refine Runs.exists_assign (Computes.var _) fun σ hv hf =>
      Runs.exists_assign (Computes.var _) fun τ hv' hf' => ⟨τ, Runs.nil, ?_⟩
    refine ⟨fun x hx => ?_, fun c => ?_, fun c => ?_⟩
    · have hne : x ≠ .combinerOutput := by rintro rfl; simp [Variable.isInput] at hx
      have hne' : x ≠ .combinerBuffer := by rintro rfl; simp [Variable.isInput] at hx
      rw [hf' _ hne, hf _ hne']
    · rw [hf' _ (by simp), hv]
      exact word_toNat _
    · rw [hv', hv]
      exact word_toNat _
  | append_singleton indices index ih =>
    obtain ⟨before, last, hbefore, hlast, rfl⟩ := stagesCode_append hcode
    obtain ⟨σ, hrun, hσ⟩ := ih hbefore fun i hi => haccepted i (List.mem_append_left _ hi)
    have hstage := haccepted index (by simp)
    obtain ⟨τ, hrun', hτ⟩ := stageCode_runs hlast hstage.color hstage.alpha
      (fun i => (hlight index i).1) (fun i => (hlight index i).2) hσ
      (Stages.run_inBytes blend indices)
    rw [Stages.run_append]
    exact ⟨τ, hrun.append hrun', hτ⟩

/-- After these stages the shader's variables hold the bytes of the rasterizer's. -/
def AgreeAfter (registers : Registers) (inputs : FragmentInputs) (rest : ShaderStore)
    (indices : List (Fin 6)) : Prop :=
  ∀ code s, stagesCode registers indices = .ok code →
    softwareStages registers inputs indices = .ok s →
    ∃ σ, exec code (uploads registers inputs rest) = some σ ∧
      (σ .combinerBuffer = fun c => word (s.buffer c)) ∧
      σ .combinerOutput = fun c => word (s.output c)

theorem eq_word_iff {x : Fin 4 → BitVec 32} {v : Fin 4 → BitVec 8} :
    (x = fun c => word (v c)) ↔ (fun c => (x c).toNat) = fun c => (v c).toNat := by
  simp only [funext_iff, ← BitVec.toNat_inj, word_toNat]

theorem agreeAfter_iff {s : CombinerState (BitVec 8)}
    (hcode : stagesCode registers indices = .ok code)
    (hsoft : softwareStages registers inputs indices = .ok s) (hlight : registers.NoLighting) :
    AgreeAfter registers inputs rest indices ↔
      Stages.run registers inputs blend indices =
        Stages.run registers inputs blendSoftware indices := by
  obtain ⟨σ, hrun, hσ⟩ := stagesCode_runs inputs rest hcode
    (fun _ hindex => accepted_of_stages hsoft hindex) hlight
  have hbuffer := funext hσ.buffer
  have houtput := funext hσ.output
  constructor
  · intro h
    obtain ⟨σ', hσ', hb, ho⟩ := h _ _ hcode hsoft
    cases hrun.result.symm.trans hσ'
    rw [← softwareStages_eq hsoft]
    exact CombinerState.ext (hbuffer.symm.trans (eq_word_iff.1 hb))
      (houtput.symm.trans (eq_word_iff.1 ho))
  · intro h code' s' hcode' hsoft'
    cases hcode.symm.trans hcode'
    cases hsoft.symm.trans hsoft'
    rw [← softwareStages_eq hsoft] at h
    exact ⟨σ, hrun.result, eq_word_iff.2 (hbuffer.trans (congrArg CombinerState.buffer h)),
      eq_word_iff.2 (houtput.trans (congrArg CombinerState.output h))⟩

/-- The emitted test discards what `AlphaTestFailed` rejects. -/
theorem failing_holds {function : AlphaFunction} {op : Comparison} {reference : ℕ}
    {value : BitVec 32} {failed : Bool} (hop : failing function = .ok op) (href : reference ≤ 255)
    (hfailed : alphaTestFailed value.toNat reference function = .ok failed) :
    op.holds value (BitVec.ofNat 32 reference) = failed := by
  have href : (BitVec.ofNat 32 reference).toNat = reference :=
    (BitVec.toNat_ofNat _ _).trans (Nat.mod_eq_of_lt (by omega))
  cases function <;> cases hfailed <;> cases hop
  case notEqual =>
    rw [Bool.eq_iff_iff, Comparison.holds, beq_iff_eq, ← BitVec.toNat_inj, href]
    simp
  case greaterThan =>
    rw [Bool.eq_iff_iff, Comparison.holds, decide_eq_true_iff, BitVec.le_def, href]
    simp

/-- The emitted test discards the fragments with the alphas that the rasterizer's test drops. -/
theorem alphaTestCode_exec {test : List Statement} {σ : ShaderStore} {dropped : Bool}
    (htest : alphaTestCode registers = .ok test)
    (hdrops : alphaTestDrops registers (σ .combinerOutput 3).toNat = .ok dropped) :
    ExactRun test σ ∧ exec test σ = if dropped then none else some σ := by
  unfold alphaTestCode at htest
  unfold alphaTestDrops at hdrops
  by_cases htested : registers.alphaTestEnable ∧ registers.alphaFunction ≠ .always
  · rw [if_pos htested] at htest hdrops
    obtain ⟨op, hop, htest⟩ := ok_of_bind htest
    cases htest
    have hholds : op.holds (σ .combinerOutput 3) (BitVec.ofNat 32 registers.alphaReference) =
        dropped := failing_holds hop (toNat_le _) hdrops
    refine ⟨⟨⟨trivial, trivial⟩, fun _ _ => trivial⟩, ?_⟩
    show Option.bind (if op.holds (σ .combinerOutput 3)
      (BitVec.ofNat 32 registers.alphaReference) then none else some σ) _ = _
    rw [hholds]
    cases dropped <;> rfl
  · rw [if_neg htested] at htest hdrops
    cases htest
    cases hdrops
    exact ⟨trivial, rfl⟩

/-- Whether the test is implemented does not depend on the alpha. -/
theorem alphaTestDrops_ok {value : ℕ} {dropped : Bool}
    (h : alphaTestDrops registers value = .ok dropped) (value' : ℕ) :
    ∃ dropped, alphaTestDrops registers value' = .ok dropped := by
  unfold alphaTestDrops at h ⊢
  split
  next htested =>
    rw [if_pos htested] at h
    cases hf : registers.alphaFunction <;> rw [hf] at h <;> cases h <;> exact ⟨_, rfl⟩
  next => exact ⟨_, rfl⟩

/-- Every stage meets its condition in the state that the stages before it have left. -/
def QuotientsFit (registers : Registers) (inputs : FragmentInputs) : Prop :=
  ∀ indices index, indices ++ [index] <+: List.finRange 6 →
    ∀ s, softwareStages registers inputs indices = .ok s →
      Stages.QuotientFits registers inputs index s.numbers

theorem agree_iff (rest : ShaderStore) {s : CombinerState (BitVec 8)}
    (hcode : stagesCode registers (List.finRange 6) = .ok code)
    (hsoft : softwareStages registers inputs (List.finRange 6) = .ok s)
    (hlight : registers.NoLighting) :
    (∀ indices, indices <+: List.finRange 6 → AgreeAfter registers inputs rest indices) ↔
      QuotientsFit registers inputs := by
  have haccepted (index : Fin 6) : registers.Accepted index :=
    accepted_of_stages hsoft (List.mem_finRange index)
  have hstep {indices : List (Fin 6)} (h : indices <+: List.finRange 6) :
      AgreeAfter registers inputs rest indices ↔
        Stages.run registers inputs blend indices =
          Stages.run registers inputs blendSoftware indices := by
    obtain ⟨more, hmore⟩ := h
    rw [← hmore] at hcode hsoft
    obtain ⟨before, hbefore⟩ := stagesCode_initial hcode
    obtain ⟨t, ht⟩ := softwareStages_initial hsoft
    exact agreeAfter_iff hbefore ht hlight
  have hcondition : QuotientsFit registers inputs ↔
      ∀ indices index, indices ++ [index] <+: List.finRange 6 → Stages.QuotientFits registers inputs
        index (Stages.run registers inputs blendSoftware indices) := by
    refine forall_congr' fun indices => forall_congr' fun index => imp_congr_right fun hall => ?_
    obtain ⟨more, hmore⟩ := (List.prefix_append _ _).trans hall
    rw [← hmore] at hsoft
    obtain ⟨t, ht⟩ := softwareStages_initial hsoft
    refine ⟨fun h => softwareStages_eq ht ▸ h t ht, fun h s hs => ?_⟩
    rw [softwareStages_eq hs]
    exact h
  rw [hcondition, ← Stages.run_eq_iff fun index => (haccepted index).multiplier]
  exact forall_congr' fun indices => imp_congr_right hstep

/-- **The two renderers.** No step of the emitted code wraps around, and its alpha test discards what
the rasterizer's drops. The states agree after every stage exactly if each stage that adds and
multiplies alpha stays below `2 * 255` there, and then both drop the fragment or both have the same
colour. -/
theorem renderers_combine_alike (rest : ShaderStore) {colour : Option (Fin 4 → BitVec 8)}
    (hcode : combinerCode registers = .ok code)
    (hsoft : softwareFragment registers inputs = .ok colour)
    (hlight : registers.NoLighting) :
    ExactRun code (uploads registers inputs rest) ∧
      (∃ stages σ dropped, stagesCode registers (List.finRange 6) = .ok stages ∧
        exec stages (uploads registers inputs rest) = some σ ∧
        alphaTestDrops registers (σ .combinerOutput 3).toNat = .ok dropped ∧
        exec code (uploads registers inputs rest) = if dropped then none else some σ) ∧
      ((∀ indices, indices <+: List.finRange 6 → AgreeAfter registers inputs rest indices) ↔
        QuotientsFit registers inputs) ∧
      (QuotientsFit registers inputs →
        (exec code (uploads registers inputs rest)).map (fun σ => σ .combinerOutput) =
          colour.map fun v c => word (v c)) := by
  obtain ⟨stages, hstages, hcode⟩ := ok_of_bind hcode
  obtain ⟨test, htest, hcode⟩ := ok_of_bind hcode
  cases hcode
  obtain ⟨s, hs, hsoft⟩ := ok_of_bind hsoft
  obtain ⟨failed, hfailed, hsoft⟩ := ok_of_bind hsoft
  obtain ⟨σ, hrun, hσ⟩ := stagesCode_runs inputs rest hstages
    (fun _ hindex => accepted_of_stages hs hindex) hlight
  have hagree := agree_iff rest hstages hs hlight
  obtain ⟨dropped, hdrops⟩ := alphaTestDrops_ok hfailed (σ .combinerOutput 3).toNat
  obtain ⟨hexact, hexec⟩ := alphaTestCode_exec htest hdrops
  have hcode : exec (stages ++ test) (uploads registers inputs rest) =
      if dropped then none else some σ := by
    rw [exec_append, hrun.result, Option.bind_some, hexec]
  refine ⟨exactRun_append.2 ⟨hrun.exact, fun τ hτ => ?_⟩,
    ⟨stages, σ, dropped, hstages, hrun.result, hdrops, hcode⟩, hagree, fun hfit => ?_⟩
  · cases hrun.result.symm.trans hτ
    exact hexact
  · obtain ⟨τ, hτ, -, houtput⟩ := hagree.2 hfit _ (List.prefix_refl _) _ _ hstages hs
    cases hrun.result.symm.trans hτ
    have hvalue : (σ .combinerOutput 3).toNat = (s.output 3).toNat := by
      rw [houtput]
      exact word_toNat _
    rw [hvalue] at hdrops
    obtain rfl : dropped = failed := Except.ok.inj (hdrops.symm.trans hfailed)
    rw [hcode]
    cases dropped with
    | true =>
      cases hsoft
      rfl
    | false =>
      cases hsoft
      exact congrArg some houtput

/-- Six stages that pass the vertex colour on, and an alpha test for values other than 16. -/
theorem renderers_combine_alike_plain : ∃ registers inputs code colour,
    combinerCode registers = .ok code ∧ softwareFragment registers inputs = .ok colour ∧
      (exec code (uploads registers inputs fun _ _ => 0)).map (fun σ => σ .combinerOutput) =
        colour.map fun v c => word (v c) := by
  have hlight : Registers.NoLighting ⟨fun _ => ⟨fun _ => 0⟩, 0, 0, 0x1031⟩ := by
    unfold Registers.NoLighting
    decide
  have hop (index : Fin 6) :
      (Registers.tevStages ⟨fun _ => ⟨fun _ => 0⟩, 0, 0, 0x1031⟩ index).alphaOp ≠
        .addThenMultiply := by
    revert index
    decide
  exact ⟨_, ⟨![1, 2, 3, 4], fun _ _ => 0⟩, _, _, rfl, rfl,
    (renderers_combine_alike (fun _ _ => 0) rfl rfl hlight).2.2.2
      fun _ index _ _ _ h => absurd h (hop index)⟩

/-- All stages add the alpha of the vertex colour to itself and multiply the sum with it. -/
theorem combiners_differ :
    ¬ ∀ (registers : Registers) (inputs : FragmentInputs) (rest : ShaderStore)
      (code : List Statement) (colour : Option (Fin 4 → BitVec 8)),
      combinerCode registers = .ok code →
      softwareFragment registers inputs = .ok colour → registers.NoLighting →
      ExactRun code (uploads registers inputs rest) ∧
        (exec code (uploads registers inputs rest)).map (fun σ => σ .combinerOutput) =
          colour.map fun v c => word (v c) := by
  intro h
  have hlight : Registers.NoLighting ⟨fun _ => ⟨![0, 0, 0x90000, 0, 0]⟩, 0, 0, 0⟩ := by
    unfold Registers.NoLighting
    decide
  have heq := (h _ ⟨fun _ => 255, fun _ _ => 0⟩ (fun _ _ => 0) _ _ rfl rfl hlight).2
  have halpha := congrArg (Option.map fun v : Fin 4 → BitVec 32 => v 3) heq
  exact absurd halpha (by decide +kernel)

end Renderers

end Mikage.Pica.TextureEnv
