import Mikage.Video.Combiners

/-!
# What a combiner stage computes

The software rasterizer does what `Stages.next` says, but for one operation of the alpha combiner
(`softwareStage_eq`); the emitted code does it with 32-bit words and no step of it wraps around
(`stageCode_runs`).
-/

namespace Mikage.Pica.TextureEnv

open VectorCode

/-! ## Bytes -/

theorem toNat_le (x : BitVec 8) : x.toNat ≤ 255 := Nat.le_of_lt_succ x.isLt

theorem toNat_toByte {x : ℤ} {n : ℕ} (h : x = n) (hn : n ≤ 255) : (toByte x).toNat = n := by
  rw [toByte, h, BitVec.ofInt_natCast, BitVec.toNat_ofNat, Nat.mod_eq_of_lt (by omega)]

theorem int_inverted (x : BitVec 8) : 255 - int x = ((255 - x.toNat : ℕ) : ℤ) := by
  have := toNat_le x
  rw [int]
  omega

theorem toNat_inverted (x : BitVec 8) : (toByte (255 - int x)).toNat = 255 - x.toNat :=
  toNat_toByte (int_inverted x) (Nat.sub_le _ _)

theorem int_toByte_inverted (x : BitVec 8) :
    int (toByte (255 - int x)) = ((255 - x.toNat : ℕ) : ℤ) := congrArg Nat.cast (toNat_inverted x)

theorem word_toNat (x : BitVec 8) : (word x).toNat = x.toNat :=
  BitVec.toNat_setWidth_of_le (by decide)

section Blend

variable {a b c : ℕ}

theorem mul_le (ha : a ≤ 255) (hb : b ≤ 255) : a * b ≤ 65025 := Nat.mul_le_mul ha hb

theorem lerp_le (ha : a ≤ 255) (hb : b ≤ 255) (hc : c ≤ 255) : a * c + b * (255 - c) ≤ 65025 := by
  have h₁ := Nat.mul_le_mul_right c ha
  have h₂ := Nat.mul_le_mul_right (255 - c) hb
  omega

theorem blend_le (op : Operation) (ha : a ≤ 255) (hb : b ≤ 255) (hc : c ≤ 255) :
    blend op a b c ≤ 255 := by
  cases op with
  | replace => exact ha
  | modulate => exact Nat.div_le_of_le_mul (mul_le ha hb)
  | lerp => exact Nat.div_le_of_le_mul (lerp_le ha hb hc)
  | subtract =>
    rw [blend]
    omega
  | add | addSigned | multiplyThenAdd | addThenMultiply => exact min_le_left _ _
  | dot3RGB | dot3RGBA | unknown => exact Nat.zero_le _

theorem blendSoftware_eq {op : Operation} (h : op ≠ .addThenMultiply) :
    blendSoftware op a b c = blend op a b c := by
  cases op with
  | addThenMultiply => exact absurd rfl h
  | _ => rfl

theorem blendSoftware_le (op : Operation) (ha : a ≤ 255) (hb : b ≤ 255) (hc : c ≤ 255) :
    blendSoftware op a b c ≤ 255 := by
  by_cases hop : op = .addThenMultiply
  · rw [hop]
    exact (Nat.div_le_self _ _).trans (min_le_left _ _)
  · rw [blendSoftware_eq hop]
    exact blend_le _ ha hb hc

theorem modified_le {inverted : Bool} (ha : a ≤ 255) : modified inverted a ≤ 255 := by
  rw [modified]
  split <;> omega

end Blend

/-! ## The software rasterizer -/

theorem ok_of_bind {ε α β : Type} {x : Except ε α} {f : α → Except ε β} {r : β}
    (h : x >>= f = .ok r) : ∃ a, x = .ok a ∧ f a = .ok r := by
  cases x with
  | error e => cases h
  | ok a => exact ⟨a, rfl, h⟩

section Software

variable {registers : Registers} {inputs : FragmentInputs} {index : Fin 6}

/-- The state in numbers. -/
def CombinerState.numbers (s : CombinerState (BitVec 8)) : CombinerState ℕ :=
  ⟨fun c => (s.buffer c).toNat, fun c => (s.output c).toNat⟩

variable {s s' : CombinerState (BitVec 8)} {values : Fin 4 → BitVec 8}

theorem getCombinerSource_eq {source : Source} {v : Fin 4 → BitVec 8}
    (h : getCombinerSource (registers.tevStages index) inputs s source = .ok v) :
    (fun c => (v c).toNat) = Stages.sourceValue registers inputs index s.numbers source := by
  cases source <;> cases h <;> rfl

theorem getColorModifier_eq {modifier : ColorModifier} {v : Fin 3 → BitVec 8}
    (h : getColorModifier values modifier = .ok v) (c : Fin 3) :
    (v c).toNat = modified modifier.inverted (values (modifier.component c)).toNat := by
  cases modifier <;> cases h <;> first | rfl | exact toNat_inverted _

theorem getAlphaModifier_eq {modifier : AlphaModifier} {v : BitVec 8}
    (h : getAlphaModifier values modifier = .ok v) :
    v.toNat = modified modifier.inverted (values modifier.component).toNat := by
  cases modifier <;> cases h <;> first | rfl | exact toNat_inverted _

theorem colorCombine_eq {input : Fin 3 → Fin 3 → BitVec 8} {op : Operation} {v : Fin 3 → BitVec 8}
    (h : colorCombine input op = .ok v) (c : Fin 3) :
    (v c).toNat = blend op (input 0 c).toNat (input 1 c).toNat (input 2 c).toNat := by
  have hle := blend_le op (toNat_le (input 0 c)) (toNat_le (input 1 c)) (toNat_le (input 2 c))
  have h₀ := toNat_le (input 0 c)
  have h₂ := toNat_le (input 2 c)
  cases op <;> cases h
  case replace => rfl
  case lerp =>
    refine toNat_toByte ?_ hle
    simp only [int_toByte_inverted]
    simp only [int]
    rw [Int.tdiv_eq_ediv_of_nonneg (by positivity)]
    push_cast [blend]
    rfl
  all_goals
    refine toNat_toByte ?_ hle
    simp only [int]
    try rw [Int.tdiv_eq_ediv_of_nonneg (by positivity)]
    push_cast [blend]
    omega

theorem alphaCombine_eq {input : Fin 3 → BitVec 8} {op : Operation} {v : BitVec 8}
    (h : alphaCombine input op = .ok v) :
    v.toNat = blendSoftware op (input 0).toNat (input 1).toNat (input 2).toNat := by
  have hle := blendSoftware_le op (toNat_le (input 0)) (toNat_le (input 1)) (toNat_le (input 2))
  cases op <;> cases h
  case replace => rfl
  case lerp =>
    refine toNat_toByte ?_ hle
    simp only [int_inverted]
    simp only [int]
    rw [Int.tdiv_eq_ediv_of_nonneg (by positivity)]
    push_cast [blendSoftware, blend]
    rfl
  all_goals
    refine toNat_toByte ?_ hle
    simp only [int]
    try rw [Int.tdiv_eq_ediv_of_nonneg (by positivity)]
    push_cast [blendSoftware, blend]
    omega

theorem getMultiplierRGB_eq {stage : TevStageConfig} {m : ℕ} (h : stage.getMultiplierRGB = .ok m) :
    m = 2 ^ stage.multiplierExpRGB ∧ stage.multiplierExpRGB ≤ 2 := by
  have hlt : stage.multiplierExpRGB < 4 := (BitVec.extractLsb' 0 2 (stage.storage 4)).isLt
  unfold TevStageConfig.getMultiplierRGB at h
  split at h
  · cases h
  · cases h
    exact ⟨Nat.one_shiftLeft _, by omega⟩

theorem getMultiplierA_eq {stage : TevStageConfig} {m : ℕ} (h : stage.getMultiplierA = .ok m) :
    m = 2 ^ stage.multiplierExpA ∧ stage.multiplierExpA ≤ 2 := by
  have hlt : stage.multiplierExpA < 4 := (BitVec.extractLsb' 16 2 (stage.storage 4)).isLt
  unfold TevStageConfig.getMultiplierA at h
  split at h
  · cases h
  · cases h
    exact ⟨Nat.one_shiftLeft _, by omega⟩

theorem two_pow_le {e : ℕ} (h : e ≤ 2) : 1 ≤ 2 ^ e ∧ 2 ^ e ≤ 4 :=
  ⟨Nat.one_le_two_pow, Nat.pow_le_pow_right (by decide) h⟩

theorem scaled_toNat {x : BitVec 8} {m : ℕ} (hm : m ≤ 4) :
    (scaled x m).toNat = min 255 (x.toNat * m) := by
  have hx := Nat.mul_le_mul (toNat_le x) hm
  rw [scaled, BitVec.toNat_ofNat, Nat.mod_eq_of_lt (a := x.toNat * m) (by omega),
    Nat.mod_eq_of_lt (by omega)]

theorem map_rgba {α β : Type} (f : α → β) (rgb : Fin 3 → α) (a : α) (c : Fin 4) :
    f (rgba rgb a c) = rgba (fun c => f (rgb c)) (f a) c := by
  fin_cases c <;> rfl

theorem updatedBuffer_numbers :
    (fun c => (updatedBuffer registers index s c).toNat) =
      updatedBuffer registers index s.numbers := by
  unfold updatedBuffer
  split
  · funext c
    fin_cases c <;> simp only [rgba] <;> exact apply_ite BitVec.toNat _ _ _
  · rfl

/-- A round of the combiner loop is a stage whose alpha combiner clamps too early. -/
theorem softwareStage_eq (h : softwareStage registers inputs index s = .ok s') :
    s'.numbers = Stages.next registers inputs index s.numbers blendSoftware := by
  obtain ⟨rgb₀, h₀, h⟩ := ok_of_bind h
  obtain ⟨rgb₁, h₁, h⟩ := ok_of_bind h
  obtain ⟨rgb₂, h₂, h⟩ := ok_of_bind h
  obtain ⟨color, hcolor, h⟩ := ok_of_bind h
  obtain ⟨a₀, h₃, h⟩ := ok_of_bind h
  obtain ⟨a₁, h₄, h⟩ := ok_of_bind h
  obtain ⟨a₂, h₅, h⟩ := ok_of_bind h
  obtain ⟨alpha, halpha, h⟩ := ok_of_bind h
  obtain ⟨m, hm, h⟩ := ok_of_bind h
  obtain ⟨m', hm', h⟩ := ok_of_bind h
  cases h
  have hinput {i : Fin 3} {rgb : Fin 3 → BitVec 8}
      (h : (getCombinerSource (registers.tevStages index) inputs s
        ((registers.tevStages index).colorSource i) >>= fun v =>
          getColorModifier v ((registers.tevStages index).colorModifier i)) = .ok rgb) (c : Fin 3) :
      (rgb c).toNat = Stages.colorInput registers inputs index s.numbers i c := by
    obtain ⟨v, hv, h⟩ := ok_of_bind h
    rw [getColorModifier_eq h, Stages.colorInput, ← getCombinerSource_eq hv]
  have hinput' {i : Fin 3} {a : BitVec 8}
      (h : (getCombinerSource (registers.tevStages index) inputs s
        ((registers.tevStages index).alphaSource i) >>= fun v =>
          getAlphaModifier v ((registers.tevStages index).alphaModifier i)) = .ok a) :
      a.toNat = Stages.alphaInput registers inputs index s.numbers i := by
    obtain ⟨v, hv, h⟩ := ok_of_bind h
    rw [getAlphaModifier_eq h, Stages.alphaInput, ← getCombinerSource_eq hv]
  obtain ⟨rfl, he⟩ := getMultiplierRGB_eq hm
  obtain ⟨rfl, he'⟩ := getMultiplierA_eq hm'
  have hrgb (c : Fin 3) :
      (color c).toNat = Stages.colorBlend registers inputs index s.numbers c := by
    rw [Stages.colorBlend, ← hinput h₀, ← hinput h₁, ← hinput h₂]
    exact colorCombine_eq hcolor c
  have ha : alpha.toNat = Stages.alphaBlend registers inputs index s.numbers blendSoftware := by
    rw [Stages.alphaBlend, ← hinput' h₃, ← hinput' h₄, ← hinput' h₅]
    exact alphaCombine_eq halpha
  refine CombinerState.ext updatedBuffer_numbers (funext fun c => ?_)
  refine (map_rgba BitVec.toNat _ _ c).trans ?_
  simp only [Stages.next, scaled_toNat (two_pow_le he).2, scaled_toNat (two_pow_le he').2, hrgb, ha]

theorem softwareStages_eq {indices : List (Fin 6)}
    (h : softwareStages registers inputs indices = .ok s) :
    s.numbers = Stages.run registers inputs blendSoftware indices := by
  induction indices using List.reverseRecOn generalizing s with
  | nil =>
    cases h
    rfl
  | append_singleton indices index ih =>
    rw [softwareStages, List.foldlM_append] at h
    obtain ⟨t, ht, h⟩ := ok_of_bind h
    obtain ⟨t', ht', h⟩ := ok_of_bind h
    cases h
    rw [softwareStage_eq ht', ih ht, Stages.run, Stages.run, List.foldl_append]
    rfl

end Software

/-! ## The generated shader -/

section Expressions

variable {σ : ShaderStore} {n : ℕ} {l r e e₁ e₂ e₃ : Code n} {a b c v : Fin n → ℕ}

theorem computes_const {k : ℕ} (hk : k < 2 ^ 32) :
    Computes σ (Code.const (BitVec.ofNat 32 k) : Code n) fun _ => k :=
  (Computes.const _).congr fun _ => (BitVec.toNat_ofNat _ _).trans (Nat.mod_eq_of_lt hk)

theorem computes_add (hl : Computes σ l a) (hr : Computes σ r b) (h : ∀ i, a i + b i < 2 ^ 32) :
    Computes σ (Code.add l r) fun i => a i + b i := hl.op .add hr h

theorem computes_sub (hl : Computes σ l a) (hr : Computes σ r b) (h : ∀ i, b i ≤ a i) :
    Computes σ (Code.sub l r) fun i => a i - b i := hl.op .sub hr h

theorem computes_mul (hl : Computes σ l a) (hr : Computes σ r b) (h : ∀ i, a i * b i < 2 ^ 32) :
    Computes σ (Code.mul l r) fun i => a i * b i := hl.op .mul hr h

theorem computes_max (hl : Computes σ l a) (hr : Computes σ r b) :
    Computes σ (Code.max l r) fun i => max (a i) (b i) := hl.op .max hr fun _ => trivial

theorem computes_clamped (he : Computes σ e a) :
    Computes σ (Code.min (.const 255) e) fun i => min 255 (a i) :=
  (computes_const (k := 255) (by decide)).op .min he fun _ => trivial

theorem computes_div (he : Computes σ e a) :
    Computes σ (Code.div e (.const 255)) fun i => a i / 255 :=
  he.op .div (computes_const (k := 255) (by decide)) fun _ => (by decide : (255 : ℕ) ≠ 0)

theorem computes_inverted (he : Computes σ e a) (h : ∀ i, a i ≤ 255) :
    Computes σ (Code.sub (.const 255) e) fun i => 255 - a i :=
  computes_sub (computes_const (k := 255) (by decide)) he h

theorem combineWith_computes (kind : String) {op : Operation}
    (hop : combineWith kind e₁ e₂ e₃ op = .ok e) (h₁ : Computes σ e₁ a) (h₂ : Computes σ e₂ b)
    (h₃ : Computes σ e₃ c) (ha : ∀ i, a i ≤ 255) (hb : ∀ i, b i ≤ 255) (hc : ∀ i, c i ≤ 255) :
    Computes σ e fun i => blend op (a i) (b i) (c i) := by
  have hab (i) := mul_le (ha i) (hb i)
  have hsum : Computes σ (Code.add e₁ e₂) fun i => a i + b i :=
    computes_add h₁ h₂ fun i => by have := ha i; have := hb i; omega
  have hproduct : Computes σ (Code.mul e₁ e₂) fun i => a i * b i :=
    computes_mul h₁ h₂ fun i => by have := hab i; omega
  cases op <;> cases hop
  case replace => exact h₁
  case modulate => exact computes_div hproduct
  case add => exact computes_clamped hsum
  case addSigned =>
    exact computes_clamped (computes_sub (computes_max (computes_const (k := 127) (by decide)) hsum)
      (computes_const (k := 127) (by decide)) fun i => le_max_left _ _)
  case subtract => exact computes_sub (computes_max h₁ h₂) h₂ fun i => le_max_right _ _
  case multiplyThenAdd =>
    refine computes_clamped (computes_div (computes_add hproduct
      (computes_mul (computes_const (k := 255) (by decide)) h₃ fun i => ?_) fun i => ?_))
    · have := hc i
      omega
    · have := hc i
      have := hab i
      omega
  case addThenMultiply =>
    refine computes_clamped (computes_div (computes_mul hsum h₃ fun i => ?_))
    have := Nat.mul_le_mul (Nat.add_le_add (ha i) (hb i)) (hc i)
    omega
  case lerp =>
    have hle (i) := lerp_le (ha i) (hb i) (hc i)
    refine computes_div (computes_add (computes_mul h₁ h₃ fun i => ?_)
      (computes_mul h₂ (computes_inverted h₃ hc) fun i => ?_) fun i => ?_) <;>
    · have := hle i
      omega

variable {source : Code 4} {w : Fin 4 → ℕ}

theorem getModifiedColor_computes {modifier : ColorModifier} {e : Code 3}
    (h : getModifiedColor source modifier = .ok e) (hs : Computes σ source w)
    (hw : ∀ c, w c ≤ 255) :
    Computes σ e fun c => modified modifier.inverted (w (modifier.component c)) := by
  cases modifier <;> cases h <;>
    first | exact hs.pick _ | exact computes_inverted (hs.pick _) fun _ => hw _

theorem getModifiedAlpha_computes {modifier : AlphaModifier} {e : Code 1}
    (h : getModifiedAlpha source modifier = .ok e) (hs : Computes σ source w)
    (hw : ∀ c, w c ≤ 255) :
    Computes σ e fun _ => modified modifier.inverted (w modifier.component) := by
  cases modifier <;> cases h <;>
    first | exact hs.pick _ | exact computes_inverted (hs.pick _) fun _ => hw _

end Expressions

/-! ## A stage of the shader -/

namespace Variable

/-- The uniforms and the inputs, which the code only reads. -/
def isInput : Variable → Bool
  | inColor | texColor _ | combinerBufferInit | tevConst _ => true
  | _ => false

/-- The variables that one stage declares for itself. -/
def isLocal : Variable → Bool
  | rgbIn _ _ | aIn _ _ | outRGB _ | outA _ => true
  | _ => false

end Variable

/-- The store has the state and the inputs in its variables. -/
structure Holds (registers : Registers) (inputs : FragmentInputs) (rest : ShaderStore)
    (s : CombinerState ℕ) (σ : ShaderStore) : Prop where
  inputs : ∀ x, x.isInput → σ x = uploads registers inputs rest x
  buffer : ∀ c, (σ .combinerBuffer c).toNat = s.buffer c
  output : ∀ c, (σ .combinerOutput c).toNat = s.output c

/-- The state consists of bytes. -/
structure CombinerState.InBytes (s : CombinerState ℕ) : Prop where
  buffer : ∀ c, s.buffer c ≤ 255
  output : ∀ c, s.output c ≤ 255

def Source.ofLighting : Source → Bool
  | primaryFragmentColor | secondaryFragmentColor => true
  | _ => false

def Operation.isDot3 : Operation → Bool
  | dot3RGB | dot3RGBA => true
  | _ => false

section Stage

variable {registers : Registers} {inputs : FragmentInputs} {rest : ShaderStore} {index : Fin 6}
  {s : CombinerState ℕ} {σ τ : ShaderStore}

/-- Assignments to the variables of one stage touch neither. -/
theorem Holds.frame {x : Variable} (h : Holds registers inputs rest s σ) (hx : x.isLocal)
    (hτ : ∀ y, y ≠ x → τ y = σ y) : Holds registers inputs rest s τ where
  inputs y hy := by
    have hne : y ≠ x := by
      rintro rfl
      cases y <;> simp [Variable.isInput, Variable.isLocal] at hx hy
    rw [hτ y hne, h.inputs y hy]
  buffer c := by
    rw [hτ _ (by rintro rfl; simp [Variable.isLocal] at hx), h.buffer]
  output c := by
    rw [hτ _ (by rintro rfl; simp [Variable.isLocal] at hx), h.output]

theorem Stages.sourceValue_le (hs : s.InBytes) (source : Source) (c : Fin 4) :
    sourceValue registers inputs index s source c ≤ 255 := by
  cases source with
  | combinerBuffer => exact hs.buffer c
  | previous => exact hs.output c
  | secondaryFragmentColor | texture3 | unknown => exact Nat.zero_le _
  | primaryColor | primaryFragmentColor | texture0 | texture1 | texture2 | constant =>
    exact toNat_le _

theorem Stages.colorInput_le (hs : s.InBytes) (i c : Fin 3) :
    colorInput registers inputs index s i c ≤ 255 := modified_le (sourceValue_le hs _ _)

theorem Stages.alphaInput_le (hs : s.InBytes) (i : Fin 3) :
    alphaInput registers inputs index s i ≤ 255 := modified_le (sourceValue_le hs _ _)

theorem Stages.colorBlend_le (hs : s.InBytes) (c : Fin 3) :
    colorBlend registers inputs index s c ≤ 255 :=
  blend_le _ (colorInput_le hs 0 c) (colorInput_le hs 1 c) (colorInput_le hs 2 c)

theorem Stages.alphaBlend_le (hs : s.InBytes) : alphaBlend registers inputs index s blend ≤ 255 :=
  blend_le _ (alphaInput_le hs 0) (alphaInput_le hs 1) (alphaInput_le hs 2)

theorem rgba_le {rgb : Fin 3 → ℕ} {a : ℕ} (hrgb : ∀ c, rgb c ≤ 255) (ha : a ≤ 255) (c : Fin 4) :
    rgba rgb a c ≤ 255 := by
  fin_cases c
  · exact hrgb 0
  · exact hrgb 1
  · exact hrgb 2
  · exact ha

theorem Stages.next_inBytes (hs : s.InBytes) (alpha : Operation → ℕ → ℕ → ℕ → ℕ) :
    (next registers inputs index s alpha).InBytes where
  buffer c := by
    show updatedBuffer registers index s c ≤ 255
    unfold updatedBuffer
    split
    · refine rgba_le (fun c => ?_) ?_ c <;> split
      exacts [hs.output _, hs.buffer _, hs.output _, hs.buffer _]
    · exact hs.buffer c
  output c := by
    rw [next_output]
    exact rgba_le (fun _ => min_le_left _ _) (min_le_left _ _) c

theorem Stages.run_inBytes (alpha : Operation → ℕ → ℕ → ℕ → ℕ) (indices : List (Fin 6)) :
    (run registers inputs alpha indices).InBytes := by
  induction indices using List.reverseRecOn with
  | nil => exact ⟨fun _ => toNat_le _, fun _ => toNat_le _⟩
  | append_singleton indices index ih =>
    rw [run, List.foldl_append]
    exact next_inBytes ih alpha

theorem getSource_computes {kind : String} {source : Source} {e : Code 4}
    (hsource : getSource kind index source = .ok e) (hlight : source.ofLighting = false)
    (h : Holds registers inputs rest s σ) :
    Computes σ e (Stages.sourceValue registers inputs index s source) := by
  have hread {x : Variable} (hx : x.isInput) (c : Fin x.dim) :
      (σ x c).toNat = (uploads registers inputs rest x c).toNat := by rw [h.inputs x hx]
  cases source <;> cases hsource
  case primaryColor => exact (Computes.var _).congr fun c => (hread rfl c).trans (word_toNat _)
  case primaryFragmentColor => cases hlight
  case secondaryFragmentColor => cases hlight
  case texture0 => exact (Computes.var _).congr fun c => (hread rfl c).trans (word_toNat _)
  case texture1 => exact (Computes.var _).congr fun c => (hread rfl c).trans (word_toNat _)
  case texture2 => exact (Computes.var _).congr fun c => (hread rfl c).trans (word_toNat _)
  case texture3 => exact Computes.const _
  case combinerBuffer => exact (Computes.var _).congr h.buffer
  case constant => exact (Computes.var _).congr fun c => (hread rfl c).trans (word_toNat _)
  case previous => exact (Computes.var _).congr h.output

/-- The buffer has been updated and nothing else has changed. -/
theorem bufferCode_runs (index : Fin 6) (h : Holds registers inputs rest s σ) :
    ∃ τ, Runs (bufferCode registers index) σ τ ∧
      (∀ c, (τ .combinerBuffer c).toNat = updatedBuffer registers index s c) ∧
      ∀ y, y ≠ .combinerBuffer → τ y = σ y := by
  unfold bufferCode updatedBuffer
  split
  · cases registers.tevStageUpdatesRGB (index - 1) <;> cases registers.tevStageUpdatesA (index - 1)
    · refine ⟨σ, Runs.nil, fun c => ?_, fun _ _ => rfl⟩
      rw [h.buffer]
      fin_cases c <;> rfl
    · refine ⟨_, Runs.assignTo trivial Runs.nil, fun c => ?_,
        fun y hy => Function.update_of_ne hy _ _⟩
      rw [Function.update_self]
      fin_cases c
      exacts [h.buffer 0, h.buffer 1, h.buffer 2, h.output 3]
    · refine ⟨_, Runs.assignTo trivial Runs.nil, fun c => ?_,
        fun y hy => Function.update_of_ne hy _ _⟩
      rw [Function.update_self]
      fin_cases c
      exacts [h.output 0, h.output 1, h.output 2, h.buffer 3]
    · refine ⟨_, Runs.assignTo trivial (Runs.assignTo trivial Runs.nil), fun c => ?_,
        fun y hy => ?_⟩
      · rw [Function.update_self]
        fin_cases c
        exacts [h.output 0, h.output 1, h.output 2, h.output 3]
      · rw [Function.update_of_ne hy, Function.update_of_ne hy]
  · exact ⟨σ, Runs.nil, h.buffer, fun _ _ => rfl⟩

theorem outputCode_computes {m m' : ℕ} {rgb : Fin 3 → ℕ} {a : ℕ} (hm : 1 ≤ m ∧ m ≤ 4)
    (hm' : 1 ≤ m' ∧ m' ≤ 4) (hrgb : ∀ c, (σ (.outRGB index) c).toNat = rgb c)
    (ha : (σ (.outA index) 0).toNat = a) (hle : ∀ c, rgb c ≤ 255) (hle' : a ≤ 255) :
    Computes σ (outputCode index m m')
      (rgba (fun c => min 255 (rgb c * m)) (min 255 (a * m'))) := by
  have hcombined :
      Computes σ (Code.uvec4 (.var (.outRGB index)) (.var (.outA index))) (rgba rgb a) := by
    refine ((Computes.var _).join (Computes.var _)).congr fun c => ?_
    fin_cases c
    exacts [hrgb 0, hrgb 1, hrgb 2, ha]
  unfold outputCode
  split
  next h =>
    have hfactor : Computes σ
        (Code.uvec4 (.const (BitVec.ofNat 32 m)) (.const (BitVec.ofNat 32 m')))
        (rgba (fun _ => m) m') := by
      refine ((computes_const (by omega)).join
        (computes_const (k := m') (by omega))).congr fun c => ?_
      fin_cases c <;> rfl
    have hproduct (c : Fin 4) : rgba (fun _ => m) m' c * rgba rgb a c ≤ 4 * 255 :=
      Nat.mul_le_mul (by fin_cases c; exacts [hm.2, hm.2, hm.2, hm'.2]) (rgba_le hle hle' c)
    refine (computes_clamped (computes_mul hfactor hcombined fun c => ?_)).congr fun c => ?_
    · have := hproduct c
      omega
    · fin_cases c <;> exact congrArg (min 255) (Nat.mul_comm _ _)
  next h =>
    obtain ⟨rfl, rfl⟩ : m = 1 ∧ m' = 1 := by omega
    refine hcombined.congr fun c => ?_
    simp only [Nat.mul_one, min_eq_right hle', fun c => min_eq_right (hle c)]

theorem combineRGB_computes {op : Operation} {e : Code 3} (hop : op.isDot3 = false)
    (h : combineRGB index op = .ok e) {v : Fin 3 → Fin 3 → ℕ}
    (hv : ∀ i c, (σ (.rgbIn index i) c).toNat = v i c) (hle : ∀ i c, v i c ≤ 255) :
    Computes σ e fun c => blend op (v 0 c) (v 1 c) (v 2 c) := by
  have hread (i : Fin 3) : Computes σ (Code.var (.rgbIn index i)) (v i) :=
    (Computes.var _).congr (hv i)
  cases op
  case dot3RGB => cases hop
  case dot3RGBA => cases hop
  all_goals
    exact combineWith_computes "color" h (hread 0) (hread 1) (hread 2) (hle 0) (hle 1) (hle 2)

theorem combineA_computes {op : Operation} {e : Code 1} (hop : op.isDot3 = false)
    (h : combineA index op = .ok e) {v : Fin 3 → ℕ}
    (hv : ∀ i c, (σ (.aIn index i) c).toNat = v i) (hle : ∀ i, v i ≤ 255) :
    Computes σ e fun _ => blend op (v 0) (v 1) (v 2) := by
  have hread (i : Fin 3) : Computes σ (Code.var (.aIn index i)) fun _ => v i :=
    (Computes.var _).congr (hv i)
  cases op
  case dot3RGB => cases hop
  case dot3RGBA => cases hop
  all_goals
    exact combineWith_computes "alpha" h (hread 0) (hread 1) (hread 2) (fun _ => hle 0)
      (fun _ => hle 1) fun _ => hle 2

/-- The code of a stage runs to what the stage computes. -/
theorem stageCode_runs {code : List Statement} (hcode : stageCode registers index = .ok code)
    (hcolor : (registers.tevStages index).colorOp.isDot3 = false)
    (halpha : (registers.tevStages index).alphaOp.isDot3 = false)
    (hlight : ∀ i, ((registers.tevStages index).colorSource i).ofLighting = false)
    (hlight' : ∀ i, ((registers.tevStages index).alphaSource i).ofLighting = false)
    (h : Holds registers inputs rest s σ) (hs : s.InBytes) :
    ∃ σ', Runs code σ σ' ∧
      Holds registers inputs rest (Stages.next registers inputs index s blend) σ' := by
  obtain ⟨rgb₀, h₀, hcode⟩ := ok_of_bind hcode
  obtain ⟨rgb₁, h₁, hcode⟩ := ok_of_bind hcode
  obtain ⟨rgb₂, h₂, hcode⟩ := ok_of_bind hcode
  obtain ⟨a₀, h₃, hcode⟩ := ok_of_bind hcode
  obtain ⟨a₁, h₄, hcode⟩ := ok_of_bind hcode
  obtain ⟨a₂, h₅, hcode⟩ := ok_of_bind hcode
  obtain ⟨outRGB, h₆, hcode⟩ := ok_of_bind hcode
  obtain ⟨outA, h₇, hcode⟩ := ok_of_bind hcode
  obtain ⟨m, hm, hcode⟩ := ok_of_bind hcode
  obtain ⟨m', hm', hcode⟩ := ok_of_bind hcode
  cases hcode
  obtain ⟨rfl, he⟩ := getMultiplierRGB_eq hm
  obtain ⟨rfl, he'⟩ := getMultiplierA_eq hm'
  -- What the stage reads, from any store on the way to the combiners.
  have hrgb {i : Fin 3} {e : Code 3} {τ : ShaderStore} (hτ : Holds registers inputs rest s τ)
      (h : (getSourceColor index ((registers.tevStages index).colorSource i) >>= fun e =>
        getModifiedColor e ((registers.tevStages index).colorModifier i)) = .ok e) :
      Computes τ e (Stages.colorInput registers inputs index s i) := by
    obtain ⟨source, hsource, h⟩ := ok_of_bind h
    exact getModifiedColor_computes h (getSource_computes hsource (hlight i) hτ)
      (Stages.sourceValue_le hs _)
  have ha {i : Fin 3} {e : Code 1} {τ : ShaderStore} (hτ : Holds registers inputs rest s τ)
      (h : (getSourceAlpha index ((registers.tevStages index).alphaSource i) >>= fun e =>
        getModifiedAlpha e ((registers.tevStages index).alphaModifier i)) = .ok e) :
      Computes τ e fun _ => Stages.alphaInput registers inputs index s i := by
    obtain ⟨source, hsource, h⟩ := ok_of_bind h
    exact getModifiedAlpha_computes h (getSource_computes hsource (hlight' i) hτ)
      (Stages.sourceValue_le hs _)
  refine Runs.exists_assign (hrgb h h₀) fun σ₀ hv₀ hf₀ => ?_
  have hσ₀ := h.frame rfl hf₀
  refine Runs.exists_assign (hrgb hσ₀ h₁) fun σ₁ hv₁ hf₁ => ?_
  have hσ₁ := hσ₀.frame rfl hf₁
  refine Runs.exists_assign (hrgb hσ₁ h₂) fun σ₂ hv₂ hf₂ => ?_
  have hσ₂ := hσ₁.frame rfl hf₂
  refine Runs.exists_assign (ha hσ₂ h₃) fun σ₃ hv₃ hf₃ => ?_
  have hσ₃ := hσ₂.frame rfl hf₃
  refine Runs.exists_assign (ha hσ₃ h₄) fun σ₄ hv₄ hf₄ => ?_
  have hσ₄ := hσ₃.frame rfl hf₄
  refine Runs.exists_assign (ha hσ₄ h₅) fun σ₅ hv₅ hf₅ => ?_
  have hσ₅ := hσ₄.frame rfl hf₅
  have hcolors (i c : Fin 3) :
      (σ₅ (.rgbIn index i) c).toNat = Stages.colorInput registers inputs index s i c := by
    rw [hf₅ _ (by simp), hf₄ _ (by simp), hf₃ _ (by simp)]
    have hfirst : σ₂ (.rgbIn index 0) = σ₀ (.rgbIn index 0) :=
      (hf₂ _ (by simp)).trans (hf₁ _ (by simp))
    have hsecond : σ₂ (.rgbIn index 1) = σ₁ (.rgbIn index 1) := hf₂ _ (by simp)
    fin_cases i
    · exact (congrArg BitVec.toNat (congrFun hfirst c)).trans (hv₀ c)
    · exact (congrArg BitVec.toNat (congrFun hsecond c)).trans (hv₁ c)
    · exact hv₂ c
  have halphas (i : Fin 3) (c : Fin 1) :
      (σ₅ (.aIn index i) c).toNat = Stages.alphaInput registers inputs index s i := by
    have hfirst : σ₅ (.aIn index 0) = σ₃ (.aIn index 0) := (hf₅ _ (by simp)).trans (hf₄ _ (by simp))
    have hsecond : σ₅ (.aIn index 1) = σ₄ (.aIn index 1) := hf₅ _ (by simp)
    fin_cases i
    · exact (congrArg BitVec.toNat (congrFun hfirst c)).trans (hv₃ c)
    · exact (congrArg BitVec.toNat (congrFun hsecond c)).trans (hv₄ c)
    · exact hv₅ c
  refine Runs.exists_assign (combineRGB_computes hcolor h₆ hcolors (Stages.colorInput_le hs))
    fun σ₆ hv₆ hf₆ => ?_
  have hσ₆ := hσ₅.frame rfl hf₆
  have halphas' (i : Fin 3) (c : Fin 1) :
      (σ₆ (.aIn index i) c).toNat = Stages.alphaInput registers inputs index s i := by
    rw [hf₆ _ (by simp), halphas]
  refine Runs.exists_assign (combineA_computes halpha h₇ halphas' (Stages.alphaInput_le hs))
    fun σ₇ hv₇ hf₇ => ?_
  have hσ₇ := hσ₆.frame rfl hf₇
  obtain ⟨σ₈, hrun, hbuffer, hf₈⟩ := bufferCode_runs index hσ₇
  have hcolor₈ (c : Fin 3) :
      (σ₈ (.outRGB index) c).toNat = Stages.colorBlend registers inputs index s c := by
    rw [hf₈ _ (by simp), hf₇ _ (by simp), hv₆]
    rfl
  have halpha₈ : (σ₈ (.outA index) 0).toNat = Stages.alphaBlend registers inputs index s blend := by
    rw [hf₈ _ (by simp), hv₇]
    rfl
  have hout := outputCode_computes (two_pow_le he) (two_pow_le he') hcolor₈ halpha₈
    (Stages.colorBlend_le hs) (Stages.alphaBlend_le hs)
  have hfinal (τ : ShaderStore) (hv : ∀ c, (τ .combinerOutput c).toNat =
      (Stages.next registers inputs index s blend).output c)
      (hf : ∀ x, x ≠ .combinerOutput → τ x = σ₈ x) :
      Holds registers inputs rest (Stages.next registers inputs index s blend) τ := by
    refine ⟨fun x hx => ?_, fun c => ?_, hv⟩
    · have hne : x ≠ .combinerOutput := by
        rintro rfl
        simp [Variable.isInput] at hx
      have hne' : x ≠ .combinerBuffer := by
        rintro rfl
        simp [Variable.isInput] at hx
      rw [hf _ hne, hf₈ _ hne', hσ₇.inputs x hx]
    · rw [hf _ (by simp), hbuffer]
      rfl
  obtain ⟨σ₉, hlast, hσ₉⟩ := Runs.exists_assign hout fun τ hv hf =>
    ⟨τ, Runs.nil, hfinal τ hv hf⟩
  exact ⟨σ₉, hrun.append hlast, hσ₉⟩

end Stage

end Mikage.Pica.TextureEnv
