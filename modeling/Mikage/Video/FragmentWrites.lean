import Mikage.Lib.Account
import Mikage.Video.Combiners
import Mikage.Video.Framebuffer
import Mikage.Video.Rasterizer

/-!
# What a triangle writes

The second half of `ProcessTriangleInternal`: each covered pixel is tested against alpha, stencil
and depth, blended and stored. What is computed in floating point (the attributes of a pixel, the
colours of textures, the depth) is a parameter, as a function of the memory and of the pixel.

`fragmentWrites_confined_iff`: which triangles write inside the buffers only. The bounding box of
a triangle is clipped nowhere.
-/

namespace Mikage.Pica.Rasterizer

open Lib.Words PipelineKey
open TextureEnv (alpha)

/-! ## The code -/

structure DrawRegisters where
  cullMode : CullMode
  framebuffer : FramebufferRegisters
  outputMerger : OutputMerger
  combiners : TextureEnv.Registers

/-- What is computed in floating point for a pixel with its weights. -/
structure Shading where
  inputs : Bytes 32 → Vec2 × Weights → Except Exception TextureEnv.FragmentInputs
  depth : ℕ → Vec2 × Weights → BitVec 32

namespace OutputMerger

variable (om : OutputMerger)

def blendEquationRGB : ℕ := (om.alphaBlending.extractLsb' 0 8).toNat
def blendEquationA : ℕ := (om.alphaBlending.extractLsb' 8 8).toNat
def factorSourceRGB : ℕ := (om.alphaBlending.extractLsb' 16 4).toNat
def factorDestRGB : ℕ := (om.alphaBlending.extractLsb' 20 4).toNat
def factorSourceA : ℕ := (om.alphaBlending.extractLsb' 24 4).toNat
def factorDestA : ℕ := (om.alphaBlending.extractLsb' 28 4).toNat

def constant (c : Fin 4) : BitVec 8 := om.blendConstant.extractLsb' (8 * c) 8

def colorWriteEnable : Fin 4 → Bool :=
  ![om.colorWriteEnableR, om.colorWriteEnableG, om.colorWriteEnableB, om.colorWriteEnableA]

end OutputMerger

def validatePipelineConfiguration (r : DrawRegisters) : Except Exception Unit := do
  let fb := r.framebuffer
  let om := r.outputMerger
  if !fb.colorReadEnabled && fb.colorWriteEnabled then
    let needsReadAccess :=
      if om.alphablendEnable then
        OutputMerger.factorDestRGB om != 0 || OutputMerger.factorDestA om != 0
      else om.logicOp != 4
    if needsReadAccess then
      throw (.runtimeError "Cannot render to a write-only color buffer")
  if !fb.depthStencilReadEnabled && fb.depthStencilWriteEnabled then
    throw (.runtimeError "Cannot render to a write-only depth buffer")
  if !fb.depthStencilReadEnabled && om.depthTestEnable && om.depthTestFunc != 1 then
    throw (.runtimeError "Cannot perform depth test without depth buffer read access")
  if !fb.depthStencilReadEnabled && om.stencilTest.enabled then
    throw (.runtimeError "Cannot perform depth test without depth buffer read access")

def compareStencil (func : BitVec 3) (ref current : BitVec 8) : Bool :=
  match func.toNat with
  | 0 => false
  | 1 => true
  | 2 => ref == current
  | 3 => ref != current
  | 4 => ref < current
  | 5 => ref ≤ current
  | 6 => ref > current
  | _ => ref ≥ current

def depthPasses (func : BitVec 3) (z refZ : BitVec 32) : Except Exception Bool :=
  match func.toNat with
  | 0 => pure false
  | 1 => pure true
  | 4 => pure (z < refZ)
  | 6 => pure (z > refZ)
  | 7 => pure (z ≥ refZ)
  | func => throw (.runtimeError s!"Unknown depth test function {TextureEnv.hex func}")

/-- `depth_bits` -/
def depthScaleBits (fb : FramebufferRegisters) : Except Exception ℕ :=
  match fb.getDepthStencilFormat with
  | .d16 => pure 16
  | .d24 | .d24s8 => pure 23
  | _ => throw (.runtimeError "Unknown depth format")

def lookupFactorRGB (om : OutputMerger) (combinerOutput dest : Fin 4 → BitVec 8) (factor : ℕ) :
    Except Exception (Fin 3 → BitVec 8) :=
  match factor with
  | 0 => pure fun _ => 0
  | 1 => pure fun _ => 255
  | 2 => pure fun c => combinerOutput c.castSucc
  | 4 => pure fun c => dest c.castSucc
  | 6 => pure fun _ => alpha combinerOutput
  | 7 => pure fun _ => 255 - alpha combinerOutput
  | 8 => pure fun _ => alpha dest
  | 9 => pure fun _ => 255 - alpha dest
  | 0xb => pure fun c => 255 - OutputMerger.constant om c.castSucc
  | 0xd => pure fun _ => 255 - alpha (OutputMerger.constant om)
  | factor => throw (.runtimeError s!"Unknown color blend factor {TextureEnv.hex factor}")

def lookupFactorA (combinerOutput dest : Fin 4 → BitVec 8) (factor : ℕ) :
    Except Exception (BitVec 8) :=
  match factor with
  | 0 => pure 0
  | 1 => pure 255
  | 4 => pure (alpha dest)
  | 6 => pure (alpha combinerOutput)
  | 7 => pure (255 - alpha combinerOutput)
  | 8 => pure (alpha dest)
  | 9 => pure (255 - alpha dest)
  | factor => throw (.runtimeError s!"Unknown alpha blend factor {TextureEnv.hex factor}")

def evaluateBlendEquation (src srcFactor dest dstFactor : Fin 4 → BitVec 8) (equation : ℕ) :
    Except Exception (Fin 4 → BitVec 8) :=
  let s (c : Fin 4) : ℤ := (src c).toNat * (srcFactor c).toNat
  let d (c : Fin 4) : ℤ := (dest c).toNat * (dstFactor c).toNat
  match equation with
  | 0 => pure fun c => BitVec.ofInt 8 (min 255 ((s c + d c).tdiv 255))
  | 2 => pure fun c => BitVec.ofInt 8 (max 0 ((d c - s c).tdiv 255))
  | equation => throw (.runtimeError s!"Unknown RGB blend equation {TextureEnv.hex equation}")

def alphaBlend (om : OutputMerger) (combinerOutput dest : Fin 4 → BitVec 8) :
    Except Exception (Fin 4 → BitVec 8) := do
  let srcFactor := TextureEnv.rgba
    (← lookupFactorRGB om combinerOutput dest (OutputMerger.factorSourceRGB om))
    (← lookupFactorA combinerOutput dest (OutputMerger.factorSourceA om))
  let dstFactor := TextureEnv.rgba
    (← lookupFactorRGB om combinerOutput dest (OutputMerger.factorDestRGB om))
    (← lookupFactorA combinerOutput dest (OutputMerger.factorDestA om))
  let rgb ← evaluateBlendEquation combinerOutput srcFactor dest dstFactor
    (OutputMerger.blendEquationRGB om)
  let a ← evaluateBlendEquation combinerOutput srcFactor dest dstFactor
    (OutputMerger.blendEquationA om)
  pure (TextureEnv.rgba (fun c => rgb c.castSucc) (alpha a))

/-- `blend_output` before the write masks. -/
def blendOutput (om : OutputMerger) (combinerOutput dest : Fin 4 → BitVec 8) :
    Except Exception (Fin 4 → BitVec 8) :=
  if om.alphablendEnable then alphaBlend om combinerOutput dest
  else
    match om.logicOp.toNat with
    | 4 => pure combinerOutput
    | 6 => pure dest
    | op => throw (.runtimeError s!"Unknown logic op {TextureEnv.hex op}")

/-- The channels that are not written are those of the framebuffer. -/
def masked (om : OutputMerger) (dest blended : Fin 4 → BitVec 8) : Fin 4 → BitVec 8 :=
  fun c => if OutputMerger.colorWriteEnable om c then blended c else dest c

section Fragment

variable (r : DrawRegisters) (shading : Shading) (pw : Vec2 × Weights)

/-- The stencil in the framebuffer; `none` where the fragment ends here. -/
def stencilTest (x y : ℕ) : DrawM (Option (BitVec 8)) :=
  let test := r.outputMerger.stencilTest
  if test.enabled then do
    let current ← getStencil r.framebuffer x y
    if compareStencil test.compareFunction (test.reference &&& test.maskIn)
        (current &&& test.maskIn) then
      return some current
    else
      applyStencilOp r.framebuffer test.opFailStencil test.maskOut x y current test.reference
      return none
  else return some 0

/-- `ApplyStencilOp` after the stencil test has passed. -/
def updateStencil (op : BitVec 3) (x y : ℕ) (current : BitVec 8) : DrawM Unit :=
  let test := r.outputMerger.stencilTest
  if test.enabled then
    applyStencilOp r.framebuffer op test.maskOut x y current test.reference
  else pure ()

/-- Whether the fragment goes on. -/
def depthTest (x y : ℕ) (current : BitVec 8) : DrawM Bool :=
  let om := r.outputMerger
  if om.depthTestEnable then do
    let bits ← ofExcept (depthScaleBits r.framebuffer)
    let z := shading.depth bits pw
    let refZ ← getDepth r.framebuffer x y
    if ← ofExcept (depthPasses om.depthTestFunc z refZ) then
      if r.framebuffer.depthStencilWriteEnabled && om.depthWriteEnable then
        setDepth r.framebuffer x y z
      return true
    else
      updateStencil r om.stencilTest.opPassStencilFailDepth x y current
      return false
  else return true

def writeColor (x y : ℕ) (combinerOutput : Fin 4 → BitVec 8) : DrawM Unit :=
  if r.framebuffer.colorWriteEnabled then do
    let dest ← getPixel r.framebuffer x y
    let blended ← ofExcept (blendOutput r.outputMerger combinerOutput dest)
    drawPixel r.framebuffer x y (masked r.outputMerger dest blended)
  else pure ()

/-- What is done after the alpha test. -/
def drawFragment (x y : ℕ) (combinerOutput : Fin 4 → BitVec 8) : DrawM Unit := do
  if let some current ← stencilTest r x y then
    if ← depthTest r shading pw x y current then
      updateStencil r r.outputMerger.stencilTest.opPassBoth x y current
      writeColor r x y combinerOutput

/-- One round of the loop over the pixels. -/
def processFragment : DrawM Unit := do
  let inputs ← ofExcept (shading.inputs (← get).memory pw)
  match ← ofExcept (TextureEnv.softwareFragment r.combiners inputs) with
  | some combinerOutput =>
    drawFragment r shading pw (pw.1.x.toNat >>> 4) (pw.1.y.toNat >>> 4) combinerOutput
  | none => pure ()

end Fragment

/-- `ProcessTriangle`; `none` where a sum of it is undefined. -/
def drawTriangle (r : DrawRegisters) (shading : Shading) (t : Triangle Vec2) :
    Option (DrawM Unit) :=
  match arranged r.cullMode t with
  | none => some (pure ())
  | some t => (coverage t).map fun pixels => do
      ofExcept (validatePipelineConfiguration r)
      pixels.forM (processFragment r shading)

/-! ## What is kept -/

/-- All writes are sound, and a byte that none of them covers is as it was. So are, in buffers
without a common byte, the channels and the stencil bits that are not written. -/
structure Drawing.Sound (r : DrawRegisters) (memory : Bytes 32) (d : Drawing) : Prop where
  writes : ∀ w ∈ d.writes, w.Sound r.framebuffer (OutputMerger.colorWriteEnable r.outputMerger)
    r.outputMerger.stencilTest.maskOut
  frame : ∀ a, (∀ w ∈ d.writes, w.size ≤ (a - w.address).toNat) → d.memory a = memory a
  channels : Apart r.framebuffer →
    ∀ size, colorBytes r.framebuffer.getColorFormat = .ok size →
    ∀ i < pixelCount r.framebuffer.width r.framebuffer.height,
    ∀ c, OutputMerger.colorWriteEnable r.outputMerger c = false →
      channel r.framebuffer size d.memory (BitVec.ofNat 32 i) c =
        channel r.framebuffer size memory (BitVec.ofNat 32 i) c
  stencil : Apart r.framebuffer → r.framebuffer.getDepthStencilFormat = .d24s8 →
    ∀ i < pixelCount r.framebuffer.width r.framebuffer.height,
      depthByte r.framebuffer d.memory (BitVec.ofNat 32 i) 3 &&&
          ~~~r.outputMerger.stencilTest.maskOut =
        depthByte r.framebuffer memory (BitVec.ofNat 32 i) 3 &&&
          ~~~r.outputMerger.stencilTest.maskOut

section Steps

variable {r : DrawRegisters} {shading : Shading} {memory : Bytes 32} {d : Drawing} {x y : ℕ}
  {current : BitVec 8} {pw : Vec2 × Weights}

theorem Drawing.Sound.start : (⟨memory, []⟩ : Drawing).Sound r memory :=
  ⟨fun _ h => absurd h List.not_mem_nil, fun _ _ => rfl, fun _ _ _ _ _ _ _ => rfl,
    fun _ _ _ _ => rfl⟩

theorem Drawing.Sound.write (hd : d.Sound r memory) {target : Target} {size : ℕ} {address : PAddr}
    {value : BitVec 32}
    (hw : Write.Sound r.framebuffer (OutputMerger.colorWriteEnable r.outputMerger)
      r.outputMerger.stencilTest.maskOut ⟨target, d.memory, address, size, value⟩) :
    Ends (writeLegacy target size address value) d
      (fun _ d' => d'.Sound r memory ∧ d'.memory = stored size d.memory address value)
      fun _ d' => d'.Sound r memory := by
  refine ⟨⟨fun w hmem => ?_, fun a ha => ?_,
    fun hapart size' hsize i hi c hc => (hw.keeps_channel hapart hsize hi hc).trans
      (hd.channels hapart size' hsize i hi c hc),
    fun hapart hformat i hi => (hw.keeps_stencil hapart hformat hi).trans
      (hd.stencil hapart hformat i hi)⟩, rfl⟩
  · rcases List.mem_append.1 hmem with hmem | hmem
    · exact hd.writes w hmem
    · rw [List.mem_singleton.1 hmem]
      exact hw
  · have hlast := ha _ (List.mem_append_right _ (List.mem_singleton_self _))
    exact (stored_other hlast).trans (hd.frame a fun w hmem => ha w (List.mem_append_left _ hmem))

theorem ends_ofExcept {α : Type} {e : Except Exception α} {Q : α → Drawing → Prop}
    {E : Exception → Drawing → Prop} (hok : ∀ a, e = .ok a → Q a d) (herror : ∀ e', E e' d) :
    Ends (ofExcept e) d Q E := by
  cases e with
  | ok a => exact hok a rfl
  | error e' => exact herror e'

/-- The colour of a pixel that is read. -/
theorem getPixel_ends : Ends (getPixel r.framebuffer x y) d
    (fun dest d' => d' = d ∧ ∃ size, colorBytes r.framebuffer.getColorFormat = .ok size ∧
      dest = decodeColor r.framebuffer.getColorFormat
        (loaded size d.memory (colorAddress r.framebuffer size x y)))
    fun _ d' => d' = d := by
  refine (ends_ofExcept (fun size hsize => ?_) fun _ => rfl :
    Ends (ofExcept _) d (fun size d' => d' = d ∧
      colorBytes r.framebuffer.getColorFormat = .ok size) fun _ d' => d' = d).bind ?_
  · exact ⟨rfl, hsize⟩
  · rintro size _ ⟨rfl, hsize⟩
    exact ⟨rfl, size, hsize, rfl⟩

theorem writeColor_ends (hinside : InsideBuffer r.framebuffer.width r.framebuffer.height x y)
    (hd : d.Sound r memory) (combinerOutput : Fin 4 → BitVec 8) :
    Ends (writeColor r x y combinerOutput) d (fun _ d' => d'.Sound r memory)
      fun _ d' => d'.Sound r memory := by
  refine Ends.split (fun _ => ?_) fun _ => hd
  refine (getPixel_ends.mono (fun _ _ h => h) fun _ d' (h : d' = d) => h ▸ hd).bind ?_
  rintro dest d ⟨rfl, size, hsize, rfl⟩
  refine (ends_ofExcept (fun _ _ => rfl) fun _ => hd :
    Ends (ofExcept _) d (fun _ d' => d' = d) fun _ d' => d'.Sound r memory).bind ?_
  rintro blended d rfl
  have hwrite : drawPixel r.framebuffer x y (masked r.outputMerger
      (decodeColor r.framebuffer.getColorFormat
        (loaded size d.memory (colorAddress r.framebuffer size x y))) blended) =
      writeLegacy .color size (colorAddress r.framebuffer size x y)
        (encodeColor r.framebuffer.getColorFormat (masked r.outputMerger
          (decodeColor r.framebuffer.getColorFormat
            (loaded size d.memory (colorAddress r.framebuffer size x y))) blended)) := by
    rw [drawPixel, hsize]
    rfl
  rw [hwrite]
  refine (hd.write (color_sound hinside hsize fun c hc => ?_)).mono (fun _ _ h => h.1)
    fun _ _ h => h
  rw [masked, if_neg (by rw [hc]; exact Bool.false_ne_true)]

/-- The stencil byte is the one that was read, if there is one. -/
def Holds (r : DrawRegisters) (x y : ℕ) (current : BitVec 8) (d : Drawing) : Prop :=
  r.outputMerger.stencilTest.enabled = true → r.framebuffer.getDepthStencilFormat = .d24s8 →
    depthByte r.framebuffer d.memory (r.framebuffer.pixelIndex x y) 3 = current

theorem applyStencilOp_ends (hinside : InsideBuffer r.framebuffer.width r.framebuffer.height x y)
    (hd : d.Sound r memory)
    (hcurrent : r.framebuffer.getDepthStencilFormat = .d24s8 →
      depthByte r.framebuffer d.memory (r.framebuffer.pixelIndex x y) 3 = current)
    (op : BitVec 3) (ref : BitVec 8) :
    Ends (applyStencilOp r.framebuffer op r.outputMerger.stencilTest.maskOut x y current ref) d
      (fun _ d' => d'.Sound r memory) fun _ d' => d'.Sound r memory := by
  refine Ends.split (fun _ => hd) fun _ => ?_
  split
  next hformat =>
    exact (hd.write (stencil_sound hinside hformat (hcurrent hformat) _)).mono
      (fun _ _ h => h.1) fun _ _ h => h
  next => exact hd

theorem updateStencil_ends (hinside : InsideBuffer r.framebuffer.width r.framebuffer.height x y)
    (hd : d.Sound r memory) (hcurrent : Holds r x y current d) (op : BitVec 3) :
    Ends (updateStencil r op x y current) d (fun _ d' => d'.Sound r memory)
      fun _ d' => d'.Sound r memory :=
  Ends.split (fun henabled => applyStencilOp_ends hinside hd (hcurrent henabled) op _) fun _ => hd

theorem getStencil_ends : Ends (getStencil r.framebuffer x y) d
    (fun value d' => d' = d ∧
      depthByte r.framebuffer d.memory (r.framebuffer.pixelIndex x y) 3 = value)
    fun _ d' => d' = d := by
  unfold getStencil
  split
  next =>
    refine ⟨rfl, ?_⟩
    apply BitVec.eq_of_getLsbD_eq
    intro i hi
    rw [BitVec.getLsbD_setWidth, getLsbD_loaded (by decide), Nat.div_eq_of_lt hi,
      Nat.mod_eq_of_lt hi, BitVec.add_zero]
    simp [hi, depthByte]
  next => rfl

theorem stencilTest_ends (hinside : InsideBuffer r.framebuffer.width r.framebuffer.height x y)
    (hd : d.Sound r memory) :
    Ends (stencilTest r x y) d
      (fun result d' => d'.Sound r memory ∧ ∀ current ∈ result, Holds r x y current d')
      fun _ d' => d'.Sound r memory := by
  unfold stencilTest
  refine Ends.split (fun _ => ?_) fun hdisabled => ⟨hd, fun _ _ h => absurd h hdisabled⟩
  refine (getStencil_ends.mono (fun _ _ h => h) fun _ d' (h : d' = d) => h ▸ hd).bind ?_
  rintro current d ⟨rfl, hcurrent⟩
  refine Ends.split (fun _ => ?_) fun _ => ?_
  · refine ⟨hd, fun current' h => ?_⟩
    obtain rfl : current = current' := Option.some.inj h
    exact fun _ _ => hcurrent
  · refine ((applyStencilOp_ends hinside hd (fun _ => hcurrent) _ _).mono (fun _ _ h => h)
      fun _ _ h => h).bind fun _ d' h => ?_
    exact ⟨h, by simp⟩

/-- The depth is written, the stencil stays. -/
theorem setDepth_ends (hinside : InsideBuffer r.framebuffer.width r.framebuffer.height x y)
    (hd : d.Sound r memory) (hcurrent : Holds r x y current d) (value : BitVec 32) :
    Ends (setDepth r.framebuffer x y value) d
      (fun _ d' => d'.Sound r memory ∧ Holds r x y current d') fun _ d' => d'.Sound r memory := by
  have hbyte {d : Drawing} {k : ℕ} (hk : k < 3) (value : BitVec 32)
      (hformat : r.framebuffer.getDepthStencilFormat = .d24s8)
      (h : d.Sound r memory ∧ Holds r x y current d) :
      Ends (writeLegacy .depth 1 (r.framebuffer.getDepthBufferPhysicalAddress + BitVec.ofNat 32 k +
        4 * r.framebuffer.pixelIndex x y) value) d
        (fun _ d' => d'.Sound r memory ∧ Holds r x y current d')
        fun _ d' => d'.Sound r memory := by
    refine (h.1.write (depth_sound hinside hformat hk value)).mono (fun _ d' h' => ?_)
      fun _ _ h => h
    refine ⟨h'.1, fun henabled hformat => ?_⟩
    rw [h'.2, ← h.2 henabled hformat]
    exact stored_other (depth_apart _ _ _ 3 k (by decide) (by omega) (by omega))
  unfold setDepth
  split
  next hformat =>
    have h0 := hbyte (show 0 < 3 by decide) (value &&& 0xff) hformat ⟨hd, hcurrent⟩
    rw [BitVec.add_zero] at h0
    refine h0.bind fun _ d1 h1 => ?_
    refine (hbyte (show 1 < 3 by decide) (value >>> 8 &&& 0xff) hformat h1).bind fun _ d2 h2 => ?_
    exact hbyte (show 2 < 3 by decide) (value >>> 16 &&& 0xff) hformat h2
  next hformat =>
    refine (hd.write (depth16_sound hinside hformat value)).mono (fun _ _ h => ⟨h.1, ?_⟩)
      fun _ _ h => h
    intro _ hformat'
    rw [hformat] at hformat'
    exact nomatch hformat'
  next => exact hd

theorem getDepth_ends : Ends (getDepth r.framebuffer x y) d (fun _ d' => d' = d)
    fun _ d' => d' = d := by
  unfold getDepth
  split <;> rfl

theorem depthTest_ends (hinside : InsideBuffer r.framebuffer.width r.framebuffer.height x y)
    (hd : d.Sound r memory) (hcurrent : Holds r x y current d) :
    Ends (depthTest r shading pw x y current) d
      (fun goOn d' => d'.Sound r memory ∧ (goOn = true → Holds r x y current d'))
      fun _ d' => d'.Sound r memory := by
  unfold depthTest
  refine Ends.split (fun _ => ?_) fun _ => ⟨hd, fun _ => hcurrent⟩
  refine (ends_ofExcept (fun _ _ => rfl) fun _ => hd :
    Ends (ofExcept _) d (fun _ d' => d' = d) fun _ d' => d'.Sound r memory).bind ?_
  rintro bits d rfl
  refine (getDepth_ends.mono (fun _ _ h => h) fun _ d' (h : d' = d) => h ▸ hd).bind ?_
  rintro refZ d rfl
  refine (ends_ofExcept (fun _ _ => rfl) fun _ => hd :
    Ends (ofExcept _) d (fun _ d' => d' = d) fun _ d' => d'.Sound r memory).bind ?_
  rintro pass d rfl
  refine Ends.split (fun _ => ?_) fun _ => ?_
  · by_cases hwrite : (r.framebuffer.depthStencilWriteEnabled &&
        r.outputMerger.depthWriteEnable) = true
    · rw [if_pos hwrite]
      exact (setDepth_ends hinside hd hcurrent _).bind fun _ d' h => ⟨h.1, fun _ => h.2⟩
    · rw [if_neg hwrite]
      exact ⟨hd, fun _ => hcurrent⟩
  · exact (updateStencil_ends hinside hd hcurrent _).bind fun _ d' h =>
      ⟨h, fun h => absurd h Bool.false_ne_true⟩

theorem drawFragment_ends (hinside : InsideBuffer r.framebuffer.width r.framebuffer.height x y)
    (hd : d.Sound r memory) (combinerOutput : Fin 4 → BitVec 8) :
    Ends (drawFragment r shading pw x y combinerOutput) d (fun _ d' => d'.Sound r memory)
      fun _ d' => d'.Sound r memory := by
  refine (stencilTest_ends hinside hd).bind fun result d1 h1 => ?_
  cases result with
  | none => exact h1.1
  | some current =>
    refine (depthTest_ends hinside h1.1 (h1.2 current rfl)).bind fun goOn d2 h2 => ?_
    refine Ends.split (fun hgo => ?_) fun _ => h2.1
    refine (updateStencil_ends hinside h2.1 (h2.2 hgo) _).bind fun _ d3 h3 => ?_
    exact writeColor_ends hinside h3 combinerOutput

/-- The coordinates of the pixel, from its centre. -/
def pixelX (p : Vec2) : ℕ := p.x.toNat >>> 4
def pixelY (p : Vec2) : ℕ := p.y.toNat >>> 4

theorem processFragment_ends
    (hinside : InsideBuffer r.framebuffer.width r.framebuffer.height (pixelX pw.1) (pixelY pw.1))
    (hd : d.Sound r memory) :
    Ends (processFragment r shading pw) d (fun _ d' => d'.Sound r memory)
      fun _ d' => d'.Sound r memory := by
  refine (ends_ofExcept (fun _ _ => rfl) fun _ => hd :
    Ends (ofExcept _) d (fun _ d' => d' = d) fun _ d' => d'.Sound r memory).bind ?_
  rintro inputs d rfl
  refine (ends_ofExcept (fun _ _ => rfl) fun _ => hd :
    Ends (ofExcept _) d (fun _ d' => d' = d) fun _ d' => d'.Sound r memory).bind ?_
  rintro output d rfl
  cases output with
  | none => exact hd
  | some combinerOutput => exact drawFragment_ends hinside hd combinerOutput

theorem processFragments_ends (pixels : List (Vec2 × Weights))
    (hinside : ∀ pw ∈ pixels, InsideBuffer r.framebuffer.width r.framebuffer.height
      (pixelX pw.1) (pixelY pw.1)) (hd : d.Sound r memory) :
    Ends (pixels.forM (processFragment r shading)) d (fun _ d' => d'.Sound r memory)
      fun _ d' => d'.Sound r memory := by
  induction pixels generalizing d with
  | nil => exact hd
  | cons pw pixels ih =>
    refine (processFragment_ends (hinside pw List.mem_cons_self) hd).bind fun _ d' hd' => ?_
    exact ih (fun pw' h => hinside pw' (List.mem_cons_of_mem _ h)) hd'

/-- A fragment whose combiners come to an end. -/
theorem processFragment_eq {inputs : TextureEnv.FragmentInputs}
    {output : Option (Fin 4 → BitVec 8)} (hinputs : shading.inputs d.memory pw = .ok inputs)
    (houtput : TextureEnv.softwareFragment r.combiners inputs = .ok output) :
    processFragment r shading pw d =
      (match output with
      | some combinerOutput =>
        drawFragment r shading pw (pixelX pw.1) (pixelY pw.1) combinerOutput
      | none => pure ()) d := by
  have hrun : processFragment r shading pw d =
      ((ofExcept (shading.inputs d.memory pw) : DrawM _) >>= fun inputs =>
        ofExcept (TextureEnv.softwareFragment r.combiners inputs) >>= fun output =>
          match output with
          | some combinerOutput =>
            drawFragment r shading pw (pixelX pw.1) (pixelY pw.1) combinerOutput
          | none => pure ()) d := rfl
  rw [hrun, hinputs]
  change ((ofExcept (TextureEnv.softwareFragment r.combiners inputs) : DrawM _) >>= _) d = _
  rw [houtput]
  rfl

/-- A fragment that the alpha test drops changes nothing. -/
theorem processFragment_dropped {inputs : TextureEnv.FragmentInputs}
    (hinputs : shading.inputs d.memory pw = .ok inputs)
    {s : TextureEnv.CombinerState (BitVec 8)}
    (hstages : TextureEnv.softwareStages r.combiners inputs (List.finRange 6) = .ok s)
    (hdrops : TextureEnv.alphaTestDrops r.combiners (s.output 3).toNat = .ok true) :
    processFragment r shading pw d = .ok () d := by
  have hnone : TextureEnv.softwareFragment r.combiners inputs = .ok none := by
    rw [TextureEnv.softwareFragment, hstages]
    change (TextureEnv.alphaTestDrops r.combiners (s.output 3).toNat >>= _) = _
    rw [hdrops]
    rfl
  rw [processFragment_eq hinputs hnone]
  rfl

end Steps

/-! ## Triangles -/

/-- Whatever the other registers and the memory are, the triangle is drawn soundly: also where it
ends with an exception. -/
def Confined (mode : CullMode) (width : BitVec 11) (height : BitVec 10) (t : Triangle Vec2) :
    Prop :=
  ∀ r shading memory, r.cullMode = mode → r.framebuffer.width = width →
    r.framebuffer.height = height →
    ∃ run, drawTriangle r shading t = some run ∧
      Ends run ⟨memory, []⟩ (fun _ d => d.Sound r memory) fun _ d => d.Sound r memory

/-- Nothing overflows in the edges of the triangle, and all pixels it covers are in the buffer. -/
def CoversInside (mode : CullMode) (width : BitVec 11) (height : BitVec 10) (t : Triangle Vec2) :
    Prop :=
  ∃ pixels, processTriangle mode t = some pixels ∧
    ∀ pw ∈ pixels, InsideBuffer width height (pixelX pw.1) (pixelY pw.1)

section Triangles

variable {mode : CullMode} {width : BitVec 11} {height : BitVec 10} {t : Triangle Vec2}
  {pixels : List (Vec2 × Weights)} {pw : Vec2 × Weights}

theorem drawTriangle_eq (r : DrawRegisters) (shading : Shading)
    (h : processTriangle r.cullMode t = some pixels) :
    drawTriangle r shading t = some (pure ()) ∧ pixels = [] ∨
      drawTriangle r shading t = some (do
        ofExcept (validatePipelineConfiguration r)
        pixels.forM (processFragment r shading)) := by
  unfold processTriangle at h
  unfold drawTriangle
  cases harr : arranged r.cullMode t with
  | none =>
    rw [harr] at h
    exact .inl ⟨rfl, (Option.some.inj h).symm⟩
  | some t' =>
    rw [harr] at h
    right
    change (coverage t').map _ = _
    rw [show coverage t' = some pixels from h]
    rfl

theorem confined_of_coversInside (h : CoversInside mode width height t) :
    Confined mode width height t := by
  obtain ⟨pixels, hpixels, hinside⟩ := h
  rintro r shading memory rfl rfl rfl
  rcases drawTriangle_eq r shading hpixels with ⟨hrun, -⟩ | hrun
  · exact ⟨_, hrun, .start⟩
  · refine ⟨_, hrun, (ends_ofExcept (fun _ _ => rfl) fun _ => .start :
      Ends (ofExcept _) _ (fun _ d' => d' = ⟨memory, []⟩) fun _ d' => d'.Sound r memory).bind ?_⟩
    rintro _ d rfl
    exact processFragments_ends pixels hinside .start

/-- Six stages that copy the colour of the vertices. -/
def plainCombiners : TextureEnv.Registers := ⟨fun _ => ⟨fun _ => 0⟩, 0, 0, 0⟩

/-- No test, and all channels are written. -/
def plainOutput : OutputMerger where
  alphablendEnable := false
  alphaBlending := 0
  logicOp := 4
  blendConstant := 0
  stencilTest := ⟨0, 0⟩
  depthTestEnable := false
  depthTestFunc := 1
  colorWriteEnableR := true
  colorWriteEnableG := true
  colorWriteEnableB := true
  colorWriteEnableA := true
  depthWriteEnable := false

/-- Registers that draw all covered pixels. -/
def plainRegisters (mode : CullMode) (width : BitVec 11) (height : BitVec 10) : DrawRegisters where
  cullMode := mode
  framebuffer := ⟨0xf, 0xf, 3, 0, 3, 0, 0x03000000, 0x03080000, width, height⟩
  outputMerger := plainOutput
  combiners := plainCombiners

def plainShading : Shading where
  inputs _ _ := .ok ⟨fun _ => 0xff, fun _ _ => 0⟩
  depth _ _ := 0

theorem softwareFragment_plain : ∃ color,
    TextureEnv.softwareFragment plainCombiners ⟨fun _ => 0xff, fun _ _ => 0⟩ =
      .ok (some color) := ⟨_, rfl⟩

theorem writeColor_plain (x y : ℕ) (color : Fin 4 → BitVec 8) (d : Drawing) :
    ∃ d', writeColor (plainRegisters mode width height) x y color d = .ok () d' ∧
      ∃ value, d'.writes = d.writes ++ [⟨.color, d.memory,
        colorAddress (plainRegisters mode width height).framebuffer 4 x y, 4, value⟩] := by
  refine ⟨_, rfl, ?_⟩
  exact ⟨_, rfl⟩

theorem drawFragment_plain (x y : ℕ) (color : Fin 4 → BitVec 8) (d : Drawing) :
    drawFragment (plainRegisters mode width height) plainShading pw x y color d =
      writeColor (plainRegisters mode width height) x y color d := by
  have hdisabled : plainOutput.stencilTest.enabled = false := rfl
  have houtput : (plainRegisters mode width height).outputMerger = plainOutput := rfl
  have hstencil : stencilTest (plainRegisters mode width height) x y d = .ok (some 0) d := by
    simp only [stencilTest, houtput, hdisabled]
    rfl
  have hdepth : depthTest (plainRegisters mode width height) plainShading pw x y 0 d =
      .ok true d := rfl
  have hupdate (op : BitVec 3) :
      updateStencil (plainRegisters mode width height) op x y 0 d = .ok () d := by
    simp only [updateStencil, houtput, hdisabled]
    rfl
  refine (EStateM.bind_of_ok hstencil).trans ((EStateM.bind_of_ok hdepth).trans ?_)
  exact EStateM.bind_of_ok (hupdate _)

/-- A pixel of a plain triangle is written. -/
theorem processFragment_plain (mode : CullMode) (width : BitVec 11) (height : BitVec 10)
    (pw : Vec2 × Weights) (d : Drawing) :
    ∃ d', processFragment (plainRegisters mode width height) plainShading pw d = .ok () d' ∧
      ∃ value, d'.writes = d.writes ++ [⟨.color, d.memory,
        colorAddress (plainRegisters mode width height).framebuffer 4 (pixelX pw.1) (pixelY pw.1),
        4, value⟩] := by
  obtain ⟨color, hcolor⟩ := softwareFragment_plain
  have hfragment : processFragment (plainRegisters mode width height) plainShading pw d =
      drawFragment (plainRegisters mode width height) plainShading pw (pixelX pw.1) (pixelY pw.1)
        color d :=
    @processFragment_eq (plainRegisters mode width height) plainShading d pw _ _ rfl hcolor
  rw [hfragment, drawFragment_plain]
  exact writeColor_plain _ _ color d

/-- All covered pixels of a plain triangle are. -/
theorem processFragments_plain (mode : CullMode) (width : BitVec 11) (height : BitVec 10)
    (pixels : List (Vec2 × Weights)) (d : Drawing) :
    ∃ d', pixels.forM (processFragment (plainRegisters mode width height) plainShading) d =
        .ok () d' ∧ (∀ w ∈ d.writes, w ∈ d'.writes) ∧
      ∀ pw ∈ pixels, ∃ w ∈ d'.writes, w.target = .color ∧ w.size = 4 ∧ w.address =
        colorAddress (plainRegisters mode width height).framebuffer 4 (pixelX pw.1)
          (pixelY pw.1) := by
  induction pixels generalizing d with
  | nil => exact ⟨d, rfl, fun _ h => h, by simp⟩
  | cons pw pixels ih =>
    obtain ⟨d1, hrun, value, hwrites⟩ := processFragment_plain mode width height pw d
    obtain ⟨d2, hrest, hgrow, hall⟩ := ih d1
    have hgrow' : ∀ w ∈ d.writes, w ∈ d2.writes := fun w hw =>
      hgrow w (by rw [hwrites]; exact List.mem_append_left _ hw)
    refine ⟨d2, ?_, hgrow', fun pw' h => ?_⟩
    · exact (EStateM.bind_of_ok hrun).trans hrest
    · rcases List.mem_cons.1 h with rfl | h
      · refine ⟨_, hgrow _ (by rw [hwrites]; exact List.mem_append_right _ List.mem_cons_self),
          rfl, rfl, rfl⟩
      · exact hall pw' h

/-- A pixel whose bytes are in the colour buffer lies in it. -/
theorem insideBuffer_of_inBuffer (fb : FramebufferRegisters) {x y : ℕ} (hx : x < 2 ^ 12)
    (hy : y < 2 ^ 12) (hformat : fb.getColorFormat = .rgba8)
    (h : InBuffer fb .color (colorAddress fb 4 x y)) : InsideBuffer fb.width fb.height x y := by
  obtain ⟨size, hsize, k, hk, heq⟩ := h
  rw [hformat] at hsize
  obtain rfl : 4 = size := Except.ok.inj hsize
  have heq := congrArg BitVec.toNat (add_left_cancel heq)
  rw [pixelIndex_eq, BitVec.toNat_mul, BitVec.toNat_ofInt, BitVec.toNat_ofNat,
    BitVec.toNat_ofNat] at heq
  have hw := fb.width.isLt
  have hh := fb.height.isLt
  have hlow : -(2 ^ 12 * 2 ^ 11 : ℤ) ≤ ((fb.height.toNat : ℤ) - y) * fb.width.toNat := by
    nlinarith
  have hhigh : ((fb.height.toNat : ℤ) - y) * fb.width.toNat ≤ 2 ^ 10 * 2 ^ 11 := by nlinarith
  have hcount : pixelCount fb.width fb.height ≤ 2 ^ 11 * 2 ^ 10 := Nat.mul_le_mul (by omega)
    (by omega)
  unfold InsideBuffer
  generalize ((fb.height.toNat : ℤ) - y) * fb.width.toNat = row at *
  generalize pixelCount fb.width fb.height = count at *
  omega

/-- A plain triangle, drawn. -/
theorem drawTriangle_plain (width : BitVec 11) (height : BitVec 10)
    (hpixels : processTriangle mode t = some pixels) (hpw : pw ∈ pixels) (memory : Bytes 32) :
    ∃ run d, drawTriangle (plainRegisters mode width height) plainShading t = some run ∧
      run ⟨memory, []⟩ = .ok () d ∧ ∃ w ∈ d.writes, w.target = .color ∧ w.size = 4 ∧ w.address =
        colorAddress (plainRegisters mode width height).framebuffer 4 (pixelX pw.1)
          (pixelY pw.1) := by
  rcases drawTriangle_eq (plainRegisters mode width height) plainShading hpixels with
    ⟨-, rfl⟩ | hrun
  · exact absurd hpw List.not_mem_nil
  · obtain ⟨d, hdraw, -, hall⟩ := processFragments_plain mode width height pixels ⟨memory, []⟩
    exact ⟨_, d, hrun, hdraw, hall pw hpw⟩

theorem not_inBuffer_of_outside {p : Vec2} (h : ¬ InsideBuffer width height (pixelX p) (pixelY p)) :
    ¬ InBuffer (plainRegisters mode width height).framebuffer .color
      (colorAddress (plainRegisters mode width height).framebuffer 4 (pixelX p) (pixelY p)) := by
  have hx := p.x.isLt
  have hy := p.y.isLt
  intro hin
  refine h (insideBuffer_of_inBuffer (plainRegisters mode width height).framebuffer ?_ ?_ rfl hin)
  · rw [pixelX, Nat.shiftRight_eq_div_pow]
    omega
  · rw [pixelY, Nat.shiftRight_eq_div_pow]
    omega

theorem processTriangle_of_drawTriangle {r : DrawRegisters} {shading : Shading} {run : DrawM Unit}
    (h : drawTriangle r shading t = some run) :
    ∃ pixels, processTriangle r.cullMode t = some pixels := by
  unfold drawTriangle at h
  unfold processTriangle
  cases harr : arranged r.cullMode t with
  | none => exact ⟨[], rfl⟩
  | some t' =>
    rw [harr] at h
    obtain ⟨pixels, hpixels, -⟩ := Option.map_eq_some_iff.1 h
    exact ⟨pixels, hpixels⟩

theorem coversInside_of_confined (h : Confined mode width height t) :
    CoversInside mode width height t := by
  obtain ⟨run, hrun, hends⟩ :=
    h (plainRegisters mode width height) plainShading (fun _ => 0) rfl rfl rfl
  obtain ⟨pixels, hpixels⟩ := processTriangle_of_drawTriangle hrun
  refine ⟨pixels, hpixels, fun pw hpw => ?_⟩
  by_contra hout
  obtain ⟨run', d, hrun', hdraw, w, hw, htarget, hsize, haddress⟩ :=
    drawTriangle_plain width height hpixels hpw fun _ => 0
  obtain rfl := Option.some.inj (hrun.symm.trans hrun')
  have hin := ((hends.ok hdraw).writes w hw).confined 0 (by omega)
  rw [htarget, BitVec.add_zero, haddress] at hin
  exact not_inBuffer_of_outside hout hin

/-- **Fragment writes**: all writes are inside their buffers and keep what they are not for exactly
where nothing overflows in the edges and the covered pixels are in the buffer. A fragment that the
alpha test drops changes nothing. -/
theorem fragmentWrites_confined_iff (mode : CullMode) (width : BitVec 11) (height : BitVec 10)
    (t : Triangle Vec2) :
    (Confined mode width height t ↔ CoversInside mode width height t) ∧
    ∀ (r : DrawRegisters) (shading : Shading) (pw : Vec2 × Weights) (d : Drawing)
      (inputs : TextureEnv.FragmentInputs) (s : TextureEnv.CombinerState (BitVec 8)),
      shading.inputs d.memory pw = .ok inputs →
      TextureEnv.softwareStages r.combiners inputs (List.finRange 6) = .ok s →
      TextureEnv.alphaTestDrops r.combiners (s.output 3).toNat = .ok true →
      processFragment r shading pw d = .ok () d :=
  ⟨⟨coversInside_of_confined, confined_of_coversInside⟩,
    fun _ _ _ _ _ _ hinputs hstages hdrops => processFragment_dropped hinputs hstages hdrops⟩

/-- A coordinate of a scanned centre, in pixels. -/
theorem scanned_pixel {a b c v : Fix12P4} {n : ℕ} (hn : n < 2 ^ 12)
    (hv : v.toNat ∈ scan (boxMin a b c + 8) (boxMax a b c))
    (ha : a.toNat ≤ 16 * n) (hb : b.toNat ≤ 16 * n) (hc : c.toNat ≤ 16 * n) :
    v.toNat >>> 4 < n := by
  rw [mem_scan, boxMin_eq, boxMax_eq] at hv
  rw [Nat.shiftRight_eq_div_pow]
  omega

def OnScreen (width : BitVec 11) (height : BitVec 10) (v : Vec2) : Prop :=
  v.x.toNat ≤ 16 * width.toNat ∧ v.y.toNat ≤ 16 * (height.toNat + 1)

instance (v : Vec2) : Decidable (OnScreen width height v) := inferInstanceAs (Decidable (_ ∧ _))

theorem insideBuffer_of_lt {x y : ℕ} (hx : x < width.toNat) (hy : y < height.toNat + 1) :
    InsideBuffer width height x y := by
  have hrow : 0 ≤ ((height.toNat : ℤ) - y) * width.toNat :=
    mul_nonneg (by omega) (Int.natCast_nonneg _)
  have hlast : ((height.toNat : ℤ) - y) * width.toNat ≤ (height.toNat : ℤ) * width.toNat :=
    mul_le_mul_of_nonneg_right (by omega) (Int.natCast_nonneg _)
  have hcount : ((pixelCount width height : ℕ) : ℤ) =
      (height.toNat : ℤ) * width.toNat + width.toNat := by
    rw [pixelCount]
    push_cast
    ring
  unfold InsideBuffer
  rw [hcount]
  omega

theorem insideBuffer_of_scanned {p : Vec2} (hp : Scanned t p) (h0 : OnScreen width height t.v0)
    (h1 : OnScreen width height t.v1) (h2 : OnScreen width height t.v2) :
    InsideBuffer width height (pixelX p) (pixelY p) := by
  have hw := width.isLt
  have hh := height.isLt
  exact insideBuffer_of_lt (scanned_pixel (by omega) hp.1 h0.1 h1.1 h2.1)
    (scanned_pixel (by omega) hp.2 h0.2 h1.2 h2.2)

theorem arranged_eq {s : Triangle Vec2} (h : arranged mode t = some s) :
    s = t ∨ s = reversed t := by
  unfold arranged kept at h
  split_ifs at h <;> cases h
  all_goals first | exact .inl rfl | exact .inr rfl

/-- A triangle with its vertices on the screen covers pixels of the buffer only. -/
theorem coversInside_of_onScreen (hpixels : processTriangle mode t = some pixels)
    (h0 : OnScreen width height t.v0) (h1 : OnScreen width height t.v1)
    (h2 : OnScreen width height t.v2) : CoversInside mode width height t := by
  refine ⟨pixels, hpixels, fun pw hpw => ?_⟩
  unfold processTriangle at hpixels
  cases harr : arranged mode t with
  | none =>
    rw [harr] at hpixels
    obtain rfl : [] = pixels := Option.some.inj hpixels
    cases hpw
  | some s =>
    rw [harr] at hpixels
    obtain ⟨bias, hbias⟩ := biases_of_coverage hpixels
    obtain ⟨p, w⟩ := pw
    have hscanned := ((mem_coverage hbias hpixels).1 hpw).1
    rcases arranged_eq harr with rfl | rfl
    · exact insideBuffer_of_scanned hscanned h0 h1 h2
    · exact insideBuffer_of_scanned hscanned h0 h2 h1

end Triangles

/-! ## Two triangles -/

/-- Two pixels wide. -/
def smallTriangle : Triangle Vec2 := ⟨⟨0, 0⟩, ⟨32, 0⟩, ⟨0, 32⟩⟩

/-- The alpha test drops what has the alpha of the plain colour. -/
def droppingRegisters : DrawRegisters :=
  { plainRegisters .keepCounterClockWise 2 1 with
    combiners := { plainCombiners with alphaTest := 0xff31 } }

/-- The triangle on the screen is confined, also with these registers, whose fragments write
nothing. -/
theorem fragmentWrites_onScreen :
    Confined .keepCounterClockWise 2 1 smallTriangle ∧
      processFragment droppingRegisters plainShading (⟨8, 8⟩, ⟨0, 0, 0⟩) ⟨fun _ => 0, []⟩ =
        .ok () ⟨fun _ => 0, []⟩ := by
  refine ⟨(fragmentWrites_confined_iff .keepCounterClockWise 2 1 smallTriangle).1.2 ?_,
    (fragmentWrites_confined_iff .keepCounterClockWise 2 1 smallTriangle).2 droppingRegisters
      plainShading _ _ ⟨fun _ => 0xff, fun _ _ => 0⟩ _ rfl rfl rfl⟩
  obtain ⟨pixels, hpixels⟩ : ∃ pixels, coverage smallTriangle = some pixels :=
    coverage_of_biases (by rfl : biases smallTriangle = some _)
  exact coversInside_of_onScreen (t := smallTriangle) hpixels (by decide) (by decide) (by decide)

/-- Five hundred pixels wide. -/
def largeTriangle : Triangle Vec2 := ⟨⟨0, 0⟩, ⟨8000, 0⟩, ⟨0, 8000⟩⟩

/-- The large triangle covers the pixel in column 10 of row 400. -/
theorem largeTriangle_covers : ∃ pixels, processTriangle .keepCounterClockWise largeTriangle =
    some pixels ∧ ∃ w, (⟨168, 6408⟩, w) ∈ pixels := by
  have hbias : biases largeTriangle = some ⟨-1, 0, 0⟩ := by rfl
  obtain ⟨pixels, hpixels⟩ := coverage_of_biases hbias
  refine ⟨pixels, hpixels, _, (mem_coverage hbias hpixels).2 ⟨?_, rfl, by decide⟩⟩
  constructor
  · rw [mem_scan]; decide
  · rw [mem_scan]; decide

/-- In buffers of 240 by 320 pixels, the large triangle writes a colour outside of them. -/
theorem fragmentWrites_offScreen :
    ¬ Confined .keepCounterClockWise 240 319 largeTriangle ∧
    ∃ run d, drawTriangle (plainRegisters .keepCounterClockWise 240 319) plainShading
        largeTriangle = some run ∧ run ⟨fun _ => 0, []⟩ = .ok () d ∧
      ∃ w ∈ d.writes, w.target = .color ∧ 0 < w.size ∧
        ¬ InBuffer (plainRegisters .keepCounterClockWise 240 319).framebuffer .color w.address := by
  obtain ⟨pixels, hpixels, weights, hpw⟩ := largeTriangle_covers
  have hout : ¬ InsideBuffer 240 319 (pixelX ⟨168, 6408⟩) (pixelY ⟨168, 6408⟩) := by decide
  constructor
  · intro h
    obtain ⟨pixels', hpixels', hinside⟩ := coversInside_of_confined h
    obtain rfl := Option.some.inj (hpixels.symm.trans hpixels')
    have hin := hinside _ hpw
    exact hout hin
  · obtain ⟨run, d, hrun, hdraw, w, hw, htarget, hsize, haddress⟩ :=
      drawTriangle_plain 240 319 hpixels hpw fun _ => 0
    refine ⟨run, d, hrun, hdraw, w, hw, htarget, by omega, ?_⟩
    rw [haddress]
    exact not_inBuffer_of_outside hout

end Mikage.Pica.Rasterizer
