import Mikage.Lib.BitFields
import Mikage.Lib.Run
import Mikage.Lib.Words
import Mikage.Framework.Exceptions

/-!
# The pipeline cache

`Lookup` files pipelines under a key that it packs from registers. What it builds a pipeline from
is read from the same registers, but also from some that the key leaves out.

- `PipelineCache.prepare`: the key, with the depth and stencil state that is made along the way.
- `PipelineCache.createInfo`: what a pipeline is created from.
- `SameOutsideKey`: the registers and arguments that only `createInfo` reads.
-/

namespace Mikage.Pica.PipelineKey

open Lib.BitFields

/-! ## Registers and arguments -/

structure StencilTest where
  raw1 : BitVec 32
  raw2 : BitVec 32

namespace StencilTest

variable (s : StencilTest)

def enabled : Bool := s.raw1.getLsbD 0
def compareFunction : BitVec 3 := s.raw1.extractLsb' 4 3
def maskOut : BitVec 8 := s.raw1.extractLsb' 8 8
def reference : BitVec 8 := s.raw1.extractLsb' 16 8
def maskIn : BitVec 8 := s.raw1.extractLsb' 24 8
def opFailStencil : BitVec 3 := s.raw2.extractLsb' 0 3
def opPassStencilFailDepth : BitVec 3 := s.raw2.extractLsb' 4 3
def opPassBoth : BitVec 3 := s.raw2.extractLsb' 8 3

end StencilTest

/-- `OutputMerger`. The words that are also read as a whole stay whole. -/
structure OutputMerger where
  alphablendEnable : Bool
  alphaBlending : BitVec 32
  logicOp : BitVec 4
  blendConstant : BitVec 32
  stencilTest : StencilTest
  depthTestEnable : Bool
  depthTestFunc : BitVec 3
  colorWriteEnableR : Bool
  colorWriteEnableG : Bool
  colorWriteEnableB : Bool
  colorWriteEnableA : Bool
  depthWriteEnable : Bool

/-- `framebuffer`, with the access flags and one of the four formats that `format_map` lists. -/
structure Framebuffer where
  colorWrite : BitVec 4
  depthStencilRead : BitVec 2
  depthStencilWrite : BitVec 2
  depthFormat : BitVec 2

namespace Framebuffer

def colorWriteEnabled (f : Framebuffer) : Bool := f.colorWrite != 0
def depthStencilReadEnabled (f : Framebuffer) : Bool := f.depthStencilRead != 0
def depthStencilWriteEnabled (f : Framebuffer) : Bool := f.depthStencilWrite != 0

/-- The last format is D24S8. -/
def hasStencilBuffer (f : Framebuffer) : Bool := f.depthFormat == 3

end Framebuffer

structure Regs where
  cullMode : BitVec 2
  viewportSizeX : BitVec 24
  viewportSizeY : BitVec 24
  viewportDepthRange : BitVec 24
  viewportDepthFarPlane : BitVec 24
  viewportCorner : BitVec 32
  triangleTopology : BitVec 2
  maxShaderInputAttributeIndex : BitVec 4
  vsInputRegisterMap : BitVec 64
  outputMerger : OutputMerger
  framebuffer : Framebuffer

/-- The four bytes of a word as they lie in memory. -/
def wordBytes (v : BitVec 32) : List (BitVec 8) :=
  [v.extractLsb' 0 8, v.extractLsb' 8 8, v.extractLsb' 16 8, v.extractLsb' 24 8]

/-- `VkVertexInputBindingDescription`. -/
structure BindingDescription where
  binding : BitVec 32
  stride : BitVec 32
  inputRate : BitVec 32

/-- `VkVertexInputAttributeDescription`. -/
structure AttributeDescription where
  location : BitVec 32
  binding : BitVec 32
  format : BitVec 32
  offset : BitVec 32

def BindingDescription.bytes (d : BindingDescription) : List (BitVec 8) :=
  wordBytes d.binding ++ wordBytes d.stride ++ wordBytes d.inputRate

def AttributeDescription.bytes (d : AttributeDescription) : List (BitVec 8) :=
  wordBytes d.location ++ wordBytes d.binding ++ wordBytes d.format ++ wordBytes d.offset

/-- `vk::PipelineVertexInputStateCreateInfo`, whose counts are words. -/
@[ext] structure VertexInput where
  bindings : List BindingDescription
  attributes : List AttributeDescription
  few : bindings.length < 2 ^ 32 ∧ attributes.length < 2 ^ 32

/-- The bytes of the descriptions, as they are hashed. -/
def VertexInput.blocks (v : VertexInput) : List (List (BitVec 8)) :=
  [v.bindings.flatMap BindingDescription.bytes, v.attributes.flatMap AttributeDescription.bytes]

/-- What `Lookup` is called with, and the option that the assembly of primitives is done before. -/
structure Request where
  registers : Regs
  width : BitVec 32
  height : BitVec 32
  renderpass : BitVec 64
  layout : BitVec 64
  vertexShader : BitVec 64
  pixelShader : BitVec 64
  vertexInput : VertexInput
  preassembledTriangles : Bool

/-! ## What a pipeline is created from -/

inductive PrimitiveTopology where
  | triangleList | triangleStrip | triangleFan
  deriving DecidableEq, Repr

inductive CullModeFlags where
  | none | back
  deriving DecidableEq, Repr

inductive FrontFace where
  | counterClockwise | clockwise
  deriving DecidableEq, Repr

inductive CompareOp where
  | never | less | equal | lessOrEqual | greater | notEqual | greaterOrEqual | always
  deriving DecidableEq, Repr

inductive StencilOp where
  | keep | zero | replace | incrementAndClamp | decrementAndClamp | invert
  deriving DecidableEq, Repr

inductive BlendFactor where
  | zero | one | srcColor | dstColor | srcAlpha | oneMinusSrcAlpha | dstAlpha | oneMinusDstAlpha
  | constantColor | oneMinusConstantColor | constantAlpha | oneMinusConstantAlpha
  | srcAlphaSaturate
  deriving DecidableEq, Repr

inductive BlendOp where
  | add | reverseSubtract
  deriving DecidableEq, Repr

inductive LogicOp where
  | clear | copy | set | noOp
  deriving DecidableEq, Repr

structure StencilOpState where
  failOp : StencilOp
  passOp : StencilOp
  depthFailOp : StencilOp
  compareOp : CompareOp
  compareMask : BitVec 8
  writeMask : BitVec 8
  reference : BitVec 8
  deriving DecidableEq, Repr

/-- The front and the back face have the same stencil state. -/
structure DepthStencilInfo where
  depthTestEnable : Bool
  depthWriteEnable : Bool
  depthCompareOp : CompareOp
  stencilTestEnable : Bool
  stencil : StencilOpState
  deriving DecidableEq, Repr

structure Viewport (F : Type) where
  x : F
  y : F
  width : F
  height : F
  minDepth : F
  maxDepth : F

structure BlendParameters where
  srcColorBlendFactor : BlendFactor
  dstColorBlendFactor : BlendFactor
  colorBlendOp : BlendOp
  srcAlphaBlendFactor : BlendFactor
  dstAlphaBlendFactor : BlendFactor
  alphaBlendOp : BlendOp
  deriving DecidableEq, Repr

structure ColorComponents where
  r : Bool
  g : Bool
  b : Bool
  a : Bool
  deriving DecidableEq, Repr

/-- `vk::GraphicsPipelineCreateInfo`, less what is the same in every pipeline. -/
structure CreateInfo (F : Type) where
  vertexShader : BitVec 64
  pixelShader : BitVec 64
  vertexInput : VertexInput
  topology : PrimitiveTopology
  viewport : Viewport F
  scissor : BitVec 32 × BitVec 32
  cullMode : CullModeFlags × FrontFace
  depthStencil : DepthStencilInfo
  blendEnable : Bool
  blend : BlendParameters
  activeColorComponents : ColorComponents
  logicOpEnable : Bool
  logicOp : LogicOp
  blendConstants : F × F × F × F
  layout : BitVec 64
  renderpass : BitVec 64

/-! ## The enumerations of the registers -/

namespace FromPicaState

def topology (t : BitVec 2) : Except Exception PrimitiveTopology :=
  match t.toNat with
  | 0 => .ok .triangleList
  | 1 => .ok .triangleStrip
  | 2 => .ok .triangleFan
  | 3 => .ok .triangleList
  | _ => .error (.invalid "Unknown triangle topology")

def cullMode (mode : BitVec 2) : Except Exception (CullModeFlags × FrontFace) :=
  match mode.toNat with
  | 0 => .ok (.none, .clockwise)
  | 1 => .ok (.back, .counterClockwise)
  | 2 => .ok (.back, .clockwise)
  | _ => .error (.runtimeError "Unknown cull mode")

def blendFactor (factor : BitVec 4) : Except Exception BlendFactor :=
  match factor.toNat with
  | 0 => .ok .zero
  | 1 => .ok .one
  | 2 => .ok .srcColor
  | 4 => .ok .dstColor
  | 6 => .ok .srcAlpha
  | 7 => .ok .oneMinusSrcAlpha
  | 8 => .ok .dstAlpha
  | 9 => .ok .oneMinusDstAlpha
  | 10 => .ok .constantColor
  | 11 => .ok .oneMinusConstantColor
  | 12 => .ok .constantAlpha
  | 13 => .ok .oneMinusConstantAlpha
  | 14 => .ok .srcAlphaSaturate
  | _ => .error (.runtimeError "Unknown alpha blend factor")

def blendEquation (eq : BitVec 8) : Except Exception BlendOp :=
  match eq.toNat with
  | 0 => .ok .add
  | 2 => .ok .reverseSubtract
  | _ => .error (.runtimeError "Unknown alpha blend equation")

def logicOp (op : BitVec 4) : Except Exception LogicOp :=
  match op.toNat with
  | 3 => .ok .copy
  | 4 => .ok .set
  | 6 => .ok .noOp
  | _ => .error (.runtimeError "Unknown logic op")

def stencilCompare (compareFunc : BitVec 3) : Except Exception CompareOp :=
  match compareFunc.toNat with
  | 0 => .ok .never
  | 1 => .ok .always
  | 2 => .ok .equal
  | 3 => .ok .notEqual
  | 4 => .ok .less
  | 6 => .ok .greater
  | _ => .error (.runtimeError "Unknown stencil compare func")

def stencilOp (op : BitVec 3) : Except Exception StencilOp :=
  match op.toNat with
  | 0 => .ok .keep
  | 1 => .ok .zero
  | 2 => .ok .replace
  | 3 => .ok .incrementAndClamp
  | 4 => .ok .decrementAndClamp
  | 5 => .ok .invert
  | _ => .error (.runtimeError "Unknown stencil op")

def stencil (s : StencilTest) : Except Exception StencilOpState := do
  let failOp ← stencilOp s.opFailStencil
  let passOp ← stencilOp s.opPassBoth
  let depthFailOp ← stencilOp s.opPassStencilFailDepth
  let compareOp ← stencilCompare s.compareFunction
  return ⟨failOp, passOp, depthFailOp, compareOp, s.maskIn, s.maskOut, s.reference⟩

def depthFunc (func : BitVec 3) : Except Exception CompareOp :=
  match func.toNat with
  | 0 => .ok .never
  | 1 => .ok .always
  | 4 => .ok .less
  | 5 => .ok .lessOrEqual
  | 6 => .ok .greater
  | 7 => .ok .greaterOrEqual
  | _ => .error (.runtimeError "Unknown depth test function")

end FromPicaState

/-! ## The code -/

/-- What `Lookup` calls outside of the repository: floats, and the hashes of the libraries.
`ofBits` is the float with the given encoding, `unorm` divides a byte by `255.f`. -/
structure Host (F : Type) where
  ofUInt : BitVec 32 → F
  ofBits : BitVec 32 → F
  add : F → F → F
  twice : F → F
  neg : F → F
  one : F
  gt : F → F → Bool
  unorm : BitVec 8 → F
  hashUInt : BitVec 32 → BitVec 64
  hashRange : List (BitVec 8) → BitVec 64

structure PipelineStateHash where
  vertexShader : BitVec 64
  pixelShader : BitVec 64
  vertexInputMapping : BitVec 64
  vertexInputNumMappings : BitVec 32
  flags : BitVec 8
  triangleTopology : BitVec 8
  viewportData : List (BitVec 32)
  blendConfig : BitVec 32
  blendConstant : BitVec 32
  scissor : BitVec 32
  depthstencil0 : BitVec 32
  depthstencil1 : BitVec 32
  deriving DecidableEq, Repr

/-- The value of a `VkCompareOp`. -/
def CompareOp.toUnderlying : CompareOp → BitVec 3
  | .never => 0
  | .less => 1
  | .equal => 2
  | .lessOrEqual => 3
  | .greater => 4
  | .notEqual => 5
  | .greaterOrEqual => 6
  | .always => 7

namespace Request

variable (s : Request)

def topology : BitVec 2 := if s.preassembledTriangles then 0 else s.registers.triangleTopology

def enableStencil : Bool :=
  s.registers.framebuffer.hasStencilBuffer && s.registers.outputMerger.stencilTest.enabled

def writeOnly : Bool :=
  !s.registers.outputMerger.depthTestEnable &&
    s.registers.framebuffer.depthStencilWriteEnabled && s.registers.outputMerger.depthWriteEnable

def activeColorComponents : ColorComponents :=
  let om := s.registers.outputMerger
  if s.registers.framebuffer.colorWriteEnabled then
    ⟨om.colorWriteEnableR, om.colorWriteEnableG, om.colorWriteEnableB, om.colorWriteEnableA⟩
  else ⟨false, false, false, false⟩

end Request

namespace PipelineCache

section Code

variable {F : Type} (host : Host F) (s : Request)

/-- The mappings in use, as far as the mask keeps them, with the hashes of the vertex input. -/
def vertexInputMapping : BitVec 64 :=
  let index := s.registers.maxShaderInputAttributeIndex
  let mapping :=
    if index.toNat ≠ 15 then
      s.registers.vsInputRegisterMap &&& ((1 : BitVec 64) <<< (4 * index.toNat) - 1)
    else s.registers.vsInputRegisterMap
  mapping ^^^ host.hashUInt (BitVec.ofNat 32 s.vertexInput.bindings.length) ^^^
    host.hashUInt (BitVec.ofNat 32 s.vertexInput.attributes.length) ^^^
    host.hashRange (s.vertexInput.bindings.flatMap BindingDescription.bytes) ^^^
    host.hashRange (s.vertexInput.attributes.flatMap AttributeDescription.bytes)

def flags : BitVec 8 :=
  let om := s.registers.outputMerger
  let fb := s.registers.framebuffer
  let flags := s.registers.cullMode.setWidth 8 |||
    (BitVec.ofBool om.alphablendEnable).setWidth 8 <<< 2
  if fb.depthStencilReadEnabled then
    flags ||| (BitVec.ofBool om.depthTestEnable).setWidth 8 <<< 3 |||
      (BitVec.ofBool (fb.depthStencilWriteEnabled && om.depthWriteEnable)).setWidth 8 <<< 4 |||
      om.depthTestFunc.setWidth 8 <<< 5
  else flags

/-- `blend_config` and `blend_constant`. -/
def blendWords : BitVec 32 × BitVec 32 :=
  let om := s.registers.outputMerger
  if om.alphablendEnable then (om.alphaBlending, om.blendConstant)
  else (om.logicOp.setWidth 32, 0)

def stencilOpState : Except Exception StencilOpState :=
  if s.enableStencil then FromPicaState.stencil s.registers.outputMerger.stencilTest
  else .ok ⟨.keep, .keep, .keep, .never, 0, 0, 0⟩

def depthCompareOp : Except Exception CompareOp :=
  if s.registers.framebuffer.depthStencilReadEnabled && !s.writeOnly then
    FromPicaState.depthFunc s.registers.outputMerger.depthTestFunc
  else .ok .always

def depthStencilInfo : Except Exception DepthStencilInfo := do
  let om := s.registers.outputMerger
  let enabled := s.registers.framebuffer.depthStencilReadEnabled
  let stencil ← stencilOpState s
  let compareOp ← depthCompareOp s
  return {
    depthTestEnable := enabled && (om.depthTestEnable || s.writeOnly)
    depthWriteEnable := enabled && s.registers.framebuffer.depthStencilWriteEnabled &&
      om.depthWriteEnable
    depthCompareOp := compareOp
    stencilTestEnable := s.enableStencil
    stencil := stencil }

/-- The first word of `depthstencil`. -/
def stencilWord : BitVec 32 :=
  let stencil := s.registers.outputMerger.stencilTest
  let word := (BitVec.ofBool s.enableStencil).setWidth 32
  if s.enableStencil then
    word ||| stencil.compareFunction.setWidth 32 <<< 4 ||| stencil.maskOut.setWidth 32 <<< 8 |||
      stencil.reference.setWidth 32 <<< 16 ||| stencil.maskIn.setWidth 32 <<< 24
  else word

/-- The second word of `depthstencil`. -/
def depthWord (info : DepthStencilInfo) : BitVec 32 :=
  let stencil := s.registers.outputMerger.stencilTest
  let word := (BitVec.ofBool info.depthTestEnable).setWidth 32 <<< 12
  let word := if info.depthTestEnable then
      word ||| (BitVec.ofBool info.depthWriteEnable).setWidth 32 <<< 13 |||
        info.depthCompareOp.toUnderlying.setWidth 32 <<< 14
    else word
  if s.enableStencil then
    word ||| stencil.opFailStencil.setWidth 32 |||
      stencil.opPassStencilFailDepth.setWidth 32 <<< 4 ||| stencil.opPassBoth.setWidth 32 <<< 8
  else word

/-- What `Lookup` puts into the key. -/
def stateHash (info : DepthStencilInfo) : PipelineStateHash where
  vertexShader := s.vertexShader
  pixelShader := s.pixelShader
  vertexInputMapping := vertexInputMapping host s
  vertexInputNumMappings := s.registers.maxShaderInputAttributeIndex.setWidth 32 + 1
  flags := flags s
  triangleTopology := s.topology.setWidth 8
  viewportData := [s.registers.viewportSizeX.setWidth 32, s.registers.viewportSizeY.setWidth 32,
    s.registers.viewportDepthRange.setWidth 32, s.registers.viewportDepthFarPlane.setWidth 32,
    s.registers.viewportCorner]
  blendConfig := (blendWords s).1
  blendConstant := (blendWords s).2
  scissor := s.width <<< 16 ||| s.height
  depthstencil0 := stencilWord s
  depthstencil1 := depthWord s info

/-- `Lookup`, up to where it looks for the key. -/
def prepare : Except Exception (PipelineStateHash × DepthStencilInfo) :=
  if 0x10000 ≤ (s.width ||| s.height).toNat then
    .error (.runtimeError "Unexpectedly large framebuffer")
  else if s.enableStencil && !s.registers.framebuffer.depthStencilReadEnabled then
    .error (.invalid "Tried to enable stencil without read-access enabled")
  else if s.registers.outputMerger.stencilTest.enabled &&
      !s.registers.framebuffer.hasStencilBuffer then
    .error (.runtimeError
      "Stencil test enabled but current framebuffer configuration has no stencil channel")
  else do
    let info ← depthStencilInfo s
    return (stateHash host s info, info)

/-- `float24::FromRawFloat`, as the encoding of the float. The exponent is compared with a mask
that lies sixteen bits above it, so nothing is ever taken for infinity. -/
def fromRawFloat (hex : BitVec 24) : BitVec 32 :=
  let mantissa := (hex.extractLsb' 0 16).setWidth 32
  let exponent := (hex.extractLsb' 16 7).setWidth 32
  let sign := (hex.extractLsb' 23 1).setWidth 32
  if hex = 0 then 0
  else if exponent = 0 then 0
  else sign <<< 31 ||| (exponent + 64) <<< 23 ||| mantissa <<< 7

/-- `FromPicaViewport`. -/
def fromPicaViewport (originX originY : BitVec 32)
    (sizeX sizeY depthRange depthFarPlane : BitVec 24) : Viewport F :=
  let toFloat32 := fun hex => host.ofBits (fromRawFloat hex)
  let maxDepth := host.neg (host.add (toFloat32 depthFarPlane) (toFloat32 depthRange))
  { x := host.ofUInt originX
    y := host.ofUInt originY
    width := host.twice (toFloat32 sizeX)
    height := host.twice (toFloat32 sizeY)
    minDepth := host.neg (toFloat32 depthFarPlane)
    maxDepth := if host.gt maxDepth host.one then host.one else maxDepth }

/-- The viewport, if it stays in the framebuffer. -/
def viewport : Except Exception (Viewport F) :=
  let corner := s.registers.viewportCorner
  let viewport := fromPicaViewport host ((corner.extractLsb' 0 10).signExtend 32)
    ((corner.extractLsb' 16 10).signExtend 32) s.registers.viewportSizeX s.registers.viewportSizeY
    s.registers.viewportDepthRange s.registers.viewportDepthFarPlane
  if host.gt (host.add viewport.x viewport.width) (host.ofUInt s.width) ||
      host.gt (host.add viewport.y viewport.height) (host.ofUInt s.height) then
    .error (.runtimeError "Invalid viewport dimensions: Exceeding framebuffer size")
  else .ok viewport

/-- The blend parameters of the attachment, set up if they are needed. -/
def blendParameters : Except Exception BlendParameters :=
  let blending := s.registers.outputMerger.alphaBlending
  if s.registers.outputMerger.alphablendEnable then do
    let sourceRgb ← FromPicaState.blendFactor (blending.extractLsb' 16 4)
    let destRgb ← FromPicaState.blendFactor (blending.extractLsb' 20 4)
    let rgb ← FromPicaState.blendEquation (blending.extractLsb' 0 8)
    let sourceA ← FromPicaState.blendFactor (blending.extractLsb' 24 4)
    let destA ← FromPicaState.blendFactor (blending.extractLsb' 28 4)
    let a ← FromPicaState.blendEquation (blending.extractLsb' 8 8)
    return ⟨sourceRgb, destRgb, rgb, sourceA, destA, a⟩
  else .ok ⟨.zero, .zero, .add, .zero, .zero, .add⟩

def blendConstants : F × F × F × F :=
  let constant := s.registers.outputMerger.blendConstant
  (host.unorm (constant.extractLsb' 0 8), host.unorm (constant.extractLsb' 8 8),
    host.unorm (constant.extractLsb' 16 8), host.unorm (constant.extractLsb' 24 8))

def logicOp : Except Exception LogicOp :=
  if s.registers.outputMerger.alphablendEnable then .ok .clear
  else FromPicaState.logicOp s.registers.outputMerger.logicOp

/-- `Lookup`, from where the key was not found. -/
def createInfo (depthStencil : DepthStencilInfo) : Except Exception (CreateInfo F) := do
  let topology ← FromPicaState.topology s.topology
  let viewport ← viewport host s
  let cullMode ← FromPicaState.cullMode s.registers.cullMode
  let blend ← blendParameters s
  let logicOp ← logicOp s
  return {
    vertexShader := s.vertexShader
    pixelShader := s.pixelShader
    vertexInput := s.vertexInput
    topology := topology
    viewport := viewport
    scissor := (s.width, s.height)
    cullMode := cullMode
    depthStencil := depthStencil
    blendEnable := s.registers.outputMerger.alphablendEnable
    blend := blend
    activeColorComponents := s.activeColorComponents
    logicOpEnable := !s.registers.outputMerger.alphablendEnable
    logicOp := logicOp
    blendConstants := blendConstants host s
    layout := s.layout
    renderpass := s.renderpass }

/-- `Lookup`. A pipeline is what it was created from. -/
def lookup (cache : List (PipelineStateHash × CreateInfo F)) :
    Except Exception (CreateInfo F × List (PipelineStateHash × CreateInfo F)) := do
  let (key, depthStencil) ← prepare host s
  match cache.lookup key with
  | some pipeline => return (pipeline, cache)
  | none =>
    let info ← createInfo host s depthStencil
    return (info, (key, info) :: cache)

end Code

end PipelineCache

/-- The key is complete: where the hashes tell the hashed blocks of two requests apart, requests
with one key are given one pipeline. -/
def KeyComplete {F : Type} (host : Host F) : Prop :=
  Function.Injective host.hashUInt → ∀ s s' : Request,
    (∀ a ∈ s.vertexInput.blocks ++ s'.vertexInput.blocks,
      ∀ b ∈ s.vertexInput.blocks ++ s'.vertexInput.blocks,
        host.hashRange a = host.hashRange b → a = b) →
      ∀ key d d', PipelineCache.prepare host s = .ok (key, d) →
        PipelineCache.prepare host s' = .ok (key, d') →
          PipelineCache.createInfo host s d = PipelineCache.createInfo host s' d'

/-! ## What the key holds -/

/-- The two requests agree on what a pipeline is created from and the key leaves out. The constant
matters to it also where no blending reads it. -/
structure SameOutsideKey (s s' : Request) : Prop where
  vertexInput : s.vertexInput = s'.vertexInput
  activeColorComponents : s.activeColorComponents = s'.activeColorComponents
  depthStencilRead : s.registers.framebuffer.depthStencilReadEnabled =
    s'.registers.framebuffer.depthStencilReadEnabled
  blendConstant : s.registers.outputMerger.alphablendEnable = false →
    s.registers.outputMerger.blendConstant = s'.registers.outputMerger.blendConstant
  layout : s.layout = s'.layout
  renderpass : s.renderpass = s'.renderpass

/-- The two requests agree on what the key holds and a pipeline is created from, apart from the
depth and stencil state. -/
structure SameInKey (s s' : Request) : Prop where
  vertexShader : s.vertexShader = s'.vertexShader
  pixelShader : s.pixelShader = s'.pixelShader
  topology : s.topology = s'.topology
  cullMode : s.registers.cullMode = s'.registers.cullMode
  viewportSizeX : s.registers.viewportSizeX = s'.registers.viewportSizeX
  viewportSizeY : s.registers.viewportSizeY = s'.registers.viewportSizeY
  viewportDepthRange : s.registers.viewportDepthRange = s'.registers.viewportDepthRange
  viewportDepthFarPlane : s.registers.viewportDepthFarPlane = s'.registers.viewportDepthFarPlane
  viewportCorner : s.registers.viewportCorner = s'.registers.viewportCorner
  width : s.width = s'.width
  height : s.height = s'.height
  alphablendEnable : s.registers.outputMerger.alphablendEnable =
    s'.registers.outputMerger.alphablendEnable
  alphaBlending : s.registers.outputMerger.alphablendEnable = true →
    s.registers.outputMerger.alphaBlending = s'.registers.outputMerger.alphaBlending
  blendConstant : s.registers.outputMerger.alphablendEnable = true →
    s.registers.outputMerger.blendConstant = s'.registers.outputMerger.blendConstant
  logicOp : s.registers.outputMerger.alphablendEnable = false →
    s.registers.outputMerger.logicOp = s'.registers.outputMerger.logicOp

section Fields

variable {s s' : Request} {d d' : DepthStencilInfo}

open PipelineCache

/-- The depth test as the flags have it: off where the buffer is not read. -/
structure DepthFlags where
  test : Bool
  write : Bool
  func : BitVec 3

def Request.depthFlags (s : Request) : DepthFlags :=
  let om := s.registers.outputMerger
  let fb := s.registers.framebuffer
  if fb.depthStencilReadEnabled then
    ⟨om.depthTestEnable, fb.depthStencilWriteEnabled && om.depthWriteEnable, om.depthTestFunc⟩
  else ⟨false, false, 0⟩

theorem flags_eq : flags s = (s.registers.cullMode.setWidth 8 |||
    (BitVec.ofBool s.registers.outputMerger.alphablendEnable).setWidth 8 <<< 2) |||
    (BitVec.ofBool s.depthFlags.test).setWidth 8 <<< 3 |||
    (BitVec.ofBool s.depthFlags.write).setWidth 8 <<< 4 |||
    s.depthFlags.func.setWidth 8 <<< 5 := by
  cases hread : s.registers.framebuffer.depthStencilReadEnabled with
  | true => simp only [flags, Request.depthFlags, hread, if_true]
  | false => simp [flags, Request.depthFlags, hread]

theorem flags_cullMode : (flags s).extractLsb' 0 2 = s.registers.cullMode := by
  simp (disch := omega) only [flags_eq, BitVec.extractLsb'_or, extract_field, extract_shift_apart,
    BitVec.or_zero]

theorem flags_alphablend : (flags s).extractLsb' 2 1 =
    BitVec.ofBool s.registers.outputMerger.alphablendEnable := by
  simp (disch := omega) only [flags_eq, BitVec.extractLsb'_or, extract_shift, extract_field_apart,
    extract_shift_apart, BitVec.or_zero, BitVec.zero_or]

theorem flags_test : (flags s).extractLsb' 3 1 = BitVec.ofBool s.depthFlags.test := by
  simp (disch := omega) only [flags_eq, BitVec.extractLsb'_or, extract_shift, extract_field_apart,
    extract_shift_apart, BitVec.or_zero, BitVec.zero_or]

theorem flags_write : (flags s).extractLsb' 4 1 = BitVec.ofBool s.depthFlags.write := by
  simp (disch := omega) only [flags_eq, BitVec.extractLsb'_or, extract_shift, extract_field_apart,
    extract_shift_apart, BitVec.or_zero, BitVec.zero_or]

theorem flags_func : (flags s).extractLsb' 5 3 = s.depthFlags.func := by
  simp (disch := omega) only [flags_eq, BitVec.extractLsb'_or, extract_shift, extract_field_apart,
    extract_shift_apart, BitVec.or_zero, BitVec.zero_or]

theorem depthFlags_of_flags (h : flags s = flags s') : s.depthFlags = s'.depthFlags := by
  have htest : s.depthFlags.test = s'.depthFlags.test :=
    BitVec.ofBool_eq_iff_eq.1 (by rw [← flags_test, ← flags_test, h])
  have hwrite : s.depthFlags.write = s'.depthFlags.write :=
    BitVec.ofBool_eq_iff_eq.1 (by rw [← flags_write, ← flags_write, h])
  have hfunc : s.depthFlags.func = s'.depthFlags.func := by rw [← flags_func, ← flags_func, h]
  cases hs : s.depthFlags
  cases hs' : s'.depthFlags
  rw [hs, hs'] at htest hwrite hfunc
  congr

theorem stencilWord_enable : (stencilWord s).extractLsb' 0 1 = BitVec.ofBool s.enableStencil := by
  unfold stencilWord
  split <;> simp (disch := omega) only [BitVec.extractLsb'_or, extract_field, extract_shift_apart,
    BitVec.or_zero]

theorem stencilWord_fields (h : s.enableStencil = true) :
    let stencil := s.registers.outputMerger.stencilTest
    (stencilWord s).extractLsb' 4 3 = stencil.compareFunction ∧
      (stencilWord s).extractLsb' 8 8 = stencil.maskOut ∧
      (stencilWord s).extractLsb' 16 8 = stencil.reference ∧
      (stencilWord s).extractLsb' 24 8 = stencil.maskIn := by
  unfold stencilWord
  rw [if_pos h]
  refine ⟨?_, ?_, ?_, ?_⟩ <;>
    simp (disch := omega) only [BitVec.extractLsb'_or, extract_shift, extract_field_apart,
      extract_shift_apart, BitVec.or_zero, BitVec.zero_or]

theorem depthWord_fields (h : s.enableStencil = true) :
    let stencil := s.registers.outputMerger.stencilTest
    (depthWord s d).extractLsb' 0 3 = stencil.opFailStencil ∧
      (depthWord s d).extractLsb' 4 3 = stencil.opPassStencilFailDepth ∧
      (depthWord s d).extractLsb' 8 3 = stencil.opPassBoth := by
  unfold depthWord
  rw [if_pos h]
  refine ⟨?_, ?_, ?_⟩ <;> split <;>
    simp (disch := omega) only [BitVec.extractLsb'_or, extract_shift, extract_field,
      extract_field_apart, extract_shift_apart, BitVec.or_zero, BitVec.zero_or]

end Fields

/-! ## The depth and stencil state -/

section Depth

variable {s s' : Request} {d d' : DepthStencilInfo}

open PipelineCache

/-- What `depthStencilInfo` ends with. -/
structure DepthStencilOf (s : Request) (d : DepthStencilInfo) : Prop where
  test : d.depthTestEnable = (s.registers.framebuffer.depthStencilReadEnabled &&
    (s.registers.outputMerger.depthTestEnable || s.writeOnly))
  write : d.depthWriteEnable = (s.registers.framebuffer.depthStencilReadEnabled &&
    s.registers.framebuffer.depthStencilWriteEnabled && s.registers.outputMerger.depthWriteEnable)
  compare : depthCompareOp s = .ok d.depthCompareOp
  enable : d.stencilTestEnable = s.enableStencil
  stencil : stencilOpState s = .ok d.stencil

theorem depthStencilOf (h : depthStencilInfo s = .ok d) : DepthStencilOf s d := by
  obtain ⟨stencil, hstencil, h⟩ := bind_ok h
  obtain ⟨op, hcompare, h⟩ := bind_ok h
  cases h
  exact ⟨rfl, rfl, hcompare, rfl, hstencil⟩

/-- Without read access the depth test compares with `always`; a key that does not tell it from
read access stands for `never`. -/
theorem compare_ne (hd : DepthStencilOf s d) (hd' : DepthStencilOf s' d')
    (hflags : s.depthFlags = s'.depthFlags)
    (hread : s.registers.framebuffer.depthStencilReadEnabled = true)
    (hread' : s'.registers.framebuffer.depthStencilReadEnabled = false) :
    d.depthCompareOp ≠ d'.depthCompareOp := by
  simp only [Request.depthFlags, hread, hread', if_true, Bool.false_eq_true, if_false,
    DepthFlags.mk.injEq] at hflags
  obtain ⟨-, hwrite, hfunc⟩ := hflags
  have hwriteOnly : s.writeOnly = false := by
    rw [Request.writeOnly, Bool.and_assoc, hwrite, Bool.and_false]
  have hcompare := hd.compare
  have hcompare' := hd'.compare
  rw [depthCompareOp, hread, hwriteOnly, hfunc] at hcompare
  rw [depthCompareOp, hread'] at hcompare'
  have hnever : Except.ok CompareOp.never = Except.ok d.depthCompareOp := hcompare
  have halways : Except.ok CompareOp.always = Except.ok d'.depthCompareOp := hcompare'
  intro heq
  rw [← heq] at halways
  cases hnever.trans halways.symm

theorem stencil_eq (hd : DepthStencilOf s d) (hd' : DepthStencilOf s' d')
    (hstencil : stencilWord s = stencilWord s') (hdepth : depthWord s d = depthWord s' d') :
    d.stencilTestEnable = d'.stencilTestEnable ∧ d.stencil = d'.stencil := by
  have henable : s.enableStencil = s'.enableStencil :=
    BitVec.ofBool_eq_iff_eq.1 (by rw [← stencilWord_enable, ← stencilWord_enable, hstencil])
  refine ⟨by rw [hd.enable, hd'.enable, henable], ?_⟩
  have hof := hd.stencil
  have hof' := hd'.stencil
  cases hon : s.enableStencil with
  | false =>
    rw [stencilOpState, hon] at hof
    rw [stencilOpState, ← henable, hon] at hof'
    exact Except.ok.inj (hof.symm.trans hof')
  | true =>
    obtain ⟨hcompare, hout, hreference, hin⟩ := stencilWord_fields hon
    obtain ⟨hcompare', hout', hreference', hin'⟩ := stencilWord_fields (henable ▸ hon)
    obtain ⟨hfail, hfailDepth, hpass⟩ := depthWord_fields (d := d) hon
    obtain ⟨hfail', hfailDepth', hpass'⟩ := depthWord_fields (d := d') (henable ▸ hon)
    rw [← hstencil] at hcompare' hout' hreference' hin'
    rw [← hdepth] at hfail' hfailDepth' hpass'
    have hsame : FromPicaState.stencil s.registers.outputMerger.stencilTest =
        FromPicaState.stencil s'.registers.outputMerger.stencilTest := by
      simp only [FromPicaState.stencil, ← hcompare, ← hout, ← hreference, ← hin, ← hfail,
        ← hfailDepth, ← hpass, ← hcompare', ← hout', ← hreference', ← hin', ← hfail',
        ← hfailDepth', ← hpass']
    rw [stencilOpState, hon] at hof
    rw [stencilOpState, ← henable, hon] at hof'
    exact Except.ok.inj (hof.symm.trans (hsame.trans hof'))

/-- The depth test follows from the flags once it is known whether the buffer is read. -/
theorem depth_eq (hd : DepthStencilOf s d) (hd' : DepthStencilOf s' d')
    (hflags : s.depthFlags = s'.depthFlags)
    (hread : s.registers.framebuffer.depthStencilReadEnabled =
      s'.registers.framebuffer.depthStencilReadEnabled) :
    d.depthTestEnable = d'.depthTestEnable ∧ d.depthWriteEnable = d'.depthWriteEnable ∧
      d.depthCompareOp = d'.depthCompareOp := by
  have hcompare := hd.compare
  have hcompare' := hd'.compare
  cases hon : s.registers.framebuffer.depthStencilReadEnabled with
  | false =>
    have hoff := hread.symm.trans hon
    rw [depthCompareOp, hon] at hcompare
    rw [depthCompareOp, hoff] at hcompare'
    exact ⟨by rw [hd.test, hd'.test, hon, hoff]; rfl, by rw [hd.write, hd'.write, hon, hoff]; rfl,
      Except.ok.inj (hcompare.symm.trans hcompare')⟩
  | true =>
    have hon' := hread.symm.trans hon
    simp only [Request.depthFlags, hon, hon', if_true, DepthFlags.mk.injEq] at hflags
    obtain ⟨htest, hwrite, hfunc⟩ := hflags
    have hwriteOnly : s.writeOnly = s'.writeOnly := by
      rw [Request.writeOnly, Request.writeOnly, Bool.and_assoc, Bool.and_assoc, htest, hwrite]
    rw [depthCompareOp, hon, hwriteOnly, hfunc] at hcompare
    rw [depthCompareOp, hon'] at hcompare'
    exact ⟨by rw [hd.test, hd'.test, hon, hon', htest, hwriteOnly],
      by rw [hd.write, hd'.write, hon, hon', Bool.and_assoc, Bool.and_assoc, hwrite],
      Except.ok.inj (hcompare.symm.trans hcompare')⟩

theorem depthStencil_iff (hd : DepthStencilOf s d) (hd' : DepthStencilOf s' d')
    (hflags : flags s = flags s') (hstencil : stencilWord s = stencilWord s')
    (hdepth : depthWord s d = depthWord s' d') :
    d = d' ↔ s.registers.framebuffer.depthStencilReadEnabled =
      s'.registers.framebuffer.depthStencilReadEnabled := by
  have hflags := depthFlags_of_flags hflags
  constructor
  · intro heq
    cases hread : s.registers.framebuffer.depthStencilReadEnabled <;>
      cases hread' : s'.registers.framebuffer.depthStencilReadEnabled
    · rfl
    · exact absurd (congrArg DepthStencilInfo.depthCompareOp heq.symm)
        (compare_ne hd' hd hflags.symm hread' hread)
    · exact absurd (congrArg DepthStencilInfo.depthCompareOp heq)
        (compare_ne hd hd' hflags hread hread')
    · rfl
  · intro hread
    obtain ⟨htest, hwrite, hcompare⟩ := depth_eq hd hd' hflags hread
    obtain ⟨henable, hstate⟩ := stencil_eq hd hd' hstencil hdepth
    cases d
    cases d'
    congr

end Depth

/-! ## The key and the pipeline -/

section Pipeline

variable {F : Type} {host : Host F} {s s' : Request} {d d' : DepthStencilInfo} {i : CreateInfo F}
  {key : PipelineStateHash}

open PipelineCache

theorem prepare_ok (h : prepare host s = .ok (key, d)) :
    (s.width ||| s.height).toNat < 0x10000 ∧ depthStencilInfo s = .ok d ∧
      stateHash host s d = key := by
  rw [prepare] at h
  split at h
  · cases h
  split at h
  · cases h
  split at h
  · cases h
  obtain ⟨info, hinfo, h⟩ := bind_ok h
  cases h
  exact ⟨by omega, hinfo, rfl⟩

/-- The extents of a framebuffer that is not too large are the halves of the scissor word. -/
theorem scissor_halves {width height : BitVec 32} (h : (width ||| height).toNat < 0x10000) :
    (width <<< 16 ||| height).extractLsb' 16 16 = width.setWidth 16 ∧
      (width <<< 16 ||| height).extractLsb' 0 16 = height.setWidth 16 ∧
      (width.setWidth 16).setWidth 32 = width ∧ (height.setWidth 16).setWidth 32 = height := by
  rw [BitVec.toNat_or] at h
  have hw : width.toNat < 0x10000 := Nat.lt_of_le_of_lt Nat.left_le_or h
  have hh : height.toNat < 0x10000 := Nat.lt_of_le_of_lt Nat.right_le_or h
  have hwidth : (width.setWidth 16).setWidth 32 = width := by
    apply BitVec.eq_of_toNat_eq
    rw [BitVec.toNat_setWidth, BitVec.toNat_setWidth, Nat.mod_eq_of_lt hw,
      Nat.mod_eq_of_lt width.isLt]
  have hheight : (height.setWidth 16).setWidth 32 = height := by
    apply BitVec.eq_of_toNat_eq
    rw [BitVec.toNat_setWidth, BitVec.toNat_setWidth, Nat.mod_eq_of_lt hh,
      Nat.mod_eq_of_lt height.isLt]
  refine ⟨?_, ?_, hwidth, hheight⟩
  · rw [← hwidth, ← hheight]
    simp (disch := omega) only [BitVec.extractLsb'_or, extract_shift, extract_field_apart,
      BitVec.or_zero]
    rw [hwidth]
  · rw [← hwidth, ← hheight]
    simp (disch := omega) only [BitVec.extractLsb'_or, extract_field, extract_shift_apart,
      BitVec.zero_or]
    rw [hheight]

theorem extents_eq (h : (s.width ||| s.height).toNat < 0x10000)
    (h' : (s'.width ||| s'.height).toNat < 0x10000)
    (hscissor : s.width <<< 16 ||| s.height = s'.width <<< 16 ||| s'.height) :
    s.width = s'.width ∧ s.height = s'.height := by
  obtain ⟨hw, hh, hwidth, hheight⟩ := scissor_halves h
  obtain ⟨hw', hh', hwidth', hheight'⟩ := scissor_halves h'
  rw [← hscissor] at hw' hh'
  exact ⟨by rw [← hwidth, ← hw, hw', hwidth'], by rw [← hheight, ← hh, hh', hheight']⟩

theorem setWidth_inj {m w : ℕ} (hle : m ≤ w) {x y : BitVec m}
    (h : x.setWidth w = y.setWidth w) : x = y := by
  rw [← extract_field (x := x) hle, h, extract_field hle]

theorem sameInKey (hsize : (s.width ||| s.height).toNat < 0x10000)
    (hsize' : (s'.width ||| s'.height).toNat < 0x10000)
    (h : stateHash host s d = stateHash host s' d') : SameInKey s s' := by
  simp only [stateHash, PipelineStateHash.mk.injEq, List.cons.injEq, and_true] at h
  obtain ⟨hvertex, hpixel, -, -, hflags, htopology, ⟨hx, hy, hrange, hfar, hcorner⟩, hblend,
    hconstant, hscissor, -, -⟩ := h
  obtain ⟨hwidth, hheight⟩ := extents_eq hsize hsize' hscissor
  have halpha : s.registers.outputMerger.alphablendEnable =
      s'.registers.outputMerger.alphablendEnable :=
    BitVec.ofBool_eq_iff_eq.1 (by rw [← flags_alphablend, ← flags_alphablend, hflags])
  rw [blendWords, blendWords, ← halpha] at hblend hconstant
  exact {
    vertexShader := hvertex
    pixelShader := hpixel
    topology := setWidth_inj (by omega) htopology
    cullMode := by rw [← flags_cullMode, ← flags_cullMode, hflags]
    viewportSizeX := setWidth_inj (by omega) hx
    viewportSizeY := setWidth_inj (by omega) hy
    viewportDepthRange := setWidth_inj (by omega) hrange
    viewportDepthFarPlane := setWidth_inj (by omega) hfar
    viewportCorner := hcorner
    width := hwidth
    height := hheight
    alphablendEnable := halpha
    alphaBlending := fun hon => by
      rw [hon] at hblend
      exact hblend
    blendConstant := fun hon => by
      rw [hon] at hconstant
      exact hconstant
    logicOp := fun hoff => by
      rw [hoff] at hblend
      exact setWidth_inj (w := 32) (by omega) hblend }

/-- What `createInfo` ends with. -/
structure CreateInfoOf (host : Host F) (s : Request) (d : DepthStencilInfo) (i : CreateInfo F) :
    Prop where
  vertexShader : i.vertexShader = s.vertexShader
  pixelShader : i.pixelShader = s.pixelShader
  vertexInput : i.vertexInput = s.vertexInput
  topology : FromPicaState.topology s.topology = .ok i.topology
  viewport : viewport host s = .ok i.viewport
  scissor : i.scissor = (s.width, s.height)
  cullMode : FromPicaState.cullMode s.registers.cullMode = .ok i.cullMode
  depthStencil : i.depthStencil = d
  blendEnable : i.blendEnable = s.registers.outputMerger.alphablendEnable
  blend : blendParameters s = .ok i.blend
  activeColorComponents : i.activeColorComponents = s.activeColorComponents
  logicOpEnable : i.logicOpEnable = !s.registers.outputMerger.alphablendEnable
  logicOp : logicOp s = .ok i.logicOp
  blendConstants : i.blendConstants = blendConstants host s
  layout : i.layout = s.layout
  renderpass : i.renderpass = s.renderpass

theorem createInfo_ok_iff : createInfo host s d = .ok i ↔ CreateInfoOf host s d i := by
  constructor
  · intro h
    obtain ⟨topology, htopology, h⟩ := bind_ok h
    obtain ⟨view, hviewport, h⟩ := bind_ok h
    obtain ⟨cull, hcull, h⟩ := bind_ok h
    obtain ⟨blend, hblend, h⟩ := bind_ok h
    obtain ⟨op, hlogic, h⟩ := bind_ok h
    cases h
    exact ⟨rfl, rfl, rfl, htopology, hviewport, rfl, hcull, rfl, rfl, hblend, rfl, rfl, hlogic,
      rfl, rfl, rfl⟩
  · intro h
    rw [createInfo, h.topology, h.viewport, h.cullMode, h.blend, h.logicOp, ← h.vertexShader,
      ← h.pixelShader, ← h.vertexInput, ← h.scissor, ← h.depthStencil, ← h.blendEnable,
      ← h.activeColorComponents, ← h.blendConstants, ← h.layout, ← h.renderpass]
    have hlogic := h.logicOpEnable
    rw [← h.blendEnable] at hlogic
    change Except.ok { i with logicOpEnable := !i.blendEnable } = _
    rw [← hlogic]

theorem blendConstants_iff (hunorm : Function.Injective host.unorm) :
    blendConstants host s = blendConstants host s' ↔
      s.registers.outputMerger.blendConstant = s'.registers.outputMerger.blendConstant := by
  constructor
  · intro h
    simp only [blendConstants, Prod.mk.injEq] at h
    obtain ⟨hr, hg, hb, ha⟩ := h
    have hbytes : ∀ v : BitVec 32, v = v.extractLsb' 24 8 ++ v.extractLsb' 16 8 ++
        v.extractLsb' 8 8 ++ v.extractLsb' 0 8 := fun v => (Lib.Words.bytes_append v).symm
    rw [hbytes s.registers.outputMerger.blendConstant, hunorm hr, hunorm hg, hunorm hb, hunorm ha,
      ← hbytes]
  · intro h
    rw [blendConstants, blendConstants, h]

theorem SameInKey.viewport (h : SameInKey s s') : viewport host s = viewport host s' := by
  rw [PipelineCache.viewport, PipelineCache.viewport, h.viewportSizeX, h.viewportSizeY,
    h.viewportDepthRange, h.viewportDepthFarPlane, h.viewportCorner, h.width, h.height]

theorem SameInKey.blendParameters (h : SameInKey s s') :
    blendParameters s = blendParameters s' := by
  rw [PipelineCache.blendParameters, PipelineCache.blendParameters, ← h.alphablendEnable]
  cases halpha : s.registers.outputMerger.alphablendEnable with
  | true => rw [h.alphaBlending halpha]
  | false => rfl

theorem SameInKey.logicOp_eq (h : SameInKey s s') :
    PipelineCache.logicOp s = PipelineCache.logicOp s' := by
  rw [PipelineCache.logicOp, PipelineCache.logicOp, ← h.alphablendEnable]
  cases halpha : s.registers.outputMerger.alphablendEnable with
  | true => rfl
  | false => rw [h.logicOp halpha]

/-- Requests with one key need one pipeline if and only if they agree on what the key leaves
out. -/
theorem createInfo_iff (hunorm : Function.Injective host.unorm)
    (hs : prepare host s = .ok (key, d)) (hs' : prepare host s' = .ok (key, d'))
    (hi : createInfo host s d = .ok i) :
    createInfo host s' d' = .ok i ↔ SameOutsideKey s s' := by
  obtain ⟨hsize, hinfo, hkey⟩ := prepare_ok hs
  obtain ⟨hsize', hinfo', hkey'⟩ := prepare_ok hs'
  have hsame : stateHash host s d = stateHash host s' d' := hkey.trans hkey'.symm
  have hin : SameInKey s s' := sameInKey hsize hsize' hsame
  have hdepth : d = d' ↔ s.registers.framebuffer.depthStencilReadEnabled =
      s'.registers.framebuffer.depthStencilReadEnabled :=
    depthStencil_iff (depthStencilOf hinfo) (depthStencilOf hinfo')
      (congrArg PipelineStateHash.flags hsame) (congrArg PipelineStateHash.depthstencil0 hsame)
      (congrArg PipelineStateHash.depthstencil1 hsame)
  have hof := createInfo_ok_iff.1 hi
  rw [createInfo_ok_iff]
  constructor
  · intro hof'
    exact {
      vertexInput := hof.vertexInput.symm.trans hof'.vertexInput
      activeColorComponents := hof.activeColorComponents.symm.trans hof'.activeColorComponents
      depthStencilRead := hdepth.1 (hof.depthStencil.symm.trans hof'.depthStencil)
      blendConstant := fun _ =>
        (blendConstants_iff hunorm).1 (hof.blendConstants.symm.trans hof'.blendConstants)
      layout := hof.layout.symm.trans hof'.layout
      renderpass := hof.renderpass.symm.trans hof'.renderpass }
  · intro hout
    have hconstant : s.registers.outputMerger.blendConstant =
        s'.registers.outputMerger.blendConstant := by
      cases halpha : s.registers.outputMerger.alphablendEnable with
      | true => exact hin.blendConstant halpha
      | false => exact hout.blendConstant halpha
    exact {
      vertexShader := hof.vertexShader.trans hin.vertexShader
      pixelShader := hof.pixelShader.trans hin.pixelShader
      vertexInput := hof.vertexInput.trans hout.vertexInput
      topology := hin.topology ▸ hof.topology
      viewport := hin.viewport ▸ hof.viewport
      scissor := by rw [hof.scissor, hin.width, hin.height]
      cullMode := hin.cullMode ▸ hof.cullMode
      depthStencil := hof.depthStencil.trans (hdepth.2 hout.depthStencilRead)
      blendEnable := hof.blendEnable.trans hin.alphablendEnable
      blend := hin.blendParameters ▸ hof.blend
      activeColorComponents := hof.activeColorComponents.trans hout.activeColorComponents
      logicOpEnable := by rw [hof.logicOpEnable, hin.alphablendEnable]
      logicOp := hin.logicOp_eq ▸ hof.logicOp
      blendConstants := hof.blendConstants.trans ((blendConstants_iff hunorm).2 hconstant)
      layout := hof.layout.trans hout.layout
      renderpass := hof.renderpass.trans hout.renderpass }

end Pipeline

/-! ## Runs -/

section Runs

variable {F : Type} {host : Host F} {s : Request} {i : CreateInfo F} {key : PipelineStateHash}

open PipelineCache

/-- The cache, with the requests it has answered. -/
structure CacheState (F : Type) where
  cache : List (PipelineStateHash × CreateInfo F)
  seen : List Request

def Empty (c : CacheState F) : Prop := c.cache = [] ∧ c.seen = []

/-- A lookup is answered. One that fails leaves the cache as it was. -/
def Step (host : Host F) (c c' : CacheState F) : Prop :=
  ∃ s i, lookup host s c.cache = .ok (i, c'.cache) ∧ c'.seen = s :: c.seen

/-- What a pipeline for the request would be created from. -/
def Needs (host : Host F) (s : Request) (i : CreateInfo F) : Prop :=
  ∃ key d, prepare host s = .ok (key, d) ∧ createInfo host s d = .ok i

def SameKey (host : Host F) (s s' : Request) : Prop :=
  ∃ key d d', prepare host s = .ok (key, d) ∧ prepare host s' = .ok (key, d')

/-- Each entry was made for a request with its key. -/
def Filed (host : Host F) (c : CacheState F) : Prop :=
  ∀ key i, (key, i) ∈ c.cache →
    ∃ s ∈ c.seen, ∃ d, prepare host s = .ok (key, d) ∧ createInfo host s d = .ok i

theorem lookup_ok {cache cache' : List (PipelineStateHash × CreateInfo F)}
    (h : lookup host s cache = .ok (i, cache')) :
    ∃ key d, prepare host s = .ok (key, d) ∧ (((key, i) ∈ cache ∧ cache' = cache) ∨
      (createInfo host s d = .ok i ∧ cache' = (key, i) :: cache)) := by
  obtain ⟨⟨key, d⟩, hprepare, h⟩ := bind_ok h
  refine ⟨key, d, hprepare, ?_⟩
  dsimp only at h
  split at h
  next pipeline hfound =>
    cases h
    obtain ⟨before, after, hcache, -⟩ := List.lookup_eq_some_iff.1 hfound
    exact .inl ⟨hcache ▸ List.mem_append_right before List.mem_cons_self, rfl⟩
  next =>
    obtain ⟨info, hinfo, h⟩ := bind_ok h
    cases h
    exact .inr ⟨hinfo, rfl⟩

theorem Filed.step {c c' : CacheState F} (h : Filed host c) (hstep : Step host c c') :
    Filed host c' := by
  obtain ⟨s, i, hlookup, hseen⟩ := hstep
  obtain ⟨key, d, hprepare, ⟨-, hcache⟩ | ⟨hinfo, hcache⟩⟩ := lookup_ok hlookup
  · intro key' i' hmem
    rw [hcache] at hmem
    obtain ⟨s', hs', hmade⟩ := h key' i' hmem
    exact ⟨s', hseen ▸ List.mem_cons_of_mem s hs', hmade⟩
  · intro key' i' hmem
    rw [hcache] at hmem
    rcases List.mem_cons.1 hmem with hnew | hold
    · cases hnew
      exact ⟨s, hseen ▸ List.mem_cons_self, d, hprepare, hinfo⟩
    · obtain ⟨s', hs', hmade⟩ := h key' i' hold
      exact ⟨s', hseen ▸ List.mem_cons_of_mem s hs', hmade⟩

theorem filed {c : CacheState F} (hc : Run.Reachable Empty (Step host) c) : Filed host c := by
  refine hc.invariant (fun c hempty => ?_) fun c c' h hstep => h.step hstep
  intro key i hmem
  rw [hempty.1] at hmem
  cases hmem

/-- **The pipeline cache.** A request finds the pipeline of another under their common key, and it
is the one it needs if and only if they agree on what the key leaves out. In a run where requests
with a common key do agree, each is answered with the pipeline it needs. -/
theorem pipelines_exact (hunorm : Function.Injective host.unorm) :
    (∀ s s' key d d' i, prepare host s = .ok (key, d) → prepare host s' = .ok (key, d') →
      createInfo host s d = .ok i →
        (createInfo host s' d' = .ok i ↔ SameOutsideKey s s')) ∧
      ∀ c, Run.Reachable Empty (Step host) c → ∀ s i cache',
        lookup host s c.cache = .ok (i, cache') →
        (∀ s' ∈ c.seen, SameKey host s' s → SameOutsideKey s' s) → Needs host s i := by
  refine ⟨fun s s' key d d' i hs hs' hi => createInfo_iff hunorm hs hs' hi, ?_⟩
  intro c hc s i cache' hlookup hagree
  obtain ⟨key, d, hprepare, ⟨hmem, -⟩ | ⟨hinfo, -⟩⟩ := lookup_ok hlookup
  · obtain ⟨s', hs', d', hprepare', hinfo'⟩ := filed hc key i hmem
    have hout := hagree s' hs' ⟨key, d', d, hprepare', hprepare⟩
    exact ⟨key, d, hprepare, (createInfo_iff hunorm hprepare' hprepare hinfo').2 hout⟩
  · exact ⟨key, d, hprepare, hinfo⟩

end Runs

/-! ## What the key leaves out -/

section Omitted

open PipelineCache

/-- Floats as rational numbers. Only the encoding of zero is read here. -/
def rational : Host ℚ where
  ofUInt := fun v => v.toNat
  ofBits := fun _ => 0
  add := fun a b => a + b
  twice := fun a => 2 * a
  neg := fun a => -a
  one := 1
  gt := fun a b => decide (b < a)
  unorm := fun v => v.toNat / 255
  hashUInt := fun v => v.setWidth 64
  hashRange := fun bytes => bytes.foldl (fun hash byte => hash * 31 + byte.setWidth 64) 0

theorem rational_unorm : Function.Injective rational.unorm := by
  intro a b h
  have hquot : (a.toNat : ℚ) / 255 = b.toNat / 255 := h
  have hcast : (a.toNat : ℚ) = b.toNat := (div_left_inj' (by norm_num)).1 hquot
  exact BitVec.eq_of_toNat_eq (by exact_mod_cast hcast)

/-- Nothing is enabled. The logic operation is a copy. -/
def plainMerger : OutputMerger where
  alphablendEnable := false
  alphaBlending := 0
  logicOp := 3
  blendConstant := 0
  stencilTest := ⟨0, 0⟩
  depthTestEnable := false
  depthTestFunc := 0
  colorWriteEnableR := false
  colorWriteEnableG := false
  colorWriteEnableB := false
  colorWriteEnableA := false
  depthWriteEnable := false

/-- A framebuffer of 400 by 240 whose colors may be written. -/
def plainRequest (merger : OutputMerger) : Request where
  registers := {
    cullMode := 0
    viewportSizeX := 0
    viewportSizeY := 0
    viewportDepthRange := 0
    viewportDepthFarPlane := 0
    viewportCorner := 0
    triangleTopology := 0
    maxShaderInputAttributeIndex := 0
    vsInputRegisterMap := 0
    outputMerger := merger
    framebuffer := ⟨15, 0, 0, 0⟩ }
  width := 400
  height := 240
  renderpass := 1
  layout := 1
  vertexShader := 1
  pixelShader := 2
  vertexInput := ⟨[], [], by decide⟩
  preassembledTriangles := true

/-- The depth and stencil state of such a request. -/
def plainDepth : DepthStencilInfo :=
  ⟨false, false, .always, false, ⟨.keep, .keep, .keep, .never, 0, 0, 0⟩⟩

theorem plain_prepare (m : OutputMerger) (htest : m.stencilTest = ⟨0, 0⟩) :
    prepare rational (plainRequest m) =
      .ok (stateHash rational (plainRequest m) plainDepth, plainDepth) := by
  have hdisabled : m.stencilTest.enabled = false := by rw [htest]; rfl
  have hsize : ¬ 0x10000 ≤ ((plainRequest m).width ||| (plainRequest m).height).toNat := by
    change ¬ 0x10000 ≤ ((400 : BitVec 32) ||| 240).toNat
    decide
  have hread : (plainRequest m).registers.framebuffer.depthStencilReadEnabled = false := rfl
  have henable : (plainRequest m).enableStencil = false := rfl
  have htest' : (plainRequest m).registers.outputMerger.stencilTest.enabled = false := hdisabled
  have hinfo : depthStencilInfo (plainRequest m) = .ok plainDepth := rfl
  rw [prepare, if_neg hsize, henable, htest', hinfo]
  rfl

theorem plain_viewport (m : OutputMerger) :
    viewport rational (plainRequest m) = .ok ⟨0, 0, 0, 0, 0, 0⟩ := by
  have hwidth : ¬ (400 : ℚ) < 0 := by norm_num
  have hheight : ¬ (240 : ℚ) < 0 := by norm_num
  have hdepth : ¬ (1 : ℚ) < 0 := by norm_num
  simp [viewport, fromPicaViewport, rational, plainRequest, hwidth, hheight, hdepth]

/-- A pipeline is made without blending, and for a logic operation that is known. -/
theorem plain_createInfo (m : OutputMerger) (hblend : m.alphablendEnable = false)
    (hlogic : m.logicOp = 3) :
    ∃ i, createInfo rational (plainRequest m) plainDepth = .ok i := by
  have hoff : (plainRequest m).registers.outputMerger.alphablendEnable = false := hblend
  have hparameters : blendParameters (plainRequest m) =
      .ok ⟨.zero, .zero, .add, .zero, .zero, .add⟩ := by
    rw [blendParameters, hoff]
    rfl
  have hcopy : logicOp (plainRequest m) = .ok .copy := by
    rw [logicOp, hoff]
    change FromPicaState.logicOp m.logicOp = _
    rw [hlogic]
    rfl
  rw [createInfo, plain_viewport, hparameters, hcopy]
  exact ⟨_, rfl⟩

/-- The same pipeline serves where blending is off and only its parameters differ. -/
theorem pipelines_exact_plain : ∃ i,
    createInfo rational (plainRequest plainMerger) plainDepth = .ok i ∧
      createInfo rational (plainRequest { plainMerger with alphaBlending := 1 }) plainDepth =
        .ok i := by
  obtain ⟨i, hi⟩ := plain_createInfo plainMerger rfl rfl
  exact ⟨i, hi, ((pipelines_exact rational_unorm).1 _ _ _ _ _ i (plain_prepare plainMerger rfl)
    (plain_prepare { plainMerger with alphaBlending := 1 } rfl) hi).2
      ⟨rfl, rfl, rfl, fun _ => rfl, rfl, rfl⟩⟩

/-- What is written of a color is not in the key. -/
theorem colorMask_omitted : ¬ KeyComplete rational := by
  intro hcomplete
  have hcounts : Function.Injective rational.hashUInt := fun a b h => setWidth_inj (by omega) h
  obtain ⟨i, hi⟩ := plain_createInfo plainMerger rfl rfl
  have hs := plain_prepare plainMerger rfl
  have hs' := plain_prepare { plainMerger with colorWriteEnableR := true } rfl
  have hsame := hcomplete hcounts _ _ (by simp [plainRequest, VertexInput.blocks]) _ _ _ hs hs'
  have hagree := (createInfo_iff rational_unorm hs hs' hi).1 (hsame.symm.trans hi)
  cases hagree.activeColorComponents

end Omitted

end Mikage.Pica.PipelineKey
