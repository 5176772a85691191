import Mathlib
import Mikage.Framework.Exceptions
import Mikage.Lib.VectorCode

/-!
# Texture combiners

Six stages compute the colour of a fragment from the vertex colour, the textures, a constant and
what the stages before have left. The software rasterizer interprets them; `GenerateFragmentShader`
emits code for them. The emitted code is a sequence of statements here in place of its text; the
variables are those of the text, and `Variable` lists them. `Stages.next` says in numbers what a stage
is to compute.

`colorOp`, `alphaOp` and the other fields are read from the words of the registers, so that a field
may hold a value that is no member of its enumeration.
-/

namespace Mikage.Pica.TextureEnv

open VectorCode

/-! ## Registers -/

/-- `{:#x}` of a number. -/
def hex (value : ℕ) : String := "0x" ++ String.ofList (Nat.toDigits 16 value)

def field (word : BitVec 32) (start length : ℕ) : ℕ := (word.extractLsb' start length).toNat

inductive Source where
  | primaryColor | primaryFragmentColor | secondaryFragmentColor
  | texture0 | texture1 | texture2 | texture3
  | combinerBuffer | constant | previous
  | unknown (value : ℕ)
  deriving DecidableEq, Repr

namespace Source

def ofField : ℕ → Source
  | 0x0 => primaryColor
  | 0x1 => primaryFragmentColor
  | 0x2 => secondaryFragmentColor
  | 0x3 => texture0
  | 0x4 => texture1
  | 0x5 => texture2
  | 0x6 => texture3
  | 0xd => combinerBuffer
  | 0xe => constant
  | 0xf => previous
  | value => unknown value

def value : Source → ℕ
  | primaryColor => 0x0
  | primaryFragmentColor => 0x1
  | secondaryFragmentColor => 0x2
  | texture0 => 0x3
  | texture1 => 0x4
  | texture2 => 0x5
  | texture3 => 0x6
  | combinerBuffer => 0xd
  | constant => 0xe
  | previous => 0xf
  | unknown value => value

end Source

inductive ColorModifier where
  | sourceColor | oneMinusSourceColor | sourceAlpha | oneMinusSourceAlpha
  | sourceRed | oneMinusSourceRed | sourceGreen | oneMinusSourceGreen
  | sourceBlue | oneMinusSourceBlue
  | unknown (value : ℕ)
  deriving DecidableEq, Repr

def ColorModifier.ofField : ℕ → ColorModifier
  | 0 => sourceColor
  | 1 => oneMinusSourceColor
  | 2 => sourceAlpha
  | 3 => oneMinusSourceAlpha
  | 4 => sourceRed
  | 5 => oneMinusSourceRed
  | 8 => sourceGreen
  | 9 => oneMinusSourceGreen
  | 12 => sourceBlue
  | 13 => oneMinusSourceBlue
  | value => unknown value

inductive AlphaModifier where
  | sourceAlpha | oneMinusSourceAlpha | sourceRed | oneMinusSourceRed
  | sourceGreen | oneMinusSourceGreen | sourceBlue | oneMinusSourceBlue
  | unknown (value : ℕ)
  deriving DecidableEq, Repr

def AlphaModifier.ofField : ℕ → AlphaModifier
  | 0 => sourceAlpha
  | 1 => oneMinusSourceAlpha
  | 2 => sourceRed
  | 3 => oneMinusSourceRed
  | 4 => sourceGreen
  | 5 => oneMinusSourceGreen
  | 6 => sourceBlue
  | 7 => oneMinusSourceBlue
  | value => unknown value

inductive Operation where
  | replace | modulate | add | addSigned | lerp | subtract | dot3RGB | dot3RGBA
  | multiplyThenAdd | addThenMultiply
  | unknown (value : ℕ)
  deriving DecidableEq, Repr

namespace Operation

def ofField : ℕ → Operation
  | 0 => replace
  | 1 => modulate
  | 2 => add
  | 3 => addSigned
  | 4 => lerp
  | 5 => subtract
  | 6 => dot3RGB
  | 7 => dot3RGBA
  | 8 => multiplyThenAdd
  | 9 => addThenMultiply
  | value => unknown value

def value : Operation → ℕ
  | replace => 0
  | modulate => 1
  | add => 2
  | addSigned => 3
  | lerp => 4
  | subtract => 5
  | dot3RGB => 6
  | dot3RGBA => 7
  | multiplyThenAdd => 8
  | addThenMultiply => 9
  | unknown value => value

end Operation

structure TevStageConfig where
  storage : Fin 5 → BitVec 32

namespace TevStageConfig

variable (stage : TevStageConfig) (i : Fin 3)

def colorSource : Source := .ofField (field (stage.storage 0) (4 * i) 4)
def alphaSource : Source := .ofField (field (stage.storage 0) (16 + 4 * i) 4)
def colorModifier : ColorModifier := .ofField (field (stage.storage 1) (4 * i) 4)
def alphaModifier : AlphaModifier := .ofField (field (stage.storage 1) (12 + 4 * i) 3)
def colorOp : Operation := .ofField (field (stage.storage 2) 0 4)
def alphaOp : Operation := .ofField (field (stage.storage 2) 16 4)
/-- `const_r`, `const_g`, `const_b` and `const_a`. -/
def const (c : Fin 4) : BitVec 8 := (stage.storage 3).extractLsb' (8 * c) 8
def multiplierExpRGB : ℕ := field (stage.storage 4) 0 2
def multiplierExpA : ℕ := field (stage.storage 4) 16 2

def getMultiplierRGB : Except Exception ℕ :=
  if stage.multiplierExpRGB = 3 then throw (.runtimeError "Invalid RGB scaling exponent 3")
  else pure (1 <<< stage.multiplierExpRGB)

def getMultiplierA : Except Exception ℕ :=
  if stage.multiplierExpA = 3 then throw (.runtimeError "Invalid alpha scaling exponent 3")
  else pure (1 <<< stage.multiplierExpA)

end TevStageConfig

inductive AlphaFunction where
  | always | notEqual | lessThan | lessThanOrEqual | greaterThan | greaterThanOrEqual
  | unknown (value : ℕ)
  deriving DecidableEq, Repr

namespace AlphaFunction

def ofField : ℕ → AlphaFunction
  | 1 => always
  | 3 => notEqual
  | 4 => lessThan
  | 5 => lessThanOrEqual
  | 6 => greaterThan
  | 7 => greaterThanOrEqual
  | value => unknown value

def value : AlphaFunction → ℕ
  | always => 1
  | notEqual => 3
  | lessThan => 4
  | lessThanOrEqual => 5
  | greaterThan => 6
  | greaterThanOrEqual => 7
  | unknown value => value

end AlphaFunction

/-- The registers the combiners and the alpha test are configured by. -/
structure Registers where
  tevStages : Fin 6 → TevStageConfig
  combinerBuffer : BitVec 32
  combinerBufferInit : BitVec 32
  alphaTest : BitVec 32

namespace Registers

variable (registers : Registers)

def tevStageUpdatesRGB (index : ℕ) : Bool := field registers.combinerBuffer 8 4 >>> index &&& 1 ≠ 0
def tevStageUpdatesA (index : ℕ) : Bool := field registers.combinerBuffer 12 4 >>> index &&& 1 ≠ 0
def bufferInit (c : Fin 4) : BitVec 8 := registers.combinerBufferInit.extractLsb' (8 * c) 8
def alphaTestEnable : Bool := registers.alphaTest.getLsbD 0
def alphaFunction : AlphaFunction := .ofField (field registers.alphaTest 4 3)
def alphaReference : ℕ := field registers.alphaTest 8 8

end Registers

/-- What a fragment brings to its stages, in bytes. -/
structure FragmentInputs where
  primaryColor : Fin 4 → BitVec 8
  texture : Fin 3 → Fin 4 → BitVec 8

/-- `combiner_buffer` and `combiner_output`. -/
@[ext] structure CombinerState (α : Type) where
  buffer : Fin 4 → α
  output : Fin 4 → α

variable {α : Type}

def rgba (rgb : Fin 3 → α) (a : α) : Fin 4 → α := ![rgb 0, rgb 1, rgb 2, a]

/-! `r()`, `g()`, `b()` and `a()` of a `Math::Vec4`. -/

def red (color : Fin 4 → α) : α := color 0
def green (color : Fin 4 → α) : α := color 1
def blue (color : Fin 4 → α) : α := color 2
def alpha (color : Fin 4 → α) : α := color 3

/-- The buffer lags behind by one stage. -/
def updatedBuffer (registers : Registers) (index : Fin 6) (s : CombinerState α) : Fin 4 → α :=
  if 0 < index.val then
    rgba
      (fun c => if registers.tevStageUpdatesRGB (index - 1) then s.output c.castSucc
        else s.buffer c.castSucc)
      (if registers.tevStageUpdatesA (index - 1) then s.output 3 else s.buffer 3)
  else s.buffer

/-! ## The software rasterizer -/

/-- A byte promoted to `int`. -/
def int (x : BitVec 8) : ℤ := x.toNat

/-- `static_cast<uint8_t>`. -/
def toByte (x : ℤ) : BitVec 8 := BitVec.ofInt 8 x

def getCombinerSource (stage : TevStageConfig) (inputs : FragmentInputs)
    (s : CombinerState (BitVec 8)) : Source → Except Exception (Fin 4 → BitVec 8)
  | .primaryColor | .primaryFragmentColor => pure inputs.primaryColor
  | .secondaryFragmentColor => pure fun _ => 0
  | .texture0 => pure (inputs.texture 0)
  | .texture1 => pure (inputs.texture 1)
  | .texture2 => pure (inputs.texture 2)
  | .constant => pure stage.const
  | .combinerBuffer => pure s.buffer
  | .previous => pure s.output
  | source => throw (.runtimeError s!"Unknown combiner source {source.value}")

def getColorModifier (values : Fin 4 → BitVec 8) :
    ColorModifier → Except Exception (Fin 3 → BitVec 8)
  | .sourceColor => pure fun c => values c.castSucc
  | .oneMinusSourceColor => pure fun c => toByte (255 - int (values c.castSucc))
  | .sourceAlpha => pure fun _ => values 3
  | .oneMinusSourceAlpha => pure fun _ => toByte (255 - int (values 3))
  | .sourceRed => pure fun _ => values 0
  | .oneMinusSourceRed => pure fun _ => toByte (255 - int (values 0))
  | .sourceGreen => pure fun _ => values 1
  | .oneMinusSourceGreen => pure fun _ => toByte (255 - int (values 1))
  | .sourceBlue => pure fun _ => values 2
  | .oneMinusSourceBlue => pure fun _ => toByte (255 - int (values 2))
  | .unknown value => throw (.runtimeError s!"Unknown color factor {hex value}")

def getAlphaModifier (values : Fin 4 → BitVec 8) : AlphaModifier → Except Exception (BitVec 8)
  | .sourceAlpha => pure (values 3)
  | .oneMinusSourceAlpha => pure (toByte (255 - int (values 3)))
  | .sourceRed => pure (values 0)
  | .oneMinusSourceRed => pure (toByte (255 - int (values 0)))
  | .sourceGreen => pure (values 1)
  | .oneMinusSourceGreen => pure (toByte (255 - int (values 1)))
  | .sourceBlue => pure (values 2)
  | .oneMinusSourceBlue => pure (toByte (255 - int (values 2)))
  | .unknown value => throw (.runtimeError s!"Unknown alpha factor {hex value}")

def colorCombine (input : Fin 3 → Fin 3 → BitVec 8) :
    Operation → Except Exception (Fin 3 → BitVec 8)
  | .replace => pure (input 0)
  | .modulate => pure fun c => toByte ((int (input 0 c) * int (input 1 c)).tdiv 255)
  | .add => pure fun c => toByte (min 255 (int (input 0 c) + int (input 1 c)))
  | .addSigned => pure fun c => toByte (min 255 (max 127 (int (input 0 c) + int (input 1 c)) - 127))
  | .lerp => pure fun c => toByte ((int (input 0 c) * int (input 2 c) +
      int (input 1 c) * int (toByte (255 - int (input 2 c)))).tdiv 255)
  | .subtract => pure fun c => toByte (max 0 (int (input 0 c) - int (input 1 c)))
  | .multiplyThenAdd => pure fun c =>
      toByte (min 255 ((int (input 0 c) * int (input 1 c) + 255 * int (input 2 c)).tdiv 255))
  | .addThenMultiply => pure fun c =>
      toByte (min 255 (((int (input 0 c) + int (input 1 c)) * int (input 2 c)).tdiv 255))
  | op => throw (.runtimeError s!"Unknown color combiner operation {hex op.value}")

/-- The last operation divides what has been clamped already. -/
def alphaCombine (input : Fin 3 → BitVec 8) : Operation → Except Exception (BitVec 8)
  | .replace => pure (input 0)
  | .modulate => pure (toByte ((int (input 0) * int (input 1)).tdiv 255))
  | .add => pure (toByte (min 255 (int (input 0) + int (input 1))))
  | .addSigned => pure (toByte (min 255 (max 127 (int (input 0) + int (input 1)) - 127)))
  | .lerp =>
    pure (toByte ((int (input 0) * int (input 2) + int (input 1) * (255 - int (input 2))).tdiv 255))
  | .subtract => pure (toByte (max (int (input 0)) (int (input 1)) - int (input 1)))
  | .multiplyThenAdd =>
    pure (toByte (min 255 ((int (input 0) * int (input 1) + 255 * int (input 2)).tdiv 255)))
  | .addThenMultiply =>
    pure (toByte ((min 255 ((int (input 0) + int (input 1)) * int (input 2))).tdiv 255))
  | op => throw (.runtimeError s!"Unknown alpha combiner operation {hex op.value}")

/-- `min<unsigned>(255, x * multiplier)` of a byte. -/
def scaled (x : BitVec 8) (multiplier : ℕ) : BitVec 8 :=
  BitVec.ofNat 8 (min 255 (x.toNat * multiplier % 2 ^ 32))

/-- One round of the combiner loop. -/
def softwareStage (registers : Registers) (inputs : FragmentInputs) (index : Fin 6)
    (s : CombinerState (BitVec 8)) : Except Exception (CombinerState (BitVec 8)) := do
  let stage := registers.tevStages index
  let color (i : Fin 3) : Except Exception (Fin 3 → BitVec 8) := do
    let values ← getCombinerSource stage inputs s (stage.colorSource i)
    getColorModifier values (stage.colorModifier i)
  let alpha (i : Fin 3) : Except Exception (BitVec 8) := do
    let values ← getCombinerSource stage inputs s (stage.alphaSource i)
    getAlphaModifier values (stage.alphaModifier i)
  let colorOutput ← colorCombine ![← color 0, ← color 1, ← color 2] stage.colorOp
  let alphaOutput ← alphaCombine ![← alpha 0, ← alpha 1, ← alpha 2] stage.alphaOp
  let multiplierRGB ← stage.getMultiplierRGB
  let multiplierA ← stage.getMultiplierA
  pure ⟨updatedBuffer registers index s,
    rgba (fun c => scaled (colorOutput c) multiplierRGB) (scaled alphaOutput multiplierA)⟩

def softwareStages (registers : Registers) (inputs : FragmentInputs) (indices : List (Fin 6)) :
    Except Exception (CombinerState (BitVec 8)) :=
  indices.foldlM (fun s index => softwareStage registers inputs index s)
    ⟨registers.bufferInit, registers.bufferInit⟩

def alphaTestFailed (value reference : ℕ) : AlphaFunction → Except Exception Bool
  | .notEqual => pure (!decide (value ≠ reference))
  | .greaterThan => pure (!decide (value > reference))
  | function =>
    throw (.runtimeError s!"Alpha test function {hex function.value} not implemented yet")

/-- Whether the alpha test drops a fragment with this alpha. -/
def alphaTestDrops (registers : Registers) (value : ℕ) : Except Exception Bool :=
  if registers.alphaTestEnable ∧ registers.alphaFunction ≠ .always then
    alphaTestFailed value registers.alphaReference registers.alphaFunction
  else pure false

/-- The colour of a fragment after the combiners; `none` where the alpha test drops it. -/
def softwareFragment (registers : Registers) (inputs : FragmentInputs) :
    Except Exception (Option (Fin 4 → BitVec 8)) := do
  let s ← softwareStages registers inputs (List.finRange 6)
  if ← alphaTestDrops registers (s.output 3).toNat then return none
  return some s.output

/-! ## The generated shader -/

/-- The variables of the shader. `in_color`, `lit_color_primary` and the texture colours are those
after the conversion to bytes that stands wherever they are read. -/
inductive Variable where
  | inColor | litColorPrimary | litColorSecondary | texColor (i : Fin 3)
  | combinerBufferInit | tevConst (index : Fin 6)
  | combinerBuffer | combinerOutput
  | rgbIn (index : Fin 6) (i : Fin 3) | aIn (index : Fin 6) (i : Fin 3)
  | outRGB (index : Fin 6) | outA (index : Fin 6)
  deriving DecidableEq, Repr

@[reducible] def Variable.dim : Variable → ℕ
  | inColor | litColorPrimary | litColorSecondary | texColor _ => 4
  | combinerBufferInit | tevConst _ | combinerBuffer | combinerOutput => 4
  | rgbIn _ _ | outRGB _ => 3
  | aIn _ _ | outA _ => 1

/-- `uint`, `uvec3` and `uvec4` expressions. -/
abbrev Code (n : ℕ) := Expr 32 Variable.dim n
abbrev Statement := Stmt 32 Variable.dim
abbrev ShaderStore := Valuation 32 Variable.dim

namespace Code

variable {n : ℕ}

abbrev var (x : Variable) : Code x.dim := Expr.var x
def min (l r : Code n) : Code n := .op .min l r
def max (l r : Code n) : Code n := .op .max l r
def add (l r : Code n) : Code n := .op .add l r
def sub (l r : Code n) : Code n := .op .sub l r
def mul (l r : Code n) : Code n := .op .mul l r
def div (l r : Code n) : Code n := .op .div l r
def const (value : BitVec 32) : Code n := Expr.const value

def uvec4 (rgb : Code 3) (a : Code 1) : Code 4 := Expr.join rgb a
def rgb (e : Code 4) : Code 3 := .pick e Fin.castSucc
def component (e : Code 4) (c : Fin 4) : Code n := .pick e fun _ => c

/-- The function of this name that the shader declares. -/
def udot (l r : Code 3) : Code 1 :=
  let product (c : Fin 3) : Code 1 := mul (.pick l fun _ => c) (.pick r fun _ => c)
  add (add (product 0) (product 1)) (product 2)

end Code

def getSource (kind : String) (index : Fin 6) : Source → Except Exception (Code 4)
  | .primaryColor => pure (.var .inColor)
  | .primaryFragmentColor => pure (.var .litColorPrimary)
  | .secondaryFragmentColor => pure (.var .litColorSecondary)
  | .texture0 => pure (.var (.texColor 0))
  | .texture1 => pure (.var (.texColor 1))
  | .texture2 => pure (.var (.texColor 2))
  | .texture3 => pure (.const 0)
  | .combinerBuffer => pure (.var .combinerBuffer)
  | .constant => pure (.var (.tevConst index))
  | .previous => pure (.var .combinerOutput)
  | .unknown value => throw (.runtimeError s!"Unknown {kind} combiner source {hex value}")

def getSourceColor := getSource "color"
def getSourceAlpha := getSource "alpha"

def getModifiedColor (source : Code 4) : ColorModifier → Except Exception (Code 3)
  | .sourceColor => pure source.rgb
  | .oneMinusSourceColor => pure (.sub (.const 255) source.rgb)
  | .sourceAlpha => pure (source.component 3)
  | .oneMinusSourceAlpha => pure (.sub (.const 255) (source.component 3))
  | .sourceRed => pure (source.component 0)
  | .oneMinusSourceRed => pure (.sub (.const 255) (source.component 0))
  | .sourceGreen => pure (source.component 1)
  | .oneMinusSourceGreen => pure (.sub (.const 255) (source.component 1))
  | .sourceBlue => pure (source.component 2)
  | .oneMinusSourceBlue => pure (.sub (.const 255) (source.component 2))
  | .unknown value => throw (.runtimeError s!"Unknown color modifier {hex value}")

def getModifiedAlpha (source : Code 4) : AlphaModifier → Except Exception (Code 1)
  | .sourceAlpha => pure (source.component 3)
  | .oneMinusSourceAlpha => pure (.sub (.const 255) (source.component 3))
  | .sourceRed => pure (source.component 0)
  | .oneMinusSourceRed => pure (.sub (.const 255) (source.component 0))
  | .sourceGreen => pure (source.component 1)
  | .oneMinusSourceGreen => pure (.sub (.const 255) (source.component 1))
  | .sourceBlue => pure (source.component 2)
  | .oneMinusSourceBlue => pure (.sub (.const 255) (source.component 2))
  | .unknown value => throw (.runtimeError s!"Unknown alpha modifier {hex value}")

/-- The operations that colour and alpha have the same code for. -/
def combineWith {n : ℕ} (kind : String) (in1 in2 in3 : Code n) :
    Operation → Except Exception (Code n)
  | .replace => pure in1
  | .modulate => pure (.div (.mul in1 in2) (.const 255))
  | .add => pure (.min (.const 255) (.add in1 in2))
  | .addSigned => pure (.min (.const 255) (.sub (.max (.const 127) (.add in1 in2)) (.const 127)))
  | .subtract => pure (.sub (.max in1 in2) in2)
  | .multiplyThenAdd =>
    pure (.min (.const 255) (.div (.add (.mul in1 in2) (.mul (.const 255) in3)) (.const 255)))
  | .addThenMultiply => pure (.min (.const 255) (.div (.mul (.add in1 in2) in3) (.const 255)))
  | .lerp =>
    pure (.div (.add (.mul in1 in3) (.mul in2 (.sub (.const 255) in3))) (.const 255))
  | op => throw (.runtimeError s!"Unknown {kind} combiner operation {hex op.value}")

/-- The dot product of two colours offset by one half, kept above zero at every step. -/
def dot3 (in1 in2 : Code 3) : Code 1 :=
  let offset := Code.udot (.add in1 in2) (.const 2)
  .min (.const 255) (.sub (.max (.add (.div (.mul (.const 4) (.udot in1 in2)) (.const 255))
    (.mul (.const 3) (.const 255))) offset) offset)

def combineRGB (index : Fin 6) (op : Operation) : Except Exception (Code 3) :=
  let in1 : Code 3 := .var (.rgbIn index 0)
  let in2 : Code 3 := .var (.rgbIn index 1)
  match op with
  | .dot3RGB | .dot3RGBA => pure (.pick (dot3 in1 in2) fun _ => 0)
  | op => combineWith "color" in1 in2 (.var (.rgbIn index 2)) op

def combineA (index : Fin 6) (op : Operation) : Except Exception (Code 1) :=
  match op with
  | .dot3RGBA => pure (dot3 (.var (.rgbIn index 0)) (.var (.rgbIn index 1)))
  | op => combineWith "alpha" (.var (.aIn index 0)) (.var (.aIn index 1)) (.var (.aIn index 2)) op

/-- `combiner_buffer.rgb = combiner_output.rgb` and the same for alpha. -/
def bufferCode (registers : Registers) (index : Fin 6) : List Statement :=
  let output : Code 4 := .var .combinerOutput
  if 0 < index.val then
    (if registers.tevStageUpdatesRGB (index - 1) then
      [.assignTo .combinerBuffer ![some 0, some 1, some 2, none] output.rgb] else []) ++
    (if registers.tevStageUpdatesA (index - 1) then
      [.assignTo .combinerBuffer ![none, none, none, some 0] (output.component (n := 1) 3)] else [])
  else []

def outputCode (index : Fin 6) (multiplierRGB multiplierA : ℕ) : Code 4 :=
  let combined := Code.uvec4 (.var (.outRGB index)) (.var (.outA index))
  if multiplierRGB ≠ 1 ∨ multiplierA ≠ 1 then
    .min (.const 255) (.mul (.uvec4 (.const (BitVec.ofNat 32 multiplierRGB))
      (.const (BitVec.ofNat 32 multiplierA))) combined)
  else combined

/-- What one round of the loop in `GenerateFragmentShader` emits. -/
def stageCode (registers : Registers) (index : Fin 6) : Except Exception (List Statement) := do
  let stage := registers.tevStages index
  let color (i : Fin 3) : Except Exception (Code 3) := do
    getModifiedColor (← getSourceColor index (stage.colorSource i)) (stage.colorModifier i)
  let alpha (i : Fin 3) : Except Exception (Code 1) := do
    getModifiedAlpha (← getSourceAlpha index (stage.alphaSource i)) (stage.alphaModifier i)
  let rgb0 ← color 0
  let rgb1 ← color 1
  let rgb2 ← color 2
  let a0 ← alpha 0
  let a1 ← alpha 1
  let a2 ← alpha 2
  let outRGB ← combineRGB index stage.colorOp
  let outA ← combineA index stage.alphaOp
  let multiplierRGB ← stage.getMultiplierRGB
  let multiplierA ← stage.getMultiplierA
  pure ([.assign (.rgbIn index 0) rgb0, .assign (.rgbIn index 1) rgb1,
    .assign (.rgbIn index 2) rgb2,
    .assign (.aIn index 0) a0, .assign (.aIn index 1) a1, .assign (.aIn index 2) a2,
    .assign (.outRGB index) outRGB, .assign (.outA index) outA] ++
    bufferCode registers index ++
    [.assign .combinerOutput (outputCode index multiplierRGB multiplierA)])

/-- The declarations and the code of the given stages. -/
def stagesCode (registers : Registers) (indices : List (Fin 6)) :
    Except Exception (List Statement) :=
  indices.foldlM (fun code index => do pure (code ++ (← stageCode registers index)))
    [.assign .combinerBuffer (Code.var .combinerBufferInit),
      .assign .combinerOutput (Code.var .combinerBuffer)]

/-- The test for the pixels that fail. -/
def failing : AlphaFunction → Except Exception Comparison
  | .notEqual => pure .eq
  | .lessThan => pure .ge
  | .lessThanOrEqual => pure .gt
  | .greaterThan => pure .le
  | .greaterThanOrEqual => pure .lt
  | function => throw (.runtimeError s!"Unknown alpha test function {hex function.value}")

def alphaTestCode (registers : Registers) : Except Exception (List Statement) := do
  if registers.alphaTestEnable ∧ registers.alphaFunction ≠ .always then
    let op ← failing registers.alphaFunction
    return [.discardIf op (Code.component (.var .combinerOutput) 3)
      (.const (BitVec.ofNat 32 registers.alphaReference))]
  return []

/-- The combiners and the alpha test as `GenerateFragmentShader` emits them. -/
def combinerCode (registers : Registers) : Except Exception (List Statement) := do
  let stages ← stagesCode registers (List.finRange 6)
  pure (stages ++ (← alphaTestCode registers))

/-- A byte in a 32-bit component. -/
def word (x : BitVec 8) : BitVec 32 := x.setWidth 32

/-- The store the shader starts with: the uniforms the renderer uploads and the fragment's inputs;
anything may be in the other variables. -/
def uploads (registers : Registers) (inputs : FragmentInputs) (rest : ShaderStore) : ShaderStore
  | .inColor => fun c => word (inputs.primaryColor c)
  | .texColor i => fun c => word (inputs.texture i c)
  | .combinerBufferInit => fun c => word (registers.bufferInit c)
  | .tevConst index => fun c => word ((registers.tevStages index).const c)
  | x => rest x

/-! ## What a stage computes -/

def blend : Operation → ℕ → ℕ → ℕ → ℕ
  | .replace, a, _, _ => a
  | .modulate, a, b, _ => a * b / 255
  | .add, a, b, _ => min 255 (a + b)
  | .addSigned, a, b, _ => min 255 (max 127 (a + b) - 127)
  | .lerp, a, b, c => (a * c + b * (255 - c)) / 255
  | .subtract, a, b, _ => max a b - b
  | .multiplyThenAdd, a, b, c => min 255 ((a * b + 255 * c) / 255)
  | .addThenMultiply, a, b, c => min 255 ((a + b) * c / 255)
  | .dot3RGB, _, _, _ | .dot3RGBA, _, _, _ | .unknown _, _, _, _ => 0

/-- The alpha combiner of the software rasterizer clamps the last operation before it divides. -/
def blendSoftware : Operation → ℕ → ℕ → ℕ → ℕ
  | .addThenMultiply, a, b, c => min 255 ((a + b) * c) / 255
  | op, a, b, c => blend op a b c

namespace ColorModifier

def component : ColorModifier → Fin 3 → Fin 4
  | sourceColor | oneMinusSourceColor => Fin.castSucc
  | sourceRed | oneMinusSourceRed => fun _ => 0
  | sourceGreen | oneMinusSourceGreen => fun _ => 1
  | sourceBlue | oneMinusSourceBlue => fun _ => 2
  | sourceAlpha | oneMinusSourceAlpha | unknown _ => fun _ => 3

def inverted : ColorModifier → Bool
  | oneMinusSourceColor | oneMinusSourceAlpha | oneMinusSourceRed | oneMinusSourceGreen
  | oneMinusSourceBlue => true
  | _ => false

end ColorModifier

namespace AlphaModifier

def component : AlphaModifier → Fin 4
  | sourceRed | oneMinusSourceRed => 0
  | sourceGreen | oneMinusSourceGreen => 1
  | sourceBlue | oneMinusSourceBlue => 2
  | sourceAlpha | oneMinusSourceAlpha | unknown _ => 3

def inverted : AlphaModifier → Bool
  | oneMinusSourceAlpha | oneMinusSourceRed | oneMinusSourceGreen | oneMinusSourceBlue => true
  | _ => false

end AlphaModifier

def modified (inverted : Bool) (x : ℕ) : ℕ := if inverted then 255 - x else x

namespace Stages

variable (registers : Registers) (inputs : FragmentInputs) (index : Fin 6) (s : CombinerState ℕ)

def sourceValue : Source → Fin 4 → ℕ
  | .primaryColor | .primaryFragmentColor => fun c => (inputs.primaryColor c).toNat
  | .texture0 => fun c => (inputs.texture 0 c).toNat
  | .texture1 => fun c => (inputs.texture 1 c).toNat
  | .texture2 => fun c => (inputs.texture 2 c).toNat
  | .constant => fun c => ((registers.tevStages index).const c).toNat
  | .combinerBuffer => s.buffer
  | .previous => s.output
  | .secondaryFragmentColor | .texture3 | .unknown _ => fun _ => 0

def colorInput (i c : Fin 3) : ℕ :=
  let stage := registers.tevStages index
  modified (stage.colorModifier i).inverted
    (sourceValue registers inputs index s (stage.colorSource i)
      ((stage.colorModifier i).component c))

def alphaInput (i : Fin 3) : ℕ :=
  let stage := registers.tevStages index
  modified (stage.alphaModifier i).inverted
    (sourceValue registers inputs index s (stage.alphaSource i) (stage.alphaModifier i).component)

variable (alpha : Operation → ℕ → ℕ → ℕ → ℕ)

/-- What the colour combiner of the stage gives, before the multiplier. -/
def colorBlend (c : Fin 3) : ℕ :=
  blend (registers.tevStages index).colorOp (colorInput registers inputs index s 0 c)
    (colorInput registers inputs index s 1 c) (colorInput registers inputs index s 2 c)

/-- The same for an alpha combiner that blends as given. -/
def alphaBlend : ℕ :=
  alpha (registers.tevStages index).alphaOp (alphaInput registers inputs index s 0)
    (alphaInput registers inputs index s 1) (alphaInput registers inputs index s 2)

/-- The outcome of a stage. -/
def next : CombinerState ℕ where
  buffer := updatedBuffer registers index s
  output := rgba
    (fun c => min 255
      (colorBlend registers inputs index s c * 2 ^ (registers.tevStages index).multiplierExpRGB))
    (min 255
      (alphaBlend registers inputs index s alpha * 2 ^ (registers.tevStages index).multiplierExpA))

theorem next_output : (next registers inputs index s alpha).output = rgba
    (fun c => min 255
      (colorBlend registers inputs index s c * 2 ^ (registers.tevStages index).multiplierExpRGB))
    (min 255 (alphaBlend registers inputs index s alpha *
      2 ^ (registers.tevStages index).multiplierExpA)) := rfl

def initial : CombinerState ℕ :=
  ⟨fun c => (registers.bufferInit c).toNat, fun c => (registers.bufferInit c).toNat⟩

def run (indices : List (Fin 6)) : CombinerState ℕ :=
  indices.foldl (fun s index => next registers inputs index s alpha) (initial registers)

end Stages

/-- Clamping the product of the stage's alpha combiner before the division makes no difference. -/
def Stages.QuotientFits (registers : Registers) (inputs : FragmentInputs) (index : Fin 6)
    (s : CombinerState ℕ) : Prop :=
  (registers.tevStages index).alphaOp = .addThenMultiply →
    (alphaInput registers inputs index s 0 + alphaInput registers inputs index s 1) *
      alphaInput registers inputs index s 2 < 510

end Mikage.Pica.TextureEnv
