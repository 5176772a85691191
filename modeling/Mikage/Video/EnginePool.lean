import Mikage.Lib.Run
import Mikage.Video.ShaderEngine

/-!
# The pool of shader engines

A draw asks the pool for an engine. The pool keeps the engines it has compiled under a hash of the
shader memory, the entry point and the bool uniforms, and computes the hash only after a register
write that has set its dirty flag.

- `Context.writeRegister`: the register writes that reach the shader.
- `EnginePool.getOrCompile`: the engine of a draw.
- `Covered`: where the hash tells a draw from the draws before it. It does not where only swizzle
  patterns, integer uniforms, the output configuration or the type of the engine have changed, nor
  where the entry point has changed and nothing has set the flag.
-/

namespace Mikage.Pica.VertexShader

variable {F H : Type}

/-- `Settings::ShaderEngine`. -/
inductive EngineType where
  | interpreter | bytecode | glsl
  deriving DecidableEq, Repr

/-- What enters the hash. -/
structure HashInput where
  shaderMemory : ShaderMemory
  entryPoint : ShaderCodeOffset
  boolUniforms : BitVec 16
  deriving DecidableEq

/-- What `CreateMicroCodeRecompiler` reads of the context. -/
structure CompileInputs where
  shaderMemory : ShaderMemory
  swizzleData : ShaderMemory
  /-- The register. -/
  boolUniforms : BitVec 16
  /-- The copy in `shader_uniforms`, which the text of the shader is generated from. -/
  boolUniformsCopy : BitVec 16
  intUniforms : Fin 4 → BitVec 32
  mainOffset : ShaderCodeOffset
  output : OutputConfiguration

def CompileInputs.hashInput (inputs : CompileInputs) : HashInput :=
  ⟨inputs.shaderMemory, inputs.mainOffset, inputs.boolUniforms⟩

/-! ## The context -/

/-- What the GPU holds of a shader. -/
structure Context (F : Type) where
  registers : Nat → BitVec 32
  /-- `shader_uniforms`. -/
  boolUniforms : BitVec 16
  intUniforms : Fin 4 → BitVec 32
  floatUniforms : Fin 96 → Vec4 F
  shaderMemory : ShaderMemory
  swizzleData : ShaderMemory

namespace Context

def inputs (context : Context F) : CompileInputs where
  shaderMemory := context.shaderMemory
  swizzleData := context.swizzleData
  boolUniforms := (context.registers 0x2b0).setWidth 16
  boolUniformsCopy := context.boolUniforms
  intUniforms := fun i => context.registers (0x2b1 + i.val)
  mainOffset := context.registers 0x2ba &&& 0xffff
  output := {
    outputAttributesMinus1 := context.registers 0x24a
    outputAttributesMinus1Copy := context.registers 0x251
    registerMask := (context.registers 0x2bd).setWidth 16
    numOutputAttributes := (context.registers 0x4f).setWidth 3
    semantics := fun i => context.registers (0x50 + i.val) }

def setRegister (context : Context F) (id : Nat) (value : BitVec 32) : Context F :=
  { context with registers := Function.update context.registers id value }

/-- The four components of a float uniform, from the words written. Their order is backwards. -/
def uniformOf [Float24 F] (isFloat32 : Bool) (word : Nat → BitVec 32) : Vec4 F :=
  if isFloat32 then fun i => Float24.fromFloat32 (word (3 - i.toNat))
  else fun i => Float24.fromRawFloat <|
    if i = 3 then (word 0 >>> 8).setWidth 24
    else if i = 2 then ((word 0 &&& 0xff) <<< 16 ||| (word 1 >>> 16 &&& 0xffff)).setWidth 24
    else if i = 1 then ((word 1 &&& 0xffff) <<< 8 ||| (word 2 >>> 24 &&& 0xff)).setWidth 24
    else (word 2 &&& 0xffffff).setWidth 24

/-- The registers `vs_uniform_setup.set_value`. -/
def setFloatUniform [Float24 F] (context : Context F) (mask : BitVec 32) (word : Nat → BitVec 32) :
    Except Exception (Context F) :=
  if mask ≠ 0xffffffff then .error (.runtimeError "Tried to overwrite uniforms with mask")
  else
    let setup := context.registers 0x2c0
    let index := (setup &&& 0x7f).toNat
    if h : index < 96 then
      let floatUniforms :=
        Function.update context.floatUniforms ⟨index, h⟩ (uniformOf (setup.getLsbD 31) word)
      let setup := setup &&& ~~~0x7f ||| (setup + 1 &&& 0x7f)
      .ok { context.setRegister 0x2c0 setup with floatUniforms := floatUniforms }
    else .ok context

/-- A write to a table through its offset register, and whether it has happened. -/
def loadWord (context : Context F) (offsetId : Nat) (memory : ShaderMemory) (value : BitVec 32) :
    Option (Context F × ShaderMemory) :=
  if h : (context.registers offsetId).toNat < 1024 then
    some (context.setRegister offsetId (context.registers offsetId + 1),
      Function.update memory ⟨_, h⟩ value)
  else none

/-- A register write, and whether it calls `SetDirty`. `word` are the values from this command on. -/
def writeRegister [Float24 F] (context : Context F) (id : Nat) (mask : BitVec 32)
    (word : Nat → BitVec 32) : Except Exception (Context F × Bool) :=
  let value := word 0
  let context := context.setRegister id (context.registers id &&& ~~~mask ||| value &&& mask)
  if id = 0x2b0 then
    .ok ({ context with boolUniforms := (context.registers 0x2b0).setWidth 16 }, true)
  else if h : 0x2b1 ≤ id ∧ id ≤ 0x2b4 then
    let index : Fin 4 := ⟨id - 0x2b1, by omega⟩
    let intUniforms := Function.update context.intUniforms index (context.registers id)
    .ok ({ context with intUniforms := intUniforms }, true)
  else if 0x2c1 ≤ id ∧ id ≤ 0x2c8 then do
    return (← context.setFloatUniform mask word, false)
  else if 0x2cc ≤ id ∧ id ≤ 0x2d3 then
    match context.loadWord 0x2cb context.shaderMemory value with
    | some (context, memory) => .ok ({ context with shaderMemory := memory }, true)
    | none => .ok (context, false)
  else if 0x2d6 ≤ id ∧ id ≤ 0x2dd then
    match context.loadWord 0x2d5 context.swizzleData value with
    | some (context, memory) => .ok ({ context with swizzleData := memory }, true)
    | none => .ok (context, false)
  else .ok (context, false)

def runContext (context : Context F) : RunContext F :=
  ⟨context.inputs.mainOffset, context.floatUniforms, context.inputs.output⟩

end Context

/-! ## Engines -/

/-- The functions an engine is made with that the pool only passes data on to. -/
structure Env (F H : Type) where
  /-- `XXH64` over the bytes of its input. -/
  hash : HashInput → H
  analyzeShader : ShaderMemory → BitVec 16 → ShaderCodeOffset → Except Exception AnalyzedProgram
  generateGLSL : CompileInputs → AnalyzedProgram → Except Exception String
  /-- The interpreter's `Run`. It reads the shader from the context. -/
  interpret : Context F → Invocation F → Except Exception (Option (Nat → F))

/-- `CreateMicroCodeRecompiler`. -/
def createMicroCodeRecompiler (env : Env F H) (inputs : CompileInputs) : Except Exception Engine := do
  let program ← env.analyzeShader inputs.shaderMemory inputs.boolUniforms inputs.mainOffset
  let code ← recompileToMicroCode
    ⟨inputs.shaderMemory, inputs.swizzleData, inputs.boolUniforms, inputs.intUniforms⟩ program
  let glsl ← env.generateGLSL inputs program
  return .microCodeRecompiler (← { code with glsl := glsl }.link)

/-- A new engine of the selected type. -/
def compile (env : Env F H) (type : EngineType) (inputs : CompileInputs) : Except Exception Engine :=
  match type with
  | .interpreter => .ok .interpreter
  | .bytecode => createMicroCodeRecompiler env inputs
  | .glsl => .error (.contractViolated "false")

/-- What an engine does on every vertex. -/
def Engine.behaviour [Float24 F] (env : Env F H) (context : Context F) :
    Engine → Invocation F → Outcome F
  | .interpreter => fun i => ⟨none, env.interpret context i⟩
  | .microCodeRecompiler code => fun i => ⟨some code.glsl, code.run context.runContext i⟩

/-! ## The pool -/

structure EnginePool (H : Type) where
  dirty : Bool := true
  shaderHash : H
  engines : H → Option Engine := fun _ => none

/-- `SetDirty`, where a write calls it. -/
def EnginePool.setDirty (pool : EnginePool H) (dirty : Bool) : EnginePool H :=
  { pool with dirty := pool.dirty || dirty }

/-- The hash is computed again where the flag is set. -/
def EnginePool.rehash (env : Env F H) (pool : EnginePool H) (inputs : CompileInputs) : EnginePool H :=
  if pool.dirty then { pool with shaderHash := env.hash inputs.hashInput, dirty := false } else pool

def EnginePool.getOrCompile [DecidableEq H] (env : Env F H) (pool : EnginePool H)
    (inputs : CompileInputs) (type : EngineType) : Except Exception (Engine × EnginePool H) := do
  let pool := pool.rehash env inputs
  match pool.engines pool.shaderHash with
  | some engine => return (engine, pool)
  | none =>
    let engine ← compile env type inputs
    return (engine, { pool with
      engines := Function.update pool.engines pool.shaderHash (some engine) })

/-! ## Runs -/

/-- A draw: the type of the engine selected for it, and what there was to compile. -/
structure Draw where
  type : EngineType
  inputs : CompileInputs

structure Gpu (F H : Type) where
  context : Context F
  pool : EnginePool H
  /-- The draws so far, the last one first. Nothing reads it. -/
  draws : List Draw := []

namespace Gpu

def writeRegister [Float24 F] (g : Gpu F H) (id : Nat) (mask : BitVec 32)
    (word : Nat → BitVec 32) : Except Exception (Gpu F H) := do
  let (context, dirty) ← g.context.writeRegister id mask word
  return { g with context := context, pool := g.pool.setDirty dirty }

def draw [DecidableEq H] (env : Env F H) (g : Gpu F H) (type : EngineType) :
    Except Exception (Gpu F H) := do
  let (_, pool) ← g.pool.getOrCompile env g.context.inputs type
  return { g with pool := pool, draws := ⟨type, g.context.inputs⟩ :: g.draws }

/-- Before anything has been drawn. The registers and the memories may hold anything. -/
def Start (g : Gpu F H) : Prop :=
  g.pool.dirty = true ∧ g.pool.engines = (fun _ => none) ∧ g.draws = []

/-- A register write, or a draw that meets `P`. An exception ends the run. -/
inductive Step [Float24 F] [DecidableEq H] (env : Env F H) (P : Gpu F H → EngineType → Prop) :
    Gpu F H → Gpu F H → Prop where
  | write {g g' : Gpu F H} {id : Nat} {mask : BitVec 32} {word : Nat → BitVec 32} :
      g.writeRegister id mask word = .ok g' → Step env P g g'
  | draw {g g' : Gpu F H} {type : EngineType} :
      P g type → g.draw env type = .ok g' → Step env P g g'

/-- The engine a draw is handed behaves as a new one. -/
def Exact [Float24 F] [DecidableEq H] (env : Env F H) (g : Gpu F H) (type : EngineType) : Prop :=
  (g.pool.getOrCompile env g.context.inputs type).map (fun r => r.1.behaviour env g.context) =
    (compile env type g.context.inputs).map (fun e => e.behaviour env g.context)

/-- The hash tells this draw from every draw before it that had something else to compile. -/
structure Covered (g : Gpu F H) (type : EngineType) : Prop where
  /-- Where nothing has set the flag since the last draw, the entry point is the same. -/
  entry : g.pool.dirty = false → ∀ d ∈ g.draws.head?,
    d.inputs.mainOffset = g.context.inputs.mainOffset
  /-- What enters the hash is different, or the same engine comes out. -/
  same : ∀ d ∈ g.draws, d.inputs.hashInput = g.context.inputs.hashInput →
    d.type = type ∧ (type = .bytecode → d.inputs = g.context.inputs)

end Gpu

/-! ## Register writes -/

section Writes

variable {context context' : Context F} {id : Nat} {mask value : BitVec 32} {word : Nat → BitVec 32}

@[simp] theorem Context.setRegister_memory :
    (context.setRegister id value).inputs.shaderMemory = context.inputs.shaderMemory := rfl

theorem Context.setRegister_bools (h : id ≠ 0x2b0) :
    (context.setRegister id value).inputs.boolUniforms = context.inputs.boolUniforms := by
  simp only [inputs, setRegister]
  rw [Function.update_of_ne (Ne.symm h)]

variable [Float24 F]

theorem Context.setFloatUniform_hashed (h : context.setFloatUniform mask word = .ok context') :
    context'.inputs.shaderMemory = context.inputs.shaderMemory ∧
      context'.inputs.boolUniforms = context.inputs.boolUniforms := by
  unfold setFloatUniform at h
  split at h
  · exact nomatch h
  · dsimp only at h
    split at h
    · obtain rfl := Except.ok.inj h
      exact ⟨rfl, setRegister_bools (by decide)⟩
    · obtain rfl := Except.ok.inj h
      exact ⟨rfl, rfl⟩

/-- A write that leaves the flag alone leaves the shader memory and the bool uniforms alone. -/
theorem Context.writeRegister_hashed (h : context.writeRegister id mask word = .ok (context', false)) :
    context'.inputs.shaderMemory = context.inputs.shaderMemory ∧
      context'.inputs.boolUniforms = context.inputs.boolUniforms := by
  unfold writeRegister at h
  dsimp only at h
  split at h
  · simp at h
  next hid =>
  have hset : ∀ v, (context.setRegister id v).inputs.boolUniforms = context.inputs.boolUniforms :=
    fun v => setRegister_bools hid
  split at h
  · simp at h
  split at h
  · generalize hf : (context.setRegister id _).setFloatUniform mask word = r at h
    cases r with
    | error e => exact nomatch h
    | ok context₁ =>
      obtain rfl := congrArg Prod.fst (Except.ok.inj h)
      obtain ⟨hm, hb⟩ := setFloatUniform_hashed hf
      exact ⟨hm, hb.trans (hset _)⟩
  split at h
  · split at h
    · simp at h
    · obtain rfl := congrArg Prod.fst (Except.ok.inj h)
      exact ⟨rfl, hset _⟩
  split at h
  · split at h
    · simp at h
    · obtain rfl := congrArg Prod.fst (Except.ok.inj h)
      exact ⟨rfl, hset _⟩
  · obtain rfl := congrArg Prod.fst (Except.ok.inj h)
    exact ⟨rfl, hset _⟩

end Writes

/-! ## What a run keeps -/

namespace Gpu

variable {env : Env F H} {g g' : Gpu F H} {type : EngineType}

/-- The pool's hash is the one of the last draw's shader, unless the flag is set, and its engines are
compiled from what earlier draws had. -/
structure Sound (env : Env F H) (g : Gpu F H) : Prop where
  hashed : g.pool.dirty = false → ∃ d, g.draws.head? = some d ∧
    g.pool.shaderHash = env.hash d.inputs.hashInput ∧
    d.inputs.shaderMemory = g.context.inputs.shaderMemory ∧
    d.inputs.boolUniforms = g.context.inputs.boolUniforms
  compiled : ∀ h e, g.pool.engines h = some e →
    ∃ d ∈ g.draws, h = env.hash d.inputs.hashInput ∧ compile env d.type d.inputs = .ok e

theorem Start.sound (h : Start g) : Sound env g := by
  obtain ⟨hd, he, -⟩ := h
  constructor
  · intro h
    simp [hd] at h
  · intro h e hh
    simp [he] at hh

theorem Sound.write [Float24 F] (hs : Sound env g) {id : Nat} {mask : BitVec 32} {word : Nat → BitVec 32}
    (h : g.writeRegister id mask word = .ok g') : Sound env g' := by
  unfold writeRegister at h
  generalize hw : g.context.writeRegister id mask word = r at h
  cases r with
  | error e => exact nomatch h
  | ok r =>
    obtain ⟨context, dirty⟩ := r
    obtain rfl := Except.ok.inj h
    refine ⟨fun hd => ?_, hs.compiled⟩
    obtain ⟨hclean, rfl⟩ : g.pool.dirty = false ∧ dirty = false := by
      simpa [EnginePool.setDirty] using hd
    obtain ⟨d, hhead, hhash, hm, hb⟩ := hs.hashed hclean
    obtain ⟨hm', hb'⟩ := Context.writeRegister_hashed hw
    exact ⟨d, hhead, hhash, hm.trans hm'.symm, hb.trans hb'.symm⟩

/-- The flag is set wherever the hash has to change. -/
theorem Sound.rehash (hs : Sound env g) (hc : Covered g type) :
    (g.pool.rehash env g.context.inputs).shaderHash = env.hash g.context.inputs.hashInput := by
  unfold EnginePool.rehash
  split
  · rfl
  next hd =>
  rw [Bool.not_eq_true] at hd
  obtain ⟨d, hhead, hhash, hm, hb⟩ := hs.hashed hd
  have he := hc.entry hd d (by simp [hhead])
  rw [hhash]
  unfold CompileInputs.hashInput
  rw [hm, hb, he]

@[simp] theorem rehash_engines {pool : EnginePool H} {inputs : CompileInputs} :
    (pool.rehash env inputs).engines = pool.engines := by
  unfold EnginePool.rehash
  split <;> rfl

@[simp] theorem rehash_dirty {pool : EnginePool H} {inputs : CompileInputs} :
    (pool.rehash env inputs).dirty = false := by
  unfold EnginePool.rehash
  split
  · rfl
  next h => simpa using h

/-- Only the recompiler reads anything. -/
theorem compile_congr {d : Draw} {inputs : CompileInputs} (ht : d.type = type)
    (hi : type = .bytecode → d.inputs = inputs) :
    compile env d.type d.inputs = compile env type inputs := by
  subst ht
  cases htype : d.type with
  | interpreter => rfl
  | bytecode => rw [hi htype]
  | glsl => rfl

/-- An engine found under the hash is the one that would be compiled now. -/
theorem Sound.found (hinj : Function.Injective env.hash) (hs : Sound env g) (hc : Covered g type)
    {e : Engine} (he : g.pool.engines (env.hash g.context.inputs.hashInput) = some e) :
    compile env type g.context.inputs = .ok e := by
  obtain ⟨d, hd, hhash, hcompile⟩ := hs.compiled _ _ he
  obtain ⟨ht, hi⟩ := hc.same d hd (hinj hhash).symm
  rw [← compile_congr ht hi]
  exact hcompile

variable [DecidableEq H]

/-- What a draw is handed, and what the pool is then. -/
theorem Sound.getOrCompile (hinj : Function.Injective env.hash) (hs : Sound env g)
    (hc : Covered g type) :
    ∃ pool : Engine → EnginePool H,
      g.pool.getOrCompile env g.context.inputs type =
        (compile env type g.context.inputs).map (fun e => (e, pool e)) ∧
      ∀ e, compile env type g.context.inputs = .ok e → (pool e).dirty = false ∧
        (pool e).shaderHash = env.hash g.context.inputs.hashInput ∧
        ∀ h e', (pool e).engines h = some e' →
          g.pool.engines h = some e' ∨ h = env.hash g.context.inputs.hashInput ∧ e' = e := by
  have hhash := hs.rehash hc
  unfold EnginePool.getOrCompile
  dsimp only
  rw [hhash, rehash_engines]
  cases he : g.pool.engines (env.hash g.context.inputs.hashInput) with
  | some e =>
    refine ⟨fun _ => g.pool.rehash env g.context.inputs, ?_, fun e' _ => ⟨by simp, hhash, ?_⟩⟩
    · rw [hs.found hinj hc he]
      rfl
    · intro h e'' he''
      exact .inl (by simpa using he'')
  | none =>
    let key := env.hash g.context.inputs.hashInput
    let pool := g.pool.rehash env g.context.inputs
    refine ⟨fun e => ⟨pool.dirty, key, Function.update g.pool.engines key (some e)⟩, ?_,
      fun e _ => ⟨by simp [pool], rfl, ?_⟩⟩
    · cases compile env type g.context.inputs <;> rfl
    · intro h e' he'
      dsimp only at he'
      by_cases hh : h = key
      · subst hh
        rw [Function.update_self] at he'
        exact .inr ⟨rfl, (Option.some.inj he').symm⟩
      · rw [Function.update_of_ne hh] at he'
        exact .inl he'

theorem Sound.draw (hinj : Function.Injective env.hash) (hs : Sound env g) (hc : Covered g type)
    (h : g.draw env type = .ok g') : Sound env g' := by
  obtain ⟨pool, heq, hpool⟩ := hs.getOrCompile hinj hc
  unfold Gpu.draw at h
  rw [heq] at h
  cases he : compile env type g.context.inputs with
  | error x =>
    rw [he] at h
    exact nomatch h
  | ok e =>
    obtain ⟨hdirty, hhash, hengines⟩ := hpool e he
    rw [he] at h
    obtain rfl := Except.ok.inj h
    refine ⟨fun _ => ⟨_, rfl, hhash, rfl, rfl⟩, fun h e' he' => ?_⟩
    obtain hold | ⟨rfl, rfl⟩ := hengines h e' he'
    · obtain ⟨d, hd, hh, hcompile⟩ := hs.compiled h e' hold
      exact ⟨d, List.mem_cons_of_mem _ hd, hh, hcompile⟩
    · exact ⟨_, List.mem_cons_self, rfl, he⟩

variable [Float24 F]

theorem Sound.run (hinj : Function.Injective env.hash)
    (h : Run.Reachable Start (Step env Covered) g) : Sound env g := by
  refine h.invariant (fun _ => Start.sound) fun g g' hs hstep => ?_
  cases hstep with
  | write hw => exact hs.write hw
  | draw hc hd => exact hs.draw hinj hc hd

/-- In a run whose draws are all told from the draws before them, every draw is handed an engine that
behaves as a new one. -/
theorem engines_exact (hinj : Function.Injective env.hash)
    (h : Run.Reachable Start (Step env Covered) g) (hc : Covered g type) : Exact env g type := by
  obtain ⟨pool, heq, -⟩ := (Sound.run hinj h).getOrCompile hinj hc
  unfold Exact
  rw [heq]
  cases compile env type g.context.inputs <;> rfl

/-! ## A shader of two instructions -/

/-- Whole numbers in place of floats. -/
instance : Float24 Int where
  add := (· + ·)
  mul := (· * ·)
  less x y := x < y
  equal x y := x = y
  floor x := x
  rcp x := 1 / x
  rsq x := 1 / x
  toInt x := .ofInt 32 x
  fromFloat32 x := x.toInt
  fromRawFloat x := x.toInt
  zero := 0
  minusOne := -1

/-- MOV from input register 0 to output register 0, and END. -/
def movEnd : ShaderMemory := fun i =>
  if i.val = 0 then 0x4c000000 else if i.val = 1 then 0x88000000 else 0

/-- Its one block, as `AnalyzeShader` finds it; no text; and no interpreter. -/
def movEnv : Env Int HashInput where
  hash := id
  analyzeShader _ _ entryPoint := .ok ⟨[(entryPoint, { length := 2 })]⟩
  generateGLSL _ _ := .ok ""
  interpret _ _ := .ok none

/-- Swizzle pattern 0 is `xyzw`, for a write of all four components. Output register 0 is the
position. -/
def movGpu : Gpu Int HashInput where
  context := {
    registers := fun id =>
      if id = 0x4f then 1 else if id = 0x50 then 0x03020100 else if id = 0x2bd then 1 else 0
    boolUniforms := 0
    intUniforms := fun _ => 0
    floatUniforms := fun _ _ => 0
    shaderMemory := movEnd
    swizzleData := fun i => if i.val = 0 then 0x36f else 0 }
  pool := { shaderHash := ⟨movEnd, 0, 0⟩ }

theorem movGpu_start : Start movGpu := ⟨rfl, rfl, rfl⟩

/-- After a draw. -/
def movDrawn : Gpu Int HashInput where
  context := movGpu.context
  pool := {
    dirty := false
    shaderHash := ⟨movEnd, 0, 0⟩
    engines := Function.update (fun _ => none) ⟨movEnd, 0, 0⟩ (some (.microCodeRecompiler {
      blockOffsets := [(0, 0)]
      ops := [{ type := .mov, arg1 := 0x80, arg2 := 0x36f }, { type := .end' }] })) }
  draws := [⟨.bytecode, movGpu.context.inputs⟩]

theorem movGpu_draw : movGpu.draw movEnv .bytecode = .ok movDrawn := rfl

theorem movGpu_covered : Covered movGpu .bytecode := ⟨fun _ _ h => (nomatch h), fun _ h => (nomatch h)⟩

theorem movDrawn_covered : Covered movDrawn .bytecode := by
  constructor
  · intro _ d hd
    obtain rfl := Option.some.inj hd
    rfl
  · intro d hd _
    obtain rfl := List.mem_singleton.1 hd
    exact ⟨rfl, fun _ => rfl⟩

/-- The second of two draws. -/
theorem engines_exact_twice : Exact movEnv movDrawn .bytecode :=
  engines_exact Function.injective_id
    (.next (.start movGpu_start) (.draw movGpu_covered movGpu_draw)) movDrawn_covered

/-- A vertex whose first attribute has the components 1, 2, 2, 2. -/
def oneTwo : Invocation Int where
  state := { registers := fun _ _ => 0, conditionalCode := fun _ => false, addressRegisters := fun _ => 0 }
  inputRegisters := fun _ comp => if comp = 0 then 1 else 2
  vertex := fun _ => 0
  steps := 2

/-- The y component of the position that comes out. -/
def yOfOneTwo (engine : Except Exception (Invocation Int → Outcome Int)) : Option Int :=
  match engine with
  | .ok behaviour =>
    match (behaviour oneTwo).vertex with
    | .ok (some vertex) => some (vertex 1)
    | _ => none
  | .error _ => none

/-- Swizzle pattern 0 becomes `xxxx` between two draws: the second one gets the first one's engine, and
y comes out as 2 instead of 1. -/
theorem engines_not_exact : Function.Injective movEnv.hash ∧
    ∃ g, Run.Reachable Start (Step movEnv fun _ _ => True) g ∧ ¬ Exact movEnv g .bytecode := by
  refine ⟨Function.injective_id, ?_⟩
  have hwrite : movDrawn.writeRegister 0x2d6 0xffffffff (fun _ => 0x00f) = .ok _ := rfl
  refine ⟨_, .next (.next (.start movGpu_start) (.draw trivial movGpu_draw)) (.write hwrite),
    fun h => ?_⟩
  have hy := congrArg yOfOneTwo h
  exact absurd hy (by decide +kernel)

end Gpu

end Mikage.Pica.VertexShader
