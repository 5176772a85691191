import Mathlib
import Mikage.Lib.Masks

/-!
# The layout of vertex attributes

Each of the twelve loaders lists attributes and paddings that follow each other in memory. The
constructor of `VertexLoader` and the vertex input that the renderer describes to the host both
walk over these lists. The one aligns the addresses it reaches, the other offsets from the address
of the loader, and the other also skips a loader when the attribute of the same number has no
source.
-/

namespace Mikage.Pica.VertexLayout

/-! ## The registers -/

/-- `VertexAttributes::Format`. -/
inductive Format where
  | byte | ubyte | short | float
  deriving DecidableEq, Repr

/-- An entry of `attribute_loaders`, with the components up to `component_count`. -/
structure LoaderConfig where
  dataOffset : BitVec 32
  components : List (BitVec 4)
  byteCount : BitVec 8
  count_le : components.length ≤ 12

/-- `VertexAttributes`, with `vs_input_register_map`. Only the first twelve loaders, formats and
sizes exist. -/
structure VertexAttributes where
  baseAddress : BitVec 29
  format : ℕ → Format
  size : ℕ → BitVec 2
  numExtraAttributes : BitVec 4
  attributeLoaders : ℕ → LoaderConfig
  registerForAttribute : ℕ → BitVec 4

namespace VertexAttributes

def physicalBaseAddress (config : VertexAttributes) : BitVec 32 := config.baseAddress.setWidth 32 * 8

def numElements (config : VertexAttributes) (n : ℕ) : ℕ := (config.size n).toNat + 1

def elementSize (config : VertexAttributes) (n : ℕ) : ℕ :=
  if config.format n = .float then 4 else if config.format n = .short then 2 else 1

def stride (config : VertexAttributes) (n : ℕ) : ℕ := config.numElements n * config.elementSize n

def numTotalAttributes (config : VertexAttributes) : ℕ := config.numExtraAttributes.toNat + 1

/-- Where a loader starts. -/
def loadAddress (config : VertexAttributes) (loader : ℕ) : BitVec 32 :=
  config.physicalBaseAddress + (config.attributeLoaders loader).dataOffset

end VertexAttributes

/-! ## The code -/

/-- `(address + size - 1) & ~(size - 1)`. -/
def alignTo (size : ℕ) (address : BitVec 32) : BitVec 32 :=
  (address + BitVec.ofNat 32 (size - 1)) &&& ~~~BitVec.ofNat 32 (size - 1)

/-- The address after a padding component. -/
def skip (address : BitVec 32) (component : BitVec 4) : BitVec 32 :=
  alignTo 4 address + 4 * BitVec.ofNat 32 (component.toNat - 11)

/-- The attributes that a list of components puts from an address on, and where. -/
def place (config : VertexAttributes) (address : BitVec 32) : List (BitVec 4) → List (ℕ × BitVec 32)
  | [] => []
  | component :: components =>
    if 12 ≤ component.toNat then place config (skip address component) components
    else
      (component.toNat, alignTo (config.elementSize component.toNat) address) ::
        place config (alignTo (config.elementSize component.toNat) address +
          BitVec.ofNat 32 (config.stride component.toNat)) components

/-- What `VertexLoader` keeps about an attribute. -/
structure Source where
  address : BitVec 32
  stride : BitVec 32
  format : Format
  elements : ℕ
  elementSize : ℕ
  /-- Not in the source: the loader that listed it. -/
  loader : ℕ

/-- The attributes in the order that the constructor comes to them, with their loaders. -/
def placements (config : VertexAttributes) : List (ℕ × ℕ × BitVec 32) :=
  (List.range 12).flatMap fun loader =>
    (place config (config.loadAddress loader) (config.attributeLoaders loader).components).map
      fun p => (loader, p)

def sourceOf (config : VertexAttributes) (p : ℕ × ℕ × BitVec 32) : Source where
  address := p.2.2
  stride := (config.attributeLoaders p.1).byteCount.setWidth 32
  format := config.format p.2.1
  elements := config.numElements p.2.1
  elementSize := config.elementSize p.2.1
  loader := p.1

/-- `vertex_attribute_sources` and the arrays beside it: none for a null pointer. -/
abbrev Sources := ℕ → Option Source

/-- The constructor of `VertexLoader`; `none` where it throws, because there is no memory at the
address of an attribute (`backed`). -/
def vertexLoader (backed : BitVec 32 → Bool) (config : VertexAttributes) : Option Sources :=
  (placements config).foldlM (fun (sources : Sources) p =>
    if backed p.2.2 then some (Function.update sources p.2.1 (some (sourceOf config p)))
    else none) fun _ => none

/-- The attributes of a vertex that `Load` fetches. -/
def loaded (config : VertexAttributes) (sources : Sources) (attr : ℕ) : Option Source :=
  if attr < config.numTotalAttributes then sources attr else none

/-- `GetUsedAddressRanges`, up to the ranges that stay zero; `none` where it throws. -/
def usedAddressRanges (config : VertexAttributes) (sources : Sources) (endIndex : BitVec 32) :
    Option (List (BitVec 32 × BitVec 32)) :=
  (List.range config.numTotalAttributes).mapM fun attr =>
    match sources attr with
    | none => some (0, 0)
    | some source =>
      if source.stride = 0 then none else some (source.address, source.stride * endIndex)

/-- `VkVertexInputAttributeDescription`. -/
structure Description where
  location : BitVec 4
  binding : ℕ
  format : Format
  elements : ℕ
  offset : BitVec 32
  /-- Not in the source: the attribute it was made for. -/
  attr : ℕ

inductive LayoutError where
  | sameRegister | strideTooSmall

def describe (config : VertexAttributes) (binding : ℕ) (p : ℕ × BitVec 32) : Description where
  location := config.registerForAttribute p.1
  binding := binding
  format := config.format p.1
  elements := config.numElements p.1
  offset := p.2
  attr := p.1

/-- The loop of the renderer over the components of a loader. -/
def bindComponents (config : VertexAttributes) (binding : ℕ) (descs : List Description)
    (offset : BitVec 32) : List (BitVec 4) → Except LayoutError (List Description × BitVec 32)
  | [] => .ok (descs, offset)
  | component :: components =>
    if 12 ≤ component.toNat then
      bindComponents config binding descs (skip offset component) components
    else
      let offset := alignTo (config.elementSize component.toNat) offset
      if descs.any fun desc => desc.location == config.registerForAttribute component.toNat then
        .error .sameRegister
      else
        bindComponents config binding (descs ++ [describe config binding (component.toNat, offset)])
          (offset + BitVec.ofNat 32 (config.stride component.toNat)) components

/-- Whether the renderer binds a loader. -/
def Bound (config : VertexAttributes) (sources : Sources) (loader : ℕ) : Prop :=
  (sources loader).isSome ∧ (config.attributeLoaders loader).components ≠ [] ∧
    (config.attributeLoaders loader).byteCount ≠ 0

instance (config : VertexAttributes) (sources : Sources) (loader : ℕ) :
    Decidable (Bound config sources loader) := inferInstanceAs (Decidable (_ ∧ _ ∧ _))

def bindLoader (config : VertexAttributes) (sources : Sources) (descs : List Description)
    (loader : ℕ) : Except LayoutError (List Description) :=
  if Bound config sources loader then do
    let (descs, offset) ← bindComponents config loader descs 0
      (config.attributeLoaders loader).components
    if (config.attributeLoaders loader).byteCount.toNat < offset.toNat then .error .strideTooSmall
    else .ok descs
  else .ok descs

/-- The loop of the renderer over the loaders. -/
def layout (config : VertexAttributes) (sources : Sources) :
    Except LayoutError (List Description) :=
  (List.range 12).foldlM (bindLoader config sources) []

/-! ## Alignment -/

section Alignment

variable {config : VertexAttributes} {base x y : BitVec 32} {n : ℕ}

theorem elementSize_cases (config : VertexAttributes) (n : ℕ) :
    config.elementSize n = 1 ∨ config.elementSize n = 2 ∨ config.elementSize n = 4 := by
  unfold VertexAttributes.elementSize
  split
  · exact .inr (.inr rfl)
  · split
    · exact .inr (.inl rfl)
    · exact .inl rfl

theorem toNat_alignTo (h : n = 1 ∨ n = 2 ∨ n = 4) (x : BitVec 32) :
    (alignTo n x).toNat = (x.toNat + (n - 1)) % 2 ^ 32 / n * n := by
  obtain ⟨k, rfl⟩ : ∃ k, n = 2 ^ k := by
    obtain rfl | rfl | rfl := h
    · exact ⟨0, rfl⟩
    · exact ⟨1, rfl⟩
    · exact ⟨2, rfl⟩
  rw [alignTo, BitVec.toNat_and_not_mask, BitVec.toNat_add, BitVec.toNat_ofNat, Nat.add_mod_mod]

theorem alignTo_mod (h : n = 1 ∨ n = 2 ∨ n = 4) (x : BitVec 32) : (alignTo n x).toNat % n = 0 := by
  rw [toNat_alignTo h]
  exact Nat.mul_mod_left _ _

/-- A base that is aligned itself can be taken out. -/
theorem alignTo_add_iff (h : n = 1 ∨ n = 2 ∨ n = 4) :
    alignTo n (base + x) = base + alignTo n x ↔ base.toNat % n = 0 := by
  rw [← BitVec.toNat_inj, toNat_alignTo h, BitVec.toNat_add, BitVec.toNat_add, toNat_alignTo h]
  have hbase := base.isLt
  have hx := x.isLt
  obtain rfl | rfl | rfl := h <;> omega

theorem alignTo_of_mod (h : n = 1 ∨ n = 2 ∨ n = 4) (hx : x.toNat % 4 = 0) : alignTo n x = x := by
  rw [← BitVec.toNat_inj, toNat_alignTo h]
  have := x.isLt
  obtain rfl | rfl | rfl := h <;> omega

theorem skip_mod (x : BitVec 32) (c : BitVec 4) : (skip x c).toNat % 4 = 0 := by
  have h := alignTo_mod (.inr (.inr rfl)) x
  rw [skip, BitVec.toNat_add, BitVec.toNat_mul, BitVec.toNat_ofNat]
  simp only [BitVec.reduceToNat]
  omega

theorem skip_add (h : base.toNat % 4 = 0) (c : BitVec 4) :
    skip (base + x) c = base + skip x c := by
  rw [skip, skip, (alignTo_add_iff (.inr (.inr rfl))).2 h, BitVec.add_assoc]

end Alignment

/-! ## Where attributes are -/

section Place

variable {config : VertexAttributes} {base x y : BitVec 32} {components : List (BitVec 4)}
  {attr : ℕ}

/-- A list in which an attribute comes after a padding. -/
def Padded : List (BitVec 4) → Prop
  | [] => False
  | component :: components =>
    if 12 ≤ component.toNat then ∃ c ∈ components, c.toNat < 12 else Padded components

/-- The address of a loader is aligned to the elements of its attributes, and to four bytes where
one of them comes after a padding. -/
def Aligned (config : VertexAttributes) (base : BitVec 32) (components : List (BitVec 4)) : Prop :=
  (∀ c ∈ components, c.toNat < 12 → base.toNat % config.elementSize c.toNat = 0) ∧
    (Padded components → base.toNat % 4 = 0)

/-- An attribute further up by an address. -/
def shift (base : BitVec 32) (p : ℕ × BitVec 32) : ℕ × BitVec 32 := (p.1, base + p.2)

theorem mod_elementSize (h : base.toNat % 4 = 0) (n : ℕ) :
    base.toNat % config.elementSize n = 0 := by
  obtain h' | h' | h' := elementSize_cases config n <;> rw [h'] <;> omega

theorem map_fst_place (config : VertexAttributes) (x : BitVec 32) (components : List (BitVec 4)) :
    (place config x components).map Prod.fst =
      (components.map BitVec.toNat).filter fun n => decide (n < 12) := by
  induction components generalizing x with
  | nil => rfl
  | cons c components ih =>
    rw [place, List.map_cons]
    split
    next h => rw [ih, List.filter_cons_of_neg (by simpa using h)]
    next h =>
      rw [List.map_cons, ih, List.filter_cons_of_pos (by simpa using h)]

theorem map_fst_shift (base : BitVec 32) (l : List (ℕ × BitVec 32)) :
    (l.map (shift base)).map Prod.fst = l.map Prod.fst := by
  rw [List.map_map]
  rfl

/-- After a padding the addresses are aligned on both sides; if the base is not, they differ. -/
theorem place_ne (hx : x.toNat % 4 = 0) (hy : y.toNat % 4 = 0) (hbase : base.toNat % 4 ≠ 0)
    (h : ∃ c ∈ components, c.toNat < 12) :
    place config x components ≠ (place config y components).map (shift base) := by
  induction components generalizing x y with
  | nil =>
    obtain ⟨c, hc, -⟩ := h
    cases hc
  | cons c components ih =>
    rw [place, place]
    split
    next hc =>
      refine ih (skip_mod x c) (skip_mod y c) ?_
      obtain ⟨c', hc', hlt⟩ := h
      obtain rfl | hc' := List.mem_cons.1 hc'
      · omega
      · exact ⟨c', hc', hlt⟩
    next hc =>
      rw [alignTo_of_mod (elementSize_cases config _) hx,
        alignTo_of_mod (elementSize_cases config _) hy, List.map_cons, shift]
      intro heq
      have hhead : x = base + y := (Prod.mk.inj (List.cons.inj heq).1).2
      have := congrArg BitVec.toNat hhead
      rw [BitVec.toNat_add] at this
      omega

/-- When the two walks agree. -/
theorem place_add_iff (config : VertexAttributes) (base x : BitVec 32)
    (components : List (BitVec 4)) :
    place config (base + x) components = (place config x components).map (shift base) ↔
      Aligned config base components := by
  induction components generalizing x with
  | nil => simp [place, Aligned, Padded]
  | cons c components ih =>
    rw [place, place]
    split
    next hc =>
      have hpadded : Padded (c :: components) ↔ ∃ c ∈ components, c.toNat < 12 := by
        rw [Padded, if_pos hc]
      by_cases hbase : base.toNat % 4 = 0
      · rw [skip_add hbase, ih]
        constructor
        · exact fun h => ⟨fun c' _ _ => mod_elementSize hbase _, fun _ => hbase⟩
        · exact fun h => ⟨fun c' hc' => h.1 c' (List.mem_cons_of_mem _ hc'), fun _ => hbase⟩
      · constructor
        · intro heq
          have hnone : ¬ ∃ c ∈ components, c.toNat < 12 := fun h =>
            place_ne (skip_mod _ _) (skip_mod _ _) hbase h heq
          refine ⟨fun c' hc' hlt => ?_, fun h => absurd (hpadded.1 h) hnone⟩
          obtain rfl | hc' := List.mem_cons.1 hc'
          · omega
          · exact absurd ⟨c', hc', hlt⟩ hnone
        · intro h
          have hnone : ¬ ∃ c ∈ components, c.toNat < 12 := fun h' => hbase (h.2 (hpadded.2 h'))
          have hempty (x : BitVec 32) : place config x components = [] := by
            rw [← List.map_eq_nil_iff (f := Prod.fst), map_fst_place, List.filter_eq_nil_iff]
            intro n hn
            obtain ⟨c', hc', rfl⟩ := List.mem_map.1 hn
            simpa using fun hlt => hnone ⟨c', hc', hlt⟩
          rw [hempty, hempty]
          rfl
    next hc =>
      have hlt : c.toNat < 12 := by omega
      have hpadded : Padded (c :: components) ↔ Padded components := by
        rw [Padded, if_neg hc]
      have haligned : Aligned config base (c :: components) ↔
          base.toNat % config.elementSize c.toNat = 0 ∧ Aligned config base components := by
        simp only [Aligned, hpadded, List.forall_mem_cons, hlt, forall_true_left, and_assoc]
      rw [haligned, List.map_cons, shift, List.cons.injEq, Prod.mk.injEq,
        ← alignTo_add_iff (elementSize_cases config _) (x := x)]
      constructor
      · rintro ⟨⟨-, hhead⟩, htail⟩
        rw [hhead, BitVec.add_assoc, ih] at htail
        exact ⟨hhead, htail⟩
      · rintro ⟨hhead, htail⟩
        rw [hhead, BitVec.add_assoc, ih]
        exact ⟨⟨rfl, rfl⟩, htail⟩

/-- Where the walk over a list of components ends. -/
def endOf (config : VertexAttributes) (x : BitVec 32) : List (BitVec 4) → BitVec 32
  | [] => x
  | component :: components =>
    if 12 ≤ component.toNat then endOf config (skip x component) components
    else endOf config (alignTo (config.elementSize component.toNat) x +
      BitVec.ofNat 32 (config.stride component.toNat)) components

theorem alignTo_bounds {n : ℕ} (h : n = 1 ∨ n = 2 ∨ n = 4) (hx : x.toNat + 3 < 2 ^ 32) :
    x.toNat ≤ (alignTo n x).toNat ∧ (alignTo n x).toNat ≤ x.toNat + 3 := by
  rw [toNat_alignTo h]
  obtain rfl | rfl | rfl := h <;> omega

theorem skip_bounds (c : BitVec 4) (hx : x.toNat + 20 < 2 ^ 32) :
    x.toNat ≤ (skip x c).toNat ∧ (skip x c).toNat ≤ x.toNat + 20 := by
  have h := alignTo_bounds (.inr (.inr rfl)) (x := x) (n := 4) (by omega)
  have hc := c.isLt
  rw [skip, BitVec.toNat_add, BitVec.toNat_mul, BitVec.toNat_ofNat]
  simp only [BitVec.reduceToNat]
  omega

theorem stride_le (config : VertexAttributes) (n : ℕ) : config.stride n ≤ 16 := by
  have hsize := (config.size n).isLt
  rw [VertexAttributes.stride, VertexAttributes.numElements]
  obtain h | h | h := elementSize_cases config n <;> rw [h] <;> omega

/-- A step over an attribute. -/
theorem step_bounds (config : VertexAttributes) (n : ℕ) (hx : x.toNat + 20 < 2 ^ 32) :
    x.toNat ≤ (alignTo (config.elementSize n) x + BitVec.ofNat 32 (config.stride n)).toNat ∧
      (alignTo (config.elementSize n) x + BitVec.ofNat 32 (config.stride n)).toNat ≤
        x.toNat + 20 ∧
      (alignTo (config.elementSize n) x).toNat + config.stride n ≤
        (alignTo (config.elementSize n) x + BitVec.ofNat 32 (config.stride n)).toNat := by
  have h := alignTo_bounds (elementSize_cases config n) (x := x) (by omega)
  have hstride := stride_le config n
  rw [BitVec.toNat_add, BitVec.toNat_ofNat]
  omega

theorem le_endOf (h : x.toNat + 20 * components.length < 2 ^ 32) :
    x.toNat ≤ (endOf config x components).toNat := by
  induction components generalizing x with
  | nil => exact le_rfl
  | cons c components ih =>
    rw [List.length_cons] at h
    rw [endOf]
    split
    · have hskip := skip_bounds c (x := x) (by omega)
      exact hskip.1.trans (ih (by omega))
    · have hstep := step_bounds config c.toNat (x := x) (by omega)
      exact hstep.1.trans (ih (by omega))

/-- The attributes of a list end before it does. -/
theorem place_le (h : x.toNat + 20 * components.length < 2 ^ 32) {p : ℕ × BitVec 32}
    (hp : p ∈ place config x components) :
    p.2.toNat + config.stride p.1 ≤ (endOf config x components).toNat := by
  induction components generalizing x with
  | nil => cases hp
  | cons c components ih =>
    rw [List.length_cons] at h
    rw [place] at hp
    rw [endOf]
    split at hp
    next hc =>
      have hskip := skip_bounds c (x := x) (by omega)
      rw [if_pos hc]
      exact ih (by omega) hp
    next hc =>
      have hstep := step_bounds config c.toNat (x := x) (by omega)
      rw [if_neg hc]
      obtain rfl | hp := List.mem_cons.1 hp
      · exact hstep.2.2.trans (le_endOf (by omega))
      · exact ih (by omega) hp

end Place

/-! ## What the renderer accepts -/

section Layout

variable {config : VertexAttributes} {sources : Sources} {descs out : List Description}
  {components : List (BitVec 4)} {offset' : BitVec 32} {loader : ℕ} {loaders : List ℕ}

/-- No two descriptions are for the same input register. -/
def Distinct (descs : List Description) : Prop := (descs.map Description.location).Nodup

/-- The descriptions made for a list of components. -/
def described (config : VertexAttributes) (loader : ℕ) (offset : BitVec 32)
    (components : List (BitVec 4)) : List Description :=
  (place config offset components).map (describe config loader)

theorem distinct_concat {desc : Description} (h : Distinct descs) :
    Distinct (descs ++ [desc]) ↔ ¬ descs.any (fun d => d.location == desc.location) = true := by
  rw [Distinct, List.map_append, List.nodup_append]
  simp only [List.any_eq_true, beq_iff_eq, List.map_cons, List.map_nil, List.mem_map,
    List.mem_singleton, List.nodup_singleton, true_and, not_exists, not_and]
  constructor
  · rintro ⟨-, h'⟩ d hd heq
    exact h' _ ⟨d, hd, rfl⟩ _ rfl heq
  · rintro h'
    refine ⟨h, ?_⟩
    rintro _ ⟨d, hd, rfl⟩ _ rfl
    exact h' d hd

theorem Distinct.left {descs' : List Description} (h : Distinct (descs ++ descs')) :
    Distinct descs := by
  rw [Distinct, List.map_append] at h
  exact h.of_append_left

theorem bindComponents_ok (h : Distinct descs) (offset : BitVec 32) :
    bindComponents config loader descs offset components = .ok (out, offset') ↔
      out = descs ++ described config loader offset components ∧
        offset' = endOf config offset components ∧ Distinct out := by
  induction components generalizing descs offset with
  | nil =>
    rw [bindComponents, described, place, List.map_nil, List.append_nil, endOf]
    constructor
    · intro heq
      cases heq
      exact ⟨rfl, rfl, h⟩
    · rintro ⟨rfl, rfl, -⟩
      rfl
  | cons c components ih =>
    rw [bindComponents, described, place, endOf]
    split
    · exact ih h _
    · rw [List.map_cons]
      split
      next hany =>
        refine ⟨nofun, ?_⟩
        rintro ⟨rfl, -, hdistinct⟩
        rw [List.append_cons] at hdistinct
        exact absurd hany ((distinct_concat h).1 hdistinct.left)
      next hany =>
        rw [ih ((distinct_concat h).2 hany), List.append_assoc]
        rfl

/-- What the renderer describes of a loader. -/
def bindings (config : VertexAttributes) (sources : Sources) (loader : ℕ) : List Description :=
  if Bound config sources loader then
    described config loader 0 (config.attributeLoaders loader).components
  else []

/-- The bytes of a vertex hold the attributes of a loader. -/
def Fits (config : VertexAttributes) (loader : ℕ) : Prop :=
  (endOf config 0 (config.attributeLoaders loader).components).toNat ≤
    (config.attributeLoaders loader).byteCount.toNat

theorem bindLoader_ok (h : Distinct descs) :
    bindLoader config sources descs loader = .ok out ↔
      out = descs ++ bindings config sources loader ∧ Distinct out ∧
        (Bound config sources loader → Fits config loader) := by
  rw [bindLoader, bindings]
  split
  next hbound =>
    simp only [hbound, forall_true_left]
    constructor
    · intro heq
      cases hbind : bindComponents config loader descs 0 (config.attributeLoaders loader).components
      next => rw [hbind] at heq; cases heq
      next r =>
        obtain ⟨descs', offset'⟩ := r
        obtain ⟨rfl, hend, hdistinct⟩ := (bindComponents_ok h 0).1 hbind
        rw [hbind] at heq
        change (if _ then _ else _) = _ at heq
        split at heq
        · cases heq
        next hle =>
          cases heq
          refine ⟨rfl, hdistinct, ?_⟩
          rw [hend] at hle
          exact not_lt.1 hle
    · rintro ⟨rfl, hdistinct, hfits⟩
      rw [(bindComponents_ok h 0).2 ⟨rfl, rfl, hdistinct⟩]
      exact if_neg (not_lt.2 hfits)
  next hbound =>
    rw [List.append_nil]
    constructor
    · intro heq
      cases heq
      exact ⟨rfl, h, fun hb => absurd hb hbound⟩
    · rintro ⟨rfl, -, -⟩
      rfl

theorem bindLoaders_ok (h : Distinct descs) :
    loaders.foldlM (bindLoader config sources) descs = .ok out ↔
      out = descs ++ loaders.flatMap (bindings config sources) ∧ Distinct out ∧
        ∀ l ∈ loaders, Bound config sources l → Fits config l := by
  induction loaders generalizing descs with
  | nil =>
    rw [List.foldlM_nil, List.flatMap_nil, List.append_nil]
    constructor
    · intro heq
      cases heq
      exact ⟨rfl, h, nofun⟩
    · rintro ⟨rfl, -, -⟩
      rfl
  | cons l loaders ih =>
    rw [List.foldlM_cons, List.flatMap_cons, ← List.append_assoc, List.forall_mem_cons]
    constructor
    · intro heq
      cases hbind : bindLoader config sources descs l with
      | error e => rw [hbind] at heq; cases heq
      | ok descs' =>
        obtain ⟨rfl, hdistinct, hfits⟩ := (bindLoader_ok h).1 hbind
        rw [hbind] at heq
        obtain ⟨hout, hdistinct', hrest⟩ := (ih hdistinct).1 heq
        exact ⟨hout, hdistinct', hfits, hrest⟩
    · rintro ⟨rfl, hdistinct, hfits, hrest⟩
      rw [(bindLoader_ok h).2 ⟨rfl, hdistinct.left, hfits⟩]
      exact (ih hdistinct.left).2 ⟨rfl, hdistinct, hrest⟩

/-- All descriptions. -/
def allBindings (config : VertexAttributes) (sources : Sources) : List Description :=
  (List.range 12).flatMap (bindings config sources)

theorem layout_ok : layout config sources = .ok out ↔
    out = allBindings config sources ∧ Distinct (allBindings config sources) ∧
      ∀ l < 12, Bound config sources l → Fits config l := by
  rw [layout, bindLoaders_ok (by exact List.nodup_nil), List.nil_append]
  simp only [List.mem_range]
  constructor
  · rintro ⟨rfl, h, h'⟩
    exact ⟨rfl, h, h'⟩
  · rintro ⟨rfl, h, h'⟩
    exact ⟨rfl, h, h'⟩

theorem mem_allBindings {desc : Description} : desc ∈ allBindings config sources ↔
    ∃ l < 12, Bound config sources l ∧
      ∃ p ∈ place config 0 (config.attributeLoaders l).components, describe config l p = desc := by
  simp only [allBindings, bindings, described, List.mem_flatMap, List.mem_range]
  refine exists_congr fun l => and_congr_right fun _ => ?_
  split
  next h => simp [h]
  next h => simp [h]

end Layout

/-! ## What the constructor keeps -/

section Sources

variable {backed : BitVec 32 → Bool} {config : VertexAttributes} {sources : Sources} {attr : ℕ}
  {source : Source} {l : ℕ} {p : ℕ × BitVec 32}

theorem mem_placements : (l, p) ∈ placements config ↔
    l < 12 ∧ p ∈ place config (config.loadAddress l) (config.attributeLoaders l).components := by
  simp only [placements, List.mem_flatMap, List.mem_range, List.mem_map, Prod.mk.injEq]
  constructor
  · rintro ⟨l', hl, p', hp, rfl, rfl⟩
    exact ⟨hl, hp⟩
  · rintro ⟨hl, hp⟩
    exact ⟨l, hl, p, hp, rfl, rfl⟩

/-- A source comes from one of the lists, and every attribute listed has one. -/
theorem sources_spec (h : vertexLoader backed config = some sources) (attr : ℕ) :
    (∀ source, sources attr = some source →
      ∃ q ∈ placements config, q.2.1 = attr ∧ sourceOf config q = source) ∧
    ((∃ q ∈ placements config, q.2.1 = attr) → (sources attr).isSome) := by
  have hgen (qs : List (ℕ × ℕ × BitVec 32)) (init : Sources)
      (h : qs.foldlM (fun (sources : Sources) q =>
        if backed q.2.2 then some (Function.update sources q.2.1 (some (sourceOf config q)))
        else none) init = some sources) :
      (∀ source, sources attr = some source → init attr = some source ∨
        ∃ q ∈ qs, q.2.1 = attr ∧ sourceOf config q = source) ∧
      ((init attr).isSome ∨ (∃ q ∈ qs, q.2.1 = attr) → (sources attr).isSome) := by
    induction qs generalizing init with
    | nil =>
      cases h
      exact ⟨fun source hsource => .inl hsource, fun h => h.elim id (by simp)⟩
    | cons q qs ih =>
      rw [List.foldlM_cons] at h
      obtain ⟨next, hnext, h⟩ := Option.bind_eq_some_iff.1 h
      split at hnext
      · cases hnext
        obtain ⟨hfrom, hsome⟩ := ih _ h
        refine ⟨fun source hsource => ?_, fun hex => hsome ?_⟩
        · obtain heq | ⟨q', hq', h'⟩ := hfrom source hsource
          · by_cases ha : attr = q.2.1
            · subst ha
              rw [Function.update_self] at heq
              exact .inr ⟨q, List.mem_cons_self, rfl, Option.some.inj heq⟩
            · rw [Function.update_of_ne ha] at heq
              exact .inl heq
          · exact .inr ⟨q', List.mem_cons_of_mem _ hq', h'⟩
        · by_cases ha : attr = q.2.1
          · subst ha
            exact .inl (by rw [Function.update_self]; rfl)
          · obtain hinit | ⟨q', hq', h'⟩ := hex
            · exact .inl (by rwa [Function.update_of_ne ha])
            · obtain rfl | hq' := List.mem_cons.1 hq'
              · exact absurd h'.symm ha
              · exact .inr ⟨q', hq', h'⟩
      · cases hnext
  obtain ⟨hfrom, hsome⟩ := hgen _ _ h
  refine ⟨fun source hsource => ?_, fun hex => hsome (.inr hex)⟩
  obtain heq | hq := hfrom source hsource
  · cases heq
  · exact hq

end Sources

/-! ## Agreement -/

/-- Where an attribute of a vertex is read, and as what. -/
structure Fetch where
  address : BitVec 32
  format : Format
  elements : ℕ

/-- What `Load` reads. -/
def loadFetch (config : VertexAttributes) (sources : Sources) (vertex : BitVec 32) (attr : ℕ) :
    Option Fetch :=
  (loaded config sources attr).map fun source =>
    ⟨source.address + source.stride * vertex, source.format, source.elements⟩

/-- What the host reads. The renderer copies the vertices from `minIndex` on, and the host counts
them from there. -/
def hostFetch (config : VertexAttributes) (descs : List Description) (minIndex vertex : BitVec 32)
    (attr : ℕ) : Option Fetch :=
  (descs.find? fun desc => desc.attr == attr).map fun desc =>
    ⟨config.loadAddress desc.binding +
        minIndex * (config.attributeLoaders desc.binding).byteCount.setWidth 32 +
        (vertex - minIndex) * (config.attributeLoaders desc.binding).byteCount.setWidth 32 +
        desc.offset,
      desc.format, desc.elements⟩

/-- The offset of a component from the first vertex. -/
def componentOffset (source : Source) (vertex : BitVec 32) (comp : ℕ) : BitVec 32 :=
  source.stride * vertex + BitVec.ofNat 32 (comp * source.elementSize)

/-- The ranges for the indices up to `maxIndex` hold every byte that is read for them. -/
def Covers (config : VertexAttributes) (sources : Sources) (maxIndex : BitVec 32) : Prop :=
  ∃ ranges, usedAddressRanges config sources (maxIndex + 1) = some ranges ∧
    ∀ attr source, loaded config sources attr = some source →
      ∃ range, ranges[attr]? = some range ∧ range.1 = source.address ∧
        ∀ vertex ≤ maxIndex, ∀ comp < source.elements, ∀ k < source.elementSize,
          (componentOffset source vertex comp).toNat + k < range.2.toNat

/-- The software and the host read the same, and the ranges cover it. -/
structure Agrees (config : VertexAttributes) (sources : Sources) (maxIndex : BitVec 32) : Prop where
  fetches : ∃ descs, layout config sources = .ok descs ∧ ∀ minIndex vertex attr,
    loadFetch config sources vertex attr = hostFetch config descs minIndex vertex attr
  covers : Covers config sources maxIndex

/-- The attributes that a loader lists. -/
def attributesOf (config : VertexAttributes) (loader : ℕ) : List ℕ :=
  ((config.attributeLoaders loader).components.map BitVec.toNat).filter fun n => decide (n < 12)

/-- What the registers have to be like for that. -/
structure Uniform (config : VertexAttributes) (sources : Sources) : Prop where
  registers : Distinct (allBindings config sources)
  fits : ∀ l < 12, Bound config sources l → Fits config l
  aligned : ∀ l < 12, Bound config sources l →
    Aligned config (config.loadAddress l) (config.attributeLoaders l).components
  taken : ∀ attr l, (∃ source, loaded config sources attr = some source ∧ source.loader = l) ↔
    l < 12 ∧ Bound config sources l ∧ attr ∈ attributesOf config l

/-- No range is longer than the address space. -/
def NoWrap (config : VertexAttributes) (sources : Sources) (maxIndex : BitVec 32) : Prop :=
  ∀ attr source, loaded config sources attr = some source →
    source.stride.toNat * (maxIndex.toNat + 1) < 2 ^ 32

/-- No attribute is listed twice. -/
def ListedOnce (config : VertexAttributes) : Prop :=
  ((placements config).map fun p => p.2.1).Nodup

section Agreement

variable {backed : BitVec 32 → Bool} {config : VertexAttributes} {sources : Sources} {attr l : ℕ}
  {source : Source} {p : ℕ × BitVec 32} {maxIndex : BitVec 32} {desc desc' : Description}

theorem mem_attributesOf (x : BitVec 32) : attr ∈ attributesOf config l ↔
    ∃ p ∈ place config x (config.attributeLoaders l).components, p.1 = attr := by
  rw [attributesOf, ← map_fst_place, List.mem_map]

theorem loaded_some (h : loaded config sources attr = some source) :
    attr < config.numTotalAttributes ∧ sources attr = some source := by
  rw [loaded] at h
  split at h
  next hlt => exact ⟨hlt, h⟩
  next => cases h

/-- A description is known by its attribute. -/
theorem description_unique (h : Distinct (allBindings config sources))
    (hdesc : desc ∈ allBindings config sources) (hdesc' : desc' ∈ allBindings config sources)
    (hattr : desc.attr = desc'.attr) : desc = desc' := by
  refine List.inj_on_of_nodup_map h hdesc hdesc' ?_
  obtain ⟨l, -, -, p, -, rfl⟩ := mem_allBindings.1 hdesc
  obtain ⟨l', -, -, p', -, rfl⟩ := mem_allBindings.1 hdesc'
  exact congrArg config.registerForAttribute hattr

theorem find_description (h : Distinct (allBindings config sources))
    (hdesc : desc ∈ allBindings config sources) :
    (allBindings config sources).find? (fun d => d.attr == desc.attr) = some desc := by
  obtain ⟨desc', hfind⟩ : ∃ desc', (allBindings config sources).find?
      (fun d => d.attr == desc.attr) = some desc' :=
    Option.isSome_iff_exists.1 (List.find?_isSome.2 ⟨desc, hdesc, by simp⟩)
  have hattr : desc'.attr = desc.attr := by simpa using List.find?_some hfind
  rw [hfind, description_unique h (List.mem_of_find?_eq_some hfind) hdesc hattr]

/-- What the host reads of an attribute that is bound. -/
theorem hostFetch_describe (h : Distinct (allBindings config sources)) (hl : l < 12)
    (hbound : Bound config sources l)
    (hp : p ∈ place config 0 (config.attributeLoaders l).components)
    (minIndex vertex : BitVec 32) :
    hostFetch config (allBindings config sources) minIndex vertex p.1 =
      some ⟨config.loadAddress l + p.2 +
        (config.attributeLoaders l).byteCount.setWidth 32 * vertex, config.format p.1,
        config.numElements p.1⟩ := by
  have hfind := find_description h (mem_allBindings.2 ⟨l, hl, hbound, p, hp, rfl⟩)
  have hattr : (describe config l p).attr = p.1 := rfl
  rw [hattr] at hfind
  rw [hostFetch, hfind, Option.map_some, describe]
  congr 2
  ring

theorem hostFetch_none (h : ∀ l < 12, Bound config sources l → attr ∉ attributesOf config l)
    (minIndex vertex : BitVec 32) :
    hostFetch config (allBindings config sources) minIndex vertex attr = none := by
  rw [hostFetch, Option.map_eq_none_iff, List.find?_eq_none]
  intro desc hdesc
  obtain ⟨l, hl, hbound, p, hp, rfl⟩ := mem_allBindings.1 hdesc
  have hne : p.1 ≠ attr := fun heq => h l hl hbound ((mem_attributesOf 0).2 ⟨p, hp, heq⟩)
  simpa [describe] using hne

/-- Where `Load` reads an attribute of a loader that is aligned. -/
theorem source_eq (h : vertexLoader backed config = some sources) (hu : Uniform config sources)
    (hloaded : loaded config sources attr = some source) :
    ∃ l < 12, Bound config sources l ∧ ∃ x,
      (attr, x) ∈ place config 0 (config.attributeLoaders l).components ∧
      source = sourceOf config (l, attr, config.loadAddress l + x) := by
  obtain ⟨q, hq, hattr, rfl⟩ := (sources_spec h attr).1 source (loaded_some hloaded).2
  obtain ⟨l, n, y⟩ := q
  obtain rfl : n = attr := hattr
  obtain ⟨hl, hbound, -⟩ := (hu.taken n l).1 ⟨_, hloaded, rfl⟩
  obtain ⟨-, hy⟩ := mem_placements.1 hq
  have hplace := (place_add_iff config (config.loadAddress l) 0 _).2 (hu.aligned l hl hbound)
  rw [add_zero] at hplace
  rw [hplace, List.mem_map] at hy
  obtain ⟨⟨n', x⟩, hx, heq⟩ := hy
  obtain ⟨rfl, rfl⟩ := Prod.mk.inj heq
  exact ⟨l, hl, hbound, x, hx, rfl⟩

theorem fetches_of_uniform (h : vertexLoader backed config = some sources)
    (hu : Uniform config sources) (minIndex vertex : BitVec 32) (attr : ℕ) :
    loadFetch config sources vertex attr =
      hostFetch config (allBindings config sources) minIndex vertex attr := by
  rw [loadFetch]
  cases hloaded : loaded config sources attr with
  | some source =>
    obtain ⟨l, hl, hbound, x, hx, rfl⟩ := source_eq h hu hloaded
    rw [hostFetch_describe hu.registers hl hbound hx]
    rfl
  | none =>
    refine (hostFetch_none (fun l hl hbound hmem => ?_) minIndex vertex).symm
    obtain ⟨source, hsource, -⟩ := (hu.taken attr l).2 ⟨hl, hbound, hmem⟩
    rw [hloaded] at hsource
    cases hsource

theorem source_fits (h : vertexLoader backed config = some sources) (hu : Uniform config sources)
    (hloaded : loaded config sources attr = some source) :
    source.elements * source.elementSize ≤ source.stride.toNat ∧ source.stride ≠ 0 := by
  obtain ⟨l, hl, hbound, x, hx, rfl⟩ := source_eq h hu hloaded
  have hcount := (config.attributeLoaders l).count_le
  have hzero : (0 : BitVec 32).toNat = 0 := rfl
  have hle : x.toNat + config.stride attr ≤ _ := place_le (by rw [hzero]; omega) hx
  have hfits : _ ≤ _ := hu.fits l hl hbound
  have hstride : ((config.attributeLoaders l).byteCount.setWidth 32).toNat =
      (config.attributeLoaders l).byteCount.toNat :=
    BitVec.toNat_setWidth_of_le (by decide)
  have hne : (config.attributeLoaders l).byteCount.toNat ≠ 0 := by
    intro heq
    exact hbound.2.2 (BitVec.eq_of_toNat_eq heq)
  refine ⟨?_, fun heq => ?_⟩
  · change config.stride attr ≤ _
    rw [sourceOf, hstride]
    omega
  · have hzero' := congrArg BitVec.toNat heq
    rw [sourceOf, hstride] at hzero'
    exact hne hzero'

theorem mapM_eq {α β : Type} {f : α → Option β} {g : α → β} {l : List α}
    (h : ∀ a ∈ l, f a = some (g a)) : l.mapM f = some (l.map g) := by
  induction l with
  | nil => rfl
  | cons a l ih =>
    rw [List.forall_mem_cons] at h
    rw [List.mapM_cons, h.1, Option.bind_eq_bind, Option.bind_some, ih h.2]
    rfl

/-- The size of a range, where the number of its bytes does not wrap. -/
theorem rangeSize_toNat {stride : BitVec 32} (hne : stride ≠ 0)
    (hsize : stride.toNat * (maxIndex.toNat + 1) < 2 ^ 32) :
    (stride * (maxIndex + 1)).toNat = stride.toNat * (maxIndex.toNat + 1) := by
  have hpos : 0 < stride.toNat := Nat.pos_of_ne_zero fun heq => hne (BitVec.eq_of_toNat_eq heq)
  have hmax : maxIndex.toNat + 1 < 2 ^ 32 := (Nat.le_mul_of_pos_left _ hpos).trans_lt hsize
  have hone : (1 : BitVec 32).toNat = 1 := rfl
  rw [BitVec.toNat_mul, BitVec.toNat_add, hone, Nat.mod_eq_of_lt hmax, Nat.mod_eq_of_lt hsize]

/-- A component of a vertex is within the stride of this vertex. -/
theorem componentOffset_lt {source : Source} {vertex : BitVec 32} {comp k n : ℕ}
    (hfits : source.elements * source.elementSize ≤ source.stride.toNat)
    (hsize : source.stride.toNat * (n + 1) < 2 ^ 32) (hle : vertex.toNat ≤ n)
    (hcomp : comp < source.elements) (hk : k < source.elementSize) :
    (componentOffset source vertex comp).toNat + k < source.stride.toNat * (n + 1) := by
  have hvertices : source.stride.toNat * vertex.toNat + source.stride.toNat ≤
      source.stride.toNat * (n + 1) := by
    rw [← Nat.mul_succ]
    exact Nat.mul_le_mul_left _ (Nat.succ_le_succ hle)
  have hcomponent : comp * source.elementSize + source.elementSize ≤
      source.elements * source.elementSize := by
    rw [← Nat.succ_mul]
    exact Nat.mul_le_mul_right _ hcomp
  rw [componentOffset, BitVec.toNat_add, BitVec.toNat_mul, BitVec.toNat_ofNat,
    Nat.mod_eq_of_lt (a := source.stride.toNat * vertex.toNat) (by omega),
    Nat.mod_eq_of_lt (a := comp * source.elementSize) (by omega), Nat.mod_eq_of_lt (by omega)]
  omega

theorem covers_of_uniform (h : vertexLoader backed config = some sources)
    (hu : Uniform config sources) (hwrap : NoWrap config sources maxIndex) :
    Covers config sources maxIndex := by
  have hranges : usedAddressRanges config sources (maxIndex + 1) =
      some ((List.range config.numTotalAttributes).map fun attr => (sources attr).elim (0, 0)
        fun source => (source.address, source.stride * (maxIndex + 1))) := by
    refine mapM_eq fun attr hattr => ?_
    cases hsource : sources attr with
    | none => rfl
    | some source =>
      have hloaded : loaded config sources attr = some source := by
        rw [loaded, if_pos (List.mem_range.1 hattr), hsource]
      exact if_neg (source_fits h hu hloaded).2
  refine ⟨_, hranges, fun attr source hloaded => ?_⟩
  obtain ⟨hlt, hsource⟩ := loaded_some hloaded
  refine ⟨(source.address, source.stride * (maxIndex + 1)), ?_, rfl, ?_⟩
  · rw [List.getElem?_map, List.getElem?_range hlt, Option.map_some, hsource]
    rfl
  · intro vertex hvertex comp hcomp k hk
    obtain ⟨hfits, hne⟩ := source_fits h hu hloaded
    have hsize := hwrap attr source hloaded
    change _ < (source.stride * (maxIndex + 1)).toNat
    rw [rangeSize_toNat hne hsize]
    exact componentOffset_lt hfits hsize hvertex hcomp hk

/-- Two lists with the same first components that agree where these are the same. -/
theorem eq_of_map_fst {α β : Type} {s t : List (α × β)} (h : s.map Prod.fst = t.map Prod.fst)
    (heq : ∀ a x y, (a, x) ∈ s → (a, y) ∈ t → x = y) : s = t := by
  induction s generalizing t with
  | nil => exact (List.map_eq_nil_iff.1 h.symm).symm
  | cons q s ih =>
    cases t with
    | nil => cases h
    | cons r t =>
      obtain ⟨a, x⟩ := q
      obtain ⟨b, y⟩ := r
      obtain ⟨hab, htail⟩ := List.cons.inj h
      obtain rfl : a = b := hab
      rw [heq a x y List.mem_cons_self List.mem_cons_self, ih htail fun c x y hx hy =>
        heq c x y (List.mem_cons_of_mem _ hx) (List.mem_cons_of_mem _ hy)]

/-- An attribute that the host reads where the software does has its source in that loader. -/
theorem source_of_fetches (h : vertexLoader backed config = some sources)
    (honce : ListedOnce config) (hregisters : Distinct (allBindings config sources))
    (hf : ∀ minIndex vertex attr, loadFetch config sources vertex attr =
      hostFetch config (allBindings config sources) minIndex vertex attr)
    (hl : l < 12) (hbound : Bound config sources l)
    (hp : p ∈ place config 0 (config.attributeLoaders l).components) :
    ∃ source, loaded config sources p.1 = some source ∧ source.loader = l ∧
      ∀ x, (p.1, x) ∈ place config (config.loadAddress l) (config.attributeLoaders l).components →
        x = config.loadAddress l + p.2 := by
  have hfetch := hf 0 0 p.1
  rw [hostFetch_describe hregisters hl hbound hp, loadFetch, Option.map_eq_some_iff] at hfetch
  obtain ⟨source, hloaded, heq⟩ := hfetch
  have haddress : source.address = config.loadAddress l + p.2 := by
    have := congrArg Fetch.address heq
    simpa using this
  obtain ⟨q, hq, hattr, rfl⟩ := (sources_spec h p.1).1 source (loaded_some hloaded).2
  have hsame (x : BitVec 32)
      (hx : (p.1, x) ∈ place config (config.loadAddress l) (config.attributeLoaders l).components) :
      q = (l, p.1, x) :=
    List.inj_on_of_nodup_map honce hq (mem_placements.2 ⟨hl, hx⟩) hattr
  refine ⟨_, hloaded, ?_, fun x hx => ?_⟩
  · obtain ⟨⟨n, x⟩, hx, hn⟩ := (mem_attributesOf (config.loadAddress l)).1
      ((mem_attributesOf 0).2 ⟨p, hp, rfl⟩)
    obtain rfl : n = p.1 := hn
    rw [hsame x hx]
    rfl
  · rw [← haddress, hsame x hx]
    rfl

theorem uniform_of_fetches (h : vertexLoader backed config = some sources)
    (honce : ListedOnce config) {descs : List Description}
    (hdescs : layout config sources = .ok descs)
    (hf : ∀ minIndex vertex attr, loadFetch config sources vertex attr =
      hostFetch config descs minIndex vertex attr) : Uniform config sources := by
  obtain ⟨rfl, hregisters, hfits⟩ := layout_ok.1 hdescs
  refine ⟨hregisters, hfits, fun l hl hbound => ?_, fun attr l => ⟨?_, ?_⟩⟩
  · rw [← place_add_iff config (config.loadAddress l) 0, add_zero]
    refine eq_of_map_fst ?_ fun a x y hx hy => ?_
    · rw [map_fst_shift, map_fst_place, map_fst_place]
    · obtain ⟨p, hp, heq⟩ := List.mem_map.1 hy
      obtain ⟨rfl, rfl⟩ := Prod.mk.inj heq
      obtain ⟨source, -, -, haddress⟩ := source_of_fetches h honce hregisters hf hl hbound hp
      exact haddress x hx
  · rintro ⟨source, hloaded, rfl⟩
    have hfetch := hf 0 0 attr
    rw [loadFetch, hloaded, Option.map_some] at hfetch
    by_contra hnone
    by_cases hex : ∃ l < 12, Bound config sources l ∧ attr ∈ attributesOf config l
    · obtain ⟨l, hl, hbound, hmem⟩ := hex
      obtain ⟨p, hp, rfl⟩ := (mem_attributesOf 0).1 hmem
      obtain ⟨source', hloaded', hloader, -⟩ :=
        source_of_fetches h honce hregisters hf hl hbound hp
      obtain rfl := Option.some.inj (hloaded.symm.trans hloaded')
      rw [hloader] at hnone
      exact hnone ⟨hl, hbound, hmem⟩
    · rw [hostFetch_none fun l hl hbound hmem => hex ⟨l, hl, hbound, hmem⟩] at hfetch
      cases hfetch
  · rintro ⟨hl, hbound, hmem⟩
    obtain ⟨p, hp, rfl⟩ := (mem_attributesOf 0).1 hmem
    obtain ⟨source, hloaded, hloader, -⟩ := source_of_fetches h honce hregisters hf hl hbound hp
    exact ⟨source, hloaded, hloader⟩

/-- **Agreement.** `Uniform` is enough for both to read the same, and needed where no attribute is
listed twice. -/
theorem agrees_of_uniform (h : vertexLoader backed config = some sources) :
    (Uniform config sources ∧ NoWrap config sources maxIndex → Agrees config sources maxIndex) ∧
      (ListedOnce config → Agrees config sources maxIndex → Uniform config sources) := by
  constructor
  · rintro ⟨hu, hwrap⟩
    exact ⟨⟨_, layout_ok.2 ⟨rfl, hu.registers, hu.fits⟩, fetches_of_uniform h hu⟩,
      covers_of_uniform h hu hwrap⟩
  · rintro honce ⟨⟨descs, hdescs, hf⟩, -⟩
    exact uniform_of_fetches h honce hdescs hf

/-! One attribute of three floating-point numbers, in the first loader. -/

def oneAttribute (dataOffset : BitVec 32) : VertexAttributes where
  baseAddress := 0x3000000
  format _ := .float
  size _ := 2
  numExtraAttributes := 0
  attributeLoaders n := ⟨dataOffset, if n = 0 then [0] else [], 12, by split <;> decide⟩
  registerForAttribute n := BitVec.ofNat 4 n

def oneSource (address : BitVec 32) : Sources :=
  Function.update (fun _ => none) 0 (some ⟨address, 12, .float, 3, 4, 0⟩)

theorem uniform_oneAttribute : Uniform (oneAttribute 0) (oneSource 0x18000000) := by
  have hbound (l : ℕ) (h : Bound (oneAttribute 0) (oneSource 0x18000000) l) : l = 0 := by
    by_contra hl
    exact h.2.1 (if_neg hl)
  have hloaded : loaded (oneAttribute 0) (oneSource 0x18000000) 0 =
      some ⟨0x18000000, 12, .float, 3, 4, 0⟩ := rfl
  refine ⟨?_, ?_, ?_, ?_⟩
  · exact List.nodup_singleton _
  · intro l _ h
    obtain rfl := hbound l h
    show _ ≤ _
    decide
  · intro l _ h
    obtain rfl := hbound l h
    refine ⟨?_, fun h => absurd h ?_⟩
    · show ∀ c ∈ [0], _
      decide
    · exact id
  · intro attr l
    constructor
    · rintro ⟨source, hsource, rfl⟩
      obtain rfl : attr = 0 := Nat.lt_one_iff.1 (loaded_some hsource).1
      obtain rfl := Option.some.inj (hloaded.symm.trans hsource)
      exact ⟨by decide, ⟨rfl, List.cons_ne_nil _ _, by decide⟩, List.mem_singleton.2 rfl⟩
    · rintro ⟨-, h, hmem⟩
      obtain rfl := hbound l h
      obtain rfl : attr = 0 := List.mem_singleton.1 hmem
      exact ⟨_, hloaded, rfl⟩

theorem agrees_oneAttribute : Agrees (oneAttribute 0) (oneSource 0x18000000) 99 := by
  have hnew : vertexLoader (fun _ => true) (oneAttribute 0) = some (oneSource 0x18000000) := rfl
  refine (agrees_of_uniform hnew).1 ⟨uniform_oneAttribute, fun attr source hsource => ?_⟩
  obtain rfl : attr = 0 := Nat.lt_one_iff.1 (loaded_some hsource).1
  cases hsource
  decide

/-- In a loader two bytes off, the software reads four bytes further up and the host does not. -/
theorem not_agrees_unaligned : ¬ ∀ sources, vertexLoader (fun _ => true) (oneAttribute 2) =
    some sources → Agrees (oneAttribute 2) sources 99 := by
  intro h
  obtain ⟨⟨descs, hdescs, hf⟩, -⟩ := h (oneSource 0x18000004) rfl
  cases hdescs
  have hfetch := congrArg (Option.map Fetch.address) (hf 0 0 0)
  have hne : (0x18000004 : BitVec 32) ≠ 0x18000002 := by decide
  exact hne (Option.some.inj hfetch)

end Agreement

end Mikage.Pica.VertexLayout
