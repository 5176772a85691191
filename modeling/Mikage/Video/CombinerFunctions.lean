import Mikage.Video.CombinerAgreement

/-!
# The two combiners of the software rasterizer

The colour combiner and the alpha combiner spell out every operation of their own. They compute the
same function of a byte of each operand except for `AddThenMultiply`, where the alpha combiner
clamps the product and not the quotient (`channel_eq_iff`). The buffer that a stage sees is what the
update masks of the stages before the last one have written (`buffer_lags`).
-/

namespace Mikage.Pica.TextureEnv

/-! ## Operands -/

section Operands

variable {op : Operation} {input : Fin 3 → BitVec 8} {colors : Fin 3 → Fin 3 → BitVec 8}

/-- The operations that a stage can apply to colour and to alpha. -/
def Operation.Combines (op : Operation) : Prop :=
  op = .replace ∨ op = .modulate ∨ op = .add ∨ op = .addSigned ∨ op = .lerp ∨ op = .subtract ∨
    op = .multiplyThenAdd ∨ op = .addThenMultiply

theorem colorCombine_ok (h : op.Combines) : ∃ v, colorCombine colors op = .ok v := by
  obtain rfl | rfl | rfl | rfl | rfl | rfl | rfl | rfl := h <;> exact ⟨_, rfl⟩

theorem alphaCombine_ok (h : op.Combines) : ∃ v, alphaCombine input op = .ok v := by
  obtain rfl | rfl | rfl | rfl | rfl | rfl | rfl | rfl := h <;> exact ⟨_, rfl⟩

/-- The quotient of the clamped product and the clamped quotient. -/
theorem blend_eq_iff {a b c : ℕ} :
    blend op a b c = blendSoftware op a b c ↔ (op = .addThenMultiply → (a + b) * c < 510) := by
  by_cases hop : op = .addThenMultiply
  · subst hop
    have h := clamped_eq_iff (p := (a + b) * c) (m := 1) ⟨le_rfl, by omega⟩
    simp only [blend, blendSoftware, forall_const]
    omega
  · exact iff_of_true (blendSoftware_eq hop).symm fun h => absurd h hop

/-- A channel of the combined colour is the combined alpha of the bytes in this channel. -/
def SameFunction (op : Operation) (input : Fin 3 → BitVec 8) : Prop :=
  ∀ colors channel v a, (∀ i, colors i channel = input i) → colorCombine colors op = .ok v →
    alphaCombine input op = .ok a → v channel = a

theorem sameFunction_iff (h : op.Combines) :
    SameFunction op input ↔
      (op = .addThenMultiply → ((input 0).toNat + (input 1).toNat) * (input 2).toNat < 510) := by
  rw [← blend_eq_iff]
  constructor
  · intro hsame
    obtain ⟨v, hv⟩ : ∃ v, colorCombine (fun i _ => input i) op = .ok v := colorCombine_ok h
    obtain ⟨a, ha⟩ : ∃ a, alphaCombine input op = .ok a := alphaCombine_ok h
    rw [← colorCombine_eq hv 0, ← alphaCombine_eq ha, hsame _ 0 v a (fun _ => rfl) hv ha]
  · intro heq colors channel v a hinput hv ha
    refine BitVec.eq_of_toNat_eq ?_
    rw [colorCombine_eq hv channel, alphaCombine_eq ha, hinput, hinput, hinput, heq]

/-- The bytes that the combiners return are the values of their formulas, which are at most 255. -/
structure Saturates (op : Operation) : Prop where
  color : ∀ colors v, colorCombine colors op = .ok v → ∀ c,
    (v c).toNat = blend op (colors 0 c).toNat (colors 1 c).toNat (colors 2 c).toNat
  alpha : ∀ input a, alphaCombine input op = .ok a →
    a.toNat = blendSoftware op (input 0).toNat (input 1).toNat (input 2).toNat
  bounded : ∀ a ≤ 255, ∀ b ≤ 255, ∀ c ≤ 255,
    blend op a b c ≤ 255 ∧ blendSoftware op a b c ≤ 255

theorem saturates (op : Operation) : Saturates op where
  color _ _ := colorCombine_eq
  alpha _ _ := alphaCombine_eq
  bounded _ ha _ hb _ hc := ⟨blend_le op ha hb hc, blendSoftware_le op ha hb hc⟩

end Operands

/-! ## The buffer -/

section Buffer

variable {registers : Registers} {inputs : FragmentInputs}
  {states : ℕ → CombinerState (BitVec 8)} {k : ℕ}

/-- `states k` is what the first `k` of the six stages leave. -/
def StatesOf (registers : Registers) (inputs : FragmentInputs)
    (states : ℕ → CombinerState (BitVec 8)) (k : ℕ) : Prop :=
  ∀ j ≤ k, softwareStages registers inputs ((List.finRange 6).take j) = .ok (states j)

/-- Whether stage `index` updates component `c` of the buffer. -/
def Registers.updates (registers : Registers) (index : ℕ) (c : Fin 4) : Bool :=
  if c.val = 3 then registers.tevStageUpdatesA index else registers.tevStageUpdatesRGB index

/-- Component `c` of the buffer after the updates of the stages before `k`. -/
def written (registers : Registers) (states : ℕ → CombinerState (BitVec 8)) (c : Fin 4) :
    ℕ → BitVec 8
  | 0 => registers.bufferInit c
  | k + 1 =>
    if registers.updates k c then (states (k + 1)).output c else written registers states c k

theorem updatedBuffer_apply {index : Fin 6} {s : CombinerState (BitVec 8)} (h : 0 < index.val)
    (c : Fin 4) :
    updatedBuffer registers index s c =
      if registers.updates (index - 1) c then s.output c else s.buffer c := by
  rw [updatedBuffer, if_pos h]
  fin_cases c <;> rfl

theorem softwareStage_buffer {index : Fin 6} {s s' : CombinerState (BitVec 8)}
    (h : softwareStage registers inputs index s = .ok s') :
    s'.buffer = updatedBuffer registers index s := by
  obtain ⟨_, _, h⟩ := ok_of_bind h
  obtain ⟨_, _, h⟩ := ok_of_bind h
  obtain ⟨_, _, h⟩ := ok_of_bind h
  obtain ⟨_, _, h⟩ := ok_of_bind h
  obtain ⟨_, _, h⟩ := ok_of_bind h
  obtain ⟨_, _, h⟩ := ok_of_bind h
  obtain ⟨_, _, h⟩ := ok_of_bind h
  obtain ⟨_, _, h⟩ := ok_of_bind h
  obtain ⟨_, _, h⟩ := ok_of_bind h
  obtain ⟨_, _, h⟩ := ok_of_bind h
  cases h
  rfl

theorem StatesOf.stage (h : StatesOf registers inputs states (k + 1)) (hk : k < 6) :
    softwareStage registers inputs ⟨k, hk⟩ (states k) = .ok (states (k + 1)) := by
  have hlast := h (k + 1) le_rfl
  have htake : (List.finRange 6).take (k + 1) = (List.finRange 6).take k ++ [⟨k, hk⟩] := by
    rw [List.take_add_one, List.getElem?_eq_getElem (by simpa using hk)]
    simp
  rw [htake] at hlast
  obtain ⟨t, ht, hstage⟩ := softwareStages_append hlast
  rw [h k (Nat.le_succ k)] at ht
  cases ht
  exact hstage

/-- Stage `k` sees what the stages before `k - 1` have written. -/
theorem buffer_lags (h : StatesOf registers inputs states k) (hk : k ≤ 6) (c : Fin 4) :
    (states k).buffer c = written registers states c (k - 1) := by
  induction k with
  | zero =>
    have h0 := h 0 le_rfl
    rw [List.take_zero] at h0
    rw [← Except.ok.inj h0]
    rfl
  | succ k ih =>
    have hbefore := ih (fun j hj => h j (Nat.le_succ_of_le hj)) (by omega)
    rw [softwareStage_buffer (h.stage hk)]
    cases k with
    | zero => exact hbefore
    | succ k =>
      rw [updatedBuffer_apply (Nat.succ_pos k), hbefore]
      rfl

/-- **The combiners.** Both write bytes that are the values of their formulas, a stage scales them
and clamps at 255, and the buffer lags behind by a stage. They compute the same function of three
bytes unless the operation is `AddThenMultiply` and the product is `2 * 255` or more. -/
theorem combiners_alike_iff (registers : Registers) (inputs : FragmentInputs) {op : Operation}
    (hop : op.Combines) (input : Fin 3 → BitVec 8) :
    (SameFunction op input ∧ Saturates op ∧
      ∀ k ≤ 6, ∀ states, StatesOf registers inputs states k →
        (∀ c, (states k).buffer c = written registers states c (k - 1)) ∧
        ∀ j : Fin 6, j.val < k → (states (j + 1)).numbers =
          Stages.next registers inputs j (states j).numbers blendSoftware) ↔
      (op = .addThenMultiply → ((input 0).toNat + (input 1).toNat) * (input 2).toNat < 510) := by
  refine (and_iff_left ⟨saturates op, fun k hk states hstates => ⟨?_, ?_⟩⟩).trans
    (sameFunction_iff hop)
  · exact buffer_lags hstates hk
  · intro j hj
    have hbefore : StatesOf registers inputs states (j + 1) := fun i hi => hstates i (by omega)
    exact softwareStage_eq (hbefore.stage j.isLt)

theorem combiners_alike_modulate :
    Operation.Combines .modulate ∧ SameFunction .modulate ![200, 100, 0] := by
  have hop : Operation.Combines .modulate := .inr (.inl rfl)
  exact ⟨hop, ((combiners_alike_iff ⟨fun _ => ⟨fun _ => 0⟩, 0, 0, 0⟩ ⟨fun _ => 0, fun _ _ => 0⟩
    hop ![200, 100, 0]).2 nofun).1⟩

/-- Full colour and alpha, added and multiplied: 255 in a channel of the colour, 1 as alpha. -/
theorem addThenMultiply_differs :
    ¬ ∀ (op : Operation) (input : Fin 3 → BitVec 8), op.Combines → SameFunction op input := by
  intro h
  have hsame := h .addThenMultiply (fun _ => 255) (by simp [Operation.Combines])
    (fun _ _ => 255) 0 _ _ (fun _ => rfl) rfl rfl
  exact absurd hsame (by decide)

end Buffer

end Mikage.Pica.TextureEnv
