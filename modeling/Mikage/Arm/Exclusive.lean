import Mikage.Arm.State

/-!
# The exclusive monitor

`LDREX`, `STREX` and their variants, `CLREX`, and what clears the tagged address of a thread when it
leaves the processor (`HandlerSWI`, `TriggerPreemption`), over any memory.

A run keeps its history: `Reserved h t a` says that the last exclusive instruction of `t` in `h` is
a load at `a`, and that `t` has executed nothing but ordinary instructions since, with no switch.
`Run.tracks` ties the tagged addresses to the history; `strex_exact` is what a store does then.
-/

namespace Mikage.Arm

inductive Width where
  | byte | half | word
  deriving DecidableEq, Repr

/-- The memory of `ReadVirtualMemory` and `WriteVirtualMemory`. -/
class VirtualMemory (M : Type) where
  read : Width → M → BitVec 32 → Except Fault (BitVec 32)
  write : Width → M → BitVec 32 → BitVec 32 → Except Fault M

/-- What the handlers see of an `InterpreterExecutionContext`. -/
structure Context (M : Type) where
  cpu : State
  monitorAddress : Option (BitVec 32)
  mem : M

variable {M : Type}

namespace Context

def set (ctx : Context M) (index : BitVec 4) (value : BitVec 32) : Context M :=
  { ctx with cpu := ctx.cpu.set index value }

def monitorAddressMask : BitVec 32 := 0xffffff8

def clearExclusive (ctx : Context M) : Context M := { ctx with monitorAddress := none }

def markExclusive (ctx : Context M) (newAddress : BitVec 32) : Context M :=
  { ctx with monitorAddress := some (newAddress &&& monitorAddressMask) }

def otherAddress := "STREX(B/H/D) to non-exclusive address is implementation defined"

/-- Whether the store can be performed. -/
def prepareExclusiveStore (ctx : Context M) (addr : BitVec 32) :
    Except Fault (Bool × Context M) :=
  match ctx.monitorAddress with
  | none => .ok (false, ctx)
  | some m =>
    if m ≠ addr &&& monitorAddressMask then .error (.thrown (.invalid otherAddress))
    else .ok (true, ctx.clearExclusive)

end Context

open Context

/-! ## Handlers -/

section

variable [VirtualMemory M]

/-- The common text of `HandlerLdrex`, `HandlerLdrexb` and `HandlerLdrexh`. -/
def loadExclusive (width : Width) (ctx : Context M) (instr : ARMInstr) :
    Except Fault (Context M × BitVec 32) :=
  conditional ctx.cpu instr ctx do
    let addr := ctx.cpu.fetchReg instr.idxRn
    let ctx := ctx.markExclusive addr
    let value ← VirtualMemory.read width ctx.mem addr
    let ctx := ctx.set instr.idxRd value
    pure (ctx, nextInstr ctx.cpu)

def handlerLdrex := loadExclusive (M := M) .word
def handlerLdrexb := loadExclusive (M := M) .byte
def handlerLdrexh := loadExclusive (M := M) .half

def unpredictableConfiguration := "Unpredictable configuration"

def handlerLdrexd (ctx : Context M) (instr : ARMInstr) : Except Fault (Context M × BitVec 32) :=
  conditional ctx.cpu instr ctx <|
    if instr.idxRd.getLsbD 0 ∨ instr.idxRd = 14 ∨ instr.idxRn = 15 then
      handlerStubWithMessage ctx.cpu instr unpredictableConfiguration
    else do
      let addr := ctx.cpu.fetchReg instr.idxRn
      let ctx := ctx.markExclusive addr
      let low ← VirtualMemory.read .word ctx.mem addr
      let ctx := ctx.set instr.idxRd low
      let high ← VirtualMemory.read .word ctx.mem (addr + 4)
      let ctx := ctx.set (instr.idxRd + 1) high
      pure (ctx, nextInstr ctx.cpu)

/-- What the stores write. -/
def writeSingle (width : Width) (mem : M) (cpu : State) (instr : ARMInstr) (addr : BitVec 32) :
    Except Fault M :=
  VirtualMemory.write width mem addr (cpu.fetchReg instr.idxRm)

def writeDouble (mem : M) (cpu : State) (instr : ARMInstr) (addr : BitVec 32) : Except Fault M := do
  let mem ← VirtualMemory.write .word mem addr (cpu.fetchReg instr.idxRm)
  VirtualMemory.write .word mem (addr + 4) (cpu.fetchReg (instr.idxRm + 1))

/-- The common text of the stores, once the registers are accepted. -/
def storeExclusive (write : M → State → ARMInstr → BitVec 32 → Except Fault M) (ctx : Context M)
    (instr : ARMInstr) : Except Fault (Context M × BitVec 32) := do
  let addr := ctx.cpu.fetchReg instr.idxRn
  let (success, ctx) ← ctx.prepareExclusiveStore addr
  if success then
    let mem ← write ctx.mem ctx.cpu instr addr
    let ctx := { ctx with mem := mem }.set instr.idxRd 0
    pure (ctx, nextInstr ctx.cpu)
  else
    -- Not in exclusive state => Not updating memory
    let ctx := ctx.set instr.idxRd 1
    pure (ctx, nextInstr ctx.cpu)

def handlerStrex (ctx : Context M) (instr : ARMInstr) :=
  conditional ctx.cpu instr ctx (storeExclusive (writeSingle .word) ctx instr)

def handlerStrexb (ctx : Context M) (instr : ARMInstr) :=
  conditional ctx.cpu instr ctx (storeExclusive (writeSingle .byte) ctx instr)

def handlerStrexh (ctx : Context M) (instr : ARMInstr) :=
  conditional ctx.cpu instr ctx (storeExclusive (writeSingle .half) ctx instr)

/-- The registers `STREXD` refuses. -/
def strexdRefuses (instr : ARMInstr) : Bool :=
  (instr.idxRm.getLsbD 0 || instr.idxRm = 14 || instr.idxRn = 15 || instr.idxRd = 15) ||
    (instr.idxRd = instr.idxRn || instr.idxRd = instr.idxRm || instr.idxRd = instr.idxRm + 1)

def handlerStrexd (ctx : Context M) (instr : ARMInstr) :=
  conditional ctx.cpu instr ctx <|
    if strexdRefuses instr then handlerStubWithMessage ctx.cpu instr unpredictableConfiguration
    else storeExclusive writeDouble ctx instr

inductive LoadKind where
  | ldrex | ldrexb | ldrexh | ldrexd
  deriving DecidableEq, Repr

def LoadKind.handler : LoadKind → Context M → ARMInstr → Except Fault (Context M × BitVec 32)
  | ldrex => handlerLdrex
  | ldrexb => handlerLdrexb
  | ldrexh => handlerLdrexh
  | ldrexd => handlerLdrexd

inductive StoreKind where
  | strex | strexb | strexh | strexd
  deriving DecidableEq, Repr

def StoreKind.handler : StoreKind → Context M → ARMInstr → Except Fault (Context M × BitVec 32)
  | strex => handlerStrex
  | strexb => handlerStrexb
  | strexh => handlerStrexh
  | strexd => handlerStrexd

def StoreKind.write : StoreKind → M → State → ARMInstr → BitVec 32 → Except Fault M
  | strex => writeSingle .word
  | strexb => writeSingle .byte
  | strexh => writeSingle .half
  | strexd => writeDouble

def StoreKind.refuses : StoreKind → ARMInstr → Bool
  | strexd, instr => strexdRefuses instr
  | _, _ => false

end

/-! ## Threads -/

/-- A process and a thread of it. -/
abbrev ThreadId := Nat × Nat

structure System (M : Type) where
  active : ThreadId
  cpu : ThreadId → State
  monitorAddress : ThreadId → Option (BitVec 32)
  mem : M

namespace System

def ctx (s : System M) : Context M := ⟨s.cpu s.active, s.monitorAddress s.active, s.mem⟩

/-- The state once the active thread has executed an instruction. -/
def executed (s : System M) (ctx : Context M) (next : BitVec 32) : System M :=
  { s with
    cpu := Function.update s.cpu s.active (ctx.cpu.set 15 next)
    monitorAddress := Function.update s.monitorAddress s.active ctx.monitorAddress
    mem := ctx.mem }

/-- Clears the tagged address of the active thread. -/
def clear (s : System M) : System M :=
  { s with monitorAddress := Function.update s.monitorAddress s.active none }

end System

/-- The thread `TriggerPreemption` leaves alone. -/
def spared (t : ThreadId) : Bool := t = (7, 2)

inductive Event where
  | load (t : ThreadId) (addr : BitVec 32)
  | store (t : ThreadId) (addr : BitVec 32)
  | clrex (t : ThreadId)
  | switch (t : ThreadId)
  | other (t : ThreadId)
  deriving DecidableEq, Repr

/-- A step. The kernel and the threads that are not emulated may do anything during a switch but
change a tagged address; so may an ordinary instruction. -/
inductive Step [VirtualMemory M] : System M → Event → System M → Prop where
  | load {s : System M} (k : LoadKind) (instr : ARMInstr) {ctx : Context M} {next : BitVec 32}
      (hcond : evalCond s.ctx.cpu instr.cond = .ok true)
      (h : k.handler s.ctx instr = .ok (ctx, next)) :
      Step s (.load s.active (s.ctx.cpu.fetchReg instr.idxRn)) (s.executed ctx next)
  | store {s : System M} (k : StoreKind) (instr : ARMInstr) {ctx : Context M} {next : BitVec 32}
      (hcond : evalCond s.ctx.cpu instr.cond = .ok true)
      (h : k.handler s.ctx instr = .ok (ctx, next)) :
      Step s (.store s.active (s.ctx.cpu.fetchReg instr.idxRn)) (s.executed ctx next)
  | clrex {s : System M} :
      Step s (.clrex s.active) (s.executed s.ctx.clearExclusive (nextInstr s.ctx.cpu))
  | ordinary {s : System M} (cpu : State) (mem : M) (next : BitVec 32) :
      Step s (.other s.active) (s.executed ⟨cpu, s.ctx.monitorAddress, mem⟩ next)
  | swi {s s' : System M} (h : s'.monitorAddress = s.clear.monitorAddress) :
      Step s (.switch s.active) s'
  | preempt {s s' : System M} (hs : spared s.active = false)
      (h : s'.monitorAddress = s.clear.monitorAddress) : Step s (.switch s.active) s'
  | spare {s : System M} (hs : spared s.active = true) : Step s (.other s.active) s

/-- The runs from a state where no thread has a tagged address. -/
inductive Run [VirtualMemory M] : List Event → System M → Prop where
  | start {s : System M} (h : ∀ t, s.monitorAddress t = none) : Run [] s
  | next {h : List Event} {s s' : System M} {e : Event} :
      Run h s → Step s e s' → Run (h ++ [e]) s'

/-- The last of the history is a load of `t` at `a`, followed by ordinary instructions of `t`. -/
def Reserved (h : List Event) (t : ThreadId) (a : BitVec 32) : Prop :=
  ∃ pre post, h = pre ++ .load t a :: post ∧ ∀ e ∈ post, e = .other t

/-- The 8 bytes an address is in. -/
def granule (a : BitVec 32) : BitVec 29 := a.extractLsb' 3 29

/-! ## What the history says -/

variable {h : List Event} {e : Event} {t : ThreadId} {a b : BitVec 32}

theorem reserved_nil : ¬ Reserved [] t a := by
  rintro ⟨pre, post, h, -⟩
  exact absurd h (by simp)

theorem reserved_snoc :
    Reserved (h ++ [e]) t a ↔ e = .load t a ∨ (e = .other t ∧ Reserved h t a) := by
  constructor
  · rintro ⟨pre, post, heq, hpost⟩
    rcases List.eq_nil_or_concat post with rfl | ⟨post', e', rfl⟩
    · have hlast : h ++ [e] = pre ++ [.load t a] := heq
      exact .inl (List.append_inj_right' hlast rfl |> List.head_eq_of_cons_eq)
    · rw [List.concat_eq_append] at heq hpost
      have hlast : h ++ [e] = (pre ++ .load t a :: post') ++ [e'] := by simpa using heq
      have he : e = e' := List.head_eq_of_cons_eq (List.append_inj_right' hlast rfl)
      refine .inr ⟨he ▸ hpost e' (by simp), pre, post', List.append_inj_left' hlast rfl, ?_⟩
      exact fun x hx => hpost x (by simp [hx])
  · rintro (rfl | ⟨rfl, pre, post, rfl, hpost⟩)
    · exact ⟨h, [], rfl, nofun⟩
    · refine ⟨pre, post ++ [.other t], by simp, fun x hx => ?_⟩
      rcases List.mem_append.1 hx with hx | hx
      · exact hpost x hx
      · exact List.mem_singleton.1 hx

/-! ## The tagged addresses follow the history -/

/-- Only the active thread has a tagged address, and it has one exactly when it has a reservation. -/
structure Tracks (h : List Event) (s : System M) : Prop where
  others : ∀ t, t ≠ s.active → s.monitorAddress t = none
  tagged : ∀ t a, Reserved h t a → s.monitorAddress t = some (a &&& monitorAddressMask)
  reserved : ∀ m, s.monitorAddress s.active = some m → ∃ a, Reserved h s.active a

variable {s s' : System M} {ctx : Context M} {instr : ARMInstr} {next : BitVec 32}

section

variable [VirtualMemory M]

theorem LoadKind.handler_monitorAddress (k : LoadKind)
    (hcond : evalCond ctx.cpu instr.cond = .ok true) {ctx' : Context M}
    (h : k.handler ctx instr = .ok (ctx', next)) :
    ctx'.monitorAddress = some (ctx.cpu.fetchReg instr.idxRn &&& monitorAddressMask) := by
  have hsingle : ∀ w, loadExclusive w ctx instr = .ok (ctx', next) →
      ctx'.monitorAddress = some (ctx.cpu.fetchReg instr.idxRn &&& monitorAddressMask) := by
    intro w h
    rw [loadExclusive, conditional_true hcond] at h
    obtain ⟨v, -, h⟩ := ok_of_bind h
    cases h
    rfl
  cases k with
  | ldrex => exact hsingle _ h
  | ldrexb => exact hsingle _ h
  | ldrexh => exact hsingle _ h
  | ldrexd =>
    rw [LoadKind.handler, handlerLdrexd, conditional_true hcond] at h
    split at h
    next => cases h
    next =>
      obtain ⟨low, -, h⟩ := ok_of_bind h
      obtain ⟨high, -, h⟩ := ok_of_bind h
      cases h
      rfl

theorem StoreKind.handler_eq (k : StoreKind) (hcond : evalCond ctx.cpu instr.cond = .ok true)
    (hk : k.refuses instr = false) : k.handler ctx instr = storeExclusive k.write ctx instr := by
  cases k with
  | strexd =>
    have hk : ¬ strexdRefuses instr = true := by simpa [StoreKind.refuses] using hk
    exact (conditional_true hcond).trans (if_neg hk)
  | _ => exact conditional_true hcond

end

theorem storeExclusive_none (write : M → State → ARMInstr → BitVec 32 → Except Fault M)
    (h : ctx.monitorAddress = none) : storeExclusive write ctx instr =
      .ok (ctx.set instr.idxRd 1, nextInstr (ctx.cpu.set instr.idxRd 1)) := by
  simp only [storeExclusive, prepareExclusiveStore, h]
  rfl

theorem storeExclusive_refused (write : M → State → ARMInstr → BitVec 32 → Except Fault M)
    {m : BitVec 32} (h : ctx.monitorAddress = some m)
    (hm : m ≠ ctx.cpu.fetchReg instr.idxRn &&& monitorAddressMask) :
    storeExclusive write ctx instr = .error (.thrown (.invalid otherAddress)) := by
  simp only [storeExclusive, prepareExclusiveStore, h, if_pos hm]
  rfl

theorem storeExclusive_done (write : M → State → ARMInstr → BitVec 32 → Except Fault M)
    (h : ctx.monitorAddress = some (ctx.cpu.fetchReg instr.idxRn &&& monitorAddressMask)) :
    storeExclusive write ctx instr =
      (write ctx.mem ctx.cpu instr (ctx.cpu.fetchReg instr.idxRn)).map fun mem =>
        (⟨ctx.cpu.set instr.idxRd 0, none, mem⟩, nextInstr (ctx.cpu.set instr.idxRd 0)) := by
  simp only [storeExclusive, prepareExclusiveStore, h, ne_eq, not_true_eq_false, if_false]
  show (do
    let mem ← write ctx.mem ctx.cpu instr (ctx.cpu.fetchReg instr.idxRn)
    _) = _
  cases write ctx.mem ctx.cpu instr (ctx.cpu.fetchReg instr.idxRn) <;> rfl

/-- A store that returns leaves no tagged address. -/
theorem storeExclusive_monitorAddress
    {write : M → State → ARMInstr → BitVec 32 → Except Fault M} {ctx' : Context M}
    (h : storeExclusive write ctx instr = .ok (ctx', next)) : ctx'.monitorAddress = none := by
  cases hm : ctx.monitorAddress with
  | none =>
    rw [storeExclusive_none write hm] at h
    cases h
    exact hm
  | some m =>
    by_cases hne : m ≠ ctx.cpu.fetchReg instr.idxRn &&& monitorAddressMask
    · rw [storeExclusive_refused write hm hne] at h
      cases h
    · rw [storeExclusive_done write (by rw [hm, not_not.1 hne])] at h
      cases hw : write ctx.mem ctx.cpu instr (ctx.cpu.fetchReg instr.idxRn) with
      | error f => rw [hw] at h; cases h
      | ok mem => rw [hw] at h; cases h; rfl

/-! One lemma for each way a step changes the tagged address of the active thread. -/

/-- The step ends every reservation. -/
theorem Tracks.ended (he : ∀ t a, e ≠ .load t a) (ho : ∀ t, e ≠ .other t)
    (hnone : ∀ t, s'.monitorAddress t = none) : Tracks (h ++ [e]) s' where
  others t _ := hnone t
  tagged t a hr := by
    rcases reserved_snoc.1 hr with rfl | ⟨rfl, -⟩
    · exact absurd rfl (he t a)
    · exact absurd rfl (ho t)
  reserved m hm := by rw [hnone] at hm; cases hm

theorem Tracks.clear_monitorAddress (hs : Tracks h s) (t : ThreadId) :
    s.clear.monitorAddress t = none := by
  by_cases ht : t = s.active
  · rw [ht]
    exact Function.update_self ..
  · exact (Function.update_of_ne ht ..).trans (hs.others t ht)

theorem Tracks.executed_none (hs : Tracks h s) {ctx : Context M} (hc : ctx.monitorAddress = none)
    (t : ThreadId) : (s.executed ctx next).monitorAddress t = none := by
  have heq : (s.executed ctx next).monitorAddress = s.clear.monitorAddress := by
    rw [System.executed, hc]
    rfl
  rw [heq]
  exact hs.clear_monitorAddress t

/-- An ordinary instruction of the active thread. -/
theorem Tracks.other (hs : Tracks h s) (hm : s'.monitorAddress = s.monitorAddress)
    (ha : s'.active = s.active) : Tracks (h ++ [.other s.active]) s' where
  others t ht := by rw [hm]; exact hs.others t (ha ▸ ht)
  tagged t a hr := by
    rcases reserved_snoc.1 hr with he | ⟨-, hr⟩
    · cases he
    · rw [hm]
      exact hs.tagged t a hr
  reserved m h := by
    rw [hm, ha] at h
    obtain ⟨a, hr⟩ := hs.reserved m h
    exact ⟨a, reserved_snoc.2 (.inr ⟨by rw [ha], ha ▸ hr⟩)⟩

section

variable [VirtualMemory M]

theorem StoreKind.handler_monitorAddress (k : StoreKind)
    (hcond : evalCond ctx.cpu instr.cond = .ok true) {ctx' : Context M}
    (h : k.handler ctx instr = .ok (ctx', next)) : ctx'.monitorAddress = none := by
  cases hk : k.refuses instr with
  | false => exact storeExclusive_monitorAddress (k.handler_eq hcond hk ▸ h)
  | true =>
    cases k with
    | strexd =>
      have hk : strexdRefuses instr = true := hk
      rw [StoreKind.handler, handlerStrexd, conditional_true hcond, if_pos hk] at h
      cases h
    | _ => cases hk

theorem Step.tracks (hstep : Step s e s') (hs : Tracks h s) : Tracks (h ++ [e]) s' := by
  cases hstep with
  | @load k instr ctx next hcond hk =>
    have hc := k.handler_monitorAddress hcond hk
    refine ⟨fun t ht => ?_, fun t a hr => ?_, fun m _ => ?_⟩
    · exact (Function.update_of_ne ht ..).trans (hs.others t ht)
    · rcases reserved_snoc.1 hr with he | ⟨he, -⟩
      · cases he
        exact (Function.update_self ..).trans hc
      · cases he
    · exact ⟨_, reserved_snoc.2 (.inl rfl)⟩
  | store k instr hcond hk =>
    exact .ended nofun nofun (hs.executed_none (k.handler_monitorAddress hcond hk))
  | clrex => exact .ended nofun nofun (hs.executed_none rfl)
  | ordinary cpu mem next => exact hs.other (Function.update_eq_self ..) rfl
  | swi hm => exact .ended nofun nofun fun t => by rw [hm]; exact hs.clear_monitorAddress t
  | preempt _ hm => exact .ended nofun nofun fun t => by rw [hm]; exact hs.clear_monitorAddress t
  | spare => exact hs.other rfl rfl

theorem Run.tracks (hrun : Run h s) : Tracks h s := by
  induction hrun with
  | start h0 => exact ⟨fun t _ => h0 t, fun t a hr => absurd hr reserved_nil,
      fun m hm => by rw [h0] at hm; cases hm⟩
  | next _ hstep ih => exact hstep.tracks ih

end

/-! ## Which addresses the mask tells apart -/

/-- The mask keeps 25 of the 29 bits of a granule. -/
theorem masked_eq_iff :
    a &&& monitorAddressMask = b &&& monitorAddressMask ↔
      (granule a).setWidth 25 = (granule b).setWidth 25 := by
  have hmask : ∀ i < 32, monitorAddressMask.getLsbD i = (decide (3 ≤ i) && decide (i < 28)) := by
    decide
  have hbit : ∀ (x : BitVec 32) (i : Nat), i < 25 →
      ((granule x).setWidth 25).getLsbD i = x.getLsbD (3 + i) := by
    intro x i hi
    rw [BitVec.getLsbD_setWidth, granule, BitVec.getLsbD_extractLsb']
    simp [hi, show i < 29 by omega]
  constructor
  · intro h
    apply BitVec.eq_of_getLsbD_eq
    intro i hi
    have hi' := congrArg (fun x => x.getLsbD (3 + i)) h
    simp only [BitVec.getLsbD_and, hmask (3 + i) (by omega), show 3 ≤ 3 + i by omega,
      show 3 + i < 28 by omega, decide_true, Bool.and_true] at hi'
    rw [hbit a i hi, hbit b i hi, hi']
  · intro h
    apply BitVec.eq_of_getLsbD_eq
    intro i hi
    rw [BitVec.getLsbD_and, BitVec.getLsbD_and, hmask i hi]
    by_cases hr : 3 ≤ i ∧ i < 28
    · have hi' := congrArg (fun x => x.getLsbD (i - 3)) h
      simp only [hbit _ (i - 3) (by omega), show 3 + (i - 3) = i by omega] at hi'
      rw [hi']
    · have hf : (decide (3 ≤ i) && decide (i < 28)) = false := by simpa using hr
      rw [hf, Bool.and_false, Bool.and_false]

/-- What a store does in any run, unless its address differs from the reserved one in bits 28 to 31
only. -/
theorem strex_exact [VirtualMemory M] (hrun : Run h s) (k : StoreKind)
    (hcond : evalCond s.ctx.cpu instr.cond = .ok true) (hk : k.refuses instr = false)
    (halias : ∀ a, Reserved h s.active a →
      (granule a).setWidth 25 = (granule (s.ctx.cpu.fetchReg instr.idxRn)).setWidth 25 →
      granule a = granule (s.ctx.cpu.fetchReg instr.idxRn)) :
    let addr := s.ctx.cpu.fetchReg instr.idxRn
    let returns (v : BitVec 32) (mem : M) : Context M × BitVec 32 :=
      (⟨s.ctx.cpu.set instr.idxRd v, none, mem⟩, nextInstr (s.ctx.cpu.set instr.idxRd v))
    (∃ a, Reserved h s.active a ∧ granule a = granule addr ∧
      k.handler s.ctx instr = (k.write s.mem s.ctx.cpu instr addr).map (returns 0)) ∨
    ((∀ a, ¬ Reserved h s.active a) ∧ k.handler s.ctx instr = .ok (returns 1 s.mem)) ∨
    ∃ a, Reserved h s.active a ∧ granule a ≠ granule addr ∧
      k.handler s.ctx instr = .error (.thrown (.invalid otherAddress)) := by
  have hs := hrun.tracks
  rw [k.handler_eq hcond hk]
  cases hm : s.ctx.monitorAddress with
  | none =>
    refine .inr (.inl ⟨fun a hr => ?_, ?_⟩)
    · exact absurd (hm.symm.trans (hs.tagged _ a hr)) nofun
    · rw [storeExclusive_none _ hm, Context.set, hm]
      rfl
  | some m =>
    obtain ⟨a, hr⟩ := hs.reserved m hm
    have hma : m = a &&& monitorAddressMask :=
      Option.some.inj (hm.symm.trans (hs.tagged _ a hr))
    by_cases heq : m = s.ctx.cpu.fetchReg instr.idxRn &&& monitorAddressMask
    · have hg := halias a hr (masked_eq_iff.1 (hma.symm.trans heq))
      exact .inl ⟨a, hr, hg, storeExclusive_done _ (by rw [hm, heq])⟩
    · have hg : granule a ≠ granule (s.ctx.cpu.fetchReg instr.idxRn) := by
        intro hg
        exact heq (hma.trans (masked_eq_iff.2 (congrArg _ hg)))
      exact .inr (.inr ⟨a, hr, hg, storeExclusive_refused _ hm heq⟩)

/-! A pair of instructions on one thread, over a flat memory. -/

/-- Every address holds a byte; words are little-endian. -/
def Flat := BitVec 32 → BitVec 8

def Flat.set (mem : Flat) (addr : BitVec 32) (value : BitVec 8) : Flat :=
  fun a => if a = addr then value else mem a

instance : VirtualMemory Flat where
  read w mem addr := .ok <| match w with
    | .byte => (mem addr).setWidth 32
    | .half => (mem (addr + 1) ++ mem addr).setWidth 32
    | .word => mem (addr + 3) ++ mem (addr + 2) ++ mem (addr + 1) ++ mem addr
  write w mem addr value :=
    let byte (i : Nat) := value.extractLsb' (8 * i) 8
    .ok <| match w with
    | .byte => mem.set addr (byte 0)
    | .half => (mem.set addr (byte 0)).set (addr + 1) (byte 1)
    | .word =>
      (((mem.set addr (byte 0)).set (addr + 1) (byte 1)).set (addr + 2) (byte 2)).set (addr + 3)
        (byte 3)

/-- `R1` is 0x1000, `R4` is 0x1004, `R5` is 0x2000. -/
def pairStart : System Flat where
  active := (1, 1)
  cpu _ := ((State.zero.set 1 0x1000).set 4 0x1004).set 5 0x2000
  monitorAddress _ := none
  mem _ := 0

/-- After `LDREX R0, [R1]`. -/
def pairLoaded : System Flat :=
  pairStart.executed ((pairStart.ctx.markExclusive 0x1000).set 0 0) 4

theorem pairLoaded_run : Run [.load (1, 1) 0x1000] pairLoaded :=
  Run.next (h := []) (Run.start fun _ => rfl)
    (Step.load (s := pairStart) .ldrex ⟨0xE1910F9F⟩ rfl rfl)

theorem reserved_one (h : Reserved [.load t b] t a) : a = b := by
  rcases (reserved_snoc (h := [])).1 h with he | ⟨he, -⟩
  · cases he
    rfl
  · cases he

/-- `STREX R2, R3, [R4]` -/
theorem strex_exact_pair : ∃ a, Reserved [.load (1, 1) 0x1000] (1, 1) a ∧
    granule a = granule 0x1004 ∧
    (StoreKind.handler .strex pairLoaded.ctx ⟨0xE1842F93⟩).toOption.map (fun r => r.1.cpu.reg 2) =
      some 0 := by
  have hk : StoreKind.strex.refuses ⟨0xE1842F93⟩ = false := by decide
  have h := strex_exact pairLoaded_run .strex rfl hk
    (fun a ha _ => by rw [reserved_one ha]; decide)
  rcases h with ⟨a, hr, hg, heq⟩ | ⟨hnone, -⟩ | ⟨a, hr, hg, -⟩
  · exact ⟨a, hr, hg, by rw [heq]; rfl⟩
  · exact absurd ⟨[], [], rfl, nofun⟩ (hnone 0x1000)
  · rw [reserved_one hr] at hg
    exact absurd (by decide) hg

/-- `STREX R2, R3, [R5]` -/
theorem strex_elsewhere_refused : ∃ (h : List Event) (s : System Flat) (instr : ARMInstr),
    Run h s ∧ evalCond s.ctx.cpu instr.cond = .ok true ∧
    ¬ ∃ ctx next, StoreKind.handler .strex s.ctx instr = .ok (ctx, next) := by
  refine ⟨_, pairLoaded, ⟨0xE1852F93⟩, pairLoaded_run, rfl, ?_⟩
  rintro ⟨ctx, next, h⟩
  rw [StoreKind.handler_eq .strex rfl (by decide),
    storeExclusive_refused _ (m := 0x1000) (by decide) (by decide)] at h
  cases h

end Mikage.Arm
