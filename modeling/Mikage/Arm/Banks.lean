import Mikage.Arm.State

/-!
# Banked registers

`ReplaceCPSR`, which is to exchange R8 to R14 for those of another processor mode.

`view s m r` is register `r` as mode `m` sees it: the register itself where the current mode shares
it, else what the bank of `m` keeps. A switch of modes keeps all views. The code copies the registers
of the current mode out and in again (both switches look at `cpsr.mode`, and the new value is never
assigned), so that it switches to no other mode.
-/

namespace Mikage.Arm

/-- `InternalProcessorMode` -/
inductive Mode where
  | user | fiq | irq | supervisor | abort | undefined | system | invalid
  deriving DecidableEq, Repr

/-- `banked_regs_user`, and so on. -/
inductive Bank where
  | user | fiq | irq | svc | abt | und
  deriving DecidableEq, Repr

structure ProgramStatusRegister where
  mode : Mode
  bits : BitVec 27
  deriving DecidableEq, Repr

/-- The registers, and the banks by the register that an element of the array is for. Every bank but
the user's has one element behind R14, which is at 15. -/
structure BankedState where
  reg : BitVec 4 → BitVec 32
  cpsr : ProgramStatusRegister
  spsr : Mode → ProgramStatusRegister
  banked : Bank → BitVec 4 → BitVec 32

namespace Bank

/-- The first register of the bank. -/
def first : Bank → BitVec 4
  | user | fiq => 8
  | _ => 13

/-- The registers that are copied out. -/
def saves (b : Bank) (r : BitVec 4) : Prop := b.first ≤ r ∧ r ≠ 15

/-- The elements that are copied in: all. -/
def loads (b : Bank) (r : BitVec 4) : Prop := b.first ≤ r ∧ (b = user → r ≠ 15)

instance (b : Bank) (r : BitVec 4) : Decidable (b.saves r) := inferInstanceAs (Decidable (_ ∧ _))
instance (b : Bank) (r : BitVec 4) : Decidable (b.loads r) := inferInstanceAs (Decidable (_ ∧ _))

end Bank

/-- The bank of each case of the switches. -/
def Mode.bank : Mode → Option Bank
  | user | system => some .user
  | fiq => some .fiq
  | irq => some .irq
  | supervisor => some .svc
  | abort => some .abt
  | undefined => some .und
  | invalid => none

namespace BankedState

variable (s : BankedState)

/-- A bank that the registers have been copied to. -/
def saved (b : Bank) (r : BitVec 4) : BitVec 32 := if b.saves r then s.reg r else s.banked b r

/-- Bank out current registers. -/
def bankOut : Except Fault BankedState :=
  match s.cpsr.mode.bank with
  | some b => .ok { s with banked := Function.update s.banked b (s.saved b) }
  | none => .error (.thrown (.contractViolated "false"))

/-- Bank in new registers. -/
def bankIn : Except Fault BankedState :=
  match s.cpsr.mode.bank with
  | some b => .ok { s with reg := fun r => if b.loads r then s.banked b r else s.reg r }
  | none => .error (.thrown (.contractViolated "false"))

def replaceCPSR (psr : ProgramStatusRegister) : Except Fault BankedState :=
  if s.cpsr.mode = psr.mode then .ok { s with cpsr := psr }
  else do
    let s ← s.bankOut
    s.bankIn

end BankedState

/-! ## What each mode sees -/

/-- The bank that keeps a register of a mode, if there is one. -/
def Mode.home (m : Mode) (r : BitVec 4) : Option Bank :=
  if r < 8 ∨ r = 15 then none
  else if m = .fiq then some .fiq
  else if r < 13 then some .user
  else m.bank

namespace BankedState

variable (s : BankedState)

/-- Register `r` of mode `m`. -/
def view (m : Mode) (r : BitVec 4) : BitVec 32 :=
  match m.home r with
  | none => s.reg r
  | some b => if s.cpsr.mode.home r = some b then s.reg r else s.banked b r

/-- The switch that is promised: the new value and its registers (R0 to R7 and PC are shared by all
modes), all registers of the other modes in their banks, and a way back. -/
structure Switched (psr : ProgramStatusRegister) (t : BankedState) : Prop where
  cpsr : t.cpsr = psr
  loaded : ∀ r, t.reg r = s.view psr.mode r
  kept : ∀ m r, t.view m r = s.view m r
  spsr : t.spsr = s.spsr
  back : ∀ psr' : ProgramStatusRegister, psr'.mode = s.cpsr.mode → ∃ u, t.replaceCPSR psr' = .ok u ∧
    u.cpsr = psr' ∧ ∀ r, u.reg r = s.reg r

variable {s} {psr : ProgramStatusRegister} {t : BankedState}

theorem view_current (r : BitVec 4) : s.view s.cpsr.mode r = s.reg r := by
  rw [view]
  cases s.cpsr.mode.home r with
  | none => rfl
  | some b => exact if_pos rfl

theorem replaceCPSR_same (h : s.cpsr.mode = psr.mode) :
    s.replaceCPSR psr = .ok { s with cpsr := psr } := if_pos h

theorem view_congr {m : Mode} (hreg : t.reg = s.reg) (hmode : t.cpsr.mode = s.cpsr.mode)
    (hbanked : t.banked = s.banked) (r : BitVec 4) : t.view m r = s.view m r := by
  rw [view, view, hreg, hmode, hbanked]

/-- To another mode: the registers are saved and come back, PC from behind the end of the bank, and
the CPSR is the old one. -/
theorem replaceCPSR_other (h : s.cpsr.mode ≠ psr.mode) (ht : s.replaceCPSR psr = .ok t) :
    t.cpsr = s.cpsr ∧ (∀ r, r ≠ 15 → t.reg r = s.reg r) ∧ ∃ b, s.cpsr.mode.bank = some b ∧
      t.banked b = s.saved b := by
  rw [replaceCPSR, if_neg h] at ht
  obtain ⟨out, hout, hin⟩ := ok_of_bind ht
  rw [bankOut] at hout
  rw [bankIn] at hin
  cases hb : s.cpsr.mode.bank with
  | none =>
    rw [hb] at hout
    cases hout
  | some b =>
    rw [hb] at hout
    obtain rfl := Except.ok.inj hout
    simp only [hb] at hin
    obtain rfl := Except.ok.inj hin
    refine ⟨rfl, fun r hr => ?_, b, rfl, Function.update_self ..⟩
    by_cases hf : b.first ≤ r
    · have hloads : b.loads r := ⟨hf, fun _ => hr⟩
      have hsaves : b.saves r := ⟨hf, hr⟩
      simp [hloads, saved, hsaves]
    · simp [Bank.loads, hf]

/-- **Banked registers**: the switch is made exactly where there is none to make. -/
theorem replaceCPSR_exact (s : BankedState) (psr : ProgramStatusRegister) :
    (∃ t, s.replaceCPSR psr = .ok t ∧ s.Switched psr t) ↔ s.cpsr.mode = psr.mode := by
  constructor
  · rintro ⟨t, ht, hswitched⟩
    by_contra h
    have hcpsr := (replaceCPSR_other h ht).1
    rw [hswitched.cpsr] at hcpsr
    exact h (by rw [hcpsr])
  · intro h
    refine ⟨_, replaceCPSR_same h, rfl, fun r => ?_, fun m r => ?_, rfl, fun psr' hback => ?_⟩
    · rw [← h, view_current]
    · exact view_congr (s := s) (t := { s with cpsr := psr }) rfl h.symm rfl r
    · refine ⟨_, replaceCPSR_same (h.symm.trans hback.symm), rfl, fun _ => rfl⟩

end BankedState

/-- A processor in Supervisor mode with empty registers. -/
def BankedState.supervisor : BankedState :=
  ⟨fun _ => 0, ⟨.supervisor, 0⟩, fun _ => ⟨.user, 0⟩, fun _ _ => 0⟩

/-- From Supervisor to User mode. -/
theorem replaceCPSR_keeps_mode : ¬ ∃ t,
    BankedState.supervisor.replaceCPSR ⟨.user, 0⟩ = .ok t ∧
      BankedState.supervisor.Switched ⟨.user, 0⟩ t := by
  rintro ⟨t, ht, hswitched⟩
  have hcpsr := (BankedState.replaceCPSR_other (by decide) ht).1
  rw [hswitched.cpsr] at hcpsr
  exact absurd hcpsr (by decide)

end Mikage.Arm
