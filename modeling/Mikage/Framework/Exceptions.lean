/-!
# Exceptions

What a function of the emulator ends with when it does not return. `ValidateContract` and `assert`
are one constructor: either stops the program at the named condition. `nullPointer` and `badCast`
are what the language does where the code has no check of its own.
-/

namespace Mikage

/-- How a call ends when it does not return. -/
inductive Exception where
  | contractViolated (condition : String)
  | runtimeError (what : String)
  | invalid (what : String)
  | badCast (what : String)
  | nullPointer (what : String)
  deriving DecidableEq, Repr

/-- Where a computation ends well, so does its first part. -/
theorem bind_ok {α β ε : Type} {x : Except ε α} {f : α → Except ε β} {b : β}
    (h : x >>= f = .ok b) : ∃ a, x = .ok a ∧ f a = .ok b := by
  cases x with
  | ok a => exact ⟨a, rfl, h⟩
  | error e => cases h

theorem exists_ok {α ε : Type} {x : Except ε α} (h : x.isOk = true) : ∃ a, x = .ok a := by
  cases x with
  | ok a => exact ⟨a, rfl⟩
  | error e => cases h

theorem map_ok {α β ε : Type} {x : Except ε α} {f : α → β} {b : β} (h : x.map f = .ok b) :
    ∃ a, x = .ok a ∧ f a = b := by
  cases x with
  | ok a => exact ⟨a, rfl, Except.ok.inj h⟩
  | error e => cases h

end Mikage
