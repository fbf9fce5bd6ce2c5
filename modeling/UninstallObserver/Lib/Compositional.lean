import UninstallObserver.Lib.Outcome

/-! Properties that code has as soon as its parts have them. -/
namespace Imperative
namespace Exec

variable {ε σ : Type} {p : ε → Bool}

/-- Sequences and choices hand the property on; the exceptions that may be thrown are those
that `p` selects. -/
structure Compositional (p : ε → Bool) (P : (α : Type) → Exec ε σ α → Prop) : Prop where
  pure : ∀ {α : Type} (a : α), P α (pure a)
  throw : ∀ {α : Type} {e : ε}, p e → P α (throw e)
  bind : ∀ {α β : Type} {m : Exec ε σ α} {f : α → Exec ε σ β}, P α m → (∀ a, P β (f a)) →
    P β (m >>= f)
  ite : ∀ {α : Type} {c : Prop} [Decidable c] {m m' : Exec ε σ α}, P α m → P α m' →
    P α (if c then m else m')

/-- So do handlers, and code that is out of fuel has it. -/
structure Recursive (p : ε → Bool) (P : (α : Type) → Exec ε σ α → Prop) : Prop
    extends Compositional p P where
  outOfFuel : ∀ {α : Type}, P α outOfFuel
  catchIf : ∀ {α : Type} {m m' : Exec ε σ α}, P α m → P α m' → P α (catchIf p m m')

theorem keeps_recursive (R : σ → σ → Prop) [Std.Refl R] [IsTrans σ R] :
    Recursive p fun _ m => Keeps R m where
  pure := .pure
  throw := fun _ => .throw _
  bind := .bind
  ite := .ite
  outOfFuel := .outOfFuel
  catchIf := .catchIf

theorem raises_recursive : Recursive p fun _ (m : Exec ε σ _) => Raises p m where
  pure := .pure
  throw := .throw
  bind := .bind
  ite := .ite
  outOfFuel := .outOfFuel
  catchIf := .catchIf

theorem follows_recursive (g : σ → σ) : Recursive p fun _ m => Follows g m where
  pure := .pure
  throw := fun _ => .throw _
  bind := .bind
  ite := .ite
  outOfFuel := .outOfFuel
  catchIf := .catchIf

/-- Only recursion needs fuel. -/
theorem fuelless_compositional : Compositional p fun _ (m : Exec ε σ _) => Fuelless m where
  pure := .pure
  throw := fun _ => .throw _
  bind := .bind
  ite := .ite

end Exec
end Imperative
