import UninstallObserver.Lib.Outcome

/-! Code over a part of the state, and blocks that have a variable of their own. -/
namespace Imperative.Exec

variable {ε σ τ α : Type}

/-- What `f` finds in the state, which has to be there. -/
def ask (f : σ → Option α) : Exec ε σ α := fun s => (f s).elim .undefined fun a => .returned a s

/-- Change the state as `f` does, which has to be defined. -/
def change (f : σ → Option σ) : Exec ε σ Unit := fun s => (f s).elim .undefined (.returned ())

/-- Run code over the part of the state that `get` shows and `set` puts back. -/
def zoom (get : σ → τ) (set : τ → σ → σ) (m : Exec ε τ α) : Exec ε σ α := fun s =>
  (m (get s)).mapState fun t => set t s

/-- A block with a variable of its own: `destroy` runs at its end, and where an exception
leaves it. -/
def block (init : τ) (destroy : τ → Exec ε σ Unit) (m : Exec ε (σ × τ) α) : Exec ε σ α := fun s =>
  match m (s,init) with
  | .returned a s => (destroy s.2 >>= fun _ => pure a) s.1
  | .threw e s => (destroy s.2 >>= fun _ => throw e) s.1
  | .undefined => .undefined
  | .outOfFuel => .outOfFuel

section Rules
variable {f : σ → Option α} {g : σ → Option σ} {s t u : σ} {v init : τ} {a : α}
  {e : ε} {destroy : τ → Exec ε σ Unit}

theorem ask_of_some (h : f s = some a) : (ask f : Exec ε σ α) s = .returned a s := by
  rw [ask,h,Option.elim_some]

theorem change_of_some (h : g s = some t) : (change g : Exec ε σ Unit) s = .returned () t := by
  rw [change,h,Option.elim_some]

theorem block_of_returned {m : Exec ε (σ × τ) α} (h : m (s,init) = .returned a (t,v))
    (hd : destroy v t = .returned () u) : block init destroy m s = .returned a u := by
  simp only [block, h]
  exact bind_of_returned hd

theorem block_of_threw {m : Exec ε (σ × τ) α} (h : m (s,init) = .threw e (t,v))
    (hd : destroy v t = .returned () u) : block init destroy m s = .threw e u := by
  simp only [block, h]
  exact bind_of_returned hd

end Rules
end Imperative.Exec
