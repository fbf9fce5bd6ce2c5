import Mathlib.Data.Nat.Notation
import Mathlib.Order.Defs.Unbundled
import Mathlib.Tactic.Common

/-! Imperative code with a state, exceptions, undefined behaviour and fuel.

A loop or a recursion that need not end is written over a fuel argument; running
out of fuel is an outcome of its own, so a result never depends on the fuel once
there is enough of it. -/
namespace Imperative

/-- How a piece of code ends. An exception leaves the state it was thrown in. -/
inductive Outcome (ε σ α : Type) where
  | returned (a : α) (s : σ)
  | threw (e : ε) (s : σ)
  | undefined
  | outOfFuel
  deriving DecidableEq

/-- The result, where there is one. -/
def Outcome.result? {ε σ α : Type} : Outcome ε σ α → Option (α × σ)
  | .returned a s => some (a,s)
  | _ => none

theorem Outcome.result?_eq_some_iff {ε σ α : Type} {x : Outcome ε σ α} {r : α × σ} :
    x.result? = some r ↔ x = .returned r.1 r.2 := by
  cases x <;> simp [result?, Prod.ext_iff]

/-- The same outcome in the state that `g` makes of its own. -/
def Outcome.mapState {ε σ τ α : Type} (g : σ → τ) : Outcome ε σ α → Outcome ε τ α
  | .returned a s => .returned a (g s)
  | .threw e s => .threw e (g s)
  | .undefined => .undefined
  | .outOfFuel => .outOfFuel

/-- Code over the state `σ` that may throw `ε`. -/
def Exec (ε σ α : Type) := σ → Outcome ε σ α

variable {ε σ α β : Type}

namespace Exec

instance : Monad (Exec ε σ) where
  pure a s := .returned a s
  bind m f s := match m s with
    | .returned a t => f a t
    | .threw e t => .threw e t
    | .undefined => .undefined
    | .outOfFuel => .outOfFuel

def throw (e : ε) : Exec ε σ α := fun s => .threw e s
def undefined : Exec ε σ α := fun _ => .undefined
def outOfFuel : Exec ε σ α := fun _ => .outOfFuel
def get : Exec ε σ σ := fun s => .returned s s
def modify (f : σ → σ) : Exec ε σ Unit := fun s => .returned () (f s)

/-- Run the handler on the exceptions selected by `p`, in the state left by the throw. -/
def catchIf (p : ε → Bool) (m : Exec ε σ α) (handler : Exec ε σ α) : Exec ε σ α := fun s =>
  match m s with
  | .threw e t => if p e then handler t else .threw e t
  | o => o

/-- Embed the outcome of code that ran over a state of its own. -/
def lift {τ : Type} (o : Outcome ε τ α) : Exec ε σ α := fun s =>
  match o with
  | .returned a _ => .returned a s
  | .threw e _ => .threw e s
  | .undefined => .undefined
  | .outOfFuel => .outOfFuel

/-- Run `m` to see what it returns, and stay where it began. -/
def lookahead (m : Exec ε σ α) : Exec ε σ α := fun s => lift (m s) s

@[simp] theorem pure_apply (a : α) (s : σ) :
    (pure a : Exec ε σ α) s = .returned a s := rfl
@[simp] theorem throw_apply (e : ε) (s : σ) :
    (throw e : Exec ε σ α) s = .threw e s := rfl
@[simp] theorem undefined_apply (s : σ) : (undefined : Exec ε σ α) s = .undefined := rfl
@[simp] theorem outOfFuel_apply (s : σ) : (outOfFuel : Exec ε σ α) s = .outOfFuel := rfl
@[simp] theorem get_apply (s : σ) : (get : Exec ε σ σ) s = .returned s s := rfl
@[simp] theorem modify_apply (f : σ → σ) (s : σ) :
    (modify f : Exec ε σ Unit) s = .returned () (f s) := rfl
@[simp] theorem ite_apply (c : Prop) [Decidable c] (m m' : Exec ε σ α) (s : σ) :
    (if c then m else m') s = if c then m s else m' s := by split <;> rfl

theorem bind_apply (m : Exec ε σ α) (f : α → Exec ε σ β) (s : σ) :
    (m >>= f) s = match m s with
      | .returned a t => f a t
      | .threw e t => .threw e t
      | .undefined => .undefined
      | .outOfFuel => .outOfFuel := rfl

theorem id_map_eq (m : Exec ε σ α) : id <$> m = m := by
  funext s
  change (m >>= pure) s = m s
  rw [bind_apply]
  cases m s <;> rfl

theorem bind_assoc_eq {γ : Type} (m : Exec ε σ α) (f : α → Exec ε σ β) (g : β → Exec ε σ γ) :
    m >>= f >>= g = m >>= fun a => f a >>= g := by
  funext s
  simp only [bind_apply]
  cases m s <;> rfl

instance : LawfulMonad (Exec ε σ) :=
  LawfulMonad.mk' _ id_map_eq (fun _ _ => rfl) bind_assoc_eq

section Sequencing
variable {m : Exec ε σ α} {f : α → Exec ε σ β} {s t : σ} {a : α} {b : β} {e : ε}

theorem bind_of_returned (h : m s = .returned a t) : (m >>= f) s = f a t := by
  rw [bind_apply, h]

theorem bind_of_threw (h : m s = .threw e t) : (m >>= f) s = .threw e t := by
  rw [bind_apply, h]

theorem bind_of_undefined (h : m s = .undefined) : (m >>= f) s = .undefined := by
  rw [bind_apply, h]

theorem bind_of_outOfFuel (h : m s = .outOfFuel) : (m >>= f) s = .outOfFuel := by
  rw [bind_apply, h]

theorem bind_eq_returned : (m >>= f) s = .returned b t ↔
    ∃ a u, m s = .returned a u ∧ f a u = .returned b t := by
  rw [bind_apply]
  cases m s <;> simp [and_assoc]

theorem bind_eq_threw : (m >>= f) s = .threw e t ↔
    m s = .threw e t ∨ ∃ a u, m s = .returned a u ∧ f a u = .threw e t := by
  rw [bind_apply]
  cases m s <;> simp [and_assoc]

theorem bind_eq_undefined : (m >>= f) s = .undefined ↔
    m s = .undefined ∨ ∃ a u, m s = .returned a u ∧ f a u = .undefined := by
  rw [bind_apply]
  cases m s <;> simp [and_assoc]

theorem bind_eq_outOfFuel : (m >>= f) s = .outOfFuel ↔
    m s = .outOfFuel ∨ ∃ a u, m s = .returned a u ∧ f a u = .outOfFuel := by
  rw [bind_apply]
  cases m s <;> simp [and_assoc]

/-- The two ways to stop that no handler sees. -/
inductive Stop where
  | undefined
  | outOfFuel

def Stop.outcome : Stop → Outcome ε σ α
  | .undefined => .undefined
  | .outOfFuel => .outOfFuel

@[simp] theorem Stop.returned_ne_outcome (k : Stop) (a : α) (s : σ) :
    (.returned a s : Outcome ε σ α) ≠ k.outcome := by cases k <;> simp [Stop.outcome]
@[simp] theorem Stop.threw_ne_outcome (k : Stop) (e : ε) (s : σ) :
    (.threw e s : Outcome ε σ α) ≠ k.outcome := by cases k <;> simp [Stop.outcome]

theorem bind_eq_stop {k : Stop} : (m >>= f) s = k.outcome ↔
    m s = k.outcome ∨ ∃ a u, m s = .returned a u ∧ f a u = k.outcome := by
  cases k with
  | undefined => exact bind_eq_undefined
  | outOfFuel => exact bind_eq_outOfFuel

theorem catchIf_eq_stop {p : ε → Bool} {handler : Exec ε σ α} {k : Stop}
    (hh : ∀ s, handler s ≠ k.outcome) :
    catchIf p m handler s = k.outcome ↔ m s = k.outcome := by
  unfold catchIf
  cases m s with
  | threw e t => by_cases hp : p e <;> simp [hp, hh]
  | _ => simp

end Sequencing
end Exec

/-- `o` is what `o'` shows of itself on less fuel: the same outcome or none yet. -/
def Outcome.Approx (o o' : Outcome ε σ α) : Prop := o = .outOfFuel ∨ o = o'

theorem Outcome.Approx.eq {o o' : Outcome ε σ α} (h : o.Approx o') (hn : o ≠ .outOfFuel) :
    o' = o := (h.resolve_left hn).symm

namespace Exec

def Approx (m m' : Exec ε σ α) : Prop := ∀ s, (m s).Approx (m' s)

theorem Approx.refl (m : Exec ε σ α) : Approx m m := fun _ => .inr rfl

theorem Approx.outOfFuel (m : Exec ε σ α) : Approx (outOfFuel : Exec ε σ α) m :=
  fun _ => .inl rfl

theorem Approx.bind {m m' : Exec ε σ α} {f f' : α → Exec ε σ β} (hm : Approx m m')
    (hf : ∀ a, Approx (f a) (f' a)) : Approx (m >>= f) (m' >>= f') := by
  intro s
  rcases hm s with h | h
  · exact .inl (bind_of_outOfFuel h)
  · rw [bind_apply,bind_apply,← h]
    cases m s with
    | returned a t => exact hf a t
    | threw e t => exact .inr rfl
    | undefined => exact .inr rfl
    | outOfFuel => exact .inl rfl

theorem Approx.ite {c : Prop} [Decidable c] {m m' n n' : Exec ε σ α} (hm : Approx m m')
    (hn : Approx n n') : Approx (if c then m else n) (if c then m' else n') := by
  split
  · exact hm
  · exact hn

theorem Approx.catchIf {p : ε → Bool} {m m' h : Exec ε σ α} (hm : Approx m m') :
    Approx (catchIf p m h) (catchIf p m' h) := by
  intro s
  rcases hm s with hs | hs
  · exact .inl (by simp only [Exec.catchIf, hs])
  · exact .inr (by simp only [Exec.catchIf, hs])

/-- More fuel never changes an outcome that was reached. -/
def Stable (f : ℕ → Exec ε σ α) : Prop := ∀ n, Approx (f n) (f (n+1))

theorem Stable.le {f : ℕ → Exec ε σ α} (hf : Stable f) {n m : ℕ} (h : n ≤ m) :
    Approx (f n) (f m) := by
  induction h with
  | refl => exact .refl _
  | @step m h ih =>
    intro s
    rcases ih s with hs | hs
    · exact .inl hs
    · rcases hf m s with hm | hm
      · exact .inl (hs.trans hm)
      · exact .inr (hs.trans hm)

/-- Two amounts of fuel that are both enough give the same outcome. -/
theorem Stable.eq_of_ne {f : ℕ → Exec ε σ α} (hf : Stable f) {n m : ℕ} {s : σ}
    (hn : f n s ≠ .outOfFuel) (hm : f m s ≠ .outOfFuel) : f n s = f m s := by
  rcases Nat.le_total n m with h | h
  · exact ((hf.le h s).eq hn).symm
  · exact (hf.le h s).eq hm

theorem Stable.ne_of_le {f : ℕ → Exec ε σ α} (hf : Stable f) {n m : ℕ} {s : σ} (h : n ≤ m)
    (hn : f n s ≠ .outOfFuel) : f m s ≠ .outOfFuel := by
  rw [(hf.le h s).eq hn]
  exact hn

theorem Stable.returned_succ {f : ℕ → Exec ε σ α} (hf : Stable f) {n : ℕ} {s t : σ} {a : α}
    (h : f n s = .returned a t) : f (n+1) s = .returned a t :=
  ((hf n s).eq (by rw [h]; simp)).trans h

/-- The code, given enough fuel, ends in `o`. -/
def Ends (f : ℕ → Exec ε σ α) (s : σ) (o : Outcome ε σ α) : Prop :=
  o ≠ .outOfFuel ∧ ∃ n, f n s = o

/-- The code ends on some amount of fuel, whatever the outcome. -/
def Halts (f : ℕ → Exec ε σ α) (s : σ) : Prop := ∃ n, f n s ≠ .outOfFuel

/-- The code, given enough fuel, returns. -/
def Returns (f : ℕ → Exec ε σ α) (s : σ) : Prop := ∃ a t, Ends f s (.returned a t)

/-- Wherever `m` leaves off, the state is `R`-related to the one it began in. -/
def Keeps (R : σ → σ → Prop) (m : Exec ε σ α) : Prop :=
  ∀ s, (∀ a t, m s = .returned a t → R s t) ∧ ∀ e t, m s = .threw e t → R s t

section Keeps
variable {R : σ → σ → Prop} {m m' : Exec ε σ α} {f : α → Exec ε σ β}

theorem Keeps.pure [Std.Refl R] (a : α) : Keeps R (pure a : Exec ε σ α) := by
  refine fun s => ⟨?_,fun e t h => (by cases h)⟩
  intro b t h
  cases h
  exact Std.Refl.refl s

theorem Keeps.throw [Std.Refl R] (e : ε) : Keeps R (throw e : Exec ε σ α) := by
  refine fun s => ⟨fun a t h => (by cases h),?_⟩
  intro e' t h
  cases h
  exact Std.Refl.refl s

theorem Keeps.outOfFuel : Keeps R (outOfFuel : Exec ε σ α) :=
  fun _ => ⟨fun _ _ h => (by cases h),fun _ _ h => (by cases h)⟩

/-- A look at the state. -/
theorem Keeps.look [Std.Refl R] (g : σ → α) : Keeps R (fun s => .returned (g s) s : Exec ε σ α) := by
  refine fun s => ⟨?_,fun e t h => (by cases h)⟩
  intro a t h
  cases h
  exact Std.Refl.refl s

theorem Keeps.modify {g : σ → σ} (h : ∀ s, R s (g s)) : Keeps R (modify g : Exec ε σ Unit) := by
  refine fun s => ⟨?_,fun e t h => (by cases h)⟩
  intro b t h
  cases h
  exact h s

theorem Keeps.bind [IsTrans σ R] (hm : Keeps R m) (hf : ∀ a, Keeps R (f a)) :
    Keeps R (m >>= f) := by
  intro s
  constructor
  · intro b t h
    obtain ⟨a,u,ha,hb⟩ := bind_eq_returned.mp h
    exact IsTrans.trans s u t ((hm s).1 a u ha) ((hf a u).1 b t hb)
  · intro e t h
    rcases bind_eq_threw.mp h with h | ⟨a,u,ha,hb⟩
    · exact (hm s).2 e t h
    · exact IsTrans.trans s u t ((hm s).1 a u ha) ((hf a u).2 e t hb)

theorem Keeps.ite {c : Prop} [Decidable c] (hm : Keeps R m) (hm' : Keeps R m') :
    Keeps R (if c then m else m') := by
  split
  · exact hm
  · exact hm'

theorem Keeps.catchIf [IsTrans σ R] {p : ε → Bool} (hm : Keeps R m) (hh : Keeps R m') :
    Keeps R (catchIf p m m') := by
  intro s
  have hs := hm s
  unfold Exec.catchIf
  cases h : m s with
  | returned a t => simpa [h] using hs.1 a t
  | threw e t =>
    have ht := hs.2 e t h
    by_cases hp : p e
    · simp only [hp, if_true]
      exact ⟨fun a u hu => IsTrans.trans s t u ht ((hh t).1 a u hu),
        fun e' u hu => IsTrans.trans s t u ht ((hh t).2 e' u hu)⟩
    · simp only [hp]
      refine ⟨fun a u hu => (by cases hu),?_⟩
      intro e' u h
      cases h
      exact ht
  | undefined => exact ⟨fun _ _ hu => (by cases hu),fun _ _ hu => (by cases hu)⟩
  | outOfFuel => exact ⟨fun _ _ hu => (by cases hu),fun _ _ hu => (by cases hu)⟩

end Keeps

/-- All that `m` throws is selected by `p`. -/
def Raises (p : ε → Bool) (m : Exec ε σ α) : Prop := ∀ s e t, m s = .threw e t → p e

section Raises
variable {p : ε → Bool} {m m' : Exec ε σ α} {f : α → Exec ε σ β}

theorem Raises.pure (a : α) : Raises p (pure a : Exec ε σ α) := by
  intro s e t h
  cases h

theorem Raises.throw {e : ε} (h : p e) : Raises p (throw e : Exec ε σ α) := by
  intro s e' t h
  cases h
  exact h

theorem Raises.outOfFuel : Raises p (outOfFuel : Exec ε σ α) := by
  intro s e t h
  cases h

theorem Raises.modify (g : σ → σ) : Raises p (modify g : Exec ε σ Unit) := by
  intro s e t h
  cases h

theorem Raises.bind (hm : Raises p m) (hf : ∀ a, Raises p (f a)) : Raises p (m >>= f) := by
  intro s e t h
  rcases bind_eq_threw.mp h with h | ⟨a,u,_,h⟩
  · exact hm s e t h
  · exact hf a u e t h

theorem Raises.ite {c : Prop} [Decidable c] (hm : Raises p m) (hm' : Raises p m') :
    Raises p (if c then m else m') := by
  split
  · exact hm
  · exact hm'

theorem Raises.catchIf (hm : Raises p m) (hm' : Raises p m') : Raises p (catchIf p m m') := by
  intro s e t h
  unfold Exec.catchIf at h
  cases hs : m s with
  | threw e' u =>
    simp only [hs, hm s e' u hs, if_true] at h
    exact hm' u e t h
  | _ => simp [hs] at h

/-- A handler that throws nothing stops all that it selects. -/
theorem Raises.catchIf_ne_threw {h : Exec ε σ α} {s t : σ} {e : ε} (hm : Raises p m)
    (hh : ∀ s e t, h s ≠ .threw e t) : Exec.catchIf p m h s ≠ .threw e t := by
  unfold Exec.catchIf
  cases hs : m s with
  | threw e' u =>
    dsimp only
    rw [if_pos (hm s e' u hs)]
    exact hh u e t
  | _ => simp

end Raises

/-- Wherever `m` is defined, it does the same from the state that `g` makes of its own. -/
def Follows (g : σ → σ) (m : Exec ε σ α) : Prop :=
  ∀ s, m s ≠ .undefined → m (g s) = (m s).mapState g

section Follows
variable {g : σ → σ} {m m' : Exec ε σ α} {f : α → Exec ε σ β}

theorem Follows.pure (a : α) : Follows g (pure a : Exec ε σ α) := fun _ _ => rfl

theorem Follows.throw (e : ε) : Follows g (throw e : Exec ε σ α) := fun _ _ => rfl

theorem Follows.outOfFuel : Follows g (outOfFuel : Exec ε σ α) := fun _ _ => rfl

theorem Follows.modify {k : σ → σ} (h : ∀ s, k (g s) = g (k s)) :
    Follows g (modify k : Exec ε σ Unit) := by
  intro s _
  rw [modify_apply,modify_apply,h]
  rfl

theorem Follows.bind (hm : Follows g m) (hf : ∀ a, Follows g (f a)) : Follows g (m >>= f) := by
  intro s hs
  have hms : m s ≠ .undefined := fun h => hs (bind_of_undefined h)
  have hgs := hm s hms
  rw [bind_apply] at hs ⊢
  rw [bind_apply,hgs]
  cases h : m s with
  | returned a t =>
    rw [h] at hs
    exact hf a t hs
  | threw e t => rfl
  | undefined => exact absurd h hms
  | outOfFuel => rfl

theorem Follows.ite {c : Prop} [Decidable c] (hm : Follows g m) (hm' : Follows g m') :
    Follows g (if c then m else m') := by
  split
  · exact hm
  · exact hm'

theorem Follows.catchIf {p : ε → Bool} (hm : Follows g m) (hm' : Follows g m') :
    Follows g (catchIf p m m') := by
  intro s hs
  have hms : m s ≠ .undefined := fun h => hs (by simp only [Exec.catchIf, h])
  have hgs := hm s hms
  unfold Exec.catchIf at hs ⊢
  rw [hgs]
  cases h : m s with
  | returned a t => rfl
  | threw e t =>
    rw [h] at hs
    by_cases hp : p e
    · simp only [hp, if_true] at hs
      simp only [Outcome.mapState, hp, if_true]
      exact hm' t hs
    · simp only [Outcome.mapState, hp]
      rfl
  | undefined => exact absurd h hms
  | outOfFuel => rfl

/-- What is returned is returned there too. -/
theorem Follows.ends {f : ℕ → Exec ε σ α} {s t : σ} {a : α} (hf : ∀ n, Follows g (f n))
    (h : Ends f s (.returned a t)) : Ends f (g s) (.returned a (g t)) := by
  obtain ⟨-,n,hn⟩ := h
  refine ⟨by simp,n,?_⟩
  rw [hf n s (by rw [hn]; simp),hn]
  rfl

end Follows

/-- `m` never runs out of fuel. -/
def Fuelless (m : Exec ε σ α) : Prop := ∀ s, m s ≠ .outOfFuel

section Fuelless
variable {m m' : Exec ε σ α} {f : α → Exec ε σ β}

theorem Fuelless.pure (a : α) : Fuelless (pure a : Exec ε σ α) := by
  intro s h
  cases h

theorem Fuelless.throw (e : ε) : Fuelless (throw e : Exec ε σ α) := by
  intro s h
  cases h

theorem Fuelless.modify (g : σ → σ) : Fuelless (modify g : Exec ε σ Unit) := by
  intro s h
  cases h

theorem Fuelless.bind (hm : Fuelless m) (hf : ∀ a, Fuelless (f a)) : Fuelless (m >>= f) := by
  intro s h
  rcases bind_eq_outOfFuel.mp h with h | ⟨a,t,_,h⟩
  · exact hm s h
  · exact hf a t h

theorem Fuelless.ite {c : Prop} [Decidable c] (hm : Fuelless m) (hm' : Fuelless m') :
    Fuelless (if c then m else m') := by
  split
  · exact hm
  · exact hm'

end Fuelless

/-- From a state in `P` there is no undefined behaviour, and `Q` holds on return. -/
def Triple (P : σ → Prop) (m : Exec ε σ α) (Q : α → σ → Prop) : Prop :=
  ∀ s, P s → m s ≠ .undefined ∧ ∀ a t, m s = .returned a t → Q a t

section Triple
variable {P : σ → Prop} {Q Q' : α → σ → Prop} {R : β → σ → Prop} {m m' : Exec ε σ α}
  {f : α → Exec ε σ β}

theorem Triple.pure {a : α} (h : ∀ s, P s → Q a s) : Triple P (pure a : Exec ε σ α) Q := by
  refine fun s hs => ⟨fun h => (by cases h),?_⟩
  intro b t h
  cases h
  exact h s hs

theorem Triple.throw (e : ε) : Triple P (throw e : Exec ε σ α) Q :=
  fun _ _ => ⟨fun h => (by cases h),fun _ _ h => by cases h⟩

theorem Triple.bind (hm : Triple P m Q) (hf : ∀ a, Triple (Q a) (f a) R) :
    Triple P (m >>= f) R := by
  intro s hs
  have h := hm s hs
  constructor
  · intro hu
    rcases bind_eq_undefined.mp hu with hu | ⟨a,t,ha,hu⟩
    · exact h.1 hu
    · exact (hf a t (h.2 a t ha)).1 hu
  · intro b u hb
    obtain ⟨a,t,ha,hb⟩ := bind_eq_returned.mp hb
    exact (hf a t (h.2 a t ha)).2 b u hb

theorem Triple.ite {c : Prop} [Decidable c] (hm : c → Triple P m Q) (hm' : ¬c → Triple P m' Q) :
    Triple P (if c then m else m') Q := by
  split
  · next h => exact hm h
  · next h => exact hm' h

end Triple

/-- Whatever is returned is in `P`. -/
def Yields (P : α → Prop) (m : Exec ε σ α) : Prop := ∀ s a t, m s = .returned a t → P a

section Yields
variable {P : α → Prop} {Q : β → Prop} {m m' : Exec ε σ α} {f : α → Exec ε σ β}

theorem Yields.pure {a : α} (h : P a) : Yields P (pure a : Exec ε σ α) := by
  intro s b t hb
  cases hb
  exact h

theorem Yields.throw (e : ε) : Yields P (throw e : Exec ε σ α) := by
  intro s a t ha
  cases ha

theorem Yields.bind (hm : Yields P m) (hf : ∀ a, P a → Yields Q (f a)) : Yields Q (m >>= f) := by
  intro s b u hb
  obtain ⟨a,t,ha,hb⟩ := bind_eq_returned.mp hb
  exact hf a (hm s a t ha) t b u hb

/-- Whatever the first part returns. -/
theorem Yields.after (hf : ∀ a, Yields Q (f a)) : Yields Q (m >>= f) := by
  intro s b u hb
  obtain ⟨a,t,-,hb⟩ := bind_eq_returned.mp hb
  exact hf a t b u hb

theorem Yields.ite {c : Prop} [Decidable c] (hm : c → Yields P m) (hm' : ¬c → Yields P m') :
    Yields P (if c then m else m') := by
  split
  · next h => exact hm h
  · next h => exact hm' h

end Yields

section Stable
variable {f : ℕ → Exec ε σ α} {s : σ} {o o' : Outcome ε σ α}

/-- Code that gets nowhere without fuel had some if it returned. -/
theorem Ends.succ {a : α} {t : σ} (h : Ends f s (.returned a t)) (h₀ : f 0 s = .outOfFuel) :
    ∃ n, f (n+1) s = .returned a t := by
  obtain ⟨-,n,hn⟩ := h
  cases n with
  | zero => cases h₀.symm.trans hn
  | succ n => exact ⟨n,hn⟩

theorem Ends.halts (h : Ends f s o) : Halts f s := by
  obtain ⟨hn,n,rfl⟩ := h
  exact ⟨n,hn⟩

theorem Halts.ends (h : Halts f s) : ∃ o, Ends f s o := by
  obtain ⟨n,hn⟩ := h
  exact ⟨f n s,hn,n,rfl⟩

/-- An outcome reached at some fuel is the outcome at every larger one. -/
theorem Ends.forall_ge (h : Ends f s o) (hf : Stable f) : ∃ n, ∀ m, n ≤ m → f m s = o := by
  obtain ⟨hn,n,rfl⟩ := h
  exact ⟨n,fun m hm => (hf.le hm s).eq hn⟩

theorem Ends.unique (h : Ends f s o) (h' : Ends f s o') (hf : Stable f) : o = o' := by
  obtain ⟨n,hn⟩ := h.forall_ge hf
  obtain ⟨m,hm⟩ := h'.forall_ge hf
  rw [← hn (max n m) (Nat.le_max_left n m),hm (max n m) (Nat.le_max_right n m)]

/-- With stable parts, a sequence halts when its first part does and the second does on
whatever the first returns. -/
theorem halts_bind_iff {g : ℕ → α → Exec ε σ β} (hf : Stable f)
    (hg : ∀ a, Stable fun n => g n a) : Halts (fun n => f n >>= g n) s ↔
      Halts f s ∧ ∀ a t, Ends f s (.returned a t) → Halts (fun n => g n a) t := by
  constructor
  · intro h
    obtain ⟨n,hn⟩ := h
    have hfn : f n s ≠ .outOfFuel := fun h => hn (bind_of_outOfFuel h)
    refine ⟨⟨n,hfn⟩,fun a t h => ⟨n,fun hgn => hn ?_⟩⟩
    exact (bind_of_returned (Ends.unique ⟨hfn,n,rfl⟩ h hf)).trans hgn
  · intro h
    obtain ⟨hhalts,hrest⟩ := h
    obtain ⟨o,ho⟩ := hhalts.ends
    obtain ⟨n,hn⟩ := ho.forall_ge hf
    cases o with
    | returned a t =>
      obtain ⟨m,hm⟩ := hrest a t ho
      refine ⟨max n m,fun h => (hg a).ne_of_le (Nat.le_max_right n m) hm ?_⟩
      exact (bind_of_returned (hn _ (Nat.le_max_left n m))).symm.trans h
    | threw e t => exact ⟨n,by simp [bind_of_threw (hn n (Nat.le_refl n))]⟩
    | undefined => exact ⟨n,by simp [bind_of_undefined (hn n (Nat.le_refl n))]⟩
    | outOfFuel => exact absurd rfl ho.1

/-- What a sequence ends in is what its second part ends in, once the first has returned. -/
theorem ends_bind_of_returned {g : ℕ → α → Exec ε σ β} {a : α} {t : σ} {o : Outcome ε σ β}
    (hf : Stable f) (hg : ∀ a, Stable fun n => g n a) (h : Ends f s (.returned a t)) :
    Ends (fun n => f n >>= g n) s o ↔ Ends (fun n => g n a) t o := by
  obtain ⟨n,hn⟩ := h.forall_ge hf
  constructor
  · intro h
    obtain ⟨ho,m,hm⟩ := h
    refine ⟨ho,m,?_⟩
    have hfm : f m s ≠ .outOfFuel := fun hc => ho (hm.symm.trans (bind_of_outOfFuel hc))
    rw [← hm]
    exact (bind_of_returned (Ends.unique ⟨hfm,m,rfl⟩ h hf)).symm
  · intro hgo
    obtain ⟨m,hm⟩ := hgo.forall_ge (hg a)
    refine ⟨hgo.1,max n m,?_⟩
    exact (bind_of_returned (hn _ (Nat.le_max_left n m))).trans (hm _ (Nat.le_max_right n m))

theorem ends_bind_undefined_iff {g : ℕ → α → Exec ε σ β} (hf : Stable f)
    (hg : ∀ a, Stable fun n => g n a) : Ends (fun n => f n >>= g n) s .undefined ↔
      Ends f s .undefined ∨
        ∃ a t, Ends f s (.returned a t) ∧ Ends (fun n => g n a) t .undefined := by
  constructor
  · intro h
    obtain ⟨-,n,hn⟩ := h
    rcases bind_eq_undefined.mp hn with h | ⟨a,t,ha,hu⟩
    · exact .inl ⟨by simp,n,h⟩
    · exact .inr ⟨a,t,⟨by simp,n,ha⟩,by simp,n,hu⟩
  · intro h
    rcases h with ⟨-,n,hn⟩ | ⟨a,t,ha,hu⟩
    · exact ⟨by simp,n,bind_of_undefined hn⟩
    · obtain ⟨n,hn⟩ := ha.forall_ge hf
      obtain ⟨m,hm⟩ := hu.forall_ge (hg a)
      refine ⟨by simp,max n m,?_⟩
      exact (bind_of_returned (hn _ (Nat.le_max_left n m))).trans (hm _ (Nat.le_max_right n m))

theorem ends_bind_returned_iff {g : ℕ → α → Exec ε σ β} {b : β} {u : σ} (hf : Stable f)
    (hg : ∀ a, Stable fun n => g n a) : Ends (fun n => f n >>= g n) s (.returned b u) ↔
      ∃ a t, Ends f s (.returned a t) ∧ Ends (fun n => g n a) t (.returned b u) := by
  constructor
  · intro h
    obtain ⟨n,hn⟩ := h.2
    obtain ⟨a,t,ha,-⟩ := bind_eq_returned.mp hn
    have hend : Ends f s (.returned a t) := ⟨by simp,n,ha⟩
    exact ⟨a,t,hend,(ends_bind_of_returned hf hg hend).mp h⟩
  · intro h
    obtain ⟨a,t,ha,hb⟩ := h
    exact (ends_bind_of_returned hf hg ha).mpr hb

theorem returns_bind_iff {g : ℕ → α → Exec ε σ β} (hf : Stable f)
    (hg : ∀ a, Stable fun n => g n a) : Returns (fun n => f n >>= g n) s ↔
      Returns f s ∧ ∀ a t, Ends f s (.returned a t) → Returns (fun n => g n a) t := by
  constructor
  · intro h
    obtain ⟨b,u,h⟩ := h
    obtain ⟨a,t,ha,-⟩ := (ends_bind_returned_iff hf hg).mp h
    exact ⟨⟨a,t,ha⟩,fun a t ha => ⟨b,u,(ends_bind_of_returned hf hg ha).mp h⟩⟩
  · intro h
    obtain ⟨⟨a,t,ha⟩,hrest⟩ := h
    obtain ⟨b,u,hb⟩ := hrest a t ha
    exact ⟨b,u,(ends_bind_of_returned hf hg ha).mpr hb⟩

theorem ends_const_iff {m : Exec ε σ α} {a : α} {t : σ} :
    Ends (fun _ => m) s (.returned a t) ↔ m s = .returned a t := by
  constructor
  · intro h
    obtain ⟨_,_,h⟩ := h
    exact h
  · intro h
    exact ⟨by simp,0,h⟩

/-- When the second part needs no fuel. -/
theorem ends_then_iff {k : α → Exec ε σ β} {b : β} {u : σ} (hf : Stable f) :
    Ends (fun n => f n >>= k) s (.returned b u) ↔
      ∃ a t, Ends f s (.returned a t) ∧ k a t = .returned b u := by
  refine (ends_bind_returned_iff (g := fun _ => k) hf fun _ _ => .refl _).trans ?_
  simp only [ends_const_iff]

section Lift
variable {τ : Type} {f : ℕ → Exec ε τ α} {u : τ}

theorem lift_eq_returned {o : Outcome ε τ α} {s t : σ} {a : α} :
    lift o s = .returned a t ↔ s = t ∧ ∃ u, o = .returned a u := by
  cases o <;> simp [lift, and_comm]

theorem lift_eq_threw {o : Outcome ε τ α} {s t : σ} {e : ε} :
    (lift o : Exec ε σ α) s = .threw e t ↔ s = t ∧ ∃ u, o = .threw e u := by
  cases o <;> simp [lift, and_comm]

theorem lookahead_eq_returned {m : Exec ε σ α} {s t : σ} {a : α} :
    lookahead m s = .returned a t ↔ s = t ∧ ∃ u, m s = .returned a u := lift_eq_returned

theorem Stable.lift (hf : Stable f) : Stable fun n => (Exec.lift (f n u) : Exec ε σ α) := by
  intro n s
  rcases hf n u with h | h
  · exact .inl (by simp [Exec.lift, h])
  · exact .inr (by simp only [Exec.lift, h])

theorem Stable.lookahead {f : ℕ → Exec ε σ α} (hf : Stable f) :
    Stable fun n => lookahead (f n) := by
  intro n s
  exact hf.lift (u := s) n s

theorem ends_lift_returned_iff {s t : σ} {a : α} :
    Ends (fun n => (lift (f n u) : Exec ε σ α)) s (.returned a t) ↔
      s = t ∧ ∃ v, Ends f u (.returned a v) := by
  constructor
  · intro h
    obtain ⟨-,n,hn⟩ := h
    obtain ⟨rfl,v,hv⟩ := lift_eq_returned.mp hn
    exact ⟨rfl,v,by simp,n,hv⟩
  · intro h
    obtain ⟨rfl,v,-,n,hn⟩ := h
    exact ⟨by simp,n,lift_eq_returned.mpr ⟨rfl,v,hn⟩⟩

end Lift

theorem Stable.const (m : Exec ε σ α) : Stable fun _ => m := fun _ => .refl m

theorem Stable.bind {g : ℕ → α → Exec ε σ β} (hf : Stable f) (hg : ∀ a, Stable fun n => g n a) :
    Stable fun n => f n >>= g n := fun n => (hf n).bind fun a => hg a n

theorem Stable.ite {c : Prop} [Decidable c] {g : ℕ → Exec ε σ α} (hf : Stable f)
    (hg : Stable g) : Stable fun n => if c then f n else g n := fun n => (hf n).ite (hg n)

end Stable
end Exec
end Imperative
