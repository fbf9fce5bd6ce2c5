import Mathlib.Data.Set.Finite.Basic
import Mathlib.Logic.Relation
import Mathlib.Order.WellFounded
import Mathlib.Order.RelIso.Set
import Mathlib.Data.Finite.Defs

/-! When a fuelled recursion ends: exactly when its call graph has no cycle.

`calls c d` says that the code at configuration `c` goes on to run at `d` with one
unit of fuel less; `done n c` that `n` units are enough at `c`. -/
namespace CallGraph
open Relation

variable {C : Type*}

/-- A fuelled recursion together with the calls it makes. -/
structure Recursion (calls : C → C → Prop) (done : ℕ → C → Prop) : Prop where
  zero : ∀ c, ¬ done 0 c
  callee : ∀ {n c d}, done (n+1) c → calls c d → done n d
  caller : ∀ {c}, (∀ d, calls c d → ∃ n, done n d) → ∃ n, done n c

variable {calls : C → C → Prop} {done : ℕ → C → Prop}

theorem Recursion.acc_of_done (h : Recursion calls done) {n : ℕ} {c : C} (hd : done n c) :
    Acc (fun d c => calls c d) c := by
  induction n generalizing c with
  | zero => exact absurd hd (h.zero c)
  | succ n ih => exact Acc.intro c fun d hc => ih (h.callee hd hc)

theorem Recursion.done_of_acc (h : Recursion calls done) {c : C}
    (ha : Acc (fun d c => calls c d) c) : ∃ n, done n c := by
  induction ha with
  | intro c _ ih => exact h.caller ih

/-- A well-founded call below `c` means there is no cycle there. -/
theorem not_transGen_of_acc {c : C} (ha : Acc (fun d c => calls c d) c) :
    ¬ TransGen calls c c := by
  induction ha with
  | intro c _ ih =>
    intro hc
    obtain ⟨d,hcd,hdc⟩ := TransGen.head'_iff.mp hc
    exact ih d hcd (TransGen.tail' hdc hcd)

theorem acc_of_reflTransGen {c d : C} (hcd : ReflTransGen calls c d)
    (ha : Acc (fun d c => calls c d) c) : Acc (fun d c => calls c d) d := by
  induction hcd with
  | refl => exact ha
  | tail _ hde ih => exact ih.inv hde

/-- On finitely many reachable configurations, no cycle means well-founded. -/
theorem acc_of_no_cycle {c : C} (hfin : {d | ReflTransGen calls c d}.Finite)
    (hcyc : ∀ d, ReflTransGen calls c d → ¬ TransGen calls d d) :
    Acc (fun d c => calls c d) c := by
  let R := {d // ReflTransGen calls c d}
  have : Finite R := hfin.to_subtype
  let below : R → R → Prop := fun d e => TransGen calls e.val d.val
  have : Std.Irrefl below := ⟨fun d hd => hcyc d.val d.property hd⟩
  have : IsTrans R below := ⟨fun d e f hde hef => TransGen.trans hef hde⟩
  have hwf : WellFounded below := Finite.wellFounded_of_trans_of_irrefl below
  have hacc : ∀ d : R, Acc (fun d c => calls c d) d.val := by
    intro d
    induction d using hwf.induction with
    | h d ih =>
      refine Acc.intro d.val fun e hde => ?_
      exact ih ⟨e,d.property.tail hde⟩ (TransGen.single hde)
  exact hacc ⟨c,.refl⟩

/-- A recursion over finitely many configurations ends exactly when no configuration it
reaches calls itself again. -/
theorem Recursion.done_iff_no_cycle (h : Recursion calls done) {c : C}
    (hfin : {d | ReflTransGen calls c d}.Finite) :
    (∃ n, done n c) ↔ ∀ d, ReflTransGen calls c d → ¬ TransGen calls d d := by
  constructor
  · intro h d hcd
    obtain ⟨n,hn⟩ := h
    exact not_transGen_of_acc (acc_of_reflTransGen hcd (h.acc_of_done hn))
  · intro hcyc
    exact h.done_of_acc (acc_of_no_cycle hfin hcyc)

/-- Along a cycle a measure that every call lowers, except those in `back`, forces a call
in `back` that lies on the cycle. -/
theorem exists_back_of_cycle {back : C → C → Prop} {μ : C → ℕ} {c : C}
    (hμ : ∀ {d e}, ReflTransGen calls c d → calls d e → back d e ∨ μ e < μ d)
    (hcc : TransGen calls c c) :
    ∃ d e, ReflTransGen calls c d ∧ calls d e ∧ back d e ∧ ReflTransGen calls e c := by
  have key : ∀ {y}, TransGen calls c y →
      (∃ d e, ReflTransGen calls c d ∧ calls d e ∧ back d e ∧ ReflTransGen calls e y) ∨
        μ y < μ c := by
    intro y hcy
    induction hcy with
    | single hcy =>
      rcases hμ .refl hcy with hb | hlt
      · exact .inl ⟨c,_,.refl,hcy,hb,.refl⟩
      · exact .inr hlt
    | @tail y z hcy hyz ih =>
      rcases ih with ⟨d,e,hcd,hde,hb,hey⟩ | hlt
      · exact .inl ⟨d,e,hcd,hde,hb,hey.tail hyz⟩
      · rcases hμ hcy.to_reflTransGen hyz with hb | hlt'
        · exact .inl ⟨y,z,hcy.to_reflTransGen,hyz,hb,.refl⟩
        · exact .inr (hlt'.trans hlt)
  rcases key hcc with h | hlt
  · exact h
  · exact absurd hlt (Nat.lt_irrefl _)

/-- When every call but those in `back` lowers a measure, the recursion ends exactly when
it never returns to where it made a call in `back`. -/
theorem Recursion.done_iff_no_return (h : Recursion calls done) {back : C → C → Prop}
    {μ : C → ℕ} {c : C} (hfin : {d | ReflTransGen calls c d}.Finite)
    (hback : ∀ {d e}, back d e → calls d e)
    (hμ : ∀ {d e}, ReflTransGen calls c d → calls d e → back d e ∨ μ e < μ d) :
    (∃ n, done n c) ↔ ∀ d e, ReflTransGen calls c d → back d e → ¬ ReflTransGen calls e d := by
  rw [h.done_iff_no_cycle hfin]
  constructor
  · intro hno d e hcd hde hed
    exact hno d hcd (TransGen.head' (hback hde) hed)
  · intro hno d hcd hdd
    have hμd : ∀ {e f}, ReflTransGen calls d e → calls e f → back e f ∨ μ f < μ e :=
      fun hde hef => hμ (hcd.trans hde) hef
    obtain ⟨e,f,hde,hef,hb,hfd⟩ := exists_back_of_cycle hμd hdd
    exact hno e f (hcd.trans hde) hb (hfd.trans hde)

end CallGraph
