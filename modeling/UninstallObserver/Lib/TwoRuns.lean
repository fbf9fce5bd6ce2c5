import UninstallObserver.Lib.Outcome

/-! Two pieces of code run from one state, and whether they come to the same end. -/
namespace Imperative
namespace Exec

variable {ε σ α β : Type} {f f' : ℕ → Exec ε σ α} {s : σ}

/-- Given enough fuel, the code returns or throws. -/
def Concludes (f : ℕ → Exec ε σ α) (s : σ) : Prop := ∃ o, Ends f s o ∧ o ≠ .undefined

/-- Both throw, or both return the same value. -/
def Alike (f f' : ℕ → Exec ε σ α) (s : σ) : Prop :=
  (∃ e t e' t', Ends f s (.threw e t) ∧ Ends f' s (.threw e' t')) ∨
    ∃ a t t', Ends f s (.returned a t) ∧ Ends f' s (.returned a t')

theorem concludes_iff (hf : Stable f) : Concludes f s ↔ Halts f s ∧ ¬ Ends f s .undefined := by
  constructor
  · rintro ⟨o,ho,hne⟩
    exact ⟨ho.halts,fun hu => hne (ho.unique hu hf)⟩
  · rintro ⟨hhalts,hne⟩
    obtain ⟨o,ho⟩ := hhalts.ends
    refine ⟨o,ho,?_⟩
    rintro rfl
    exact hne ho

theorem Concludes.of_ne {n : ℕ} (hfuel : f n s ≠ .outOfFuel) (hu : f n s ≠ .undefined) :
    Concludes f s := ⟨f n s,⟨hfuel,n,rfl⟩,hu⟩

theorem Alike.concludes (h : Alike f f' s) : Concludes f s := by
  rcases h with ⟨e,t,_,_,h,-⟩ | ⟨a,t,_,h,-⟩
  · exact ⟨_,h,by simp⟩
  · exact ⟨_,h,by simp⟩

/-- Code is like itself where it comes to an end. -/
theorem alike_self_iff : Alike f f s ↔ Concludes f s := by
  refine ⟨Alike.concludes,?_⟩
  rintro ⟨o,ho,hne⟩
  cases o with
  | returned a t => exact .inr ⟨a,t,t,ho,ho⟩
  | threw e t => exact .inl ⟨e,t,e,t,ho,ho⟩
  | undefined => exact absurd rfl hne
  | outOfFuel => exact absurd rfl ho.1

theorem alike_pure_iff {a a' : α} :
    Alike (fun _ => (pure a : Exec ε σ α)) (fun _ => pure a') s ↔ a = a' := by
  constructor
  · rintro (⟨_,_,_,_,⟨-,_,h⟩,-⟩ | ⟨_,_,_,⟨-,_,h⟩,-,_,h'⟩)
    · cases h
    · cases h
      cases h'
      rfl
  · rintro rfl
    exact .inr ⟨a,s,s,⟨by simp,0,rfl⟩,⟨by simp,0,rfl⟩⟩

section Bind
variable {g g' : ℕ → α → Exec ε σ β}

theorem ends_bind_of_threw {e : ε} {t : σ} (h : Ends f s (.threw e t)) :
    Ends (fun n => f n >>= g n) s (.threw e t) := by
  obtain ⟨-,n,hn⟩ := h
  exact ⟨by simp,n,bind_of_threw hn⟩

theorem Concludes.left (h : Concludes (fun n => f n >>= g n) s) (hf : Stable f)
    (hg : ∀ a, Stable fun n => g n a) : Concludes f s := by
  have hstable : Stable fun n => f n >>= g n := hf.bind hg
  obtain ⟨hhalts,hne⟩ := (concludes_iff hstable).mp h
  apply (concludes_iff hf).mpr
  refine ⟨((halts_bind_iff hf hg).mp hhalts).1,fun hu => hne ?_⟩
  exact (ends_bind_undefined_iff hf hg).mpr (.inl hu)

/-- Two sequences with a first part in common. -/
theorem alike_bind_iff (hf : Stable f) (hg : ∀ a, Stable fun n => g n a)
    (hg' : ∀ a, Stable fun n => g' n a) :
    Alike (fun n => f n >>= g n) (fun n => f n >>= g' n) s ↔
      Concludes f s ∧ ∀ a t, Ends f s (.returned a t) →
        Alike (fun n => g n a) (fun n => g' n a) t := by
  have hrest : ∀ a t, Ends f s (.returned a t) →
      (Alike (fun n => f n >>= g n) (fun n => f n >>= g' n) s ↔
        Alike (fun n => g n a) (fun n => g' n a) t) := by
    intro a t ha
    unfold Alike
    simp only [ends_bind_of_returned hf hg ha, ends_bind_of_returned hf hg' ha]
  constructor
  · intro h
    exact ⟨h.concludes.left hf hg,fun a t ha => (hrest a t ha).mp h⟩
  · rintro ⟨⟨o,ho,hne⟩,h⟩
    cases o with
    | returned a t => exact (hrest a t ho).mpr (h a t ho)
    | threw e t => exact .inl ⟨e,t,e,t,ends_bind_of_threw ho,ends_bind_of_threw ho⟩
    | undefined => exact absurd rfl hne
    | outOfFuel => exact absurd rfl ho.1

end Bind
end Exec
end Imperative
