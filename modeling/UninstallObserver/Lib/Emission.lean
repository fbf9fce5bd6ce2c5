import UninstallObserver.Lib.Outcome

/-! Code that hands its output to a writer piece by piece, and may throw at the end. -/
namespace Imperative
namespace Exec

variable {ε σ δ : Type} {write : δ → Exec ε σ Unit}

/-- How code ends that throws what it has to throw. -/
def finish (thrown : Option ε) (s : σ) : Outcome ε σ Unit :=
  match thrown with
  | none => .returned () s
  | some e => .threw e s

/-- Hand over one piece after another, then throw what there is to throw. -/
def emit (write : δ → Exec ε σ Unit) : List δ → Option ε → Exec ε σ Unit
  | [], thrown => finish thrown
  | d::ds, thrown => do
    write d
    emit write ds thrown

section Composition
variable {ds ds' : List δ} {e : ε} {thrown : Option ε}

theorem emit_singleton (d : δ) : emit write [d] none = write d := by
  funext s
  change (write d >>= fun _ => pure ()) s = write d s
  rw [bind_apply]
  cases write d s <;> rfl

/-- Pieces that are handed over in two goes. -/
theorem emit_append (ds ds' : List δ) (thrown : Option ε) :
    emit write (ds ++ ds') thrown = emit write ds none >>= fun _ => emit write ds' thrown := by
  induction ds with
  | nil => rfl
  | cons d ds ih =>
    change (write d >>= fun _ => emit write (ds ++ ds') thrown) = _
    rw [ih,← bind_assoc]
    rfl

/-- Nothing comes after a throw. -/
theorem emit_throw_bind {f : Unit → Exec ε σ Unit} (ds : List δ) (e : ε) :
    emit write ds (some e) >>= f = emit write ds (some e) := by
  induction ds with
  | nil => rfl
  | cons d ds ih =>
    change (write d >>= fun _ => emit write ds (some e)) >>= f = _
    rw [bind_assoc,ih]
    rfl

/-- What every piece keeps holds where all pieces were taken. -/
theorem emit_invariant {I : σ → Prop} (h : ∀ d s t, I s → write d s = .returned () t → I t)
    {s t : σ} (hs : I s) (hemit : emit write ds thrown s = .returned () t) : I t := by
  induction ds generalizing s with
  | nil =>
    cases thrown with
    | none =>
      cases hemit
      exact hs
    | some e => cases hemit
  | cons d ds ih =>
    obtain ⟨u,v,hwrite,hrest⟩ := bind_eq_returned.mp hemit
    exact ih (h d s v hs hwrite) hrest

end Composition

section Writers
variable {I : List δ → σ → Prop} {fits : List δ → Prop} {small : δ → Prop} {full : ε}
  {done ds : List δ} {s : σ}

/-- A writer takes whatever fits: `I done s` says that it holds the pieces `done`. -/
def Takes (write : δ → Exec ε σ Unit) (I : List δ → σ → Prop) (fits : List δ → Prop) : Prop :=
  ∀ done d s, I done s → fits (done ++ [d]) → ∃ t, write d s = .returned () t ∧ I (done ++ [d]) t

/-- Any piece with `small` that does not fit it refuses, and holds what it held. -/
def Refuses (write : δ → Exec ε σ Unit) (I : List δ → σ → Prop) (fits : List δ → Prop)
    (small : δ → Prop) (full : ε) : Prop :=
  ∀ done d s, I done s → small d → ¬ fits (done ++ [d]) →
    ∃ t, write d s = .threw full t ∧ I done t

/-- Where everything fits the writer holds everything, however the code ends. -/
theorem Takes.emit (htakes : Takes write I fits) (hdown : ∀ l l', fits (l ++ l') → fits l)
    (hfits : fits (done ++ ds)) (hs : I done s) (thrown : Option ε) :
    ∃ t, emit write ds thrown s = finish thrown t ∧ I (done ++ ds) t := by
  induction ds generalizing done s with
  | nil => exact ⟨s,rfl,by rwa [List.append_nil]⟩
  | cons d ds ih =>
    have happ : done ++ d::ds = (done ++ [d]) ++ ds := by simp
    rw [happ] at hfits ⊢
    obtain ⟨t,hwrite,ht⟩ := htakes done d s hs (hdown _ _ hfits)
    obtain ⟨u,hemit,hu⟩ := ih hfits ht
    exact ⟨u,(bind_of_returned hwrite).trans hemit,hu⟩

/-- Where not everything fits the writer is left with the pieces before the first that does not. -/
theorem Takes.emit_full (htakes : Takes write I fits)
    (hrefuses : Refuses write I fits small full) (hsmall : ∀ d ∈ ds, small d) (hdone : fits done)
    (hfits : ¬ fits (done ++ ds)) (hs : I done s) (thrown : Option ε) :
    ∃ pre d post t, ds = pre ++ d::post ∧ ¬ fits (done ++ pre ++ [d]) ∧
      Exec.emit write ds thrown s = .threw full t ∧ fits (done ++ pre) ∧ I (done ++ pre) t := by
  induction ds generalizing done s with
  | nil =>
    rw [List.append_nil] at hfits
    exact absurd hdone hfits
  | cons d ds ih =>
    by_cases hd : fits (done ++ [d])
    · have happ : done ++ d::ds = (done ++ [d]) ++ ds := by simp
      rw [happ] at hfits
      obtain ⟨t,hwrite,ht⟩ := htakes done d s hs hd
      obtain ⟨pre,d',post,u,rfl,hnot,hemit,hpre,hu⟩ := ih
        (fun d' hd' => hsmall d' (List.mem_cons_of_mem d hd')) hd hfits ht
      have hcons : done ++ [d] ++ pre = done ++ (d::pre) := by simp
      rw [hcons] at hnot hpre hu
      exact ⟨d::pre,d',post,u,rfl,hnot,(bind_of_returned hwrite).trans hemit,hpre,hu⟩
    · obtain ⟨t,hwrite,ht⟩ := hrefuses done d s hs (hsmall d List.mem_cons_self) hd
      refine ⟨[],d,ds,t,rfl,?_,bind_of_threw hwrite,?_,?_⟩
      · rwa [List.append_nil]
      · rwa [List.append_nil]
      · rwa [List.append_nil]

end Writers
end Exec
end Imperative
