import UninstallObserver.Lib.Runs

/-! What a run shows to others, and systems that show the same. -/
namespace Transition

variable {S S' L L' V : Type*}

/-- `Trace step shows s vs t`: a run from `s` to `t` that shows `vs`. -/
inductive Trace (step : L → S → S → Prop) (shows : L → S → List V) : S → List V → S → Prop
  | nil {s : S} : Trace step shows s [] s
  | cons {l : L} {vs : List V} {s t u : S} (head : step l s t) (tail : Trace step shows t vs u) :
      Trace step shows s (shows l s ++ vs) u

variable {step : L → S → S → Prop} {shows : L → S → List V} {step' : L' → S' → S' → Prop}
  {shows' : L' → S' → List V} {s t u : S} {s' : S'} {vs vs' : List V}

namespace Trace

theorem single {l : L} (h : step l s t) : Trace step shows s (shows l s) t := by
  have htrace : Trace step shows s (shows l s ++ []) t := .cons h .nil
  rwa [List.append_nil] at htrace

theorem append (h : Trace step shows s vs t) (h' : Trace step shows t vs' u) :
    Trace step shows s (vs ++ vs') u := by
  induction h with
  | nil => exact h'
  | cons head _ ih =>
    rw [List.append_assoc]
    exact .cons head (ih h')

/-- A step that shows nothing. -/
theorem silent {l : L} (h : step l s t) (hshows : shows l s = []) : Trace step shows s [] t := by
  rw [← hshows]
  exact single h

/-- A step that shows one thing. -/
theorem visible {l : L} {v : V} (h : step l s t) (hshows : shows l s = [v]) :
    Trace step shows s [v] t := by
  rw [← hshows]
  exact single h

theorem exists_run (h : Trace step shows s vs t) : ∃ ls, Run step s ls t := by
  induction h with
  | nil => exact ⟨[],.nil⟩
  | @cons l _ _ _ _ head _ ih =>
    obtain ⟨ls,hrun⟩ := ih
    exact ⟨l::ls,.cons head hrun⟩

/-- What every step keeps, every trace keeps. -/
theorem invariant {I : S → Prop} (h : Trace step shows s vs t) (hs : I s)
    (hstep : ∀ l s t, I s → step l s t → I t) : I t := by
  obtain ⟨ls,hrun⟩ := h.exists_run
  exact hrun.invariant hs hstep

/-- What every step keeps, given what was shown so far, every trace keeps. -/
theorem history {I : List V → S → Prop} (h : Trace step shows s vs t) (hs : I [] s)
    (hstep : ∀ vs l s t, I vs s → step l s t → I (vs ++ shows l s) t) : I vs t := by
  have hall : ∀ pre, I pre s → I (pre ++ vs) t := by
    clear hs
    induction h with
    | nil =>
      intro pre hpre
      rwa [List.append_nil]
    | cons head _ ih =>
      intro pre hpre
      rw [← List.append_assoc]
      exact ih _ (hstep pre _ _ _ hpre head)
  exact hall [] hs

/-- A system that can show whatever a step of another shows can show whatever its runs show. -/
theorem simulate {R : S → S' → Prop} (h : Trace step shows s vs t) (hs : R s s')
    (hstep : ∀ l s t s', R s s' → step l s t →
      ∃ t', Trace step' shows' s' (shows l s) t' ∧ R t t') :
    ∃ t', Trace step' shows' s' vs t' ∧ R t t' := by
  induction h generalizing s' with
  | nil => exact ⟨s',.nil,hs⟩
  | cons head _ ih =>
    obtain ⟨u',hhead,hu⟩ := hstep _ _ _ _ hs head
    obtain ⟨t',htail,ht⟩ := ih hu
    exact ⟨t',hhead.append htail,ht⟩

end Trace

/-- What the steps of a list of labels show, where they are all possible. -/
def traceAll (f : L → S → Option S) (shows : L → S → List V) : List L → S → Option (List V × S)
  | [], s => some ([],s)
  | l::ls, s => (f l s).bind fun t =>
    (traceAll f shows ls t).map fun r => (shows l s ++ r.1,r.2)

theorem trace_of_traceAll {f : L → S → Option S} (ls : List L)
    (h : traceAll f shows ls s = some (vs,t)) (hf : ∀ l s t, f l s = some t → step l s t) :
    Trace step shows s vs t := by
  induction ls generalizing s vs with
  | nil =>
    cases h
    exact .nil
  | cons l ls ih =>
    obtain ⟨u,hu,h⟩ := Option.bind_eq_some_iff.mp h
    obtain ⟨r,hr,heq⟩ := Option.map_eq_some_iff.mp h
    cases heq
    exact .cons (hf _ _ _ hu) (ih hr)

end Transition
