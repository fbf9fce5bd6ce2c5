import Mathlib.Data.List.Induction

/-! Runs of a system that takes labelled steps. -/
namespace Transition

variable {S L : Type*}

/-- `Run step s ls t`: the labels `ls`, one after another, take `s` to `t`. -/
inductive Run (step : L → S → S → Prop) : S → List L → S → Prop
  | nil {s : S} : Run step s [] s
  | cons {l : L} {ls : List L} {s t u : S} (head : step l s t) (tail : Run step t ls u) :
      Run step s (l::ls) u

/-- Only those steps that meet a condition on the label and the state before. -/
def Guarded (guard : L → S → Prop) (step : L → S → S → Prop) (l : L) (s t : S) : Prop :=
  guard l s ∧ step l s t

/-- Only those steps that lead to a state with `P`. -/
def Keeping (P : S → Prop) (step : L → S → S → Prop) (l : L) (s t : S) : Prop :=
  step l s t ∧ P t

/-- A run through states with `P` alone. -/
def Within (P : S → Prop) (step : L → S → S → Prop) (s : S) (ls : List L) (t : S) : Prop :=
  P s ∧ Run (Keeping P step) s ls t

variable {step step' : L → S → S → Prop} {guard : L → S → Prop} {s t u : S} {ls ms : List L}

theorem run_cons_iff {l : L} : Run step s (l::ls) u ↔ ∃ t, step l s t ∧ Run step t ls u := by
  refine ⟨fun h => ?_,fun h => ?_⟩
  · cases h with
    | cons head tail => exact ⟨_,head,tail⟩
  · obtain ⟨t,head,tail⟩ := h
    exact .cons head tail

theorem run_append_iff : Run step s (ls ++ ms) u ↔ ∃ t, Run step s ls t ∧ Run step t ms u := by
  induction ls generalizing s with
  | nil =>
    refine ⟨fun h => ⟨s,.nil,h⟩,fun h => ?_⟩
    obtain ⟨t,hs,h⟩ := h
    cases hs
    exact h
  | cons l ls ih =>
    simp only [List.cons_append, run_cons_iff, ih]
    refine ⟨fun h => ?_,fun h => ?_⟩
    · obtain ⟨t,head,v,hls,hms⟩ := h
      exact ⟨v,⟨t,head,hls⟩,hms⟩
    · obtain ⟨v,⟨t,head,hls⟩,hms⟩ := h
      exact ⟨t,head,v,hls,hms⟩

theorem run_concat_iff {l : L} : Run step s (ls ++ [l]) u ↔ ∃ t, Run step s ls t ∧ step l t u := by
  rw [run_append_iff]
  refine exists_congr fun t => and_congr_right fun _ => ?_
  refine ⟨fun h => ?_,fun h => .cons h .nil⟩
  obtain ⟨v,head,tail⟩ := run_cons_iff.mp h
  cases tail
  exact head

theorem Run.mono (h : Run step s ls t) (hle : ∀ l s t, step l s t → step' l s t) :
    Run step' s ls t := by
  induction h with
  | nil => exact .nil
  | cons head _ ih => exact .cons (hle _ _ _ head) ih

theorem Run.guarded (h : Run step s ls t) (hguard : ∀ l ∈ ls, ∀ s, guard l s) :
    Run (Guarded guard step) s ls t := by
  induction h with
  | nil => exact .nil
  | cons head _ ih =>
    exact .cons ⟨hguard _ List.mem_cons_self _,head⟩
      (ih fun l hl => hguard l (List.mem_cons_of_mem _ hl))

/-- Steps that are determined make determined runs. -/
theorem Run.unique (h : Run step s ls t) (h' : Run step s ls u)
    (hstep : ∀ l s t u, step l s t → step l s u → t = u) : t = u := by
  induction h with
  | nil =>
    cases h'
    rfl
  | cons head tail ih =>
    cases h' with
    | cons head' tail' =>
      cases hstep _ _ _ _ head head'
      exact ih tail'

/-- What every step keeps, every run keeps. -/
theorem Run.invariant {I : S → Prop} (h : Run step s ls t) (hs : I s)
    (hstep : ∀ l s t, I s → step l s t → I t) : I t := by
  induction h with
  | nil => exact hs
  | cons head _ ih => exact ih (hstep _ _ _ hs head)

/-- Two kinds of step that agree where an invariant holds have the same runs. -/
theorem Run.congr {I : S → Prop} (hs : I s)
    (hstep : ∀ l s t, I s → (step l s t ↔ step' l s t))
    (hI : ∀ l s t, I s → step l s t → I t) : Run step s ls t ↔ Run step' s ls t := by
  induction ls generalizing s with
  | nil =>
    refine ⟨fun h => ?_,fun h => ?_⟩
    · cases h
      exact .nil
    · cases h
      exact .nil
  | cons l ls ih =>
    refine ⟨fun h => ?_,fun h => ?_⟩
    · cases h with
      | cons head tail =>
        exact .cons ((hstep _ _ _ hs).mp head) ((ih (hI _ _ _ hs head)).mp tail)
    · cases h with
      | cons head tail =>
        have head' := (hstep _ _ _ hs).mpr head
        exact .cons head' ((ih (hI _ _ _ hs head')).mpr tail)

/-- What every step keeps, given the labels so far, every run keeps. -/
theorem Run.history {I : List L → S → Prop} (h : Run step s ls t) (hs : I [] s)
    (hstep : ∀ ls l s t, I ls s → step l s t → I (ls ++ [l]) t) : I ls t := by
  induction ls using List.reverseRecOn generalizing t with
  | nil =>
    cases h
    exact hs
  | append_singleton ls l ih =>
    obtain ⟨u,hls,hl⟩ := run_concat_iff.mp h
    exact hstep ls l u t (ih hls) hl

/-- Where each step of a kind uses up some of what is left, a run has no more of them than that. -/
theorem Run.uses {I : S → Prop} {μ : S → ℕ} {p : L → Bool} (h : Run step s ls t) (hs : I s)
    (hI : ∀ l s t, I s → step l s t → I t)
    (hleft : ∀ l s t, I s → step l s t → (if p l then 1 else 0) + μ t ≤ μ s) :
    ls.countP p + μ t ≤ μ s := by
  induction h with
  | nil => simp
  | cons head _ ih =>
    have hrest := ih (hI _ _ _ hs head)
    have hstep := hleft _ _ _ hs head
    rw [List.countP_cons]
    omega

/-- A system that can follow every step of another can follow its runs. -/
theorem Run.simulate {S' : Type*} {stepped : L → S' → S' → Prop} {R : S → S' → Prop} {s' : S'}
    (h : Run step s ls t) (hs : R s s')
    (hstep : ∀ l s t s', R s s' → step l s t → ∃ t', stepped l s' t' ∧ R t t') :
    ∃ t', Run stepped s' ls t' ∧ R t t' := by
  induction h generalizing s' with
  | nil => exact ⟨s',.nil,hs⟩
  | cons head tail ih =>
    obtain ⟨u',hhead,hu⟩ := hstep _ _ _ _ hs head
    obtain ⟨t',htail,ht⟩ := ih hu
    exact ⟨t',.cons hhead htail,ht⟩

/-- A system that follows each step of another, or does not see it, follows its runs. -/
theorem Run.stuttering {S' L' : Type*} {stepped : L' → S' → S' → Prop} (f : S → S')
    (h : Run step s ls t)
    (hstep : ∀ l s t, step l s t → f t = f s ∨ ∃ l', stepped l' (f s) (f t)) :
    ∃ ls', Run stepped (f s) ls' (f t) := by
  induction h with
  | nil => exact ⟨[],.nil⟩
  | cons head _ ih =>
    obtain ⟨ls',htail⟩ := ih
    rcases hstep _ _ _ head with hunseen | ⟨l',hhead⟩
    · rw [hunseen] at htail
      exact ⟨ls',htail⟩
    · exact ⟨l'::ls',.cons hhead htail⟩

/-- Take the steps of a list of labels, where they are all possible. -/
def runAll (f : L → S → Option S) : List L → S → Option S
  | [], s => some s
  | l::ls, s => (f l s).bind (runAll f ls)

theorem run_of_runAll {f : L → S → Option S} (h : runAll f ls s = some t)
    (hf : ∀ l s t, f l s = some t → step l s t) : Run step s ls t := by
  induction ls generalizing s with
  | nil =>
    cases h
    exact .nil
  | cons l ls ih =>
    obtain ⟨u,hu,h⟩ := Option.bind_eq_some_iff.mp h
    exact .cons (hf _ _ _ hu) (ih h)

end Transition
