import UninstallObserver.Jce.Skip

/-! More fuel never changes the outcome of passing over fields. -/
namespace UninstallObserver.Jce
open Imperative ByteOrder BufferReader

variable {w : ℕ} {α : Type}

theorem readField_approx {found found' : Decode w Bool} (h : Exec.Approx found found')
    (isRequire : Bool) (missing : String) (old : α) (switch : HeadType → Decode w α) :
    Exec.Approx (readField found isRequire missing old switch)
      (readField found' isRequire missing old switch) :=
  h.bind fun _ => .refl _

/-- One more unit of fuel changes nothing that `n` units decide. -/
structure FuelStep (w n : ℕ) : Prop where
  tagLoop : ∀ tag, Exec.Approx (skipToTagLoop (w := w) n tag) (skipToTagLoop (n+1) tag)
  toTag : ∀ tag, Exec.Approx (skipToTag (w := w) n tag) (skipToTag (n+1) tag)
  structEnd : Exec.Approx (skipToStructEnd (w := w) n) (skipToStructEnd (n+1))
  field : ∀ t, Exec.Approx (skipField (w := w) n t) (skipField (n+1) t)
  fields : ∀ k, Exec.Approx (skipFields (w := w) n k) (skipFields (n+1) k)
  int32 : ∀ old tag req,
    Exec.Approx (readInt32 (w := w) n old tag req) (readInt32 (n+1) old tag req)

theorem fuelStep_zero : FuelStep w 0 where
  tagLoop _ := .outOfFuel _
  toTag _ := .outOfFuel _
  structEnd := .outOfFuel _
  field _ := .outOfFuel _
  fields _ := .outOfFuel _
  int32 _ _ _ := .outOfFuel _

theorem skipToTagLoop_step {n : ℕ} (ih : FuelStep w n) (tag : BitVec 8) :
    Exec.Approx (skipToTagLoop (w := w) (n+1) tag) (skipToTagLoop (n+2) tag) := by
  rw [skipToTagLoop,skipToTagLoop]
  refine (Exec.Approx.refl _).bind fun atEnd => .ite (.refl _) ?_
  refine (Exec.Approx.refl _).bind fun (h,len) => .ite (.refl _) ?_
  refine (Exec.Approx.refl _).bind fun _ => ?_
  exact (ih.field h.type).bind fun _ => ih.tagLoop tag

theorem skipToStructEnd_step {n : ℕ} (ih : FuelStep w n) :
    Exec.Approx (skipToStructEnd (w := w) (n+1)) (skipToStructEnd (n+2)) := by
  rw [skipToStructEnd,skipToStructEnd]
  refine (Exec.Approx.refl _).bind fun h => ?_
  exact (ih.field h.type).bind fun _ => .ite (.refl _) ih.structEnd

theorem skipField_step {n : ℕ} (ih : FuelStep w n) (t : HeadType) :
    Exec.Approx (skipField (w := w) (n+1) t) (skipField (n+2) t) := by
  rw [skipField.eq_def,skipField.eq_def (n+2)]
  cases t with
  | eMap => exact (ih.int32 0 0 true).bind fun size => ih.fields _
  | eList => exact (ih.int32 0 0 true).bind fun size => ih.fields _
  | eSimpleList =>
    refine (Exec.Approx.refl _).bind fun h => .ite (.refl _) ?_
    exact (ih.int32 0 0 true).bind fun size => .refl _
  | eStructBegin => exact ih.structEnd
  | _ => exact .refl _

theorem skipFields_step {n : ℕ} (ih : FuelStep w n) (k : ℕ) :
    Exec.Approx (skipFields (w := w) (n+1) k) (skipFields (n+2) k) := by
  cases k with
  | zero => exact .refl _
  | succ k =>
    rw [skipFields,skipFields]
    refine (Exec.Approx.refl _).bind fun h => ?_
    exact (ih.field h.type).bind fun _ => ih.fields k

theorem fuelStep (n : ℕ) : FuelStep w n := by
  induction n with
  | zero => exact fuelStep_zero
  | succ n ih => exact {
      tagLoop := skipToTagLoop_step ih
      toTag := fun tag => (ih.tagLoop tag).catchIf
      structEnd := skipToStructEnd_step ih
      field := skipField_step ih
      fields := skipFields_step ih
      int32 := fun old tag req => readField_approx (ih.toTag tag) _ _ _ _ }

theorem skipToTagLoop_stable (tag : BitVec 8) :
    Exec.Stable fun n => skipToTagLoop (w := w) n tag := fun n => (fuelStep n).tagLoop tag
theorem skipToTag_stable (tag : BitVec 8) :
    Exec.Stable fun n => skipToTag (w := w) n tag := fun n => (fuelStep n).toTag tag
theorem skipToStructEnd_stable : Exec.Stable (skipToStructEnd (w := w)) :=
  fun n => (fuelStep n).structEnd
theorem skipField_stable (t : HeadType) : Exec.Stable fun n => skipField (w := w) n t :=
  fun n => (fuelStep n).field t
theorem skipFields_stable (k : ℕ) : Exec.Stable fun n => skipFields (w := w) n k :=
  fun n => (fuelStep n).fields k
theorem readInt32_stable (old : BitVec 32) (tag : BitVec 8) (isRequire : Bool) :
    Exec.Stable fun n => readInt32 (w := w) n old tag isRequire :=
  fun n => (fuelStep n).int32 old tag isRequire

end UninstallObserver.Jce
