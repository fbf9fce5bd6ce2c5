import UninstallObserver.Lib.CallGraph
import UninstallObserver.Jce.ReaderLaws
import UninstallObserver.Jce.SkipFuel

/-! The calls that the code passing over fields makes, and how a call stops.

A configuration is a function about to run at a cursor. The three loops share one
shape: read a head, pass over its field, take another turn. -/
namespace UninstallObserver.Jce
open Imperative ByteOrder BufferReader Relation

variable {w : ℕ}

inductive Call where
  | tagLoop (tag : BitVec 8)
  | structEnd
  | field (t : HeadType)
  | fields (k : ℕ)
  deriving DecidableEq

abbrev Config (w : ℕ) := Call × BufferReader w

namespace Call

def run (n : ℕ) : Call → Decode w Unit
  | tagLoop tag => skipToTagLoop n tag >>= fun _ => pure ()
  | structEnd => skipToStructEnd n
  | field t => skipField n t
  | fields k => skipFields n k

/-- The next turn of a loop after a field of type `t`. -/
def next : Call → HeadType → Option Call
  | tagLoop tag, _ => some (tagLoop tag)
  | structEnd, t => if t = .eStructEnd then none else some structEnd
  | fields (k+1), _ => some (fields k)
  | fields 0, _ => none
  | field _, _ => none

theorem run_stable (c : Call) : Exec.Stable fun n => c.run (w := w) n := by
  cases c with
  | tagLoop tag => exact fun n => (skipToTagLoop_stable tag n).bind fun _ => .refl _
  | structEnd => exact skipToStructEnd_stable
  | field t => exact skipField_stable t
  | fields k => exact skipFields_stable k

end Call

/-- A loop turn that reads the head of a field of type `t` and passes over it from `s`. -/
inductive Enters : Call → BufferReader w → HeadType → BufferReader w → Prop
  | tagLoop {tag : BitVec 8} {r : BufferReader w} {h : DataHead} {len : BitVec w}
      (more : ¬ r.bufLen ≤ r.cur) (head : DataHead.peekFrom r = .returned (h,len) r)
      (pass : ¬ (tag ≤ h.tag ∨ h.type = .eStructEnd)) :
      Enters (.tagLoop tag) r h.type { r with cur := r.cur + len }
  | structEnd {r s : BufferReader w} {h : DataHead}
      (head : DataHead.readFrom r = .returned h s) : Enters .structEnd r h.type s
  | fields {k : ℕ} {r s : BufferReader w} {h : DataHead}
      (head : DataHead.readFrom r = .returned h s) : Enters (.fields (k+1)) r h.type s

/-- `Calls c d`: the code at `c` goes on to run at `d`. -/
inductive Calls : Config w → Config w → Prop
  | element {c : Call} {r s : BufferReader w} {t : HeadType} (turn : Enters c r t s) :
      Calls (c,r) (.field t,s)
  | again {c c' : Call} {r s u : BufferReader w} {t : HeadType} {n : ℕ} (turn : Enters c r t s)
      (passed : skipField n t s = .returned () u) (more : c.next t = some c') :
      Calls (c,r) (c',u)
  | struct {r : BufferReader w} : Calls (.field .eStructBegin,r) (.structEnd,r)
  | map {r s : BufferReader w} {size : BitVec 32} {n : ℕ}
      (sized : readInt32 n 0 0 true r = .returned size s) :
      Calls (.field .eMap,r) (.fields (size*2).toInt.toNat,s)
  | list {r s : BufferReader w} {size : BitVec 32} {n : ℕ}
      (sized : readInt32 n 0 0 true r = .returned size s) :
      Calls (.field .eList,r) (.fields size.toInt.toNat,s)

/-- The head of the next turn itself stops the code. -/
def HeadStops (k : Exec.Stop) : Call → BufferReader w → Prop
  | .tagLoop _, r => ¬ r.bufLen ≤ r.cur ∧ DataHead.peekFrom r = k.outcome
  | .structEnd, r => DataHead.readFrom r = k.outcome
  | .fields (_+1), r => DataHead.readFrom r = k.outcome
  | .fields 0, _ => False
  | .field _, _ => False

/-- What a turn does after its head: pass over the field, then take the next turn. -/
def TurnStops (k : Exec.Stop) (n : ℕ) (c : Call) (r : BufferReader w) : Prop :=
  ∃ t s, Enters c r t s ∧ (skipField n t s = k.outcome ∨
    ∃ u c', skipField n t s = .returned () u ∧ c.next t = some c' ∧ c'.run n u = k.outcome)

section Stops
variable {k : Exec.Stop} {n : ℕ} {r : BufferReader w}

theorem structEnd_stops : (Call.structEnd).run (n+1) r = k.outcome ↔
    HeadStops k .structEnd r ∨ TurnStops k n .structEnd r := by
  rw [Call.run, skipToStructEnd, Exec.bind_eq_stop]
  constructor
  · intro h
    rcases h with h | ⟨h,s,hh,hs⟩
    · exact .inl h
    · refine .inr ⟨h.type,s,.structEnd hh,?_⟩
      rcases Exec.bind_eq_stop.mp hs with hs | ⟨⟨⟩,u,hf,hu⟩
      · exact .inl hs
      · rw [Exec.ite_apply] at hu
        split at hu
        · simp at hu
        · next ht => exact .inr ⟨u,.structEnd,hf,by simp [Call.next, ht],hu⟩
  · intro h
    rcases h with h | ⟨t,s,hh,hs⟩
    · exact .inl h
    · cases hh with
      | structEnd hh =>
        refine .inr ⟨_,s,hh,Exec.bind_eq_stop.mpr ?_⟩
        rcases hs with hs | ⟨u,c,hf,hc,hu⟩
        · exact .inl hs
        · refine .inr ⟨(),u,hf,?_⟩
          simp only [Call.next, Option.ite_none_left_eq_some] at hc
          obtain ⟨ht,hc⟩ := hc
          cases hc
          rw [if_neg ht]
          exact hu

theorem fields_stops {m : ℕ} : (Call.fields m).run (n+1) r = k.outcome ↔
    HeadStops k (.fields m) r ∨ TurnStops k n (.fields m) r := by
  cases m with
  | zero =>
    rw [Call.run, skipFields]
    simp only [Exec.pure_apply, Exec.Stop.returned_ne_outcome, false_iff]
    intro h
    rcases h with h | ⟨t,s,hh,_⟩
    · exact h
    · cases hh
  | succ m =>
    rw [Call.run, skipFields, Exec.bind_eq_stop]
    constructor
    · intro h
      rcases h with h | ⟨h,s,hh,hs⟩
      · exact .inl h
      · refine .inr ⟨h.type,s,.fields hh,?_⟩
        rcases Exec.bind_eq_stop.mp hs with hs | ⟨⟨⟩,u,hf,hu⟩
        · exact .inl hs
        · exact .inr ⟨u,.fields m,hf,rfl,hu⟩
    · intro h
      rcases h with h | ⟨t,s,hh,hs⟩
      · exact .inl h
      · cases hh with
        | fields hh =>
          refine .inr ⟨_,s,hh,Exec.bind_eq_stop.mpr ?_⟩
          rcases hs with hs | ⟨u,c,hf,hc,hu⟩
          · exact .inl hs
          · cases hc
            exact .inr ⟨(),u,hf,hu⟩

theorem tagLoop_stops {tag : BitVec 8} : (Call.tagLoop tag).run (n+1) r = k.outcome ↔
    HeadStops k (.tagLoop tag) r ∨ TurnStops k n (.tagLoop tag) r := by
  have hrun : (Call.tagLoop tag).run (n+1) r = k.outcome ↔
      skipToTagLoop (n+1) tag r = k.outcome := by
    rw [Call.run, Exec.bind_eq_stop]
    simp
  rw [hrun, skipToTagLoop, Exec.bind_eq_stop]
  constructor
  · intro h
    rcases h with h | ⟨atEnd,s,he,hs⟩
    · simp [hasEnd] at h
    cases he
    rw [Exec.ite_apply] at hs
    split at hs
    · simp at hs
    next hmore =>
    have hmore : ¬ r.bufLen ≤ r.cur := by simpa using hmore
    rcases Exec.bind_eq_stop.mp hs with hs | ⟨⟨h,len⟩,s,hp,hturn⟩
    · exact .inl ⟨hmore,hs⟩
    obtain rfl := (peekFrom_still r).1 _ s hp
    dsimp only at hturn
    rw [Exec.ite_apply] at hturn
    split at hturn
    · simp at hturn
    next hpass =>
    refine .inr ⟨h.type,_,.tagLoop hmore hp hpass,?_⟩
    rw [Exec.bind_of_returned (show skip len r = _ from rfl)] at hturn
    rcases Exec.bind_eq_stop.mp hturn with hf | ⟨⟨⟩,u,hf,hu⟩
    · exact .inl hf
    · exact .inr ⟨u,.tagLoop tag,hf,rfl,Exec.bind_eq_stop.mpr (.inl hu)⟩
  · intro hs
    have hmore : ¬ r.bufLen ≤ r.cur := by
      rcases hs with hs | ⟨t,s,hh,_⟩
      · exact hs.1
      · cases hh with
        | tagLoop hmore => exact hmore
    refine .inr ⟨false,r,by simp [hasEnd, hmore],?_⟩
    rw [if_neg (by simp)]
    apply Exec.bind_eq_stop.mpr
    rcases hs with ⟨_,hs⟩ | ⟨t,s,hh,hs⟩
    · exact .inl hs
    · cases hh with
      | @tagLoop _ _ h len _ hp hpass =>
        refine .inr ⟨(h,len),r,hp,?_⟩
        dsimp only
        rw [if_neg hpass, Exec.bind_of_returned (show skip len r = _ from rfl)]
        apply Exec.bind_eq_stop.mpr
        rcases hs with hf | ⟨u,c,hf,hc,hu⟩
        · exact .inl hf
        · cases hc
          refine .inr ⟨(),u,hf,?_⟩
          rw [Call.run, Exec.bind_eq_stop] at hu
          simpa using hu

/-- How a loop stops: at a head, or in the turn that follows. -/
theorem loop_stops {c : Call} (hc : ∀ t, c ≠ .field t) : c.run (n+1) r = k.outcome ↔
    HeadStops k c r ∨ TurnStops k n c r := by
  cases c with
  | tagLoop tag => exact tagLoop_stops
  | structEnd => exact structEnd_stops
  | field t => exact absurd rfl (hc t)
  | fields m => exact fields_stops

end Stops
section Fuel
variable {n : ℕ} {r s : BufferReader w}

theorem skipToTagLoop_zero_fuelless :
    Exec.Fuelless (skipToTagLoop (w := w) (n+1) 0) :=
  skipToTagLoop_zero_inherits fuelless_inherited.toCompositional fuelless_inherited.hasEnd
    peekFrom_fuelless

theorem skipToTag_zero_fuelless : Exec.Fuelless (skipToTag (w := w) (n+2) 0) := by
  intro r h
  have hp : ∀ s, (pure false : Decode w Bool) s ≠ Exec.Stop.outcome .outOfFuel := by simp
  exact skipToTagLoop_zero_fuelless r ((Exec.catchIf_eq_stop (k := .outOfFuel) hp).mp h)

theorem readInt32_zero_fuelless (old : BitVec 32) (isRequire : Bool) :
    Exec.Fuelless (readInt32 (w := w) (n+3) old 0 isRequire) :=
  readField_inherits fuelless_inherited.wordwise skipToTag_zero_fuelless
    (int32Switch_inherits fuelless_inherited.wordwise)

theorem Enters.unique {c : Call} {t t' : HeadType} {s' : BufferReader w} (h : Enters c r t s)
    (h' : Enters c r t' s') : t = t' ∧ s = s' := by
  cases h with
  | tagLoop _ hp _ =>
    cases h' with
    | tagLoop _ hp' _ =>
      rw [hp] at hp'
      cases hp'
      exact ⟨rfl,rfl⟩
  | structEnd hp =>
    cases h' with
    | structEnd hp' =>
      rw [hp] at hp'
      cases hp'
      exact ⟨rfl,rfl⟩
  | fields hp =>
    cases h' with
    | fields hp' =>
      rw [hp] at hp'
      cases hp'
      exact ⟨rfl,rfl⟩

theorem Enters.ne_field {c : Call} {t : HeadType} (h : Enters c r t s) (t' : HeadType) :
    c ≠ .field t' := by
  cases h <;> simp

theorem not_headStops_outOfFuel (c : Call) (r : BufferReader w) :
    ¬ HeadStops .outOfFuel c r := by
  cases c with
  | tagLoop tag => exact fun h => peekFrom_fuelless r h.2
  | structEnd => exact readFrom_fuelless r
  | field t => exact id
  | fields k =>
    cases k with
    | zero => exact id
    | succ k => exact readFrom_fuelless r

theorem run_zero (c : Call) : c.run 0 r = .outOfFuel := by
  cases c <;> rfl

/-- `n` units of fuel are enough at a configuration. -/
def Done (n : ℕ) (c : Config w) : Prop := c.1.run n c.2 ≠ .outOfFuel

/-- A sub-call on `n` units has the outcome it has on any other sufficient amount. -/
theorem eq_or_outOfFuel {α : Type} {f : ℕ → Decode w α} (hf : Exec.Stable f) {m : ℕ} {a : α}
    (hm : f m r = .returned a s) (n : ℕ) : f n r = .outOfFuel ∨ f n r = .returned a s := by
  by_cases hn : f n r = .outOfFuel
  · exact .inl hn
  · right
    rw [← hm]
    exact hf.eq_of_ne hn (by rw [hm]; simp)

theorem done_callee {c d : Config w} (h : Done (n+1) c) (hc : Calls c d) : Done n d := by
  intro hd
  apply h
  cases hc with
  | @element c r s t turn =>
    exact (loop_stops (k := .outOfFuel) turn.ne_field).mpr (.inr ⟨t,s,turn,.inl hd⟩)
  | @again c c' r s u t m turn passed more =>
    apply (loop_stops (k := .outOfFuel) turn.ne_field).mpr
    rcases eq_or_outOfFuel (skipField_stable t) passed n with hn | hn
    · exact .inr ⟨t,s,turn,.inl hn⟩
    · exact .inr ⟨t,s,turn,.inr ⟨u,c',hn,more,hd⟩⟩
  | struct => exact hd
  | @map r s size m sized =>
    rcases eq_or_outOfFuel (readInt32_stable 0 0 true) sized n with hn | hn
    · exact Exec.bind_of_outOfFuel hn
    · exact (Exec.bind_of_returned hn).trans hd
  | @list r s size m sized =>
    rcases eq_or_outOfFuel (readInt32_stable 0 0 true) sized n with hn | hn
    · exact Exec.bind_of_outOfFuel hn
    · exact (Exec.bind_of_returned hn).trans hd

theorem loop_done {c : Call} (hc : ∀ t, c ≠ .field t)
    (h : ∀ d, Calls (c,r) d → ∃ n, Done n d) : ∃ n, Done n (c,r) := by
  by_cases hturn : ∃ t s, Enters c r t s
  · obtain ⟨t,s,turn⟩ := hturn
    obtain ⟨n,hn⟩ := h _ (.element turn)
    have hagain : ∃ m, ∀ u c', skipField n t s = .returned () u → c.next t = some c' →
        c'.run m u ≠ .outOfFuel := by
      by_cases hu : ∃ u c', skipField n t s = .returned () u ∧ c.next t = some c'
      · obtain ⟨u,c',hu,hc'⟩ := hu
        obtain ⟨m,hm⟩ := h _ (.again turn hu hc')
        refine ⟨m,fun u' c'' hu' hc'' => ?_⟩
        rw [hu] at hu'
        rw [hc'] at hc''
        cases hu'
        cases hc''
        exact hm
      · exact ⟨0,fun u c' hu' hc' => absurd ⟨u,c',hu',hc'⟩ hu⟩
    obtain ⟨m,hm⟩ := hagain
    refine ⟨max n m+1,fun hstop => ?_⟩
    have hfield : skipField (max n m) t s = skipField n t s :=
      (((skipField_stable t).le (Nat.le_max_left n m)) s).eq hn
    rcases (loop_stops (k := .outOfFuel) hc).mp hstop with hh | ⟨t',s',turn',hs⟩
    · exact not_headStops_outOfFuel c r hh
    · obtain ⟨rfl,rfl⟩ := turn.unique turn'
      rw [hfield] at hs
      rcases hs with hs | ⟨u,c',hu,hc',hrun⟩
      · exact hn hs
      · exact c'.run_stable.ne_of_le (Nat.le_max_right n m) (hm u c' hu hc') hrun
  · refine ⟨1,fun hstop => ?_⟩
    rcases (loop_stops (k := .outOfFuel) hc).mp hstop with hh | ⟨t,s,turn,_⟩
    · exact not_headStops_outOfFuel c r hh
    · exact hturn ⟨t,s,turn⟩

/-- The size is read on three units of fuel; what follows it needs `h`. -/
theorem sized_done {f : BitVec 32 → ℕ} {t : HeadType}
    (ht : ∀ n, skipField (w := w) (n+1) t =
      readInt32 n 0 0 true >>= fun size => skipFields n (f size))
    (h : ∀ m size s, readInt32 m 0 0 true r = .returned size s →
      ∃ n, Done n (.fields (f size),s)) : ∃ n, Done n (.field t,r) := by
  have hthree := readInt32_zero_fuelless (n := 0) 0 true r
  by_cases hs : ∃ size s, readInt32 3 0 0 true r = .returned size s
  · obtain ⟨size,s,hs⟩ := hs
    obtain ⟨n,hn⟩ := h 3 size s hs
    refine ⟨max 3 n+1,fun hstop => ?_⟩
    have hsize : readInt32 (max 3 n) 0 0 true r = .returned size s :=
      ((((readInt32_stable 0 0 true).le (Nat.le_max_left 3 n)) r).eq hthree).trans hs
    change skipField (max 3 n+1) t r = .outOfFuel at hstop
    rw [ht, Exec.bind_of_returned hsize] at hstop
    exact (skipFields_stable _).ne_of_le (Nat.le_max_right 3 n) hn hstop
  · refine ⟨4,fun hstop => ?_⟩
    change skipField (3+1) t r = .outOfFuel at hstop
    rw [ht] at hstop
    rcases Exec.bind_eq_outOfFuel.mp hstop with hr | ⟨size,s,hr,_⟩
    · exact hthree hr
    · exact hs ⟨size,s,hr⟩

theorem field_done {t : HeadType} (h : ∀ d, Calls (.field t,r) d → ∃ n, Done n d) :
    ∃ n, Done n (.field t,r) := by
  cases t with
  | eMap => exact sized_done (fun _ => rfl) fun m size s hs => h _ (.map hs)
  | eList => exact sized_done (fun _ => rfl) fun m size s hs => h _ (.list hs)
  | eStructBegin =>
    obtain ⟨n,hn⟩ := h _ .struct
    exact ⟨n+1,hn⟩
  | eSimpleList =>
    refine ⟨4,?_⟩
    exact (readFrom_fuelless.bind fun h => .ite (.throw _)
      ((readInt32_zero_fuelless 0 true).bind fun _ => .modify _)) r
  | eString1 => exact ⟨1,((readByType_fuelless 1 8).bind fun _ => .modify _) r⟩
  | eString4 => exact ⟨1,((readByType_fuelless 4 32).bind fun _ => .modify _) r⟩
  | eStructEnd => exact ⟨1,Exec.Fuelless.pure () r⟩
  | eZeroTag => exact ⟨1,Exec.Fuelless.pure () r⟩
  | unused14 => exact ⟨1,Exec.Fuelless.throw _ r⟩
  | unused15 => exact ⟨1,Exec.Fuelless.throw _ r⟩
  | _ => exact ⟨1,fun hstop => skip_fuelless _ r hstop⟩

/-- The functions that pass over fields form a recursion with these calls. -/
theorem recursion : CallGraph.Recursion (Calls (w := w)) Done where
  zero c h := h (run_zero c.1)
  callee := done_callee
  caller := by
    rintro ⟨c,r⟩ h
    cases c with
    | field t => exact field_done h
    | tagLoop tag => exact loop_done (by simp) h
    | structEnd => exact loop_done (by simp) h
    | fields k => exact loop_done (by simp) h

end Fuel
end UninstallObserver.Jce
