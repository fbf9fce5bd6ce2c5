import Mathlib.Logic.Relation
import UninstallObserver.Jce.GuardedReads

/-! Rows of fields, as a reader goes through them and as `skipField` does. Inside a struct
what `skipField` leaves of a list or map it comes to as further members. -/
namespace UninstallObserver.Jce
open Imperative ByteOrder BufferReader Relation

variable {w : ℕ} {n : ℕ} {tag : BitVec 8} {r s u : BufferReader w}

section Over

/-- `skipField()` goes from `r` to `s`. -/
abbrev Skips (r s : BufferReader w) : Prop := Exec.Ends skipFieldWithHead r (.returned () s)

theorem skips_iff : Skips r s ↔ ∃ h t, DataHead.readFrom r = .returned h t ∧
    Exec.Ends (fun n => skipField n h.type) t (.returned () s) := by
  constructor
  · intro h
    obtain ⟨-,n,hn⟩ := h
    obtain ⟨h,t,ht,hs⟩ := Exec.bind_eq_returned.mp hn
    exact ⟨h,t,ht,by simp,n,hs⟩
  · intro h
    obtain ⟨h,t,ht,-,n,hs⟩ := h
    exact ⟨by simp,n,(Exec.bind_of_returned ht).trans hs⟩

theorem skipFieldWithHead_stable : Exec.Stable (skipFieldWithHead (w := w)) :=
  (Exec.Stable.const _).bind fun h => skipField_stable h.type

theorem Skips.unique (h : Skips r s) (h' : Skips r u) : s = u := by
  cases Exec.Ends.unique h h' skipFieldWithHead_stable
  rfl

/-- A field, not the end of a struct, lies between `r` and `s`. -/
structure Over (r s : BufferReader w) : Prop where
  skips : Skips r s
  head : ∃ h t, DataHead.readFrom r = .returned h t ∧ h.type ≠ .eStructEnd

/-- The walk to the end of a struct goes from `r` to `s`. -/
abbrev Closes (r s : BufferReader w) : Prop := Exec.Ends skipToStructEnd r (.returned () s)

theorem Over.closes_iff (h : Over r u) : Closes r s ↔ Closes u s := by
  obtain ⟨hskip,head,t,ht,htype⟩ := h
  obtain ⟨head',t',ht',hpass⟩ := skips_iff.mp hskip
  rw [ht] at ht'
  cases ht'
  constructor
  · intro h
    obtain ⟨n,hn⟩ := h.succ rfl
    rw [skipToStructEnd,Exec.bind_of_returned ht] at hn
    obtain ⟨⟨⟩,v,hv,hn⟩ := Exec.bind_eq_returned.mp hn
    cases hpass.unique ⟨by simp,n,hv⟩ (skipField_stable _)
    rw [if_neg htype] at hn
    exact ⟨by simp,n,hn⟩
  · intro h
    obtain ⟨n,hn⟩ := hpass.forall_ge (skipField_stable _)
    obtain ⟨m,hm⟩ := h.forall_ge skipToStructEnd_stable
    refine ⟨by simp,max n m + 1,?_⟩
    rw [skipToStructEnd,Exec.bind_of_returned ht,
      Exec.bind_of_returned (hn _ (Nat.le_max_left n m)),if_neg htype]
    exact hm _ (Nat.le_max_right n m)

/-- What begins with a field is closed only if that field can be passed over. -/
theorem Closes.skips (h : Closes r s) : ∃ u, Skips r u := by
  obtain ⟨n,hn⟩ := h.succ rfl
  rw [skipToStructEnd] at hn
  obtain ⟨head,t,ht,hn⟩ := Exec.bind_eq_returned.mp hn
  obtain ⟨⟨⟩,u,hu,-⟩ := Exec.bind_eq_returned.mp hn
  exact ⟨u,skips_iff.mpr ⟨head,t,ht,by simp,n,hu⟩⟩

/-- The `for` loop over `skipField()` passes over `k` fields from `r` to `s`. -/
abbrev SkipsAll (k : ℕ) (r s : BufferReader w) : Prop :=
  Exec.Ends (fun n => skipFields n k) r (.returned () s)

theorem skipsAll_zero : SkipsAll 0 r s ↔ s = r := by
  constructor
  · intro h
    obtain ⟨n,hn⟩ := h.succ rfl
    cases hn
    rfl
  · intro h
    subst h
    exact ⟨by simp,1,rfl⟩

theorem skipsAll_succ {k : ℕ} : SkipsAll (k+1) r s ↔ ∃ u, Skips r u ∧ SkipsAll k u s := by
  constructor
  · intro h
    obtain ⟨n,hn⟩ := h.succ rfl
    rw [skipFields] at hn
    obtain ⟨head,t,ht,hn⟩ := Exec.bind_eq_returned.mp hn
    obtain ⟨⟨⟩,u,hu,hn⟩ := Exec.bind_eq_returned.mp hn
    exact ⟨u,skips_iff.mpr ⟨head,t,ht,by simp,n,hu⟩,by simp,n,hn⟩
  · intro h
    obtain ⟨u,hskip,hall⟩ := h
    obtain ⟨head,t,ht,hpass⟩ := skips_iff.mp hskip
    obtain ⟨n,hn⟩ := hpass.forall_ge (skipField_stable _)
    obtain ⟨m,hm⟩ := hall.forall_ge (skipFields_stable k)
    refine ⟨by simp,max n m + 1,?_⟩
    dsimp only
    rw [skipFields,Exec.bind_of_returned ht,Exec.bind_of_returned (hn _ (Nat.le_max_left n m))]
    exact hm _ (Nat.le_max_right n m)

theorem skipsAll_add {i j : ℕ} :
    SkipsAll (i+j) r s ↔ ∃ u, SkipsAll i r u ∧ SkipsAll j u s := by
  induction i generalizing r with
  | zero => simp [skipsAll_zero]
  | succ i ih =>
    rw [Nat.add_right_comm,skipsAll_succ]
    simp only [ih, skipsAll_succ]
    constructor
    · intro h
      obtain ⟨v,hv,u,hu,hs⟩ := h
      exact ⟨u,⟨v,hv,hu⟩,hs⟩
    · intro h
      obtain ⟨u,⟨v,hv,hu⟩,hs⟩ := h
      exact ⟨v,hv,u,hu,hs⟩

/-- `skipField` passes over a list or a map by its size. -/
theorem skipField_sized {f : BitVec 32 → ℕ} {t : HeadType} (ht : ∀ n, skipField (w := w) (n+1) t =
      readInt32 n 0 0 true >>= fun size => skipFields n (f size)) :
    Exec.Ends (fun n => skipField n t) r (.returned () s) ↔
      ∃ size u, Exec.Ends (fun n => readInt32 n 0 0 true) r (.returned size u) ∧
        SkipsAll (f size) u s := by
  refine Iff.trans ?_ (Exec.ends_bind_returned_iff (readInt32_stable 0 0 true)
    fun size => skipFields_stable (f size))
  constructor
  · intro h
    obtain ⟨n,hn⟩ := h.succ rfl
    exact ⟨by simp,n,(congrFun (ht n) r).symm.trans hn⟩
  · intro h
    obtain ⟨-,n,hn⟩ := h
    exact ⟨by simp,n+1,(congrFun (ht n) r).trans hn⟩

end Over

section Rows

/-- A list or map begins at `r`, in which `skipField` counts `c` fields from `u` on. -/
inductive Opens : ℕ → BufferReader w → BufferReader w → Prop
  | list {r t u : BufferReader w} {h : DataHead} {size : BitVec 32}
      (head : DataHead.readFrom r = .returned h t) (type : h.type = .eList)
      (sized : Exec.Ends (fun n => readInt32 n 0 0 true) t (.returned size u)) :
      Opens size.toInt.toNat r u
  | map {r t u : BufferReader w} {h : DataHead} {size : BitVec 32}
      (head : DataHead.readFrom r = .returned h t) (type : h.type = .eMap)
      (sized : Exec.Ends (fun n => readInt32 n 0 0 true) t (.returned size u)) :
      Opens (size*2).toInt.toNat r u

theorem Opens.skips_iff {c : ℕ} (h : Opens c r u) : Skips r s ↔ SkipsAll c u s := by
  have hsized : ∀ {head : DataHead} {t : BufferReader w} {size : BitVec 32} {f : BitVec 32 → ℕ},
      DataHead.readFrom r = .returned head t →
      (∀ n, skipField (w := w) (n+1) head.type =
        readInt32 n 0 0 true >>= fun size => skipFields n (f size)) →
      Exec.Ends (fun n => readInt32 n 0 0 true) t (.returned size u) →
      (Skips r s ↔ SkipsAll (f size) u s) := by
    intro head t size f ht hf hsize
    rw [UninstallObserver.Jce.skips_iff]
    constructor
    · intro h
      obtain ⟨head',t',ht',hpass⟩ := h
      cases ht.symm.trans ht'
      obtain ⟨size',u',hsize',hall⟩ := (skipField_sized hf).mp hpass
      cases hsize.unique hsize' (readInt32_stable 0 0 true)
      exact hall
    · intro h
      exact ⟨head,t,ht,(skipField_sized hf).mpr ⟨size,u,hsize,h⟩⟩
  cases h with
  | list head type sized => exact hsized head (fun _ => by rw [type]; rfl) sized
  | map head type sized => exact hsized head (fun _ => by rw [type]; rfl) sized

theorem Opens.passed {c : ℕ} (h : Opens c r u) (hs : SkipsAll c u s) : Over r s := by
  refine ⟨h.skips_iff.mpr hs,?_⟩
  cases h with
  | list head type _ => exact ⟨_,_,head,by rw [type]; simp⟩
  | map head type _ => exact ⟨_,_,head,by rw [type]; simp⟩

/-- A row of `k` fields from `r` to `s`. What a list or map holds may be part of the row
that it stands in, as long as `skipField` counts no more of it, and outside any struct
no less. -/
inductive Row (outer : Bool) : ℕ → BufferReader w → BufferReader w → Prop
  | nil {r : BufferReader w} : Row outer 0 r r
  | field {k : ℕ} {r u s : BufferReader w} (passed : Over r u) (rest : Row outer k u s) :
      Row outer (k+1) r s
  | container {c m k : ℕ} {r u s : BufferReader w} (opens : Opens c r u) (le : c ≤ m)
      (counted : outer → c = m) (rest : Row outer (m+k) u s) : Row outer (k+1) r s

namespace Row
variable {outer : Bool} {i j k : ℕ}

theorem append (h : Row outer i r u) (h' : Row outer j u s) : Row outer (i+j) r s := by
  induction h with
  | nil => simpa using h'
  | field passed _ ih =>
    rw [Nat.add_right_comm]
    exact .field passed (ih h')
  | container opens le counted _ ih =>
    rw [Nat.add_right_comm]
    refine .container opens le counted ?_
    rw [← Nat.add_assoc]
    exact ih h'

theorem single (h : Over r s) : Row outer 1 r s := .field h .nil

theorem of_overs (h : ReflTransGen Over r s) : ∃ k, Row outer k r s := by
  induction h with
  | refl => exact ⟨0,.nil⟩
  | tail _ hlast ih =>
    obtain ⟨k,hk⟩ := ih
    exact ⟨k+1,hk.append (single hlast)⟩

/-- Outside any struct a row is passed over field by field. -/
theorem skipsAll (h : Row true k r s) : SkipsAll k r s := by
  induction h with
  | nil => exact skipsAll_zero.mpr rfl
  | field passed _ ih => exact skipsAll_succ.mpr ⟨_,passed.skips,ih⟩
  | container opens _ counted _ ih =>
    obtain ⟨v,hv,hrest⟩ := skipsAll_add.mp ih
    rw [← counted rfl] at hv
    exact skipsAll_succ.mpr ⟨v,opens.skips_iff.mpr hv,hrest⟩

/-- Wherever in a row `skipField` has come to, the walk to the end of the struct takes it
through what is left. -/
theorem closes {x : BufferReader w} (h : Row outer k r s) (hclose : Closes s x) :
    ∀ j ≤ k, ∃ u, SkipsAll j r u ∧ Closes u x := by
  induction h with
  | nil =>
    intro j hj
    obtain rfl := Nat.le_zero.mp hj
    exact ⟨_,skipsAll_zero.mpr rfl,hclose⟩
  | field passed _ ih =>
    intro j hj
    cases j with
    | zero =>
      obtain ⟨v,hv,hend⟩ := ih hclose 0 (Nat.zero_le _)
      obtain rfl := skipsAll_zero.mp hv
      exact ⟨_,skipsAll_zero.mpr rfl,passed.closes_iff.mpr hend⟩
    | succ j =>
      obtain ⟨v,hv,hend⟩ := ih hclose j (by omega)
      exact ⟨v,skipsAll_succ.mpr ⟨_,passed.skips,hv⟩,hend⟩
  | @container c m _ _ _ _ opens le _ _ ih =>
    intro j hj
    cases j with
    | zero =>
      obtain ⟨v,hv,hend⟩ := ih hclose c (by omega)
      exact ⟨_,skipsAll_zero.mpr rfl,(opens.passed hv).closes_iff.mpr hend⟩
    | succ j =>
      obtain ⟨v,hv,hend⟩ := ih hclose (c+j) (by omega)
      obtain ⟨y,hy,hrest⟩ := skipsAll_add.mp hv
      exact ⟨v,skipsAll_succ.mpr ⟨y,opens.skips_iff.mpr hy,hrest⟩,hend⟩

end Row

/-- `skipField` gets on from `r`: over `k` fields outside any struct, inside one to its end. -/
inductive GetsOn : Bool → ℕ → BufferReader w → Prop
  | outside {k : ℕ} {r u : BufferReader w} (all : SkipsAll k r u) : GetsOn true k r
  | inside {j k : ℕ} {r u x : BufferReader w} (all : SkipsAll j r u) (closes : Closes u x) :
      GetsOn false k r

namespace GetsOn
variable {outer : Bool} {c i k m : ℕ}

theorem inside_any (h : GetsOn false k r) (i : ℕ) : GetsOn false i r := by
  cases h with
  | inside all closes => exact .inside all closes

theorem of_le (h : GetsOn outer k r) (hle : i ≤ k) : GetsOn outer i r := by
  cases h with
  | outside all =>
    obtain ⟨j,rfl⟩ := Nat.exists_eq_add_of_le hle
    obtain ⟨u,hu,-⟩ := skipsAll_add.mp all
    exact .outside hu
  | inside all closes => exact .inside all closes

theorem skips (h : GetsOn outer (k+1) r) : ∃ u, Skips r u := by
  cases h with
  | outside all =>
    obtain ⟨u,hu,-⟩ := skipsAll_succ.mp all
    exact ⟨u,hu⟩
  | @inside j _ _ _ _ all closes =>
    cases j with
    | zero =>
      obtain rfl := skipsAll_zero.mp all
      exact closes.skips
    | succ j =>
      obtain ⟨u,hu,-⟩ := skipsAll_succ.mp all
      exact ⟨u,hu⟩

theorem passed (h : GetsOn outer (k+1) r) (hover : Over r s) : GetsOn outer k s := by
  cases h with
  | outside all =>
    obtain ⟨u,hu,hall⟩ := skipsAll_succ.mp all
    obtain rfl := hu.unique hover.skips
    exact .outside hall
  | @inside j _ _ _ _ all closes =>
    cases j with
    | zero =>
      obtain rfl := skipsAll_zero.mp all
      exact .inside (skipsAll_zero.mpr rfl) (hover.closes_iff.mp closes)
    | succ j =>
      obtain ⟨u,hu,hall⟩ := skipsAll_succ.mp all
      obtain rfl := hu.unique hover.skips
      exact .inside hall closes

theorem opens (h : GetsOn outer (k+1) r) (hopens : Opens c r s) (hc : outer → c = m) :
    GetsOn outer (m+k) s := by
  cases h with
  | outside all =>
    obtain ⟨u,hu,hall⟩ := skipsAll_succ.mp all
    rw [← hc rfl]
    exact .outside (skipsAll_add.mpr ⟨u,hopens.skips_iff.mp hu,hall⟩)
  | @inside j _ _ _ _ all closes =>
    cases j with
    | zero =>
      obtain rfl := skipsAll_zero.mp all
      obtain ⟨u,hu⟩ := closes.skips
      have hall := hopens.skips_iff.mp hu
      exact .inside hall ((hopens.passed hall).closes_iff.mp closes)
    | succ j =>
      obtain ⟨u,hu,hall⟩ := skipsAll_succ.mp all
      exact .inside (skipsAll_add.mpr ⟨u,hopens.skips_iff.mp hu,hall⟩) closes

theorem row (h : GetsOn outer (i+k) r) (hrow : Row outer i r s) : GetsOn outer k s := by
  induction hrow with
  | nil => simpa using h
  | field hover _ ih =>
    rw [Nat.add_right_comm] at h
    exact ih (h.passed hover)
  | container hopens _ counted _ ih =>
    rw [Nat.add_right_comm] at h
    refine ih ?_
    rw [Nat.add_assoc]
    exact h.opens hopens counted

/-- Inside a struct it does not matter how many fields the row has. -/
theorem along {j : ℕ} (h : GetsOn outer (j+i) r) (hrow : Row outer k r s) (hk : outer → k = j) :
    GetsOn outer i s := by
  cases outer with
  | true =>
    obtain rfl := hk rfl
    exact h.row hrow
  | false => exact (h.inside_any (k+i)).row hrow

end GetsOn

end Rows

section Search

/-- How a turn of the search returns: at once, or after a field. -/
theorem skipToTagLoop_returned {found : Bool}
    (h : skipToTagLoop (n+1) tag r = .returned found s) :
    s = r ∨ ∃ u, Over r u ∧ skipToTagLoop n tag u = .returned found s := by
  rcases skipToTagLoop_cases h with ⟨hs,-⟩ | ⟨head,t,u,hread,htype,hu,h⟩
  · exact .inl hs
  · exact .inr ⟨u,⟨skips_iff.mpr ⟨head,t,hread,by simp,n,hu⟩,head,t,hread,htype⟩,h⟩

/-- A search throws only where `skipField` does not get on. -/
theorem skipToTagLoop_threw {e : JceException} {k : ℕ} (h : skipToTagLoop n tag r = .threw e s) :
    ¬ GetsOn false k r := by
  induction n generalizing r with
  | zero => cases h
  | succ n ih =>
    intro hon
    obtain ⟨v,hskip⟩ := (hon.inside_any (k+1)).skips
    obtain ⟨head,t,ht,hpass⟩ := skips_iff.mp hskip
    obtain ⟨⟨head',len⟩,t',hp,hs⟩ := Exec.bind_eq_returned.mp ht
    obtain rfl := (peekFrom_still r).1 _ t' hp
    cases hs
    rw [skipToTagLoop] at h
    rcases Exec.bind_eq_threw.mp h with h | ⟨atEnd,t',he,h⟩
    · cases h
    cases he
    rw [Exec.ite_apply] at h
    split at h
    · cases h
    rw [Exec.bind_of_returned hp] at h
    dsimp only at h
    rw [Exec.ite_apply] at h
    split at h
    · cases h
    · next hturn =>
      rw [not_or] at hturn
      rw [Exec.bind_of_returned (show skip len r = _ from rfl)] at h
      rcases Exec.bind_eq_threw.mp h with h | ⟨⟨⟩,v',hv,h⟩
      · cases hpass.unique ⟨by simp,n,h⟩ (skipField_stable _)
      · cases hpass.unique ⟨by simp,n,hv⟩ (skipField_stable _)
        have hover : Over r v := ⟨hskip,head,_,ht,hturn.2⟩
        exact ih h ((hon.inside_any (k+1)).passed hover)

theorem skipToTagLoop_overs {found : Bool} (h : skipToTagLoop n tag r = .returned found s) :
    ReflTransGen Over r s := by
  induction n generalizing r with
  | zero => cases h
  | succ n ih =>
    rcases skipToTagLoop_returned h with rfl | ⟨u,hover,h⟩
    · exact .refl
    · exact .head hover (ih h)

end Search

section Here

variable {head : DataHead} {len : BitVec w}

/-- A search never goes beyond a head whose tag is no smaller. -/
theorem skipToTagLoop_here (hp : DataHead.peekFrom r = .returned (head,len) r)
    (hle : tag ≤ head.tag) : skipToTagLoop (n+1) tag r =
      .returned (!decide (r.bufLen ≤ r.cur) && (head.type ≠ .eStructEnd && tag == head.tag)) r := by
  rw [skipToTagLoop,Exec.bind_of_returned (show hasEnd r = .returned _ r from rfl)]
  by_cases hend : r.bufLen ≤ r.cur
  · rw [if_pos (by simpa using hend)]
    simp [hend]
  · rw [if_neg (by simpa using hend),Exec.bind_of_returned hp]
    dsimp only
    rw [if_pos (.inl hle)]
    by_cases htype : head.type = .eStructEnd <;> simp [hend, htype]

/-- A search that succeeds is a loop that returns. -/
theorem Finds.loop (h : Finds tag r u) :
    Exec.Ends (fun n => skipToTagLoop n tag) r (.returned true u) := by
  obtain ⟨n,hn⟩ := h.succ rfl
  exact ⟨by simp,n,skipToTag_eq_returned_true hn⟩

theorem Finds.eq_of_here (h : Finds tag r u) (hp : DataHead.peekFrom r = .returned (head,len) r)
    (hle : tag ≤ head.tag) : u = r := by
  obtain ⟨n,hn⟩ := h.loop.succ rfl
  have heq := (skipToTagLoop_here hp hle).symm.trans hn
  exact (Outcome.returned.inj heq).2.symm

theorem Finds.eq_of_zero (h : Finds 0 r u) : u = r := by
  obtain ⟨-,n,hn⟩ := h.loop
  exact ((skipToTagLoop_zero_still r).1 true u hn).symm

theorem Finds.overs (h : Finds tag r u) : ReflTransGen Over r u := by
  obtain ⟨-,n,hn⟩ := h.loop
  exact skipToTagLoop_overs hn

theorem FieldAt.finds (h : FieldAt r head) : Finds head.tag r r := by
  obtain ⟨hmore,⟨len,hp⟩,htype⟩ := h
  have hloop : skipToTagLoop 1 head.tag r = .returned true r := by
    rw [skipToTagLoop_here hp (BitVec.le_refl _)]
    simp [hmore, htype]
  refine ⟨by simp,2,?_⟩
  dsimp only
  rw [skipToTag,Exec.catchIf,hloop]

end Here

end UninstallObserver.Jce
