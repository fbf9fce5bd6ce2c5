import UninstallObserver.Jce.SkipCalls

/-! Where passing over fields copies from outside the buffer. -/
namespace UninstallObserver.Jce
open Imperative ByteOrder BufferReader Relation

variable {w : ℕ} {r s : BufferReader w} {n a : ℕ}

section SameBuffer

theorem Enters.same {c : Call} {t : HeadType} (h : Enters c r t s) : SameBuffer r s := by
  cases h with
  | tagLoop => exact ⟨rfl,rfl⟩
  | structEnd hp => exact (readFrom_keeps r).1 _ _ hp
  | fields hp => exact (readFrom_keeps r).1 _ _ hp

theorem Calls.same {c d : Config w} (h : Calls c d) : SameBuffer c.2 d.2 := by
  cases h with
  | element turn => exact turn.same
  | @again c c' r s u t m turn passed more =>
    exact IsTrans.trans r s u turn.same (((keepsAt m).field t s).1 _ _ passed)
  | struct => exact ⟨rfl,rfl⟩
  | @map r s size m sized => exact ((keepsAt m).int32 0 0 true r).1 _ _ sized
  | @list r s size m sized => exact ((keepsAt m).int32 0 0 true r).1 _ _ sized

theorem same_of_reaches {c d : Config w} (h : ReflTransGen Calls c d) : SameBuffer c.2 d.2 := by
  induction h with
  | refl => exact Std.Refl.refl c.2
  | @tail d e _ hde ih => exact IsTrans.trans c.2 d.2 e.2 ih hde.same

end SameBuffer

section Inside

/-- A turn has read a head, so its field begins inside the buffer. -/
theorem Enters.inside {c : Call} {t : HeadType} (hw : 32 ≤ w) (hr : Sound r)
    (h : Enters c r t s) : Inside (r.cur.toNat+1) s := by
  cases h with
  | tagLoop _ hp _ =>
    obtain ⟨-,hpos,hlen⟩ := peekFrom_returned hw hp
    exact (skip_inside hlen hr).mono (by omega)
  | structEnd hp => exact readFrom_returned hw hr hp
  | fields hp => exact readFrom_returned hw hr hp

/-- A loop whose bound is checked reads its heads inside the buffer. -/
theorem not_headStops_tagLoop {tag : BitVec 8} (hw : 32 ≤ w) (hr : Sound r) :
    ¬ HeadStops .undefined (.tagLoop tag) r := by
  intro h
  obtain ⟨hmore,hp⟩ := h
  rw [BitVec.le_def,hr.len] at hmore
  exact (peekFrom_inside hw r ⟨hr,Nat.le_refl _,by omega⟩).1 hp

/-- The search for tag 0 stops at the first head. -/
theorem not_enters_zero {t : HeadType} : ¬ Enters (.tagLoop 0) r t s := by
  intro h
  cases h with
  | tagLoop _ _ pass => exact pass (.inl (by simp [BitVec.le_def]))

theorem skipToTagLoop_zero_still : Exec.Keeps Eq (skipToTagLoop (w := w) n 0) := by
  cases n with
  | zero => exact .outOfFuel
  | succ n =>
    have heq := Exec.keeps_recursive (p := JceException.isDecodeException) (Eq (α := BufferReader w))
    exact skipToTagLoop_zero_inherits heq.toCompositional (.look _) peekFrom_still

theorem skipToTag_zero_still : Exec.Keeps Eq (skipToTag (w := w) (n+1) 0) :=
  skipToTagLoop_zero_still.catchIf (.pure false)

theorem skipToTag_zero_inside (hw : 32 ≤ w) :
    Exec.Triple (Inside a) (skipToTag (w := w) n 0) fun _ => Inside a := by
  intro r hr
  cases n with
  | zero => exact ⟨fun h => (by cases h),fun a s h => by cases h⟩
  | succ n =>
    refine ⟨fun h => ?_,fun a s h => (skipToTag_zero_still r).1 a s h ▸ hr⟩
    have hp : ∀ s, (pure false : Decode w Bool) s ≠ Exec.Stop.outcome .undefined := by simp
    have hloop := (Exec.catchIf_eq_stop (k := .undefined) hp).mp h
    cases n with
    | zero => cases hloop
    | succ n =>
      have hrun : (Call.tagLoop 0).run (n+1) r = .undefined := Exec.bind_of_undefined hloop
      rcases (tagLoop_stops (k := .undefined)).mp hrun with hh | ⟨t,s,turn,_⟩
      · exact not_headStops_tagLoop hw hr.toSound hh
      · exact not_enters_zero turn

theorem readField_inside {α : Type} {found : Decode w Bool} {isRequire : Bool} {missing : String}
    {old : α} {switch : HeadType → Decode w α} (hw : 32 ≤ w)
    (hf : Exec.Triple (Inside a) found fun _ => Inside a)
    (hs : ∀ t, Exec.Triple (Inside a) (switch t) fun _ => Inside a) :
    Exec.Triple (Inside a) (readField found isRequire missing old switch) fun _ => Inside a :=
  hf.bind fun _ => .ite (fun _ => (readFrom_inside hw).bind fun h => hs h.type)
    fun _ => .ite (fun _ => .throw _) fun _ => .pure fun _ h => h

/-- Reading a size under tag 0 stays inside the buffer. -/
theorem readInt32_zero_inside (hw : 32 ≤ w) (old : BitVec 32) (isRequire : Bool) :
    Exec.Triple (Inside a) (readInt32 (w := w) n old 0 isRequire) fun _ => Inside a := by
  cases n with
  | zero => exact fun r _ => ⟨fun h => (by cases h),fun a s h => by cases h⟩
  | succ n => exact readField_inside hw (skipToTag_zero_inside hw) (int32Switch_inside hw 0)

end Inside

/-- About to read a head where the sum in the bound check of one byte is zero. -/
def AtLast (d : Config w) : Prop :=
  (d.1 = .structEnd ∨ ∃ k, d.1 = .fields (k+1)) ∧ d.2.cur.toNat = last w

theorem headStops_undefined_iff (hw : 32 ≤ w) {d : Config w} (hd : Sound d.2) :
    HeadStops .undefined d.1 d.2 ↔ AtLast d := by
  obtain ⟨c,r⟩ := d
  unfold AtLast
  cases c with
  | tagLoop tag => simpa using not_headStops_tagLoop hw hd
  | structEnd => simpa [HeadStops, Exec.Stop.outcome] using readFrom_undefined_iff hw hd
  | field t => simp [HeadStops]
  | fields k =>
    cases k with
    | zero => simp [HeadStops]
    | succ k => simpa [HeadStops, Exec.Stop.outcome] using readFrom_undefined_iff hw hd

/-- A field begins inside the buffer. -/
def Begun (c : Config w) : Prop := Sound c.2 ∧ ∀ t, c.1 = .field t → Inside 0 c.2

theorem Calls.begun {c d : Config w} (hw : 32 ≤ w) (h : Calls c d) (hc : Begun c) : Begun d := by
  refine ⟨hc.1.of_same h.same,fun t ht => ?_⟩
  cases h with
  | element turn => exact (turn.inside hw hc.1).mono (Nat.zero_le _)
  | @again c c' r s u t' m turn passed more =>
    cases c with
    | field t => exact absurd rfl (turn.ne_field t)
    | tagLoop tag => cases more; cases ht
    | structEnd =>
      simp only [Call.next, Option.ite_none_left_eq_some] at more
      cases more.2
      cases ht
    | fields k =>
      cases k with
      | zero => cases more
      | succ k => cases more; cases ht
  | struct => cases ht
  | map => cases ht
  | list => cases ht

section Undefined

/-- A container that is passed over from inside the buffer goes wrong in its fields. -/
theorem sized_undefined {f : BitVec 32 → ℕ} (hw : 32 ≤ w) (hr : Inside 0 r)
    (h : (readInt32 n 0 0 true >>= fun size => skipFields n (f size)) r = .undefined) :
    ∃ size s, readInt32 n 0 0 true r = .returned size s ∧
      (Call.fields (f size)).run n s = .undefined := by
  rcases Exec.bind_eq_undefined.mp h with h | h
  · exact absurd h (readInt32_zero_inside hw 0 true r hr).1
  · exact h

/-- Code that goes wrong reaches a head at the last value of the cursor. -/
theorem reaches_atLast {c : Config w} (hw : 32 ≤ w) (hc : Begun c)
    (h : c.1.run n c.2 = .undefined) : ∃ d, ReflTransGen Calls c d ∧ AtLast d := by
  induction n generalizing c with
  | zero =>
    rw [run_zero] at h
    cases h
  | succ n ih =>
    have next : ∀ {d : Config w}, Calls c d → d.1.run n d.2 = .undefined →
        ∃ e, ReflTransGen Calls c e ∧ AtLast e := by
      intro d hcd hd
      obtain ⟨e,hde,he⟩ := ih (hcd.begun hw hc) hd
      exact ⟨e,.head hcd hde,he⟩
    obtain ⟨c,r⟩ := c
    by_cases hfield : ∃ t, c = .field t
    · obtain ⟨t,rfl⟩ := hfield
      have hi : Inside 0 r := hc.2 t rfl
      change skipField (n+1) t r = .undefined at h
      rw [skipField.eq_def] at h
      cases t with
      | eMap =>
        obtain ⟨size,s,hsize,hrun⟩ := sized_undefined hw hi h
        exact next (.map hsize) hrun
      | eList =>
        obtain ⟨size,s,hsize,hrun⟩ := sized_undefined hw hi h
        exact next (.list hsize) hrun
      | eStructBegin => exact next .struct h
      | eString1 =>
        rcases Exec.bind_eq_undefined.mp h with h | ⟨_,_,_,h⟩
        · exact absurd h (readByType_inside hw (by omega) 8 r hi).1
        · cases h
      | eString4 =>
        rcases Exec.bind_eq_undefined.mp h with h | ⟨_,_,_,h⟩
        · exact absurd h (readByType_inside hw (by omega) 32 r hi).1
        · cases h
      | eSimpleList =>
        have htriple : Exec.Triple (Inside 0) (DataHead.readFrom >>= fun h : DataHead =>
            if h.type ≠ .eChar then Exec.throw (.jceDecodeMismatch
              s!"skipField with invalid type, type value: {HeadType.eSimpleList.code}, {h.type.code}.")
            else readInt32 n 0 0 true >>= fun size => skip (size.signExtend w))
            fun _ _ => True :=
          (readFrom_inside hw).bind fun h => .ite (fun _ => .throw _) fun _ =>
            (readInt32_zero_inside hw 0 true).bind fun size =>
              fun _ _ => ⟨fun h => (by cases h),fun _ _ _ => trivial⟩
        exact absurd h (htriple r hi).1
      | _ => cases h
    · have hloop : ∀ t, c ≠ .field t := fun t ht => hfield ⟨t,ht⟩
      rcases (loop_stops (k := .undefined) hloop).mp h with hh | ⟨t,s,turn,hs⟩
      · exact ⟨_,.refl,(headStops_undefined_iff hw hc.1).mp hh⟩
      · rcases hs with hs | ⟨u,c',hu,hc',hrun⟩
        · exact next (.element turn) hs
        · exact next (.again turn hu hc') hrun

/-- What a call goes wrong at, its caller goes wrong at. -/
theorem undefined_of_calls {c d : Config w} (h : Calls c d)
    (hd : ∃ n, d.1.run n d.2 = .undefined) : ∃ n, c.1.run n c.2 = .undefined := by
  obtain ⟨n,hn⟩ := hd
  have grow : ∀ (c : Config w) {a b : ℕ}, a ≤ b → c.1.run a c.2 = .undefined →
      c.1.run b c.2 = .undefined := by
    intro c a b hab h
    rw [((c.1.run_stable.le hab) c.2).eq (by rw [h]; simp),h]
  cases h with
  | @element c r s t turn =>
    exact ⟨n+1,(loop_stops (k := .undefined) turn.ne_field).mpr (.inr ⟨t,s,turn,.inl hn⟩)⟩
  | @again c c' r s u t m turn passed more =>
    refine ⟨max n m+1,(loop_stops (k := .undefined) turn.ne_field).mpr (.inr ⟨t,s,turn,.inr ?_⟩)⟩
    refine ⟨u,c',?_,more,grow (c',u) (Nat.le_max_left n m) hn⟩
    rw [((skipField_stable t).le (Nat.le_max_right n m) s).eq (by rw [passed]; simp)]
    exact passed
  | struct => exact ⟨n+1,hn⟩
  | @map r s size m sized =>
    refine ⟨max n m+1,Exec.bind_eq_undefined.mpr (.inr ⟨size,s,?_,?_⟩)⟩
    · rw [((readInt32_stable 0 0 true).le (Nat.le_max_right n m) r).eq (by rw [sized]; simp)]
      exact sized
    · exact grow (.fields _,s) (Nat.le_max_left n m) hn
  | @list r s size m sized =>
    refine ⟨max n m+1,Exec.bind_eq_undefined.mpr (.inr ⟨size,s,?_,?_⟩)⟩
    · rw [((readInt32_stable 0 0 true).le (Nat.le_max_right n m) r).eq (by rw [sized]; simp)]
      exact sized
    · exact grow (.fields _,s) (Nat.le_max_left n m) hn

/-- Passing over fields goes wrong exactly where it reads a head at the last cursor. -/
theorem undefined_iff_atLast {c : Config w} (hw : 32 ≤ w) (hc : Begun c) :
    (∃ n, c.1.run n c.2 = .undefined) ↔ ∃ d, ReflTransGen Calls c d ∧ AtLast d := by
  constructor
  · intro h
    obtain ⟨n,hn⟩ := h
    exact reaches_atLast hw hc hn
  · intro h
    obtain ⟨d,hcd,hd⟩ := h
    induction hcd using ReflTransGen.head_induction_on with
    | refl =>
      have hh := (headStops_undefined_iff hw hc.1).mpr hd
      refine ⟨1,(loop_stops (k := .undefined) fun t ht => ?_).mpr (.inl hh)⟩
      obtain ⟨h | ⟨k,h⟩,-⟩ := hd <;> rw [h] at ht <;> cases ht
    | head hcd _ ih => exact undefined_of_calls hcd (ih (hcd.begun hw hc))

end Undefined

end UninstallObserver.Jce
