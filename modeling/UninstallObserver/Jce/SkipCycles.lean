import Mathlib.Data.Finite.Prod
import Mathlib.Data.Finite.Sum
import Mathlib.Data.Set.Finite.Range
import UninstallObserver.Jce.SkipBounds

/-! When passing over fields comes to an end. -/
namespace UninstallObserver.Jce
open Imperative ByteOrder BufferReader Relation

variable {w : ℕ} {r s : BufferReader w} {n : ℕ}

/-- The length given to the reader is the size of its buffer. -/
def Sized (r : BufferReader w) : Prop := r.bufLen.toNat = r.buf.length

/-- The cursor of a reader of known size does not move back. -/
def Advances (r s : BufferReader w) : Prop := Sized r → Sized s ∧ r.cur.toNat ≤ s.cur.toNat

instance : Std.Refl (Advances (w := w)) := ⟨fun _ h => ⟨h,Nat.le_refl _⟩⟩
instance : IsTrans (BufferReader w) Advances :=
  ⟨fun _ _ _ h h' hr => ⟨(h' (h hr).1).1,(h hr).2.trans (h' (h hr).1).2⟩⟩

section Advance

theorem keeps_advances_of_still {α : Type} {m : Decode w α} (h : Exec.Keeps Eq m) :
    Exec.Keeps Advances m := by
  refine fun r => ⟨fun a s hs => ?_,fun e s hs => ?_⟩
  · rw [← (h r).1 a s hs]
    exact Std.Refl.refl r
  · rw [← (h r).2 e s hs]
    exact Std.Refl.refl r

/-- Where the bytes passed over lie in the buffer, the cursor does not wrap. -/
theorem skip_advances {len : BitVec w}
    (h : len.toNat = 0 ∨ r.cur.toNat + len.toNat ≤ r.buf.length) :
    Advances r { r with cur := r.cur + len } := by
  intro hr
  refine ⟨hr,?_⟩
  have hb := r.bufLen.isLt
  have hc := r.cur.isLt
  unfold Sized at hr
  change r.cur.toNat ≤ (r.cur + len).toNat
  rw [BitVec.toNat_add_of_lt (by omega)]
  exact Nat.le_add_right _ _

theorem readBuf_advances (len : BitVec w) : Exec.Keeps Advances (readBuf len) := by
  intro r
  constructor
  · intro bs s h
    obtain ⟨bs',t,hp,hs⟩ := Exec.bind_eq_returned.mp h
    obtain ⟨rfl,-,hlen⟩ := peekBuf_returned hp
    cases hs
    exact skip_advances (by simpa using hlen)
  · intro e s h
    rcases Exec.bind_eq_threw.mp h with h | ⟨_,_,_,h⟩
    · rw [← (peekBuf_still len 0 r).2 e s h]
      exact Std.Refl.refl r
    · cases h

theorem readFrom_advances (hw : 32 ≤ w) : Exec.Keeps Advances (DataHead.readFrom (w := w)) := by
  intro r
  constructor
  · intro h s hs
    obtain ⟨⟨h',n⟩,t,hp,hskip⟩ := Exec.bind_eq_returned.mp hs
    obtain ⟨rfl,-,hlen⟩ := peekFrom_returned hw hp
    cases hskip
    exact skip_advances (.inr hlen)
  · intro e s hs
    rcases Exec.bind_eq_threw.mp hs with hs | ⟨_,_,_,hs⟩
    · rw [← (peekFrom_still r).2 e s hs]
      exact Std.Refl.refl r
    · cases hs

theorem advances_wordwise (hw : 32 ≤ w) : Wordwise (w := w) fun _ m => Exec.Keeps Advances m where
  toCompositional := (Exec.keeps_recursive Advances).toCompositional
  readFrom := readFrom_advances hw
  readByType := fun _ _ _ => (readBuf_advances _).bind fun _ => .pure _

theorem readInt32_zero_advances (hw : 32 ≤ w) (old : BitVec 32) (isRequire : Bool) :
    Exec.Keeps Advances (readInt32 (w := w) n old 0 isRequire) := by
  have hword := advances_wordwise (w := w) hw
  cases n with
  | zero => exact .outOfFuel
  | succ n =>
    have hfound : Exec.Keeps Advances (skipToTag (w := w) n 0) := by
      cases n with
      | zero => exact .outOfFuel
      | succ n => exact keeps_advances_of_still skipToTag_zero_still
    exact readField_inherits hword hfound (int32Switch_inherits hword)

theorem Enters.cur_lt {c : Call} {t : HeadType} (hw : 32 ≤ w) (hr : Sized r)
    (h : Enters c r t s) : r.cur.toNat < s.cur.toNat := by
  have key : ∀ {h : DataHead} {n : BitVec w}, DataHead.peekFrom r = .returned (h,n) r →
      r.cur.toNat < (r.cur + n).toNat := by
    intro h n hp
    obtain ⟨-,hpos,hlen⟩ := peekFrom_returned hw hp
    have hb := r.bufLen.isLt
    unfold Sized at hr
    rw [BitVec.toNat_add_of_lt (by omega)]
    omega
  have read : ∀ {h : DataHead}, DataHead.readFrom r = .returned h s →
      r.cur.toNat < s.cur.toNat := by
    intro h hs
    obtain ⟨⟨h',n⟩,u,hp,hskip⟩ := Exec.bind_eq_returned.mp hs
    obtain rfl := (peekFrom_still r).1 _ u hp
    cases hskip
    exact key hp
  cases h with
  | tagLoop _ hp _ => exact key hp
  | structEnd hp => exact read hp
  | fields hp => exact read hp

end Advance

/-- A loop turn whose field ends before the place where it starts. -/
inductive GoesBack : Config w → Config w → Prop
  | turn {c c' : Call} {r s u : BufferReader w} {t : HeadType} {n : ℕ} (turn : Enters c r t s)
      (passed : skipField n t s = .returned () u) (more : c.next t = some c')
      (back : u.cur.toNat < s.cur.toNat) : GoesBack (c,r) (c',u)

theorem GoesBack.calls {c d : Config w} (h : GoesBack c d) : Calls c d := by
  cases h with
  | turn turn passed more _ => exact .again turn passed more

/-- The bytes up to the end of the address space, and one step from a field to its parts. -/
def measure (c : Config w) : ℕ :=
  2*(2^w - c.2.cur.toNat) + match c.1 with
    | .field _ => 1
    | _ => 0

section Measure

theorem measure_le (c : Config w) : measure c ≤ 2*(2^w - c.2.cur.toNat) + 1 := by
  unfold measure
  split <;> omega

theorem le_measure (c : Config w) : 2*(2^w - c.2.cur.toNat) ≤ measure c := Nat.le_add_right _ _

theorem measure_lt_of_cur {c d : Config w} (h : c.2.cur.toNat < d.2.cur.toNat) :
    measure d < measure c := by
  have hd := measure_le d
  have hc := le_measure c
  have hlt := d.2.cur.isLt
  omega

theorem measure_loop_lt {c : Call} {t : HeadType} (hc : ∀ t, c ≠ .field t)
    (h : r.cur.toNat ≤ s.cur.toNat) : measure (c,s) < measure (.field t,r) := by
  have hfield : measure (.field t,r) = 2*(2^w - r.cur.toNat) + 1 := rfl
  have hloop : measure (c,s) = 2*(2^w - s.cur.toNat) := by
    cases c with
    | field t => exact absurd rfl (hc t)
    | _ => rfl
  omega

/-- Only a field that ends before it starts raises the measure. -/
theorem Calls.back_or_lt {c d : Config w} (hw : 32 ≤ w) (hc : Sized c.2) (h : Calls c d) :
    GoesBack c d ∨ measure d < measure c := by
  cases h with
  | element turn => exact .inr (measure_lt_of_cur (turn.cur_lt hw hc))
  | @again c c' r s u t m turn passed more =>
    by_cases hback : u.cur.toNat < s.cur.toNat
    · exact .inl (.turn turn passed more hback)
    · have hlt : r.cur.toNat < s.cur.toNat := turn.cur_lt hw hc
      have hu : r.cur.toNat < u.cur.toNat := by omega
      exact .inr (measure_lt_of_cur hu)
  | struct => exact .inr (measure_loop_lt (by simp) (Nat.le_refl _))
  | @map r s size m sized =>
    exact .inr (measure_loop_lt (by simp) ((readInt32_zero_advances hw 0 true r).1 _ _ sized hc).2)
  | @list r s size m sized =>
    exact .inr (measure_loop_lt (by simp) ((readInt32_zero_advances hw 0 true r).1 _ _ sized hc).2)

end Measure

section Finite

/-- The calls that occur: there are only so many sizes an `Int32` can give. -/
def Call.Small : Call → Prop
  | .fields k => k < 2^32
  | _ => True

theorem toNat_toInt_lt (x : BitVec 32) : x.toInt.toNat < 2^32 := by
  have h := BitVec.toInt_lt (x := x)
  omega

theorem Calls.small {c d : Config w} (h : Calls c d) (hc : c.1.Small) : d.1.Small := by
  cases h with
  | element => trivial
  | @again c c' r s u t m turn passed more =>
    cases c with
    | field t => exact absurd rfl (turn.ne_field t)
    | tagLoop tag =>
      cases more
      trivial
    | structEnd =>
      simp only [Call.next, Option.ite_none_left_eq_some] at more
      cases more.2
      trivial
    | fields k =>
      cases k with
      | zero => cases more
      | succ k =>
        cases more
        exact Nat.lt_of_succ_lt hc
  | struct => trivial
  | map => exact toNat_toInt_lt _
  | list => exact toNat_toInt_lt _

instance finite_headType : Finite HeadType :=
  .of_surjective (fun i : Fin 16 => HeadType.ofCode i) fun t => ⟨⟨t.code,t.code_lt⟩,t.ofCode_code⟩

instance finite_bitVec : Finite (BitVec w) :=
  .of_injective BitVec.toFin fun _ _ h => BitVec.toFin_inj.mp h

/-- Names for the small calls. -/
def Call.ofName : BitVec 8 ⊕ Unit ⊕ HeadType ⊕ Fin (2^32) → Call
  | .inl tag => .tagLoop tag
  | .inr (.inl ()) => .structEnd
  | .inr (.inr (.inl t)) => .field t
  | .inr (.inr (.inr k)) => .fields k

theorem Call.Small.named {c : Call} (h : c.Small) : ∃ name, Call.ofName name = c := by
  cases c with
  | tagLoop tag => exact ⟨.inl tag,rfl⟩
  | structEnd => exact ⟨.inr (.inl ()),rfl⟩
  | field t => exact ⟨.inr (.inr (.inl t)),rfl⟩
  | fields k => exact ⟨.inr (.inr (.inr ⟨k,h⟩)),rfl⟩

theorem small_of_reaches {c d : Config w} (h : ReflTransGen Calls c d) (hc : c.1.Small) :
    d.1.Small := by
  induction h with
  | refl => exact hc
  | tail _ hde ih => exact hde.small ih

theorem reaches_finite {c : Config w} (hc : c.1.Small) :
    {d | ReflTransGen Calls c d}.Finite := by
  let config : (BitVec 8 ⊕ Unit ⊕ HeadType ⊕ Fin (2^32)) × BitVec w → Config w :=
    fun p => (Call.ofName p.1,⟨c.2.buf,c.2.bufLen,p.2⟩)
  refine (Set.finite_range config).subset fun d hd => ?_
  obtain ⟨name,hname⟩ := (small_of_reaches hd hc).named
  have hsame := same_of_reaches hd
  refine ⟨(name,d.2.cur),?_⟩
  change (Call.ofName name,(⟨c.2.buf,c.2.bufLen,d.2.cur⟩ : BufferReader w)) = d
  rw [hname,← hsame.1,← hsame.2]

end Finite

/-- Passing over fields ends exactly when it never comes back to a turn whose field ends
before it starts. -/
theorem done_iff_no_return {c : Config w} (hw : 32 ≤ w) (hc : c.1.Small) (hr : Sized c.2) :
    (∃ n, Done n c) ↔
      ∀ d e, ReflTransGen Calls c d → GoesBack d e → ¬ ReflTransGen Calls e d := by
  refine recursion.done_iff_no_return (μ := measure) (reaches_finite hc) GoesBack.calls
    fun hcd hde => ?_
  have hsame := same_of_reaches hcd
  apply hde.back_or_lt hw
  rw [Sized,hsame.1,hsame.2]
  exact hr

end UninstallObserver.Jce
