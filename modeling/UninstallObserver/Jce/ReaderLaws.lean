import UninstallObserver.Jce.Inherited

/-! What the reader's primitives do to the cursor and to the buffer. -/
namespace UninstallObserver.Jce
open Imperative ByteOrder BufferReader

variable {w : ℕ} {α : Type}

/-- Reading moves the cursor and nothing else. -/
def SameBuffer (r s : BufferReader w) : Prop := s.buf = r.buf ∧ s.bufLen = r.bufLen

instance : Std.Refl (SameBuffer (w := w)) := ⟨fun _ => ⟨rfl,rfl⟩⟩
instance : IsTrans (BufferReader w) SameBuffer :=
  ⟨fun _ _ _ h h' => ⟨h'.1.trans h.1,h'.2.trans h.2⟩⟩

section Frame

theorem skip_keeps (len : BitVec w) : Exec.Keeps SameBuffer (skip len) :=
  .modify fun _ => ⟨rfl,rfl⟩

/-- Whatever peeking does, the reader is as it was. -/
theorem peekBuf_still (len offset : BitVec w) : Exec.Keeps Eq (peekBuf len offset) := by
  intro r
  unfold peekBuf
  constructor
  · intro bs s h
    split at h
    · cases h
    · dsimp only at h
      split at h <;> cases h
      rfl
  · intro e s h
    split at h
    · cases h
      rfl
    · dsimp only at h
      split at h <;> cases h

theorem peekFrom_still : Exec.Keeps Eq (DataHead.peekFrom (w := w)) :=
  peekFrom_inherits (Exec.keeps_recursive Eq).toCompositional peekBuf_still

theorem keeps_of_still {m : Decode w α} (h : Exec.Keeps Eq m) : Exec.Keeps SameBuffer m := by
  refine fun r => ⟨fun a s hs => ?_,fun e s hs => ?_⟩
  · obtain rfl := (h r).1 a s hs
    exact ⟨rfl,rfl⟩
  · obtain rfl := (h r).2 e s hs
    exact ⟨rfl,rfl⟩

theorem keeps_inherited : Inherited (w := w) fun _ m => Exec.Keeps SameBuffer m where
  toCompositional := (Exec.keeps_recursive SameBuffer).toCompositional
  peekBuf := fun len offset => keeps_of_still (peekBuf_still len offset)
  skip := skip_keeps
  hasEnd := .look _
  size := .look _

theorem readFrom_keeps : Exec.Keeps SameBuffer (DataHead.readFrom (w := w)) :=
  keeps_inherited.wordwise.readFrom

/-- The mutually recursive functions leave the buffer alone on `n` units of fuel. -/
structure KeepsAt (w n : ℕ) : Prop where
  tagLoop : ∀ tag, Exec.Keeps SameBuffer (skipToTagLoop (w := w) n tag)
  toTag : ∀ tag, Exec.Keeps SameBuffer (skipToTag (w := w) n tag)
  structEnd : Exec.Keeps SameBuffer (skipToStructEnd (w := w) n)
  field : ∀ t, Exec.Keeps SameBuffer (skipField (w := w) n t)
  fields : ∀ k, Exec.Keeps SameBuffer (skipFields (w := w) n k)
  int32 : ∀ old tag req, Exec.Keeps SameBuffer (readInt32 (w := w) n old tag req)

theorem keepsAt (n : ℕ) : KeepsAt w n := by
  have h := inheritedAt (w := w) keeps_inherited (Exec.keeps_recursive SameBuffer) n
  exact ⟨h.tagLoop,h.toTag,h.structEnd,h.field,h.fields,h.int32⟩

end Frame

section Fuel

theorem peekBuf_fuelless (len offset : BitVec w) : Exec.Fuelless (peekBuf len offset) := by
  intro r h
  unfold peekBuf at h
  split at h
  · cases h
  · dsimp only at h
    split at h <;> cases h

theorem skip_fuelless (len : BitVec w) : Exec.Fuelless (skip len) := .modify _

theorem fuelless_inherited : Inherited (w := w) fun _ m => Exec.Fuelless m where
  toCompositional := Exec.fuelless_compositional
  peekBuf := peekBuf_fuelless
  skip := skip_fuelless
  hasEnd := fun r h => by cases h
  size := fun r h => by cases h

theorem readBuf_fuelless (len : BitVec w) : Exec.Fuelless (readBuf len) :=
  readBuf_inherits fuelless_inherited len

theorem readByType_fuelless (k v : ℕ) : Exec.Fuelless (readByType (w := w) k v) :=
  (readBuf_fuelless _).bind fun _ => .pure _

theorem peekFrom_fuelless : Exec.Fuelless (DataHead.peekFrom (w := w)) :=
  peekFrom_inherits Exec.fuelless_compositional peekBuf_fuelless

theorem readFrom_fuelless : Exec.Fuelless (DataHead.readFrom (w := w)) :=
  fuelless_inherited.wordwise.readFrom

end Fuel

/-- The length given to the reader is the size of the buffer, and no object is larger
than `ptrdiff_t` can measure. -/
structure Sound (r : BufferReader w) : Prop where
  len : r.bufLen.toNat = r.buf.length
  small : r.buf.length < 2^(w-1)

/-- The cursor has come as far as `a` and has not passed the end of the buffer. -/
structure Inside (a : ℕ) (r : BufferReader w) : Prop extends Sound r where
  le_cur : a ≤ r.cur.toNat
  cur_le : r.cur.toNat ≤ r.buf.length

theorem Inside.mono {a b : ℕ} {r : BufferReader w} (h : Inside b r) (hab : a ≤ b) : Inside a r :=
  ⟨h.toSound,hab.trans h.le_cur,h.cur_le⟩

theorem Sound.of_same {r s : BufferReader w} (hr : Sound r) (h : SameBuffer r s) : Sound s where
  len := by rw [h.1,h.2,hr.len]
  small := by rw [h.1]; exact hr.small

section Bounds
variable {r : BufferReader w} {len offset : BitVec w} {a : ℕ}

theorem two_pow_pred (hw : 0 < w) : 2^(w-1) + 2^(w-1) = 2^w := by
  obtain ⟨v,rfl⟩ : ∃ v, w = v+1 := ⟨w-1,by omega⟩
  rw [Nat.add_sub_cancel,pow_succ]
  omega

/-- The sum in the bound check, when it does not wrap. -/
theorem toNat_check (h : r.cur.toNat + offset.toNat + len.toNat < 2^w) :
    (r.cur + offset + len).toNat = r.cur.toNat + offset.toNat + len.toNat := by
  rw [BitVec.toNat_add_of_lt,BitVec.toNat_add_of_lt]
  · omega
  · rw [BitVec.toNat_add_of_lt (by omega)]
    exact h

theorem peekBuf_of_overflow (hr : r.bufLen.toNat = r.buf.length)
    (h : r.cur.toNat + offset.toNat + len.toNat < 2^w)
    (ho : r.buf.length < r.cur.toNat + offset.toNat + len.toNat) :
    ∃ what, peekBuf len offset r = .threw (.jceDecodeException what) r := by
  have hlt : r.bufLen < r.cur + offset + len := by
    rw [BitVec.lt_def,toNat_check h,hr]
    exact ho
  exact ⟨_,by rw [peekBuf,if_pos hlt]⟩

theorem peekBuf_of_fits (hr : r.bufLen.toNat = r.buf.length)
    (h : r.cur.toNat + offset.toNat + len.toNat ≤ r.buf.length) :
    peekBuf len offset r =
      .returned ((r.buf.drop (r.cur.toNat + offset.toNat)).take len.toNat) r := by
  have hb := hr ▸ r.bufLen.isLt
  have hle : ¬ r.bufLen < r.cur + offset + len := by
    rw [BitVec.lt_def,toNat_check (by omega),hr]
    omega
  rw [peekBuf,if_neg hle]
  exact if_pos (.inr h)

/-- From inside the buffer the bound check of a copy of moderate length is exact. -/
theorem Inside.check_lt (hr : Inside a r) (hw : 0 < w)
    (h : offset.toNat + len.toNat ≤ 2^(w-1)) :
    r.cur.toNat + offset.toNat + len.toNat < 2^w := by
  have hp := two_pow_pred hw
  have hs := hr.small
  have hc := hr.cur_le
  omega

theorem peekBuf_inside (hw : 0 < w) (h : offset.toNat + len.toNat ≤ 2^(w-1)) :
    Exec.Triple (Inside a) (peekBuf len offset) fun _ s =>
      Inside a s ∧ s.cur.toNat + offset.toNat + len.toNat ≤ s.buf.length := by
  intro r hr
  have hlt := hr.check_lt hw h
  by_cases ho : r.buf.length < r.cur.toNat + offset.toNat + len.toNat
  · obtain ⟨what,he⟩ := peekBuf_of_overflow hr.len hlt ho
    rw [he]
    exact ⟨fun h => (by cases h),fun _ _ h => by cases h⟩
  · rw [peekBuf_of_fits hr.len (by omega)]
    refine ⟨fun h => (by cases h),?_⟩
    intro bs s h
    cases h
    exact ⟨hr,by omega⟩

/-- Skipping what lies before the end stays inside. -/
theorem skip_inside (h : r.cur.toNat + len.toNat ≤ r.buf.length) (hr : Sound r) :
    Inside (r.cur.toNat + len.toNat) { r with cur := r.cur + len } := by
  have hb := hr.len ▸ r.bufLen.isLt
  have hc : (r.cur + len).toNat = r.cur.toNat + len.toNat := BitVec.toNat_add_of_lt (by omega)
  exact ⟨⟨hr.len,hr.small⟩,hc.ge,hc.trans_le h⟩

theorem readBuf_inside (hw : 0 < w) (h : len.toNat ≤ 2^(w-1)) :
    Exec.Triple (Inside a) (readBuf len) fun _ => Inside a := by
  refine (peekBuf_inside hw (by simpa using h)).bind fun bs => ?_
  intro s hs
  refine ⟨fun h => (by cases h),?_⟩
  intro a t h
  cases h
  have hfit : s.cur.toNat + len.toNat ≤ s.buf.length := by simpa using hs.2
  have hi := skip_inside hfit hs.1.toSound
  exact hi.mono (hs.1.le_cur.trans (Nat.le_add_right _ _))

end Bounds

section Heads
variable {r s : BufferReader w} {a : ℕ}

theorem toNat_ofNat_le (w k : ℕ) : (BitVec.ofNat w k).toNat ≤ k := by
  rw [BitVec.toNat_ofNat]
  exact Nat.mod_le _ _

theorem toNat_one (hw : 32 ≤ w) : (1 : BitVec w).toNat = 1 := by
  have h : 2 ≤ 2^w := Nat.le_self_pow (by omega) 2
  change 1 % 2^w = 1
  exact Nat.mod_eq_of_lt h

theorem toNat_two (hw : 32 ≤ w) : (2 : BitVec w).toNat = 2 := by
  have h : 2^2 ≤ 2^w := Nat.pow_le_pow_right (by omega) (by omega)
  change 2 % 2^w = 2
  exact Nat.mod_eq_of_lt (by omega)

theorem two_pow_32_le (hw : 32 ≤ w) : 2^32 ≤ 2^w := Nat.pow_le_pow_right (by omega) hw

theorem half_large (hw : 32 ≤ w) : 2^31 ≤ 2^(w-1) :=
  Nat.pow_le_pow_right (by omega) (by omega)

/-- A copy that succeeded lies inside the buffer. -/
theorem peekBuf_returned {len offset : BitVec w} {bs : List Byte}
    (h : peekBuf len offset r = .returned bs s) :
    s = r ∧ bs = (r.buf.drop (r.cur.toNat + offset.toNat)).take len.toNat ∧
      (len.toNat = 0 ∨ r.cur.toNat + offset.toNat + len.toNat ≤ r.buf.length) := by
  unfold peekBuf at h
  split at h
  · cases h
  · dsimp only at h
    split at h
    · next hb =>
      cases h
      exact ⟨rfl,rfl,hb⟩
    · cases h

theorem length_of_readBuf {len : BitVec w} {bs : List Byte} (h : readBuf len r = .returned bs s) :
    bs.length = len.toNat := by
  obtain ⟨cs,t,hpeek,h⟩ := Exec.bind_eq_returned.mp h
  obtain ⟨⟨⟩,u,-,h⟩ := Exec.bind_eq_returned.mp h
  cases h
  obtain ⟨-,rfl,hfit⟩ := peekBuf_returned hpeek
  have hzero : (0 : BitVec w).toNat = 0 := by simp
  rw [List.length_take,List.length_drop]
  omega

theorem peekByte_returned {offset : BitVec w} {b : Byte} (hw : 32 ≤ w)
    (h : DataHead.peekByte offset r = .returned b s) :
    s = r ∧ r.cur.toNat + offset.toNat + 1 ≤ r.buf.length := by
  obtain ⟨bs,t,hp,hb⟩ := Exec.bind_eq_returned.mp h
  obtain ⟨rfl,-,hlen⟩ := peekBuf_returned hp
  cases hb
  rw [toNat_one hw] at hlen
  exact ⟨rfl,by omega⟩

/-- A head that was read has one or two bytes, all inside the buffer. -/
theorem peekFrom_returned {h : DataHead} {n : BitVec w} (hw : 32 ≤ w)
    (hp : DataHead.peekFrom r = .returned (h,n) s) :
    s = r ∧ 1 ≤ n.toNat ∧ r.cur.toNat + n.toNat ≤ r.buf.length := by
  obtain ⟨b,t,hb,hn⟩ := Exec.bind_eq_returned.mp hp
  obtain ⟨rfl,hlen⟩ := peekByte_returned hw hb
  rw [Exec.ite_apply] at hn
  split at hn
  · obtain ⟨tag,u,ht,hr⟩ := Exec.bind_eq_returned.mp hn
    obtain ⟨rfl,hlen'⟩ := peekByte_returned hw ht
    cases hr
    rw [toNat_one hw] at hlen'
    rw [toNat_two hw]
    exact ⟨rfl,by omega,by omega⟩
  · cases hn
    rw [toNat_one hw]
    exact ⟨rfl,by omega,by simpa using hlen⟩

/-- Reading a head advances the cursor and stays inside the buffer. -/
theorem readFrom_returned {h : DataHead} (hw : 32 ≤ w) (hr : Sound r)
    (hp : DataHead.readFrom r = .returned h s) : Inside (r.cur.toNat+1) s := by
  obtain ⟨⟨h',n⟩,t,hp,hs⟩ := Exec.bind_eq_returned.mp hp
  obtain ⟨rfl,hn,hlen⟩ := peekFrom_returned hw hp
  cases hs
  exact (skip_inside hlen hr).mono (by omega)

theorem peekByte_inside (hw : 32 ≤ w) {offset : BitVec w} (ho : offset.toNat ≤ 1) :
    Exec.Triple (Inside a) (DataHead.peekByte offset) fun _ => Inside a := by
  have hh := half_large hw
  refine (peekBuf_inside (by omega) ?_).bind fun bs => .pure fun s hs => hs.1
  rw [toNat_one hw]
  omega

theorem peekFrom_inside (hw : 32 ≤ w) :
    Exec.Triple (Inside a) (DataHead.peekFrom (w := w)) fun _ => Inside a := by
  have h1 := toNat_one hw
  refine (peekByte_inside hw (by simp)).bind fun b => .ite (fun _ => ?_) fun _ => ?_
  · exact (peekByte_inside hw h1.le).bind fun tag => .pure fun _ hs => hs
  · exact .pure fun _ hs => hs

theorem readFrom_inside (hw : 32 ≤ w) :
    Exec.Triple (Inside a) (DataHead.readFrom (w := w)) fun _ => Inside a := by
  intro r hr
  constructor
  · intro h
    rcases Exec.bind_eq_undefined.mp h with h | ⟨_,_,_,h⟩
    · exact (peekFrom_inside hw r hr).1 h
    · cases h
  · intro h s hs
    exact (readFrom_returned hw hr.toSound hs).mono (hr.le_cur.trans (Nat.le_succ _))

theorem readByType_inside (hw : 32 ≤ w) {k : ℕ} (hk : k ≤ 8) (v : ℕ) :
    Exec.Triple (Inside a) (readByType (w := w) k v) fun _ => Inside a := by
  have hh := half_large hw
  have hl := toNat_ofNat_le w k
  exact (readBuf_inside (by omega) (by omega)).bind fun bs => .pure fun _ hs => hs

theorem int32Switch_inside (hw : 32 ≤ w) (tag : BitVec 8) (t : HeadType) :
    Exec.Triple (Inside a) (int32Switch (w := w) tag t) fun _ => Inside a := by
  cases t with
  | eZeroTag => exact .pure fun _ hs => hs
  | eChar => exact (readByType_inside hw (by omega) 8).bind fun _ => .pure fun _ hs => hs
  | eShort => exact (readByType_inside hw (by omega) 16).bind fun _ => .pure fun _ hs => hs
  | eInt32 => exact (readByType_inside hw (by omega) 32).bind fun _ => .pure fun _ hs => hs
  | _ => exact .throw _

/-- The last value of `size_t`, where the sum in the bound check of one byte is zero. -/
def last (w : ℕ) : ℕ := 2^w - 1

/-- Reading a head copies from outside the buffer at one cursor only. -/
theorem readFrom_undefined_iff (hw : 32 ≤ w) (hr : Sound r) :
    DataHead.readFrom r = .undefined ↔ r.cur.toNat = last w := by
  have hone := toNat_one hw
  have hb := hr.len ▸ r.bufLen.isLt
  have hcur := r.cur.isLt
  have hs := hr.small
  have hp := two_pow_pred (w := w) (by omega)
  have hh := half_large hw
  unfold last
  constructor
  · intro h
    by_contra hc
    have hlt : r.cur.toNat + (0 : BitVec w).toNat + (1 : BitVec w).toNat < 2^w := by
      rw [hone]
      simp
      omega
    by_cases hi : r.cur.toNat ≤ r.buf.length
    · exact (readFrom_inside hw r ⟨hr,Nat.le_refl _,hi⟩).1 h
    · obtain ⟨what,he⟩ := peekBuf_of_overflow hr.len hlt (by rw [hone]; omega)
      have hpk : DataHead.peekByte (0 : BitVec w) r = .threw (.jceDecodeException what) r :=
        Exec.bind_of_threw he
      have : DataHead.readFrom r = .threw (.jceDecodeException what) r :=
        Exec.bind_of_threw (Exec.bind_of_threw hpk)
      rw [this] at h
      cases h
  · intro hc
    have hz : r.cur + 0 + 1 = 0 := by
      apply BitVec.eq_of_toNat_eq
      have hz : r.cur + 0 = r.cur := BitVec.add_zero _
      rw [hz, BitVec.toNat_add, hone, hc, Nat.sub_add_cancel Nat.one_le_two_pow]
      simp
    have hu : peekBuf 1 0 r = .undefined := by
      have hle : ¬ r.bufLen < r.cur + 0 + 1 := by
        rw [hz, BitVec.lt_def]
        simp
      rw [peekBuf, if_neg hle]
      apply if_neg
      rw [hone, hc]
      simp
      omega
    exact Exec.bind_of_undefined (Exec.bind_of_undefined (Exec.bind_of_undefined hu))

end Heads

end UninstallObserver.Jce
