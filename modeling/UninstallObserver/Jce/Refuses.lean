import UninstallObserver.Jce.SchemaEvolution

/-! Reading an encoding of which only the first bytes have arrived. -/
namespace UninstallObserver.Jce
open Imperative ByteOrder BufferReader

variable {w n h : ℕ} {α β κ ν : Type} {enc enc' cut rest buf : List Byte} {p : ℕ}

/-- `m` throws a decode exception. -/
def Refused (m : Decode w α) (r : BufferReader w) : Prop :=
  ∃ e s, m r = .threw e s ∧ e.isDecodeException

/-- From offset `p` to the end of the buffer stands the part `cut` of `enc`. -/
structure Arrived (w : ℕ) (buf : List Byte) (p : ℕ) (enc cut rest : List Byte) : Prop where
  room : p + enc.length < 2^w
  le : p ≤ buf.length
  here : buf.drop p = cut
  split : enc = cut ++ rest

/-- Where `h` bytes of `enc` have arrived, but not all of them, `m` throws. -/
def Refuses (h : ℕ) (m : Decode w α) (enc : List Byte) : Prop :=
  ∀ buf p cut rest, Arrived w buf p enc cut rest → rest ≠ [] → h ≤ cut.length →
    Refused m (readerAt w buf p)

/-- Where all of `enc` stands, `m` reads exactly `enc` and yields `a` if it does not throw. -/
def Settles (m : Decode w α) (enc : List Byte) (a : α) : Prop :=
  ∀ buf p post, buf.length < 2^w → p ≤ buf.length → buf.drop p = enc ++ post →
    m (readerAt w buf p) = .returned a (readerAt w buf (p+enc.length)) ∨
      Refused m (readerAt w buf p)

section Refused
variable {m : Decode w α} {f : α → Decode w β} {r s : BufferReader w} {a : α}

theorem Refused.bind (hm : Refused m r) : Refused (m >>= f) r := by
  obtain ⟨e,s,he,hd⟩ := hm
  exact ⟨e,s,Exec.bind_of_threw he,hd⟩

theorem Refused.after (hm : m r = .returned a s) (hf : Refused (f a) s) :
    Refused (m >>= f) r := by
  obtain ⟨e,t,he,hd⟩ := hf
  exact ⟨e,t,(Exec.bind_of_returned hm).trans he,hd⟩

theorem Reads.settles (hm : Reads 0 m enc a) : Settles m enc a :=
  fun buf p post hbuf hp hd => .inl (hm buf p post hbuf hp hd (Nat.zero_le _))

end Refused

namespace Arrived

theorem length (h : Arrived w buf p enc cut rest) : buf.length = p + cut.length := by
  have hl := congrArg List.length h.here
  have hp := h.le
  rw [List.length_drop] at hl
  omega

theorem buf_lt (h : Arrived w buf p enc cut rest) : buf.length < 2^w := by
  have hl := congrArg List.length h.split
  have hr := h.room
  rw [List.length_append] at hl
  rw [h.length]
  omega

theorem buf_succ_lt (h : Arrived w buf p enc cut rest) (hrest : rest ≠ []) :
    buf.length + 1 < 2^w := by
  have hl := congrArg List.length h.split
  have hr := h.room
  have hpos := List.length_pos_iff.mpr hrest
  rw [List.length_append] at hl
  rw [h.length]
  omega

/-- The first of two parts has arrived. -/
theorem first (h : Arrived w buf p (enc ++ enc') cut rest) (hle : enc.length ≤ cut.length) :
    ∃ cut', cut = enc ++ cut' ∧ Arrived w buf (p+enc.length) enc' cut' rest := by
  have hbuf := h.length
  have hroom := h.room
  rw [List.length_append] at hroom
  rcases List.append_eq_append_iff.mp h.split with ⟨cut',hcut,he⟩ | ⟨bs,he,hrest⟩
  · refine ⟨cut',hcut,by omega,by omega,?_,he⟩
    rw [← List.drop_drop,h.here,hcut,List.drop_left]
  · have hl := congrArg List.length he
    rw [List.length_append] at hl
    obtain rfl : bs = [] := List.length_eq_zero_iff.mp (by omega)
    rw [List.append_nil] at he
    refine ⟨[],by rw [he,List.append_nil],by omega,by omega,?_,hrest.symm⟩
    rw [← List.drop_drop,h.here,he,List.drop_length]

/-- It has not. -/
theorem within (h : Arrived w buf p (enc ++ enc') cut rest) (hlt : cut.length < enc.length) :
    ∃ rest', rest' ≠ [] ∧ Arrived w buf p enc cut rest' := by
  have hroom := h.room
  rw [List.length_append] at hroom
  rcases List.append_eq_append_iff.mp h.split with ⟨cut',hcut,-⟩ | ⟨bs,he,-⟩
  · have hl := congrArg List.length hcut
    rw [List.length_append] at hl
    omega
  · refine ⟨bs,fun hbs => ?_,by omega,h.le,h.here,he⟩
    rw [he,hbs,List.append_nil] at hlt
    exact Nat.lt_irrefl _ hlt

end Arrived

namespace Refuses
variable {m : Decode w α} {f : α → Decode w β} {a : α}

/-- Nothing can be missing of no bytes. -/
theorem nil : Refuses h m [] := by
  intro buf p cut rest harr hrest _
  exact absurd (List.append_eq_nil_iff.mp harr.split.symm).2 hrest

theorem bind (hm : Refuses h m enc) (hs : Settles m enc a) (hf : Refuses 0 (f a) enc') :
    Refuses h (m >>= f) (enc ++ enc') := by
  intro buf p cut rest harr hrest hh
  by_cases hle : enc.length ≤ cut.length
  · obtain ⟨cut',rfl,harr'⟩ := harr.first hle
    rcases hs buf p cut' harr.buf_lt harr.le harr.here with hm | hm
    · exact .after hm (hf _ _ _ _ harr' hrest (Nat.zero_le _))
    · exact hm.bind
  · obtain ⟨rest',hrest',harr'⟩ := harr.within (by omega)
    exact (hm _ _ _ _ harr' hrest' hh).bind

theorem map (hm : Refuses h m enc) : Refuses h (m >>= f) enc :=
  fun _ _ _ _ harr hrest hh => (hm _ _ _ _ harr hrest hh).bind

end Refuses

section Copies

theorem refused_peekBuf {len offset : BitVec w} (hbuf : buf.length < 2^w)
    (hfit : p + offset.toNat + len.toNat < 2^w) (hp : p ≤ buf.length)
    (ho : buf.length < p + offset.toNat + len.toNat) :
    Refused (peekBuf len offset) (readerAt w buf p) := by
  have hc : (readerAt w buf p).cur.toNat = p := readerAt_cur (by omega)
  obtain ⟨what,he⟩ : ∃ what, peekBuf len offset (readerAt w buf p) =
      .threw (.jceDecodeException what) (readerAt w buf p) :=
    peekBuf_of_overflow (readerAt_len hbuf) (by rw [hc]; exact hfit) (by rw [hc]; exact ho)
  exact ⟨_,_,he,rfl⟩

theorem refuses_readBuf {len : BitVec w} (hlen : len.toNat = enc.length) :
    Refuses h (readBuf len) enc := by
  intro buf p cut rest harr hrest _
  have hl := congrArg List.length harr.split
  have hpos := List.length_pos_iff.mpr hrest
  have hroom := harr.room
  have hbuf := harr.length
  have hzero : (0 : BitVec w).toNat = 0 := by simp
  rw [List.length_append] at hl
  exact (refused_peekBuf harr.buf_lt (by omega) harr.le (by omega)).bind

theorem refuses_readByType {k v : ℕ} (hlen : enc.length = k) :
    Refuses (w := w) h (readByType k v) enc := by
  intro buf p cut rest harr hrest hh
  have hroom := harr.room
  have hk : (BitVec.ofNat w k).toNat = enc.length := by
    rw [BitVec.toNat_ofNat,Nat.mod_eq_of_lt (by omega),hlen]
  exact (refuses_readBuf hk).map buf p cut rest harr hrest hh

theorem refuses_stored {v : ℕ} (m : ℕ) (x : BitVec v) {f : BitVec v → Decode w α} :
    Refuses h (readByType m v >>= f) (store m x) :=
  (refuses_readByType (length_store m x)).map

end Copies

/-- What is left of a head that has not arrived whole. -/
inductive Stub : List Byte → Prop where
  | nothing : Stub []
  | noTag (b : Byte) (more : DataHead.helperTag b = 15) : Stub [b]

/-- The length of a head. -/
def DataHead.length (tag : BitVec 8) : ℕ := if tag.toNat < 15 then 1 else 2

theorem length_writeTo (type : HeadType) (tag : BitVec 8) :
    (DataHead.writeTo type tag).length = DataHead.length tag := by
  unfold DataHead.writeTo DataHead.length
  split <;> rfl

section Stub
variable {tag : BitVec 8}

theorem Arrived.stub {type : HeadType} {body : List Byte}
    (he : enc = DataHead.writeTo type tag ++ body)
    (harr : Arrived w buf p enc cut rest) (hlt : cut.length < DataHead.length tag) : Stub cut := by
  subst he
  rw [← length_writeTo type] at hlt
  obtain ⟨rest',-,harr'⟩ := harr.within hlt
  have hsplit := harr'.split
  rw [length_writeTo] at hlt
  unfold DataHead.writeTo at hsplit
  unfold DataHead.length at hlt
  match cut with
  | [] => exact .nothing
  | [b] =>
    split at hsplit
    · next ht =>
      rw [if_pos ht,List.length_singleton] at hlt
      omega
    · cases hsplit
      exact .noTag _ (DataHead.helperTag_helper type 15 (by omega))
  | _::_::cs =>
    split at hlt <;> simp only [List.length_cons] at hlt <;> omega

theorem Stub.refused_peekFrom (hw : 32 ≤ w) (hbuf : buf.length + 1 < 2^w) (hp : p ≤ buf.length)
    (hs : Stub (buf.drop p)) : Refused DataHead.peekFrom (readerAt w buf p) := by
  have h0 : (0 : BitVec w).toNat = 0 := by simp
  have h1 := toNat_one hw
  have hl : (buf.drop p).length = buf.length - p := List.length_drop
  cases hd : buf.drop p with
  | nil =>
    rw [hd,List.length_nil] at hl
    exact (refused_peekBuf (by omega) (by omega) hp (by omega)).bind.bind
  | cons b bs =>
    rw [hd] at hs hl
    cases hs with
    | noTag _ more =>
      rw [List.length_singleton] at hl
      have hb := peekByte_readerAt (w := w) 0 hw (show buf.length < 2^w by omega)
        (by rw [h0]; exact hd)
      have htag : Refused (DataHead.peekByte 1) (readerAt w buf p) :=
        (refused_peekBuf (by omega) (by omega) hp (by omega)).bind
      refine .after hb ?_
      rw [if_pos more]
      exact htag.bind

theorem Stub.skipToTag (hw : 32 ≤ w) (hbuf : buf.length + 1 < 2^w) (hp : p ≤ buf.length)
    (hs : Stub (buf.drop p)) (tag : BitVec 8) :
    skipToTag (n+2) tag (readerAt w buf p) = .returned false (readerAt w buf p) := by
  have hend : hasEnd (readerAt w buf p) =
      .returned (decide (buf.length ≤ p)) (readerAt w buf p) := hasEnd_readerAt (by omega) hp
  rw [Jce.skipToTag,Exec.catchIf,skipToTagLoop]
  by_cases hle : buf.length ≤ p
  · rw [decide_eq_true hle] at hend
    rw [Exec.bind_of_returned hend]
    rfl
  · rw [decide_eq_false hle] at hend
    obtain ⟨e,s,he,hd⟩ := hs.refused_peekFrom hw hbuf hp
    obtain rfl := (peekFrom_still _).2 e s he
    rw [Exec.bind_of_returned hend,if_neg (by decide),Exec.bind_of_threw he]
    dsimp only
    rw [if_pos hd]
    rfl

theorem Stub.refused_skipToStructEnd (hw : 32 ≤ w) (hbuf : buf.length + 1 < 2^w)
    (hp : p ≤ buf.length) (hs : Stub (buf.drop p)) :
    Refused (skipToStructEnd (n+1)) (readerAt w buf p) := by
  rw [skipToStructEnd]
  exact (hs.refused_peekFrom hw hbuf hp).bind.bind

end Stub

section Typed
variable {tag : BitVec 8} {isRequire : Bool} {missing : String} {type : HeadType}
  {body : List Byte} {i : ℤ}

theorem refuses_field {old : α} {switch : HeadType → Decode w α} (hw : 32 ≤ w)
    (ht : type ≠ .eStructEnd) (hs : Refuses 0 (switch type) body) :
    Refuses (DataHead.length tag) (readField (skipToTag (n+2) tag) isRequire missing old switch)
      (DataHead.writeTo type tag ++ body) := by
  intro buf p cut rest harr hrest hh
  rw [← length_writeTo type] at hh
  obtain ⟨cut',rfl,harr'⟩ := harr.first hh
  refine .after (skipToTag_here hw harr.buf_lt harr.le harr.here ht) ?_
  rw [if_pos rfl]
  have hread := reads_readFrom (w := w) (k := 0) hw buf p cut' harr.buf_lt harr.le harr.here
    (Nat.zero_le _)
  exact .after hread (hs _ _ _ _ harr' hrest (Nat.zero_le _))

theorem refuses_int32Switch (hf : IntForm 32 type body i) :
    Refuses (w := w) h (int32Switch tag type) body := by
  cases hf with
  | zero => exact .nil
  | char _ n => exact refuses_stored 1 n
  | short _ n => exact refuses_stored 2 _
  | int32 _ n => exact refuses_stored 4 _
  | int64 h _ => omega

theorem refuses_readInt32 (hw : 32 ≤ w) (hf : IntForm 32 type body i) (old : BitVec 32) :
    Refuses (w := w) (DataHead.length tag) (readInt32 (n+3) old tag isRequire)
      (DataHead.writeTo type tag ++ body) :=
  refuses_field hw hf.ne_structEnd (refuses_int32Switch hf)

theorem refuses_readChar (hw : 32 ≤ w) (hf : IntForm 8 type body i) (old : BitVec 8) :
    Refuses (w := w) (DataHead.length tag) (readChar (n+2) old tag isRequire)
      (DataHead.writeTo type tag ++ body) := by
  apply refuses_field hw hf.ne_structEnd
  cases hf with
  | zero => exact .nil
  | char _ n => exact refuses_readByType (length_store 1 n)
  | short h _ => omega
  | int32 h _ => omega
  | int64 h _ => omega

theorem refuses_readShort (hw : 32 ≤ w) (hf : IntForm 16 type body i) (old : BitVec 16) :
    Refuses (w := w) (DataHead.length tag) (readShort (n+2) old tag isRequire)
      (DataHead.writeTo type tag ++ body) := by
  apply refuses_field hw hf.ne_structEnd
  cases hf with
  | zero => exact .nil
  | char _ n => exact refuses_stored 1 n
  | short _ n => exact refuses_stored 2 _
  | int32 h _ => omega
  | int64 h _ => omega

theorem refuses_readInt64 (hw : 32 ≤ w) (hf : IntForm 64 type body i) (old : BitVec 64) :
    Refuses (w := w) (DataHead.length tag) (readInt64 (n+2) old tag isRequire)
      (DataHead.writeTo type tag ++ body) := by
  apply refuses_field hw hf.ne_structEnd
  cases hf with
  | zero => exact .nil
  | char _ n => exact refuses_stored 1 n
  | short _ n => exact refuses_stored 2 _
  | int32 _ n => exact refuses_stored 4 _
  | int64 _ n => exact refuses_stored 8 _

/-- A write in one of the forms that its reader refuses when they are cut. -/
theorem refuses_written {u : ℕ} {m : Decode w α} (hwrite : ∃ type body,
    enc = DataHead.writeTo type tag ++ body ∧ IntForm u type body i)
    (hread : ∀ type body, IntForm u type body i →
      Refuses h m (DataHead.writeTo type tag ++ body)) : Refuses h m enc := by
  obtain ⟨type,body,rfl,hf⟩ := hwrite
  exact hread type body hf

theorem refuses_readFloat (hw : 32 ≤ w) (x : BitVec 32) {old : BitVec 32} :
    Refuses (w := w) (DataHead.length tag) (readFloat (n+2) old tag isRequire)
      (writeFloat x tag) := refuses_field hw (by simp) (refuses_stored 4 _)

theorem refuses_readDouble (F : FloatConversion) (hw : 32 ≤ w) (x : BitVec 64) {old : BitVec 64} :
    Refuses (w := w) (DataHead.length tag) (readDouble F (n+2) old tag isRequire)
      (writeDouble x tag) := refuses_field hw (by simp) (refuses_stored 8 _)

theorem refuses_readString {s old : List Byte} (hw : 32 ≤ w) (hs : StringForm type body s) :
    Refuses (w := w) (DataHead.length tag) (readString (n+2) old tag isRequire)
      (DataHead.writeTo type tag ++ body) := by
  apply refuses_field hw hs.ne_structEnd
  cases hs with
  | string1 h =>
    have hp := two_pow_32_le hw
    refine .bind (refuses_readByType (length_store 1 _)) (reads_stored 1 rfl _).settles
      (refuses_readBuf ?_)
    rw [BitVec.toNat_setWidth,BitVec.toNat_ofNat,Nat.mod_eq_of_lt,Nat.mod_eq_of_lt] <;> omega
  | string4 h =>
    have hlen : s.length < 2^32 := by unfold jceMaxStringLength at h; omega
    refine .bind (refuses_readByType (length_store 4 _)) (reads_stored 4 rfl _).settles ?_
    dsimp only
    rw [swap_swap (by omega),BitVec.toNat_ofNat,Nat.mod_eq_of_lt hlen,if_neg (by omega)]
    exact refuses_readBuf (toNat_setWidth_size hw hlen)

end Typed

section Required
variable {r s : BufferReader w} {tag : BitVec 8}

theorem readField_missing {found : Decode w Bool} {missing : String} {old : α}
    {switch : HeadType → Decode w α} (hf : found r = .returned false s) :
    Refused (readField found true missing old switch) r :=
  .after hf ⟨_,s,rfl,rfl⟩

theorem JceType.read_missing (E : Env) (h : ∀ m, n ≤ m → skipToTag m tag r = .returned false s)
    (t : JceType) (old : Val t) : Refused (t.read E (n+1) old tag true) r := by
  have hn := h n (Nat.le_refl n)
  have hs := h (n+1) (Nat.le_succ n)
  cases t with
  | bool => exact (readField_missing hs).bind
  | uint8 => exact (readField_missing hs).bind
  | uint16 => exact (readField_missing hn).bind
  | uint32 => exact (readField_missing hs).bind
  | int32 => exact readField_missing hn
  | enum => exact readField_missing hn
  | _ =>
    rw [JceType.read]
    exact readField_missing hs

theorem Stub.not_found (hw : 32 ≤ w) (hbuf : buf.length + 1 < 2^w) (hp : p ≤ buf.length)
    (hs : Stub (buf.drop p)) (tag : BitVec 8) (m : ℕ) (hm : 2 ≤ m) :
    Jce.skipToTag m tag (readerAt w buf p) = .returned false (readerAt w buf p) := by
  obtain ⟨k,rfl⟩ := Nat.exists_eq_add_of_le' hm
  exact hs.skipToTag hw hbuf hp tag

/-- A required read also refuses a field of which not even the head has arrived. -/
theorem Refuses.required {m : Decode w α}
    (he : ∃ type body, enc = DataHead.writeTo type tag ++ body)
    (hm : Refuses (DataHead.length tag) m enc) (hmissing : ∀ buf p, buf.length + 1 < 2^w →
      p ≤ buf.length → Stub (buf.drop p) → Refused m (readerAt w buf p)) : Refuses 0 m enc := by
  intro buf p cut rest harr hrest _
  by_cases hle : DataHead.length tag ≤ cut.length
  · exact hm _ _ _ _ harr hrest hle
  · obtain ⟨type,body,he⟩ := he
    refine hmissing buf p (harr.buf_succ_lt hrest) harr.le ?_
    rw [harr.here]
    exact harr.stub he (by omega)

theorem Refuses.read {E : Env} {t : JceType} {old : Val t} (hw : 32 ≤ w)
    (he : ∃ type body, enc = DataHead.writeTo type tag ++ body)
    (hm : Refuses (w := w) (DataHead.length tag) (t.read E (n+3) old tag true) enc) :
    Refuses (w := w) 0 (t.read E (n+3) old tag true) enc :=
  hm.required he fun _ _ hbuf hp hs => t.read_missing E (n := n+2)
    (fun m hm => hs.not_found hw hbuf hp tag m (by omega)) old

end Required

section Sizes
variable {len : ℕ} {invalid : BitVec 32 → String}

theorem reads_sizeField (hw : 32 ≤ w) : Reads (w := w) 0 (readUInt32 (n+3) 0 0 true)
    (writeInt32 (BitVec.ofNat 32 len) 0) (BitVec.ofNat 32 len) := by
  obtain ⟨type,body,he,hf⟩ := writeInt32_form (BitVec.ofNat 32 len) 0
  rw [he]
  have h := (reads_readInt64 (w := w) (k := 0) (n := n) hw (hf.mono (by omega))
    ((0 : BitVec 32).setWidth 64) 0 true).map (g := fun i => i.setWidth 32)
  rwa [size_roundTrip] at h

/-- A size that stands there whole is taken, or is larger than the buffer. -/
theorem settles_readSize (hw : 32 ≤ w) : Settles (w := w) (readSize (n+3) invalid)
    (writeInt32 (BitVec.ofNat 32 len) 0) (BitVec.ofNat 32 len) := by
  intro buf p post hbuf hp hd
  have hread := reads_sizeField (n := n) hw buf p post hbuf hp hd (Nat.zero_le _)
  have hsize : ∀ r : BufferReader w, BufferReader.size r = .returned r.bufLen r := fun r => rfl
  let r := readerAt w buf (p+(writeInt32 (BitVec.ofNat 32 len) 0).length)
  by_cases hle : r.bufLen < (BitVec.ofNat 32 len).setWidth w
  · refine .inr (.after hread (.after (hsize _) ?_))
    rw [if_pos hle]
    exact ⟨_,_,rfl,rfl⟩
  · left
    rw [readSize,Exec.bind_of_returned hread,Exec.bind_of_returned (hsize _)]
    rw [if_neg hle]
    rfl

theorem refuses_readSize (hw : 32 ≤ w) : Refuses (w := w) 0 (readSize (n+3) invalid)
    (writeInt32 (BitVec.ofNat 32 len) 0) := by
  obtain ⟨type,body,he,hf⟩ := writeInt32_form (BitVec.ofNat 32 len) 0
  rw [he]
  have hm : Refuses (w := w) (DataHead.length 0)
      (JceType.uint32.read .plain (n+3) (0 : BitVec 32) 0 true)
      (DataHead.writeTo type 0 ++ body) := (refuses_readInt64 hw (hf.mono (by omega)) _).map
  exact (hm.read hw ⟨type,body,rfl⟩).map

end Sizes

section Containers
variable {tag : BitVec 8} {isRequire : Bool}

theorem refuses_readFrom {type : HeadType} (hw : 32 ≤ w) :
    Refuses (w := w) 0 DataHead.readFrom (DataHead.writeTo type tag) := by
  intro buf p cut rest harr hrest _
  have hl := congrArg List.length harr.split
  have hpos := List.length_pos_iff.mpr hrest
  rw [length_writeTo,List.length_append] at hl
  have hs : Stub (buf.drop p) := by
    rw [harr.here]
    exact harr.stub (List.append_nil _).symm (by omega)
  exact (hs.refused_peekFrom hw (harr.buf_succ_lt hrest) harr.le).bind

theorem refuses_readCharVector {v old : List Byte} (hw : 32 ≤ w) (hv : v.length < 2^32) :
    Refuses (w := w) (DataHead.length tag) (readCharVector (n+3) old tag isRequire)
      (writeCharVector v tag) := by
  rw [writeCharVector,List.append_assoc,List.append_assoc]
  apply refuses_field (n := n+1) hw (by simp)
  refine .bind (refuses_readFrom hw) (reads_readFrom hw).settles ?_
  rw [if_neg (by simp)]
  refine .bind (refuses_readSize hw) (settles_readSize hw) ?_
  exact refuses_readBuf (toNat_setWidth_size hw hv)

variable {read : α → Decode w α} {write : α → Encoded}

theorem refuses_elems {v : List α} (hbody : writeElems write v = .ok enc)
    (hlen : enc.length < 2^32) (hr : ∀ a ∈ v, RoundTrips w read (write a) a)
    (hc : ∀ a ∈ v, ∀ bs, write a = .ok bs → bs.length < 2^32 → ∀ old, Refuses 0 (read old) bs)
    {olds : List α} (ho : olds.length = v.length) : Refuses 0 (readElems read olds) enc := by
  induction v generalizing enc olds with
  | nil =>
    cases hbody
    exact .nil
  | cons a v ih =>
    obtain ⟨b,bs,hb,hbs,rfl⟩ := writeElems_cons_ok hbody
    rw [List.length_append] at hlen
    obtain ⟨old,olds,rfl⟩ := List.exists_cons_of_length_eq_add_one ho
    have ho' : olds.length = v.length := by simpa using ho
    have hfirst := (hr a (by simp) b hb (by omega)).2 old
    have hrest := ih hbs (by omega) (fun a ha => hr a (by simp [ha]))
      (fun a ha => hc a (by simp [ha])) ho'
    exact .bind (hc a (by simp) b hb (by omega) old) hfirst.settles hrest.map

theorem refuses_readVector {init : α} {v old : List α} (hw : 32 ≤ w)
    (henc : writeVector write v tag = .ok enc) (hlen : enc.length < 2^32)
    (hr : ∀ a ∈ v, RoundTrips w read (write a) a)
    (hc : ∀ a ∈ v, ∀ bs, write a = .ok bs → bs.length < 2^32 → ∀ old, Refuses 0 (read old) bs) :
    Refuses (DataHead.length tag) (readVector (n+3) read init old tag isRequire) enc := by
  obtain ⟨body,hbody,he⟩ := encoded_bind_ok henc
  cases he
  rw [List.append_assoc] at hlen ⊢
  simp only [List.length_append] at hlen
  obtain ⟨hle,-⟩ := reads_elems hbody (by omega) hr
  apply refuses_field (n := n+1) hw (by simp)
  refine .bind (refuses_readSize hw) (settles_readSize hw) ?_
  refine refuses_elems hbody (by omega) hr hc ?_
  rw [BitVec.toNat_ofNat,Nat.mod_eq_of_lt (by omega),resize,List.length_append,List.length_take,
    List.length_replicate]
  omega

variable {readKey : Decode w κ} {readValue : Decode w ν} {writeKey : κ → Encoded}
  {writeValue : ν → Encoded} {less : κ → κ → Bool}

theorem refuses_entries {m : List (κ × ν)} (done : List (κ × ν))
    (hbody : writeEntries writeKey writeValue m = .ok enc) (hlen : enc.length < 2^32)
    (hk : ∀ e ∈ m, RoundTrips w (fun _ => readKey) (writeKey e.1) e.1)
    (hv : ∀ e ∈ m, RoundTrips w (fun _ => readValue) (writeValue e.2) e.2)
    (hck : ∀ e ∈ m, ∀ bs, writeKey e.1 = .ok bs → bs.length < 2^32 → Refuses 0 readKey bs)
    (hcv : ∀ e ∈ m, ∀ bs, writeValue e.2 = .ok bs → bs.length < 2^32 → Refuses 0 readValue bs) :
    Refuses 0 (readEntries less readKey readValue m.length done) enc := by
  induction m generalizing enc done with
  | nil =>
    cases hbody
    exact .nil
  | cons e m ih =>
    obtain ⟨k,v,bs,hkey,hval,hbs,rfl⟩ := writeEntries_cons_ok hbody
    simp only [List.length_append] at hlen
    have hrk := (hk e (by simp) k hkey (by omega)).2 e.1
    have hrv := (hv e (by simp) v hval (by omega)).2 e.2
    have hrest := ih (mapInsert less e done) hbs (by omega) (fun e he => hk e (by simp [he]))
      (fun e he => hv e (by simp [he])) (fun e he => hck e (by simp [he]))
      fun e he => hcv e (by simp [he])
    rw [List.append_assoc]
    exact .bind (hck e (by simp) k hkey (by omega)) hrk.settles
      (.bind (hcv e (by simp) v hval (by omega)) hrv.settles hrest)

theorem writeEntries_length {m : List (κ × ν)}
    (hbody : writeEntries writeKey writeValue m = .ok enc) (hlen : enc.length < 2^32)
    (hk : ∀ e ∈ m, RoundTrips w (fun _ => readKey) (writeKey e.1) e.1) :
    m.length ≤ enc.length := by
  induction m generalizing enc with
  | nil => exact Nat.zero_le _
  | cons e m ih =>
    obtain ⟨k,v,bs,hkey,-,hbs,rfl⟩ := writeEntries_cons_ok hbody
    simp only [List.length_append] at hlen ⊢
    have hpos := (hk e (by simp) k hkey (by omega)).1
    have hle := ih hbs (by omega) fun e he => hk e (by simp [he])
    rw [List.length_cons]
    omega

theorem refuses_readMap {m old : List (κ × ν)} (hw : 32 ≤ w)
    (henc : writeMap writeKey writeValue m tag = .ok enc) (hlen : enc.length < 2^32)
    (hk : ∀ e ∈ m, RoundTrips w (fun _ => readKey) (writeKey e.1) e.1)
    (hv : ∀ e ∈ m, RoundTrips w (fun _ => readValue) (writeValue e.2) e.2)
    (hck : ∀ e ∈ m, ∀ bs, writeKey e.1 = .ok bs → bs.length < 2^32 → Refuses 0 readKey bs)
    (hcv : ∀ e ∈ m, ∀ bs, writeValue e.2 = .ok bs → bs.length < 2^32 → Refuses 0 readValue bs) :
    Refuses (DataHead.length tag) (readMap (n+3) less readKey readValue old tag isRequire) enc := by
  obtain ⟨body,hbody,he⟩ := encoded_bind_ok henc
  cases he
  rw [List.append_assoc] at hlen ⊢
  simp only [List.length_append] at hlen
  have hle := writeEntries_length hbody (by omega) hk
  apply refuses_field (n := n+1) hw (by simp)
  refine .bind (refuses_readSize hw) (settles_readSize hw) ?_
  rw [BitVec.toNat_ofNat,Nat.mod_eq_of_lt (by omega)]
  exact refuses_entries [] hbody (by omega) hk hv hck hcv

end Containers

end UninstallObserver.Jce
