import UninstallObserver.Jce.Refuses

/-! Structs of which only the first bytes have arrived, and what can be had from them. -/
namespace UninstallObserver.Jce
open Imperative ByteOrder BufferReader

variable {w n : ℕ} {α β : Type} {enc cut rest buf : List Byte} {p : ℕ}

/-- What the members hold where none of them is there, unless one is required: an enumeration is 0,
any other what it was. -/
def Fields.absent : {lo : ℕ} → (fs : Fields lo) → Vals fs → Option (Vals fs)
  | _, .nil, _ => some ()
  | _, .cons _ _ isRequire t rest, old =>
    if isRequire then none
    else (rest.absent old.2).map fun as => (t.unread old.1,as)

/-- What can be had from the first `n` bytes of the members of `v`: a member that is whole is
as it was written, and from a member whose head is not there on, none must be required. -/
def Fields.salvage : {lo : ℕ} → (fs : Fields lo) → (v old : Vals fs) → ℕ → Option (Vals fs)
  | _, .nil, _, _, _ => some ()
  | _, .cons tag ascending isRequire t rest, v, old, n =>
    match t.write v.1 tag with
    | .error _ => none
    | .ok enc =>
      if enc.length ≤ n then
        (rest.salvage v.2 old.2 (n-enc.length)).map fun as => (v.1,as)
      else if n < DataHead.length tag then
        (Fields.cons tag ascending isRequire t rest).absent old
      else none

/-- The first member is there, or from it on there is none. -/
theorem Fields.salvage_cons_some {lo : ℕ} {tag : BitVec 8} {ascending : lo ≤ tag.toNat}
    {isRequire : Bool} {t : JceType} {rest : Fields (tag.toNat+1)}
    {v old a : Vals (Fields.cons tag ascending isRequire t rest)} (henc : t.write v.1 tag = .ok enc)
    (ha : (Fields.cons tag ascending isRequire t rest).salvage v old n = some a) :
    (enc.length ≤ n ∧ ∃ as, rest.salvage v.2 old.2 (n-enc.length) = some as ∧ a = (v.1,as)) ∨
      (n < enc.length ∧ (Fields.cons tag ascending isRequire t rest).absent old = some a) := by
  rw [Fields.salvage] at ha
  simp only [henc] at ha
  split at ha
  · next hle =>
    obtain ⟨as,has,he⟩ := Option.map_eq_some_iff.mp ha
    exact .inl ⟨hle,as,has,he.symm⟩
  · next hlt =>
    split at ha
    · exact .inr ⟨not_le.mp hlt,ha⟩
    · cases ha

/-- `m` returns what is expected and stops before no more than a stub, or it throws. -/
def Gives (m : Decode w α) (buf : List Byte) (p : ℕ) : Option α → Prop
  | some a => ∃ q, m (readerAt w buf p) = .returned a (readerAt w buf q) ∧ q ≤ buf.length ∧
      Stub (buf.drop q)
  | none => Refused m (readerAt w buf p)

section Structs
variable {tag : BitVec 8} {isRequire : Bool}

theorem Gives.bind {m : Decode w α} {f : α → Decode w β} {g : α → β} {o : Option α}
    (hm : Gives m buf p o) (hf : ∀ a, f a = pure (g a)) : Gives (m >>= f) buf p (o.map g) := by
  cases o with
  | none => exact Refused.bind hm
  | some a =>
    obtain ⟨q,ha,hq,hs⟩ := hm
    exact ⟨q,by rw [Exec.bind_of_returned ha,hf]; rfl,hq,hs⟩

theorem Gives.after {m : Decode w α} {f : α → Decode w β} {a : α} {q : ℕ} {o : Option β}
    (hm : m (readerAt w buf p) = .returned a (readerAt w buf q)) (hf : Gives (f a) buf q o) :
    Gives (m >>= f) buf p o := by
  cases o with
  | none => exact Refused.after hm hf
  | some b =>
    obtain ⟨q',hb,hq⟩ := hf
    exact ⟨q',(Exec.bind_of_returned hm).trans hb,hq⟩

theorem Fields.gives_absent (E : Env) (hw : 32 ≤ w) (hbuf : buf.length + 1 < 2^w)
    (hp : p ≤ buf.length) (hs : Stub (buf.drop p)) {lo : ℕ} (fs : Fields lo) (old : Vals fs) :
    Gives (fs.readFrom (w := w) E (n+3) old) buf p (fs.absent old) := by
  cases fs with
  | nil => exact ⟨p,rfl,hp,hs⟩
  | cons tag _ isRequire t rest =>
    have hfound : ∀ m, n+2 ≤ m → skipToTag m tag (readerAt w buf p) =
        .returned false (readerAt w buf p) :=
      fun m hm => hs.not_found hw hbuf hp tag m (by omega)
    cases isRequire with
    | true => exact (t.read_missing E hfound old.1).bind
    | false =>
      exact .after (t.read_absent E hfound old.1)
        ((rest.gives_absent E hw hbuf hp hs old.2).bind fun _ => rfl)
termination_by structural fs

/-- Of a struct that is not whole, its end is missing. -/
theorem Arrived.before_end {body : List Byte}
    (harr : Arrived w buf p (body ++ DataHead.writeTo .eStructEnd 0) cut rest) (hrest : rest ≠ []) :
    ∃ rest', Arrived w buf p body cut rest' := by
  have hroom := harr.room
  have hend : (DataHead.writeTo .eStructEnd 0).length = 1 := rfl
  have hpos := List.length_pos_iff.mpr hrest
  have hsplit := congrArg List.length harr.split
  rw [List.length_append,hend] at hroom
  simp only [List.length_append,hend] at hsplit
  by_cases hle : body.length ≤ cut.length
  · obtain ⟨cut',rfl,-⟩ := harr.first hle
    rw [List.length_append] at hsplit
    obtain rfl : cut' = [] := List.length_eq_zero_iff.mp (by omega)
    exact ⟨[],by omega,harr.le,harr.here,by simp⟩
  · obtain ⟨rest',-,harr'⟩ := harr.within (by omega)
    exact ⟨rest',harr'⟩

theorem refuses_readStruct {read : α → Decode w α} {old : α} {body : List Byte} {o : ℕ → Option α}
    (hw : 32 ≤ w) (hread : ∀ buf p cut rest, Arrived w buf p body cut rest →
      buf.length + 1 < 2^w → Gives (read old) buf p (o cut.length)) :
    Refuses (DataHead.length tag) (readStruct (n+3) read old tag isRequire)
      (DataHead.writeTo .eStructBegin tag ++ (body ++ DataHead.writeTo .eStructEnd 0)) := by
  apply refuses_field (n := n+1) hw (by simp)
  intro buf p cut rest harr hrest _
  have hbuf := harr.buf_succ_lt hrest
  obtain ⟨rest',harr'⟩ := harr.before_end hrest
  have hgives := hread buf p cut rest' harr' hbuf
  cases ho : o cut.length with
  | none =>
    rw [ho] at hgives
    exact Refused.bind hgives
  | some a =>
    rw [ho] at hgives
    obtain ⟨q,ha,hq,hs⟩ := hgives
    exact .after ha (hs.refused_skipToStructEnd hw hbuf hq).bind

end Structs

section Heads

theorem written_head {f : List Byte → List Byte} {e : Encoded} {tag : BitVec 8} {type : HeadType}
    (h : (e >>= fun bs => pure (f bs)) = .ok enc)
    (hf : ∀ bs, ∃ body, f bs = DataHead.writeTo type tag ++ body) :
    ∃ type body, enc = DataHead.writeTo type tag ++ body := by
  obtain ⟨bs,-,he⟩ := encoded_bind_ok h
  obtain ⟨body,hbody⟩ := hf bs
  cases he
  exact ⟨type,body,hbody⟩

theorem formed_head {v : ℕ} {i : ℤ} {tag : BitVec 8} (h : ∃ type body,
    enc = DataHead.writeTo type tag ++ body ∧ IntForm v type body i) :
    ∃ type body, enc = DataHead.writeTo type tag ++ body := by
  obtain ⟨type,body,he,-⟩ := h
  exact ⟨type,body,he⟩

/-- Whatever is written begins with its head. -/
theorem JceType.write_head (E : Env) (t : JceType) (v : Val t) (hv : Val.Valid E t v)
    (tag : BitVec 8) (henc : t.write v tag = .ok enc) :
    ∃ type body, enc = DataHead.writeTo type tag ++ body := by
  cases t with
  | string =>
    obtain ⟨type,body,he,-⟩ := writeString_form (by rwa [Val.Valid] at hv) tag
    cases he.symm.trans henc
    exact ⟨type,body,rfl⟩
  | charVector =>
    cases henc
    exact ⟨.eSimpleList,_,(List.append_assoc _ _ _).trans (List.append_assoc _ _ _)⟩
  | vector t => exact written_head henc fun bs => ⟨_,List.append_assoc _ _ _⟩
  | map k v => exact written_head henc fun bs => ⟨_,List.append_assoc _ _ _⟩
  | struct fs => exact written_head henc fun bs => ⟨_,List.append_assoc _ _ _⟩
  | bool => cases henc; exact formed_head (writeChar_form _ _)
  | char => cases henc; exact formed_head (writeChar_form _ _)
  | uint8 => cases henc; exact formed_head (writeShort_form _ _)
  | short => cases henc; exact formed_head (writeShort_form _ _)
  | uint16 => cases henc; exact formed_head (writeInt32_form _ _)
  | int32 => cases henc; exact formed_head (writeInt32_form _ _)
  | enum => cases henc; exact formed_head (writeInt32_form _ _)
  | uint32 => cases henc; exact formed_head (writeInt64_form _ _)
  | int64 => cases henc; exact formed_head (writeInt64_form _ _)
  | float => cases henc; exact ⟨_,_,rfl⟩
  | double => cases henc; exact ⟨_,_,rfl⟩

end Heads

mutual

/-- A field cut behind its head is refused, whether it is required or not. -/
theorem JceType.refuses (E : Env) (hw : 32 ≤ w) (n : ℕ) : (t : JceType) → (v : Val t) →
    Val.Valid E t v → ∀ tag req enc, t.write v tag = .ok enc → enc.length < 2^32 → ∀ old,
      Refuses (w := w) (DataHead.length tag) (t.read E (n+3) old tag req) enc
  | .bool, _, _, _, _, _, henc, _, _ => by
    cases henc
    exact (refuses_written (writeChar_form _ _) fun _ _ hf => refuses_readChar hw hf _).map
  | .char, _, _, _, _, _, henc, _, _ => by
    cases henc
    exact refuses_written (writeChar_form _ _) fun _ _ hf => refuses_readChar hw hf _
  | .uint8, _, _, _, _, _, henc, _, _ => by
    cases henc
    exact (refuses_written (writeShort_form _ _) fun _ _ hf => refuses_readShort hw hf _).map
  | .short, _, _, _, _, _, henc, _, _ => by
    cases henc
    exact refuses_written (writeShort_form _ _) fun _ _ hf => refuses_readShort hw hf _
  | .uint16, _, _, _, _, _, henc, _, _ => by
    cases henc
    exact (refuses_written (writeInt32_form _ _) fun _ _ hf => refuses_readInt32 hw hf _).map
  | .int32, _, _, _, _, _, henc, _, _ => by
    cases henc
    exact refuses_written (writeInt32_form _ _) fun _ _ hf => refuses_readInt32 hw hf _
  | .enum, _, _, _, _, _, henc, _, _ => by
    cases henc
    exact refuses_written (writeInt32_form _ _) fun _ _ hf => refuses_readInt32 hw hf _
  | .uint32, _, _, _, _, _, henc, _, _ => by
    cases henc
    exact (refuses_written (writeInt64_form _ _) fun _ _ hf => refuses_readInt64 hw hf _).map
  | .int64, _, _, _, _, _, henc, _, _ => by
    cases henc
    exact refuses_written (writeInt64_form _ _) fun _ _ hf => refuses_readInt64 hw hf _
  | .float, _, _, _, _, _, henc, _, _ => by
    cases henc
    exact refuses_readFloat hw _
  | .double, _, _, _, _, _, henc, _, _ => by
    cases henc
    exact refuses_readDouble E.float hw _
  | .string, v, hv, tag, _, _, henc, _, _ => by
    obtain ⟨type,body,he,hf⟩ := writeString_form (by rwa [Val.Valid] at hv) tag
    cases he.symm.trans henc
    exact refuses_readString hw hf
  | .charVector, v, _, _, _, _, henc, hlen, _ => by
    cases henc
    exact refuses_readCharVector hw ((length_le_writeCharVector v).trans_lt hlen)
  | .vector t, v, hv, _, _, _, henc, hlen, _ =>
    refuses_readVector hw henc hlen (fun a ha => t.roundTrips E hw n a (hv a ha) 0 true)
      fun a ha bs hbs hl old => (t.refuses E hw n a (hv a ha) 0 true bs hbs hl old).read hw
        (t.write_head E a (hv a ha) 0 hbs)
  | .map k v, m, hm, _, _, _, henc, hlen, _ =>
    refuses_readMap hw henc hlen
      (fun e he bs hbs hl =>
        ⟨(k.roundTrips E hw n e.1 (hm.2 e he).1 0 true bs hbs hl).1,
          fun _ => (k.roundTrips E hw n e.1 (hm.2 e he).1 0 true bs hbs hl).2 _⟩)
      (fun e he bs hbs hl =>
        ⟨(v.roundTrips E hw n e.2 (hm.2 e he).2 1 true bs hbs hl).1,
          fun _ => (v.roundTrips E hw n e.2 (hm.2 e he).2 1 true bs hbs hl).2 _⟩)
      (fun e he bs hbs hl => (k.refuses E hw n e.1 (hm.2 e he).1 0 true bs hbs hl _).read hw
        (k.write_head E e.1 (hm.2 e he).1 0 hbs))
      fun e he bs hbs hl => (v.refuses E hw n e.2 (hm.2 e he).2 1 true bs hbs hl _).read hw
        (v.write_head E e.2 (hm.2 e he).2 1 hbs)
  | .struct fs, v, hv, _, _, _, henc, hlen, _ => by
    obtain ⟨body,hbody,he⟩ := encoded_bind_ok henc
    cases he
    rw [List.append_assoc] at hlen ⊢
    simp only [List.length_append] at hlen
    exact refuses_readStruct hw fun buf p cut rest harr hbuf =>
      fs.gives_salvage E hw n v hv body hbody (by omega) _ buf p cut rest harr hbuf

/-- Members of which only a part has arrived. -/
theorem Fields.gives_salvage (E : Env) (hw : 32 ≤ w) (n : ℕ) : {lo : ℕ} → (fs : Fields lo) →
    (v : Vals fs) → Vals.Valid E fs v → ∀ body, fs.writeTo v = .ok body → body.length < 2^32 →
      ∀ old buf p cut rest, Arrived w buf p body cut rest → buf.length + 1 < 2^w →
        Gives (fs.readFrom (w := w) E (n+3) old) buf p (fs.salvage v old cut.length)
  | _, .nil, v, _, body, hbody, _, old, buf, p, cut, rest, harr, hbuf => by
    cases hbody
    have hcut := (List.append_eq_nil_iff.mp harr.split.symm).1
    refine ⟨p,rfl,harr.le,?_⟩
    rw [harr.here,hcut]
    exact .nothing
  | _, .cons tag asc req t tail, v, hv, body, hbody, hlen, old, buf, p, cut, rest, harr, hbuf => by
    obtain ⟨enc,henc,htail⟩ := encoded_bind_ok hbody
    obtain ⟨bs,hbs,he⟩ := encoded_bind_ok htail
    cases he
    rw [List.length_append] at hlen
    rw [Fields.salvage,henc]
    dsimp only
    by_cases hle : enc.length ≤ cut.length
    · obtain ⟨cut',rfl,harr'⟩ := harr.first hle
      have hread := (t.roundTrips E hw n v.1 hv.1 tag req enc henc (by omega)).2 old.1 buf p cut'
        harr.buf_lt harr.le harr.here (Nat.zero_le _)
      have htail := tail.gives_salvage E hw n v.2 hv.2 bs hbs (by omega) old.2 _ _ _ _ harr' hbuf
      rw [if_pos hle,List.length_append,Nat.add_sub_cancel_left]
      exact .after hread (htail.bind fun _ => rfl)
    · obtain ⟨rest',hrest',harr'⟩ := harr.within (by omega)
      rw [if_neg hle]
      by_cases hlt : cut.length < DataHead.length tag
      · have hs : Stub (buf.drop p) := by
          rw [harr.here]
          exact harr'.stub (t.write_head E v.1 hv.1 tag henc).choose_spec.choose_spec hlt
        rw [if_pos hlt]
        exact Fields.gives_absent E hw hbuf harr.le hs (.cons tag asc req t tail) old
      · rw [if_neg hlt]
        have hfirst := t.refuses E hw n v.1 hv.1 tag req enc henc (by omega) old.1
        exact (hfirst buf p cut rest' harr' hrest' (by omega)).bind

end

/-- Of members cut short, exactly what can be salvaged is read; where nothing can be, the cut
does not go unnoticed. -/
theorem Fields.readFrom_truncated (E : Env) (hw : 32 ≤ w) {lo : ℕ} {fs : Fields lo} {v : Vals fs}
    (hv : Vals.Valid E fs v) {body : List Byte} (hbody : fs.writeTo v = .ok body)
    (hlen : body.length < 2^32) (old : Vals fs) (n : ℕ) {k : ℕ} (hk : k < body.length) :
    (∀ a, (∃ r, fs.readFrom (w := w) E (n+3) old (setBufferVector (body.take k)) = .returned a r) ↔
      fs.salvage v old k = some a) ∧
    (fs.salvage v old k = none →
      Refused (fs.readFrom (w := w) E (n+3) old) (setBufferVector (body.take k))) := by
  have hp := two_pow_32_le hw
  have htake : (body.take k).length = k := List.length_take_of_le hk.le
  have harr : Arrived w (body.take k) 0 body (body.take k) (body.drop k) :=
    ⟨by omega,Nat.zero_le _,rfl,(List.take_append_drop k body).symm⟩
  have hgives := fs.gives_salvage E hw n v hv body hbody hlen old _ _ _ _ harr (by omega)
  rw [htake] at hgives
  cases ho : fs.salvage v old k with
  | none =>
    rw [ho] at hgives
    obtain ⟨e,s,he,hd⟩ := hgives
    refine ⟨fun a => ⟨fun h => ?_,fun h => by cases h⟩,fun _ => ⟨e,s,he,hd⟩⟩
    obtain ⟨r,hr⟩ := h
    cases he.symm.trans hr
  | some a =>
    rw [ho] at hgives
    obtain ⟨q,ha,-⟩ := hgives
    refine ⟨fun b => ⟨fun h => ?_,fun h => ?_⟩,fun h => by cases h⟩
    · obtain ⟨r,hr⟩ := h
      cases ha.symm.trans hr
      rfl
    · cases h
      exact ⟨_,ha⟩

/-- A number and a string that may be missing. -/
def cutFields : Fields 0 :=
  .cons 0 (Nat.zero_le 0) true .int32 (.cons 20 (Nat.le_add_left 1 19) false .string .nil)

def cutValue : Vals cutFields := ((300 : BitVec 32),([65,66] : List Byte),())

theorem readFrom_truncated_cutFields : ∃ body, cutFields.writeTo cutValue = .ok body ∧
    ∃ r, cutFields.readFrom (w := 32) .plain 3 (Vals.init cutFields)
      (setBufferVector (body.take 4)) = .returned ((300 : BitVec 32),([] : List Byte),()) r := by
  have hv : Vals.Valid .plain cutFields cutValue :=
    ⟨trivial,Nat.le_of_ble_eq_true rfl,trivial⟩
  refine ⟨_,rfl,?_⟩
  exact ((Fields.readFrom_truncated .plain (le_refl 32) hv rfl (by decide) (Vals.init cutFields) 0
    (k := 4) (by decide)).1 _).mpr rfl

end UninstallObserver.Jce
