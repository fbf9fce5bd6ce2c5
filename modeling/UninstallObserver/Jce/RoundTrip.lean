import UninstallObserver.Jce.Types
import UninstallObserver.Jce.WireForms

/-! Reading what was written, over all types. -/
namespace UninstallObserver.Jce
open Imperative ByteOrder BufferReader

variable {w : ℕ} {α κ ν : Type}

/-- `read` takes `a` back from what was written for it, over any earlier value. -/
def RoundTrips (w : ℕ) (read : α → Decode w α) (written : Encoded) (a : α) : Prop :=
  ∀ enc, written = .ok enc → enc.length < 2^32 →
    0 < enc.length ∧ ∀ old, Reads 0 (read old) enc a

section Containers
variable {read : α → Decode w α} {write : α → Encoded}

theorem encoded_bind_ok {e : Encoded} {f : List Byte → Encoded} {enc : List Byte}
    (h : (e >>= f) = .ok enc) : ∃ bs, e = .ok bs ∧ f bs = .ok enc := by
  cases e with
  | error x => cases h
  | ok bs => exact ⟨bs,rfl,h⟩

theorem writeElems_cons_ok {a : α} {v : List α} {body : List Byte}
    (h : writeElems write (a::v) = .ok body) :
    ∃ b bs, write a = .ok b ∧ writeElems write v = .ok bs ∧ body = b ++ bs := by
  obtain ⟨b,hb,h⟩ := encoded_bind_ok h
  obtain ⟨bs,hbs,h⟩ := encoded_bind_ok h
  cases h
  exact ⟨b,bs,hb,hbs,rfl⟩

/-- Every element takes up a byte at least, so a size never exceeds the buffer. -/
theorem reads_elems {v : List α} {body : List Byte} (hbody : writeElems write v = .ok body)
    (hlen : body.length < 2^32) (h : ∀ a ∈ v, RoundTrips w read (write a) a) :
    v.length ≤ body.length ∧
      ∀ olds : List α, olds.length = v.length → Reads 0 (readElems read olds) body v := by
  induction v generalizing body with
  | nil =>
    cases hbody
    refine ⟨Nat.le_refl 0,fun olds ho => ?_⟩
    rw [List.length_eq_zero_iff.mp ho]
    exact .pure _
  | cons a v ih =>
    obtain ⟨b,bs,hb,hbs,rfl⟩ := writeElems_cons_ok hbody
    rw [List.length_append] at hlen
    obtain ⟨hpos,hread⟩ := h a (by simp) b hb (by omega)
    obtain ⟨hle,helems⟩ := ih hbs (by omega) fun a ha => h a (by simp [ha])
    refine ⟨by rw [List.length_append,List.length_cons]; omega,fun olds ho => ?_⟩
    obtain ⟨old,olds,rfl⟩ := List.exists_cons_of_length_eq_add_one ho
    have ho' : olds.length = v.length := by simpa using ho
    exact (hread old).bind ((helems olds ho').map) (Nat.zero_le _)

/-- An entry whose key comes after all keys of the map goes to its end. -/
theorem mapInsert_last {less : κ → κ → Bool} {m : List (κ × ν)} {e : κ × ν}
    (h : ∀ e' ∈ m, less e'.1 e.1) : mapInsert less e m = m ++ [e] := by
  induction m with
  | nil => rfl
  | cons e' m ih =>
    have he := h e' (by simp)
    rw [mapInsert,if_pos he,ih fun e'' h'' => h e'' (by simp [h''])]
    rfl

variable {readKey : Decode w κ} {readValue : Decode w ν} {writeKey : κ → Encoded}
  {writeValue : ν → Encoded} {less : κ → κ → Bool}

theorem writeEntries_cons_ok {e : κ × ν} {m : List (κ × ν)} {body : List Byte}
    (h : writeEntries writeKey writeValue (e::m) = .ok body) :
    ∃ k v bs, writeKey e.1 = .ok k ∧ writeValue e.2 = .ok v ∧
      writeEntries writeKey writeValue m = .ok bs ∧ body = k ++ v ++ bs := by
  obtain ⟨k,hk,h⟩ := encoded_bind_ok h
  obtain ⟨v,hv,h⟩ := encoded_bind_ok h
  obtain ⟨bs,hbs,h⟩ := encoded_bind_ok h
  cases h
  exact ⟨k,v,bs,hk,hv,hbs,rfl⟩

theorem reads_entries {m : List (κ × ν)} (done : List (κ × ν)) {body : List Byte}
    (hbody : writeEntries writeKey writeValue m = .ok body) (hlen : body.length < 2^32)
    (hord : (done ++ m).Pairwise fun a b => less a.1 b.1)
    (hk : ∀ e ∈ m, RoundTrips w (fun _ => readKey) (writeKey e.1) e.1)
    (hv : ∀ e ∈ m, RoundTrips w (fun _ => readValue) (writeValue e.2) e.2) :
    m.length ≤ body.length ∧
      Reads 0 (readEntries less readKey readValue m.length done) body (done ++ m) := by
  induction m generalizing body done with
  | nil =>
    cases hbody
    rw [List.append_nil]
    exact ⟨Nat.le_refl 0,.pure _⟩
  | cons e m ih =>
    obtain ⟨k,v,bs,hkey,hval,hbs,rfl⟩ := writeEntries_cons_ok hbody
    simp only [List.length_append] at hlen
    obtain ⟨hpos,hrk⟩ := hk e (by simp) k hkey (by omega)
    obtain ⟨-,hrv⟩ := hv e (by simp) v hval (by omega)
    have hins : mapInsert less e done = done ++ [e] :=
      mapInsert_last fun e' he' => List.pairwise_append.mp hord |>.2.2 e' he' e (by simp)
    have happ : done ++ e::m = (done ++ [e]) ++ m := by simp
    rw [happ] at hord ⊢
    obtain ⟨hle,hent⟩ := ih (done ++ [e]) hbs (by omega) hord (fun e' he' => hk e' (by simp [he']))
      fun e' he' => hv e' (by simp [he'])
    refine ⟨by simp only [List.length_append,List.length_cons]; omega,?_⟩
    rw [List.append_assoc,List.length_cons,readEntries]
    refine (hrk e.1).bind ((hrv e.2).bind (l := 0) ?_ (Nat.zero_le _)) (Nat.zero_le _)
    rw [show (e.1,e.2) = e from rfl,hins]
    exact hent

end Containers

section Structs
variable {n : ℕ} {tag : BitVec 8} {isRequire : Bool}

/-- The end of a struct that stands at the cursor. -/
theorem reads_skipToStructEnd (hw : 32 ≤ w) :
    Reads (w := w) 0 (skipToStructEnd (n+2)) (DataHead.writeTo .eStructEnd 0) () := by
  have h : Reads (w := w) 0 (skipToStructEnd (n+2)) (DataHead.writeTo .eStructEnd 0 ++ []) () := by
    rw [skipToStructEnd]
    refine (reads_readFrom (k := 0) hw).bind (l := 0) ?_ (Nat.zero_le _)
    exact (Reads.pure (w := w) (k := 0) ()).bind (.pure ()) (Nat.zero_le _)
  rwa [List.append_nil] at h

theorem reads_readStruct {read : α → Decode w α} {v old : α} {body : List Byte} (hw : 32 ≤ w)
    (h : ∀ old, Reads 0 (read old) body v) :
    Reads 0 (readStruct (n+3) read old tag isRequire) (DataHead.writeTo .eStructBegin tag ++
      (body ++ DataHead.writeTo .eStructEnd 0)) v :=
  reads_field hw (by simp)
    ((h old).bind ((reads_skipToStructEnd hw).map (g := fun _ => v)) (Nat.zero_le _))

end Structs

section Scalars
variable {n : ℕ} {tag : BitVec 8} {isRequire : Bool}

theorem form_length_pos {type : HeadType} {body enc : List Byte}
    (h : enc = DataHead.writeTo type tag ++ body) : 0 < enc.length := by
  have hpos := length_writeTo_pos type tag
  rw [h,List.length_append]
  omega

/-- A type that travels as an integer of `u` bits: `y` is what `x` is converted to, and
`g` converts what arrives. -/
theorem roundTrips_int {u : ℕ} {read : α → Decode w α} {enc : List Byte} {x : α} (y : BitVec u)
    (g : BitVec u → α) (hg : g y = x)
    (hwrite : ∃ type body, enc = DataHead.writeTo type tag ++ body ∧ IntForm u type body y.toInt)
    (hread : ∀ type body i, IntForm u type body i → ∀ old,
      Reads 0 (read old) (DataHead.writeTo type tag ++ body) (g (BitVec.ofInt u i))) :
    RoundTrips w read (.ok enc) x := by
  rintro _ ⟨⟩ _
  obtain ⟨type,body,he,hf⟩ := hwrite
  refine ⟨form_length_pos he,fun old => ?_⟩
  have h := hread type body _ hf old
  rw [BitVec.ofInt_toInt,hg] at h
  rwa [he]

theorem setWidth_narrow {u v : ℕ} (huv : v ≤ u) (x : BitVec v) :
    (x.setWidth u).setWidth v = x := by
  rw [BitVec.setWidth_setWidth_of_le x huv,BitVec.setWidth_eq]

theorem roundTrips_bool (hw : 32 ≤ w) (b : Bool) : RoundTrips w
    (fun old => readBool (n+3) old tag isRequire) (.ok (writeBool b tag)) b :=
  roundTrips_int (if b then 1 else 0) (· != 0) (by cases b <;> rfl) (writeChar_form _ _)
    fun _ _ _ hf _ => (reads_readChar hw hf _ _ _).map

theorem roundTrips_float (hw : 32 ≤ w) (x : BitVec 32) : RoundTrips w
    (fun old => readFloat (n+3) old tag isRequire) (.ok (writeFloat x tag)) x := by
  rintro _ ⟨⟩ _
  exact ⟨form_length_pos rfl,fun old => reads_field hw (by simp) (reads_swapped 4 rfl x (g := id))⟩

theorem roundTrips_double (F : FloatConversion) (hw : 32 ≤ w) (x : BitVec 64) : RoundTrips w
    (fun old => readDouble F (n+3) old tag isRequire) (.ok (writeDouble x tag)) x := by
  rintro _ ⟨⟩ _
  exact ⟨form_length_pos rfl,fun old => reads_field hw (by simp) (reads_htonll x)⟩

theorem roundTrips_string (hw : 32 ≤ w) {s : List Byte} (hs : s.length ≤ jceMaxStringLength)
    (tag : BitVec 8) (isRequire : Bool) :
    RoundTrips w (fun old => readString (n+3) old tag isRequire)
      (writeString s tag) s := by
  intro enc henc _
  obtain ⟨type,body,he,hf⟩ := writeString_form hs tag
  cases he.symm.trans henc
  exact ⟨form_length_pos rfl,fun old => reads_readString hw hf⟩

theorem roundTrips_charVector (hw : 32 ≤ w) (v : List Byte) (tag : BitVec 8) (isRequire : Bool) :
    RoundTrips w
    (fun old => readCharVector (n+3) old tag isRequire) (.ok (writeCharVector v tag)) v := by
  rintro _ ⟨⟩ hlen
  refine ⟨?_,fun old => reads_readCharVector hw ((length_le_writeCharVector v).trans_lt hlen)⟩
  rw [writeCharVector,List.append_assoc,List.append_assoc]
  exact form_length_pos rfl

end Scalars

section Compound
variable {n : ℕ} {tag : BitVec 8} {isRequire : Bool}

theorem roundTrips_vector {read : α → Decode w α} {write : α → Encoded} {init : α} {v : List α}
    (hw : 32 ≤ w) (h : ∀ a ∈ v, RoundTrips w read (write a) a) :
    RoundTrips w (fun old => readVector (n+3) read init old tag isRequire)
      (writeVector write v tag) v := by
  intro enc henc hlen
  obtain ⟨body,hbody,he⟩ := encoded_bind_ok henc
  cases he
  rw [List.append_assoc] at hlen ⊢
  refine ⟨form_length_pos rfl,fun old => ?_⟩
  simp only [List.length_append] at hlen
  obtain ⟨hle,helems⟩ := reads_elems hbody (by omega) h
  refine reads_field (n := n+1) hw (by simp)
    ((reads_readSize hw).bind (l := 0) ?_ (by omega))
  rw [BitVec.toNat_ofNat,Nat.mod_eq_of_lt (by omega)]
  apply helems _
  rw [resize,List.length_append,List.length_take,List.length_replicate]
  omega

theorem roundTrips_map {less : κ → κ → Bool} {readKey : Decode w κ} {readValue : Decode w ν}
    {writeKey : κ → Encoded} {writeValue : ν → Encoded} {m : List (κ × ν)} (hw : 32 ≤ w)
    (hord : m.Pairwise fun a b => less a.1 b.1)
    (hk : ∀ e ∈ m, RoundTrips w (fun _ => readKey) (writeKey e.1) e.1)
    (hv : ∀ e ∈ m, RoundTrips w (fun _ => readValue) (writeValue e.2) e.2) :
    RoundTrips w (fun old => readMap (n+3) less readKey readValue old tag isRequire)
      (writeMap writeKey writeValue m tag) m := by
  intro enc henc hlen
  obtain ⟨body,hbody,he⟩ := encoded_bind_ok henc
  cases he
  rw [List.append_assoc] at hlen ⊢
  refine ⟨form_length_pos rfl,fun old => ?_⟩
  simp only [List.length_append] at hlen
  obtain ⟨hle,hent⟩ := reads_entries [] hbody (by omega) hord hk hv
  refine reads_field (n := n+1) hw (by simp)
    ((reads_readSize hw).bind (l := 0) ?_ (by omega))
  rw [BitVec.toNat_ofNat,Nat.mod_eq_of_lt (by omega)]
  exact hent

end Compound

section Succeeds

theorem writeString_ok {s : List Byte} (h : s.length ≤ jceMaxStringLength) (tag : BitVec 8) :
    ∃ enc, writeString s tag = .ok enc := by
  obtain ⟨type,body,he,_⟩ := writeString_form h tag
  exact ⟨_,he⟩

theorem writeElems_ok {write : α → Encoded} {v : List α} (h : ∀ a ∈ v, ∃ enc, write a = .ok enc) :
    ∃ body, writeElems write v = .ok body := by
  induction v with
  | nil => exact ⟨[],rfl⟩
  | cons a v ih =>
    obtain ⟨b,hb⟩ := h a (by simp)
    obtain ⟨bs,hbs⟩ := ih fun a ha => h a (by simp [ha])
    exact ⟨b ++ bs,by rw [writeElems,hb,hbs]; rfl⟩

theorem writeEntries_ok (writeKey : κ → Encoded) (writeValue : ν → Encoded) {m : List (κ × ν)}
    (hk : ∀ e ∈ m, ∃ enc, writeKey e.1 = .ok enc) (hv : ∀ e ∈ m, ∃ enc, writeValue e.2 = .ok enc) :
    ∃ body, writeEntries writeKey writeValue m = .ok body := by
  induction m with
  | nil => exact ⟨[],rfl⟩
  | cons e m ih =>
    obtain ⟨k,hke⟩ := hk e (by simp)
    obtain ⟨v,hve⟩ := hv e (by simp)
    obtain ⟨bs,hbs⟩ := ih (fun e he => hk e (by simp [he])) fun e he => hv e (by simp [he])
    exact ⟨k ++ v ++ bs,by rw [writeEntries,hke,hve,hbs]; rfl⟩

theorem encoded_pure_ok {e : Encoded} {f : List Byte → List Byte} (h : ∃ bs, e = .ok bs) :
    ∃ enc, (e >>= fun bs => pure (f bs)) = .ok enc := by
  obtain ⟨bs,rfl⟩ := h
  exact ⟨f bs,rfl⟩

end Succeeds

mutual

/-- Writing a valid value does not throw. -/
theorem JceType.write_ok (E : Env) : (t : JceType) → (v : Val t) → Val.Valid E t v → ∀ tag,
    ∃ enc, t.write v tag = .ok enc
  | .string, _, hv, tag => writeString_ok hv tag
  | .vector t, _, hv, _ =>
    encoded_pure_ok (writeElems_ok fun a ha => t.write_ok E a (hv a ha) 0)
  | .map k v, _, hm, _ =>
    encoded_pure_ok (writeEntries_ok (fun a => k.write a 0) (fun b => v.write b 1)
      (fun e he => k.write_ok E e.1 (hm.2 e he).1 0)
      fun e he => v.write_ok E e.2 (hm.2 e he).2 1)
  | .struct fs, v, hv, _ => encoded_pure_ok (fs.writeTo_ok E v hv)
  | .bool, _, _, _ | .char, _, _, _ | .uint8, _, _, _ | .short, _, _, _ => ⟨_,rfl⟩
  | .uint16, _, _, _ | .int32, _, _, _ | .uint32, _, _, _ | .int64, _, _, _ => ⟨_,rfl⟩
  | .float, _, _, _ | .double, _, _, _ | .enum, _, _, _ | .charVector, _, _, _ => ⟨_,rfl⟩

theorem Fields.writeTo_ok (E : Env) : {lo : ℕ} → (fs : Fields lo) → (v : Vals fs) →
    Vals.Valid E fs v → ∃ body, fs.writeTo v = .ok body
  | _, .nil, _, _ => ⟨[],rfl⟩
  | _, .cons tag _ _ t rest, v, hv => by
    obtain ⟨b,hb⟩ := t.write_ok E v.1 hv.1 tag
    obtain ⟨bs,hbs⟩ := rest.writeTo_ok E v.2 hv.2
    exact ⟨b ++ bs,by rw [Fields.writeTo,hb,hbs]; rfl⟩

end

mutual

/-- Every overload of `read` undoes the overload of `write` for its type. -/
theorem JceType.roundTrips (E : Env) (hw : 32 ≤ w) (n : ℕ) : (t : JceType) → (v : Val t) →
    Val.Valid E t v → ∀ tag isRequire, RoundTrips w (fun old => t.read E (n+3) old tag isRequire)
      (t.write v tag) v
  | .bool, v, _, tag, req => roundTrips_bool hw v
  | .char, v, _, tag, req =>
    roundTrips_int v id rfl (writeChar_form _ _) fun _ _ _ hf _ => reads_readChar hw hf _ _ _
  | .uint8, v, _, tag, req =>
    roundTrips_int (BitVec.setWidth 16 v) (BitVec.setWidth 8) (setWidth_narrow (by omega) v)
      (writeShort_form _ _) fun _ _ _ hf _ => (reads_readShort hw hf _ _ _).map
  | .short, v, _, tag, req =>
    roundTrips_int v id rfl (writeShort_form _ _) fun _ _ _ hf _ => reads_readShort hw hf _ _ _
  | .uint16, v, _, tag, req =>
    roundTrips_int (BitVec.setWidth 32 v) (BitVec.setWidth 16) (setWidth_narrow (by omega) v)
      (writeInt32_form _ _) fun _ _ _ hf _ => (reads_readInt32 hw hf _ _ _).map
  | .int32, v, _, tag, req =>
    roundTrips_int v id rfl (writeInt32_form _ _) fun _ _ _ hf _ => reads_readInt32 hw hf _ _ _
  | .uint32, v, _, tag, req =>
    roundTrips_int (BitVec.setWidth 64 v) (BitVec.setWidth 32) (setWidth_narrow (by omega) v)
      (writeInt64_form _ _) fun _ _ _ hf _ => (reads_readInt64 hw hf _ _ _).map
  | .int64, v, _, tag, req =>
    roundTrips_int v id rfl (writeInt64_form _ _) fun _ _ _ hf _ => reads_readInt64 hw hf _ _ _
  | .float, v, _, tag, req => roundTrips_float hw v
  | .double, v, _, tag, req => roundTrips_double E.float hw v
  | .enum, v, _, tag, req =>
    roundTrips_int v id rfl (writeInt32_form _ _) fun _ _ _ hf _ => reads_readInt32 hw hf _ _ _
  | .string, v, hv, tag, req => roundTrips_string hw (by rwa [Val.Valid] at hv) tag req
  | .charVector, v, _, tag, req => roundTrips_charVector hw v tag req
  | .vector t, v, hv, tag, req =>
    roundTrips_vector hw fun a ha => t.roundTrips E hw n a (hv a ha) 0 true
  | .map k v, m, hm, tag, req =>
    roundTrips_map hw hm.1
      (fun e he => fun enc h hlen =>
        ⟨(k.roundTrips E hw n e.1 (hm.2 e he).1 0 true enc h hlen).1,
          fun _ => (k.roundTrips E hw n e.1 (hm.2 e he).1 0 true enc h hlen).2 _⟩)
      fun e he => fun enc h hlen =>
        ⟨(v.roundTrips E hw n e.2 (hm.2 e he).2 1 true enc h hlen).1,
          fun _ => (v.roundTrips E hw n e.2 (hm.2 e he).2 1 true enc h hlen).2 _⟩
  | .struct fs, v, hv, tag, req => by
    intro enc henc hlen
    obtain ⟨body,hbody,he⟩ := encoded_bind_ok henc
    cases he
    rw [List.append_assoc] at hlen ⊢
    refine ⟨form_length_pos rfl,fun old => reads_readStruct hw fun old => ?_⟩
    simp only [List.length_append] at hlen
    exact fs.roundTrips E hw n v hv body hbody (by omega) _

theorem Fields.roundTrips (E : Env) (hw : 32 ≤ w) (n : ℕ) : {lo : ℕ} → (fs : Fields lo) →
    (v : Vals fs) → Vals.Valid E fs v → ∀ body, fs.writeTo v = .ok body → body.length < 2^32 →
      ∀ old, Reads (w := w) 0 (fs.readFrom E (n+3) old) body v
  | _, .nil, _, _, body, hbody, _, old => by
    cases hbody
    exact .pure _
  | _, .cons tag _ req t rest, v, hv, body, hbody, hlen, old => by
    obtain ⟨b,hb,hrest⟩ := encoded_bind_ok hbody
    obtain ⟨bs,hbs,he⟩ := encoded_bind_ok hrest
    cases he
    rw [List.length_append] at hlen
    have hfirst := (t.roundTrips E hw n v.1 hv.1 tag req b hb (by omega)).2 old.1
    have hothers := rest.roundTrips E hw n v.2 hv.2 bs hbs (by omega) old.2
    exact hfirst.bind (hothers.map (g := fun as => (v.1,as))) (Nat.zero_le _)

end

end UninstallObserver.Jce
