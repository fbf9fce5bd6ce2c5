import UninstallObserver.Jce.LengthPrefixed
import UninstallObserver.Jce.RoundTrip

/-! The overloads for arrays behind a pointer, beside those for vectors. -/
namespace UninstallObserver.Jce
open Imperative ByteOrder BufferReader

variable {w n : ℕ} {α : Type}

/-- `write(const char*)`, defined where there are as many bytes as `len` says. -/
def writeChars (buf : List Byte) (len : BitVec 32) (tag : BitVec 8) : Option (List Byte) :=
  if len.toNat ≤ buf.length then
    some (DataHead.writeTo .eSimpleList tag ++ DataHead.writeTo .eChar 0 ++ writeUInt32 len 0
      ++ buf.take len.toNat)
  else none

/-- `write(const T*)`. The loop counts up to the length as an `Int32`, and never turns where
that is negative; an element behind the end of the array is written after all the others. -/
def writeArray (write : α → Encoded) (v : List α) (len : BitVec 32) (tag : BitVec 8) :
    Option Encoded :=
  match writeElems write (v.take len.toInt.toNat) with
  | .error e => some (.error e)
  | .ok body =>
    if len.toInt.toNat ≤ v.length then
      some (.ok (DataHead.writeTo .eList tag ++ writeUInt32 len 0 ++ body))
    else none

section Writes
variable {len : BitVec 32} {tag : BitVec 8} {v : List α} {write : α → Encoded}

theorem ofNat_length (hlen : len.toNat = v.length) : BitVec.ofNat 32 v.length = len := by
  rw [← hlen,BitVec.ofNat_toNat,BitVec.setWidth_eq]

theorem toInt_setWidth_len (len : BitVec 32) : (len.setWidth 64).toInt = len.toNat := by
  rw [BitVec.toInt_eq_toNat_of_lt]
  · rw [BitVec.toNat_setWidth,Nat.mod_eq_of_lt (by have := len.isLt; omega)]
  · rw [BitVec.toNat_setWidth,Nat.mod_eq_of_lt (by have := len.isLt; omega)]
    have := len.isLt
    omega

/-- As long as a length is the same as an `Int32`, it is written as one. -/
theorem writeUInt32_of_lt (hlen : len.toNat < 2^31) (tag : BitVec 8) :
    writeUInt32 len tag = writeInt32 len tag := by
  have hint := toInt_setWidth_len len
  rw [writeUInt32,writeInt64,if_pos (by rw [hint]; omega)]
  congr 1
  exact setWidth_narrow (by omega) len

theorem writeUInt32_of_le (hlen : 2^31 ≤ len.toNat) (tag : BitVec 8) :
    writeUInt32 len tag =
      DataHead.writeTo .eInt64 tag ++ store 8 (jceHtonll (len.setWidth 64)) := by
  have hint := toInt_setWidth_len len
  rw [writeUInt32,writeInt64,if_neg (by rw [hint]; omega)]

/-- An `Int32` never begins like an `Int64`. -/
theorem writeUInt32_ne (hlen : 2^31 ≤ len.toNat) (xs ys : List Byte) :
    writeUInt32 len 0 ++ xs ≠ writeInt32 len 0 ++ ys := by
  obtain ⟨type,body,he,hf⟩ := writeInt32_form len 0
  have hfirst (type : HeadType) (zs : List Byte) :
      (DataHead.writeTo type 0 ++ zs).head? = some (DataHead.helper type 0) := rfl
  rw [writeUInt32_of_le hlen,he,List.append_assoc,List.append_assoc]
  intro h
  have hhead := congrArg List.head? h
  rw [hfirst,hfirst] at hhead
  generalize len.toInt = i at hf
  cases hf with
  | int64 hv _ => omega
  | _ => exact absurd hhead (by decide)

/-- The two overloads write the same for exactly the lengths that an `Int32` holds. -/
theorem writeArray_eq_iff (hlen : len.toNat = v.length) {body : List Byte}
    (hbody : writeElems write v = .ok body) :
    writeArray write v len tag = some (writeVector write v tag) ↔ v.length < 2^31 := by
  have hself := ofNat_length hlen
  have hvector : writeVector write v tag =
      .ok (DataHead.writeTo .eList tag ++ writeInt32 len 0 ++ body) := by
    rw [writeVector,hbody,hself]
    rfl
  by_cases hsmall : v.length < 2^31
  · refine iff_of_true ?_ hsmall
    rw [← hlen] at hsmall
    have hint : len.toInt.toNat = v.length := by
      rw [BitVec.toInt_eq_toNat_of_lt (by omega),← hlen]
      rfl
    rw [writeArray,hint,List.take_length,hbody,hvector,writeUInt32_of_lt hsmall]
    exact if_pos (Nat.le_refl _)
  · refine iff_of_false (fun heq => ?_) hsmall
    rw [← hlen] at hsmall
    have hint : len.toInt.toNat = 0 := by
      have hlt := len.isLt
      rw [BitVec.toInt_eq_toNat_cond,if_neg (by omega)]
      omega
    rw [writeArray,hint,List.take_zero,hvector] at heq
    have hbytes := Except.ok.inj (Option.some.inj ((if_pos (Nat.zero_le _)).symm.trans heq))
    rw [List.append_assoc,List.append_assoc] at hbytes
    exact writeUInt32_ne (Nat.not_lt.mp hsmall) _ _ (List.append_cancel_left hbytes)

theorem writeChars_eq_iff {v : List Byte} (hlen : len.toNat = v.length) :
    writeChars v len tag = some (writeCharVector v tag) ↔ v.length < 2^31 := by
  have hself := ofNat_length hlen
  rw [writeChars,writeCharVector,if_pos hlen.le,hlen,List.take_length,hself,Option.some.injEq]
  by_cases hsmall : v.length < 2^31
  · refine iff_of_true ?_ hsmall
    rw [writeUInt32_of_lt (hlen ▸ hsmall)]
  · refine iff_of_false (fun heq => ?_) hsmall
    rw [List.append_assoc,List.append_assoc _ (writeInt32 len 0)] at heq
    exact writeUInt32_ne (hlen ▸ Nat.not_lt.mp hsmall) _ _ (List.append_cancel_left heq)

end Writes

section Reads
variable {tag : BitVec 8} {isRequire : Bool}

/-- Read over the first elements of an array; the others stay. -/
theorem reads_fillArray {read : α → Decode w α} {write : α → Encoded} {v : List α}
    {body : List Byte} (hbody : writeElems write v = .ok body) (hlen : body.length < 2^32)
    (h : ∀ a ∈ v, RoundTrips w read (write a) a) {old : List α} (hroom : v.length ≤ old.length) :
    Reads 0 (fillArray read v.length old) body (v ++ old.drop v.length) := by
  induction v generalizing body old with
  | nil =>
    cases hbody
    exact .pure _
  | cons a v ih =>
    obtain ⟨b,bs,hb,hbs,rfl⟩ := writeElems_cons_ok hbody
    rw [List.length_append] at hlen
    obtain ⟨o,old,rfl⟩ := List.exists_cons_of_length_pos (Nat.lt_of_lt_of_le (Nat.succ_pos _) hroom)
    obtain ⟨-,hread⟩ := h a (by simp) b hb (by omega)
    have hrest := ih hbs (by omega) (fun a ha => h a (by simp [ha])) (Nat.le_of_succ_le_succ hroom)
    exact (hread o).bind hrest.map (Nat.zero_le _)

/-- The outcome of a read that gets no value: it throws `e`, or its behaviour is undefined. -/
inductive Fails {σ : Type} : Option JceException → Outcome JceException σ α → Prop where
  | undefined : Fails none .undefined
  | threw (e : JceException) (s : σ) : Fails (some e) (.threw e s)

/-- At the bytes `enc`, `m` fails for the reason `why`. -/
def FailsAt (why : Option JceException) (m : Decode w α) (enc : List Byte) : Prop :=
  ∀ buf p post, buf.length < 2^w → p ≤ buf.length → buf.drop p = enc ++ post →
    Fails why (m (readerAt w buf p))

variable {β : Type} {why : Option JceException} {m : Decode w α} {f : α → Decode w β}
  {enc enc' : List Byte}

theorem FailsAt.bind (hm : FailsAt why m enc) : FailsAt why (m >>= f) enc := by
  intro buf p post hb hp hd
  have hfirst := hm buf p post hb hp hd
  rw [Exec.bind_apply]
  generalize m (readerAt w buf p) = o at hfirst ⊢
  cases hfirst with
  | undefined => exact .undefined
  | threw e s => exact .threw e s

theorem Reads.failsAt {k : ℕ} {a : α} (hm : Reads k m enc a) (hf : FailsAt why (f a) enc')
    (hk : k ≤ enc'.length) : FailsAt why (m >>= f) (enc ++ enc') := by
  intro buf p post hb hp hd
  have hd' : buf.drop p = enc ++ (enc' ++ post) := by rw [hd,List.append_assoc]
  have hlen := congrArg List.length hd'
  simp only [List.length_drop, List.length_append] at hlen
  have hnext : buf.drop (p+enc.length) = enc' ++ post := by
    rw [← List.drop_drop,hd',List.drop_left]
  have hfirst := hm buf p (enc' ++ post) hb hp hd' (by rw [List.length_append]; omega)
  rw [Exec.bind_of_returned hfirst]
  exact hf buf (p+enc.length) post hb (by omega) hnext

theorem failsAt_field {type : HeadType} {missing : String} {old : α} {body : List Byte}
    {switch : HeadType → Decode w α} (hw : 32 ≤ w) (ht : type ≠ .eStructEnd)
    (hs : FailsAt why (switch type) body) :
    FailsAt why (readField (skipToTag (n+2) tag) isRequire missing old switch)
      (DataHead.writeTo type tag ++ body) := by
  intro buf p post hb hp hd
  have hd' : buf.drop p = DataHead.writeTo type tag ++ (body ++ post) := by
    rw [hd,List.append_assoc]
  rw [readField,Exec.bind_of_returned (skipToTag_here hw hb hp hd' ht),if_pos rfl]
  exact ((reads_readFrom (k := 0) hw).failsAt hs (Nat.zero_le _)) buf p post hb hp hd

/-- The element behind the end of the array is where it fails. -/
theorem failsAt_fillArray {read : α → Decode w α} {write : α → Encoded} {v : List α}
    {body : List Byte} (hbody : writeElems write v = .ok body) (hlen : body.length < 2^32)
    (h : ∀ a ∈ v, RoundTrips w read (write a) a) {old : List α} (hroom : old.length < v.length) :
    FailsAt none (fillArray read v.length old) body := by
  induction v generalizing body old with
  | nil => exact absurd hroom (Nat.not_lt_zero _)
  | cons a v ih =>
    obtain ⟨b,bs,hb,hbs,rfl⟩ := writeElems_cons_ok hbody
    rw [List.length_append] at hlen
    cases old with
    | nil => exact fun _ _ _ _ _ _ => .undefined
    | cons o old =>
      obtain ⟨-,hread⟩ := h a (by simp) b hb (by omega)
      have hrest := ih hbs (by omega) (fun a ha => h a (by simp [ha])) (Nat.lt_of_succ_lt_succ hroom)
      exact (hread o).failsAt hrest.bind (Nat.zero_le _)

end Reads

section Overloads
variable {tag : BitVec 8} {isRequire : Bool} {len : BitVec 32}

theorem length_writeVector {write : α → Encoded} {v : List α} {enc : List Byte}
    (h : writeVector write v tag = .ok enc) : ∃ body, writeElems write v = .ok body ∧
      enc = DataHead.writeTo .eList tag ++ (writeInt32 (BitVec.ofNat 32 v.length) 0 ++ body) ∧
        body.length ≤ enc.length := by
  obtain ⟨body,hbody,he⟩ := encoded_bind_ok h
  cases he
  refine ⟨body,hbody,List.append_assoc _ _ _,?_⟩
  simp only [List.length_append]
  omega

/-- What a vector was written as is read into an array that has room for it. -/
theorem reads_readArray {read : α → Decode w α} {write : α → Encoded} {v : List α} (hw : 32 ≤ w)
    (hlen : len.toNat = v.length) (h : ∀ a ∈ v, RoundTrips w read (write a) a) {enc : List Byte}
    (henc : writeVector write v tag = .ok enc) (hsmall : enc.length < 2^32) (old : List α)
    (room readLen : BitVec 32) (hroom : v.length ≤ old.length) :
    Reads 0 (readArray (n+3) read old room readLen tag isRequire) enc (v ++ old.drop v.length,len) := by
  obtain ⟨body,hbody,rfl,hle⟩ := length_writeVector henc
  obtain ⟨hcount,-⟩ := reads_elems hbody (hle.trans_lt hsmall) h
  have hself := ofNat_length hlen
  have hfill := reads_fillArray hbody (hle.trans_lt hsmall) h hroom
  refine reads_field (n := n+1) hw (by simp) ((reads_readSize hw).bind (l := 0) ?_ (by omega))
  rw [hself,hlen]
  exact hfill.map (g := fun v => (v,len))

/-- Into an array that is too short it is read past the end, whatever length the caller says. -/
theorem failsAt_readArray {read : α → Decode w α} {write : α → Encoded} {v : List α} (hw : 32 ≤ w)
    (hlen : len.toNat = v.length) (h : ∀ a ∈ v, RoundTrips w read (write a) a) {enc : List Byte}
    (henc : writeVector write v tag = .ok enc) (hsmall : enc.length < 2^32) (old : List α)
    (room readLen : BitVec 32) (hroom : old.length < v.length) :
    FailsAt none (readArray (n+3) read old room readLen tag isRequire) enc := by
  obtain ⟨body,hbody,rfl,hle⟩ := length_writeVector henc
  obtain ⟨hcount,-⟩ := reads_elems hbody (hle.trans_lt hsmall) h
  have hself := ofNat_length hlen
  have hfill := failsAt_fillArray hbody (hle.trans_lt hsmall) h hroom
  refine failsAt_field (n := n+1) hw (by simp) ((reads_readSize hw).failsAt ?_ hcount)
  rw [hself,hlen]
  exact hfill.bind

end Overloads

section Chars
variable {tag : BitVec 8} {isRequire : Bool} {len bufLen readLen : BitVec 32} {v buf : List Byte}

theorem reads_bytes (hw : 32 ≤ w) (hlen : len.toNat = v.length) :
    Reads (w := w) 0 (readBuf (len.setWidth w)) v v :=
  reads_readBuf (by rw [← ofNat_length hlen,toNat_setWidth_size hw (hlen ▸ len.isLt)])

/-- The bytes of a vector are copied into a buffer that has room for them. -/
theorem reads_readChars (hw : 32 ≤ w) (hlen : len.toNat = v.length)
    (htold : v.length ≤ bufLen.toNat) (hroom : v.length ≤ buf.length) :
    Reads (w := w) 0 (readChars (n+3) buf bufLen readLen tag isRequire) (writeCharVector v tag)
      (v ++ buf.drop v.length,len) := by
  have hcopy : Reads (w := w) 0 (readBuf (len.setWidth w) >>= fun bs =>
      if buf.length < bs.length then Exec.undefined
      else pure (bs ++ buf.drop bs.length,len)) (v ++ []) (v ++ buf.drop v.length,len) :=
    (reads_bytes hw hlen).bind (l := 0) (by rw [if_neg (Nat.not_lt.mpr hroom)]; exact .pure _)
      (Nat.zero_le _)
  rw [List.append_nil] at hcopy
  have hbody : Reads (w := w) 0 (readCharsBody (n+3) buf bufLen tag)
      (DataHead.writeTo .eChar 0 ++ (writeInt32 (BitVec.ofNat 32 v.length) 0 ++ v))
      (v ++ buf.drop v.length,len) := by
    refine (reads_readFrom (k := 0) hw).bind (l := 0) ?_ (Nat.zero_le _)
    refine (reads_readUInt32 (k := 0) hw).bind (l := 0) ?_ (Nat.zero_le _)
    rw [ofNat_length hlen,if_neg (by rw [BitVec.lt_def,hlen]; omega)]
    exact hcopy
  rw [writeCharVector,List.append_assoc,List.append_assoc]
  exact reads_field hw (by simp) hbody

/-- Past the heads and the size, all that is left is to look at the size and to copy. -/
theorem failsAt_readChars {why : Option JceException} (hw : 32 ≤ w) (hlen : len.toNat = v.length)
    (h : FailsAt (w := w) why (if bufLen < len then
        Exec.throw (.jceDecodeInvalidValue (invalidSimpleListSize tag .eChar len))
      else readBuf (len.setWidth w) >>= fun bs =>
        if buf.length < bs.length then Exec.undefined
        else pure (bs ++ buf.drop bs.length,len)) v) :
    FailsAt why (readChars (w := w) (n+3) buf bufLen readLen tag isRequire)
      (writeCharVector v tag) := by
  have hbody : FailsAt why (readCharsBody (w := w) (n+3) buf bufLen tag)
      (DataHead.writeTo .eChar 0 ++ (writeInt32 (BitVec.ofNat 32 v.length) 0 ++ v)) := by
    refine (reads_readFrom (k := 0) hw).failsAt ?_ (Nat.zero_le _)
    refine (reads_readUInt32 (k := 0) hw).failsAt ?_ (Nat.zero_le _)
    rw [ofNat_length hlen]
    exact h
  rw [writeCharVector,List.append_assoc,List.append_assoc]
  exact failsAt_field hw (by simp) hbody

/-- More bytes than the caller says there is room for are refused. -/
theorem failsAt_readChars_told (hw : 32 ≤ w) (hlen : len.toNat = v.length)
    (htold : bufLen.toNat < v.length) :
    FailsAt (some (.jceDecodeInvalidValue (invalidSimpleListSize tag .eChar len)))
      (readChars (w := w) (n+3) buf bufLen readLen tag isRequire) (writeCharVector v tag) := by
  apply failsAt_readChars hw hlen
  rw [if_pos (by rw [BitVec.lt_def,hlen]; omega)]
  exact fun _ _ _ _ _ _ => .threw _ _

/-- Where the caller says more than there is, the copy runs past the end. -/
theorem failsAt_readChars_room (hw : 32 ≤ w) (hlen : len.toNat = v.length)
    (htold : v.length ≤ bufLen.toNat) (hroom : buf.length < v.length) :
    FailsAt none (readChars (w := w) (n+3) buf bufLen readLen tag isRequire)
      (writeCharVector v tag) := by
  apply failsAt_readChars hw hlen
  rw [if_neg (by rw [BitVec.lt_def,hlen]; omega)]
  have hcopy : FailsAt none (readBuf (w := w) (len.setWidth w) >>= fun bs =>
      if buf.length < bs.length then Exec.undefined
      else pure (bs ++ buf.drop bs.length,len)) (v ++ []) :=
    (reads_bytes hw hlen).failsAt (by rw [if_pos hroom]; exact fun _ _ _ _ _ _ => .undefined)
      (Nat.zero_le _)
  rwa [List.append_nil] at hcopy

end Chars

section Overloads
variable {len : BitVec 32}

/-- Where vector and pointer agree, elements of any type. -/
theorem arrays_agree (E : Env) (hw : 32 ≤ w) (t : JceType) {v : List (Val t)}
    (hv : ∀ a ∈ v, Val.Valid E t a) (hlen : len.toNat = v.length) (tag : BitVec 8) :
    (writeArray (fun a => t.write a 0) v len tag = some (writeVector (fun a => t.write a 0) v tag) ↔
      v.length < 2^31) ∧
    ∀ enc, writeVector (fun a => t.write a 0) v tag = .ok enc → enc.length < 2^32 →
      ∀ (old : List (Val t)) (room readLen : BitVec 32) (isRequire : Bool) (buf : List Byte)
        (p : ℕ) (post : List Byte), buf.length < 2^w → p ≤ buf.length → buf.drop p = enc ++ post →
          let m := readArray (n+3) (fun a => t.read E (n+3) a 0 true) old room readLen tag isRequire
          (m (readerAt w buf p) =
            .returned (v ++ old.drop v.length,len) (readerAt w buf (p+enc.length)) ↔
              v.length ≤ old.length) ∧
          (m (readerAt w buf p) = .undefined ↔ old.length < v.length) := by
  obtain ⟨body,hbody⟩ := writeElems_ok fun a ha => t.write_ok E a (hv a ha) 0
  refine ⟨writeArray_eq_iff hlen hbody,?_⟩
  intro enc henc hsmall old room readLen isRequire buf p post hb hp hd m
  have hback := fun a ha => t.roundTrips E hw n a (hv a ha) 0 true
  rcases Nat.lt_or_ge old.length v.length with hshort | hroom
  · have hfail : Fails none (m (readerAt w buf p)) :=
      failsAt_readArray hw hlen hback henc hsmall old room readLen hshort buf p post hb hp hd
    generalize m (readerAt w buf p) = o at hfail ⊢
    cases hfail
    simp [hshort]
  · have hread : m (readerAt w buf p) = .returned _ _ :=
      reads_readArray hw hlen hback henc hsmall old room readLen hroom buf p post hb hp hd
        (Nat.zero_le _)
    rw [hread]
    simp [hroom]

/-- The length that the caller gives does not help a reader whose array has one element. -/
theorem arrays_agree_ints :
    let sent := [0x09,0x00,0x02,0x00,0x03,0x00,0x07]
    let ints : List (BitVec 32) → List (Val .int32) := id
    let m := fun old => readArray 3 (fun a => JceType.int32.read Env.plain 3 a 0 true) old 1 0 0 true
    m (ints [0,0,9]) (setBufferVector (w := 32) sent) =
        .returned (ints [3,7,9],2) (readerAt 32 sent 7) ∧
      m (ints [0]) (setBufferVector (w := 32) sent) = .undefined := by
  intro sent ints m
  have hlen : (2 : BitVec 32).toNat = (ints [3,7]).length := rfl
  have h := (arrays_agree (w := 32) (n := 0) Env.plain (Nat.le_refl 32) .int32
    (fun _ _ => trivial) hlen 0).2 sent rfl (by decide)
  exact ⟨(h (ints [0,0,9]) 1 0 true sent 0 [] (by decide) (by decide) rfl).1.mpr (by decide),
    (h (ints [0]) 1 0 true sent 0 [] (by decide) (by decide) rfl).2.mpr (by decide)⟩

/-- Where vector and pointer agree, bytes. -/
theorem chars_agree (hw : 32 ≤ w) {v : List Byte} (hlen : len.toNat = v.length)
    (tag : BitVec 8) :
    (writeChars v len tag = some (writeCharVector v tag) ↔ v.length < 2^31) ∧
    ∀ (old : List Byte) (bufLen readLen : BitVec 32) (isRequire : Bool) (buf : List Byte)
      (p : ℕ) (post : List Byte), buf.length < 2^w → p ≤ buf.length →
        buf.drop p = writeCharVector v tag ++ post →
          let m := readChars (n+3) old bufLen readLen tag isRequire
          (m (readerAt w buf p) = .returned (v ++ old.drop v.length,len)
            (readerAt w buf (p+(writeCharVector v tag).length)) ↔
              v.length ≤ bufLen.toNat ∧ v.length ≤ old.length) ∧
          (m (readerAt w buf p) = .undefined ↔
            v.length ≤ bufLen.toNat ∧ old.length < v.length) ∧
          ((∃ s, m (readerAt w buf p) =
            .threw (.jceDecodeInvalidValue (invalidSimpleListSize tag .eChar len)) s) ↔
              bufLen.toNat < v.length) := by
  refine ⟨writeChars_eq_iff hlen,?_⟩
  intro old bufLen readLen isRequire buf p post hb hp hd m
  rcases Nat.lt_or_ge bufLen.toNat v.length with htold | htold
  · have hfail : Fails (some _) (m (readerAt w buf p)) :=
      failsAt_readChars_told hw hlen htold buf p post hb hp hd
    generalize m (readerAt w buf p) = o at hfail ⊢
    cases hfail
    simp [htold]
  · rcases Nat.lt_or_ge old.length v.length with hshort | hroom
    · have hfail : Fails none (m (readerAt w buf p)) :=
        failsAt_readChars_room hw hlen htold hshort buf p post hb hp hd
      generalize m (readerAt w buf p) = o at hfail ⊢
      cases hfail
      simp [htold,hshort]
    · have hread : m (readerAt w buf p) = .returned _ _ :=
        reads_readChars hw hlen htold hroom buf p post hb hp hd (Nat.zero_le _)
      rw [hread]
      simp [htold,hroom]

/-- The room that the caller gives is looked at, and the room that there is is not. -/
theorem chars_agree_bytes :
    let sent := [0x0d,0x00,0x00,0x02,0x61,0x62]
    let m := fun old room => readChars 3 old room 0 0 true
    m [0,0,9] 3 (setBufferVector (w := 32) sent) = .returned ([0x61,0x62,9],2) (readerAt 32 sent 6) ∧
      m [0] 3 (setBufferVector (w := 32) sent) = .undefined ∧
        ∃ s, m [0,0,9] 1 (setBufferVector (w := 32) sent) = .threw
          (.jceDecodeInvalidValue (invalidSimpleListSize 0 .eChar 2)) s := by
  intro sent m
  have hlen : (2 : BitVec 32).toNat = ([0x61,0x62] : List Byte).length := rfl
  have h := (chars_agree (w := 32) (n := 0) (Nat.le_refl 32) hlen 0).2
  exact ⟨(h [0,0,9] 3 0 true sent 0 [] (by decide) (by decide) rfl).1.mpr (by decide),
    (h [0] 3 0 true sent 0 [] (by decide) (by decide) rfl).2.1.mpr (by decide),
    (h [0,0,9] 1 0 true sent 0 [] (by decide) (by decide) rfl).2.2.mpr (by decide)⟩

end Overloads
end UninstallObserver.Jce
