import UninstallObserver.Jce.RoundTrip

/-! Passing over what was written, over all types. -/
namespace UninstallObserver.Jce
open Imperative ByteOrder BufferReader

variable {w : ℕ} {α κ ν : Type} {tag : BitVec 8} {type : HeadType} {body enc : List Byte}

/-- The body of a field of this type is passed over whole. Two units of fuel for each of
its bytes are enough. -/
def Passes (w : ℕ) (type : HeadType) (body : List Byte) : Prop :=
  ∀ n, 2*body.length+4 ≤ n → Reads (w := w) 0 (skipField n type) body ()

/-- `enc` is one field under this tag. -/
def IsField (w : ℕ) (tag : BitVec 8) (enc : List Byte) : Prop :=
  ∃ type body, enc = DataHead.writeTo type tag ++ body ∧ type ≠ .eStructEnd ∧ Passes w type body

/-- The fields of a list, a map or a struct, one after the other. -/
inductive FieldSeq (w : ℕ) : ℕ → List Byte → Prop where
  | nil : FieldSeq w 0 []
  | cons {k : ℕ} {enc rest : List Byte} {tag : BitVec 8} (first : IsField w tag enc)
      (others : FieldSeq w k rest) : FieldSeq w (k+1) (enc ++ rest)

section Scalars

/-- A body whose size the type alone decides. -/
theorem passes_fixed {len : BitVec w} (hlen : len.toNat = body.length)
    (h : ∀ n, skipField (w := w) (n+1) type = skip len) : Passes w type body := by
  intro n hn
  obtain ⟨n,rfl⟩ : ∃ m, n = m+1 := ⟨n-1,by omega⟩
  rw [h]
  exact reads_skip hlen

theorem toNat_small (hw : 32 ≤ w) {k : ℕ} (hk : k ≤ 8) : (BitVec.ofNat w k).toNat = k := by
  have hp := Nat.pow_le_pow_right (show 0 < 2 by omega) hw
  rw [BitVec.toNat_ofNat,Nat.mod_eq_of_lt (by omega)]

theorem passes_int {v : ℕ} {i : ℤ} (hw : 32 ≤ w) (h : IntForm v type body i) :
    Passes w type body := by
  cases h with
  | zero =>
    intro n hn
    obtain ⟨n,rfl⟩ : ∃ m, n = m+1 := ⟨n-1,by omega⟩
    exact .pure ()
  | char _ n => exact passes_fixed (toNat_small hw (k := 1) (by omega)) fun _ => rfl
  | short _ n => exact passes_fixed (toNat_small hw (k := 2) (by omega)) fun _ => rfl
  | int32 _ n => exact passes_fixed (toNat_small hw (k := 4) (by omega)) fun _ => rfl
  | int64 _ n => exact passes_fixed (toNat_small hw (k := 8) (by omega)) fun _ => rfl

theorem passes_string {s : List Byte} (hw : 32 ≤ w) (h : StringForm type body s) :
    Passes w type body := by
  intro n hn
  obtain ⟨n,rfl⟩ : ∃ m, n = m+1 := ⟨n-1,by omega⟩
  cases h with
  | string1 h =>
    have hp := two_pow_32_le hw
    refine (reads_stored 1 rfl _).bind (reads_skip (k := 0) ?_) (Nat.zero_le _)
    rw [BitVec.toNat_setWidth,BitVec.toNat_ofNat,Nat.mod_eq_of_lt,Nat.mod_eq_of_lt] <;> omega
  | string4 h =>
    have hlen : s.length < 2^32 := by unfold jceMaxStringLength at h; omega
    refine (reads_stored 4 rfl _).bind (reads_skip (k := 0) ?_) (Nat.zero_le _)
    rw [swap_swap (by omega)]
    exact toNat_setWidth_size hw hlen

theorem isField_string {s : List Byte} (hw : 32 ≤ w) (h : writeString s tag = .ok enc) :
    IsField w tag enc := by
  by_cases hs : s.length ≤ jceMaxStringLength
  · obtain ⟨type,body,he,hf⟩ := writeString_form hs tag
    cases he.symm.trans h
    exact ⟨type,body,rfl,hf.ne_structEnd,passes_string hw hf⟩
  · have hlong : 255 < s.length := by unfold jceMaxStringLength at hs; omega
    rw [writeString,if_pos hlong,if_pos (by omega)] at h
    cases h

theorem isField_int {v : ℕ} {i : ℤ} (hw : 32 ≤ w)
    (h : ∃ type body, enc = DataHead.writeTo type tag ++ body ∧ IntForm v type body i) :
    IsField w tag enc := by
  obtain ⟨type,body,he,hf⟩ := h
  exact ⟨type,body,he,hf.ne_structEnd,passes_int hw hf⟩

end Scalars

section Sizes
variable {len n : ℕ}

/-- The size of a container, as it is read before the container is passed over. -/
theorem reads_size (hw : 32 ≤ w) : Reads (w := w) 0 (readInt32 (n+3) 0 0 true)
    (writeInt32 (BitVec.ofNat 32 len) 0) (BitVec.ofNat 32 len) := by
  obtain ⟨type,body,he,hf⟩ := writeInt32_form (BitVec.ofNat 32 len) 0
  have h := reads_readInt32 (w := w) (k := 0) (n := n) hw hf 0 0 true
  rwa [BitVec.ofInt_toInt,← he] at h

theorem toInt_size (h : len < 2^31) : (BitVec.ofNat 32 len).toInt = len := by
  rw [BitVec.toInt_eq_toNat_bmod,BitVec.toNat_ofNat,Nat.mod_eq_of_lt (by omega)]
  apply Int.bmod_eq_of_le <;> omega

theorem toInt_double_size (h : 2*len < 2^31) :
    (BitVec.ofNat 32 len*2).toInt.toNat = 2*len := by
  have hm : BitVec.ofNat 32 len*2 = BitVec.ofNat 32 (2*len) := by
    rw [Nat.mul_comm,BitVec.ofNat_mul]
    rfl
  rw [hm,toInt_size h,Int.toNat_natCast]

theorem toNat_signExtend_size (hw : 32 ≤ w) (h : len < 2^31) :
    ((BitVec.ofNat 32 len).signExtend w).toNat = len := by
  have hp := two_pow_32_le hw
  rw [BitVec.signExtend,toInt_size h,BitVec.ofInt_natCast,BitVec.toNat_ofNat,
    Nat.mod_eq_of_lt (by omega)]

end Sizes

section Containers

theorem IsField.length_pos (h : IsField w tag enc) : 0 < enc.length := by
  obtain ⟨type,body,rfl,-,-⟩ := h
  exact form_length_pos rfl

theorem FieldSeq.length_le {k : ℕ} {bs : List Byte} (h : FieldSeq w k bs) : k ≤ bs.length := by
  induction h with
  | nil => exact Nat.le_refl 0
  | cons first _ ih =>
    have hpos := first.length_pos
    rw [List.length_append]
    omega

/-- A loop turn over one field, with fuel for what follows. -/
theorem IsField.turn {f : DataHead → Decode w α} {rest : List Byte} {a : α} {n : ℕ} (hw : 32 ≤ w)
    (h : IsField w tag enc) (hn : 2*enc.length+2 ≤ n)
    (hf : ∀ type, type ≠ .eStructEnd → Reads 0 (f ⟨type,tag⟩) rest a) :
    Reads 0 (DataHead.readFrom >>= fun h => skipField n h.type >>= fun _ => f h)
      (enc ++ rest) a := by
  obtain ⟨type,body,rfl,ht,hp⟩ := h
  have hpos := length_writeTo_pos type tag
  rw [List.length_append] at hn
  rw [List.append_assoc]
  refine (reads_readFrom (k := 0) hw).bind (l := 0) ?_ (Nat.zero_le _)
  exact (hp n (by omega)).bind (hf type ht) (Nat.zero_le _)

theorem FieldSeq.skipFields {k n : ℕ} {bs : List Byte} (hw : 32 ≤ w) (h : FieldSeq w k bs)
    (hn : 2*bs.length+5 ≤ n) : Reads (w := w) 0 (skipFields n k) bs () := by
  induction h generalizing n with
  | nil =>
    obtain ⟨n,rfl⟩ : ∃ m, n = m+1 := ⟨n-1,by omega⟩
    exact .pure ()
  | cons first others ih =>
    obtain ⟨n,rfl⟩ : ∃ m, n = m+1 := ⟨n-1,by omega⟩
    have hpos := first.length_pos
    rw [List.length_append] at hn
    rw [Jce.skipFields]
    exact first.turn hw (by omega) fun _ _ => ih (by omega)

theorem FieldSeq.skipToStructEnd {k n : ℕ} {bs : List Byte} (hw : 32 ≤ w) (h : FieldSeq w k bs)
    (hn : 2*bs.length+5 ≤ n) : Reads (w := w) 0 (skipToStructEnd n)
      (bs ++ DataHead.writeTo .eStructEnd 0) () := by
  induction h generalizing n with
  | nil =>
    obtain ⟨n,rfl⟩ : ∃ m, n = m+2 := ⟨n-2,by omega⟩
    exact reads_skipToStructEnd hw
  | cons first others ih =>
    obtain ⟨n,rfl⟩ : ∃ m, n = m+1 := ⟨n-1,by omega⟩
    have hpos := first.length_pos
    rw [List.length_append] at hn
    rw [Jce.skipToStructEnd,List.append_assoc]
    refine first.turn hw (by omega) fun type ht => ?_
    rw [if_neg ht]
    exact ih (by omega)

theorem writeElems_seq {write : α → Encoded} {v : List α} (hbody : writeElems write v = .ok body)
    (h : ∀ a ∈ v, ∀ enc, write a = .ok enc → enc.length ≤ body.length →
      ∃ tag, IsField w tag enc) : FieldSeq w v.length body := by
  induction v generalizing body with
  | nil =>
    cases hbody
    exact .nil
  | cons a v ih =>
    obtain ⟨b,bs,hb,hbs,rfl⟩ := writeElems_cons_ok hbody
    obtain ⟨tag,hfirst⟩ := h a (by simp) b hb (by simp)
    refine .cons hfirst (ih hbs fun a ha enc henc hlen => h a (by simp [ha]) enc henc ?_)
    rw [List.length_append]
    omega

theorem writeEntries_seq {writeKey : κ → Encoded} {writeValue : ν → Encoded}
    {m : List (κ × ν)} (hbody : writeEntries writeKey writeValue m = .ok body)
    (hk : ∀ e ∈ m, ∀ enc, writeKey e.1 = .ok enc → enc.length ≤ body.length →
      ∃ tag, IsField w tag enc)
    (hv : ∀ e ∈ m, ∀ enc, writeValue e.2 = .ok enc → enc.length ≤ body.length →
      ∃ tag, IsField w tag enc) : FieldSeq w (2*m.length) body := by
  induction m generalizing body with
  | nil =>
    cases hbody
    exact .nil
  | cons e m ih =>
    obtain ⟨k,v,bs,hkey,hval,hbs,rfl⟩ := writeEntries_cons_ok hbody
    simp only [List.length_append] at hk hv
    obtain ⟨_,hfirst⟩ := hk e (by simp) k hkey (by omega)
    obtain ⟨_,hsecond⟩ := hv e (by simp) v hval (by omega)
    rw [List.append_assoc,List.length_cons,Nat.mul_add,Nat.mul_one]
    refine .cons hfirst (.cons hsecond (ih hbs ?_ ?_))
    · exact fun e he enc henc hlen => hk e (by simp [he]) enc henc (by omega)
    · exact fun e he enc henc hlen => hv e (by simp [he]) enc henc (by omega)

/-- A container: its size and its fields. -/
theorem FieldSeq.isField_sized {k : ℕ} {bs : List Byte} {f : BitVec 32 → ℕ} {len : ℕ}
    (hw : 32 ≤ w) (h : FieldSeq w k bs) (hf : f (BitVec.ofNat 32 len) = k)
    (ht : type ≠ .eStructEnd) (hskip : ∀ n, skipField (w := w) (n+1) type =
      readInt32 n 0 0 true >>= fun size => Jce.skipFields n (f size)) :
    IsField w tag (DataHead.writeTo type tag ++ (writeInt32 (BitVec.ofNat 32 len) 0 ++ bs)) := by
  refine ⟨type,_,rfl,ht,fun n hn => ?_⟩
  obtain ⟨n,rfl⟩ : ∃ m, n = m+4 := ⟨n-4,by omega⟩
  obtain ⟨_,_,he,_⟩ := writeInt32_form (BitVec.ofNat 32 len) 0
  have hpos := form_length_pos he
  rw [List.length_append] at hn
  rw [hskip]
  refine (reads_size hw).bind (l := 0) ?_ (Nat.zero_le _)
  rw [hf]
  exact h.skipFields hw (by omega)

theorem isField_charVector {v : List Byte} (hw : 32 ≤ w) (hlen : v.length < 2^31) :
    IsField w tag (writeCharVector v tag) := by
  rw [writeCharVector,List.append_assoc,List.append_assoc]
  refine ⟨.eSimpleList,_,rfl,by simp,fun n hn => ?_⟩
  obtain ⟨n,rfl⟩ : ∃ m, n = m+4 := ⟨n-4,by omega⟩
  refine (reads_readFrom (k := 0) hw).bind (l := 0) ?_ (Nat.zero_le _)
  rw [if_neg (by simp)]
  refine (reads_size hw).bind (l := 0) ?_ (Nat.zero_le _)
  exact reads_skip (toNat_signExtend_size hw hlen)

end Containers

mutual

/-- What a write of any type appends is one field, which is passed over whole. -/
theorem JceType.isField (hw : 32 ≤ w) : (t : JceType) → (v : Val t) → ∀ tag enc,
    t.write v tag = .ok enc → enc.length < 2^31 → IsField w tag enc
  | .bool, _, _, _, h, _ => by cases h; exact isField_int hw (writeChar_form _ _)
  | .char, _, _, _, h, _ => by cases h; exact isField_int hw (writeChar_form _ _)
  | .uint8, _, _, _, h, _ => by cases h; exact isField_int hw (writeShort_form _ _)
  | .short, _, _, _, h, _ => by cases h; exact isField_int hw (writeShort_form _ _)
  | .uint16, _, _, _, h, _ => by cases h; exact isField_int hw (writeInt32_form _ _)
  | .int32, _, _, _, h, _ => by cases h; exact isField_int hw (writeInt32_form _ _)
  | .uint32, _, _, _, h, _ => by cases h; exact isField_int hw (writeInt64_form _ _)
  | .int64, _, _, _, h, _ => by cases h; exact isField_int hw (writeInt64_form _ _)
  | .enum, _, _, _, h, _ => by cases h; exact isField_int hw (writeInt32_form _ _)
  | .float, v, _, _, h, _ => by
    cases h
    exact ⟨_,_,rfl,by simp,passes_fixed (toNat_small hw (k := 4) (by omega)) fun _ => rfl⟩
  | .double, v, _, _, h, _ => by
    cases h
    exact ⟨_,_,rfl,by simp,passes_fixed (toNat_small hw (k := 8) (by omega)) fun _ => rfl⟩
  | .string, s, tag, enc, h, _ => isField_string hw h
  | .charVector, v, tag, _, h, hlen => by
    cases h
    exact isField_charVector hw ((length_le_writeCharVector v).trans_lt hlen)
  | .vector t, v, tag, _, h, hlen => by
    obtain ⟨body,hbody,he⟩ := encoded_bind_ok h
    cases he
    rw [List.append_assoc] at hlen ⊢
    simp only [List.length_append] at hlen
    have hseq : FieldSeq w v.length body := writeElems_seq hbody fun a _ enc henc hle =>
      ⟨0,t.isField hw a 0 enc henc (by omega)⟩
    have hk := hseq.length_le
    exact hseq.isField_sized (f := fun size => size.toInt.toNat) hw
      (by rw [toInt_size (by omega),Int.toNat_natCast]) (by simp) fun _ => rfl
  | .map k v, m, tag, _, h, hlen => by
    obtain ⟨body,hbody,he⟩ := encoded_bind_ok h
    cases he
    rw [List.append_assoc] at hlen ⊢
    simp only [List.length_append] at hlen
    have hseq : FieldSeq w (2*m.length) body := writeEntries_seq hbody
      (fun e _ enc henc hle => ⟨0,k.isField hw e.1 0 enc henc (by omega)⟩)
      fun e _ enc henc hle => ⟨1,v.isField hw e.2 1 enc henc (by omega)⟩
    have hk := hseq.length_le
    exact hseq.isField_sized (f := fun size => (size*2).toInt.toNat) hw
      (toInt_double_size (by omega)) (by simp) fun _ => rfl
  | .struct fs, v, tag, _, h, hlen => by
    obtain ⟨body,hbody,he⟩ := encoded_bind_ok h
    cases he
    rw [List.append_assoc] at hlen ⊢
    simp only [List.length_append] at hlen
    obtain ⟨k,hseq⟩ := fs.fieldSeq hw v body hbody (by omega)
    refine ⟨.eStructBegin,_,rfl,by simp,fun n hn => ?_⟩
    obtain ⟨n,rfl⟩ : ∃ m, n = m+1 := ⟨n-1,by omega⟩
    have hpos := length_writeTo_pos .eStructEnd 0
    rw [List.length_append] at hn
    exact hseq.skipToStructEnd hw (by omega)

theorem Fields.fieldSeq (hw : 32 ≤ w) : {lo : ℕ} → (fs : Fields lo) → (v : Vals fs) → ∀ body,
    fs.writeTo v = .ok body → body.length < 2^31 → ∃ k, FieldSeq w k body
  | _, .nil, _, _, h, _ => by
    cases h
    exact ⟨0,.nil⟩
  | _, .cons tag _ _ t rest, v, body, h, hlen => by
    obtain ⟨b,hb,hrest⟩ := encoded_bind_ok h
    obtain ⟨bs,hbs,he⟩ := encoded_bind_ok hrest
    cases he
    rw [List.length_append] at hlen
    obtain ⟨k,hseq⟩ := rest.fieldSeq hw v.2 bs hbs (by omega)
    exact ⟨k+1,.cons (t.isField hw v.1 tag b hb (by omega)) hseq⟩

end

end UninstallObserver.Jce
