import UninstallObserver.Jce.Consume
import UninstallObserver.Jce.OutputStream

/-! The forms that integers, sizes and strings take on the wire. -/
namespace UninstallObserver.Jce
open Imperative ByteOrder BufferReader

variable {w : ℕ} {α : Type} {k : ℕ} {tag : BitVec 8}

/-- `IntForm v type body i`: a writer of `v`-bit integers sends `i` under a head of this
type with this body. -/
inductive IntForm : ℕ → HeadType → List Byte → ℤ → Prop where
  | zero {v : ℕ} : IntForm v .eZeroTag [] 0
  | char {v : ℕ} (hv : 8 ≤ v) (n : BitVec 8) : IntForm v .eChar (store 1 n) n.toInt
  | short {v : ℕ} (hv : 16 ≤ v) (n : BitVec 16) : IntForm v .eShort (store 2 (swap 2 n)) n.toInt
  | int32 {v : ℕ} (hv : 32 ≤ v) (n : BitVec 32) : IntForm v .eInt32 (store 4 (swap 4 n)) n.toInt
  | int64 {v : ℕ} (hv : 64 ≤ v) (n : BitVec 64) : IntForm v .eInt64 (store 8 (jceHtonll n)) n.toInt

theorem IntForm.mono {v v' : ℕ} {type : HeadType} {body : List Byte} {i : ℤ}
    (h : IntForm v type body i) (hv : v ≤ v') : IntForm v' type body i := by
  cases h with
  | zero => exact .zero
  | char h n => exact .char (h.trans hv) n
  | short h n => exact .short (h.trans hv) n
  | int32 h n => exact .int32 (h.trans hv) n
  | int64 h n => exact .int64 (h.trans hv) n

theorem IntForm.ne_structEnd {v : ℕ} {type : HeadType} {body : List Byte} {i : ℤ}
    (h : IntForm v type body i) : type ≠ .eStructEnd := by
  cases h <;> simp

section Writes

/-- A signed word in the range of a narrower one keeps its value there. -/
theorem toInt_setWidth_of_fits {u v : ℕ} (huv : u ≤ v) (hu : 0 < u) (n : BitVec v)
    (hl : -2^(u-1) ≤ n.toInt) (hh : n.toInt < 2^(u-1)) : (n.setWidth u).toInt = n.toInt := by
  have h := signExtend_setWidth huv hu n hl hh
  rw [← BitVec.toInt_signExtend_of_le (x := n.setWidth u) huv,h]

/-- `Fits v i`: the number `i` is in the range of a signed word of `v` bits. -/
def Fits (v : ℕ) (i : ℤ) : Prop := -2^(v-1) ≤ i ∧ i < 2^(v-1)

theorem fits_toInt {v : ℕ} (n : BitVec v) : Fits v n.toInt := ⟨n.le_toInt,n.toInt_lt⟩

/-- Every writer sends a number in the narrowest form that holds it. -/
inductive Narrowest : HeadType → List Byte → ℤ → Prop where
  | zero : Narrowest .eZeroTag [] 0
  | char (n : BitVec 8) : Narrowest .eChar (store 1 n) n.toInt
  | short (n : BitVec 16) (wide : ¬ Fits 8 n.toInt) : Narrowest .eShort (store 2 (swap 2 n)) n.toInt
  | int32 (n : BitVec 32) (wide : ¬ Fits 16 n.toInt) :
      Narrowest .eInt32 (store 4 (swap 4 n)) n.toInt
  | int64 (n : BitVec 64) (wide : ¬ Fits 32 n.toInt) :
      Narrowest .eInt64 (store 8 (jceHtonll n)) n.toInt

theorem Narrowest.ne_structEnd {type : HeadType} {body : List Byte} {i : ℤ}
    (h : Narrowest type body i) : type ≠ .eStructEnd := by
  cases h <;> simp

theorem Narrowest.form {v : ℕ} {type : HeadType} {body : List Byte} {i : ℤ}
    (h : Narrowest type body i) (hv : v = 8 ∨ v = 16 ∨ v = 32 ∨ v = 64) (hi : Fits v i) :
    IntForm v type body i := by
  cases h with
  | zero => exact .zero
  | char n => exact .char (by omega) n
  | short n wide =>
    rcases hv with rfl | rfl | rfl | rfl
    · exact absurd hi wide
    all_goals exact .short (by omega) n
  | int32 n wide =>
    unfold Fits at hi wide
    rcases hv with rfl | rfl | rfl | rfl
    · omega
    · omega
    all_goals exact .int32 (by omega) n
  | int64 n wide =>
    unfold Fits at hi wide
    rcases hv with rfl | rfl | rfl | rfl
    · omega
    · omega
    · omega
    · exact .int64 (by omega) n

theorem writeChar_narrowest (n : BitVec 8) (tag : BitVec 8) : ∃ type body,
    writeChar n tag = DataHead.writeTo type tag ++ body ∧ Narrowest type body n.toInt := by
  unfold writeChar
  by_cases h : n = 0
  · subst h
    exact ⟨.eZeroTag,[],by simp,.zero⟩
  · exact ⟨.eChar,store 1 n,by rw [if_neg h],.char n⟩

theorem writeShort_narrowest (n : BitVec 16) (tag : BitVec 8) : ∃ type body,
    writeShort n tag = DataHead.writeTo type tag ++ body ∧ Narrowest type body n.toInt := by
  unfold writeShort
  by_cases h : -128 ≤ n.toInt ∧ n.toInt ≤ 127
  · have hn := toInt_setWidth_of_fits (u := 8) (by omega) (by omega) n (by omega) (by omega)
    obtain ⟨type,body,he,hf⟩ := writeChar_narrowest (n.setWidth 8) tag
    rw [hn] at hf
    exact ⟨type,body,by rw [if_pos h,he],hf⟩
  · refine ⟨.eShort,_,by rw [if_neg h],.short n ?_⟩
    unfold Fits
    omega

theorem writeInt32_narrowest (n : BitVec 32) (tag : BitVec 8) : ∃ type body,
    writeInt32 n tag = DataHead.writeTo type tag ++ body ∧ Narrowest type body n.toInt := by
  unfold writeInt32
  by_cases h : -32768 ≤ n.toInt ∧ n.toInt ≤ 32767
  · have hn := toInt_setWidth_of_fits (u := 16) (by omega) (by omega) n (by omega) (by omega)
    obtain ⟨type,body,he,hf⟩ := writeShort_narrowest (n.setWidth 16) tag
    rw [hn] at hf
    exact ⟨type,body,by rw [if_pos h,he],hf⟩
  · refine ⟨.eInt32,_,by rw [if_neg h],.int32 n ?_⟩
    unfold Fits
    omega

theorem writeInt64_narrowest (n : BitVec 64) (tag : BitVec 8) : ∃ type body,
    writeInt64 n tag = DataHead.writeTo type tag ++ body ∧ Narrowest type body n.toInt := by
  unfold writeInt64
  by_cases h : -2147483647-1 ≤ n.toInt ∧ n.toInt ≤ 2147483647
  · have hn := toInt_setWidth_of_fits (u := 32) (by omega) (by omega) n (by omega) (by omega)
    obtain ⟨type,body,he,hf⟩ := writeInt32_narrowest (n.setWidth 32) tag
    rw [hn] at hf
    exact ⟨type,body,by rw [if_pos h,he],hf⟩
  · refine ⟨.eInt64,_,by rw [if_neg h],.int64 n ?_⟩
    unfold Fits
    omega

theorem writeChar_form (n : BitVec 8) (tag : BitVec 8) : ∃ type body,
    writeChar n tag = DataHead.writeTo type tag ++ body ∧ IntForm 8 type body n.toInt := by
  obtain ⟨type,body,he,hf⟩ := writeChar_narrowest n tag
  exact ⟨type,body,he,hf.form (by simp) (fits_toInt n)⟩

theorem writeShort_form (n : BitVec 16) (tag : BitVec 8) : ∃ type body,
    writeShort n tag = DataHead.writeTo type tag ++ body ∧ IntForm 16 type body n.toInt := by
  obtain ⟨type,body,he,hf⟩ := writeShort_narrowest n tag
  exact ⟨type,body,he,hf.form (by simp) (fits_toInt n)⟩

theorem writeInt32_form (n : BitVec 32) (tag : BitVec 8) : ∃ type body,
    writeInt32 n tag = DataHead.writeTo type tag ++ body ∧ IntForm 32 type body n.toInt := by
  obtain ⟨type,body,he,hf⟩ := writeInt32_narrowest n tag
  exact ⟨type,body,he,hf.form (by simp) (fits_toInt n)⟩

theorem writeInt64_form (n : BitVec 64) (tag : BitVec 8) : ∃ type body,
    writeInt64 n tag = DataHead.writeTo type tag ++ body ∧ IntForm 64 type body n.toInt := by
  obtain ⟨type,body,he,hf⟩ := writeInt64_narrowest n tag
  exact ⟨type,body,he,hf.form (by simp) (fits_toInt n)⟩

end Writes

section Reads
variable {type : HeadType} {body : List Byte} {i : ℤ} {n : ℕ}

theorem jceHtonll_jceHtonll (x : BitVec 64) : jceHtonll (jceHtonll x) = x := by
  have hlow : (jceHtonll x).extractLsb' 0 32 = swap 4 (x.extractLsb' 32 32) := by
    unfold jceHtonll
    rw [BitVec.extractLsb'_append_eq_of_add_le (by omega)]
    simp
  have hhigh : (jceHtonll x).extractLsb' 32 32 = swap 4 (x.extractLsb' 0 32) := by
    unfold jceHtonll
    rw [BitVec.extractLsb'_append_eq_of_le (by omega)]
    simp
  rw [jceHtonll,hlow,hhigh,swap_swap (by omega),swap_swap (by omega)]
  rw [BitVec.extractLsb'_append_extractLsb'_eq_extractLsb' (by omega)]
  simp

/-- A word that was stored byte by byte is read back. -/
theorem reads_stored {v : ℕ} (m : ℕ) (hv : v = 8*m) (x : BitVec v) :
    Reads (w := w) k (readByType m v) (store m x) x := by
  have h := reads_readByType (w := w) (k := k) (v := v) (length_store m x)
  rwa [load_store hv] at h

theorem reads_swapped {v : ℕ} (m : ℕ) (hv : v = 8*m) (x : BitVec v) {g : BitVec v → α} :
    Reads (w := w) k (readByType m v >>= fun y => pure (g (swap m y))) (store m (swap m x))
      (g x) := by
  have h := (reads_stored (w := w) (k := k) m hv (swap m x)).map (g := fun y => g (swap m y))
  rwa [swap_swap hv] at h

theorem reads_int32Switch (h : IntForm 32 type body i) :
    Reads (w := w) k (int32Switch tag type) body (BitVec.ofInt 32 i) := by
  cases h with
  | zero => exact .pure _
  | char _ n => exact (reads_stored 1 rfl n).map
  | short _ n => exact reads_swapped 2 rfl n
  | int32 _ n =>
    rw [BitVec.ofInt_toInt]
    exact reads_swapped 4 rfl n (g := id)
  | int64 h _ => omega

theorem reads_readInt32 (hw : 32 ≤ w) (h : IntForm 32 type body i) (old : BitVec 32)
    (tag : BitVec 8) (isRequire : Bool) :
    Reads (w := w) k (readInt32 (n+3) old tag isRequire) (DataHead.writeTo type tag ++ body)
      (BitVec.ofInt 32 i) := reads_field hw h.ne_structEnd (reads_int32Switch h)

theorem reads_readChar (hw : 32 ≤ w) (h : IntForm 8 type body i) (old : BitVec 8)
    (tag : BitVec 8) (isRequire : Bool) :
    Reads (w := w) k (readChar (n+3) old tag isRequire) (DataHead.writeTo type tag ++ body)
      (BitVec.ofInt 8 i) := by
  apply reads_field hw h.ne_structEnd
  cases h with
  | zero => exact .pure _
  | char _ n => simpa using reads_stored (w := w) (k := k) 1 rfl n
  | short h _ => omega
  | int32 h _ => omega
  | int64 h _ => omega

theorem reads_readShort (hw : 32 ≤ w) (h : IntForm 16 type body i) (old : BitVec 16)
    (tag : BitVec 8) (isRequire : Bool) :
    Reads (w := w) k (readShort (n+3) old tag isRequire) (DataHead.writeTo type tag ++ body)
      (BitVec.ofInt 16 i) := by
  apply reads_field hw h.ne_structEnd
  cases h with
  | zero => exact .pure _
  | char _ n => exact (reads_stored 1 rfl n).map
  | short _ n =>
    rw [BitVec.ofInt_toInt]
    exact reads_swapped 2 rfl n (g := id)
  | int32 h _ => omega
  | int64 h _ => omega

theorem reads_htonll (x : BitVec 64) : Reads (w := w) k
    (readByType 8 64 >>= fun n => pure (jceHtonll n)) (store 8 (jceHtonll x)) x := by
  have h := (reads_stored (w := w) (k := k) 8 rfl (jceHtonll x)).map (g := jceHtonll)
  rwa [jceHtonll_jceHtonll] at h

theorem reads_readInt64 (hw : 32 ≤ w) (h : IntForm 64 type body i) (old : BitVec 64)
    (tag : BitVec 8) (isRequire : Bool) :
    Reads (w := w) k (readInt64 (n+3) old tag isRequire) (DataHead.writeTo type tag ++ body)
      (BitVec.ofInt 64 i) := by
  apply reads_field hw h.ne_structEnd
  cases h with
  | zero => exact .pure _
  | char _ n => exact (reads_stored 1 rfl n).map
  | short _ n => exact reads_swapped 2 rfl n
  | int32 _ n => exact reads_swapped 4 rfl n
  | int64 _ n => simpa using reads_htonll (w := w) (k := k) n

end Reads

section Sizes
variable {n : ℕ} {invalid : BitVec 32 → String}

/-- A size below `2 ^ 31` survives being written as an `Int32` and read as a `UInt32`. -/
theorem size_roundTrip (x : BitVec 32) : (BitVec.ofInt 64 x.toInt).setWidth 32 = x := by
  change (x.signExtend 64).setWidth 32 = x
  ext i hi
  simp only [BitVec.getElem_setWidth, BitVec.getLsbD_signExtend, hi, if_true]
  simp [show i < 64 by omega, hi]

theorem reads_readUInt32 {len : ℕ} (hw : 32 ≤ w) :
    Reads (w := w) k (readUInt32 (n+3) 0 0 true) (writeInt32 (BitVec.ofNat 32 len) 0)
      (BitVec.ofNat 32 len) := by
  obtain ⟨type,body,he,hf⟩ := writeInt32_form (BitVec.ofNat 32 len) 0
  rw [he]
  have h := (reads_readInt64 (w := w) (k := k) (n := n) hw (hf.mono (by omega))
    ((0 : BitVec 32).setWidth 64) 0 true).map (g := fun i => i.setWidth 32)
  rwa [size_roundTrip] at h

/-- A size is accepted where as many bytes follow it. -/
theorem reads_readSize {len : ℕ} (hw : 32 ≤ w) :
    Reads (w := w) len (readSize (n+3) invalid) (writeInt32 (BitVec.ofNat 32 len) 0)
      (BitVec.ofNat 32 len) := by
  have hread : Reads (w := w) len (readUInt32 (n+3) 0 0 true)
      (writeInt32 (BitVec.ofNat 32 len) 0) (BitVec.ofNat 32 len) := reads_readUInt32 hw
  intro buf p post hb hp hd hk
  have hl := congrArg List.length hd
  rw [List.length_drop,List.length_append] at hl
  have hsize : ¬ (readerAt w buf (p+(writeInt32 (BitVec.ofNat 32 len) 0).length)).bufLen <
      (BitVec.ofNat 32 len).setWidth w := by
    rw [BitVec.lt_def,readerAt_len hb,BitVec.toNat_setWidth,BitVec.toNat_ofNat]
    have hmod : len % 2^32 % 2^w ≤ len := (Nat.mod_le _ _).trans (Nat.mod_le _ _)
    change ¬ buf.length < len % 2^32 % 2^w
    omega
  rw [readSize,Exec.bind_of_returned (hread buf p post hb hp hd hk)]
  rw [Exec.bind_of_returned (show BufferReader.size _ = .returned _ _ from rfl),if_neg hsize]
  rfl

theorem toNat_setWidth_size {len : ℕ} (hw : 32 ≤ w) (hlen : len < 2^32) :
    ((BitVec.ofNat 32 len).setWidth w).toNat = len := by
  have hp : 2^32 ≤ 2^w := Nat.pow_le_pow_right (by omega) hw
  rw [BitVec.toNat_setWidth,BitVec.toNat_ofNat,Nat.mod_eq_of_lt hlen,Nat.mod_eq_of_lt (by omega)]

end Sizes

section Strings
variable {n : ℕ} {isRequire : Bool} {s : List Byte} {type : HeadType} {body : List Byte}

/-- `StringForm type body s`: the string `s` is sent under a head of this type. -/
inductive StringForm : HeadType → List Byte → List Byte → Prop where
  | string1 {s : List Byte} (h : s.length ≤ 255) :
      StringForm .eString1 (store 1 (BitVec.ofNat 8 s.length) ++ s) s
  | string4 {s : List Byte} (h : s.length ≤ jceMaxStringLength) :
      StringForm .eString4 (store 4 (swap 4 (BitVec.ofNat 32 s.length)) ++ s) s

theorem StringForm.ne_structEnd (h : StringForm type body s) : type ≠ .eStructEnd := by
  cases h <;> simp

theorem writeString_form (h : s.length ≤ jceMaxStringLength) (tag : BitVec 8) : ∃ type body,
    writeString s tag = .ok (DataHead.writeTo type tag ++ body) ∧ StringForm type body s := by
  unfold writeString
  by_cases hs : 255 < s.length
  · refine ⟨.eString4,_,?_,.string4 h⟩
    rw [if_pos hs,if_neg (by omega),List.append_assoc]
    rfl
  · refine ⟨.eString1,_,?_,.string1 (by omega)⟩
    rw [if_neg hs,List.append_assoc]
    rfl

theorem reads_stringSwitch (hw : 32 ≤ w) (h : StringForm type body s) :
    Reads (w := w) k (stringSwitch tag type) body s := by
  cases h with
  | string1 h =>
    have hp : 2^32 ≤ 2^w := Nat.pow_le_pow_right (by omega) hw
    refine (reads_stored 1 rfl _).bind (reads_readBuf (k := k) ?_) (Nat.zero_le _)
    rw [BitVec.toNat_setWidth,BitVec.toNat_ofNat,Nat.mod_eq_of_lt,Nat.mod_eq_of_lt] <;> omega
  | string4 h =>
    have hlen : s.length < 2^32 := by unfold jceMaxStringLength at h; omega
    refine (reads_stored 4 rfl _).bind (k := 0) (l := k) ?_ (Nat.zero_le _)
    dsimp only
    rw [swap_swap (by omega),BitVec.toNat_ofNat,Nat.mod_eq_of_lt hlen,if_neg (by omega)]
    exact reads_readBuf (toNat_setWidth_size hw hlen)

theorem reads_readString {old : List Byte} (hw : 32 ≤ w) (h : StringForm type body s) :
    Reads (w := w) k (readString (n+3) old tag isRequire) (DataHead.writeTo type tag ++ body) s :=
  reads_field hw h.ne_structEnd (reads_stringSwitch hw h)

theorem length_le_writeCharVector (v : List Byte) : v.length ≤ (writeCharVector v tag).length := by
  rw [writeCharVector,List.length_append]
  exact Nat.le_add_left _ _

/-- The body of a `vector<Char>` under a head of type `eSimpleList`. -/
theorem reads_readCharVector {v old : List Byte} (hw : 32 ≤ w) (hv : v.length < 2^32) :
    Reads (w := w) k (readCharVector (n+3) old tag isRequire) (writeCharVector v tag) v := by
  have hread : Reads (w := w) k (readBuf ((BitVec.ofNat 32 v.length).setWidth w)) v v :=
    reads_readBuf (toNat_setWidth_size hw hv)
  have hbody : Reads (w := w) k (charVectorSwitch (n+3) old tag .eSimpleList)
      (DataHead.writeTo .eChar 0 ++ (writeInt32 (BitVec.ofNat 32 v.length) 0 ++ v)) v := by
    refine (reads_readFrom (k := 0) hw).bind (l := k) ?_ (Nat.zero_le _)
    exact (reads_readSize hw).bind hread (Nat.le_add_right _ _)
  rw [writeCharVector,List.append_assoc,List.append_assoc]
  exact reads_field hw (by simp) hbody

end Strings
end UninstallObserver.Jce
