import UninstallObserver.Jce.TypedReads
import UninstallObserver.Jce.WireForms

/-! Reading as one integer type what was written as another. -/
namespace UninstallObserver.Jce
open Imperative ByteOrder BufferReader

/-- The integer types the streams have overloads for. -/
inductive IntType where
  | char | uint8 | short | uint16 | int32 | uint32 | int64
  deriving DecidableEq, Repr

namespace IntType

def bits : IntType → ℕ
  | char | uint8 => 8
  | short | uint16 => 16
  | int32 | uint32 => 32
  | int64 => 64

def signed : IntType → Bool
  | char | short | int32 | int64 => true
  | uint8 | uint16 | uint32 => false

/-- The signed type whose overload does the reading. -/
def carrier : IntType → IntType
  | char => char
  | uint8 | short => short
  | uint16 | int32 => int32
  | uint32 | int64 => int64

/-- The number that a value of the type stands for. -/
def toInt (t : IntType) (n : BitVec t.bits) : ℤ := if t.signed then n.toInt else n.toNat

def Represents (t : IntType) (i : ℤ) : Prop :=
  if t.signed then Fits t.bits i else 0 ≤ i ∧ i < 2^t.bits

/-- `JceOutputStream::write`. -/
def write : (t : IntType) → BitVec t.bits → BitVec 8 → List Byte
  | .char => writeChar
  | .uint8 => writeUInt8
  | .short => writeShort
  | .uint16 => writeUInt16
  | .int32 => writeInt32
  | .uint32 => writeUInt32
  | .int64 => writeInt64

/-- `JceInputStream::read`. -/
def read {w : ℕ} (fuel : ℕ) : (t : IntType) → BitVec t.bits → BitVec 8 → Bool →
    Decode w (BitVec t.bits)
  | .char => readChar fuel
  | .uint8 => readUInt8 fuel
  | .short => readShort fuel
  | .uint16 => readUInt16 fuel
  | .int32 => readInt32 fuel
  | .uint32 => readUInt32 fuel
  | .int64 => readInt64 fuel

end IntType

/-- Reading as an `R` the field that was written for the `W` with value `n` gives the same
number, or throws `JceDecodeMismatch` where `R` does not have it: wherever the field stands,
whatever the target held, required or not. -/
structure Converts (w : ℕ) (W R : IntType) (n : BitVec W.bits) (tag : BitVec 8) : Prop where
  same : R.Represents (W.toInt n) → ∀ pre post old isRequire,
    (pre ++ W.write n tag ++ post).length < 2^w → ∃ m s, R.toInt m = W.toInt n ∧
      Exec.Ends (fun k => R.read k old tag isRequire)
        (readerAt w (pre ++ W.write n tag ++ post) pre.length) (.returned m s)
  mismatch : ¬ R.Represents (W.toInt n) → ∀ pre post old isRequire,
    (pre ++ W.write n tag ++ post).length < 2^w → ∃ what s,
      Exec.Ends (fun k => R.read k old tag isRequire)
        (readerAt w (pre ++ W.write n tag ++ post) pre.length)
        (.threw (.jceDecodeMismatch what) s)

section Ranges
variable {t : IntType} {u v : ℕ} {i : ℤ}

theorem Fits.mono (h : Fits u i) (huv : u ≤ v) : Fits v i := by
  have hp : (2 : ℤ)^(u-1) ≤ 2^(v-1) := pow_le_pow_right₀ (by norm_num) (by omega)
  unfold Fits at h ⊢
  omega

/-- A number of the type is that of the word with its bits. -/
theorem IntType.toInt_ofInt (h : t.Represents i) : t.toInt (BitVec.ofInt t.bits i) = i := by
  unfold IntType.Represents at h
  unfold IntType.toInt
  by_cases hs : t.signed
  · simp only [hs, if_true] at h ⊢
    obtain ⟨hl,hu⟩ := h
    have hpos : 0 < t.bits := by cases t <;> decide
    have hp : (2 : ℤ)^t.bits = 2*2^(t.bits-1) := by
      rw [← pow_succ',Nat.sub_add_cancel hpos]
    rw [BitVec.toInt_ofInt]
    apply Int.bmod_eq_of_le
    · push_cast
      omega
    · push_cast
      omega
  · simp only [hs] at h ⊢
    simp only [BitVec.toNat_ofInt, Bool.false_eq_true, if_false]
    push_cast
    rw [Int.toNat_of_nonneg (Int.emod_nonneg _ (by positivity)),Int.emod_eq_of_lt h.1 h.2]

/-- The carrier of a type has all of its numbers. -/
theorem IntType.fits_carrier (h : t.Represents i) : Fits t.carrier.bits i := by
  cases t with
  | char => exact h
  | short => exact h
  | int32 => exact h
  | int64 => exact h
  | _ =>
    obtain ⟨hl,hu⟩ := h
    simp only [IntType.bits] at hu
    unfold Fits IntType.carrier
    simp only [IntType.bits]
    omega

end Ranges

/-- Where `enc` stands at the cursor, `m` throws a mismatch. -/
def Mismatches {w : ℕ} {α : Type} (m : Decode w α) (enc : List Byte) : Prop :=
  ∀ buf p post, buf.length < 2^w → p ≤ buf.length → buf.drop p = enc ++ post →
    ∃ what s, m (readerAt w buf p) = .threw (.jceDecodeMismatch what) s

section Mismatches
variable {w k n : ℕ} {α β : Type} {type : HeadType} {body : List Byte} {i : ℤ} {tag : BitVec 8}
  {isRequire : Bool}

theorem Mismatches.bind {m : Decode w α} {f : α → Decode w β} {enc : List Byte}
    (h : Mismatches m enc) : Mismatches (m >>= f) enc := by
  intro buf p post hb hp hd
  obtain ⟨what,s,hm⟩ := h buf p post hb hp hd
  exact ⟨what,s,Exec.bind_of_threw hm⟩

/-- A typed read of a field whose type its switch has no case for. -/
theorem mismatches_field {switch : HeadType → Decode w α} {missing : String} {old : α}
    (typeName : String) (hw : 32 ≤ w) (ht : type ≠ .eStructEnd)
    (hs : switch type = typeMismatch typeName tag type) :
    Mismatches (readField (skipToTag (n+2) tag) isRequire missing old switch)
      (DataHead.writeTo type tag ++ body) := by
  intro buf p post hb hp hd
  rw [List.append_assoc] at hd
  have hhead : DataHead.readFrom (readerAt w buf p) = .returned ⟨type,tag⟩
      (readerAt w buf (p+(DataHead.writeTo type tag).length)) :=
    reads_readFrom (k := 0) hw buf p (body ++ post) hb hp hd (Nat.zero_le _)
  rw [readField,Exec.bind_of_returned (skipToTag_here hw hb hp hd ht),if_pos rfl,
    Exec.bind_of_returned hhead,hs]
  exact ⟨_,_,rfl⟩

/-- What a read of any of the types makes of a form that its carrier accepts. -/
theorem IntType.reads (hw : 32 ≤ w) (t : IntType) (h : IntForm t.carrier.bits type body i)
    (old : BitVec t.bits) : Reads (w := w) k (t.read (n+3) old tag isRequire)
      (DataHead.writeTo type tag ++ body) (BitVec.ofInt t.bits i) := by
  cases t with
  | char => exact reads_readChar hw h old tag isRequire
  | short => exact reads_readShort hw h old tag isRequire
  | int32 => exact reads_readInt32 hw h old tag isRequire
  | int64 => exact reads_readInt64 hw h old tag isRequire
  | uint8 =>
    have hread := (reads_readShort (w := w) (k := k) (n := n) hw h (old.setWidth 16) tag isRequire).map
      (g := fun x => x.setWidth 8)
    rwa [setWidth_ofInt (by decide)] at hread
  | uint16 =>
    have hread := (reads_readInt32 (w := w) (k := k) (n := n) hw h (old.setWidth 32) tag isRequire).map
      (g := fun x => x.setWidth 16)
    rwa [setWidth_ofInt (by decide)] at hread
  | uint32 =>
    have hread := (reads_readInt64 (w := w) (k := k) (n := n) hw h (old.setWidth 64) tag isRequire).map
      (g := fun x => x.setWidth 32)
    rwa [setWidth_ofInt (by decide)] at hread

theorem Narrowest.fits (h : Narrowest type body i) : Fits 64 i := by
  cases h with
  | zero => simp [Fits]
  | char x => exact (fits_toInt x).mono (by decide)
  | short x => exact (fits_toInt x).mono (by decide)
  | int32 x => exact (fits_toInt x).mono (by decide)
  | int64 x => exact fits_toInt x

/-- The switch of `read(Char&)` has no case for a form that is wider. -/
theorem mismatches_readChar (hw : 32 ≤ w) (h : Narrowest type body i) (hi : ¬ Fits 8 i)
    (old : BitVec 8) : Mismatches (w := w) (readChar (n+3) old tag isRequire)
      (DataHead.writeTo type tag ++ body) := by
  refine mismatches_field "Char" hw h.ne_structEnd ?_
  cases h with
  | zero => simp [Fits] at hi
  | char x => exact absurd (fits_toInt x) hi
  | _ => rfl

theorem mismatches_readShort (hw : 32 ≤ w) (h : Narrowest type body i) (hi : ¬ Fits 16 i)
    (old : BitVec 16) : Mismatches (w := w) (readShort (n+3) old tag isRequire)
      (DataHead.writeTo type tag ++ body) := by
  refine mismatches_field "Short" hw h.ne_structEnd ?_
  cases h with
  | zero => simp [Fits] at hi
  | char x => exact absurd ((fits_toInt x).mono (by decide)) hi
  | short x => exact absurd (fits_toInt x) hi
  | _ => rfl

theorem mismatches_readInt32 (hw : 32 ≤ w) (h : Narrowest type body i) (hi : ¬ Fits 32 i)
    (old : BitVec 32) : Mismatches (w := w) (readInt32 (n+3) old tag isRequire)
      (DataHead.writeTo type tag ++ body) := by
  refine mismatches_field "Int32" hw h.ne_structEnd ?_
  cases h with
  | zero => simp [Fits] at hi
  | char x => exact absurd ((fits_toInt x).mono (by decide)) hi
  | short x => exact absurd ((fits_toInt x).mono (by decide)) hi
  | int32 x => exact absurd (fits_toInt x) hi
  | int64 x => rfl

theorem IntType.mismatches (hw : 32 ≤ w) (t : IntType) (h : Narrowest type body i)
    (hi : ¬ Fits t.carrier.bits i) (old : BitVec t.bits) :
    Mismatches (t.read (w := w) (n+3) old tag isRequire) (DataHead.writeTo type tag ++ body) := by
  cases t with
  | char => exact mismatches_readChar hw h hi old
  | short => exact mismatches_readShort hw h hi old
  | uint8 => exact (mismatches_readShort hw h hi _).bind
  | int32 => exact mismatches_readInt32 hw h hi old
  | uint16 => exact (mismatches_readInt32 hw h hi _).bind
  | _ => exact absurd h.fits hi

end Mismatches

section Conversion
variable {w : ℕ} {W R : IntType} {n : BitVec W.bits} {tag : BitVec 8}

theorem IntType.read_stable (t : IntType) (old : BitVec t.bits) (isRequire : Bool) :
    Exec.Stable fun n => t.read (w := w) n old tag isRequire := by
  cases t with
  | char => exact readChar_stable old
  | short => exact readShort_stable old
  | int32 => exact readInt32_stable old tag isRequire
  | int64 => exact readInt64_stable old
  | uint16 => exact (readInt32_stable _ tag isRequire).bind fun _ => .const _
  | uint8 => exact (readShort_stable _).bind fun _ => .const _
  | uint32 => exact readUInt32_stable old isRequire

theorem IntType.write_narrowest (t : IntType) (n : BitVec t.bits) (tag : BitVec 8) :
    ∃ type body, t.write n tag = DataHead.writeTo type tag ++ body ∧
      Narrowest type body (t.toInt n) := by
  have hwide : ∀ {u v : ℕ}, u < v → ∀ x : BitVec u, (x.setWidth v).toInt = x.toNat := by
    intro u v huv x
    have hx := x.isLt
    have hp : 2*2^u ≤ 2^v := by
      rw [← pow_succ']
      exact Nat.pow_le_pow_right (by decide) huv
    rw [BitVec.toInt_eq_toNat_of_lt,BitVec.toNat_setWidth_of_le huv.le]
    rw [BitVec.toNat_setWidth_of_le huv.le]
    omega
  cases t with
  | char => exact writeChar_narrowest n tag
  | short => exact writeShort_narrowest n tag
  | int32 => exact writeInt32_narrowest n tag
  | int64 => exact writeInt64_narrowest n tag
  | uint8 =>
    have h := writeShort_narrowest (BitVec.setWidth 16 n) tag
    rwa [hwide (by decide)] at h
  | uint16 =>
    have h := writeInt32_narrowest (BitVec.setWidth 32 n) tag
    rwa [hwide (by decide)] at h
  | uint32 =>
    have h := writeInt64_narrowest (BitVec.setWidth 64 n) tag
    rwa [hwide (by decide)] at h

theorem length_write_lt (hw : 32 ≤ w) : ([] ++ W.write n tag ++ []).length < 2^w := by
  obtain ⟨type,body,he,hform⟩ := W.write_narrowest n tag
  have hhead := length_writeTo_le type tag
  have hbody : body.length ≤ 8 := by
    generalize W.toInt n = i at hform
    cases hform <;> simp
  have hp : 2^32 ≤ 2^w := Nat.pow_le_pow_right (by decide) hw
  simp only [he, List.nil_append, List.append_nil, List.length_append]
  omega

theorem IntType.bits_carrier (t : IntType) :
    t.carrier.bits = 8 ∨ t.carrier.bits = 16 ∨ t.carrier.bits = 32 ∨ t.carrier.bits = 64 := by
  cases t <;> decide

/-- The value is converted exactly unless it is one that the carrier has and the type does not. -/
theorem converts_iff (hw : 32 ≤ w) (W R : IntType) (n : BitVec W.bits) (tag : BitVec 8) :
    Converts w W R n tag ↔ (Fits R.carrier.bits (W.toInt n) → R.Represents (W.toInt n)) := by
  obtain ⟨type,body,he,hform⟩ := W.write_narrowest n tag
  have hreads : Fits R.carrier.bits (W.toInt n) → ∀ pre post old isRequire,
      (pre ++ W.write n tag ++ post).length < 2^w →
      Exec.Ends (fun k => R.read k old tag isRequire)
        (readerAt w (pre ++ W.write n tag ++ post) pre.length)
        (.returned (BitVec.ofInt R.bits (W.toInt n))
          (readerAt w (pre ++ W.write n tag ++ post) (pre.length+(W.write n tag).length))) := by
    intro hi pre post old isRequire hlen
    have hread : Reads (w := w) 0 (R.read 3 old tag isRequire) (DataHead.writeTo type tag ++ body)
        (BitVec.ofInt R.bits (W.toInt n)) := R.reads hw (hform.form R.bits_carrier hi) old
    rw [← he] at hread
    exact ⟨by simp,3,hread.at_append pre post hlen⟩
  refine ⟨fun h hi => ?_,fun h => ⟨fun hR pre post old isRequire hlen => ?_,
    fun hR pre post old isRequire hlen => ?_⟩⟩
  · by_contra hR
    obtain ⟨what,s,hthrew⟩ := h.mismatch hR [] [] 0 true (length_write_lt hw)
    cases hthrew.unique (hreads hi [] [] 0 true (length_write_lt hw)) (R.read_stable 0 true)
  · exact ⟨_,_,IntType.toInt_ofInt hR,hreads (IntType.fits_carrier hR) pre post old isRequire hlen⟩
  · have hi : ¬ Fits R.carrier.bits (W.toInt n) := fun hi => hR (h hi)
    have hmismatch : Mismatches (w := w) (R.read 3 old tag isRequire)
        (DataHead.writeTo type tag ++ body) := R.mismatches hw hform hi old
    rw [← he] at hmismatch
    have hdrop : (pre ++ W.write n tag ++ post).drop pre.length = W.write n tag ++ post := by
      simp
    obtain ⟨what,s,hthrew⟩ := hmismatch _ pre.length post hlen (by simp) hdrop
    exact ⟨what,s,by simp,3,hthrew⟩

/-- A number that both types have. -/
theorem converts_int32_uint8 : Converts 32 .int32 .uint8 200 7 :=
  (converts_iff (by decide) .int32 .uint8 200 7).mpr fun _ => ⟨by decide,by decide⟩

/-- 300 is written as a `Short`, and read as 44. -/
theorem not_converts_short_uint8 : ¬ Converts 32 .short .uint8 300 0 := by
  intro h
  have hwide : ¬ IntType.uint8.Represents (IntType.short.toInt 300) := fun h => absurd h.2 (by decide)
  obtain ⟨what,s,hthrew⟩ := h.mismatch hwide [] [] 0 true (by decide)
  have hread : Exec.Ends (fun k => IntType.uint8.read (w := 32) k 0 0 true)
      (readerAt 32 ([] ++ IntType.short.write 300 0 ++ []) 0)
      (.returned 44 (readerAt 32 [0x01,0x01,0x2C] 3)) := ⟨by simp,3,by decide +kernel⟩
  cases hthrew.unique hread (IntType.read_stable _ _ _)

end Conversion

end UninstallObserver.Jce
