import UninstallObserver.Jce.Searches
import UninstallObserver.Jce.WireForms

/-! The readers whose field states how many elements it has. -/
namespace UninstallObserver.Jce
open Imperative ByteOrder BufferReader

variable {w : ℕ} {α : Type}

/-- The `eSimpleList` branch of `read(char*)`. The array at `buf` may have another length than
`bufLen`, and what is copied past its end is undefined behaviour. -/
def readCharsBody (fuel : ℕ) (buf : List Byte) (bufLen : BitVec 32) (tag : BitVec 8) :
    Decode w (List Byte × BitVec 32) := do
  let hh ← DataHead.readFrom
  if hh.type ≠ .eChar then
    Exec.throw (.jceDecodeMismatch
      s!"type mismatch, tag: {tag.toNat}, type: {HeadType.eSimpleList.code}, {hh.type.code}")
  else
    let size ← readUInt32 fuel 0 0 true
    if bufLen < size then
      Exec.throw (.jceDecodeInvalidValue (invalidSimpleListSize tag hh.type size))
    else
      let bs ← readBuf (size.setWidth w)
      if buf.length < bs.length then Exec.undefined
      else pure (bs ++ buf.drop bs.length,size)

/-- `read(char*)`. -/
def readChars (fuel : ℕ) (buf : List Byte) (bufLen readLen : BitVec 32) (tag : BitVec 8)
    (isRequire : Bool) : Decode w (List Byte × BitVec 32) :=
  readField (skipToTag fuel tag) isRequire (requireNotExist tag) (buf,readLen) fun
    | .eSimpleList => readCharsBody fuel buf bufLen tag
    | t => Exec.throw (.jceDecodeMismatch s!"type mismatch, tag: {tag.toNat}, type: {t.code}")

/-- Read into the elements of an array, one after another; past its end there are none. -/
def fillArray (read : α → Decode w α) : ℕ → List α → Decode w (List α)
  | 0, v => pure v
  | _+1, [] => Exec.undefined
  | k+1, a::v => do
    let b ← read a
    let bs ← fillArray read k v
    pure (b::bs)

/-- `read(T*)`, which does not look at the room that the caller says there is. -/
def readArray (fuel : ℕ) (read : α → Decode w α) (v : List α) (_len readLen : BitVec 32)
    (tag : BitVec 8) (isRequire : Bool) : Decode w (List α × BitVec 32) :=
  readField (skipToTag fuel tag) isRequire (requireNotExist tag) (v,readLen) fun
    | .eList => do
      let size ← readSize fuel (invalidListSize tag .eList)
      let v ← fillArray read size.toNat v
      pure (v,size)
    | t => typeMismatch "vector struct" tag t

/-- What the readers fill, one kind a reader. -/
inductive Dest (α : Type) where
  | charVector (v : List Byte)
  | vector (v : List α)
  | chars (buf : List Byte) (bufLen readLen : BitVec 32)
  | array (v : List α) (len readLen : BitVec 32)
  deriving DecidableEq, Repr

namespace Dest

/-- The overload of `read` for the destination; `read` is the one for the elements of type `α`. -/
def read (fuel : ℕ) (read : α → Decode w α) (init : α) (tag : BitVec 8) (isRequire : Bool) :
    Dest α → Decode w (Dest α)
  | charVector v => do
    let v ← readCharVector fuel v tag isRequire
    pure (charVector v)
  | vector v => do
    let v ← readVector fuel read init v tag isRequire
    pure (vector v)
  | chars buf bufLen readLen => do
    let (buf,readLen) ← readChars fuel buf bufLen readLen tag isRequire
    pure (chars buf bufLen readLen)
  | array v len readLen => do
    let (v,readLen) ← readArray fuel read v len readLen tag isRequire
    pure (array v len readLen)

/-- The number of elements that were stored. -/
def stored : Dest α → ℕ
  | charVector v => v.length
  | vector v => v.length
  | chars _ _ readLen => readLen.toNat
  | array _ _ readLen => readLen.toNat

/-- The room that the caller says there is. -/
def capacity : Dest α → Option ℕ
  | chars _ bufLen _ => some bufLen.toNat
  | array _ len _ => some len.toNat
  | _ => none

/-- What the reader compares a size with: the room, or the size of the whole buffer. -/
def checked (r : BufferReader w) : Dest α → ℕ
  | chars _ bufLen _ => bufLen.toNat
  | _ => r.bufLen.toNat

/-- The largest size that is not too large. -/
def limit (r : BufferReader w) (D : Dest α) : ℕ := D.capacity.elim (D.checked r) (min (D.checked r))

def takesList : Dest α → Bool
  | chars _ _ _ => false
  | _ => true

def takesSimpleList : Dest α → Bool
  | charVector _ => true
  | chars _ _ _ => true
  | _ => false

/-- Field `tag` states the size `n`, in whatever width it is written; `t` is behind it. -/
inductive States (D : Dest α) (tag : BitVec 8) (r : BufferReader w) :
    HeadType → BitVec 64 → BufferReader w → Prop
  | list {s u t : BufferReader w} {h : DataHead} {n : BitVec 64} (takes : D.takesList)
      (found : Finds tag r s) (head : DataHead.readFrom s = .returned h u) (type : h.type = .eList)
      (size : Exec.Ends (fun k => readInt64 k 0 0 true) u (.returned n t)) :
      States D tag r .eList n t
  | simpleList {s u v t : BufferReader w} {h hh : DataHead} {n : BitVec 64}
      (takes : D.takesSimpleList) (found : Finds tag r s)
      (head : DataHead.readFrom s = .returned h u) (type : h.type = .eSimpleList)
      (inner : DataHead.readFrom u = .returned hh v) (char : hh.type = .eChar)
      (size : Exec.Ends (fun k => readInt64 k 0 0 true) v (.returned n t)) :
      States D tag r .eSimpleList n t

end Dest

/-- A size of `i` elements is taken for what it is: so many are stored, for which there is room,
and a size that is negative, too wide or too large is rejected. -/
structure SizeKept (w : ℕ) (read : ℕ → α → Decode w α) (init : α) (D : Dest α) (tag : BitVec 8)
    (isRequire : Bool) (r : BufferReader w) (i : ℤ) : Prop where
  exact : ∀ D' t, Exec.Ends (fun n => D.read n (read n) init tag isRequire) r (.returned D' t) →
    (D'.stored : ℤ) = i ∧ ∀ c ∈ D.capacity, i ≤ c
  rejects : i < 0 ∨ 2^32 ≤ i ∨ D.limit r < i →
    ∃ e t, Exec.Ends (fun n => D.read n (read n) init tag isRequire) r (.threw e t)

section Stable
variable {read : ℕ → α → Decode w α} {init : α} {D : Dest α} {tag : BitVec 8} {isRequire : Bool}

theorem fillArray_stable (hread : ∀ a, Exec.Stable fun n => read n a) (k : ℕ) (v : List α) :
    Exec.Stable fun n => fillArray (read n) k v := by
  induction k generalizing v with
  | zero => exact .const _
  | succ k ih =>
    cases v with
    | nil => exact .const _
    | cons a v => exact (hread a).bind fun b => (ih v).bind fun bs => .const _

theorem Dest.read_stable (hread : ∀ a, Exec.Stable fun n => read n a) :
    Exec.Stable fun n => D.read n (read n) init tag isRequire := by
  cases D with
  | charVector v => exact (readCharVector_stable v isRequire).bind fun _ => .const _
  | vector v => exact (readVector_stable hread init v).bind fun _ => .const _
  | chars buf bufLen readLen =>
    refine Exec.Stable.bind (readField_stable (skipToTag_stable tag) (fun t => ?_) _ _ _)
      fun _ => .const _
    cases t with
    | eSimpleList =>
      refine (Exec.Stable.const _).bind fun hh => .ite (.const _) ?_
      exact (readUInt32_stable 0 true).bind fun size => .const _
    | _ => exact .const _
  | array v len readLen =>
    refine Exec.Stable.bind (readField_stable (skipToTag_stable tag) (fun t => ?_) _ _ _)
      fun _ => .const _
    cases t with
    | eList =>
      exact (readSize_stable _).bind fun size => (fillArray_stable hread _ _).bind fun _ => .const _
    | _ => exact .const _

end Stable

section Rows
variable {read : ℕ → α → Decode w α} {a : α} {v : List α} {s : BufferReader w}

end Rows

section Stored
variable {read : α → Decode w α} {r s : BufferReader w}

end Stored

section Sizes
variable {read : ℕ → α → Decode w α} {init : α} {D : Dest α} {tag : BitVec 8} {isRequire : Bool}
  {r s t : BufferReader w} {type : HeadType} {n : BitVec 64}

theorem Finds.same {r s : BufferReader w} (h : Finds tag r s) : SameBuffer r s := by
  obtain ⟨-,k,h⟩ := h
  exact ((keepsAt k).toTag tag r).1 _ _ h

theorem Dest.States.bufLen (h : D.States tag r type n t) : t.bufLen = r.bufLen := by
  cases h with
  | list _ found head _ size =>
    obtain ⟨-,k,size⟩ := size
    rw [((readInt64_keeps k 0 true _).1 _ _ size).2,((readFrom_keeps _).1 _ _ head).2,found.same.2]
  | simpleList _ found head _ inner _ size =>
    obtain ⟨-,k,size⟩ := size
    rw [((readInt64_keeps k 0 true _).1 _ _ size).2,((readFrom_keeps _).1 _ _ inner).2,
      ((readFrom_keeps _).1 _ _ head).2,found.same.2]

theorem int64_of_readSize {k : ℕ} {invalid : BitVec 32 → String} {m : BitVec 32}
    (h : readSize k invalid s = .returned m t) :
    ∃ n u, Exec.Ends (fun k => readInt64 k 0 0 true) s (.returned n u) := by
  obtain ⟨_,_,h,-⟩ := Exec.bind_eq_returned.mp h
  obtain ⟨n,u,h,-⟩ := Exec.bind_eq_returned.mp h
  exact ⟨n,u,by simp,k,h⟩

/-- A list that is read states its size. -/
theorem Dest.States.of_list {β : Type} {k : ℕ} {invalid : BitVec 32 → String}
    {f : BitVec 32 → Decode w β} {b : β} {u v : BufferReader w} {h : DataHead} (takes : D.takesList)
    (found : Finds tag r s) (head : DataHead.readFrom s = .returned h u) (type : h.type = .eList)
    (hread : (readSize k invalid >>= f) u = .returned b v) :
    ∃ n t, D.States tag r .eList n t := by
  obtain ⟨_,_,hread,-⟩ := Exec.bind_eq_returned.mp hread
  obtain ⟨n,t,hsize⟩ := int64_of_readSize hread
  exact ⟨n,t,.list takes found head type hsize⟩

/-- A read that finds its field succeeds only where the field states a size. -/
theorem Dest.exists_states {D' : Dest α} (hfound : Finds tag r s)
    (h : Exec.Ends (fun k => D.read k (read k) init tag isRequire) r (.returned D' t)) :
    ∃ type n u, D.States tag r type n u := by
  obtain ⟨-,k,h⟩ := h
  have hfield : ∀ {β : Type} {missing : String} {old b : β} {switch : HeadType → Decode w β}
      {u : BufferReader w}, readField (skipToTag k tag) isRequire missing old switch r =
        .returned b u → ∃ h v, DataHead.readFrom s = .returned h v ∧
          switch h.type v = .returned b u := by
    intro β missing old b switch u h
    obtain ⟨found,s',hs,h⟩ := Exec.bind_eq_returned.mp h
    cases hfound.unique ⟨by simp,k,hs⟩ (skipToTag_stable tag)
    exact Exec.bind_eq_returned.mp h
  -- each reader throws on the types that it has no case for
  cases D with
  | charVector cs =>
    obtain ⟨_,_,h,-⟩ := Exec.bind_eq_returned.mp h
    obtain ⟨head,v,hhead,h⟩ := hfield h
    cases htype : head.type with
    | eList =>
      rw [htype] at h
      exact ⟨_,States.of_list rfl hfound hhead htype h⟩
    | eSimpleList =>
      rw [htype] at h
      obtain ⟨inner,x,hinner,h⟩ := Exec.bind_eq_returned.mp h
      rw [Exec.ite_apply] at h
      split at h
      · cases h
      · next hchar =>
        obtain ⟨_,_,h,-⟩ := Exec.bind_eq_returned.mp h
        obtain ⟨n,u,hsize⟩ := int64_of_readSize h
        exact ⟨_,n,u,.simpleList rfl hfound hhead htype hinner (not_not.mp hchar) hsize⟩
    | _ =>
      rw [htype] at h
      cases h
  | vector v =>
    obtain ⟨_,_,h,-⟩ := Exec.bind_eq_returned.mp h
    obtain ⟨head,v,hhead,h⟩ := hfield h
    cases htype : head.type with
    | eList =>
      rw [htype] at h
      exact ⟨_,States.of_list rfl hfound hhead htype h⟩
    | _ =>
      rw [htype] at h
      cases h
  | chars buf bufLen readLen =>
    obtain ⟨_,_,h,-⟩ := Exec.bind_eq_returned.mp h
    obtain ⟨head,v,hhead,h⟩ := hfield h
    cases htype : head.type with
    | eSimpleList =>
      rw [htype] at h
      obtain ⟨inner,x,hinner,h⟩ := Exec.bind_eq_returned.mp h
      rw [Exec.ite_apply] at h
      split at h
      · cases h
      · next hchar =>
        obtain ⟨_,_,h,-⟩ := Exec.bind_eq_returned.mp h
        obtain ⟨n,u,h,-⟩ := Exec.bind_eq_returned.mp h
        exact ⟨_,n,u,.simpleList rfl hfound hhead htype hinner (not_not.mp hchar) ⟨by simp,k,h⟩⟩
    | _ =>
      rw [htype] at h
      cases h
  | array v len readLen =>
    obtain ⟨_,_,h,-⟩ := Exec.bind_eq_returned.mp h
    obtain ⟨head,v,hhead,h⟩ := hfield h
    cases htype : head.type with
    | eList =>
      rw [htype] at h
      exact ⟨_,States.of_list rfl hfound hhead htype h⟩
    | _ =>
      rw [htype] at h
      cases h

/-- In whichever form a number is written, it is what is read as the size. -/
theorem exists_size_of_form {buf body post : List Byte} {p : ℕ} {form : HeadType} {i : ℤ}
    (hw : 32 ≤ w) (hb : buf.length < 2^w) (hp : p ≤ buf.length) (h : IntForm 64 form body i)
    (hd : buf.drop p = DataHead.writeTo form 0 ++ body ++ post) : ∃ n u, n.toInt = i ∧
      Exec.Ends (fun k => readInt64 k 0 0 true) (readerAt w buf p) (.returned n u) := by
  have hread : Reads (w := w) 0 (readInt64 3 0 0 true) (DataHead.writeTo form 0 ++ body)
      (BitVec.ofInt 64 i) := reads_readInt64 hw h 0 0 true
  refine ⟨BitVec.ofInt 64 i,_,?_,by simp,3,hread buf p post hb hp hd (Nat.zero_le _)⟩
  cases h with
  | zero => rfl
  | char hv n => exact BitVec.toInt_signExtend_of_le hv
  | short hv n => exact BitVec.toInt_signExtend_of_le hv
  | int32 hv n => exact BitVec.toInt_signExtend_of_le hv
  | int64 hv n => rw [BitVec.ofInt_toInt]

end Sizes

section Samples

/-- Elements that are characters. -/
def readElem {w : ℕ} (k : ℕ) (c : BitVec 8) : Decode w (BitVec 8) := readChar k c 0 true

/-- Two elements for an array of one: the second is written past its end. -/
theorem not_sizeKept_pastEnd : ¬ ∀ (D : Dest (BitVec 8)) r type n t, D.States 0 r type n t →
    0 ≤ n.toInt ∧ n.toInt < 2^32 → SizeKept 32 readElem 0 D 0 true r n.toInt := by
  intro h
  have hstates : (Dest.array (α := BitVec 8) [0] 1 0).States 0
      (setBufferVector (w := 32) [0x09,0x00,0x02,0x00,0x41,0x00,0x42]) .eList 2
      ⟨[0x09,0x00,0x02,0x00,0x41,0x00,0x42],7,3⟩ :=
    .list rfl ⟨by simp,2,rfl⟩ rfl rfl ⟨by simp,3,rfl⟩
  obtain ⟨e,u,hthrew⟩ := (h _ _ _ _ _ hstates (by decide)).rejects (.inr (.inr (by decide)))
  have hread : Exec.Ends (fun k => (Dest.array (α := BitVec 8) [0] 1 0).read k (readElem k) 0 0 true)
      (setBufferVector (w := 32) [0x09,0x00,0x02,0x00,0x41,0x00,0x42]) .undefined :=
    ⟨by simp,3,by decide +kernel⟩
  cases hthrew.unique hread (Dest.read_stable fun a => readChar_stable a)

end Samples

end UninstallObserver.Jce
