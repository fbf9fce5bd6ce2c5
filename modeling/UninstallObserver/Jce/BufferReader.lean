import UninstallObserver.Lib.Outcome
import UninstallObserver.Lib.ByteOrder

/-! The read cursor of the wire format and the head that precedes every field.

`size_t` is a word of `w` bits. A copy whose bound check passes but which does not
lie inside the buffer is undefined behaviour. -/
namespace UninstallObserver.Jce
open Imperative ByteOrder

/-- The exception classes, each with the text given to its constructor. -/
inductive JceException where
  | jceEncodeException (what : String)
  | jceDecodeException (what : String)
  | jceDecodeMismatch (what : String)
  | jceDecodeRequireNotExist (what : String)
  | jceDecodeInvalidValue (what : String)
  | jceNotEnoughBuff (what : String)
  deriving DecidableEq, Repr

/-- What `catch (JceDecodeException&)` catches: the class and those derived from it. -/
def JceException.isDecodeException : JceException → Bool
  | .jceDecodeException _ | .jceDecodeMismatch _ => true
  | .jceDecodeRequireNotExist _ | .jceDecodeInvalidValue _ => true
  | .jceEncodeException _ | .jceNotEnoughBuff _ => false

/-- `buf` holds the bytes that really are at the buffer's address; `bufLen` and
`cur` are the reader's two `size_t` members. -/
structure BufferReader (w : ℕ) where
  buf : List Byte
  bufLen : BitVec w
  cur : BitVec w
  deriving DecidableEq, Repr

/-- Code that reads through a `BufferReader`. -/
abbrev Decode (w : ℕ) := Exec JceException (BufferReader w)

variable {w : ℕ}

namespace BufferReader

def setBuffer (buf : List Byte) (len : BitVec w) : BufferReader w := ⟨buf,len,0⟩

/-- The overload for a vector takes its size. -/
def setBufferVector (buf : List Byte) : BufferReader w :=
  setBuffer buf (BitVec.ofNat w buf.length)

def hasEnd : Decode w Bool := fun r => .returned (decide (r.bufLen ≤ r.cur)) r

def size : Decode w (BitVec w) := fun r => .returned r.bufLen r

/-- Copy `len` bytes from `offset` past the cursor, which stays where it is. -/
def peekBuf (len offset : BitVec w) : Decode w (List Byte) := fun r =>
  if r.bufLen < r.cur + offset + len then
    .threw (.jceDecodeException
      s!"buffer overflow when peekBuf, over {(r.bufLen.setWidth 32).toNat}.") r
  else
    let start := r.cur.toNat + offset.toNat
    if len.toNat = 0 ∨ start + len.toNat ≤ r.buf.length then
      .returned ((r.buf.drop start).take len.toNat) r
    else .undefined

/-- `skip` adds to the cursor without looking at the end of the buffer. -/
def skip (len : BitVec w) : Decode w Unit := Exec.modify fun r => { r with cur := r.cur + len }

def readBuf (len : BitVec w) : Decode w (List Byte) := do
  let bs ← peekBuf len 0
  skip len
  pure bs

/-- `readByType`: a word of `k` bytes as it stands in memory. -/
def readByType (k v : ℕ) : Decode w (BitVec v) := do
  let bs ← readBuf (BitVec.ofNat w k)
  pure (load v bs)

end BufferReader

open BufferReader

/-- The type nibble of a head. The last two values belong to no type. -/
inductive HeadType where
  | eChar | eShort | eInt32 | eInt64 | eFloat | eDouble | eString1 | eString4 | eMap | eList
  | eStructBegin | eStructEnd | eZeroTag | eSimpleList | unused14 | unused15
  deriving DecidableEq, Repr

namespace HeadType

def code : HeadType → ℕ
  | eChar => 0 | eShort => 1 | eInt32 => 2 | eInt64 => 3 | eFloat => 4 | eDouble => 5
  | eString1 => 6 | eString4 => 7 | eMap => 8 | eList => 9 | eStructBegin => 10
  | eStructEnd => 11 | eZeroTag => 12 | eSimpleList => 13 | unused14 => 14 | unused15 => 15

def ofCode : ℕ → HeadType
  | 0 => eChar | 1 => eShort | 2 => eInt32 | 3 => eInt64 | 4 => eFloat | 5 => eDouble
  | 6 => eString1 | 7 => eString4 | 8 => eMap | 9 => eList | 10 => eStructBegin
  | 11 => eStructEnd | 12 => eZeroTag | 13 => eSimpleList | 14 => unused14 | _ => unused15

@[simp] theorem ofCode_code (t : HeadType) : ofCode t.code = t := by cases t <;> rfl

theorem code_lt (t : HeadType) : t.code < 16 := by cases t <;> decide

end HeadType

structure DataHead where
  type : HeadType
  tag : BitVec 8
  deriving DecidableEq, Repr

namespace DataHead

/-- The packed `helper`: the type in the low nibble, the tag in the high one. -/
def helper (type : HeadType) (tag : ℕ) : Byte := BitVec.ofNat 8 (type.code + 16*tag)
def helperType (h : Byte) : HeadType := HeadType.ofCode (h.toNat % 16)
def helperTag (h : Byte) : ℕ := h.toNat / 16

/-- `peekBuf` into an object of one byte. -/
def peekByte (offset : BitVec w) : Decode w Byte := do
  let bs ← peekBuf 1 offset
  pure (bs.headD 0)

/-- The head at the cursor and its length. -/
def peekFrom : Decode w (DataHead × BitVec w) := do
  let h ← peekByte 0
  if helperTag h = 15 then
    let tag ← peekByte 1
    pure (⟨helperType h,tag⟩,2)
  else
    pure (⟨helperType h,BitVec.ofNat 8 (helperTag h)⟩,1)

def readFrom : Decode w DataHead := do
  let (h,n) ← peekFrom
  skip n
  pure h

/-- A tag below 15 shares the byte of the type, a larger one follows it. -/
def writeTo (type : HeadType) (tag : BitVec 8) : List Byte :=
  if tag.toNat < 15 then [helper type tag.toNat] else [helper type 15,tag]

@[simp] theorem helperType_helper (type : HeadType) (tag : ℕ) :
    helperType (helper type tag) = type := by
  have hc := type.code_lt
  have hm : (type.code + 16*tag) % 2^8 % 16 = type.code := by omega
  rw [helperType, helper, BitVec.toNat_ofNat, hm, HeadType.ofCode_code]

theorem helperTag_helper (type : HeadType) (tag : ℕ) (h : tag < 16) :
    helperTag (helper type tag) = tag := by
  have hc := type.code_lt
  rw [helperTag, helper, BitVec.toNat_ofNat]
  omega

theorem writeTo_ne_nil (type : HeadType) (tag : BitVec 8) : writeTo type tag ≠ [] := by
  unfold writeTo
  split <;> simp

end DataHead
end UninstallObserver.Jce
