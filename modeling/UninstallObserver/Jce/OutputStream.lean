import UninstallObserver.Jce.InputStream

/-! The typed writes of the output stream, each as the bytes it appends. -/
namespace UninstallObserver.Jce
open ByteOrder

variable {α κ ν : Type}

/-- The bytes a write appends, or what it throws. -/
abbrev Encoded := Except JceException (List Byte)

def writeChar (n : BitVec 8) (tag : BitVec 8) : List Byte :=
  if n = 0 then DataHead.writeTo .eZeroTag tag
  else DataHead.writeTo .eChar tag ++ store 1 n

def writeBool (b : Bool) (tag : BitVec 8) : List Byte := writeChar (if b then 1 else 0) tag

def writeShort (n : BitVec 16) (tag : BitVec 8) : List Byte :=
  if -128 ≤ n.toInt ∧ n.toInt ≤ 127 then writeChar (n.setWidth 8) tag
  else DataHead.writeTo .eShort tag ++ store 2 (swap 2 n)

def writeUInt8 (n : BitVec 8) (tag : BitVec 8) : List Byte := writeShort (n.setWidth 16) tag

def writeInt32 (n : BitVec 32) (tag : BitVec 8) : List Byte :=
  if -32768 ≤ n.toInt ∧ n.toInt ≤ 32767 then writeShort (n.setWidth 16) tag
  else DataHead.writeTo .eInt32 tag ++ store 4 (swap 4 n)

def writeUInt16 (n : BitVec 16) (tag : BitVec 8) : List Byte := writeInt32 (n.setWidth 32) tag

def writeInt64 (n : BitVec 64) (tag : BitVec 8) : List Byte :=
  if -2147483647-1 ≤ n.toInt ∧ n.toInt ≤ 2147483647 then writeInt32 (n.setWidth 32) tag
  else DataHead.writeTo .eInt64 tag ++ store 8 (jceHtonll n)

def writeUInt32 (n : BitVec 32) (tag : BitVec 8) : List Byte := writeInt64 (n.setWidth 64) tag

/-- An enumeration is written as an `Int32`. -/
def writeEnum (v : BitVec 32) (tag : BitVec 8) : List Byte := writeInt32 v tag

def writeFloat (n : BitVec 32) (tag : BitVec 8) : List Byte :=
  DataHead.writeTo .eFloat tag ++ store 4 (swap 4 n)

def writeDouble (n : BitVec 64) (tag : BitVec 8) : List Byte :=
  DataHead.writeTo .eDouble tag ++ store 8 (jceHtonll n)

/-- A string too long for the format is refused with a *decode* exception. -/
def writeString (s : List Byte) (tag : BitVec 8) : Encoded :=
  if 255 < s.length then
    if jceMaxStringLength < s.length then
      throw (.jceDecodeInvalidValue
        s!"invalid string size, tag: {tag.toNat}, size: {(BitVec.ofNat 32 s.length).toNat}")
    else
      pure (DataHead.writeTo .eString4 tag ++ store 4 (swap 4 (BitVec.ofNat 32 s.length)) ++ s)
  else pure (DataHead.writeTo .eString1 tag ++ store 1 (BitVec.ofNat 8 s.length) ++ s)

/-- `write(const std::vector<Char>&)`. -/
def writeCharVector (v : List Byte) (tag : BitVec 8) : List Byte :=
  DataHead.writeTo .eSimpleList tag ++ DataHead.writeTo .eChar 0
    ++ writeInt32 (BitVec.ofNat 32 v.length) 0 ++ v

/-- The loop of `write(const std::vector<T>&)`. -/
def writeElems (write : α → Encoded) : List α → Encoded
  | [] => pure []
  | a::as => do
    let b ← write a
    let bs ← writeElems write as
    pure (b ++ bs)

def writeVector (write : α → Encoded) (v : List α) (tag : BitVec 8) : Encoded := do
  let body ← writeElems write v
  pure (DataHead.writeTo .eList tag ++ writeInt32 (BitVec.ofNat 32 v.length) 0 ++ body)

/-- The loop of `write(const std::map<K, V>&)`. -/
def writeEntries (writeKey : κ → Encoded) (writeValue : ν → Encoded) :
    List (κ × ν) → Encoded
  | [] => pure []
  | e::m => do
    let k ← writeKey e.1
    let v ← writeValue e.2
    let bs ← writeEntries writeKey writeValue m
    pure (k ++ v ++ bs)

def writeMap (writeKey : κ → Encoded) (writeValue : ν → Encoded) (m : List (κ × ν))
    (tag : BitVec 8) : Encoded := do
  let body ← writeEntries writeKey writeValue m
  pure (DataHead.writeTo .eMap tag ++ writeInt32 (BitVec.ofNat 32 m.length) 0 ++ body)

/-- `write` of a struct, whose members `writeTo` writes. -/
def writeStruct (writeTo : α → Encoded) (v : α) (tag : BitVec 8) : Encoded := do
  let body ← writeTo v
  pure (DataHead.writeTo .eStructBegin tag ++ body ++ DataHead.writeTo .eStructEnd 0)

end UninstallObserver.Jce
