import UninstallObserver.Jce.Skip

/-! The typed reads of the input stream. Every read takes the earlier value of its target. -/
namespace UninstallObserver.Jce
open Imperative ByteOrder BufferReader

variable {w : ℕ} {α κ ν : Type}

/-- `JCE_MAX_STRING_LENGTH`. -/
def jceMaxStringLength : ℕ := 100*1024*1024

/-- `jce_htonll`, which is also `jce_ntohll`: both halves swapped, each one's bytes too. -/
def jceHtonll (x : BitVec 64) : BitVec 64 :=
  swap 4 (x.extractLsb' 0 32) ++ swap 4 (x.extractLsb' 32 32)

/-- How the host converts between its two floating-point formats. -/
structure FloatConversion where
  widen : BitVec 32 → BitVec 64
  narrow : BitVec 64 → BitVec 32

def readChar (fuel : ℕ) (old : BitVec 8) (tag : BitVec 8) (isRequire : Bool) :
    Decode w (BitVec 8) :=
  readField (skipToTag fuel tag) isRequire (requireNotExist tag ++ ".") old fun
    | .eZeroTag => pure 0
    | .eChar => readByType 1 8
    | t => typeMismatch "Char" tag t

def readBool (fuel : ℕ) (old : Bool) (tag : BitVec 8) (isRequire : Bool) : Decode w Bool := do
  let c ← readChar fuel (if old then 1 else 0) tag isRequire
  pure (c != 0)

def readShort (fuel : ℕ) (old : BitVec 16) (tag : BitVec 8) (isRequire : Bool) :
    Decode w (BitVec 16) :=
  readField (skipToTag fuel tag) isRequire (requireNotExist tag) old fun
    | .eZeroTag => pure 0
    | .eChar => do
      let n ← readByType 1 8
      pure (n.signExtend 16)
    | .eShort => do
      let n ← readByType 2 16
      pure (swap 2 n)
    | t => typeMismatch "Short" tag t

def readUInt8 (fuel : ℕ) (old : BitVec 8) (tag : BitVec 8) (isRequire : Bool) :
    Decode w (BitVec 8) := do
  let i ← readShort fuel (old.setWidth 16) tag isRequire
  pure (i.setWidth 8)

def readUInt16 (fuel : ℕ) (old : BitVec 16) (tag : BitVec 8) (isRequire : Bool) :
    Decode w (BitVec 16) := do
  let i ← readInt32 fuel (old.setWidth 32) tag isRequire
  pure (i.setWidth 16)

def readInt64 (fuel : ℕ) (old : BitVec 64) (tag : BitVec 8) (isRequire : Bool) :
    Decode w (BitVec 64) :=
  readField (skipToTag fuel tag) isRequire (requireNotExist tag) old fun
    | .eZeroTag => pure 0
    | .eChar => do
      let n ← readByType 1 8
      pure (n.signExtend 64)
    | .eShort => do
      let n ← readByType 2 16
      pure ((swap 2 n).signExtend 64)
    | .eInt32 => do
      let n ← readByType 4 32
      pure ((swap 4 n).signExtend 64)
    | .eInt64 => do
      let n ← readByType 8 64
      pure (jceHtonll n)
    | t => typeMismatch "Int64" tag t

def readUInt32 (fuel : ℕ) (old : BitVec 32) (tag : BitVec 8) (isRequire : Bool) :
    Decode w (BitVec 32) := do
  let i ← readInt64 fuel (old.setWidth 64) tag isRequire
  pure (i.setWidth 32)

/-- An enumeration is read as an `Int32` that starts from zero, not from the target. -/
def readEnum (fuel : ℕ) (_old : BitVec 32) (tag : BitVec 8) (isRequire : Bool) :
    Decode w (BitVec 32) := readInt32 fuel 0 tag isRequire

def readFloat (fuel : ℕ) (old : BitVec 32) (tag : BitVec 8) (isRequire : Bool) :
    Decode w (BitVec 32) :=
  readField (skipToTag fuel tag) isRequire (requireNotExist tag) old fun
    | .eZeroTag => pure 0
    | .eFloat => do
      let n ← readByType 4 32
      pure (swap 4 n)
    | t => typeMismatch "Float" tag t

/-- A `Float` on the wire is stored in the `Double` before its bytes are swapped. -/
def readDouble (F : FloatConversion) (fuel : ℕ) (old : BitVec 64) (tag : BitVec 8)
    (isRequire : Bool) : Decode w (BitVec 64) :=
  readField (skipToTag fuel tag) isRequire (requireNotExist tag) old fun
    | .eZeroTag => pure 0
    | .eFloat => do
      let n ← readByType 4 32
      pure (F.widen (swap 4 (F.narrow (F.widen n))))
    | .eDouble => do
      let n ← readByType 8 64
      pure (jceHtonll n)
    | t => typeMismatch "Double" tag t

/-- The switch of `read(std::string&)`. -/
def stringSwitch (tag : BitVec 8) : HeadType → Decode w (List Byte)
  | .eString1 => do
    let len ← readByType 1 8
    readBuf (len.setWidth w)
  | .eString4 => do
    let n ← readByType 4 32
    let len := swap 4 n
    if jceMaxStringLength < len.toNat then
      Exec.throw (.jceDecodeInvalidValue
        s!"invalid string size, tag: {tag.toNat}, size: {len.toInt}")
    else readBuf (len.setWidth w)
  | t => typeMismatch "string" tag t

def readString (fuel : ℕ) (old : List Byte) (tag : BitVec 8) (isRequire : Bool) :
    Decode w (List Byte) :=
  readField (skipToTag fuel tag) isRequire (requireNotExist tag) old (stringSwitch tag)

/-- Read a size and reject one larger than the whole buffer. -/
def readSize (fuel : ℕ) (invalid : BitVec 32 → String) : Decode w (BitVec 32) := do
  let size ← readUInt32 fuel 0 0 true
  let len ← BufferReader.size
  if len < size.setWidth w then Exec.throw (.jceDecodeInvalidValue (invalid size))
  else pure size

/-- `std::vector::resize`: cut off, or filled up with value-initialised elements. -/
def resize (v : List α) (n : ℕ) (init : α) : List α :=
  v.take n ++ List.replicate (n - v.length) init

/-- Read every element in turn over its earlier value. -/
def readElems (read : α → Decode w α) : List α → Decode w (List α)
  | [] => pure []
  | a::as => do
    let b ← read a
    let bs ← readElems read as
    pure (b::bs)

/-- The `eList` branch of a vector, whose elements `read` reads at tag 0. -/
def readListBody (fuel : ℕ) (read : α → Decode w α) (init : α) (old : List α)
    (invalid : BitVec 32 → String) : Decode w (List α) := do
  let size ← readSize fuel invalid
  readElems read (resize old size.toNat init)

def invalidListSize (tag : BitVec 8) (t : HeadType) (size : BitVec 32) : String :=
  s!"invalid size, tag: {tag.toNat}, type: {t.code}, size: {size.toInt}"

/-- `read(std::vector<T>&)`; `read` is the overload for the elements. -/
def readVector (fuel : ℕ) (read : α → Decode w α) (init : α) (old : List α) (tag : BitVec 8)
    (isRequire : Bool) : Decode w (List α) :=
  readField (skipToTag fuel tag) isRequire (requireNotExist tag) old fun
    | .eList => readListBody fuel read init old (invalidListSize tag .eList)
    | t => typeMismatch "vector" tag t

def invalidSimpleListSize (tag : BitVec 8) (t : HeadType) (size : BitVec 32) : String :=
  s!"invalid size, tag: {tag.toNat}, type: {HeadType.eSimpleList.code}, {t.code}, size: {size.toInt}"

/-- The `eSimpleList` branch of `read(std::vector<Char>&)`: a head, a size, the bytes. -/
def readSimpleListBody (fuel : ℕ) (tag : BitVec 8) : Decode w (List Byte) := do
  let hh ← DataHead.readFrom
  if hh.type ≠ .eChar then
    Exec.throw (.jceDecodeMismatch
      s!"type mismatch, tag: {tag.toNat}, type: {HeadType.eSimpleList.code}, {hh.type.code}")
  else
    let size ← readSize fuel (invalidSimpleListSize tag hh.type)
    readBuf (size.setWidth w)

/-- The switch of `read(std::vector<Char>&)`. -/
def charVectorSwitch (fuel : ℕ) (old : List Byte) (tag : BitVec 8) :
    HeadType → Decode w (List Byte)
  | .eSimpleList => readSimpleListBody fuel tag
  | .eList => readListBody fuel (fun c => readChar fuel c 0 true) 0 old (invalidListSize tag .eList)
  | t => Exec.throw (.jceDecodeMismatch s!"type mismatch, tag: {tag.toNat}, type: {t.code}")

def readCharVector (fuel : ℕ) (old : List Byte) (tag : BitVec 8) (isRequire : Bool) :
    Decode w (List Byte) :=
  readField (skipToTag fuel tag) isRequire (requireNotExist tag) old
    (charVectorSwitch fuel old tag)

/-- `std::map::insert` on the entries in key order: an equivalent key keeps its entry. -/
def mapInsert (less : κ → κ → Bool) (e : κ × ν) : List (κ × ν) → List (κ × ν)
  | [] => [e]
  | e'::m =>
    if less e'.1 e.1 then e'::mapInsert less e m
    else if less e.1 e'.1 then e::e'::m
    else e'::m

/-- The remaining turns of the loop that fills a map. -/
def readEntries (less : κ → κ → Bool) (readKey : Decode w κ) (readValue : Decode w ν) :
    ℕ → List (κ × ν) → Decode w (List (κ × ν))
  | 0, m => pure m
  | n+1, m => do
    let k ← readKey
    let v ← readValue
    readEntries less readKey readValue n (mapInsert less (k,v) m)

def readMap (fuel : ℕ) (less : κ → κ → Bool) (readKey : Decode w κ) (readValue : Decode w ν)
    (old : List (κ × ν)) (tag : BitVec 8) (isRequire : Bool) : Decode w (List (κ × ν)) :=
  readField (skipToTag fuel tag) isRequire (requireNotExist tag) old fun
    | .eMap => do
      let size ← readSize fuel fun size =>
        s!"invalid map, tag: {tag.toNat}, size: {size.toInt}"
      readEntries less readKey readValue size.toNat []
    | t => typeMismatch "map" tag t

/-- `read` of a struct whose `readFrom` starts from the earlier value `old`. -/
def readStruct (fuel : ℕ) (readFrom : α → Decode w α) (old : α) (tag : BitVec 8)
    (isRequire : Bool) : Decode w α :=
  readField (skipToTag fuel tag) isRequire (requireNotExist tag) old fun
    | .eStructBegin => do
      let v ← readFrom old
      skipToStructEnd fuel
      pure v
    | t => typeMismatch "struct" tag t

end UninstallObserver.Jce
