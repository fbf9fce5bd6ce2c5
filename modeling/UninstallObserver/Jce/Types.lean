import UninstallObserver.Jce.OutputStream

/-! The types the streams have overloads for, and the overloads chosen for each. -/
namespace UninstallObserver.Jce
open Imperative ByteOrder

mutual

/-- `charVector` is `vector<Char>`, which has overloads of its own. -/
inductive JceType where
  | bool | char | uint8 | short | uint16 | int32 | uint32 | int64 | float | double | enum
  | string | charVector
  | vector (t : JceType)
  | map (k v : JceType)
  | struct (fs : Fields 0)

/-- The members of a struct in the order of its `writeTo` and `readFrom`, the tags
strictly ascending from `lo` on. -/
inductive Fields : ℕ → Type where
  | nil {lo : ℕ} : Fields lo
  | cons {lo : ℕ} (tag : BitVec 8) (ascending : lo ≤ tag.toNat) (isRequire : Bool)
      (t : JceType) (rest : Fields (tag.toNat+1)) : Fields lo

end

mutual

/-- The values of a type; a map is its entries in key order. -/
def Val : JceType → Type
  | .bool => Bool
  | .char | .uint8 => BitVec 8
  | .short | .uint16 => BitVec 16
  | .int32 | .uint32 | .float | .enum => BitVec 32
  | .int64 | .double => BitVec 64
  | .string | .charVector => List Byte
  | .vector t => List (Val t)
  | .map k v => List (Val k × Val v)
  | .struct fs => Vals fs

def Vals : {lo : ℕ} → Fields lo → Type
  | _, .nil => Unit
  | _, .cons _ _ _ t rest => Val t × Vals rest

end

/-- What the program around the streams supplies: the host's floating point, the order
of map keys, what `T()` builds, and what the `resetDefautlt` of a struct resets. -/
structure Env where
  float : FloatConversion
  less : (t : JceType) → Val t → Val t → Bool
  init : (t : JceType) → Val t
  resetDefautlt : (fs : Fields 0) → Vals fs → Vals fs

mutual

/-- What `T()` builds where no struct member has a default of its own. -/
def Val.init : (t : JceType) → Val t
  | .bool => false
  | .char | .uint8 => (0 : BitVec 8)
  | .short | .uint16 => (0 : BitVec 16)
  | .int32 | .uint32 | .float | .enum => (0 : BitVec 32)
  | .int64 | .double => (0 : BitVec 64)
  | .string | .charVector => ([] : List Byte)
  | .vector t => ([] : List (Val t))
  | .map k v => ([] : List (Val k × Val v))
  | .struct fs => Vals.init fs

def Vals.init : {lo : ℕ} → (fs : Fields lo) → Vals fs
  | _, .nil => ()
  | _, .cons _ _ _ t rest => (Val.init t,Vals.init rest)

end

/-- `operator<` on the integer types; other keys are not ordered here. -/
def Val.less : (t : JceType) → Val t → Val t → Bool
  | .char, a, b => BitVec.slt (n := 8) a b
  | .uint8, a, b => BitVec.ult (n := 8) a b
  | .short, a, b => BitVec.slt (n := 16) a b
  | .uint16, a, b => BitVec.ult (n := 16) a b
  | .int32, a, b => BitVec.slt (n := 32) a b
  | .uint32, a, b => BitVec.ult (n := 32) a b
  | .int64, a, b => BitVec.slt (n := 64) a b
  | _, _, _ => false

/-- An environment for programs without floating point whose maps have integer keys. -/
def Env.plain : Env where
  float := ⟨fun x => x.setWidth 64,fun x => x.setWidth 32⟩
  less := Val.less
  init := Val.init
  resetDefautlt _ v := v

mutual

/-- The overload of `JceInputStream::read` for a type. -/
def JceType.read {w : ℕ} (E : Env) (fuel : ℕ) :
    (t : JceType) → Val t → BitVec 8 → Bool → Decode w (Val t)
  | .bool => readBool fuel
  | .char => readChar fuel
  | .uint8 => readUInt8 fuel
  | .short => readShort fuel
  | .uint16 => readUInt16 fuel
  | .int32 => readInt32 fuel
  | .uint32 => readUInt32 fuel
  | .int64 => readInt64 fuel
  | .float => readFloat fuel
  | .double => readDouble E.float fuel
  | .enum => readEnum fuel
  | .string => readString fuel
  | .charVector => readCharVector fuel
  | .vector t => readVector fuel (fun a => t.read E fuel a 0 true) (E.init t)
  | .map k v =>
    readMap fuel (E.less k) (k.read E fuel (E.init k) 0 true) (v.read E fuel (E.init v) 1 true)
  | .struct fs => readStruct fuel fun old => fs.readFrom E fuel (E.resetDefautlt fs old)

/-- The reads of a struct's `readFrom`. -/
def Fields.readFrom {w : ℕ} (E : Env) (fuel : ℕ) :
    {lo : ℕ} → (fs : Fields lo) → Vals fs → Decode w (Vals fs)
  | _, .nil, _ => pure ()
  | _, .cons tag _ isRequire t rest, old => do
    let a ← t.read E fuel old.1 tag isRequire
    let as ← rest.readFrom E fuel old.2
    pure (a,as)

end

mutual

/-- The overload of `JceOutputStream::write` for a type. -/
def JceType.write : (t : JceType) → Val t → BitVec 8 → Encoded
  | .bool, v, tag => pure (writeBool v tag)
  | .char, v, tag => pure (writeChar v tag)
  | .uint8, v, tag => pure (writeUInt8 v tag)
  | .short, v, tag => pure (writeShort v tag)
  | .uint16, v, tag => pure (writeUInt16 v tag)
  | .int32, v, tag => pure (writeInt32 v tag)
  | .uint32, v, tag => pure (writeUInt32 v tag)
  | .int64, v, tag => pure (writeInt64 v tag)
  | .float, v, tag => pure (writeFloat v tag)
  | .double, v, tag => pure (writeDouble v tag)
  | .enum, v, tag => pure (writeEnum v tag)
  | .string, v, tag => writeString v tag
  | .charVector, v, tag => pure (writeCharVector v tag)
  | .vector t, v, tag => writeVector (fun a => t.write a 0) v tag
  | .map k v, m, tag => writeMap (fun a => k.write a 0) (fun b => v.write b 1) m tag
  | .struct fs, v, tag => writeStruct fs.writeTo v tag

/-- The writes of a struct's `writeTo`. -/
def Fields.writeTo : {lo : ℕ} → (fs : Fields lo) → Vals fs → Encoded
  | _, .nil, _ => pure []
  | _, .cons tag _ _ t rest, v => do
    let a ← t.write v.1 tag
    let as ← rest.writeTo v.2
    pure (a ++ as)

end

mutual

/-- The values a stream carries: strings within the limit of the format, and maps as
the C++ type keeps them, with ascending keys. -/
def Val.Valid (E : Env) : (t : JceType) → Val t → Prop
  | .string, s => (show List Byte from s).length ≤ jceMaxStringLength
  | .vector t, v => ∀ a ∈ (show List (Val t) from v), Val.Valid E t a
  | .map k v, m =>
    (show List (Val k × Val v) from m).Pairwise (fun a b => E.less k a.1 b.1) ∧
      ∀ e ∈ (show List (Val k × Val v) from m), Val.Valid E k e.1 ∧ Val.Valid E v e.2
  | .struct fs, v => Vals.Valid E fs v
  | _, _ => True

def Vals.Valid (E : Env) : {lo : ℕ} → (fs : Fields lo) → Vals fs → Prop
  | _, .nil, _ => True
  | _, .cons _ _ _ t rest, v => Val.Valid E t v.1 ∧ Vals.Valid E rest v.2

end

end UninstallObserver.Jce
