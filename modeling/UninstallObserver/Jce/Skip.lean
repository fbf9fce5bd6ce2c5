import UninstallObserver.Jce.BufferReader

/-! Passing over fields: the mutually recursive part of the input stream.

Every loop turn and every call of the recursion spends one unit of fuel. -/
namespace UninstallObserver.Jce
open Imperative ByteOrder BufferReader

variable {w : ℕ} {α : Type}

/-- The common shape of the typed reads: find the field, read its head and hand its
type to the switch; an absent field throws when it is required, else leaves the
target as it was. -/
def readField (found : Decode w Bool) (isRequire : Bool) (missing : String) (old : α)
    (switch : HeadType → Decode w α) : Decode w α := do
  if ← found then
    let h ← DataHead.readFrom
    switch h.type
  else if isRequire then Exec.throw (.jceDecodeRequireNotExist missing)
  else pure old

/-- The `default` branch of a typed read's switch. -/
def typeMismatch (typeName : String) (tag : BitVec 8) (t : HeadType) : Decode w α :=
  Exec.throw (.jceDecodeMismatch
    s!"read '{typeName}' type mismatch, tag: {tag.toNat}, get type: {t.code}.")

/-- The text for a required field that is not there. -/
def requireNotExist (tag : BitVec 8) : String :=
  s!"require field not exist, tag: {tag.toNat}"

/-- The switch of `read(Int32&)`. -/
def int32Switch (tag : BitVec 8) : HeadType → Decode w (BitVec 32)
  | .eZeroTag => pure 0
  | .eChar => do
    let n ← readByType 1 8
    pure (n.signExtend 32)
  | .eShort => do
    let n ← readByType 2 16
    pure ((swap 2 n).signExtend 32)
  | .eInt32 => do
    let n ← readByType 4 32
    pure (swap 4 n)
  | t => typeMismatch "Int32" tag t

mutual

/-- The `while` loop in the `try` block of `skipToTag`. -/
def skipToTagLoop : ℕ → BitVec 8 → Decode w Bool
  | 0, _ => Exec.outOfFuel
  | fuel+1, tag => do
    if ← hasEnd then
      pure false
    else
      let (h,len) ← DataHead.peekFrom
      if tag ≤ h.tag ∨ h.type = .eStructEnd then
        pure (if h.type = .eStructEnd then false else tag == h.tag)
      else
        skip len
        skipField fuel h.type
        skipToTagLoop fuel tag

/-- A decode exception raised while passing over fields counts as "not found". -/
def skipToTag : ℕ → BitVec 8 → Decode w Bool
  | 0, _ => Exec.outOfFuel
  | fuel+1, tag =>
    Exec.catchIf JceException.isDecodeException (skipToTagLoop fuel tag) (pure false)

def skipToStructEnd : ℕ → Decode w Unit
  | 0 => Exec.outOfFuel
  | fuel+1 => do
    let h ← DataHead.readFrom
    skipField fuel h.type
    if h.type = .eStructEnd then pure () else skipToStructEnd fuel

/-- `skipField(type)`: the head has been read. The size of a map or list is an
`Int32`, doubled for a map, and that of a simple list goes to `skip` as a `size_t`. C++ leaves it
open what the double of an `Int32` is where it overflows; here it wraps. -/
def skipField : ℕ → HeadType → Decode w Unit
  | 0, _ => Exec.outOfFuel
  | fuel+1, type =>
    match type with
    | .eChar => skip 1
    | .eShort => skip 2
    | .eInt32 => skip 4
    | .eInt64 => skip 8
    | .eFloat => skip 4
    | .eDouble => skip 8
    | .eString1 => do
      let len ← readByType 1 8
      skip (len.setWidth w)
    | .eString4 => do
      let len ← readByType 4 32
      skip ((swap 4 len).setWidth w)
    | .eMap => do
      let size ← readInt32 fuel 0 0 true
      skipFields fuel (size*2).toInt.toNat
    | .eList => do
      let size ← readInt32 fuel 0 0 true
      skipFields fuel size.toInt.toNat
    | .eSimpleList => do
      let h ← DataHead.readFrom
      if h.type ≠ .eChar then
        Exec.throw (.jceDecodeMismatch
          s!"skipField with invalid type, type value: {type.code}, {h.type.code}.")
      else
        let size ← readInt32 fuel 0 0 true
        skip (size.signExtend w)
    | .eStructBegin => skipToStructEnd fuel
    | .eStructEnd | .eZeroTag => pure ()
    | .unused14 | .unused15 =>
      Exec.throw (.jceDecodeMismatch
        s!"skipField with invalid type, type value:{type.code}.")

/-- The remaining turns of a `for` loop over `skipField()`, which reads a head and
passes over its field. -/
def skipFields : ℕ → ℕ → Decode w Unit
  | 0, _ => Exec.outOfFuel
  | _+1, 0 => pure ()
  | fuel+1, k+1 => do
    let h ← DataHead.readFrom
    skipField fuel h.type
    skipFields fuel k

/-- `read(Int32&)`, which also reads the sizes of the fields passed over. -/
def readInt32 : ℕ → BitVec 32 → BitVec 8 → Bool → Decode w (BitVec 32)
  | 0, _, _, _ => Exec.outOfFuel
  | fuel+1, old, tag, isRequire =>
    readField (skipToTag fuel tag) isRequire (requireNotExist tag) old (int32Switch tag)

end

end UninstallObserver.Jce
