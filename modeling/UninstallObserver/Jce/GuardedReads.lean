import UninstallObserver.Jce.Searches
import UninstallObserver.Jce.Types

/-! Typed reads that stop where `skipField` would part from them.

A guard looks ahead and leaves the cursor alone: the guarded read of a type is its read
with a guard before each search of a struct member, each size and each map value. -/
namespace UninstallObserver.Jce
open Imperative ByteOrder BufferReader

variable {w : ℕ} {α β : Type}

/-- `skipField()`: the head of the field, then the field. -/
def skipFieldWithHead (fuel : ℕ) : Decode w Unit := do
  let h ← DataHead.readFrom
  skipField fuel h.type

/-- A field with head `h` begins at the cursor. -/
structure FieldAt (r : BufferReader w) (h : DataHead) : Prop where
  more : ¬ r.bufLen ≤ r.cur
  head : ∃ len, DataHead.peekFrom r = .returned (h,len) r
  notEnd : h.type ≠ .eStructEnd

/-- Where the field at the cursor can be read as a `t` under its own tag, `skipField()`
succeeds and leaves the cursor in the same place. -/
def Agrees (E : Env) (t : JceType) (old : Val t) (isRequire : Bool) (r : BufferReader w) : Prop :=
  ∀ h, FieldAt r h → ∀ v s,
    Exec.Ends (fun n => t.read E n old h.tag isRequire) r (.returned v s) →
      Exec.Ends skipFieldWithHead r (.returned () s)

section Guards

/-- The size at the cursor, which the strict guard reads as `skipField` does. -/
def guardedSize (strict : Bool) (fuel : ℕ) : Decode w (BitVec 32) :=
  if strict then readInt32 (fuel+1) 0 0 true else readUInt32 fuel 0 0 true

/-- The size at the cursor counts what `counts` asks. -/
def sizeGuard (strict : Bool) (fuel : ℕ) (counts : BitVec 32 → Bool) : Decode w Unit := do
  let size ← guardedSize strict fuel
  if counts size then pure ()
  else Exec.throw (.jceDecodeInvalidValue s!"size: {size.toInt}")

/-- After the head: outside any struct the number of fields that `skipField` counts is the
number there is, and a simple list always has the length it is skipped by. -/
def countGuard (strict outer : Bool) (fuel : ℕ) : HeadType → Decode w Unit
  | .eList => sizeGuard strict fuel fun size => !outer || size.toInt.toNat == size.toNat
  | .eMap => sizeGuard strict fuel fun size => !outer || (size*2).toInt.toNat == 2*size.toNat
  | .eSimpleList => do
    let _ ← DataHead.readFrom
    sizeGuard strict fuel fun size => size.signExtend w == size.setWidth w
  | _ => pure ()

/-- The size of the field that a search for `tag` finds. -/
def fieldGuard (strict outer : Bool) (fuel : ℕ) (tag : BitVec 8) : Decode w Unit :=
  Exec.lookahead (readField (skipToTag fuel tag) false "" () (countGuard strict outer fuel))

/-- Outside any struct the value of a map entry stands right at the cursor. -/
def valueGuard (outer : Bool) : Decode w Unit := do
  if outer then
    let (h,_) ← Exec.lookahead DataHead.peekFrom
    if h.tag = 1 then pure () else Exec.throw (.jceDecodeRequireNotExist (requireNotExist 1))
  else pure ()

/-- The strict guard of a struct member: the search for it swallows no exception. -/
def searchGuard (strict : Bool) (fuel : ℕ) (tag : BitVec 8) : Decode w Unit :=
  if strict then do
    let _ ← Exec.lookahead (skipToTagLoop fuel tag)
    pure ()
  else pure ()

end Guards

mutual

/-- `outer` says that the field lies in no struct. -/
def JceType.guardedRead {w : ℕ} (E : Env) (strict outer : Bool) (fuel : ℕ) :
    (t : JceType) → Val t → BitVec 8 → Bool → Decode w (Val t)
  | .charVector => fun old tag isRequire => do
    fieldGuard strict outer fuel tag
    readCharVector fuel old tag isRequire
  | .vector t => fun old tag isRequire => do
    fieldGuard strict outer fuel tag
    readVector fuel (fun a => t.guardedRead E strict outer fuel a 0 true) (E.init t) old tag
      isRequire
  | .map k v => fun old tag isRequire => do
    fieldGuard strict outer fuel tag
    readMap fuel (E.less k) (k.guardedRead E strict outer fuel (E.init k) 0 true)
      (do valueGuard outer; v.guardedRead E strict outer fuel (E.init v) 1 true) old tag isRequire
  | .struct fs =>
    readStruct fuel fun old => fs.guardedReadFrom E strict fuel (E.resetDefautlt fs old)
  | t => t.read E fuel

def Fields.guardedReadFrom {w : ℕ} (E : Env) (strict : Bool) (fuel : ℕ) :
    {lo : ℕ} → (fs : Fields lo) → Vals fs → Decode w (Vals fs)
  | _, .nil, _ => pure ()
  | _, .cons tag _ isRequire t rest, old => do
    searchGuard strict fuel tag
    let a ← t.guardedRead E strict false fuel old.1 tag isRequire
    let as ← rest.guardedReadFrom E strict fuel old.2
    pure (a,as)

end

/-- No guard stops a read of the field at the cursor that would have succeeded. -/
def Passable (strict : Bool) (E : Env) (t : JceType) (old : Val t) (isRequire : Bool)
    (r : BufferReader w) : Prop :=
  ∀ h, FieldAt r h → ∀ v s,
    Exec.Ends (fun n => t.read E n old h.tag isRequire) r (.returned v s) →
      Exec.Ends (fun n => t.guardedRead E strict true n old h.tag isRequire) r (.returned v s)

end UninstallObserver.Jce
