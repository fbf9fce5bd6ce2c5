import UninstallObserver.Lib.Emission
import UninstallObserver.Jce.SchemaEvolution

/-! The output stream over any writer: what it hands to `writeBuf`, call by call.

The bytes of `OutputStream` are what these calls come to. -/
namespace UninstallObserver.Jce
open Imperative ByteOrder

/-- Code over a writer whose state is `σ`. -/
abbrev Put (σ : Type) := Exec JceException σ

section Stream
variable {σ α κ ν : Type} (writeBuf : List Byte → Put σ Unit)

/-- `DataHead::writeTo` on a stream. -/
def DataHead.writeOn (type : HeadType) (tag : BitVec 8) : Put σ Unit :=
  if tag.toNat < 15 then writeBuf [helper type tag.toNat]
  else do
    writeBuf [helper type 15]
    writeBuf [tag]

namespace JceOutputStream

def writeChar (n : BitVec 8) (tag : BitVec 8) : Put σ Unit :=
  if n = 0 then DataHead.writeOn writeBuf .eZeroTag tag
  else do
    DataHead.writeOn writeBuf .eChar tag
    writeBuf (store 1 n)

def writeBool (b : Bool) (tag : BitVec 8) : Put σ Unit := writeChar writeBuf (if b then 1 else 0) tag

def writeShort (n : BitVec 16) (tag : BitVec 8) : Put σ Unit :=
  if -128 ≤ n.toInt ∧ n.toInt ≤ 127 then writeChar writeBuf (n.setWidth 8) tag
  else do
    DataHead.writeOn writeBuf .eShort tag
    writeBuf (store 2 (swap 2 n))

def writeUInt8 (n : BitVec 8) (tag : BitVec 8) : Put σ Unit := writeShort writeBuf (n.setWidth 16) tag

def writeInt32 (n : BitVec 32) (tag : BitVec 8) : Put σ Unit :=
  if -32768 ≤ n.toInt ∧ n.toInt ≤ 32767 then writeShort writeBuf (n.setWidth 16) tag
  else do
    DataHead.writeOn writeBuf .eInt32 tag
    writeBuf (store 4 (swap 4 n))

def writeUInt16 (n : BitVec 16) (tag : BitVec 8) : Put σ Unit := writeInt32 writeBuf (n.setWidth 32) tag

def writeInt64 (n : BitVec 64) (tag : BitVec 8) : Put σ Unit :=
  if -2147483647-1 ≤ n.toInt ∧ n.toInt ≤ 2147483647 then writeInt32 writeBuf (n.setWidth 32) tag
  else do
    DataHead.writeOn writeBuf .eInt64 tag
    writeBuf (store 8 (jceHtonll n))

def writeUInt32 (n : BitVec 32) (tag : BitVec 8) : Put σ Unit := writeInt64 writeBuf (n.setWidth 64) tag

def writeEnum (v : BitVec 32) (tag : BitVec 8) : Put σ Unit := writeInt32 writeBuf v tag

def writeFloat (n : BitVec 32) (tag : BitVec 8) : Put σ Unit := do
  DataHead.writeOn writeBuf .eFloat tag
  writeBuf (store 4 (swap 4 n))

def writeDouble (n : BitVec 64) (tag : BitVec 8) : Put σ Unit := do
  DataHead.writeOn writeBuf .eDouble tag
  writeBuf (store 8 (jceHtonll n))

def writeString (s : List Byte) (tag : BitVec 8) : Put σ Unit :=
  if 255 < s.length then
    if jceMaxStringLength < s.length then
      Exec.throw (.jceDecodeInvalidValue
        s!"invalid string size, tag: {tag.toNat}, size: {(BitVec.ofNat 32 s.length).toNat}")
    else do
      DataHead.writeOn writeBuf .eString4 tag
      writeBuf (store 4 (swap 4 (BitVec.ofNat 32 s.length)))
      writeBuf s
  else do
    DataHead.writeOn writeBuf .eString1 tag
    writeBuf (store 1 (BitVec.ofNat 8 s.length))
    writeBuf s

def writeCharVector (v : List Byte) (tag : BitVec 8) : Put σ Unit := do
  DataHead.writeOn writeBuf .eSimpleList tag
  DataHead.writeOn writeBuf .eChar 0
  writeInt32 writeBuf (BitVec.ofNat 32 v.length) 0
  writeBuf v

/-- The loop of `write(const std::vector<T>&)`. -/
def writeElems (write : α → Put σ Unit) : List α → Put σ Unit
  | [] => pure ()
  | a::as => do
    write a
    writeElems write as

def writeVector (write : α → Put σ Unit) (v : List α) (tag : BitVec 8) : Put σ Unit := do
  DataHead.writeOn writeBuf .eList tag
  writeInt32 writeBuf (BitVec.ofNat 32 v.length) 0
  writeElems write v

/-- The loop of `write(const std::map<K, V>&)`. -/
def writeEntries (writeKey : κ → Put σ Unit) (writeValue : ν → Put σ Unit) : List (κ × ν) → Put σ Unit
  | [] => pure ()
  | e::m => do
    writeKey e.1
    writeValue e.2
    writeEntries writeKey writeValue m

def writeMap (writeKey : κ → Put σ Unit) (writeValue : ν → Put σ Unit) (m : List (κ × ν))
    (tag : BitVec 8) : Put σ Unit := do
  DataHead.writeOn writeBuf .eMap tag
  writeInt32 writeBuf (BitVec.ofNat 32 m.length) 0
  writeEntries writeKey writeValue m

def writeStruct (writeTo : α → Put σ Unit) (v : α) (tag : BitVec 8) : Put σ Unit := do
  DataHead.writeOn writeBuf .eStructBegin tag
  writeTo v
  DataHead.writeOn writeBuf .eStructEnd 0

mutual

/-- The overload of `write` for a type. -/
def write : (t : JceType) → Val t → BitVec 8 → Put σ Unit
  | .bool, v, tag => writeBool writeBuf v tag
  | .char, v, tag => writeChar writeBuf v tag
  | .uint8, v, tag => writeUInt8 writeBuf v tag
  | .short, v, tag => writeShort writeBuf v tag
  | .uint16, v, tag => writeUInt16 writeBuf v tag
  | .int32, v, tag => writeInt32 writeBuf v tag
  | .uint32, v, tag => writeUInt32 writeBuf v tag
  | .int64, v, tag => writeInt64 writeBuf v tag
  | .float, v, tag => writeFloat writeBuf v tag
  | .double, v, tag => writeDouble writeBuf v tag
  | .enum, v, tag => writeEnum writeBuf v tag
  | .string, v, tag => writeString writeBuf v tag
  | .charVector, v, tag => writeCharVector writeBuf v tag
  | .vector t, v, tag => writeVector writeBuf (fun a => write t a 0) v tag
  | .map k v, m, tag => writeMap writeBuf (fun a => write k a 0) (fun b => write v b 1) m tag
  | .struct fs, v, tag => writeStruct writeBuf (writeTo fs) v tag

/-- The writes of a struct's `writeTo`. -/
def writeTo : {lo : ℕ} → (fs : Fields lo) → Vals fs → Put σ Unit
  | _, .nil, _ => pure ()
  | _, .cons tag _ _ t rest, v => do
    write t v.1 tag
    writeTo rest v.2

end

/-- One field after another, in any order of their tags. -/
def writeFields (fs : List Field) : Put σ Unit :=
  writeElems (fun f => write writeBuf f.type f.value f.tag) fs

end JceOutputStream
end Stream

/-- The pieces make up what is encoded, or were handed over before the exception. -/
inductive Spells (pieces : List (List Byte)) : Option JceException → Encoded → Prop
  | ok : Spells pieces none (.ok pieces.flatten)
  | error (e : JceException) : Spells pieces (some e) (.error e)

/-- Whatever the writer, `m` hands over the same pieces, and they spell `enc`. -/
def Streams (m : (σ : Type) → (List Byte → Put σ Unit) → Put σ Unit) (enc : Encoded) : Prop :=
  ∃ pieces thrown, Spells pieces thrown enc ∧
    ∀ σ writeBuf, m σ writeBuf = Exec.emit writeBuf pieces thrown

namespace Streams
variable {m n : (σ : Type) → (List Byte → Put σ Unit) → Put σ Unit} {enc enc' : Encoded}
  {α κ ν : Type} {tag : BitVec 8}

theorem nil : Streams (fun _ _ => pure ()) (pure []) := ⟨[],none,.ok,fun _ _ => rfl⟩

theorem piece (bs : List Byte) : Streams (fun _ writeBuf => writeBuf bs) (pure bs) := by
  have hspells : Spells [bs] none (pure bs) := by
    have h : Spells [bs] none (.ok [bs].flatten) := .ok
    rwa [List.flatten_singleton] at h
  exact ⟨[bs],none,hspells,fun _ _ => (Exec.emit_singleton bs).symm⟩

theorem throw (e : JceException) : Streams (fun _ _ => Exec.throw e) (throw e) :=
  ⟨[],some e,.error e,fun _ _ => rfl⟩

/-- One stream of pieces after another. -/
theorem seq (hm : Streams m enc) (hn : Streams n enc') :
    Streams (fun σ writeBuf => do m σ writeBuf; n σ writeBuf)
      (do let a ← enc; let b ← enc'; pure (a ++ b)) := by
  obtain ⟨ps,thrown,hspells,hm⟩ := hm
  obtain ⟨qs,thrown',hspells',hn⟩ := hn
  cases hspells with
  | error e =>
    refine ⟨ps,some e,.error e,fun σ writeBuf => ?_⟩
    dsimp only
    rw [hm,Exec.emit_throw_bind]
  | ok =>
    refine ⟨ps ++ qs,thrown',?_,fun σ writeBuf => ?_⟩
    · cases hspells' with
      | ok =>
        have h : Spells (ps ++ qs) none (.ok (ps ++ qs).flatten) := .ok
        rwa [List.flatten_append] at h
      | error e => exact .error e
    · dsimp only
      rw [hm,hn,Exec.emit_append]

/-- A stream of pieces after two others that throw nothing. -/
theorem seq₂ {k : (σ : Type) → (List Byte → Put σ Unit) → Put σ Unit} {xs ys : List Byte}
    (hm : Streams m (pure xs)) (hn : Streams n (pure ys)) (hk : Streams k enc) :
    Streams (fun σ writeBuf => do m σ writeBuf; n σ writeBuf; k σ writeBuf)
      (do let b ← enc; pure (xs ++ ys ++ b)) := by
  have h := hm.seq (hn.seq hk)
  simp only [bind_assoc, pure_bind, ← List.append_assoc] at h
  exact h

section Numbers

theorem head (type : HeadType) (tag : BitVec 8) :
    Streams (fun _ writeBuf => DataHead.writeOn writeBuf type tag)
      (pure (DataHead.writeTo type tag)) := by
  unfold DataHead.writeOn DataHead.writeTo
  by_cases h : tag.toNat < 15
  · simp only [if_pos h]
    exact piece _
  · simp only [if_neg h]
    exact (piece _).seq (piece _)

/-- A head and a word. -/
theorem word (type : HeadType) (tag : BitVec 8) (bs : List Byte) :
    Streams (fun _ writeBuf => do DataHead.writeOn writeBuf type tag; writeBuf bs)
      (pure (DataHead.writeTo type tag ++ bs)) := (head type tag).seq (piece bs)

theorem writeChar (n : BitVec 8) (tag : BitVec 8) :
    Streams (fun _ writeBuf => JceOutputStream.writeChar writeBuf n tag)
      (pure (Jce.writeChar n tag)) := by
  unfold JceOutputStream.writeChar Jce.writeChar
  by_cases h : n = 0
  · simp only [if_pos h]
    exact head _ _
  · simp only [if_neg h]
    exact word _ _ _

theorem writeShort (n : BitVec 16) (tag : BitVec 8) :
    Streams (fun _ writeBuf => JceOutputStream.writeShort writeBuf n tag)
      (pure (Jce.writeShort n tag)) := by
  unfold JceOutputStream.writeShort Jce.writeShort
  by_cases h : -128 ≤ n.toInt ∧ n.toInt ≤ 127
  · simp only [if_pos h]
    exact writeChar _ _
  · simp only [if_neg h]
    exact word _ _ _

theorem writeInt32 (n : BitVec 32) (tag : BitVec 8) :
    Streams (fun _ writeBuf => JceOutputStream.writeInt32 writeBuf n tag)
      (pure (Jce.writeInt32 n tag)) := by
  unfold JceOutputStream.writeInt32 Jce.writeInt32
  by_cases h : -32768 ≤ n.toInt ∧ n.toInt ≤ 32767
  · simp only [if_pos h]
    exact writeShort _ _
  · simp only [if_neg h]
    exact word _ _ _

theorem writeInt64 (n : BitVec 64) (tag : BitVec 8) :
    Streams (fun _ writeBuf => JceOutputStream.writeInt64 writeBuf n tag)
      (pure (Jce.writeInt64 n tag)) := by
  unfold JceOutputStream.writeInt64 Jce.writeInt64
  by_cases h : -2147483647-1 ≤ n.toInt ∧ n.toInt ≤ 2147483647
  · simp only [if_pos h]
    exact writeInt32 _ _
  · simp only [if_neg h]
    exact word _ _ _

end Numbers

section Bytes

theorem writeString (s : List Byte) (tag : BitVec 8) :
    Streams (fun _ writeBuf => JceOutputStream.writeString writeBuf s tag)
      (Jce.writeString s tag) := by
  unfold JceOutputStream.writeString Jce.writeString
  by_cases hlong : 255 < s.length
  · simp only [if_pos hlong]
    by_cases hmax : jceMaxStringLength < s.length
    · simp only [if_pos hmax]
      exact throw _
    · simp only [if_neg hmax]
      exact (head _ _).seq₂ (piece _) (piece _)
  · simp only [if_neg hlong]
    exact (head _ _).seq₂ (piece _) (piece _)

theorem writeCharVector (v : List Byte) (tag : BitVec 8) :
    Streams (fun _ writeBuf => JceOutputStream.writeCharVector writeBuf v tag)
      (pure (Jce.writeCharVector v tag)) := by
  have h := (head .eSimpleList tag).seq₂ (head .eChar 0)
    ((writeInt32 (BitVec.ofNat 32 v.length) 0).seq (piece v))
  unfold Jce.writeCharVector
  rw [List.append_assoc _ (Jce.writeInt32 _ _) v]
  exact h

end Bytes

section Containers

theorem writeElems {write : (σ : Type) → (List Byte → Put σ Unit) → α → Put σ Unit}
    {encode : α → Encoded} {v : List α}
    (h : ∀ a ∈ v, Streams (fun σ writeBuf => write σ writeBuf a) (encode a)) :
    Streams (fun σ writeBuf => JceOutputStream.writeElems (write σ writeBuf) v)
      (Jce.writeElems encode v) := by
  induction v with
  | nil => exact nil
  | cons a v ih => exact (h a (by simp)).seq (ih fun b hb => h b (by simp [hb]))

theorem writeEntries {writeKey : (σ : Type) → (List Byte → Put σ Unit) → κ → Put σ Unit}
    {writeValue : (σ : Type) → (List Byte → Put σ Unit) → ν → Put σ Unit}
    {encodeKey : κ → Encoded} {encodeValue : ν → Encoded} {m : List (κ × ν)}
    (hk : ∀ e ∈ m, Streams (fun σ writeBuf => writeKey σ writeBuf e.1) (encodeKey e.1))
    (hv : ∀ e ∈ m, Streams (fun σ writeBuf => writeValue σ writeBuf e.2) (encodeValue e.2)) :
    Streams (fun σ writeBuf => JceOutputStream.writeEntries (writeKey σ writeBuf)
      (writeValue σ writeBuf) m) (Jce.writeEntries encodeKey encodeValue m) := by
  induction m with
  | nil => exact nil
  | cons e m ih =>
    have hrest := ih (fun e' he' => hk e' (by simp [he'])) fun e' he' => hv e' (by simp [he'])
    have h := (hk e (by simp)).seq ((hv e (by simp)).seq hrest)
    simp only [bind_assoc, pure_bind, ← List.append_assoc] at h
    exact h

end Containers

mutual

/-- Every overload of `write` spells the bytes of its type. -/
theorem write : (t : JceType) → (v : Val t) → ∀ tag,
    Streams (fun _ writeBuf => JceOutputStream.write writeBuf t v tag) (t.write v tag)
  | .bool, _, _ => writeChar _ _
  | .char, _, _ => writeChar _ _
  | .uint8, _, _ => writeShort _ _
  | .short, _, _ => writeShort _ _
  | .uint16, _, _ => writeInt32 _ _
  | .int32, _, _ => writeInt32 _ _
  | .uint32, _, _ => writeInt64 _ _
  | .int64, _, _ => writeInt64 _ _
  | .float, _, _ => word _ _ _
  | .double, _, _ => word _ _ _
  | .enum, _, _ => writeInt32 _ _
  | .string, s, tag => writeString s tag
  | .charVector, v, tag => writeCharVector v tag
  | .vector t, _, _ => (head _ _).seq₂ (writeInt32 _ _) (writeElems fun a _ => write t a 0)
  | .map k v, _, _ => (head _ _).seq₂ (writeInt32 _ _)
      (writeEntries (fun e _ => write k e.1 0) fun e _ => write v e.2 1)
  | .struct fs, v, tag => by
    have h := (head .eStructBegin tag).seq ((writeTo fs v).seq (head .eStructEnd 0))
    simp only [bind_assoc, pure_bind, ← List.append_assoc] at h
    exact h

theorem writeTo : {lo : ℕ} → (fs : Fields lo) → (v : Vals fs) →
    Streams (fun _ writeBuf => JceOutputStream.writeTo writeBuf fs v) (fs.writeTo v)
  | _, .nil, _ => nil
  | _, .cons tag _ _ t rest, v => (write t v.1 tag).seq (writeTo rest v.2)

end

theorem writeFields (fs : List Field) :
    Streams (fun _ writeBuf => JceOutputStream.writeFields writeBuf fs)
      (Jce.writeElems Field.write fs) := writeElems fun f _ => write f.type f.value f.tag

end Streams
end UninstallObserver.Jce
