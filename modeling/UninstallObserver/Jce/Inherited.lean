import UninstallObserver.Lib.Compositional
import UninstallObserver.Jce.InputStream

/-! What holds of the reader's primitives holds of the functions that are made of them. -/
namespace UninstallObserver.Jce
open Imperative ByteOrder BufferReader

variable {w n : ℕ} {α : Type} {tag : BitVec 8} {P : (α : Type) → Decode w α → Prop}

/-- Code has the property as soon as its parts have it, and so has reading a head or a word. -/
structure Wordwise (P : (α : Type) → Decode w α → Prop) : Prop
    extends Exec.Compositional JceException.isDecodeException P where
  readFrom : P DataHead DataHead.readFrom
  readByType : ∀ k v, k ≤ 8 → P (BitVec v) (readByType k v)

/-- The primitives have the property, and code has it as soon as its parts have it. -/
structure Inherited (P : (α : Type) → Decode w α → Prop) : Prop
    extends Exec.Compositional JceException.isDecodeException P where
  peekBuf : ∀ len offset, P (List Byte) (peekBuf len offset)
  skip : ∀ len, P Unit (skip len)
  hasEnd : P Bool hasEnd
  size : P (BitVec w) size

section Numbers
variable {isRequire : Bool}

theorem readField_inherits (h : Wordwise P) {found : Decode w Bool} {missing : String} {old : α}
    {switch : HeadType → Decode w α} (hf : P _ found) (hs : ∀ t, P _ (switch t)) :
    P _ (readField found isRequire missing old switch) :=
  h.bind hf fun _ => h.ite (h.bind h.readFrom fun head => hs head.type)
    (h.ite (h.throw rfl) (h.pure old))

theorem int32Switch_inherits (h : Wordwise P) (t : HeadType) : P _ (int32Switch tag t) := by
  cases t with
  | eZeroTag => exact h.pure _
  | eChar => exact h.bind (h.readByType 1 8 (by decide)) fun _ => h.pure _
  | eShort => exact h.bind (h.readByType 2 16 (by decide)) fun _ => h.pure _
  | eInt32 => exact h.bind (h.readByType 4 32 (by decide)) fun _ => h.pure _
  | _ => exact h.throw rfl

theorem readChar_inherits (h : Wordwise P) (hf : P _ (skipToTag n tag)) (old : BitVec 8) :
    P _ (readChar n old tag isRequire) := by
  refine readField_inherits h hf fun t => ?_
  cases t with
  | eZeroTag => exact h.pure _
  | eChar => exact h.readByType 1 8 (by decide)
  | _ => exact h.throw rfl

theorem readInt64_inherits (h : Wordwise P) (hf : P _ (skipToTag n tag)) (old : BitVec 64) :
    P _ (readInt64 n old tag isRequire) := by
  refine readField_inherits h hf fun t => ?_
  cases t with
  | eZeroTag => exact h.pure _
  | eChar => exact h.bind (h.readByType 1 8 (by decide)) fun _ => h.pure _
  | eShort => exact h.bind (h.readByType 2 16 (by decide)) fun _ => h.pure _
  | eInt32 => exact h.bind (h.readByType 4 32 (by decide)) fun _ => h.pure _
  | eInt64 => exact h.bind (h.readByType 8 64 (by decide)) fun _ => h.pure _
  | _ => exact h.throw rfl

theorem readUInt32_inherits (h : Wordwise P) (hf : P _ (skipToTag n tag)) (old : BitVec 32) :
    P _ (readUInt32 n old tag isRequire) :=
  h.bind (readInt64_inherits h hf _) fun _ => h.pure _

theorem readSize_inherits (h : Wordwise P) (hsize : P _ size) (hf : P _ (skipToTag n 0))
    (invalid : BitVec 32 → String) : P _ (readSize n invalid) :=
  h.bind (readUInt32_inherits h hf 0) fun size =>
    h.bind hsize fun _ => h.ite (h.throw rfl) (h.pure size)

theorem readElems_inherits (h : Exec.Compositional JceException.isDecodeException P)
    {read : α → Decode w α} (hread : ∀ a, P _ (read a)) (v : List α) :
    P _ (readElems read v) := by
  induction v with
  | nil => exact h.pure _
  | cons a v ih => exact h.bind (hread a) fun b => h.bind ih fun bs => h.pure _

/-- Nothing lies before tag 0, so looking for it passes over nothing. -/
theorem skipToTagLoop_zero_inherits (h : Exec.Compositional JceException.isDecodeException P)
    (hend : P _ hasEnd) (hpeek : P _ DataHead.peekFrom) : P _ (skipToTagLoop (n+1) 0) := by
  rw [skipToTagLoop]
  refine h.bind hend fun _ => h.ite (h.pure _) (h.bind hpeek fun p => ?_)
  obtain ⟨head,len⟩ := p
  dsimp only
  rw [if_pos (.inl (by simp [BitVec.le_def]))]
  exact h.pure _

end Numbers

section Primitives

theorem readBuf_inherits (h : Inherited P) (len : BitVec w) : P _ (readBuf len) :=
  h.bind (h.peekBuf len 0) fun bs => h.bind (h.skip len) fun _ => h.pure bs

theorem peekFrom_inherits (h : Exec.Compositional JceException.isDecodeException P)
    (hpeek : ∀ len offset, P _ (peekBuf len offset)) : P _ DataHead.peekFrom := by
  have hbyte : ∀ offset, P _ (DataHead.peekByte offset) := fun offset =>
    h.bind (hpeek 1 offset) fun _ => h.pure _
  exact h.bind (hbyte 0) fun _ => h.ite (h.bind (hbyte 1) fun _ => h.pure _) (h.pure _)

theorem Inherited.wordwise (h : Inherited P) : Wordwise P where
  toCompositional := h.toCompositional
  readFrom := h.bind (peekFrom_inherits h.toCompositional h.peekBuf) fun (head,len) =>
    h.bind (h.skip len) fun _ => h.pure head
  readByType := fun _ _ _ => h.bind (readBuf_inherits h _) fun _ => h.pure _

end Primitives

section Skipping

/-- The mutually recursive functions have the property on `n` units of fuel. -/
structure InheritedAt (P : (α : Type) → Decode w α → Prop) (n : ℕ) : Prop where
  tagLoop : ∀ tag, P _ (skipToTagLoop n tag)
  toTag : ∀ tag, P _ (skipToTag n tag)
  structEnd : P _ (skipToStructEnd n)
  field : ∀ t, P _ (skipField n t)
  fields : ∀ k, P _ (skipFields n k)
  int32 : ∀ old tag req, P _ (readInt32 n old tag req)

theorem skipField_inherits_succ (h : Inherited P) (ih : InheritedAt P n) (t : HeadType) :
    P _ (skipField (n+1) t) := by
  have hword := h.wordwise
  rw [skipField.eq_def]
  cases t with
  | eString1 => exact h.bind (hword.readByType 1 8 (by decide)) fun _ => h.skip _
  | eString4 => exact h.bind (hword.readByType 4 32 (by decide)) fun _ => h.skip _
  | eMap => exact h.bind (ih.int32 0 0 true) fun _ => ih.fields _
  | eList => exact h.bind (ih.int32 0 0 true) fun _ => ih.fields _
  | eSimpleList =>
    refine h.bind hword.readFrom fun head => h.ite (h.throw rfl) ?_
    exact h.bind (ih.int32 0 0 true) fun _ => h.skip _
  | eStructBegin => exact ih.structEnd
  | eStructEnd => exact h.pure _
  | eZeroTag => exact h.pure _
  | unused14 => exact h.throw rfl
  | unused15 => exact h.throw rfl
  | _ => exact h.skip _

/-- One turn of each loop and one call of the recursion, by induction on the fuel. -/
theorem inheritedAt (h : Inherited P) (hr : Exec.Recursive JceException.isDecodeException P)
    (n : ℕ) : InheritedAt P n := by
  have hword := h.wordwise
  induction n with
  | zero => exact {
      tagLoop := fun _ => hr.outOfFuel
      toTag := fun _ => hr.outOfFuel
      structEnd := hr.outOfFuel
      field := fun _ => hr.outOfFuel
      fields := fun _ => hr.outOfFuel
      int32 := fun _ _ _ => hr.outOfFuel }
  | succ n ih => exact {
      tagLoop := fun tag => h.bind h.hasEnd fun _ => h.ite (h.pure _) <|
        h.bind (peekFrom_inherits h.toCompositional h.peekBuf) fun (head,len) =>
          h.ite (h.pure _) <| h.bind (h.skip len) fun _ =>
            h.bind (ih.field head.type) fun _ => ih.tagLoop tag
      toTag := fun tag => hr.catchIf (ih.tagLoop tag) (h.pure false)
      structEnd := h.bind hword.readFrom fun head =>
        h.bind (ih.field head.type) fun _ => h.ite (h.pure ()) ih.structEnd
      field := skipField_inherits_succ h ih
      fields := fun k => match k with
        | 0 => h.pure ()
        | k+1 => h.bind hword.readFrom fun head =>
            h.bind (ih.field head.type) fun _ => ih.fields k
      int32 := fun _ tag _ => readField_inherits hword (ih.toTag tag) (int32Switch_inherits hword) }

end Skipping

section Bytes
variable {isRequire : Bool}

theorem readString_inherits (h : Inherited P) (hf : P _ (skipToTag n tag)) (old : List Byte) :
    P _ (readString n old tag isRequire) := by
  have hword := h.wordwise
  refine readField_inherits hword hf fun t => ?_
  cases t with
  | eString1 =>
    exact h.bind (hword.readByType 1 8 (by decide)) fun _ => readBuf_inherits h _
  | eString4 =>
    exact h.bind (hword.readByType 4 32 (by decide)) fun _ =>
      h.ite (h.throw rfl) (readBuf_inherits h _)
  | _ => exact h.throw rfl

theorem readCharVector_inherits (h : Inherited P) (hf : ∀ tag, P _ (skipToTag n tag))
    (old : List Byte) : P _ (readCharVector n old tag isRequire) := by
  have hword := h.wordwise
  refine readField_inherits hword (hf tag) fun t => ?_
  cases t with
  | eSimpleList =>
    refine h.bind hword.readFrom fun head => h.ite (h.throw rfl) ?_
    exact h.bind (readSize_inherits hword h.size (hf 0) _) fun _ => readBuf_inherits h _
  | eList =>
    refine h.bind (readSize_inherits hword h.size (hf 0) _) fun size => ?_
    exact readElems_inherits h.toCompositional (fun c => readChar_inherits hword (hf 0) c) _
  | _ => exact h.throw rfl

end Bytes

end UninstallObserver.Jce
