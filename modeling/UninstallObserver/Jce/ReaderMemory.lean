import UninstallObserver.Jce.InputStream
import UninstallObserver.Jce.ReaderLaws

/-! Bytes that lie behind the buffer make no difference to reading from it. -/
namespace UninstallObserver.Jce
open Imperative ByteOrder BufferReader

variable {w : ℕ} {α : Type} {more : List Byte} {tag : BitVec 8}

namespace BufferReader

/-- The same reader, where there is more in memory behind its buffer. -/
def before (more : List Byte) (r : BufferReader w) : BufferReader w :=
  { r with buf := r.buf ++ more }

@[simp] theorem buf_before (r : BufferReader w) : (before more r).buf = r.buf ++ more := rfl
@[simp] theorem bufLen_before (r : BufferReader w) : (before more r).bufLen = r.bufLen := rfl
@[simp] theorem cur_before (r : BufferReader w) : (before more r).cur = r.cur := rfl

end BufferReader

section Primitives

theorem peekBuf_follows (len offset : BitVec w) :
    Exec.Follows (before more) (peekBuf len offset) := by
  intro r hr
  unfold peekBuf at hr ⊢
  simp only [buf_before, bufLen_before, cur_before]
  by_cases hover : r.bufLen < r.cur + offset + len
  · simp only [hover, if_true, Outcome.mapState]
  · simp only [hover, if_false] at hr ⊢
    by_cases hfits : len.toNat = 0 ∨ r.cur.toNat + offset.toNat + len.toNat ≤ r.buf.length
    · have hfits' : len.toNat = 0 ∨
          r.cur.toNat + offset.toNat + len.toNat ≤ (r.buf ++ more).length := by
        refine hfits.imp_right fun hle => hle.trans ?_
        simp
      have hcopy : ((r.buf ++ more).drop (r.cur.toNat + offset.toNat)).take len.toNat =
          (r.buf.drop (r.cur.toNat + offset.toNat)).take len.toNat := by
        rcases hfits with hzero | hle
        · simp [hzero]
        · rw [List.drop_append_of_le_length (by omega),List.take_append_of_le_length]
          rw [List.length_drop]
          omega
      simp only [hfits, hfits', if_true, hcopy, Outcome.mapState]
    · simp only [hfits, if_false] at hr
      exact absurd rfl hr

theorem skip_follows (len : BitVec w) : Exec.Follows (before more) (skip len) :=
  .modify fun _ => rfl

theorem follows_inherited : Inherited (w := w) fun _ m => Exec.Follows (before more) m where
  toCompositional := (Exec.follows_recursive (before more)).toCompositional
  peekBuf := peekBuf_follows
  skip := skip_follows
  hasEnd := fun _ _ => rfl
  size := fun _ _ => rfl

end Primitives

section Skipping

/-- So it is for the mutually recursive functions on `n` units of fuel. -/
structure FollowsAt (w : ℕ) (more : List Byte) (n : ℕ) : Prop where
  tagLoop : ∀ tag, Exec.Follows (before more) (skipToTagLoop (w := w) n tag)
  toTag : ∀ tag, Exec.Follows (before more) (skipToTag (w := w) n tag)
  structEnd : Exec.Follows (before more) (skipToStructEnd (w := w) n)
  field : ∀ t, Exec.Follows (before more) (skipField (w := w) n t)
  fields : ∀ k, Exec.Follows (before more) (skipFields (w := w) n k)
  int32 : ∀ old tag req, Exec.Follows (before more) (readInt32 (w := w) n old tag req)

theorem followsAt (n : ℕ) : FollowsAt w more n := by
  have h := inheritedAt (w := w) follows_inherited (Exec.follows_recursive (before more)) n
  exact ⟨h.tagLoop,h.toTag,h.structEnd,h.field,h.fields,h.int32⟩

end Skipping

section Reads
variable {n : ℕ}

theorem readString_follows (old : List Byte) (isRequire : Bool) :
    Exec.Follows (before more) (readString (w := w) n old tag isRequire) :=
  readString_inherits follows_inherited ((followsAt n).toTag tag) old

theorem readCharVector_follows (old : List Byte) (isRequire : Bool) :
    Exec.Follows (before more) (readCharVector (w := w) n old tag isRequire) :=
  readCharVector_inherits follows_inherited (followsAt n).toTag old

end Reads

end UninstallObserver.Jce
