import UninstallObserver.Jce.Accepts

/-! What a search throws, namely nothing, and when the read after it returns. -/
namespace UninstallObserver.Jce
open Imperative ByteOrder BufferReader

variable {w n : ℕ} {α : Type} {tag : BitVec 8}

/-- Only decode exceptions come from `m`. -/
abbrev RaisesDecode (m : Decode w α) : Prop := Exec.Raises JceException.isDecodeException m

section Primitives

theorem peekBuf_raises (len offset : BitVec w) : RaisesDecode (peekBuf len offset) := by
  intro r e s h
  unfold peekBuf at h
  split at h
  · cases h
    rfl
  · dsimp only at h
    split at h <;> cases h

theorem raises_inherited : Inherited (w := w) fun _ m => RaisesDecode m where
  toCompositional := Exec.raises_recursive.toCompositional
  peekBuf := peekBuf_raises
  skip := fun _ => .modify _
  hasEnd := fun r e s h => by cases h
  size := fun r e s h => by cases h

end Primitives

/-- On `n` units of fuel the functions that pass over fields throw decode exceptions only,
and the search for a tag throws nothing. -/
structure RaisesAt (w n : ℕ) : Prop where
  tagLoop : ∀ tag, RaisesDecode (skipToTagLoop (w := w) n tag)
  toTag : ∀ tag (r : BufferReader w) e s, skipToTag n tag r ≠ .threw e s
  structEnd : RaisesDecode (skipToStructEnd (w := w) n)
  field : ∀ t, RaisesDecode (skipField (w := w) n t)
  fields : ∀ k, RaisesDecode (skipFields (w := w) n k)
  int32 : ∀ old tag req, RaisesDecode (readInt32 (w := w) n old tag req)

theorem raisesAt (n : ℕ) : RaisesAt w n := by
  have h := inheritedAt (w := w) raises_inherited Exec.raises_recursive
  refine ⟨(h n).tagLoop,fun tag r e s => ?_,(h n).structEnd,(h n).field,(h n).fields,(h n).int32⟩
  cases n with
  | zero => simp [skipToTag]
  | succ n => exact ((h n).tagLoop tag).catchIf_ne_threw fun _ _ _ h => by cases h

section Search
variable {r s : BufferReader w} {total : ℕ}

/-- A search from `r` that comes to an end inside the buffer. -/
structure Searches (tag : BitVec 8) (r : BufferReader w) : Prop where
  ends : ∃ n, Done n (.tagLoop tag,r)
  inside : ∀ n, (Call.tagLoop tag).run n r ≠ .undefined

/-- The search for `tag` from `r` stops at a field under that tag. -/
abbrev Finds (tag : BitVec 8) (r s : BufferReader w) : Prop :=
  Exec.Ends (fun n => skipToTag n tag) r (.returned true s)

theorem searches_iff : Searches tag r ↔
    ∃ found s, Exec.Ends (fun n => skipToTag n tag) r (.returned found s) := by
  constructor
  · intro h
    obtain ⟨hdone,hin⟩ := h
    obtain ⟨o,ho⟩ := (halts_skipToTag_iff.mpr hdone).ends
    cases o with
    | returned found s => exact ⟨found,s,ho⟩
    | threw e s =>
      obtain ⟨-,n,hn⟩ := ho
      exact absurd hn ((raisesAt n).toTag tag r e s)
    | undefined =>
      obtain ⟨n,hn⟩ := skipToTag_undefined_iff.mp ho
      exact absurd hn (hin n)
    | outOfFuel => exact absurd rfl ho.1
  · intro h
    obtain ⟨found,s,h⟩ := h
    refine ⟨halts_skipToTag_iff.mp h.halts,fun n hn => ?_⟩
    cases h.unique (skipToTag_undefined_iff.mpr ⟨n,hn⟩) (skipToTag_stable tag)

theorem Finds.inside (hw : 32 ≤ w) (hr : Sound r) (h : Finds tag r s) :
    Inside 0 s ∧ s.buf.length = r.buf.length := by
  have hin := skipToTag_found_inside hw hr h
  obtain ⟨-,n,hn⟩ := h
  exact ⟨hin,congrArg List.length (((keepsAt n).toTag tag r).1 _ _ hn).1⟩

/-- Code that parses, whatever the fuel from three on, returns exactly where its parser does. -/
theorem parses_returns_iff {f : ℕ → Decode w α} {p : Parser α} (hf : Exec.Stable f)
    (hp : ∀ n, Parses total (f (n+3)) p) (hs : Inside 0 s) (htotal : s.buf.length = total) :
    Exec.Returns f s ↔ p (rest s) ≠ none := by
  constructor
  · intro h hnone
    obtain ⟨a,u,h⟩ := h
    obtain ⟨e,v,he⟩ := (hp 0 s hs htotal).2 hnone
    cases h.unique ⟨by simp,3,he⟩ hf
  · intro hsome
    obtain ⟨⟨a,bs⟩,hp'⟩ := Option.ne_none_iff_exists'.mp hsome
    obtain ⟨u,hu,-⟩ := (hp 0 s hs htotal).1 a bs hp'
    exact ⟨a,u,by simp,3,hu⟩

variable {g : ℕ → HeadType → Decode w α} {body : HeadType → Parser α} {missing : String} {old : α}

/-- An optional field is read exactly when the search for it ends inside the buffer and
what it finds can be parsed. -/
theorem readField_returns_iff (hw : 32 ≤ w) (hr : Sound r) (hs : ∀ t, Exec.Stable fun n => g n t)
    (hg : ∀ n t, Parses r.buf.length (g (n+3) t) (body t)) :
    Exec.Returns (fun n => readField (skipToTag n tag) false missing old (g n)) r ↔
      Searches tag r ∧ ∀ s, Finds tag r s → Parser.field body (rest s) ≠ none := by
  have hstages : ∀ found : Bool, Exec.Stable fun n => if found then
      DataHead.readFrom >>= fun h => g n h.type
      else if (false : Bool) then Exec.throw (.jceDecodeRequireNotExist missing) else pure old :=
    foundStage_stable hs
  have hsearch : Exec.Returns (fun n => readField (skipToTag n tag) false missing old (g n)) r →
      Searches tag r := by
    intro h
    obtain ⟨a,s,-,n,hn⟩ := h
    obtain ⟨found,u,hfound,-⟩ := Exec.bind_eq_returned.mp hn
    exact searches_iff.mpr ⟨found,u,by simp,n,hfound⟩
  have hfield : ∀ s, Finds tag r s →
      (Exec.Returns (fun n => readField (skipToTag n tag) false missing old (g n)) r ↔
        Parser.field body (rest s) ≠ none) := by
    intro s h
    obtain ⟨hin,hlen⟩ := h.inside hw hr
    rw [← parses_returns_iff (hstages true) (fun n => parses_field hw (hg n)) hin hlen]
    exact exists₂_congr fun a u => Exec.ends_bind_of_returned (skipToTag_stable tag) hstages h
  constructor
  · intro h
    exact ⟨hsearch h,fun s hs => (hfield s hs).mp h⟩
  · intro h
    obtain ⟨hsearch,hparse⟩ := h
    obtain ⟨found,s,h⟩ := searches_iff.mp hsearch
    cases found with
    | true => exact (hfield s h).mpr (hparse s h)
    | false =>
      refine ⟨old,s,(Exec.ends_bind_of_returned (skipToTag_stable tag) hstages h).mpr ?_⟩
      exact ⟨by simp,0,rfl⟩

end Search

end UninstallObserver.Jce
