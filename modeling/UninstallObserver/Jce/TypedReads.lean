import UninstallObserver.Jce.InputStream
import UninstallObserver.Jce.SkipCycles

/-! When the typed reads end and where they copy from: only the search for the tag can go
on for ever or leave the buffer. -/
namespace UninstallObserver.Jce
open Imperative ByteOrder BufferReader Relation

variable {w : ℕ} {α β : Type} {n : ℕ} {tag : BitVec 8}

section Keeps

theorem readString_keeps (old : List Byte) (isRequire : Bool) :
    Exec.Keeps SameBuffer (readString (w := w) n old tag isRequire) :=
  readString_inherits keeps_inherited ((keepsAt n).toTag tag) old

theorem readInt64_keeps (k : ℕ) (old : BitVec 64) (isRequire : Bool) :
    Exec.Keeps SameBuffer (readInt64 (w := w) k old tag isRequire) :=
  readInt64_inherits keeps_inherited.wordwise ((keepsAt k).toTag tag) old

end Keeps

section Stable
variable {isRequire : Bool}

theorem readField_stable {found : ℕ → Decode w Bool} {switch : ℕ → HeadType → Decode w α}
    (hf : Exec.Stable found) (hs : ∀ t, Exec.Stable fun n => switch n t) (isRequire : Bool)
    (missing : String) (old : α) :
    Exec.Stable fun n => readField (found n) isRequire missing old (switch n) :=
  hf.bind fun _ => .ite ((Exec.Stable.const _).bind fun h => hs h.type) (.const _)

/-- Only the search needs fuel. -/
theorem searched_stable {missing : String} {old : α} {switch : HeadType → Decode w α} :
    Exec.Stable fun n => readField (skipToTag n tag) isRequire missing old switch :=
  fun n => readField_approx (skipToTag_stable tag n) _ _ _ _

theorem readString_stable (old : List Byte) (isRequire : Bool) :
    Exec.Stable fun n => readString (w := w) n old tag isRequire := searched_stable

theorem readUInt32_stable (old : BitVec 32) (isRequire : Bool) :
    Exec.Stable fun n => readUInt32 (w := w) n old tag isRequire :=
  searched_stable.bind fun _ => .const _

theorem readSize_stable (invalid : BitVec 32 → String) :
    Exec.Stable fun n => readSize (w := w) n invalid :=
  (readUInt32_stable 0 true).bind fun _ => .const _

theorem readElems_stable {read : ℕ → α → Decode w α} (h : ∀ a, Exec.Stable fun n => read n a)
    (v : List α) : Exec.Stable fun n => readElems (read n) v := by
  induction v with
  | nil => exact .const _
  | cons a v ih => exact (h a).bind fun b => ih.bind fun bs => .const _

theorem charVectorSwitch_stable (old : List Byte) (t : HeadType) :
    Exec.Stable fun n => charVectorSwitch (w := w) n old tag t := by
  cases t with
  | eSimpleList =>
    exact (Exec.Stable.const _).bind fun h => .ite (.const _)
      ((readSize_stable _).bind fun size => .const _)
  | eList =>
    refine (readSize_stable _).bind fun size => readElems_stable (fun c => ?_) _
    exact searched_stable
  | _ => exact .const _

theorem readCharVector_stable (old : List Byte) (isRequire : Bool) :
    Exec.Stable fun n => readCharVector (w := w) n old tag isRequire :=
  readField_stable (skipToTag_stable tag) (charVectorSwitch_stable old) _ _ _

theorem readEntries_stable {κ ν : Type} {less : κ → κ → Bool} {readKey : ℕ → Decode w κ}
    {readValue : ℕ → Decode w ν} (hk : Exec.Stable readKey) (hv : Exec.Stable readValue) (k : ℕ)
    (m : List (κ × ν)) : Exec.Stable fun n => readEntries less (readKey n) (readValue n) k m := by
  induction k generalizing m with
  | zero => exact .const _
  | succ k ih => exact hk.bind fun a => hv.bind fun b => ih _

theorem readVector_stable {read : ℕ → α → Decode w α} (h : ∀ a, Exec.Stable fun n => read n a)
    (init : α) (old : List α) :
    Exec.Stable fun n => readVector n (read n) init old tag isRequire := by
  refine readField_stable (skipToTag_stable tag) (fun t => ?_) _ _ _
  cases t with
  | eList => exact (readSize_stable _).bind fun size => readElems_stable h _
  | _ => exact .const _

theorem readMap_stable {κ ν : Type} {less : κ → κ → Bool} {readKey : ℕ → Decode w κ}
    {readValue : ℕ → Decode w ν} (hk : Exec.Stable readKey) (hv : Exec.Stable readValue)
    (old : List (κ × ν)) :
    Exec.Stable fun n => readMap n less (readKey n) (readValue n) old tag isRequire := by
  refine readField_stable (skipToTag_stable tag) (fun t => ?_) _ _ _
  cases t with
  | eMap => exact (readSize_stable _).bind fun size => readEntries_stable hk hv _ _
  | _ => exact .const _

theorem readStruct_stable {readFrom : ℕ → α → Decode w α}
    (h : ∀ a, Exec.Stable fun n => readFrom n a) (old : α) :
    Exec.Stable fun n => readStruct n (readFrom n) old tag isRequire := by
  refine readField_stable (skipToTag_stable tag) (fun t => ?_) _ _ _
  cases t with
  | eStructBegin => exact (h old).bind fun v => skipToStructEnd_stable.bind fun _ => .const _
  | _ => exact .const _

theorem readChar_stable (old : BitVec 8) :
    Exec.Stable fun n => readChar (w := w) n old tag isRequire := searched_stable

theorem readShort_stable (old : BitVec 16) :
    Exec.Stable fun n => readShort (w := w) n old tag isRequire := searched_stable

theorem readInt64_stable (old : BitVec 64) :
    Exec.Stable fun n => readInt64 (w := w) n old tag isRequire := searched_stable

theorem readFloat_stable (old : BitVec 32) :
    Exec.Stable fun n => readFloat (w := w) n old tag isRequire := searched_stable

theorem readDouble_stable (F : FloatConversion) (old : BitVec 64) :
    Exec.Stable fun n => readDouble (w := w) F n old tag isRequire := searched_stable

end Stable

/-- Code that comes to an end and stays inside the buffer. -/
structure Contained (m : Decode w α) : Prop where
  fuelless : Exec.Fuelless m
  inside : ∀ a, Exec.Triple (Inside a) m fun _ => Inside a

namespace Contained
variable {m m' : Decode w α} {f : α → Decode w β}

theorem pure (a : α) : Contained (pure a : Decode w α) := ⟨.pure a,fun _ => .pure fun _ h => h⟩

theorem throw (e : JceException) : Contained (Exec.throw e : Decode w α) :=
  ⟨.throw e,fun _ => .throw e⟩

theorem bind (hm : Contained m) (hf : ∀ a, Contained (f a)) : Contained (m >>= f) :=
  ⟨hm.fuelless.bind fun a => (hf a).fuelless,fun b => (hm.inside b).bind fun a => (hf a).inside b⟩

theorem ite {c : Prop} [Decidable c] (hm : Contained m) (hm' : Contained m') :
    Contained (if c then m else m') := by
  split
  · exact hm
  · exact hm'

end Contained

section Contained

theorem readFrom_contained (hw : 32 ≤ w) : Contained (DataHead.readFrom (w := w)) :=
  ⟨readFrom_fuelless,fun _ => readFrom_inside hw⟩

theorem readByType_contained (hw : 32 ≤ w) {k : ℕ} (hk : k ≤ 8) (v : ℕ) :
    Contained (readByType (w := w) k v) :=
  ⟨readByType_fuelless k v,fun _ => readByType_inside hw hk v⟩

theorem readBuf_contained {len : BitVec w} (hw : 32 ≤ w) (h : len.toNat ≤ 2^(w-1)) :
    Contained (readBuf len) := ⟨readBuf_fuelless len,fun _ => readBuf_inside (by omega) h⟩

theorem skipToTag_zero_contained (hw : 32 ≤ w) : Contained (skipToTag (w := w) (n+2) 0) :=
  ⟨skipToTag_zero_fuelless,fun _ => skipToTag_zero_inside hw⟩

theorem contained_compositional :
    Exec.Compositional JceException.isDecodeException fun _ (m : Decode w _) => Contained m where
  pure := .pure
  throw := fun _ => .throw _
  bind := .bind
  ite := .ite

theorem contained_wordwise (hw : 32 ≤ w) : Wordwise (w := w) fun _ m => Contained m where
  toCompositional := contained_compositional
  readFrom := readFrom_contained hw
  readByType := fun _ v hk => readByType_contained hw hk v

theorem readField_contained {found : Decode w Bool} {isRequire : Bool} {missing : String} {old : α}
    {switch : HeadType → Decode w α} (hw : 32 ≤ w) (hf : Contained found)
    (hs : ∀ t, Contained (switch t)) :
    Contained (readField found isRequire missing old switch) :=
  readField_inherits (contained_wordwise hw) hf hs

theorem stringSwitch_contained (hw : 32 ≤ w) (t : HeadType) :
    Contained (stringSwitch (w := w) tag t) := by
  have hh := half_large hw
  cases t with
  | eString1 =>
    refine (readByType_contained hw (by omega) 8).bind fun len => readBuf_contained hw ?_
    rw [BitVec.toNat_setWidth]
    exact (Nat.mod_le _ _).trans (by omega)
  | eString4 =>
    refine (readByType_contained hw (by omega) 32).bind fun n => ?_
    dsimp only
    split
    · exact .throw _
    · next hmax =>
      apply readBuf_contained hw
      unfold jceMaxStringLength at hmax
      rw [BitVec.toNat_setWidth]
      exact (Nat.mod_le _ _).trans (by omega)
  | _ => exact .throw _

theorem readUInt32_zero_contained (hw : 32 ≤ w) (old : BitVec 32) (isRequire : Bool) :
    Contained (readUInt32 (w := w) (n+3) old 0 isRequire) :=
  readUInt32_inherits (contained_wordwise hw) (skipToTag_zero_contained hw) old

theorem readChar_zero_contained (hw : 32 ≤ w) (old : BitVec 8) (isRequire : Bool) :
    Contained (readChar (w := w) (n+3) old 0 isRequire) :=
  readChar_inherits (contained_wordwise hw) (skipToTag_zero_contained hw) old

theorem readSize_contained (hw : 32 ≤ w) (invalid : BitVec 32 → String) :
    Contained (readSize (w := w) (n+3) invalid) := by
  have hsize : Contained (size (w := w)) :=
    ⟨fun r h => (by cases h),fun a r hr => ⟨fun h => (by cases h),fun b s h => by cases h; exact hr⟩⟩
  exact readSize_inherits (contained_wordwise hw) hsize (skipToTag_zero_contained hw) invalid

/-- A size that was accepted is no larger than the buffer. -/
theorem readSize_le {invalid : BitVec 32 → String} {r s : BufferReader w} {x : BitVec 32}
    (hw : 32 ≤ w) (hr : Inside 0 r) (h : readSize (n+3) invalid r = .returned x s) :
    (x.setWidth w).toNat ≤ 2^(w-1) := by
  obtain ⟨y,t,hy,hrest⟩ := Exec.bind_eq_returned.mp h
  have ht := ((readUInt32_zero_contained hw 0 true).inside 0 r hr).2 y t hy
  obtain ⟨len,u,hlen,hif⟩ := Exec.bind_eq_returned.mp hrest
  cases hlen
  rw [Exec.ite_apply] at hif
  split at hif
  · cases hif
  · next hle =>
    cases hif
    have hsmall := ht.small
    rw [BitVec.lt_def,ht.len] at hle
    omega

theorem readSize_bind_contained {invalid : BitVec 32 → String} {f : BitVec 32 → Decode w β}
    (hw : 32 ≤ w) (hfuel : ∀ x, Exec.Fuelless (f x))
    (hf : ∀ x, (x.setWidth w).toNat ≤ 2^(w-1) → Contained (f x)) :
    Contained (readSize (n+3) invalid >>= f) := by
  have hsize := readSize_contained (n := n) hw invalid
  refine ⟨hsize.fuelless.bind hfuel,fun a r hr => ?_⟩
  have hread := hsize.inside a r hr
  have hnext : ∀ x s, readSize (n+3) invalid r = .returned x s →
      f x s ≠ .undefined ∧ ∀ b u, f x s = .returned b u → Inside a u := by
    intro x s hx
    have hle := readSize_le hw (hr.mono (Nat.zero_le a)) hx
    exact (hf x hle).inside a s (hread.2 x s hx)
  constructor
  · intro hu
    rcases Exec.bind_eq_undefined.mp hu with hu | ⟨x,s,hx,hu⟩
    · exact hread.1 hu
    · exact (hnext x s hx).1 hu
  · intro b u hb
    obtain ⟨x,s,hx,hb⟩ := Exec.bind_eq_returned.mp hb
    exact (hnext x s hx).2 b u hb

theorem readSimpleListBody_contained (hw : 32 ≤ w) :
    Contained (readSimpleListBody (w := w) (n+3) tag) :=
  (readFrom_contained hw).bind fun _ => .ite (.throw _)
    (readSize_bind_contained hw (fun _ => readBuf_fuelless _) fun _ hx => readBuf_contained hw hx)

theorem charVectorSwitch_contained (hw : 32 ≤ w) (old : List Byte) (t : HeadType) :
    Contained (charVectorSwitch (w := w) (n+3) old tag t) := by
  cases t with
  | eSimpleList => exact readSimpleListBody_contained hw
  | eList =>
    exact (readSize_contained hw _).bind fun size =>
      readElems_inherits contained_compositional (fun c => readChar_zero_contained hw c true) _
  | _ => exact .throw _

end Contained

section Search
variable {r s : BufferReader w}

/-- How a turn of the search returns: it stops where it is, and has found the field if it says
so, or it passes over a field and goes on. -/
theorem skipToTagLoop_cases {found : Bool} (h : skipToTagLoop (n+1) tag r = .returned found s) :
    (s = r ∧ (found → ∃ head len, DataHead.peekFrom r = .returned (head,len) r ∧ head.tag = tag ∧
      head.type ≠ .eStructEnd)) ∨
    ∃ head t u, DataHead.readFrom r = .returned head t ∧ head.type ≠ .eStructEnd ∧
      skipField n head.type t = .returned () u ∧ skipToTagLoop n tag u = .returned found s := by
  rw [skipToTagLoop] at h
  obtain ⟨atEnd,t,he,h⟩ := Exec.bind_eq_returned.mp h
  cases he
  rw [Exec.ite_apply] at h
  split at h
  · cases h
    exact .inl ⟨rfl,fun hfound => by cases hfound⟩
  obtain ⟨⟨head,len⟩,t,hp,h⟩ := Exec.bind_eq_returned.mp h
  obtain rfl := (peekFrom_still r).1 _ t hp
  dsimp only at h
  rw [Exec.ite_apply] at h
  split at h
  · injection h with hb hs
    refine .inl ⟨hs.symm,fun hfound => ?_⟩
    rw [hfound] at hb
    by_cases htype : head.type = .eStructEnd
    · rw [if_pos htype] at hb
      cases hb
    · rw [if_neg htype] at hb
      exact ⟨head,len,hp,(beq_iff_eq.mp hb).symm,htype⟩
  · next hpass =>
    rw [not_or] at hpass
    obtain ⟨⟨⟩,t,ht,h⟩ := Exec.bind_eq_returned.mp h
    obtain ⟨⟨⟩,u,hu,h⟩ := Exec.bind_eq_returned.mp h
    have hread : DataHead.readFrom r = .returned head t :=
      (Exec.bind_of_returned hp).trans (Exec.bind_of_returned ht)
    exact .inr ⟨head,t,u,hread,hpass.2,hu,h⟩

/-- A search that succeeds stops at the head of the field. -/
theorem skipToTagLoop_found (h : skipToTagLoop n tag r = .returned true s) :
    ∃ head len, DataHead.peekFrom s = .returned (head,len) s ∧ head.tag = tag ∧
      head.type ≠ .eStructEnd := by
  induction n generalizing r with
  | zero => cases h
  | succ n ih =>
    rcases skipToTagLoop_cases h with ⟨rfl,hhead⟩ | ⟨_,_,_,-,-,-,h⟩
    · exact hhead rfl
    · exact ih h

theorem skipToTag_eq_returned_true (h : skipToTag (n+1) tag r = .returned true s) :
    skipToTagLoop n tag r = .returned true s := by
  rw [skipToTag,Exec.catchIf] at h
  cases hl : skipToTagLoop n tag r with
  | threw e t =>
    rw [hl] at h
    dsimp only at h
    split at h <;> cases h
  | _ =>
    rw [hl] at h
    exact h

theorem skipToTag_found_inside (hw : 32 ≤ w) (hr : Sound r)
    (h : Exec.Ends (fun n => skipToTag n tag) r (.returned true s)) : Inside 0 s := by
  obtain ⟨n,hn⟩ := h.succ rfl
  obtain ⟨head,len,hp,-,-⟩ := skipToTagLoop_found (skipToTag_eq_returned_true hn)
  have hs := hr.of_same (((keepsAt (n+1)).toTag tag r).1 _ _ hn)
  obtain ⟨-,-,hlen⟩ := peekFrom_returned hw hp
  exact ⟨hs,Nat.zero_le _,by omega⟩

/-- No handler sees how the search for a tag stops. -/
theorem skipToTag_stops (k : Exec.Stop) :
    skipToTag (n+1) tag r = k.outcome ↔ (Call.tagLoop tag).run n r = k.outcome := by
  have hp : ∀ s, (pure false : Decode w Bool) s ≠ k.outcome := by simp
  have hrun : (Call.tagLoop tag).run n r = k.outcome ↔ skipToTagLoop n tag r = k.outcome := by
    rw [Call.run,Exec.bind_eq_stop]
    simp
  rw [hrun]
  exact Exec.catchIf_eq_stop hp

theorem halts_skipToTag_iff :
    Exec.Halts (fun n => skipToTag n tag) r ↔ ∃ n, Done n (.tagLoop tag,r) := by
  constructor
  · intro h
    obtain ⟨n,hn⟩ := h
    cases n with
    | zero => exact absurd rfl hn
    | succ n => exact ⟨n,fun h => hn ((skipToTag_stops .outOfFuel).mpr h)⟩
  · intro h
    obtain ⟨n,hn⟩ := h
    exact ⟨n+1,fun h => hn ((skipToTag_stops .outOfFuel).mp h)⟩

theorem skipToTag_undefined_iff : Exec.Ends (fun n => skipToTag n tag) r .undefined ↔
    ∃ n, (Call.tagLoop tag).run n r = .undefined := by
  constructor
  · intro h
    obtain ⟨-,n,hn⟩ := h
    cases n with
    | zero => cases hn
    | succ n => exact ⟨n,(skipToTag_stops .undefined).mp hn⟩
  · intro h
    obtain ⟨n,hn⟩ := h
    exact ⟨by simp,n+1,(skipToTag_stops .undefined).mpr hn⟩

variable {g : ℕ → HeadType → Decode w α} {isRequire : Bool} {missing : String} {old : α}

/-- The stages of a typed read after its search. -/
theorem foundStage_stable (hs : ∀ t, Exec.Stable fun n => g n t) (found : Bool) :
    Exec.Stable fun n => if found then DataHead.readFrom >>= fun h => g n h.type
      else if isRequire then Exec.throw (.jceDecodeRequireNotExist missing)
      else pure old :=
  .ite ((Exec.Stable.const _).bind fun h => hs h.type) (.const _)

/-- A typed read ends exactly when the search for its tag does. -/
theorem halts_readField_iff (hw : 32 ≤ w) (hs : ∀ t, Exec.Stable fun n => g n t)
    (hc : ∀ t, Contained (g 3 t)) :
    Exec.Halts (fun n => readField (skipToTag n tag) isRequire missing old (g n)) r ↔
      ∃ n, Done n (.tagLoop tag,r) := by
  refine (Exec.halts_bind_iff (skipToTag_stable tag) fun found => foundStage_stable hs found).trans ?_
  rw [halts_skipToTag_iff,and_iff_left_iff_imp]
  refine fun _ found s _ => ⟨3,?_⟩
  exact (Contained.ite ((readFrom_contained hw).bind fun h => hc h.type)
    (.ite (.throw _) (.pure old))).fuelless s

/-- It goes wrong exactly when the search does. -/
theorem readField_undefined_iff (hw : 32 ≤ w) (hr : Sound r)
    (hs : ∀ t, Exec.Stable fun n => g n t) (hc : ∀ n t, Contained (g (n+3) t)) :
    Exec.Ends (fun n => readField (skipToTag n tag) isRequire missing old (g n)) r .undefined ↔
      ∃ n, (Call.tagLoop tag).run n r = .undefined := by
  refine (Exec.ends_bind_undefined_iff (skipToTag_stable tag)
    fun found => foundStage_stable hs found).trans ?_
  rw [skipToTag_undefined_iff,or_iff_left_iff_imp]
  intro h
  obtain ⟨found,s,hfound,hu⟩ := h
  obtain ⟨n,hn⟩ := hu.forall_ge (foundStage_stable hs found)
  have hn3 := hn (n+3) (Nat.le_add_right n 3)
  cases found with
  | true =>
    have hi := skipToTag_found_inside hw hr hfound
    exact absurd hn3 (((readFrom_contained hw).bind fun h => hc n h.type).inside 0 s hi).1
  | false => cases isRequire <;> cases hn3

end Search

end UninstallObserver.Jce
