import UninstallObserver.Jce.Rows

/-! A strictly guarded read goes through a row of fields. -/
namespace UninstallObserver.Jce
open Imperative ByteOrder BufferReader Relation

variable {w : ℕ} {α β : Type} {n fuel : ℕ} {tag : BitVec 8} {r s u : BufferReader w}

section Sizes

theorem setWidth_signExtend_64 {v : ℕ} (x : BitVec v) :
    (x.signExtend 64).setWidth 32 = x.signExtend 32 := by
  ext i hi
  have h : i < 64 := by omega
  simp [BitVec.getElem_signExtend, h]

/-- What an `Int32` switch reads, the switch of `read(Int64&)` reads as the same number. -/
theorem readUInt32_of_readInt32 {x : BitVec 32} (h : readInt32 (n+1) 0 0 true r = .returned x s) :
    readUInt32 n 0 0 true r = .returned x s := by
  rw [readInt32] at h
  obtain ⟨found,u,hfound,h⟩ := Exec.bind_eq_returned.mp h
  cases found with
  | false => cases h
  | true =>
    rw [if_pos rfl] at h
    obtain ⟨head,t,ht,h⟩ := Exec.bind_eq_returned.mp h
    have hwide : ∀ {y : BitVec 64}, y.setWidth 32 = x → readInt64 n 0 0 true r = .returned y s →
        readUInt32 n 0 0 true r = .returned x s := by
      intro y hy hread
      refine (Exec.bind_of_returned hread).trans ?_
      rw [hy]
      rfl
    have hread : readInt64 n 0 0 true r = _ :=
      (Exec.bind_of_returned hfound).trans (Exec.bind_of_returned ht)
    generalize head.type = type at h hread
    cases type with
    | eZeroTag =>
      cases h
      exact hwide rfl hread
    | eChar =>
      obtain ⟨b,v,hb,h⟩ := Exec.bind_eq_returned.mp h
      cases h
      exact hwide (setWidth_signExtend_64 b) (hread.trans (Exec.bind_of_returned hb))
    | eShort =>
      obtain ⟨b,v,hb,h⟩ := Exec.bind_eq_returned.mp h
      cases h
      exact hwide (setWidth_signExtend_64 _) (hread.trans (Exec.bind_of_returned hb))
    | eInt32 =>
      obtain ⟨b,v,hb,h⟩ := Exec.bind_eq_returned.mp h
      cases h
      refine hwide ?_ (hread.trans (Exec.bind_of_returned hb))
      rw [setWidth_signExtend_64,BitVec.signExtend_eq]
    | _ => cases h

/-- Once there is fuel for a wide size there is enough for a narrow one. -/
theorem readInt32_of_sized {x y : BitVec 32} (h : readUInt32 n 0 0 true r = .returned x s)
    (hn : Exec.Ends (fun n => readInt32 n 0 0 true) r (.returned y u)) :
    readInt32 (n+1) 0 0 true r = .returned x s := by
  have hfuel : readInt32 (n+1) 0 0 true r ≠ .outOfFuel := by
    cases n with
    | zero => cases h
    | succ n =>
      cases n with
      | zero => cases h
      | succ n => exact readInt32_zero_fuelless 0 true r
  have hy := Exec.Ends.unique ⟨hfuel,n+1,rfl⟩ hn (readInt32_stable 0 0 true)
  cases (readUInt32_of_readInt32 hy).symm.trans h
  exact hy

end Sizes

section Switches

/-- What `m` reads from, once the head of a field of type `t` has been read, `skipField`
passes over. -/
def SkipsAs (t : HeadType) (m : Decode w α) : Prop :=
  ∀ r a s, m r = .returned a s → Exec.Ends (fun n => skipField n t) r (.returned () s)

variable {t : HeadType}

theorem SkipsAs.throw (e : JceException) : SkipsAs t (Exec.throw e : Decode w α) := by
  intro r a s h
  cases h

theorem SkipsAs.zero (a : α) : SkipsAs .eZeroTag (pure a : Decode w α) := by
  intro r b s h
  cases h
  exact ⟨by simp,1,rfl⟩

theorem readBuf_returned {len : BitVec w} {bs : List Byte} (h : readBuf len r = .returned bs s) :
    skip len r = .returned () s := by
  obtain ⟨cs,t,ht,h⟩ := Exec.bind_eq_returned.mp h
  obtain rfl := (peekBuf_still len 0 r).1 cs t ht
  obtain ⟨⟨⟩,t,ht,h⟩ := Exec.bind_eq_returned.mp h
  cases h
  exact ht

theorem readByType_returned {k v : ℕ} {x : BitVec v} (h : readByType k v r = .returned x s) :
    skip (BitVec.ofNat w k) r = .returned () s := by
  obtain ⟨bs,t,ht,h⟩ := Exec.bind_eq_returned.mp h
  cases h
  exact readBuf_returned ht

theorem SkipsAs.byType {k v : ℕ} (ht : skipField (w := w) 1 t = skip (BitVec.ofNat w k)) :
    SkipsAs t (readByType k v : Decode w (BitVec v)) :=
  fun r _ _ h => ⟨by simp,1,(congrFun ht r).trans (readByType_returned h)⟩

theorem SkipsAs.word {k v : ℕ} (ht : skipField (w := w) 1 t = skip (BitVec.ofNat w k))
    (f : BitVec v → α) : SkipsAs t (readByType k v >>= fun n => pure (f n) : Decode w α) := by
  intro r a s h
  obtain ⟨x,u,hx,h⟩ := Exec.bind_eq_returned.mp h
  cases h
  exact SkipsAs.byType ht r x s hx

theorem int32Switch_skipsAs (t : HeadType) : SkipsAs t (int32Switch (w := w) tag t) := by
  cases t with
  | eZeroTag => exact .zero 0
  | eChar => exact .word rfl _
  | eShort => exact .word rfl _
  | eInt32 => exact .word rfl _
  | _ => exact .throw _

theorem stringSwitch_skipsAs (t : HeadType) : SkipsAs t (stringSwitch (w := w) tag t) := by
  cases t with
  | eString1 =>
    intro r a s h
    obtain ⟨len,u,hlen,h⟩ := Exec.bind_eq_returned.mp h
    exact ⟨by simp,1,(Exec.bind_of_returned hlen).trans (readBuf_returned h)⟩
  | eString4 =>
    intro r a s h
    obtain ⟨len,u,hlen,h⟩ := Exec.bind_eq_returned.mp h
    rw [Exec.ite_apply] at h
    split at h
    · cases h
    · exact ⟨by simp,1,(Exec.bind_of_returned hlen).trans (readBuf_returned h)⟩
  | _ => exact .throw _

end Switches

section Fields

variable {outer isRequire : Bool} {missing : String} {old a : α} {m : Decode w α}
  {switch : HeadType → Decode w α}

/-- The two ways a typed read returns. -/
theorem readField_eq_returned {found : Decode w Bool} :
    readField found isRequire missing old switch r = .returned a s ↔
      (∃ u h t, found r = .returned true u ∧ DataHead.readFrom u = .returned h t ∧
        switch h.type t = .returned a s) ∨
      found r = .returned false s ∧ isRequire = false ∧ a = old := by
  constructor
  · intro h
    obtain ⟨b,u,hb,h⟩ := Exec.bind_eq_returned.mp h
    cases b with
    | true =>
      obtain ⟨head,t,ht,h⟩ := Exec.bind_eq_returned.mp h
      exact .inl ⟨u,head,t,hb,ht,h⟩
    | false =>
      cases isRequire <;> cases h
      exact .inr ⟨hb,rfl,rfl⟩
  · intro h
    rcases h with ⟨u,head,t,hb,ht,h⟩ | ⟨hb,rfl,rfl⟩
    · exact (Exec.bind_of_returned hb).trans ((Exec.bind_of_returned ht).trans h)
    · exact Exec.bind_of_returned hb

/-- A search that succeeded stopped at a field, whose head is read next. -/
theorem found_head (h : skipToTag n tag r = .returned true s) :
    ∃ head t, DataHead.readFrom s = .returned head t ∧ head.type ≠ .eStructEnd := by
  cases n with
  | zero => cases h
  | succ n =>
    obtain ⟨head,len,hp,-,htype⟩ := skipToTagLoop_found (skipToTag_eq_returned_true h)
    exact ⟨head,_,(Exec.bind_of_returned hp).trans rfl,htype⟩

/-- What `m` reads is a field under `tag`, a row of its own, or nothing. -/
def Mirrored (outer : Bool) (tag : BitVec 8) (isRequire : Bool) (m : Decode w α) : Prop :=
  ∀ r a s, m r = .returned a s → (∃ u, Finds tag r u ∧ Row outer 1 u s) ∨
    Exec.Ends (fun n => skipToTag n tag) r (.returned false s) ∧ isRequire = false

theorem mirrored_readField (hs : ∀ t, SkipsAs t (switch t)) :
    Mirrored outer tag isRequire (readField (skipToTag fuel tag) isRequire missing old switch) := by
  intro r a s h
  rcases readField_eq_returned.mp h with ⟨u,head,t,hu,ht,h⟩ | ⟨hb,hreq,-⟩
  · obtain ⟨head',t',ht',htype⟩ := found_head hu
    have hover : Over u s :=
      ⟨skips_iff.mpr ⟨head,t,ht,hs head.type t a s h⟩,head',t',ht',htype⟩
    exact .inl ⟨u,⟨by simp,fuel,hu⟩,.single hover⟩
  · exact .inr ⟨⟨by simp,fuel,hb⟩,hreq⟩

theorem Mirrored.map {f : α → β} (h : Mirrored outer tag isRequire m) :
    Mirrored outer tag isRequire (m >>= fun a => pure (f a)) := by
  intro r b s hb
  obtain ⟨a,u,ha,hb⟩ := Exec.bind_eq_returned.mp hb
  cases hb
  exact h r a s ha

end Fields

section Guards

variable {isRequire strict outer : Bool} {missing : String} {old a : α} {size : BitVec 32}
  {switch : HeadType → Decode w α} {counts : BitVec 32 → Bool} {t : HeadType}

/-- The two ways a guarded read returns. -/
theorem guarded_eq_returned :
    (fieldGuard strict outer fuel tag >>= fun _ =>
      readField (skipToTag fuel tag) isRequire missing old switch) r = .returned a s ↔
    (∃ u h t, skipToTag fuel tag r = .returned true u ∧ DataHead.readFrom u = .returned h t ∧
      (∃ v, countGuard strict outer fuel h.type t = .returned () v) ∧ switch h.type t = .returned a s) ∨
    skipToTag fuel tag r = .returned false s ∧ isRequire = false ∧ a = old := by
  constructor
  · intro h
    obtain ⟨⟨⟩,r',hguard,h⟩ := Exec.bind_eq_returned.mp h
    obtain ⟨rfl,v,hguard⟩ := Exec.lookahead_eq_returned.mp hguard
    rcases readField_eq_returned.mp h with ⟨u,head,t,hu,ht,h⟩ | h
    · refine .inl ⟨u,head,t,hu,ht,⟨v,?_⟩,h⟩
      rcases readField_eq_returned.mp hguard with ⟨u',head',t',hu',ht',hv⟩ | ⟨hb,-,-⟩
      · cases hu.symm.trans hu'
        cases ht.symm.trans ht'
        exact hv
      · cases hu.symm.trans hb
    · exact .inr h
  · intro h
    rcases h with ⟨u,head,t,hu,ht,⟨v,hv⟩,h⟩ | h
    · have hguard : fieldGuard strict outer fuel tag r = .returned () r :=
        Exec.lookahead_eq_returned.mpr
          ⟨rfl,v,readField_eq_returned.mpr (.inl ⟨u,head,t,hu,ht,hv⟩)⟩
      exact (Exec.bind_of_returned hguard).trans
        (readField_eq_returned.mpr (.inl ⟨u,head,t,hu,ht,h⟩))
    · have hguard : fieldGuard strict outer fuel tag r = .returned () r :=
        Exec.lookahead_eq_returned.mpr
          ⟨rfl,s,readField_eq_returned.mpr (.inr ⟨h.1,rfl,rfl⟩)⟩
      exact (Exec.bind_of_returned hguard).trans (readField_eq_returned.mpr (.inr h))

theorem mirrored_guarded (hs : ∀ u h t v a s, DataHead.readFrom u = .returned h t →
      countGuard true outer fuel h.type t = .returned () v → switch h.type t = .returned a s →
      Row outer 1 u s) :
    Mirrored outer tag isRequire (fieldGuard true outer fuel tag >>= fun _ =>
      readField (skipToTag fuel tag) isRequire missing old switch) := by
  intro r a s h
  rcases guarded_eq_returned.mp h with ⟨u,head,t,hu,ht,⟨v,hv⟩,h⟩ | ⟨hb,hreq,-⟩
  · exact .inl ⟨u,⟨by simp,fuel,hu⟩,hs u head t v a s ht hv h⟩
  · exact .inr ⟨⟨by simp,fuel,hb⟩,hreq⟩

/-- A size that was accepted is the one that was read. -/
theorem readSize_returned {invalid : BitVec 32 → String}
    (h : readSize fuel invalid r = .returned size s) :
    readUInt32 fuel 0 0 true r = .returned size s := by
  obtain ⟨x,u,hx,h⟩ := Exec.bind_eq_returned.mp h
  obtain ⟨len,v,hlen,h⟩ := Exec.bind_eq_returned.mp h
  cases hlen
  rw [Exec.ite_apply] at h
  split at h
  · cases h
  · cases h
    exact hx

theorem sizeGuard_eq_returned : sizeGuard strict fuel counts r = .returned () s ↔
    ∃ size, guardedSize strict fuel r = .returned size s ∧ counts size := by
  constructor
  · intro h
    obtain ⟨size,u,hsize,h⟩ := Exec.bind_eq_returned.mp h
    rw [Exec.ite_apply] at h
    split at h
    · next hcounts =>
      cases h
      exact ⟨size,hsize,hcounts⟩
    · cases h
  · intro h
    obtain ⟨size,hsize,hcounts⟩ := h
    refine (Exec.bind_of_returned hsize).trans ?_
    rw [if_pos hcounts]
    rfl

/-- The strict guard has seen the size that the read goes on to accept. -/
theorem sizeGuard_strict {invalid : BitVec 32 → String}
    (hguard : sizeGuard true fuel counts r = .returned () u)
    (h : readSize fuel invalid r = .returned size s) :
    Exec.Ends (fun n => readInt32 n 0 0 true) r (.returned size s) ∧ counts size := by
  obtain ⟨x,hx,hcounts⟩ := sizeGuard_eq_returned.mp hguard
  cases (readUInt32_of_readInt32 hx).symm.trans (readSize_returned h)
  exact ⟨⟨by simp,fuel+1,hx⟩,hcounts⟩

end Guards

section Counts

/-- `skipField` never counts more fields than there are. -/
theorem toNat_toInt_le (size : BitVec 32) : size.toInt.toNat ≤ size.toNat := by
  rw [BitVec.toInt_eq_toNat_cond]
  split <;> omega

theorem toNat_toInt_double_le (size : BitVec 32) : (size*2).toInt.toNat ≤ 2*size.toNat := by
  refine (toNat_toInt_le _).trans ?_
  rw [BitVec.toNat_mul,Nat.mul_comm]
  exact Nat.mod_le _ _

end Counts

section Containers

variable {outer : Bool} {size : BitVec 32} {t : HeadType} {isRequire : Bool} {k : ℕ}

/-- Reading a field under tag 0 reads the field at the cursor. -/
theorem Mirrored.row_zero {m : Decode w α} {a : α} (h : Mirrored outer 0 true m)
    (hm : m r = .returned a s) : Row outer 1 r s := by
  rcases h r a s hm with ⟨u,hu,hrow⟩ | ⟨-,hreq⟩
  · obtain rfl := hu.eq_of_zero
    exact hrow
  · cases hreq

/-- A row of one field and the row after it. -/
theorem Row.cons (h : Row outer 1 r u) (h' : Row outer k u s) : Row outer (k+1) r s := by
  rw [Nat.add_comm]
  exact h.append h'

theorem readElems_row {read : α → Decode w α} (h : ∀ a, Mirrored outer 0 true (read a))
    {v bs : List α} (hv : readElems read v r = .returned bs s) : Row outer v.length r s := by
  induction v generalizing r bs with
  | nil =>
    cases hv
    exact .nil
  | cons a v ih =>
    obtain ⟨b,u,hb,hv⟩ := Exec.bind_eq_returned.mp hv
    obtain ⟨cs,t,hcs,hv⟩ := Exec.bind_eq_returned.mp hv
    cases hv
    exact ((h a).row_zero hb).cons (ih hcs)

theorem readListBody_row {read : α → Decode w α} {init : α} {old bs : List α}
    {invalid : BitVec 32 → String} {head : DataHead} {t : BufferReader w}
    (h : ∀ a, Mirrored outer 0 true (read a)) (ht : DataHead.readFrom r = .returned head t)
    (htype : head.type = .eList) (hguard : countGuard true outer fuel .eList t = .returned () u)
    (hread : readListBody fuel read init old invalid t = .returned bs s) : Row outer 1 r s := by
  obtain ⟨size,v,hsize,hread⟩ := Exec.bind_eq_returned.mp hread
  obtain ⟨hint,hcounts⟩ := sizeGuard_strict hguard hsize
  have hrow := readElems_row h hread
  rw [length_resize] at hrow
  refine .container (k := 0) (.list ht htype hint) (toNat_toInt_le size) ?_ hrow
  intro houter
  simpa [houter] using hcounts

theorem readSimpleListBody_skips {bs : List Byte}
    (hguard : countGuard true outer fuel .eSimpleList r = .returned () u)
    (hread : readSimpleListBody fuel tag r = .returned bs s) :
    Exec.Ends (fun n => skipField n .eSimpleList) r (.returned () s) := by
  obtain ⟨head,t,ht,hread⟩ := Exec.bind_eq_returned.mp hread
  obtain ⟨head',t',ht',hguard⟩ := Exec.bind_eq_returned.mp hguard
  cases ht.symm.trans ht'
  rw [Exec.ite_apply] at hread
  split at hread
  · cases hread
  next htype =>
  obtain ⟨size,v,hsize,hread⟩ := Exec.bind_eq_returned.mp hread
  obtain ⟨hint,hcounts⟩ := sizeGuard_strict hguard hsize
  obtain ⟨-,n,hn⟩ := hint
  refine ⟨by simp,n+1,(Exec.bind_of_returned ht).trans ?_⟩
  rw [if_neg htype]
  refine (Exec.bind_of_returned hn).trans ?_
  rw [beq_iff_eq.mp hcounts]
  exact readBuf_returned hread

end Containers

section Maps

variable {outer : Bool} {κ ν : Type} {less : κ → κ → Bool} {readKey : Decode w κ}
  {readValue : Decode w ν}

theorem valueGuard_returned (h : valueGuard outer r = .returned () s) :
    s = r ∧ (outer → ∃ head len, DataHead.peekFrom r = .returned (head,len) r ∧ head.tag = 1) := by
  cases outer with
  | false =>
    cases h
    exact ⟨rfl,fun h => by cases h⟩
  | true =>
    obtain ⟨⟨head,len⟩,t,ht,h⟩ := Exec.bind_eq_returned.mp h
    obtain ⟨rfl,u,hu⟩ := Exec.lookahead_eq_returned.mp ht
    obtain rfl := (peekFrom_still r).1 _ u hu
    dsimp only at h
    rw [Exec.ite_apply] at h
    split at h
    · next htag =>
      cases h
      exact ⟨rfl,fun _ => ⟨head,len,hu,htag⟩⟩
    · cases h

/-- A search passes over a row, and over nothing if the guard has seen the value. -/
theorem Finds.row (h : Finds 1 r u) (hguard : valueGuard outer r = .returned () s) :
    ∃ k, Row outer k r u ∧ (outer → k = 0) := by
  cases outer with
  | true =>
    obtain ⟨-,hhead⟩ := valueGuard_returned hguard
    obtain ⟨head,len,hp,htag⟩ := hhead rfl
    obtain rfl := h.eq_of_here hp (by rw [htag]; exact BitVec.le_refl _)
    exact ⟨0,.nil,fun _ => rfl⟩
  | false =>
    obtain ⟨k,hk⟩ := Row.of_overs h.overs
    exact ⟨k,hk,fun h => by cases h⟩

theorem Mirrored.row_value {b : ν} (h : Mirrored outer 1 true readValue)
    (hv : (valueGuard outer >>= fun _ => readValue) r = .returned b s) :
    ∃ k, Row outer (k+1) r s ∧ (outer → k = 0) := by
  obtain ⟨⟨⟩,t,ht,hb⟩ := Exec.bind_eq_returned.mp hv
  obtain ⟨rfl,-⟩ := valueGuard_returned ht
  rcases h t b s hb with ⟨u,hu,hrow⟩ | ⟨-,hreq⟩
  · obtain ⟨k,hk,hzero⟩ := hu.row ht
    exact ⟨k,hk.append hrow,hzero⟩
  · cases hreq

/-- The entries make a row of two fields each, or more inside a struct. -/
theorem readEntries_row (hk : Mirrored outer 0 true readKey) (hv : Mirrored outer 1 true readValue)
    {n : ℕ} {m m' : List (κ × ν)}
    (h : readEntries less readKey (valueGuard outer >>= fun _ => readValue) n m r =
      .returned m' s) : ∃ k, Row outer k r s ∧ 2*n ≤ k ∧ (outer → 2*n = k) := by
  induction n generalizing r m with
  | zero =>
    cases h
    exact ⟨0,.nil,Nat.le_refl _,fun _ => rfl⟩
  | succ n ih =>
    obtain ⟨a,t,ha,h⟩ := Exec.bind_eq_returned.mp h
    obtain ⟨b,u,hb,h⟩ := Exec.bind_eq_returned.mp h
    obtain ⟨i,hi,hzero⟩ := hv.row_value hb
    obtain ⟨k,hrow,hle,heq⟩ := ih h
    refine ⟨i+1+k+1,(hk.row_zero ha).cons (hi.append hrow),by omega,fun houter => ?_⟩
    have hi0 := hzero houter
    have hk0 := heq houter
    omega

end Maps

section Structs

variable {outer : Bool}

theorem searchGuard_strict (h : searchGuard true fuel tag r = .returned () s) :
    s = r ∧ ∃ found u, skipToTagLoop fuel tag r = .returned found u := by
  obtain ⟨found,t,ht,h⟩ := Exec.bind_eq_returned.mp h
  obtain ⟨rfl,u,hu⟩ := Exec.lookahead_eq_returned.mp ht
  cases h
  exact ⟨rfl,found,u,hu⟩

/-- Where the loop returns there was nothing to swallow. -/
theorem skipToTagLoop_ends {found found' : Bool} (h : skipToTagLoop fuel tag r = .returned found u)
    (hs : Exec.Ends (fun n => skipToTag n tag) r (.returned found' s)) :
    skipToTagLoop fuel tag r = .returned found' s := by
  have htag : skipToTag (fuel+1) tag r = .returned found u := by
    rw [skipToTag,Exec.catchIf,h]
  cases hs.unique ⟨by simp,fuel+1,htag⟩ (skipToTag_stable tag)
  exact h

/-- A member that was read leaves whole fields behind. -/
theorem Mirrored.row {isRequire : Bool} {m : Decode w α} {a : α} {found : Bool}
    (h : Mirrored outer tag isRequire m) (hm : m r = .returned a s)
    (hloop : skipToTagLoop fuel tag r = .returned found u) : ∃ k, Row outer k r s := by
  rcases h r a s hm with ⟨t,ht,hrow⟩ | ⟨ht,-⟩
  · obtain ⟨k,hk⟩ := Row.of_overs (skipToTagLoop_overs (skipToTagLoop_ends hloop ht))
    exact ⟨k+1,hk.append hrow⟩
  · exact Row.of_overs (skipToTagLoop_overs (skipToTagLoop_ends hloop ht))

theorem readStruct_mirrored {isRequire : Bool} {readFrom : α → Decode w α} {old : α}
    (h : ∀ a r b s, readFrom a r = .returned b s → ∃ k, Row false k r s) :
    Mirrored outer tag isRequire (readStruct fuel readFrom old tag isRequire) := by
  refine mirrored_readField fun t => ?_
  cases t with
  | eStructBegin =>
    intro r a s hread
    obtain ⟨b,u,hb,hread⟩ := Exec.bind_eq_returned.mp hread
    obtain ⟨⟨⟩,v,hv,hread⟩ := Exec.bind_eq_returned.mp hread
    cases hread
    obtain ⟨k,hk⟩ := h old r _ u hb
    obtain ⟨t,ht,hend⟩ := hk.closes ⟨by simp,fuel,hv⟩ 0 (Nat.zero_le k)
    obtain rfl := skipsAll_zero.mp ht
    obtain ⟨-,n,hn⟩ := hend
    exact ⟨by simp,n+1,hn⟩
  | _ => exact .throw _

end Structs

section Types

variable {outer isRequire : Bool}

theorem readChar_mirrored (old : BitVec 8) :
    Mirrored outer tag isRequire (readChar (w := w) fuel old tag isRequire) := by
  refine mirrored_readField fun t => ?_
  cases t with
  | eZeroTag => exact .zero 0
  | eChar => exact .byType rfl
  | _ => exact .throw _

theorem readShort_mirrored (old : BitVec 16) :
    Mirrored outer tag isRequire (readShort (w := w) fuel old tag isRequire) := by
  refine mirrored_readField fun t => ?_
  cases t with
  | eZeroTag => exact .zero 0
  | eChar => exact .word rfl _
  | eShort => exact .word rfl _
  | _ => exact .throw _

theorem readInt32_mirrored (old : BitVec 32) :
    Mirrored outer tag isRequire (readInt32 (w := w) fuel old tag isRequire) := by
  cases fuel with
  | zero =>
    intro r a s h
    cases h
  | succ fuel => exact mirrored_readField int32Switch_skipsAs

theorem readInt64_mirrored (old : BitVec 64) :
    Mirrored outer tag isRequire (readInt64 (w := w) fuel old tag isRequire) := by
  refine mirrored_readField fun t => ?_
  cases t with
  | eZeroTag => exact .zero 0
  | eChar => exact .word rfl _
  | eShort => exact .word rfl _
  | eInt32 => exact .word rfl _
  | eInt64 => exact .word rfl _
  | _ => exact .throw _

theorem readFloat_mirrored (old : BitVec 32) :
    Mirrored outer tag isRequire (readFloat (w := w) fuel old tag isRequire) := by
  refine mirrored_readField fun t => ?_
  cases t with
  | eZeroTag => exact .zero 0
  | eFloat => exact .word rfl _
  | _ => exact .throw _

theorem readDouble_mirrored (F : FloatConversion) (old : BitVec 64) :
    Mirrored outer tag isRequire (readDouble (w := w) F fuel old tag isRequire) := by
  refine mirrored_readField fun t => ?_
  cases t with
  | eZeroTag => exact .zero 0
  | eFloat => exact .word rfl _
  | eDouble => exact .word rfl _
  | _ => exact .throw _

theorem guardedVector_mirrored {read : α → Decode w α} (h : ∀ a, Mirrored outer 0 true (read a))
    (init : α) (old : List α) : Mirrored outer tag isRequire (fieldGuard true outer fuel tag >>=
      fun _ => readVector fuel read init old tag isRequire) := by
  refine mirrored_guarded fun u head t v a s ht hguard hread => ?_
  cases htype : head.type with
  | eList =>
    rw [htype] at hguard hread
    exact readListBody_row h ht htype hguard hread
  | _ =>
    rw [htype] at hread
    cases hread

theorem guardedCharVector_mirrored (old : List Byte) :
    Mirrored outer tag isRequire (fieldGuard (w := w) true outer fuel tag >>= fun _ =>
      readCharVector fuel old tag isRequire) := by
  refine mirrored_guarded fun u head t v a s ht hguard hread => ?_
  cases htype : head.type with
  | eSimpleList =>
    rw [htype] at hguard hread
    have hpass := readSimpleListBody_skips hguard hread
    rw [← htype] at hpass
    exact .single ⟨skips_iff.mpr ⟨head,t,ht,hpass⟩,head,t,ht,by rw [htype]; simp⟩
  | eList =>
    rw [htype] at hguard hread
    exact readListBody_row readChar_mirrored ht htype hguard hread
  | _ =>
    rw [htype] at hread
    cases hread

theorem guardedMap_mirrored {κ ν : Type} {less : κ → κ → Bool} {readKey : Decode w κ}
    {readValue : Decode w ν} (hk : Mirrored outer 0 true readKey)
    (hv : Mirrored outer 1 true readValue) (old : List (κ × ν)) :
    Mirrored outer tag isRequire (fieldGuard true outer fuel tag >>= fun _ =>
      readMap fuel less readKey (valueGuard outer >>= fun _ => readValue) old tag isRequire) := by
  refine mirrored_guarded fun u head t v a s ht hguard hread => ?_
  cases htype : head.type with
  | eMap =>
    rw [htype] at hguard hread
    obtain ⟨size,x,hsize,hread⟩ := Exec.bind_eq_returned.mp hread
    obtain ⟨hint,hcounts⟩ := sizeGuard_strict hguard hsize
    obtain ⟨k,hrow,hle,heq⟩ := readEntries_row hk hv hread
    have hdouble := toNat_toInt_double_le size
    refine .container (k := 0) (.map ht htype hint) (hdouble.trans hle) (fun houter => ?_) hrow
    rw [← heq houter]
    simpa [houter] using hcounts
  | _ =>
    rw [htype] at hread
    cases hread

mutual

/-- A strictly guarded read reads a row of one field. -/
theorem JceType.guardedRead_mirrored (E : Env) (fuel : ℕ) : (t : JceType) →
    ∀ outer old tag isRequire, Mirrored (w := w) outer tag isRequire
      (t.guardedRead E true outer fuel old tag isRequire)
  | .bool, _, _, _, _ => (readChar_mirrored _).map
  | .char, _, _, _, _ => readChar_mirrored _
  | .uint8, _, _, _, _ => (readShort_mirrored _).map
  | .short, _, _, _, _ => readShort_mirrored _
  | .uint16, _, _, _, _ => (readInt32_mirrored _).map
  | .int32, _, _, _, _ => readInt32_mirrored _
  | .uint32, _, _, _, _ => (readInt64_mirrored _).map
  | .int64, _, _, _, _ => readInt64_mirrored _
  | .float, _, _, _, _ => readFloat_mirrored _
  | .double, _, _, _, _ => readDouble_mirrored _ _
  | .enum, _, _, _, _ => readInt32_mirrored _
  | .string, _, _, _, _ => mirrored_readField stringSwitch_skipsAs
  | .charVector, _, old, _, _ => guardedCharVector_mirrored old
  | .vector t, outer, old, _, _ =>
    guardedVector_mirrored (fun a => t.guardedRead_mirrored E fuel outer a 0 true) (E.init t) old
  | .map k v, outer, old, _, _ =>
    guardedMap_mirrored (k.guardedRead_mirrored E fuel outer (E.init k) 0 true)
      (v.guardedRead_mirrored E fuel outer (E.init v) 1 true) old
  | .struct fs, _, _, _, _ =>
    readStruct_mirrored fun old => fs.guardedReadFrom_row E fuel (E.resetDefautlt fs old)

/-- The members of a struct are read over a row of fields. -/
theorem Fields.guardedReadFrom_row (E : Env) (fuel : ℕ) : {lo : ℕ} → (fs : Fields lo) →
    ∀ old (r : BufferReader w) v s,
      fs.guardedReadFrom E true fuel old r = .returned v s → ∃ k, Row false k r s
  | _, .nil, _, r, _, s, h => by
    cases h
    exact ⟨0,.nil⟩
  | _, .cons tag _ isRequire t rest, old, r, _, s, h => by
    obtain ⟨⟨⟩,r',hguard,h⟩ := Exec.bind_eq_returned.mp h
    obtain ⟨a,u,ha,h⟩ := Exec.bind_eq_returned.mp h
    obtain ⟨as,u',has,h⟩ := Exec.bind_eq_returned.mp h
    cases h
    obtain ⟨rfl,found,v,hloop⟩ := searchGuard_strict hguard
    obtain ⟨i,hi⟩ := (t.guardedRead_mirrored E fuel false old.1 tag isRequire).row ha hloop
    obtain ⟨k,hk⟩ := rest.guardedReadFrom_row E fuel old.2 u as s has
    exact ⟨i+k,hi.append hk⟩

end

end Types

end UninstallObserver.Jce
