import UninstallObserver.Jce.ReadRows

/-! Skipping agrees with reading where the strict guards let the read pass, and only there
as long as the lax ones do. -/
namespace UninstallObserver.Jce
open Imperative ByteOrder BufferReader Relation

variable {w : ℕ} {α β : Type} {n fuel : ℕ} {tag : BitVec 8} {r s u : BufferReader w}
  {outer isRequire : Bool}

/-- Where `skipField` gets on from the field under `tag`, the strict read `m'` lets through
what the lax one `m` did. -/
def Hardens (outer : Bool) (tag : BitVec 8) (m m' : Decode w α) : Prop :=
  ∀ r a s, m r = .returned a s → (∀ u, Finds tag r u → GetsOn outer 1 u) → m' r = .returned a s

theorem Hardens.refl (m : Decode w α) : Hardens outer tag m m := fun _ _ _ h _ => h

section Guards

variable {missing : String} {old a : α} {t : HeadType} {switch switch' : HeadType → Decode w α}
  {counts : BitVec 32 → Bool}

theorem sizeGuard_hardens {size : BitVec 32} (h : sizeGuard false fuel counts r = .returned () u)
    (hsize : Exec.Ends (fun n => readInt32 n 0 0 true) r (.returned size s)) :
    ∃ v, sizeGuard true fuel counts r = .returned () v := by
  obtain ⟨x,hx,hcounts⟩ := sizeGuard_eq_returned.mp h
  exact ⟨u,sizeGuard_eq_returned.mpr ⟨x,readInt32_of_sized hx hsize,hcounts⟩⟩

theorem skipField_simpleList (h : Exec.Ends (fun n => skipField n .eSimpleList) r (.returned () s)) :
    ∃ head t size u, DataHead.readFrom r = .returned head t ∧
      Exec.Ends (fun n => readInt32 n 0 0 true) t (.returned size u) := by
  obtain ⟨n,hn⟩ := h.succ rfl
  obtain ⟨head,t,ht,hn⟩ := Exec.bind_eq_returned.mp hn
  rw [Exec.ite_apply] at hn
  split at hn
  · cases hn
  · obtain ⟨size,u,hsize,-⟩ := Exec.bind_eq_returned.mp hn
    exact ⟨head,t,size,u,ht,by simp,n,hsize⟩

/-- What `skipField` passes over has its size as an `Int32`. -/
theorem countGuard_hardens (h : countGuard false outer fuel t r = .returned () u)
    (hskip : Exec.Ends (fun n => skipField n t) r (.returned () s)) :
    ∃ v, countGuard true outer fuel t r = .returned () v := by
  cases t with
  | eList =>
    obtain ⟨size,v,hsize,-⟩ := (skipField_sized fun _ => rfl).mp hskip
    exact sizeGuard_hardens h hsize
  | eMap =>
    obtain ⟨size,v,hsize,-⟩ := (skipField_sized fun _ => rfl).mp hskip
    exact sizeGuard_hardens h hsize
  | eSimpleList =>
    obtain ⟨head,x,hx,h⟩ := Exec.bind_eq_returned.mp h
    obtain ⟨head',x',size,v,hx',hsize⟩ := skipField_simpleList hskip
    cases hx.symm.trans hx'
    obtain ⟨v,hv⟩ := sizeGuard_hardens h hsize
    exact ⟨v,(Exec.bind_of_returned hx).trans hv⟩
  | _ => exact ⟨r,rfl⟩

/-- Once the head is read, what is left of a skip is `skipField`. -/
theorem Skips.field {head : DataHead} {x : BufferReader w} (h : Skips u s)
    (hx : DataHead.readFrom u = .returned head x) :
    Exec.Ends (fun n => skipField n head.type) x (.returned () s) := by
  obtain ⟨head',x',hx',hpass⟩ := skips_iff.mp h
  cases hx.symm.trans hx'
  exact hpass

theorem hardens_readField (hs : ∀ t r a s v, switch t r = .returned a s →
      Exec.Ends (fun n => skipField n t) r (.returned () v) → switch' t r = .returned a s) :
    Hardens outer tag (readField (skipToTag fuel tag) isRequire missing old switch)
      (readField (skipToTag fuel tag) isRequire missing old switch') := by
  intro r a s h hon
  rcases readField_eq_returned.mp h with ⟨u,head,t,hu,ht,h⟩ | h
  · obtain ⟨v,hv⟩ := (hon u ⟨by simp,fuel,hu⟩).skips
    exact readField_eq_returned.mpr (.inl ⟨u,head,t,hu,ht,hs head.type t a s v h (hv.field ht)⟩)
  · exact readField_eq_returned.mpr (.inr h)

theorem hardens_guarded (hs : ∀ u h t v a s, DataHead.readFrom u = .returned h t →
      GetsOn outer 1 u → countGuard true outer fuel h.type t = .returned () v →
      switch h.type t = .returned a s → switch' h.type t = .returned a s) :
    Hardens outer tag
      (fieldGuard false outer fuel tag >>= fun _ =>
        readField (skipToTag fuel tag) isRequire missing old switch)
      (fieldGuard true outer fuel tag >>= fun _ =>
        readField (skipToTag fuel tag) isRequire missing old switch') := by
  intro r a s h hon
  rcases guarded_eq_returned.mp h with ⟨u,head,t,hu,ht,⟨x,hx⟩,h⟩ | h
  · have hu' := hon u ⟨by simp,fuel,hu⟩
    obtain ⟨v,hv⟩ := hu'.skips
    obtain ⟨y,hy⟩ := countGuard_hardens hx (hv.field ht)
    exact guarded_eq_returned.mpr (.inl ⟨u,head,t,hu,ht,⟨y,hy⟩,hs u head t y a s ht hu' hy h⟩)
  · exact guarded_eq_returned.mpr (.inr h)

end Guards

section Elements

variable {a : α}

theorem Hardens.at_zero {m m' : Decode w α} (h : Hardens outer 0 m m') (hm : m r = .returned a s)
    (hon : GetsOn outer 1 r) : m' r = .returned a s := by
  refine h r a s hm fun v hv => ?_
  obtain rfl := hv.eq_of_zero
  exact hon

theorem readElems_hardens {read read' : α → Decode w α} {v bs : List α}
    (h : ∀ a, Hardens outer 0 (read a) (read' a)) (h' : ∀ a, Mirrored outer 0 true (read' a))
    (hv : readElems read v r = .returned bs s) (hon : GetsOn outer v.length r) :
    readElems read' v r = .returned bs s := by
  induction v generalizing r bs with
  | nil => exact hv
  | cons a v ih =>
    obtain ⟨b,x,hb,hrest⟩ := Exec.bind_eq_returned.mp hv
    obtain ⟨cs,y,hcs,hpure⟩ := Exec.bind_eq_returned.mp hrest
    cases hpure
    have hb' := (h a).at_zero hb (hon.of_le (by simp))
    have hnext : GetsOn outer v.length x := by
      refine GetsOn.row (i := 1) ?_ ((h' a).row_zero hb')
      rw [Nat.add_comm]
      exact hon
    exact (Exec.bind_of_returned hb').trans (Exec.bind_of_returned (ih hcs hnext))

theorem readListBody_hardens {read read' : α → Decode w α} {init : α} {old bs : List α}
    {invalid : BitVec 32 → String} {head : DataHead} {t : BufferReader w}
    (h : ∀ a, Hardens outer 0 (read a) (read' a)) (h' : ∀ a, Mirrored outer 0 true (read' a))
    (ht : DataHead.readFrom r = .returned head t) (htype : head.type = .eList)
    (hon : GetsOn outer 1 r) (hguard : countGuard true outer fuel .eList t = .returned () u)
    (hread : readListBody fuel read init old invalid t = .returned bs s) :
    readListBody fuel read' init old invalid t = .returned bs s := by
  obtain ⟨size,v,hsize,hread⟩ := Exec.bind_eq_returned.mp hread
  obtain ⟨hint,hcounts⟩ := sizeGuard_strict hguard hsize
  refine (Exec.bind_of_returned hsize).trans (readElems_hardens h h' hread ?_)
  rw [length_resize]
  refine hon.opens (k := 0) (.list ht htype hint) fun houter => ?_
  simpa [houter] using hcounts

end Elements

section Maps

variable {κ ν : Type} {less : κ → κ → Bool} {readKey readKey' : Decode w κ}
  {readValue readValue' : Decode w ν}

theorem readEntries_hardens (hk : Hardens outer 0 readKey readKey')
    (hk' : Mirrored outer 0 true readKey') (hv : Hardens outer 1 readValue readValue')
    (hv' : Mirrored outer 1 true readValue') {n : ℕ} {m m' : List (κ × ν)}
    (h : readEntries less readKey (valueGuard outer >>= fun _ => readValue) n m r =
      .returned m' s) (hon : GetsOn outer (2*n) r) :
    readEntries less readKey' (valueGuard outer >>= fun _ => readValue') n m r =
      .returned m' s := by
  induction n generalizing r m with
  | zero => exact h
  | succ n ih =>
    obtain ⟨a,t,ha,hentry⟩ := Exec.bind_eq_returned.mp h
    obtain ⟨b,x,hb,hrest⟩ := Exec.bind_eq_returned.mp hentry
    obtain ⟨⟨⟩,y,hy,hvalue⟩ := Exec.bind_eq_returned.mp hb
    obtain ⟨rfl,-⟩ := valueGuard_returned hy
    have ha' := hk.at_zero ha (hon.of_le (by omega))
    have hmid : GetsOn outer (1+2*n) y :=
      GetsOn.row (i := 1) (hon.of_le (by omega)) (hk'.row_zero ha')
    have hb' : (valueGuard outer >>= fun _ => readValue') y = .returned b x := by
      refine (Exec.bind_of_returned hy).trans (hv y b x hvalue fun u hu => ?_)
      obtain ⟨k,hrow,hzero⟩ := hu.row hy
      exact GetsOn.along (j := 0) (hmid.of_le (by omega)) hrow hzero
    obtain ⟨k,hrow,hzero⟩ := hv'.row_value hb'
    have hnext : GetsOn outer (2*n) x := hmid.along hrow fun houter => by rw [hzero houter]
    exact (Exec.bind_of_returned ha').trans
      ((Exec.bind_of_returned hb').trans (ih hrest hnext))

end Maps

section Structs

/-- A guarded read begins with the search for its tag. -/
theorem JceType.guardedRead_searches {E : Env} {strict : Bool} {t : JceType} {old a : Val t}
    (h : t.guardedRead E strict outer fuel old tag isRequire r = .returned a s) :
    ∃ found u, skipToTag fuel tag r = .returned found u := by
  have hfield : ∀ {α : Type} {missing : String} {old a : α} {switch : HeadType → Decode w α}
      {s : BufferReader w}, readField (skipToTag fuel tag) isRequire missing old switch r =
        .returned a s → ∃ found u, skipToTag fuel tag r = .returned found u := by
    intro α missing old a switch s h
    obtain ⟨found,u,hu,-⟩ := Exec.bind_eq_returned.mp h
    exact ⟨found,u,hu⟩
  have hint32 : ∀ {old a : BitVec 32} {s : BufferReader w},
      readInt32 fuel old tag isRequire r = .returned a s →
        ∃ found u, skipToTag fuel tag r = .returned found u := by
    intro old a s h
    cases fuel with
    | zero => cases h
    | succ n =>
      obtain ⟨found,u,hu,-⟩ := Exec.bind_eq_returned.mp h
      exact ⟨found,u,(skipToTag_stable tag).returned_succ hu⟩
  have hguarded : ∀ {α : Type} {missing : String} {old a : α} {switch : HeadType → Decode w α}
      {s : BufferReader w}, (fieldGuard strict outer fuel tag >>= fun _ =>
        readField (skipToTag fuel tag) isRequire missing old switch) r =
        .returned a s → ∃ found u, skipToTag fuel tag r = .returned found u := by
    intro α missing old a switch s h
    rcases guarded_eq_returned.mp h with ⟨u,_,_,hu,-⟩ | ⟨hu,-,-⟩
    · exact ⟨true,u,hu⟩
    · exact ⟨false,s,hu⟩
  cases t with
  | char => exact hfield (show readChar fuel old tag isRequire r = _ from h)
  | short => exact hfield (show readShort fuel old tag isRequire r = _ from h)
  | int64 => exact hfield (show readInt64 fuel old tag isRequire r = _ from h)
  | float => exact hfield (show readFloat fuel old tag isRequire r = _ from h)
  | double => exact hfield (show readDouble E.float fuel old tag isRequire r = _ from h)
  | string => exact hfield h
  | struct fs => exact hfield (show readStruct fuel _ old tag isRequire r = _ from h)
  | int32 | enum => exact hint32 h
  | charVector | vector | map => exact hguarded h
  | bool | uint8 | uint32 =>
    obtain ⟨b,u,hb,-⟩ := Exec.bind_eq_returned.mp h
    exact hfield hb
  | uint16 =>
    obtain ⟨b,u,hb,-⟩ := Exec.bind_eq_returned.mp h
    exact hint32 hb

/-- Where `skipField` gets on, the search for a member has nothing to swallow. -/
theorem searchGuard_hardens {found : Bool} {k : ℕ}
    (h : skipToTag fuel tag r = .returned found u) (hon : GetsOn false k r) :
    searchGuard true fuel tag r = .returned () r ∧ skipToTagLoop fuel tag r = .returned found u := by
  have hloop : skipToTagLoop fuel tag r = .returned found u := by
    cases fuel with
    | zero => cases h
    | succ n =>
      rw [skipToTag,Exec.catchIf] at h
      cases hl : skipToTagLoop n tag r with
      | returned found' v =>
        rw [hl] at h
        cases h
        exact (skipToTagLoop_stable tag).returned_succ hl
      | threw e t => exact absurd hon (skipToTagLoop_threw hl)
      | undefined =>
        rw [hl] at h
        cases h
      | outOfFuel =>
        rw [hl] at h
        cases h
  have hahead : Exec.lookahead (skipToTagLoop fuel tag) r = .returned found r :=
    Exec.lookahead_eq_returned.mpr ⟨rfl,u,hloop⟩
  exact ⟨Exec.bind_of_returned hahead,hloop⟩

theorem hardens_readStruct {readFrom readFrom' : α → Decode w α} {old : α}
    (h : ∀ a r b s, readFrom a r = .returned b s → GetsOn false 0 r →
      readFrom' a r = .returned b s) :
    Hardens outer tag (readStruct fuel readFrom old tag isRequire)
      (readStruct fuel readFrom' old tag isRequire) := by
  refine hardens_readField fun t r a s v hread hskip => ?_
  cases t with
  | eStructBegin =>
    obtain ⟨b,u,hb,hread⟩ := Exec.bind_eq_returned.mp hread
    obtain ⟨n,hn⟩ := hskip.succ rfl
    have hclose : Closes r v := ⟨by simp,n,hn⟩
    exact (Exec.bind_of_returned (h old r b u hb (.inside (skipsAll_zero.mpr rfl) hclose))).trans
      hread
  | _ => exact hread

end Structs

section Types

mutual

/-- Where `skipField` gets past the field, the strict guards stop nothing. -/
theorem JceType.guardedRead_hardens (E : Env) (fuel : ℕ) : (t : JceType) →
    ∀ outer old tag isRequire, Hardens (w := w) outer tag
      (t.guardedRead E false outer fuel old tag isRequire)
      (t.guardedRead E true outer fuel old tag isRequire)
  | .vector t, outer, old, tag, isRequire => by
    refine hardens_guarded fun u head x v a s ht hon hguard hread => ?_
    cases htype : head.type with
    | eList =>
      rw [htype] at hguard hread
      exact readListBody_hardens (fun a => t.guardedRead_hardens E fuel outer a 0 true)
        (fun a => t.guardedRead_mirrored E fuel outer a 0 true) ht htype hon hguard hread
    | _ =>
      rw [htype] at hread
      cases hread
  | .map k v, outer, old, tag, isRequire => by
    refine hardens_guarded fun u head x y a s ht hon hguard hread => ?_
    cases htype : head.type with
    | eMap =>
      rw [htype] at hguard hread
      obtain ⟨size,z,hsize,hread⟩ := Exec.bind_eq_returned.mp hread
      obtain ⟨hint,hcounts⟩ := sizeGuard_strict hguard hsize
      have hinside : GetsOn outer (2*size.toNat) z := by
        refine hon.opens (k := 0) (.map ht htype hint) fun houter => ?_
        simpa [houter] using hcounts
      exact (Exec.bind_of_returned hsize).trans (readEntries_hardens
        (k.guardedRead_hardens E fuel outer (E.init k) 0 true)
        (k.guardedRead_mirrored E fuel outer (E.init k) 0 true)
        (v.guardedRead_hardens E fuel outer (E.init v) 1 true)
        (v.guardedRead_mirrored E fuel outer (E.init v) 1 true) hread hinside)
    | _ =>
      rw [htype] at hread
      cases hread
  | .charVector, _, _, _, _ => hardens_guarded fun _ _ _ _ _ _ _ _ _ h => h
  | .struct fs, _, _, _, _ =>
    hardens_readStruct fun old => fs.guardedReadFrom_hardens E fuel (E.resetDefautlt fs old)
  | .bool, _, _, _, _ => .refl _
  | .char, _, _, _, _ => .refl _
  | .uint8, _, _, _, _ => .refl _
  | .short, _, _, _, _ => .refl _
  | .uint16, _, _, _, _ => .refl _
  | .int32, _, _, _, _ => .refl _
  | .uint32, _, _, _, _ => .refl _
  | .int64, _, _, _, _ => .refl _
  | .float, _, _, _, _ => .refl _
  | .double, _, _, _, _ => .refl _
  | .enum, _, _, _, _ => .refl _
  | .string, _, _, _, _ => .refl _

theorem Fields.guardedReadFrom_hardens (E : Env) (fuel : ℕ) : {lo : ℕ} → (fs : Fields lo) →
    ∀ old (r : BufferReader w) v s, fs.guardedReadFrom E false fuel old r = .returned v s →
      GetsOn false 0 r → fs.guardedReadFrom E true fuel old r = .returned v s
  | _, .nil, _, _, _, _, h, _ => h
  | _, .cons tag _ isRequire t rest, old, r, _, s, h, hon => by
    obtain ⟨⟨⟩,r',hlax,hread⟩ := Exec.bind_eq_returned.mp h
    cases hlax
    obtain ⟨a,u,ha,hrest⟩ := Exec.bind_eq_returned.mp hread
    obtain ⟨as,u',has,hpure⟩ := Exec.bind_eq_returned.mp hrest
    cases hpure
    obtain ⟨found,x,hx⟩ := t.guardedRead_searches ha
    obtain ⟨hguard,hloop⟩ := searchGuard_hardens hx hon
    have ha' : t.guardedRead E true false fuel old.1 tag isRequire r = .returned a u := by
      refine t.guardedRead_hardens E fuel false old.1 tag isRequire r a u ha fun y hy => ?_
      obtain ⟨k,hk⟩ := Row.of_overs hy.overs
      exact (hon.inside_any (k+1)).row hk
    obtain ⟨k,hk⟩ := (t.guardedRead_mirrored E fuel false old.1 tag isRequire).row ha' hloop
    have hnext : GetsOn false 0 u := (hon.inside_any (k+0)).row hk
    have has' := rest.guardedReadFrom_hardens E fuel old.2 u as s has hnext
    exact (Exec.bind_of_returned hguard).trans
      ((Exec.bind_of_returned ha').trans (Exec.bind_of_returned has'))

end

end Types

section Stable

mutual

theorem JceType.read_stable (E : Env) : (t : JceType) → ∀ old tag isRequire,
    Exec.Stable fun n => t.read (w := w) E n old tag isRequire
  | .bool, _, _, _ => searched_stable.bind fun _ => .const _
  | .char, _, _, _ => readChar_stable _
  | .uint8, _, _, _ => searched_stable.bind fun _ => .const _
  | .short, _, _, _ => readShort_stable _
  | .uint16, _, _, _ => (readInt32_stable _ _ _).bind fun _ => .const _
  | .int32, _, _, _ => readInt32_stable _ _ _
  | .uint32, _, _, _ => searched_stable.bind fun _ => .const _
  | .int64, _, _, _ => readInt64_stable _
  | .float, _, _, _ => readFloat_stable _
  | .double, _, _, _ => readDouble_stable _ _
  | .enum, _, _, _ => readInt32_stable _ _ _
  | .string, _, _, _ => searched_stable
  | .charVector, old, _, isRequire => readCharVector_stable old isRequire
  | .vector t, old, _, _ => readVector_stable (fun a => t.read_stable E a 0 true) (E.init t) old
  | .map k v, old, _, _ =>
    readMap_stable (k.read_stable E (E.init k) 0 true) (v.read_stable E (E.init v) 1 true) old
  | .struct fs, old, _, _ =>
    readStruct_stable (fun a => fs.readFrom_stable E (E.resetDefautlt fs a)) old

theorem Fields.readFrom_stable (E : Env) : {lo : ℕ} → (fs : Fields lo) → ∀ old,
    Exec.Stable fun n => fs.readFrom (w := w) E n old
  | _, .nil, _ => .const _
  | _, .cons tag _ isRequire t rest, old =>
    (t.read_stable E old.1 tag isRequire).bind fun _ =>
      (rest.readFrom_stable E old.2).bind fun _ => .const _

end

theorem sizeGuard_stable (strict : Bool) (counts : BitVec 32 → Bool) :
    Exec.Stable fun n => sizeGuard (w := w) strict n counts := by
  have hsize : Exec.Stable fun n => guardedSize (w := w) strict n := by
    cases strict with
    | true => exact fun n => readInt32_stable 0 0 true (n+1)
    | false => exact readUInt32_stable 0 true
  exact hsize.bind fun size => .const _

theorem fieldGuard_stable (strict : Bool) :
    Exec.Stable fun n => fieldGuard (w := w) strict outer n tag := by
  refine (readField_stable (skipToTag_stable tag) (fun t => ?_) _ _ _).lookahead
  cases t with
  | eList => exact sizeGuard_stable strict _
  | eMap => exact sizeGuard_stable strict _
  | eSimpleList => exact (Exec.Stable.const _).bind fun _ => sizeGuard_stable strict _
  | _ => exact .const _

theorem searchGuard_stable (strict : Bool) :
    Exec.Stable fun n => searchGuard (w := w) strict n tag := by
  cases strict with
  | true => exact (skipToTagLoop_stable tag).lookahead.bind fun _ => .const _
  | false => exact .const _

mutual

theorem JceType.guardedRead_stable (E : Env) (strict : Bool) : (t : JceType) →
    ∀ outer old tag isRequire,
      Exec.Stable fun n => t.guardedRead (w := w) E strict outer n old tag isRequire
  | .charVector, _, old, _, isRequire =>
    (fieldGuard_stable strict).bind fun _ => readCharVector_stable old isRequire
  | .vector t, outer, old, _, _ => (fieldGuard_stable strict).bind fun _ =>
    readVector_stable (fun a => t.guardedRead_stable E strict outer a 0 true) (E.init t) old
  | .map k v, outer, old, _, _ => (fieldGuard_stable strict).bind fun _ =>
    readMap_stable (k.guardedRead_stable E strict outer (E.init k) 0 true)
      ((Exec.Stable.const _).bind fun _ =>
        v.guardedRead_stable E strict outer (E.init v) 1 true) old
  | .struct fs, _, old, _, _ => readStruct_stable
    (fun a => fs.guardedReadFrom_stable E strict (E.resetDefautlt fs a)) old
  | .bool, _, old, tag, req => JceType.read_stable E .bool old tag req
  | .char, _, old, tag, req => JceType.read_stable E .char old tag req
  | .uint8, _, old, tag, req => JceType.read_stable E .uint8 old tag req
  | .short, _, old, tag, req => JceType.read_stable E .short old tag req
  | .uint16, _, old, tag, req => JceType.read_stable E .uint16 old tag req
  | .int32, _, old, tag, req => JceType.read_stable E .int32 old tag req
  | .uint32, _, old, tag, req => JceType.read_stable E .uint32 old tag req
  | .int64, _, old, tag, req => JceType.read_stable E .int64 old tag req
  | .float, _, old, tag, req => JceType.read_stable E .float old tag req
  | .double, _, old, tag, req => JceType.read_stable E .double old tag req
  | .enum, _, old, tag, req => JceType.read_stable E .enum old tag req
  | .string, _, old, tag, req => JceType.read_stable E .string old tag req

theorem Fields.guardedReadFrom_stable (E : Env) (strict : Bool) : {lo : ℕ} →
    (fs : Fields lo) → ∀ old,
      Exec.Stable fun n => fs.guardedReadFrom (w := w) E strict n old
  | _, .nil, _ => .const _
  | _, .cons tag _ isRequire t rest, old => (searchGuard_stable strict).bind fun _ =>
    (t.guardedRead_stable E strict false old.1 tag isRequire).bind fun _ =>
      (rest.guardedReadFrom_stable E strict old.2).bind fun _ => .const _

end

end Stable

section Agreement

variable {E : Env} {t : JceType} {old : Val t}

theorem skipsAll_one : SkipsAll 1 r s ↔ Skips r s := by
  rw [skipsAll_succ]
  simp [skipsAll_zero]

theorem agrees_of_passable (h : Passable true E t old isRequire r) :
    Agrees E t old isRequire r := by
  intro head hat v s hread
  obtain ⟨-,n,hn⟩ := h head hat v s hread
  rcases t.guardedRead_mirrored E n true old head.tag isRequire r v s hn with
    ⟨u,hu,hrow⟩ | ⟨hb,-⟩
  · cases hu.unique hat.finds (skipToTag_stable head.tag)
    exact skipsAll_one.mp hrow.skipsAll
  · cases hb.unique hat.finds (skipToTag_stable head.tag)

theorem passable_of_agrees (hlax : Passable false E t old isRequire r)
    (h : Agrees E t old isRequire r) : Passable true E t old isRequire r := by
  intro head hat v s hread
  obtain ⟨-,n,hn⟩ := hlax head hat v s hread
  have hskip := h head hat v s hread
  refine ⟨by simp,n,t.guardedRead_hardens E n true old head.tag isRequire r v s hn fun u hu => ?_⟩
  cases hu.unique hat.finds (skipToTag_stable head.tag)
  exact .outside (skipsAll_one.mpr hskip)

/-- Skipping agrees with reading wherever the strict guards let the read pass, and nowhere
else that the lax ones do. -/
theorem agrees_iff (E : Env) (t : JceType) (old : Val t) (isRequire : Bool) (r : BufferReader w) :
    (Passable true E t old isRequire r → Agrees E t old isRequire r) ∧
      (Passable false E t old isRequire r →
        (Agrees E t old isRequire r ↔ Passable true E t old isRequire r)) :=
  ⟨agrees_of_passable,fun hlax => ⟨passable_of_agrees hlax,agrees_of_passable⟩⟩

theorem FieldAt.unique {h h' : DataHead} (hat : FieldAt r h) (hat' : FieldAt r h') : h = h' := by
  obtain ⟨len,hp⟩ := hat.head
  obtain ⟨len',hp'⟩ := hat'.head
  cases hp.symm.trans hp'
  rfl

/-- One run of the read and of the guarded read settles what all do. -/
theorem passable_of_runs {head : DataHead} {v : Val t} (hat : FieldAt r head)
    (hread : t.read E n old head.tag isRequire r = .returned v s)
    (hguarded : t.guardedRead E true true n old head.tag isRequire r = .returned v s) :
    Passable true E t old isRequire r := by
  intro head' hat' v' s' h
  obtain rfl := hat.unique hat'
  cases h.unique ⟨by simp,n,hread⟩ (t.read_stable E old head.tag isRequire)
  exact ⟨by simp,n,hguarded⟩

theorem agrees_of_runs {head : DataHead} {v : Val t} (hat : FieldAt r head)
    (hread : t.read E n old head.tag isRequire r = .returned v s)
    (hskip : skipFieldWithHead n r = .returned () s) : Agrees E t old isRequire r := by
  intro head' hat' v' s' h
  obtain rfl := hat.unique hat'
  cases h.unique ⟨by simp,n,hread⟩ (t.read_stable E old head.tag isRequire)
  exact ⟨by simp,n,hskip⟩

/-- A struct whose only member is a map. -/
def mapped : JceType := .struct (.cons 0 (by decide) true (.map .int32 .int32) .nil)

/-- A further field under tag 0 stands between the key and the value of the map's entry. -/
def crowdedEntry : BufferReader 32 :=
  setBufferVector [0x0A,0x08,0x00,0x01,0x00,0x07,0x0C,0x10,0x05,0x0B]

theorem agrees_crowdedEntry : Agrees Env.plain mapped ([],()) true crowdedEntry :=
  have hat : FieldAt crowdedEntry ⟨.eStructBegin,0⟩ := ⟨by decide,⟨1,by decide⟩,by decide⟩
  (agrees_iff _ _ _ _ _).1 (passable_of_runs (n := 12) hat rfl rfl)

/-- The value of a map's entry stands behind a further field and closes back at its end,
because a simple list in it has a length below zero. -/
def turnedBack : BufferReader 32 :=
  setBufferVector [0x08,0x00,0x01,0x0C,0x00,0x0B,0x1A,0x0D,0x00,0x02,0xFF,0xFF,0xFF,0xF7]

/-- Where the lax guards stop a read, skipping may agree with it by chance. -/
theorem agrees_turnedBack : Agrees Env.plain (.map .int32 (.struct .nil))
    ([] : List (BitVec 32 × Unit)) true turnedBack ∧
      ¬ Passable true Env.plain (.map .int32 (.struct .nil)) ([] : List (BitVec 32 × Unit)) true
        turnedBack := by
  have hat : FieldAt turnedBack ⟨.eMap,0⟩ := ⟨by decide,⟨1,by decide⟩,by decide⟩
  have hread : (JceType.map .int32 (.struct .nil)).read Env.plain 12
      ([] : List (BitVec 32 × Unit)) 0 true turnedBack =
        .returned ([(0,())] : List (BitVec 32 × Unit)) { turnedBack with cur := 6 } := rfl
  refine ⟨agrees_of_runs hat hread rfl,fun h => ?_⟩
  have hguarded : ∃ e s, (JceType.map .int32 (.struct .nil)).guardedRead Env.plain true true 12
      ([] : List (BitVec 32 × Unit)) 0 true turnedBack = .threw e s := ⟨_,_,rfl⟩
  obtain ⟨e,s,hthrew⟩ := hguarded
  cases (h _ hat _ _ ⟨by simp,12,hread⟩).unique ⟨by simp,12,hthrew⟩
    (JceType.guardedRead_stable Env.plain true _ true _ 0 true)

/-- A list of one element whose size stands as an `Int64`. -/
def wideSize : BufferReader 32 :=
  setBufferVector [0x09,0x03,0x00,0x00,0x00,0x00,0x00,0x00,0x00,0x01,0x0C]

theorem not_agrees_wideSize : ¬ Agrees Env.plain (.vector .int32) ([] : List (BitVec 32)) true
    wideSize := by
  intro h
  have hat : FieldAt wideSize ⟨.eList,0⟩ := ⟨by decide,⟨1,by decide⟩,by decide⟩
  have hread : (JceType.vector .int32).read Env.plain 8 ([] : List (BitVec 32)) 0 true wideSize =
      .returned ([0] : List (BitVec 32)) { wideSize with cur := 11 } := rfl
  have hskip : ∃ e s, skipFieldWithHead 8 wideSize = .threw e s := ⟨_,_,rfl⟩
  obtain ⟨e,s,hthrew⟩ := hskip
  cases (h _ hat _ _ ⟨by simp,8,hread⟩).unique ⟨by simp,8,hthrew⟩ skipFieldWithHead_stable

end Agreement

end UninstallObserver.Jce
