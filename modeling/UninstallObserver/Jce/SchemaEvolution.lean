import UninstallObserver.Jce.PassOver

/-! Reading fields by tag from a sequence that was written with other fields. -/
namespace UninstallObserver.Jce
open Imperative ByteOrder BufferReader

variable {w : ℕ}

/-- A value to be written under a tag, or a variable that the tag is read into. -/
structure Field where
  tag : BitVec 8
  type : JceType
  value : Val type

/-- What the overload for a type leaves in its target when the field is absent: the
template for enumerations assigns its own zero. -/
def JceType.unread : (t : JceType) → Val t → Val t
  | .enum, _ => (0 : BitVec 32)
  | _, v => v

namespace Field

def write (f : Field) : Encoded := f.type.write f.value f.tag

/-- Read as an optional field. -/
def read (E : Env) (fuel : ℕ) (f : Field) : Decode w Field := do
  let v ← f.type.read E fuel f.value f.tag false
  pure ⟨f.tag,f.type,v⟩

def Valid (E : Env) (f : Field) : Prop := Val.Valid E f.type f.value

def unread (f : Field) : Field := ⟨f.tag,f.type,f.type.unread f.value⟩

end Field

/-- The tags ascend strictly. -/
def Ascending (fs : List Field) : Prop := fs.Pairwise fun f g => f.tag < g.tag

/-- A variable has the type that was written under its tag, if any was. -/
def SameTypes (written asked : List Field) : Prop :=
  ∀ f ∈ written, ∀ a ∈ asked, f.tag = a.tag → f.type = a.type

/-- What a variable is to hold: the value under its tag, or what it held before. -/
def expected (written : List Field) (a : Field) : Field :=
  (written.find? fun f => f.tag == a.tag).getD a

/-- What reading leaves in it. -/
def obtained (written : List Field) (a : Field) : Field :=
  (written.find? fun f => f.tag == a.tag).getD a.unread

/-- What stands after the last field. -/
inductive Ended : List Byte → Prop where
  | buffer : Ended []
  | struct (rest : List Byte) : Ended (DataHead.writeTo .eStructEnd 0 ++ rest)

section Found
variable {r s : BufferReader w} {n : ℕ} {tag : BitVec 8}

theorem bind_congr_at {α β : Type} {m : Decode w α} {f : α → Decode w β} (h : m r = m s) :
    (m >>= f) r = (m >>= f) s := by
  rw [Exec.bind_apply,Exec.bind_apply,h]

theorem readField_congr {α : Type} {found : Decode w Bool} {isRequire : Bool} {missing : String}
    {old : α} {switch : HeadType → Decode w α} (h : found r = found s) :
    readField found isRequire missing old switch r =
      readField found isRequire missing old switch s := bind_congr_at h

/-- A read depends on where its tag is found, not on where the search began. -/
theorem JceType.read_congr (E : Env) (h : ∀ m, n ≤ m → skipToTag m tag r = skipToTag m tag s)
    (t : JceType) (old : Val t) (isRequire : Bool) :
    t.read E (n+1) old tag isRequire r = t.read E (n+1) old tag isRequire s := by
  have hn := h n (Nat.le_refl n)
  have hs := h (n+1) (Nat.le_succ n)
  cases t with
  | bool => exact bind_congr_at (readField_congr hs)
  | uint8 => exact bind_congr_at (readField_congr hs)
  | uint16 => exact bind_congr_at (readField_congr hn)
  | uint32 => exact bind_congr_at (readField_congr hs)
  | int32 => exact readField_congr hn
  | enum => exact readField_congr hn
  | _ =>
    rw [JceType.read]
    exact readField_congr hs

theorem readField_absent {α : Type} {found : Decode w Bool} {missing : String} {old : α}
    {switch : HeadType → Decode w α} (h : found r = .returned false s) :
    readField found false missing old switch r = .returned old s := by
  rw [readField,Exec.bind_of_returned h]
  simp

theorem bind_absent {α β : Type} {m : Decode w α} {a : α} {g : α → β} {b : β}
    (h : m r = .returned a s) (hb : g a = b) :
    (m >>= fun a => pure (g a)) r = .returned b s := by
  rw [Exec.bind_of_returned h,hb]
  rfl

theorem JceType.read_absent (E : Env) (h : ∀ m, n ≤ m → skipToTag m tag r = .returned false s)
    (t : JceType) (old : Val t) :
    t.read E (n+1) old tag false r = .returned (t.unread old) s := by
  have hn := h n (Nat.le_refl n)
  have hs := h (n+1) (Nat.le_succ n)
  cases t with
  | bool => exact bind_absent (readField_absent hs) (by cases (show Bool from old) <;> rfl)
  | uint8 => exact bind_absent (readField_absent hs) (setWidth_narrow (by omega) _)
  | uint16 => exact bind_absent (readField_absent hn) (setWidth_narrow (by omega) _)
  | uint32 => exact bind_absent (readField_absent hs) (setWidth_narrow (by omega) _)
  | int32 => exact readField_absent hn
  | enum => exact readField_absent hn
  | _ =>
    rw [JceType.read]
    exact readField_absent hs

end Found

/-- The fields `fs` stand at offset `p`, followed by `tail` up to the end of the buffer. -/
def Stands (buf tail : List Byte) (fs : List Field) (p : ℕ) : Prop :=
  ∃ body, writeElems Field.write fs = .ok body ∧ p ≤ buf.length ∧ buf.drop p = body ++ tail

section Search
variable {buf tail : List Byte} {fs : List Field} {f : Field} {p n : ℕ} {tag : BitVec 8}

theorem Stands.cons (h : Stands buf tail (f::fs) p) : ∃ enc rest, f.write = .ok enc ∧
    buf.drop p = enc ++ rest ∧ Stands buf tail fs (p+enc.length) := by
  obtain ⟨body,hbody,hp,hd⟩ := h
  obtain ⟨enc,henc,hrest⟩ := encoded_bind_ok hbody
  obtain ⟨bs,hbs,he⟩ := encoded_bind_ok hrest
  cases he
  have hl := congrArg List.length hd
  simp only [List.length_drop,List.length_append] at hl
  rw [List.append_assoc] at hd
  refine ⟨enc,bs ++ tail,henc,hd,bs,hbs,by omega,?_⟩
  rw [← List.drop_drop,hd,List.drop_left]

theorem Stands.le (h : Stands buf tail fs p) : p ≤ buf.length := h.choose_spec.2.1

/-- The search stops at the first field whose tag is not below the one it looks for. -/
theorem skipToTagLoop_stop (hw : 32 ≤ w) (hbuf : buf.length < 2^31) (hend : Ended tail)
    (h : Stands buf tail fs p) (hfs : ∀ f ∈ fs.head?, tag ≤ f.tag) :
    skipToTagLoop (n+1) tag (readerAt w buf p) =
      .returned (fs.head?.any fun f => f.tag == tag) (readerAt w buf p) := by
  have hlt : buf.length < 2^w := by have hp := two_pow_32_le hw; omega
  rw [skipToTagLoop,Exec.bind_of_returned (hasEnd_readerAt hlt h.le)]
  cases fs with
  | nil =>
    obtain ⟨body,hbody,-,hd⟩ := h
    cases hbody
    have hl := congrArg List.length hd
    cases hend with
    | buffer =>
      have hp : buf.length ≤ p := Nat.le_of_sub_eq_zero (by simpa using hl)
      rw [if_pos (by simpa using hp)]
      rfl
    | struct rest =>
      have hpos := length_writeTo_pos .eStructEnd 0
      simp only [List.length_drop,List.length_append] at hl
      rw [if_neg (by simp; omega),Exec.bind_of_returned (peekFrom_readerAt hw hlt hd)]
      dsimp only
      rw [if_pos (.inr rfl),if_pos rfl]
      rfl
  | cons f fs =>
    obtain ⟨enc,rest,henc,hd,hrest⟩ := h.cons
    have hle := hrest.le
    obtain ⟨type,body,rfl,ht,-⟩ := f.type.isField hw f.value f.tag enc henc (by omega)
    rw [List.append_assoc] at hd
    have hl := congrArg List.length hd
    have hpos := length_writeTo_pos type f.tag
    simp only [List.length_drop,List.length_append] at hl
    rw [if_neg (by simp; omega),Exec.bind_of_returned (peekFrom_readerAt hw hlt hd)]
    dsimp only
    rw [if_pos (.inl (hfs f (by simp))),if_neg ht]
    simp [BEq.comm (a := tag)]

/-- The fields below the tag are passed over. -/
theorem skipToTagLoop_stands (hw : 32 ≤ w) (hbuf : buf.length < 2^31) (hend : Ended tail)
    (h : Stands buf tail fs p) (tag : BitVec 8) :
    ∃ q, p ≤ q ∧ Stands buf tail (fs.dropWhile (·.tag < tag)) q ∧
      ∀ n, 2*(buf.length-p)+5 ≤ n → skipToTagLoop n tag (readerAt w buf p) =
        .returned ((fs.dropWhile (·.tag < tag)).head?.any fun f => f.tag == tag)
          (readerAt w buf q) := by
  induction fs generalizing p with
  | nil =>
    refine ⟨p,Nat.le_refl p,h,fun n hn => ?_⟩
    obtain ⟨n,rfl⟩ : ∃ m, n = m+1 := ⟨n-1,by omega⟩
    exact skipToTagLoop_stop hw hbuf hend h (by simp)
  | cons f fs ih =>
    by_cases hf : f.tag < tag
    · rw [List.dropWhile_cons_of_pos (by simpa using hf)]
      obtain ⟨enc,rest,henc,hd,hrest⟩ := h.cons
      have hle := hrest.le
      obtain ⟨q,hq,hstands,hloop⟩ := ih hrest
      refine ⟨q,by omega,hstands,fun n hn => ?_⟩
      obtain ⟨n,rfl⟩ : ∃ m, n = m+1 := ⟨n-1,by omega⟩
      have hlt : buf.length < 2^w := by have hp := two_pow_32_le hw; omega
      obtain ⟨type,body,rfl,ht,hpass⟩ := f.type.isField hw f.value f.tag enc henc (by omega)
      have hpos := length_writeTo_pos type f.tag
      rw [List.length_append] at hle hloop
      have hskip : (BitVec.ofNat w (DataHead.writeTo type f.tag).length).toNat =
          (DataHead.writeTo type f.tag).length :=
        toNat_small hw ((length_writeTo_le _ _).trans (by omega))
      have hd' := hd
      rw [List.append_assoc] at hd'
      have hbody : buf.drop (p+(DataHead.writeTo type f.tag).length) = body ++ rest := by
        rw [← List.drop_drop,hd',List.drop_left]
      have hfield := hpass n (by omega) buf (p+(DataHead.writeTo type f.tag).length) rest hlt
        (by omega) hbody (Nat.zero_le _)
      rw [skipToTagLoop,Exec.bind_of_returned (hasEnd_readerAt hlt h.le)]
      rw [if_neg (by simp; omega),Exec.bind_of_returned (peekFrom_readerAt hw hlt hd')]
      dsimp only
      rw [if_neg (by simp [ht, BitVec.not_le.mpr hf]),Exec.bind_of_returned (skip_readerAt _)]
      rw [hskip,Exec.bind_of_returned hfield,Nat.add_assoc]
      exact hloop n (by omega)
    · rw [List.dropWhile_cons_of_neg (by simpa using hf)]
      refine ⟨p,Nat.le_refl p,h,fun n hn => ?_⟩
      obtain ⟨n,rfl⟩ : ∃ m, n = m+1 := ⟨n-1,by omega⟩
      exact skipToTagLoop_stop hw hbuf hend h (by simpa using BitVec.not_lt.mp hf)

theorem head_dropWhile_lt (fs : List Field) (tag : BitVec 8) :
    ∀ f ∈ (fs.dropWhile (·.tag < tag)).head?, tag ≤ f.tag := by
  intro f hf
  have h := List.head?_dropWhile_not (fun f : Field => decide (f.tag < tag)) fs
  rw [Option.mem_def.mp hf] at h
  exact BitVec.not_lt.mp (by simpa using h)

/-- The same search with its handler for exceptions; started where it ends, it stays there. -/
theorem skipToTag_stands (hw : 32 ≤ w) (hbuf : buf.length < 2^31) (hend : Ended tail)
    (h : Stands buf tail fs p) (tag : BitVec 8) :
    ∃ q, Stands buf tail (fs.dropWhile (·.tag < tag)) q ∧ ∀ n, 2*buf.length+6 ≤ n →
      skipToTag n tag (readerAt w buf p) = skipToTag n tag (readerAt w buf q) ∧
      skipToTag n tag (readerAt w buf q) =
        .returned ((fs.dropWhile (·.tag < tag)).head?.any fun f => f.tag == tag)
          (readerAt w buf q) := by
  obtain ⟨q,-,hq,hloop⟩ := skipToTagLoop_stands hw hbuf hend h tag
  refine ⟨q,hq,fun n hn => ?_⟩
  obtain ⟨n,rfl⟩ : ∃ m, n = m+2 := ⟨n-2,by omega⟩
  have hstop := skipToTagLoop_stop (n := n) hw hbuf hend hq (head_dropWhile_lt fs tag)
  have hfrom := hloop (n+1) (by omega)
  constructor
  · rw [skipToTag,Exec.catchIf,Exec.catchIf,hfrom,hstop]
  · rw [skipToTag,Exec.catchIf,hstop]

end Search

section Lookup
variable {fs : List Field} {tag tag' : BitVec 8}

/-- A field under the tag is the first one that is not below it. -/
theorem find_eq_head (h : Ascending fs) (tag : BitVec 8) :
    fs.find? (fun f => f.tag == tag) =
      (fs.dropWhile (·.tag < tag)).head?.filter fun f => f.tag == tag := by
  induction fs with
  | nil => rfl
  | cons f fs ih =>
    by_cases hf : f.tag < tag
    · have hne : (f.tag == tag) = false := by
        rw [beq_eq_false_iff_ne]
        exact fun he => absurd hf (by simp [he])
      rw [List.find?_cons_of_neg (by simp [hne]),List.dropWhile_cons_of_pos (by simpa using hf)]
      exact ih h.of_cons
    · rw [List.dropWhile_cons_of_neg (by simpa using hf),List.head?_cons]
      by_cases he : f.tag = tag
      · rw [List.find?_cons_of_pos (by simpa using he),Option.filter_some,if_pos (by simpa using he)]
      · rw [List.find?_cons_of_neg (by simpa using he),Option.filter_some,if_neg (by simpa using he)]
        refine List.find?_eq_none.mpr fun g hg hgt => ?_
        have hlt : f.tag < g.tag := (List.pairwise_cons.mp h).1 g hg
        rw [beq_iff_eq.mp hgt] at hlt
        exact hf hlt

theorem dropWhile_le (h : Ascending fs) (tag : BitVec 8) :
    fs.dropWhile (·.tag ≤ tag) = (fs.dropWhile (·.tag < tag)).dropWhile (·.tag ≤ tag) := by
  induction fs with
  | nil => rfl
  | cons f fs ih =>
    by_cases hf : f.tag < tag
    · rw [List.dropWhile_cons_of_pos (by simpa using BitVec.le_of_lt hf),
        List.dropWhile_cons_of_pos (by simpa using hf)]
      exact ih h.of_cons
    · rw [List.dropWhile_cons_of_neg (p := fun f : Field => decide (f.tag < tag)) (by simpa using hf)]

/-- Fields up to a smaller tag do not matter to a later lookup. -/
theorem find_dropWhile (htag : tag < tag') :
    (fs.dropWhile (·.tag ≤ tag)).find? (fun f => f.tag == tag') =
      fs.find? (fun f => f.tag == tag') := by
  induction fs with
  | nil => rfl
  | cons f fs ih =>
    by_cases hf : f.tag ≤ tag
    · have hne : f.tag ≠ tag' := by
        rintro rfl
        exact absurd htag (BitVec.not_lt.mpr hf)
      rw [List.dropWhile_cons_of_pos (by simpa using hf),List.find?_cons_of_neg (by simpa using hne)]
      exact ih
    · rw [List.dropWhile_cons_of_neg (by simpa using hf)]

end Lookup

section Reading
variable {E : Env} {buf tail : List Byte} {fs asked : List Field} {p : ℕ}

theorem Field.read_absent {a : Field} {r s : BufferReader w} {n₀ : ℕ}
    (h : ∀ m, n₀ ≤ m → skipToTag m a.tag r = .returned false s) (n : ℕ) (hn : n₀+1 ≤ n) :
    a.read E n r = .returned a.unread s := by
  obtain ⟨n,rfl⟩ : ∃ m, n = m+1 := ⟨n-1,by omega⟩
  exact Exec.bind_of_returned
    (a.type.read_absent E (fun m hm => h m (by omega)) a.value)

theorem Field.read_found {a g : Field} {enc rest : List Byte} {q n₀ : ℕ} (hw : 32 ≤ w)
    (h : ∀ m, n₀ ≤ m → skipToTag m a.tag (readerAt w buf p) = skipToTag m a.tag (readerAt w buf q))
    (hbuf : buf.length < 2^31) (hq : q ≤ buf.length) (hd : buf.drop q = enc ++ rest)
    (henc : g.write = .ok enc) (hg : g.Valid E) (htag : g.tag = a.tag) (htype : g.type = a.type)
    (n : ℕ) (hn : n₀+3 ≤ n) :
    a.read E n (readerAt w buf p) = .returned g (readerAt w buf (q+enc.length)) := by
  obtain ⟨n,rfl⟩ : ∃ m, n = m+3 := ⟨n-3,by omega⟩
  obtain ⟨tag,t,old⟩ := a
  obtain ⟨tag',t',v⟩ := g
  dsimp only at htag htype h
  subst htag htype
  have hlt : buf.length < 2^w := by have hp := two_pow_32_le hw; omega
  have hl := congrArg List.length hd
  simp only [List.length_drop,List.length_append] at hl
  have hread := (t'.roundTrips E hw n v hg tag' false enc henc (by omega)).2 old buf q rest hlt hq
    hd (Nat.zero_le _)
  have hcongr := t'.read_congr E (n := n+2) (fun m hm => h m (by omega)) old false
  exact Exec.bind_of_returned (hcongr.trans hread)

/-- One read takes the written value or leaves the variable, and goes past its tag. -/
theorem Field.read_stands {a : Field} (hw : 32 ≤ w) (hbuf : buf.length < 2^31)
    (hend : Ended tail) (h : Stands buf tail fs p) (hasc : Ascending fs)
    (hv : ∀ f ∈ fs, f.Valid E) (ht : ∀ f ∈ fs, f.tag = a.tag → f.type = a.type) :
    ∃ q, Stands buf tail (fs.dropWhile (·.tag ≤ a.tag)) q ∧
      ∀ n, 2*buf.length+9 ≤ n → a.read E n (readerAt w buf p) =
        .returned (obtained fs a) (readerAt w buf q) := by
  obtain ⟨q,hq,hskip⟩ := skipToTag_stands hw hbuf hend h a.tag
  rw [obtained,find_eq_head hasc,dropWhile_le hasc]
  have hhead := head_dropWhile_lt fs a.tag
  have hsub := List.dropWhile_sublist (l := fs) fun f : Field => decide (f.tag < a.tag)
  generalize fs.dropWhile (·.tag < a.tag) = rest at hq hskip hhead hsub ⊢
  cases rest with
  | nil =>
    refine ⟨q,hq,fun n hn => ?_⟩
    exact Field.read_absent (fun m hm => (hskip m hm).1.trans (hskip m hm).2) n (by omega)
  | cons g gs =>
    have hle : a.tag ≤ g.tag := hhead g (by simp)
    by_cases htag : g.tag = a.tag
    · have hasc' : Ascending (g::gs) := hasc.sublist hsub
      have hgs : gs.dropWhile (·.tag ≤ a.tag) = gs := by
        cases gs with
        | nil => rfl
        | cons b gs =>
          have hlt := (List.pairwise_cons.mp hasc').1 b (by simp)
          rw [htag] at hlt
          exact List.dropWhile_cons_of_neg (by simpa using hlt)
      obtain ⟨enc,rest,henc,hd,hrest⟩ := hq.cons
      have hmem := hsub.subset (List.mem_cons_self (a := g) (l := gs))
      rw [List.dropWhile_cons_of_pos (by simp [htag]),hgs,List.head?_cons,Option.filter_some,
        if_pos (by simp [htag])]
      refine ⟨q+enc.length,hrest,fun n hn => ?_⟩
      exact Field.read_found hw (fun m hm => (hskip m hm).1) hbuf hq.le hd henc (hv g hmem) htag
        (ht g hmem htag) n (by omega)
    · have hlt : a.tag < g.tag := BitVec.lt_of_le_ne hle fun he => htag he.symm
      rw [List.dropWhile_cons_of_neg (by simpa using hlt),List.head?_cons,Option.filter_some,
        if_neg (by simpa using htag)]
      refine ⟨q,hq,fun n hn => ?_⟩
      refine Field.read_absent (fun m hm => (hskip m hm).1.trans ?_) n (by omega)
      rw [(hskip m hm).2]
      simp [htag]

/-- All reads in turn, and what is left for the end of the struct. -/
theorem read_all (hw : 32 ≤ w) (hbuf : buf.length < 2^31) (hend : Ended tail)
    (h : Stands buf tail fs p) (hfs : Ascending fs) (hasked : Ascending asked)
    (hv : ∀ f ∈ fs, f.Valid E) (ht : SameTypes fs asked) :
    ∃ q rest, Stands buf tail rest q ∧ ∀ n, 2*buf.length+9 ≤ n →
      readElems (Field.read E n) asked (readerAt w buf p) =
        .returned (asked.map (obtained fs)) (readerAt w buf q) := by
  induction asked generalizing fs p with
  | nil => exact ⟨p,fs,h,fun n _ => rfl⟩
  | cons a as ih =>
    obtain ⟨q,hq,hread⟩ := Field.read_stands hw hbuf hend h hfs hv
      fun f hf => ht f hf a (by simp)
    have hsub := List.dropWhile_sublist (l := fs) fun f : Field => decide (f.tag ≤ a.tag)
    obtain ⟨q',rest,hq',hreads⟩ := ih hq (hfs.sublist hsub) hasked.of_cons
      (fun f hf => hv f (hsub.subset hf)) fun f hf b hb => ht f (hsub.subset hf) b (by simp [hb])
    have hmap : as.map (obtained (fs.dropWhile (·.tag ≤ a.tag))) = as.map (obtained fs) := by
      refine List.map_congr_left fun b hb => ?_
      have hlt : a.tag < b.tag := (List.pairwise_cons.mp hasked).1 b hb
      rw [obtained,find_dropWhile hlt]
      rfl
    refine ⟨q',rest,hq',fun n hn => ?_⟩
    rw [readElems,Exec.bind_of_returned (hread n hn),Exec.bind_of_returned (hreads n hn),hmap]
    rfl

/-- The fields that are left and the end of the struct are passed over. -/
theorem skipToStructEnd_stands {rest : List Byte} {q : ℕ} (hw : 32 ≤ w)
    (hbuf : buf.length < 2^31) (h : Stands buf (DataHead.writeTo .eStructEnd 0 ++ rest) fs q)
    (n : ℕ) (hn : 2*buf.length+9 ≤ n) : skipToStructEnd n (readerAt w buf q) =
      .returned () (readerAt w buf (buf.length-rest.length)) := by
  obtain ⟨body,hbody,hq,hd⟩ := h
  have hlt : buf.length < 2^w := by have hp := two_pow_32_le hw; omega
  have hl := congrArg List.length hd
  simp only [List.length_drop,List.length_append] at hl
  have hseq : FieldSeq w fs.length body := writeElems_seq hbody fun f _ enc henc hle =>
    ⟨f.tag,f.type.isField hw f.value f.tag enc henc (by omega)⟩
  rw [← List.append_assoc] at hd
  rw [hseq.skipToStructEnd hw (by omega) buf q rest hlt hq hd (Nat.zero_le _)]
  rw [List.length_append]
  congr 2
  omega

end Reading

/-- Wherever the fields stand, every variable asked for ends up with what it is to hold,
and the end of the struct is found. -/
def Evolves (w : ℕ) (E : Env) (written asked : List Field) : Prop :=
  ∀ pre body tail, writeElems Field.write written = .ok body → Ended tail →
    (pre ++ body ++ tail).length < 2^31 → ∃ n₀ r,
      (∀ n, n₀ ≤ n → readElems (Field.read E n) asked
        (readerAt w (pre ++ body ++ tail) pre.length) =
          .returned (asked.map (expected written)) r) ∧
      ∀ rest, tail = DataHead.writeTo .eStructEnd 0 ++ rest → ∀ n, n₀ ≤ n →
        skipToStructEnd n r = .returned () (readerAt w (pre ++ body ++ tail)
          (pre.length + body.length + (DataHead.writeTo .eStructEnd 0).length))

section Evolution
variable {E : Env} {written asked : List Field}

/-- Everything but the values of absent enumerations is as it is to be. -/
theorem evolves_iff_obtained (hw : 32 ≤ w) (hwritten : Ascending written)
    (hasked : Ascending asked) (hv : ∀ f ∈ written, f.Valid E) (ht : SameTypes written asked)
    (hsmall : ∀ body, writeElems Field.write written = .ok body → body.length < 2^31) :
    Evolves w E written asked ↔ asked.map (obtained written) = asked.map (expected written) := by
  have hreads : ∀ pre body tail, writeElems Field.write written = .ok body → Ended tail →
      (pre ++ body ++ tail).length < 2^31 → ∃ q rest, Stands (pre ++ body ++ tail) tail rest q ∧
        ∀ n, 2*(pre ++ body ++ tail).length+9 ≤ n → readElems (Field.read E n) asked
          (readerAt w (pre ++ body ++ tail) pre.length) =
            .returned (asked.map (obtained written)) (readerAt w (pre ++ body ++ tail) q) := by
    intro pre body tail hbody hend hbuf
    refine read_all hw hbuf hend ⟨body,hbody,?_,?_⟩ hwritten hasked hv ht
    · simp only [List.length_append]
      omega
    · rw [List.append_assoc,List.drop_left]
  constructor
  · intro h
    have hok : ∀ f ∈ written, ∃ enc, f.write = .ok enc :=
      fun f hf => f.type.write_ok E f.value (hv f hf) f.tag
    obtain ⟨body,hbody⟩ := writeElems_ok hok
    have hbuf : (([] : List Byte) ++ body ++ []).length < 2^31 := by simpa using hsmall body hbody
    obtain ⟨n₀,r,hread,-⟩ := h [] body [] hbody .buffer hbuf
    obtain ⟨q,rest,-,hall⟩ := hreads [] body [] hbody .buffer hbuf
    let n := max n₀ (2*(([] : List Byte) ++ body ++ []).length+9)
    have heq := (hall n (Nat.le_max_right _ _)).symm.trans (hread n (Nat.le_max_left _ _))
    injection heq
  · intro h pre body tail hbody hend hbuf
    obtain ⟨q,rest,hq,hall⟩ := hreads pre body tail hbody hend hbuf
    refine ⟨_,_,fun n hn => (hall n hn).trans (by rw [h]),?_⟩
    rintro others rfl n hn
    rw [skipToStructEnd_stands hw hbuf hq n hn]
    congr 2
    simp only [List.length_append]
    omega

theorem unread_eq_iff (a : Field) :
    a.unread = a ↔ ∀ v : BitVec 32, a = ⟨a.tag,.enum,v⟩ → v = 0 := by
  obtain ⟨tag,t,v⟩ := a
  cases t with
  | enum =>
    constructor
    · intro h u hu
      injection hu with _ _ hu
      injection h with _ _ h
      exact hu.symm.trans h.symm
    · intro h
      rw [show v = (0 : BitVec 32) from h v rfl]
      rfl
  | _ => exact ⟨fun _ u hu => (by injection hu with _ hu; cases hu),fun _ => rfl⟩

theorem obtained_eq_iff (a : Field) : obtained written a = expected written a ↔
    ((∀ f ∈ written, f.tag ≠ a.tag) → a.unread = a) := by
  unfold obtained expected
  by_cases h : ∀ f ∈ written, f.tag ≠ a.tag
  · rw [List.find?_eq_none.mpr fun f hf => by simpa using h f hf]
    exact ⟨fun he _ => he,fun he => he h⟩
  · have hsome : (written.find? fun f => f.tag == a.tag) ≠ none := by
      simpa [List.find?_eq_none] using h
    obtain ⟨f,hf⟩ := Option.ne_none_iff_exists'.mp hsome
    simp [hf, h]

/-- Reading by tag is right for exactly the variables of enumeration type that hold zero
before a read that does not find them. -/
theorem evolves_iff (hw : 32 ≤ w) (hwritten : Ascending written) (hasked : Ascending asked)
    (hv : ∀ f ∈ written, f.Valid E) (ht : SameTypes written asked)
    (hsmall : ∀ body, writeElems Field.write written = .ok body → body.length < 2^31) :
    Evolves w E written asked ↔ ∀ (tag : BitVec 8) (v : BitVec 32), ⟨tag,.enum,v⟩ ∈ asked →
      (∀ f ∈ written, f.tag ≠ tag) → v = 0 := by
  rw [evolves_iff_obtained hw hwritten hasked hv ht hsmall,List.map_inj_left]
  constructor
  · intro h tag v hmem habsent
    have ha := (obtained_eq_iff _).mp (h _ hmem) habsent
    exact (unread_eq_iff _).mp ha v rfl
  · intro h a ha
    refine (obtained_eq_iff a).mpr fun habsent => (unread_eq_iff a).mpr fun v hav => ?_
    exact h a.tag v (hav ▸ ha) habsent

end Evolution

/-- One number, under tag 0. -/
def sampleWritten : List Field := [⟨0,.int32,(5 : BitVec 32)⟩]

theorem sampleWritten_valid : ∀ f ∈ sampleWritten, f.Valid Env.plain := by
  intro f hf
  obtain rfl := List.mem_singleton.mp hf
  exact trivial

theorem sampleWritten_small (body : List Byte)
    (h : writeElems Field.write sampleWritten = .ok body) : body.length < 2^31 := by
  cases h
  decide

/-- A zero under tag 1 and a string under tag 4 that the written fields lack. -/
def sampleAsked : List Field :=
  [⟨0,.int32,(9 : BitVec 32)⟩,⟨1,.enum,(0 : BitVec 32)⟩,⟨4,.string,([65] : List Byte)⟩]

theorem sampleAsked_ascending : Ascending sampleAsked := by
  refine .cons (fun a ha => ?_) (.cons (fun a ha => ?_) (.cons (fun a ha => by cases ha) .nil))
  · simp only [List.mem_cons,List.not_mem_nil,or_false] at ha
    obtain rfl | rfl := ha <;> decide
  · obtain rfl := List.mem_singleton.mp ha
    decide

theorem sampleAsked_types : SameTypes sampleWritten sampleAsked := by
  intro f hf a ha htag
  obtain rfl := List.mem_singleton.mp hf
  simp only [sampleAsked,List.mem_cons,List.not_mem_nil,or_false] at ha
  obtain rfl | rfl | rfl := ha
  · rfl
  · simp at htag
  · simp at htag

theorem evolves_sample : Evolves 32 Env.plain sampleWritten sampleAsked := by
  refine (evolves_iff (by omega) (List.pairwise_singleton _ _) sampleAsked_ascending
    sampleWritten_valid sampleAsked_types sampleWritten_small).mpr fun tag v hmem _ => ?_
  simp only [sampleAsked,List.mem_cons,List.not_mem_nil,or_false] at hmem
  obtain h | h | h := hmem
  · injection h with _ h
    cases h
  · injection h
  · injection h with _ h
    cases h

/-- An enumeration that is not in the buffer loses the value it held. -/
theorem not_evolves_absent_enum : ∃ asked, Ascending asked ∧ SameTypes sampleWritten asked ∧
    Ascending sampleWritten ∧ (∀ f ∈ sampleWritten, f.Valid Env.plain) ∧
    ¬ Evolves 32 Env.plain sampleWritten asked := by
  have ht : SameTypes sampleWritten [⟨1,.enum,(7 : BitVec 32)⟩] := by
    intro f hf a ha htag
    obtain rfl := List.mem_singleton.mp hf
    obtain rfl := List.mem_singleton.mp ha
    simp at htag
  refine ⟨[⟨1,.enum,(7 : BitVec 32)⟩],List.pairwise_singleton _ _,ht,List.pairwise_singleton _ _,
    sampleWritten_valid,fun h => ?_⟩
  have heq := (evolves_iff_obtained (by omega) (List.pairwise_singleton _ _)
    (List.pairwise_singleton _ _) sampleWritten_valid ht sampleWritten_small).mp h
  injection heq with heq
  injection heq with _ _ heq
  exact absurd (show (0 : BitVec 32) = 7 from heq) (by decide)

end UninstallObserver.Jce
