import UninstallObserver.Jce.TypedReads

/-! What the typed reads accept, as parsers of the bytes that are left. -/
namespace UninstallObserver.Jce
open Imperative ByteOrder BufferReader

variable {w n k : ℕ} {α β : Type} {tag : BitVec 8}

/-- A parser of the bytes that are left. -/
abbrev Parser := StateT (List Byte) Option

namespace Parser

def bytes (k : ℕ) : Parser (List Byte) := fun bs =>
  if k ≤ bs.length then some (bs.take k,bs.drop k) else none

/-- A word of `k` bytes. -/
def word (k v : ℕ) : Parser (BitVec v) := load v <$> bytes k

/-- The rest of a head after its first byte. -/
def headFrom (h : Byte) : Parser DataHead := fun bs =>
  if DataHead.helperTag h = 15 then
    match bs with
    | [] => none
    | tag::bs => some (⟨DataHead.helperType h,tag⟩,bs)
  else some (⟨DataHead.helperType h,BitVec.ofNat 8 (DataHead.helperTag h)⟩,bs)

def head : Parser DataHead := fun bs =>
  match bs with
  | [] => none
  | h::bs => headFrom h bs

/-- A head and the body that goes with its type. -/
def field (body : HeadType → Parser α) : Parser α := do
  let h ← head
  body h.type

/-- The bytes begin with a field under tag 0. -/
def startsZero (bs : List Byte) : Bool :=
  match head bs with
  | some (h,_) => h.tag == 0 && h.type != .eStructEnd
  | none => false

/-- A field under tag 0: nothing before it has to be passed over. -/
def zeroField (old : Option α) (body : HeadType → Parser α) : Parser α := fun bs =>
  if startsZero bs then field body bs else old.map fun a => (a,bs)

def int32 : HeadType → Parser (BitVec 32)
  | .eZeroTag => pure 0
  | .eChar => (fun n : BitVec 8 => n.signExtend 32) <$> word 1 8
  | .eShort => (fun n : BitVec 16 => (swap 2 n).signExtend 32) <$> word 2 16
  | .eInt32 => swap 4 <$> word 4 32
  | _ => failure

def int64 : HeadType → Parser (BitVec 64)
  | .eZeroTag => pure 0
  | .eChar => (fun n : BitVec 8 => n.signExtend 64) <$> word 1 8
  | .eShort => (fun n : BitVec 16 => (swap 2 n).signExtend 64) <$> word 2 16
  | .eInt32 => (fun n : BitVec 32 => (swap 4 n).signExtend 64) <$> word 4 32
  | .eInt64 => jceHtonll <$> word 8 64
  | _ => failure

/-- The size of a container in a buffer of `total` bytes. -/
def size (total : ℕ) : Parser (BitVec 32) := do
  let n ← (fun n : BitVec 64 => n.setWidth 32) <$> zeroField none int64
  if total < n.toNat then failure else pure n

def char : HeadType → Parser (BitVec 8)
  | .eZeroTag => pure 0
  | .eChar => word 1 8
  | _ => failure

def string : HeadType → Parser (List Byte)
  | .eString1 => do
    let len ← word 1 8
    bytes len.toNat
  | .eString4 => do
    let len ← word 4 32
    if jceMaxStringLength < (swap 4 len).toNat then failure else bytes (swap 4 len).toNat
  | _ => failure

/-- `k` elements of a list of characters. -/
def chars : ℕ → Parser (List Byte)
  | 0 => pure []
  | k+1 => do
    let c ← zeroField none char
    let cs ← chars k
    pure (c::cs)

/-- A `vector<Char>` in a buffer of `total` bytes. -/
def charVector (total : ℕ) : HeadType → Parser (List Byte)
  | .eSimpleList => do
    let h ← head
    if h.type ≠ .eChar then failure
    else
      let n ← size total
      bytes n.toNat
  | .eList => do
    let n ← size total
    chars n.toNat
  | _ => failure

theorem bind_eq (p : Parser α) (f : α → Parser β) (bs : List Byte) :
    (p >>= f) bs = (p bs).bind fun (a,cs) => f a cs := rfl

theorem bind_eq_some {p : Parser α} {f : α → Parser β} {b : β} {bs cs : List Byte} :
    (p >>= f) bs = some (b,cs) ↔ ∃ a ds, p bs = some (a,ds) ∧ f a ds = some (b,cs) := by
  rw [bind_eq,Option.bind_eq_some_iff]
  simp

theorem map_eq_bind (p : Parser α) (f : α → β) : f <$> p = p >>= fun a => pure (f a) := by
  rw [map_eq_pure_bind]

section Lengths
variable {total : ℕ} {a bs cs : List Byte}

theorem length_of_bytes (h : bytes k bs = some (a,cs)) : a.length = k := by
  unfold bytes at h
  split at h
  · next hk =>
    cases h
    exact List.length_take_of_le hk
  · cases h

/-- A size that was accepted is no larger than the buffer. -/
theorem size_le {x : BitVec 32} (h : size total bs = some (x,cs)) : x.toNat ≤ total := by
  obtain ⟨y,ds,-,h⟩ := bind_eq_some.mp h
  split at h
  · cases h
  · cases h
    omega

theorem length_of_chars (h : chars k bs = some (a,cs)) : a.length = k := by
  induction k generalizing a bs cs with
  | zero =>
    cases h
    rfl
  | succ k ih =>
    obtain ⟨c,ds,-,h⟩ := bind_eq_some.mp h
    obtain ⟨as,es,has,h⟩ := bind_eq_some.mp h
    cases h
    rw [List.length_cons,ih has]

/-- A vector of characters is no longer than the buffer it was read from. -/
theorem length_of_charVector {t : HeadType} (h : charVector total t bs = some (a,cs)) :
    a.length ≤ total := by
  cases t with
  | eSimpleList =>
    obtain ⟨head,ds,-,h⟩ := bind_eq_some.mp h
    split at h
    · cases h
    · obtain ⟨x,es,hx,h⟩ := bind_eq_some.mp h
      rw [length_of_bytes h]
      exact size_le hx
  | eList =>
    obtain ⟨x,es,hx,h⟩ := bind_eq_some.mp h
    rw [length_of_chars h]
    exact size_le hx
  | _ => cases h

end Lengths
end Parser

namespace BufferReader

/-- The bytes from the cursor on. -/
def rest (r : BufferReader w) : List Byte := r.buf.drop r.cur.toNat

end BufferReader

/-- `m` reads what `p` parses, in every buffer of `total` bytes, and throws where `p` fails. -/
def Parses (total : ℕ) (m : Decode w α) (p : Parser α) : Prop :=
  ∀ r, Inside 0 r → r.buf.length = total →
    (∀ a bs, p (rest r) = some (a,bs) →
      ∃ s, m r = .returned a s ∧ rest s = bs ∧ Inside 0 s ∧ s.buf.length = total) ∧
    (p (rest r) = none → ∃ e s, m r = .threw e s)

namespace Parses
variable {total : ℕ} {m m' : Decode w α} {p p' : Parser α} {f : α → Decode w β}
  {g : α → Parser β}

theorem pure (a : α) : Parses total (pure a : Decode w α) (pure a) := by
  refine fun r hr hN => ⟨fun b bs h => ?_,fun h => by cases h⟩
  cases h
  exact ⟨r,rfl,rfl,hr,hN⟩

theorem throw (e : JceException) : Parses total (Exec.throw e : Decode w α) failure :=
  fun r _ _ => ⟨fun _ _ h => (by cases h),fun _ => ⟨e,r,rfl⟩⟩

/-- The rest of a sequence is only run on what its first part parses. -/
theorem bind_of (hm : Parses total m p)
    (hf : ∀ a bs cs, p bs = some (a,cs) → Parses total (f a) (g a)) :
    Parses total (m >>= f) (p >>= g) := by
  intro r hr hN
  obtain ⟨hsome,hnone⟩ := hm r hr hN
  rw [Parser.bind_eq]
  cases hp : p (rest r) with
  | none =>
    obtain ⟨e,s,he⟩ := hnone hp
    exact ⟨fun _ _ h => (by cases h),fun _ => ⟨e,s,Exec.bind_of_threw he⟩⟩
  | some out =>
    obtain ⟨a,cs⟩ := out
    obtain ⟨s,hs,hrest,hin,hN'⟩ := hsome a cs hp
    obtain ⟨hsome',hnone'⟩ := hf a _ cs hp s hin hN'
    rw [hrest] at hsome' hnone'
    refine ⟨fun b bs h => ?_,fun h => ?_⟩
    · obtain ⟨u,hu⟩ := hsome' b bs h
      exact ⟨u,by rw [Exec.bind_of_returned hs]; exact hu.1,hu.2⟩
    · obtain ⟨e,u,hu⟩ := hnone' h
      exact ⟨e,u,by rw [Exec.bind_of_returned hs]; exact hu⟩

theorem bind (hm : Parses total m p) (hf : ∀ a, Parses total (f a) (g a)) :
    Parses total (m >>= f) (p >>= g) := hm.bind_of fun a _ _ _ => hf a

theorem map {h : α → β} (hm : Parses total m p) :
    Parses total (m >>= fun a => Pure.pure (h a)) (h <$> p) := by
  rw [Parser.map_eq_bind]
  exact hm.bind fun a => .pure (h a)

/-- What was returned is what was parsed. -/
theorem of_returned {r s : BufferReader w} {a : α} (hm : Parses total m p) (hr : Inside 0 r)
    (htotal : r.buf.length = total) (h : m r = .returned a s) :
    ∃ bs, p (rest r) = some (a,bs) := by
  obtain ⟨hsome,hnone⟩ := hm r hr htotal
  cases hp : p (rest r) with
  | none =>
    obtain ⟨e,t,he⟩ := hnone hp
    rw [h] at he
    cases he
  | some out =>
    obtain ⟨b,bs⟩ := out
    obtain ⟨t,ht,-⟩ := hsome b bs hp
    rw [h] at ht
    cases ht
    exact ⟨bs,rfl⟩

theorem ite {c : Prop} [Decidable c] (hm : Parses total m p) (hm' : Parses total m' p') :
    Parses total (if c then m else m') (if c then p else p') := by
  split
  · exact hm
  · exact hm'

end Parses

section Primitives
variable {total : ℕ} {r : BufferReader w}

theorem length_rest (hr : Inside 0 r) :
    r.cur.toNat + (rest r).length = r.buf.length := by
  have hc := hr.cur_le
  rw [rest,List.length_drop]
  omega

theorem rest_skip {len : BitVec w} (hr : Inside 0 r) (h : len.toNat ≤ (rest r).length) :
    rest { r with cur := r.cur + len } = (rest r).drop len.toNat := by
  have hl := length_rest hr
  have hb := hr.len ▸ r.bufLen.isLt
  have hc : (r.cur + len).toNat = r.cur.toNat + len.toNat := BitVec.toNat_add_of_lt (by omega)
  rw [rest,rest,List.drop_drop,hc]

theorem skip_rest_inside {len : BitVec w} (hr : Inside 0 r) (h : len.toNat ≤ (rest r).length) :
    Inside 0 { r with cur := r.cur + len } := by
  have hl := length_rest hr
  exact (skip_inside (by omega) hr.toSound).mono (Nat.zero_le _)

theorem parses_readBuf {len : BitVec w} (hw : 0 < w) (hk : len.toNat = k) (hlen : k ≤ 2^(w-1)) :
    Parses total (readBuf len) (Parser.bytes k) := by
  subst hk
  intro r hr hN
  have hl := length_rest hr
  have hzero : r.cur.toNat + (0 : BitVec w).toNat = r.cur.toNat := by simp
  have hlt : r.cur.toNat + (0 : BitVec w).toNat + len.toNat < 2^w :=
    hr.check_lt hw (by simpa using hlen)
  unfold Parser.bytes
  by_cases hfit : len.toNat ≤ (rest r).length
  · rw [if_pos hfit]
    refine ⟨fun bs cs h => ?_,fun h => by cases h⟩
    cases h
    have hpeek : peekBuf len 0 r =
        .returned ((r.buf.drop (r.cur.toNat + (0 : BitVec w).toNat)).take len.toNat) r :=
      peekBuf_of_fits hr.len (by omega)
    rw [hzero] at hpeek
    exact ⟨_,Exec.bind_of_returned hpeek,rest_skip hr hfit,skip_rest_inside hr hfit,hN⟩
  · rw [if_neg hfit]
    refine ⟨fun bs cs h => (by cases h),fun _ => ?_⟩
    obtain ⟨what,he⟩ := peekBuf_of_overflow hr.len hlt (by omega)
    exact ⟨_,r,Exec.bind_of_threw he⟩

/-- A word of at most 32 bits as a `size_t`. -/
theorem toNat_setWidth_word {v : ℕ} (hw : 32 ≤ w) (hv : v ≤ 32) (x : BitVec v) :
    (x.setWidth w).toNat = x.toNat := by
  have hx : x.toNat < 2^w := x.isLt.trans_le (Nat.pow_le_pow_right (by omega) (hv.trans hw))
  rw [BitVec.toNat_setWidth,Nat.mod_eq_of_lt hx]

theorem parses_readByType {v : ℕ} (hw : 32 ≤ w) (hk : k ≤ 8) :
    Parses total (readByType (w := w) k v) (Parser.word k v) := by
  have hh := half_large hw
  have hp := two_pow_32_le hw
  have hlen : (BitVec.ofNat w k).toNat = k := by
    rw [BitVec.toNat_ofNat,Nat.mod_eq_of_lt (by omega)]
  exact (parses_readBuf (by omega) hlen (by omega)).map

theorem peekByte_of_drop {offset : BitVec w} {b : Byte} {bs : List Byte} (hw : 32 ≤ w)
    (hr : Inside 0 r) (h : (rest r).drop offset.toNat = b::bs) :
    DataHead.peekByte offset r = .returned b r := by
  have hl := length_rest hr
  have hone := toNat_one hw
  have hlen := congrArg List.length h
  rw [List.length_drop,List.length_cons] at hlen
  rw [rest,List.drop_drop] at h
  have hpeek : peekBuf 1 offset r =
      .returned ((r.buf.drop (r.cur.toNat + offset.toNat)).take (1 : BitVec w).toNat) r :=
    peekBuf_of_fits hr.len (by omega)
  rw [h,hone] at hpeek
  exact Exec.bind_of_returned hpeek

theorem peekByte_of_length_le {offset : BitVec w} (hw : 32 ≤ w) (ho : offset.toNat ≤ 1)
    (hr : Inside 0 r) (h : (rest r).length ≤ offset.toNat) :
    ∃ what, DataHead.peekByte offset r = .threw (.jceDecodeException what) r := by
  have hl := length_rest hr
  have hone := toNat_one hw
  have hh := half_large hw
  have hlt : r.cur.toNat + offset.toNat + (1 : BitVec w).toNat < 2^w :=
    hr.check_lt (by omega) (by omega)
  obtain ⟨what,he⟩ := peekBuf_of_overflow hr.len hlt (by omega)
  exact ⟨what,Exec.bind_of_threw he⟩

theorem peekFrom_of_head {h : DataHead} {bs : List Byte} (hw : 32 ≤ w) (hr : Inside 0 r)
    (hp : Parser.head (rest r) = some (h,bs)) : ∃ len, DataHead.peekFrom r = .returned (h,len) r ∧
      len.toNat ≤ (rest r).length ∧ (rest r).drop len.toNat = bs := by
  cases hrest : rest r with
  | nil => rw [hrest] at hp; cases hp
  | cons b cs =>
    have hb : DataHead.peekByte 0 r = .returned b r := peekByte_of_drop hw hr (by simpa using hrest)
    rw [hrest] at hp
    change Parser.headFrom b cs = _ at hp
    unfold Parser.headFrom at hp
    unfold DataHead.peekFrom
    rw [Exec.bind_of_returned hb]
    by_cases htag : DataHead.helperTag b = 15
    · rw [if_pos htag] at hp
      cases cs with
      | nil => cases hp
      | cons tag cs =>
        cases hp
        have ht : DataHead.peekByte 1 r = .returned tag r := by
          have hdrop : (rest r).drop (1 : BitVec w).toNat = tag::bs := by
            rw [toNat_one hw,hrest]
            rfl
          exact peekByte_of_drop hw hr hdrop
        refine ⟨2,?_,by rw [toNat_two hw]; simp,by rw [toNat_two hw]; rfl⟩
        rw [if_pos htag,Exec.bind_of_returned ht]
        rfl
    · rw [if_neg htag] at hp
      cases hp
      refine ⟨1,?_,by rw [toNat_one hw]; simp,by rw [toNat_one hw]; rfl⟩
      rw [if_neg htag]
      rfl

theorem peekFrom_of_no_head (hw : 32 ≤ w) (hr : Inside 0 r) (hp : Parser.head (rest r) = none) :
    ∃ what, DataHead.peekFrom r = .threw (.jceDecodeException what) r := by
  cases hrest : rest r with
  | nil =>
    have he : ∃ what, DataHead.peekByte 0 r = .threw (.jceDecodeException what) r :=
      peekByte_of_length_le hw (by simp) hr (by simp [hrest])
    exact he.imp fun _ he => Exec.bind_of_threw he
  | cons b cs =>
    have hb : DataHead.peekByte 0 r = .returned b r := peekByte_of_drop hw hr (by simpa using hrest)
    rw [hrest] at hp
    change Parser.headFrom b cs = _ at hp
    unfold Parser.headFrom at hp
    by_cases htag : DataHead.helperTag b = 15
    · rw [if_pos htag] at hp
      cases cs with
      | cons tag cs => cases hp
      | nil =>
        have hone := toNat_one hw
        have he : ∃ what, DataHead.peekByte 1 r = .threw (.jceDecodeException what) r :=
          peekByte_of_length_le hw hone.le hr (by rw [hone,hrest]; simp)
        refine he.imp fun what he => ?_
        unfold DataHead.peekFrom
        rw [Exec.bind_of_returned hb,if_pos htag]
        exact Exec.bind_of_threw he
    · rw [if_neg htag] at hp
      cases hp

theorem parses_readFrom (hw : 32 ≤ w) :
    Parses total (DataHead.readFrom (w := w)) Parser.head := by
  intro r hr hN
  refine ⟨fun h bs hp => ?_,fun hp => ?_⟩
  · obtain ⟨len,hpeek,hle,hdrop⟩ := peekFrom_of_head hw hr hp
    refine ⟨_,Exec.bind_of_returned hpeek,?_,skip_rest_inside hr hle,hN⟩
    rw [← hdrop]
    exact rest_skip hr hle
  · obtain ⟨what,he⟩ := peekFrom_of_no_head hw hr hp
    exact ⟨_,r,Exec.bind_of_threw he⟩

end Primitives

section Fields
variable {total : ℕ} {r : BufferReader w}

/-- The search for tag 0 looks at one head. -/
theorem skipToTag_zero_eq (hw : 32 ≤ w) (hr : Inside 0 r) :
    skipToTag (n+2) 0 r = .returned (Parser.startsZero (rest r)) r := by
  have hl := length_rest hr
  have hloop : ∀ {found}, skipToTagLoop (n+1) 0 r = .returned found r →
      skipToTag (n+2) 0 r = .returned found r := by
    intro found h
    rw [skipToTag,Exec.catchIf,h]
  have hmore : r.bufLen ≤ r.cur ↔ rest r = [] := by
    rw [BitVec.le_def,hr.len,← List.length_eq_zero_iff]
    omega
  unfold Parser.startsZero
  by_cases hend : r.bufLen ≤ r.cur
  · rw [hmore.mp hend]
    apply hloop
    rw [skipToTagLoop,Exec.bind_of_returned (show hasEnd r = .returned true r by simp [hasEnd, hend])]
    rfl
  · have hbegin : hasEnd r = .returned false r := by simp [hasEnd, hend]
    cases hp : Parser.head (rest r) with
    | none =>
      obtain ⟨what,he⟩ := peekFrom_of_no_head hw hr hp
      have hthrew : skipToTagLoop (n+1) 0 r = .threw (.jceDecodeException what) r := by
        rw [skipToTagLoop,Exec.bind_of_returned hbegin]
        exact Exec.bind_of_threw he
      rw [skipToTag,Exec.catchIf,hthrew]
      rfl
    | some out =>
      obtain ⟨h,bs⟩ := out
      obtain ⟨len,hpeek,-,-⟩ := peekFrom_of_head hw hr hp
      apply hloop
      rw [skipToTagLoop,Exec.bind_of_returned hbegin,if_neg (by simp),Exec.bind_of_returned hpeek]
      dsimp only
      rw [if_pos (.inl (by simp [BitVec.le_def]))]
      by_cases hs : h.type = .eStructEnd
      · simp [hs]
      · simp [hs, BEq.comm]

theorem parses_field {body : HeadType → Parser α} {g : HeadType → Decode w α} (hw : 32 ≤ w)
    (h : ∀ t, Parses total (g t) (body t)) :
    Parses total (DataHead.readFrom >>= fun h => g h.type) (Parser.field body) :=
  (parses_readFrom hw).bind fun head => h head.type

theorem parses_readField_zero {body : HeadType → Parser α} {g : HeadType → Decode w α}
    {isRequire : Bool} {missing : String} {old : α} (hw : 32 ≤ w)
    (h : ∀ t, Parses total (g t) (body t)) :
    Parses total (readField (skipToTag (n+2) 0) isRequire missing old g)
      (Parser.zeroField (if isRequire then none else some old) body) := by
  intro r hr hN
  unfold Parser.zeroField
  rw [readField,Exec.bind_of_returned (skipToTag_zero_eq hw hr)]
  by_cases hs : Parser.startsZero (rest r)
  · rw [if_pos hs,if_pos hs]
    exact parses_field hw h r hr hN
  · rw [if_neg hs,if_neg hs]
    cases isRequire with
    | true => exact Parses.throw _ r hr hN
    | false => exact Parses.pure old r hr hN

theorem parses_int32Switch (hw : 32 ≤ w) (t : HeadType) :
    Parses total (int32Switch (w := w) tag t) (Parser.int32 t) := by
  cases t with
  | eZeroTag => exact .pure _
  | eChar => exact (parses_readByType hw (by omega)).map
  | eShort => exact (parses_readByType hw (by omega)).map
  | eInt32 => exact (parses_readByType hw (by omega)).map
  | _ => exact .throw _

theorem parses_stringSwitch (hw : 32 ≤ w) (t : HeadType) :
    Parses total (stringSwitch (w := w) tag t) (Parser.string t) := by
  have hh := half_large hw
  cases t with
  | eString1 =>
    refine (parses_readByType hw (by omega)).bind fun len => ?_
    have hlt := len.isLt
    exact parses_readBuf (by omega) (toNat_setWidth_word hw (by omega) len) (by omega)
  | eString4 =>
    refine (parses_readByType hw (by omega)).bind fun len => ?_
    dsimp only
    by_cases hmax : jceMaxStringLength < (swap 4 len).toNat
    · rw [if_pos hmax,if_pos hmax]
      exact .throw _
    · rw [if_neg hmax,if_neg hmax]
      unfold jceMaxStringLength at hmax
      exact parses_readBuf (by omega) (toNat_setWidth_word hw (by omega) _) (by omega)
  | _ => exact .throw _

theorem parses_int64 (hw : 32 ≤ w) : Parses total (readInt64 (w := w) (n+3) 0 0 true)
    (Parser.zeroField none Parser.int64) := by
  refine parses_readField_zero hw fun t => ?_
  cases t with
  | eZeroTag => exact .pure _
  | eChar => exact (parses_readByType hw (by omega)).map
  | eShort => exact (parses_readByType hw (by omega)).map
  | eInt32 => exact (parses_readByType hw (by omega)).map
  | eInt64 => exact (parses_readByType hw (by omega)).map
  | _ => exact .throw _

theorem parses_readSize {invalid : BitVec 32 → String} (hw : 32 ≤ w) :
    Parses total (readSize (w := w) (n+3) invalid) (Parser.size total) := by
  refine (parses_int64 hw).map.bind fun x r hr hN => ?_
  have hx : (x.setWidth w).toNat = x.toNat := toNat_setWidth_word hw (by omega) x
  have hiff : r.bufLen < x.setWidth w ↔ total < x.toNat := by
    rw [BitVec.lt_def,hr.len,hN,hx]
  rw [Exec.bind_of_returned (show BufferReader.size r = .returned r.bufLen r from rfl)]
  by_cases h : total < x.toNat
  · rw [if_pos h,if_pos (hiff.mpr h)]
    exact Parses.throw _ r hr hN
  · rw [if_neg h,if_neg (fun hc => h (hiff.mp hc))]
    exact Parses.pure x r hr hN

theorem parses_elems (hw : 32 ≤ w) {v : List Byte} (hk : v.length = k) :
    Parses total (readElems (fun c => readChar (w := w) (n+3) c 0 true) v) (Parser.chars k) := by
  subst hk
  induction v with
  | nil => exact .pure _
  | cons c v ih =>
    refine Parses.bind (parses_readField_zero hw fun t => ?_)
      fun c => ih.bind fun cs => .pure _
    cases t with
    | eZeroTag => exact .pure _
    | eChar => exact parses_readByType hw (by omega)
    | _ => exact .throw _

theorem length_resize (v : List α) (k : ℕ) (a : α) : (resize v k a).length = k := by
  rw [resize,List.length_append,List.length_take,List.length_replicate]
  omega

theorem parses_charVectorSwitch (hw : 32 ≤ w) (htotal : total < 2^(w-1)) (old : List Byte)
    (t : HeadType) :
    Parses total (charVectorSwitch (w := w) (n+3) old tag t) (Parser.charVector total t) := by
  cases t with
  | eSimpleList =>
    refine (parses_readFrom hw).bind fun h => .ite (.throw _) ?_
    refine (parses_readSize hw).bind_of fun x bs cs hx => ?_
    have hle := Parser.size_le hx
    exact parses_readBuf (by omega) (toNat_setWidth_word hw (by omega) x) (by omega)
  | eList =>
    exact (parses_readSize hw).bind fun x => parses_elems hw (length_resize old x.toNat 0)
  | _ => exact .throw _

end Fields

end UninstallObserver.Jce
