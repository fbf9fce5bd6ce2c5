import UninstallObserver.Jce.RoundTrip

/-! Whatever is read, from any bytes, is a value that can be written and read again. -/
namespace UninstallObserver.Jce
open Imperative ByteOrder BufferReader

variable {w n : ℕ} {α κ ν : Type} {tag : BitVec 8} {isRequire : Bool}

/-- Keys are ordered, and what the program builds itself are values of their types. -/
structure Env.Lawful (E : Env) : Prop where
  less_trans : ∀ t a b c, E.less t a b → E.less t b c → E.less t a c
  init : ∀ t, Val.Valid E t (E.init t)
  resetDefautlt : ∀ fs v, Vals.Valid E fs v → Vals.Valid E fs (E.resetDefautlt fs v)

section Readers

theorem yields_readField {P : α → Prop} {found : Decode w Bool} {missing : String} {old : α}
    {switch : HeadType → Decode w α} (hold : P old) (hs : ∀ t, Exec.Yields P (switch t)) :
    Exec.Yields P (readField found isRequire missing old switch) :=
  .after fun _ => .ite (fun _ => .after fun head => hs head.type) fun _ =>
    .ite (fun _ => .throw _) fun _ => .pure hold

theorem yields_readString {old : List Byte} (hold : old.length ≤ jceMaxStringLength) :
    Exec.Yields (fun s => s.length ≤ jceMaxStringLength)
      (readString (w := w) n old tag isRequire) := by
  refine yields_readField hold fun t => ?_
  cases t with
  | eString1 =>
    refine .after fun len => ?_
    intro r bs s hbs
    have hlen := length_of_readBuf hbs
    have hle : (len.setWidth w).toNat ≤ len.toNat := by
      rw [BitVec.toNat_setWidth]
      exact Nat.mod_le _ _
    have hmax := len.isLt
    unfold jceMaxStringLength
    omega
  | eString4 =>
    refine .after fun n => .ite (fun _ => .throw _) fun hlen => ?_
    intro r bs s hbs
    have hle : ((swap 4 n).setWidth w).toNat ≤ (swap 4 n).toNat := by
      rw [BitVec.toNat_setWidth]
      exact Nat.mod_le _ _
    rw [length_of_readBuf hbs]
    omega
  | _ => exact .throw _

theorem yields_readElems {P : α → Prop} {read : α → Decode w α} {v : List α}
    (hv : ∀ a ∈ v, P a) (hread : ∀ a, P a → Exec.Yields P (read a)) :
    Exec.Yields (fun as => ∀ a ∈ as, P a) (readElems read v) := by
  induction v with
  | nil => exact .pure (by simp)
  | cons a v ih =>
    refine .bind (hread a (hv a List.mem_cons_self)) fun b hb => ?_
    refine .bind (ih fun a ha => hv a (List.mem_cons_of_mem _ ha)) fun bs hbs => .pure ?_
    exact List.forall_mem_cons.mpr ⟨hb,hbs⟩

theorem mem_resize {v : List α} {k : ℕ} {init a : α} (h : a ∈ resize v k init) :
    a ∈ v ∨ a = init := by
  rcases List.mem_append.mp h with h | h
  · exact .inl (List.mem_of_mem_take h)
  · exact .inr (List.eq_of_mem_replicate h)

theorem yields_readVector {P : α → Prop} {read : α → Decode w α} {init : α} {old : List α}
    (hold : ∀ a ∈ old, P a) (hinit : P init) (hread : ∀ a, P a → Exec.Yields P (read a)) :
    Exec.Yields (fun as => ∀ a ∈ as, P a) (readVector n read init old tag isRequire) := by
  refine yields_readField hold fun t => ?_
  cases t with
  | eList =>
    refine .after fun size => yields_readElems (fun a ha => ?_) hread
    rcases mem_resize ha with ha | rfl
    · exact hold a ha
    · exact hinit
  | _ => exact .throw _

variable {less : κ → κ → Bool} {P : κ → Prop} {Q : ν → Prop}

/-- The entries of a map, in key order. -/
def Entries (less : κ → κ → Bool) (P : κ → Prop) (Q : ν → Prop) (m : List (κ × ν)) : Prop :=
  m.Pairwise (fun a b => less a.1 b.1) ∧ ∀ e ∈ m, P e.1 ∧ Q e.2

theorem mem_mapInsert {e a : κ × ν} {m : List (κ × ν)} (h : a ∈ mapInsert less e m) :
    a = e ∨ a ∈ m := by
  induction m with
  | nil => exact .inl (List.mem_singleton.mp h)
  | cons b m ih =>
    rw [mapInsert] at h
    split at h
    · rcases List.mem_cons.mp h with rfl | h
      · exact .inr List.mem_cons_self
      · exact (ih h).imp id (List.mem_cons_of_mem b)
    · split at h
      · exact List.mem_cons.mp h
      · exact .inr h

theorem Entries.insert (hless : ∀ a b c, less a b → less b c → less a c) {e : κ × ν}
    {m : List (κ × ν)} (hm : Entries less P Q m) (he : P e.1 ∧ Q e.2) :
    Entries less P Q (mapInsert less e m) := by
  refine ⟨?_,fun a ha => ?_⟩
  · have hord := hm.1
    clear hm
    induction m with
    | nil => exact List.pairwise_singleton _ _
    | cons b m ih =>
      obtain ⟨hb,hrest⟩ := List.pairwise_cons.mp hord
      rw [mapInsert]
      split
      · next hbe =>
        refine List.pairwise_cons.mpr ⟨fun a ha => ?_,ih hrest⟩
        rcases mem_mapInsert ha with rfl | ha
        · exact hbe
        · exact hb a ha
      · split
        · next heb =>
          refine List.pairwise_cons.mpr ⟨fun a ha => ?_,hord⟩
          rcases List.mem_cons.mp ha with rfl | ha
          · exact heb
          · exact hless _ _ _ heb (hb a ha)
        · exact hord
  · rcases mem_mapInsert ha with rfl | ha
    · exact he
    · exact hm.2 a ha

theorem yields_readEntries {readKey : Decode w κ} {readValue : Decode w ν}
    (hless : ∀ a b c, less a b → less b c → less a c) (hkey : Exec.Yields P readKey)
    (hvalue : Exec.Yields Q readValue) (k : ℕ) {m : List (κ × ν)} (hm : Entries less P Q m) :
    Exec.Yields (Entries less P Q) (readEntries less readKey readValue k m) := by
  induction k generalizing m with
  | zero => exact .pure hm
  | succ k ih =>
    exact .bind hkey fun a ha => .bind hvalue fun b hb => ih (hm.insert hless ⟨ha,hb⟩)

theorem yields_readMap {readKey : Decode w κ} {readValue : Decode w ν} {old : List (κ × ν)}
    (hless : ∀ a b c, less a b → less b c → less a c) (hkey : Exec.Yields P readKey)
    (hvalue : Exec.Yields Q readValue) (hold : Entries less P Q old) :
    Exec.Yields (Entries less P Q) (readMap n less readKey readValue old tag isRequire) := by
  refine yields_readField hold fun t => ?_
  cases t with
  | eMap =>
    refine .after fun size => yields_readEntries hless hkey hvalue _ ⟨.nil,?_⟩
    simp
  | _ => exact .throw _

theorem yields_readStruct {P : α → Prop} {readFrom : α → Decode w α} {old : α} (hold : P old)
    (hread : ∀ a, P a → Exec.Yields P (readFrom a)) :
    Exec.Yields P (readStruct n readFrom old tag isRequire) := by
  refine yields_readField hold fun t => ?_
  cases t with
  | eStructBegin => exact .bind (hread old hold) fun a ha => .after fun _ => .pure ha
  | _ => exact .throw _

end Readers

mutual

/-- Whatever a read takes bytes for is a value of its type. -/
theorem JceType.read_valid {E : Env} (hE : E.Lawful) (n : ℕ) : (t : JceType) → (old : Val t) →
    Val.Valid E t old → ∀ tag isRequire,
      Exec.Yields (Val.Valid E t) (t.read (w := w) E n old tag isRequire)
  | .string, _, hold, _, _ => yields_readString hold
  | .vector t, _, hold, _, _ =>
    yields_readVector hold (hE.init t) fun a ha => t.read_valid hE n a ha 0 true
  | .map k v, _, hold, _, _ =>
    yields_readMap (fun a b c => hE.less_trans k a b c) (k.read_valid hE n _ (hE.init k) 0 true)
      (v.read_valid hE n _ (hE.init v) 1 true) hold
  | .struct fs, _, hold, _, _ =>
    yields_readStruct hold fun v hv => fs.readFrom_valid hE n _ (hE.resetDefautlt fs v hv)
  | .bool, _, _, _, _ => fun _ _ _ _ => trivial
  | .char, _, _, _, _ => fun _ _ _ _ => trivial
  | .uint8, _, _, _, _ => fun _ _ _ _ => trivial
  | .short, _, _, _, _ => fun _ _ _ _ => trivial
  | .uint16, _, _, _, _ => fun _ _ _ _ => trivial
  | .int32, _, _, _, _ => fun _ _ _ _ => trivial
  | .uint32, _, _, _, _ => fun _ _ _ _ => trivial
  | .int64, _, _, _, _ => fun _ _ _ _ => trivial
  | .float, _, _, _, _ => fun _ _ _ _ => trivial
  | .double, _, _, _, _ => fun _ _ _ _ => trivial
  | .enum, _, _, _, _ => fun _ _ _ _ => trivial
  | .charVector, _, _, _, _ => fun _ _ _ _ => trivial

theorem Fields.readFrom_valid {E : Env} (hE : E.Lawful) (n : ℕ) : {lo : ℕ} → (fs : Fields lo) →
    (old : Vals fs) → Vals.Valid E fs old →
      Exec.Yields (Vals.Valid E fs) (fs.readFrom (w := w) E n old)
  | _, .nil, _, _ => .pure trivial
  | _, .cons _ _ _ t rest, old, hold =>
    .bind (t.read_valid hE n old.1 hold.1 _ _) fun _ ha =>
      .bind (rest.readFrom_valid hE n old.2 hold.2) fun _ has => .pure ⟨ha,has⟩

end

section Rewriting

/-- What was read is a value of its type, whatever bytes it came from: it can be written again,
and what is written then is read as the same value over any earlier one. -/
theorem Fields.readFrom_rewritten {E : Env} (hE : E.Lawful) (hw : 32 ≤ w) (fs : Fields 0)
    {old v : Vals fs} (hold : Vals.Valid E fs old) {r s : BufferReader w}
    (h : fs.readFrom E n old r = .returned v s) :
    Vals.Valid E fs v ∧ ∃ body, fs.writeTo v = .ok body ∧ (body.length < 2^32 → ∀ m old',
      fs.readFrom E (m+3) old' (setBufferVector body) =
        .returned v (readerAt w body body.length)) := by
  have hvalid := fs.readFrom_valid hE n old hold r v s h
  obtain ⟨body,hbody⟩ := fs.writeTo_ok E v hvalid
  refine ⟨hvalid,body,hbody,fun hlen m old' => ?_⟩
  have hreads := fs.roundTrips E hw m v hvalid body hbody hlen old'
  exact hreads.whole (hlen.trans_le (Nat.pow_le_pow_right (by omega) hw))

theorem less_plain_trans (t : JceType) (a b c : Val t) (hab : Env.plain.less t a b)
    (hbc : Env.plain.less t b c) : Env.plain.less t a c := by
  have hslt (n : ℕ) (x y z : BitVec n) : x.slt y → y.slt z → x.slt z := by
    simp only [BitVec.slt_iff_toInt_lt]
    exact Int.lt_trans
  have hult (n : ℕ) (x y z : BitVec n) : x.ult y → y.ult z → x.ult z := by
    simp only [BitVec.ult_iff_toNat_lt]
    exact Nat.lt_trans
  cases t with
  | char => exact hslt 8 a b c hab hbc
  | short => exact hslt 16 a b c hab hbc
  | int32 => exact hslt 32 a b c hab hbc
  | int64 => exact hslt 64 a b c hab hbc
  | uint8 => exact hult 8 a b c hab hbc
  | uint16 => exact hult 16 a b c hab hbc
  | uint32 => exact hult 32 a b c hab hbc
  | _ => exact hab

mutual

theorem Val.valid_init (E : Env) : (t : JceType) → Val.Valid E t (Val.init t)
  | .string => Nat.zero_le _
  | .vector _ => fun _ ha => absurd ha List.not_mem_nil
  | .map _ _ => ⟨.nil,fun _ he => absurd he List.not_mem_nil⟩
  | .struct fs => Vals.valid_init E fs
  | .bool => trivial
  | .char => trivial
  | .uint8 => trivial
  | .short => trivial
  | .uint16 => trivial
  | .int32 => trivial
  | .uint32 => trivial
  | .int64 => trivial
  | .float => trivial
  | .double => trivial
  | .enum => trivial
  | .charVector => trivial

theorem Vals.valid_init (E : Env) : {lo : ℕ} → (fs : Fields lo) → Vals.Valid E fs (Vals.init fs)
  | _, .nil => trivial
  | _, .cons _ _ _ t rest => ⟨Val.valid_init E t,Vals.valid_init E rest⟩

end

theorem Env.lawful_plain : Env.plain.Lawful where
  less_trans := less_plain_trans
  init := Val.valid_init Env.plain
  resetDefautlt _ _ h := h

theorem tableFields_ascending : 0 ≤ BitVec.toNat (0 : BitVec 8) := Nat.zero_le _

/-- A map of integers alone. -/
def tableFields : Fields 0 := .cons 0 tableFields_ascending true (.map .int32 .int32) .nil

def tableVals (m : List (BitVec 32 × BitVec 32)) : Vals tableFields := (m,())

/-- The keys are out of order, one stands there twice and one takes more bytes than it needs. -/
def tangled : List Byte :=
  [0x08,0x00,0x03,0x00,0x07,0x10,0x01,0x01,0x00,0x03,0x10,0x02,0x00,0x07,0x10,0x09]

/-- The same map as it is written. -/
def straightened : List Byte := [0x08,0x00,0x02,0x00,0x03,0x10,0x02,0x00,0x07,0x10,0x01]

theorem readFrom_rewritten_tangled : Vals.Valid Env.plain tableFields (tableVals [(3,2),(7,1)]) ∧
    tableFields.readFrom Env.plain 9 (tableVals []) (setBufferVector (w := 32) straightened) =
      .returned (tableVals [(3,2),(7,1)]) (readerAt 32 straightened 11) := by
  have hold : Vals.Valid Env.plain tableFields (tableVals []) :=
    Vals.valid_init Env.plain tableFields
  have hread : tableFields.readFrom Env.plain 9 (tableVals []) (setBufferVector (w := 32) tangled) =
      .returned (tableVals [(3,2),(7,1)]) (readerAt 32 tangled 16) := rfl
  obtain ⟨hvalid,body,hbody,hagain⟩ :=
    tableFields.readFrom_rewritten Env.lawful_plain (Nat.le_refl 32) hold hread
  obtain rfl : straightened = body := by
    cases hbody
    rfl
  exact ⟨hvalid,hagain (by rw [straightened]; decide) 6 _⟩

end Rewriting

end UninstallObserver.Jce
