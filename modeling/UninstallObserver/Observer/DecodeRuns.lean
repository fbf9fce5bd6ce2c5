import UninstallObserver.Jce.TypedReads
import UninstallObserver.Lib.TwoRuns
import UninstallObserver.Observer.Messages

/-! When the decoding of a control message ends, and whether it stays in its buffer. -/
namespace UninstallObserver.Observer
open Imperative ByteOrder Jce BufferReader Relation

variable {w : ℕ} {r : BufferReader w}

/-- The searches that decoding from `r` goes into: for the sequence number and for the
data. Nothing lies before tag 0, so the first field takes no search. -/
inductive Entered (r : BufferReader w) : Config w → Prop
  | sSeq {e : BitVec 32} {s : BufferReader w}
      (first : Exec.Ends (fun n => readInt32 n eCtrlHello 0 false) r (.returned e s)) :
      Entered r (.tagLoop 1,s)
  | vbData {e : BitVec 32} {s u : BufferReader w} {seq : List Byte}
      (first : Exec.Ends (fun n => readInt32 n eCtrlHello 0 false) r (.returned e s))
      (second : Exec.Ends (fun n => readString n [] 1 false) s (.returned seq u)) :
      Entered r (.tagLoop 2,u)

/-- Decoding from `r` never comes back to a loop turn whose field ends before the place
where it starts. -/
def NeverReturns (r : BufferReader w) : Prop :=
  ∀ c d e, Entered r c → ReflTransGen Calls c d → GoesBack d e → ¬ ReflTransGen Calls e d

/-- No head of a struct's or a container's field is due at the last value of the cursor. -/
def NeverAtLast (r : BufferReader w) : Prop :=
  ∀ c d, Entered r c → ReflTransGen Calls c d → ¬ AtLast d

section Stages
variable (old : ControlMsg)

/-- The stages of `readFrom` after the first field, and after the second. -/
def readData (n : ℕ) (e : CtrlType) (seq : List Byte) : Decode w ControlMsg := do
  let vbData ← readCharVector n old.vbData 2 false
  pure ⟨e,seq,vbData⟩

def readSeq (n : ℕ) (e : CtrlType) : Decode w ControlMsg := do
  let seq ← readString n [] 1 false
  readData old n e seq

theorem readData_stable (e : CtrlType) (seq : List Byte) :
    Exec.Stable fun n => readData (w := w) old n e seq :=
  (readCharVector_stable _ _).bind fun _ => .const _

theorem readSeq_stable (e : CtrlType) : Exec.Stable fun n => readSeq (w := w) old n e :=
  (readString_stable _ _).bind fun seq => readData_stable old e seq

theorem readFrom_stable : Exec.Stable fun n => ControlMsg.readFrom (w := w) n old :=
  (readInt32_stable _ _ _).bind (readSeq_stable old)

end Stages

section Entered
variable (old : ControlMsg) {seq : List Byte} {tag : BitVec 8}

theorem readString_halts_iff (hw : 32 ≤ w) :
    Exec.Halts (fun n => readString n seq tag false) r ↔ ∃ n, Done n (.tagLoop tag,r) :=
  halts_readField_iff (g := fun _ => stringSwitch tag) hw (fun _ => .const _)
    fun t => stringSwitch_contained hw t

theorem readCharVector_halts_iff (hw : 32 ≤ w) :
    Exec.Halts (fun n => readCharVector n seq tag false) r ↔ ∃ n, Done n (.tagLoop tag,r) :=
  halts_readField_iff hw (charVectorSwitch_stable seq)
    fun t => charVectorSwitch_contained (n := 0) hw seq t

theorem readString_undefined_iff (hw : 32 ≤ w) (hr : Sound r) :
    Exec.Ends (fun n => readString n seq tag false) r .undefined ↔
      ∃ n, (Call.tagLoop tag).run n r = .undefined :=
  readField_undefined_iff (g := fun _ => stringSwitch tag) hw hr (fun _ => .const _)
    fun _ t => stringSwitch_contained hw t

theorem readCharVector_undefined_iff (hw : 32 ≤ w) (hr : Sound r) :
    Exec.Ends (fun n => readCharVector n seq tag false) r .undefined ↔
      ∃ n, (Call.tagLoop tag).run n r = .undefined :=
  readField_undefined_iff hw hr (charVectorSwitch_stable seq)
    fun _ t => charVectorSwitch_contained hw seq t

theorem readData_halts_iff (hw : 32 ≤ w) (e : CtrlType) (seq : List Byte) :
    Exec.Halts (fun n => readData old n e seq) r ↔ ∃ n, Done n (.tagLoop 2,r) := by
  refine (Exec.halts_bind_iff (g := fun _ v => (pure ⟨e,seq,v⟩ : Decode w ControlMsg))
    (readCharVector_stable _ _) fun _ => .const _).trans ?_
  rw [readCharVector_halts_iff hw,and_iff_left_iff_imp]
  exact fun _ v t _ => ⟨0,by simp⟩

/-- Decoding ends exactly when the searches it goes into do. -/
theorem readFrom_halts_iff_entered (hw : 32 ≤ w) :
    Exec.Halts (fun n => ControlMsg.readFrom n old) r ↔ ∀ c, Entered r c → ∃ n, Done n c := by
  have hseq : ∀ e (s : BufferReader w), Exec.Halts (fun n => readSeq old n e) s ↔
      (∃ n, Done n (.tagLoop 1,s)) ∧ ∀ seq u,
        Exec.Ends (fun n => readString n [] 1 false) s (.returned seq u) →
          ∃ n, Done n (.tagLoop 2,u) := by
    intro e s
    refine (Exec.halts_bind_iff (readString_stable _ _) fun seq => readData_stable old e seq).trans ?_
    rw [readString_halts_iff hw]
    simp only [readData_halts_iff old hw]
  refine (Exec.halts_bind_iff (readInt32_stable _ _ _) (readSeq_stable old)).trans ?_
  simp only [hseq]
  constructor
  · intro h c hc
    obtain ⟨-,h⟩ := h
    cases hc with
    | sSeq first => exact (h _ _ first).1
    | vbData first second => exact (h _ _ first).2 _ _ second
  · intro h
    have hfirst : Exec.Halts (fun n => readInt32 n eCtrlHello 0 false) r :=
      ⟨3,readInt32_zero_fuelless eCtrlHello false r⟩
    exact ⟨hfirst,fun e s first =>
      ⟨h _ (.sSeq first),fun seq u second => h _ (.vbData first second)⟩⟩

theorem readData_undefined_iff (hw : 32 ≤ w) (hr : Sound r) (e : CtrlType) (seq : List Byte) :
    Exec.Ends (fun n => readData old n e seq) r .undefined ↔
      ∃ n, (Call.tagLoop 2).run n r = .undefined := by
  refine (Exec.ends_bind_undefined_iff (g := fun _ v => (pure ⟨e,seq,v⟩ : Decode w ControlMsg))
    (readCharVector_stable _ _) fun _ => .const _).trans ?_
  rw [readCharVector_undefined_iff hw hr,or_iff_left_iff_imp]
  intro h
  obtain ⟨v,t,-,-,n,hn⟩ := h
  cases hn

theorem Entered.same {c : Config w} (h : Entered r c) : SameBuffer r c.2 := by
  have hint : ∀ {e : BitVec 32} {s : BufferReader w},
      Exec.Ends (fun n => readInt32 n eCtrlHello 0 false) r (.returned e s) → SameBuffer r s := by
    rintro e s ⟨-,n,hn⟩
    exact ((keepsAt n).int32 eCtrlHello 0 false r).1 e s hn
  cases h with
  | sSeq first => exact hint first
  | @vbData e s u seq first second =>
    obtain ⟨-,n,hn⟩ := second
    exact IsTrans.trans r s u (hint first) ((readString_keeps [] false s).1 seq u hn)

/-- Decoding leaves the buffer exactly when one of those searches does. -/
theorem readFrom_undefined_iff_entered (hw : 32 ≤ w) (hr : Inside 0 r) :
    Exec.Ends (fun n => ControlMsg.readFrom n old) r .undefined ↔
      ∃ c, Entered r c ∧ ∃ n, c.1.run n c.2 = .undefined := by
  refine (Exec.ends_bind_undefined_iff (readInt32_stable _ _ _) (readSeq_stable old)).trans ?_
  constructor
  · intro h
    rcases h with ⟨-,n,hn⟩ | ⟨e,s,first,h⟩
    · exact absurd hn (readInt32_zero_inside hw eCtrlHello false r hr).1
    · have hs : Sound s := hr.toSound.of_same (Entered.sSeq first).same
      rcases (Exec.ends_bind_undefined_iff (readString_stable _ _)
        fun seq => readData_stable old e seq).mp h with h | ⟨seq,u,second,h⟩
      · exact ⟨_,.sSeq first,(readString_undefined_iff hw hs).mp h⟩
      · have hu : Sound u := hr.toSound.of_same (Entered.vbData first second).same
        exact ⟨_,.vbData first second,(readData_undefined_iff old hw hu e seq).mp h⟩
  · intro h
    obtain ⟨c,hc,h⟩ := h
    have hs := hr.toSound.of_same hc.same
    cases hc with
    | @sSeq e s first =>
      refine .inr ⟨e,s,first,(Exec.ends_bind_undefined_iff (readString_stable _ _)
        fun seq => readData_stable old e seq).mpr (.inl ?_)⟩
      exact (readString_undefined_iff hw hs).mpr h
    | @vbData e s u seq first second =>
      refine .inr ⟨e,s,first,(Exec.ends_bind_undefined_iff (readString_stable _ _)
        fun seq => readData_stable old e seq).mpr (.inr ⟨seq,u,second,?_⟩)⟩
      exact (readData_undefined_iff old hw hs e seq).mpr h

end Entered

section Decoding
variable {buf : List Byte}

theorem toNat_setBufferVector (hlen : buf.length < 2^w) :
    (setBufferVector (w := w) buf).bufLen.toNat = buf.length := by
  change (BitVec.ofNat w buf.length).toNat = buf.length
  rw [BitVec.toNat_ofNat,Nat.mod_eq_of_lt hlen]

theorem Entered.small {c : Config w} (h : Entered r c) : c.1.Small := by
  cases h <;> trivial

theorem Entered.sized {c : Config w} (h : Entered r c) (hr : Sized r) : Sized c.2 := by
  rw [Sized,h.same.1,h.same.2]
  exact hr

theorem Entered.begun {c : Config w} (h : Entered r c) (hr : Sound r) : Begun c := by
  refine ⟨hr.of_same h.same,fun t ht => ?_⟩
  cases h <;> cases ht

/-- The searches end exactly when decoding never returns to such a turn. -/
theorem neverReturns_iff (hw : 32 ≤ w) (hr : Sized r) :
    (∀ c, Entered r c → ∃ n, Done n c) ↔ NeverReturns r := by
  constructor
  · intro h c d e hc
    exact (done_iff_no_return hw hc.small (hc.sized hr)).mp (h c hc) d e
  · intro h c hc
    exact (done_iff_no_return hw hc.small (hc.sized hr)).mpr fun d e => h c d e hc

/-- They stay inside the buffer exactly when no such head is due. -/
theorem neverAtLast_iff (hw : 32 ≤ w) (hr : Sound r) :
    (∀ c, Entered r c → ∀ n, c.1.run n c.2 ≠ .undefined) ↔ NeverAtLast r := by
  constructor
  · intro h c d hc hcd hd
    obtain ⟨n,hn⟩ := (undefined_iff_atLast hw (hc.begun hr)).mpr ⟨d,hcd,hd⟩
    exact h c hc n hn
  · intro h c hc n hn
    obtain ⟨d,hcd,hd⟩ := (undefined_iff_atLast hw (hc.begun hr)).mp ⟨n,hn⟩
    exact h c d hc hcd hd

theorem inside_setBufferVector (hlen : buf.length < 2^(w-1)) :
    Inside 0 (setBufferVector (w := w) buf) := by
  have hpow : 2^(w-1) ≤ 2^w := Nat.pow_le_pow_right (by decide) (Nat.sub_le w 1)
  refine ⟨⟨toNat_setBufferVector (hlen.trans_le hpow),hlen⟩,Nat.zero_le _,?_⟩
  simp [setBufferVector, setBuffer]

/-- Decoding a control message does not go on for ever exactly when it never comes back to a loop
turn whose field ends before the place where it starts. -/
theorem readFrom_halts_iff (hw : 32 ≤ w) (hlen : buf.length < 2^w) (old : ControlMsg) :
    Exec.Halts (fun n => ControlMsg.readFrom n old) (setBufferVector (w := w) buf) ↔
      NeverReturns (setBufferVector (w := w) buf) := by
  rw [readFrom_halts_iff_entered old hw]
  exact neverReturns_iff hw (toNat_setBufferVector hlen)

/-- It leaves its buffer exactly when a head of a struct's or a container's field is due at the
last value of the cursor. -/
theorem readFrom_undefined_iff (hw : 32 ≤ w) (hlen : buf.length < 2^(w-1)) (old : ControlMsg) :
    Exec.Ends (fun n => ControlMsg.readFrom n old) (setBufferVector (w := w) buf) .undefined ↔
      ¬ NeverAtLast (setBufferVector (w := w) buf) := by
  have hin := inside_setBufferVector hlen
  rw [readFrom_undefined_iff_entered old hw hin,← neverAtLast_iff hw hin.toSound]
  push Not
  rfl

/-- Decoding a control message returns or throws exactly when it never comes back to a loop turn
whose field ends before the place where it starts, and no head of a struct's or a container's field
is due at the last value of the cursor. -/
theorem readFrom_concludes_iff (hw : 32 ≤ w) (hlen : buf.length < 2^(w-1)) (old : ControlMsg) :
    Exec.Concludes (fun n => ControlMsg.readFrom n old) (setBufferVector (w := w) buf) ↔
      NeverReturns (setBufferVector (w := w) buf) ∧ NeverAtLast (setBufferVector (w := w) buf) := by
  have hpow : 2^(w-1) ≤ 2^w := Nat.pow_le_pow_right (by decide) (Nat.sub_le w 1)
  rw [Exec.concludes_iff (readFrom_stable _),readFrom_halts_iff hw (hlen.trans_le hpow),
    readFrom_undefined_iff hw hlen,not_not]

/-- A control message with nothing in it. -/
def helloBytes : List Byte := [0x0C,0x16,0x01,0x30,0x2D,0x00,0x0C]

theorem concludes_hello : NeverReturns (setBufferVector (w := 32) helloBytes) ∧
    NeverAtLast (setBufferVector (w := 32) helloBytes) :=
  (readFrom_concludes_iff (by decide) (by decide) ControlMsg.init).mp
    (.of_ne (n := 6) (by decide +kernel) (by decide +kernel))

/-- A simple list of -4 bytes takes the cursor back to its own head. -/
def endlessBytes : List Byte := [0x0C,0x0D,0x00,0x00,0xFC]

/-- The search of `endlessBytes` at the head of the list. -/
def endlessTurn : Config 32 := (.tagLoop 1,⟨endlessBytes,5,1⟩)

theorem endlessTurn_goesBack : GoesBack endlessTurn endlessTurn := by
  have head : DataHead.peekFrom endlessTurn.2 =
      .returned (⟨.eSimpleList,0⟩,1) endlessTurn.2 := by decide +kernel
  have passed : skipField 5 .eSimpleList ⟨endlessBytes,5,2⟩ =
      .returned () endlessTurn.2 := by decide +kernel
  exact .turn (.tagLoop (by decide) head (by decide)) passed rfl (by decide)

theorem not_concludes_endless : ¬ Exec.Concludes (fun n => ControlMsg.readFrom n ControlMsg.init)
    (setBufferVector (w := 32) endlessBytes) := by
  rw [Exec.concludes_iff (readFrom_stable _),readFrom_halts_iff_entered ControlMsg.init (by decide)]
  intro hconcludes
  have h := hconcludes.1
  have hentered : Entered (setBufferVector endlessBytes) endlessTurn :=
    .sSeq (e := 0) ⟨by simp,5,by decide +kernel⟩
  have hsized : Sized endlessTurn.2 := by
    unfold Sized
    decide
  exact (done_iff_no_return (by decide) hentered.small hsized).mp (h _ hentered) _ _ .refl
    endlessTurn_goesBack .refl

/-- Decoding copies only from inside the buffer exactly when no head of a struct's or a
container's field is due at the last value of the cursor. -/
theorem readFrom_inside_iff (hw : 32 ≤ w) (hlen : buf.length < 2^(w-1)) (old : ControlMsg) :
    (∀ n, ControlMsg.readFrom n old (setBufferVector (w := w) buf) ≠ .undefined) ↔
      NeverAtLast (setBufferVector (w := w) buf) := by
  have hends := readFrom_undefined_iff hw hlen old
  constructor
  · intro h
    by_contra hlast
    obtain ⟨-,n,hn⟩ := hends.mpr hlast
    exact h n hn
  · intro h n hn
    exact hends.mp ⟨by simp,n,hn⟩ h

theorem neverAtLast_hello : NeverAtLast (setBufferVector (w := 32) helloBytes) := by
  refine (readFrom_inside_iff (by decide) (by decide) ControlMsg.init).mp fun n hn => ?_
  have hread : Exec.Ends (fun n => ControlMsg.readFrom n ControlMsg.init)
      (setBufferVector (w := 32) helloBytes)
      (.returned ⟨0,[0x30],[]⟩ ⟨helloBytes,7,7⟩) := ⟨by simp,6,by decide +kernel⟩
  cases hread.unique ⟨by simp,n,hn⟩ (readFrom_stable _)

/-- A string of 2³² - 8 bytes inside a struct leaves the cursor on its last value. -/
def strayBytes : List Byte := [0x0C,0x0A,0x07,0xFF,0xFF,0xFF,0xF8]

theorem not_inside_stray : ¬ ∀ n,
    ControlMsg.readFrom n ControlMsg.init (setBufferVector (w := 32) strayBytes) ≠ .undefined := by
  intro h
  exact h 8 (by decide +kernel)

end Decoding

end UninstallObserver.Observer
