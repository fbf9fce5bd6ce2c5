import UninstallObserver.Lib.TwoRuns
import UninstallObserver.Observer.WellFormed

/-! What of the earlier value of a message shows through its decoding. -/
namespace UninstallObserver.Observer
open Imperative ByteOrder Jce BufferReader

variable {w n : ℕ} {α : Type} {r s : BufferReader w}

/-- `ProtocolUtil::readFrom` into two targets throws both times, or leaves equal messages. -/
def OnlyBytes (readFrom : ℕ → α → Decode w α) (source : List Byte) (m m' : α) : Prop :=
  (∃ n e t e' t', protocolReadFrom (readFrom n) source m = .threw e t ∧
    protocolReadFrom (readFrom n) source m' = .threw e' t') ∨
  ∃ n a t t', protocolReadFrom (readFrom n) source m = .returned a t ∧
    protocolReadFrom (readFrom n) source m' = .returned a t'

/-- Whenever decoding comes to the data, there is a field for it. -/
def DataFound (r : BufferReader w) : Prop :=
  ∀ s, Entered r (.tagLoop 2,s) → ∃ t, Finds 2 s t

section Elements
variable {tag : BitVec 8}

/-- A required field leaves nothing of its target. -/
theorem readChar_required (old old' : BitVec 8) :
    readChar (w := w) n old tag true = readChar n old' tag true := rfl

theorem readElems_required {read : α → Decode w α} (h : ∀ a b, read a = read b)
    {v v' : List α} (hlen : v.length = v'.length) : readElems read v = readElems read v' := by
  induction v generalizing v' with
  | nil =>
    cases v' with
    | nil => rfl
    | cons b v' => simp at hlen
  | cons a v ih =>
    cases v' with
    | nil => simp at hlen
    | cons b v' =>
      simp only [List.length_cons, Nat.add_right_cancel_iff] at hlen
      rw [readElems,readElems,h a b,ih hlen]

/-- Whatever is found replaces the earlier value. -/
theorem charVectorSwitch_old (old old' : List Byte) (t : HeadType) :
    charVectorSwitch (w := w) n old tag t = charVectorSwitch n old' tag t := by
  cases t with
  | eList =>
    unfold charVectorSwitch readListBody
    simp only
    congr
    funext size
    apply readElems_required (fun a b => readChar_required a b)
    rw [length_resize,length_resize]
  | _ => rfl

end Elements

section Stages
variable {m m' : ControlMsg} {tag : BitVec 8} {e : CtrlType} {seq v : List Byte}

theorem readString_concludes_iff (hw : 32 ≤ w) (hr : Sound r) :
    Exec.Concludes (fun n => readString n seq tag false) r ↔ Searches tag r := by
  rw [Exec.concludes_iff (readString_stable seq false),readString_halts_iff hw,
    readString_undefined_iff hw hr]
  push Not
  exact ⟨fun h => ⟨h.1,h.2⟩,fun h => ⟨h.ends,h.inside⟩⟩

theorem skipToTag_concludes_iff :
    Exec.Concludes (fun n => skipToTag n tag) r ↔ Searches tag r := by
  rw [Exec.concludes_iff (skipToTag_stable tag),halts_skipToTag_iff,skipToTag_undefined_iff]
  push Not
  exact ⟨fun h => ⟨h.1,h.2⟩,fun h => ⟨h.ends,h.inside⟩⟩

/-- The last stage of decoding, after its search. -/
def readFound (n : ℕ) (e : CtrlType) (seq v : List Byte) (found : Bool) : Decode w ControlMsg := do
  let vbData ← if found then DataHead.readFrom >>= fun h => charVectorSwitch n v 2 h.type else pure v
  pure ⟨e,seq,vbData⟩

theorem readData_eq (n : ℕ) : readData (w := w) m n e seq =
    skipToTag n 2 >>= readFound n e seq m.vbData := by
  unfold readData readCharVector readField
  rw [bind_assoc]
  apply congrArg
  funext found
  cases found <;> rfl

theorem readFound_stable (found : Bool) :
    Exec.Stable fun n => readFound (w := w) n e seq v found := by
  cases found with
  | true =>
    have hfield : Exec.Stable fun n => DataHead.readFrom (w := w) >>= fun h =>
        charVectorSwitch n v 2 h.type :=
      (Exec.Stable.const _).bind fun h => charVectorSwitch_stable v h.type
    exact hfield.bind fun _ => .const _
  | false => exact .const _

theorem readFound_concludes (hw : 32 ≤ w) (hs : Inside 0 s) :
    Exec.Concludes (fun n => readFound n e seq v true) s := by
  have hcontained : Contained (readFound (w := w) 3 e seq v true) :=
    ((readFrom_contained hw).bind fun h => charVectorSwitch_contained (n := 0) hw v h.type).bind
      fun _ => .pure _
  exact .of_ne (n := 3) (hcontained.fuelless s) (hcontained.inside 0 s hs).1

/-- The data of two targets come out alike where the field is found or they were equal. -/
theorem readData_alike_iff (hw : 32 ≤ w) (hr : Sound r) :
    Exec.Alike (fun n => readData m n e seq) (fun n => readData m' n e seq) r ↔
      Searches 2 r ∧ (m.vbData = m'.vbData ∨ ∃ t, Finds 2 r t) := by
  simp only [readData_eq]
  rw [Exec.alike_bind_iff (skipToTag_stable 2) readFound_stable readFound_stable,
    skipToTag_concludes_iff]
  apply and_congr_right
  intro hsearch
  have hfound : ∀ s, Finds 2 r s → Exec.Alike (fun n => readFound n e seq m.vbData true)
      (fun n => readFound n e seq m'.vbData true) s := by
    intro s hs
    have hsame : (fun n => readFound (w := w) n e seq m'.vbData true) =
        fun n => readFound n e seq m.vbData true := by
      funext n
      unfold readFound
      simp only [if_true, charVectorSwitch_old m'.vbData m.vbData]
    rw [hsame]
    exact Exec.alike_self_iff.mpr (readFound_concludes hw (hs.inside hw hr).1)
  have habsent : ∀ s : BufferReader w, Exec.Alike (fun n => readFound n e seq m.vbData false)
      (fun n => readFound n e seq m'.vbData false) s ↔ m.vbData = m'.vbData := by
    intro s
    change Exec.Alike (fun _ => (pure _ : Decode w ControlMsg)) (fun _ => pure _) s ↔ _
    rw [Exec.alike_pure_iff]
    simp
  obtain ⟨found,s,hs⟩ := searches_iff.mp hsearch
  constructor
  · intro h
    cases found with
    | true => exact .inr ⟨s,hs⟩
    | false => exact .inl ((habsent s).mp (h false s hs))
  · intro h found' t ht
    cases found' with
    | true => exact hfound t ht
    | false =>
      apply (habsent t).mpr
      rcases h with h | ⟨u,hu⟩
      · exact h
      · cases hu.unique ht (skipToTag_stable 2)

/-- Two targets come out alike exactly when the searches of decoding end inside the buffer
and the targets held the same data, or it is found. -/
theorem readFrom_alike_iff (hw : 32 ≤ w) (hr : Inside 0 r) :
    Exec.Alike (fun n => ControlMsg.readFrom n m) (fun n => ControlMsg.readFrom n m') r ↔
      NeverReturns r ∧ NeverAtLast r ∧ (m.vbData = m'.vbData ∨ DataFound r) := by
  have hsound : ∀ {c : Config w}, Entered r c → Sound c.2 := fun h => hr.toSound.of_same h.same
  have hseq : ∀ {e s}, Exec.Ends (fun n => readInt32 n eCtrlHello 0 false) r (.returned e s) →
      (Exec.Alike (fun n => readSeq m n e) (fun n => readSeq m' n e) s ↔ Searches 1 s ∧
        ∀ seq u, Exec.Ends (fun n => readString n [] 1 false) s (.returned seq u) →
          Searches 2 u ∧ (m.vbData = m'.vbData ∨ ∃ t, Finds 2 u t)) := by
    intro e s first
    refine (Exec.alike_bind_iff (readString_stable _ _) (readData_stable m e)
      (readData_stable m' e)).trans (and_congr (readString_concludes_iff hw (hsound (.sSeq first))) ?_)
    apply forall₃_congr
    intro seq u second
    exact readData_alike_iff hw (hsound (.vbData first second))
  have hfirst : Exec.Concludes (fun n => readInt32 n eCtrlHello 0 false) r :=
    .of_ne (n := 3) (readInt32_zero_fuelless eCtrlHello false r)
      (readInt32_zero_inside hw eCtrlHello false r hr).1
  refine (Exec.alike_bind_iff (readInt32_stable _ _ _) (readSeq_stable m)
    (readSeq_stable m')).trans ((and_iff_right hfirst).trans ?_)
  rw [← and_assoc,← entered_searches hw hr.toSound]
  constructor
  · intro h
    refine ⟨fun tag s hc => ?_,?_⟩
    · cases hc with
      | sSeq first => exact ((hseq first).mp (h _ _ first)).1
      | vbData first second => exact (((hseq first).mp (h _ _ first)).2 _ _ second).1
    · by_cases hv : m.vbData = m'.vbData
      · exact .inl hv
      · refine .inr fun s hc => ?_
        cases hc with
        | vbData first second =>
          exact (((hseq first).mp (h _ _ first)).2 _ _ second).2.resolve_left hv
  · rintro ⟨hsearch,hdata⟩ e s first
    apply (hseq first).mpr
    refine ⟨hsearch 1 s (.sSeq first),fun seq u second => ⟨hsearch 2 u (.vbData first second),?_⟩⟩
    exact hdata.imp_right fun h => h u (.vbData first second)

end Stages

section Targets
variable {source : List Byte}

theorem onlyBytes_nil {readFrom : ℕ → α → Decode w α} {m m' : α} :
    OnlyBytes readFrom [] m m' ↔ m = m' := by
  simp [OnlyBytes, protocolReadFrom, eq_comm]

theorem onlyBytes_iff_alike {readFrom : ℕ → α → Decode w α} {m m' : α}
    (hstable : ∀ m, Exec.Stable fun n => readFrom n m) (hsource : source ≠ []) :
    OnlyBytes readFrom source m m' ↔ Exec.Alike (fun n => readFrom n m) (fun n => readFrom n m')
      (setBufferVector source) := by
  unfold OnlyBytes protocolReadFrom
  simp only [hsource, if_false]
  constructor
  · rintro (⟨n,e,t,e',t',h,h'⟩ | ⟨n,a,t,t',h,h'⟩)
    · exact .inl ⟨e,t,e',t',⟨by simp,n,h⟩,⟨by simp,n,h'⟩⟩
    · exact .inr ⟨a,t,t',⟨by simp,n,h⟩,⟨by simp,n,h'⟩⟩
  · rintro (⟨e,t,e',t',h,h'⟩ | ⟨a,t,t',h,h'⟩)
    · obtain ⟨k,hk⟩ := h.forall_ge (hstable m)
      obtain ⟨k',hk'⟩ := h'.forall_ge (hstable m')
      exact .inl ⟨max k k',e,t,e',t',hk _ (Nat.le_max_left k k'),hk' _ (Nat.le_max_right k k')⟩
    · obtain ⟨k,hk⟩ := h.forall_ge (hstable m)
      obtain ⟨k',hk'⟩ := h'.forall_ge (hstable m')
      exact .inr ⟨max k k',a,t,t',hk _ (Nat.le_max_left k k'),hk' _ (Nat.le_max_right k k')⟩

/-- A payload is all one string, which is reset before it is read. -/
theorem payload_alike {g : List Byte → α} (hw : 32 ≤ w) (hr : Inside 0 r) :
    Exec.Alike (fun n => (readString n [] 0 false >>= fun x => pure (g x) : Decode w α))
      (fun n => readString n [] 0 false >>= fun x => pure (g x)) r := by
  have hread : Contained (readString (w := w) 3 [] 0 false) :=
    readField_contained hw (skipToTag_zero_contained hw) fun t => stringSwitch_contained hw t
  have hboth := hread.bind fun x => Contained.pure (g x)
  exact Exec.alike_self_iff.mpr (.of_ne (n := 3) (hboth.fuelless r) (hboth.inside 0 r hr).1)

theorem payload_onlyBytes_iff {readFrom : ℕ → α → Decode w α} {g : List Byte → α} {m m' : α}
    (hw : 32 ≤ w) (hlen : source.length < 2^(w-1))
    (hreadFrom : ∀ n m, readFrom n m = readString n [] 0 false >>= fun x => pure (g x)) :
    OnlyBytes readFrom source m m' ↔ (source = [] → m = m') := by
  by_cases hsource : source = []
  · subst hsource
    simp [onlyBytes_nil]
  · have hstable : ∀ m, Exec.Stable fun n => readFrom n m := by
      intro m
      simp only [hreadFrom]
      exact (readString_stable _ _).bind fun _ => .const _
    rw [onlyBytes_iff_alike hstable hsource]
    simp only [hreadFrom, hsource, false_implies, iff_true]
    exact payload_alike hw (inside_setBufferVector hlen)

theorem control_onlyBytes_iff {m m' : ControlMsg} (hw : 32 ≤ w)
    (hlen : source.length < 2^(w-1)) : OnlyBytes (w := w) ControlMsg.readFrom source m m' ↔
      if source = [] then m = m'
      else NeverReturns (setBufferVector (w := w) source) ∧
        NeverAtLast (setBufferVector (w := w) source) ∧
        (m.vbData = m'.vbData ∨ DataFound (setBufferVector (w := w) source)) := by
  split
  · next hsource =>
    subst hsource
    exact onlyBytes_nil
  · next hsource =>
    rw [onlyBytes_iff_alike readFrom_stable hsource]
    exact readFrom_alike_iff hw (inside_setBufferVector hlen)

/-- The earlier value of a target shows through an empty buffer, and through a control
message without data; elsewhere it does not, as far as decoding comes to an end. -/
theorem onlyBytes_iff (hw : 32 ≤ w) (source : List Byte) (hlen : source.length < 2^(w-1)) :
    (∀ m m' : ControlMsg, OnlyBytes (w := w) ControlMsg.readFrom source m m' ↔
      if source = [] then m = m'
      else NeverReturns (setBufferVector (w := w) source) ∧
        NeverAtLast (setBufferVector (w := w) source) ∧
        (m.vbData = m'.vbData ∨ DataFound (setBufferVector (w := w) source))) ∧
    (∀ m m' : FilePath, OnlyBytes (w := w) FilePath.readFrom source m m' ↔
      (source = [] → m = m')) ∧
    ∀ m m' : ReqOnDel, OnlyBytes (w := w) ReqOnDel.readFrom source m m' ↔
      (source = [] → m = m') :=
  ⟨fun _ _ => control_onlyBytes_iff hw hlen,
    fun _ _ => payload_onlyBytes_iff (g := FilePath.mk) hw hlen fun _ _ => rfl,
    fun _ _ => payload_onlyBytes_iff (g := ReqOnDel.mk) hw hlen fun _ _ => rfl⟩

/-- The data of `helloBytes` is empty, but it is there. -/
theorem dataFound_hello : DataFound (setBufferVector (w := 32) helloBytes) := by
  have honly : OnlyBytes (w := 32) ControlMsg.readFrom helloBytes ControlMsg.init ⟨7,[0x31],[1]⟩ :=
    .inr ⟨6,⟨0,[0x30],[]⟩,⟨helloBytes,7,7⟩,⟨helloBytes,7,7⟩,by decide +kernel,by decide +kernel⟩
  have hcondition := ((onlyBytes_iff (by decide) helloBytes (by decide)).1 _ _).mp honly
  rw [if_neg (by decide)] at hcondition
  exact hcondition.2.2.resolve_left (by decide)

/-- The message has a type and nothing else: the data of the target stays. -/
theorem not_onlyBytes_typeAlone :
    ¬ OnlyBytes (w := 32) ControlMsg.readFrom [0x0C] ControlMsg.init ⟨0,[],[1]⟩ := by
  intro h
  have hends : ∀ m : ControlMsg, m = ControlMsg.init ∨ m = ⟨0,[],[1]⟩ →
      Exec.Ends (fun n => ControlMsg.readFrom n m) (setBufferVector (w := 32) [0x0C])
        (.returned m ⟨[0x0C],1,1⟩) := by
    rintro m (rfl | rfl)
    · exact ⟨by simp,5,by decide +kernel⟩
    · exact ⟨by simp,5,by decide +kernel⟩
  have halike := (onlyBytes_iff_alike readFrom_stable (by simp)).mp h
  rcases halike with ⟨e,t,_,_,h,-⟩ | ⟨a,t,t',h,h'⟩
  · cases h.unique (hends _ (.inl rfl)) (readFrom_stable _)
  · cases h.unique (hends _ (.inl rfl)) (readFrom_stable _)
    cases h'.unique (hends _ (.inr rfl)) (readFrom_stable _)

end Targets

end UninstallObserver.Observer
