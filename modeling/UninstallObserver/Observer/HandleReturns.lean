import UninstallObserver.Observer.Handle

/-! When handling a buffer returns, and what is left of the daemon when it does not. -/
namespace UninstallObserver.Observer
open Imperative ByteOrder Jce BufferReader

variable {w n : ℕ} {created : Bool} {buf : List Byte} {d d' : Daemon} {m : ControlMsg}

section Lengths
variable {r s : BufferReader w} {tag : BitVec 8}

/-- A `vector<Char>` that was read is no longer than the buffer. -/
theorem length_readCharVector {v a : List Byte} (hw : 32 ≤ w) (hr : Sound r)
    (h : Exec.Ends (fun n => readCharVector n v tag false) r (.returned a s)) :
    a = v ∨ a.length ≤ r.buf.length := by
  obtain ⟨n,hn⟩ := h.forall_ge (readCharVector_stable v false)
  have hn3 := hn (n+3) (Nat.le_add_right n 3)
  obtain ⟨found,t,hfound,h⟩ := Exec.bind_eq_returned.mp hn3
  cases found with
  | true =>
    have hfinds : Finds tag r t := ⟨by simp,n+3,hfound⟩
    obtain ⟨hin,hlen⟩ := hfinds.inside hw hr
    have hswitch : ∀ ty, Parses t.buf.length (charVectorSwitch (n+3) v tag ty)
        (Parser.charVector t.buf.length ty) := fun ty => parses_charVectorSwitch hw hin.small v ty
    have hp : Parses t.buf.length _ _ := parses_field hw hswitch
    obtain ⟨bs,hbs⟩ := hp.of_returned hin rfl h
    obtain ⟨head,cs,-,hbody⟩ := Parser.bind_eq_some.mp hbs
    rw [← hlen]
    exact .inr (Parser.length_of_charVector hbody)
  | false =>
    cases h
    exact .inl rfl

theorem length_vbData (hw : 32 ≤ w) (hlen : buf.length < 2^(w-1)) (h : Decodes w buf m) :
    m.vbData.length ≤ buf.length := by
  obtain ⟨s,h⟩ := h
  obtain ⟨e,t,first,h⟩ :=
    (Exec.ends_bind_returned_iff (readInt32_stable _ _ _) (readSeq_stable _)).mp h
  obtain ⟨seq,u,second,h⟩ :=
    (Exec.ends_bind_returned_iff (readString_stable _ _) fun seq => readData_stable _ e seq).mp h
  obtain ⟨v,z,third,h⟩ := (Exec.ends_then_iff (readCharVector_stable _ _)).mp h
  cases h
  have hsame := (Entered.vbData first second).same
  have hu := (inside_setBufferVector hlen).toSound.of_same hsame
  rcases length_readCharVector hw hu third with hv | hv
  · rw [show v = [] from hv]
    exact Nat.zero_le _
  · exact hv.trans (congrArg List.length hsame.1).le

end Lengths

/-- What the switch needs of a message: a payload that can be read and an observer that is
still there, where it uses them. -/
def Serviceable (d : Daemon) (m : ControlMsg) : Prop :=
  (m.eCtrlType = eCtrlFilePath → PayloadOk m.vbData ∧ d.PointerOk) ∧
    (m.eCtrlType = eCtrlReqOnDel → d.mFileObserver.isSome → PayloadOk m.vbData ∧ d.PointerOk)

theorem decodesString_iff {data : List Byte} (hw : 32 ≤ w) (hlen : data.length < 2^(w-1)) :
    (∃ x, DecodesString w data x) ↔ PayloadOk data := payload_returns_iff hw hlen

theorem serves_iff (hw : 32 ≤ w) (hlen : m.vbData.length < 2^(w-1)) :
    (∃ d', Serves w created buf m d d') ↔ Serviceable d m := by
  have hpayload : ∀ {x}, DecodesString w m.vbData x → PayloadOk m.vbData :=
    fun h => (decodesString_iff hw hlen).mp ⟨_,h⟩
  refine ⟨fun h => ?_,fun h => ?_⟩
  · obtain ⟨d',h⟩ := h
    cases h with
    | hello type =>
      exact ⟨fun t => absurd (t.symm.trans type) (by decide),
        fun t => absurd (t.symm.trans type) (by decide)⟩
    | filePath type payload live =>
      exact ⟨fun _ => ⟨hpayload payload,live⟩,fun t => absurd (t.symm.trans type) (by decide)⟩
    | reqOnDel type current payload live =>
      exact ⟨fun t => absurd (t.symm.trans type) (by decide),fun _ _ => ⟨hpayload payload,live⟩⟩
    | ignored type noCurrent =>
      exact ⟨fun t => absurd (t.symm.trans type) (by decide),fun _ hc => by simp [noCurrent] at hc⟩
    | other hello filePath reqOnDel => exact ⟨fun t => absurd t filePath,fun t => absurd t reqOnDel⟩
  · obtain ⟨hpath,hreq⟩ := h
    by_cases type : m.eCtrlType = eCtrlHello
    · exact ⟨_,.hello type⟩
    by_cases type' : m.eCtrlType = eCtrlFilePath
    · obtain ⟨hok,live⟩ := hpath type'
      obtain ⟨path,payload⟩ := (decodesString_iff hw hlen).mpr hok
      exact ⟨_,.filePath type' payload live⟩
    by_cases type'' : m.eCtrlType = eCtrlReqOnDel
    · by_cases hc : d.mFileObserver.isSome
      · obtain ⟨hok,live⟩ := hreq type'' hc
        obtain ⟨url,payload⟩ := (decodesString_iff hw hlen).mpr hok
        exact ⟨_,.reqOnDel type'' hc payload live⟩
      · exact ⟨d,.ignored type'' (by simpa using hc)⟩
    · exact ⟨d,.other type type' type''⟩

section Throws
variable {commSock : ℤ} {e : JceException}

theorem callCurrent_ne_threw {f : FileDeleteObserver → FileDeleteObserver} :
    callCurrent f d ≠ .threw e d' := by
  by_cases hp : d.PointerOk
  · by_cases hc : d.mFileObserver.isSome
    · simp [callCurrent_of_ok hp hc]
    · unfold callCurrent
      rw [Exec.bind_of_returned (Exec.get_apply d)]
      simp [show d.mFileObserver = none by simpa using hc]
  · simp [callCurrent_of_not_ok hp]

theorem stopCurrent_ne_threw : stopCurrent d ≠ .threw e d' := by
  by_cases hp : d.PointerOk
  · simp [stopCurrent_of_ok hp]
  · simp [stopCurrent_of_not_ok hp]

theorem handleFilePath_threw {data : List Byte}
    (h : handleFilePath w n created data d = .threw e d') : d' = d := by
  rcases Exec.bind_eq_threw.mp h with h | ⟨p,t,_,h⟩
  · exact (Exec.lift_eq_threw.mp h).1.symm
  · rcases Exec.bind_eq_threw.mp h with h | ⟨_,u,_,h⟩
    · exact absurd h stopCurrent_ne_threw
    · cases h

theorem handleReqOnDel_threw {data : List Byte} (h : handleReqOnDel w n data d = .threw e d') :
    d' = d := by
  unfold handleReqOnDel at h
  rw [Exec.bind_of_returned (Exec.get_apply d),Exec.ite_apply] at h
  split at h
  · rcases Exec.bind_eq_threw.mp h with h | ⟨p,t,_,h⟩
    · exact (Exec.lift_eq_threw.mp h).1.symm
    · exact absurd h callCurrent_ne_threw
  · cases h

theorem handleMsg_threw (h : handleMsg w n created buf m d = .threw e d') : d' = d := by
  unfold handleMsg at h
  simp only [Exec.ite_apply] at h
  split at h
  · cases h
  · split at h
    · exact handleFilePath_threw h
    · split at h
      · exact handleReqOnDel_threw h
      · cases h

/-- An exception that escapes leaves the daemon as it was: both levels are decoded before
anything is changed. -/
theorem handle_threw (h : handle w n created commSock buf d = .threw e d') : d' = d := by
  unfold handle at h
  rw [Exec.ite_apply] at h
  split at h
  · cases h
  · rcases Exec.bind_eq_threw.mp h with h | ⟨m,t,hm,h⟩
    · exact (Exec.lift_eq_threw.mp h).1.symm
    · obtain ⟨rfl,-⟩ := Exec.lift_eq_returned.mp hm
      rcases Exec.bind_eq_threw.mp h with h | ⟨_,u,_,h⟩
      · exact handleMsg_threw h
      · cases h

end Throws

section Handle
variable {commSock : ℤ}

/-- The buffer, or the payload that the switch reads for its type, cannot be decoded. -/
def Undecodable (w : ℕ) (buf : List Byte) : Prop :=
  ∀ m, Decodes w buf m → (m.eCtrlType = eCtrlFilePath ∨ m.eCtrlType = eCtrlReqOnDel) ∧
    ¬ PayloadOk m.vbData

/-- Nothing is left of what cannot be decoded, whether it is thrown out or ignored. -/
theorem handle_undecodable (hw : 32 ≤ w) (hsock : 0 ≤ commSock) (hbuf : buf ≠ [])
    (hlen : buf.length < 2^(w-1)) (h : Undecodable w buf) {x : ℤ}
    (hreturned : handle w n created commSock buf d = .returned x d') : d' = d := by
  obtain ⟨-,m,hm,hs⟩ := (handle_ends_iff hsock hbuf).mp ⟨by simp,n,hreturned⟩
  obtain ⟨type,hbad⟩ := h m hm
  have hpayload : ∀ {x}, ¬ DecodesString w m.vbData x := fun hx =>
    hbad ((decodesString_iff hw ((length_vbData hw hlen hm).trans_lt hlen)).mp ⟨_,hx⟩)
  cases hs with
  | hello hello =>
    rcases type with type | type
    · exact absurd (type.symm.trans hello) (by decide)
    · exact absurd (type.symm.trans hello) (by decide)
  | filePath _ payload => exact absurd payload hpayload
  | reqOnDel _ _ payload => exact absurd payload hpayload
  | ignored => rfl
  | other => rfl

/-- Handling a received buffer returns exactly when the buffer decodes and the switch can do with
the message and the state; and what cannot be decoded changes nothing. -/
theorem handle_returns_iff (hw : 32 ≤ w) (hsock : 0 ≤ commSock) (hbuf : 1 ≤ buf.length)
    (hlen : buf.length ≤ kBufferSize) (created : Bool) (d : Daemon) :
    (Exec.Returns (fun n => handle w n created commSock buf) d ↔
      WellFormed (setBufferVector (w := w) buf) ∧ ∀ m, Decodes w buf m → Serviceable d m) ∧
    (∀ n e d', handle w n created commSock buf d = .threw e d' → d' = d) ∧
    (Undecodable w buf → ∀ n x d', handle w n created commSock buf d = .returned x d' → d' = d) := by
  have hh := half_large hw
  have hsmall : buf.length < 2^(w-1) := by
    unfold kBufferSize at hlen
    omega
  have hne : buf ≠ [] := List.ne_nil_of_length_pos hbuf
  have hdecodes : (∃ m, Decodes w buf m) ↔ WellFormed (setBufferVector (w := w) buf) :=
    readFrom_returns_iff hw (inside_setBufferVector hsmall)
  have hserves : ∀ {m}, Decodes w buf m →
      ((∃ d', Serves w created buf m d d') ↔ Serviceable d m) :=
    fun hm => serves_iff hw ((length_vbData hw hsmall hm).trans_lt hsmall)
  refine ⟨⟨fun h => ?_,fun h => ?_⟩,fun n e d' h => handle_threw h,fun h n x d' hreturned =>
    handle_undecodable hw hsock hne hsmall h hreturned⟩
  · obtain ⟨x,d',h⟩ := h
    obtain ⟨-,m,hm,hs⟩ := (handle_ends_iff hsock hne).mp h
    refine ⟨hdecodes.mp ⟨m,hm⟩,fun m' hm' => ?_⟩
    obtain rfl := hm.unique hm'
    exact (hserves hm).mp ⟨d',hs⟩
  · obtain ⟨hwf,hserviceable⟩ := h
    obtain ⟨m,hm⟩ := hdecodes.mpr hwf
    obtain ⟨d',hs⟩ := (hserves hm).mpr (hserviceable m hm)
    exact ⟨0,d',(handle_ends_iff hsock hne).mpr ⟨rfl,m,hm,hs⟩⟩

/-- A message for the second half: its payload, one byte, is the head of an integer. -/
def badPathBytes : List Byte := [0x00,0x01,0x16,0x00,0x2D,0x00,0x00,0x01,0x0C]

theorem handle_returns_hello : (WellFormed (setBufferVector (w := 32) helloBytes) ∧
    ∀ m, Decodes 32 helloBytes m → Serviceable Daemon.init m) ∧
    ∃ e d', handle 32 9 true 5 badPathBytes Daemon.init = .threw e d' ∧ d' = Daemon.init := by
  have hreturns : Exec.Returns (fun n => handle 32 n false 5 helloBytes) Daemon.init :=
    ⟨0,Daemon.init.echo helloBytes,by simp,6,by decide +kernel⟩
  have hthrew : ∃ e d', handle 32 9 true 5 badPathBytes Daemon.init = .threw e d' := ⟨_,_,rfl⟩
  obtain ⟨e,d',hthrew⟩ := hthrew
  refine ⟨(handle_returns_iff (by decide) (by decide) (by decide) (by decide) false
    Daemon.init).1.mp hreturns,e,d',hthrew,?_⟩
  exact (handle_returns_iff (by decide) (by decide) (by decide) (by decide) true
    Daemon.init).2.1 _ _ _ hthrew

/-- A string stands where the type of the message should be. -/
theorem not_handle_returns_mismatch :
    ¬ Exec.Returns (fun n => handle 32 n true 5 [0x06,0x00]) Daemon.init := by
  intro h
  obtain ⟨x,d',hx⟩ := h
  have hthrew : ∃ what, handle 32 3 true 5 [0x06,0x00] Daemon.init =
      .threw (.jceDecodeMismatch what) Daemon.init := ⟨_,rfl⟩
  obtain ⟨what,hwhat⟩ := hthrew
  cases hx.unique ⟨by simp,3,hwhat⟩ handle_stable

end Handle

end UninstallObserver.Observer
