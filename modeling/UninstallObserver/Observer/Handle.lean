import UninstallObserver.Observer.Daemon
import UninstallObserver.Observer.WellFormed

/-! What a handled message does to the daemon. -/
namespace UninstallObserver.Observer
open Imperative ByteOrder Jce BufferReader

variable {w n : ℕ} {created : Bool} {buf : List Byte} {d d' : Daemon}

/-- `buf` decodes to the control message `m`. -/
def Decodes (w : ℕ) (buf : List Byte) (m : ControlMsg) : Prop :=
  ∃ s, Exec.Ends (fun n => ControlMsg.readFrom n ControlMsg.init) (setBufferVector (w := w) buf)
    (.returned m s)

theorem Decodes.unique {m m' : ControlMsg} (h : Decodes w buf m) (h' : Decodes w buf m') :
    m = m' := by
  obtain ⟨s,h⟩ := h
  obtain ⟨s',h'⟩ := h'
  cases h.unique h' (readFrom_stable _)
  rfl

/-- `data` decodes to the string of a payload. -/
def DecodesString (w : ℕ) (data : List Byte) (x : List Byte) : Prop :=
  ∃ s, Exec.Ends (fun n => readString n [] 0 false) (setBufferVector (w := w) data) (.returned x s)

/-- `Serves w created buf m d d'`: the switch takes the daemon from `d` to `d'`. -/
inductive Serves (w : ℕ) (created : Bool) (buf : List Byte) (m : ControlMsg) (d : Daemon) :
    Daemon → Prop
  | hello (type : m.eCtrlType = eCtrlHello) : Serves w created buf m d (d.echo buf)
  | filePath {path : List Byte} (type : m.eCtrlType = eCtrlFilePath)
      (payload : DecodesString w m.vbData path) (live : d.PointerOk) :
      Serves w created buf m d
        ((d.modifyCurrent FileDeleteObserver.stopWatching).install created path)
  | reqOnDel {url : List Byte} (type : m.eCtrlType = eCtrlReqOnDel)
      (current : d.mFileObserver.isSome) (payload : DecodesString w m.vbData url)
      (live : d.PointerOk) :
      Serves w created buf m d (d.modifyCurrent (FileDeleteObserver.setHttpRequestOnDelete url))
  | ignored (type : m.eCtrlType = eCtrlReqOnDel) (noCurrent : d.mFileObserver = none) :
      Serves w created buf m d d
  | other (hello : m.eCtrlType ≠ eCtrlHello) (filePath : m.eCtrlType ≠ eCtrlFilePath)
      (reqOnDel : m.eCtrlType ≠ eCtrlReqOnDel) : Serves w created buf m d d

section Serves
variable {m : ControlMsg}

theorem serves_hello_iff (type : m.eCtrlType = eCtrlHello) :
    Serves w created buf m d d' ↔ d' = d.echo buf := by
  refine ⟨fun h => ?_,fun h => h ▸ .hello type⟩
  cases h with
  | hello => rfl
  | filePath type' => exact absurd (type'.symm.trans type) (by decide)
  | reqOnDel type' => exact absurd (type'.symm.trans type) (by decide)
  | ignored type' => exact absurd (type'.symm.trans type) (by decide)
  | other hello => exact absurd type hello

theorem serves_filePath_iff (type : m.eCtrlType = eCtrlFilePath) :
    Serves w created buf m d d' ↔ ∃ path, DecodesString w m.vbData path ∧ d.PointerOk ∧
      d' = (d.modifyCurrent FileDeleteObserver.stopWatching).install created path := by
  refine ⟨fun h => ?_,fun h => ?_⟩
  · cases h with
    | hello type' => exact absurd (type'.symm.trans type) (by decide)
    | filePath _ payload live => exact ⟨_,payload,live,rfl⟩
    | reqOnDel type' => exact absurd (type'.symm.trans type) (by decide)
    | ignored type' => exact absurd (type'.symm.trans type) (by decide)
    | other _ filePath => exact absurd type filePath
  · obtain ⟨path,payload,live,rfl⟩ := h
    exact .filePath type payload live

theorem serves_reqOnDel_iff (type : m.eCtrlType = eCtrlReqOnDel) :
    Serves w created buf m d d' ↔
      (d.mFileObserver = none ∧ d' = d) ∨ (d.mFileObserver.isSome ∧ d.PointerOk ∧
        ∃ url, DecodesString w m.vbData url ∧
          d' = d.modifyCurrent (FileDeleteObserver.setHttpRequestOnDelete url)) := by
  refine ⟨fun h => ?_,fun h => ?_⟩
  · cases h with
    | hello type' => exact absurd (type'.symm.trans type) (by decide)
    | filePath type' => exact absurd (type'.symm.trans type) (by decide)
    | reqOnDel _ current payload live => exact .inr ⟨current,live,_,payload,rfl⟩
    | ignored _ noCurrent => exact .inl ⟨noCurrent,rfl⟩
    | other _ _ reqOnDel => exact absurd type reqOnDel
  · rcases h with ⟨hnone,rfl⟩ | ⟨current,live,url,payload,rfl⟩
    · exact .ignored type hnone
    · exact .reqOnDel type current payload live

theorem serves_other_iff (hello : m.eCtrlType ≠ eCtrlHello)
    (filePath : m.eCtrlType ≠ eCtrlFilePath) (reqOnDel : m.eCtrlType ≠ eCtrlReqOnDel) :
    Serves w created buf m d d' ↔ d' = d := by
  refine ⟨fun h => ?_,fun h => h ▸ .other hello filePath reqOnDel⟩
  cases h with
  | hello type => exact absurd type hello
  | filePath type => exact absurd type filePath
  | reqOnDel type => exact absurd type reqOnDel
  | ignored type => exact absurd type reqOnDel
  | other => rfl

end Serves

section Calls
variable {f : FileDeleteObserver → FileDeleteObserver}

theorem callCurrent_of_ok (hp : d.PointerOk) (hc : d.mFileObserver.isSome) :
    callCurrent f d = .returned () (d.modifyCurrent f) := by
  obtain ⟨p,hc⟩ := Option.isSome_iff_exists.mp hc
  obtain ⟨o,ho⟩ := hp p hc
  unfold callCurrent
  rw [Exec.bind_of_returned (Exec.get_apply d)]
  simp only [hc, ho, Option.isSome_some, if_true, Daemon.modifyCurrent]
  rfl

theorem callCurrent_of_not_ok (hp : ¬ d.PointerOk) : callCurrent f d = .undefined := by
  unfold Daemon.PointerOk at hp
  push Not at hp
  obtain ⟨p,hc,ho⟩ := hp
  unfold callCurrent
  rw [Exec.bind_of_returned (Exec.get_apply d)]
  simp only [hc, Option.eq_none_iff_forall_ne_some.mpr ho, Option.isSome_none]
  rfl

theorem isSome_of_not_ok (hp : ¬ d.PointerOk) : d.mFileObserver.isSome := by
  by_contra hc
  exact hp (pointerOk_of_none (by simpa using hc))

theorem stopCurrent_of_ok (hp : d.PointerOk) :
    stopCurrent d = .returned () (d.modifyCurrent FileDeleteObserver.stopWatching) := by
  unfold stopCurrent
  rw [Exec.bind_of_returned (Exec.get_apply d),Exec.ite_apply]
  split
  · next hc => exact callCurrent_of_ok hp hc
  · next hc =>
    rw [modifyCurrent_of_none (by simpa using hc)]
    rfl

theorem stopCurrent_of_not_ok (hp : ¬ d.PointerOk) : stopCurrent d = .undefined := by
  unfold stopCurrent
  rw [Exec.bind_of_returned (Exec.get_apply d),Exec.ite_apply,if_pos (isSome_of_not_ok hp)]
  exact callCurrent_of_not_ok hp

end Calls

section Switch
variable {m : ControlMsg} {data : List Byte}

theorem filePath_readFrom_stable :
    Exec.Stable fun n => FilePath.readFrom (w := w) n FilePath.init :=
  (readString_stable _ _).bind fun _ => .const _

theorem reqOnDel_readFrom_stable :
    Exec.Stable fun n => ReqOnDel.readFrom (w := w) n ReqOnDel.init :=
  (readString_stable _ _).bind fun _ => .const _

theorem handleFilePath_stable : Exec.Stable fun n => handleFilePath w n created data :=
  filePath_readFrom_stable.lift.bind fun _ => .const _

theorem handleReqOnDel_stable : Exec.Stable fun n => handleReqOnDel w n data :=
  (Exec.Stable.const _).bind fun _ =>
    .ite (reqOnDel_readFrom_stable.lift.bind fun _ => .const _) (.const _)

theorem handleMsg_stable (m : ControlMsg) : Exec.Stable fun n => handleMsg w n created buf m :=
  .ite (.const _) (.ite handleFilePath_stable (.ite handleReqOnDel_stable (.const _)))

/-- A payload is a string wrapped up. -/
theorem lift_payload_iff {α : Type} {g : List Byte → α} {a : α} :
    Exec.Ends (fun n => (Exec.lift ((readString n [] 0 false >>= fun x => pure (g x) :
      Decode w α) (setBufferVector data)) : Server α)) d (.returned a d') ↔
        d = d' ∧ ∃ x, DecodesString w data x ∧ g x = a := by
  have hmap : ∀ {v}, Exec.Ends (fun n => (readString n [] 0 false >>= fun x => pure (g x) :
      Decode w α)) (setBufferVector data) (.returned a v) ↔
        ∃ x, Exec.Ends (fun n => readString n [] 0 false) (setBufferVector data) (.returned x v) ∧
          g x = a := by
    intro v
    refine (Exec.ends_then_iff (readString_stable _ _)).trans ?_
    simp only [Exec.pure_apply, Outcome.returned.injEq]
    constructor
    · intro h
      obtain ⟨x,t,hx,rfl,rfl⟩ := h
      exact ⟨x,hx,rfl⟩
    · intro h
      obtain ⟨x,hx,rfl⟩ := h
      exact ⟨x,v,hx,rfl,rfl⟩
  rw [Exec.ends_lift_returned_iff]
  simp only [hmap]
  constructor
  · intro h
    obtain ⟨rfl,v,x,hx,rfl⟩ := h
    exact ⟨rfl,x,⟨v,hx⟩,rfl⟩
  · intro h
    obtain ⟨rfl,x,⟨v,hx⟩,rfl⟩ := h
    exact ⟨rfl,v,x,hx,rfl⟩

theorem handleFilePath_ends_iff :
    Exec.Ends (fun n => handleFilePath w n created data) d (.returned () d') ↔
      ∃ path, DecodesString w data path ∧ d.PointerOk ∧
        d' = (d.modifyCurrent FileDeleteObserver.stopWatching).install created path := by
  have hstop : ∀ {path}, (stopCurrent >>= fun _ => Exec.modify (Daemon.install created path)) d =
      .returned () d' ↔ d.PointerOk ∧
        d' = (d.modifyCurrent FileDeleteObserver.stopWatching).install created path := by
    intro path
    by_cases hp : d.PointerOk
    · rw [Exec.bind_of_returned (stopCurrent_of_ok hp)]
      simp [hp, eq_comm]
    · rw [Exec.bind_of_undefined (stopCurrent_of_not_ok hp)]
      simp [hp]
  refine (Exec.ends_then_iff filePath_readFrom_stable.lift).trans ?_
  constructor
  · intro h
    obtain ⟨a,t,ha,h⟩ := h
    obtain ⟨rfl,path,hpath,rfl⟩ := lift_payload_iff.mp ha
    exact ⟨path,hpath,hstop.mp h⟩
  · intro h
    obtain ⟨path,hpath,h⟩ := h
    exact ⟨⟨path⟩,d,lift_payload_iff.mpr ⟨rfl,path,hpath,rfl⟩,hstop.mpr h⟩

theorem handleReqOnDel_ends_iff :
    Exec.Ends (fun n => handleReqOnDel w n data) d (.returned () d') ↔
      (d.mFileObserver = none ∧ d' = d) ∨ (d.mFileObserver.isSome ∧ d.PointerOk ∧
        ∃ url, DecodesString w data url ∧
          d' = d.modifyCurrent (FileDeleteObserver.setHttpRequestOnDelete url)) := by
  change Exec.Ends (fun n => if d.mFileObserver.isSome then
    Exec.lift (ReqOnDel.readFrom n ReqOnDel.init (setBufferVector (w := w) data)) >>= fun req =>
      callCurrent (FileDeleteObserver.setHttpRequestOnDelete req.sUrl) else pure ()) d _ ↔ _
  by_cases hc : d.mFileObserver.isSome
  · have hne : d.mFileObserver ≠ none := Option.isSome_iff_ne_none.mp hc
    have hcall : ∀ {url}, callCurrent (FileDeleteObserver.setHttpRequestOnDelete url) d =
        .returned () d' ↔ d.PointerOk ∧
          d' = d.modifyCurrent (FileDeleteObserver.setHttpRequestOnDelete url) := by
      intro url
      by_cases hp : d.PointerOk
      · rw [callCurrent_of_ok hp hc]
        simp [hp, eq_comm]
      · rw [callCurrent_of_not_ok hp]
        simp [hp]
    simp only [hc, if_true, hne, false_and, false_or, true_and]
    refine (Exec.ends_then_iff reqOnDel_readFrom_stable.lift).trans ⟨?_,?_⟩
    · intro h
      obtain ⟨a,t,ha,h⟩ := h
      obtain ⟨rfl,url,hurl,rfl⟩ := lift_payload_iff.mp ha
      obtain ⟨hp,hd⟩ := hcall.mp h
      exact ⟨hp,url,hurl,hd⟩
    · intro h
      obtain ⟨hp,url,hurl,hd⟩ := h
      exact ⟨⟨url⟩,d,lift_payload_iff.mpr ⟨rfl,url,hurl,rfl⟩,hcall.mpr ⟨hp,hd⟩⟩
  · have hnone : d.mFileObserver = none := by simpa using hc
    simp [hnone, Exec.ends_const_iff, eq_comm]

/-- The switch does what the message asks for, and nothing else. -/
theorem handleMsg_ends_iff : Exec.Ends (fun n => handleMsg w n created buf m) d (.returned () d') ↔
    Serves w created buf m d d' := by
  unfold handleMsg
  by_cases hhello : m.eCtrlType = eCtrlHello
  · simp only [if_pos hhello]
    rw [serves_hello_iff hhello,Exec.ends_const_iff,Exec.modify_apply]
    simp [eq_comm]
  by_cases hpath : m.eCtrlType = eCtrlFilePath
  · simp only [if_neg hhello, if_pos hpath]
    rw [serves_filePath_iff hpath,handleFilePath_ends_iff]
  by_cases hreq : m.eCtrlType = eCtrlReqOnDel
  · simp only [if_neg hhello, if_neg hpath, if_pos hreq]
    rw [serves_reqOnDel_iff hreq,handleReqOnDel_ends_iff]
  · simp only [if_neg hhello, if_neg hpath, if_neg hreq]
    rw [serves_other_iff hhello hpath hreq,Exec.ends_const_iff,Exec.pure_apply]
    simp [eq_comm]

end Switch

section Handle
variable {commSock : ℤ} {x : ℤ}

theorem handle_eq (hsock : 0 ≤ commSock) (hbuf : buf ≠ []) (n : ℕ) :
    handle w n created commSock buf =
      Exec.lift (ControlMsg.readFrom n ControlMsg.init (setBufferVector (w := w) buf)) >>=
        fun m => handleMsg w n created buf m >>= fun _ => pure 0 := by
  have hlen : buf.length ≠ 0 := fun h => hbuf (List.length_eq_zero_iff.mp h)
  unfold handle
  rw [if_neg (by omega)]

theorem handle_stable : Exec.Stable fun n => handle w n created commSock buf :=
  .ite (.const _)
    ((readFrom_stable _).lift.bind fun m => (handleMsg_stable m).bind fun _ => .const _)

/-- `handle` returns exactly when the buffer decodes and the switch gets through. -/
theorem handle_ends_iff (hsock : 0 ≤ commSock) (hbuf : buf ≠ []) :
    Exec.Ends (fun n => handle w n created commSock buf) d (.returned x d') ↔
      x = 0 ∧ ∃ m, Decodes w buf m ∧ Serves w created buf m d d' := by
  simp only [handle_eq hsock hbuf]
  have hmsg : ∀ {m : ControlMsg}, Exec.Ends (fun n => handleMsg w n created buf m >>= fun _ =>
      (pure 0 : Server ℤ)) d (.returned x d') ↔ x = 0 ∧ Serves w created buf m d d' := by
    intro m
    rw [Exec.ends_then_iff (handleMsg_stable m),← handleMsg_ends_iff]
    refine ⟨fun h => ?_,fun h => ?_⟩
    · obtain ⟨_,_,h,hx⟩ := h
      cases hx
      exact ⟨rfl,h⟩
    · exact ⟨(),d',h.2,by rw [h.1]; rfl⟩
  refine (Exec.ends_bind_returned_iff (readFrom_stable _).lift fun m =>
    (handleMsg_stable m).bind fun _ => .const _).trans ?_
  simp only [Exec.ends_lift_returned_iff]
  refine ⟨fun h => ?_,fun h => ?_⟩
  · obtain ⟨m,t,⟨rfl,v,hv⟩,h⟩ := h
    obtain ⟨rfl,hserves⟩ := hmsg.mp h
    exact ⟨rfl,m,⟨v,hv⟩,hserves⟩
  · obtain ⟨rfl,m,⟨v,hv⟩,hserves⟩ := h
    exact ⟨m,d,⟨rfl,v,hv⟩,hmsg.mpr ⟨rfl,hserves⟩⟩

end Handle

end UninstallObserver.Observer
