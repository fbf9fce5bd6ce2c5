import UninstallObserver.Observer.ObserverFollows

/-! Observers of the daemon's model and observers as the code has them show the same. -/
namespace UninstallObserver.Observer
open ByteOrder Transition

namespace Slot
variable {o : FileDeleteObserver} {i : Input} {k : ℕ} {r : Slot}

theorem step_starting (h : Slot.step i ⟨some o,.starting⟩ = some r) :
    ∃ success, i = .setUp success ∧ r = ⟨some o,if success then .watching 0 else .quit⟩ := by
  cases i with
  | setUp success => exact ⟨success,rfl,(Option.some.inj h).symm⟩
  | _ => cases h

theorem step_watching (h : Slot.step i ⟨some o,.watching k⟩ = some r) :
    (i = .readFails ∧ k < kFailedRetryTimes ∧ r = ⟨some o,.watching (k+1)⟩) ∨
    (∃ event, i = .event event ∧ k < kFailedRetryTimes ∧ r = ⟨some o,onInotify o event k⟩) ∨
    (i = .next ∧ k = kFailedRetryTimes ∧ r = ⟨some o,.stopping⟩) := by
  cases i with
  | readFails =>
    obtain ⟨hk,h⟩ := Option.ite_none_right_eq_some.mp h
    exact .inl ⟨rfl,hk,(Option.some.inj h).symm⟩
  | event event =>
    obtain ⟨hk,h⟩ := Option.ite_none_right_eq_some.mp h
    exact .inr (.inl ⟨event,rfl,hk,(Option.some.inj h).symm⟩)
  | next =>
    obtain ⟨hk,h⟩ := Option.ite_none_right_eq_some.mp h
    exact .inr (.inr ⟨rfl,hk,(Option.some.inj h).symm⟩)
  | _ => cases h

theorem step_delivering (h : Slot.step i ⟨some o,.delivering⟩ = some r) :
    i = .next ∧ r = ⟨some o,if o.mCancelled then .finishing else .retrying 0⟩ := by
  cases i with
  | next => exact ⟨rfl,(Option.some.inj h).symm⟩
  | _ => cases h

theorem step_retrying (h : Slot.step i ⟨some o,.retrying k⟩ = some r) :
    (∃ transfer, i = .request transfer ∧ k < kFailRetryTimes ∧
      r = ⟨some o,if o.sendRequest transfer then .stopping else .retrying (k+1)⟩) ∨
    (i = .next ∧ k = kFailRetryTimes ∧ r = ⟨some o,.stopping⟩) := by
  cases i with
  | request transfer =>
    obtain ⟨hk,h⟩ := Option.ite_none_right_eq_some.mp h
    exact .inl ⟨transfer,rfl,hk,(Option.some.inj h).symm⟩
  | next =>
    obtain ⟨hk,h⟩ := Option.ite_none_right_eq_some.mp h
    exact .inr ⟨rfl,hk,(Option.some.inj h).symm⟩
  | _ => cases h

theorem step_stopping (h : Slot.step i ⟨some o,.stopping⟩ = some r) :
    i = .next ∧ r = ⟨some o,.finishing⟩ := by
  cases i with
  | next => exact ⟨rfl,(Option.some.inj h).symm⟩
  | _ => cases h

theorem step_finishing (h : Slot.step i ⟨some o,.finishing⟩ = some r) :
    i = .next ∧ r = ⟨none,.ended⟩ := by
  cases i with
  | next => exact ⟨rfl,(Option.some.inj h).symm⟩
  | _ => cases h

end Slot

namespace ObserverThread
open ThreadFunc

section Realises
variable {Q : Type} {w : ℕ} {ops : QueueOps Q} {a : ThreadFunc.Act}
  {c d : ObserverThread (QueueStruct InotifyEvent)} {t : Watch (QueueStruct InotifyEvent)}
  {path p : List Byte} {r : Slot} {vs : List Visible} {i : Input} {k : ℕ}

/-- Between two steps of the observer that the daemon can tell. -/
structure Settled (path : List Byte) (c : ObserverThread (QueueStruct InotifyEvent)) : Prop where
  ok : c.Ok
  path : c.watch.fileObserver.mPath = path
  queued : ∃ es, Queued c.watch.queue es
  watching : c.handling = none → c.deleted = false →
    c.watch.pc = .entry ∨ (∃ k, c.watch.pc = .head true k) ∨
      (∃ k, c.watch.pc = .notifying k .delete) ∨ c.watch.pc = .returned
  handling : ∀ h, c.handling = some h → (∃ i, h = .onDelete i) ∨ h = .stopping ∨ h = .finishing

theorem settled_new (created : Bool) (path : List Byte) :
    (new created path (queueCreate [])).Settled path where
  ok := ok_new created path _
  path := by
    cases created <;> rfl
  queued := ⟨[],queued_queueCreate []⟩
  watching := fun _ _ => .inl rfl
  handling := by simp [new]

/-- From `c` on the code can show `vs` and come to what the daemon takes for `r`. -/
def Realises (w : ℕ) (path : List Byte) (c : ObserverThread (QueueStruct InotifyEvent))
    (vs : List Visible) (r : Slot) : Prop :=
  ∃ d, Trace (Steps w eventQueue) shows c vs d ∧ d.slot = r ∧ d.Settled path

/-- A step of the watching thread that calls nobody. -/
theorem watch_trace (hcreated : c.created) (hh : c.handling = none) (ha : a ≠ .stop)
    (h : Moves w eventQueue c.watch a t) :
    Trace (Steps w eventQueue) shows c [] (c.goOn t) := by
  refine .silent (l := .watch a) ?_ rfl
  change (if _ then _ else _) = _
  rw [if_pos ⟨hcreated,hh,ha⟩,h.step]
  rfl

theorem handler_trace {curl : Bool} {res : OnDelete.CurlCode}
    (hstep : c.handle curl res = some d) :
    Trace (Steps w eventQueue) shows c (shows (.handler curl res) c) d := .single hstep

theorem Settled.handled {h h' : Handling} (hc : c.Settled path) (hh : c.handling = some h)
    (hcounted : h'.Counted)
    (hsettled : (∃ i, h' = .onDelete i) ∨ h' = .stopping ∨ h' = .finishing) :
    (c.handled h').Settled path where
  ok := ok_handled hc.ok hh hcounted
  path := hc.path
  queued := hc.queued
  watching := by simp [ObserverThread.handled]
  handling := by
    rintro _ ⟨⟩
    exact hsettled

section Watching
variable {o : FileDeleteObserver}

theorem slot_of_watching (hlive : c.deleted = false) (hcreated : c.created)
    (hh : c.handling = none) : c.slot =
      ⟨some ⟨c.mCancelled,c.mPath,c.mUrl,c.watch.fileObserver⟩,c.watch.pc.thread⟩ := by
  rw [slot,object_of_live hlive,thread_of_watching hlive hcreated hh]

theorem trace_append {s t : Watch Q} (h : Moves w ops s a t) :
    ∃ actions, t.trace = s.trace ++ actions := by
  cases h with
  | stops => exact ⟨[],(List.append_nil _).symm⟩
  | _ => exact ⟨_,rfl⟩

theorem calls_le {s t : Watch Q} (h : Moves w ops s a t) :
    (calls s.trace).length ≤ (calls t.trace).length := by
  obtain ⟨actions,htrace⟩ := trace_append h
  rw [htrace,calls_append,List.length_append]
  exact Nat.le_add_right _ _

theorem calls_le_run {s t : Watch Q} {ls : List ThreadFunc.Act} (h : Run (Step w ops) s ls t) :
    (calls s.trace).length ≤ (calls t.trace).length := by
  induction h with
  | nil => exact le_rfl
  | cons head _ ih => exact (calls_le (Moves.of_step head)).trans ih

/-- Without a call more there is none in the actions of the step. -/
theorem called_eq_none {s t : Watch Q} (h : Moves w ops s a t)
    (hcalls : (calls t.trace).length ≤ (calls s.trace).length) : called s t = none := by
  obtain ⟨actions,htrace⟩ := trace_append h
  rw [htrace,calls_append,List.length_append] at hcalls
  have hnone : calls actions = [] := List.eq_nil_of_length_eq_zero (by omega)
  rw [called,htrace,List.drop_left,hnone]
  rfl

/-- Steps of the watching thread that call nobody. -/
theorem quiet_trace {ls : List ThreadFunc.Act} (hcreated : c.created) (hh : c.handling = none)
    (hrun : Run (Step w eventQueue) c.watch ls t) (hstop : ∀ a ∈ ls, a ≠ .stop)
    (hcalls : (calls t.trace).length ≤ (calls c.watch.trace).length) :
    Trace (Steps w eventQueue) shows c [] { c with watch := t } := by
  generalize hs : c.watch = s at hrun hcalls
  induction hrun generalizing c with
  | nil =>
    subst hs
    exact .nil
  | @cons a ls s u t head tail ih =>
    subst hs
    have hmoves := Moves.of_step head
    have hfirst := watch_trace hcreated hh (hstop a List.mem_cons_self) hmoves
    have hnone := called_eq_none hmoves ((calls_le_run tail).trans hcalls)
    have hgoOn : c.goOn u = { c with watch := u } := by
      rw [goOn,hnone,← hh]
    rw [hgoOn] at hfirst
    exact hfirst.append (ih (c := { c with watch := u }) hcreated hh
      (fun b hb => hstop b (List.mem_cons_of_mem a hb)) rfl (hcalls.trans (calls_le hmoves)))

theorem realises_watch {ls : List ThreadFunc.Act} (hc : c.Settled path) (hlive : c.deleted = false)
    (hcreated : c.created) (hh : c.handling = none) (hrun : Run (Step w eventQueue) c.watch ls t)
    (hstop : ∀ a ∈ ls, a ≠ .stop) (hcalls : (calls t.trace).length ≤ (calls c.watch.trace).length)
    (hobserver : t.fileObserver = c.watch.fileObserver) (hqueued : ∃ es, Queued t.queue es)
    (hpc : t.pc = .entry ∨ (∃ k, t.pc = .head true k) ∨ (∃ k, t.pc = .notifying k .delete) ∨
      t.pc = .returned) (hbefore : t.pc.Before) :
    Realises w path c [] ⟨c.object,t.pc.thread⟩ := by
  refine ⟨_,quiet_trace hcreated hh hrun hstop hcalls,?_,?_,?_,hqueued,fun _ _ => hpc,?_⟩
  · rw [slot,thread_of_watching (c := { c with watch := t }) hlive hcreated hh]
    simp only [object, hobserver]
  · exact ⟨by rw [hobserver]; exact hc.ok.filter,fun _ _ => hbefore,by simp [hlive, hh],
      by simp [hh],by simp [hh],by simp [hh]⟩
  · rw [hobserver]
    exact hc.path
  · simp [hh]

/-- From the start to the loop, or out of the thread. -/
theorem realises_setUp (hc : c.Settled path) (hpath : watchPath w (cString path) = some p)
    (hlive : c.deleted = false) (hcreated : c.created) (hh : c.handling = none)
    (hpc : c.watch.pc = .entry) (success : Bool) :
    Realises w path c [] ⟨c.object,if success then .watching 0 else .quit⟩ := by
  let s₁ := c.watch.goto .adding [.useObserver,.inotifyInit]
  have hwatch : watchPath w s₁.path = some p := by
    change watchPath w (cString c.watch.fileObserver.mPath) = _
    rw [hc.path,hpath]
  have hinit : Step w eventQueue (.init true) c.watch s₁ := (Moves.inits hpc).step
  have hadd : Step w eventQueue (.addWatch success) s₁
      (s₁.goto (if success then .head true 0 else .returned) [.addWatch p]) :=
    (Moves.adds rfl hwatch).step
  have hrun := Run.cons hinit (Run.cons hadd .nil)
  have h := realises_watch hc hlive hcreated hh hrun (by simp) (by simp [s₁, Watch.goto, calls])
    rfl hc.queued ?_ ?_
  · cases success
    · exact h
    · exact h
  · cases success
    · exact .inr (.inr (.inr rfl))
    · exact .inr (.inl ⟨0,rfl⟩)
  · cases success
    · trivial
    · exact Nat.zero_le _

/-- A read that fails. -/
theorem realises_readFails (hc : c.Settled path) (hlive : c.deleted = false)
    (hcreated : c.created) (hh : c.handling = none) (hpc : c.watch.pc = .head true k)
    (hk : k < kFailedRetryTimes) : Realises w path c [] ⟨c.object,.watching (k+1)⟩ := by
  let s₁ := c.watch.goto (.reading k) []
  have hloop : Step w eventQueue .next c.watch s₁ := by
    have h : Step w eventQueue .next c.watch _ := (Moves.loops hpc).step
    rwa [if_pos ⟨rfl,hk⟩] at h
  have hfail : Step w eventQueue .readFails s₁ (s₁.goto (.head true (k+1)) []) :=
    (Moves.fails rfl).step
  exact realises_watch hc hlive hcreated hh (.cons hloop (.cons hfail .nil)) (by simp)
    (by simp [s₁, Watch.goto]) rfl hc.queued (.inr (.inl ⟨_,rfl⟩)) hk

/-- The path has gone, and the observer was not stopped. -/
theorem realises_delete (hc : c.Settled path) (hlive : c.deleted = false)
    (hcreated : c.created) (hh : c.handling = none) (hpc : c.watch.pc = .head true k)
    (hk : k < kFailedRetryTimes) (hrunning : c.watch.fileObserver.isStopped = false) :
    Realises w path c [] ⟨c.object,.delivering⟩ := by
  let s₁ := c.watch.goto (.reading k) []
  have hloop : Step w eventQueue .next c.watch s₁ := by
    have h : Step w eventQueue .next c.watch _ := (Moves.loops hpc).step
    rwa [if_pos ⟨rfl,hk⟩] at h
  have hparse : InotifyEvent.parse deleteSelf.bytes = some [deleteSelf] := by
    have h := InotifyEvent.parse_flatten [deleteSelf]
    rwa [List.map_singleton,List.flatten_singleton] at h
  obtain ⟨q,hfill,hq⟩ := fill_eventQueue (q := s₁.queue) hparse
  let s₂ := ({ s₁ with queue := q, curEventFilename := none }).goto (.dispatching k) []
  have hread : Step w eventQueue (.read deleteSelf.bytes) s₁ s₂ :=
    (Moves.reads rfl (by decide) hfill).step
  obtain ⟨q',htake,hq'⟩ := hq.dequeue
  let s₃ := ({ s₂ with queue := q', curEventFilename := filenameAt none deleteSelf }).goto
    (.checking k (classify deleteSelf false))
    (if kind deleteSelf = inCloseNowrite then [.isFileExist s₂.path] else [])
  have hdispatch : Step w eventQueue (.dispatch false) s₂ s₃ :=
    (Moves.dispatches rfl htake rfl).step
  have hother : kind deleteSelf ≠ inCloseNowrite := by decide
  have hcheck : Step w eventQueue .next s₃ (s₃.goto (.notifying k .delete) [.useObserver]) :=
    (Moves.checks (s := s₃) rfl hrunning).step
  exact realises_watch hc hlive hcreated hh
    (.cons hloop (.cons hread (.cons hdispatch (.cons hcheck .nil)))) (by simp)
    (by simp [s₃, s₂, s₁, Watch.goto, calls, hother]) rfl ⟨_,hq'⟩ (.inr (.inr (.inl ⟨k,rfl⟩)))
    ⟨hk,by decide⟩

theorem Realises.after {c₁ : ObserverThread (QueueStruct InotifyEvent)}
    (htrace : Trace (Steps w eventQueue) shows c [] c₁) (h : Realises w path c₁ vs r) :
    Realises w path c vs r := by
  obtain ⟨d,hd,hslot,hsettled⟩ := h
  exact ⟨d,htrace.append hd,hslot,hsettled⟩

/-- The delegate is called and makes its first step. -/
theorem realises_call {event : Event} (h' : Handling) (hok : c.Ok)
    (hpath : c.watch.fileObserver.mPath = path) (hlive : c.deleted = false)
    (hcreated : c.created) (hh : c.handling = none)
    (hmoves : Moves w eventQueue c.watch .next t)
    (hobserver : t.fileObserver = c.watch.fileObserver) (hqueued : ∃ es, Queued t.queue es)
    (hevent : event = .delete ∨ event = .error)
    (hcalled : called c.watch t = some (.onEvent event)) (hafter : t.pc.After)
    (hstep : (c.goOn t).handle false 0 = some ((c.goOn t).handled h')) (hcounted : h'.Counted)
    (hsettled : (∃ i, h' = .onDelete i) ∨ h' = .stopping ∨ h' = .finishing) :
    Realises w path c [] ⟨c.object,h'.thread⟩ := by
  have hnext : (c.goOn t).handling = some (.onEvent event) := hcalled
  have hgoOn := ok_goOn_called hok hobserver hlive hcreated hevent hcalled hafter
  have hhandler : Trace (Steps w eventQueue) shows (c.goOn t) [] ((c.goOn t).handled h') := by
    refine .silent (l := .handler false 0) hstep ?_
    simp only [shows, hnext]
  have hdone : ((c.goOn t).handled h').Ok := ok_handled hgoOn hnext hcounted
  refine ⟨_,(watch_trace hcreated hh (by simp) hmoves).append hhandler,?_,hdone,?_,hqueued,?_,?_⟩
  · rw [slot,thread_of_handling (c := (c.goOn t).handled h') hlive hcreated rfl]
    simp only [object, handled, goOn, hobserver]
  · exact (congrArg FileObserver.mPath hobserver).trans hpath
  · simp [handled]
  · rintro _ ⟨⟩
    exact hsettled

/-- `Delete` is delivered. -/
theorem realises_onDelete (hc : c.Settled path) (hlive : c.deleted = false)
    (hcreated : c.created) (hh : c.handling = none) (hpc : c.watch.pc = .notifying k .delete) :
    Realises w path c [] ⟨c.object,if c.mCancelled then .finishing else .retrying 0⟩ := by
  obtain ⟨es,hq⟩ := hc.queued
  obtain ⟨q,hdestroy,hq'⟩ := hq.destroy
  have hbefore := hc.ok.before hh hlive
  rw [hpc] at hbefore
  have htold : c.watch.fileObserver.accepts .delete :=
    (accepts_iff hc.ok.filter hbefore.2).mpr rfl
  have hmoves : Moves w eventQueue c.watch .next _ := .deletes hpc hdestroy
  have hcalled : called c.watch (({ c.watch with queue := q }).goto (.head false k)
      (c.watch.notification .delete)) = some (.onEvent .delete) := by
    rw [called_goto,notification_of_accepts htold]
    rfl
  have h := realises_call (if c.mCancelled then .finishing else .onDelete 0) hc.ok hc.path
    hlive hcreated hh hmoves rfl ⟨_,hq'⟩ (.inl rfl) hcalled ⟨rfl,hbefore.1⟩ ?_ ?_ ?_
  · cases hcancelled : c.mCancelled
    · rwa [hcancelled] at h
    · rwa [hcancelled] at h
  · have hnext : (c.goOn (({ c.watch with queue := q }).goto (.head false k)
        (c.watch.notification .delete))).handling = some (.onEvent .delete) := hcalled
    rw [handle,hnext]
    rfl
  · split
    · trivial
    · exact Nat.zero_le _
  · split
    · exact .inr (.inr rfl)
    · exact .inl ⟨0,rfl⟩

/-- The reads have failed too often. -/
theorem realises_onError (hc : c.Settled path) (hlive : c.deleted = false)
    (hcreated : c.created) (hh : c.handling = none)
    (hpc : c.watch.pc = .head true kFailedRetryTimes) :
    Realises w path c [] ⟨c.object,.stopping⟩ := by
  let s₁ := c.watch.goto (.leaving kFailedRetryTimes) []
  have hloop : Step w eventQueue .next c.watch s₁ := by
    have h : Step w eventQueue .next c.watch _ := (Moves.loops hpc).step
    rwa [if_neg (fun hlt => lt_irrefl _ hlt.2)] at h
  have hquiet := quiet_trace (w := w) hcreated hh (.cons hloop .nil) (by simp)
    (by simp [s₁, Watch.goto])
  refine .after hquiet ?_
  have hcalled : called s₁ (s₁.goto .closing (if kFailedRetryTimes = kFailedRetryTimes then
      [.onEvent .error s₁.path] else [])) = some (.onEvent .error) := by
    rw [if_pos rfl,show s₁.goto _ _ = ({ s₁ with queue := s₁.queue }).goto _ _ from rfl,called_goto]
    rfl
  have hok : Ok { c with watch := s₁ } :=
    ⟨hc.ok.filter,fun _ _ => trivial,by simp [hlive, hh],by simp [hh],by simp [hh],by simp [hh]⟩
  refine realises_call .stopping hok hc.path hlive hcreated hh (.leaves rfl) rfl hc.queued
    (.inr rfl) hcalled trivial ?_ trivial (.inr (.inl rfl))
  have hnext : (goOn (s₁.goto .closing (if kFailedRetryTimes = kFailedRetryTimes then
      [.onEvent .error s₁.path] else [])) { c with watch := s₁ }).handling =
        some (.onEvent .error) := hcalled
  rw [handle,hnext]
  rfl

end Watching

section Handler
variable {h h' : Handling} {curl : Bool} {res : OnDelete.CurlCode}

/-- One step of the handler, to where it settles. -/
theorem realises_handled (hc : c.Settled path) (hh : c.handling = some h)
    (hstep : c.handle curl res = some (c.handled h')) (hcounted : h'.Counted)
    (hsettled : (∃ i, h' = .onDelete i) ∨ h' = .stopping ∨ h' = .finishing) :
    Realises w path c (shows (.handler curl res) c) ⟨c.object,h'.thread⟩ := by
  refine ⟨_,handler_trace hstep,?_,hc.handled hh hcounted hsettled⟩
  have hlive := hc.ok.live (by rw [hh]; rfl)
  have hcreated := hc.ok.made (by rw [hh]; rfl)
  rw [slot,thread_of_handling (c := c.handled h') hlive hcreated rfl]
  rfl

/-- An attempt that turns out as the daemon's thread is told. -/
theorem realises_request {ok : Bool} (transfer : Bool) (hc : c.Settled path)
    (hh : c.handling = some (.onDelete k)) (hk : k < kFailRetryTimes)
    (hok : ok = (!c.mUrl.isEmpty && transfer)) :
    Realises w path c [.sendRequest c.mUrl ok]
      ⟨c.object,if ok then .stopping else .retrying (k+1)⟩ := by
  let res : OnDelete.CurlCode := if transfer then OnDelete.curleOk else 1
  have hsent : ok = decide ((OnDelete.curleOk : ℤ) =
      (OnDelete.sendRequest ⟨c.mUrl,true,res⟩).1) := by
    have h := OnDelete.sendRequest_transfer (a := ⟨c.mUrl,true,res⟩)
      (o := ⟨c.mCancelled,c.mPath,c.mUrl,c.watch.fileObserver⟩) rfl
    have htransfer : OnDelete.Attempt.transfer ⟨c.mUrl,true,res⟩ = transfer := by
      cases transfer <;> rfl
    rw [← h,htransfer,hok]
    rfl
  have hshows : shows (.handler true res) c = [.sendRequest c.mUrl ok] := by
    simp only [shows, hh, if_pos hk, ← hsent]
  have hstep : c.handle true res = some (c.handled (if ok then .stopping else .sleeping k)) := by
    rw [handle,hh]
    simp only [if_pos hk]
    cases ok with
    | true => exact if_pos (of_decide_eq_true hsent.symm)
    | false => exact if_neg (of_decide_eq_false hsent.symm)
  cases ok with
  | true =>
    have h := realises_handled (w := w) hc hh hstep trivial (.inr (.inl rfl))
    rwa [hshows] at h
  | false =>
    -- then the thread sleeps, and goes back to the condition of the loop
    have hhandled : (c.handled (.sleeping k)).Ok := ok_handled hc.ok hh hk
    have hlive := hc.ok.live (by rw [hh]; rfl)
    have hcreated := hc.ok.made (by rw [hh]; rfl)
    have hfirst : Trace (Steps w eventQueue) shows c [.sendRequest c.mUrl false]
        (c.handled (.sleeping k)) := hshows ▸ handler_trace hstep
    have hwakes : Trace (Steps w eventQueue) shows (c.handled (.sleeping k)) []
        (c.handled (.onDelete (k+1))) := .silent (l := .handler false 0) rfl rfl
    refine ⟨_,hfirst.append hwakes,?_,hc.handled hh hk (.inl ⟨k+1,rfl⟩)⟩
    rw [slot,thread_of_handling (c := c.handled (.onDelete (k+1))) hlive hcreated rfl]
    rfl

end Handler

/-- A call of the server. -/
theorem realises_call_of_server {f : FileDeleteObserver → FileDeleteObserver} {a : Act}
    {v : Visible} (h : c.slot.call f = some r)
    (hshows : shows a c = [v])
    (hstep : c.deleted = false → ∃ d, Steps w eventQueue a c d ∧ d.Settled path ∧
      d.object = c.object.map f ∧ d.thread = c.thread) : Realises w path c [v] r := by
  obtain ⟨o,ho,rfl⟩ := Option.map_eq_some_iff.mp h
  have hlive : c.deleted = false := by
    by_contra hdeleted
    change c.object = _ at ho
    rw [object,if_pos (by simpa using hdeleted)] at ho
    cases ho
  obtain ⟨d,hd,hsettled,hobject,hthread⟩ := hstep hlive
  refine ⟨d,.visible hd hshows,?_,hsettled⟩
  change c.object = _ at ho
  rw [slot,hobject,hthread,ho]
  rfl

theorem realises_handler {h : Handling} (hc : c.Settled path) (hh : c.handling = some h)
    (hstep : Slot.step i c.slot = some r) :
    Realises w path c (Slot.shows (.thread i) c.slot) r := by
  have hlive := hc.ok.live (by rw [hh]; rfl)
  have hthread := thread_of_handling hlive (hc.ok.made (by rw [hh]; rfl)) hh
  have hobject := object_of_live hlive
  have hslot : c.slot = ⟨some ⟨c.mCancelled,c.mPath,c.mUrl,c.watch.fileObserver⟩,h.thread⟩ := by
    rw [slot,hthread,hobject]
  rw [hslot] at hstep ⊢
  have hcounted := hc.ok.handling h hh
  rcases hc.handling h hh with ⟨k,rfl⟩ | rfl | rfl
  · rcases Slot.step_retrying hstep with ⟨transfer,rfl,hk,rfl⟩ | ⟨rfl,hk,rfl⟩
    · have h := realises_request (w := w) transfer hc hh hk rfl
      rwa [hobject] at h
    · have hnext : c.handle false 0 = some (c.handled .stopping) := by
        rw [handle,hh]
        exact if_neg (by omega)
      have h := realises_handled (w := w) hc hh hnext trivial (.inr (.inl rfl))
      rw [hobject] at h
      have hshows : shows (.handler false 0) c = [] := by
        simp only [shows, hh, if_neg (show ¬ k < kFailRetryTimes by omega)]
      rwa [hshows] at h
  · obtain ⟨rfl,rfl⟩ := Slot.step_stopping hstep
    have hnext : c.handle false 0 = some (c.handled .finishing) := by
      rw [handle,hh]
      rfl
    have h := realises_handled (w := w) hc hh hnext trivial (.inr (.inr rfl))
    have hshows : shows (.handler false 0) c = [.stop] := by
      simp only [shows, hh]
    rwa [hobject,hshows] at h
  · obtain ⟨rfl,rfl⟩ := Slot.step_finishing hstep
    have hnext : c.handle false 0 = some { c with handling := none, deleted := true } := by
      rw [handle,hh]
    have hshows : shows (.handler false 0) c = [.finish] := by
      simp only [shows, hh]
    have htrace := handler_trace (w := w) hnext
    rw [hshows] at htrace
    refine ⟨_,htrace,?_,ok_deleted hc.ok hh,hc.path,hc.queued,?_,?_⟩
    · rfl
    · simp
    · simp

/-- An event of the path, of which only the deletion of a path that is still watched matters. -/
theorem realises_event (hc : c.Settled path) (hlive : c.deleted = false) (hcreated : c.created)
    (hh : c.handling = none) (hpc : c.watch.pc = .head true k) (hk : k < kFailedRetryTimes)
    (event : Event) :
    Realises w path c [] ⟨some ⟨c.mCancelled,c.mPath,c.mUrl,c.watch.fileObserver⟩,
      Slot.onInotify ⟨c.mCancelled,c.mPath,c.mUrl,c.watch.fileObserver⟩ event k⟩ := by
  have hstays : Realises w path c []
      ⟨some ⟨c.mCancelled,c.mPath,c.mUrl,c.watch.fileObserver⟩,.watching k⟩ := by
    refine ⟨c,.nil,?_,hc⟩
    rw [slot_of_watching hlive hcreated hh,hpc]
    rfl
  unfold Slot.onInotify
  cases hrunning : c.watch.fileObserver.isStopped with
  | true =>
    rw [if_pos rfl]
    exact hstays
  | false =>
    rw [if_neg (by decide)]
    by_cases hevent : event = .delete
    · have htold : c.watch.fileObserver.accepts event :=
        (accepts_iff hc.ok.filter (by rw [hevent]; decide)).mpr hevent
      rw [if_pos hevent,if_pos htold]
      have h := realises_delete (w := w) hc hlive hcreated hh hpc hk hrunning
      rwa [object_of_live hlive] at h
    · rw [if_neg hevent]
      exact hstays

theorem realises_watching (hc : c.Settled path) (hpath : watchPath w (cString path) = some p)
    (hlive : c.deleted = false) (hcreated : c.created) (hh : c.handling = none)
    (hstep : Slot.step i c.slot = some r) :
    Realises w path c (Slot.shows (.thread i) c.slot) r := by
  have hobject := object_of_live hlive
  have hslot := slot_of_watching hlive hcreated hh
  rw [hslot] at hstep ⊢
  rcases hc.watching hh hlive with hpc | ⟨k,hpc⟩ | ⟨k,hpc⟩ | hpc
  · rw [hpc] at hstep ⊢
    obtain ⟨success,rfl,rfl⟩ := Slot.step_starting hstep
    have h := realises_setUp hc hpath hlive hcreated hh hpc success
    rwa [hobject] at h
  · rw [hpc] at hstep ⊢
    rcases Slot.step_watching hstep with ⟨rfl,hk,rfl⟩ | ⟨event,rfl,hk,rfl⟩ | ⟨rfl,hk,rfl⟩
    · have h := realises_readFails (w := w) hc hlive hcreated hh hpc hk
      rwa [hobject] at h
    · exact realises_event hc hlive hcreated hh hpc hk event
    · subst hk
      have h := realises_onError (w := w) hc hlive hcreated hh hpc
      rwa [hobject] at h
  · rw [hpc] at hstep ⊢
    obtain ⟨rfl,rfl⟩ := Slot.step_delivering hstep
    have h := realises_onDelete (w := w) hc hlive hcreated hh hpc
    rwa [hobject] at h
  · rw [hpc] at hstep
    cases i <;> cases hstep

/-- Whatever an observer of the daemon does, its code can do it too, and shows as much. -/
theorem Settled.realises {a : Slot.Act} (hc : c.Settled path)
    (hpath : watchPath w (cString path) = some p) (h : Slot.Acts a c.slot r) :
    Realises w path c (Slot.shows a c.slot) r := by
  cases a with
  | stopWatching =>
    refine realises_call_of_server (a := .stopWatching) h rfl fun hlive => ?_
    refine ⟨_,if_neg (by simp [hlive]),?_,?_,rfl⟩
    · exact ⟨⟨hc.ok.filter,hc.ok.before,hc.ok.after,hc.ok.handling,hc.ok.live,hc.ok.made⟩,hc.path,
        hc.queued,hc.watching,hc.handling⟩
    · simp only [object, hlive]
      rfl
  | setHttpRequestOnDelete url =>
    refine realises_call_of_server (a := .setHttpRequestOnDelete url) h rfl fun hlive => ?_
    refine ⟨_,if_neg (by simp [hlive]),?_,?_,rfl⟩
    · exact ⟨⟨hc.ok.filter,hc.ok.before,hc.ok.after,hc.ok.handling,hc.ok.live,hc.ok.made⟩,hc.path,
        hc.queued,hc.watching,hc.handling⟩
    · simp only [object, hlive]
      rfl
  | thread i =>
    by_cases hdeleted : c.deleted
    · have hslot : c.slot = ⟨none,.ended⟩ := by
        simp [slot, object, ObserverThread.thread, hdeleted]
      rw [hslot] at h
      cases i <;> cases h
    have hlive : c.deleted = false := by simpa using hdeleted
    cases hh : c.handling with
    | some g => exact realises_handler hc hh h
    | none =>
      by_cases hcreated : c.created
      · exact realises_watching hc hpath hlive hcreated hh h
      · have hthread : c.thread = .notCreated := by
          simp [ObserverThread.thread, hlive, hcreated]
        have hslot : c.slot = ⟨some ⟨c.mCancelled,c.mPath,c.mUrl,c.watch.fileObserver⟩,.notCreated⟩ := by
          rw [slot,hthread,object_of_live hlive]
        rw [hslot] at h
        cases i <;> cases h

/-- Whatever the threads of the daemon do to an observer, and whatever its own thread does: what
can be seen of it in the daemon's model can be seen of its code, and the other way round. -/
theorem observer_shows_iff (created : Bool) (hpath : (watchPath w (cString path)).isSome)
    (vs : List Visible) (r : Slot) :
    (∃ c, Trace (Steps w eventQueue) shows (new created path (queueCreate [])) vs c ∧
      c.slot = r) ↔ Trace Slot.Acts Slot.shows (Slot.new created path) vs r := by
  have hnew : slot (Q := QueueStruct InotifyEvent) (new created path (queueCreate [])) =
      Slot.new created path := by
    cases created <;> rfl
  rw [← hnew]
  constructor
  · rintro ⟨c,htrace,rfl⟩
    obtain ⟨r,hr,rfl,-⟩ := htrace.simulate (R := fun c r => r = c.slot ∧ c.Ok)
      ⟨rfl,ok_new created path _⟩ fun a c d r hcr hstep => by
        obtain ⟨rfl,hc⟩ := hcr
        obtain ⟨hd,hshown⟩ := Steps.follows hstep hc
        exact ⟨_,hshown,rfl,hd⟩
    exact hr
  · intro htrace
    obtain ⟨p,hp⟩ := Option.isSome_iff_exists.mp hpath
    obtain ⟨c,hc,hslot,-⟩ := htrace.simulate (R := fun r c => c.slot = r ∧ Settled path c)
      ⟨rfl,settled_new created path⟩ fun a r r' c hrc hstep => by
        obtain ⟨rfl,hc⟩ := hrc
        exact hc.realises hp hstep
    exact ⟨c,hc,hslot⟩

/-- "/p" is deleted, and the request for "u" goes through. -/
def reported : List Visible :=
  [.setHttpRequestOnDelete [0x75],.sendRequest [0x75] true,.stop,.finish]

theorem observer_shows_reported :
    ∃ c, Trace (Steps 32 eventQueue) shows (new true [0x2F,0x70] (queueCreate [])) reported c ∧
      c.slot = ⟨none,.ended⟩ := by
  refine (observer_shows_iff true (by decide) reported ⟨none,.ended⟩).mpr ?_
  exact trace_of_traceAll [.setHttpRequestOnDelete [0x75],.thread (.setUp true),
    .thread (.event .delete),.thread .next,.thread (.request true),.thread .next,.thread .next]
    rfl fun _ _ _ h => h

end Realises

end ObserverThread
end UninstallObserver.Observer
