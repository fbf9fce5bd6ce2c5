import UninstallObserver.Observer.ObserverTraces

/-! The job of an observer: what it may do about the path it was given, and in which order. -/
namespace UninstallObserver.Observer
open ByteOrder Transition

/-- A path to watch, the URL to request when it goes, and how far that has come. -/
structure Job where
  path : List Byte
  url : List Byte
  superseded : Bool
  attempts : ℕ
  reported : Bool
  stopped : Bool
  finished : Bool
  deriving DecidableEq, Repr

namespace Job

def new (path : List Byte) : Job := ⟨path,[],false,0,false,false,false⟩

/-- The request is for the URL set last, it is made a few times and not again after a success;
then the daemon is told to stop. An observer that gives up without is superseded. -/
def act (v : Visible) (j : Job) : Option Job :=
  match v with
  | .stopWatching => if j.finished then none else some { j with superseded := true }
  | .setHttpRequestOnDelete url => if j.finished then none else some { j with url := url }
  | .sendRequest url ok =>
    if url = j.url ∧ (ok → url ≠ []) ∧ j.attempts < kFailRetryTimes ∧ !j.reported ∧ !j.stopped ∧
        !j.finished then
      some { j with attempts := j.attempts+1, reported := ok }
    else none
  | .stop =>
    if (j.attempts = 0 ∨ j.reported ∨ j.attempts = kFailRetryTimes) ∧ !j.stopped ∧ !j.finished then
      some { j with stopped := true }
    else none
  | .finish =>
    if (j.stopped ∨ (j.attempts = 0 ∧ j.superseded)) ∧ !j.finished then
      some { j with finished := true }
    else none

/-- One thing after another. -/
def acts : List Visible → Job → Option Job
  | [], j => some j
  | v::vs, j => (j.act v).bind (acts vs)

theorem acts_append (vs vs' : List Visible) (j : Job) :
    j.acts (vs ++ vs') = (j.acts vs).bind (acts vs') := by
  induction vs generalizing j with
  | nil => rfl
  | cons v vs ih =>
    rw [List.cons_append,acts,acts,Option.bind_assoc]
    congr 1
    funext j'
    exact ih j'

theorem acts_singleton (v : Visible) (j : Job) : j.acts [v] = j.act v := by
  rw [acts]
  cases j.act v <;> rfl

end Job

/-- How far the job is when the thread of its observer is there. -/
def Thread.Stage (j : Job) : Thread → Prop
  | .retrying i => j.attempts = i ∧ i ≤ kFailRetryTimes ∧ j.reported = false ∧ j.stopped = false
  | .stopping =>
    (j.attempts = 0 ∨ j.reported ∨ j.attempts = kFailRetryTimes) ∧ j.stopped = false
  | .finishing => j.stopped ∨ (j.attempts = 0 ∧ j.superseded)
  | .ended => True
  | _ => j.attempts = 0 ∧ j.reported = false ∧ j.stopped = false

/-- The observer is at this job. -/
structure Slot.At (j : Job) (s : Slot) : Prop where
  ok : s.Ok
  object : ∀ o, s.object = some o →
    o.mPath = j.path ∧ o.mUrl = j.url ∧ o.mCancelled = j.superseded ∧ j.finished = false
  stage : s.thread.Stage j

namespace Slot
variable {j : Job} {s r : Slot} {a : Act} {i : Input} {o : FileDeleteObserver}

theorem at_new (created : Bool) (path : List Byte) : (new created path).At (Job.new path) where
  ok := ok_new created path
  object := by
    intro o ho
    cases ho
    cases created <;> exact ⟨rfl,rfl,rfl,rfl⟩
  stage := by
    cases created <;> exact ⟨rfl,rfl,rfl⟩

/-- The thread has come on, and the job stands as it stood. -/
theorem At.goto {t t' : Thread} (hs : Slot.At j ⟨some o,t⟩) (hr : r = ⟨some o,t'⟩)
    (ht : t'.Stage j) : ∃ j', j.acts [] = some j' ∧ r.At j' := by
  subst hr
  exact ⟨j,rfl,⟨by simp [Slot.Ok],hs.object,ht⟩⟩

theorem At.request {transfer : Bool} {k : ℕ} (hs : Slot.At j ⟨some o,.retrying k⟩)
    (hk : k < kFailRetryTimes) :
    ∃ j', j.acts [.sendRequest o.mUrl (o.sendRequest transfer)] = some j' ∧
      Slot.At j' ⟨some o,if o.sendRequest transfer then .stopping else .retrying (k+1)⟩ := by
  obtain ⟨hpath,hurl,hcancelled,hlive⟩ := hs.object o rfl
  obtain ⟨hattempts,-,hreported,hstopped⟩ := hs.stage
  have hsent : o.sendRequest transfer → o.mUrl ≠ [] := by
    intro h hempty
    simp [FileDeleteObserver.sendRequest, hempty] at h
  refine ⟨{ j with attempts := j.attempts+1, reported := o.sendRequest transfer },?_,?_⟩
  · rw [Job.acts_singleton]
    refine if_pos ⟨hurl,hsent,?_,?_,?_,?_⟩
    · omega
    · rw [hreported]
      rfl
    · rw [hstopped]
      rfl
    · rw [hlive]
      rfl
  · refine ⟨by simp [Slot.Ok],fun o' ho' => ?_,?_⟩
    · cases ho'
      exact ⟨hpath,hurl,hcancelled,hlive⟩
    · cases hok : o.sendRequest transfer with
      | true => exact ⟨.inr (.inl rfl),hstopped⟩
      | false => exact ⟨by rw [← hattempts],hk,rfl,hstopped⟩

/-- A step of the observer's thread is a step of its job, or does not touch it. -/
theorem At.thread (hs : s.At j) (h : Slot.step i s = some r) :
    ∃ j', j.acts (shows (.thread i) s) = some j' ∧ r.At j' := by
  obtain ⟨object,t⟩ := s
  cases object with
  | none =>
    have ht : t = .ended := hs.ok rfl
    rw [ht] at h
    cases i <;> cases h
  | some o =>
    obtain ⟨hpath,hurl,hcancelled,hlive⟩ := hs.object o rfl
    cases t with
    | notCreated => cases i <;> cases h
    | quit => cases i <;> cases h
    | ended => cases i <;> cases h
    | starting =>
      obtain ⟨success,rfl,hr⟩ := step_starting h
      refine hs.goto hr ?_
      cases success <;> exact hs.stage
    | watching k =>
      rcases step_watching h with ⟨rfl,-,hr⟩ | ⟨event,rfl,-,hr⟩ | ⟨rfl,-,hr⟩
      · exact hs.goto hr hs.stage
      · refine hs.goto hr ?_
        unfold onInotify
        repeat' split
        all_goals exact hs.stage
      · obtain ⟨hattempts,-,hstopped⟩ := hs.stage
        exact hs.goto hr ⟨.inl hattempts,hstopped⟩
    | delivering =>
      obtain ⟨rfl,hr⟩ := step_delivering h
      obtain ⟨hattempts,hreported,hstopped⟩ := hs.stage
      refine hs.goto hr ?_
      cases hc : o.mCancelled with
      | true => exact .inr ⟨hattempts,by rw [← hcancelled,hc]⟩
      | false => exact ⟨hattempts,Nat.zero_le _,hreported,hstopped⟩
    | retrying k =>
      rcases step_retrying h with ⟨transfer,rfl,hk,rfl⟩ | ⟨rfl,hk,hr⟩
      · exact hs.request hk
      · obtain ⟨hattempts,-,-,hstopped⟩ := hs.stage
        exact hs.goto hr ⟨.inr (.inr (hattempts.trans hk)),hstopped⟩
    | stopping =>
      obtain ⟨rfl,rfl⟩ := step_stopping h
      obtain ⟨htried,hstopped⟩ := hs.stage
      refine ⟨{ j with stopped := true },?_,by simp [Slot.Ok],?_,.inl rfl⟩
      · change j.acts [.stop] = _
        rw [Job.acts_singleton]
        exact if_pos ⟨htried,by rw [hstopped]; rfl,by rw [hlive]; rfl⟩
      · intro o' ho'
        cases ho'
        exact ⟨hpath,hurl,hcancelled,hlive⟩
    | finishing =>
      obtain ⟨rfl,rfl⟩ := step_finishing h
      refine ⟨{ j with finished := true },?_,fun _ => rfl,by simp,trivial⟩
      change j.acts [.finish] = _
      rw [Job.acts_singleton]
      exact if_pos ⟨hs.stage,by rw [hlive]; rfl⟩

theorem stage_superseded {t : Thread} (h : t.Stage j) : t.Stage { j with superseded := true } := by
  cases t with
  | finishing => exact h.imp id fun h => ⟨h.1,rfl⟩
  | _ => exact h

theorem stage_url {t : Thread} {url : List Byte} (h : t.Stage j) :
    t.Stage { j with url := url } := by
  cases t <;> exact h

/-- So are the calls of the server. -/
theorem At.acts (hs : s.At j) (h : Acts a s r) : ∃ j', j.acts (shows a s) = some j' ∧ r.At j' := by
  cases a with
  | thread i => exact hs.thread h
  | stopWatching =>
    obtain ⟨o,ho,rfl⟩ := Option.map_eq_some_iff.mp h
    obtain ⟨hpath,hurl,-,hlive⟩ := hs.object o ho
    refine ⟨{ j with superseded := true },?_,by simp [Slot.Ok],?_,stage_superseded hs.stage⟩
    · rw [shows,Job.acts_singleton]
      exact if_neg (by simp [hlive])
    · intro o' ho'
      cases ho'
      exact ⟨hpath,hurl,rfl,hlive⟩
  | setHttpRequestOnDelete url =>
    obtain ⟨o,ho,rfl⟩ := Option.map_eq_some_iff.mp h
    obtain ⟨hpath,-,hcancelled,hlive⟩ := hs.object o ho
    refine ⟨{ j with url := url },?_,by simp [Slot.Ok],?_,stage_url hs.stage⟩
    · rw [shows,Job.acts_singleton]
      exact if_neg (by simp [hlive])
    · intro o' ho'
      cases ho'
      exact ⟨hpath,rfl,hcancelled,hlive⟩

end Slot

namespace ObserverThread
open ThreadFunc
variable {w : ℕ} {created : Bool} {path : List Byte} {vs : List Visible}
  {c : ObserverThread (QueueStruct InotifyEvent)}

/-- Whatever the events of the path, the calls of the server and the results of `curl` are, and
however they come between the steps of the code, an observer does its job. -/
theorem observer_does_job
    (h : Trace (Steps w eventQueue) shows (new created path (queueCreate [])) vs c) :
    ∃ j, (Job.new path).acts vs = some j ∧ c.slot.At j := by
  obtain ⟨r,hr,rfl,-⟩ := h.simulate (R := fun c r => r = c.slot ∧ c.Ok)
    ⟨rfl,ok_new created path _⟩ fun a c d r hcr hstep => by
      obtain ⟨rfl,hc⟩ := hcr
      obtain ⟨hd,hshown⟩ := Steps.follows hstep hc
      exact ⟨_,hshown,rfl,hd⟩
  refine hr.history (I := fun vs s => ∃ j, (Job.new path).acts vs = some j ∧ s.At j)
    ⟨_,rfl,?_⟩ fun vs a s t hs hstep => ?_
  · have hnew : slot (Q := QueueStruct InotifyEvent) (new created path (queueCreate [])) =
        Slot.new created path := by
      cases created <;> rfl
    rw [hnew]
    exact Slot.at_new created path
  · obtain ⟨j,hj,hat⟩ := hs
    obtain ⟨j',hj',hat'⟩ := hat.acts hstep
    exact ⟨j',by rw [Job.acts_append,hj,Option.bind_some,hj'],hat'⟩

/-- What the code does when "/p" is deleted and the request goes through. -/
def reporting : List Act :=
  [.setHttpRequestOnDelete [0x75],.watch (.init true),.watch (.addWatch true),.watch .next,
    .watch (.read deleteSelf.bytes),.watch (.dispatch false),.watch .next,.watch .next,
    .handler true 0,.handler true 0,.handler true 0,.handler true 0]

theorem exists_reporting : ∃ c, Trace (Steps 32 eventQueue) shows
    (new true [0x2F,0x70] (queueCreate [])) reported c :=
  ⟨_,trace_of_traceAll reporting rfl fun _ _ _ h => h⟩

theorem observer_does_job_reporting : ∃ c : ObserverThread (QueueStruct InotifyEvent),
    ∃ j, (Job.new [0x2F,0x70]).acts reported = some j ∧ c.slot.At j := by
  obtain ⟨c,hc⟩ := exists_reporting
  exact ⟨c,observer_does_job hc⟩

section Ends
variable {Q : Type} {ops : QueueOps Q} {a : Act} {as : List Act} {c d : ObserverThread Q}
  {h : Handling}

/-- The steps that the handler can take at most. -/
def stepsLeft : Handling → ℕ
  | .onEvent _ => 2*kFailRetryTimes+4
  | .onDelete i => 2*(kFailRetryTimes-i)+3
  | .sleeping i => 2*(kFailRetryTimes-i)+2
  | .stopping => 2
  | .finishing => 1

def Act.isHandler : Act → Bool
  | .handler _ _ => true
  | _ => false

/-- A step of the handler comes nearer to its end. -/
theorem handle_of_handling (hc : c.Ok) (hh : c.handling = some h) (curl : Bool)
    (res : OnDelete.CurlCode) : ∃ d, c.handle curl res = some d ∧
      (d.deleted ∨ ∃ h', d.handling = some h' ∧ stepsLeft h' < stepsLeft h) := by
  have hgoes : ∀ h', c.handle curl res = some (c.handled h') → stepsLeft h' < stepsLeft h →
      ∃ d, c.handle curl res = some d ∧
        (d.deleted ∨ ∃ h', d.handling = some h' ∧ stepsLeft h' < stepsLeft h) :=
    fun h' hstep hless => ⟨_,hstep,.inr ⟨h',rfl,hless⟩⟩
  have hcounted := hc.handling h hh
  cases h with
  | onEvent event =>
    rcases hcounted with rfl | rfl
    · refine hgoes (if c.mCancelled then .finishing else .onDelete 0) ?_ ?_
      · rw [handle,hh]
        rfl
      · split <;> decide
    · refine hgoes .stopping ?_ (by decide)
      rw [handle,hh]
      rfl
  | onDelete i =>
    by_cases hi : i < kFailRetryTimes
    · by_cases hsent : (OnDelete.curleOk : ℤ) = (OnDelete.sendRequest ⟨c.mUrl,curl,res⟩).1
      · refine hgoes .stopping ?_ ?_
        · rw [handle,hh]
          simp only [if_pos hi, if_pos hsent]
          rfl
        · simp only [stepsLeft]
          omega
      · refine hgoes (.sleeping i) ?_ ?_
        · rw [handle,hh]
          simp only [if_pos hi, if_neg hsent]
          rfl
        · simp only [stepsLeft]
          omega
    · refine hgoes .stopping ?_ ?_
      · rw [handle,hh]
        simp only [if_neg hi]
        rfl
      · simp only [stepsLeft]
        omega
  | sleeping i =>
    have hi : i < kFailRetryTimes := hcounted
    refine hgoes (.onDelete (i+1)) ?_ ?_
    · rw [handle,hh]
      rfl
    · simp only [stepsLeft]
      omega
  | stopping =>
    refine hgoes .finishing ?_ (by decide)
    rw [handle,hh]
    rfl
  | finishing =>
    refine ⟨{ c with handling := none, deleted := true },?_,.inl rfl⟩
    rw [handle,hh]

/-- While a handler runs, nothing but a step of its own takes it further. -/
theorem handling_of_step {e : ObserverThread Q} (hh : c.handling = some h)
    (hstep : Steps w ops a c e) (ha : a.isHandler = false) : e.handling = some h := by
  cases a with
  | stopWatching =>
    obtain ⟨-,hstep⟩ := Option.ite_none_left_eq_some.mp hstep
    obtain rfl := Option.some.inj hstep
    exact hh
  | setHttpRequestOnDelete url =>
    obtain ⟨-,hstep⟩ := Option.ite_none_left_eq_some.mp hstep
    obtain rfl := Option.some.inj hstep
    exact hh
  | watch a =>
    obtain ⟨⟨-,hnone,-⟩,-⟩ := Option.ite_none_right_eq_some.mp hstep
    cases hh.symm.trans hnone
  | handler curl res => cases ha

/-- An observer that is no more is not at work either. -/
theorem not_isHandler_of_deleted {e : ObserverThread Q} (hc : c.Ok) (hdeleted : c.deleted)
    (hstep : Steps w ops a c e) : a.isHandler = false ∧ e.deleted := by
  cases a with
  | stopWatching =>
    obtain ⟨hlive,-⟩ := Option.ite_none_left_eq_some.mp hstep
    exact absurd hdeleted hlive
  | setHttpRequestOnDelete url =>
    obtain ⟨hlive,-⟩ := Option.ite_none_left_eq_some.mp hstep
    exact absurd hdeleted hlive
  | watch a =>
    obtain ⟨-,hstep⟩ := Option.ite_none_right_eq_some.mp hstep
    obtain ⟨t,-,rfl⟩ := Option.map_eq_some_iff.mp hstep
    exact ⟨rfl,hdeleted⟩
  | handler curl res =>
    have hnone : c.handling = none := by
      cases hh : c.handling with
      | none => rfl
      | some h => cases hdeleted.symm.trans (hc.live (by rw [hh]; rfl))
    change c.handle curl res = some e at hstep
    rw [handle,hnone] at hstep
    cases hstep

theorem run_of_deleted (hc : c.Ok) (hdeleted : c.deleted) (hrun : Run (Steps w ops) c as d) :
    as.countP Act.isHandler = 0 ∧ d.deleted := by
  induction hrun with
  | nil => exact ⟨rfl,hdeleted⟩
  | cons head _ ih =>
    obtain ⟨ha,hnext⟩ := not_isHandler_of_deleted hc hdeleted head
    obtain ⟨hcount,hd⟩ := ih (Steps.follows head hc).1 hnext
    exact ⟨by rw [List.countP_cons_of_neg (by simp [ha]),hcount],hd⟩

theorem run_of_handling (hc : c.Ok) (hh : c.handling = some h) (hrun : Run (Steps w ops) c as d) :
    (d.deleted ∧ as.countP Act.isHandler ≤ stepsLeft h) ∨ ∃ h', d.handling = some h' ∧ d.Ok ∧
      as.countP Act.isHandler + stepsLeft h' ≤ stepsLeft h := by
  induction hrun generalizing h with
  | nil => exact .inr ⟨h,hh,hc,by simp⟩
  | @cons a as c e d head tail ih =>
    have he := (Steps.follows head hc).1
    cases ha : a.isHandler with
    | false =>
      rw [List.countP_cons_of_neg (by simp [ha])]
      exact ih he (handling_of_step hh head ha)
    | true =>
      rw [List.countP_cons_of_pos ha]
      obtain ⟨curl,res,rfl⟩ : ∃ curl res, a = .handler curl res := by
        cases a with
        | handler curl res => exact ⟨curl,res,rfl⟩
        | _ => cases ha
      obtain ⟨e',he',hnext⟩ := handle_of_handling hc hh curl res
      obtain rfl : e' = e := Option.some.inj (he'.symm.trans head)
      rcases hnext with hdeleted | ⟨h₁,hh₁,hless⟩
      · obtain ⟨hcount,hd⟩ := run_of_deleted he hdeleted tail
        refine .inl ⟨hd,?_⟩
        rw [hcount]
        cases h <;> simp only [stepsLeft] <;> omega
      · rcases ih he hh₁ with ⟨hd,hcount⟩ | ⟨h',hh',hd,hcount⟩
        · exact .inl ⟨hd,by omega⟩
        · exact .inr ⟨h',hh',hd,by omega⟩

/-- Once the delegate was called the observer goes on whatever `curl` says, and whatever comes
between its steps, it has destroyed itself after a bounded number of them. -/
theorem handler_ends {created : Bool} {path : List Byte} {queue : Q} {as' : List Act}
    (hreached : Run (Steps w ops) (new created path queue) as' c) (hh : c.handling = some h)
    (hrun : Run (Steps w ops) c as d) :
    as.countP Act.isHandler ≤ 2*kFailRetryTimes+4 ∧
      (d.deleted ∨ ∀ curl res, ∃ e, Steps w ops (.handler curl res) d e) := by
  have hc : c.Ok := hreached.invariant (ok_new created path queue) fun a s t hs hstep =>
    (Steps.follows hstep hs).1
  have hbound : stepsLeft h ≤ 2*kFailRetryTimes+4 := by
    cases h <;> simp only [stepsLeft] <;> omega
  rcases run_of_handling hc hh hrun with ⟨hd,hcount⟩ | ⟨h',hh',hd,hcount⟩
  · exact ⟨hcount.trans hbound,.inl hd⟩
  · refine ⟨by omega,.inr fun curl res => ?_⟩
    obtain ⟨e,he,-⟩ := handle_of_handling hd hh' curl res
    exact ⟨e,he⟩

theorem handler_ends_reporting : ∃ c d : ObserverThread (QueueStruct InotifyEvent),
    Run (Steps 32 eventQueue) (new true [0x2F,0x70] (queueCreate [])) (reporting.take 8) c ∧
      Run (Steps 32 eventQueue) c (reporting.drop 8) d ∧
      (reporting.drop 8).countP Act.isHandler ≤ 2*kFailRetryTimes+4 ∧
      (d.deleted ∨ ∀ curl res, ∃ e, Steps 32 eventQueue (.handler curl res) d e) := by
  have hruns : ∃ c, runAll (fun a c => c.step 32 eventQueue a) (reporting.take 8)
      (new true [0x2F,0x70] (queueCreate [])) = some c ∧
        c.handling = some (.onEvent .delete) ∧ ∃ d,
          runAll (fun a c => c.step 32 eventQueue a) (reporting.drop 8) c = some d :=
    ⟨_,rfl,rfl,_,rfl⟩
  obtain ⟨c,hreached,hh,d,hrun⟩ := hruns
  have hreached := run_of_runAll hreached fun _ _ _ h => (h : Steps 32 eventQueue _ _ _)
  have hrun := run_of_runAll hrun fun _ _ _ h => (h : Steps 32 eventQueue _ _ _)
  exact ⟨c,d,hreached,hrun,handler_ends hreached hh hrun⟩

end Ends

end ObserverThread
end UninstallObserver.Observer
