import UninstallObserver.Observer.ObserverThread

/-! Whatever the code of an observer does, an observer of the daemon's model does it too. -/
namespace UninstallObserver.Observer
open ByteOrder Transition

/-- The handler is told of `Delete` and `Error`, and counts its requests. -/
def Handling.Counted : Handling → Prop
  | .onEvent event => event = .delete ∨ event = .error
  | .onDelete i => i ≤ kFailRetryTimes
  | .sleeping i => i < kFailRetryTimes
  | .stopping | .finishing => True

namespace ObserverThread
open ThreadFunc

variable {Q : Type} {w : ℕ} {ops : QueueOps Q} {s t : Watch Q} {a : ThreadFunc.Act}
  {c d : ObserverThread Q}

section Thread

/-- What a thread that calls nobody comes to. -/
inductive Comes : Thread → Thread → Prop
  | stays {x : Thread} : Comes x x
  | setUp (success : Bool) : Comes .starting (if success then .watching 0 else .quit)
  | readFails {k : ℕ} (few : k < kFailedRetryTimes) : Comes (.watching k) (.watching (k+1))

/-- What a step of the watching thread comes to, before it has called the delegate. -/
inductive Passes (o : FileObserver) (s t : Watch Q) : Prop
  | silent (called : called s t = none) (before : t.pc.Before)
      (comes : Comes s.pc.thread t.pc.thread)
  | delivers {k : ℕ} (called : called s t = none) (before : t.pc.Before)
      (few : k < kFailedRetryTimes) (running : o.isStopped = false)
      (thread : s.pc.thread = .watching k) (thread' : t.pc.thread = .delivering)
  | deletes (called : called s t = some (.onEvent .delete)) (after : t.pc.After)
      (thread : s.pc.thread = .delivering)
  | fails (called : called s t = some (.onEvent .error)) (after : t.pc.After)
      (thread : s.pc.thread = .watching kFailedRetryTimes)

theorem called_goto {q : Q} {cur : Option InotifyEvent} {pc : Pc}
    {actions : List ThreadFunc.Action} :
    called s (({ s with queue := q, curEventFilename := cur }).goto pc actions) =
      (calls actions).head?.map fun c => .onEvent c.1 := by
  unfold called Watch.goto
  rw [List.drop_left]

theorem called_nothing {q : Q} {cur : Option InotifyEvent} {pc : Pc}
    {actions : List ThreadFunc.Action} (h : calls actions = []) :
    called s (({ s with queue := q, curEventFilename := cur }).goto pc actions) = none := by
  rw [called_goto,h]
  rfl

/-- The delegate is only ever told of `Delete` and `Error`. -/
theorem passes (h : Moves w ops s a t) (ha : a ≠ .stop)
    (hfilter : s.fileObserver.mEventFilter = deleteOrError) (hs : s.pc.Before) :
    t.fileObserver = s.fileObserver ∧ Passes s.fileObserver s t := by
  cases h with
  | stops => exact absurd rfl ha
  | @inits success pc =>
    refine ⟨rfl,.silent (called_nothing rfl) ?_ ?_⟩
    · cases success <;> trivial
    · cases success
      · simp only [pc]
        exact .setUp false
      · simp only [pc]
        exact .stays
  | @adds success p pc path =>
    refine ⟨rfl,.silent (called_nothing rfl) ?_ ?_⟩
    · cases success
      · trivial
      · exact Nat.zero_le _
    · rw [pc]
      cases success
      · exact .setUp false
      · exact .setUp true
  | @loops loop k pc =>
    refine ⟨rfl,.silent (called_nothing rfl) ?_ ?_⟩
    · change Pc.Before (if _ then _ else _)
      split
      · next h => exact h.2
      · trivial
    · change Comes _ (Pc.thread (if _ then _ else _))
      rw [pc] at hs ⊢
      cases loop with
      | false =>
        have hk : k ≠ kFailedRetryTimes := hs.ne
        simp only [Bool.false_eq_true, false_and, if_false, Pc.thread, hk]
        exact .stays
      | true =>
        by_cases hk : k < kFailedRetryTimes
        · simp only [hk, and_true, if_true, Pc.thread]
          exact .stays
        · have heq : k = kFailedRetryTimes := le_antisymm hs (not_lt.mp hk)
          simp only [heq, lt_irrefl, and_false, if_false, if_true, Pc.thread]
          exact .stays
  | @fails k pc =>
    rw [pc] at hs
    refine ⟨rfl,.silent (called_nothing rfl) hs ?_⟩
    rw [pc]
    exact .readFails hs
  | @reads k buffer q pc =>
    rw [pc] at hs
    refine ⟨rfl,.silent (called_nothing rfl) hs ?_⟩
    rw [pc]
    exact .stays
  | @dispatches k fileExists e q pc taken =>
    rw [pc] at hs
    refine ⟨rfl,.silent (called_nothing ?_) ⟨hs,classify_ne_error _ _⟩ ?_⟩
    · split <;> rfl
    · rw [pc]
      exact .stays
  | @empties k q q' pc =>
    rw [pc] at hs
    refine ⟨rfl,.silent (called_nothing rfl) (Nat.le_of_lt hs) ?_⟩
    rw [pc]
    exact .stays
  | @breaks k event q pc =>
    rw [pc] at hs
    refine ⟨rfl,.silent (called_nothing rfl) (Nat.le_of_lt hs.1) ?_⟩
    rw [pc]
    exact .stays
  | @checks k event pc running =>
    rw [pc] at hs
    refine ⟨rfl,?_⟩
    by_cases hevent : event = .delete
    · refine .delivers (called_nothing rfl) hs hs.1 running (by rw [pc]; rfl) ?_
      change Pc.thread (.notifying k event) = _
      rw [Pc.thread,if_pos hevent]
    · refine .silent (called_nothing rfl) hs ?_
      change Comes _ (Pc.thread (.notifying k event))
      rw [pc,Pc.thread,Pc.thread,if_neg hevent]
      exact .stays
  | @notifies k event pc other =>
    rw [pc] at hs
    have hkept : ¬ s.fileObserver.accepts event := fun h =>
      other ((accepts_iff hfilter hs.2).mp h)
    refine ⟨rfl,.silent (called_nothing ?_) hs.1 ?_⟩
    · rw [notification_of_not_accepts hkept]
      rfl
    · rw [pc,Pc.thread,if_neg other]
      exact .stays
  | @deletes k q pc =>
    rw [pc] at hs
    have htold : s.fileObserver.accepts .delete := (accepts_iff hfilter hs.2).mpr rfl
    refine ⟨rfl,.deletes ?_ ⟨rfl,hs.1⟩ (by rw [pc]; rfl)⟩
    rw [called_goto,notification_of_accepts htold]
    rfl
  | @leaves k pc =>
    refine ⟨rfl,?_⟩
    by_cases hk : k = kFailedRetryTimes
    · refine .fails ?_ trivial (by rw [pc,Pc.thread,if_pos hk,hk])
      rw [show s.goto _ _ = ({ s with queue := s.queue }).goto _ _ from rfl,called_goto,if_pos hk]
      rfl
    · refine .silent ?_ trivial ?_
      · rw [if_neg hk]
        exact called_nothing rfl
      · rw [pc,Pc.thread,if_neg hk]
        exact .stays
  | closes pc =>
    refine ⟨rfl,.silent (called_nothing rfl) trivial ?_⟩
    rw [pc]
    exact .stays

/-- After the call nobody is told of anything. -/
theorem passes_after (h : Moves w ops s a t) (ha : a ≠ .stop) (hs : s.pc.After) :
    t.fileObserver = s.fileObserver ∧ called s t = none ∧ t.pc.After := by
  cases h with
  | stops => exact absurd rfl ha
  | @loops loop k pc =>
    rw [pc] at hs
    obtain ⟨rfl,hk⟩ := hs
    exact ⟨rfl,called_nothing rfl,hk⟩
  | @leaves k pc =>
    rw [pc] at hs
    refine ⟨rfl,?_,trivial⟩
    rw [if_neg (Nat.ne_of_lt hs)]
    exact called_nothing rfl
  | closes pc => exact ⟨rfl,called_nothing rfl,trivial⟩
  | inits pc => exact absurd hs (by rw [pc]; exact id)
  | adds pc => exact absurd hs (by rw [pc]; exact id)
  | fails pc => exact absurd hs (by rw [pc]; exact id)
  | reads pc => exact absurd hs (by rw [pc]; exact id)
  | dispatches pc => exact absurd hs (by rw [pc]; exact id)
  | empties pc => exact absurd hs (by rw [pc]; exact id)
  | breaks pc => exact absurd hs (by rw [pc]; exact id)
  | checks pc => exact absurd hs (by rw [pc]; exact id)
  | notifies pc => exact absurd hs (by rw [pc]; exact id)
  | deletes pc => exact absurd hs (by rw [pc]; exact id)

end Thread

section Follows

/-- The delegate is called once, and the observer is destroyed once the handler is done. -/
structure Ok (c : ObserverThread Q) : Prop where
  filter : c.watch.fileObserver.mEventFilter = deleteOrError
  before : c.handling = none → c.deleted = false → c.watch.pc.Before
  after : c.deleted ∨ c.handling.isSome → c.watch.pc.After
  handling : ∀ h, c.handling = some h → h.Counted
  live : c.handling.isSome → c.deleted = false
  made : c.handling.isSome → c.created

theorem ok_new (created : Bool) (path : List Byte) (queue : Q) : (new created path queue).Ok where
  filter := by
    cases created <;> rfl
  before := fun _ _ => trivial
  after := by simp [new]
  handling := by simp [new]
  live := by simp [new]
  made := by simp [new]

theorem object_of_live (hlive : c.deleted = false) :
    c.object = some ⟨c.mCancelled,c.mPath,c.mUrl,c.watch.fileObserver⟩ := by
  rw [object,hlive]
  rfl

theorem thread_of_handling {h : Handling} (hlive : c.deleted = false) (hcreated : c.created)
    (hh : c.handling = some h) : c.thread = h.thread := by
  simp [ObserverThread.thread, hlive, hcreated, hh]

theorem thread_of_watching (hlive : c.deleted = false) (hcreated : c.created)
    (hh : c.handling = none) : c.thread = c.watch.pc.thread := by
  simp [ObserverThread.thread, hlive, hcreated, hh]

/-- Code that goes on as an observer of the daemon that shows the same. -/
def Follows (c d : ObserverThread Q) (vs : List Visible) : Prop :=
  d.Ok ∧ Trace Slot.Acts Slot.shows c.slot vs d.slot

theorem follows_unseen (hd : d.Ok) (hobject : d.object = c.object) (hthread : d.thread = c.thread) :
    Follows c d [] := by
  have hslot : d.slot = c.slot := by rw [slot,slot,hobject,hthread]
  exact ⟨hd,hslot ▸ .nil⟩

/-- A step of the observer's thread. -/
theorem follows_step {i : Input} {o : FileDeleteObserver} {vs : List Visible} (hd : d.Ok)
    (hobject : c.object = some o)
    (hstep : Slot.step i ⟨some o,c.thread⟩ = some d.slot)
    (hshows : Slot.shows (.thread i) ⟨some o,c.thread⟩ = vs) : Follows c d vs := by
  have hslot : c.slot = ⟨some o,c.thread⟩ := by rw [slot,hobject]
  have hacts : Slot.Acts (.thread i) c.slot d.slot := by
    rw [hslot]
    exact hstep
  have h : Trace Slot.Acts Slot.shows c.slot (Slot.shows (.thread i) c.slot) d.slot :=
    .single hacts
  rw [hslot,hshows,← hslot] at h
  exact ⟨hd,h⟩

/-- A step that calls nobody leaves the observer watching. -/
theorem ok_goOn (hc : c.Ok) (hobserver : t.fileObserver = c.watch.fileObserver)
    (hlive : c.deleted = false) (hcalled : called c.watch t = none) (hbefore : t.pc.Before) :
    (c.goOn t).Ok where
  filter := by
    change t.fileObserver.mEventFilter = _
    rw [hobserver]
    exact hc.filter
  before := fun _ _ => hbefore
  after := by simp [goOn, hcalled, hlive]
  handling := by simp [goOn, hcalled]
  live := by simp [goOn, hcalled]
  made := by simp [goOn, hcalled]

/-- A step that calls the delegate leaves the observer in its handler. -/
theorem ok_goOn_called {event : Event} (hc : c.Ok)
    (hobserver : t.fileObserver = c.watch.fileObserver) (hlive : c.deleted = false)
    (hcreated : c.created) (hevent : event = .delete ∨ event = .error)
    (hcalled : called c.watch t = some (.onEvent event)) (hafter : t.pc.After) :
    (c.goOn t).Ok where
  filter := by
    change t.fileObserver.mEventFilter = _
    rw [hobserver]
    exact hc.filter
  before := by simp [goOn, hcalled]
  after := fun _ => hafter
  handling := by
    intro h hh
    cases hcalled.symm.trans hh
    exact hevent
  live := fun _ => hlive
  made := fun _ => hcreated

/-- The watching thread of an observer that is no more shows nothing. -/
theorem watch_follows_deleted (hc : c.Ok) (h : Moves w ops c.watch a t) (ha : a ≠ .stop)
    (hdeleted : c.deleted) : Follows c (c.goOn t) [] := by
  obtain ⟨hobserver,hcalled,hafter⟩ := passes_after h ha (hc.after (.inl hdeleted))
  refine follows_unseen ⟨?_,?_,fun _ => hafter,?_,?_,?_⟩ ?_ ?_
  · change t.fileObserver.mEventFilter = _
    rw [hobserver]
    exact hc.filter
  · intro _ hlive
    cases hdeleted.symm.trans hlive
  · simp [goOn, hcalled]
  · simp [goOn, hcalled]
  · simp [goOn, hcalled]
  · simp [object, goOn, hdeleted]
  · simp [ObserverThread.thread, goOn, hdeleted]

theorem watch_follows (hc : c.Ok) (h : Moves w ops c.watch a t) (ha : a ≠ .stop)
    (hcreated : c.created) (hh : c.handling = none) : Follows c (c.goOn t) [] := by
  by_cases hdeleted : c.deleted
  · exact watch_follows_deleted hc h ha hdeleted
  have hlive : c.deleted = false := by simpa using hdeleted
  obtain ⟨hobserver,hpasses⟩ := passes h ha hc.filter (hc.before hh hlive)
  have hobject : (c.goOn t).object = c.object := by
    simp only [object, goOn, hobserver]
  have hthread := thread_of_watching hlive hcreated hh
  have hslot : ∀ x, (c.goOn t).thread = x →
      (c.goOn t).slot = ⟨some ⟨c.mCancelled,c.mPath,c.mUrl,c.watch.fileObserver⟩,x⟩ := by
    intro x hx
    rw [slot,hobject,object_of_live hlive,hx]
  cases hpasses with
  | silent hcalled hbefore hcomes =>
    have hd := ok_goOn hc hobserver hlive hcalled hbefore
    have hdthread : (c.goOn t).thread = t.pc.thread := thread_of_watching hlive hcreated hcalled
    rw [← hthread,← hdthread] at hcomes
    generalize hx : c.thread = x at hcomes
    generalize hy : (c.goOn t).thread = y at hcomes
    cases hcomes with
    | stays => exact follows_unseen hd hobject (hy.trans hx.symm)
    | setUp success =>
      refine follows_step (i := .setUp success) hd (object_of_live hlive) ?_ ?_
      · rw [hslot _ hy,hx]
        rfl
      · rw [hx]
        rfl
    | readFails few =>
      refine follows_step (i := .readFails) hd (object_of_live hlive) ?_ ?_
      · rw [hslot _ hy,hx]
        exact if_pos few
      · rw [hx]
        rfl
  | @delivers k hcalled hbefore few running hwatching hdelivering =>
    have hd := ok_goOn hc hobserver hlive hcalled hbefore
    have hdthread : (c.goOn t).thread = .delivering :=
      (thread_of_watching (c := c.goOn t) hlive hcreated hcalled).trans hdelivering
    have haccepts : c.watch.fileObserver.accepts .delete :=
      (accepts_iff hc.filter (by decide)).mpr rfl
    refine follows_step (i := .event .delete) hd (object_of_live hlive) ?_ ?_
    · rw [hslot _ hdthread,hthread,hwatching]
      simp only [Slot.step, few, if_true, Slot.onInotify, running, haccepts]
      rfl
    · rw [hthread,hwatching]
      rfl
  | deletes hcalled hafter hdelivering =>
    have hd := ok_goOn_called hc hobserver hlive hcreated (.inl rfl) hcalled hafter
    refine follows_unseen hd hobject ?_
    rw [hthread,hdelivering]
    exact thread_of_handling (c := c.goOn t) hlive hcreated hcalled
  | fails hcalled hafter hwatching =>
    have hd := ok_goOn_called hc hobserver hlive hcreated (.inr rfl) hcalled hafter
    refine follows_unseen hd hobject ?_
    rw [hthread,hwatching]
    exact thread_of_handling (c := c.goOn t) hlive hcreated hcalled

section Handler
variable {h h' : Handling} {curl : Bool} {res : OnDelete.CurlCode}

/-- The handler has come to `h'`. -/
def handled (h' : Handling) (c : ObserverThread Q) : ObserverThread Q :=
  { c with handling := some h' }

theorem ok_handled (hc : c.Ok) (hh : c.handling = some h) (hcounted : h'.Counted) :
    (c.handled h').Ok where
  filter := hc.filter
  before := by simp [handled]
  after := fun _ => hc.after (.inr (by rw [hh]; rfl))
  handling := by
    rintro _ ⟨⟩
    exact hcounted
  live := fun _ => hc.live (by rw [hh]; rfl)
  made := fun _ => hc.made (by rw [hh]; rfl)

/-- The handler goes on as the thread of the daemon does. -/
theorem handled_follows {i : Input} {vs : List Visible} (hc : c.Ok) (hh : c.handling = some h)
    (hcounted : h'.Counted)
    (hstep : ∀ o, c.object = some o → Slot.step i ⟨some o,h.thread⟩ = some ⟨some o,h'.thread⟩)
    (hshows : ∀ o, c.object = some o → Slot.shows (.thread i) ⟨some o,h.thread⟩ = vs) :
    Follows c (c.handled h') vs := by
  have hlive := hc.live (by rw [hh]; rfl)
  have hcreated := hc.made (by rw [hh]; rfl)
  have hthread := thread_of_handling hlive hcreated hh
  have hdthread : (c.handled h').thread = h'.thread :=
    thread_of_handling (c := c.handled h') hlive hcreated rfl
  have hobject := object_of_live hlive
  refine follows_step (i := i) (ok_handled hc hh hcounted) hobject ?_ ?_
  · have hslot : (c.handled h').slot = ⟨c.object,h'.thread⟩ := by
      rw [slot,hdthread]
      rfl
    rw [hthread,hslot,hobject]
    exact hstep _ hobject
  · rw [hthread]
    exact hshows _ hobject

theorem ok_deleted (hc : c.Ok) (hh : c.handling = some h) :
    Ok { c with handling := none, deleted := true } where
  filter := hc.filter
  before := by simp
  after := fun _ => hc.after (.inr (by rw [hh]; rfl))
  handling := by simp
  live := by simp
  made := by simp

/-- A turn of the loop is an attempt of the daemon's thread. -/
theorem request_follows {i : ℕ} (hc : c.Ok) (hh : c.handling = some (.onDelete i))
    (hi : i < kFailRetryTimes) (h : c.handle curl res = some d) :
    Follows c d (shows (.handler curl res) c) := by
  have hlive := hc.live (by rw [hh]; rfl)
  obtain ⟨ok,hok⟩ : ∃ ok, ok = decide ((OnDelete.curleOk : ℤ) =
      (OnDelete.sendRequest ⟨c.mUrl,curl,res⟩).1) := ⟨_,rfl⟩
  have hd : d = c.handled (if ok then .stopping else .sleeping i) := by
    rw [handle,hh] at h
    simp only [if_pos hi] at h
    rw [hok]
    split at h
    · next hsent =>
      simp only [hsent, decide_true, if_true]
      exact (Option.some.inj h).symm
    · next hsent =>
      simp only [hsent, decide_false, Bool.false_eq_true, if_false]
      exact (Option.some.inj h).symm
  have hshows : shows (.handler curl res) c = [.sendRequest c.mUrl ok] := by
    simp only [shows, hh, if_pos hi, hok]
  have hsend : ∀ o, c.object = some o →
      o.mUrl = c.mUrl ∧ o.sendRequest (OnDelete.Attempt.transfer ⟨c.mUrl,curl,res⟩) = ok := by
    intro o ho
    cases (object_of_live hlive).symm.trans ho
    exact ⟨rfl,(OnDelete.sendRequest_transfer rfl).trans hok.symm⟩
  rw [hd,hshows]
  refine handled_follows (i := .request (OnDelete.Attempt.transfer ⟨c.mUrl,curl,res⟩)) hc hh ?_
    (fun o ho => ?_) fun o ho => ?_
  · cases ok
    · exact hi
    · trivial
  · obtain ⟨-,hsent⟩ := hsend o ho
    simp only [Handling.thread, Slot.step, if_pos hi, hsent]
    cases ok <;> rfl
  · obtain ⟨hurl,hsent⟩ := hsend o ho
    simp only [Slot.shows, hurl, hsent]

theorem handle_follows (hc : c.Ok) (h : c.handle curl res = some d) :
    Follows c d (shows (.handler curl res) c) := by
  cases hh : c.handling with
  | none =>
    rw [handle,hh] at h
    cases h
  | some g =>
    have hlive := hc.live (by rw [hh]; rfl)
    have hcounted := hc.handling g hh
    cases g with
    | onEvent event =>
      have hshows : shows (.handler curl res) c = [] := by
        simp only [shows, hh]
      rw [hshows]
      rcases hcounted with rfl | rfl
      · have hd : d = c.handled (if c.mCancelled then .finishing else .onDelete 0) := by
          rw [handle,hh] at h
          exact (Option.some.inj h).symm
        rw [hd]
        refine handled_follows (i := .next) hc hh ?_ (fun o ho => ?_) fun o ho => rfl
        · split
          · trivial
          · exact Nat.zero_le _
        · cases (object_of_live hlive).symm.trans ho
          simp only [Handling.thread, if_true, Slot.step]
          split <;> rfl
      · have hd : d = c.handled .stopping := by
          rw [handle,hh] at h
          exact (Option.some.inj h).symm
        rw [hd]
        exact handled_follows (i := .next) hc hh trivial (fun o ho => rfl) fun o ho => rfl
    | onDelete i =>
      by_cases hi : i < kFailRetryTimes
      · exact request_follows hc hh hi h
      · have hd : d = c.handled .stopping := by
          rw [handle,hh] at h
          simp only [if_neg hi] at h
          exact (Option.some.inj h).symm
        have hshows : shows (.handler curl res) c = [] := by
          simp only [shows, hh, if_neg hi]
        have hlast : i = kFailRetryTimes := le_antisymm hcounted (not_lt.mp hi)
        rw [hd,hshows]
        exact handled_follows (i := .next) hc hh trivial (fun o ho => if_pos hlast) fun o ho => rfl
    | sleeping i =>
      have hd : d = c.handled (.onDelete (i+1)) := by
        rw [handle,hh] at h
        exact (Option.some.inj h).symm
      have hshows : shows (.handler curl res) c = [] := by
        simp only [shows, hh]
      rw [hd,hshows]
      have hcreated := hc.made (by rw [hh]; rfl)
      refine follows_unseen (ok_handled hc hh hcounted) rfl ?_
      rw [thread_of_handling hlive hcreated hh]
      change _ = (Handling.onDelete (i+1)).thread
      exact thread_of_handling (c := c.handled (.onDelete (i+1))) hlive hcreated rfl
    | stopping =>
      have hd : d = c.handled .finishing := by
        rw [handle,hh] at h
        exact (Option.some.inj h).symm
      have hshows : shows (.handler curl res) c = [.stop] := by
        simp only [shows, hh]
      rw [hd,hshows]
      exact handled_follows (i := .next) hc hh trivial (fun o ho => rfl) fun o ho => rfl
    | finishing =>
      have hd : d = { c with handling := none, deleted := true } := by
        rw [handle,hh] at h
        exact (Option.some.inj h).symm
      have hshows : shows (.handler curl res) c = [.finish] := by
        simp only [shows, hh]
      rw [hd,hshows]
      have hthread := thread_of_handling hlive (hc.made (by rw [hh]; rfl)) hh
      refine follows_step (i := .next) (ok_deleted hc hh) (object_of_live hlive) ?_ ?_
      · rw [hthread]
        rfl
      · rw [hthread]
        rfl

end Handler

/-- Whatever the code does, an observer of the daemon does it too, and shows as much. -/
theorem Steps.follows {a : Act} (h : Steps w ops a c d) (hc : c.Ok) : Follows c d (shows a c) := by
  cases a with
  | stopWatching =>
    obtain ⟨hlive,h⟩ := Option.ite_none_left_eq_some.mp h
    obtain rfl := Option.some.inj h
    have hok : Ok { c with
        mCancelled := true,
        watch := { c.watch with fileObserver := c.watch.fileObserver.stopWatching } } :=
      ⟨hc.filter,hc.before,hc.after,hc.handling,hc.live,hc.made⟩
    refine ⟨hok,.visible (l := .stopWatching) ?_ rfl⟩
    have hobject := object_of_live (by simpa using hlive)
    change Slot.call _ c.slot = _
    rw [Slot.call,slot,hobject]
    simp only [Option.map_some, slot, object, if_neg hlive]
    rfl
  | setHttpRequestOnDelete url =>
    obtain ⟨hlive,h⟩ := Option.ite_none_left_eq_some.mp h
    obtain rfl := Option.some.inj h
    have hok : Ok { c with mUrl := url } :=
      ⟨hc.filter,hc.before,hc.after,hc.handling,hc.live,hc.made⟩
    refine ⟨hok,.visible (l := .setHttpRequestOnDelete url) ?_ rfl⟩
    have hobject := object_of_live (by simpa using hlive)
    change Slot.call _ c.slot = _
    rw [Slot.call,slot,hobject]
    simp only [Option.map_some, slot, object, if_neg hlive]
    rfl
  | watch a =>
    obtain ⟨⟨hcreated,hnone,ha⟩,h⟩ := Option.ite_none_right_eq_some.mp h
    obtain ⟨t,ht,rfl⟩ := Option.map_eq_some_iff.mp h
    exact watch_follows hc (.of_step ht) ha hcreated hnone
  | handler curl res => exact handle_follows hc h

end Follows

end ObserverThread
end UninstallObserver.Observer
