import UninstallObserver.Observer.Jobs
import UninstallObserver.Observer.Supersession

/-! The daemon as a log of jobs: one for each path that a client has sent. -/
namespace UninstallObserver.Observer
open ByteOrder Transition

/-- What a step of the daemon shows of the observer whose thread takes it. -/
def Daemon.shows : Label → Daemon → List Visible
  | .thread p i, d =>
    match d.heap[p]? with
    | some s => Slot.shows (.thread i) s
    | none => []
  | _, _ => []

/-- A step of the daemon, with what it shows. -/
def Shown (w : ℕ) (l : Label × List Visible) (d d' : Daemon) : Prop :=
  Step w l.1 d d' ∧ l.2 = d.shows l.1

namespace Job

/-- What the server does with the last job, if there is one. -/
def tell (v : Visible) (js : List Job) : Option (List Job) :=
  match js.getLast? with
  | some j => (j.act v).map fun j' => js.set (js.length-1) j'
  | none => some js

/-- A message for a path begins a job in place of the last one, a message for a URL is for the
last job, and the threads go on with theirs. -/
inductive Logs (w : ℕ) : Label × List Visible → List Job → List Job → Prop
  | filePath {l : Label} {m : ControlMsg} {path : List Byte} {js js' : List Job}
      (handles : Handles w m l) (type : m.eCtrlType = eCtrlFilePath)
      (payload : DecodesString w m.vbData path) (told : tell .stopWatching js = some js') :
      Logs w (l,[]) js (js' ++ [new path])
  | reqOnDel {l : Label} {m : ControlMsg} {url : List Byte} {js js' : List Job}
      (handles : Handles w m l) (type : m.eCtrlType = eCtrlReqOnDel)
      (payload : DecodesString w m.vbData url)
      (told : tell (.setHttpRequestOnDelete url) js = some js') : Logs w (l,[]) js js'
  | other {i : Listen} {js : List Job}
      (other : ∀ m, Handles w m (.listen i) → m.eCtrlType ≠ eCtrlFilePath ∧
        (m.eCtrlType = eCtrlReqOnDel → js = [])) : Logs w (.listen i,[]) js js
  | thread {p : ℕ} {i : Input} {vs : List Visible} {js : List Job} {j j' : Job}
      (job : js[p]? = some j) (acts : j.acts vs = some j') :
      Logs w (.thread p i,vs) js (js.set p j')
  | main {js : List Job} : Logs w (.main,[]) js js

end Job

/-- Every observer is at its job, and the server points to the last one. -/
structure Daemon.AtJobs (js : List Job) (d : Daemon) : Prop where
  length : d.heap.length = js.length
  pointer : d.mFileObserver = if js = [] then none else some (js.length-1)
  slots : ∀ (p : ℕ) (s : Slot) (j : Job), d.heap[p]? = some s → js[p]? = some j → s.At j

variable {w : ℕ} {l : Label} {d d' : Daemon} {js : List Job} {vs : List Visible}

theorem slot_modifyCurrent {f : FileDeleteObserver → FileDeleteObserver} (p : ℕ) :
    (d.modifyCurrent f).heap[p]? =
      if d.mFileObserver = some p then
        d.heap[p]?.map fun s => { s with object := s.object.map f }
      else d.heap[p]? := by
  unfold Daemon.modifyCurrent
  cases hc : d.mFileObserver with
  | none => rfl
  | some q =>
    simp only [Daemon.modifyObject, List.getElem?_modify, Option.some.injEq]
    by_cases hqp : q = p
    · simp [hqp]
    · simp [hqp]

namespace Daemon.AtJobs

theorem init : Daemon.init.AtJobs [] := ⟨rfl,rfl,by simp⟩

/-- A job further, in step with its observer. -/
theorem set {p : ℕ} {s' : Slot} {j j' : Job} {d' : Daemon} (h : d.AtJobs js)
    (job : js[p]? = some j) (hat : s'.At j')
    (hpointer : d'.mFileObserver = d.mFileObserver)
    (hheap : ∀ q, d'.heap[q]? = if p = q then some s' else d.heap[q]?)
    (hlength : d'.heap.length = d.heap.length) : d'.AtJobs (js.set p j') where
  length := by rw [hlength,h.length,List.length_set]
  pointer := by
    have hne : js ≠ [] := by
      rintro rfl
      cases job
    have hne' : js.set p j' ≠ [] := by
      rw [ne_eq,List.set_eq_nil_iff]
      exact hne
    rw [hpointer,h.pointer,if_neg hne,if_neg hne',List.length_set]
  slots := by
    intro q r k hr hk
    rw [hheap] at hr
    by_cases hpq : p = q
    · subst hpq
      have hlt := (List.getElem?_eq_some_iff.mp job).1
      rw [if_pos rfl] at hr
      rw [List.getElem?_set_self hlt] at hk
      cases hr
      cases hk
      exact hat
    · rw [if_neg hpq] at hr
      rw [List.getElem?_set_ne hpq] at hk
      exact h.slots q r k hr hk

/-- What the server does with its current observer it does with the last job. -/
theorem tell {f : FileDeleteObserver → FileDeleteObserver} {a : Slot.Act} {v : Visible}
    (h : d.AtJobs js) (live : d.PointerOk) (hact : ∀ s : Slot, s.act a = s.call f)
    (hshows : ∀ s, Slot.shows a s = [v]) :
    ∃ js', Job.tell v js = some js' ∧ (d.modifyCurrent f).AtJobs js' := by
  by_cases hjs : js = []
  · subst hjs
    refine ⟨[],rfl,?_⟩
    rwa [modifyCurrent_of_none h.pointer]
  · have hcurrent : d.mFileObserver = some (js.length-1) := by rw [h.pointer,if_neg hjs]
    have hlt : js.length-1 < js.length :=
      Nat.sub_lt (List.length_pos_of_ne_nil hjs) Nat.one_pos
    obtain ⟨o,ho⟩ := live _ hcurrent
    obtain ⟨s,hs,hobject⟩ := Option.bind_eq_some_iff.mp ho
    obtain ⟨j,hj⟩ : ∃ j, js[js.length-1]? = some j := ⟨_,List.getElem?_eq_getElem hlt⟩
    have hcall : Slot.Acts a s { s with object := s.object.map f } := by
      change s.act a = _
      rw [hact,Slot.call,hobject]
      rfl
    obtain ⟨j',hj',hat⟩ := (h.slots _ s j hs hj).acts hcall
    rw [hshows,Job.acts_singleton] at hj'
    refine ⟨js.set (js.length-1) j',?_,h.set hj hat mFileObserver_modifyCurrent ?_
      length_modifyCurrent⟩
    · rw [Job.tell,List.getLast?_eq_getElem?,hj]
      change (j.act v).map _ = _
      rw [hj']
      rfl
    · intro q
      rw [slot_modifyCurrent,hcurrent]
      by_cases hq : js.length-1 = q
      · subst hq
        simp only [if_true, hs, Option.map_some]
      · rw [if_neg hq,if_neg fun heq => hq (Option.some.inj heq)]

/-- A new observer at its new job. -/
theorem install {created : Bool} {path : List Byte} (h : d.AtJobs js) :
    (d.install created path).AtJobs (js ++ [Job.new path]) where
  length := by
    change (d.heap ++ _).length = _
    rw [List.length_append,List.length_append,h.length]
    rfl
  pointer := by
    rw [if_neg (List.append_ne_nil_of_right_ne_nil _ (by simp)),List.length_append,← h.length]
    rfl
  slots := by
    intro p s j hs hj
    by_cases hp : p = d.heap.length
    · subst hp
      have hslot : (d.install created path).heap[d.heap.length]? =
          some (Slot.new created path) := List.getElem?_concat_length
      rw [hslot] at hs
      rw [h.length,List.getElem?_concat_length] at hj
      cases hs
      cases hj
      exact Slot.at_new created path
    · rw [slot_install hp] at hs
      have hlt : p < js.length := by
        rw [← h.length]
        exact (List.getElem?_eq_some_iff.mp hs).1
      rw [List.getElem?_append_left hlt] at hj
      exact h.slots p s j hs hj

theorem congr {d' : Daemon} (h : d.AtJobs js) (hheap : d'.heap = d.heap)
    (hpointer : d'.mFileObserver = d.mFileObserver) : d'.AtJobs js where
  length := by rw [hheap,h.length]
  pointer := by rw [hpointer,h.pointer]
  slots := by
    rw [hheap]
    exact h.slots

/-- What a handled message does is logged. -/
theorem serves {created : Bool} {buf : List Byte} {m : ControlMsg} {i : Listen}
    (h : d.AtJobs js) (hm : Handles w m (.listen i)) (hserves : Serves w created buf m d d') :
    ∃ js', Job.Logs w (.listen i,[]) js js' ∧ d'.AtJobs js' := by
  have hother : m.eCtrlType ≠ eCtrlFilePath → (m.eCtrlType = eCtrlReqOnDel → js = []) →
      Job.Logs w (.listen i,[]) js js := by
    intro hpath hreq
    refine .other fun m' hm' => ?_
    obtain rfl := hm'.unique hm
    exact ⟨hpath,hreq⟩
  cases hserves with
  | hello type =>
    exact ⟨js,hother (by rw [type]; decide) fun htype => absurd (type.symm.trans htype) (by decide),
      h.congr rfl rfl⟩
  | filePath type payload live =>
    obtain ⟨js',htold,hd⟩ := h.tell (a := .stopWatching) (v := .stopWatching) live (fun _ => rfl)
      fun _ => rfl
    exact ⟨_,.filePath hm type payload htold,hd.install⟩
  | reqOnDel type current payload live =>
    obtain ⟨js',htold,hd⟩ := h.tell (a := .setHttpRequestOnDelete _) live (fun _ => rfl)
      fun _ => rfl
    exact ⟨_,.reqOnDel hm type payload htold,hd⟩
  | ignored type noCurrent =>
    refine ⟨js,hother (by rw [type]; decide) fun _ => ?_,h⟩
    by_contra hjs
    have hp := h.pointer
    rw [noCurrent,if_neg hjs] at hp
    cases hp
  | other hello filePath reqOnDel =>
    exact ⟨js,hother filePath fun htype => absurd htype reqOnDel,h⟩

/-- A step of the daemon is logged. -/
theorem moves (h : d.AtJobs js) (hmoves : Moves w d l d') :
    ∃ js', Job.Logs w (l,d.shows l) js js' ∧ d'.AtJobs js' := by
  cases hmoves with
  | listens unhandled =>
    exact ⟨js,.other fun m hm => absurd hm (unhandled m),h.congr rfl rfl⟩
  | serves handles served =>
    obtain ⟨js',hlogs,hd⟩ := h.serves handles served
    exact ⟨js',hlogs,hd.congr rfl rfl⟩
  | @watches p i s s' slot stepped =>
    have hlt : p < js.length := by
      rw [← h.length]
      exact (List.getElem?_eq_some_iff.mp slot).1
    obtain ⟨j,hj⟩ : ∃ j, js[p]? = some j := ⟨_,List.getElem?_eq_getElem hlt⟩
    obtain ⟨j',hj',hat⟩ := (h.slots p s j slot hj).thread stepped
    have hshows : d.shows (.thread p i) = Slot.shows (.thread i) s := by
      simp only [Daemon.shows, slot]
    rw [hshows]
    refine ⟨js.set p j',.thread hj hj',h.set hj hat rfl ?_ ?_⟩
    · intro q
      have hslot : p < d.heap.length := (List.getElem?_eq_some_iff.mp slot).1
      change (d.heap.set p s')[q]? = _
      rw [List.getElem?_set]
      by_cases hpq : p = q
      · rw [if_pos hpq,if_pos hpq,if_pos hslot]
      · rw [if_neg hpq,if_neg hpq]
    · exact List.length_set
  | waits => exact ⟨js,.main,h⟩
  | leaves => exact ⟨js,.main,h.congr rfl rfl⟩
  | exits => exact ⟨js,.main,h.congr rfl rfl⟩

end Daemon.AtJobs

/-- However the threads and the messages come, the daemon does nothing but the jobs that were
sent to it, each for the URL that was sent last while it was the last job. -/
theorem daemon_does_jobs {ls : List (Label × List Visible)}
    (h : Run (Shown w) Daemon.init ls d) :
    ∃ js, Run (Job.Logs w) [] ls js ∧ d.AtJobs js := by
  refine h.simulate (R := fun d js => d.AtJobs js) .init fun l d d' js hd hstep => ?_
  obtain ⟨hmoves,hshows⟩ := hstep
  obtain ⟨js',hlogs,hd'⟩ := hd.moves hmoves.moves
  rw [← hshows] at hlogs
  exact ⟨js',hlogs,hd'⟩

/-- "/p" is watched, with a URL to request, and deleted; the first request fails, the URL is sent
again and the second request goes through. -/
def secondAttempt : List (Label × List Visible) :=
  deleted.map (fun l => (l,[])) ++
  [(.thread 0 .next,[]),(.thread 0 (.request false),[.sendRequest [0x75] false]),
    (.listen .loop,[]),(.listen (.accepted 5 true [sampleUrl.buf]),[]),
    (.thread 0 (.request true),[.sendRequest [0x75] true]),(.thread 0 .next,[.stop]),
    (.thread 0 .next,[.finish])]

theorem daemon_does_jobs_secondAttempt :
    ∃ (d : Daemon) (js : List Job), Run (Job.Logs 32) [] secondAttempt js ∧ d.AtJobs js := by
  have hrun : ∃ d, runAll (fun l d => if l.2 = d.shows l.1 then d.step 32 20 l.1 else none)
      secondAttempt Daemon.init = some d := ⟨_,rfl⟩
  obtain ⟨d,hrun⟩ := hrun
  refine ⟨d,daemon_does_jobs (run_of_runAll hrun fun l s t h => ?_)⟩
  obtain ⟨hshows,h⟩ := Option.ite_none_right_eq_some.mp h
  exact ⟨⟨20,h⟩,hshows⟩

end UninstallObserver.Observer
