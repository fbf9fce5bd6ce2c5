import UninstallObserver.Lib.Runs
import UninstallObserver.Observer.Connections
import UninstallObserver.Observer.MessageSequences

/-! The threads of the daemon, step by step in any order. -/
namespace UninstallObserver.Observer
open Imperative ByteOrder Jce Transition

/-- What the listening thread comes to: the condition of its loop, then how `select`,
`accept` and `recv` turn out. -/
inductive Listen where
  | loop
  | error
  | nothing
  | accepted (commSock : ℤ) (created : Bool) (chunks : List (List Byte))
  deriving DecidableEq, Repr

/-- Who takes a step. -/
inductive Label where
  | listen (i : Listen)
  | thread (p : ℕ) (i : Input)
  | main
  deriving DecidableEq, Repr

def kMaxRetryTimes : ℕ := 5

namespace Daemon

/-- `startListening`. -/
def listen (w fuel : ℕ) (i : Listen) (d : Daemon) : Option Daemon :=
  match d.listener, i with
  | .head k, .loop =>
    some { d with listener := if d.mLoop ∧ k < kMaxRetryTimes then .selecting k else .closed }
  | .selecting k, .error => some { d with listener := .head (k+1) }
  | .selecting k, .nothing => some { d with listener := .head k }
  | .selecting k, .accepted commSock created chunks =>
    match serveConnection w fuel created commSock chunks d with
    | .returned _ d' => some { d' with listener := .head k }
    -- an exception that escapes ends the process, a destroyed observer anything
    | _ => none
  | _, _ => none

/-- The slot of a thread after its step. -/
def put (p : ℕ) (s s' : Slot) (d : Daemon) : Daemon :=
  { d with
    heap := d.heap.set p s', gKeepAliveDaemonProcess := d.gKeepAliveDaemonProcess && !s.stops }

/-- The thread of the observer at `p`. -/
def watch (p : ℕ) (i : Input) (d : Daemon) : Option Daemon :=
  d.heap[p]?.bind fun s => (s.step i).map fun s' => d.put p s s'

/-- `Start` in the child. -/
def mainLoop (d : Daemon) : Option Daemon :=
  match d.main with
  | .looping =>
    if d.gKeepAliveDaemonProcess then some d else some { d with main := .leaving, mLoop := false }
  | .leaving => some { d with main := .exited }
  | .exited => none

/-- One step of one thread; after `exit` there is none. -/
def step (w fuel : ℕ) (l : Label) (d : Daemon) : Option Daemon :=
  if d.main = .exited then none
  else match l with
    | .listen i => d.listen w fuel i
    | .thread p i => d.watch p i
    | .main => d.mainLoop

end Daemon

/-- A step of the daemon, for enough fuel. -/
def Step (w : ℕ) (l : Label) (d d' : Daemon) : Prop := ∃ n, d.step w n l = some d'

variable {w n : ℕ} {l : Label} {ls : List Label} {d d' : Daemon} {created : Bool}
  {buf path : List Byte} {m : ControlMsg}

/-- The listening thread hands a buffer that decodes to `m` to the server. -/
def Handles (w : ℕ) (m : ControlMsg) (l : Label) : Prop :=
  ∃ commSock created chunks, l = .listen (.accepted commSock created chunks) ∧ 0 ≤ commSock ∧
    recv chunks ≠ [] ∧ Decodes w (recv chunks) m

/-- What a step can do. -/
inductive Moves (w : ℕ) (d : Daemon) : Label → Daemon → Prop
  | listens {i : Listen} {k : Listener} (unhandled : ∀ m, ¬ Handles w m (.listen i)) :
      Moves w d (.listen i) { d with listener := k }
  | serves {commSock : ℤ} {created : Bool} {chunks : List (List Byte)} {m : ControlMsg}
      {d' : Daemon} {k : Listener}
      (handles : Handles w m (.listen (.accepted commSock created chunks)))
      (served : Serves w created (recv chunks) m d d') :
      Moves w d (.listen (.accepted commSock created chunks)) { d' with listener := k }
  | watches {p : ℕ} {i : Input} {s s' : Slot} (slot : d.heap[p]? = some s)
      (stepped : s.step i = some s') : Moves w d (.thread p i) (d.put p s s')
  | waits : Moves w d .main d
  | leaves (stop : d.gKeepAliveDaemonProcess = false) :
      Moves w d .main { d with main := .leaving, mLoop := false }
  | exits (left : d.main = .leaving) : Moves w d .main { d with main := .exited }

section Steps

theorem Handles.unique {m m' : ControlMsg} (h : Handles w m l) (h' : Handles w m' l) : m = m' := by
  obtain ⟨_,_,chunks,rfl,-,-,hm⟩ := h
  obtain ⟨_,_,chunks',hl,-,-,hm'⟩ := h'
  cases hl
  exact hm.unique hm'

theorem not_handles (h : ∀ commSock created chunks,
    l ≠ .listen (.accepted commSock created chunks)) : ¬ Handles w m l := by
  intro hm
  obtain ⟨_,_,_,hl,-⟩ := hm
  exact h _ _ _ hl

/-- An accepted connection is left alone, or its message is served. -/
theorem serveConnection_cases {commSock : ℤ} {chunks : List (List Byte)}
    (h : serveConnection w n created commSock chunks d = .returned () d') :
    (d' = d ∧ (commSock < 0 ∨ recv chunks = [])) ∨
      (0 ≤ commSock ∧ recv chunks ≠ [] ∧
        ∃ m, Decodes w (recv chunks) m ∧ Serves w created (recv chunks) m d d') := by
  by_cases hrecv : recv chunks = []
  · simp only [serveConnection, hrecv, List.length_nil, if_true, Exec.pure_apply] at h
    cases h
    exact .inl ⟨rfl,.inr hrecv⟩
  · have hends : Exec.Ends (fun n => serveConnection w n created commSock chunks) d
        (.returned () d') := ⟨by simp,n,h⟩
    obtain ⟨x,hx⟩ := (serveConnection_ends_iff hrecv).mp hends
    by_cases hsock : 0 ≤ commSock
    · obtain ⟨-,m,hm,hserves⟩ := (handle_ends_iff hsock hrecv).mp hx
      exact .inr ⟨hsock,hrecv,m,hm,hserves⟩
    · simp only [handle, not_le.mp hsock, true_or, if_true, Exec.ends_const_iff,
        Exec.pure_apply] at hx
      cases hx
      exact .inl ⟨rfl,.inl (not_le.mp hsock)⟩

theorem listen_moves {i : Listen} (h : d.listen w n i = some d') : Moves w d (.listen i) d' := by
  unfold Daemon.listen at h
  split at h
  · cases h
    exact .listens fun _ => not_handles (by simp)
  · cases h
    exact .listens fun _ => not_handles (by simp)
  · cases h
    exact .listens fun _ => not_handles (by simp)
  · next k commSock created chunks _ =>
    split at h
    · next d₁ hserve =>
      cases h
      rcases serveConnection_cases hserve with ⟨rfl,hunhandled⟩ | ⟨hsock,hrecv,m,hm,hserves⟩
      · refine .listens fun m hm => ?_
        obtain ⟨_,_,_,hl,hsock,hrecv,-⟩ := hm
        cases hl
        exact hunhandled.elim (not_lt.mpr hsock) hrecv
      · exact .serves ⟨commSock,created,chunks,rfl,hsock,hrecv,hm⟩ hserves
    · cases h
  · cases h

theorem mainLoop_moves (h : d.mainLoop = some d') : Moves w d .main d' := by
  unfold Daemon.mainLoop at h
  split at h
  · split at h
    · cases h
      exact .waits
    · next hkeep =>
      cases h
      exact .leaves (by simpa using hkeep)
  · next hmain =>
    cases h
    exact .exits hmain
  · cases h

theorem Step.moves (h : Step w l d d') : Moves w d l d' := by
  obtain ⟨n,h⟩ := h
  unfold Daemon.step at h
  split at h
  · cases h
  cases l with
  | listen i => exact listen_moves h
  | thread p i =>
    obtain ⟨s,hs,h⟩ := Option.bind_eq_some_iff.mp h
    obtain ⟨s',hs',rfl⟩ := Option.map_eq_some_iff.mp h
    exact .watches hs hs'
  | main => exact mainLoop_moves h

end Steps

section Put
variable {p q : ℕ} {i : Input} {s s' : Slot}

theorem thread_put (slot : d.heap[p]? = some s) :
    (d.put p s s').thread q = if p = q then some s'.thread else d.thread q := by
  have hp : p < d.heap.length := (List.getElem?_eq_some_iff.mp slot).1
  simp only [Daemon.thread, Daemon.put, List.getElem?_set, hp, if_true]
  split <;> rfl

theorem object_put (slot : d.heap[p]? = some s) :
    (d.put p s s').object q = if p = q then s'.object else d.object q := by
  have hp : p < d.heap.length := (List.getElem?_eq_some_iff.mp slot).1
  simp only [Daemon.object, Daemon.put, List.getElem?_set, hp, if_true]
  split <;> rfl

theorem thread_of_slot (slot : d.heap[p]? = some s) : d.thread p = some s.thread := by
  rw [Daemon.thread,slot]
  rfl

theorem object_of_slot (slot : d.heap[p]? = some s) : d.object p = s.object := by
  rw [Daemon.object,slot]
  rfl

theorem slotsOk_put (hd : d.SlotsOk) (slot : d.heap[p]? = some s) (h : s.step i = some s') :
    (d.put p s s').SlotsOk := by
  intro q t ht
  have hp : p < d.heap.length := (List.getElem?_eq_some_iff.mp slot).1
  simp only [Daemon.put, List.getElem?_set, hp, if_true] at ht
  split at ht
  · cases ht
    exact (hd p s slot).step h
  · exact hd q t ht

end Put

section Serves

theorem Serves.slotsOk (h : Serves w created buf m d d') (hd : d.SlotsOk) : d'.SlotsOk := by
  cases h with
  | hello => exact hd
  | filePath => exact slotsOk_install (slotsOk_modifyCurrent hd)
  | reqOnDel => exact slotsOk_modifyCurrent hd
  | ignored => exact hd
  | other => exact hd

theorem Serves.pointerOk (h : Serves w created buf m d d') (hd : d.PointerOk) : d'.PointerOk := by
  cases h with
  | hello => exact hd
  | filePath => exact pointerOk_iff.mpr fun _ => by simp
  | reqOnDel =>
    rw [pointerOk_iff] at hd ⊢
    simpa using hd
  | ignored => exact hd
  | other => exact hd

end Serves

section Safe

/-- The pointer of the server is NULL or refers to a live observer, and whoever is about to
destroy an observer finds it alive. -/
structure Daemon.Safe (d : Daemon) : Prop where
  pointer : d.PointerOk
  once : ∀ p, d.thread p = some .finishing → ∃ o, d.object p = some o

/-- Not a step that destroys the observer the server points to. -/
def Spares (l : Label) (d : Daemon) : Prop :=
  ∀ p, l = .thread p .next → d.thread p = some .finishing → d.mFileObserver ≠ some p

theorem spares_of_ne (h : ∀ p, l ≠ .thread p .next) : Spares l d :=
  fun p hl => absurd hl (h p)

theorem safe_iff (hd : d.SlotsOk) : d.Safe ↔ d.PointerOk := by
  refine ⟨fun h => h.pointer,fun h => ⟨h,fun p hp => ?_⟩⟩
  obtain ⟨s,hs,hfinish⟩ := Option.map_eq_some_iff.mp hp
  rw [object_of_slot hs]
  apply Option.ne_none_iff_exists'.mp
  intro hnone
  rw [hd p s hs hnone] at hfinish
  cases hfinish

theorem Moves.slotsOk (h : Moves w d l d') (hd : d.SlotsOk) : d'.SlotsOk := by
  cases h with
  | listens => exact hd
  | serves _ served => exact served.slotsOk hd
  | watches slot stepped => exact slotsOk_put hd slot stepped
  | waits => exact hd
  | leaves => exact hd
  | exits => exact hd

/-- A step leaves the pointer valid exactly when it spares the current observer. -/
theorem Moves.pointerOk_iff (h : Moves w d l d') (hd : d.PointerOk) :
    d'.PointerOk ↔ Spares l d := by
  cases h with
  | listens => exact ⟨fun _ => spares_of_ne (by simp),fun _ => hd⟩
  | serves _ served => exact ⟨fun _ => spares_of_ne (by simp),fun _ => served.pointerOk hd⟩
  | @watches p i s s' slot stepped =>
    have hthread := thread_of_slot slot
    rcases Slot.step_cases stepped with ⟨hobject,hfinish,-⟩ | ⟨rfl,hfinish,-,rfl⟩
    · have hsame : ∀ q, (d.put p s s').object q = d.object q := by
        intro q
        rw [object_put slot]
        split
        · next hpq => rw [← hpq,object_of_slot slot,hobject]
        · rfl
      refine ⟨fun _ q hl hq => ?_,fun _ q hq => ?_⟩
      · cases hl
        rw [hthread] at hq
        exact absurd (Option.some.inj hq) hfinish
      · rw [hsame]
        exact hd q hq
    · refine ⟨fun h q hl _ hq => ?_,fun h q hq => ?_⟩
      · cases hl
        obtain ⟨o,ho⟩ := h p hq
        rw [object_put slot,if_pos rfl] at ho
        cases ho
      · have hpq : p ≠ q := by
          intro hpq
          subst hpq
          exact h p rfl (by rw [hthread,hfinish]) hq
        rw [object_put slot,if_neg hpq]
        exact hd q hq
  | waits => exact ⟨fun _ => spares_of_ne (by simp),fun _ => hd⟩
  | leaves => exact ⟨fun _ => spares_of_ne (by simp),fun _ => hd⟩
  | exits => exact ⟨fun _ => spares_of_ne (by simp),fun _ => hd⟩

theorem slotsOk_init : Daemon.init.SlotsOk := by
  intro p s hs
  cases hs

/-- The runs that stay safe are those that never destroy the observer the server points to. -/
theorem safe_run_iff : Within Daemon.Safe (Step w) Daemon.init ls d ↔
    Run (Guarded Spares (Step w)) Daemon.init ls d := by
  have hinit : Daemon.init.SlotsOk ∧ Daemon.init.PointerOk :=
    ⟨slotsOk_init,pointerOk_of_none rfl⟩
  have hcongr : Run (Keeping Daemon.Safe (Step w)) Daemon.init ls d ↔
      Run (Guarded Spares (Step w)) Daemon.init ls d := by
    refine Run.congr (I := fun d => d.SlotsOk ∧ d.PointerOk) hinit ?_ ?_
    · intro l d d' hd
      refine (and_congr_right fun h => ?_).trans and_comm
      rw [safe_iff (h.moves.slotsOk hd.1),h.moves.pointerOk_iff hd.2]
    · intro l d d' hd h
      exact ⟨h.1.moves.slotsOk hd.1,h.2.pointer⟩
  rw [← hcongr]
  exact and_iff_right ((safe_iff hinit.1).mpr hinit.2)

/-- "/p" is watched and deleted, and no request gets through. -/
def deletion : List Label :=
  [.listen .loop,.listen (.accepted 5 true [samplePath.buf]),.thread 0 (.setUp true),
    .thread 0 (.event .delete),.thread 0 .next] ++
  List.replicate kFailRetryTimes (.thread 0 (.request true)) ++ [.thread 0 .next,.thread 0 .next]

/-- The observer of a path that was deleted destroys itself under the server. -/
theorem not_safe_deletion : ¬ ∀ ls d, Run (Step 32) Daemon.init ls d → d.Safe := by
  intro h
  have hrun : ∃ d, runAll (fun l d => d.step 32 20 l) (deletion ++ [.thread 0 .next])
      Daemon.init = some d ∧ d.mFileObserver = some 0 ∧ d.object 0 = none := ⟨_,rfl,rfl,rfl⟩
  obtain ⟨d,hrun,hp,hnone⟩ := hrun
  obtain ⟨o,ho⟩ := (h _ d (run_of_runAll hrun fun l s t hst => ⟨20,hst⟩)).pointer 0 hp
  rw [hnone] at ho
  cases ho

end Safe

section Exit

/-- The observer of the last path has been given `Delete` or `Error`. -/
def Daemon.LastReceived (d : Daemon) : Prop :=
  ∃ s, d.heap.getLast? = some s ∧ s.thread.received

/-- `Stop` is called after the last observer received, and no path is handled afterwards. -/
structure Timely (w : ℕ) (l : Label) (d : Daemon) : Prop where
  stop : ∀ p, l = .thread p .next → d.thread p = some .stopping → d.LastReceived
  path : ∀ m, Handles w m l → m.eCtrlType = eCtrlFilePath → d.gKeepAliveDaemonProcess = true

theorem timely_of_not_handles (hstop : ∀ p, l ≠ .thread p .next) (h : ∀ m, ¬ Handles w m l) :
    Timely w l d := ⟨fun p hl => absurd hl (hstop p),fun m hm => absurd hm (h m)⟩

theorem timely_main : Timely w .main d :=
  timely_of_not_handles (by simp) fun _ => not_handles (by simp)

/-- The keep-alive flag falls only after the last observer received. -/
structure Daemon.Watched (d : Daemon) : Prop where
  stopped : d.gKeepAliveDaemonProcess = false → d.LastReceived
  left : d.main ≠ .looping → d.gKeepAliveDaemonProcess = false

theorem watched_init : Daemon.init.Watched := ⟨nofun,fun h => absurd rfl h⟩

theorem Daemon.Watched.lastReceived (hd : d.Watched) (hmain : d.main = .exited) :
    d.LastReceived := by
  apply hd.stopped
  apply hd.left
  rw [hmain]
  decide

theorem lastReceived_iff : d.LastReceived ↔
    ∃ t, d.thread (d.heap.length-1) = some t ∧ t.received := by
  unfold Daemon.LastReceived Daemon.thread
  rw [List.getLast?_eq_getElem?]
  simp

theorem lastReceived_modifyCurrent {f : FileDeleteObserver → FileDeleteObserver} :
    (d.modifyCurrent f).LastReceived ↔ d.LastReceived := by
  rw [lastReceived_iff,lastReceived_iff,length_modifyCurrent,thread_modifyCurrent]

theorem not_lastReceived_install : ¬ (d.install created path).LastReceived := by
  intro h
  obtain ⟨s,hs,hreceived⟩ := h
  rw [Daemon.install,List.getLast?_concat] at hs
  cases hs
  cases created <;> cases hreceived

section Thread
variable {p : ℕ} {i : Input} {s s' : Slot}

theorem Daemon.LastReceived.put (h : d.LastReceived) (slot : d.heap[p]? = some s)
    (stepped : s.step i = some s') : (d.put p s s').LastReceived := by
  rw [lastReceived_iff] at h ⊢
  obtain ⟨t,ht,hreceived⟩ := h
  rw [Daemon.put,List.length_set]
  change ∃ t, (d.put p s s').thread _ = some t ∧ _
  rw [thread_put slot]
  split
  · next hp =>
    subst hp
    rw [thread_of_slot slot] at ht
    cases ht
    exact ⟨s'.thread,rfl,Slot.received_step stepped hreceived⟩
  · exact ⟨t,ht,hreceived⟩

theorem lastReceived_of_put (h : (d.put p s s').LastReceived) (slot : d.heap[p]? = some s)
    (hs : s.thread.received) : d.LastReceived := by
  rw [lastReceived_iff] at h ⊢
  obtain ⟨t,ht,hreceived⟩ := h
  rw [thread_put slot] at ht
  simp only [Daemon.put, List.length_set] at ht
  split at ht
  · next hp => exact ⟨s.thread,by rw [← hp,thread_of_slot slot],hs⟩
  · exact ⟨t,ht,hreceived⟩

end Thread

theorem Serves.watched (h : Serves w created buf m d d') (hd : d.Watched)
    (hpath : m.eCtrlType = eCtrlFilePath → d.gKeepAliveDaemonProcess = true) : d'.Watched := by
  cases h with
  | hello => exact ⟨hd.stopped,hd.left⟩
  | filePath type =>
    refine ⟨fun hstop => ?_,fun hleft => ?_⟩
    · simp [Daemon.install, hpath type] at hstop
    · simpa [Daemon.install] using hd.left (by simpa [Daemon.install] using hleft)
  | reqOnDel =>
    refine ⟨?_,?_⟩
    · simpa [lastReceived_modifyCurrent] using hd.stopped
    · simpa using hd.left
  | ignored => exact hd
  | other => exact hd

theorem Moves.watched (h : Moves w d l d') (hl : Timely w l d) (hd : d.Watched) : d'.Watched := by
  cases h with
  | listens => exact ⟨hd.stopped,hd.left⟩
  | serves handles served =>
    have hd' := served.watched hd (hl.path _ handles)
    exact ⟨hd'.stopped,hd'.left⟩
  | @watches p i s s' slot stepped =>
    refine ⟨fun hstop => ?_,fun hleft => ?_⟩
    · refine Daemon.LastReceived.put ?_ slot stepped
      by_cases hs : s.stops
      · obtain ⟨rfl,hstopping⟩ := Slot.next_of_stops stepped hs
        exact hl.stop p rfl (by rw [thread_of_slot slot,hstopping])
      · exact hd.stopped (by simpa [Daemon.put, hs] using hstop)
    · simp [Daemon.put, hd.left hleft]
  | waits => exact hd
  | leaves stop => exact ⟨hd.stopped,fun _ => stop⟩
  | exits left => exact ⟨hd.stopped,fun _ => hd.left (by rw [left]; decide)⟩

/-- A daemon that was told to stop too early. -/
structure Daemon.Doomed (d : Daemon) : Prop where
  stopped : d.gKeepAliveDaemonProcess = false
  live : ¬ d.LastReceived

theorem Moves.doomed (h : Moves w d l d') (hl : ¬ Timely w l d) :
    d'.Doomed ∧ d'.main = d.main := by
  cases h with
  | listens unhandled => exact absurd (timely_of_not_handles (by simp) unhandled) hl
  | @serves _ _ _ m _ _ handles served =>
    have huntimely : m.eCtrlType = eCtrlFilePath ∧ d.gKeepAliveDaemonProcess = false := by
      by_contra hnot
      refine hl ⟨by simp,fun m' hm' type => ?_⟩
      rw [hm'.unique handles] at type
      simpa [type] using hnot
    obtain ⟨type,hstopped⟩ := huntimely
    obtain ⟨path,-,-,rfl⟩ := (serves_filePath_iff type).mp served
    refine ⟨⟨?_,not_lastReceived_install⟩,?_⟩
    · simpa [Daemon.install] using hstopped
    · simp [Daemon.install]
  | @watches p i s s' slot stepped =>
    have huntimely : i = .next ∧ s.thread = .stopping ∧ ¬ d.LastReceived := by
      by_contra hnot
      refine hl ⟨fun q hq hstopping => ?_,fun m hm => ?_⟩
      · cases hq
        rw [thread_of_slot slot] at hstopping
        by_contra hlive
        exact hnot ⟨rfl,Option.some.inj hstopping,hlive⟩
      · exact absurd hm (not_handles (by simp))
    obtain ⟨rfl,hstopping,hlive⟩ := huntimely
    refine ⟨⟨?_,fun h => hlive (lastReceived_of_put h slot (by rw [hstopping]; rfl))⟩,rfl⟩
    simp [Daemon.put, Slot.stops, hstopping]
  | waits => exact absurd timely_main hl
  | leaves => exact absurd timely_main hl
  | exits => exact absurd timely_main hl

theorem step_of_ne_exited (hmain : d.main ≠ .exited) : d.step w n .main = d.mainLoop := by
  rw [Daemon.step,if_neg hmain]

/-- If the main loop goes on alone, it exits. -/
theorem Daemon.Doomed.exits (h : d.Doomed) (hmain : d.main ≠ .exited) :
    ∃ ls e, Run (Step w) d ls e ∧ e.main = .exited ∧ ¬ e.LastReceived := by
  have hleaving : ∀ e : Daemon, e.main = .leaving →
      Step w .main e { e with main := .exited } := by
    intro e he
    refine ⟨0,?_⟩
    rw [step_of_ne_exited (by rw [he]; decide),Daemon.mainLoop,he]
  cases hm : d.main with
  | looping =>
    have hleaves : Step w .main d { d with main := .leaving, mLoop := false } := by
      refine ⟨0,?_⟩
      rw [step_of_ne_exited hmain,Daemon.mainLoop,hm]
      simp [h.stopped]
    exact ⟨_,_,.cons hleaves (.cons (hleaving _ rfl) .nil),rfl,h.live⟩
  | leaving => exact ⟨_,_,.cons (hleaving d hm) .nil,rfl,h.live⟩
  | exited => exact absurd hm hmain

theorem Step.ne_exited (h : Step w l d d') : d.main ≠ .exited := by
  obtain ⟨n,h⟩ := h
  intro hmain
  unfold Daemon.step at h
  rw [if_pos hmain] at h
  cases h

/-- In a timely run the daemon exits only after the last observer has received, and the first
step that is not timely leaves a way to exit before that. -/
theorem exits_received (w : ℕ) :
    (∀ ls d, Run (Guarded (Timely w) (Step w)) Daemon.init ls d → d.main = .exited →
      d.LastReceived) ∧
    (∀ l d d', Step w l d d' → ¬ Timely w l d →
      ∃ ls e, Run (Step w) d' ls e ∧ e.main = .exited ∧ ¬ e.LastReceived) := by
  refine ⟨fun ls d h hexit => ?_,fun l d d' h hl => ?_⟩
  · have hd : d.Watched :=
      h.invariant watched_init fun l s t hs hst => hst.2.moves.watched hst.1 hs
    exact hd.lastReceived hexit
  · obtain ⟨hdoomed,hmain⟩ := h.moves.doomed hl
    exact hdoomed.exits (hmain ▸ h.ne_exited)

/-- Enough for a step to be timely. -/
def timelyCheck (l : Label) (d : Daemon) : Bool :=
  match l with
  | .thread p .next =>
    d.thread p != some .stopping || (d.heap.getLast?.map (·.thread.received)).getD false
  | .listen (.accepted _ _ _) => d.gKeepAliveDaemonProcess
  | _ => true

theorem timely_of_check (h : timelyCheck l d) : Timely w l d := by
  refine ⟨fun p hl hp => ?_,fun m hm _ => ?_⟩
  · subst hl
    cases hlast : d.heap.getLast? with
    | none => simp [timelyCheck, hp, hlast] at h
    | some s => exact ⟨s,hlast,by simpa [timelyCheck, hp, hlast] using h⟩
  · obtain ⟨_,_,_,rfl,-⟩ := hm
    exact h

theorem exits_received_deletion : ∃ d,
    Run (Guarded (Timely 32) (Step 32)) Daemon.init (deletion ++ [.main,.main]) d ∧
      d.LastReceived := by
  have hrun : ∃ d, runAll (fun l d => if timelyCheck l d then d.step 32 20 l else none)
      (deletion ++ [.main,.main]) Daemon.init = some d ∧ d.main = .exited := ⟨_,rfl,rfl⟩
  obtain ⟨d,hrun,hexit⟩ := hrun
  have hsteps : Run (Guarded (Timely 32) (Step 32)) Daemon.init (deletion ++ [.main,.main]) d := by
    refine run_of_runAll hrun fun l s t h => ?_
    split at h
    · next hl => exact ⟨timely_of_check hl,20,h⟩
    · cases h
  exact ⟨d,hsteps,(exits_received 32).1 _ d hsteps hexit⟩

/-- A second path comes while the observer of the first still retries, and is dropped. -/
def supersession : List Label :=
  [.listen .loop,.listen (.accepted 5 true [samplePath.buf]),.thread 0 (.setUp true),
    .thread 0 (.event .delete),.thread 0 .next,.listen .loop,
    .listen (.accepted 5 true [samplePath.buf])] ++
  List.replicate kFailRetryTimes (.thread 0 (.request true)) ++
  [.thread 0 .next,.thread 0 .next,.main,.main]

theorem not_lastReceived_supersession :
    ¬ ∀ ls d, Run (Step 32) Daemon.init ls d → d.main = .exited → d.LastReceived := by
  intro h
  have hrun : ∃ d, runAll (fun l d => d.step 32 20 l) supersession Daemon.init = some d ∧
      d.main = .exited ∧ d.heap.getLast?.map Slot.thread = some .starting := ⟨_,rfl,rfl,rfl⟩
  obtain ⟨d,hrun,hexit,hlast⟩ := hrun
  obtain ⟨s,hs,hreceived⟩ := h _ d (run_of_runAll hrun fun l s t hst => ⟨20,hst⟩) hexit
  rw [hs] at hlast
  rw [Option.some.inj hlast] at hreceived
  cases hreceived

end Exit

end UninstallObserver.Observer
