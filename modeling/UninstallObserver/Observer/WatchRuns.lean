import UninstallObserver.Observer.ThreadFunc

/-! The calls to the delegate, and where a stop leads, over whole runs of the watching thread. -/
namespace UninstallObserver.Observer
open ByteOrder Transition

namespace ThreadFunc

variable {Q : Type} {w : ℕ} {ops : QueueOps Q} {s s' : Watch Q} {a : Act} {b : Action}
  {l l' : List Action}

theorem classify_ne_error (e : InotifyEvent) (fileExists : Bool) :
    classify e fileExists ≠ .error := by
  unfold classify
  repeat' split
  all_goals simp

section Delegate

/-- It calls the delegate, or reads the observer or its path. -/
def Action.touches : Action → Bool
  | .addWatch _ | .useObserver | .isFileExist _ | .onEvent _ _ => true
  | .inotifyInit | .close => false

/-- The delegate is not called. -/
def Quiet (l : List Action) : Prop := ∀ event path, .onEvent event path ∉ l

/-- Every call to the delegate is with `Delete` or `Error`, and whatever comes after it touches
neither the delegate nor the observer. -/
def LastCall (l : List Action) : Prop := ∀ pre event path post, l = pre ++ .onEvent event path::post →
  (event = .delete ∨ event = .error) ∧ ∀ a ∈ post, a.touches = false

theorem Quiet.append (h : Quiet l) (h' : Quiet l') : Quiet (l ++ l') := by
  intro event path hmem
  exact (List.mem_append.mp hmem).elim (h event path) (h' event path)

theorem Quiet.lastCall (h : Quiet l) : LastCall l := by
  intro pre event path post hl
  exact absurd (by rw [hl]; simp) (h event path)

/-- A first call with `Delete` or `Error`. -/
theorem Quiet.concat {event : Event} {path : List Byte} (h : Quiet l)
    (hevent : event = .delete ∨ event = .error) : LastCall (l ++ [.onEvent event path]) := by
  intro pre event' path' post hl
  rcases List.eq_nil_or_concat post with rfl | ⟨post,b,rfl⟩
  · obtain ⟨-,hb⟩ := List.append_inj' hl rfl
    cases hb
    exact ⟨hevent,by simp⟩
  · have hsplit : l ++ [.onEvent event path] = (pre ++ .onEvent event' path'::post) ++ [b] := by
      simpa using hl
    obtain ⟨hl,-⟩ := List.append_inj' hsplit rfl
    exact absurd (by rw [hl]; simp) (h event' path')

theorem LastCall.append (h : LastCall l) (h' : ∀ a ∈ l', a.touches = false) :
    LastCall (l ++ l') := by
  intro pre event path post hl
  have hnot : .onEvent event path ∉ l' := by
    intro hmem
    have htouch := h' _ hmem
    cases htouch
  rcases List.append_eq_append_iff.mp hl with ⟨k,-,hk⟩ | ⟨k,hpre,hk⟩
  · exact absurd (by rw [hk]; simp) hnot
  · cases k with
    | nil => exact absurd (by rw [show l' = _ from hk.symm]; simp) hnot
    | cons b k =>
      obtain ⟨rfl,rfl⟩ := List.cons.inj hk
      obtain ⟨hevent,hk⟩ := h pre event path k hpre
      refine ⟨hevent,fun a ha => ?_⟩
      exact (List.mem_append.mp ha).elim (hk a) (h' a)

/-- Before the call: the failures counted, and the events that can be at hand. -/
def Pc.Before : Pc → Prop
  | .head true k => k ≤ kFailedRetryTimes
  | .head false k | .reading k | .dispatching k => k < kFailedRetryTimes
  | .checking k event | .notifying k event => k < kFailedRetryTimes ∧ event ≠ .error
  | _ => True

/-- After the call. -/
def Pc.After : Pc → Prop
  | .head loop k => loop = false ∧ k < kFailedRetryTimes
  | .leaving k => k < kFailedRetryTimes
  | .closing | .returned => True
  | _ => False

/-- The filter of a `FileDeleteObserver`. -/
def deleteOrError : BitVec 32 := Event.delete.bit ||| Event.error.bit

/-- The delegate has not been called, or for the last time. -/
structure Delegating (s : Watch Q) : Prop where
  filter : s.fileObserver.mEventFilter = deleteOrError
  calls : (Quiet s.trace ∧ s.pc.Before) ∨ (LastCall s.trace ∧ s.pc.After)

theorem quiet_nil : Quiet [] := fun _ _ => List.not_mem_nil

theorem quiet_singleton (h : ∀ event path, b ≠ .onEvent event path) : Quiet [b] := by
  intro event path hmem
  exact h event path (List.mem_singleton.mp hmem).symm

/-- With that filter only `Delete` reaches the delegate from the loop. -/
theorem accepts_iff {o : FileObserver} (ho : o.mEventFilter = deleteOrError) {event : Event}
    (herror : event ≠ .error) : o.accepts event ↔ event = .delete := by
  unfold FileObserver.accepts
  rw [ho]
  cases event <;> first | decide | exact absurd rfl herror

theorem Delegating.quiet (hs : Delegating s) {pc : Pc} (hpc : s.pc = pc) (hnot : ¬ pc.After) :
    Quiet s.trace ∧ pc.Before := by
  obtain ⟨-,hs⟩ := hs
  rw [hpc] at hs
  exact hs.resolve_right fun h => hnot h.2

theorem notification_of_accepts {event : Event} (h : s.fileObserver.accepts event) :
    s.notification event = [.useObserver] ++ [.onEvent event s.path] := by
  rw [Watch.notification,if_pos h]
  rfl

theorem notification_of_not_accepts {event : Event} (h : ¬ s.fileObserver.accepts event) :
    s.notification event = [.useObserver] := by
  rw [Watch.notification,if_neg h]

/-- A step that leaves the delegate alone, before it has been called. -/
theorem Delegating.quietly (hs : Delegating s) {pc pc' : Pc} {q : Q} {actions : List Action}
    {cur : Option InotifyEvent} (hpc : s.pc = pc) (hnot : ¬ pc.After) (hactions : Quiet actions)
    (hbefore : pc.Before → pc'.Before) :
    Delegating (({ s with queue := q, curEventFilename := cur }).goto pc' actions) := by
  obtain ⟨hquiet,h⟩ := hs.quiet hpc hnot
  exact ⟨hs.filter,.inl ⟨hquiet.append hactions,hbefore h⟩⟩

theorem Delegating.loops {loop : Bool} {k : ℕ} (hs : Delegating s) (pc : s.pc = .head loop k) :
    Delegating (s.goto (if loop ∧ k < kFailedRetryTimes then .reading k else .leaving k) []) := by
  cases loop with
  | true =>
    refine hs.quietly pc (by simp [Pc.After]) quiet_nil fun _ => ?_
    by_cases hk : k < kFailedRetryTimes
    · rw [if_pos ⟨rfl,hk⟩]
      exact hk
    · rw [if_neg fun h => hk h.2]
      trivial
  | false =>
    have hcalls := hs.calls
    rw [pc] at hcalls
    refine ⟨hs.filter,hcalls.imp (fun h => ?_) fun h => ?_⟩
    · exact ⟨h.1.append quiet_nil,trivial⟩
    · exact ⟨h.1.append (by simp),h.2.2⟩

theorem Delegating.leaves {k : ℕ} (hs : Delegating s) (pc : s.pc = .leaving k) :
    Delegating (s.goto .closing
      (if k = kFailedRetryTimes then [.onEvent .error s.path] else [])) := by
  have hcalls := hs.calls
  rw [pc] at hcalls
  refine ⟨hs.filter,?_⟩
  change (Quiet (s.trace ++ ite _ _ _) ∧ _) ∨ (LastCall (s.trace ++ ite _ _ _) ∧ _)
  by_cases hk : k = kFailedRetryTimes
  · obtain ⟨hquiet,-⟩ := hcalls.resolve_right fun h => absurd hk h.2.ne
    rw [if_pos hk]
    exact .inr ⟨hquiet.concat (.inr rfl),trivial⟩
  · rw [if_neg hk,List.append_nil]
    exact hcalls.imp (fun h => ⟨h.1,trivial⟩) fun h => ⟨h.1,trivial⟩

theorem Moves.delegating (h : Moves w ops s a s') (hs : Delegating s) : Delegating s' := by
  have huse : Quiet [.useObserver] := quiet_singleton (by simp)
  cases h with
  | stops => exact ⟨hs.filter,hs.calls⟩
  | @inits success pc =>
    refine hs.quietly pc (by simp [Pc.After]) (huse.append (quiet_singleton (by simp))) fun _ => ?_
    cases success <;> trivial
  | @adds success p pc path =>
    refine hs.quietly pc (by simp [Pc.After]) (quiet_singleton (by simp)) fun _ => ?_
    cases success
    · trivial
    · exact Nat.zero_le _
  | loops pc => exact hs.loops pc
  | fails pc => exact hs.quietly pc (by simp [Pc.After]) quiet_nil id
  | reads pc => exact hs.quietly pc (by simp [Pc.After]) quiet_nil id
  | dispatches pc =>
    refine hs.quietly pc (by simp [Pc.After]) ?_ fun hk => ⟨hk,classify_ne_error _ _⟩
    split
    · exact quiet_singleton (by simp)
    · exact quiet_nil
  | empties pc => exact hs.quietly pc (by simp [Pc.After]) quiet_nil Nat.le_of_lt
  | breaks pc => exact hs.quietly pc (by simp [Pc.After]) huse fun h => Nat.le_of_lt h.1
  | checks pc => exact hs.quietly pc (by simp [Pc.After]) huse id
  | notifies pc other =>
    obtain ⟨-,-,herror⟩ := hs.quiet pc (by simp [Pc.After])
    rw [notification_of_not_accepts fun h => other ((accepts_iff hs.filter herror).mp h)]
    exact hs.quietly pc (by simp [Pc.After]) huse And.left
  | deletes pc =>
    obtain ⟨hquiet,hk,herror⟩ := hs.quiet pc (by simp [Pc.After])
    refine ⟨hs.filter,.inr ⟨?_,rfl,hk⟩⟩
    change LastCall (s.trace ++ s.notification .delete)
    rw [notification_of_accepts ((accepts_iff hs.filter herror).mpr rfl),← List.append_assoc]
    exact (hquiet.append huse).concat (.inl rfl)
  | leaves pc => exact hs.leaves pc
  | closes pc =>
    have hcalls := hs.calls
    rw [pc] at hcalls
    refine ⟨hs.filter,hcalls.imp (fun h => ?_) fun h => ?_⟩
    · exact ⟨h.1.append (quiet_singleton (by simp)),trivial⟩
    · exact ⟨h.1.append (by simp [Action.touches]),trivial⟩

/-- The delegate is called at most once, with `Delete` or `Error`, and neither it nor the
observer nor the path is touched afterwards. -/
theorem delegate_lastCall {o : FileObserver} {ls : List Act} {s : Watch (QueueStruct InotifyEvent)}
    (ho : o.mEventFilter = (FileDeleteObserver.init o.mPath).mFileObserver.mEventFilter)
    (h : Run (Step w eventQueue) (.init o (queueCreate [])) ls s) : LastCall s.trace := by
  have hs : Delegating s := by
    refine h.invariant (I := Delegating) ⟨ho,.inl ⟨quiet_nil,trivial⟩⟩ ?_
    exact fun _ _ _ hs hst => (Moves.of_step hst).delegating hs
  exact hs.calls.elim (fun h => h.1.lastCall) And.left

theorem run_of_steps {ls : List Act} (h : runAll (Watch.step w ops) ls s = some s') :
    Run (Step w ops) s ls s' := run_of_runAll h fun _ _ _ hst => hst

/-- The path that is watched, "/p", goes away. -/
def sampleObserver : FileObserver :=
  ((FileDeleteObserver.init [0x2F,0x70]).startWatching true).mFileObserver
def deleteSelf : InotifyEvent := ⟨1,inDeleteSelf,0,[],by decide⟩
def ignored : InotifyEvent := ⟨1,inIgnored,0,[],by decide⟩
def deletion : List Act :=
  [.init true,.addWatch true,.next,.read (deleteSelf.bytes ++ ignored.bytes),.dispatch false,.next,
    .next,.next,.next,.next]

theorem delegate_lastCall_deletion : ∃ s,
    Run (Step 32 eventQueue) (.init sampleObserver (queueCreate [])) deletion s ∧
      LastCall s.trace := by
  have hrun : ∃ s, runAll (Watch.step 32 eventQueue) deletion
      (.init sampleObserver (queueCreate [])) = some s := ⟨_,rfl⟩
  obtain ⟨s,hrun⟩ := hrun
  exact ⟨s,run_of_steps hrun,delegate_lastCall rfl (run_of_steps hrun)⟩

end Delegate

section Stop

/-- A batch has been read and is not done with. -/
def Pc.inBatch : Pc → Bool
  | .dispatching _ | .checking _ _ | .notifying _ _ => true
  | _ => false

/-- On the way out of the outer loop, whatever comes. -/
def Pc.leavesLoop : Pc → Bool
  | .notifying _ event => event = .delete
  | .head loop k => !loop || kFailedRetryTimes ≤ k
  | .leaving _ | .closing | .returned => true
  | _ => false

def Act.isRead : Act → Bool
  | .read _ => true
  | _ => false

/-- A read comes back, with a batch or with an error. -/
def Act.readReturns : Act → Bool
  | .read _ | .readFails => true
  | _ => false

/-- The batch at hand at a stop at `s₁`, and the reads that have come back since. -/
def readsSince (s₁ : Watch Q) (ls : List Act) : ℕ :=
  s₁.pc.inBatch.toNat + ls.countP Act.readReturns

/-- Since a stop at `s₁` one read at most was to be dealt with, and no other is begun after it. -/
structure StopsSoon (s₁ : Watch Q) (ls : List Act) (s : Watch Q) : Prop where
  once : readsSince s₁ ls ≤ 1
  leaves : 0 < readsSince s₁ ls → ∀ k, s.pc ≠ .reading k

/-- That is so for every stop of a run. -/
def Obeys (w : ℕ) (ops : QueueOps Q) (s₀ : Watch Q) (ls : List Act) (s : Watch Q) : Prop :=
  ∀ ls₁ ls₂ s₁, ls = ls₁ ++ .stop::ls₂ → Run (Step w ops) s₀ ls₁ s₁ → StopsSoon s₁ ls₂ s

/-- No stop comes while a batch is at hand, unless its `Delete` is about to be delivered, and no
read comes back after a stop but the last one that may fail. -/
structure Prompt (a : Act) (s : Watch Q) : Prop where
  stop : a = .stop → s.pc.inBatch → s.pc.leavesLoop
  read : a.isRead → s.fileObserver.isStopped = false
  fails : a = .readFails → s.fileObserver.isStopped → s.pc = .reading (kFailedRetryTimes-1)

/-- The thread is about to print a name that is not there. -/
def Astray (ops : QueueOps Q) (s : Watch Q) : Prop :=
  ∃ k e q, s.pc = .dispatching k ∧ ops.dequeue s.queue = some (some e,q) ∧
    printable s.curEventFilename e = false

theorem step_unique {t t' : Watch Q} (h : Step w ops a s t) (h' : Step w ops a s t') : t = t' :=
  Option.some.inj (h.symm.trans h')

theorem Moves.isStopped (h : Moves w ops s a s') (hs : s.fileObserver.isStopped) :
    s'.fileObserver.isStopped := by
  cases h with
  | stops => rfl
  | _ => exact hs

theorem not_loops_of_leavesLoop {loop : Bool} {k : ℕ} (h : (Pc.head loop k).leavesLoop) :
    ¬ (loop ∧ k < kFailedRetryTimes) := by
  intro hloops
  have hout : loop = false ∨ kFailedRetryTimes ≤ k := by simpa [Pc.leavesLoop] using h
  rcases hout with hout | hout
  · rw [hout] at hloops
    exact absurd hloops.1 (by decide)
  · exact absurd hloops.2 (not_lt.mpr hout)

theorem Moves.leavesLoop (h : Moves w ops s a s') (hs : s.pc.leavesLoop) : s'.pc.leavesLoop := by
  cases h with
  | stops => exact hs
  | @loops loop k pc =>
    have hout : ¬ (loop ∧ k < kFailedRetryTimes) := not_loops_of_leavesLoop (pc ▸ hs)
    rw [if_neg hout]
    rfl
  | notifies pc other =>
    rw [pc] at hs
    exact absurd (by simpa [Pc.leavesLoop] using hs) other
  | deletes => rfl
  | leaves => rfl
  | closes => rfl
  | inits pc | adds pc | fails pc | reads pc | dispatches pc | empties pc | breaks pc | checks pc =>
    rw [pc] at hs
    cases hs

/-- What has become of a stop: nothing has come back yet, or the thread is on its way out. -/
structure Heeded (s₁ : Watch Q) (ls : List Act) (s : Watch Q) : Prop where
  stopped : s.fileObserver.isStopped
  out : readsSince s₁ ls = 0 ∨ readsSince s₁ ls = 1 ∧ s.pc.leavesLoop

theorem Heeded.stopsSoon {s₁ : Watch Q} {ls : List Act} (h : Heeded s₁ ls s) :
    StopsSoon s₁ ls s := by
  rcases h.out with hnone | ⟨hone,hleaves⟩
  · exact ⟨by omega,fun hpos => by omega⟩
  · refine ⟨hone.le,fun _ k hreading => ?_⟩
    rw [hreading] at hleaves
    cases hleaves

/-- A prompt step of a stopped thread keeps to that. -/
theorem Heeded.step {s₁ : Watch Q} {ls : List Act} (h : Heeded s₁ ls s) (hm : Moves w ops s a s')
    (hprompt : Prompt a s) : Heeded s₁ (ls ++ [a]) s' := by
  have hsince : readsSince s₁ (ls ++ [a]) = readsSince s₁ ls + [a].countP Act.readReturns := by
    rw [readsSince,List.countP_append,← Nat.add_assoc]
    rfl
  refine ⟨hm.isStopped h.stopped,?_⟩
  rw [hsince]
  cases hreturns : a.readReturns with
  | false =>
    rw [List.countP_singleton,hreturns]
    exact h.out.imp_right fun hout => ⟨hout.1,hm.leavesLoop hout.2⟩
  | true =>
    rw [List.countP_singleton,hreturns]
    cases hm with
    | reads pc =>
      have hrunning := hprompt.read rfl
      rw [h.stopped] at hrunning
      cases hrunning
    | @fails k pc =>
      have hlast := hprompt.fails rfl h.stopped
      obtain rfl : k = kFailedRetryTimes-1 := Pc.reading.inj (pc.symm.trans hlast)
      have hnone := h.out.resolve_right fun hout => by
        rw [pc] at hout
        cases hout.2
      rw [hnone]
      exact .inr ⟨rfl,rfl⟩
    | _ => cases hreturns

/-- Every stop of a prompt run is heeded. -/
theorem heeded_of_prompt {s₀ s₁ : Watch Q} {ls₁ ls₂ : List Act}
    (h : Run (Guarded Prompt (Step w ops)) s₀ (ls₁ ++ .stop::ls₂) s)
    (hrun : Run (Step w ops) s₀ ls₁ s₁) : Heeded s₁ ls₂ s := by
  obtain ⟨s₂,hpre,hpost⟩ := run_append_iff.mp h
  obtain ⟨s₃,⟨hprompt,hstop⟩,hrest⟩ := run_cons_iff.mp hpost
  obtain rfl := hrun.unique (hpre.mono fun _ _ _ h => h.2) fun _ _ _ _ => step_unique
  have hmoves := Moves.of_step hstop
  refine hrest.history (I := Heeded s₁) ⟨?_,?_⟩ fun ls a s t hs hst =>
    hs.step (Moves.of_step hst.2) hst.1
  · cases hmoves
    rfl
  · cases hbatch : s₁.pc.inBatch with
    | false =>
      left
      rw [readsSince,hbatch]
      rfl
    | true =>
      right
      rw [readsSince,hbatch]
      exact ⟨rfl,hmoves.leavesLoop (hprompt.stop rfl hbatch)⟩

/-- A batch is at hand only before the failures are used up. -/
def Pc.Bounded : Pc → Prop
  | .reading k | .dispatching k | .checking k _ | .notifying k _ => k < kFailedRetryTimes
  | _ => True

theorem Moves.bounded (h : Moves w ops s a s') (hs : s.pc.Bounded) : s'.pc.Bounded := by
  cases h with
  | stops => exact hs
  | @inits success => cases success <;> trivial
  | @adds success => cases success <;> trivial
  | @loops loop k =>
    change (ite _ _ _ : Pc).Bounded
    split
    · next h => exact h.2
    · trivial
  | fails | empties | breaks | deletes | leaves | closes => trivial
  | reads pc | dispatches pc | checks pc | notifies pc =>
    rw [pc] at hs
    exact hs

section Violations
variable {s : Watch (List InotifyEvent)} {k : ℕ}

/-- The thread waits for a batch, or is about to print a name that is not there. -/
def ReadsOn (ops : QueueOps Q) (s : Watch Q) : Prop := (∃ k, s.pc = .reading k) ∨ Astray ops s

/-- Out of the inner loop, the thread reads on. -/
theorem reads_from_head (hk : k < kFailedRetryTimes) (hpc : s.pc = .head true k) :
    ∃ ls t, Run (Step w eventList) s ls t ∧ ReadsOn eventList t :=
  ⟨_,_,.cons (Moves.step (.loops hpc)) .nil,.inl ⟨k,if_pos ⟨rfl,hk⟩⟩⟩

theorem reads_from_checking {event : Event} (hk : k < kFailedRetryTimes)
    (hs : s.fileObserver.isStopped) (hpc : s.pc = .checking k event) :
    ∃ ls t, Run (Step w eventList) s ls t ∧ ReadsOn eventList t := by
  obtain ⟨ls,t,hrun,ht⟩ := reads_from_head (w := w) (s := (({ s with queue := [] }).goto
    (.head true k) [.useObserver] : Watch (List InotifyEvent))) hk rfl
  exact ⟨_,t,.cons (Moves.step (.breaks hpc hs rfl)) hrun,ht⟩

theorem reads_from_dispatching (hk : k < kFailedRetryTimes) (hs : s.fileObserver.isStopped)
    (hpc : s.pc = .dispatching k) :
    ∃ ls t, Run (Step w eventList) s ls t ∧ ReadsOn eventList t := by
  cases hq : s.queue with
  | nil =>
    have htaken : eventList.dequeue s.queue = some (none,[]) := by
      rw [hq]
      rfl
    obtain ⟨ls,t,hrun,ht⟩ := reads_from_head (w := w) (s := (({ s with queue := [] }).goto
      (.head true k) [] : Watch (List InotifyEvent))) hk rfl
    exact ⟨_,t,.cons (Moves.step (.empties hpc htaken rfl)) hrun,ht⟩
  | cons e es =>
    have htaken : eventList.dequeue s.queue = some (some e,es) := by
      rw [hq]
      rfl
    cases hprints : printable s.curEventFilename e with
    | false => exact ⟨[],s,.nil,.inr ⟨k,e,es,hpc,htaken,hprints⟩⟩
    | true =>
      have hstep : Step w eventList (.dispatch true) s _ :=
        Moves.step (.dispatches hpc htaken hprints)
      obtain ⟨ls,t,hrun,ht⟩ := reads_from_checking (w := w)
        (s := (({ s with
          queue := es,
          curEventFilename := filenameAt s.curEventFilename e }).goto
            (.checking k (classify e true)) _ : Watch (List InotifyEvent))) hk hs rfl
      exact ⟨_,t,.cons hstep hrun,ht⟩

/-- A stopped thread with a batch at hand reads on, unless it is on the way out. -/
theorem reads_from_batch (hbounded : s.pc.Bounded) (hs : s.fileObserver.isStopped)
    (hbatch : s.pc.inBatch) (hstays : ¬ s.pc.leavesLoop) :
    ∃ ls t, Run (Step w eventList) s ls t ∧ ReadsOn eventList t := by
  cases hpc : s.pc with
  | dispatching k =>
    rw [hpc] at hbounded
    exact reads_from_dispatching hbounded hs hpc
  | checking k event =>
    rw [hpc] at hbounded
    exact reads_from_checking hbounded hs hpc
  | notifying k event =>
    rw [hpc] at hbounded hstays
    have hother : event ≠ .delete := by simpa [Pc.leavesLoop] using hstays
    obtain ⟨ls,t,hrun,ht⟩ := reads_from_dispatching (w := w) (s := s.goto (.dispatching k)
      (s.notification event)) hbounded hs rfl
    exact ⟨_,t,.cons (Moves.step (.notifies hpc hother)) hrun,ht⟩
  | _ =>
    rw [hpc] at hbatch
    cases hbatch

/-- On the way out the thread needs no more than its own steps to return. -/
theorem returns_of_leavesLoop (hs : s.pc.leavesLoop) :
    ∃ n t, Run (Step w eventList) s (List.replicate n .next) t ∧ t.pc = .returned := by
  have hclosing : ∀ s : Watch (List InotifyEvent), s.pc = .closing →
      ∃ n t, Run (Step w eventList) s (List.replicate n .next) t ∧ t.pc = .returned :=
    fun s hpc => ⟨1,_,.cons (Moves.step (.closes hpc)) .nil,rfl⟩
  have hnext : ∀ s s' : Watch (List InotifyEvent), Step w eventList .next s s' →
      (∃ n t, Run (Step w eventList) s' (List.replicate n .next) t ∧ t.pc = .returned) →
      ∃ n t, Run (Step w eventList) s (List.replicate n .next) t ∧ t.pc = .returned := by
    intro s s' hstep h
    obtain ⟨n,t,hrun,ht⟩ := h
    exact ⟨n+1,t,.cons hstep hrun,ht⟩
  have hleaving : ∀ (k : ℕ) (s : Watch (List InotifyEvent)), s.pc = .leaving k →
      ∃ n t, Run (Step w eventList) s (List.replicate n .next) t ∧ t.pc = .returned :=
    fun k s hpc => hnext s _ (Moves.step (.leaves hpc)) (hclosing _ rfl)
  have hhead : ∀ (loop : Bool) (k : ℕ) (s : Watch (List InotifyEvent)), s.pc = .head loop k →
      s.pc.leavesLoop →
      ∃ n t, Run (Step w eventList) s (List.replicate n .next) t ∧ t.pc = .returned := by
    intro loop k s hpc hs
    have hout : (if loop ∧ k < kFailedRetryTimes then Pc.reading k else .leaving k) =
        .leaving k := if_neg (not_loops_of_leavesLoop (hpc ▸ hs))
    exact hnext s _ (Moves.step (.loops hpc)) (hleaving k _ hout)
  cases hpc : s.pc with
  | notifying k event =>
    rw [hpc] at hs
    have hdelete : event = .delete := by simpa [Pc.leavesLoop] using hs
    subst hdelete
    exact hnext s _ (Moves.step (.deletes hpc rfl)) (hhead false k _ rfl rfl)
  | head loop k => exact hhead loop k s hpc hs
  | leaving k => exact hleaving k s hpc
  | closing => exact hclosing s hpc
  | returned => exact ⟨0,s,.nil,hpc⟩
  | _ =>
    rw [hpc] at hs
    cases hs

end Violations

variable {o : FileObserver} {ls : List Act} {c c' : Watch (QueueStruct InotifyEvent)}

/-- Whoever is stopped was stopped in the run. -/
theorem stop_mem (h : Run (Step w ops) s ls s') (hs : s.fileObserver.isStopped = false)
    (hs' : s'.fileObserver.isStopped) : .stop ∈ ls := by
  refine h.history (I := fun ls s => s.fileObserver.isStopped → .stop ∈ ls) ?_ ?_ hs'
  · simp [hs]
  · intro ls a s t ih hst ht
    cases Moves.of_step hst with
    | stops => simp
    | _ => exact List.mem_append_left _ (ih ht)

/-- What the thread would print is the same for the code's queue. -/
theorem Astray.over {s : Watch (List InotifyEvent)} {q : QueueStruct InotifyEvent}
    (h : Astray eventList s) (hq : Queued q s.queue) : Astray eventQueue (s.over q) := by
  obtain ⟨k,e,es,hpc,htaken,hprints⟩ := h
  obtain ⟨q',htaken',-⟩ := eventList_refines.dequeue hq htaken
  exact ⟨k,e,q',hpc,htaken',hprints⟩

theorem exists_readsOn {es : List InotifyEvent} (hq : Queued c.queue es) (hbounded : c.pc.Bounded)
    (hs : c.fileObserver.isStopped) (hbatch : c.pc.inBatch) (hstays : ¬ c.pc.leavesLoop) :
    ∃ ls t, Run (Step w eventQueue) c ls t ∧ ReadsOn eventQueue t := by
  obtain ⟨ls,t,hrun,ht⟩ := reads_from_batch (w := w) (s := c.over es) hbounded hs hbatch hstays
  obtain ⟨q,hrun',hq'⟩ := eventList_refines.run hrun hq
  exact ⟨ls,t.over q,hrun',ht.imp id fun hastray => hastray.over hq'⟩

/-- To read on when there was something to deal with is not to obey. -/
theorem StopsSoon.not_readsOn {s₁ : Watch (QueueStruct InotifyEvent)} (h : StopsSoon s₁ ls c)
    (hpos : 0 < readsSince s₁ ls) (hreads : ReadsOn eventQueue c) : Astray eventQueue c :=
  hreads.resolve_left fun hreading => hreading.elim fun k hk => h.leaves hpos k hk

/-- A read that comes back after a stop lets the thread wait for yet another batch. -/
theorem exists_readsOn_of_read (hs : c.fileObserver.isStopped) (hbounded : c.pc.Bounded)
    (hq : ∃ es, Queued c'.queue es) (hm : Moves w eventQueue c a c') (ha : a.readReturns)
    (hprompt : ¬ Prompt a c) : ∃ ls' t, Run (Step w eventQueue) c' ls' t ∧
      ReadsOn eventQueue t := by
  obtain ⟨es,hq⟩ := hq
  have hbounded' := hm.bounded hbounded
  have hs' := hm.isStopped hs
  cases hm with
  | reads pc =>
    exact exists_readsOn hq hbounded' hs' rfl (by simp [Watch.goto, Pc.leavesLoop])
  | @fails k pc =>
    have hfew : k+1 < kFailedRetryTimes := by
      rw [pc] at hbounded
      have hlt : k < kFailedRetryTimes := hbounded
      refine lt_of_le_of_ne hlt fun hlast => hprompt ⟨?_,?_,fun _ _ => ?_⟩
      · intro h
        cases h
      · intro h
        cases h
      · rw [pc,← hlast]
        rfl
    exact ⟨_,_,.cons (Moves.step (.loops rfl)) .nil,.inl ⟨k+1,if_pos ⟨rfl,hfew⟩⟩⟩
  | _ => cases ha

/-- A step that is not prompt lets the thread wait for yet another batch, unless it goes astray
before that. -/
theorem exists_not_obeys (ho : o.isStopped = false)
    (h : Run (Step w eventQueue) (.init o (queueCreate [])) ls c) (hstep : Step w eventQueue a c c')
    (hprompt : ¬ Prompt a c) : ∃ ls' t, Run (Step w eventQueue) c' ls' t ∧
      (¬ Obeys w eventQueue (.init o (queueCreate [])) (ls ++ a::ls') t ∨
        Astray eventQueue t) := by
  have hbounded : c.pc.Bounded := h.invariant (I := fun s => s.pc.Bounded) trivial
    fun _ _ _ hs hst => (Moves.of_step hst).bounded hs
  have hmoves := Moves.of_step hstep
  obtain ⟨es,-,hq⟩ := eventQueue_refines.run h (queued_queueCreate [])
  obtain ⟨es',-,hq'⟩ := eventQueue_refines.step hstep hq
  by_cases hreturns : a.readReturns ∧ c.fileObserver.isStopped
  · obtain ⟨hreturns,hstopped⟩ := hreturns
    obtain ⟨ls',t,hrun,ht⟩ :=
      exists_readsOn_of_read hstopped hbounded ⟨es',hq'⟩ hmoves hreturns hprompt
    obtain ⟨l₁,l₂,hl⟩ := List.append_of_mem (stop_mem h ho hstopped)
    refine ⟨ls',t,hrun,Classical.or_iff_not_imp_left.mpr fun hobeys => ?_⟩
    obtain ⟨s₁,hpre,-⟩ := run_append_iff.mp (hl ▸ h)
    refine (not_not.mp hobeys l₁ (l₂ ++ a::ls') s₁ (by rw [hl]; simp) hpre).not_readsOn ?_ ht
    rw [readsSince,List.countP_append,List.countP_cons_of_pos hreturns]
    omega
  · obtain ⟨rfl,hbatch,hstays⟩ : a = .stop ∧ c.pc.inBatch ∧ ¬ c.pc.leavesLoop := by
      by_contra hnot
      refine hprompt ⟨fun ha hbatch => ?_,fun ha => ?_,fun ha hstopped => ?_⟩
      · by_contra hstays
        exact hnot ⟨ha,hbatch,hstays⟩
      · by_contra hstopped
        cases a with
        | read buffer => exact hreturns ⟨rfl,by simpa using hstopped⟩
        | _ => cases ha
      · rw [ha] at hreturns
        exact absurd ⟨rfl,hstopped⟩ hreturns
    cases hmoves with
    | stops =>
      obtain ⟨ls',t,hrun,ht⟩ := exists_readsOn (w := w) hq' hbounded rfl hbatch hstays
      refine ⟨ls',t,hrun,Classical.or_iff_not_imp_left.mpr fun hobeys => ?_⟩
      refine (not_not.mp hobeys ls ls' c rfl h).not_readsOn ?_ ht
      rw [readsSince,hbatch]
      exact Nat.lt_add_right _ Nat.one_pos

/-- In a prompt run one read at most comes back from a stop on, or one batch is dealt with, after
which the thread leaves its loop and returns; a step that is not prompt lets it wait for another
batch, or print a name that is not there on the way. -/
theorem obeys_stop (w : ℕ) :
    (∀ o ls c, Run (Guarded Prompt (Step w eventQueue)) (.init o (queueCreate [])) ls c →
      Obeys w eventQueue (.init o (queueCreate [])) ls c ∧ ∀ ls₁ ls₂ s₁, ls = ls₁ ++ .stop::ls₂ →
        Run (Step w eventQueue) (.init o (queueCreate [])) ls₁ s₁ → 0 < readsSince s₁ ls₂ →
          ∃ n t, Run (Step w eventQueue) c (List.replicate n .next) t ∧ t.pc = .returned) ∧
    (∀ o ls c a c', o.isStopped = false → Run (Step w eventQueue) (.init o (queueCreate [])) ls c →
      Step w eventQueue a c c' → ¬ Prompt a c → ∃ ls' t, Run (Step w eventQueue) c' ls' t ∧
        (¬ Obeys w eventQueue (.init o (queueCreate [])) (ls ++ a::ls') t ∨
          Astray eventQueue t)) := by
  refine ⟨fun o ls c h => ⟨?_,?_⟩,fun o ls c a c' ho h hstep hprompt =>
    exists_not_obeys ho h hstep hprompt⟩
  · intro ls₁ ls₂ s₁ hls hrun
    subst hls
    exact (heeded_of_prompt h hrun).stopsSoon
  · intro ls₁ ls₂ s₁ hls hrun hpos
    subst hls
    have hout := ((heeded_of_prompt h hrun).out.resolve_left hpos.ne').2
    obtain ⟨es,-,hq⟩ := eventQueue_refines.run (h.mono fun _ _ _ h => h.2) (queued_queueCreate [])
    obtain ⟨n,t,hreturns,ht⟩ := returns_of_leavesLoop (w := w) (s := c.over es) hout
    obtain ⟨q,hreturns',-⟩ := eventList_refines.run hreturns hq
    exact ⟨n,t.over q,hreturns',ht⟩

def promptCheck (a : Act) (s : Watch Q) : Bool :=
  (a != .stop || !s.pc.inBatch || s.pc.leavesLoop) && !(a.isRead && s.fileObserver.isStopped) &&
    (a != .readFails || !s.fileObserver.isStopped || s.pc == .reading (kFailedRetryTimes-1))

theorem prompt_of_check (h : promptCheck a s) : Prompt a s := by
  simp only [promptCheck, Bool.and_eq_true, Bool.or_eq_true, Bool.not_eq_true'] at h
  refine ⟨fun ha hbatch => ?_,fun hread => ?_,fun ha hstopped => ?_⟩
  · simpa [ha, hbatch] using h.1.1
  · simpa [hread] using h.1.2
  · simpa [ha, hstopped] using h.2

/-- The stop comes when `Delete` is about to be delivered. -/
def lateStop : List Act :=
  [.init true,.addWatch true,.next,.read deleteSelf.bytes,.dispatch false,.next] ++
    .stop::[.next,.next,.next,.next]

theorem obeys_stop_lateStop : ∃ c,
    Run (Guarded Prompt (Step 32 eventQueue)) (.init sampleObserver (queueCreate [])) lateStop c ∧
      Obeys 32 eventQueue (.init sampleObserver (queueCreate [])) lateStop c := by
  have hrun : ∃ c, runAll (fun a s => if promptCheck a s then s.step 32 eventQueue a else none)
      lateStop (.init sampleObserver (queueCreate [])) = some c := ⟨_,rfl⟩
  obtain ⟨c,hrun⟩ := hrun
  have hsteps : Run (Guarded Prompt (Step 32 eventQueue)) (.init sampleObserver (queueCreate []))
      lateStop c := by
    refine run_of_runAll hrun fun a s t h => ?_
    obtain ⟨hcheck,h⟩ := Option.ite_none_right_eq_some.mp h
    exact ⟨prompt_of_check hcheck,h⟩
  exact ⟨c,hsteps,((obeys_stop 32).1 _ _ c hsteps).1⟩

/-- The stop comes while the thread waits, a batch is read and the thread waits again. -/
theorem not_obeys_stop : ¬ ∀ o ls c, o.isStopped = false →
    Run (Step 32 eventQueue) (.init o (queueCreate [])) ls c →
      Obeys 32 eventQueue (.init o (queueCreate [])) ls c := by
  intro h
  have hpre : ∃ s₁, runAll (Watch.step 32 eventQueue) [.init true,.addWatch true,.next]
      (.init sampleObserver (queueCreate [])) = some s₁ ∧ s₁.pc = .reading 0 := ⟨_,rfl,rfl⟩
  have hrun : ∃ c, runAll (Watch.step 32 eventQueue)
      ([.init true,.addWatch true,.next] ++ .stop::[.read ignored.bytes,.dispatch true,.next,.next])
      (.init sampleObserver (queueCreate [])) = some c ∧ c.pc = .reading 0 := ⟨_,rfl,rfl⟩
  obtain ⟨s₁,hpre,-⟩ := hpre
  obtain ⟨c,hrun,hc⟩ := hrun
  have hobeys := h _ _ c rfl (run_of_steps hrun) _ _ s₁ rfl (run_of_steps hpre)
  refine hobeys.leaves ?_ 0 hc
  rw [readsSince]
  exact Nat.lt_add_left _ (by decide)

end Stop

end ThreadFunc
end UninstallObserver.Observer
