import UninstallObserver.Lib.Printf
import UninstallObserver.Lib.Runs
import UninstallObserver.Observer.Inotify

/-! The thread that watches a path, from `inotify_init` to `close`.

The same steps are taken over the linked queue of the code and over a plain list of events. -/
namespace UninstallObserver.Observer
open Imperative ByteOrder LinkedCells Transition

/-- What a C string shows of these bytes. -/
def cString (bs : List Byte) : List Byte := bs.takeWhile (· ≠ 0)

/-- `sprintf(watchPath, path, strlen(path))` into 256 bytes. -/
def watchPath (w : ℕ) (path : List Byte) : Option (List Byte) :=
  (Printf.sprintf path (BitVec.ofNat w path.length)).bind fun out =>
    if out.length < 256 then some (cString out) else none

namespace ThreadFunc

def inAccess : BitVec 32 := 0x1
def inModify : BitVec 32 := 0x2
def inAttrib : BitVec 32 := 0x4
def inCloseWrite : BitVec 32 := 0x8
def inCloseNowrite : BitVec 32 := 0x10
def inOpen : BitVec 32 := 0x20
def inMovedFrom : BitVec 32 := 0x40
def inDeleteSelf : BitVec 32 := 0x400
def inAllEvents : BitVec 32 := 0xFFF
def inUnmount : BitVec 32 := 0x2000
def inQOverflow : BitVec 32 := 0x4000
def inIgnored : BitVec 32 := 0x8000

/-- What the `switch` looks at. -/
def kind (e : InotifyEvent) : BitVec 32 :=
  e.mask &&& (inAllEvents ||| inUnmount ||| inQOverflow ||| inIgnored)

/-- The event to notify of, given whether the path exists. -/
def classify (e : InotifyEvent) (fileExists : Bool) : Event :=
  if kind e = inAccess then .access
  else if kind e = inModify then .modify
  else if kind e = inAttrib then .attribChanged
  else if kind e = inCloseWrite then .closeWrite
  else if kind e = inCloseNowrite then if fileExists then .closeNoWrite else .delete
  else if kind e = inOpen then .open'
  else if kind e = inMovedFrom then .movedFrom
  else if kind e = inDeleteSelf then .delete
  else .none

/-- `XLOG` prints `cur_event_filename` for these. -/
def printsName (e : InotifyEvent) : Bool := kind e = inCloseNowrite ∨ kind e = inDeleteSelf

/-- The event that `cur_event_filename` points into, with `e` at hand. -/
def filenameAt (curEventFilename : Option InotifyEvent) (e : InotifyEvent) : Option InotifyEvent :=
  if e.len ≠ 0 then some e else curEventFilename

/-- What is printed for `e` is its own name, which ends in a NUL, or NULL, which the C library
prints as such. The entry of any event before it has been freed. -/
def printable (curEventFilename : Option InotifyEvent) (e : InotifyEvent) : Bool :=
  !printsName e || if e.len ≠ 0 then e.name.contains 0 else curEventFilename.isNone

/-- What the thread does that others can tell, or that touches the observer or its path. -/
inductive Action where
  | inotifyInit
  | addWatch (path : List Byte)
  /-- `delegate()`, `isStopped()` or `eventFilter()`. -/
  | useObserver
  /-- `isFileExist(path)`. -/
  | isFileExist (path : List Byte)
  /-- `delegate->onEvent(event, path)`. -/
  | onEvent (event : Event) (path : List Byte)
  | close
  deriving DecidableEq, Repr

/-- Where the thread is. -/
inductive Pc where
  | entry
  /-- Before `inotify_add_watch`. -/
  | adding
  /-- At the condition of the outer loop. -/
  | head (loop : Bool) (failedTimes : ℕ)
  | reading (failedTimes : ℕ)
  /-- At the condition of the inner loop. -/
  | dispatching (failedTimes : ℕ)
  /-- Before `isStopped`. -/
  | checking (failedTimes : ℕ) (notifyEvent : Event)
  /-- Past `isStopped`. -/
  | notifying (failedTimes : ℕ) (notifyEvent : Event)
  /-- Past the outer loop. -/
  | leaving (failedTimes : ℕ)
  | closing
  | returned
  deriving DecidableEq, Repr

/-- What decides the next step of the thread, and `stopWatching` on another thread. -/
inductive Act where
  | init (success : Bool)
  | addWatch (success : Bool)
  | readFails
  | read (buffer : List Byte)
  /-- An event is taken from the queue; whether the path exists is asked for some. -/
  | dispatch (fileExists : Bool)
  | next
  | stop
  deriving DecidableEq, Repr

/-- The thread, with the events it has read. -/
structure Watch (Q : Type) where
  fileObserver : FileObserver
  queue : Q
  /-- The last event of the batch that had a name. -/
  curEventFilename : Option InotifyEvent
  pc : Pc
  trace : List Action
  deriving DecidableEq, Repr

/-- What the thread does with its queue; no result where the code would go astray. -/
structure QueueOps (Q : Type) where
  /-- `queue_create`, then the loop that parses the buffer. -/
  fill : List Byte → Q → Option Q
  /-- `queue_dequeue`, with the copy of the event that is freed. -/
  dequeue : Q → Option (Option InotifyEvent × Q)
  destroy : Q → Option Q

/-- `char buffer[bufferSize]`. -/
def bufferSize : ℕ := 16384

variable {Q Q' : Type}

namespace Watch

def path (s : Watch Q) : List Byte := cString s.fileObserver.mPath

def goto (pc : Pc) (actions : List Action) (s : Watch Q) : Watch Q :=
  { s with pc := pc, trace := s.trace ++ actions }

/-- Out of the inner loop. -/
def leaveInner (ops : QueueOps Q) (loop : Bool) (k : ℕ) (actions : List Action) (s : Watch Q) :
    Option (Watch Q) :=
  (ops.destroy s.queue).map fun q => ({ s with queue := q }).goto (.head loop k) actions

/-- The call to the delegate, unless the filter keeps it. -/
def notification (event : Event) (s : Watch Q) : List Action :=
  .useObserver::if s.fileObserver.accepts event then [.onEvent event s.path] else []

/-- Before the thread runs. -/
def init (o : FileObserver) (q : Q) : Watch Q := ⟨o,q,none,.entry,[]⟩

def step (w : ℕ) (ops : QueueOps Q) (a : Act) (s : Watch Q) : Option (Watch Q) :=
  match s.pc, a with
  | _, .stop => some { s with fileObserver := s.fileObserver.stopWatching }
  | .entry, .init success =>
    some (s.goto (if success then .adding else .returned) [.useObserver,.inotifyInit])
  | .adding, .addWatch success =>
    (watchPath w s.path).map fun p =>
      s.goto (if success then .head true 0 else .returned) [.addWatch p]
  | .head loop k, .next =>
    some (s.goto (if loop ∧ k < kFailedRetryTimes then .reading k else .leaving k) [])
  | .reading k, .readFails => some (s.goto (.head true (k+1)) [])
  | .reading k, .read buffer =>
    if buffer.length ≤ bufferSize then
      (ops.fill buffer s.queue).map fun q =>
        ({ s with queue := q, curEventFilename := none }).goto (.dispatching k) []
    else none
  | .dispatching k, .dispatch fileExists =>
    match ops.dequeue s.queue with
    | some (some e,q) =>
      -- a name is not there to be printed once its entry was freed
      if printable s.curEventFilename e then
        some (({ s with
          queue := q,
          curEventFilename := filenameAt s.curEventFilename e }).goto
            (.checking k (classify e fileExists))
            (if kind e = inCloseNowrite then [.isFileExist s.path] else []))
      else none
    | _ => none
  | .dispatching k, .next =>
    match ops.dequeue s.queue with
    | some (none,q) => ({ s with queue := q }).leaveInner ops true k []
    | _ => none
  | .checking k event, .next =>
    if s.fileObserver.isStopped then s.leaveInner ops true k [.useObserver]
    else some (s.goto (.notifying k event) [.useObserver])
  | .notifying k event, .next =>
    if event = .delete then s.leaveInner ops false k (s.notification event)
    else some (s.goto (.dispatching k) (s.notification event))
  | .leaving k, .next =>
    some (s.goto .closing (if k = kFailedRetryTimes then [.onEvent .error s.path] else []))
  | .closing, .next => some (s.goto .returned [.close])
  | _, _ => none

end Watch

/-- A step of the thread, or of whoever stops it. -/
def Step (w : ℕ) (ops : QueueOps Q) (a : Act) (s s' : Watch Q) : Prop := s.step w ops a = some s'

variable {w : ℕ} {ops : QueueOps Q} {s s' : Watch Q} {a : Act}

/-- What a step can do. -/
inductive Moves (w : ℕ) (ops : QueueOps Q) (s : Watch Q) : Act → Watch Q → Prop
  | stops : Moves w ops s .stop { s with fileObserver := s.fileObserver.stopWatching }
  | inits {success : Bool} (pc : s.pc = .entry) : Moves w ops s (.init success)
      (s.goto (if success then .adding else .returned) [.useObserver,.inotifyInit])
  | adds {success : Bool} {p : List Byte} (pc : s.pc = .adding) (path : watchPath w s.path = some p) :
      Moves w ops s (.addWatch success)
        (s.goto (if success then .head true 0 else .returned) [.addWatch p])
  | loops {loop : Bool} {k : ℕ} (pc : s.pc = .head loop k) : Moves w ops s .next
      (s.goto (if loop ∧ k < kFailedRetryTimes then .reading k else .leaving k) [])
  | fails {k : ℕ} (pc : s.pc = .reading k) : Moves w ops s .readFails (s.goto (.head true (k+1)) [])
  | reads {k : ℕ} {buffer : List Byte} {q : Q} (pc : s.pc = .reading k)
      (fits : buffer.length ≤ bufferSize) (filled : ops.fill buffer s.queue = some q) :
      Moves w ops s (.read buffer)
        (({ s with queue := q, curEventFilename := none }).goto (.dispatching k) [])
  | dispatches {k : ℕ} {fileExists : Bool} {e : InotifyEvent} {q : Q} (pc : s.pc = .dispatching k)
      (taken : ops.dequeue s.queue = some (some e,q)) (prints : printable s.curEventFilename e) :
      Moves w ops s (.dispatch fileExists)
        (({ s with queue := q, curEventFilename := filenameAt s.curEventFilename e }).goto
          (.checking k (classify e fileExists))
          (if kind e = inCloseNowrite then [.isFileExist s.path] else []))
  | empties {k : ℕ} {q q' : Q} (pc : s.pc = .dispatching k)
      (taken : ops.dequeue s.queue = some (none,q)) (destroyed : ops.destroy q = some q') :
      Moves w ops s .next (({ s with queue := q' }).goto (.head true k) [])
  | breaks {k : ℕ} {event : Event} {q : Q} (pc : s.pc = .checking k event)
      (stopped : s.fileObserver.isStopped) (destroyed : ops.destroy s.queue = some q) :
      Moves w ops s .next (({ s with queue := q }).goto (.head true k) [.useObserver])
  | checks {k : ℕ} {event : Event} (pc : s.pc = .checking k event)
      (running : s.fileObserver.isStopped = false) :
      Moves w ops s .next (s.goto (.notifying k event) [.useObserver])
  | notifies {k : ℕ} {event : Event} (pc : s.pc = .notifying k event) (other : event ≠ .delete) :
      Moves w ops s .next (s.goto (.dispatching k) (s.notification event))
  | deletes {k : ℕ} {q : Q} (pc : s.pc = .notifying k .delete)
      (destroyed : ops.destroy s.queue = some q) : Moves w ops s .next
      (({ s with queue := q }).goto (.head false k) (s.notification .delete))
  | leaves {k : ℕ} (pc : s.pc = .leaving k) : Moves w ops s .next
      (s.goto .closing (if k = kFailedRetryTimes then [.onEvent .error s.path] else []))
  | closes (pc : s.pc = .closing) : Moves w ops s .next (s.goto .returned [.close])

theorem Moves.of_step (h : Step w ops a s s') : Moves w ops s a s' := by
  unfold Step Watch.step at h
  split at h
  · cases h
    exact .stops
  · next pc =>
    cases h
    exact .inits pc
  · next pc =>
    obtain ⟨p,hp,rfl⟩ := Option.map_eq_some_iff.mp h
    exact .adds pc hp
  · next pc =>
    cases h
    exact .loops pc
  · next pc =>
    cases h
    exact .fails pc
  · next pc =>
    obtain ⟨hfits,h⟩ := Option.ite_none_right_eq_some.mp h
    obtain ⟨q,hq,rfl⟩ := Option.map_eq_some_iff.mp h
    exact .reads pc hfits hq
  · next pc =>
    split at h
    · next taken =>
      obtain ⟨hprints,h⟩ := Option.ite_none_right_eq_some.mp h
      cases h
      exact .dispatches pc taken hprints
    · cases h
  · next pc =>
    split at h
    · next taken =>
      obtain ⟨q,hq,rfl⟩ := Option.map_eq_some_iff.mp h
      exact .empties pc taken hq
    · cases h
  · next pc =>
    split at h
    · next hstopped =>
      obtain ⟨q,hq,rfl⟩ := Option.map_eq_some_iff.mp h
      exact .breaks pc hstopped hq
    · next hrunning =>
      cases h
      exact .checks pc (by simpa using hrunning)
  · next pc =>
    split at h
    · next hdelete =>
      subst hdelete
      obtain ⟨q,hq,rfl⟩ := Option.map_eq_some_iff.mp h
      exact .deletes pc hq
    · next hother =>
      cases h
      exact .notifies pc hother
  · next pc =>
    cases h
    exact .leaves pc
  · next pc =>
    cases h
    exact .closes pc
  · cases h

theorem Moves.step (h : Moves w ops s a s') : Step w ops a s s' := by
  obtain ⟨o,q,cur,pc,trace⟩ := s
  unfold Step Watch.step
  cases h with
  | stops => rfl
  | inits pc =>
    subst pc
    rfl
  | adds pc path =>
    subst pc
    simp only [path]
    rfl
  | loops pc =>
    subst pc
    rfl
  | fails pc =>
    subst pc
    rfl
  | reads pc fits filled =>
    subst pc
    simp only [fits, if_true, filled]
    rfl
  | dispatches pc taken prints =>
    subst pc
    have hprints : printable cur _ := prints
    simp only [taken, hprints, if_true]
  | empties pc taken destroyed =>
    subst pc
    simp only [taken, Watch.leaveInner, destroyed]
    rfl
  | breaks pc stopped destroyed =>
    subst pc
    simp only [stopped, if_true, Watch.leaveInner, destroyed]
    rfl
  | checks pc running =>
    subst pc
    simp only [running]
    rfl
  | notifies pc other =>
    subst pc
    simp only [other, if_false]
  | deletes pc destroyed =>
    subst pc
    simp only [if_true, Watch.leaveInner, destroyed]
    rfl
  | leaves pc =>
    subst pc
    rfl
  | closes pc =>
    subst pc
    rfl

section Refinement

/-- The queue of the code. -/
def eventQueue : QueueOps (QueueStruct InotifyEvent) where
  fill buffer q :=
    (queueEvents buffer.length buffer (queueCreate q.heap)).result?.map Prod.snd
  dequeue q := (nextEvent q).result?
  destroy q := (queueDestroy (q.heap.length+1) q).result?.map Prod.snd

/-- The events as a list. -/
def eventList : QueueOps (List InotifyEvent) where
  fill buffer _ := InotifyEvent.parse buffer
  dequeue es := some (es.head?,es.tail)
  destroy _ := some []

/-- Operations on one kind of queue can be followed on another. -/
structure Refines (R : Q → Q' → Prop) (ops : QueueOps Q) (ops' : QueueOps Q') : Prop where
  fill : ∀ {buffer q q' p}, R q q' → ops.fill buffer q = some p →
    ∃ p', ops'.fill buffer q' = some p' ∧ R p p'
  dequeue : ∀ {e q q' p}, R q q' → ops.dequeue q = some (e,p) →
    ∃ p', ops'.dequeue q' = some (e,p') ∧ R p p'
  destroy : ∀ {q q' p}, R q q' → ops.destroy q = some p → ∃ p', ops'.destroy q' = some p' ∧ R p p'

/-- These events are queued. -/
def Queued (q : QueueStruct InotifyEvent) (es : List InotifyEvent) : Prop :=
  ∃ l, q.Holds l ∧ l.map Prod.snd = es

theorem queued_queueCreate (heap : Heap InotifyEvent) : Queued (queueCreate heap) [] :=
  ⟨[],holds_queueCreate heap,rfl⟩

section Operations
variable {q : QueueStruct InotifyEvent} {es : List InotifyEvent} {buffer : List Byte}

theorem fill_eventQueue (hparse : InotifyEvent.parse buffer = some es) :
    ∃ p, eventQueue.fill buffer q = some p ∧ Queued p es := by
  obtain ⟨p,l,hends,hholds,hl⟩ := (holds_queueCreate q.heap).queueEvents hparse
  refine ⟨p,?_,l,hholds,hl⟩
  rw [eventQueue]
  simp only [hends]
  rfl

/-- The loop over a buffer gets through only if there are whole records in it. -/
theorem parse_of_fill {p : QueueStruct InotifyEvent} (h : eventQueue.fill buffer q = some p) :
    ∃ es, InotifyEvent.parse buffer = some es := by
  obtain ⟨r,hends,-⟩ := Option.map_eq_some_iff.mp h
  cases hrun : queueEvents buffer.length buffer (queueCreate q.heap) with
  | returned _ q₁ => exact takeAll_of_queueEvents hrun
  | threw e q₁ => cases e
  | undefined =>
    rw [hrun] at hends
    cases hends
  | outOfFuel =>
    rw [hrun] at hends
    cases hends

theorem Queued.dequeue (h : Queued q es) :
    ∃ p, eventQueue.dequeue q = some (es.head?,p) ∧ Queued p es.tail := by
  obtain ⟨l,hholds,rfl⟩ := h
  cases l with
  | nil =>
    have hnext : nextEvent q = .returned none q := by
      rw [nextEvent,Exec.bind_of_returned hholds.dequeue_nil]
      rfl
    refine ⟨q,?_,[],hholds,rfl⟩
    rw [eventQueue]
    simp only [hnext]
    rfl
  | cons c l =>
    obtain ⟨p,hnext,hholds'⟩ := hholds.nextEvent
    refine ⟨p,?_,l,hholds',rfl⟩
    rw [eventQueue]
    simp only [hnext]
    rfl

theorem Queued.destroy (h : Queued q es) : ∃ p, eventQueue.destroy q = some p ∧ Queued p [] := by
  obtain ⟨l,hholds,rfl⟩ := h
  have hdestroy := hholds.destroy (Nat.lt_succ_of_le hholds.length_le)
  refine ⟨_,?_,queued_queueCreate (q.heap.freeAll (l.map Prod.fst))⟩
  rw [eventQueue]
  simp only [hdestroy]
  rfl

/-- The linked queue loses, doubles and moves no event. -/
theorem eventQueue_refines : Refines Queued eventQueue eventList where
  fill := by
    intro buffer q es p _ h
    obtain ⟨es',hes'⟩ := parse_of_fill h
    obtain ⟨p',hp',hq⟩ := fill_eventQueue (q := q) hes'
    rw [h] at hp'
    cases hp'
    exact ⟨es',hes',hq⟩
  dequeue := by
    intro e q es p hq h
    obtain ⟨p',hp',hq'⟩ := hq.dequeue
    rw [h] at hp'
    cases hp'
    exact ⟨es.tail,rfl,hq'⟩
  destroy := by
    intro q es p hq h
    obtain ⟨p',hp',hq'⟩ := hq.destroy
    rw [h] at hp'
    cases hp'
    exact ⟨[],rfl,hq'⟩

/-- And whatever can be done with the list, the code does. -/
theorem eventList_refines : Refines (fun es q => Queued q es) eventList eventQueue where
  fill := fun _ h => fill_eventQueue h
  dequeue := by
    intro e es q p hq h
    cases h
    exact hq.dequeue
  destroy := by
    intro es q p hq h
    cases h
    exact hq.destroy

end Operations

/-- The same thread over another queue. -/
def Watch.over (s : Watch Q) (q : Q') : Watch Q' :=
  ⟨s.fileObserver,q,s.curEventFilename,s.pc,s.trace⟩

theorem Refines.step {R : Q → Q' → Prop} {ops' : QueueOps Q'} {q : Q'} (hops : Refines R ops ops')
    (h : Step w ops a s s') (hq : R s.queue q) :
    ∃ q', Step w ops' a (s.over q) (s'.over q') ∧ R s'.queue q' := by
  cases Moves.of_step h with
  | stops => exact ⟨q,Moves.step .stops,hq⟩
  | inits pc => exact ⟨q,Moves.step (.inits pc),hq⟩
  | adds pc path => exact ⟨q,Moves.step (.adds pc path),hq⟩
  | loops pc => exact ⟨q,Moves.step (.loops pc),hq⟩
  | fails pc => exact ⟨q,Moves.step (.fails pc),hq⟩
  | reads pc fits filled =>
    obtain ⟨q',hfilled,hq'⟩ := hops.fill hq filled
    exact ⟨q',Moves.step (.reads pc fits hfilled),hq'⟩
  | dispatches pc taken prints =>
    obtain ⟨q',htaken,hq'⟩ := hops.dequeue hq taken
    exact ⟨q',Moves.step (.dispatches pc htaken prints),hq'⟩
  | empties pc taken destroyed =>
    obtain ⟨q₁,htaken,hq₁⟩ := hops.dequeue hq taken
    obtain ⟨q',hdestroyed,hq'⟩ := hops.destroy hq₁ destroyed
    exact ⟨q',Moves.step (.empties pc htaken hdestroyed),hq'⟩
  | breaks pc stopped destroyed =>
    obtain ⟨q',hdestroyed,hq'⟩ := hops.destroy hq destroyed
    exact ⟨q',Moves.step (.breaks pc stopped hdestroyed),hq'⟩
  | checks pc running => exact ⟨q,Moves.step (.checks pc running),hq⟩
  | notifies pc other => exact ⟨q,Moves.step (.notifies pc other),hq⟩
  | deletes pc destroyed =>
    obtain ⟨q',hdestroyed,hq'⟩ := hops.destroy hq destroyed
    exact ⟨q',Moves.step (.deletes pc hdestroyed),hq'⟩
  | leaves pc => exact ⟨q,Moves.step (.leaves pc),hq⟩
  | closes pc => exact ⟨q,Moves.step (.closes pc),hq⟩

/-- So can its runs. -/
theorem Refines.run {R : Q → Q' → Prop} {ops' : QueueOps Q'} {q : Q'} {ls : List Act}
    (hops : Refines R ops ops') (h : Run (Step w ops) s ls s') (hq : R s.queue q) :
    ∃ q', Run (Step w ops') (s.over q) ls (s'.over q') ∧ R s'.queue q' := by
  obtain ⟨t,hrun,q',rfl,hq'⟩ := h.simulate
    (R := fun s t => ∃ q, t = s.over q ∧ R s.queue q) ⟨q,rfl,hq⟩ fun a s s' t hst hstep => by
      obtain ⟨q,rfl,hq⟩ := hst
      obtain ⟨q',hstep',hq'⟩ := hops.step hstep hq
      exact ⟨s'.over q',hstep',q',rfl,hq'⟩
  exact ⟨q',hrun,hq'⟩

end Refinement

end ThreadFunc
end UninstallObserver.Observer
