import UninstallObserver.Lib.Traces
import UninstallObserver.Observer.Batches
import UninstallObserver.Observer.OnDelete

/-! An observer with its thread as the code has them: the loop over the events that `inotify`
reads, and the handler it calls. -/
namespace UninstallObserver.Observer
open ByteOrder Transition

/-- What the rest of the daemon and the server on the Internet can tell of an observer. -/
inductive Visible where
  | stopWatching
  | setHttpRequestOnDelete (url : List Byte)
  /-- An attempt at the request, and whether it counts as a success. -/
  | sendRequest (url : List Byte) (ok : Bool)
  /-- `BackendServer::Stop`. -/
  | stop
  /-- `delete this`. -/
  | finish
  deriving DecidableEq, Repr

namespace Slot

/-- What is done to an observer, and what its thread does. -/
inductive Act where
  | stopWatching
  | setHttpRequestOnDelete (url : List Byte)
  | thread (i : Input)
  deriving DecidableEq, Repr

/-- A method of the observer, as long as it has not been destroyed. -/
def call (f : FileDeleteObserver → FileDeleteObserver) (s : Slot) : Option Slot :=
  s.object.map fun o => { s with object := some (f o) }

def act : Act → Slot → Option Slot
  | .stopWatching, s => s.call FileDeleteObserver.stopWatching
  | .setHttpRequestOnDelete url, s => s.call (FileDeleteObserver.setHttpRequestOnDelete url)
  | .thread i, s => s.step i

def Acts (a : Act) (s t : Slot) : Prop := s.act a = some t

def shows : Act → Slot → List Visible
  | .stopWatching, _ => [.stopWatching]
  | .setHttpRequestOnDelete url, _ => [.setHttpRequestOnDelete url]
  | .thread (.request transfer), ⟨some o,_⟩ => [.sendRequest o.mUrl (o.sendRequest transfer)]
  | .thread .next, ⟨_,.stopping⟩ => [.stop]
  | .thread .next, ⟨_,.finishing⟩ => [.finish]
  | _, _ => []

end Slot

/-- Where the observer is in `onEvent`. -/
inductive Handling where
  | onEvent (event : Event)
  /-- At the condition of the loop of `onDelete`. -/
  | onDelete (i : ℕ)
  /-- After a request that failed. -/
  | sleeping (i : ℕ)
  /-- Before `BackendServer::Stop`. -/
  | stopping
  /-- In `finish`. -/
  | finishing
  deriving DecidableEq, Repr

/-- How far a thread has come that has no handler to run. -/
def ThreadFunc.Pc.thread : ThreadFunc.Pc → Thread
  | .entry | .adding => .starting
  | .head true k | .reading k | .dispatching k | .checking k _ => .watching k
  | .notifying k event => if event = .delete then .delivering else .watching k
  | .leaving k => if k = kFailedRetryTimes then .watching k else .quit
  | .head false _ | .closing | .returned => .quit

/-- How far the handler has come. -/
def Handling.thread : Handling → Thread
  | .onEvent event => if event = .delete then .delivering else .watching kFailedRetryTimes
  | .onDelete i => .retrying i
  | .sleeping i => .retrying (i+1)
  | .stopping => .stopping
  | .finishing => .finishing

/-- The observer's members, its `FileObserver` being with the thread that watches for it, whether
that thread was made, and where the observer is in its handler. -/
structure ObserverThread (Q : Type) where
  mCancelled : Bool
  mPath : List Byte
  mUrl : List Byte
  deleted : Bool
  created : Bool
  watch : ThreadFunc.Watch Q
  handling : Option Handling
  deriving DecidableEq, Repr

namespace ObserverThread

/-- What decides the next step: a call of the server, what the watching thread meets, or what
`curl` does for the handler. -/
inductive Act where
  | stopWatching
  | setHttpRequestOnDelete (url : List Byte)
  | watch (a : ThreadFunc.Act)
  | handler (curl : Bool) (res : OnDelete.CurlCode)
  deriving DecidableEq, Repr

variable {Q : Type}

/-- `new FileDeleteObserver(path)`, then `startWatching`. -/
def new (created : Bool) (path : List Byte) (queue : Q) : ObserverThread Q :=
  let o := (FileDeleteObserver.init path).startWatching created
  ⟨o.mCancelled,o.mPath,o.mUrl,false,created,.init o.mFileObserver queue,none⟩

/-- The call of the delegate in the actions that a step has added. -/
def called (s t : ThreadFunc.Watch Q) : Option Handling :=
  (ThreadFunc.calls (t.trace.drop s.trace.length)).head?.map fun c => .onEvent c.1

/-- The watching thread has come to `t`. -/
def goOn (t : ThreadFunc.Watch Q) (c : ObserverThread Q) : ObserverThread Q :=
  { c with watch := t, handling := called c.watch t }

/-- One step of the handler. -/
def handle (curl : Bool) (res : OnDelete.CurlCode) (c : ObserverThread Q) :
    Option (ObserverThread Q) :=
  match c.handling with
  | none => none
  | some (.onEvent event) =>
    if event = .delete then
      some { c with handling := some (if c.mCancelled then .finishing else .onDelete 0) }
    else if event = .error then some { c with handling := some .stopping }
    else some { c with handling := none }
  | some (.onDelete i) =>
    if i < kFailRetryTimes then
      if (OnDelete.curleOk : ℤ) = (OnDelete.sendRequest ⟨c.mUrl,curl,res⟩).1 then
        some { c with handling := some .stopping }
      else some { c with handling := some (.sleeping i) }
    else some { c with handling := some .stopping }
  | some (.sleeping i) => some { c with handling := some (.onDelete (i+1)) }
  | some .stopping => some { c with handling := some .finishing }
  | some .finishing => some { c with handling := none, deleted := true }

/-- The server's calls are for an observer that is there; the watching thread waits while the
handler it has called runs. -/
def step (w : ℕ) (ops : ThreadFunc.QueueOps Q) (a : Act) (c : ObserverThread Q) :
    Option (ObserverThread Q) :=
  match a with
  | .stopWatching =>
    if c.deleted then none
    else some { c with
      mCancelled := true,
      watch := { c.watch with fileObserver := c.watch.fileObserver.stopWatching } }
  | .setHttpRequestOnDelete url => if c.deleted then none else some { c with mUrl := url }
  | .watch a =>
    if c.created ∧ c.handling = none ∧ a ≠ .stop then
      (c.watch.step w ops a).map fun t => c.goOn t
    else none
  | .handler curl res => c.handle curl res

def Steps (w : ℕ) (ops : ThreadFunc.QueueOps Q) (a : Act) (c d : ObserverThread Q) : Prop :=
  c.step w ops a = some d

def shows : Act → ObserverThread Q → List Visible
  | .stopWatching, _ => [.stopWatching]
  | .setHttpRequestOnDelete url, _ => [.setHttpRequestOnDelete url]
  | .watch _, _ => []
  | .handler curl res, c =>
    match c.handling with
    | some (.onDelete i) =>
      if i < kFailRetryTimes then
        [.sendRequest c.mUrl
          (decide ((OnDelete.curleOk : ℤ) = (OnDelete.sendRequest ⟨c.mUrl,curl,res⟩).1))]
      else []
    | some .stopping => [.stop]
    | some .finishing => [.finish]
    | _ => []

/-- The observer, until it is destroyed. -/
def object (c : ObserverThread Q) : Option FileDeleteObserver :=
  if c.deleted then none else some ⟨c.mCancelled,c.mPath,c.mUrl,c.watch.fileObserver⟩

/-- How far the observer has come. -/
def thread (c : ObserverThread Q) : Thread :=
  if c.deleted then .ended
  else if c.created then
    match c.handling with
    | some h => h.thread
    | none => c.watch.pc.thread
  else .notCreated

/-- The observer as the daemon's other threads know it. -/
def slot (c : ObserverThread Q) : Slot := ⟨c.object,c.thread⟩

end ObserverThread
end UninstallObserver.Observer
