import UninstallObserver.Lib.ByteOrder

/-! An observer of one path, and how far the thread that watches for it has come. -/
namespace UninstallObserver.Observer
open ByteOrder

/-- `FileObserver::Event`, a bit each. -/
inductive Event where
  | none | access | modify | attribChanged | closeWrite | closeNoWrite | open' | movedFrom
  | delete | error
  deriving DecidableEq, Repr

def Event.bit : Event → BitVec 32
  | .none => 1 <<< 0 | .access => 1 <<< 1 | .modify => 1 <<< 2 | .attribChanged => 1 <<< 3
  | .closeWrite => 1 <<< 4 | .closeNoWrite => 1 <<< 5 | .open' => 1 <<< 6
  | .movedFrom => 1 <<< 7 | .delete => 1 <<< 8 | .error => 1 <<< 9

/-- `FileObserver::State`. -/
inductive State where
  | created | started | stopped
  deriving DecidableEq, Repr

structure FileObserver where
  mPath : List Byte
  mEventFilter : BitVec 32
  mState : State
  deriving DecidableEq, Repr

namespace FileObserver

/-- The constructor. -/
def init (path : List Byte) : FileObserver := ⟨path,0,.created⟩

def setEventFilter (filter : BitVec 32) (o : FileObserver) : FileObserver :=
  { o with mEventFilter := filter }

/-- `success` tells whether `pthread_create` made the thread. -/
def startWatching (success : Bool) (o : FileObserver) : FileObserver :=
  if success then { o with mState := .started } else o

def stopWatching (o : FileObserver) : FileObserver := { o with mState := .stopped }

def isStopped (o : FileObserver) : Bool := o.mState == .stopped

/-- The events the watching thread hands to the delegate. -/
def accepts (o : FileObserver) (event : Event) : Bool :=
  if o.mEventFilter ≠ 0 then event != .none && event.bit &&& o.mEventFilter != 0 else true

end FileObserver

/-- The observer owns its `FileObserver` and is that observer's delegate. -/
structure FileDeleteObserver where
  mCancelled : Bool
  mPath : List Byte
  mUrl : List Byte
  mFileObserver : FileObserver
  deriving DecidableEq, Repr

namespace FileDeleteObserver

/-- The constructor. -/
def init (path : List Byte) : FileDeleteObserver :=
  ⟨false,path,[],(FileObserver.init path).setEventFilter (Event.delete.bit ||| Event.error.bit)⟩

def startWatching (success : Bool) (o : FileDeleteObserver) : FileDeleteObserver :=
  { o with mFileObserver := o.mFileObserver.startWatching success }

def stopWatching (o : FileDeleteObserver) : FileDeleteObserver :=
  { o with mCancelled := true, mFileObserver := o.mFileObserver.stopWatching }

def setHttpRequestOnDelete (url : List Byte) (o : FileDeleteObserver) : FileDeleteObserver :=
  { o with mUrl := url }

/-- `sendRequest` for a transfer that would succeed or not: an empty URL never does. -/
def sendRequest (transfer : Bool) (o : FileDeleteObserver) : Bool :=
  !o.mUrl.isEmpty && transfer

end FileDeleteObserver

/-- How far the thread of an observer has come: in `ThreadFunc`, then in the handlers
it calls. -/
inductive Thread where
  | notCreated
  /-- Before `inotify_add_watch`. -/
  | starting
  /-- Returned without a call to the delegate. -/
  | quit
  /-- In the loop, after so many failed reads. -/
  | watching (failedTimes : ℕ)
  /-- Past `isStopped`, about to hand `Delete` to the delegate. -/
  | delivering
  /-- In the loop of `onDelete`, after so many failed requests. -/
  | retrying (i : ℕ)
  /-- About to call `BackendServer::Stop`. -/
  | stopping
  /-- About to call `finish`. -/
  | finishing
  | ended
  deriving DecidableEq, Repr

/-- The handler of an observer has been given `Delete` or `Error`. -/
def Thread.received : Thread → Bool
  | .retrying _ | .stopping | .finishing | .ended => true
  | .notCreated | .starting | .quit | .watching _ | .delivering => false

/-- What decides the next step of a thread. -/
inductive Input where
  | setUp (success : Bool)
  | readFails
  | event (event : Event)
  | request (transfer : Bool)
  | next
  deriving DecidableEq, Repr

/-- An allocated observer, until it is destroyed, and its thread. -/
structure Slot where
  object : Option FileDeleteObserver
  thread : Thread
  deriving DecidableEq, Repr

/-- `kFailedRetryTimes` of the reads and `kFailRetryTimes` of the requests. -/
def kFailedRetryTimes : ℕ := 10
def kFailRetryTimes : ℕ := 10

namespace Slot

/-- `new FileDeleteObserver(path)`, then `startWatching`. -/
def new (created : Bool) (path : List Byte) : Slot :=
  ⟨some ((FileDeleteObserver.init path).startWatching created),
    if created then .starting else .notCreated⟩

/-- The thread after an inotify event. -/
def onInotify (o : FileDeleteObserver) (event : Event) (failedTimes : ℕ) : Thread :=
  if o.mFileObserver.isStopped then .watching failedTimes
  else if event = .delete then
    if o.mFileObserver.accepts event then .delivering else .quit
  else .watching failedTimes

/-- One step of the thread, if it can take one on this input. Touching an observer that was
destroyed is not a step. -/
def step : Input → Slot → Option Slot
  | .setUp success, ⟨o,.starting⟩ => some ⟨o,if success then .watching 0 else .quit⟩
  | .readFails, ⟨o,.watching k⟩ =>
    if k < kFailedRetryTimes then some ⟨o,.watching (k+1)⟩ else none
  | .event event, ⟨some o,.watching k⟩ =>
    if k < kFailedRetryTimes then some ⟨some o,onInotify o event k⟩ else none
  -- after the loop: `onEvent(Error)`
  | .next, ⟨some o,.watching k⟩ =>
    if k = kFailedRetryTimes then some ⟨some o,.stopping⟩ else none
  -- `onEvent(Delete)`
  | .next, ⟨some o,.delivering⟩ =>
    some ⟨some o,if o.mCancelled then .finishing else .retrying 0⟩
  | .request transfer, ⟨some o,.retrying i⟩ =>
    if i < kFailRetryTimes then
      some ⟨some o,if o.sendRequest transfer then .stopping else .retrying (i+1)⟩
    else none
  | .next, ⟨o,.retrying i⟩ => if i = kFailRetryTimes then some ⟨o,.stopping⟩ else none
  | .next, ⟨o,.stopping⟩ => some ⟨o,.finishing⟩
  -- `delete this`
  | .next, ⟨some _,.finishing⟩ => some ⟨none,.ended⟩
  | _, _ => none

/-- A step from here calls `BackendServer::Stop`. -/
def stops (s : Slot) : Bool := s.thread == .stopping

/-- A destroyed observer has no thread left. -/
def Ok (s : Slot) : Prop := s.object = none → s.thread = .ended

/-- A step keeps the observer, unless it is the one that destroys it, and what was received. -/
theorem step_cases {i : Input} {s s' : Slot} (h : s.step i = some s') :
    (s'.object = s.object ∧ s.thread ≠ .finishing ∧ s.thread ≠ .ended ∧
      (s.thread.received → s'.thread.received)) ∨
    (i = .next ∧ s.thread = .finishing ∧ s.object.isSome ∧ s' = ⟨none,.ended⟩) := by
  have hif : ∀ {c : Prop} [Decidable c] {x : Slot}, (if c then some x else none) = some s' →
      x = s' := by
    intro c _ x hx
    split at hx
    · exact Option.some.inj hx
    · cases hx
  unfold step at h
  split at h
  · cases h
    simp [Thread.received]
  · obtain rfl := hif h
    simp [Thread.received]
  · obtain rfl := hif h
    simp [Thread.received]
  · obtain rfl := hif h
    simp [Thread.received]
  · cases h
    simp [Thread.received]
  · obtain rfl := hif h
    refine .inl ⟨rfl,by simp,by simp,fun _ => ?_⟩
    dsimp only
    split <;> rfl
  · obtain rfl := hif h
    simp [Thread.received]
  · cases h
    simp [Thread.received]
  · cases h
    exact .inr ⟨rfl,rfl,rfl,rfl⟩
  · cases h

theorem received_step {i : Input} {s s' : Slot} (h : s.step i = some s')
    (hs : s.thread.received) : s'.thread.received := by
  rcases step_cases h with ⟨-,-,-,hkeep⟩ | ⟨-,-,-,rfl⟩
  · exact hkeep hs
  · rfl

theorem next_of_stops {i : Input} {s s' : Slot} (h : s.step i = some s') (hs : s.stops) :
    i = .next ∧ s.thread = .stopping := by
  have hthread : s.thread = .stopping := by simpa [stops] using hs
  obtain ⟨o,t⟩ := s
  obtain rfl := hthread
  cases i with
  | next => exact ⟨rfl,rfl⟩
  | setUp success => cases h
  | readFails => cases h
  | event event => cases o <;> cases h
  | request transfer => cases o <;> cases h

theorem ok_new (created : Bool) (path : List Byte) : (new created path).Ok := by
  intro h
  cases h

theorem Ok.step {i : Input} {s s' : Slot} (hs : s.Ok) (h : s.step i = some s') : s'.Ok := by
  rcases step_cases h with ⟨hobject,-,hended,-⟩ | ⟨-,-,-,rfl⟩
  · intro hnone
    exact absurd (hs (hobject ▸ hnone)) hended
  · intro _
    rfl

end Slot
end UninstallObserver.Observer
