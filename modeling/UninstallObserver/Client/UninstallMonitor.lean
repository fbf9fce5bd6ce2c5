import UninstallObserver.Observer.Requests

/-! What the client library asks of the daemon on behalf of the application. -/
namespace UninstallObserver.Client
open ByteOrder Observer

def ascii (s : String) : List Byte := s.toList.map fun c => BitVec.ofNat 8 c.toNat

/-- The path of the data of a package. -/
def dataPath (packageName : List Byte) : List Byte := ascii "/data/data/" ++ packageName

structure NativeFileObserver where
  mPath : List Byte
  deriving DecidableEq, Repr

namespace NativeFileObserver

def startWatching (o : NativeFileObserver) : Request := .startWatching o.mPath

def setHttpRequestOnDelete (url : List Byte) (_ : NativeFileObserver) : Request :=
  .setOnDeleteRequestInfo url

end NativeFileObserver

/-- Once started there is an observer, and it is the one of the package. -/
structure UninstallMonitor where
  packageName : List Byte
  mFileObserver : Option NativeFileObserver
  mStart : Bool
  started : mStart → mFileObserver.isSome
  path : ∀ o, mFileObserver = some o → o.mPath = dataPath packageName

namespace UninstallMonitor

/-- The constructor. -/
def init (packageName : List Byte) : UninstallMonitor :=
  ⟨packageName,none,false,(by simp),(by simp)⟩

/-- The observer that `start` makes if there is none. -/
def observer (m : UninstallMonitor) : NativeFileObserver :=
  m.mFileObserver.getD ⟨dataPath m.packageName⟩

theorem mPath_observer (m : UninstallMonitor) : m.observer.mPath = dataPath m.packageName := by
  unfold observer
  cases ho : m.mFileObserver with
  | none => rfl
  | some o => exact m.path o ho

/-- `start`, which always succeeds, and what it asks for. -/
def start (m : UninstallMonitor) : List Request × { m : UninstallMonitor // m.mStart } :=
  (if m.mStart then [] else [m.observer.startWatching],
    ⟨⟨m.packageName,some m.observer,true,fun _ => rfl,
      fun _ ho => Option.some.inj ho ▸ m.mPath_observer⟩,rfl⟩)

/-- `mFileObserver.setHttpRequestOnDelete(url)` for a URL that is not null. -/
def setHttpRequestOnDelete (url : Option (List Byte)) (m : { m : UninstallMonitor // m.mStart }) :
    List Request :=
  match url with
  | some url => [(m.val.mFileObserver.get (m.val.started m.property)).setHttpRequestOnDelete url]
  | none => []

def setHttpRequestOnUninstall (url : Option (List Byte)) (m : UninstallMonitor) :
    List Request × UninstallMonitor :=
  if h : m.mStart then (setHttpRequestOnDelete url ⟨m,h⟩,m)
  else (m.start.1 ++ setHttpRequestOnDelete url m.start.2,m.start.2.val)

section Calls
variable {url : Option (List Byte)} {m : UninstallMonitor}

/-- The first call asks for the path, every call for its URL. -/
theorem requests_setHttpRequestOnUninstall :
    (m.setHttpRequestOnUninstall url).1 =
      (if m.mStart then [] else [.startWatching (dataPath m.packageName)]) ++
        url.toList.map .setOnDeleteRequestInfo := by
  unfold setHttpRequestOnUninstall start
  split
  · cases url <;> rfl
  · simp only [NativeFileObserver.startWatching, m.mPath_observer]
    cases url <;> rfl

@[simp] theorem mStart_setHttpRequestOnUninstall :
    (m.setHttpRequestOnUninstall url).2.mStart = true := by
  unfold setHttpRequestOnUninstall
  split
  · assumption
  · rfl

@[simp] theorem packageName_setHttpRequestOnUninstall :
    (m.setHttpRequestOnUninstall url).2.packageName = m.packageName := by
  unfold setHttpRequestOnUninstall
  split <;> rfl

end Calls

end UninstallMonitor
end UninstallObserver.Client
