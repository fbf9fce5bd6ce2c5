import UninstallObserver.Observer.FileDeleteObserver
import UninstallObserver.Observer.Messages

/-! The daemon process and how its server handles a message. -/
namespace UninstallObserver.Observer
open Imperative ByteOrder Jce BufferReader

/-- Where `startListening` is in its loop, after so many failures. -/
inductive Listener where
  | head (failTimes : ℕ)
  | selecting (failTimes : ℕ)
  | closed
  deriving DecidableEq, Repr

/-- Where `Start` is in the child: in its loop, past `stopListening`, past `exit`. -/
inductive Main where
  | looping | leaving | exited
  deriving DecidableEq, Repr

/-- Pointers to observers are positions in `heap`; `sent` is what was echoed. -/
structure Daemon where
  mLoop : Bool
  mFileObserver : Option ℕ
  heap : List Slot
  gKeepAliveDaemonProcess : Bool
  listener : Listener
  main : Main
  sent : List (List Byte)
  deriving DecidableEq, Repr

/-- The most that one `recv` takes. -/
def kBufferSize : ℕ := 4096

namespace Daemon

/-- The child before its first message. -/
def init : Daemon := ⟨true,none,[],true,.head 0,.looping,[]⟩

/-- The observer at `p`, unless it was destroyed. -/
def object (d : Daemon) (p : ℕ) : Option FileDeleteObserver := d.heap[p]?.bind Slot.object

def thread (d : Daemon) (p : ℕ) : Option Thread := d.heap[p]?.map Slot.thread

def current (d : Daemon) : Option FileDeleteObserver := d.mFileObserver.bind d.object

/-- `mFileObserver` is NULL or refers to a live observer. -/
def PointerOk (d : Daemon) : Prop := ∀ p, d.mFileObserver = some p → ∃ o, d.object p = some o

/-- Whatever was destroyed has no thread left. -/
def SlotsOk (d : Daemon) : Prop := ∀ (p : ℕ) (s : Slot), d.heap[p]? = some s → s.Ok

def modifyObject (p : ℕ) (f : FileDeleteObserver → FileDeleteObserver) (d : Daemon) : Daemon :=
  { d with heap := d.heap.modify p fun s => { s with object := s.object.map f } }

/-- A method called through `mFileObserver` when it is not NULL. -/
def modifyCurrent (f : FileDeleteObserver → FileDeleteObserver) (d : Daemon) : Daemon :=
  match d.mFileObserver with
  | some p => d.modifyObject p f
  | none => d

/-- A new observer takes the place of the current one. -/
def install (created : Bool) (path : List Byte) (d : Daemon) : Daemon :=
  { d with heap := d.heap ++ [Slot.new created path], mFileObserver := some d.heap.length }

def echo (buf : List Byte) (d : Daemon) : Daemon := { d with sent := d.sent ++ [buf] }

end Daemon

section Slots
variable {f : FileDeleteObserver → FileDeleteObserver} {d : Daemon} {created : Bool}
  {path : List Byte}

theorem slotsOk_modifyCurrent (h : d.SlotsOk) : (d.modifyCurrent f).SlotsOk := by
  intro p s hs
  unfold Daemon.modifyCurrent at hs
  split at hs
  · next q hq =>
    simp only [Daemon.modifyObject, List.getElem?_modify, Option.map_eq_map,
      Option.map_eq_some_iff] at hs
    obtain ⟨s₀,hs₀,rfl⟩ := hs
    have hok := h p s₀ hs₀
    by_cases hqp : q = p
    · simp only [hqp, if_true]
      intro hnone
      exact hok (Option.map_eq_none_iff.mp hnone)
    · simpa only [hqp, if_false] using hok
  · exact h p s hs

theorem slotsOk_install (h : d.SlotsOk) : (d.install created path).SlotsOk := by
  intro p s hs
  simp only [Daemon.install, List.getElem?_append] at hs
  split at hs
  · exact h p s hs
  · rw [List.getElem?_singleton] at hs
    split at hs
    · cases hs
      exact Slot.ok_new created path
    · cases hs

end Slots

section Current
variable {f : FileDeleteObserver → FileDeleteObserver} {d : Daemon} {created : Bool}
  {path : List Byte}

theorem object_modifyObject (p q : ℕ) : (d.modifyObject p f).object q =
    if p = q then (d.object q).map f else d.object q := by
  unfold Daemon.object Daemon.modifyObject
  rw [List.getElem?_modify]
  by_cases h : p = q
  · simp only [h, if_true]
    cases d.heap[q]? <;> rfl
  · simp [h]

@[simp] theorem mFileObserver_modifyCurrent :
    (d.modifyCurrent f).mFileObserver = d.mFileObserver := by
  unfold Daemon.modifyCurrent
  split <;> rfl

@[simp] theorem current_modifyCurrent : (d.modifyCurrent f).current = d.current.map f := by
  unfold Daemon.current
  rw [mFileObserver_modifyCurrent,Daemon.modifyCurrent]
  cases hc : d.mFileObserver with
  | none => rfl
  | some p => simp [object_modifyObject]

@[simp] theorem thread_modifyCurrent (p : ℕ) : (d.modifyCurrent f).thread p = d.thread p := by
  unfold Daemon.modifyCurrent
  split
  · next q hq =>
    simp only [Daemon.thread, Daemon.modifyObject, List.getElem?_modify]
    cases d.heap[p]? with
    | none => rfl
    | some s => by_cases h : q = p <;> simp [h]
  · rfl

@[simp] theorem length_modifyCurrent : (d.modifyCurrent f).heap.length = d.heap.length := by
  unfold Daemon.modifyCurrent
  split
  · exact List.length_modify _ _ _
  · rfl

@[simp] theorem gKeepAliveDaemonProcess_modifyCurrent :
    (d.modifyCurrent f).gKeepAliveDaemonProcess = d.gKeepAliveDaemonProcess := by
  unfold Daemon.modifyCurrent
  split <;> rfl

@[simp] theorem main_modifyCurrent : (d.modifyCurrent f).main = d.main := by
  unfold Daemon.modifyCurrent
  split <;> rfl

@[simp] theorem listener_modifyCurrent : (d.modifyCurrent f).listener = d.listener := by
  unfold Daemon.modifyCurrent
  split <;> rfl

@[simp] theorem current_install : (d.install created path).current =
    some ((FileDeleteObserver.init path).startWatching created) := by
  simp [Daemon.current, Daemon.object, Daemon.install, Slot.new]

theorem pointerOk_iff : d.PointerOk ↔ (d.mFileObserver.isSome → d.current.isSome) := by
  unfold Daemon.PointerOk Daemon.current
  cases d.mFileObserver with
  | none => simp
  | some p => simp [Option.isSome_iff_exists]

theorem modifyCurrent_of_none (hc : d.mFileObserver = none) : d.modifyCurrent f = d := by
  rw [Daemon.modifyCurrent,hc]

theorem pointerOk_of_none (hc : d.mFileObserver = none) : d.PointerOk := by
  intro p hp
  rw [hc] at hp
  cases hp

end Current

abbrev Server := Exec JceException Daemon

/-- `mFileObserver->f()`, which must not be called on an observer that was destroyed. -/
def callCurrent (f : FileDeleteObserver → FileDeleteObserver) : Server Unit := do
  let d ← Exec.get
  match d.mFileObserver with
  | some p => if (d.object p).isSome then Exec.modify (Daemon.modifyObject p f) else Exec.undefined
  | none => Exec.undefined

/-- `if (mFileObserver) mFileObserver->stopWatching();` -/
def stopCurrent : Server Unit := do
  let d ← Exec.get
  if d.mFileObserver.isSome then callCurrent FileDeleteObserver.stopWatching else pure ()

/-- The case `E_CTRL_FILE_PATH`. `created` tells whether `pthread_create` makes a thread. -/
def handleFilePath (w fuel : ℕ) (created : Bool) (vbData : List Byte) : Server Unit := do
  let filePath ← Exec.lift
    (FilePath.readFrom fuel FilePath.init (setBufferVector (w := w) vbData))
  stopCurrent
  Exec.modify (Daemon.install created filePath.sFilePath)

/-- The case `E_CTRL_REQ_ON_DEL`. -/
def handleReqOnDel (w fuel : ℕ) (vbData : List Byte) : Server Unit := do
  let d ← Exec.get
  if d.mFileObserver.isSome then
    let req ← Exec.lift
      (ReqOnDel.readFrom fuel ReqOnDel.init (setBufferVector (w := w) vbData))
    callCurrent (FileDeleteObserver.setHttpRequestOnDelete req.sUrl)
  else pure ()

/-- The `switch` of `handle`. -/
def handleMsg (w fuel : ℕ) (created : Bool) (buf : List Byte) (recvMsg : ControlMsg) :
    Server Unit :=
  if recvMsg.eCtrlType = eCtrlHello then Exec.modify (Daemon.echo buf)
  else if recvMsg.eCtrlType = eCtrlFilePath then handleFilePath w fuel created recvMsg.vbData
  else if recvMsg.eCtrlType = eCtrlReqOnDel then handleReqOnDel w fuel recvMsg.vbData
  else pure ()

/-- `BackendServer::handle`. -/
def handle (w fuel : ℕ) (created : Bool) (commSock : ℤ) (buf : List Byte) : Server ℤ :=
  if commSock < 0 ∨ buf.length = 0 then pure 0
  else do
    let recvMsg ← Exec.lift
      (ControlMsg.readFrom fuel ControlMsg.init (setBufferVector (w := w) buf))
    handleMsg w fuel created buf recvMsg
    pure 0

end UninstallObserver.Observer
