import UninstallObserver.Jce.OutputStream

/-! The control messages and their payloads. -/
namespace UninstallObserver.Observer
open Imperative ByteOrder Jce

variable {w : ℕ}

/-- The enumeration holds any value that a cast from `Int32` gives it. -/
abbrev CtrlType := BitVec 32

def eCtrlHello : CtrlType := 0
def eCtrlFilePath : CtrlType := 1
def eCtrlReqOnDel : CtrlType := 2

structure ControlMsg where
  eCtrlType : CtrlType
  sSeq : List Byte
  vbData : List Byte
  deriving DecidableEq, Repr

namespace ControlMsg

/-- The constructor. -/
def init : ControlMsg := ⟨eCtrlHello,[],[]⟩

def resetDefautlt (m : ControlMsg) : ControlMsg := { m with sSeq := [] }

def writeTo (m : ControlMsg) : Encoded := do
  let sSeq ← writeString m.sSeq 1
  pure (writeInt32 m.eCtrlType 0 ++ sSeq ++ writeCharVector m.vbData 2)

def readFrom (fuel : ℕ) (old : ControlMsg) : Decode w ControlMsg := do
  let m := old.resetDefautlt
  let eTemp0 ← readInt32 fuel eCtrlHello 0 false
  let sSeq ← readString fuel m.sSeq 1 false
  let vbData ← readCharVector fuel m.vbData 2 false
  pure ⟨eTemp0,sSeq,vbData⟩

end ControlMsg

structure FilePath where
  sFilePath : List Byte
  deriving DecidableEq, Repr

namespace FilePath

def init : FilePath := ⟨[]⟩

def resetDefautlt (_ : FilePath) : FilePath := ⟨[]⟩

def writeTo (m : FilePath) : Encoded := writeString m.sFilePath 0

def readFrom (fuel : ℕ) (old : FilePath) : Decode w FilePath := do
  let sFilePath ← readString fuel old.resetDefautlt.sFilePath 0 false
  pure ⟨sFilePath⟩

end FilePath

structure ReqOnDel where
  sUrl : List Byte
  deriving DecidableEq, Repr

namespace ReqOnDel

def init : ReqOnDel := ⟨[]⟩

def resetDefautlt (_ : ReqOnDel) : ReqOnDel := ⟨[]⟩

def writeTo (m : ReqOnDel) : Encoded := writeString m.sUrl 0

def readFrom (fuel : ℕ) (old : ReqOnDel) : Decode w ReqOnDel := do
  let sUrl ← readString fuel old.resetDefautlt.sUrl 0 false
  pure ⟨sUrl⟩

end ReqOnDel

/-- `ProtocolUtil::readFrom`, which leaves the target alone when there is nothing to read. -/
def protocolReadFrom {α : Type} (readFrom : α → Decode w α) (source : List Byte) (target : α) :
    Outcome JceException (BufferReader w) α :=
  if source = [] then .returned target (BufferReader.setBufferVector source)
  else readFrom target (BufferReader.setBufferVector source)

end UninstallObserver.Observer
