import UninstallObserver.Observer.Handle
import UninstallObserver.Observer.MessageRoundTrip

/-! What the clients send, and what the daemon makes of it. -/
namespace UninstallObserver.Observer
open Imperative ByteOrder Jce BufferReader

variable {w : ℕ} {created : Bool} {buf : List Byte} {d : Daemon}

/-- What a client asks for. -/
inductive Message where
  | hello
  | filePath (path : List Byte)
  | reqOnDel (url : List Byte)
  | other
  deriving DecidableEq, Repr

/-- What the daemon is to do about it. -/
def Daemon.act (created : Bool) (buf : List Byte) : Message → Daemon → Daemon
  | .hello, d => d.echo buf
  | .filePath path, d => (d.modifyCurrent FileDeleteObserver.stopWatching).install created path
  | .reqOnDel url, d => d.modifyCurrent (FileDeleteObserver.setHttpRequestOnDelete url)
  | .other, d => d

/-- `buf` decodes, at both levels, to what the client asks for. -/
inductive Carries (w : ℕ) (buf : List Byte) : Message → Prop
  | hello {m : ControlMsg} (decoded : Decodes w buf m) (type : m.eCtrlType = eCtrlHello) :
      Carries w buf .hello
  | filePath {m : ControlMsg} {path : List Byte} (decoded : Decodes w buf m)
      (type : m.eCtrlType = eCtrlFilePath) (payload : DecodesString w m.vbData path) :
      Carries w buf (.filePath path)
  | reqOnDel {m : ControlMsg} {url : List Byte} (decoded : Decodes w buf m)
      (type : m.eCtrlType = eCtrlReqOnDel) (payload : DecodesString w m.vbData url) :
      Carries w buf (.reqOnDel url)
  | other {m : ControlMsg} (decoded : Decodes w buf m) (hello : m.eCtrlType ≠ eCtrlHello)
      (filePath : m.eCtrlType ≠ eCtrlFilePath) (reqOnDel : m.eCtrlType ≠ eCtrlReqOnDel) :
      Carries w buf .other

section Handle
variable {commSock : ℤ} {msg : Message}

/-- A whole message is acted on as it asks. -/
theorem handle_carries (hsock : 0 ≤ commSock) (hbuf : buf ≠ []) (hmsg : Carries w buf msg)
    (live : d.PointerOk) :
    Exec.Ends (fun n => handle w n created commSock buf) d
      (.returned 0 (d.act created buf msg)) := by
  rw [handle_ends_iff hsock hbuf]
  refine ⟨rfl,?_⟩
  cases hmsg with
  | hello decoded type => exact ⟨_,decoded,.hello type⟩
  | filePath decoded type payload => exact ⟨_,decoded,.filePath type payload live⟩
  | other decoded hello filePath reqOnDel => exact ⟨_,decoded,.other hello filePath reqOnDel⟩
  | reqOnDel decoded type payload =>
    refine ⟨_,decoded,?_⟩
    by_cases hc : d.mFileObserver.isSome
    · exact .reqOnDel type hc payload live
    · have hnone : d.mFileObserver = none := by simpa using hc
      rw [Daemon.act,modifyCurrent_of_none hnone]
      exact .ignored type hnone

end Handle

/-- The two requests of the client library, each with the string Java gave it. -/
inductive Request where
  | startWatching (path : List Byte)
  | setOnDeleteRequestInfo (url : List Byte)
  deriving DecidableEq, Repr

namespace Request

/-- What the request is for. -/
def message : Request → Message
  | startWatching path => .filePath path
  | setOnDeleteRequestInfo url => .reqOnDel url

/-- What goes to `SendRequest`; the sequence number is always "0". -/
def bytes : Request → Encoded
  | startWatching path => do
    let strPath ← (FilePath.mk path).writeTo
    (ControlMsg.mk eCtrlFilePath [0x30] strPath).writeTo
  | setOnDeleteRequestInfo url => do
    let data ← (ReqOnDel.mk url).writeTo
    (ControlMsg.mk eCtrlReqOnDel [0x30] data).writeTo

end Request

theorem decodes_of_written {m : ControlMsg} (hw : 32 ≤ w)
    (hs : m.sSeq.length ≤ jceMaxStringLength) (h : m.writeTo = .ok buf)
    (hlen : buf.length < 2^31) : Decodes w buf m := by
  have hp := two_pow_32_le hw
  have hread := (ControlMsg.reads (n := 0) hw ControlMsg.init hs h (by omega)).whole (by omega)
  exact ⟨_,by simp,3,hread⟩

theorem length_le_of_writeString {s enc : List Byte} {tag : BitVec 8}
    (h : writeString s tag = .ok enc) : s.length ≤ jceMaxStringLength := by
  by_contra hlong
  have hmax : 255 < s.length := by
    unfold jceMaxStringLength at hlong
    omega
  unfold writeString at h
  rw [if_pos hmax,if_pos (by omega)] at h
  cases h

theorem decodesString_of_written {x data : List Byte} (hw : 32 ≤ w)
    (h : writeString x 0 = .ok data) (hlen : data.length < 2^31) : DecodesString w data x := by
  have hp := two_pow_32_le hw
  have hs := length_le_of_writeString h
  have hread := ((roundTrips_string (w := w) (n := 0) hw hs 0 false data h (by omega)).2 []).whole
    (by omega)
  exact ⟨_,by simp,3,hread⟩

theorem length_vbData_le {m : ControlMsg} (h : m.writeTo = .ok buf) :
    m.vbData.length ≤ buf.length := by
  obtain ⟨seq,-,h⟩ := encoded_bind_ok h
  cases h
  simp only [writeCharVector, List.length_append]
  omega

/-- Every request that is sent decodes to what it is for. -/
theorem Request.carries {req : Request} (hw : 32 ≤ w) (h : req.bytes = .ok buf)
    (hlen : buf.length < 2^31) : Carries w buf req.message := by
  have hs : [(0x30 : Byte)].length ≤ jceMaxStringLength := by decide
  cases req with
  | startWatching path =>
    obtain ⟨data,hdata,h⟩ := encoded_bind_ok h
    have hle : data.length ≤ buf.length := length_vbData_le h
    exact .filePath (decodes_of_written hw hs h hlen) rfl
      (decodesString_of_written hw hdata (hle.trans_lt hlen))
  | setOnDeleteRequestInfo url =>
    obtain ⟨data,hdata,h⟩ := encoded_bind_ok h
    have hle : data.length ≤ buf.length := length_vbData_le h
    exact .reqOnDel (decodes_of_written hw hs h hlen) rfl
      (decodesString_of_written hw hdata (hle.trans_lt hlen))

end UninstallObserver.Observer
