import UninstallObserver.Lib.Scopes
import UninstallObserver.Jce.WriterAccounts
import UninstallObserver.Jce.BufferedStream
import UninstallObserver.Observer.CutMessages

/-! The native side of the client library, in the memory of the process that loaded it. -/
namespace UninstallObserver.Observer
open Imperative ByteOrder ArrayHeap Jce

variable {w : ℕ}

section Messages
variable {σ : Type} (writeBuf : List Byte → Put σ Unit)

/-- `ControlMsg::writeTo`, call by call. -/
def ControlMsg.writeOn (m : ControlMsg) : Put σ Unit := do
  JceOutputStream.writeInt32 writeBuf m.eCtrlType 0
  JceOutputStream.writeString writeBuf m.sSeq 1
  JceOutputStream.writeCharVector writeBuf m.vbData 2

def FilePath.writeOn (m : FilePath) : Put σ Unit :=
  JceOutputStream.writeString writeBuf m.sFilePath 0

def ReqOnDel.writeOn (m : ReqOnDel) : Put σ Unit :=
  JceOutputStream.writeString writeBuf m.sUrl 0

end Messages

/-- The process: its heap, the native objects that were made, the strings taken from Java and
not given back, the sockets that are open and what went to `send`. -/
structure Process where
  heap : Heap Byte
  handlers : ℕ
  strings : ℕ
  sockets : ℕ
  sent : List (List Byte)
  deriving DecidableEq, Repr

/-- How far `SimpleTcpClient` gets: no socket, no connection, or one that is made. -/
inductive Contact where
  | noSocket | refused | made
  deriving DecidableEq, Repr

/-- `SimpleTcpClient()`; there is no destructor. -/
def SimpleTcpClient.init (conn : Contact) (p : Process) : Process :=
  { p with sockets := if conn = .noSocket then p.sockets else p.sockets+1 }

/-- `send`, which is given whatever memory the length covers. -/
def SimpleTcpClient.write (w : ℕ) (buffer : Option ℕ) (length : BitVec 32) :
    Exec JceException Process Unit := do
  let bs ← Exec.ask fun p => p.heap.load buffer 0 (length.signExtend w).toNat
  Exec.modify fun p => { p with sent := p.sent ++ [bs] }

/-- `BackendServer::SendRequest`; the length comes as an `int`. -/
def BackendServer.sendRequest (w : ℕ) (conn : Contact) (buffer : Option ℕ) (length : BitVec 32) :
    Exec JceException Process ℤ :=
  if buffer = none ∨ length = 0 then pure (-1)
  else do
    Exec.modify (SimpleTcpClient.init conn)
    if conn = .made then do
      SimpleTcpClient.write w buffer length
      pure 0
    else pure (-2)

/-- `~BufferWriter()`. -/
def destroyWriter (wr : BufferWriter w) : Exec JceException (Heap Byte) Unit :=
  Exec.change fun h => h.delete wr.buf

/-- `ProtocolUtil::writeTo` of what `write` writes to its stream. -/
def ProtocolUtil.writeTo (write : Put (Heap Byte × BufferWriter w) Unit) :
    Exec JceException (Heap Byte) (List Byte) :=
  Exec.block BufferWriter.init destroyWriter do
    write
    Exec.ask fun s => s.2.getByteBuffer s.1

namespace Process

def onHeap {α : Type} (m : Exec JceException (Heap Byte) α) : Exec JceException Process α :=
  m.zoom heap fun h p => { p with heap := h }

/-- Code on the heap and a stream of the block. -/
def onStream (m : Put (Heap Byte × BufferWriter w) Unit) :
    Exec JceException (Process × BufferWriter w) Unit :=
  m.zoom (fun s => (s.1.heap,s.2)) fun t s => ({ s.1 with heap := t.1 },t.2)

/-- Code that leaves the stream of the block alone. -/
def besideStream {α : Type} (m : Exec JceException Process α) :
    Exec JceException (Process × BufferWriter w) α :=
  m.zoom Prod.fst fun p s => (p,s.2)

section Rules
variable {α : Type} {p t : Process} {os : BufferWriter w} {a : α} {e : JceException} {h : Heap Byte}

theorem onHeap_of_returned {m : Exec JceException (Heap Byte) α} (hm : m p.heap = .returned a h) :
    onHeap m p = .returned a { p with heap := h } := by
  rw [onHeap,Exec.zoom,hm,Outcome.mapState]

theorem onHeap_of_threw {m : Exec JceException (Heap Byte) α} (hm : m p.heap = .threw e h) :
    onHeap m p = .threw e { p with heap := h } := by
  rw [onHeap,Exec.zoom,hm,Outcome.mapState]

theorem onStream_of_returned {m : Put (Heap Byte × BufferWriter w) Unit} {os' : BufferWriter w}
    (hm : m (p.heap,os) = .returned () (h,os')) :
    onStream m (p,os) = .returned () ({ p with heap := h },os') := by
  rw [onStream,Exec.zoom,hm,Outcome.mapState]

theorem besideStream_of_returned {m : Exec JceException Process α} (hm : m p = .returned a t) :
    besideStream m (p,os) = .returned a (t,os) := by
  rw [besideStream,Exec.zoom,hm,Outcome.mapState]

end Rules

/-- The end of both requests: the message goes through a stream of its own to the server. -/
def sendMsg (fresh : ℕ → ℕ → Byte) (conn : Contact) (msg : ControlMsg)
    (releaseStringUTFChars : Process → Process) : Exec JceException Process Unit :=
  Exec.block (BufferWriter.init : BufferWriter w) (fun os => onHeap (destroyWriter os)) do
    onStream (msg.writeOn (BufferWriter.put fresh))
    let os ← Exec.ask fun s => some s.2
    let _ ← besideStream (BackendServer.sendRequest w conn os.buf (os.len.setWidth 32))
    besideStream (Exec.modify releaseStringUTFChars)

end Process

namespace NativeFileObserver

def getStringUTFChars (p : Process) : Process := { p with strings := p.strings+1 }
def releaseStringUTFChars (p : Process) : Process := { p with strings := p.strings-1 }

/-- The string stays with the process. -/
def startWatching (w : ℕ) (fresh : ℕ → ℕ → Byte) (conn : Contact) (path : List Byte) :
    Exec JceException Process Unit := do
  Exec.modify getStringUTFChars
  let strPath ← Process.onHeap (ProtocolUtil.writeTo (w := w)
    ((FilePath.mk path).writeOn (BufferWriter.put fresh)))
  Process.sendMsg (w := w) fresh conn ⟨eCtrlFilePath,[0x30],strPath⟩ id

def setOnDeleteRequestInfo (w : ℕ) (fresh : ℕ → ℕ → Byte) (conn : Contact) (url : List Byte) :
    Exec JceException Process Unit := do
  Exec.modify getStringUTFChars
  let data ← Process.onHeap (ProtocolUtil.writeTo (w := w)
    ((ReqOnDel.mk url).writeOn (BufferWriter.put fresh)))
  Process.sendMsg (w := w) fresh conn ⟨eCtrlReqOnDel,[0x30],data⟩ releaseStringUTFChars

end NativeFileObserver

/-- What Java calls. -/
inductive JniCall where
  | createHandler
  | request (req : Request)
  | stopWatching
  deriving DecidableEq, Repr

/-- The native method of a request. -/
def Request.run (w : ℕ) (fresh : ℕ → ℕ → Byte) (conn : Contact) :
    Request → Exec JceException Process Unit
  | startWatching path => NativeFileObserver.startWatching w fresh conn path
  | setOnDeleteRequestInfo url => NativeFileObserver.setOnDeleteRequestInfo w fresh conn url

/-- One call; nothing ever deletes a native object and `stopWatching` does nothing at all. -/
def JniCall.run (w : ℕ) (fresh : ℕ → ℕ → Byte) (conn : Contact) :
    JniCall → Exec JceException Process Unit
  | createHandler => Exec.modify fun p => { p with handlers := p.handlers+1 }
  | request req => req.run w fresh conn
  | stopWatching => pure ()

/-- One call after another. An exception leaves the library and ends the process. -/
def runCalls (w : ℕ) (fresh : ℕ → ℕ → Byte) :
    List (JniCall × Contact) → Exec JceException Process Unit
  | [] => pure ()
  | c::cs => do
    c.1.run w fresh c.2
    runCalls w fresh cs

section Parts
variable {fresh : ℕ → ℕ → Byte} {h h' : Heap Byte} {buf enc : List Byte} {conn : Contact}
  {p : Process}

theorem ControlMsg.streams (m : ControlMsg) :
    Streams (fun _ writeBuf => m.writeOn writeBuf) m.writeTo := by
  have h := (Streams.writeInt32 m.eCtrlType 0).seq
    ((Streams.writeString m.sSeq 1).seq (Streams.writeCharVector m.vbData 2))
  simp only [bind_assoc, pure_bind, ← List.append_assoc] at h
  exact h

/-- A string that is too long is refused before anything is written. -/
theorem writeString_long {s : List Byte} (hs : jceMaxStringLength < s.length) (tag : BitVec 8) :
    ∃ e, Jce.writeString s tag = .error e ∧
      ∀ (σ : Type) (writeBuf : List Byte → Put σ Unit),
        JceOutputStream.writeString writeBuf s tag = Exec.throw e := by
  have hlong : 255 < s.length := by
    unfold jceMaxStringLength at hs
    omega
  exact ⟨_,(if_pos hlong).trans (if_pos hs),fun _ _ => (if_pos hlong).trans (if_pos hs)⟩

theorem destroyWriter_spec {wr : BufferWriter w} (hb : wr.Holds h buf) :
    ∃ h', destroyWriter wr h = .returned () h' ∧ h.delete wr.buf = some h' :=
  ⟨_,Exec.change_of_some hb.delete,hb.delete⟩

/-- What is written to a stream of the block is returned, and its memory is freed. -/
theorem ProtocolUtil.writeTo_spec {m : (σ : Type) → (List Byte → Put σ Unit) → Put σ Unit}
    (hm : Streams m (.ok enc)) (hlen : enc.length < 2^(w-1)) (fresh : ℕ → ℕ → Byte) (h : Heap Byte) :
    ∃ h', ProtocolUtil.writeTo (w := w) (m _ (BufferWriter.put fresh)) h = .returned enc h' ∧
      Heap.Added h [] h' := by
  obtain ⟨h₁,wr,hwrite,hholds,-⟩ := BufferWriter.put_streams hm fresh
    (BufferWriter.holds_init (w := w) (h := h)) (by simpa using hlen)
  rw [List.nil_append] at hholds
  have hempty : Heap.Added h ((BufferWriter.init : BufferWriter w).buf.toList ++ []) h := .refl h
  have hadded : Heap.Added h (wr.buf.toList ++ []) h₁ :=
    BufferWriter.put_added hm hempty hwrite
  obtain ⟨h',hdestroy,hdelete⟩ := destroyWriter_spec hholds
  refine ⟨h',Exec.block_of_returned ?_ hdestroy,hadded.delete hdelete⟩
  exact (Exec.bind_of_returned hwrite).trans (Exec.ask_of_some hholds.getByteBuffer)

theorem toNat_setWidth_int {n : BitVec w} (hn : n.toNat < 2^31) :
    (n.setWidth 32).toNat = n.toNat := by
  rw [BitVec.toNat_setWidth,Nat.mod_eq_of_lt (by omega)]

/-- The length survives its way through an `int`. -/
theorem toNat_signExtend_int {n : BitVec w} (hn : n.toNat < 2^31) :
    ((n.setWidth 32).signExtend w).toNat = n.toNat := by
  have hsmall := toNat_setWidth_int hn
  have hmsb : (n.setWidth 32).msb = false := by
    rw [BitVec.msb_eq_false_iff_two_mul_lt,hsmall]
    omega
  rw [BitVec.signExtend_eq_setWidth_of_msb_false hmsb,BitVec.toNat_setWidth,hsmall,
    Nat.mod_eq_of_lt n.isLt]

/-- The server is sent these bytes, if it can be connected to. -/
def Process.contacts (conn : Contact) (buf : List Byte) (p : Process) : Process :=
  { p with
    sockets := if conn = .noSocket then p.sockets else p.sockets+1
    sent := if conn = .made then p.sent ++ [buf] else p.sent }

theorem BackendServer.sendRequest_spec {wr : BufferWriter w} (hb : wr.Holds p.heap buf)
    (hne : buf ≠ []) (hlen : buf.length < 2^31) (conn : Contact) :
    ∃ i, BackendServer.sendRequest w conn wr.buf (wr.len.setWidth 32) p =
      .returned i (p.contacts conn buf) := by
  rw [← hb.len] at hlen
  have hbuf : wr.buf ≠ none := by
    intro hnull
    obtain ⟨rest,harray,-⟩ := hb.room
    rw [hnull] at harray
    exact hne (List.append_eq_nil_iff.mp (Option.some.inj harray).symm).1
  have hzero : wr.len.setWidth 32 ≠ 0 := by
    intro hzero
    have hint := toNat_setWidth_int hlen
    rw [hzero,hb.len] at hint
    exact hne (List.length_eq_zero_iff.mp hint.symm)
  have hload : p.heap.load wr.buf 0 ((wr.len.setWidth 32).signExtend w).toNat = some buf := by
    rw [toNat_signExtend_int hlen]
    exact hb.getByteBuffer
  unfold BackendServer.sendRequest
  rw [if_neg (not_or.mpr ⟨hbuf,hzero⟩)]
  cases conn with
  | noSocket => exact ⟨_,rfl⟩
  | refused => exact ⟨_,rfl⟩
  | made =>
    have hask : Exec.ask (fun p : Process =>
        p.heap.load wr.buf 0 ((wr.len.setWidth 32).signExtend w).toNat)
        (SimpleTcpClient.init .made p) = (.returned buf (SimpleTcpClient.init .made p) :
          Outcome JceException Process (List Byte)) := Exec.ask_of_some hload
    have hwrite : SimpleTcpClient.write w wr.buf (wr.len.setWidth 32)
        (SimpleTcpClient.init .made p) = .returned () (p.contacts .made buf) :=
      Exec.bind_of_returned hask
    exact ⟨0,Exec.bind_of_returned hwrite⟩

theorem ne_nil_of_writeTo {msg : ControlMsg} (h : msg.writeTo = .ok buf) : buf ≠ [] := by
  obtain ⟨seq,-,h⟩ := encoded_bind_ok h
  cases h
  obtain ⟨type,body,he,-⟩ := writeInt32_form msg.eCtrlType 0
  have hpos := form_length_pos he
  exact fun hnil => by simp [List.append_eq_nil_iff] at hnil; simp [hnil] at hpos

/-- The message is handed over as it is encoded, and the memory for it is freed. -/
theorem Process.sendMsg_spec (hw : 32 ≤ w) {msg : ControlMsg} (hmsg : msg.writeTo = .ok buf)
    (hlen : buf.length < 2^31) (fresh : ℕ → ℕ → Byte) (conn : Contact) (p : Process)
    (release : Process → Process)
    (hrelease : ∀ h p, release { p with heap := h } = { release p with heap := h }) :
    ∃ h, Process.sendMsg (w := w) fresh conn msg release p =
      .returned () { release (p.contacts conn buf) with heap := h } ∧ Heap.Added p.heap [] h := by
  have hstreams := ControlMsg.streams msg
  rw [hmsg] at hstreams
  obtain ⟨h₁,wr,hwrite,hholds,-⟩ := BufferWriter.put_streams hstreams fresh
    (BufferWriter.holds_init (w := w) (h := p.heap)) (hlen.trans_le (half_large hw))
  rw [List.nil_append] at hholds
  have hempty : Heap.Added p.heap ((BufferWriter.init : BufferWriter w).buf.toList ++ []) p.heap :=
    .refl p.heap
  have hadded : Heap.Added p.heap (wr.buf.toList ++ []) h₁ :=
    BufferWriter.put_added hstreams hempty hwrite
  obtain ⟨h',hdestroy,hdelete⟩ := destroyWriter_spec hholds
  obtain ⟨i,hsend⟩ := BackendServer.sendRequest_spec (p := { p with heap := h₁ }) hholds
    (ne_nil_of_writeTo hmsg) hlen conn
  refine ⟨h',?_,hadded.delete hdelete⟩
  have hput : Process.onStream (msg.writeOn (BufferWriter.put fresh)) (p,BufferWriter.init) =
      .returned () ({ p with heap := h₁ },wr) := Process.onStream_of_returned hwrite
  have hheap := hrelease h₁ (p.contacts conn buf)
  have hclear : Process.onHeap (destroyWriter wr)
      { release (p.contacts conn buf) with heap := h₁ } =
        .returned () { release (p.contacts conn buf) with heap := h' } :=
    Process.onHeap_of_returned hdestroy
  rw [← hheap] at hclear
  refine Exec.block_of_returned (v := wr) ?_ hclear
  refine (Exec.bind_of_returned hput).trans ?_
  exact Exec.bind_of_returned (Process.besideStream_of_returned hsend)

end Parts

section Requests
variable {buf data : List Byte} {req : Request}

namespace NativeFileObserver
variable {text : List Byte} {type : CtrlType} {release : Process → Process}

/-- What the two requests have in common. -/
def carry (w : ℕ) (fresh : ℕ → ℕ → Byte) (conn : Contact) (type : CtrlType) (text : List Byte)
    (release : Process → Process) : Exec JceException Process Unit := do
  Exec.modify getStringUTFChars
  let data ← Process.onHeap (ProtocolUtil.writeTo (w := w)
    (JceOutputStream.writeString (BufferWriter.put fresh) text 0))
  Process.sendMsg (w := w) fresh conn ⟨type,[0x30],data⟩ release

theorem carry_spec (hw : 32 ≤ w) (hdata : Jce.writeString text 0 = .ok data)
    (hmsg : (ControlMsg.mk type [0x30] data).writeTo = .ok buf) (hlen : buf.length < 2^31)
    (hrelease : ∀ h p, release { p with heap := h } = { release p with heap := h })
    (fresh : ℕ → ℕ → Byte) (conn : Contact) (p : Process) :
    ∃ h, carry w fresh conn type text release p =
      .returned () { release ((getStringUTFChars p).contacts conn buf) with heap := h } ∧
        Heap.Added p.heap [] h := by
  have hhalf := half_large hw
  have hle := length_writeString_le hdata
  have hstreams := Streams.writeString text 0
  rw [hdata] at hstreams
  unfold jceMaxStringLength at hle
  obtain ⟨h₁,hwrite,hadded⟩ := ProtocolUtil.writeTo_spec hstreams (w := w) (by omega) fresh p.heap
  obtain ⟨h₂,hsend,hadded'⟩ := Process.sendMsg_spec hw hmsg hlen fresh conn
    { getStringUTFChars p with heap := h₁ } release hrelease
  refine ⟨h₂,?_,hadded.trans hadded'⟩
  have hheap := Process.onHeap_of_returned (p := getStringUTFChars p) hwrite
  refine (Exec.bind_of_returned hheap).trans (hsend.trans ?_)
  have hcontacts := hrelease h₁ ((getStringUTFChars p).contacts conn buf)
  exact congrArg (fun p : Process => Outcome.returned () { p with heap := h₂ }) hcontacts

/-- With a string that is too long neither gets any further than the string. -/
theorem carry_long (type : CtrlType) (release : Process → Process)
    (hlong : jceMaxStringLength < text.length) (fresh : ℕ → ℕ → Byte) (conn : Contact)
    (p : Process) : ∃ e, Jce.writeString text 0 = .error e ∧
      carry w fresh conn type text release p = .threw e (getStringUTFChars p) := by
  obtain ⟨e,hdata,hwrite⟩ := writeString_long hlong 0
  refine ⟨e,hdata,?_⟩
  have hthrow : ProtocolUtil.writeTo (w := w)
      (JceOutputStream.writeString (BufferWriter.put fresh) text 0) p.heap =
        .threw e p.heap := by
    rw [hwrite]
    exact Exec.block_of_threw rfl rfl
  have hheap := Process.onHeap_of_threw (p := getStringUTFChars p) hthrow
  exact (Exec.bind_of_returned rfl).trans (Exec.bind_of_threw hheap)

end NativeFileObserver

namespace Request

/-- The string from Java. -/
def text : Request → List Byte
  | startWatching path => path
  | setOnDeleteRequestInfo url => url

/-- Whether its string stays with the process. -/
def keepsString : Request → Bool
  | startWatching _ => true
  | setOnDeleteRequestInfo _ => false

theorem bytes_ok (h : req.text.length ≤ jceMaxStringLength) : ∃ buf, req.bytes = .ok buf := by
  obtain ⟨data,hdata⟩ := writeString_ok h 0
  cases req with
  | startWatching path => exact ⟨_,congrArg (· >>= _) hdata⟩
  | setOnDeleteRequestInfo url => exact ⟨_,congrArg (· >>= _) hdata⟩

/-- A request that can be encoded is handed to the server as it is encoded. -/
theorem run_spec (hw : 32 ≤ w) (hbytes : req.bytes = .ok buf) (fresh : ℕ → ℕ → Byte)
    (conn : Contact) (p : Process) : ∃ h, req.run w fresh conn p =
      .returned () { p.contacts conn buf with
        heap := h
        strings := if req.keepsString then p.strings+1 else p.strings } ∧
      Heap.Added p.heap [] h := by
  have hlen := length_lt hbytes
  cases req with
  | startWatching path =>
    obtain ⟨data,hdata,hmsg⟩ := encoded_bind_ok hbytes
    exact NativeFileObserver.carry_spec hw hdata hmsg hlen (fun _ _ => rfl) fresh conn p
  | setOnDeleteRequestInfo url =>
    obtain ⟨data,hdata,hmsg⟩ := encoded_bind_ok hbytes
    exact NativeFileObserver.carry_spec hw hdata hmsg hlen (fun _ _ => rfl) fresh conn p

/-- A request that cannot be encoded is not sent, and the exception leaves its string behind. -/
theorem run_long (hlong : jceMaxStringLength < req.text.length) (fresh : ℕ → ℕ → Byte)
    (conn : Contact) (p : Process) : ∃ e, req.bytes = .error e ∧
      req.run w fresh conn p = .threw e { p with strings := p.strings+1 } := by
  cases req with
  | startWatching path =>
    obtain ⟨e,hdata,hrun⟩ := NativeFileObserver.carry_long (w := w) eCtrlFilePath id hlong fresh
      conn p
    exact ⟨e,congrArg (· >>= _) hdata,hrun⟩
  | setOnDeleteRequestInfo url =>
    obtain ⟨e,hdata,hrun⟩ := NativeFileObserver.carry_long (w := w) eCtrlReqOnDel
      NativeFileObserver.releaseStringUTFChars hlong fresh conn p
    exact ⟨e,congrArg (· >>= _) hdata,hrun⟩

end Request

end Requests

namespace JniCall

def keepsString : JniCall → Bool
  | request req => req.keepsString
  | _ => false

/-- Whether a socket is opened for it. -/
def opens (conn : Contact) : JniCall → Bool
  | request _ => conn != .noSocket
  | _ => false

/-- What the server is sent. -/
def sends (conn : Contact) : JniCall → List (List Byte)
  | request req => if conn = .made then req.bytes.toOption.toList else []
  | _ => []

/-- The string of the call, if it has one, is not too long. -/
def Fits (c : JniCall) : Prop := ∀ req, c = request req → req.text.length ≤ jceMaxStringLength

end JniCall

/-- What is left after the calls. -/
def Process.afterCalls (calls : List (JniCall × Contact)) (h : Heap Byte) (p : Process) :
    Process where
  heap := h
  handlers := p.handlers + calls.countP (·.1 = .createHandler)
  strings := p.strings + calls.countP (·.1.keepsString)
  sockets := p.sockets + calls.countP fun c => c.1.opens c.2
  sent := p.sent ++ calls.flatMap fun c => c.1.sends c.2

section Calls
variable {fresh : ℕ → ℕ → Byte} {c : JniCall} {conn : Contact} {calls : List (JniCall × Contact)}
  {p : Process} {h : Heap Byte}

theorem Process.afterCalls_append (cs cs' : List (JniCall × Contact)) (h h' : Heap Byte)
    (p : Process) : (p.afterCalls cs h).afterCalls cs' h' = p.afterCalls (cs ++ cs') h' := by
  simp [afterCalls, Nat.add_assoc]

/-- One call leaves what it is said to leave, and its memory is freed. -/
theorem JniCall.run_spec (hw : 32 ≤ w) (hfits : c.Fits) (fresh : ℕ → ℕ → Byte) (conn : Contact)
    (p : Process) : ∃ h, c.run w fresh conn p = .returned () (p.afterCalls [(c,conn)] h) ∧
      Heap.Added p.heap [] h := by
  cases c with
  | createHandler =>
    refine ⟨p.heap,?_,.refl p.heap⟩
    simp [run, Process.afterCalls, keepsString, opens, sends]
  | stopWatching =>
    refine ⟨p.heap,?_,.refl p.heap⟩
    simp [run, Process.afterCalls, keepsString, opens, sends]
  | request req =>
    obtain ⟨buf,hbytes⟩ := Request.bytes_ok (hfits req rfl)
    obtain ⟨h,hrun,hadded⟩ := Request.run_spec hw hbytes fresh conn p
    refine ⟨h,hrun.trans ?_,hadded⟩
    congr 1
    simp only [Process.afterCalls, Process.contacts]
    cases conn <;> cases hk : req.keepsString <;>
      simp [keepsString, opens, sends, hk, hbytes, Except.toOption]

theorem runCalls_append (cs cs' : List (JniCall × Contact)) :
    runCalls w fresh (cs ++ cs') = runCalls w fresh cs >>= fun _ => runCalls w fresh cs' := by
  induction cs with
  | nil => rfl
  | cons c cs ih =>
    change (c.1.run w fresh c.2 >>= fun _ => runCalls w fresh (cs ++ cs')) = _
    rw [ih,← bind_assoc]
    rfl

theorem runCalls_spec (hw : 32 ≤ w) (fresh : ℕ → ℕ → Byte) (hfits : ∀ c ∈ calls, c.1.Fits)
    (p : Process) : ∃ h, runCalls w fresh calls p = .returned () (p.afterCalls calls h) ∧
      Heap.Added p.heap [] h := by
  induction calls generalizing p with
  | nil => exact ⟨p.heap,by simp [runCalls, Process.afterCalls],.refl _⟩
  | cons c calls ih =>
    obtain ⟨hc,hcalls⟩ := List.forall_mem_cons.mp hfits
    obtain ⟨h₁,hrun,hadded⟩ := JniCall.run_spec hw hc fresh c.2 p
    obtain ⟨h₂,hruns,hadded'⟩ := ih hcalls (p.afterCalls [c] h₁)
    refine ⟨h₂,?_,hadded.trans hadded'⟩
    refine (Exec.bind_of_returned hrun).trans (hruns.trans ?_)
    rw [Process.afterCalls_append,List.singleton_append]

/-- Whatever Java calls, in any order and however far each connection gets: every request is
handed to the server as it is encoded, if there is a connection, and all memory for it is freed,
while the native objects, the sockets and the strings of `startWatching` stay. The first string
that is too long ends the process, with nothing sent for it and its memory freed as well. -/
theorem runCalls_leaves (hw : 32 ≤ w) (fresh : ℕ → ℕ → Byte) (calls : List (JniCall × Contact))
    (p : Process) :
    ((∀ c ∈ calls, c.1.Fits) → ∃ h, runCalls w fresh calls p =
      .returned () (p.afterCalls calls h) ∧ ∀ q, h.array q = p.heap.array q) ∧
    ∀ pre req conn post, calls = pre ++ (.request req,conn)::post → (∀ c ∈ pre, c.1.Fits) →
      jceMaxStringLength < req.text.length → ∃ h e, req.bytes = .error e ∧
        runCalls w fresh calls p = .threw e (NativeFileObserver.getStringUTFChars
          (p.afterCalls pre h)) ∧ ∀ q, h.array q = p.heap.array q := by
  constructor
  · intro hfits
    obtain ⟨h,hrun,hadded⟩ := runCalls_spec hw fresh hfits p
    exact ⟨h,hrun,hadded.array_eq⟩
  · rintro pre req conn post rfl hfits hlong
    obtain ⟨h,hrun,hadded⟩ := runCalls_spec hw fresh hfits p
    obtain ⟨e,hbytes,hthrew⟩ := Request.run_long (w := w) hlong fresh conn (p.afterCalls pre h)
    refine ⟨h,e,hbytes,?_,hadded.array_eq⟩
    rw [runCalls_append]
    exact (Exec.bind_of_returned hrun).trans (Exec.bind_of_threw hthrew)

/-- A path goes through, the URL only at the second try. -/
def someCalls : List (JniCall × Contact) :=
  [(.createHandler,.noSocket),(.request (.startWatching [0x2F,0x61]),.made),
    (.request (.setOnDeleteRequestInfo [0x62]),.refused),
    (.request (.setOnDeleteRequestInfo [0x62]),.made),(.stopWatching,.noSocket)]

theorem runCalls_leaves_someCalls : ∃ h : Heap Byte,
    runCalls 32 (fun _ _ => 0) someCalls ⟨[some [7],none],0,0,0,[]⟩ = .returned () ⟨h,1,1,3,
      [[0x00,0x01,0x16,0x01,0x30,0x2D,0x00,0x00,0x04,0x06,0x02,0x2F,0x61],
        [0x00,0x02,0x16,0x01,0x30,0x2D,0x00,0x00,0x03,0x06,0x01,0x62]]⟩ ∧
    ∀ q, h.array q = Heap.array q [some [7],none] := by
  have hleaves := runCalls_leaves (Nat.le_refl 32) (fun _ _ => 0) someCalls
    ⟨[some [7],none],0,0,0,[]⟩
  refine hleaves.1 fun c hc req hreq => ?_
  simp only [someCalls, List.mem_cons, List.not_mem_nil, or_false] at hc
  rcases hc with rfl | rfl | rfl | rfl | rfl <;> cases hreq <;> decide

end Calls

end UninstallObserver.Observer
