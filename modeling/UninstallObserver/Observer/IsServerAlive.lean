import UninstallObserver.Jce.ReaderMemory
import UninstallObserver.Observer.Daemon
import UninstallObserver.Observer.WellFormed

/-! Whether the daemon answers a probe of its port. -/
namespace UninstallObserver.Observer
open Imperative ByteOrder Jce BufferReader

variable {w n : ℕ} {bs : List Byte} {r s : BufferReader w} {m : ControlMsg} {length : ℤ} {b : Bool}

/-- `IsServerAlive`, with its reader on the buffer; `length` is what `client.read` returned. -/
def isServerAlive (fuel : ℕ) (connected : Bool) (length : ℤ) : Decode w Bool :=
  if connected then do
    let recvMsg ← ControlMsg.readFrom fuel ControlMsg.init
    pure (decide (0 < length) && recvMsg.eCtrlType == eCtrlHello)
  else pure false

/-- What `recv` returns for a reply, or where it fails. -/
def replyLength (reply : Option (List Byte)) : ℤ :=
  match reply with
  | some bs => bs.length
  | none => -1

/-- `char buffer[kBufferSize] = {0}`, with the reply at its front. -/
def replyBuffer (reply : Option (List Byte)) : List Byte :=
  reply.getD [] ++ List.replicate (kBufferSize - (reply.getD []).length) 0

/-- The reader of a buffer that is `length` bytes long, as far as the server knows. -/
def replyReader (w : ℕ) (buffer : List Byte) (length : ℤ) : BufferReader w :=
  setBuffer buffer (BitVec.ofInt w length)

/-- The bytes begin with an integer under tag 0, which is `E_CTRL_HELLO`. -/
def SaysHello (bs : List Byte) : Prop :=
  Parser.startsZero bs ∧ ∃ rest, Parser.field Parser.int32 bs = some (eCtrlHello,rest)

/-- The probe returns, on the bytes that were received alone, whether they say hello. -/
structure Answers (w : ℕ) (reply : Option (List Byte)) (b : Bool) : Prop where
  returns : ∃ s, Exec.Ends (fun n => isServerAlive n true (replyLength reply))
    (replyReader w (replyBuffer reply) (replyLength reply)) (.returned b s)
  received : ∃ s, Exec.Ends (fun n => isServerAlive n true (replyLength reply))
    (replyReader w (reply.getD []) (replyLength reply)) (.returned b s)
  hello : b ↔ SaysHello (reply.getD [])

section Readers

theorem isServerAlive_stable : Exec.Stable fun n => isServerAlive (w := w) n true length :=
  (readFrom_stable _).bind fun _ => .const _

theorem isServerAlive_follows {more : List Byte} (n : ℕ) :
    Exec.Follows (before more) (isServerAlive (w := w) n true length) :=
  (((followsAt n).int32 _ _ _).bind fun _ => (readString_follows _ _).bind fun _ =>
    (readCharVector_follows _ _).bind fun _ => .pure _).bind fun _ => .pure _

theorem isServerAlive_ends_iff :
    Exec.Ends (fun n => isServerAlive n true length) r (.returned b s) ↔
      ∃ m, Exec.Ends (fun n => ControlMsg.readFrom n ControlMsg.init) r (.returned m s) ∧
        b = (decide (0 < length) && m.eCtrlType == eCtrlHello) := by
  refine (Exec.ends_then_iff (readFrom_stable _)).trans ⟨fun h => ?_,fun h => ?_⟩
  · obtain ⟨m,t,hm,h⟩ := h
    cases h
    exact ⟨m,hm,rfl⟩
  · obtain ⟨m,hm,rfl⟩ := h
    exact ⟨m,s,hm,rfl⟩

/-- A field is absent where the buffer is at its end. -/
theorem readField_of_end {α : Type} {tag : BitVec 8} {missing : String} {old : α}
    {switch : HeadType → Decode w α} (h : r.bufLen ≤ r.cur) :
    readField (skipToTag (n+2) tag) false missing old switch r = .returned old r := by
  have hloop : skipToTagLoop (n+1) tag r = .returned false r := by
    rw [skipToTagLoop,Exec.bind_of_returned (show hasEnd r = .returned true r by simp [hasEnd, h])]
    rfl
  have hsearch : skipToTag (n+2) tag r = .returned false r := by
    rw [skipToTag,Exec.catchIf,hloop]
  rw [readField,Exec.bind_of_returned hsearch]
  rfl

theorem readFrom_of_end (h : r.bufLen ≤ r.cur) :
    Exec.Ends (fun n => ControlMsg.readFrom n ControlMsg.init) r
      (.returned ControlMsg.init r) := by
  refine ⟨by simp,3,?_⟩
  have hint : readInt32 3 eCtrlHello 0 false r = .returned eCtrlHello r := by
    rw [readInt32]
    exact readField_of_end h
  have hseq : readString 3 [] 1 false r = .returned [] r := readField_of_end h
  have hdata : readCharVector 3 [] 2 false r = .returned [] r := readField_of_end h
  change (readInt32 3 eCtrlHello 0 false >>= readSeq ControlMsg.init 3) r = _
  rw [Exec.bind_of_returned hint,readSeq,Exec.bind_of_returned hseq]
  exact Exec.bind_of_returned hdata

/-- The type is the field under tag 0 at the front, or hello. -/
theorem eCtrlType_of_readFrom (hw : 32 ≤ w) (hr : Inside 0 r)
    (h : Exec.Ends (fun n => ControlMsg.readFrom n ControlMsg.init) r (.returned m s)) :
    ∃ cs, Parser.zeroField (some eCtrlHello) Parser.int32 (rest r) = some (m.eCtrlType,cs) := by
  obtain ⟨k,hk⟩ := h.forall_ge (readFrom_stable _)
  have hread := hk (k+3) (Nat.le_add_right k 3)
  obtain ⟨e,t,he,hread⟩ := Exec.bind_eq_returned.mp hread
  obtain ⟨seq,u,-,hread⟩ := Exec.bind_eq_returned.mp hread
  obtain ⟨data,v,-,hread⟩ := Exec.bind_eq_returned.mp hread
  cases hread
  have hp : Parses r.buf.length (readInt32 (w := w) (k+3) eCtrlHello 0 false)
      (Parser.zeroField (some eCtrlHello) Parser.int32) :=
    parses_readField_zero hw fun t => parses_int32Switch hw t
  exact hp.of_returned hr rfl he

theorem replyReader_eq : replyReader w bs bs.length = setBufferVector bs := by
  rw [replyReader,setBufferVector,BitVec.ofInt_natCast]

theorem before_replyReader : replyReader w (replyBuffer (some bs)) length =
    before (List.replicate (kBufferSize - bs.length) 0) (replyReader w bs length) := rfl

/-- A length of -1 passes every check of the reader, and there is nothing to read. -/
theorem readFrom_failed (hw : 32 ≤ w) (n : ℕ) :
    ControlMsg.readFrom (n+3) ControlMsg.init (replyReader w [] (-1)) = .undefined := by
  have hone := toNat_one hw
  have hlen : (replyReader w [] (-1)).bufLen = BitVec.allOnes w := by
    rw [replyReader,setBuffer,BitVec.ofInt_neg,BitVec.ofInt_ofNat,BitVec.neg_one_eq_allOnes]
  have hpos : 1 < 2^w := Nat.one_lt_two_pow (by omega)
  have hpeek : peekBuf 1 0 (replyReader w [] (-1)) = .undefined := by
    have hle : ¬ (replyReader w [] (-1)).bufLen < (replyReader w [] (-1)).cur + 0 + 1 := by
      rw [hlen]
      exact BitVec.not_lt.mpr (BitVec.le_def.mpr (by
        rw [BitVec.toNat_allOnes]
        exact Nat.le_sub_one_of_lt (BitVec.isLt _)))
    rw [peekBuf,if_neg hle]
    refine if_neg ?_
    rw [hone]
    simp [replyReader, setBuffer]
  have hbegin : hasEnd (replyReader w [] (-1)) = .returned false (replyReader w [] (-1)) := by
    have hnot : ¬ BitVec.allOnes w ≤ (replyReader w [] (-1)).cur := by
      rw [BitVec.le_def,BitVec.toNat_allOnes]
      simp [replyReader, setBuffer]
      omega
    simp [hasEnd, hlen, hnot]
  have hloop : skipToTagLoop (n+1) 0 (replyReader w [] (-1)) = .undefined := by
    rw [skipToTagLoop,Exec.bind_of_returned hbegin]
    exact Exec.bind_of_undefined (Exec.bind_of_undefined (Exec.bind_of_undefined hpeek))
  have hsearch : skipToTag (n+2) 0 (replyReader w [] (-1)) = .undefined := by
    rw [skipToTag,Exec.catchIf,hloop]
  refine Exec.bind_of_undefined ?_
  rw [readInt32]
  exact Exec.bind_of_undefined hsearch

theorem rest_setBufferVector : rest (setBufferVector (w := w) bs) = bs := by
  simp [rest, setBufferVector, setBuffer]

end Readers

section Types
variable {e : BitVec 32} {cs : List Byte}

/-- Where nothing is under tag 0 the type is hello. -/
theorem eq_hello_of_absent (hstart : ¬ Parser.startsZero bs)
    (h : Parser.zeroField (some eCtrlHello) Parser.int32 bs = some (e,cs)) : e = eCtrlHello := by
  rw [Parser.zeroField,if_neg hstart] at h
  exact (congrArg Prod.fst (Option.some.inj h)).symm

theorem saysHello_iff (hstart : Parser.startsZero bs)
    (h : Parser.zeroField (some eCtrlHello) Parser.int32 bs = some (e,cs)) :
    SaysHello bs ↔ e = eCtrlHello := by
  rw [Parser.zeroField,if_pos hstart] at h
  constructor
  · intro hhello
    obtain ⟨-,rest,hrest⟩ := hhello
    rw [h] at hrest
    exact congrArg Prod.fst (Option.some.inj hrest)
  · intro he
    exact ⟨hstart,cs,he ▸ h⟩

/-- What the probe makes of a reply that decodes. -/
theorem alive_iff (hbs : bs ≠ []) (hb : b = (decide (0 < replyLength (some bs)) &&
    m.eCtrlType == eCtrlHello)) : b ↔ m.eCtrlType = eCtrlHello := by
  have hpos : 0 < replyLength (some bs) := by
    have hlen := List.length_pos_of_ne_nil hbs
    simpa [replyLength] using hlen
  rw [hb]
  simp [hpos]

end Types

section Answers
variable {reply : Option (List Byte)}

/-- No reply at all is no answer. -/
theorem not_answers_none (hw : 32 ≤ w) : ¬ Answers w none b := by
  intro h
  obtain ⟨s,hreceived⟩ := h.received
  obtain ⟨m,hm,-⟩ := isServerAlive_ends_iff.mp hreceived
  obtain ⟨k,hk⟩ := hm.forall_ge (readFrom_stable _)
  have hends := hk (k+3) (Nat.le_add_right k 3)
  have hfailed : ControlMsg.readFrom (k+3) ControlMsg.init (replyReader w [] (-1)) = .undefined :=
    readFrom_failed hw k
  change ControlMsg.readFrom (k+3) ControlMsg.init (replyReader w [] (-1)) = _ at hends
  rw [hfailed] at hends
  cases hends

/-- The empty reply is. -/
theorem answers_nil : Answers w (some []) false := by
  have hends : ∀ buffer, Exec.Ends (fun n => isServerAlive n true 0) (replyReader w buffer 0)
      (.returned false (replyReader w buffer 0)) := by
    intro buffer
    refine isServerAlive_ends_iff.mpr ⟨_,readFrom_of_end ?_,rfl⟩
    simp [replyReader, setBuffer]
  refine ⟨⟨_,hends _⟩,⟨_,hends _⟩,?_⟩
  simp [SaysHello, Parser.startsZero, Parser.head]

/-- A reply of one byte or more is an answer where it is well formed, with a type at its front. -/
theorem answers_some_iff (hw : 32 ≤ w) (hbs : bs ≠ []) (hlen : bs.length ≤ kBufferSize) :
    (∃ b, Answers w (some bs) b) ↔
      WellFormed (setBufferVector (w := w) bs) ∧ Parser.startsZero bs := by
  have hhalf := half_large hw
  have hsmall : bs.length < 2^(w-1) := by
    unfold kBufferSize at hlen
    omega
  have hin := inside_setBufferVector (w := w) hsmall
  have hreader : replyReader w bs (replyLength (some bs)) = setBufferVector bs := replyReader_eq
  have hreturns : Exec.Returns (fun n => ControlMsg.readFrom n ControlMsg.init)
      (setBufferVector (w := w) bs) ↔ WellFormed (setBufferVector bs) := readFrom_returns_iff hw hin
  rw [← hreturns]
  constructor
  · intro h
    obtain ⟨b,h⟩ := h
    obtain ⟨s,hreceived⟩ := h.received
    obtain ⟨m,hm,hb⟩ := isServerAlive_ends_iff.mp hreceived
    rw [Option.getD_some,hreader] at hm
    refine ⟨⟨m,s,hm⟩,?_⟩
    by_contra hstart
    obtain ⟨cs,hcs⟩ := eCtrlType_of_readFrom hw hin hm
    rw [rest_setBufferVector] at hcs
    have hhello := (alive_iff hbs hb).mpr (eq_hello_of_absent hstart hcs)
    exact hstart (h.hello.mp hhello).1
  · intro h
    obtain ⟨⟨m,s,hm⟩,hstart⟩ := h
    obtain ⟨cs,hcs⟩ := eCtrlType_of_readFrom hw hin hm
    rw [rest_setBufferVector] at hcs
    have hreceived : Exec.Ends (fun n => isServerAlive n true (replyLength (some bs)))
        (replyReader w bs (replyLength (some bs))) (.returned _ s) :=
      isServerAlive_ends_iff.mpr ⟨m,by rw [hreader]; exact hm,rfl⟩
    refine ⟨_,?_,⟨s,hreceived⟩,(alive_iff hbs rfl).trans (saysHello_iff hstart hcs).symm⟩
    rw [before_replyReader]
    exact ⟨_,Exec.Follows.ends isServerAlive_follows hreceived⟩

/-- The probe answers truly just where `recv` does not fail, and the reply is empty, or well
formed with a type at its front. -/
theorem answers_iff (hw : 32 ≤ w) (hreply : ∀ bs, reply = some bs → bs.length ≤ kBufferSize) :
    (∃ b, Answers w reply b) ↔ ∃ bs, reply = some bs ∧
      (bs = [] ∨ WellFormed (setBufferVector (w := w) bs) ∧ Parser.startsZero bs) := by
  cases reply with
  | none =>
    refine iff_of_false (fun h => ?_) (fun h => ?_)
    · obtain ⟨b,h⟩ := h
      exact not_answers_none hw h
    · obtain ⟨bs,hbs,-⟩ := h
      cases hbs
  | some bs =>
    have hsome : (∃ cs, some bs = some cs ∧
        (cs = [] ∨ WellFormed (setBufferVector (w := w) cs) ∧ Parser.startsZero cs)) ↔
        (bs = [] ∨ WellFormed (setBufferVector (w := w) bs) ∧ Parser.startsZero bs) := by
      simp
    rw [hsome]
    by_cases hbs : bs = []
    · subst hbs
      exact iff_of_true ⟨false,answers_nil⟩ (.inl rfl)
    · rw [answers_some_iff hw hbs (hreply bs rfl)]
      simp [hbs]

/-- The daemon itself answers. -/
theorem answers_hello : ∃ b, Answers 32 (some helloBytes) b := by
  have hread : ControlMsg.readFrom 6 ControlMsg.init (setBufferVector (w := 32) helloBytes) =
      .returned ⟨0,[0x30],[]⟩ ⟨helloBytes,7,7⟩ := by decide +kernel
  have hreturns : Exec.Returns (fun n => ControlMsg.readFrom n ControlMsg.init)
      (setBufferVector (w := 32) helloBytes) := ⟨_,_,by simp,6,hread⟩
  have hin : Inside 0 (setBufferVector (w := 32) helloBytes) := inside_setBufferVector (by decide)
  refine (answers_iff (by decide) fun bs hbs => ?_).mpr
    ⟨helloBytes,rfl,.inr ⟨(readFrom_returns_iff (by decide) hin).mp hreturns,by decide⟩⟩
  cases hbs
  decide

/-- "HTTP/", the start of what a web server replies: it is taken for a live daemon. -/
def foreignReply : List Byte := [0x48,0x54,0x54,0x50,0x2F]

theorem not_answers_foreign : ¬ ∀ reply, (∀ bs, reply = some bs → bs.length ≤ kBufferSize) →
    ∃ b, Answers 32 reply b := by
  intro h
  have hlen : ∀ bs, some foreignReply = some bs → bs.length ≤ kBufferSize := by
    intro bs hbs
    cases hbs
    decide
  obtain ⟨b,h⟩ := h (some foreignReply) hlen
  obtain ⟨s,hreceived⟩ := h.received
  have halive : ∃ s, isServerAlive 5 true 5 (replyReader 32 foreignReply 5) = .returned true s :=
    ⟨_,rfl⟩
  obtain ⟨s',halive⟩ := halive
  have hends : Exec.Ends (fun n => isServerAlive n true 5) (replyReader 32 foreignReply 5)
      (.returned true s') := ⟨by simp,5,halive⟩
  cases hreceived.unique hends isServerAlive_stable
  exact absurd (h.hello.mp rfl).1 (by decide)

end Answers

end UninstallObserver.Observer
