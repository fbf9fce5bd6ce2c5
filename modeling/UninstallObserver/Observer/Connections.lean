import UninstallObserver.Observer.Requests

/-! One connection: the bytes of a request arrive in chunks, and are received once. -/
namespace UninstallObserver.Observer
open Imperative ByteOrder Jce

variable {w : ℕ} {created : Bool} {buf : List Byte} {d : Daemon} {commSock : ℤ}

/-- The single `recv` of a connection takes what has arrived, as far as there is room. -/
def recv (chunks : List (List Byte)) : List Byte := (chunks.headD []).take kBufferSize

/-- What `startListening` does with an accepted connection. -/
def serveConnection (w fuel : ℕ) (created : Bool) (commSock : ℤ) (chunks : List (List Byte)) :
    Server Unit :=
  if (recv chunks).length = 0 then pure ()
  else do
    let _ ← handle w fuel created commSock (recv chunks)
    pure ()

/-- The daemon does what the whole of `buf` asks for, and nothing less than the whole is
taken for a message: where `handle` returns on a part of it, the part counts as acted on, also if
what was done is the same. -/
structure DoesWhole (w : ℕ) (created : Bool) (commSock : ℤ) (buf : List Byte) (msg : Message)
    (chunks : List (List Byte)) (d : Daemon) : Prop where
  acts : Exec.Ends (fun n => serveConnection w n created commSock chunks) d
    (.returned () (d.act created buf msg))
  whole : recv chunks ≠ buf →
    ¬ Exec.Returns (fun n => handle w n created commSock (recv chunks)) d

section Chunks
variable {chunks : List (List Byte)}

/-- One `recv` gets everything only out of a single chunk that fits. -/
theorem recv_eq_iff (hne : ∀ c ∈ chunks, c ≠ []) (hflat : chunks.flatten = buf) (hbuf : buf ≠ []) :
    recv chunks = buf ↔ chunks = [buf] ∧ buf.length ≤ kBufferSize := by
  cases chunks with
  | nil => exact absurd hflat.symm hbuf
  | cons c cs =>
    change c.take kBufferSize = buf ↔ _
    rw [List.flatten_cons] at hflat
    refine ⟨fun h => ?_,fun h => ?_⟩
    · have hle : buf.length ≤ kBufferSize := by
        rw [← h]
        exact List.length_take_le _ _
      have hlen := congrArg List.length hflat
      have htake := congrArg List.length h
      rw [List.length_append] at hlen
      rw [List.length_take] at htake
      have hcs : cs = [] := by
        cases cs with
        | nil => rfl
        | cons c' cs =>
          have hc' := List.length_pos_of_ne_nil (hne c' (by simp))
          rw [List.flatten_cons,List.length_append] at hlen
          omega
      subst hcs
      rw [List.flatten_nil,List.append_nil] at hflat
      exact ⟨by rw [hflat],hle⟩
    · obtain ⟨hc,hle⟩ := h
      cases hc
      exact List.take_of_length_le hle

theorem recv_ne_nil (hne : ∀ c ∈ chunks, c ≠ []) (hchunks : chunks ≠ []) : recv chunks ≠ [] := by
  cases chunks with
  | nil => exact absurd rfl hchunks
  | cons c cs =>
    have hc := List.length_pos_of_ne_nil (hne c List.mem_cons_self)
    change c.take kBufferSize ≠ []
    apply List.ne_nil_of_length_pos
    rw [List.length_take]
    unfold kBufferSize
    omega

end Chunks

section Serve
variable {chunks : List (List Byte)} {d' : Daemon}

theorem serveConnection_ends_iff (h : recv chunks ≠ []) :
    Exec.Ends (fun n => serveConnection w n created commSock chunks) d (.returned () d') ↔
      ∃ x, Exec.Ends (fun n => handle w n created commSock (recv chunks)) d (.returned x d') := by
  have hlen : (recv chunks).length ≠ 0 := fun hl => h (List.length_eq_zero_iff.mp hl)
  unfold serveConnection
  simp only [if_neg hlen]
  rw [Exec.ends_then_iff handle_stable]
  refine ⟨fun h => ?_,fun h => ?_⟩
  · obtain ⟨x,t,hx,ht⟩ := h
    cases ht
    exact ⟨x,hx⟩
  · obtain ⟨x,hx⟩ := h
    exact ⟨x,d',hx,rfl⟩

theorem Request.bytes_ne_nil {req : Request} (h : req.bytes = .ok buf) : buf ≠ [] := by
  have hctrl : ∀ {m : ControlMsg} {enc}, m.writeTo = .ok enc → enc ≠ [] := by
    intro m enc h
    obtain ⟨seq,-,h⟩ := encoded_bind_ok h
    cases h
    simp [writeCharVector, DataHead.writeTo_ne_nil]
  cases req with
  | startWatching path =>
    obtain ⟨data,-,h⟩ := encoded_bind_ok h
    exact hctrl h
  | setOnDeleteRequestInfo url =>
    obtain ⟨data,-,h⟩ := encoded_bind_ok h
    exact hctrl h

/-- Handling a whole request takes a valid pointer. -/
theorem Request.live {req : Request} (hw : 32 ≤ w) (h : req.bytes = .ok buf)
    (hlen : buf.length < 2^31) (hsock : 0 ≤ commSock)
    (hreturns : Exec.Returns (fun n => handle w n created commSock buf) d) : d.PointerOk := by
  obtain ⟨x,d',hx⟩ := hreturns
  obtain ⟨-,m,hm,hserves⟩ := (handle_ends_iff hsock (req.bytes_ne_nil h)).mp hx
  have hcarries := req.carries hw h hlen
  cases req with
  | startWatching path =>
    cases hcarries with
    | filePath decoded type =>
      obtain rfl := hm.unique decoded
      obtain ⟨-,-,live,-⟩ := (serves_filePath_iff type).mp hserves
      exact live
  | setOnDeleteRequestInfo url =>
    cases hcarries with
    | reqOnDel decoded type =>
      obtain rfl := hm.unique decoded
      rcases (serves_reqOnDel_iff type).mp hserves with ⟨hnone,-⟩ | ⟨-,live,-⟩
      · exact pointerOk_of_none hnone
      · exact live

/-- A request is carried out as a whole exactly when it arrives in one piece that fits the
buffer and the server's pointer is valid. -/
theorem doesWhole_iff {req : Request} (hw : 32 ≤ w) (hreq : req.bytes = .ok buf)
    (hlen : buf.length < 2^31) (hsock : 0 ≤ commSock) (hne : ∀ c ∈ chunks, c ≠ [])
    (hflat : chunks.flatten = buf) (created : Bool) (d : Daemon) :
    DoesWhole w created commSock buf req.message chunks d ↔
      chunks = [buf] ∧ buf.length ≤ kBufferSize ∧ d.PointerOk := by
  have hbuf := req.bytes_ne_nil hreq
  have hchunks : chunks ≠ [] := fun h => hbuf (by rw [← hflat,h]; rfl)
  have hrecv := recv_ne_nil hne hchunks
  rw [← and_assoc,← recv_eq_iff hne hflat hbuf]
  refine ⟨fun h => ?_,fun h => ?_⟩
  · obtain ⟨x,hx⟩ := (serveConnection_ends_iff hrecv).mp h.acts
    have hall : recv chunks = buf := by
      by_contra hpart
      exact h.whole hpart ⟨x,_,hx⟩
    rw [hall] at hx
    exact ⟨hall,req.live hw hreq hlen hsock ⟨x,_,hx⟩⟩
  · obtain ⟨hall,live⟩ := h
    refine ⟨(serveConnection_ends_iff hrecv).mpr ⟨0,?_⟩,fun hpart => absurd hall hpart⟩
    rw [hall]
    exact handle_carries hsock hbuf (req.carries hw hreq hlen) live

/-- The request to watch "/a". -/
def sampleRequest : Request := .startWatching [0x2F,0x61]
def sampleBytes : List Byte :=
  [0x00,0x01,0x16,0x01,0x30,0x2D,0x00,0x00,0x04,0x06,0x02,0x2F,0x61]

theorem doesWhole_sample :
    DoesWhole 32 true 5 sampleBytes sampleRequest.message [sampleBytes] Daemon.init := by
  have hreq : sampleRequest.bytes = .ok sampleBytes := rfl
  have hsock : (0 : ℤ) ≤ 5 := by decide
  have hne : ∀ c ∈ [sampleBytes], c ≠ [] := by decide
  exact (doesWhole_iff (by decide) hreq (by decide) hsock hne rfl true Daemon.init).mpr
    ⟨rfl,by decide,pointerOk_of_none rfl⟩

/-- After two bytes an observer of the empty path is installed. -/
theorem not_doesWhole_cut : ¬ DoesWhole 32 true 5 sampleBytes sampleRequest.message
    [sampleBytes.take 2,sampleBytes.drop 2] Daemon.init := by
  intro h
  have hcut : ∃ d', serveConnection 32 5 true 5 [sampleBytes.take 2,sampleBytes.drop 2]
      Daemon.init = .returned () d' ∧ d'.current.map FileDeleteObserver.mPath = some [] :=
    ⟨_,rfl,rfl⟩
  obtain ⟨d',hcut,hpath⟩ := hcut
  have hstable : Exec.Stable fun n => serveConnection 32 n true 5
      [sampleBytes.take 2,sampleBytes.drop 2] :=
    .ite (.const _) (handle_stable.bind fun _ => .const _)
  cases h.acts.unique ⟨by simp,5,hcut⟩ hstable
  cases hpath

end Serve

end UninstallObserver.Observer
