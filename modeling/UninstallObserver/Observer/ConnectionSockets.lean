import UninstallObserver.Observer.Interleavings

/-! The sockets that `startListening` gets from `accept`, and which of them it closes. -/
namespace UninstallObserver.Observer
open Imperative ByteOrder Jce Transition

/-- What one `recv` can put into the buffer. -/
abbrev Received := { buffer : List Byte // buffer.length ≤ kBufferSize }

/-- Where `startListening` is, apart from what its place in the loop says. -/
inductive Turn where
  | starting
  | between
  | accepting
  | receiving (communicateSocket : ℤ)
  | handling (communicateSocket : ℤ) (buffer : Received)
  | closing (communicateSocket : ℤ)
  | returned
  deriving DecidableEq, Repr

/-- The socket of the connection that is being served. -/
def Turn.sockets : Turn → List ℤ
  | .receiving communicateSocket => [communicateSocket]
  | .handling communicateSocket _ => [communicateSocket]
  | .closing communicateSocket => [communicateSocket]
  | _ => []

/-- What `startListening` does next, and how it turns out. -/
inductive Call where
  | listen (result : ℤ)
  | test
  | select (result : ℤ) (isSet : Bool)
  | accept (result : ℤ)
  | recv (received : Option Received)
  | handle (created : Bool)
  | close
  deriving DecidableEq, Repr

/-- The daemon with the sockets its server has open. -/
structure Listening where
  daemon : Daemon
  turn : Turn
  sockets : List ℤ
  deriving DecidableEq, Repr

/-- Who takes a step. -/
inductive SocketLabel where
  | call (c : Call)
  | thread (p : ℕ) (i : Input)
  | main
  deriving DecidableEq, Repr

namespace Listening

/-- The child when `startListening` is called. -/
def init : Listening := ⟨Daemon.init,.starting,[]⟩

/-- On to the condition of the loop, as a `break` out of the `switch` goes. -/
def toHead (failTimes : ℕ) (s : Listening) : Listening :=
  { s with daemon := { s.daemon with listener := .head failTimes }, turn := .between }

/-- `startListening`, from one call to the next. -/
def call (w fuel : ℕ) (c : Call) (s : Listening) : Option Listening :=
  match s.turn, s.daemon.listener, c with
  | .starting, _, .listen result =>
    some { s with turn := if result < 0 then .returned else .between }
  | .between, .head k, .test =>
    some { s with daemon := { s.daemon with
      listener := if s.daemon.mLoop ∧ k < kMaxRetryTimes then .selecting k else .closed } }
  | .between, .selecting k, .select result isSet =>
    if result = -1 then some (s.toHead (k+1))
    else if result = 0 then some (s.toHead k)
    else if isSet then some { s with turn := .accepting }
    else some (s.toHead k)
  | .accepting, .selecting k, .accept result =>
    if result < 0 then some (s.toHead k)
    -- the kernel gives a number that no open socket has
    else if result ∈ s.sockets then none
    else some { s with turn := .receiving result, sockets := result::s.sockets }
  | .receiving communicateSocket, .selecting k, .recv received =>
    match received with
    -- both of the failures `break` before the `close`
    | none => some (s.toHead k)
    | some buffer =>
      if buffer.val.length = 0 then some (s.toHead k)
      else some { s with turn := .handling communicateSocket buffer }
  | .handling communicateSocket buffer, .selecting _, .handle created =>
    match Observer.handle w fuel created communicateSocket buffer.val s.daemon with
    | .returned _ d => some { s with daemon := d, turn := .closing communicateSocket }
    -- an exception that escapes ends the process, a destroyed observer anything
    | _ => none
  | .closing communicateSocket, .selecting k, .close =>
    some { s.toHead k with sockets := s.sockets.erase communicateSocket }
  | _, _, _ => none

/-- One step of one thread; after `exit` there is none. -/
def step (w fuel : ℕ) (l : SocketLabel) (s : Listening) : Option Listening :=
  if s.daemon.main = .exited then none
  else match l with
    | .call c => s.call w fuel c
    | .thread p i => (s.daemon.watch p i).map fun d => { s with daemon := d }
    | .main => s.daemon.mainLoop.map fun d => { s with daemon := d }

/-- The next iteration of the loop is about to begin. -/
def AtHead (s : Listening) : Prop := s.turn = .between ∧ ∃ k, s.daemon.listener = .head k

/-- No connection is open when an iteration begins. -/
def ClosedAtHead (s : Listening) : Prop := s.AtHead → s.sockets = []

end Listening

/-- A step of the daemon, for enough fuel. -/
def SocketStep (w : ℕ) (l : SocketLabel) (s t : Listening) : Prop := ∃ n, s.step w n l = some t

/-- A `recv` that gives no byte: it fails, or the client is gone. -/
def GivesNothing : SocketLabel → Prop
  | .call (.recv none) => True
  | .call (.recv (some buffer)) => buffer.val.length = 0
  | _ => False

instance (l : SocketLabel) : Decidable (GivesNothing l) := by
  unfold GivesNothing
  split <;> infer_instance

section Steps
variable {w n : ℕ} {l : SocketLabel} {s t : Listening}

/-- What a step can do to the sockets. -/
inductive SocketMoves (s : Listening) : SocketLabel → Listening → Prop
  | opens {fd : ℤ} {t : Listening} (before : s.turn.sockets = []) (fresh : fd ∉ s.sockets)
      (during : t.turn = .receiving fd) (opened : t.sockets = fd::s.sockets) :
      SocketMoves s (.call (.accept fd)) t
  | closes {fd : ℤ} {t : Listening} (before : s.turn = .closing fd) (after : t.turn = .between)
      (closed : t.sockets = s.sockets.erase fd) : SocketMoves s (.call .close) t
  | leaks {fd : ℤ} {l : SocketLabel} {t : Listening} (nothing : GivesNothing l)
      (before : s.turn = .receiving fd) (after : t.AtHead) (kept : t.sockets = s.sockets) :
      SocketMoves s l t
  | keeps {l : SocketLabel} {t : Listening} (something : ¬ GivesNothing l)
      (turn : t.turn.sockets = s.turn.sockets) (kept : t.sockets = s.sockets) :
      SocketMoves s l t

theorem atHead_toHead (k : ℕ) : (s.toHead k).AtHead := ⟨rfl,k,rfl⟩

theorem call_moves {c : Call} (h : s.call w n c = some t) : SocketMoves s (.call c) t := by
  unfold Listening.call at h
  split at h
  · next hturn =>
    cases h
    refine .keeps (by simp [GivesNothing]) ?_ rfl
    rw [hturn]
    split <;> rfl
  · next hturn _ =>
    cases h
    exact .keeps (by simp [GivesNothing]) rfl rfl
  · next hturn _ =>
    repeat' split at h
    all_goals
      cases h
      exact .keeps (by simp [GivesNothing]) (by rw [hturn]; rfl) rfl
  · next hturn _ =>
    split at h
    · cases h
      exact .keeps (by simp [GivesNothing]) (by rw [hturn]; rfl) rfl
    · split at h
      · cases h
      · next hfresh =>
        cases h
        exact .opens (by rw [hturn]; rfl) hfresh rfl rfl
  · next communicateSocket k received hturn _ =>
    split at h
    · cases h
      exact .leaks trivial hturn (atHead_toHead k) rfl
    · split at h
      · next hlen =>
        cases h
        exact .leaks hlen hturn (atHead_toHead k) rfl
      · next hlen =>
        cases h
        exact .keeps hlen (by rw [hturn]; rfl) rfl
  · next hturn _ =>
    split at h
    · cases h
      exact .keeps (by simp [GivesNothing]) (by rw [hturn]; rfl) rfl
    · cases h
  · next hturn _ =>
    cases h
    exact .closes hturn rfl rfl
  · cases h

theorem SocketStep.moves (h : SocketStep w l s t) : SocketMoves s l t := by
  obtain ⟨n,h⟩ := h
  unfold Listening.step at h
  split at h
  · cases h
  cases l with
  | call c => exact call_moves h
  | thread p i =>
    obtain ⟨d,-,rfl⟩ := Option.map_eq_some_iff.mp h
    exact .keeps (by simp [GivesNothing]) rfl rfl
  | main =>
    obtain ⟨d,-,rfl⟩ := Option.map_eq_some_iff.mp h
    exact .keeps (by simp [GivesNothing]) rfl rfl

/-- The socket being served is the only one that is open. -/
def Tidy (s : Listening) : Prop := s.sockets = s.turn.sockets

theorem Tidy.closedAtHead (h : Tidy s) : s.ClosedAtHead := by
  intro hhead
  rw [h,hhead.1]
  rfl

theorem SocketMoves.tidy (h : SocketMoves s l t) (hl : ¬ GivesNothing l) (hs : Tidy s) :
    Tidy t := by
  unfold Tidy at hs ⊢
  cases h with
  | opens before _ during opened => rw [opened,during,hs,before]; rfl
  | closes before after closed => rw [closed,after,hs,before]; simp [Turn.sockets]
  | leaks nothing => exact absurd nothing hl
  | keeps _ turn kept => rw [kept,turn,hs]

/-- A step leaves a socket open at the loop's head exactly when `recv` gives nothing. -/
theorem SocketMoves.closedAtHead_iff (h : SocketMoves s l t) (hs : Tidy s) :
    t.ClosedAtHead ↔ ¬ GivesNothing l := by
  refine ⟨fun hclosed hl => ?_,fun hl => (h.tidy hl hs).closedAtHead⟩
  cases h with
  | opens => simp [GivesNothing] at hl
  | closes => simp [GivesNothing] at hl
  | leaks _ before after kept =>
    have hnone := hclosed after
    rw [kept,hs,before] at hnone
    cases hnone
  | keeps something => exact something hl

/-- Every connection is closed by the time the next iteration begins in exactly those runs in
which every `recv` gives a byte. -/
theorem closedAtHead_run_iff {ls : List SocketLabel} :
    Within Listening.ClosedAtHead (SocketStep w) Listening.init ls t ↔
      Run (Guarded (fun l _ => ¬ GivesNothing l) (SocketStep w)) Listening.init ls t := by
  have hinit : Tidy Listening.init := rfl
  refine (and_iff_right hinit.closedAtHead).trans ?_
  refine Run.congr hinit (fun l s t hs => ?_) fun l s t hs h => ?_
  · refine ⟨fun h => ?_,fun h => ?_⟩
    · exact ⟨(h.1.moves.closedAtHead_iff hs).mp h.2,h.1⟩
    · exact ⟨h.2,(h.2.moves.closedAtHead_iff hs).mpr h.1⟩
  · exact h.1.moves.tidy ((h.1.moves.closedAtHead_iff hs).mp h.2) hs

/-- A client connects and goes away. -/
def silentClient (fd : ℤ) : List SocketLabel :=
  [.call .test,.call (.select 1 true),.call (.accept fd),.call (.recv (some ⟨[],by decide⟩))]

theorem run_of_socketSteps {ls : List SocketLabel}
    (h : runAll (Listening.step w 0) ls s = some t) : Run (SocketStep w) s ls t :=
  run_of_runAll h fun _ _ _ h => ⟨0,h⟩

theorem not_closedAtHead_silentClient : ¬ ∀ ls t,
    Run (SocketStep 32) Listening.init ls t → t.ClosedAtHead := by
  intro h
  have hrun : ∃ t, runAll (Listening.step 32 0) (.call (.listen 0)::silentClient 7)
      Listening.init = some t ∧ t.turn = .between ∧ t.daemon.listener = .head 0 ∧
        t.sockets = [7] := ⟨_,rfl,rfl,rfl,rfl⟩
  obtain ⟨t,hrun,hturn,hlistener,hsockets⟩ := hrun
  have hclosed := h _ t (run_of_socketSteps hrun) ⟨hturn,0,hlistener⟩
  rw [hsockets] at hclosed
  cases hclosed

end Steps

section Descriptors
variable {w n : ℕ} {l : SocketLabel} {ls : List SocketLabel} {s t : Listening}

/-- The sockets that are open at the loop's head are as many as the calls of `recv` that gave
nothing. -/
theorem length_sockets (h : Run (SocketStep w) Listening.init ls t) :
    t.sockets.length = ls.countP (GivesNothing ·) + t.turn.sockets.length := by
  refine (h.history (I := fun ls s => s.turn.sockets ⊆ s.sockets ∧
    s.sockets.length = ls.countP (GivesNothing ·) + s.turn.sockets.length) ⟨?_,rfl⟩ ?_).2
  · simp [Listening.init, Turn.sockets]
  · intro ls l s t ih hst
    obtain ⟨hsub,hlen⟩ := ih
    rw [List.countP_append,List.countP_singleton]
    cases hst.moves with
    | @opens fd _ before _ during opened =>
      have hsome : ¬ GivesNothing (.call (.accept fd)) := id
      rw [before] at hlen
      rw [opened,during,List.length_cons,hlen]
      simp [Turn.sockets, hsome]
    | closes before after closed =>
      have hsome : ¬ GivesNothing (.call .close) := id
      rw [before] at hsub hlen
      rw [after,closed,List.length_erase_of_mem (hsub List.mem_cons_self),hlen]
      simp [Turn.sockets, hsome]
    | leaks nothing before after kept =>
      rw [before] at hlen
      rw [kept,after.1,hlen]
      simp [Turn.sockets, nothing]
    | keeps something turn kept =>
      rw [turn,kept]
      simp [something, hsub, hlen]

/-- After `n` clients that connect and go away, `n` sockets are open. -/
theorem silentClients (w n : ℕ) : ∃ ls t, Run (SocketStep w) Listening.init ls t ∧ t.AtHead ∧
    t.sockets.length = n := by
  have hclients : ∃ ls sockets, Run (SocketStep w) Listening.init ls ⟨Daemon.init,.between,sockets⟩ ∧
      sockets.length = n ∧ ∀ fd ∈ sockets, fd < n := by
    induction n with
    | zero => exact ⟨[.call (.listen 0)],[],run_of_socketSteps rfl,rfl,by simp⟩
    | succ n ih =>
      obtain ⟨ls,sockets,hrun,hlen,hfresh⟩ := ih
      have hclient : runAll (Listening.step w 0) (silentClient n)
          ⟨Daemon.init,.between,sockets⟩ = some ⟨Daemon.init,.between,n::sockets⟩ := by
        have hn : (n : ℤ) ∉ sockets := fun hmem => lt_irrefl _ (hfresh n hmem)
        have hpos : ¬ (n : ℤ) < 0 := by omega
        simp [silentClient, runAll, Listening.step, Listening.call, Daemon.init, kMaxRetryTimes, hn,
          hpos, Listening.toHead]
      refine ⟨ls ++ silentClient n,n::sockets,?_,by simp [hlen],?_⟩
      · exact run_append_iff.mpr ⟨_,hrun,run_of_socketSteps hclient⟩
      · intro fd hfd
        rcases List.mem_cons.mp hfd with rfl | hfd
        · exact Int.lt_succ _
        · exact (hfresh fd hfd).trans (Int.lt_succ _)
  obtain ⟨ls,sockets,hrun,hlen,-⟩ := hclients
  exact ⟨ls,_,hrun,⟨rfl,0,rfl⟩,hlen⟩

end Descriptors

section Refinement
variable {w n p : ℕ} {i : Input} {l : SocketLabel} {ls : List SocketLabel} {s t : Listening}
  {d d' : Daemon} {created : Bool} {fd x : ℤ}

/-- The next iteration has begun as soon as a message is handled. -/
def Turn.listener : Turn → Listener → Listener
  | .closing _, .selecting k => .head k
  | _, k => k

/-- The daemon without the sockets. -/
def Listening.abstract (s : Listening) : Daemon :=
  { s.daemon with listener := s.turn.listener s.daemon.listener }

theorem serveConnection_of_handle {buffer : Received}
    (h : handle w n created fd buffer.val d = .returned x d') :
    serveConnection w n created fd [buffer.val] d = .returned () d' := by
  have hrecv : recv [buffer.val] = buffer.val := List.take_of_length_le buffer.property
  unfold serveConnection
  rw [hrecv]
  split
  · next hlen =>
    rw [handle,if_pos (.inr hlen)] at h
    cases h
    rfl
  · rw [Exec.bind_of_returned h]
    rfl

theorem Serves.listener {buf : List Byte} {m : ControlMsg} (h : Serves w created buf m d d') :
    d'.listener = d.listener := by
  cases h with
  | hello => rfl
  | filePath => exact listener_modifyCurrent
  | reqOnDel => exact listener_modifyCurrent
  | ignored => rfl
  | other => rfl

theorem listener_of_serveConnection {chunks : List (List Byte)}
    (h : serveConnection w n created fd chunks d = .returned () d') : d'.listener = d.listener := by
  rcases serveConnection_cases h with ⟨rfl,-⟩ | ⟨-,-,m,-,hserves⟩
  · rfl
  · exact hserves.listener

/-- A thread does not see where the server is. -/
theorem watch_listener (h : d.watch p i = some d') (k : Listener) :
    Daemon.watch p i { d with listener := k } = some { d' with listener := k } ∧
      d'.listener = d.listener := by
  obtain ⟨s,hs,h⟩ := Option.bind_eq_some_iff.mp h
  obtain ⟨s',hs',rfl⟩ := Option.map_eq_some_iff.mp h
  simp [Daemon.watch, hs, hs', Daemon.put]

theorem mainLoop_listener (h : d.mainLoop = some d') (k : Listener) :
    Daemon.mainLoop { d with listener := k } = some { d' with listener := k } ∧
      d'.listener = d.listener := by
  unfold Daemon.mainLoop at h ⊢
  split at h
  · next hmain =>
    simp only [hmain]
    split at h
    · next hkeep =>
      cases h
      simp [hkeep, hmain]
    · next hkeep =>
      cases h
      simp [hkeep]
  · next hmain =>
    cases h
    simp [hmain]
  · cases h

theorem listen_break {k : ℕ} (habs : s.abstract = s.daemon)
    (hlistener : s.daemon.listener = .selecting k) :
    s.abstract.listen w n .nothing = some (s.toHead k).abstract := by
  rw [habs]
  simp only [Daemon.listen, hlistener]
  rfl

theorem abstract_eq_daemon (h : ∀ fd, s.turn ≠ .closing fd) : s.abstract = s.daemon := by
  unfold Listening.abstract Turn.listener
  split
  · next fd k hturn _ => exact absurd hturn (h fd)
  · rfl

/-- A call is one of the things the daemon's server can come to, or a part of one. -/
theorem call_abstract {c : Call} (h : s.call w n c = some t) :
    t.abstract = s.abstract ∨ ∃ i, s.abstract.listen w n i = some t.abstract := by
  unfold Listening.call at h
  split at h
  · next hturn =>
    cases h
    left
    simp only [Listening.abstract, hturn]
    split <;> rfl
  · next k hturn hlistener =>
    cases h
    right
    refine ⟨.loop,?_⟩
    simp [Listening.abstract, hturn, hlistener, Turn.listener, Daemon.listen]
  · next k result isSet hturn hlistener =>
    have habs := abstract_eq_daemon (s := s) (by simp [hturn])
    split at h
    · cases h
      refine .inr ⟨.error,?_⟩
      rw [habs]
      simp only [Daemon.listen, hlistener]
      rfl
    split at h
    · cases h
      exact .inr ⟨.nothing,listen_break habs hlistener⟩
    split at h
    · cases h
      exact .inl habs.symm
    · cases h
      exact .inr ⟨.nothing,listen_break habs hlistener⟩
  · next k result hturn hlistener =>
    have habs := abstract_eq_daemon (s := s) (by simp [hturn])
    split at h
    · cases h
      exact .inr ⟨.nothing,listen_break habs hlistener⟩
    split at h
    · cases h
    · cases h
      exact .inl habs.symm
  · next fd k received hturn hlistener =>
    have habs := abstract_eq_daemon (s := s) (by simp [hturn])
    split at h
    · cases h
      exact .inr ⟨.nothing,listen_break habs hlistener⟩
    split at h
    · cases h
      exact .inr ⟨.nothing,listen_break habs hlistener⟩
    · cases h
      exact .inl habs.symm
  · next fd buffer k created hturn hlistener =>
    have habs := abstract_eq_daemon (s := s) (by simp [hturn])
    split at h
    · next x d hhandle =>
      cases h
      -- the connection is served in this one step; `close` is none of its own
      have hserve := serveConnection_of_handle hhandle
      have hkept := (listener_of_serveConnection hserve).trans hlistener
      refine .inr ⟨.accepted fd created [buffer.val],?_⟩
      rw [habs]
      simp [Daemon.listen, hlistener, hserve, Listening.abstract, Turn.listener, hkept]
    · cases h
  · next fd k hturn hlistener =>
    cases h
    left
    simp [Listening.abstract, Listening.toHead, Turn.listener, hturn, hlistener]
  · cases h

theorem SocketStep.abstract (h : SocketStep w l s t) :
    t.abstract = s.abstract ∨ ∃ l', Step w l' s.abstract t.abstract := by
  obtain ⟨n,h⟩ := h
  unfold Listening.step at h
  split at h
  · cases h
  next hmain =>
  have hmain' : s.abstract.main ≠ .exited := hmain
  cases l with
  | call c =>
    rcases call_abstract h with heq | ⟨i,hi⟩
    · exact .inl heq
    · exact .inr ⟨.listen i,n,by rw [Daemon.step,if_neg hmain']; exact hi⟩
  | thread p i =>
    obtain ⟨d,hd,rfl⟩ := Option.map_eq_some_iff.mp h
    obtain ⟨hstep,hlistener⟩ := watch_listener hd (s.turn.listener s.daemon.listener)
    refine .inr ⟨.thread p i,0,?_⟩
    rw [Daemon.step,if_neg hmain',Listening.abstract,Listening.abstract,hlistener]
    exact hstep
  | main =>
    obtain ⟨d,hd,rfl⟩ := Option.map_eq_some_iff.mp h
    obtain ⟨hstep,hlistener⟩ := mainLoop_listener hd (s.turn.listener s.daemon.listener)
    refine .inr ⟨.main,0,?_⟩
    rw [Daemon.step,if_neg hmain',Listening.abstract,Listening.abstract,hlistener]
    exact hstep

/-- Every run goes on as the server takes connections one at a time. -/
theorem abstract_run (h : Run (SocketStep w) Listening.init ls t) :
    ∃ ls', Run (Step w) Daemon.init ls' t.abstract :=
  h.stuttering Listening.abstract fun _ _ _ h => h.abstract

end Refinement

end UninstallObserver.Observer
