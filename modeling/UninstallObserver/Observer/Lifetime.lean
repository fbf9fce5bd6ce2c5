import UninstallObserver.Observer.ConnectionSockets
import UninstallObserver.Observer.Startup

/-! How long the daemon listens, and how it comes to its end. -/
namespace UninstallObserver.Observer
open Imperative ByteOrder Transition

/-- The loops of the daemon, without what goes through them. -/
structure Loops where
  mLoop : Bool
  listener : Listener
  main : Main
  deriving DecidableEq, Repr

def Daemon.loops (d : Daemon) : Loops := ⟨d.mLoop,d.listener,d.main⟩

namespace Label

def listens : Label → Bool
  | .listen _ => true
  | _ => false

def accepts : Label → Bool
  | .listen (.accepted _ _ _) => true
  | _ => false

end Label

namespace Loops

/-- One turn of one loop. -/
inductive Turns : Label → Loops → Loops → Prop
  | checks {mLoop : Bool} {k : ℕ} {main : Main} (alive : main ≠ .exited) :
      Turns (.listen .loop) ⟨mLoop,.head k,main⟩
        ⟨mLoop,if mLoop ∧ k < kMaxRetryTimes then .selecting k else .closed,main⟩
  | fails {mLoop : Bool} {k : ℕ} {main : Main} (alive : main ≠ .exited) :
      Turns (.listen .error) ⟨mLoop,.selecting k,main⟩ ⟨mLoop,.head (k+1),main⟩
  | goesOn {mLoop : Bool} {k : ℕ} {main : Main} {i : Listen} (alive : main ≠ .exited)
      (turned : i ≠ .loop) (selected : i ≠ .error) :
      Turns (.listen i) ⟨mLoop,.selecting k,main⟩ ⟨mLoop,.head k,main⟩
  | elsewhere {p : ℕ} {i : Input} {t : Loops} (alive : t.main ≠ .exited) : Turns (.thread p i) t t
  | waits {mLoop : Bool} {k : Listener} : Turns .main ⟨mLoop,k,.looping⟩ ⟨mLoop,k,.looping⟩
  | leaves {mLoop : Bool} {k : Listener} : Turns .main ⟨mLoop,k,.looping⟩ ⟨false,k,.leaving⟩
  | exits {mLoop : Bool} {k : Listener} : Turns .main ⟨mLoop,k,.leaving⟩ ⟨mLoop,k,.exited⟩

/-- The steps the listening thread can still take once it is not to go on. -/
def turnsLeft (t : Loops) : ℕ :=
  match t.listener with
  | .selecting _ => 2
  | .head _ => 1
  | .closed => 0

def acceptsLeft (t : Loops) : ℕ :=
  match t.listener with
  | .selecting _ => 1
  | _ => 0

def mainLeft (t : Loops) : ℕ := if t.main = .leaving then 1 else 0

/-- `stopListening` has been called. -/
structure Told (t : Loops) : Prop where
  mLoop : t.mLoop = false
  main : t.main ≠ .looping

/-- The failures are all counted, and nothing else is. -/
def Counts (ls : List Label) (t : Loops) : Prop :=
  match t.listener with
  | .head k => ls.count (.listen .error) = k ∧ k ≤ kMaxRetryTimes
  | .selecting k => ls.count (.listen .error) = k ∧ k < kMaxRetryTimes
  | .closed => ls.count (.listen .error) ≤ kMaxRetryTimes ∧
      (t.mLoop = false ∨ ls.count (.listen .error) = kMaxRetryTimes)

variable {l : Label} {ls : List Label} {s t : Loops}

theorem Turns.counts (h : Turns l s t) (hs : Counts ls s) : Counts (ls ++ [l]) t := by
  cases h with
  | @checks mLoop k main =>
    obtain ⟨hcount,hle⟩ := hs
    have hsame : (ls ++ [Label.listen .loop]).count (.listen .error) = k := by
      simpa using hcount
    by_cases hgo : mLoop ∧ k < kMaxRetryTimes
    · rw [if_pos hgo]
      exact ⟨hsame,hgo.2⟩
    · rw [if_neg hgo]
      refine ⟨by rw [hsame]; exact hle,?_⟩
      rw [hsame]
      by_cases hloop : mLoop
      · exact .inr (Nat.le_antisymm hle (Nat.not_lt.mp fun hlt => hgo ⟨hloop,hlt⟩))
      · exact .inl (by simpa using hloop)
  | fails =>
    obtain ⟨hcount,hlt⟩ := hs
    exact ⟨by simp [hcount],hlt⟩
  | goesOn _ _ selected =>
    obtain ⟨hcount,hlt⟩ := hs
    exact ⟨by simpa [selected] using hcount,hlt.le⟩
  | elsewhere => simpa [Counts] using hs
  | waits => simpa [Counts] using hs
  | @leaves mLoop k =>
    cases k with
    | head k => simpa [Counts] using hs
    | selecting k => simpa [Counts] using hs
    | closed =>
      refine ⟨?_,.inl rfl⟩
      simpa using hs.1
  | exits => simpa [Counts] using hs

theorem Turns.told (h : Turns l s t) (hs : Told s) : Told t := by
  cases h with
  | checks => exact ⟨hs.mLoop,hs.main⟩
  | fails => exact ⟨hs.mLoop,hs.main⟩
  | goesOn => exact ⟨hs.mLoop,hs.main⟩
  | elsewhere => exact hs
  | waits => exact hs
  | leaves => exact ⟨rfl,by simp⟩
  | exits => exact ⟨hs.mLoop,by simp⟩

/-- Once the listening thread is told to stop, every turn leaves less to come. -/
theorem Turns.left (h : Turns l s t) (hs : Told s) :
    (if l.listens then 1 else 0) + t.turnsLeft ≤ s.turnsLeft ∧
    (if l.accepts then 1 else 0) + t.acceptsLeft ≤ s.acceptsLeft ∧
    (if l = .main then 1 else 0) + t.mainLeft ≤ s.mainLeft := by
  cases h with
  | checks =>
    have hloop := hs.mLoop
    dsimp only at hloop
    subst hloop
    simp [Label.listens, Label.accepts, turnsLeft, acceptsLeft, mainLeft]
  | fails => simp [Label.listens, Label.accepts, turnsLeft, acceptsLeft, mainLeft]
  | @goesOn _ _ _ i =>
    cases i <;> simp [Label.listens, Label.accepts, turnsLeft, acceptsLeft, mainLeft]
  | elsewhere => simp [Label.listens, Label.accepts]
  | waits => exact absurd rfl hs.main
  | leaves => exact absurd rfl hs.main
  | exits => simp [Label.listens, Label.accepts, turnsLeft, acceptsLeft, mainLeft]

/-- Behind its loop the listening thread does nothing more. -/
theorem Turns.closed (h : Turns l s t) (hs : s.listener = .closed) :
    l.listens = false ∧ t.listener = .closed := by
  cases h with
  | checks => cases hs
  | fails => cases hs
  | goesOn => cases hs
  | elsewhere => exact ⟨rfl,hs⟩
  | waits => exact ⟨rfl,hs⟩
  | leaves => exact ⟨rfl,hs⟩
  | exits => exact ⟨rfl,hs⟩

/-- Only the main loop takes the flag from the listening thread. -/
theorem Turns.mLoop_iff (h : Turns l s t) (hs : s.mLoop = false ↔ s.main ≠ .looping) :
    t.mLoop = false ↔ t.main ≠ .looping := by
  cases h with
  | checks => exact hs
  | fails => exact hs
  | goesOn => exact hs
  | elsewhere => exact hs
  | waits => exact hs
  | leaves => exact iff_of_true rfl (by simp)
  | exits => exact iff_of_true (hs.mpr (by simp)) (by simp)

section Runs
variable {after : List Label}

theorem counts_run (h : Run Turns Daemon.init.loops ls t) : Counts ls t :=
  h.history (I := Counts) ⟨rfl,Nat.zero_le _⟩ fun _ _ _ _ hs hstep => hstep.counts hs

theorem Counts.le (h : Counts ls t) : ls.count (.listen .error) ≤ kMaxRetryTimes := by
  obtain ⟨mLoop,listener,main⟩ := t
  cases listener with
  | head k => exact h.1.trans_le h.2
  | selecting k => exact h.1.trans_le h.2.le
  | closed => exact h.1

theorem Counts.closed (h : Counts ls t) (ht : t.listener = .closed) (hloop : t.mLoop = true) :
    ls.count (.listen .error) = kMaxRetryTimes := by
  obtain ⟨mLoop,listener,main⟩ := t
  cases ht
  rcases h.2 with hstopped | hcount
  · cases hloop.symm.trans hstopped
  · exact hcount

theorem mLoop_run (h : Run Turns Daemon.init.loops ls t) :
    t.mLoop = false ↔ t.main ≠ .looping :=
  h.invariant (I := fun t => t.mLoop = false ↔ t.main ≠ .looping)
    (iff_of_false nofun fun h => h rfl) fun _ _ _ hs hstep => hstep.mLoop_iff hs

theorem closed_run (h : Run Turns s after t) (hs : s.listener = .closed) :
    after.countP Label.listens = 0 := by
  have hnone := h.uses (I := fun t => t.listener = .closed) (μ := fun _ => 0)
    (p := Label.listens) hs (fun _ _ _ hs hstep => (hstep.closed hs).2)
    fun _ _ _ hs hstep => by simp [(hstep.closed hs).1]
  exact Nat.le_zero.mp hnone

/-- What is still to come once the listening thread is told to stop. -/
theorem told_run (h : Run Turns s after t) (hs : Told s) : after.countP Label.listens ≤ 2 ∧
    after.countP Label.accepts ≤ 1 ∧ after.count .main ≤ 1 := by
  have htold : ∀ l s t, Told s → Turns l s t → Told t := fun _ _ _ hs hstep => hstep.told hs
  have hturns := h.uses hs htold fun _ _ _ hs hstep => (hstep.left hs).1
  have haccepts := h.uses hs htold fun _ _ _ hs hstep => (hstep.left hs).2.1
  have hmain := h.uses (p := fun l => l == .main) hs htold
    fun _ _ _ hs hstep => by simpa using (hstep.left hs).2.2
  have h2 : s.turnsLeft ≤ 2 := by
    unfold turnsLeft
    split <;> omega
  have h1 : s.acceptsLeft ≤ 1 := by
    unfold acceptsLeft
    split <;> omega
  have h0 : s.mainLeft ≤ 1 := by
    unfold mainLeft
    split <;> omega
  refine ⟨by omega,by omega,?_⟩
  rw [List.count]
  omega

end Runs
end Loops

section Follows
variable {w : ℕ} {l : Label} {ls : List Label} {d d' : Daemon}
  {f : FileDeleteObserver → FileDeleteObserver}

theorem loops_modifyCurrent : (d.modifyCurrent f).loops = d.loops := by
  unfold Daemon.modifyCurrent
  split <;> rfl

theorem Serves.loops {created : Bool} {buf : List Byte} {m : ControlMsg}
    (h : Serves w created buf m d d') : d'.loops = d.loops := by
  cases h with
  | hello => rfl
  | filePath => exact loops_modifyCurrent
  | reqOnDel => exact loops_modifyCurrent
  | ignored => rfl
  | other => rfl

theorem loops_listen {n : ℕ} {i : Listen} (h : d.listen w n i = some d') (alive : d.main ≠ .exited) :
    Loops.Turns (.listen i) d.loops d'.loops := by
  unfold Daemon.listen at h
  split at h
  · next k hk =>
    cases h
    rw [Daemon.loops,hk]
    exact .checks alive
  · next k hk =>
    cases h
    rw [Daemon.loops,hk]
    exact .fails alive
  · next k hk =>
    cases h
    rw [Daemon.loops,hk]
    exact .goesOn alive nofun nofun
  · next k _ _ _ hk =>
    split at h
    · next d₁ hserve =>
      cases h
      have hsame : d₁.loops = d.loops := by
        rcases serveConnection_cases hserve with ⟨rfl,-⟩ | ⟨-,-,m,-,hserves⟩
        · rfl
        · exact hserves.loops
      have hmLoop : d₁.mLoop = d.mLoop := congrArg Loops.mLoop hsame
      have hmain : d₁.main = d.main := congrArg Loops.main hsame
      rw [Daemon.loops,Daemon.loops,hk,hmLoop,hmain]
      exact .goesOn alive nofun nofun
    · cases h
  · cases h

theorem loops_mainLoop (h : d.mainLoop = some d') : Loops.Turns .main d.loops d'.loops := by
  unfold Daemon.mainLoop at h
  split at h
  · next hmain =>
    split at h
    · cases h
      rw [Daemon.loops,hmain]
      exact .waits
    · cases h
      rw [Daemon.loops,hmain]
      exact .leaves
  · next hmain =>
    cases h
    rw [Daemon.loops,hmain]
    exact .exits
  · cases h

/-- The daemon does with its loops what they do. -/
theorem Step.loops (h : Step w l d d') : Loops.Turns l d.loops d'.loops := by
  obtain ⟨n,h⟩ := h
  unfold Daemon.step at h
  split at h
  · cases h
  next alive =>
  cases l with
  | listen i => exact loops_listen h alive
  | thread p i =>
    obtain ⟨s,hs,h⟩ := Option.bind_eq_some_iff.mp h
    obtain ⟨s',hs',rfl⟩ := Option.map_eq_some_iff.mp h
    exact .elsewhere alive
  | main => exact loops_mainLoop h

theorem loops_run (h : Run (Step w) d ls d') : Run Loops.Turns d.loops ls d'.loops := by
  obtain ⟨t,hrun,rfl⟩ := h.simulate (R := fun d t => t = d.loops) rfl
    fun l d d' t ht hstep => ⟨d'.loops,ht ▸ hstep.loops,rfl⟩
  exact hrun

end Follows

section Stop
variable {w : ℕ} {l : Label} {ls : List Label} {d d' : Daemon}

/-- The thread of an observer has called `BackendServer::Stop`. -/
def StopCalled (w : ℕ) (ls : List Label) : Prop :=
  ∃ before p after d, ls = before ++ .thread p .next::after ∧
    Run (Step w) Daemon.init before d ∧ d.thread p = some .stopping

theorem StopCalled.append (h : StopCalled w ls) (ms : List Label) : StopCalled w (ls ++ ms) := by
  obtain ⟨before,p,after,d,rfl,hrun,hstopping⟩ := h
  exact ⟨before,p,after ++ ms,d,by simp,hrun,hstopping⟩

/-- The main loop ends once the flag has fallen, and only `Stop` lets it fall. -/
structure Daemon.Asked (w : ℕ) (ls : List Label) (d : Daemon) : Prop where
  run : Run (Step w) Daemon.init ls d
  fallen : d.gKeepAliveDaemonProcess = false → StopCalled w ls
  left : d.main ≠ .looping → d.gKeepAliveDaemonProcess = false

theorem Serves.flag {created : Bool} {buf : List Byte} {m : ControlMsg}
    (h : Serves w created buf m d d') :
    d'.gKeepAliveDaemonProcess = d.gKeepAliveDaemonProcess := by
  cases h with
  | hello => rfl
  | filePath => exact gKeepAliveDaemonProcess_modifyCurrent
  | reqOnDel => exact gKeepAliveDaemonProcess_modifyCurrent
  | ignored => rfl
  | other => rfl

theorem Serves.main {created : Bool} {buf : List Byte} {m : ControlMsg}
    (h : Serves w created buf m d d') : d'.main = d.main :=
  congrArg Loops.main h.loops

theorem Daemon.Asked.step (hd : d.Asked w ls) (h : Step w l d d') : d'.Asked w (ls ++ [l]) := by
  refine ⟨run_concat_iff.mpr ⟨d,hd.run,h⟩,?_,?_⟩
  · intro hflag
    cases h.moves with
    | listens => exact (hd.fallen hflag).append _
    | serves _ served => exact (hd.fallen (served.flag ▸ hflag)).append _
    | @watches p i s s' slot stepped =>
      by_cases hs : s.stops
      · obtain ⟨rfl,hstopping⟩ := Slot.next_of_stops stepped hs
        exact ⟨ls,p,[],d,rfl,hd.run,by rw [thread_of_slot slot,hstopping]⟩
      · have hkeep : d.gKeepAliveDaemonProcess = false := by
          simpa [Daemon.put, hs] using hflag
        exact (hd.fallen hkeep).append _
    | waits => exact (hd.fallen hflag).append _
    | leaves => exact (hd.fallen hflag).append _
    | exits => exact (hd.fallen hflag).append _
  · intro hmain
    cases h.moves with
    | listens => exact hd.left hmain
    | serves _ served => exact served.flag.trans (hd.left (served.main ▸ hmain))
    | watches =>
      have hkeep := hd.left hmain
      simp [Daemon.put, hkeep]
    | waits => exact hd.left hmain
    | leaves stop => exact stop
    | exits left =>
      apply hd.left
      rw [left]
      decide

theorem asked_run (h : Run (Step w) Daemon.init ls d) : d.Asked w ls :=
  h.history (I := fun ls d => d.Asked w ls) ⟨.nil,nofun,fun h => absurd rfl h⟩
    fun _ _ _ _ hd hstep => hd.step hstep

end Stop

section Children
variable {w : ℕ} {l : Label} {s t : Loops}

/-- A step of one child, as `Start` sees it: a call that succeeds or not, or the end. -/
def Child.Goes (call : Option (Bool × Bool)) (c c' : Child) : Prop :=
  match call with
  | some (free,success) => c.next free success = some c'
  | none => c.exit = some c'

/-- The child that runs the loops. -/
def Loops.child (onPort : Bool) (t : Loops) : Child :=
  if t.main = .exited then .exited
  else if t.listener = .closed then .closed
  else .listening onPort

/-- A turn is a step of the child, or the child does not change. -/
theorem Loops.Turns.child (onPort : Bool) (h : Turns l s t) :
    t.child onPort = s.child onPort ∨ ∃ call, Child.Goes call (s.child onPort) (t.child onPort) := by
  cases h with
  | @checks mLoop k main alive =>
    by_cases hgo : mLoop ∧ k < kMaxRetryTimes
    · left
      simp [Loops.child, hgo, alive]
    · right
      refine ⟨some (false,false),?_⟩
      simp [Loops.child, hgo, alive, Child.Goes, Child.next]
  | fails => exact .inl rfl
  | goesOn => exact .inl rfl
  | elsewhere => exact .inl rfl
  | waits => exact .inl rfl
  | leaves => exact .inl rfl
  | @exits mLoop k =>
    right
    refine ⟨none,?_⟩
    cases k <;> rfl

end Children

section Lifetime
variable {w : ℕ} {before after : List Label} {d d' : Daemon}

/-- The life of the daemon, seen from any point of a run. -/
theorem daemon_lifetime (h : Run (Step w) Daemon.init before d) (h' : Run (Step w) d after d')
    (onPort : Bool) :
    (before ++ after).count (.listen .error) ≤ kMaxRetryTimes ∧
    (d'.listener = .closed → d'.main = .looping →
      (before ++ after).count (.listen .error) = kMaxRetryTimes) ∧
    (d'.main ≠ .looping → StopCalled w (before ++ after)) ∧
    (d.listener = .closed → after.countP Label.listens = 0) ∧
    (d.main ≠ .looping → after.countP Label.listens ≤ 2 ∧ after.countP Label.accepts ≤ 1 ∧
      after.count .main ≤ 1) ∧
    ∃ calls, Run Child.Goes (.listening onPort) calls (d'.loops.child onPort) := by
  have hwhole : Run (Step w) Daemon.init (before ++ after) d' := run_append_iff.mpr ⟨d,h,h'⟩
  have hloops := loops_run hwhole
  have hcounts := Loops.counts_run hloops
  refine ⟨hcounts.le,fun hclosed hmain => ?_,fun hmain => ?_,Loops.closed_run (loops_run h'),
    fun hmain => ?_,?_⟩
  · refine hcounts.closed hclosed ?_
    rw [← Bool.not_eq_false]
    exact fun hloop => (Loops.mLoop_run hloops).mp hloop hmain
  · have hasked := asked_run hwhole
    exact hasked.fallen (hasked.left hmain)
  · exact Loops.told_run (loops_run h') ⟨(Loops.mLoop_run (loops_run h)).mpr hmain,hmain⟩
  · exact hloops.stuttering (Loops.child onPort) fun _ _ _ hstep => hstep.child onPort

/-- A client that comes while the main loop ends. -/
def lateClient : List Label :=
  [.listen (.accepted 5 true [samplePath.buf]),.listen .loop,.main]

/-- The path that it sends is watched for no longer than until `exit`. -/
theorem daemon_lifetime_lateClient : ∃ d d',
    Run (Step 32) Daemon.init (deletion ++ [.listen .loop,.main]) d ∧
    Run (Step 32) d lateClient d' ∧ d'.main = .exited ∧ d'.mFileObserver = some 1 ∧
    StopCalled 32 (deletion ++ [.listen .loop,.main] ++ lateClient) ∧
    lateClient.countP Label.accepts ≤ 1 := by
  have hruns : ∃ d d', runAll (fun l d => d.step 32 20 l) (deletion ++ [.listen .loop,.main])
      Daemon.init = some d ∧ runAll (fun l d => d.step 32 20 l) lateClient d = some d' ∧
      d.main = .leaving ∧ d'.main = .exited ∧ d'.mFileObserver = some 1 := ⟨_,_,rfl,rfl,rfl,rfl,rfl⟩
  obtain ⟨d,d',hbefore,hafter,hleaving,hexited,hobserver⟩ := hruns
  have h : Run (Step 32) Daemon.init _ d := run_of_runAll hbefore fun _ _ _ hst => ⟨20,hst⟩
  have h' : Run (Step 32) d _ d' := run_of_runAll hafter fun _ _ _ hst => ⟨20,hst⟩
  obtain ⟨-,-,hstop,-,hleft,-⟩ := daemon_lifetime h h' true
  exact ⟨d,d',h,h',hexited,hobserver,hstop (by rw [hexited]; decide),
    (hleft (by rw [hleaving]; decide)).2.1⟩

end Lifetime
end UninstallObserver.Observer
