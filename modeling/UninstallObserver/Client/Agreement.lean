import UninstallObserver.Client.UninstallMonitor
import UninstallObserver.Lib.Runs
import UninstallObserver.Observer.Connections
import UninstallObserver.Observer.MessageSequences

/-! What the client believes it has asked for, and what the daemon was told. -/
namespace UninstallObserver.Client
open Imperative ByteOrder Observer Transition

/-- How `SendRequest` fares with one message: nothing comes through, or the daemon handles it
and can make a thread or not. -/
inductive Fate where
  | lost
  | delivered (created : Bool)
  deriving DecidableEq, Repr

/-- A call of `setHttpRequestOnUninstall` and the fate of each message it causes. -/
structure Call where
  url : List Byte
  fates : List Fate
  deriving DecidableEq, Repr

/-- `SendRequest`, whose result nobody looks at. -/
inductive SendRequest (w : ℕ) (req : Request) (d : Daemon) : Fate → Daemon → Prop
  | lost : SendRequest w req d .lost d
  | delivered {created : Bool} {commSock : ℤ} {buf : List Byte} {d' : Daemon}
      (sock : 0 ≤ commSock) (encoded : req.bytes = .ok buf) (whole : buf.length ≤ kBufferSize)
      (handled : Exec.Ends (fun n => handle w n created commSock buf) d (.returned 0 d')) :
      SendRequest w req d (.delivered created) d'

/-- The messages of a call, one after another. -/
inductive SendAll (w : ℕ) : List Request → Daemon → List Fate → Daemon → Prop
  | nil {d : Daemon} : SendAll w [] d [] d
  | cons {req : Request} {reqs : List Request} {fate : Fate} {fates : List Fate}
      {d d' d'' : Daemon} (head : SendRequest w req d fate d') (tail : SendAll w reqs d' fates d'') :
      SendAll w (req::reqs) d (fate::fates) d''

/-- The monitor of the client and the daemon. -/
structure Pair where
  client : UninstallMonitor
  daemon : Daemon

/-- A call with a URL that is not null. -/
def Calls (w : ℕ) (c : Call) (s s' : Pair) : Prop :=
  s'.client = (s.client.setHttpRequestOnUninstall (some c.url)).2 ∧
    SendAll w (s.client.setHttpRequestOnUninstall (some c.url)).1 s.daemon c.fates s'.daemon

/-- The message of the path, which is the first of the first call, comes through. -/
def PathDelivered (calls : List Call) : Prop :=
  ∃ created, (calls.head?.bind (·.fates.head?)) = some (.delivered created)

section Sends
variable {w : ℕ} {req : Request} {created : Bool} {fate : Fate} {d d' : Daemon}
  {path url url' : List Byte}

theorem SendRequest.acts (hw : 32 ≤ w) (h : SendRequest w req d (.delivered created) d')
    (live : d.PointerOk) : ∃ buf, d' = d.act created buf req.message := by
  cases h with
  | @delivered _ commSock buf _ sock encoded whole handled =>
    have hlen : buf.length < 2^31 := whole.trans_lt (by decide)
    have hends : Exec.Ends (fun n => handle w n created commSock buf) d
        (.returned 0 (d.act created buf req.message)) :=
      handle_carries sock (Request.bytes_ne_nil encoded) (Request.carries hw encoded hlen) live
    have heq := handled.unique hends handle_stable
    cases heq
    exact ⟨buf,rfl⟩

/-- The daemon watches the path, or nothing at all. -/
def Follows (path : List Byte) (watched : Bool) (d : Daemon) : Prop :=
  if watched then ∃ url, d.Watches path url else d.mFileObserver = none

theorem Follows.pointerOk {watched : Bool} (h : Follows path watched d) : d.PointerOk := by
  cases watched with
  | false => exact pointerOk_of_none h
  | true =>
    obtain ⟨url,h⟩ := h
    obtain ⟨o,ho,-⟩ := h.watching
    exact pointerOk_iff.mpr fun _ => by simp [ho]

theorem Follows.watched_of_watches {watched : Bool} (h : Follows path watched d)
    (hd : d.Watches path url) : watched = true := by
  cases watched with
  | true => rfl
  | false =>
    obtain ⟨o,ho,-⟩ := hd.watching
    rw [Daemon.current,show d.mFileObserver = none from h] at ho
    cases ho

theorem SendRequest.follows_path (hw : 32 ≤ w)
    (h : SendRequest w (.startWatching path) d fate d') (hd : Follows path false d) :
    Follows path (fate != .lost) d' := by
  cases fate with
  | lost =>
    cases h
    exact hd
  | delivered created =>
    obtain ⟨buf,rfl⟩ := h.acts hw hd.pointerOk
    exact ⟨[],watches_filePath⟩

/-- A URL changes nothing about the path, and is held if there is one and it comes through. -/
theorem SendRequest.follows_url {watched : Bool} (hw : 32 ≤ w)
    (h : SendRequest w (.setOnDeleteRequestInfo url) d fate d') (hd : Follows path watched d) :
    Follows path watched d' ∧ (watched → fate ≠ .lost → d'.Watches path url) := by
  cases fate with
  | lost =>
    cases h
    exact ⟨hd,fun _ hlost => absurd rfl hlost⟩
  | delivered created =>
    obtain ⟨buf,rfl⟩ := h.acts hw hd.pointerOk
    cases watched with
    | false =>
      refine ⟨?_,(by simp)⟩
      change (d.modifyCurrent _).mFileObserver = none
      rw [mFileObserver_modifyCurrent]
      exact hd
    | true =>
      obtain ⟨url',hd⟩ := hd
      exact ⟨⟨url,hd.reqOnDel url⟩,fun _ _ => hd.reqOnDel url⟩

end Sends

section Runs
variable {w : ℕ} {c : Call} {calls : List Call} {s s' : Pair} {packageName : List Byte}
  {d : Daemon} {watched : Bool}

/-- A started client and what the daemon has been told. -/
structure Pair.Synced (packageName : List Byte) (watched : Bool) (s : Pair) : Prop where
  started : s.client.mStart = true
  package : s.client.packageName = packageName
  follows : Follows (dataPath packageName) watched s.daemon

/-- A call on a started client leaves the path as it is. -/
theorem Calls.synced (hw : 32 ≤ w) (h : Calls w c s s') (hs : s.Synced packageName watched) :
    s'.Synced packageName watched ∧ (watched → (∀ fate ∈ c.fates, fate ≠ .lost) →
      s'.daemon.Watches (dataPath packageName) c.url) := by
  obtain ⟨hclient,hsent⟩ := h
  rw [UninstallMonitor.requests_setHttpRequestOnUninstall,hs.started] at hsent
  generalize hfates : c.fates = fates at hsent
  cases hsent with
  | cons head tail =>
    cases tail with
    | nil =>
      obtain ⟨hfollows,hurl⟩ := head.follows_url hw hs.follows
      refine ⟨⟨?_,?_,hfollows⟩,fun hwatched hall => hurl hwatched (hall _ List.mem_cons_self)⟩
      · rw [hclient,UninstallMonitor.mStart_setHttpRequestOnUninstall]
      · rw [hclient,UninstallMonitor.packageName_setHttpRequestOnUninstall,hs.package]

/-- The first call starts the client, whatever becomes of the path. -/
theorem Calls.start (hw : 32 ≤ w) (hd : d.mFileObserver = none)
    (h : Calls w c ⟨.init packageName,d⟩ s') : ∃ watched : Bool, (watched ↔ PathDelivered [c]) ∧
      s'.Synced packageName watched ∧ (watched → (∀ fate ∈ c.fates, fate ≠ .lost) →
        s'.daemon.Watches (dataPath packageName) c.url) := by
  obtain ⟨hclient,hsent⟩ := h
  rw [UninstallMonitor.requests_setHttpRequestOnUninstall] at hsent
  generalize hfates : c.fates = fates at hsent
  cases hsent with
  | @cons _ _ fate _ _ _ _ head tail =>
    cases tail with
    | cons second rest =>
      cases rest with
      | nil =>
        have hnone : Follows (dataPath packageName) false d := hd
        obtain ⟨hfollows,hurl⟩ := second.follows_url hw (head.follows_path hw hnone)
        refine ⟨fate != .lost,?_,⟨?_,?_,hfollows⟩,fun hwatched hall => ?_⟩
        · cases fate <;> simp [PathDelivered, hfates]
        · rw [hclient,UninstallMonitor.mStart_setHttpRequestOnUninstall]
        · rw [hclient,UninstallMonitor.packageName_setHttpRequestOnUninstall]
          rfl
        · exact hurl hwatched (hall _ (by simp))

/-- What the client and the daemon have come to after a call. -/
theorem synced_of_run (hw : 32 ≤ w) (hd : d.mFileObserver = none)
    (h : Run (Calls w) ⟨.init packageName,d⟩ (calls ++ [c]) s) :
    ∃ watched : Bool, (watched ↔ PathDelivered (calls ++ [c])) ∧
      s.Synced packageName watched ∧ (watched → (∀ fate ∈ c.fates, fate ≠ .lost) →
        s.daemon.Watches (dataPath packageName) c.url) := by
  cases calls with
  | nil =>
    obtain ⟨s₁,hfirst,hrest⟩ := run_cons_iff.mp h
    cases hrest
    exact hfirst.start hw hd
  | cons c₀ calls =>
    obtain ⟨s₁,hfirst,hrest⟩ := run_cons_iff.mp h
    obtain ⟨watched,hpath,hs₁,-⟩ := hfirst.start hw hd
    obtain ⟨s₂,hmid,hlast⟩ := run_concat_iff.mp hrest
    have hs₂ : s₂.Synced packageName watched :=
      hmid.invariant hs₁ fun _ _ _ hs hst => (hst.synced hw hs).1
    exact ⟨watched,hpath,hlast.synced hw hs₂⟩

/-- After a call all of whose messages are handled, the daemon watches the path with the URL of
that call if and only if the path came through at the first attempt. -/
theorem watches_iff_pathDelivered (hw : 32 ≤ w) (hd : d.mFileObserver = none)
    (h : Run (Calls w) ⟨.init packageName,d⟩ (calls ++ [c]) s)
    (hall : ∀ fate ∈ c.fates, fate ≠ .lost) :
    s.daemon.Watches (dataPath packageName) c.url ↔ PathDelivered (calls ++ [c]) := by
  obtain ⟨watched,hpath,hs,hurl⟩ := synced_of_run hw hd h
  refine ⟨fun hwatches => ?_,fun hdelivered => ?_⟩
  · exact hpath.mp (hs.follows.watched_of_watches hwatches)
  · exact hurl (hpath.mpr hdelivered) hall

/-- A message that fits the buffer can meet either fate. -/
theorem exists_sendRequest {req : Request} {buf : List Byte} (hw : 32 ≤ w)
    (hreq : req.bytes = .ok buf) (hfit : buf.length ≤ kBufferSize) (live : d.PointerOk)
    (fate : Fate) : ∃ d', SendRequest w req d fate d' ∧ d'.PointerOk := by
  cases fate with
  | lost => exact ⟨d,.lost,live⟩
  | delivered created =>
    have hlen : buf.length < 2^31 := hfit.trans_lt (by decide)
    have hends : Exec.Ends (fun n => handle w n created 5 buf) d
        (.returned 0 (d.act created buf req.message)) :=
      handle_carries (by decide) (Request.bytes_ne_nil hreq) (Request.carries hw hreq hlen) live
    exact ⟨_,.delivered (by decide) hreq hfit hends,pointerOk_act live _⟩

/-- Two calls; the path of the first may get lost. -/
def twoCalls (first : Fate) : List Call :=
  [⟨ascii "a",[first,.delivered true]⟩] ++ [⟨ascii "b",[.delivered true]⟩]

theorem exists_run_twoCalls (first : Fate) :
    ∃ s, Run (Calls 32) ⟨.init (ascii "p"),Daemon.init⟩ (twoCalls first) s := by
  have hlive : Daemon.init.PointerOk := pointerOk_of_none rfl
  obtain ⟨d₁,h₁,hlive₁⟩ := exists_sendRequest (w := 32) (by decide)
    (show (Request.startWatching (dataPath (ascii "p"))).bytes = .ok _ from rfl) (by decide)
    hlive first
  obtain ⟨d₂,h₂,hlive₂⟩ := exists_sendRequest (w := 32) (by decide)
    (show (Request.setOnDeleteRequestInfo (ascii "a")).bytes = .ok _ from rfl) (by decide)
    hlive₁ (.delivered true)
  obtain ⟨d₃,h₃,-⟩ := exists_sendRequest (w := 32) (by decide)
    (show (Request.setOnDeleteRequestInfo (ascii "b")).bytes = .ok _ from rfl) (by decide)
    hlive₂ (.delivered true)
  let started := ((UninstallMonitor.init (ascii "p")).setHttpRequestOnUninstall (some (ascii "a"))).2
  have hcall₁ : Calls 32 ⟨ascii "a",[first,.delivered true]⟩
      ⟨.init (ascii "p"),Daemon.init⟩ ⟨started,d₂⟩ := ⟨rfl,.cons h₁ (.cons h₂ .nil)⟩
  have hcall₂ : Calls 32 ⟨ascii "b",[.delivered true]⟩ ⟨started,d₂⟩
      ⟨(started.setHttpRequestOnUninstall (some (ascii "b"))).2,d₃⟩ := ⟨rfl,.cons h₃ .nil⟩
  exact ⟨_,.cons hcall₁ (.cons hcall₂ .nil)⟩

theorem watches_twoCalls : ∃ s,
    Run (Calls 32) ⟨.init (ascii "p"),Daemon.init⟩ (twoCalls (.delivered true)) s ∧
      (s.daemon.Watches (dataPath (ascii "p")) (ascii "b") ↔
        PathDelivered (twoCalls (.delivered true))) := by
  obtain ⟨s,h⟩ := exists_run_twoCalls (.delivered true)
  exact ⟨s,h,watches_iff_pathDelivered (by decide) rfl h (by simp)⟩

/-- A path that got lost at the first call is never sent again. -/
theorem not_watches_after_lost : ¬ ∀ packageName calls (c : Call) s,
    Run (Calls 32) ⟨.init packageName,Daemon.init⟩ (calls ++ [c]) s →
      (∀ fate ∈ c.fates, fate ≠ .lost) → s.daemon.Watches (dataPath packageName) c.url := by
  intro h
  obtain ⟨s,hrun⟩ := exists_run_twoCalls .lost
  have hwatches := h (ascii "p") _ _ s hrun (by simp)
  obtain ⟨watched,hpath,hs,-⟩ := synced_of_run (by decide) rfl hrun
  obtain ⟨created,hhead⟩ := hpath.mp (hs.follows.watched_of_watches hwatches)
  cases hhead

end Runs

end UninstallObserver.Client
