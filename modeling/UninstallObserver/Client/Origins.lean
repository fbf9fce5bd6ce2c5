import UninstallObserver.Client.Apps
import UninstallObserver.Observer.CutMessages
import UninstallObserver.Observer.DaemonJobs

/-! The clients and the daemon together, and where the paths and the URLs of the daemon are from. -/
namespace UninstallObserver.Client
open ByteOrder Jce Observer Transition UninstallReportService

/-- The probe of `IsServerAlive`. -/
def helloMsg : ControlMsg := ⟨eCtrlHello,[0x30],[]⟩

/-- What the clients write to their connections. -/
inductive Sent (c : System) : List Byte → Prop
  | request {req : Request} {buf : List Byte} (asked : req ∈ c.service.requests)
      (encoded : req.bytes = .ok buf) : Sent c buf
  | hello {buf : List Byte} (encoded : helloMsg.writeTo = .ok buf) : Sent c buf

/-- A connection brings the first bytes of what a client wrote, in chunks of any size. -/
def Fed (c : System) (l : Observer.Label) : Prop :=
  ∀ commSock created chunks, l = .listen (.accepted commSock created chunks) →
    recv chunks ≠ [] → ∃ buf, Sent c buf ∧ chunks.flatten <+: buf

/-- The clients of the daemon, and the daemon. -/
structure Whole where
  client : System
  daemon : Daemon

/-- Who takes a step, and what the daemon shows of it. -/
inductive Part where
  | client (x : Doing)
  | daemon (l : Observer.Label) (vs : List Visible)
  deriving DecidableEq, Repr

/-- The URLs that a step hands to the service, for an application that is connected to it or for
another client. -/
def System.submits (c : System) : Doing → List (List Byte)
  | .request i t true => submitted
      ((c.apps[i]?.bind App.request).toList.map fun req => (t,.sendRequest req.1 req.2))
  | .service l => submitted [l]
  | _ => []

/-- The URLs that came to the service up to now. -/
def System.urls (c : System) : List (List Byte) :=
  UninstallReportService.urls c.service.mHandler.sent

namespace Whole

def start (processes : ℕ) (packageName : List Byte) : Whole :=
  ⟨.start processes packageName,.init⟩

/-- A step of the clients, or of the daemon with what it is sent by them. -/
inductive Goes (w : ℕ) : Part → Whole → Whole → Prop
  | client {x : Doing} {c c' : System} {d : Daemon} (does : Does x c c') :
      Goes w (.client x) ⟨c,d⟩ ⟨c',d⟩
  | daemon {l : Observer.Label} {vs : List Visible} {c : System} {d d' : Daemon} (fed : Fed c l)
      (shown : Shown w (l,vs) d d') : Goes w (.daemon l vs) ⟨c,d⟩ ⟨c,d'⟩

end Whole

section Clients
variable {s s' : UninstallReportService} {l : UninstallReportService.Label} {c c' : System} {x : Doing}
  {packageName url : List Byte}

/-- The service asks for the path of the package alone. -/
theorem Happens.asks (h : Happens s l s') :
    s'.mMonitor.packageName = s.mMonitor.packageName ∧
      ∀ path, .startWatching path ∈ s'.requests →
        .startWatching path ∈ s.requests ∨ path = dataPath s.mMonitor.packageName := by
  cases h with
  | sends later =>
    obtain ⟨h,heq⟩ := sendRequest_frame
    rw [heq]
    exact ⟨rfl,fun _ hpath => .inl hpath⟩
  | runs => exact ⟨rfl,fun _ hpath => .inl hpath⟩
  | @handles t msg h later first =>
    unfold handleMessage
    dsimp only
    split
    · split
      · split
        · refine ⟨UninstallMonitor.packageName_setHttpRequestOnUninstall,fun path hpath => ?_⟩
          rw [UninstallMonitor.requests_setHttpRequestOnUninstall,List.mem_append] at hpath
          refine hpath.imp id fun hpath => ?_
          split at hpath
          · simp at hpath
          · simpa using hpath
        · exact ⟨rfl,fun _ hpath => .inl hpath⟩
      · exact ⟨rfl,fun _ hpath => .inl hpath⟩
    · exact ⟨rfl,fun _ hpath => .inl hpath⟩

/-- The URLs that the service asks for were sent to it. -/
theorem UninstallReportService.Ok.url_sent (hs : s.Ok)
    (hurl : .setOnDeleteRequestInfo url ∈ s.requests) : url ∈ urls s.mHandler.sent := by
  have hdelivered : url ∈ urls s.mHandler.delivered := by
    rw [← hs.handled]
    exact List.mem_filterMap.mpr ⟨_,hurl,rfl⟩
  obtain ⟨msg,hmsg,hmsgurl⟩ := List.mem_filterMap.mp hdelivered
  have hperm : (s.mHandler.delivered ++ s.mHandler.pending).Perm s.mHandler.sent := by
    rw [hs.handler.order]
    exact DelayQueue.arrange_perm
  exact List.mem_filterMap.mpr ⟨msg,hperm.subset (List.mem_append_left _ hmsg),hmsgurl⟩

/-- The clients ask for the path of the package alone. -/
structure System.Asks (packageName : List Byte) (c : System) : Prop where
  ok : c.service.Ok
  package : c.service.mMonitor.packageName = packageName
  paths : ∀ path, .startWatching path ∈ c.service.requests → path = dataPath packageName

namespace System.Asks

/-- Something happens to the service. -/
theorem happens {v : UninstallReportService} {apps : List App} (h : c.Asks packageName)
    (hv : Happens c.service l v) : System.Asks packageName ⟨apps,v⟩ where
  ok := hv.ok h.ok
  package := hv.asks.1.trans h.package
  paths := by
    intro path hpath
    rcases hv.asks.2 path hpath with hpath | rfl
    · exact h.paths path hpath
    · rw [h.package]

theorem effect (h : c.Asks packageName) (hx : Effect c x c') : c'.Asks packageName := by
  cases hx with
  | sets => exact ⟨h.ok,h.package,h.paths⟩
  | connects => exact ⟨h.ok,h.package,h.paths⟩
  | requests _ _ taken => exact h.happens taken
  | fails => exact ⟨h.ok,h.package,h.paths⟩
  | serves taken => exact h.happens taken

end System.Asks

/-- A URL comes to the service by a step that hands it over. -/
theorem Effect.urls (hx : Effect c x c') : c'.urls = c.urls ++ c.submits x := by
  cases hx with
  | sets => exact (List.append_nil _).symm
  | connects => exact (List.append_nil _).symm
  | @requests i t a req v app next taken =>
    rw [System.submits,app,Option.bind_some,next]
    exact taken.sent.1
  | fails => exact (List.append_nil _).symm
  | serves taken => exact taken.sent.1

end Clients

section Daemons
variable {w : ℕ} {c : System} {l : Observer.Label} {d d' : Daemon} {m : ControlMsg}
  {P U : List Byte → Prop} {packageName url : List Byte} {ok : Bool}

/-- The observers have such paths and such URLs. -/
def HasOnly (P U : List Byte → Prop) (d : Daemon) : Prop :=
  ∀ p o, d.object p = some o → P o.mPath ∧ U o.mUrl

/-- A message brings such a path, or such a URL. -/
structure Brings (w : ℕ) (P U : List Byte → Prop) (m : ControlMsg) : Prop where
  path : ∀ path, m.eCtrlType = eCtrlFilePath → DecodesString w m.vbData path → P path
  url : ∀ url, m.eCtrlType = eCtrlReqOnDel → DecodesString w m.vbData url → U url

theorem HasOnly.modifyCurrent {f : FileDeleteObserver → FileDeleteObserver} (h : HasOnly P U d)
    (hf : ∀ o, P o.mPath ∧ U o.mUrl → P (f o).mPath ∧ U (f o).mUrl) :
    HasOnly P U (d.modifyCurrent f) := by
  intro p o ho
  rw [object_modifyCurrent] at ho
  split at ho
  · obtain ⟨o',ho',rfl⟩ := Option.map_eq_some_iff.mp ho
    exact hf o' (h p o' ho')
  · exact h p o ho

theorem HasOnly.install {created : Bool} {path : List Byte} (h : HasOnly P U d) (hpath : P path)
    (hempty : U []) : HasOnly P U (d.install created path) := by
  intro p o ho
  by_cases hp : p = d.heap.length
  · subst hp
    have hnew : (d.install created path).object d.heap.length =
        some ((FileDeleteObserver.init path).startWatching created) := by
      simp [Daemon.object, Daemon.install, Slot.new]
    rw [hnew] at ho
    cases ho
    exact ⟨hpath,hempty⟩
  · rw [Daemon.object,slot_install hp] at ho
    exact h p o ho

theorem HasOnly.serves {created : Bool} {buf : List Byte} (h : HasOnly P U d) (hempty : U [])
    (hm : Brings w P U m) (hserves : Serves w created buf m d d') : HasOnly P U d' := by
  cases hserves with
  | hello => exact h
  | filePath type payload =>
    have hstopped : HasOnly P U (d.modifyCurrent FileDeleteObserver.stopWatching) :=
      h.modifyCurrent fun _ ho => ho
    exact hstopped.install (hm.path _ type payload) hempty
  | reqOnDel type _ payload => exact h.modifyCurrent fun o ho => ⟨ho.1,hm.url _ type payload⟩
  | ignored => exact h
  | other => exact h

/-- Nothing but a message changes the paths and the URLs of the observers. -/
theorem HasOnly.moves (h : HasOnly P U d) (hempty : U [])
    (hm : ∀ m, Handles w m l → Brings w P U m) (hmoves : Moves w d l d') : HasOnly P U d' := by
  cases hmoves with
  | listens => exact h
  | serves handles served =>
    have hserved := h.serves hempty (hm _ handles) served
    exact fun p o ho => hserved p o ho
  | watches slot stepped => exact fun q o ho => h q o (object_of_put slot stepped ho)
  | waits => exact h
  | leaves => exact h
  | exits => exact h

theorem recv_isPrefix_flatten (chunks : List (List Byte)) : recv chunks <+: chunks.flatten := by
  cases chunks with
  | nil => exact List.prefix_rfl
  | cons c cs => exact (List.take_prefix _ _).trans (List.prefix_append c cs.flatten)

/-- What the clients send brings the path of the package and the URLs that came to the service, or
nothing. -/
theorem Fed.brings (hw : 32 ≤ w) (hfed : Fed c l) (hc : c.Asks packageName)
    (hm : Handles w m l) : Brings w (fun path => path = [] ∨ path = dataPath packageName)
      (fun url => url = [] ∨ url ∈ c.urls) m := by
  obtain ⟨commSock,created,chunks,rfl,-,hne,hdec⟩ := hm
  obtain ⟨buf,hsent,hflat⟩ := hfed commSock created chunks rfl hne
  have hpre : recv chunks <+: buf := (recv_isPrefix_flatten chunks).trans hflat
  cases hsent with
  | request asked encoded =>
    obtain ⟨hpath,hurl⟩ := Request.of_prefix hw encoded hpre hdec
    refine ⟨fun path type payload => ?_,fun url type payload => ?_⟩
    · refine (hpath path type payload).imp id fun hreq => ?_
      subst hreq
      exact hc.paths path asked
    · refine (hurl url type payload).imp id fun hreq => ?_
      subst hreq
      exact hc.ok.url_sent asked
  | hello encoded =>
    have hlen : buf.length < 2^31 := by
      cases encoded
      decide
    have hnone : m.vbData = [] := hdec.of_empty hw encoded rfl hlen hpre
    refine ⟨fun path _ payload => .inl ?_,fun url _ payload => .inl ?_⟩
    · rw [hnone] at payload
      exact payload.of_nil hw
    · rw [hnone] at payload
      exact payload.of_nil hw

end Daemons

section Runs
variable {w processes : ℕ} {s s' : Whole} {x : Part} {ls : List Part} {l : Observer.Label}
  {vs : List Visible} {packageName url : List Byte} {success : Bool}

/-- What came to the service is all there is on both sides. -/
structure Whole.Ok (packageName : List Byte) (s : Whole) : Prop where
  client : s.client.Asks packageName
  daemon : HasOnly (fun path => path = [] ∨ path = dataPath packageName)
    (fun url => url = [] ∨ url ∈ s.client.urls) s.daemon

theorem Whole.Goes.ok (hw : 32 ≤ w) (h : Whole.Goes w x s s') (hs : s.Ok packageName) :
    s'.Ok packageName := by
  cases h with
  | client does =>
    have heffect := Effect.of_does does
    refine ⟨hs.client.effect heffect,fun p o ho => ?_⟩
    obtain ⟨hpath,hurl⟩ := hs.daemon p o ho
    refine ⟨hpath,hurl.imp id fun hurl => ?_⟩
    rw [heffect.urls]
    exact List.mem_append_left _ hurl
  | daemon fed shown =>
    exact ⟨hs.client,hs.daemon.moves (.inl rfl) (fun _ hm => fed.brings hw hs.client hm)
      shown.1.moves⟩

end Runs

end UninstallObserver.Client
