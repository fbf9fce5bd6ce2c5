import UninstallObserver.Client.UninstallReportService

/-! The applications that hand their URLs to the service and tell it to stop. -/
namespace UninstallObserver.Client
open ByteOrder DelayQueue Transition UninstallReportService

/-- The static member of `UninstallObserver` in one process, and the connections it asked for. -/
structure Statics where
  sUrl : Option (List Byte)
  connections : ℕ
  deriving DecidableEq, Repr

namespace Statics

def init : Statics := ⟨none,0⟩

/-- `bindAidlService`, with a `ServiceConnection` of its own for each call. -/
def bindAidlService (o : Statics) : Statics :=
  { o with connections := o.connections+1 }

/-- `context` tells whether there is one. -/
def setHttpRequestOnUninstall (context : Bool) (url : Option (List Byte)) (o : Statics) :
    ℤ × Statics :=
  if context = false ∨ url = none then (-1,o)
  else (0,bindAidlService { o with sUrl := url })

end Statics

/-- Where `onServiceConnected` is; `bundle` holds the URL that it read. -/
inductive Connection where
  | idle
  /-- Before `sendRequest` with `SetReportUrl`. -/
  | sending (bundle : List Byte)
  /-- Before `sendRequest` with `Stop`. -/
  | stopping (bundle : List Byte)
  deriving DecidableEq, Repr

/-- One process of an application. -/
structure App where
  statics : Statics
  connection : Connection
  deriving DecidableEq, Repr

namespace App

def init : App := ⟨.init,.idle⟩

def setHttpRequestOnUninstall (context : Bool) (url : Option (List Byte)) (a : App) : App :=
  { a with statics := (a.statics.setHttpRequestOnUninstall context url).2 }

/-- `service` tells whether `asInterface` returns one. -/
def onServiceConnected (service : Bool) (a : App) : App :=
  { a with connection :=
      if service then a.statics.sUrl.elim .idle .sending else .idle }

/-- The request that is to be made next. -/
def request (a : App) : Option (RequestType × Option Bundle) :=
  match a.connection with
  | .idle => none
  | .sending bundle => some (.setReportUrl,some (some bundle))
  | .stopping _ => some (.stop,none)

/-- Past a request, or past both when it throws a `RemoteException`. -/
def next (goesThrough : Bool) (a : App) : App :=
  { a with connection :=
      match a.connection, goesThrough with
      | .sending bundle, true => .stopping bundle
      | _, _ => .idle }

end App

/-- The applications and the service they share. -/
structure System where
  apps : List App
  service : UninstallReportService

/-- What an application does, or what happens to the service otherwise, calls of other clients
included. -/
inductive Doing where
  | set (app : ℕ) (context : Bool) (url : Option (List Byte))
  | connected (app : ℕ) (service : Bool)
  | request (app time : ℕ) (goesThrough : Bool)
  | service (l : Label)
  deriving DecidableEq, Repr

namespace System

def start (processes : ℕ) (packageName : List Byte) : System :=
  ⟨List.replicate processes .init,onCreate true packageName⟩

def step (x : Doing) (s : System) : Option System :=
  match x with
  | .set i context url => s.apps[i]?.map fun a =>
    { s with apps := s.apps.set i (a.setHttpRequestOnUninstall context url) }
  | .connected i service => s.apps[i]?.bind fun a =>
    if a.connection = .idle ∧ 0 < a.statics.connections then
      some { s with apps := s.apps.set i (a.onServiceConnected service) }
    else none
  | .request i t goesThrough => s.apps[i]?.bind fun a => a.request.bind fun req =>
    if goesThrough then
      (s.service.step (t,.sendRequest req.1 req.2)).map fun v =>
        ⟨s.apps.set i (a.next true),v⟩
    else some { s with apps := s.apps.set i (a.next false) }
  | .service l => (s.service.step l).map fun v => { s with service := v }

end System

def Does (x : Doing) (s s' : System) : Prop := s.step x = some s'

namespace UninstallReportService

/-- The requests to stop among some messages. -/
def stops (msgs : List Message) : List Message := msgs.filter (·.what == .msgStop)

end UninstallReportService

section Service
variable {s s' : UninstallReportService} {l : Label} {ls : List Label} {msg : Message}

/-- How far ahead the messages are sent: stops further than URLs. -/
structure Ahead (s : UninstallReportService) : Prop where
  order : InOrder Message.due (stops s.mHandler.sent)
  stop : ∀ msg ∈ stops s.mHandler.sent, msg.due ≤ s.clock + 5000
  url : ∀ msg ∈ withUrl s.mHandler.sent, msg.due ≤ s.clock + 2000

theorem Ahead.at (h : Ahead s) {t : ℕ} (ht : s.clock ≤ t) :
    Ahead ({ s with clock := t } : UninstallReportService) :=
  ⟨h.order,fun msg hm => (h.stop msg hm).trans (Nat.add_le_add_right ht _),
    fun msg hm => (h.url msg hm).trans (Nat.add_le_add_right ht _)⟩

theorem Ahead.send_url (h : Ahead s) {obj : Option (List Byte)} {d : ℕ} (hd : d ≤ 2000) :
    Ahead (s.sendMessage .msgSetUninstallUrl obj d) := by
  refine ⟨?_,?_,fun msg hm => ?_⟩
  · simpa [sendMessage, Handler.send, stops] using h.order
  · simpa [sendMessage, Handler.send, stops] using h.stop
  · simp only [sendMessage, Handler.send, withUrl, List.filter_append, List.mem_append] at hm
    rcases hm with hm | hm
    · exact h.url msg hm
    · have hmsg := List.mem_singleton.mp (List.mem_of_mem_filter hm)
      rw [hmsg]
      exact Nat.add_le_add_left hd _

theorem Ahead.send_stop (h : Ahead s) : Ahead (s.sendMessage .msgStop none 5000) := by
  have hstops : stops (s.sendMessage .msgStop none 5000).mHandler.sent =
      stops s.mHandler.sent ++ [⟨.msgStop,none,s.clock+5000⟩] := by
    simp [sendMessage, Handler.send, stops]
  refine ⟨?_,fun msg hm => ?_,?_⟩
  · rw [hstops]
    refine List.pairwise_append.mpr ⟨h.order,List.pairwise_singleton _ _,fun a ha b hb => ?_⟩
    rw [List.mem_singleton.mp hb]
    exact h.stop a ha
  · rw [hstops] at hm
    rcases List.mem_append.mp hm with hm | hm
    · exact h.stop msg hm
    · rw [List.mem_singleton.mp hm]
      exact Nat.le_refl _
  · simpa [sendMessage, Handler.send, withUrl, Message.url?] using h.url

theorem delay_le (initSuccess : Bool) : delay initSuccess ≤ 2000 := by
  cases initSuccess <;> decide

theorem Happens.ahead (h : Happens s l s') (hs : Ahead s) : Ahead s' := by
  cases h with
  | @sends t type data later =>
    have hat := hs.at later
    cases type with
    | setReportUrl =>
      cases data with
      | none => exact hat
      | some url => exact hat.send_url (delay_le _)
    | stop => exact hat.send_stop
  | runs later => exact ⟨hs.order,(hs.at later).stop,(hs.at later).url⟩
  | @handles t msg h later first =>
    obtain ⟨q,-,-,rfl⟩ := Handler.dispatch_eq_some_iff.mp first
    obtain ⟨m,reqs,stopped,heq⟩ := handleMessage_frame msg { s with
      clock := t, mHandler := ⟨s.mHandler.sent,q,s.mHandler.delivered ++ [msg]⟩ }
    rw [heq]
    exact ⟨hs.order,(hs.at later).stop,(hs.at later).url⟩

/-- What was sent stays sent, and time does not run backwards. -/
theorem Happens.sent_append (h : Happens s l s') :
    s.clock ≤ s'.clock ∧ ∃ more, s'.mHandler.sent = s.mHandler.sent ++ more := by
  cases h with
  | @sends t type data later =>
    refine ⟨?_,?_⟩
    · obtain ⟨h,heq⟩ : ∃ h, (sendRequest type data { s with clock := t }).2 =
          { s with clock := t, mHandler := h } := sendRequest_frame
      rw [heq]
      exact later
    · cases type with
      | setReportUrl =>
        cases data with
        | none => exact ⟨[],(List.append_nil _).symm⟩
        | some url => exact ⟨_,rfl⟩
      | stop => exact ⟨_,rfl⟩
  | runs later => exact ⟨later,[],(List.append_nil _).symm⟩
  | @handles t msg h later first =>
    obtain ⟨q,-,-,rfl⟩ := Handler.dispatch_eq_some_iff.mp first
    obtain ⟨m,reqs,stopped,heq⟩ := handleMessage_frame msg { s with
      clock := t, mHandler := ⟨s.mHandler.sent,q,s.mHandler.delivered ++ [msg]⟩ }
    rw [heq]
    exact ⟨later,[],(List.append_nil _).symm⟩

/-- A service whose library was loaded. -/
structure Works (s : UninstallReportService) : Prop extends s.Ok, Ahead s

theorem Happens.works (h : Happens s l s') (hs : Works s) : Works s' :=
  ⟨h.ok hs.toOk,h.ahead hs.toAhead⟩

end Service

section Runs
variable {s s' : System} {x : Doing} {xs : List Doing} {a : App} {i t : ℕ} {url : List Byte}
  {processes : ℕ} {packageName : List Byte}

/-- What a step can do. -/
inductive Effect (s : System) : Doing → System → Prop
  | sets {i : ℕ} {context : Bool} {url : Option (List Byte)} {a : App} (app : s.apps[i]? = some a) :
      Effect s (.set i context url)
        { s with apps := s.apps.set i (a.setHttpRequestOnUninstall context url) }
  | connects {i : ℕ} {service : Bool} {a : App} (app : s.apps[i]? = some a)
      (idle : a.connection = .idle) (asked : 0 < a.statics.connections) :
      Effect s (.connected i service) { s with apps := s.apps.set i (a.onServiceConnected service) }
  | requests {i t : ℕ} {a : App} {req : RequestType × Option Bundle} {v : UninstallReportService}
      (app : s.apps[i]? = some a) (next : a.request = some req)
      (taken : Happens s.service (t,.sendRequest req.1 req.2) v) :
      Effect s (.request i t true) ⟨s.apps.set i (a.next true),v⟩
  | fails {i t : ℕ} {a : App} (app : s.apps[i]? = some a) :
      Effect s (.request i t false) { s with apps := s.apps.set i (a.next false) }
  | serves {l : Label} {v : UninstallReportService} (taken : Happens s.service l v) :
      Effect s (.service l) { s with service := v }

theorem Effect.of_does (h : Does x s s') : Effect s x s' := by
  unfold Does System.step at h
  split at h
  · obtain ⟨a,ha,rfl⟩ := Option.map_eq_some_iff.mp h
    exact .sets ha
  · obtain ⟨a,ha,h⟩ := Option.bind_eq_some_iff.mp h
    obtain ⟨hc,h⟩ := Option.ite_none_right_eq_some.mp h
    cases h
    exact .connects ha hc.1 hc.2
  · obtain ⟨a,ha,h⟩ := Option.bind_eq_some_iff.mp h
    obtain ⟨req,hreq,h⟩ := Option.bind_eq_some_iff.mp h
    split at h
    · next hthrough =>
      obtain ⟨v,hv,rfl⟩ := Option.map_eq_some_iff.mp h
      rw [hthrough]
      exact .requests ha hreq (.of_step hv)
    · next hfails =>
      cases h
      rw [Bool.eq_false_of_not_eq_true hfails]
      exact .fails ha
  · obtain ⟨v,hv,rfl⟩ := Option.map_eq_some_iff.mp h
    exact .serves (.of_step hv)

/-- The service works, and who is about to ask it to stop has sent its URL. -/
structure System.Ok (s : System) : Prop where
  works : Works s.service
  told : ∀ a ∈ s.apps, ∀ url, a.connection = .stopping url → url ∈ urls s.service.mHandler.sent

/-- An application that is changed, and a service that has not forgotten anything. -/
theorem System.Ok.set {v : UninstallReportService} (hs : s.Ok) (hv : Works v)
    (hsent : ∃ more, v.mHandler.sent = s.service.mHandler.sent ++ more)
    (ha : ∀ url, a.connection = .stopping url → url ∈ urls v.mHandler.sent) :
    (⟨s.apps.set i a,v⟩ : System).Ok := by
  obtain ⟨more,hsent⟩ := hsent
  refine ⟨hv,fun b hb url hurl => ?_⟩
  rcases List.mem_or_eq_of_mem_set hb with hb | rfl
  · have hold := hs.told b hb url hurl
    change url ∈ urls v.mHandler.sent
    rw [hsent,urls,List.filterMap_append]
    exact List.mem_append_left _ hold
  · exact ha url hurl

theorem System.Ok.same (hs : s.Ok) (ha : ∀ url, a.connection = .stopping url →
    url ∈ urls s.service.mHandler.sent) : ({ s with apps := s.apps.set i a } : System).Ok :=
  hs.set hs.works ⟨[],(List.append_nil _).symm⟩ ha

theorem Effect.ok (h : Effect s x s') (hs : s.Ok) : s'.Ok := by
  cases h with
  | @sets i context url a app => exact hs.same fun u hu => hs.told a (List.mem_of_getElem? app) u hu
  | @connects i service a app idle asked =>
    refine hs.same fun u hu => ?_
    cases service with
    | false => cases hu
    | true =>
      simp only [App.onServiceConnected] at hu
      cases hurl : a.statics.sUrl <;> simp [hurl] at hu
  | @requests i t a req v app next taken =>
    refine hs.set (taken.works hs.works) taken.sent_append.2 fun u hu => ?_
    cases hc : a.connection with
    | sending bundle =>
      simp only [App.next, hc, Connection.stopping.injEq] at hu
      simp only [App.request, hc, Option.some.injEq] at next
      subst next hu
      rw [taken.sent.1]
      exact List.mem_append_right _ List.mem_cons_self
    | idle => simp [App.next, hc] at hu
    | stopping bundle => simp [App.next, hc] at hu
  | @fails i t a app =>
    refine hs.same fun u hu => ?_
    simp only [App.next] at hu
    split at hu <;> simp_all
  | serves taken =>
    obtain ⟨more,hsent⟩ := taken.sent_append.2
    refine ⟨taken.works hs.works,fun a ha url hurl => ?_⟩
    rw [hsent,urls,List.filterMap_append]
    exact List.mem_append_left _ (hs.told a ha url hurl)

end Runs
end UninstallObserver.Client
