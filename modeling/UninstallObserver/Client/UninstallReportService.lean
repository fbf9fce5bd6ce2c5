import UninstallObserver.Client.UninstallMonitor
import UninstallObserver.Lib.DelayQueue
import UninstallObserver.Lib.Runs
import UninstallObserver.Observer.MessageSequences

/-! The service that takes the URLs from its clients and hands them on one by one. -/
namespace UninstallObserver.Client
open ByteOrder Observer DelayQueue Transition

inductive RequestType where
  | setReportUrl | stop
  deriving DecidableEq, Repr

inductive SelfMessage where
  | msgSetUninstallUrl | msgStop
  deriving DecidableEq, Repr

/-- A message of the service to itself, due at a time in milliseconds. -/
structure Message where
  what : SelfMessage
  obj : Option (List Byte)
  due : ℕ
  deriving DecidableEq, Repr

/-- The URL that `handleMessage` takes from a message. -/
def Message.url? (msg : Message) : Option (List Byte) :=
  match msg.what with
  | .msgSetUninstallUrl => msg.obj
  | .msgStop => none

/-- A bundle with an entry for "url" or without. -/
abbrev Bundle := Option (List Byte)

/-- `timer` until the task that tells the end of the initialisation has run, `requests` for
what the monitor asked of the daemon, `stopped` after `stopSelf`. -/
structure UninstallReportService where
  mMonitor : UninstallMonitor
  mInitSuccess : Bool
  mLoadSuccess : Bool
  mHandler : Handler Message
  timer : Bool
  requests : List Request
  stopped : Bool
  clock : ℕ

namespace UninstallReportService

/-- `loadLibrary` with its timer, the monitor and the handler; the clock starts here. -/
def onCreate (loaded : Bool) (packageName : List Byte) : UninstallReportService :=
  ⟨.init packageName,false,loaded,.init,true,[],false,0⟩

/-- How long the message of a URL is put off. -/
def delay (initSuccess : Bool) : ℕ := if initSuccess then 0 else 2000

/-- `sendMessageDelayed`. -/
def sendMessage (what : SelfMessage) (obj : Option (List Byte)) (delay : ℕ)
    (s : UninstallReportService) : UninstallReportService :=
  { s with mHandler := s.mHandler.send Message.due ⟨what,obj,s.clock+delay⟩ }

/-- `sendRequest`, whose result is the same for every request. -/
def sendRequest (type : RequestType) (data : Option Bundle) (s : UninstallReportService) :
    ℤ × UninstallReportService :=
  (-1,match type with
    | .setReportUrl =>
      match data with
      | some url => s.sendMessage .msgSetUninstallUrl url (delay s.mInitSuccess)
      | none => s
    | .stop => s.sendMessage .msgStop none 5000)

def handleMessage (msg : Message) (s : UninstallReportService) : Bool × UninstallReportService :=
  (true,match msg.what with
    | .msgSetUninstallUrl =>
      if s.mLoadSuccess then
        match msg.obj with
        | some url =>
          let called := s.mMonitor.setHttpRequestOnUninstall (some url)
          { s with mMonitor := called.2, requests := s.requests ++ called.1 }
        | none => s
      else s
    | .msgStop => { s with stopped := true })

/-- The task of the timer. -/
def run (s : UninstallReportService) : UninstallReportService :=
  { s with mInitSuccess := s.mLoadSuccess, timer := false }

/-- What happens to the service. -/
inductive Happening where
  | sendRequest (type : RequestType) (data : Option Bundle)
  | timer
  | dispatch
  deriving DecidableEq, Repr

/-- It happens at a time. -/
abbrev Label := ℕ × Happening

/-- Time does not run backwards, and the timer goes off once, not before its time. -/
def step (l : Label) (s : UninstallReportService) : Option UninstallReportService :=
  if l.1 < s.clock then none
  else match l.2 with
    | .sendRequest type data => some (sendRequest type data { s with clock := l.1 }).2
    | .timer => if s.timer ∧ 2000 ≤ l.1 then some (run { s with clock := l.1 }) else none
    | .dispatch =>
      (s.mHandler.dispatch Message.due l.1).map fun d =>
        (handleMessage d.1 { s with clock := l.1, mHandler := d.2 }).2

def Step (l : Label) (s s' : UninstallReportService) : Prop := s.step l = some s'

/-- The messages with a URL among those of a list. -/
def withUrl (msgs : List Message) : List Message := msgs.filter (·.url?.isSome)

def urls (msgs : List Message) : List (List Byte) := msgs.filterMap Message.url?

/-- The URL that the monitor registered last. -/
def registered (s : UninstallReportService) : Option (List Byte) :=
  (s.requests.filterMap (·.message.url?)).getLast?

end UninstallReportService

open UninstallReportService

variable {s s' : UninstallReportService} {l : Label} {ls : List Label} {msg : Message}
  {packageName : List Byte}

/-- What a step can do. -/
inductive Happens (s : UninstallReportService) : Label → UninstallReportService → Prop
  | sends {t : ℕ} {type : RequestType} {data : Option Bundle} (later : s.clock ≤ t) :
      Happens s (t,.sendRequest type data) (sendRequest type data { s with clock := t }).2
  | runs {t : ℕ} (later : s.clock ≤ t) (pending : s.timer) (due : 2000 ≤ t) :
      Happens s (t,.timer) (run { s with clock := t })
  | handles {t : ℕ} {msg : Message} {h : Handler Message} (later : s.clock ≤ t)
      (first : s.mHandler.dispatch Message.due t = some (msg,h)) :
      Happens s (t,.dispatch) (handleMessage msg { s with clock := t, mHandler := h }).2

theorem Happens.of_step (h : Step l s s') : Happens s l s' := by
  obtain ⟨t,a⟩ := l
  unfold Step step at h
  split at h
  · cases h
  next hlater =>
  have hlater := not_lt.mp hlater
  cases a with
  | sendRequest type data =>
    cases h
    exact .sends hlater
  | timer =>
    obtain ⟨hdue,h⟩ := Option.ite_none_right_eq_some.mp h
    cases h
    exact .runs hlater hdue.1 hdue.2
  | dispatch =>
    obtain ⟨d,hd,rfl⟩ := Option.map_eq_some_iff.mp h
    exact .handles hlater hd

section Handled

/-- Nothing but the monitor, its requests and the mark of `stopSelf` changes. -/
theorem handleMessage_frame (msg : Message) (s : UninstallReportService) :
    ∃ m reqs stopped, (handleMessage msg s).2 =
    { s with mMonitor := m, requests := reqs, stopped := stopped } := by
  unfold handleMessage
  dsimp only
  split
  · split
    · split
      · exact ⟨_,_,_,rfl⟩
      · exact ⟨_,_,_,rfl⟩
    · exact ⟨_,_,_,rfl⟩
  · exact ⟨_,_,_,rfl⟩

theorem requests_handleMessage (msg : Message) (hload : s.mLoadSuccess) :
    (handleMessage msg s).2.requests.filterMap (·.message.url?) =
      s.requests.filterMap (·.message.url?) ++ msg.url?.toList := by
  obtain ⟨what,obj,due⟩ := msg
  cases what with
  | msgSetUninstallUrl =>
    cases obj with
    | some url =>
      simp only [handleMessage, hload, if_true, UninstallMonitor.requests_setHttpRequestOnUninstall]
      split <;> simp [Request.message, Message.url?, Observer.Message.url?]
    | none => simp [handleMessage, hload, Message.url?]
  | msgStop => simp [handleMessage, Message.url?]

end Handled

section Runs

/-- The URLs that the clients submit. -/
def submitted : List Label → List (List Byte)
  | [] => []
  | (_,.sendRequest .setReportUrl (some (some url)))::ls => url::submitted ls
  | _::ls => submitted ls

/-- When, and whether the timer has gone off by then. -/
def submissions : Bool → List Label → List (ℕ × Bool)
  | _, [] => []
  | fired, (t,.sendRequest .setReportUrl (some (some _)))::ls => (t,fired)::submissions fired ls
  | _, (_,.timer)::ls => submissions true ls
  | fired, _::ls => submissions fired ls

/-- No URL that comes before the timer goes off is followed by one that comes after, less
than two seconds later. -/
def InStep (ls : List Label) : Prop :=
  (submissions false ls).Pairwise fun a b => a.2 = false → b.2 = true → a.1 + 2000 ≤ b.1

/-- What is known of a service whose library was loaded. -/
structure UninstallReportService.Ok (s : UninstallReportService) : Prop where
  loaded : s.mLoadSuccess = true
  handler : s.mHandler.Ok Message.due s.clock
  handled : s.requests.filterMap (·.message.url?) = urls s.mHandler.delivered

theorem ok_onCreate : (onCreate true packageName).Ok := ⟨rfl,Handler.ok_init,rfl⟩

theorem ok_sendMessage {what : SelfMessage} {obj : Option (List Byte)} {d : ℕ} (hs : s.Ok) :
    (s.sendMessage what obj d).Ok :=
  ⟨hs.loaded,hs.handler.send (Nat.le_add_right _ _),hs.handled⟩

theorem UninstallReportService.Ok.at (hs : s.Ok) {t : ℕ} (ht : s.clock ≤ t) :
    ({ s with clock := t } : UninstallReportService).Ok :=
  ⟨hs.loaded,hs.handler.mono ht,hs.handled⟩

theorem Happens.ok (h : Happens s l s') (hs : s.Ok) : s'.Ok := by
  cases h with
  | @sends t type data later =>
    unfold sendRequest
    dsimp only
    split
    · split
      · exact ok_sendMessage (hs.at later)
      · exact hs.at later
    · exact ok_sendMessage (hs.at later)
  | runs later => exact ⟨hs.loaded,hs.handler.mono later,hs.handled⟩
  | @handles t msg h later first =>
    have hok := (hs.handler.mono later).dispatch first
    obtain ⟨q,-,-,rfl⟩ := Handler.dispatch_eq_some_iff.mp first
    have hreqs := requests_handleMessage msg (s := { s with
      clock := t, mHandler := ⟨s.mHandler.sent,q,s.mHandler.delivered ++ [msg]⟩ }) hs.loaded
    obtain ⟨m,reqs,stopped,heq⟩ := handleMessage_frame msg { s with
      clock := t, mHandler := ⟨s.mHandler.sent,q,s.mHandler.delivered ++ [msg]⟩ }
    rw [heq] at hreqs ⊢
    refine ⟨hs.loaded,hok,hreqs.trans ?_⟩
    simp only [hs.handled, urls, List.filterMap_append]
    rfl

/-- What a step adds to the URLs that were sent. -/
theorem Happens.sent (h : Happens s l s') :
    urls s'.mHandler.sent = urls s.mHandler.sent ++ submitted [l] ∧
    (withUrl s'.mHandler.sent).map Message.due = (withUrl s.mHandler.sent).map Message.due ++
      (submissions s.mInitSuccess [l]).map fun a => a.1 + delay a.2 := by
  cases h with
  | @sends t type data later =>
    cases type with
    | setReportUrl =>
      cases data with
      | none => simp [sendRequest, submitted, submissions]
      | some url =>
        cases url <;> simp [sendRequest, sendMessage, Handler.send, submitted, submissions, urls,
          withUrl, Message.url?]
    | stop =>
      simp [sendRequest, sendMessage, Handler.send, submitted, submissions, urls, withUrl,
        Message.url?]
  | runs => simp [run, submitted, submissions]
  | @handles t msg h later first =>
    obtain ⟨q,-,-,rfl⟩ := Handler.dispatch_eq_some_iff.mp first
    obtain ⟨m,reqs,stopped,heq⟩ := handleMessage_frame msg { s with
      clock := t, mHandler := ⟨s.mHandler.sent,q,s.mHandler.delivered ++ [msg]⟩ }
    rw [heq]
    simp [submitted, submissions]

theorem sendRequest_frame {type : RequestType} {data : Option Bundle} :
    ∃ h, (sendRequest type data s).2 = { s with mHandler := h } := by
  unfold sendRequest
  dsimp only
  split
  · split
    · exact ⟨_,rfl⟩
    · exact ⟨_,rfl⟩
  · exact ⟨_,rfl⟩

/-- Neither the clock nor the mark of the timer goes back. -/
theorem Happens.forward (h : Happens s l s') (hs : s.Ok) :
    s.clock ≤ s'.clock ∧ (s.mInitSuccess → s'.mInitSuccess) := by
  cases h with
  | sends later =>
    obtain ⟨h,heq⟩ := sendRequest_frame
    rw [heq]
    exact ⟨later,id⟩
  | runs later => exact ⟨later,fun _ => hs.loaded⟩
  | handles later =>
    obtain ⟨m,reqs,stopped,heq⟩ := handleMessage_frame _ _
    rw [heq]
    exact ⟨later,id⟩

theorem Happens.submissions_cons (h : Happens s l s') (hs : s.Ok) (ls : List Label) :
    submissions s.mInitSuccess (l::ls) =
      submissions s.mInitSuccess [l] ++ submissions s'.mInitSuccess ls := by
  cases h with
  | @sends t type data =>
    obtain ⟨h,heq⟩ := sendRequest_frame
    rw [heq]
    cases type with
    | setReportUrl =>
      cases data with
      | none => rfl
      | some url => cases url <;> rfl
    | stop => rfl
  | runs => simp [submissions, run, hs.loaded]
  | handles =>
    obtain ⟨m,reqs,stopped,heq⟩ := handleMessage_frame _ _
    rw [heq]
    rfl

theorem Happens.of_mem_submissions (h : Happens s l s') {a : ℕ × Bool}
    (ha : a ∈ submissions s.mInitSuccess [l]) : a = (s'.clock,s'.mInitSuccess) := by
  cases h with
  | @sends t type data =>
    obtain ⟨h,heq⟩ := sendRequest_frame
    rw [heq]
    cases type with
    | setReportUrl =>
      cases data with
      | none => cases ha
      | some url =>
        cases url with
        | none => cases ha
        | some url => exact List.mem_singleton.mp ha
    | stop => cases ha
  | runs => cases ha
  | handles => cases ha

theorem submitted_cons (l : Label) (ls : List Label) :
    submitted (l::ls) = submitted [l] ++ submitted ls := by
  obtain ⟨t,a⟩ := l
  cases a with
  | sendRequest type data =>
    cases type with
    | setReportUrl =>
      cases data with
      | none => rfl
      | some url => cases url <;> rfl
    | stop => rfl
  | timer => rfl
  | dispatch => rfl

/-- What a run adds to the URLs that were sent, and when they are due. -/
theorem sent_of_run (h : Run Step s ls s') (hs : s.Ok) :
    urls s'.mHandler.sent = urls s.mHandler.sent ++ submitted ls ∧
    (withUrl s'.mHandler.sent).map Message.due = (withUrl s.mHandler.sent).map Message.due ++
      (submissions s.mInitSuccess ls).map fun a => a.1 + delay a.2 := by
  induction h with
  | nil => simp [submitted, submissions]
  | @cons l ls s t u head tail ih =>
    have hst := Happens.of_step head
    obtain ⟨hurls,hdue⟩ := hst.sent
    obtain ⟨hurls',hdue'⟩ := ih (hst.ok hs)
    refine ⟨?_,?_⟩
    · rw [hurls',hurls,submitted_cons l ls,List.append_assoc]
    · rw [hdue',hdue,hst.submissions_cons hs ls,List.map_append,List.append_assoc]

/-- The submissions of a run, in order of time, before the timer and after. -/
theorem submissions_of_run (h : Run Step s ls s') (hs : s.Ok) :
    (∀ a ∈ submissions s.mInitSuccess ls, s.clock ≤ a.1 ∧ (s.mInitSuccess → a.2)) ∧
    (submissions s.mInitSuccess ls).Pairwise fun a b => a.1 ≤ b.1 ∧ (a.2 → b.2) := by
  induction h with
  | nil => simp [submissions]
  | @cons l ls s t u head tail ih =>
    have hst := Happens.of_step head
    obtain ⟨hclock,hinit⟩ := hst.forward hs
    obtain ⟨hlater,hpair⟩ := ih (hst.ok hs)
    rw [hst.submissions_cons hs]
    refine ⟨fun a ha => ?_,List.pairwise_append.mpr ⟨?_,hpair,fun a ha b hb => ?_⟩⟩
    · rcases List.mem_append.mp ha with ha | ha
      · rw [hst.of_mem_submissions ha]
        exact ⟨hclock,hinit⟩
      · exact ⟨hclock.trans (hlater a ha).1,fun hs => (hlater a ha).2 (hinit hs)⟩
    · refine List.Pairwise.imp_of_mem (R := fun _ _ => True) ?_ (List.pairwise_of_forall (by simp))
      intro a b ha hb _
      rw [hst.of_mem_submissions ha,hst.of_mem_submissions hb]
      exact ⟨le_rfl,id⟩
    · rw [hst.of_mem_submissions ha]
      exact hlater b hb

theorem ok_of_run (h : Run Step s ls s') (hs : s.Ok) : s'.Ok :=
  h.invariant hs fun _ _ _ hs hst => (Happens.of_step hst).ok hs

/-- The messages of a run are due in the order of their submission if and only if they are
in step with the timer. -/
theorem inOrder_iff_inStep (h : Run Step (onCreate true packageName) ls s) :
    InOrder Message.due (withUrl s.mHandler.sent) ↔ InStep ls := by
  obtain ⟨-,hdue⟩ := sent_of_run h ok_onCreate
  obtain ⟨-,hpair⟩ := submissions_of_run h ok_onCreate
  have hmap : InOrder Message.due (withUrl s.mHandler.sent) ↔
      ((withUrl s.mHandler.sent).map Message.due).Pairwise (· ≤ ·) := List.pairwise_map.symm
  rw [hmap,hdue]
  change (List.map _ (submissions false ls)).Pairwise (· ≤ ·) ↔ _
  rw [List.pairwise_map]
  refine ⟨fun hle => hle.imp ?_,fun hstep => (hpair.and hstep).imp ?_⟩
  · intro a b hab ha hb
    simpa [delay, ha, hb] using hab
  · intro a b hab
    obtain ⟨⟨hclock,hinit⟩,hstep⟩ := hab
    unfold delay
    cases ha : a.2 with
    | false =>
      cases hb : b.2 with
      | false => simpa using hclock
      | true => simpa using hstep ha hb
    | true => simpa [hinit ha] using hclock

end Runs

section Order

/-- Every URL is handled as it was submitted, and the last one is left registered. -/
structure HandledInOrder (ls : List Label) (s : UninstallReportService) : Prop where
  handled : withUrl s.mHandler.delivered = withUrl s.mHandler.sent
  urls : urls s.mHandler.delivered = submitted ls
  last : s.registered = (submitted ls).getLast?

theorem urls_withUrl (msgs : List Message) : urls (withUrl msgs) = urls msgs := by
  unfold UninstallReportService.urls withUrl
  rw [List.filterMap_filter]
  congr 1
  funext msg
  cases msg.url? <;> rfl

/-- Once no URL waits, all were handled in the order of their submission if and only if no
URL came before the timer and another less than two seconds later but after it. -/
theorem handledInOrder_iff (h : Run Step (onCreate true packageName) ls s)
    (hp : withUrl s.mHandler.pending = []) : HandledInOrder ls s ↔ InStep ls := by
  have hok := ok_of_run h ok_onCreate
  have hiff := (hok.handler.delivered_eq_sent_iff hp).trans (inOrder_iff_inStep h)
  refine ⟨fun hh => hiff.mp hh.handled,fun hstep => ?_⟩
  have hhandled : withUrl s.mHandler.delivered = withUrl s.mHandler.sent := hiff.mpr hstep
  have hurls : urls s.mHandler.delivered = submitted ls := by
    rw [← urls_withUrl,hhandled,urls_withUrl,(sent_of_run h ok_onCreate).1]
    rfl
  refine ⟨hhandled,hurls,?_⟩
  rw [registered,hok.handled,hurls]

/-- A URL is submitted at a time. -/
def submit (t : ℕ) (url : List Byte) : Label := (t,.sendRequest .setReportUrl (some (some url)))

theorem run_of_steps {t : UninstallReportService} (h : runAll step ls s = some t) :
    Run Step s ls t := run_of_runAll h fun _ _ _ hst => hst

/-- "a" and "b" are submitted before the timer goes off, "c" well after it. -/
def spread : List Label :=
  [submit 0 (ascii "a"),submit 150 (ascii "b"),(2000,.timer),(2000,.dispatch),(2150,.dispatch),
    submit 2150 (ascii "c"),(2150,.dispatch)]

theorem handledInOrder_spread : ∃ s, Run Step (onCreate true (ascii "p")) spread s ∧
    (HandledInOrder spread s ↔ InStep spread) := by
  have hrun : ∃ s, runAll step spread (onCreate true (ascii "p")) = some s ∧
      withUrl s.mHandler.pending = [] := ⟨_,rfl,rfl⟩
  obtain ⟨s,hrun,hp⟩ := hrun
  exact ⟨s,run_of_steps hrun,handledInOrder_iff (run_of_steps hrun) hp⟩

/-- "a" is submitted just before the timer goes off, "b" just after it. -/
def overtaking : List Label :=
  [submit 1999 (ascii "a"),(2000,.timer),submit 2001 (ascii "b"),(2001,.dispatch),(3999,.dispatch)]

/-- The URL that is left registered is the older one. -/
theorem not_handledInOrder_overtaking : ¬ ∀ packageName ls s,
    Run Step (onCreate true packageName) ls s → withUrl s.mHandler.pending = [] →
      HandledInOrder ls s := by
  intro h
  have hrun : ∃ s, runAll step overtaking (onCreate true (ascii "p")) = some s ∧
      withUrl s.mHandler.pending = [] ∧ s.registered = some (ascii "a") := ⟨_,rfl,rfl,rfl⟩
  obtain ⟨s,hrun,hp,hlast⟩ := hrun
  have hb := (h _ _ s (run_of_steps hrun) hp).last
  rw [hlast] at hb
  exact absurd hb (by decide)

end Order

end UninstallObserver.Client
