import UninstallObserver.Observer.WatchRuns

/-! What the delegate is told of, for any way the events are read in. -/
namespace UninstallObserver.Observer
open ByteOrder Transition

namespace ThreadFunc

section Labels

/-- The reads of a run: a buffer, or nothing where the read failed. -/
def reads (ls : List Act) : List (Option (List Byte)) :=
  ls.filterMap fun a =>
    match a with
    | .readFails => some none
    | .read buffer => some (some buffer)
    | _ => none

/-- The events that were read. -/
def events (ls : List Act) : List InotifyEvent :=
  ls.flatMap fun a =>
    match a with
    | .read buffer => (InotifyEvent.parse buffer).getD []
    | _ => []

/-- Whether the path existed, for each event taken from the queue. -/
def answers (ls : List Act) : List Bool :=
  ls.filterMap fun a =>
    match a with
    | .dispatch fileExists => some fileExists
    | _ => none

def failures (ls : List Act) : ℕ := ls.count .readFails

/-- `inotify_init` or `inotify_add_watch` fails. -/
def setUpFails (ls : List Act) : Bool := ls.any fun a => a == .init false || a == .addWatch false

/-- The calls of the delegate. -/
def calls (l : List Action) : List (Event × List Byte) :=
  l.filterMap fun a =>
    match a with
    | .onEvent event path => some (event,path)
    | _ => none

/-- An event, and whether the path exists when it is handled. -/
abbrev Occurrence := InotifyEvent × Bool

def classified (ds : List Occurrence) : List Event := ds.map fun d => classify d.1 d.2

/-- Up to the first `Delete`, and with it. -/
def cut : List Event → List Event
  | [] => []
  | e::es => if e = .delete then [.delete] else e::cut es

variable {l l' : List Event}

theorem cut_of_notMem (h : .delete ∉ l) : cut l = l := by
  induction l with
  | nil => rfl
  | cons e l ih =>
    obtain ⟨he,hl⟩ := List.ne_and_not_mem_of_not_mem_cons h
    rw [cut,if_neg (Ne.symm he),ih hl]

theorem cut_append_delete (h : .delete ∉ l) : cut (l ++ .delete::l') = l ++ [.delete] := by
  induction l with
  | nil => rfl
  | cons e l ih =>
    obtain ⟨he,hl⟩ := List.ne_and_not_mem_of_not_mem_cons h
    rw [List.cons_append,cut,if_neg (Ne.symm he),ih hl]
    rfl

end Labels

/-- What a run has come to: its failures, the events handled, those that are left, and what the
delegate was told. -/
structure Account where
  setUpFails : Bool
  failures : ℕ
  done : List Event
  rest : List InotifyEvent
  notified : List Event

namespace Account

/-- No `Delete` yet. -/
structure Live (accepts : Event → Bool) (A : Account) : Prop where
  setUp : A.setUpFails = false
  live : .delete ∉ A.done
  told : A.notified = A.done.filter accepts

/-- The event at hand is the last one handled, and not told of yet. -/
structure Handling (accepts : Event → Bool) (event : Event) (A : Account) : Prop where
  setUp : A.setUpFails = false
  told : ∃ D, A.done = D ++ [event] ∧ .delete ∉ D ∧ A.notified = D.filter accepts

/-- The last event handled was the first `Delete`. -/
structure Cut (accepts : Event → Bool) (A : Account) : Prop where
  setUp : A.setUpFails = false
  few : A.failures < kFailedRetryTimes
  told : ∃ D, A.done = D ++ [.delete] ∧ .delete ∉ D ∧ A.notified = A.done.filter accepts

/-- The reads have failed too often, and the delegate was told. -/
structure Reported (accepts : Event → Bool) (A : Account) : Prop where
  setUp : A.setUpFails = false
  many : A.failures = kFailedRetryTimes
  live : .delete ∉ A.done
  rest : A.rest = []
  told : A.notified = A.done.filter accepts ++ [.error]

/-- Nothing was read. -/
structure Fresh (A : Account) : Prop where
  failures : A.failures = 0
  done : A.done = []
  rest : A.rest = []
  notified : A.notified = []

/-- What holds where the thread is. -/
def At (accepts : Event → Bool) (queue : List InotifyEvent) (A : Account) : Pc → Prop
  | .entry | .adding => A.setUpFails = false ∧ A.Fresh
  | .head true k => A.Live accepts ∧ k = A.failures ∧ k ≤ kFailedRetryTimes ∧ A.rest = []
  | .reading k => A.Live accepts ∧ k = A.failures ∧ k < kFailedRetryTimes ∧ A.rest = []
  | .dispatching k => A.Live accepts ∧ k = A.failures ∧ k < kFailedRetryTimes ∧ A.rest = queue
  | .checking k event | .notifying k event =>
    A.Handling accepts event ∧ k = A.failures ∧ k < kFailedRetryTimes ∧ A.rest = queue
  | .head false k => A.Cut accepts ∧ k = A.failures
  | .leaving k => k = A.failures ∧
    (A.Cut accepts ∨ A.Live accepts ∧ k = kFailedRetryTimes ∧ A.rest = [])
  | .closing => A.Cut accepts ∨ A.Reported accepts
  | .returned => A.Cut accepts ∨ A.Reported accepts ∨ A.setUpFails = true ∧ A.Fresh

end Account

/-- The account of a run that was not stopped. -/
structure Tally (o : FileObserver) (ls : List Act) (s : Watch (List InotifyEvent))
    (ds : List Occurrence) (A : Account) : Prop where
  observer : s.fileObserver = o
  started : A.setUpFails = setUpFails ls
  failed : A.failures = failures ls
  asked : answers ls = ds.map Prod.snd
  read : events ls = ds.map Prod.fst ++ A.rest
  handled : A.done = classified ds
  told : calls s.trace = A.notified.map fun event => (event,cString o.mPath)
  stands : A.At o.accepts s.queue s.pc

section Steps
variable {w : ℕ} {o : FileObserver} {ls : List Act} {s s' : Watch (List InotifyEvent)} {a : Act}
  {ds : List Occurrence} {A : Account}

theorem calls_append (l l' : List Action) : calls (l ++ l') = calls l ++ calls l' :=
  List.filterMap_append

theorem calls_notification (event : Event) : calls (s.notification event) =
    ([event].filter s.fileObserver.accepts).map fun event => (event,s.path) := by
  unfold Watch.notification
  by_cases h : s.fileObserver.accepts event
  · simp [h, calls]
  · simp [h, calls]

/-- A step of the thread itself, after which the delegate was told of so much more. -/
theorem Tally.next (h : Tally o ls s ds A) (queue : List InotifyEvent) {N : List Event}
    {actions : List Action} {pc : Pc}
    (hcalls : calls actions = N.map fun event => (event,cString o.mPath))
    (hstands : Account.At o.accepts queue { A with notified := A.notified ++ N } pc) :
    Tally o (ls ++ [.next]) (({ s with queue := queue }).goto pc actions) ds
      { A with notified := A.notified ++ N } where
  observer := h.observer
  started := by simp [h.started, setUpFails]
  failed := by simp [h.failed, failures]
  asked := by simp [← h.asked, answers]
  read := by simp [← h.read, events]
  handled := h.handled
  told := by
    change calls (s.trace ++ actions) = _
    rw [calls_append,h.told,hcalls,List.map_append]
  stands := hstands

/-- A step of the thread that the delegate is not told of. -/
theorem Tally.silent (h : Tally o ls s ds A) (queue : List InotifyEvent) {actions : List Action}
    {pc : Pc} (hcalls : calls actions = [])
    (hstands : Account.At o.accepts queue A pc) :
    Tally o (ls ++ [.next]) (({ s with queue := queue }).goto pc actions) ds A := by
  have hnil : { A with notified := A.notified ++ [] } = A := by rw [List.append_nil]
  have hnext : Account.At o.accepts queue { A with notified := A.notified ++ [] } pc →
      Tally o (ls ++ [.next]) (({ s with queue := queue }).goto pc actions) ds
        { A with notified := A.notified ++ [] } := h.next queue hcalls
  rw [hnil] at hnext
  exact hnext hstands

theorem Tally.at_pc (h : Tally o ls s ds A) {pc : Pc} (hpc : s.pc = pc) :
    A.At o.accepts s.queue pc := hpc ▸ h.stands

theorem path_eq (h : Tally o ls s ds A) : s.path = cString o.mPath := by
  rw [Watch.path,h.observer]

/-- The calls for the event at hand. -/
theorem Tally.notifies (h : Tally o ls s ds A) (event : Event) : calls (s.notification event) =
    ([event].filter o.accepts).map fun event => (event,cString o.mPath) := by
  rw [calls_notification,h.observer,path_eq h]

/-- A step of the set-up, before anything is read. -/
theorem Tally.setsUp {success : Bool} {actions : List Action} {pc : Pc} (h : Tally o ls s ds A)
    (ha : a = .init success ∨ a = .addWatch success) (hbefore : A.setUpFails = false)
    (hcalls : calls actions = [])
    (hstands : Account.At o.accepts s.queue { A with setUpFails := !success } pc) :
    Tally o (ls ++ [a]) (s.goto pc actions) ds { A with setUpFails := !success } := by
  have hls : setUpFails ls = false := h.started ▸ hbefore
  have htold : calls (s.trace ++ actions) =
      A.notified.map fun event => (event,cString o.mPath) := by
    rw [calls_append,h.told,hcalls,List.append_nil]
  rcases ha with rfl | rfl
  all_goals
    refine ⟨h.observer,?_,?_,?_,?_,h.handled,htold,hstands⟩
    · cases success <;> simp_all [setUpFails]
    · simp [h.failed, failures]
    · simp [← h.asked, answers]
    · simp [← h.read, events]

theorem Tally.fails {k : ℕ} (h : Tally o ls s ds A) (pc : s.pc = .reading k) :
    Tally o (ls ++ [.readFails]) (s.goto (.head true (k+1)) []) ds
      { A with failures := A.failures+1 } := by
  obtain ⟨hlive,hk,hlt,hrest⟩ := h.at_pc pc
  refine ⟨h.observer,?_,?_,?_,?_,h.handled,?_,?_⟩
  · simp [h.started, setUpFails]
  · simp [h.failed, failures]
  · simp [← h.asked, answers]
  · simp [← h.read, events]
  · simpa [Watch.goto, calls] using h.told
  · exact ⟨⟨hlive.setUp,hlive.live,hlive.told⟩,congrArg (·+1) hk,hlt,hrest⟩

theorem Tally.reads {k : ℕ} {buffer : List Byte} {q : List InotifyEvent}
    (h : Tally o ls s ds A) (pc : s.pc = .reading k) (filled : eventList.fill buffer s.queue = some q) :
    Tally o (ls ++ [.read buffer])
      (({ s with queue := q, curEventFilename := none }).goto (.dispatching k) []) ds
      { A with rest := q } := by
  obtain ⟨hlive,hk,hlt,hrest⟩ := h.at_pc pc
  have hparse : InotifyEvent.parse buffer = some q := filled
  refine ⟨h.observer,?_,?_,?_,?_,h.handled,?_,?_⟩
  · simp [h.started, setUpFails]
  · simp [h.failed, failures]
  · simp [← h.asked, answers]
  · have hread := h.read
    rw [hrest,List.append_nil] at hread
    simp [← hread, events, hparse]
  · simpa [Watch.goto, calls] using h.told
  · exact ⟨⟨hlive.setUp,hlive.live,hlive.told⟩,hk,hlt,rfl⟩

theorem Tally.dispatches {k : ℕ} {fileExists : Bool} {e : InotifyEvent} {q : List InotifyEvent}
    {cur : Option InotifyEvent} (h : Tally o ls s ds A) (pc : s.pc = .dispatching k)
    (hqueue : s.queue = e::q) : Tally o (ls ++ [.dispatch fileExists])
      (({ s with queue := q, curEventFilename := cur }).goto (.checking k (classify e fileExists))
        (if kind e = inCloseNowrite then [.isFileExist s.path] else []))
      (ds ++ [(e,fileExists)]) { A with done := A.done ++ [classify e fileExists], rest := q } := by
  obtain ⟨hlive,hk,hlt,hrest⟩ := h.at_pc pc
  refine ⟨h.observer,?_,?_,?_,?_,?_,?_,?_⟩
  · simp [h.started, setUpFails]
  · simp [h.failed, failures]
  · simp [← h.asked, answers]
  · have hread := h.read
    rw [hrest,hqueue] at hread
    simpa [events] using hread
  · simp [h.handled, classified]
  · have hnone : calls (if kind e = inCloseNowrite then [.isFileExist s.path] else []) = [] := by
      split <;> rfl
    change calls (s.trace ++ _) = _
    rw [calls_append,hnone,List.append_nil]
    exact h.told
  · exact ⟨⟨hlive.setUp,A.done,rfl,hlive.live,hlive.told⟩,hk,hlt,rfl⟩

/-- Where the loop head goes next. -/
theorem Tally.loops {k : ℕ} {loop : Bool} (h : Tally o ls s ds A) (pc : s.pc = .head loop k) :
    Account.At o.accepts s.queue A
      (if loop ∧ k < kFailedRetryTimes then .reading k else .leaving k) := by
  cases loop with
  | true =>
    obtain ⟨hlive,hk,hle,hrest⟩ := h.at_pc pc
    by_cases hlt : k < kFailedRetryTimes
    · rw [if_pos ⟨rfl,hlt⟩]
      exact ⟨hlive,hk,hlt,hrest⟩
    · rw [if_neg fun h => hlt h.2]
      exact ⟨hk,.inr ⟨hlive,hle.antisymm (not_lt.mp hlt),hrest⟩⟩
  | false =>
    obtain ⟨hcut,hk⟩ := h.at_pc pc
    exact ⟨hk,.inl hcut⟩

theorem Tally.leaves {k : ℕ} (h : Tally o ls s ds A) (pc : s.pc = .leaving k) :
    ∃ A', Tally o (ls ++ [.next])
      (s.goto .closing (if k = kFailedRetryTimes then [.onEvent .error s.path] else [])) ds A' := by
  obtain ⟨hk,hcut | ⟨hlive,hmany,hrest⟩⟩ := h.at_pc pc
  · have hne : k ≠ kFailedRetryTimes := (hk ▸ hcut.few).ne
    rw [if_neg hne]
    exact ⟨A,h.silent s.queue rfl (.inl hcut)⟩
  · rw [if_pos hmany]
    have hcall : calls [.onEvent .error s.path] = [Event.error].map fun event =>
        (event,cString o.mPath) := by
      rw [path_eq h]
      rfl
    refine ⟨_,h.next s.queue hcall (.inr ⟨hlive.setUp,?_,hlive.live,hrest,?_⟩)⟩
    · exact hk.symm.trans hmany
    · exact congrArg (· ++ [Event.error]) hlive.told

theorem Tally.step (h : Tally o ls s ds A) (ho : o.isStopped = false)
    (hm : Moves w eventList s a s') (ha : a ≠ .stop) :
    ∃ ds' A', Tally o (ls ++ [a]) s' ds' A' := by
  cases hm with
  | stops => exact absurd rfl ha
  | @inits success pc =>
    obtain ⟨hsetUp,hfresh⟩ := h.at_pc pc
    refine ⟨ds,_,h.setsUp (.inl rfl) hsetUp rfl ?_⟩
    cases success
    · exact .inr (.inr ⟨rfl,⟨hfresh.failures,hfresh.done,hfresh.rest,hfresh.notified⟩⟩)
    · exact ⟨rfl,⟨hfresh.failures,hfresh.done,hfresh.rest,hfresh.notified⟩⟩
  | @adds success p pc path =>
    obtain ⟨hsetUp,hfresh⟩ := h.at_pc pc
    refine ⟨ds,_,h.setsUp (.inr rfl) hsetUp rfl ?_⟩
    cases success
    · exact .inr (.inr ⟨rfl,⟨hfresh.failures,hfresh.done,hfresh.rest,hfresh.notified⟩⟩)
    · refine ⟨⟨rfl,by simp [hfresh.done],by simp [hfresh.done, hfresh.notified]⟩,
        hfresh.failures.symm,Nat.zero_le _,hfresh.rest⟩
  | loops pc => exact ⟨ds,A,h.silent s.queue rfl (h.loops pc)⟩
  | fails pc => exact ⟨ds,_,h.fails pc⟩
  | reads pc fits filled => exact ⟨ds,_,h.reads pc filled⟩
  | @dispatches k fileExists e q pc taken =>
    have hqueue : s.queue = e::q := by
      cases hq : s.queue <;> simp_all [eventList]
    exact ⟨_,_,h.dispatches pc hqueue⟩
  | @empties k q q' pc taken destroyed =>
    obtain ⟨hlive,hk,hlt,hrest⟩ := h.at_pc pc
    have hqueue : s.queue = [] := by
      cases hq : s.queue <;> simp_all [eventList]
    refine ⟨ds,A,h.silent q' rfl ⟨hlive,hk,hlt.le,?_⟩⟩
    rw [hrest,hqueue]
  | breaks pc stopped =>
    rw [h.observer,ho] at stopped
    cases stopped
  | checks pc =>
    have hstands := h.at_pc pc
    exact ⟨ds,A,h.silent s.queue rfl hstands⟩
  | @notifies k event pc other =>
    obtain ⟨⟨hsetUp,D,hdone,hD,htold⟩,hk,hlt,hrest⟩ := h.at_pc pc
    refine ⟨ds,_,h.next s.queue (h.notifies event) ⟨⟨hsetUp,?_,?_⟩,hk,hlt,hrest⟩⟩
    · simpa [hdone, hD] using Ne.symm other
    · simp [hdone, htold]
  | @deletes k q pc =>
    obtain ⟨⟨hsetUp,D,hdone,hD,htold⟩,hk,hlt,hrest⟩ := h.at_pc pc
    refine ⟨ds,_,h.next q (h.notifies .delete) ⟨⟨hsetUp,hk ▸ hlt,D,hdone,hD,?_⟩,hk⟩⟩
    simp [hdone, htold]
  | leaves pc => exact ⟨ds,h.leaves pc⟩
  | closes pc =>
    refine ⟨ds,A,h.silent s.queue rfl ?_⟩
    exact (h.at_pc pc).imp_right .inl

/-- Every run that is not stopped has an account. -/
theorem exists_tally (ho : o.isStopped = false) (h : Run (Step w eventList) (.init o []) ls s)
    (hstop : .stop ∉ ls) : ∃ ds A, Tally o ls s ds A := by
  refine h.history (I := fun ls s => .stop ∉ ls → ∃ ds A, Tally o ls s ds A) ?_ ?_ hstop
  · intro _
    exact ⟨[],⟨false,0,[],[],[]⟩,rfl,rfl,rfl,rfl,rfl,rfl,rfl,rfl,rfl,rfl,rfl,rfl⟩
  · intro ls a s t ih hst hnot
    rw [List.mem_append,not_or,List.mem_singleton] at hnot
    obtain ⟨ds,A,htally⟩ := ih hnot.1
    exact htally.step ho (Moves.of_step hst) (Ne.symm hnot.2)

end Steps

end ThreadFunc
end UninstallObserver.Observer
