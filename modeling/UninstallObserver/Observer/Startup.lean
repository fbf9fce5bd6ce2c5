import UninstallObserver.Lib.Runs

/-! Apps that start the daemon on one port, and the children they fork. -/
namespace UninstallObserver.Observer
open Transition

/-- Where an app is: in `JNI_OnLoad` before its own check, in `Start` before the check and
before `fork`, or past both. -/
inductive App where
  | onLoad | checking | forking | returned
  deriving DecidableEq, Repr

/-- Where the thread of a child is; `socket` and `bound` tell whether `createSocket` and
`bindSocket` succeeded. -/
inductive Child where
  /-- Before `createThread`. -/
  | forked
  | noThread
  /-- In the constructor of `BackendServer`. -/
  | creating
  | binding (socket : Bool)
  /-- Before `listen`. -/
  | bindDone (socket bound : Bool)
  /-- In the loop of `startListening`, on the port or on another one. -/
  | listening (onPort : Bool)
  /-- `listen` failed. -/
  | deaf (bound : Bool)
  /-- Past the loop, after `kMaxRetryTimes` failures. -/
  | closed
  | exited
  deriving DecidableEq, Repr

namespace Child

/-- Alive, with nothing more to set up. -/
def staysAlive : Child → Bool
  | .noThread | .listening _ | .deaf _ | .closed => true
  | _ => false

/-- The next call of the child succeeds or not, as far as the system allows. `SO_REUSEADDR` is set:
while nobody listens on the port, any number of sockets can be bound to it, and one of them gets to
listen. A valid socket that is not bound listens on another port. -/
def next (free success : Bool) : Child → Option Child
  | .forked => some (if success then .creating else .noThread)
  | .creating => some (.binding success)
  | .binding socket =>
    if success && !(socket && free) then none else some (.bindDone socket success)
  | .bindDone _ true =>
    if success && !free then none else some (if success then .listening true else .deaf true)
  | .bindDone true false => if success then some (.listening false) else none
  | .bindDone false false => if success then none else some (.deaf false)
  | .listening onPort => some (if success then .listening onPort else .closed)
  | .noThread | .deaf _ | .closed | .exited => none

/-- The process ends: only a child whose loop handled messages can be told to. -/
def exit : Child → Option Child
  | .listening _ | .closed => some .exited
  | _ => none

end Child

/-- All the processes. -/
structure Processes where
  apps : List App
  children : List Child
  deriving DecidableEq, Repr

/-- Who goes on; `yes` and `success` tell how the call it makes turns out. -/
inductive Action where
  | app (i : ℕ) (yes : Bool)
  | child (i : ℕ) (success : Bool)
  | exit (i : ℕ)
  deriving DecidableEq, Repr

namespace Processes

/-- Someone answers on the port. -/
def alive (s : Processes) : Bool := s.children.any (· == .listening true)

def free (s : Processes) : Bool := !s.alive

def setChild (i : ℕ) (c : Child) (s : Processes) : Processes :=
  { s with children := s.children.set i c }

/-- `IsServerAlive` says yes only if someone answers. -/
def appStep (i : ℕ) (yes : Bool) (s : Processes) : Option Processes :=
  match s.apps[i]? with
  | some .onLoad =>
    if yes && !s.alive then none
    else some { s with apps := s.apps.set i (if yes then .returned else .checking) }
  | some .checking =>
    if yes && !s.alive then none
    else some { s with apps := s.apps.set i (if yes then .returned else .forking) }
  | some .forking =>
    let forked := if yes then [Child.forked] else []
    some { s with apps := s.apps.set i .returned, children := s.children ++ forked }
  | _ => none

def step : Action → Processes → Option Processes
  | .app i yes, s => s.appStep i yes
  | .child i success, s =>
    s.children[i]?.bind fun c => (c.next s.free success).map fun c' => s.setChild i c'
  | .exit i, s => s.children[i]?.bind fun c => c.exit.map fun c' => s.setChild i c'

end Processes

def Goes (a : Action) (s t : Processes) : Prop := s.step a = some t

/-- Not a failure of a child. -/
def Succeeds (a : Action) (_ : Processes) : Prop := ∀ i, a ≠ .child i false

variable {a : Action} {as : List Action} {s t : Processes} {c c' : Child} {i : ℕ}

/-- Every child that stays alive listens on the port. -/
def Processes.OnPort (s : Processes) : Prop :=
  ∀ (i : ℕ) (c : Child), s.children[i]? = some c → c.staysAlive → c = .listening true

/-- At most one child stays alive. -/
def Processes.One (s : Processes) : Prop :=
  ∀ (i j : ℕ) (c c' : Child), s.children[i]? = some c → s.children[j]? = some c' →
    c.staysAlive → c'.staysAlive → i = j

section Children

/-- A child for which every call succeeded. -/
def Child.sound : Child → Bool
  | .forked | .creating | .binding true | .bindDone true true | .listening true | .exited => true
  | _ => false

theorem Child.sound_next {free : Bool} (h : c.next free true = some c') (hc : c.sound) :
    c'.sound := by
  cases c with
  | forked => cases h; rfl
  | noThread => cases h
  | creating => cases h; rfl
  | binding socket =>
    cases socket with
    | false => cases hc
    | true =>
      simp only [next] at h
      split at h <;> cases h
      rfl
  | bindDone socket bound =>
    cases socket <;> cases bound <;> cases hc
    simp only [next] at h
    split at h <;> cases h
    rfl
  | listening onPort => cases h; exact hc
  | deaf bound => cases h
  | closed => cases h
  | exited => cases h

theorem Child.eq_of_sound (hc : c.sound) (h : c.staysAlive) : c = .listening true := by
  cases c with
  | listening onPort => cases onPort <;> cases hc; rfl
  | noThread => cases hc
  | deaf bound => cases hc
  | closed => cases hc
  | forked => cases h
  | creating => cases h
  | binding socket => cases h
  | bindDone socket bound => cases h
  | exited => cases h

/-- Whoever listens on the port did so before, or found it free. -/
theorem Child.free_of_next {free success : Bool} (h : c.next free success = some (.listening true)) :
    c = .listening true ∨ free := by
  cases c with
  | forked => cases success <;> cases h
  | noThread => cases h
  | creating => cases h
  | binding socket =>
    simp only [next] at h
    split at h <;> cases h
  | bindDone socket bound =>
    cases bound with
    | true =>
      simp only [next] at h
      split at h
      · cases h
      · next hfree =>
        cases success with
        | false => cases h
        | true => exact .inr (by simpa using hfree)
    | false => cases socket <;> cases success <;> cases h
  | listening onPort =>
    cases success <;> cases h
    exact .inl rfl
  | deaf bound => cases h
  | closed => cases h
  | exited => cases h

theorem Child.exit_eq (h : c.exit = some c') : c' = .exited := by
  unfold exit at h
  split at h
  · cases h; rfl
  · cases h; rfl
  · cases h

end Children

section Changes

/-- What a step can do to the children. -/
inductive Changes (s : Processes) : Action → Processes → Prop
  | app {i : ℕ} {yes : Bool} {apps : List App} :
      Changes s (.app i yes) { s with apps := apps }
  | fork {i : ℕ} {yes : Bool} {apps : List App} :
      Changes s (.app i yes) { s with apps := apps, children := s.children ++ [.forked] }
  | child {i : ℕ} {success : Bool} {c c' : Child} (found : s.children[i]? = some c)
      (next : c.next s.free success = some c') : Changes s (.child i success) (s.setChild i c')
  | exit {i : ℕ} {c : Child} (found : s.children[i]? = some c) :
      Changes s (.exit i) (s.setChild i .exited)

theorem Goes.changes (h : Goes a s t) : Changes s a t := by
  unfold Goes at h
  cases a with
  | app i yes =>
    simp only [Processes.step, Processes.appStep] at h
    split at h
    · split at h <;> cases h
      exact .app
    · split at h <;> cases h
      exact .app
    · cases yes <;> cases h
      · simp only [Bool.false_eq_true, if_false, List.append_nil]
        exact .app
      · exact .fork
    · cases h
  | child i success =>
    obtain ⟨c,hc,h⟩ := Option.bind_eq_some_iff.mp h
    obtain ⟨c',hc',rfl⟩ := Option.map_eq_some_iff.mp h
    exact .child hc hc'
  | exit i =>
    obtain ⟨c,hc,h⟩ := Option.bind_eq_some_iff.mp h
    obtain ⟨c',hc',rfl⟩ := Option.map_eq_some_iff.mp h
    rw [Child.exit_eq hc']
    exact .exit hc

theorem getElem?_setChild (hc : s.children[i]? = some c) (j : ℕ) :
    (s.setChild i c').children[j]? = if i = j then some c' else s.children[j]? := by
  have hi : i < s.children.length := (List.getElem?_eq_some_iff.mp hc).1
  simp [Processes.setChild, List.getElem?_set, hi]

end Changes

section Invariants

/-- At most one child listens on the port. -/
def Processes.Exclusive (s : Processes) : Prop :=
  ∀ i j : ℕ, s.children[i]? = some (.listening true) → s.children[j]? = some (.listening true) →
    i = j

def Processes.Sound (s : Processes) : Prop :=
  ∀ (i : ℕ) (c : Child), s.children[i]? = some c → c.sound

theorem not_listening_of_free (hs : s.free) : s.children[i]? ≠ some (.listening true) := by
  intro hc
  have halive : s.alive := List.any_eq_true.mpr ⟨_,List.mem_of_getElem? hc,rfl⟩
  rw [Processes.free,halive] at hs
  cases hs

/-- A child that takes the port takes it from nobody. -/
theorem Processes.Exclusive.setChild (hs : s.Exclusive) (hc : s.children[i]? = some c)
    (h : c' = .listening true → c = .listening true ∨ s.free) : (s.setChild i c').Exclusive := by
  have hother : ∀ j, i ≠ j → s.children[j]? = some (.listening true) → c' ≠ .listening true := by
    intro j hij hj hc'
    rcases h hc' with rfl | hfree
    · exact hij (hs i j hc hj)
    · exact not_listening_of_free hfree hj
  intro j k hj hk
  rw [getElem?_setChild hc] at hj hk
  split at hj
  · next hij =>
    split at hk
    · next hik => rw [← hij,hik]
    · next hik => exact absurd (Option.some.inj hj) (hother k hik hk)
  · next hij =>
    split at hk
    · exact absurd (Option.some.inj hk) (hother j hij hj)
    · exact hs j k hj hk

theorem Processes.Sound.setChild (hs : s.Sound) (hc : s.children[i]? = some c) (h : c'.sound) :
    (s.setChild i c').Sound := by
  intro j e he
  rw [getElem?_setChild hc] at he
  split at he
  · cases he
    exact h
  · exact hs j e he

theorem getElem?_fork {apps : List App} {e : Child}
    (h : (⟨apps,s.children ++ [.forked]⟩ : Processes).children[i]? = some e) :
    s.children[i]? = some e ∨ e = .forked := by
  simp only [List.getElem?_append] at h
  split at h
  · exact .inl h
  · rw [List.getElem?_singleton] at h
    split at h <;> cases h
    exact .inr rfl

theorem Changes.exclusive (h : Changes s a t) (hs : s.Exclusive) : t.Exclusive := by
  cases h with
  | app => exact hs
  | fork =>
    intro j k hj hk
    exact hs j k ((getElem?_fork hj).resolve_right nofun) ((getElem?_fork hk).resolve_right nofun)
  | child hc hnext =>
    refine hs.setChild hc fun hc' => ?_
    subst hc'
    exact Child.free_of_next hnext
  | exit hc => exact hs.setChild hc nofun

theorem Changes.sound (h : Changes s a t) (ha : Succeeds a s) (hs : s.Sound) : t.Sound := by
  cases h with
  | app => exact hs
  | fork =>
    intro j e hj
    rcases getElem?_fork hj with hj | rfl
    · exact hs j e hj
    · rfl
  | @child i success c c' hc hnext =>
    cases success with
    | false => exact absurd rfl (ha i)
    | true => exact hs.setChild hc (Child.sound_next hnext (hs i c hc))
  | exit hc => exact hs.setChild hc rfl

theorem Processes.Sound.onPort (hs : s.Sound) : s.OnPort :=
  fun i c hc halive => Child.eq_of_sound (hs i c hc) halive

theorem Processes.OnPort.one (h : s.OnPort) (hs : s.Exclusive) : s.One := by
  intro i j c c' hc hc' halive halive'
  obtain rfl := h i c hc halive
  obtain rfl := h j c' hc' halive'
  exact hs i j hc hc'

end Invariants

section Failures

theorem goes_child {success : Bool} (hc : s.children[i]? = some c)
    (h : c.next s.free success = some c') : Goes (.child i success) s (s.setChild i c') := by
  rw [Goes,Processes.step,hc,Option.bind_some,h]
  rfl

theorem setChild_children (hc : s.children[i]? = some c) :
    (s.setChild i c').children[i]? = some c' := by
  rw [getElem?_setChild hc,if_pos rfl]

/-- A child that only has to go on until it stays alive off the port. -/
inductive Child.Lost : Child → Prop
  | settled {c : Child} (alive : c.staysAlive) (off : c ≠ .listening true) : Lost c
  | next {c c' : Child} (success : Bool) (next : ∀ free, c.next free success = some c')
      (lost : Lost c') : Lost c

theorem Child.Lost.run (h : c.Lost) (hc : s.children[i]? = some c) :
    ∃ as t, Run Goes s as t ∧ ¬ t.OnPort := by
  induction h generalizing s with
  | settled alive off => exact ⟨[],s,.nil,fun hs => off (hs i _ hc alive)⟩
  | next success next _ ih =>
    obtain ⟨as,t,hrun,ht⟩ := ih (setChild_children hc)
    exact ⟨_,t,.cons (goes_child hc (next s.free)) hrun,ht⟩

theorem Child.lost_bindDone (socket : Bool) : (Child.bindDone socket false).Lost := by
  cases socket with
  | true => exact .next true (fun _ => rfl) (.settled rfl nofun)
  | false => exact .next false (fun _ => rfl) (.settled rfl nofun)

/-- After a failure a child is lost. -/
theorem Child.lost_of_failure {free : Bool} (h : c.next free false = some c') : c'.Lost := by
  cases c with
  | forked => cases h; exact .settled rfl nofun
  | noThread => cases h
  | creating => cases h; exact .next false (fun _ => rfl) (lost_bindDone false)
  | binding socket => cases h; exact lost_bindDone socket
  | bindDone socket bound =>
    cases bound with
    | true => cases h; exact .settled rfl nofun
    | false => cases socket <;> cases h; exact .settled rfl nofun
  | listening onPort => cases h; exact .settled rfl nofun
  | deaf bound => cases h
  | closed => cases h
  | exited => cases h

/-- As long as no call of a child fails, every child that stays alive listens on the port, so
at most one does; and every failure leaves a way to a child that stays alive elsewhere. -/
theorem onPort_runs (apps : List App) :
    (∀ as s, Run (Guarded Succeeds Goes) ⟨apps,[]⟩ as s → s.OnPort ∧ s.One) ∧
    (∀ a s t, Goes a s t → ¬ Succeeds a s → ∃ as u, Run Goes t as u ∧ ¬ u.OnPort) := by
  refine ⟨fun as s h => ?_,fun a s t h ha => ?_⟩
  · have hsound : s.Sound := h.invariant (I := Processes.Sound) (fun i c hc => by cases hc)
      fun a s t hs hst => hst.2.changes.sound hst.1 hs
    have hexclusive : s.Exclusive := h.invariant (I := Processes.Exclusive)
      (fun i j hi => by cases hi) fun a s t hs hst => hst.2.changes.exclusive hs
    exact ⟨hsound.onPort,hsound.onPort.one hexclusive⟩
  · unfold Succeeds at ha
    push Not at ha
    obtain ⟨i,rfl⟩ := ha
    cases h.changes with
    | child hc hnext => exact (Child.lost_of_failure hnext).run (setChild_children hc)

/-- A child starts and listens, and another app finds it. -/
def starting : List Action :=
  [.app 0 false,.app 0 true,.child 0 true,.child 0 true,.child 0 true,.child 0 true,.app 1 true]

theorem onPort_runs_starting :
    ∃ s, Run (Guarded Succeeds Goes) ⟨[.checking,.checking],[]⟩ starting s ∧
      s.children = [.listening true] ∧ s.OnPort ∧ s.One ∧
      ∃ t as u, Goes (.child 0 false) s t ∧ Run Goes t as u ∧ ¬ u.OnPort := by
  have hsteps : runAll Processes.step starting ⟨[.checking,.checking],[]⟩ =
      some ⟨[.returned,.returned],[.listening true]⟩ := rfl
  have hrun : Run (Guarded Succeeds Goes) ⟨[.checking,.checking],[]⟩ starting
      ⟨[.returned,.returned],[.listening true]⟩ := by
    refine (run_of_runAll hsteps fun _ _ _ hst => hst).guarded fun a ha s i hi => ?_
    subst hi
    simp [starting] at ha
  have hfails : Goes (.child 0 false) ⟨[.returned,.returned],[.listening true]⟩
      ⟨[.returned,.returned],[.closed]⟩ := rfl
  obtain ⟨honPort,hone⟩ := (onPort_runs [.checking,.checking]).1 starting _ hrun
  obtain ⟨as,u,hlost,hoff⟩ := (onPort_runs [.checking,.checking]).2 _ _ _ hfails fun h => h 0 rfl
  exact ⟨_,hrun,rfl,honPort,hone,_,as,u,hfails,hlost,hoff⟩

/-- Two apps look for the daemon before either child listens on the port. -/
def overlap : List Action :=
  [.app 0 false,.app 1 false,.app 0 true,.app 1 true,.child 0 true,.child 1 true,
    .child 0 true,.child 1 true,.child 0 true,.child 0 true,.child 1 false,.child 1 true]

theorem not_onPort_overlap :
    ¬ ∀ apps as s, Run Goes ⟨apps,[]⟩ as s → s.OnPort ∧ s.One := by
  intro h
  have hrun : runAll Processes.step overlap ⟨[.checking,.checking],[]⟩ =
      some ⟨[.returned,.returned],[.listening true,.listening false]⟩ := rfl
  have hport := (h _ _ _ (run_of_runAll hrun fun _ _ _ hst => hst)).1
  cases hport 1 (.listening false) rfl rfl

end Failures

end UninstallObserver.Observer
