import UninstallObserver.Observer.WatchRuns

/-! What the watching thread allocates and opens, and what becomes of it. -/
namespace UninstallObserver.Observer
open Imperative LinkedCells Transition

variable {heap : Heap InotifyEvent} {q q' : QueueStruct InotifyEvent} {l : List (ℕ × InotifyEvent)}

/-- What is allocated beyond `heap` is just these queued entries. -/
structure Owns (heap : Heap InotifyEvent) (q : QueueStruct InotifyEvent)
    (l : List (ℕ × InotifyEvent)) : Prop where
  holds : q.Holds l
  fresh : ∀ a ∈ l.map Prod.fst, heap.read a = none
  rest : ∀ a, a ∉ l.map Prod.fst → q.heap.read a = heap.read a

namespace Owns

theorem create (heap : Heap InotifyEvent) : Owns heap (queueCreate heap) [] :=
  ⟨holds_queueCreate heap,by simp,fun _ _ => rfl⟩

/-- A queue with nothing in it owns nothing. -/
theorem read (h : Owns heap q []) (a : ℕ) : q.heap.read a = heap.read a := h.rest a (by simp)

theorem recreate (h : Owns heap q []) : Owns heap (queueCreate q.heap) [] :=
  ⟨holds_queueCreate q.heap,by simp,fun a _ => h.read a⟩

/-- Whatever was there before is left alone. -/
theorem keeps (h : Owns heap q l) {a : ℕ} (ha : (heap.read a).isSome) :
    q.heap.read a = heap.read a := by
  refine h.rest a fun hmem => ?_
  rw [h.fresh a hmem] at ha
  cases ha

theorem push (h : Owns heap q l) (e : InotifyEvent)
    (hrun : (newEntry e >>= queueEnqueue) q = .returned () q') :
    Owns heap q' (l ++ [(q.heap.length,e)]) := by
  let q₁ : QueueStruct InotifyEvent := { q with heap := q.heap.malloc ⟨none,e⟩ }
  have hfresh : q.heap.length ∉ l.map Prod.fst :=
    fun hmem => absurd (h.holds.links.lt_length hmem) (lt_irrefl _)
  have hq₁ : q₁.Holds l := by
    refine ⟨h.holds.links.congr fun a ha => ?_,h.holds.tail,h.holds.nodup⟩
    exact Heap.read_malloc_of_ne (h.holds.links.lt_length ha).ne
  obtain ⟨q₂,hends,hholds,hframe⟩ := hq₁.enqueue Heap.read_malloc_self hfresh
  rw [Exec.bind_of_returned (newEntry_apply e)] at hrun
  cases hends.symm.trans hrun
  have hnone : heap.read q.heap.length = none := by
    rw [← h.rest _ hfresh,Heap.read,List.getElem?_eq_none le_rfl]
    rfl
  refine ⟨hholds,fun a ha => ?_,fun a ha => ?_⟩
  · rw [List.map_append,List.mem_append] at ha
    rcases ha with ha | ha
    · exact h.fresh a ha
    · rw [List.mem_singleton.mp ha]
      exact hnone
  · rw [List.map_append,List.mem_append,not_or] at ha
    have hne : a ≠ q.heap.length := fun hne => ha.2 (List.mem_singleton.mpr hne)
    rw [hframe a hne ha.1,← h.rest a ha.1]
    exact Heap.read_malloc_of_ne hne

theorem queueEvents {fuel : ℕ} {buffer : List ByteOrder.Byte} (h : Owns heap q l)
    (hrun : queueEvents fuel buffer q = .returned () q') : ∃ l', Owns heap q' l' := by
  induction fuel generalizing buffer q l with
  | zero =>
    cases buffer with
    | nil =>
      cases hrun
      exact ⟨l,h⟩
    | cons b bs => cases hrun
  | succ fuel ih =>
    cases buffer with
    | nil =>
      cases hrun
      exact ⟨l,h⟩
    | cons b bs =>
      unfold Observer.queueEvents at hrun
      cases htake : InotifyEvent.take (b::bs) with
      | none =>
        rw [htake] at hrun
        cases hrun
      | some c =>
        obtain ⟨e,rest⟩ := c
        rw [htake] at hrun
        obtain ⟨p,q₁,hnew,hrun⟩ := Exec.bind_eq_returned.mp hrun
        obtain ⟨_,q₂,henqueue,hrun⟩ := Exec.bind_eq_returned.mp hrun
        exact ih (h.push e ((Exec.bind_of_returned hnew).trans henqueue)) hrun

theorem nextEvent {e : Option InotifyEvent} (h : Owns heap q l)
    (hrun : nextEvent q = .returned e q') : ∃ l', Owns heap q' l' ∧ (e = none → l' = []) := by
  cases l with
  | nil =>
    rw [Observer.nextEvent,Exec.bind_of_returned h.holds.dequeue_nil] at hrun
    cases hrun
    exact ⟨[],h,fun _ => rfl⟩
  | cons c l =>
    obtain ⟨p,x⟩ := c
    obtain ⟨q₁,hdequeue,hholds,hp,hframe⟩ := h.holds.dequeue_cons
    have hnot : p ∉ l.map Prod.fst := (List.nodup_cons.mp h.holds.nodup).1
    rw [Observer.nextEvent,Exec.bind_of_returned hdequeue] at hrun
    dsimp only at hrun
    rw [Exec.bind_of_returned (inotEv_of_read hp),
      Exec.bind_of_returned (freeEntry_of_read hp)] at hrun
    cases hrun
    refine ⟨l,⟨⟨?_,hholds.tail,hholds.nodup⟩,fun a ha => ?_,fun a ha => ?_⟩,fun he => by cases he⟩
    · exact hholds.links.congr_of_notMem hnot fun a ha => Heap.read_free_of_ne ha
    · exact h.fresh a (List.mem_cons_of_mem p ha)
    · by_cases hap : a = p
      · subst hap
        change (q₁.heap.free a).read a = _
        rw [Heap.read_free,if_pos rfl,h.fresh a List.mem_cons_self]
      · change (q₁.heap.free p).read a = _
        rw [Heap.read_free_of_ne hap,hframe a hap]
        exact h.rest a fun hmem => (List.mem_cons.mp hmem).elim hap ha

theorem destroy (h : Owns heap q l) {fuel : ℕ} (hfuel : l.length < fuel)
    (hrun : queueDestroy fuel q = .returned () q') : Owns heap q' [] := by
  cases (h.holds.destroy hfuel).symm.trans hrun
  refine ⟨holds_queueCreate _,by simp,fun a _ => ?_⟩
  change (q.heap.freeAll (l.map Prod.fst)).read a = _
  rw [Heap.read_freeAll]
  split
  · next ha => rw [h.fresh a ha]
  · next ha => exact h.rest a ha

end Owns

namespace ThreadFunc
variable {w : ℕ} {o : FileObserver} {a : Act} {ls : List Act}
  {s s' : Watch (QueueStruct InotifyEvent)}

/-- The thread has no batch of events at hand. -/
def Pc.idle : Pc → Bool
  | .dispatching _ | .checking _ _ | .notifying _ _ => false
  | _ => true

/-- Nothing is allocated but the entries of the batch at hand. -/
def Watch.Tidy (heap : Heap InotifyEvent) (s : Watch (QueueStruct InotifyEvent)) : Prop :=
  ∃ l, Owns heap s.queue l ∧ (s.pc.idle → l = [])

theorem owns_fill {buffer : List ByteOrder.Byte} (h : Owns heap q [])
    (hfilled : eventQueue.fill buffer q = some q') : ∃ l, Owns heap q' l := by
  obtain ⟨r,hr,rfl⟩ := Option.map_eq_some_iff.mp hfilled
  exact h.recreate.queueEvents (Outcome.result?_eq_some_iff.mp hr)

theorem owns_dequeue {e : Option InotifyEvent} (h : Owns heap q l)
    (htaken : eventQueue.dequeue q = some (e,q')) :
    ∃ l', Owns heap q' l' ∧ (e = none → l' = []) :=
  h.nextEvent (Outcome.result?_eq_some_iff.mp htaken)

theorem owns_destroy (h : Owns heap q l) (hdestroyed : eventQueue.destroy q = some q') :
    Owns heap q' [] := by
  obtain ⟨r,hr,rfl⟩ := Option.map_eq_some_iff.mp hdestroyed
  exact h.destroy (Nat.lt_succ_of_le h.holds.length_le) (Outcome.result?_eq_some_iff.mp hr)

theorem Moves.tidy (h : Moves w eventQueue s a s') (hs : s.Tidy heap) : s'.Tidy heap := by
  obtain ⟨l,hl,hidle⟩ := hs
  cases h with
  | stops => exact ⟨l,hl,hidle⟩
  | @inits success pc =>
    rw [pc] at hidle
    exact ⟨l,hl,fun _ => hidle rfl⟩
  | @adds success p pc path =>
    rw [pc] at hidle
    exact ⟨l,hl,fun _ => hidle rfl⟩
  | loops pc =>
    rw [pc] at hidle
    exact ⟨l,hl,fun _ => hidle rfl⟩
  | fails pc =>
    rw [pc] at hidle
    exact ⟨l,hl,fun _ => hidle rfl⟩
  | reads pc fits filled =>
    rw [pc] at hidle
    obtain rfl : l = [] := hidle rfl
    obtain ⟨l',hl'⟩ := owns_fill hl filled
    exact ⟨l',hl',fun h => by cases h⟩
  | dispatches pc taken =>
    obtain ⟨l',hl',-⟩ := owns_dequeue hl taken
    exact ⟨l',hl',fun h => by cases h⟩
  | empties pc taken destroyed =>
    obtain ⟨l',hl',-⟩ := owns_dequeue hl taken
    exact ⟨[],owns_destroy hl' destroyed,fun _ => rfl⟩
  | breaks pc stopped destroyed => exact ⟨[],owns_destroy hl destroyed,fun _ => rfl⟩
  | checks pc running => exact ⟨l,hl,fun h => by cases h⟩
  | notifies pc other => exact ⟨l,hl,fun h => by cases h⟩
  | deletes pc destroyed => exact ⟨[],owns_destroy hl destroyed,fun _ => rfl⟩
  | leaves pc =>
    rw [pc] at hidle
    exact ⟨l,hl,fun _ => hidle rfl⟩
  | closes pc =>
    rw [pc] at hidle
    exact ⟨l,hl,fun _ => hidle rfl⟩

/-- So often the descriptor of `inotify_init` was opened, left open by a failure of
`inotify_add_watch`, and closed. -/
structure Counts (opened abandoned closed : ℕ) (ls : List Act) (trace : List Action) : Prop where
  opened : ls.count (.init true) = opened
  abandoned : ls.count (.addWatch false) = abandoned
  closed : trace.count .close = closed

/-- What becomes of the descriptor by the time the thread is there. -/
def Pc.Accounts (ls : List Act) (trace : List Action) : Pc → Prop
  | .entry => Counts 0 0 0 ls trace
  | .returned => Counts 0 0 0 ls trace ∨ Counts 1 1 0 ls trace ∨ Counts 1 0 1 ls trace
  | _ => Counts 1 0 0 ls trace

section Counts
variable {m n k : ℕ} {trace actions : List Action}

theorem Counts.add {i j r : ℕ} (h : Counts m n k ls trace) (hinit : [a].count (.init true) = i)
    (hadd : [a].count (.addWatch false) = j) (hclose : actions.count .close = r) :
    Counts (m+i) (n+j) (k+r) (ls ++ [a]) (trace ++ actions) where
  opened := by rw [List.count_append,hinit,h.opened]
  abandoned := by rw [List.count_append,hadd,h.abandoned]
  closed := by rw [List.count_append,hclose,h.closed]

theorem Counts.more (h : Counts m n k ls trace) (hinit : [a].count (.init true) = 0)
    (hadd : [a].count (.addWatch false) = 0) (hclose : actions.count .close = 0) :
    Counts m n k (ls ++ [a]) (trace ++ actions) := h.add hinit hadd hclose

theorem count_close_notification (event : Event) : (s.notification event).count .close = 0 := by
  unfold Watch.notification
  split <;> rfl

end Counts

theorem Moves.accounts (h : Moves w eventQueue s a s') (hs : s.pc.Accounts ls s.trace) :
    s'.pc.Accounts (ls ++ [a]) s'.trace := by
  cases h with
  | stops =>
    have hmore : ∀ {m n k}, Counts m n k ls s.trace → Counts m n k (ls ++ [.stop]) s.trace := by
      intro m n k hm
      simpa using hm.more (a := .stop) rfl rfl (List.count_nil (a := Action.close))
    change s.pc.Accounts _ _
    cases hpc : s.pc with
    | returned =>
      rw [hpc] at hs
      exact hs.imp hmore (Or.imp hmore hmore)
    | _ =>
      rw [hpc] at hs
      exact hmore hs
  | @inits success pc =>
    rw [pc] at hs
    cases success with
    | true =>
      refine Counts.add (i := 1) (j := 0) (r := 0) hs ?_ ?_ ?_ <;> rfl
    | false =>
      left
      refine hs.more ?_ ?_ ?_ <;> rfl
  | @adds success p pc path =>
    rw [pc] at hs
    cases success with
    | true => refine Counts.more hs ?_ ?_ ?_ <;> rfl
    | false =>
      right
      left
      refine Counts.add (i := 0) (j := 1) (r := 0) hs ?_ ?_ ?_ <;> rfl
  | @loops loop k pc =>
    rw [pc] at hs
    have hnext : Counts 1 0 0 (ls ++ [.next]) (s.trace ++ []) := by
      refine hs.more ?_ ?_ ?_ <;> rfl
    change Pc.Accounts _ _ (if _ then _ else _)
    split
    · exact hnext
    · exact hnext
  | fails pc =>
    rw [pc] at hs
    refine Counts.more hs ?_ ?_ ?_ <;> rfl
  | reads pc fits filled =>
    rw [pc] at hs
    refine Counts.more hs ?_ ?_ ?_ <;> rfl
  | @dispatches k fileExists e q pc taken =>
    rw [pc] at hs
    refine Counts.more hs rfl rfl ?_
    split <;> rfl
  | empties pc taken destroyed =>
    rw [pc] at hs
    refine Counts.more hs ?_ ?_ ?_ <;> rfl
  | breaks pc stopped destroyed =>
    rw [pc] at hs
    refine Counts.more hs ?_ ?_ ?_ <;> rfl
  | checks pc running =>
    rw [pc] at hs
    refine Counts.more hs ?_ ?_ ?_ <;> rfl
  | notifies pc other =>
    rw [pc] at hs
    exact Counts.more hs rfl rfl (count_close_notification _)
  | deletes pc destroyed =>
    rw [pc] at hs
    exact Counts.more hs rfl rfl (count_close_notification _)
  | leaves pc =>
    rw [pc] at hs
    refine Counts.more hs rfl rfl ?_
    split <;> rfl
  | closes pc =>
    rw [pc] at hs
    right
    right
    refine Counts.add (i := 0) (j := 0) (r := 1) hs ?_ ?_ ?_ <;> rfl

/-- Whatever is read and whenever the thread is stopped, nothing that was on the heap before is
touched, between two batches all that was allocated for events is freed, and once the thread has
returned the descriptor was closed, unless there was none or no watch could be added to it. -/
theorem watch_releases (h : Run (Step w eventQueue) (.init o (queueCreate heap)) ls s) :
    (∀ a, (heap.read a).isSome → s.queue.heap.read a = heap.read a) ∧
    (s.pc.idle → ∀ a, s.queue.heap.read a = heap.read a) ∧
    (s.pc = .returned → ls.count (.init true) ≤ 1 ∧
      ls.count (.init true) = s.trace.count .close + ls.count (.addWatch false)) := by
  have htidy : s.Tidy heap := h.invariant (I := Watch.Tidy heap) ⟨[],.create heap,fun _ => rfl⟩
    fun _ _ _ hs hst => (Moves.of_step hst).tidy hs
  have haccounts : s.pc.Accounts ls s.trace :=
    h.history (I := fun ls s => s.pc.Accounts ls s.trace) ⟨rfl,rfl,rfl⟩
      fun _ _ _ _ hs hst => (Moves.of_step hst).accounts hs
  obtain ⟨l,hl,hidle⟩ := htidy
  refine ⟨fun a ha => hl.keeps ha,fun hpc a => ?_,fun hpc => ?_⟩
  · obtain rfl : l = [] := hidle hpc
    exact hl.read a
  · rw [hpc] at haccounts
    rcases haccounts with hc | hc | hc <;>
      rw [hc.opened,hc.abandoned,hc.closed] <;> decide

theorem watch_releases_deletion : ∃ s : Watch (QueueStruct InotifyEvent),
    Run (Step 32 eventQueue) (.init (FileObserver.init [0x2F,0x70]) (queueCreate [])) deletion s ∧
      s.pc = .returned ∧ s.trace.count .close = 1 ∧ ∀ a, s.queue.heap.read a = none := by
  have hrun : ∃ s, runAll (Watch.step 32 eventQueue) deletion
      (.init (FileObserver.init [0x2F,0x70]) (queueCreate [])) = some s ∧ s.pc = .returned :=
    ⟨_,rfl,rfl⟩
  obtain ⟨s,hrun,hpc⟩ := hrun
  have hsteps := run_of_runAll hrun fun _ _ _ hst => hst
  obtain ⟨-,hheap,hclosed⟩ := watch_releases hsteps
  refine ⟨s,hsteps,hpc,?_,fun a => ?_⟩
  · have hcount := (hclosed hpc).2
    simpa [deletion] using hcount.symm
  · rw [hheap (by rw [hpc]; rfl) a]
    rfl

end ThreadFunc
end UninstallObserver.Observer
