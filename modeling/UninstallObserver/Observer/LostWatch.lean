import UninstallObserver.Observer.Batches

/-! What the delegate hears of a watch that is not in place, or that the kernel removes. -/
namespace UninstallObserver.Observer
open ByteOrder Transition

namespace ThreadFunc

/-- An `IN_IGNORED` or `IN_UNMOUNT` event. -/
def removesWatch (e : InotifyEvent) : Bool := e.mask &&& (inIgnored ||| inUnmount) != 0

/-- The watch is not in place, or was removed. -/
def Lost (ls : List Act) : Prop := setUpFails ls ∨ ∃ e ∈ events ls, removesWatch e

/-- The delegate is given `Delete` or `Error`. -/
def Told (l : List Action) : Prop :=
  ∃ event path, (event = .delete ∨ event = .error) ∧ .onEvent event path ∈ l

/-- The thread waits for more events, or is over. -/
def Pc.Settled (pc : Pc) : Prop := pc = .returned ∨ ∃ k, pc = .reading k

/-- The set-up succeeds, and the watch is not removed, or an event is taken for `Delete` and the
filter lets that pass, or the reads fail too often. -/
structure Announced (accepts : Event → Bool) (ls : List Act) : Prop where
  setUp : setUpFails ls = false
  watch : (∀ e ∈ events ls, removesWatch e = false) ∨
    (.delete ∈ classified ((events ls).zip (answers ls)) ∧ accepts .delete) ∨
    failures ls = kFailedRetryTimes

variable {w : ℕ} {o : FileObserver} {ls : List Act} {ds : List Occurrence} {A : Account}
  {s : Watch (List InotifyEvent)}

theorem mem_calls_iff {l : List Action} {event : Event} {path : List Byte} :
    (event,path) ∈ calls l ↔ .onEvent event path ∈ l := by
  rw [calls,List.mem_filterMap]
  constructor
  · intro h
    obtain ⟨a,ha,heq⟩ := h
    cases a <;> simp_all
  · intro h
    exact ⟨_,h,rfl⟩

theorem error_notMem_classified (ds : List Occurrence) : .error ∉ classified ds := by
  intro h
  obtain ⟨d,-,hd⟩ := List.mem_map.mp h
  exact classify_ne_error d.1 d.2 hd

/-- The events that were handled, with the answers they got. -/
theorem Tally.zip_eq (h : Tally o ls s ds A) : (events ls).zip (answers ls) = ds := by
  rw [h.read,h.asked]
  have hds : (ds.map Prod.fst ++ A.rest).zip (ds.map Prod.snd ++ []) =
      (ds.map Prod.fst).zip (ds.map Prod.snd) ++ A.rest.zip [] := List.zip_append (by simp)
  rw [List.append_nil,List.zip_nil_right,List.append_nil] at hds
  rw [hds]
  exact (List.zip_of_prod rfl rfl).symm

theorem Tally.told_iff (h : Tally o ls s ds A) :
    Told s.trace ↔ .delete ∈ A.notified ∨ .error ∈ A.notified := by
  have hmem : ∀ event path, .onEvent event path ∈ s.trace ↔
      event ∈ A.notified ∧ path = cString o.mPath := by
    intro event path
    rw [← mem_calls_iff,h.told,List.mem_map]
    constructor
    · intro hmem
      obtain ⟨event',hevent,heq⟩ := hmem
      cases heq
      exact ⟨hevent,rfl⟩
    · intro hmem
      obtain ⟨hevent,rfl⟩ := hmem
      exact ⟨event,hevent,rfl⟩
  constructor
  · intro htold
    obtain ⟨event,path,hkind,hcall⟩ := htold
    have hevent := ((hmem event path).mp hcall).1
    rcases hkind with rfl | rfl
    · exact .inl hevent
    · exact .inr hevent
  · intro hmentioned
    rcases hmentioned with hdelete | herror
    · exact ⟨.delete,_,.inl rfl,(hmem _ _).mpr ⟨hdelete,rfl⟩⟩
    · exact ⟨.error,_,.inr rfl,(hmem _ _).mpr ⟨herror,rfl⟩⟩

/-- Where the thread has come to rest, this is what the delegate was told for. -/
theorem Tally.told_settled_iff (h : Tally o ls s ds A) (hsettled : s.pc.Settled) :
    Told s.trace ↔ setUpFails ls = false ∧
      ((.delete ∈ classified ds ∧ o.accepts .delete) ∨ failures ls = kFailedRetryTimes) := by
  have herror : .error ∉ A.done := h.handled ▸ error_notMem_classified ds
  rw [h.told_iff,← h.handled,← h.started,← h.failed]
  have hlive : A.Live o.accepts → A.failures ≠ kFailedRetryTimes →
      (.delete ∈ A.notified ∨ .error ∈ A.notified ↔ A.setUpFails = false ∧
        ((.delete ∈ A.done ∧ o.accepts .delete) ∨ A.failures = kFailedRetryTimes)) := by
    intro hlive hfew
    have hdelete := hlive.live
    simp [hlive.told, hfew, hdelete, herror]
  rcases hsettled with hpc | ⟨k,hpc⟩
  · rcases h.at_pc hpc with hcut | hreported | ⟨hsetUp,hfresh⟩
    · obtain ⟨D,hdone,-,hnotified⟩ := hcut.told
      have hdelete : .delete ∈ A.done := by simp [hdone]
      simp [hnotified, hdelete, herror, hcut.setUp, hcut.few.ne]
    · simp [hreported.told, hreported.setUp, hreported.many]
    · simp [hfresh.notified, hsetUp]
  · obtain ⟨hA,hk,hlt,-⟩ := h.at_pc hpc
    exact hlive hA (hk ▸ hlt).ne

/-- A watch that is lost is announced just where the set-up succeeds and something else tells of
the loss. -/
theorem announces_iff {ls : List Act} {s : Watch (QueueStruct InotifyEvent)}
    (ho : o.isStopped = false) (h : Run (Step w eventQueue) (.init o (queueCreate [])) ls s)
    (hstop : .stop ∉ ls) (hsettled : s.pc.Settled) :
    (Lost ls → Told s.trace) ↔ Announced o.accepts ls := by
  obtain ⟨es,hrun,-⟩ := eventQueue_refines.run h (queued_queueCreate [])
  obtain ⟨ds,A,htally⟩ := exists_tally ho hrun hstop
  have htold : Told s.trace ↔ _ := htally.told_settled_iff hsettled
  rw [htold,← htally.zip_eq]
  constructor
  · intro hannounces
    have hsetUp : setUpFails ls = false := by
      cases hfails : setUpFails ls with
      | false => rfl
      | true => exact hfails ▸ (hannounces (.inl hfails)).1
    refine ⟨hsetUp,?_⟩
    by_cases hremoved : ∃ e ∈ events ls, removesWatch e
    · exact .inr (hannounces (.inr hremoved)).2
    · refine .inl fun e he => ?_
      exact Bool.eq_false_of_not_eq_true fun hremoves => hremoved ⟨e,he,hremoves⟩
  · intro hannounced hlost
    obtain ⟨hsetUp,hkept | hheard⟩ := hannounced
    · rcases hlost with hfails | ⟨e,he,hremoves⟩
      · rw [hsetUp] at hfails
        cases hfails
      · rw [hkept e he] at hremoves
        cases hremoves
    · exact ⟨hsetUp,hheard⟩

/-- The watched path is deleted and its watch removed. -/
theorem announces_deletion : ∃ s,
    Run (Step 32 eventQueue) (.init sampleObserver (queueCreate [])) deletion s ∧
      ((Lost deletion → Told s.trace) ↔ Announced sampleObserver.accepts deletion) := by
  have hrun : ∃ s, runAll (Watch.step 32 eventQueue) deletion
      (.init sampleObserver (queueCreate [])) = some s ∧ s.pc = .returned := ⟨_,rfl,rfl⟩
  obtain ⟨s,hrun,hpc⟩ := hrun
  exact ⟨s,run_of_steps hrun,announces_iff rfl (run_of_steps hrun) (by decide) (.inl hpc)⟩

/-- The file system under the path is unmounted: the thread goes on waiting, for nothing. -/
def unmounted : InotifyEvent := { ignored with mask := inUnmount }
def unmounting : List Act :=
  [.init true,.addWatch true,.next,.read (unmounted.bytes ++ ignored.bytes),.dispatch true,.next,
    .next,.dispatch true,.next,.next,.next,.next]

theorem not_announces_unmounting : ¬ ∀ o ls s, o.isStopped = false →
    Run (Step 32 eventQueue) (.init o (queueCreate [])) ls s → .stop ∉ ls → s.pc.Settled →
      Lost ls → Told s.trace := by
  intro h
  have hrun : (runAll (Watch.step 32 eventQueue) unmounting
      (.init sampleObserver (queueCreate []))).map (fun s => (s.pc,calls s.trace)) =
        some (.reading 0,[]) := by decide +kernel
  obtain ⟨s,hrun,hs⟩ := Option.map_eq_some_iff.mp hrun
  obtain ⟨hpc,hcalls⟩ := Prod.mk.inj hs
  have hlost : Lost unmounting := .inr ⟨unmounted,by decide +kernel,by decide⟩
  obtain ⟨event,path,-,hcall⟩ :=
    h sampleObserver _ s rfl (run_of_steps hrun) (by decide) (.inr ⟨0,hpc⟩) hlost
  have hmem := mem_calls_iff.mpr hcall
  rw [hcalls] at hmem
  cases hmem

end ThreadFunc
end UninstallObserver.Observer
