import UninstallObserver.Observer.Interleavings

/-! What the observer of an earlier path still does once it was stopped for a new one. -/
namespace UninstallObserver.Observer
open ByteOrder Transition

variable {w : ℕ} {l : Label} {ls : List Label} {d d' : Daemon} {p q : ℕ} {i : Input} {s s' : Slot}
  {created : Bool} {buf : List Byte} {m : ControlMsg}

/-- `stopWatching` has returned for the observer at `p`. -/
def Daemon.Superseded (d : Daemon) (p : ℕ) : Prop := ∃ o, d.object p = some o ∧ o.mCancelled

/-- Not an attempt of a superseded observer at its request, nor its call of `Stop`. -/
structure Silent (l : Label) (d : Daemon) : Prop where
  request : ∀ p transfer, l = .thread p (.request transfer) → ¬ d.Superseded p
  stop : ∀ p, l = .thread p .next → d.thread p = some .stopping → ¬ d.Superseded p

/-- In the loop of `onDelete`, or about to call `Stop`. -/
def Thread.reporting : Thread → Bool
  | .retrying _ | .stopping => true
  | _ => false

/-- No path is handled while the current observer reports, and no superseded one gets to the end
of its failed reads. -/
structure Undisturbed (w : ℕ) (l : Label) (d : Daemon) : Prop where
  path : ∀ m, Handles w m l → m.eCtrlType = eCtrlFilePath →
    ∀ p t, d.mFileObserver = some p → d.thread p = some t → t.reporting = false
  reads : ∀ p k, l = .thread p .next → d.thread p = some (.watching k) → ¬ d.Superseded p

section Slots

/-- A step leads to a report only from one, by a `Delete` that is not cancelled, or by the end of
the failed reads. -/
theorem Slot.reporting_step (h : s.step i = some s') (hs' : s'.thread.reporting) :
    s.thread.reporting ∨
      (∃ o, s.object = some o ∧ o.mCancelled = false ∧ s.thread = .delivering) ∨
        (i = .next ∧ ∃ k, s.thread = .watching k) := by
  unfold Slot.step at h
  split at h
  · next success o =>
    cases h
    cases success <;> cases hs'
  · next o k =>
    obtain ⟨-,h⟩ := Option.ite_none_right_eq_some.mp h
    cases h
    cases hs'
  · next event o k =>
    obtain ⟨-,h⟩ := Option.ite_none_right_eq_some.mp h
    cases h
    have hnot : (onInotify o event k).reporting = false := by
      unfold onInotify
      repeat' split
      all_goals rfl
    exact absurd hs' (by simp [hnot])
  · exact .inr (.inr ⟨rfl,_,rfl⟩)
  · next o =>
    cases h
    cases hcancelled : o.mCancelled with
    | false => exact .inr (.inl ⟨o,rfl,hcancelled,rfl⟩)
    | true =>
      rw [hcancelled] at hs'
      cases hs'
  · exact .inl rfl
  · exact .inl rfl
  · exact .inl rfl
  · cases h
    cases hs'
  · cases h

/-- The failed requests are counted up to the last. -/
def Thread.Counted : Thread → Prop
  | .retrying i => i ≤ kFailRetryTimes
  | _ => True

theorem Slot.counted_step (h : s.step i = some s') (hs : s.thread.Counted) :
    s'.thread.Counted := by
  unfold Slot.step at h
  split at h
  · next success o =>
    cases h
    cases success <;> trivial
  · obtain ⟨-,h⟩ := Option.ite_none_right_eq_some.mp h
    cases h
    trivial
  · next event o k =>
    obtain ⟨-,h⟩ := Option.ite_none_right_eq_some.mp h
    cases h
    change (onInotify o event k).Counted
    unfold onInotify
    repeat' split
    all_goals trivial
  · obtain ⟨-,h⟩ := Option.ite_none_right_eq_some.mp h
    cases h
    trivial
  · cases h
    change (ite _ _ _ : Thread).Counted
    split
    · trivial
    · exact Nat.zero_le _
  · obtain ⟨hlt,h⟩ := Option.ite_none_right_eq_some.mp h
    cases h
    change (ite _ _ _ : Thread).Counted
    split
    · trivial
    · exact hlt
  · obtain ⟨-,h⟩ := Option.ite_none_right_eq_some.mp h
    cases h
    trivial
  · cases h
    trivial
  · cases h
    trivial
  · cases h

end Slots

section Serves

theorem object_modifyCurrent {f : FileDeleteObserver → FileDeleteObserver} :
    (d.modifyCurrent f).object p =
      if d.mFileObserver = some p then (d.object p).map f else d.object p := by
  unfold Daemon.modifyCurrent
  cases hc : d.mFileObserver with
  | none => rfl
  | some q => simp [object_modifyObject]

theorem slot_install {path : List Byte} (hp : p ≠ d.heap.length) :
    (d.install created path).heap[p]? = d.heap[p]? := by
  rw [Daemon.install,List.getElem?_append]
  split
  · rfl
  · next hlt =>
    have hle : d.heap.length ≤ p := not_lt.mp hlt
    rw [List.getElem?_singleton,if_neg (by omega),List.getElem?_eq_none hle]

/-- A message supersedes the current observer at most, when it is for a path, and adds at most
an observer that reports nothing yet. -/
theorem Serves.thread_cases (h : Serves w created buf m d d') (p : ℕ) :
    (d'.thread p = d.thread p ∧ (d'.Superseded p → d.Superseded p ∨
      (m.eCtrlType = eCtrlFilePath ∧ d.mFileObserver = some p))) ∨
    ((∀ t, d'.thread p = some t → t.reporting = false ∧ t.Counted) ∧ ¬ d'.Superseded p) := by
  cases h with
  | hello => exact .inl ⟨rfl,.inl⟩
  | @filePath path type =>
    by_cases hp : p = (d.modifyCurrent FileDeleteObserver.stopWatching).heap.length
    · have hnew : ((d.modifyCurrent FileDeleteObserver.stopWatching).install created path).heap[p]? =
          some (Slot.new created path) := by
        rw [hp]
        simp [Daemon.install]
      refine .inr ⟨fun t ht => ?_,fun hsuperseded => ?_⟩
      · rw [thread_of_slot hnew] at ht
        cases ht
        cases created <;> exact ⟨rfl,trivial⟩
      · obtain ⟨o,ho,hcancelled⟩ := hsuperseded
        rw [object_of_slot hnew] at ho
        cases ho
        cases created <;> cases hcancelled
    · have hkept : ((d.modifyCurrent FileDeleteObserver.stopWatching).install created path).heap[p]? =
          (d.modifyCurrent FileDeleteObserver.stopWatching).heap[p]? := slot_install hp
      refine .inl ⟨?_,fun hsuperseded => ?_⟩
      · rw [Daemon.thread,hkept]
        exact thread_modifyCurrent p
      · by_cases hcurrent : d.mFileObserver = some p
        · exact .inr ⟨type,hcurrent⟩
        · obtain ⟨o,ho,hcancelled⟩ := hsuperseded
          rw [Daemon.object,hkept] at ho
          change (d.modifyCurrent _).object p = some o at ho
          rw [object_modifyCurrent,if_neg hcurrent] at ho
          exact .inl ⟨o,ho,hcancelled⟩
  | reqOnDel =>
    refine .inl ⟨thread_modifyCurrent p,fun hsuperseded => .inl ?_⟩
    obtain ⟨o,ho,hcancelled⟩ := hsuperseded
    rw [object_modifyCurrent] at ho
    split at ho
    · obtain ⟨o',ho',rfl⟩ := Option.map_eq_some_iff.mp ho
      exact ⟨o',ho',hcancelled⟩
    · exact ⟨o,ho,hcancelled⟩
  | ignored => exact .inl ⟨rfl,.inl⟩
  | other => exact .inl ⟨rfl,.inl⟩

end Serves

section Runs

/-- No superseded observer reports. -/
def Daemon.Quiet (d : Daemon) : Prop :=
  ∀ p t, d.thread p = some t → t.reporting → ¬ d.Superseded p

/-- Every thread counts its failed requests up to the last. -/
def Daemon.Counted (d : Daemon) : Prop := ∀ p t, d.thread p = some t → t.Counted

/-- A thread does not change an observer but to destroy it. -/
theorem object_of_put {o : FileDeleteObserver} (slot : d.heap[p]? = some s)
    (stepped : s.step i = some s') (h : (d.put p s s').object q = some o) :
    d.object q = some o := by
  rw [object_put slot] at h
  split at h
  · next hpq =>
    subst hpq
    rcases Slot.step_cases stepped with ⟨hobject,-⟩ | ⟨-,-,-,rfl⟩
    · rw [object_of_slot slot,← hobject,h]
    · cases h
  · exact h

theorem superseded_put (slot : d.heap[p]? = some s) (stepped : s.step i = some s')
    (h : (d.put p s s').Superseded q) : d.Superseded q := by
  obtain ⟨o,ho,hcancelled⟩ := h
  exact ⟨o,object_of_put slot stepped ho,hcancelled⟩

theorem Moves.counted (h : Moves w d l d') (hd : d.Counted) : d'.Counted := by
  cases h with
  | serves _ served =>
    intro p t ht
    rcases served.thread_cases p with ⟨hthread,-⟩ | ⟨hnew,-⟩
    · exact hd p t (hthread ▸ ht)
    · exact (hnew t ht).2
  | @watches p i s s' slot stepped =>
    intro q t ht
    rw [thread_put slot] at ht
    split at ht
    · cases ht
      exact Slot.counted_step stepped (hd p _ (thread_of_slot slot))
    · exact hd q t ht
  | listens => exact hd
  | waits => exact hd
  | leaves => exact hd
  | exits => exact hd

theorem Moves.quiet (h : Moves w d l d') (hl : Undisturbed w l d) (hd : d.Quiet) : d'.Quiet := by
  cases h with
  | serves handles served =>
    intro p t ht hreports hsuperseded
    rcases served.thread_cases p with ⟨hthread,hbefore⟩ | ⟨hnew,-⟩
    · have ht' : d.thread p = some t := hthread ▸ ht
      rcases hbefore hsuperseded with hbefore | ⟨type,hcurrent⟩
      · exact hd p t ht' hreports hbefore
      · rw [hl.path _ handles type p t hcurrent ht'] at hreports
        cases hreports
    · have hnot := (hnew t ht).1
      rw [hnot] at hreports
      cases hreports
  | @watches p i s s' slot stepped =>
    intro q t ht hreports hsuperseded
    have hbefore := superseded_put slot stepped hsuperseded
    rw [thread_put slot] at ht
    split at ht
    · next hpq =>
      subst hpq
      cases ht
      obtain ⟨o,ho,hcancelled⟩ := hbefore
      rcases Slot.reporting_step stepped hreports with hreporting | hdelivers | ⟨rfl,k,hk⟩
      · exact hd p _ (thread_of_slot slot) hreporting ⟨o,ho,hcancelled⟩
      · obtain ⟨o',ho',hnot,-⟩ := hdelivers
        rw [object_of_slot slot,ho'] at ho
        cases ho
        rw [hnot] at hcancelled
        cases hcancelled
      · exact hl.reads p k rfl (by rw [thread_of_slot slot,hk]) ⟨o,ho,hcancelled⟩
    · exact hd q t ht hreports hbefore
  | listens => exact hd
  | waits => exact hd
  | leaves => exact hd
  | exits => exact hd

/-- A thread that takes part in a request is in the loop of `onDelete`. -/
theorem Slot.retrying_of_request {transfer : Bool} (h : s.step (.request transfer) = some s') :
    ∃ i, s.thread = .retrying i := by
  obtain ⟨o,t⟩ := s
  cases t with
  | retrying i => exact ⟨i,rfl⟩
  | notCreated => cases o <;> cases h
  | starting => cases o <;> cases h
  | quit => cases o <;> cases h
  | watching k => cases o <;> cases h
  | delivering => cases o <;> cases h
  | stopping => cases o <;> cases h
  | finishing => cases o <;> cases h
  | ended => cases o <;> cases h

theorem Moves.silent (h : Moves w d l d') (hd : d.Quiet) : Silent l d := by
  refine ⟨fun p transfer hl => ?_,fun p hl hstopping => hd p _ hstopping rfl⟩
  subst hl
  cases h with
  | watches slot stepped =>
    obtain ⟨k,hk⟩ := Slot.retrying_of_request stepped
    refine hd p (.retrying k) ?_ rfl
    rw [thread_of_slot slot,hk]

theorem step_of_slot (hmain : d.main ≠ .exited) (slot : d.heap[p]? = some s)
    (stepped : s.step i = some s') : Step w (.thread p i) d (d.put p s s') := by
  refine ⟨0,?_⟩
  rw [Daemon.step,if_neg hmain]
  simp only [Daemon.watch, slot, Option.bind_some, stepped, Option.map_some]

/-- A superseded observer that is about to call `Stop` calls it. -/
theorem exists_not_silent_stopping {o : FileDeleteObserver} (hmain : d.main ≠ .exited)
    (slot : d.heap[p]? = some ⟨some o,.stopping⟩) (hcancelled : o.mCancelled) :
    ∃ l e', Step w l d e' ∧ ¬ Silent l d := by
  have hfinishes : Slot.step .next ⟨some o,.stopping⟩ = some ⟨some o,.finishing⟩ := rfl
  refine ⟨_,_,step_of_slot hmain slot hfinishes,fun hsilent => ?_⟩
  exact hsilent.stop p rfl (thread_of_slot slot) ⟨o,object_of_slot slot,hcancelled⟩

/-- A superseded observer that reports goes on to. -/
theorem exists_not_silent {t : Thread} (hmain : d.main ≠ .exited) (hd : d.Counted)
    (ht : d.thread p = some t) (hreports : t.reporting) (hp : d.Superseded p) :
    ∃ ls e l e', Run (Step w) d ls e ∧ Step w l e e' ∧ ¬ Silent l e := by
  have hcounted := hd p t ht
  obtain ⟨s,slot,rfl⟩ := Option.map_eq_some_iff.mp ht
  obtain ⟨o,ho,hcancelled⟩ := hp
  rw [object_of_slot slot] at ho
  obtain ⟨object,thread⟩ := s
  obtain rfl : object = some o := ho
  cases thread with
  | stopping =>
    obtain ⟨l,e',hstep,hnot⟩ := exists_not_silent_stopping hmain slot hcancelled
    exact ⟨[],d,l,e',.nil,hstep,hnot⟩
  | retrying i =>
    rcases Nat.lt_or_eq_of_le hcounted with hlt | hlast
    · have hstep := step_of_slot (i := .request true) (w := w) hmain slot (if_pos hlt)
      refine ⟨[],d,_,_,.nil,hstep,fun hsilent => ?_⟩
      exact hsilent.request p true rfl ⟨o,object_of_slot slot,hcancelled⟩
    · have hstep := step_of_slot (i := .next) (w := w) hmain slot (if_pos hlast)
      have hplt : p < d.heap.length := (List.getElem?_eq_some_iff.mp slot).1
      have hslot : (d.put p ⟨some o,.retrying i⟩ ⟨some o,.stopping⟩).heap[p]? =
          some ⟨some o,.stopping⟩ := by simp [Daemon.put, hplt]
      have hmain' : (d.put p ⟨some o,.retrying i⟩ ⟨some o,.stopping⟩).main ≠ .exited := hmain
      obtain ⟨l,e',hstop,hnot⟩ := exists_not_silent_stopping hmain' hslot hcancelled
      exact ⟨_,_,l,e',.cons hstep .nil,hstop,hnot⟩
  | notCreated => cases hreports
  | starting => cases hreports
  | quit => cases hreports
  | watching k => cases hreports
  | delivering => cases hreports
  | finishing => cases hreports
  | ended => cases hreports

/-- A step that is disturbed leaves an observer superseded and reporting. -/
theorem Moves.disturbed (h : Moves w d l d') (hl : ¬ Undisturbed w l d) :
    d'.main = d.main ∧ ∃ p t, d'.thread p = some t ∧ t.reporting ∧ d'.Superseded p := by
  have hcases : (∃ m p t, Handles w m l ∧ m.eCtrlType = eCtrlFilePath ∧ d.mFileObserver = some p ∧
      d.thread p = some t ∧ t.reporting) ∨
      ∃ p k, l = .thread p .next ∧ d.thread p = some (.watching k) ∧ d.Superseded p := by
    by_contra hnot
    rw [not_or] at hnot
    refine hl ⟨fun m hm type p t hp ht => ?_,fun p k hp hk hsuperseded => ?_⟩
    · exact Bool.eq_false_of_not_eq_true fun hreports =>
        hnot.1 ⟨m,p,t,hm,type,hp,ht,hreports⟩
    · exact hnot.2 ⟨p,k,hp,hk,hsuperseded⟩
  rcases hcases with ⟨m,p,t,hm,type,hp,ht,hreports⟩ | ⟨p,k,rfl,hk,o,ho,hcancelled⟩
  · cases h with
    | listens unhandled => exact absurd hm (unhandled m)
    | @serves _ created _ _ _ _ handles served =>
      obtain rfl := hm.unique handles
      obtain ⟨path,-,live,rfl⟩ := (serves_filePath_iff type).mp served
      obtain ⟨o,ho⟩ := live p hp
      obtain ⟨s,slot,-⟩ := Option.map_eq_some_iff.mp ht
      have hlt : p < d.heap.length := (List.getElem?_eq_some_iff.mp slot).1
      have hkept : ((d.modifyCurrent FileDeleteObserver.stopWatching).install created path).heap[p]? =
          (d.modifyCurrent FileDeleteObserver.stopWatching).heap[p]? :=
        slot_install (by simpa using hlt.ne)
      refine ⟨main_modifyCurrent,p,t,?_,hreports,o.stopWatching,?_,rfl⟩
      · change Option.map _ _ = _
        rw [hkept]
        exact (thread_modifyCurrent p).trans ht
      · change Option.bind _ _ = _
        rw [hkept]
        change (d.modifyCurrent _).object p = _
        rw [object_modifyCurrent,if_pos hp,ho]
        rfl
    | watches => exact absurd hm (not_handles (by simp))
    | waits => exact absurd hm (not_handles (by simp))
    | leaves => exact absurd hm (not_handles (by simp))
    | exits => exact absurd hm (not_handles (by simp))
  · cases h with
    | @watches _ _ s s' slot stepped =>
      rw [thread_of_slot slot] at hk
      rw [object_of_slot slot] at ho
      obtain ⟨object,thread⟩ := s
      obtain rfl : object = some o := ho
      obtain rfl : thread = .watching k := Option.some.inj hk
      obtain ⟨-,h⟩ := Option.ite_none_right_eq_some.mp stepped
      cases h
      refine ⟨rfl,p,.stopping,?_,rfl,o,?_,hcancelled⟩
      · rw [thread_put slot,if_pos rfl]
      · rw [object_put slot,if_pos rfl]

theorem counted_init : Daemon.init.Counted := by
  intro p t ht
  cases ht

theorem quiet_init : Daemon.init.Quiet := by
  intro p t ht
  cases ht

/-- In an undisturbed run no superseded observer makes another attempt or calls `Stop`, and a step
that is disturbed leaves a way to one that does. -/
theorem superseded_silent (w : ℕ) :
    (∀ ls d, Run (Guarded (Undisturbed w) (Step w)) Daemon.init ls d →
      Run (Guarded Silent (Step w)) Daemon.init ls d) ∧
    (∀ ls l d d', Run (Step w) Daemon.init ls d → Step w l d d' → ¬ Undisturbed w l d →
      ∃ ls' e l' e', Run (Step w) d' ls' e ∧ Step w l' e e' ∧ ¬ Silent l' e) := by
  refine ⟨fun ls d h => ?_,fun ls l d d' h hstep hl => ?_⟩
  · have hfollow : ∃ e, Run (Guarded Silent (Step w)) Daemon.init ls e ∧ d.Quiet ∧ e = d := by
      refine h.simulate (R := fun d e => d.Quiet ∧ e = d) ⟨quiet_init,rfl⟩ fun l d e d₀ hd hst => ?_
      obtain ⟨hquiet,rfl⟩ := hd
      exact ⟨e,⟨hst.2.moves.silent hquiet,hst.2⟩,hst.2.moves.quiet hst.1 hquiet,rfl⟩
    obtain ⟨e,hrun,-,rfl⟩ := hfollow
    exact hrun
  · have hd : d.Counted :=
      h.invariant (I := Daemon.Counted) counted_init fun _ _ _ hd hst => hst.moves.counted hd
    obtain ⟨hmain,p,t,ht,hreports,hp⟩ := hstep.moves.disturbed hl
    refine exists_not_silent ?_ (hstep.moves.counted hd) ht hreports hp
    rw [hmain]
    exact hstep.ne_exited

/-- "/p" is watched, with a URL to request, and deleted. -/
def deleted : List Label :=
  [.listen .loop,.listen (.accepted 5 true [samplePath.buf]),.listen .loop,
    .listen (.accepted 5 true [sampleUrl.buf]),.thread 0 (.setUp true),.thread 0 (.event .delete)]

/-- Enough for a step to be undisturbed. -/
def undisturbedCheck (l : Label) (d : Daemon) : Bool :=
  match l with
  | .listen (.accepted _ _ _) => (d.mFileObserver.bind d.thread).all fun t => !t.reporting
  | .thread p .next =>
    !((d.object p).any FileDeleteObserver.mCancelled) || d.thread p == some .delivering
  | _ => true

theorem undisturbed_of_check (h : undisturbedCheck l d) : Undisturbed w l d := by
  refine ⟨fun m hm type p t hp ht => ?_,fun p k hl hk hsuperseded => ?_⟩
  · obtain ⟨_,_,_,rfl,-⟩ := hm
    simpa [undisturbedCheck, hp, ht] using h
  · subst hl
    obtain ⟨o,ho,hcancelled⟩ := hsuperseded
    simp [undisturbedCheck, ho, hcancelled, hk] at h

/-- A second path comes before `Delete` is delivered, and the first observer gives up. -/
theorem superseded_silent_delivering : ∃ d,
    Run (Guarded Silent (Step 32)) Daemon.init
      (deleted ++ [.listen .loop,.listen (.accepted 5 true [samplePath.buf]),.thread 0 .next]) d := by
  have hrun : ∃ d, runAll (fun l d =>
      if undisturbedCheck l d then d.step 32 20 l else none)
      (deleted ++ [.listen .loop,.listen (.accepted 5 true [samplePath.buf]),.thread 0 .next])
      Daemon.init = some d := ⟨_,rfl⟩
  obtain ⟨d,hrun⟩ := hrun
  refine ⟨d,(superseded_silent 32).1 _ d (run_of_runAll hrun fun l s t h => ?_)⟩
  obtain ⟨hl,h⟩ := Option.ite_none_right_eq_some.mp h
  exact ⟨undisturbed_of_check hl,20,h⟩

/-- It comes after the first request has failed, and the observer of the first path tries again. -/
theorem not_silent_retrying : ¬ ∀ ls d l d', Run (Step 32) Daemon.init ls d → Step 32 l d d' →
    Silent l d := by
  intro h
  have hrun : ∃ d, runAll (fun l d => d.step 32 20 l)
      (deleted ++ [.thread 0 .next,.thread 0 (.request false),.listen .loop,
        .listen (.accepted 5 true [samplePath.buf])]) Daemon.init = some d ∧
      (∃ d', d.step 32 20 (.thread 0 (.request true)) = some d') ∧
      (d.object 0).map FileDeleteObserver.mCancelled = some true := ⟨_,rfl,⟨_,rfl⟩,rfl⟩
  obtain ⟨d,hrun,⟨d',hstep⟩,hcancelled⟩ := hrun
  have hsteps := run_of_runAll hrun fun l s t hst => (⟨20,hst⟩ : Step 32 l s t)
  obtain ⟨o,ho,hcancelled⟩ := Option.map_eq_some_iff.mp hcancelled
  exact (h _ d _ d' hsteps ⟨20,hstep⟩).request 0 true rfl ⟨o,ho,hcancelled⟩

end Runs

end UninstallObserver.Observer
