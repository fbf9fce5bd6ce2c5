import Mathlib.Data.List.ReduceOption
import UninstallObserver.Observer.Batches

/-! The events decide what the delegate is told of, not the reads they come in, as long as no name
is printed whose entry was freed. -/
namespace UninstallObserver.Observer
open ByteOrder Transition

namespace ThreadFunc

/-- What is read of the events of a batch, or of a read that fails. -/
def contents (batch : Option (List Occurrence)) : Option (List Byte) :=
  batch.map fun ds => (ds.map fun d => d.1.bytes).flatten

/-- No batch is larger than the buffer. -/
def Fits (batches : List (Option (List Occurrence))) : Prop :=
  ∀ buffer, some buffer ∈ batches.map contents → buffer.length ≤ bufferSize

/-- The names that are printed for the events of a batch are there, up to the first `Delete`. -/
def printsBatch : Option InotifyEvent → List Occurrence → Bool
  | _, [] => true
  | curEventFilename, d::ds =>
    printable curEventFilename d.1 &&
      (classify d.1 d.2 = .delete || printsBatch (filenameAt curEventFilename d.1) ds)

/-- The same for batches: `cur_event_filename` is NULL at the front of each. -/
def prints : List (Option (List Occurrence)) → Bool
  | [] => true
  | none::batches => prints batches
  | some ds::batches => printsBatch none ds && (.delete ∈ classified ds || prints batches)

section Progress
variable {w : ℕ} {s t u : Watch (List InotifyEvent)} {k : ℕ} {ls ls' : List Act}
  {rs rs' : List (Option (List Byte))} {bs bs' : List Bool} {ds : List Occurrence}

/-- A run with these reads, and these answers about the path, that is not stopped. -/
structure Advance (w : ℕ) (s : Watch (List InotifyEvent)) (ls : List Act)
    (rs : List (Option (List Byte))) (bs : List Bool) (t : Watch (List InotifyEvent)) : Prop where
  run : Run (Step w eventList) s ls t
  running : .stop ∉ ls
  setUp : setUpFails ls = false
  reads : reads ls = rs
  answers : answers ls = bs

theorem Advance.append (h : Advance w s ls rs bs t) (h' : Advance w t ls' rs' bs' u) :
    Advance w s (ls ++ ls') (rs ++ rs') (bs ++ bs') u where
  run := run_append_iff.mpr ⟨t,h.run,h'.run⟩
  running := by simp [h.running, h'.running]
  setUp := by
    have hls := h.setUp
    have hls' := h'.setUp
    simp only [setUpFails] at hls hls' ⊢
    rw [List.any_append,hls,hls']
    rfl
  reads := by
    rw [← h.reads,← h'.reads]
    exact List.filterMap_append
  answers := by
    rw [← h.answers,← h'.answers]
    exact List.filterMap_append

/-- A step of the thread itself. -/
theorem Moves.next (h : Moves w eventList s .next t) : Advance w s [.next] [] [] t :=
  ⟨.cons h.step .nil,by simp,rfl,rfl,rfl⟩

theorem advance_replicate {n : ℕ} (h : Run (Step w eventList) s (List.replicate n .next) t) :
    Advance w s (List.replicate n .next) [] [] t := by
  refine ⟨h,by simp [List.mem_replicate],?_,?_,?_⟩
  · simp [setUpFails, List.any_replicate]
  · exact List.filterMap_replicate_of_none rfl
  · exact List.filterMap_replicate_of_none rfl

theorem Moves.observer {a : Act} (h : Moves w eventList s a t) (ha : a ≠ .stop) :
    t.fileObserver = s.fileObserver := by
  cases h with
  | stops => exact absurd rfl ha
  | _ => rfl

/-- The events of one batch are handled, one after another, as long as their names can be
printed. -/
theorem advance_events (hs : s.fileObserver.isStopped = false) (hpc : s.pc = .dispatching k)
    (hqueue : s.queue = ds.map Prod.fst) (hprints : printsBatch s.curEventFilename ds) :
    ∃ ls bs t, Advance w s ls [] bs t ∧ bs <+: ds.map Prod.snd ∧
      (t.pc = .returned ∨ bs = ds.map Prod.snd ∧ .delete ∉ classified ds ∧
        t.pc = .head true k ∧ t.fileObserver = s.fileObserver) := by
  obtain ⟨o,es,cur,pc,trace⟩ := s
  obtain rfl : pc = .dispatching k := hpc
  obtain rfl : es = ds.map Prod.fst := hqueue
  induction ds generalizing cur trace with
  | nil =>
    exact ⟨_,_,_,Moves.next (.empties rfl rfl rfl),List.nil_prefix,
      .inr ⟨rfl,List.not_mem_nil,rfl,rfl⟩⟩
  | cons d ds ih =>
    obtain ⟨e,b⟩ := d
    obtain ⟨hname,hnames⟩ := Bool.and_eq_true_iff.mp hprints
    have hdispatch : Moves w eventList ⟨o,e::ds.map Prod.fst,cur,.dispatching k,trace⟩
        (.dispatch b) _ := .dispatches rfl rfl hname
    have htaken : Advance w ⟨o,e::ds.map Prod.fst,cur,.dispatching k,trace⟩ [.dispatch b] [] [b] _ :=
      ⟨.cons hdispatch.step .nil,by simp,rfl,rfl,rfl⟩
    have hchecked := htaken.append (Moves.next (.checks rfl hs))
    by_cases hdelete : classify e b = .delete
    · have hleaves : (Pc.notifying k (classify e b)).leavesLoop := by
        simpa [Pc.leavesLoop] using hdelete
      obtain ⟨n,t,hrun,ht⟩ := returns_of_leavesLoop (w := w) (s := Watch.goto
        (.notifying k (classify e b)) [.useObserver] (Watch.goto (.checking k (classify e b))
          _ ⟨o,ds.map Prod.fst,filenameAt cur e,.dispatching k,trace⟩)) hleaves
      refine ⟨_,_,t,hchecked.append (advance_replicate hrun),?_,.inl ht⟩
      exact List.cons_prefix_cons.mpr ⟨rfl,List.nil_prefix⟩
    · have hnotified := hchecked.append (Moves.next (.notifies rfl hdelete))
      have hrest : printsBatch (filenameAt cur e) ds := by simpa [hdelete] using hnames
      obtain ⟨ls,bs,t,hrun,hpre,hends⟩ := ih _ _ hs hrest
      refine ⟨_,_,t,hnotified.append hrun,List.cons_prefix_cons.mpr ⟨rfl,hpre⟩,?_⟩
      refine hends.imp_right fun h => ⟨congrArg (b::·) h.1,?_,h.2.2⟩
      exact List.not_mem_cons_of_ne_of_not_mem (Ne.symm hdelete) h.2.1

/-- The batches are read, one after another, until none is left or the thread is over. -/
theorem advance_batches {batches : List (Option (List Occurrence))} (hfits : Fits batches)
    (hprints : prints batches) (hs : s.fileObserver.isStopped = false)
    (hpc : s.pc = .head true k) (hk : k + batches.count none < kFailedRetryTimes) :
    ∃ ls rs bs t, Advance w s ls rs bs t ∧ bs <+: batches.reduceOption.flatten.map Prod.snd ∧
      ∃ rest, rs ++ rest = batches.map contents ∧
        (t.pc = .returned ∨ rest = [] ∧ ∃ k, t.pc = .reading k) := by
  induction batches generalizing s k with
  | nil =>
    have hlt : k < kFailedRetryTimes := hk
    refine ⟨_,_,_,_,Moves.next (.loops hpc),List.nil_prefix,[],rfl,.inr ⟨rfl,k,?_⟩⟩
    exact if_pos ⟨rfl,hlt⟩
  | cons batch batches ih =>
    have hlt : k < kFailedRetryTimes := Nat.lt_of_le_of_lt (Nat.le_add_right _ _) hk
    have hloop : Advance w s [.next] [] [] _ := Moves.next (.loops hpc)
    rw [if_pos ⟨rfl,hlt⟩] at hloop
    have hfits' : Fits batches := fun buffer h => hfits buffer (List.mem_cons_of_mem _ h)
    cases batch with
    | none =>
      have hfails : Advance w _ [.readFails] [none] [] _ :=
        ⟨.cons (Moves.step (.fails (s := s.goto (.reading k) []) rfl)) .nil,by simp,rfl,rfl,rfl⟩
      rw [List.count_cons_self] at hk
      obtain ⟨ls,rs,bs,t,hrest,hpre,rest,hreads,hends⟩ :=
        ih (s := (s.goto (.reading k) []).goto (.head true (k+1)) []) hfits' hprints hs rfl
          (by omega)
      refine ⟨_,_,_,t,hloop.append (hfails.append hrest),hpre,rest,?_,hends⟩
      exact congrArg (none::·) hreads
    | some ds =>
      obtain ⟨hbatch,hnames⟩ := Bool.and_eq_true_iff.mp hprints
      have hlength : (ds.map fun d => d.1.bytes).flatten.length ≤ bufferSize :=
        hfits _ List.mem_cons_self
      have hparse : InotifyEvent.parse (ds.map fun d => d.1.bytes).flatten =
          some (ds.map Prod.fst) := by
        rw [← InotifyEvent.parse_flatten,List.map_map]
        rfl
      have hread : Advance w _ [.read (ds.map fun d => d.1.bytes).flatten]
          [some (ds.map fun d => d.1.bytes).flatten] [] _ :=
        ⟨.cons (Moves.step (.reads (s := s.goto (.reading k) []) rfl hlength hparse)) .nil,
          by simp,rfl,rfl,rfl⟩
      obtain ⟨ls,bs₁,t,hevents,hpre₁,hends⟩ := advance_events (w := w)
        (s := Watch.goto (.dispatching k) []
          { s.goto (.reading k) [] with queue := ds.map Prod.fst, curEventFilename := none })
        hs rfl rfl hbatch
      have hbatches := hloop.append (hread.append hevents)
      have hflatten : (some ds::batches).reduceOption.flatten.map Prod.snd =
          ds.map Prod.snd ++ batches.reduceOption.flatten.map Prod.snd := by
        rw [List.reduceOption_cons_of_some,List.flatten_cons,List.map_append]
      rcases hends with hreturned | ⟨rfl,hlive,hhead,hobserver⟩
      · refine ⟨_,_,_,t,hbatches,?_,batches.map contents,rfl,.inl hreturned⟩
        rw [hflatten]
        exact hpre₁.trans (List.prefix_append _ _)
      · have hcount : k + batches.count none < kFailedRetryTimes := by
          rwa [List.count_cons_of_ne (by simp)] at hk
        have hrest : prints batches := by simpa [hlive] using hnames
        obtain ⟨ls',rs,bs,u,hrun,hpre,rest,hreads,hends⟩ :=
          ih hfits' hrest (hobserver ▸ hs) hhead hcount
        refine ⟨_,_,_,u,hbatches.append hrun,?_,rest,?_,hends⟩
        · rw [hflatten]
          exact (List.prefix_append_right_inj _).mpr hpre
        · exact congrArg (some _::·) hreads

end Progress

section Independence
variable {w : ℕ} {o : FileObserver} {ls : List Act} {ds ds' : List Occurrence}
  {batches : List (Option (List Occurrence))}

theorem events_eq_reads (ls : List Act) :
    events ls = (reads ls).flatMap fun r => (r.bind InotifyEvent.parse).getD [] := by
  induction ls with
  | nil => rfl
  | cons a ls ih =>
    have hcons : events (a::ls) = events [a] ++ events ls := by simp [events]
    rw [hcons,ih]
    cases a <;> simp [reads, events]

theorem failures_eq_reads (ls : List Act) : failures ls = (reads ls).count none := by
  induction ls with
  | nil => rfl
  | cons a ls ih =>
    have hcons : failures (a::ls) = failures ls + failures [a] := by simp [failures, List.count_cons]
    rw [hcons,ih]
    cases a <;> simp [reads, failures]

theorem parse_contents (ds : List Occurrence) :
    (contents (some ds)).bind InotifyEvent.parse = some (ds.map Prod.fst) := by
  have hbytes : (ds.map fun d => d.1.bytes) = (ds.map Prod.fst).map InotifyEvent.bytes := by
    rw [List.map_map]
    rfl
  rw [contents,Option.map_some,Option.bind_some,hbytes,InotifyEvent.parse_flatten]

theorem flatMap_contents (batches : List (Option (List Occurrence))) :
    (batches.map contents).flatMap (fun r => (r.bind InotifyEvent.parse).getD []) =
      batches.reduceOption.flatten.map Prod.fst := by
  induction batches with
  | nil => rfl
  | cons batch batches ih =>
    rw [List.map_cons,List.flatMap_cons,ih]
    cases batch with
    | none => rfl
    | some ds =>
      rw [parse_contents,List.reduceOption_cons_of_some,List.flatten_cons,List.map_append]
      rfl

theorem count_none_contents (batches : List (Option (List Occurrence))) :
    (batches.map contents).count none = batches.count none := by
  induction batches with
  | nil => rfl
  | cons batch batches ih => cases batch <;> simp [contents, ih]

/-- The run reads in these batches, with these answers about the path, until it waits for more or
is over. -/
structure Settles {Q : Type} (batches : List (Option (List Occurrence))) (ls : List Act)
    (s : Watch Q) : Prop where
  running : .stop ∉ ls
  setUp : setUpFails ls = false
  reads : ∃ rest, reads ls ++ rest = batches.map contents ∧
    (s.pc = .returned ∨ rest = [] ∧ ∃ k, s.pc = .reading k)
  answers : answers ls <+: batches.reduceOption.flatten.map Prod.snd

section Names
variable {s s' t : Watch (List InotifyEvent)} {a : Act}

/-- The failed reads that the thread counts. -/
def Pc.failedTimes : Pc → ℕ
  | .head _ k | .reading k | .dispatching k | .checking k _ | .notifying k _ => k
  | _ => 0

/-- The names still to be printed, for what is left of the batch at hand and the batches to come. -/
def Pc.Prints (cur : Option InotifyEvent) (ds : List Occurrence)
    (batches : List (Option (List Occurrence))) : Pc → Prop
  | .entry | .adding | .head true _ | .reading _ => prints batches
  | .dispatching _ => printsBatch cur ds ∧ (.delete ∈ classified ds ∨ prints batches)
  | .checking _ event | .notifying _ event =>
    event = .delete ∨ printsBatch cur ds ∧ (.delete ∈ classified ds ∨ prints batches)
  | _ => True

/-- A run goes on to settle from here, with these occurrences left of the batch at hand. -/
structure Left (ds : List Occurrence) (batches : List (Option (List Occurrence)))
    (s : Watch (List InotifyEvent)) (ls : List Act) (t : Watch (List InotifyEvent)) : Prop where
  observer : s.fileObserver.isStopped = false
  few : s.pc.failedTimes + batches.count none < kFailedRetryTimes
  queue : s.pc.inBatch → s.queue = ds.map Prod.fst
  idle : s.pc.inBatch = false → ds = []
  running : .stop ∉ ls
  setUp : setUpFails ls = false
  reads : ∃ rest, reads ls ++ rest = batches.map contents ∧
    (t.pc = .returned ∨ rest = [] ∧ ∃ k, t.pc = .reading k)
  answers : answers ls <+: ds.map Prod.snd ++ batches.reduceOption.flatten.map Prod.snd

theorem setUp_tail (h : setUpFails (a::ls) = false) : setUpFails ls = false := by
  rw [setUpFails,List.any_cons,Bool.or_eq_false_iff] at h
  exact h.2

theorem success_of_setUp {success : Bool} (h : setUpFails (a::ls) = false)
    (ha : a = .init success ∨ a = .addWatch success) : success = true := by
  cases success with
  | true => rfl
  | false => rcases ha with rfl | rfl <;> cases h

/-- A step that neither reads nor handles an event. -/
theorem Left.silent (h : Left ds batches s (a::ls) t) (hm : Moves w eventList s a s')
    (hreads : ThreadFunc.reads [a] = []) (hanswers : ThreadFunc.answers [a] = [])
    (hfew : s'.pc.failedTimes ≤ s.pc.failedTimes)
    (hqueue : s'.pc.inBatch → s'.queue = ds.map Prod.fst)
    (hidle : s'.pc.inBatch = false → ds = []) : Left ds batches s' ls t where
  observer := by
    rw [hm.observer fun ha => h.running (ha ▸ List.mem_cons_self)]
    exact h.observer
  few := (Nat.add_le_add_right hfew _).trans_lt h.few
  queue := hqueue
  idle := hidle
  running := List.not_mem_of_not_mem_cons h.running
  setUp := setUp_tail h.setUp
  reads := by
    have hcons : ThreadFunc.reads (a::ls) = ThreadFunc.reads [a] ++ ThreadFunc.reads ls :=
      List.filterMap_append (l := [a])
    obtain ⟨rest,hrest⟩ := h.reads
    rw [hcons,hreads] at hrest
    exact ⟨rest,hrest⟩
  answers := by
    have hcons : ThreadFunc.answers (a::ls) = ThreadFunc.answers [a] ++ ThreadFunc.answers ls :=
      List.filterMap_append (l := [a])
    have hpre := h.answers
    rw [hcons,hanswers] at hpre
    exact hpre

/-- A read that fails. -/
theorem Left.fails {k : ℕ} (h : Left ds batches s (.readFails::ls) t) (pc : s.pc = .reading k) :
    ∃ batches', batches = none::batches' ∧
      Left [] batches' (s.goto (.head true (k+1)) []) ls t := by
  obtain ⟨rest,hrest,hends⟩ := h.reads
  have hnil : ds = [] := h.idle (by rw [pc]; rfl)
  subst hnil
  cases batches with
  | nil => cases hrest
  | cons batch batches =>
    obtain ⟨hbatch,htail⟩ := List.cons.inj hrest
    cases batch with
    | some ds => cases hbatch
    | none =>
      have hfew := h.few
      rw [pc,List.count_cons_self] at hfew
      refine ⟨batches,rfl,h.observer,?_,?_,fun _ => rfl,List.not_mem_of_not_mem_cons h.running,
        setUp_tail h.setUp,⟨rest,htail,hends⟩,h.answers⟩
      · change k+1 + batches.count none < _
        change k + (batches.count none + 1) < _ at hfew
        omega
      · intro hbatch
        cases hbatch

/-- A read that succeeds. -/
theorem Left.reads_batch {k : ℕ} {buffer : List Byte} {q : List InotifyEvent}
    (h : Left ds batches s (.read buffer::ls) t) (pc : s.pc = .reading k)
    (filled : eventList.fill buffer s.queue = some q) :
    ∃ ds' batches', batches = some ds'::batches' ∧
      Left ds' batches' (({ s with queue := q, curEventFilename := none }).goto
        (.dispatching k) []) ls t := by
  obtain ⟨rest,hrest,hends⟩ := h.reads
  have hnil : ds = [] := h.idle (by rw [pc]; rfl)
  subst hnil
  cases batches with
  | nil => cases hrest
  | cons batch batches =>
    obtain ⟨hbatch,htail⟩ := List.cons.inj hrest
    cases batch with
    | none => cases hbatch
    | some ds' =>
      have hparse : InotifyEvent.parse buffer = some (ds'.map Prod.fst) := by
        have hcontents := parse_contents ds'
        rwa [← hbatch] at hcontents
      have hq : q = ds'.map Prod.fst := Option.some.inj (filled.symm.trans hparse)
      have hfew := h.few
      rw [pc,List.count_cons_of_ne (by simp)] at hfew
      refine ⟨ds',batches,rfl,h.observer,hfew,fun _ => hq,?_,List.not_mem_of_not_mem_cons h.running,
        setUp_tail h.setUp,⟨rest,htail,hends⟩,?_⟩
      · intro hidle
        cases hidle
      · have hpre := h.answers
        rw [List.reduceOption_cons_of_some,List.flatten_cons,List.map_append] at hpre
        exact hpre

/-- An event that is taken from the queue. -/
theorem Left.dispatches {k : ℕ} {b : Bool} {e : InotifyEvent} {q : List InotifyEvent}
    (h : Left ds batches s (.dispatch b::ls) t) (pc : s.pc = .dispatching k)
    (taken : eventList.dequeue s.queue = some (some e,q)) {actions : List Action}
    {cur : Option InotifyEvent} : ∃ ds', ds = (e,b)::ds' ∧
      Left ds' batches (({ s with queue := q, curEventFilename := cur }).goto
        (.checking k (classify e b)) actions) ls t := by
  have hqueue : s.queue = ds.map Prod.fst := h.queue (by rw [pc]; rfl)
  rw [hqueue] at taken
  cases ds with
  | nil => cases taken
  | cons d ds' =>
    cases taken
    obtain ⟨hb,hpre⟩ := List.cons_prefix_cons.mp h.answers
    have hfew := h.few
    rw [pc] at hfew
    refine ⟨ds',by rw [hb],h.observer,hfew,fun _ => rfl,?_,
      List.not_mem_of_not_mem_cons h.running,setUp_tail h.setUp,h.reads,hpre⟩
    intro hidle
    cases hidle

/-- After a step the rest of the run is left; and where the names to come can be printed, so could
those before it. -/
theorem Left.step (h : Left ds batches s (a::ls) t) (hm : Moves w eventList s a s') :
    s.pc.Prints s.curEventFilename ds batches ∨ ∃ ds' batches', Left ds' batches' s' ls t ∧
      (s'.pc.Prints s'.curEventFilename ds' batches' →
        s.pc.Prints s.curEventFilename ds batches) := by
  cases hm with
  | stops => exact absurd List.mem_cons_self h.running
  | @inits success pc =>
    obtain rfl := success_of_setUp h.setUp (.inl rfl)
    have hnil := h.idle (by rw [pc]; rfl)
    refine .inr ⟨ds,batches,h.silent (w := w) (.inits pc) rfl rfl (by rw [pc]; rfl)
      (fun h => by cases h) fun _ => hnil,fun hprints => ?_⟩
    rw [pc]
    exact hprints
  | @adds success p pc path =>
    obtain rfl := success_of_setUp h.setUp (.inr rfl)
    have hnil := h.idle (by rw [pc]; rfl)
    refine .inr ⟨ds,batches,h.silent (w := w) (.adds pc path) rfl rfl (by rw [pc]; rfl)
      (fun h => by cases h) fun _ => hnil,fun hprints => ?_⟩
    rw [pc]
    exact hprints
  | @loops loop k pc =>
    have hnil := h.idle (by rw [pc]; rfl)
    cases loop with
    | false =>
      left
      rw [pc]
      trivial
    | true =>
      have hlt : k < kFailedRetryTimes := by
        have hfew := h.few
        rw [pc] at hfew
        exact Nat.lt_of_le_of_lt (Nat.le_add_right _ _) hfew
      have hmoves : Moves w eventList s .next _ := .loops pc
      rw [if_pos ⟨rfl,hlt⟩] at hmoves ⊢
      refine .inr ⟨ds,batches,h.silent hmoves rfl rfl (by rw [pc]; rfl) (fun h => by cases h)
        fun _ => hnil,fun hprints => ?_⟩
      rw [pc]
      exact hprints
  | fails pc =>
    obtain ⟨batches',rfl,hleft⟩ := h.fails pc
    refine .inr ⟨[],batches',hleft,fun hprints => ?_⟩
    rw [pc]
    exact hprints
  | reads pc fits filled =>
    obtain ⟨ds',batches',rfl,hleft⟩ := h.reads_batch pc filled
    refine .inr ⟨ds',batches',hleft,fun hprints => ?_⟩
    obtain ⟨hbatch,hrest⟩ := hprints
    rw [pc]
    exact Bool.and_eq_true_iff.mpr ⟨hbatch,by simpa using hrest⟩
  | dispatches pc taken prints =>
    obtain ⟨ds',rfl,hleft⟩ := h.dispatches pc taken
    refine .inr ⟨ds',batches,hleft,fun hprints => ?_⟩
    rw [pc]
    rcases hprints with hdelete | ⟨hbatch,hrest⟩
    · refine ⟨Bool.and_eq_true_iff.mpr ⟨prints,?_⟩,.inl ?_⟩
      · simp [hdelete]
      · simp [classified, hdelete]
    · refine ⟨Bool.and_eq_true_iff.mpr ⟨prints,?_⟩,hrest.imp_left fun h => ?_⟩
      · exact (Bool.or_eq_true _ _).mpr (.inr hbatch)
      · exact List.mem_cons_of_mem _ h
  | @empties k q q' pc taken destroyed =>
    have hqueue := h.queue (by rw [pc]; rfl)
    rw [hqueue] at taken
    cases ds with
    | cons d ds => cases taken
    | nil =>
      refine .inr ⟨[],batches,h.silent (w := w) (.empties pc (by rw [hqueue]; exact taken) destroyed)
        rfl rfl (by rw [pc]; rfl) (fun h => by cases h) fun _ => rfl,fun hprints => ?_⟩
      rw [pc]
      exact ⟨rfl,.inr hprints⟩
  | breaks pc stopped =>
    rw [h.observer] at stopped
    cases stopped
  | checks pc running =>
    have hqueue := h.queue (by rw [pc]; rfl)
    refine .inr ⟨ds,batches,h.silent (w := w) (.checks pc running) rfl rfl (by rw [pc]; rfl)
      (fun _ => hqueue) (fun h => by cases h),fun hprints => ?_⟩
    rw [pc]
    exact hprints
  | notifies pc other =>
    have hqueue := h.queue (by rw [pc]; rfl)
    refine .inr ⟨ds,batches,h.silent (w := w) (.notifies pc other) rfl rfl (by rw [pc]; rfl)
      (fun _ => hqueue) (fun h => by cases h),fun hprints => ?_⟩
    rw [pc]
    exact .inr hprints
  | deletes pc =>
    left
    rw [pc]
    exact .inl rfl
  | leaves pc =>
    left
    rw [pc]
    trivial
  | closes pc =>
    left
    rw [pc]
    trivial

/-- A run gets to where it settles only past names that can be printed. -/
theorem Left.prints (h : Run (Step w eventList) s ls t) (hleft : Left ds batches s ls t) :
    s.pc.Prints s.curEventFilename ds batches := by
  induction h generalizing ds batches with
  | nil =>
    obtain ⟨rest,hrest,hreturned | ⟨hnil,k,hreading⟩⟩ := hleft.reads
    · rw [hreturned]
      trivial
    · rw [hnil] at hrest
      rw [List.map_eq_nil_iff.mp hrest.symm,hreading]
      rfl
  | cons head _ ih =>
    rcases hleft.step (Moves.of_step head) with hprints | ⟨ds',batches',hleft',hback⟩
    · exact hprints
    · exact hback (ih hleft')

/-- To settle takes that the names can be printed. -/
theorem prints_of_settles (ho : o.isStopped = false) (hfails : batches.count none < kFailedRetryTimes)
    {s : Watch (QueueStruct InotifyEvent)}
    (h : Run (Step w eventQueue) (.init o (queueCreate [])) ls s) (hs : Settles batches ls s) :
    prints batches := by
  obtain ⟨es,hrun,-⟩ := eventQueue_refines.run h (queued_queueCreate [])
  have hfew : Pc.entry.failedTimes + batches.count none < kFailedRetryTimes := by
    simpa [Pc.failedTimes] using hfails
  have hleft : Left [] batches (.init o []) ls (s.over es) :=
    ⟨ho,hfew,nofun,fun _ => rfl,hs.running,hs.setUp,hs.reads,hs.answers⟩
  exact hleft.prints hrun

end Names

/-- Occurrences agree where their events and their answers do. -/
theorem occurrences_prefix (hfst : ds'.map Prod.fst <+: ds.map Prod.fst)
    (hsnd : ds'.map Prod.snd <+: ds.map Prod.snd) : ds' <+: ds := by
  induction ds' generalizing ds with
  | nil => exact List.nil_prefix
  | cons d ds' ih =>
    cases ds with
    | nil => cases List.prefix_nil.mp hfst
    | cons d₀ ds =>
      obtain ⟨hd,hfst⟩ := List.cons_prefix_cons.mp hfst
      obtain ⟨hd',hsnd⟩ := List.cons_prefix_cons.mp hsnd
      exact List.cons_prefix_cons.mpr ⟨Prod.ext hd hd',ih hfst hsnd⟩

/-- At the end of the thread, or where it waits and all is handled, the delegate was told of the
events up to the first `Delete`. -/
theorem Account.notified_eq_cut {accepts : Event → Bool} {queue : List InotifyEvent} {A : Account}
    {pc : Pc} {l : List Event} (h : A.At accepts queue pc) (hsetUp : A.setUpFails = false)
    (hfew : A.failures < kFailedRetryTimes) (hends : pc = .returned ∨ l = [] ∧ ∃ k, pc = .reading k) :
    A.notified = (cut (A.done ++ l)).filter accepts := by
  rcases hends with rfl | ⟨rfl,k,rfl⟩
  · rcases h with hcut | hreported | ⟨hfails,-⟩
    · obtain ⟨D,hdone,hD,hnotified⟩ := hcut.told
      rw [hnotified,hdone,List.append_assoc]
      exact congrArg _ (cut_append_delete hD).symm
    · exact absurd hreported.many hfew.ne
    · rw [hsetUp] at hfails
      cases hfails
  · obtain ⟨hlive,-⟩ := h
    rw [hlive.told,List.append_nil,cut_of_notMem hlive.live]

variable {s : Watch (QueueStruct InotifyEvent)}

/-- A run that has settled has told the delegate of the events that the filter lets pass, up to
the first `Delete`. -/
theorem calls_of_settles (ho : o.isStopped = false) (hds : batches.reduceOption.flatten = ds)
    (hfails : batches.count none < kFailedRetryTimes)
    (h : Run (Step w eventQueue) (.init o (queueCreate [])) ls s) (hs : Settles batches ls s) :
    calls s.trace =
      ((cut (classified ds)).filter o.accepts).map fun event => (event,cString o.mPath) := by
  obtain ⟨es,hrun,-⟩ := eventQueue_refines.run h (queued_queueCreate [])
  obtain ⟨done,A,htally⟩ := exists_tally ho hrun hs.running
  obtain ⟨rest,hreads,hsettled⟩ := hs.reads
  obtain ⟨b₁,b₂,rfl,hb₁,hb₂⟩ := List.map_eq_append_iff.mp hreads.symm
  have hread : events ls = b₁.reduceOption.flatten.map Prod.fst := by
    rw [events_eq_reads,← hb₁,flatMap_contents]
  have hall : ds.map Prod.fst = events ls ++ b₂.reduceOption.flatten.map Prod.fst := by
    rw [← hds,hread,List.reduceOption_append,List.flatten_append,List.map_append]
  have hfew : A.failures < kFailedRetryTimes := by
    rw [htally.failed,failures_eq_reads,← hb₁,count_none_contents]
    rw [List.count_append] at hfails
    omega
  have hpre : done <+: ds := by
    refine occurrences_prefix ?_ (htally.asked ▸ hds ▸ hs.answers)
    rw [hall,htally.read,List.append_assoc]
    exact List.prefix_append _ _
  have htold : calls s.trace = A.notified.map fun event => (event,cString o.mPath) := htally.told
  obtain ⟨tail,rfl⟩ := hpre
  have hclassified : classified (done ++ tail) = A.done ++ classified tail := by
    rw [htally.handled]
    exact List.map_append
  have hends : s.pc = .returned ∨ classified tail = [] ∧ ∃ k, s.pc = .reading k := by
    refine hsettled.imp_right fun ⟨hrest,k,hpc⟩ => ⟨?_,k,hpc⟩
    obtain ⟨-,-,-,hnone⟩ := htally.at_pc hpc
    subst hrest
    obtain rfl : b₂ = [] := List.map_eq_nil_iff.mp hb₂
    rw [htally.read,hnone] at hall
    have htail : tail = [] := by simpa using hall
    rw [htail]
    rfl
  have hsetUp : A.setUpFails = false := htally.started.trans hs.setUp
  rw [htold,hclassified,Account.notified_eq_cut htally.stands hsetUp hfew hends]

/-- Batches that fit, with names that can be printed, are read to the end, or until the thread is
over. -/
theorem exists_settles {p : List Byte} (ho : o.isStopped = false)
    (hpath : watchPath w (cString o.mPath) = some p) (hfits : Fits batches)
    (hprints : prints batches) (hfails : batches.count none < kFailedRetryTimes) :
    ∃ ls s, Run (Step w eventQueue) (.init o (queueCreate [])) ls s ∧ Settles batches ls s := by
  have hinit : Step w eventList (.init true) (.init o []) _ := Moves.step (.inits rfl)
  have hadd : Step w eventList (.addWatch true)
      ((Watch.init o []).goto .adding [.useObserver,.inotifyInit]) _ :=
    Moves.step (.adds rfl hpath)
  have hsetUp : Advance w (.init o []) [.init true,.addWatch true] [] [] _ :=
    ⟨.cons hinit (.cons hadd .nil),by simp,rfl,rfl,rfl⟩
  obtain ⟨ls,rs,bs,t,hbatches,hpre,rest,hreads,hends⟩ := advance_batches (w := w) (k := 0)
    (s := (((Watch.init o []).goto .adding [.useObserver,.inotifyInit]).goto (.head true 0)
      [.addWatch p])) hfits hprints ho rfl (by simpa using hfails)
  have hall := hsetUp.append hbatches
  obtain ⟨q,hrun,-⟩ := eventList_refines.run hall.run (queued_queueCreate [])
  refine ⟨_,_,hrun,hall.running,hall.setUp,⟨rest,?_,hends⟩,?_⟩
  · rw [hall.reads]
    exact hreads
  · rw [hall.answers]
    exact hpre

/-- Read in these batches, the events are dealt with, and whenever they are, this is what the
delegate was told. -/
structure Tells (w : ℕ) (o : FileObserver) (batches : List (Option (List Occurrence)))
    (told : List Event) : Prop where
  settles : ∃ ls s,
    Run (Step w eventQueue) (.init o (queueCreate [])) ls s ∧ Settles batches ls s
  calls : ∀ ls s, Run (Step w eventQueue) (.init o (queueCreate [])) ls s →
    Settles batches ls s → calls s.trace = told.map fun event => (event,cString o.mPath)

/-- However the events are split into reads, and whichever reads fail, the delegate is told of the
same ones, those the filter lets pass, up to the first `Delete`; and the thread gets that far just
where no name is printed in a batch whose entry was freed. -/
theorem tells_iff (ho : o.isStopped = false) (hds : batches.reduceOption.flatten = ds)
    (hfails : batches.count none < kFailedRetryTimes) :
    (∀ p, watchPath w (cString o.mPath) = some p → Fits batches →
      (Tells w o batches ((cut (classified ds)).filter o.accepts) ↔ prints batches)) ∧
    ∀ ls s, Run (Step w eventQueue) (.init o (queueCreate [])) ls s → Settles batches ls s →
      calls s.trace =
        ((cut (classified ds)).filter o.accepts).map fun event => (event,cString o.mPath) := by
  have hcalls : ∀ ls s, Run (Step w eventQueue) (.init o (queueCreate [])) ls s →
      Settles batches ls s → calls s.trace =
        ((cut (classified ds)).filter o.accepts).map fun event => (event,cString o.mPath) :=
    fun ls s h hs => calls_of_settles ho hds hfails h hs
  refine ⟨fun p hpath hfits => ⟨fun htells => ?_,fun hprints => ?_⟩,hcalls⟩
  · obtain ⟨ls,s,hrun,hsettles⟩ := htells.settles
    exact prints_of_settles ho hfails hrun hsettles
  · exact ⟨exists_settles ho hpath hfits hprints hfails,hcalls⟩

/-- A file "a" in "/p" changes an attribute, and "/p" is opened and deleted. -/
def opened : InotifyEvent := { ignored with mask := inOpen }
def attributed : InotifyEvent := ⟨1,inAttrib,0,[0x61,0,0,0],by decide⟩
def threeEvents : List Occurrence := [(attributed,true),(opened,true),(deleteSelf,false)]

/-- The events come in two reads, with one in between that fails. -/
def twoBatches : List (Option (List Occurrence)) :=
  [some [(attributed,true),(opened,true)],none,some [(deleteSelf,false)]]

theorem tells_twoBatches : Tells 32 (.init [0x2F,0x70]) twoBatches
    ((cut (classified threeEvents)).filter (FileObserver.init [0x2F,0x70]).accepts) := by
  have hfits : Fits twoBatches := by
    intro buffer h
    simp only [twoBatches, List.map_cons, List.map_nil, List.mem_cons, List.not_mem_nil, or_false]
      at h
    rcases h with h | h | h <;> cases h <;> decide
  exact ((tells_iff rfl rfl (by decide)).1 [0x2F,0x70] rfl hfits).mpr (by decide)

/-- The events come in one read: the name of the file is printed for the deletion, after its entry
was freed. -/
def oneBatch : List (Option (List Occurrence)) := [some threeEvents]

theorem not_tells_oneBatch : ¬ ∀ o batches ds p, o.isStopped = false →
    batches.reduceOption.flatten = ds → batches.count none < kFailedRetryTimes →
      watchPath 32 (cString o.mPath) = some p → Fits batches →
        Tells 32 o batches ((cut (classified ds)).filter o.accepts) := by
  intro h
  have hfits : Fits oneBatch := by
    intro buffer hbuffer
    cases List.mem_singleton.mp hbuffer
    decide
  have htells := h (.init [0x2F,0x70]) oneBatch threeEvents [0x2F,0x70] rfl rfl (by decide) rfl hfits
  obtain ⟨ls,s,hrun,hsettles⟩ := htells.settles
  have hprints : prints oneBatch := prints_of_settles rfl (by decide) hrun hsettles
  exact absurd hprints (by decide)

end Independence

end ThreadFunc
end UninstallObserver.Observer
