import Mathlib.Data.List.ReduceOption
import UninstallObserver.Observer.EventQueue

/-! Sequences of calls of the event queue, and of what its caller does with the entries. -/
namespace UninstallObserver.Observer
open Imperative LinkedCells

variable {α : Type}

/-- A call of the queue, or what its caller does with an entry. -/
inductive QueueCall (α : Type) where
  /-- `malloc` gives the address `d`, and the event is copied there; the link is what stood there. -/
  | malloc (d : ℕ) (next : Option ℕ) (inotEv : α)
  | enqueue (d : ℕ)
  | dequeue
  | free (d : ℕ)
  deriving DecidableEq, Repr

/-- One call, with what it returns if it is `queue_dequeue`: NULL, or an entry with its event. -/
def queueCall : QueueCall α → QueueCode α (List (Option (ℕ × α)))
  | .malloc d next x => do
    Exec.modify fun q => { q with heap := q.heap.mallocAt d ⟨next,x⟩ }
    pure []
  | .enqueue d => do
    queueEnqueue d
    pure []
  | .dequeue => do
    match ← queueDequeue with
    | none => pure [none]
    | some first => do
      let x ← inotEv first
      pure [some (first,x)]
  | .free d => do
    freeEntry d
    pure []

/-- The calls one after another, with what `queue_dequeue` returns each time. -/
def queueCalls : List (QueueCall α) → QueueCode α (List (Option (ℕ × α)))
  | [] => pure []
  | call::calls => do
    let out ← queueCall call
    let outs ← queueCalls calls
    pure (out ++ outs)

/-- The entries that are allocated, with their events, and those that are queued, first to last. -/
structure Entries (α : Type) where
  allocated : ℕ → Option α
  queued : List (ℕ × α)

namespace Entries

/-- Nothing is queued yet. -/
def init (heap : Heap α) : Entries α := ⟨heap.contents,[]⟩

/-- The caller may do that: `malloc` gives an address that is not in use, and an entry that is
queued or freed is allocated and not in the queue. -/
def allows (E : Entries α) : QueueCall α → Bool
  | .malloc d _ _ => (E.allocated d).isNone
  | .enqueue d | .free d => (E.allocated d).isSome && d ∉ E.queued.map Prod.fst
  | .dequeue => true

/-- What a call puts into the queue. -/
def enters (E : Entries α) : QueueCall α → List (ℕ × α)
  | .enqueue d => (E.allocated d).toList.map fun x => (d,x)
  | _ => []

/-- What a call gives back. -/
def gives (E : Entries α) : QueueCall α → List (Option (ℕ × α))
  | .dequeue => [E.queued.head?]
  | _ => []

/-- What comes of a call: entries go in at the end, and the first one comes out. -/
def call (E : Entries α) : QueueCall α → Entries α
  | .malloc d _ x => { E with allocated := Function.update E.allocated d (some x) }
  | .enqueue d => { E with queued := E.queued ++ E.enters (.enqueue d) }
  | .dequeue => { E with queued := E.queued.tail }
  | .free d => { E with allocated := Function.update E.allocated d none }

/-- The caller may do all of that, one after another. -/
def allowsAll : List (QueueCall α) → Entries α → Bool
  | [], _ => true
  | c::calls, E => E.allows c && allowsAll calls (E.call c)

/-- What comes of the calls. -/
def calls (l : List (QueueCall α)) (E : Entries α) : Entries α := l.foldl call E

/-- The entries that are put into the queue, in order, with the events they have then. -/
def enqueued : List (QueueCall α) → Entries α → List (ℕ × α)
  | [], _ => []
  | c::calls, E => E.enters c ++ enqueued calls (E.call c)

end Entries

/-- The entries of `l`, with their events, are what the queue consists of. -/
structure QueueStruct.Represents (q : QueueStruct α) (l : List (ℕ × α)) : Prop where
  headIffTail : q.head = none ↔ q.tail = none
  /-- Following `next_ptr` from the head visits these entries and then NULL. -/
  visits : Segment q.heap q.head l none
  once : (l.map Prod.fst).Nodup
  endsAtTail : q.tail = (l.map Prod.fst).getLast?
  tailNext : ∀ t, q.tail = some t → ∃ x, q.heap.read t = some ⟨none,x⟩

section Calls
variable {q : QueueStruct α} {l : List (ℕ × α)} {E : Entries α} {c : QueueCall α}
  {calls : List (QueueCall α)}

theorem QueueStruct.Holds.represents (hq : q.Holds l) : q.Represents l where
  headIffTail := hq.head_eq_none_iff.trans hq.tail_eq_none_iff.symm
  visits := hq.links
  once := hq.nodup
  endsAtTail := by rw [hq.tail,List.getLast?_map]
  tailNext := by
    intro t ht
    have htail := hq.tail
    rcases List.eq_nil_or_concat l with rfl | ⟨l',⟨p,x⟩,rfl⟩
    · rw [ht] at htail
      cases htail
    · rw [List.concat_eq_append] at *
      rw [ht] at htail
      simp only [List.getLast?_append, List.getLast?_singleton, Option.some_or, Option.map_some,
        Option.some.injEq] at htail
      subst htail
      exact ⟨x,hq.links.last.2⟩

/-- The heap and the links stand for these entries. -/
structure QueueStruct.Shows (q : QueueStruct α) (E : Entries α) : Prop where
  holds : q.Holds E.queued
  allocated : q.heap.contents = E.allocated

theorem shows_queueCreate (heap : Heap α) : (queueCreate heap).Shows (.init heap) :=
  ⟨holds_queueCreate heap,rfl⟩

namespace QueueStruct.Shows

theorem malloc {d : ℕ} {next : Option ℕ} {x : α} (hq : q.Shows E) (hd : (E.allocated d).isNone) :
    QueueStruct.Shows { q with heap := q.heap.mallocAt d ⟨next,x⟩ } (E.call (.malloc d next x)) := by
  refine ⟨⟨hq.holds.links.congr fun a ha => ?_,hq.holds.tail,hq.holds.nodup⟩,?_⟩
  · have hne : d ≠ a := by
      intro hda
      have hsome := hq.holds.links.read_isSome ha
      rw [← hda,← Heap.isSome_contents,hq.allocated] at hsome
      rw [Option.isNone_iff_eq_none.mp hd] at hsome
      cases hsome
    rw [Heap.read_mallocAt,if_neg hne]
  · rw [Heap.contents_mallocAt,hq.allocated]
    rfl

theorem enqueue {d : ℕ} {x : α} (hq : q.Shows E) (hd : E.allocated d = some x)
    (hout : d ∉ E.queued.map Prod.fst) :
    ∃ q', queueEnqueue d q = .returned () q' ∧ q'.Shows (E.call (.enqueue d)) := by
  have hsome : (q.heap.contents d).isSome := by
    rw [hq.allocated,hd]
    rfl
  rw [Heap.isSome_contents] at hsome
  obtain ⟨⟨next,y⟩,hread⟩ := Option.isSome_iff_exists.mp hsome
  obtain rfl : y = x := by
    have hvalue : q.heap.contents d = some y := by
      rw [Heap.contents,hread]
      rfl
    exact Option.some.inj (hvalue.symm.trans ((congrFun hq.allocated d).trans hd))
  obtain ⟨q',hends,hholds,hframe⟩ := hq.holds.enqueue hread hout
  have hentries : E.call (.enqueue d) = { E with queued := E.queued ++ [(d,y)] } := by
    simp [Entries.call, Entries.enters, hd]
  refine ⟨q',hends,?_⟩
  rw [hentries]
  refine ⟨hholds,?_⟩
  funext a
  rw [← hq.allocated]
  by_cases ha : a ∈ (E.queued ++ [(d,y)]).map Prod.fst
  · obtain ⟨c,hc,rfl⟩ := List.mem_map.mp ha
    rw [hholds.links.contents hc]
    rcases List.mem_append.mp hc with hc | hc
    · exact (hq.holds.links.contents hc).symm
    · rw [List.mem_singleton.mp hc,hq.allocated,hd]
  · rw [List.map_append,List.mem_append,not_or] at ha
    have hne : a ≠ d := fun had => ha.2 (List.mem_singleton.mpr had)
    rw [Heap.contents,hframe a hne ha.1]
    rfl

theorem dequeue (hq : q.Shows E) : ∃ q', queueCall .dequeue q =
    .returned (E.gives .dequeue) q' ∧ q'.Shows (E.call .dequeue) := by
  obtain ⟨allocated,queued⟩ := E
  obtain ⟨hholds,hallocated⟩ := hq
  cases queued with
  | nil =>
    refine ⟨q,?_,hholds,hallocated⟩
    rw [queueCall,Exec.bind_of_returned (QueueStruct.Holds.dequeue_nil hholds)]
    rfl
  | cons c l =>
    obtain ⟨p,x⟩ := c
    obtain ⟨q',hdequeue,hholds',hp,hframe⟩ := QueueStruct.Holds.dequeue_cons hholds
    refine ⟨q',?_,hholds',?_⟩
    · rw [queueCall,Exec.bind_of_returned hdequeue]
      dsimp only
      rw [Exec.bind_of_returned (inotEv_of_read hp)]
      rfl
    · change q'.heap.contents = allocated
      have hx : q.heap.contents p = some x := hholds.links.contents List.mem_cons_self
      rw [← show q.heap.contents = allocated from hallocated]
      funext a
      by_cases hap : a = p
      · rw [hap,hx,Heap.contents,hp]
        rfl
      · rw [Heap.contents,hframe a hap]
        rfl

theorem free {d : ℕ} (hq : q.Shows E) (hd : (E.allocated d).isSome)
    (hout : d ∉ E.queued.map Prod.fst) :
    ∃ q', freeEntry d q = .returned () q' ∧ q'.Shows (E.call (.free d)) := by
  rw [← hq.allocated,Heap.isSome_contents] at hd
  obtain ⟨⟨next,x⟩,hread⟩ := Option.isSome_iff_exists.mp hd
  refine ⟨_,freeEntry_of_read hread,⟨?_,hq.holds.tail,hq.holds.nodup⟩,?_⟩
  · exact hq.holds.links.congr_of_notMem hout fun a ha => Heap.read_free_of_ne ha
  · rw [Heap.contents_free,hq.allocated]
    rfl

/-- One call does to the queue what it does to its entries. -/
theorem call (hq : q.Shows E) (hc : E.allows c) :
    ∃ q', queueCall c q = .returned (E.gives c) q' ∧ q'.Shows (E.call c) := by
  cases c with
  | malloc d next x => exact ⟨_,rfl,hq.malloc hc⟩
  | enqueue d =>
    obtain ⟨hd,hout⟩ := Bool.and_eq_true_iff.mp hc
    obtain ⟨x,hx⟩ := Option.isSome_iff_exists.mp hd
    obtain ⟨q',hends,hq'⟩ := hq.enqueue hx (of_decide_eq_true hout)
    refine ⟨q',?_,hq'⟩
    rw [queueCall,Exec.bind_of_returned hends]
    rfl
  | dequeue => exact hq.dequeue
  | free d =>
    obtain ⟨hd,hout⟩ := Bool.and_eq_true_iff.mp hc
    obtain ⟨q',hends,hq'⟩ := hq.free hd (of_decide_eq_true hout)
    refine ⟨q',?_,hq'⟩
    rw [queueCall,Exec.bind_of_returned hends]
    rfl

end QueueStruct.Shows

theorem Entries.gives_append (E : Entries α) (c : QueueCall α) :
    (E.gives c).reduceOption ++ (E.call c).queued = E.queued ++ E.enters c := by
  cases c with
  | malloc => exact (List.append_nil _).symm
  | enqueue => rfl
  | dequeue => cases h : E.queued <;> simp [gives, Entries.call, enters, h]
  | free => exact (List.append_nil _).symm

/-- The entries come out in the order in which they went in, and with their events. -/
theorem QueueStruct.Shows.run (hq : q.Shows E) (hcalls : Entries.allowsAll calls E) :
    ∃ outs q', queueCalls calls q = .returned outs q' ∧ q'.Shows (Entries.calls calls E) ∧
      outs.reduceOption ++ (Entries.calls calls E).queued =
        E.queued ++ Entries.enqueued calls E := by
  induction calls generalizing q E with
  | nil => exact ⟨[],q,rfl,hq,(List.append_nil _).symm⟩
  | cons c calls ih =>
    obtain ⟨hc,hcalls⟩ := Bool.and_eq_true_iff.mp hcalls
    obtain ⟨q₁,hcall,hq₁⟩ := hq.call hc
    obtain ⟨outs,q',hends,hq',horder⟩ := ih hq₁ hcalls
    refine ⟨E.gives c ++ outs,q',?_,hq',?_⟩
    · rw [queueCalls,Exec.bind_of_returned hcall,Exec.bind_of_returned hends]
      rfl
    · calc (E.gives c ++ outs).reduceOption ++ (Entries.calls calls (E.call c)).queued
          = (E.gives c).reduceOption ++ ((E.call c).queued ++ Entries.enqueued calls (E.call c)) := by
            rw [List.reduceOption_append,List.append_assoc,horder]
        _ = E.queued ++ (E.enters c ++ Entries.enqueued calls (E.call c)) := by
            rw [← List.append_assoc,E.gives_append,List.append_assoc]

/-- From an empty queue, any calls on fresh entries keep the queue well linked, give the entries
back in order and with the events they were enqueued with, and leave the rest of them to be freed,
each once; an address may come back once it was dequeued and freed. -/
theorem queue_fifo {heap : Heap α} (hcalls : Entries.allowsAll calls (.init heap)) :
    ∃ outs q rest, queueCalls calls (queueCreate heap) = .returned outs q ∧
      q.Represents rest ∧
      outs.reduceOption ++ rest = Entries.enqueued calls (.init heap) ∧
      q.heap.contents = (Entries.calls calls (.init heap)).allocated ∧
      (∃ first q', queueDequeue q = .returned first q' ∧ (first = none ↔ rest = [])) ∧
      ∀ fuel, rest.length < fuel →
        queueDestroy fuel q = .returned () (queueCreate (q.heap.freeAll (rest.map Prod.fst))) ∧
        (∀ a, a ∉ rest.map Prod.fst →
          (q.heap.freeAll (rest.map Prod.fst)).read a = q.heap.read a) ∧
        (((Entries.enqueued calls (.init heap)).map Prod.fst).Nodup →
          ∀ c, some c ∈ outs → c.1 ∉ rest.map Prod.fst) := by
  obtain ⟨outs,q,hends,hshows,horder⟩ := (shows_queueCreate heap).run hcalls
  refine ⟨outs,q,_,hends,hshows.holds.represents,horder,hshows.allocated,?_,fun fuel hfuel =>
    ⟨hshows.holds.destroy hfuel,fun a ha => ?_,fun honce c hc hmem => ?_⟩⟩
  · have hholds := hshows.holds
    cases hrest : (Entries.calls calls (.init heap)).queued with
    | nil =>
      rw [hrest] at hholds
      exact ⟨none,q,hholds.dequeue_nil,by simp⟩
    | cons c rest =>
      rw [hrest] at hholds
      obtain ⟨q',hdequeue,-⟩ := hholds.dequeue_cons
      exact ⟨some c.1,q',hdequeue,by simp⟩
  · rw [Heap.read_freeAll,if_neg ha]
  · have hnodup : (outs.reduceOption.map Prod.fst ++
        (Entries.calls calls (.init heap)).queued.map Prod.fst).Nodup := by
      rw [← List.map_append,horder]
      exact honce
    have hout : c.1 ∈ outs.reduceOption.map Prod.fst :=
      List.mem_map_of_mem (List.reduceOption_mem_iff.mpr hc)
    exact (List.nodup_append.mp hnodup).2.2 _ hout _ hmem rfl

/-- Three entries with events of their own, and an address that was freed. -/
def sampleHeap : Heap ℕ := [some ⟨none,10⟩,some ⟨some 7,11⟩,none,some ⟨none,12⟩]

/-- The queue runs empty once in between, and the entry that was freed comes back. -/
def sampleCalls : List (QueueCall ℕ) :=
  [.enqueue 3,.dequeue,.dequeue,.free 3,.enqueue 0,.malloc 3 (some 5) 13,.enqueue 3,.enqueue 1,
    .dequeue]

theorem queue_fifo_sample : ∃ outs q rest,
    queueCalls sampleCalls (queueCreate sampleHeap) = .returned outs q ∧ q.Represents rest ∧
      outs.reduceOption ++ rest = [(3,12),(0,10),(3,13),(1,11)] := by
  have hallowed : Entries.allowsAll sampleCalls (.init sampleHeap) := by decide
  obtain ⟨outs,q,rest,hcalls,hrest,horder,-⟩ := queue_fifo hallowed
  exact ⟨outs,q,rest,hcalls,hrest,horder⟩

end Calls

end UninstallObserver.Observer
