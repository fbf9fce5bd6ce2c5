import Mathlib.Data.List.Perm.Subperm
import UninstallObserver.Lib.LinkedCells
import UninstallObserver.Lib.Outcome

/-! The queue of events between the read and their handling. -/
namespace UninstallObserver.Observer
open Imperative LinkedCells

/-- The heap of entries and what `queue_struct` holds. -/
structure QueueStruct (α : Type) where
  heap : Heap α
  head : Option ℕ
  tail : Option ℕ
  deriving DecidableEq, Repr

variable {α : Type}

abbrev QueueCode (α β : Type) := Exec Empty (QueueStruct α) β

/-- `p->next_ptr`. -/
def nextPtr (p : ℕ) : QueueCode α (Option ℕ) := do
  let q ← Exec.get
  match q.heap.read p with
  | some entry => pure entry.next
  | none => Exec.undefined

/-- `p->next_ptr = next`. -/
def setNextPtr (p : ℕ) (next : Option ℕ) : QueueCode α Unit := do
  let q ← Exec.get
  match q.heap.read p with
  | some entry => Exec.modify fun q => { q with heap := q.heap.write p { entry with next := next } }
  | none => Exec.undefined

/-- `malloc` and the copy of the event into the new entry. -/
def newEntry (inotEv : α) : QueueCode α ℕ := do
  let q ← Exec.get
  Exec.modify fun q => { q with heap := q.heap.malloc ⟨none,inotEv⟩ }
  pure q.heap.length

/-- `p->inot_ev`. -/
def inotEv (p : ℕ) : QueueCode α α := do
  let q ← Exec.get
  match q.heap.read p with
  | some entry => pure entry.value
  | none => Exec.undefined

def freeEntry (p : ℕ) : QueueCode α Unit := do
  let q ← Exec.get
  match q.heap.read p with
  | some _ => Exec.modify fun q => { q with heap := q.heap.free p }
  | none => Exec.undefined

def queueEmpty (q : QueueStruct α) : Bool := q.head.isNone

def queueCreate (heap : Heap α) : QueueStruct α := ⟨heap,none,none⟩

/-- The loop of `queue_destroy`, one more turn than there are entries. -/
def queueDestroy : ℕ → QueueCode α Unit
  | 0 => Exec.outOfFuel
  | fuel+1 => do
    let q ← Exec.get
    match q.head with
    | none => Exec.modify fun q => { q with head := none, tail := none }
    | some next => do
      let rest ← nextPtr next
      Exec.modify fun q => { q with head := rest }
      setNextPtr next none
      freeEntry next
      queueDestroy fuel

def queueEnqueue (d : ℕ) : QueueCode α Unit := do
  setNextPtr d none
  let q ← Exec.get
  match q.tail with
  | some tail => do
    setNextPtr tail (some d)
    Exec.modify fun q => { q with tail := some d }
  | none => Exec.modify fun q => { q with head := some d, tail := some d }

def queueDequeue : QueueCode α (Option ℕ) := do
  let q ← Exec.get
  match q.head with
  | some first => do
    let next ← nextPtr first
    Exec.modify fun q => { q with head := next, tail := if next.isNone then none else q.tail }
    setNextPtr first none
    pure (some first)
  | none => pure none

/-- The first entry is taken, and freed once its event has been looked at. -/
def nextEvent : QueueCode α (Option α) := do
  match ← queueDequeue with
  | none => pure none
  | some event => do
    let e ← inotEv event
    freeEntry event
    pure (some e)

/-- The entries that are queued, first to last. -/
structure QueueStruct.Holds (q : QueueStruct α) (l : List (ℕ × α)) : Prop where
  links : Segment q.heap q.head l none
  tail : q.tail = l.getLast?.map Prod.fst
  nodup : (l.map Prod.fst).Nodup

section Primitives
variable {q : QueueStruct α} {p : ℕ} {next : Option ℕ} {x : α}

theorem nextPtr_of_read (h : q.heap.read p = some ⟨next,x⟩) :
    nextPtr p q = .returned next q := by
  rw [nextPtr,Exec.bind_of_returned (Exec.get_apply q),h]
  rfl

theorem inotEv_of_read (h : q.heap.read p = some ⟨next,x⟩) : inotEv p q = .returned x q := by
  rw [inotEv,Exec.bind_of_returned (Exec.get_apply q),h]
  rfl

theorem setNextPtr_of_read {next' : Option ℕ} (h : q.heap.read p = some ⟨next,x⟩) :
    setNextPtr p next' q =
      .returned () { q with heap := q.heap.write p ⟨next',x⟩ } := by
  rw [setNextPtr,Exec.bind_of_returned (Exec.get_apply q),h]
  rfl

theorem freeEntry_of_read (h : q.heap.read p = some ⟨next,x⟩) :
    freeEntry p q = .returned () { q with heap := q.heap.free p } := by
  rw [freeEntry,Exec.bind_of_returned (Exec.get_apply q),h]
  rfl

theorem newEntry_apply (x : α) : newEntry x q =
    .returned q.heap.length { q with heap := q.heap.malloc ⟨none,x⟩ } := rfl

end Primitives

section Operations
variable {q : QueueStruct α} {l : List (ℕ × α)} {d p : ℕ} {next : Option ℕ} {x : α}

theorem holds_queueCreate (heap : Heap α) : (queueCreate heap).Holds [] := ⟨.nil,rfl,.nil⟩

theorem QueueStruct.Holds.head_eq_none_iff (hq : q.Holds l) : q.head = none ↔ l = [] := by
  refine ⟨fun h => ?_,fun h => ?_⟩
  · have hlinks := hq.links
    rw [h] at hlinks
    exact hlinks.eq_nil.1
  · subst h
    have hlinks := hq.links
    generalize q.head = head at hlinks ⊢
    cases hlinks
    rfl

/-- Head and tail are NULL together, when nothing is queued. -/
theorem QueueStruct.Holds.tail_eq_none_iff (hq : q.Holds l) : q.tail = none ↔ l = [] := by
  rw [hq.tail]
  simp

theorem QueueStruct.Holds.queueEmpty_iff (hq : q.Holds l) : queueEmpty q ↔ l = [] := by
  rw [← hq.head_eq_none_iff,queueEmpty,Option.isNone_iff_eq_none]

/-- A fresh entry goes to the end of the queue, and no cell outside is touched. -/
theorem QueueStruct.Holds.enqueue (hq : q.Holds l) (hd : q.heap.read d = some ⟨next,x⟩)
    (hfresh : d ∉ l.map Prod.fst) : ∃ q', queueEnqueue d q = .returned () q' ∧
      q'.Holds (l ++ [(d,x)]) ∧
      ∀ a, a ≠ d → a ∉ l.map Prod.fst → q'.heap.read a = q.heap.read a := by
  have hnodup : ((l ++ [(d,x)]).map Prod.fst).Nodup := by
    rw [List.map_append]
    refine List.nodup_append.mpr ⟨hq.nodup,List.pairwise_singleton _ _,fun a ha b hb hab => ?_⟩
    rw [List.map_singleton,List.mem_singleton] at hb
    subst hab hb
    exact hfresh ha
  let heap₁ := q.heap.write d ⟨none,x⟩
  have hheap₁ : ∀ a, a ≠ d → heap₁.read a = q.heap.read a := fun a ha =>
    Heap.read_write_of_ne hd ha
  have hd₁ : heap₁.read d = some ⟨none,x⟩ := Heap.read_write_self hd
  unfold queueEnqueue
  rw [Exec.bind_of_returned (setNextPtr_of_read hd),Exec.bind_of_returned (Exec.get_apply _)]
  rcases List.eq_nil_or_concat l with rfl | ⟨l',⟨t,y⟩,rfl⟩
  · have htail : q.tail = none := hq.tail
    simp only [htail]
    exact ⟨_,rfl,⟨.cons hd₁ .nil,rfl,hnodup⟩,fun a ha _ => hheap₁ a ha⟩
  · rw [List.concat_eq_append] at *
    have htail : q.tail = some t := by
      rw [hq.tail]
      simp
    have hlinks₁ : Segment heap₁ q.head (l' ++ [(t,y)]) none :=
      hq.links.congr_of_notMem hfresh hheap₁
    have ht₁ : heap₁.read t = some ⟨none,y⟩ := hlinks₁.last.2
    simp only [htail]
    rw [Exec.bind_of_returned (setNextPtr_of_read ht₁)]
    refine ⟨_,rfl,⟨?_,by simp,hnodup⟩,fun a ha hal => ?_⟩
    · simpa using hlinks₁.link hq.nodup hfresh hd₁
    · have hat : a ≠ t := by
        intro hat
        simp [hat] at hal
      exact (Heap.read_write_of_ne ht₁ hat).trans (hheap₁ a ha)

/-- From an empty queue NULL is taken. -/
theorem QueueStruct.Holds.dequeue_nil (hq : q.Holds []) :
    queueDequeue q = .returned none q := by
  rw [queueDequeue,Exec.bind_of_returned (Exec.get_apply q),hq.head_eq_none_iff.mpr rfl]
  rfl

/-- The first entry is taken, with its event and no link, and no cell outside is touched. -/
theorem QueueStruct.Holds.dequeue_cons (hq : q.Holds ((p,x)::l)) :
    ∃ q', queueDequeue q = .returned (some p) q' ∧ q'.Holds l ∧
      q'.heap.read p = some ⟨none,x⟩ ∧ ∀ a, a ≠ p → q'.heap.read a = q.heap.read a := by
  have hlinks := hq.links
  generalize hhead : q.head = head at hlinks
  cases hlinks with
  | @cons _ _ next _ _ cell tail =>
    have hp : p ∉ l.map Prod.fst := (List.nodup_cons.mp hq.nodup).1
    have hheap : ∀ a, a ≠ p → (q.heap.write p ⟨none,x⟩).read a = q.heap.read a :=
      fun a ha => Heap.read_write_of_ne cell ha
    unfold queueDequeue
    rw [Exec.bind_of_returned (Exec.get_apply q)]
    simp only [hhead]
    let rest : QueueStruct α := ⟨q.heap,next,if next.isNone then none else q.tail⟩
    have hset : setNextPtr p none rest = .returned () { rest with heap := q.heap.write p ⟨none,x⟩ } :=
      setNextPtr_of_read cell
    rw [Exec.bind_of_returned (nextPtr_of_read cell),
      Exec.bind_of_returned (show Exec.modify _ q = .returned () rest from rfl),
      Exec.bind_of_returned hset]
    refine ⟨_,rfl,⟨?_,?_,(List.nodup_cons.mp hq.nodup).2⟩,?_,hheap⟩
    · exact tail.congr_of_notMem hp hheap
    · cases tail with
      | nil => rfl
      | cons cell' tail' =>
        change q.tail = _
        rw [hq.tail,List.getLast?_cons_cons]
    · exact Heap.read_write_self cell

/-- The first event is taken, and its entry freed. -/
theorem QueueStruct.Holds.nextEvent (hq : q.Holds ((p,x)::l)) :
    ∃ q', nextEvent q = .returned (some x) q' ∧ q'.Holds l := by
  obtain ⟨q₁,hdequeue,hholds,hp,-⟩ := hq.dequeue_cons
  have hfresh : p ∉ l.map Prod.fst := (List.nodup_cons.mp hq.nodup).1
  refine ⟨{ q₁ with heap := q₁.heap.free p },?_,⟨?_,hholds.tail,hholds.nodup⟩⟩
  · rw [Observer.nextEvent,Exec.bind_of_returned hdequeue]
    dsimp only
    rw [Exec.bind_of_returned (inotEv_of_read hp),Exec.bind_of_returned (freeEntry_of_read hp)]
    rfl
  · exact hholds.links.congr_of_notMem hfresh fun a ha => Heap.read_free_of_ne ha

/-- The loop of `queue_destroy` over the entries that are linked. -/
theorem queueDestroy_of_segment (hlinks : Segment q.heap q.head l none)
    (hnodup : (l.map Prod.fst).Nodup) {fuel : ℕ} (hfuel : l.length < fuel) :
    queueDestroy fuel q = .returned () (queueCreate (q.heap.freeAll (l.map Prod.fst))) := by
  induction l generalizing q fuel with
  | nil =>
    obtain ⟨fuel,rfl⟩ : ∃ n, fuel = n+1 := ⟨fuel-1,by simp at hfuel; omega⟩
    have hhead : q.head = none := by
      generalize q.head = head at hlinks ⊢
      cases hlinks
      rfl
    rw [queueDestroy,Exec.bind_of_returned (Exec.get_apply q)]
    simp only [hhead]
    rfl
  | cons c l ih =>
    obtain ⟨p,x⟩ := c
    obtain ⟨fuel,rfl⟩ : ∃ n, fuel = n+1 := ⟨fuel-1,by simp at hfuel; omega⟩
    generalize hhead : q.head = head at hlinks
    cases hlinks with
    | @cons _ _ next _ _ cell tail =>
      have hp : p ∉ l.map Prod.fst := (List.nodup_cons.mp hnodup).1
      let q₁ : QueueStruct α := ⟨q.heap,next,q.tail⟩
      let q₂ : QueueStruct α := ⟨q.heap.write p ⟨none,x⟩,next,q.tail⟩
      let q₃ : QueueStruct α := ⟨q.heap.free p,next,q.tail⟩
      have hset : setNextPtr p none q₁ = .returned () q₂ := setNextPtr_of_read cell
      have hcell₂ : q₂.heap.read p = some ⟨none,x⟩ := Heap.read_write_self cell
      have hfree : freeEntry p q₂ = .returned () q₃ := by
        rw [freeEntry_of_read hcell₂,Heap.free_write]
      have htail : Segment q₃.heap q₃.head l none :=
        tail.congr_of_notMem hp fun a ha => Heap.read_free_of_ne ha
      have hends := ih htail (List.nodup_cons.mp hnodup).2
        (show l.length < fuel by simp at hfuel; omega)
      rw [queueDestroy,Exec.bind_of_returned (Exec.get_apply q)]
      simp only [hhead]
      rw [Exec.bind_of_returned (nextPtr_of_read cell),
        Exec.bind_of_returned (show Exec.modify _ q = .returned () q₁ from rfl),
        Exec.bind_of_returned hset,Exec.bind_of_returned hfree,hends]
      rfl

/-- Whatever is left in the queue is freed, each entry once, and nothing else. -/
theorem QueueStruct.Holds.destroy (hq : q.Holds l) {fuel : ℕ} (hfuel : l.length < fuel) :
    queueDestroy fuel q = .returned () (queueCreate (q.heap.freeAll (l.map Prod.fst))) :=
  queueDestroy_of_segment hq.links hq.nodup hfuel

/-- There are no more entries than cells. -/
theorem QueueStruct.Holds.length_le (hq : q.Holds l) : l.length ≤ q.heap.length := by
  have hsub : l.map Prod.fst ⊆ List.range q.heap.length := by
    intro a ha
    exact List.mem_range.mpr (hq.links.lt_length ha)
  simpa using (hq.nodup.subperm hsub).length_le

end Operations

end UninstallObserver.Observer
