import UninstallObserver.Observer.EventQueue
import UninstallObserver.Observer.FileDeleteObserver

/-! The events that `read` takes from an inotify descriptor. -/
namespace UninstallObserver.Observer
open Imperative ByteOrder LinkedCells

/-- `inotify_event`; `len` is the length of the name with its padding. -/
structure InotifyEvent where
  wd : BitVec 32
  mask : BitVec 32
  cookie : BitVec 32
  name : List Byte
  small : name.length < 2^32
  deriving DecidableEq, Repr

namespace InotifyEvent

def len (e : InotifyEvent) : BitVec 32 := BitVec.ofNat 32 e.name.length

/-- `offsetof(struct inotify_event, name)`. -/
def offsetofName : ℕ := 16

/-- The record as it stands in the buffer. -/
def bytes (e : InotifyEvent) : List Byte :=
  store 4 e.wd ++ store 4 e.mask ++ store 4 e.cookie ++ store 4 e.len ++ e.name

/-- The record at the front of the buffer, if it is whole, and what follows it. -/
def take (bs : List Byte) : Option (InotifyEvent × List Byte) :=
  let len := (load 32 ((bs.drop 12).take 4)).toNat
  if h : offsetofName + len ≤ bs.length then
    some (⟨load 32 (bs.take 4),load 32 ((bs.drop 4).take 4),load 32 ((bs.drop 8).take 4),
      (bs.drop offsetofName).take len,by
        rw [List.length_take]
        exact (Nat.min_le_left _ _).trans_lt (BitVec.isLt _)⟩,bs.drop (offsetofName + len))
  else none

/-- The records that a buffer consists of, for at most so many of them. -/
def takeAll : ℕ → List Byte → Option (List InotifyEvent)
  | _, [] => some []
  | 0, _::_ => none
  | fuel+1, b::bs =>
    (take (b::bs)).bind fun e => (takeAll fuel e.2).map fun es => e.1::es

/-- The records of a buffer that holds whole records only. -/
def parse (buffer : List Byte) : Option (List InotifyEvent) := takeAll buffer.length buffer

theorem toNat_len (e : InotifyEvent) : e.len.toNat = e.name.length := by
  rw [len,BitVec.toNat_ofNat,Nat.mod_eq_of_lt e.small]

@[simp] theorem length_bytes (e : InotifyEvent) :
    e.bytes.length = offsetofName + e.name.length := by
  simp only [bytes, offsetofName, List.length_append, length_store]

section Take
variable (e : InotifyEvent) (rest : List Byte)

/-- The fields of a record, one behind the other. -/
theorem bytes_append : e.bytes ++ rest = store 4 e.wd ++ (store 4 e.mask ++ (store 4 e.cookie ++
    (store 4 e.len ++ (e.name ++ rest)))) := by
  simp only [bytes, List.append_assoc]

/-- A record is taken as it was written, whatever follows. -/
theorem take_bytes : take (e.bytes ++ rest) = some (e,rest) := by
  have hfour : ∀ (x : BitVec 32) (l : List Byte), (store 4 x ++ l).take 4 = store 4 x :=
    fun x l => List.take_left' (length_store 4 x)
  have hskip : ∀ (n : ℕ) (x : BitVec 32) (l : List Byte), (store 4 x ++ l).drop (n+4) = l.drop n := by
    intro n x l
    rw [Nat.add_comm,← List.drop_drop,List.drop_left' (length_store 4 x)]
  have hload : ∀ x : BitVec 32, load 32 (store 4 x) = x := load_store (k := 4) rfl
  have hlen : (load 32 (((e.bytes ++ rest).drop 12).take 4)).toNat = e.name.length := by
    rw [bytes_append,hskip 8,hskip 4,hskip 0,List.drop_zero,hfour,hload,toNat_len]
  have hwhole : offsetofName + e.name.length ≤ (e.bytes ++ rest).length := by
    rw [List.length_append,length_bytes]
    exact Nat.le_add_right _ _
  have hname : ((e.bytes ++ rest).drop offsetofName).take e.name.length = e.name := by
    rw [bytes_append,offsetofName,hskip 12,hskip 8,hskip 4,hskip 0,List.drop_zero]
    exact List.take_left' rfl
  have hrest : (e.bytes ++ rest).drop (offsetofName + e.name.length) = rest :=
    List.drop_left' (length_bytes e)
  unfold take
  simp only [hlen, hwhole, dif_pos, hname, hrest, Option.some.injEq, Prod.mk.injEq, and_true]
  simp only [bytes_append, hfour, hskip 0, hskip 4, List.drop_zero, hload]

end Take

section Parse
variable {buffer : List Byte} {es : List InotifyEvent}

theorem takeAll_succ {fuel : ℕ} {bs : List Byte} (h : bs ≠ []) : takeAll (fuel+1) bs =
    (take bs).bind fun e => (takeAll fuel e.2).map fun es => e.1::es := by
  cases bs with
  | nil => exact absurd rfl h
  | cons b bs => rfl

theorem takeAll_nil (fuel : ℕ) : takeAll fuel [] = some [] := by
  cases fuel <;> rfl

/-- Whole records, one behind the other, are taken one and all. -/
theorem parse_flatten (es : List InotifyEvent) : parse (es.map bytes).flatten = some es := by
  have hall : ∀ fuel, (es.map bytes).flatten.length ≤ fuel →
      takeAll fuel (es.map bytes).flatten = some es := by
    induction es with
    | nil => exact fun fuel _ => takeAll_nil fuel
    | cons e es ih =>
      intro fuel hfuel
      rw [List.map_cons,List.flatten_cons] at hfuel ⊢
      have hlen : (e.bytes ++ (es.map bytes).flatten).length =
          offsetofName + e.name.length + (es.map bytes).flatten.length := by
        rw [List.length_append,length_bytes]
      have hpos : 0 < offsetofName := by decide
      obtain ⟨fuel,rfl⟩ : ∃ n, fuel = n+1 := ⟨fuel-1,by omega⟩
      have hne : e.bytes ++ (es.map bytes).flatten ≠ [] :=
        List.ne_nil_of_length_pos (by omega)
      rw [takeAll_succ hne,take_bytes,Option.bind_some,ih fuel (by omega)]
      rfl
  exact hall _ le_rfl

end Parse

end InotifyEvent

section Queue
variable {buffer : List Byte} {es : List InotifyEvent} {q : QueueStruct InotifyEvent}
  {l : List (ℕ × InotifyEvent)}

/-- The loop that parses the events of a buffer and queues them. -/
def queueEvents : ℕ → List Byte → QueueCode InotifyEvent Unit
  | _, [] => pure ()
  | 0, _::_ => Exec.outOfFuel
  | fuel+1, b::bs =>
    match InotifyEvent.take (b::bs) with
    -- the kernel never cuts a record in two
    | none => Exec.undefined
    | some (pevent,rest) => do
      let event ← newEntry pevent
      queueEnqueue event
      queueEvents fuel rest

/-- One more entry, at the end. -/
theorem QueueStruct.Holds.push (hq : q.Holds l) (e : InotifyEvent) : ∃ p q',
    (newEntry e >>= queueEnqueue) q = .returned () q' ∧ q'.Holds (l ++ [(p,e)]) := by
  let q₁ : QueueStruct InotifyEvent := { q with heap := q.heap.malloc ⟨none,e⟩ }
  have hfresh : q.heap.length ∉ l.map Prod.fst :=
    fun h => absurd (hq.links.lt_length h) (lt_irrefl _)
  have hq₁ : q₁.Holds l := by
    refine ⟨hq.links.congr fun a ha => ?_,hq.tail,hq.nodup⟩
    exact Heap.read_malloc_of_ne (hq.links.lt_length ha).ne
  obtain ⟨q',hends,hholds,-⟩ := hq₁.enqueue Heap.read_malloc_self hfresh
  exact ⟨_,q',(Exec.bind_of_returned (newEntry_apply e)).trans hends,hholds⟩

/-- The events of a buffer of whole records are queued in their order. -/
theorem QueueStruct.Holds.queueEvents (hq : q.Holds l) {fuel : ℕ}
    (hes : InotifyEvent.takeAll fuel buffer = some es) : ∃ q' l',
    queueEvents fuel buffer q = .returned () q' ∧ q'.Holds l' ∧
      l'.map Prod.snd = l.map Prod.snd ++ es := by
  induction fuel generalizing buffer q l es with
  | zero =>
    cases buffer with
    | nil =>
      cases hes
      exact ⟨q,l,rfl,hq,by simp⟩
    | cons b bs => cases hes
  | succ fuel ih =>
    cases buffer with
    | nil =>
      cases hes
      exact ⟨q,l,rfl,hq,by simp⟩
    | cons b bs =>
      obtain ⟨⟨e,rest⟩,htake,hes⟩ := Option.bind_eq_some_iff.mp hes
      obtain ⟨es',hes',rfl⟩ := Option.map_eq_some_iff.mp hes
      obtain ⟨p,q₁,hpush,hholds⟩ := hq.push e
      obtain ⟨q',l',hends,hholds',hl'⟩ := ih hholds hes'
      refine ⟨q',l',?_,hholds',?_⟩
      · have hstep : Observer.queueEvents (fuel+1) (b::bs) =
            (newEntry e >>= queueEnqueue) >>= fun _ => Observer.queueEvents fuel rest := by
          rw [Observer.queueEvents,htake]
          rfl
        rw [hstep,Exec.bind_of_returned hpush,hends]
      · simp [hl']

/-- Nothing else gets through the loop. -/
theorem takeAll_of_queueEvents {fuel : ℕ} {q' : QueueStruct InotifyEvent}
    (h : queueEvents fuel buffer q = .returned () q') :
    ∃ es, InotifyEvent.takeAll fuel buffer = some es := by
  induction fuel generalizing buffer q with
  | zero =>
    cases buffer with
    | nil => exact ⟨[],rfl⟩
    | cons b bs => cases h
  | succ fuel ih =>
    cases buffer with
    | nil => exact ⟨[],rfl⟩
    | cons b bs =>
      unfold queueEvents at h
      cases htake : InotifyEvent.take (b::bs) with
      | none =>
        rw [htake] at h
        cases h
      | some c =>
        obtain ⟨e,rest⟩ := c
        rw [htake] at h
        obtain ⟨p,q₁,-,h⟩ := Exec.bind_eq_returned.mp h
        obtain ⟨-,q₂,-,h⟩ := Exec.bind_eq_returned.mp h
        obtain ⟨es,hes⟩ := ih h
        refine ⟨e::es,?_⟩
        rw [InotifyEvent.takeAll,htake,Option.bind_some,hes]
        rfl

end Queue

end UninstallObserver.Observer
