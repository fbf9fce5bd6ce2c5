import UninstallObserver.Jce.BufferWriterBuff

/-! Several writers over given buffers and what is done to them, in any order. -/
namespace UninstallObserver.Jce
open Imperative ByteOrder ArrayHeap Transition

variable {w : ℕ}

/-- The heap and the writers that there are. -/
structure FixedWriters (w : ℕ) where
  heap : Heap Byte
  writers : List (BufferWriterBuff w)
  deriving DecidableEq, Repr

/-- What is done to the writers, each by its position. -/
inductive FixedOp where
  | init
  | setBuffer (i : ℕ) (buffer : Option ℕ) (sizeBuff : ℕ)
  | writeBuf (i : ℕ) (bs : List Byte)
  | reset (i : ℕ)
  | assign (i j : ℕ)
  | swap (i j : ℕ)
  deriving DecidableEq, Repr

namespace FixedWriters

/-- A method of one writer. -/
def onWriter (i : ℕ) (method : Put (Heap Byte × BufferWriterBuff w) Unit) :
    Put (FixedWriters w) Unit := fun s =>
  match s.writers[i]? with
  | some wr => (method (s.heap,wr)).mapState fun (h,wr) => ⟨h,s.writers.set i wr⟩
  | none => .undefined

/-- The end of `operator=`: the right side is a reference, so its lengths are looked up here. -/
def takeLengths (i j : ℕ) : Put (FixedWriters w) Unit := fun s =>
  match s.writers[j]? with
  | some buf => onWriter i
      (Exec.modify fun (h,wr) => (h,{ wr with len := buf.len, bufLen := buf.bufLen })) s
  | none => .undefined

/-- `operator=`. -/
def assign (i j : ℕ) : Put (FixedWriters w) Unit := fun s =>
  match s.writers[j]? with
  | some buf => (do
      onWriter i (BufferWriterBuff.writeBuf (.array buf.buf) buf.len)
      takeLengths i j) s
  | none => .undefined

def swap (i j : ℕ) : Put (FixedWriters w) Unit := fun s =>
  match s.writers[i]?, s.writers[j]? with
  | some wr, some wr' => .returned () { s with writers := (s.writers.set i wr').set j wr }
  | _, _ => .undefined

/-- One operation. -/
def apply : FixedOp → Put (FixedWriters w) Unit
  | .init => Exec.modify fun s => { s with writers := s.writers ++ [.init] }
  | .setBuffer i buffer sizeBuff => onWriter i
      (Exec.modify fun (h,wr) => (h,wr.setBuffer buffer (BitVec.ofNat w sizeBuff)))
  | .writeBuf i bs => onWriter i (BufferWriterBuff.put bs)
  | .reset i => onWriter i (Exec.modify fun (h,wr) => (h,wr.reset))
  | .assign i j => assign i j
  | .swap i j => swap i j

/-- What the caller of an operation has to see to: the writers are there, a buffer is as long as
it is said to be, no object is larger than `ptrdiff_t` can measure, and writers over one buffer are
not assigned where the bytes of the one are to be copied onto themselves. -/
def Given (op : FixedOp) (s : FixedWriters w) : Prop :=
  match op with
  | .init => True
  | .setBuffer i buffer sizeBuff => i < s.writers.length ∧ sizeBuff < 2^(w-1) ∧
      ∃ v, s.heap.array buffer = some v ∧ v.length = sizeBuff
  | .writeBuf i bs => i < s.writers.length ∧ bs.length < 2^(w-1)
  | .reset i => i < s.writers.length
  | .assign i j => i < s.writers.length ∧ j < s.writers.length ∧
      ∀ wr buf, s.writers[i]? = some wr → s.writers[j]? = some buf →
        ¬ wr.bufLen < wr.len + buf.len →
          BufferWriterBuff.overlaps wr.buf wr.len.toNat buf.len.toNat (.array buf.buf) = false
  | .swap i j => i < s.writers.length ∧ j < s.writers.length

/-- Whatever a caller may do next is defined. -/
def Safe (s : FixedWriters w) : Prop := ∀ op, Given op s → apply op s ≠ .undefined

/-- An assignment that goes through takes over no length that the buffer of the left side
does not have. -/
def Fits (op : FixedOp) (s : FixedWriters w) : Prop :=
  ∀ i j wr buf v, op = .assign i j → s.writers[i]? = some wr → s.writers[j]? = some buf →
    ¬ wr.bufLen < wr.len + buf.len → s.heap.array wr.buf = some v → buf.bufLen.toNat ≤ v.length

/-- An operation that its caller may make, and that returns or throws. -/
def Step (op : FixedOp) (s t : FixedWriters w) : Prop :=
  Given op s ∧ (apply op s = .returned () t ∨ ∃ e, apply op s = .threw e t)

end FixedWriters

namespace BufferWriterBuff
variable {h h' : Heap Byte} {wr : BufferWriterBuff w}

/-- The writer counts no more than it says it has room for, over a buffer that exists. -/
structure Ok (h : Heap Byte) (wr : BufferWriterBuff w) : Prop where
  len : wr.len ≤ wr.bufLen
  small : wr.bufLen.toNat < 2^(w-1)
  live : ∃ v, h.array wr.buf = some v

/-- There is as much room as the writer says. -/
def InBounds (h : Heap Byte) (wr : BufferWriterBuff w) : Prop :=
  ∃ v, h.array wr.buf = some v ∧ wr.bufLen.toNat ≤ v.length

theorem Ok.sizes (hok : wr.Ok h) (hs : Heap.SameSizes h h') : wr.Ok h' := by
  obtain ⟨v,hv⟩ := hok.live
  obtain ⟨v',hv',-⟩ := hs _ v hv
  exact ⟨hok.len,hok.small,v',hv'⟩

theorem InBounds.sizes_iff (hs : Heap.SameSizes h h') (hok : wr.Ok h) :
    wr.InBounds h' ↔ wr.InBounds h := by
  obtain ⟨v,hv⟩ := hok.live
  obtain ⟨v',hv',hlen⟩ := hs _ v hv
  constructor
  · rintro ⟨u,hu,hle⟩
    cases hv'.symm.trans hu
    exact ⟨v,hv,hlen ▸ hle⟩
  · rintro ⟨u,hu,hle⟩
    cases hv.symm.trans hu
    exact ⟨v',hv',hlen ▸ hle⟩

theorem ok_init (h : Heap Byte) : (init : BufferWriterBuff w).Ok h :=
  ⟨BitVec.le_refl 0,by simp [init],[],rfl⟩

theorem inBounds_init (h : Heap Byte) : (init : BufferWriterBuff w).InBounds h :=
  ⟨[],rfl,by simp [init]⟩

/-- From a source that there is, as many bytes as the writer has room for are written; more than
that are refused. -/
theorem writeBuf_cases {buf : Source} {n : BitVec w} {ds : List Byte} (hw : 0 < w) (hok : wr.Ok h)
    (hin : wr.InBounds h) (hload : buf.load n.toNat h = some ds) (hlen : ds.length = n.toNat)
    (hn : n.toNat < 2^(w-1))
    (hapart : ¬ wr.bufLen < wr.len + n → overlaps wr.buf wr.len.toNat n.toNat buf = false) :
    (wr.bufLen < wr.len + n ∧
      ∃ e, BufferWriterBuff.writeBuf buf n (h,wr) = .threw e (h,wr)) ∨
    (¬ wr.bufLen < wr.len + n ∧ ∃ h', BufferWriterBuff.writeBuf buf n (h,wr) =
        .returned () (h',{ wr with len := wr.len + n }) ∧ Heap.SameSizes h h') := by
  by_cases hover : wr.bufLen < wr.len + n
  · exact .inl ⟨hover,_,if_pos hover⟩
  · right
    obtain ⟨v,hv,hroom⟩ := hin
    have hp := two_pow_pred hw
    have hsmall := hok.small
    have hcount := hok.len
    rw [BitVec.le_def] at hcount
    have hadd : (wr.len + n).toNat = wr.len.toNat + n.toNat :=
      BitVec.toNat_add_of_lt (by omega)
    have hle := BitVec.not_lt.mp hover
    rw [BitVec.le_def,hadd] at hle
    have hstore : ∃ h', h.store wr.buf wr.len.toNat ds = some h' := by
      rw [Heap.store,hv,Option.bind_some,if_pos (by omega)]
      exact ⟨_,rfl⟩
    obtain ⟨h',hstore⟩ := hstore
    refine ⟨hover,h',?_,Heap.sameSizes_store hstore⟩
    simp only [BufferWriterBuff.writeBuf, if_neg hover, hapart hover, hload, Option.bind_some,
      hstore, Bool.false_eq_true, if_false]

end BufferWriterBuff

namespace FixedWriters
variable {s t : FixedWriters w} {wr buf : BufferWriterBuff w} {i j : ℕ} {h' : Heap Byte}

/-- The writers are such as their operations leave them. -/
def Ok (s : FixedWriters w) : Prop := ∀ wr ∈ s.writers, wr.Ok s.heap

def Bounded (s : FixedWriters w) : Prop := ∀ wr ∈ s.writers, wr.InBounds s.heap

theorem onWriter_of_some {method : Put (Heap Byte × BufferWriterBuff w) Unit}
    (hwr : s.writers[i]? = some wr) : onWriter i method s =
      (method (s.heap,wr)).mapState fun (h,wr) => ⟨h,s.writers.set i wr⟩ := by
  rw [onWriter,hwr]

theorem Ok.set (hok : s.Ok) (hs : Heap.SameSizes s.heap h') (hwr : wr.Ok h') :
    (⟨h',s.writers.set i wr⟩ : FixedWriters w).Ok := by
  intro a ha
  rcases List.mem_or_eq_of_mem_set ha with ha | rfl
  · exact (hok a ha).sizes hs
  · exact hwr

/-- With one writer changed, what matters is that writer. -/
theorem bounded_set_iff (hok : s.Ok) (hin : s.Bounded) (hs : Heap.SameSizes s.heap h')
    (hi : i < s.writers.length) :
    (⟨h',s.writers.set i wr⟩ : FixedWriters w).Bounded ↔ wr.InBounds h' := by
  refine ⟨fun h => h wr (List.mem_set hi wr),fun hwr a ha => ?_⟩
  rcases List.mem_or_eq_of_mem_set ha with ha | rfl
  · exact (BufferWriterBuff.InBounds.sizes_iff hs (hok a ha)).mpr (hin a ha)
  · exact hwr

theorem exists_writer (hi : i < s.writers.length) : ∃ wr, s.writers[i]? = some wr ∧ wr ∈ s.writers :=
  ⟨s.writers[i],List.getElem?_eq_getElem hi,List.getElem_mem hi⟩

/-- The bytes that a writer has are there to be copied. -/
theorem load_writer (hok : wr.Ok s.heap) (hin : wr.InBounds s.heap) :
    ∃ ds, (Source.array wr.buf).load wr.len.toNat s.heap = some ds ∧
      ds.length = wr.len.toNat := by
  obtain ⟨v,hv,hroom⟩ := hin
  have hle := hok.len
  rw [BitVec.le_def] at hle
  refine ⟨(v.drop 0).take wr.len.toNat,?_,?_⟩
  · rw [Source.load,Heap.load,hv,Option.bind_some,if_pos (by omega)]
  · rw [List.drop_zero,List.length_take]
    omega

/-- What an assignment leaves of the left side. -/
def assigned (i j : ℕ) (wr buf : BufferWriterBuff w) : BufferWriterBuff w :=
  ⟨wr.buf,if i = j then wr.len + buf.len else buf.len,buf.bufLen⟩

theorem assign_cases (hw : 0 < w) (hok : s.Ok) (hin : s.Bounded) (hwr : s.writers[i]? = some wr)
    (hbuf : s.writers[j]? = some buf) (hgiven : Given (.assign i j) s) :
    (wr.bufLen < wr.len + buf.len ∧ ∃ e, assign i j s = .threw e s) ∨
    (¬ wr.bufLen < wr.len + buf.len ∧ ∃ h', Heap.SameSizes s.heap h' ∧
      assign i j s = .returned () ⟨h',s.writers.set i (assigned i j wr buf)⟩) := by
  have hmem := List.mem_of_getElem? hwr
  have hmem' := List.mem_of_getElem? hbuf
  have hlt := (List.getElem?_eq_some_iff.mp hwr).1
  obtain ⟨ds,hload,hlen⟩ := load_writer (hok buf hmem') (hin buf hmem')
  have hn : buf.len.toNat < 2^(w-1) := by
    have hle := (hok buf hmem').len
    rw [BitVec.le_def] at hle
    exact hle.trans_lt (hok buf hmem').small
  have hset : s.writers.set i wr = s.writers := by
    obtain ⟨_,rfl⟩ := List.getElem?_eq_some_iff.mp hwr
    exact List.set_getElem_self hlt
  unfold assign
  simp only [hbuf]
  rcases BufferWriterBuff.writeBuf_cases hw (hok wr hmem) (hin wr hmem) hload hlen hn
    (hgiven.2.2 wr buf hwr hbuf) with ⟨hover,e,hwrite⟩ | ⟨hover,h',hwrite,hs⟩
  · refine .inl ⟨hover,e,?_⟩
    have hfirst : onWriter i (BufferWriterBuff.writeBuf (.array buf.buf) buf.len) s =
        .threw e s := by
      rw [onWriter_of_some hwr,hwrite,Outcome.mapState]
      dsimp only
      rw [hset]
    exact Exec.bind_of_threw hfirst
  · refine .inr ⟨hover,h',hs,?_⟩
    have hfirst : onWriter i (BufferWriterBuff.writeBuf (.array buf.buf) buf.len) s =
        .returned () ⟨h',s.writers.set i { wr with len := wr.len + buf.len }⟩ := by
      rw [onWriter_of_some hwr,hwrite,Outcome.mapState]
    rw [Exec.bind_of_returned hfirst,takeLengths]
    have hthis : (s.writers.set i { wr with len := wr.len + buf.len })[i]? =
        some { wr with len := wr.len + buf.len } := List.getElem?_set_self hlt
    by_cases hij : i = j
    · subst hij
      cases hwr.symm.trans hbuf
      simp only [hthis]
      rw [onWriter_of_some hthis]
      simp only [Exec.modify_apply, Outcome.mapState, List.set_set, assigned, if_true]
    · simp only [List.getElem?_set_ne hij, hbuf]
      rw [onWriter_of_some hthis]
      simp only [Exec.modify_apply, Outcome.mapState, List.set_set, assigned, if_neg hij]

theorem ok_assigned (hok : s.Ok) (hwr : wr ∈ s.writers) (hbuf : buf ∈ s.writers)
    (hsame : i = j → wr = buf) (hfits : ¬ wr.bufLen < wr.len + buf.len) :
    (assigned i j wr buf).Ok s.heap := by
  refine ⟨?_,(hok buf hbuf).small,(hok wr hwr).live⟩
  unfold assigned
  by_cases hij : i = j
  · cases hsame hij
    simp only [if_pos hij]
    exact BitVec.not_lt.mp hfits
  · simp only [if_neg hij]
    exact (hok buf hbuf).len

/-- A writer that counts on more room than there is writes outside it when asked for all. -/
theorem bounded_of_safe (hw : 0 < w) (hok : s.Ok) (hsafe : s.Safe) : s.Bounded := by
  intro wr hwr
  obtain ⟨v,hv⟩ := (hok wr hwr).live
  refine ⟨v,hv,?_⟩
  by_contra hroom
  obtain ⟨i,hi,hget⟩ := List.mem_iff_getElem.mp hwr
  have hlen := (hok wr hwr).len
  have hsmall := (hok wr hwr).small
  rw [BitVec.le_def] at hlen
  -- just as many bytes as the writer says there is room for
  obtain ⟨n,hn⟩ : ∃ n, n = wr.bufLen.toNat - wr.len.toNat := ⟨_,rfl⟩
  have hp := two_pow_pred hw
  have hcount : (BitVec.ofNat w n).toNat = n := by
    rw [BitVec.toNat_ofNat,Nat.mod_eq_of_lt (by omega)]
  have hadd : (wr.len + BitVec.ofNat w n).toNat = wr.bufLen.toNat := by
    rw [BitVec.toNat_add_of_lt (by rw [hcount]; omega),hcount]
    omega
  have hfits : ¬ wr.bufLen < wr.len + BitVec.ofNat w n := by
    rw [BitVec.lt_def,hadd]
    exact lt_irrefl _
  have hload : (Source.bytes (List.replicate n 0)).load (BitVec.ofNat w n).toNat s.heap =
      some (List.replicate n 0) := BufferWriterBuff.load_bytes (by rw [hcount]; simp)
  have hstore : s.heap.store wr.buf wr.len.toNat (List.replicate n (0 : Byte)) = none := by
    rw [Heap.store,hv,Option.bind_some,if_neg]
    rw [List.length_replicate]
    omega
  refine hsafe (.writeBuf i (List.replicate n 0)) ⟨hi,by rw [List.length_replicate]; omega⟩ ?_
  have hwriter : s.writers[i]? = some wr := by rw [List.getElem?_eq_getElem hi,hget]
  change onWriter i (BufferWriterBuff.put (List.replicate n 0)) s = .undefined
  rw [onWriter_of_some hwriter,BufferWriterBuff.put,List.length_replicate]
  simp only [BufferWriterBuff.writeBuf, if_neg hfits, BufferWriterBuff.overlaps, hload,
    Option.bind_some, hstore, Outcome.mapState, Bool.false_eq_true, if_false]

/-- Within their buffers the writers do whatever a caller may ask for. -/
theorem safe_of_bounded (hw : 0 < w) (hok : s.Ok) (hin : s.Bounded) : s.Safe := by
  intro op hop
  cases op with
  | init =>
    intro hundefined
    cases hundefined
  | setBuffer i buffer n =>
    obtain ⟨wr,hwr,-⟩ := exists_writer hop.1
    rw [apply,onWriter_of_some hwr]
    intro hundefined
    cases hundefined
  | writeBuf i bs =>
    obtain ⟨wr,hwr,hmem⟩ := exists_writer hop.1
    have hp := two_pow_pred hw
    have hn : (BitVec.ofNat w bs.length).toNat = bs.length := by
      rw [BitVec.toNat_ofNat,Nat.mod_eq_of_lt (by have := hop.2; omega)]
    rw [apply,onWriter_of_some hwr,BufferWriterBuff.put]
    rcases BufferWriterBuff.writeBuf_cases hw (hok wr hmem) (hin wr hmem)
      (BufferWriterBuff.load_bytes hn) hn.symm (hn.trans_lt hop.2) fun _ => rfl with
      ⟨-,e,hwrite⟩ | ⟨-,h',hwrite,-⟩
    · rw [hwrite]
      intro hundefined
      cases hundefined
    · rw [hwrite]
      intro hundefined
      cases hundefined
  | reset i =>
    obtain ⟨wr,hwr,-⟩ := exists_writer hop
    rw [apply,onWriter_of_some hwr]
    intro hundefined
    cases hundefined
  | assign i j =>
    obtain ⟨wr,hwr,-⟩ := exists_writer hop.1
    obtain ⟨buf,hbuf,-⟩ := exists_writer hop.2.1
    rw [apply]
    rcases assign_cases hw hok hin hwr hbuf hop with ⟨-,e,h⟩ | ⟨-,h',-,h⟩
    · rw [h]
      intro hundefined
      cases hundefined
    · rw [h]
      intro hundefined
      cases hundefined
  | swap i j =>
    obtain ⟨wr,hwr,-⟩ := exists_writer hop.1
    obtain ⟨buf,hbuf,-⟩ := exists_writer hop.2
    simp only [apply, swap, hwr, hbuf]
    intro hundefined
    cases hundefined

/-- Whatever a caller may do is defined exactly as long as no writer counts on more room than its
buffer has. -/
theorem safe_iff (hw : 0 < w) (hok : s.Ok) : s.Safe ↔ s.Bounded :=
  ⟨bounded_of_safe hw hok,safe_of_bounded hw hok⟩

section Steps

theorem fits_of_other {op : FixedOp} (hop : ∀ i j, op ≠ .assign i j) : Fits op s :=
  fun i j _ _ _ heq => absurd heq (hop i j)

/-- A method leaves its writer such as it should be, and so all are. -/
theorem kept_set (hok : s.Ok) (hin : s.Bounded) (hi : i < s.writers.length)
    (hs : Heap.SameSizes s.heap h') (hwr : wr.Ok h') (hroom : wr.InBounds h') :
    (⟨h',s.writers.set i wr⟩ : FixedWriters w).Ok ∧
      (⟨h',s.writers.set i wr⟩ : FixedWriters w).Bounded :=
  ⟨hok.set hs hwr,(bounded_set_iff hok hin hs hi).mpr hroom⟩

theorem step_init (hok : s.Ok) (hin : s.Bounded) (h : Step .init s t) : t.Ok ∧ t.Bounded := by
  obtain ⟨-,h | ⟨e,h⟩⟩ := h
  · cases h
    constructor
    · intro a ha
      rcases List.mem_append.mp ha with ha | ha
      · exact hok a ha
      · rw [List.mem_singleton.mp ha]
        exact BufferWriterBuff.ok_init _
    · intro a ha
      rcases List.mem_append.mp ha with ha | ha
      · exact hin a ha
      · rw [List.mem_singleton.mp ha]
        exact BufferWriterBuff.inBounds_init _
  · cases h

theorem step_setBuffer {buffer : Option ℕ} {n : ℕ} (hw : 0 < w) (hok : s.Ok) (hin : s.Bounded)
    (h : Step (.setBuffer i buffer n) s t) : t.Ok ∧ t.Bounded := by
  obtain ⟨⟨hi,hn,v,hv,rfl⟩,h⟩ := h
  obtain ⟨wr,hwr,-⟩ := exists_writer hi
  rw [apply,onWriter_of_some hwr] at h
  rcases h with h | ⟨e,h⟩
  · cases h
    have hp := two_pow_pred hw
    have hcount : (BitVec.ofNat w v.length).toNat = v.length := by
      rw [BitVec.toNat_ofNat,Nat.mod_eq_of_lt (by omega)]
    have hnew : (wr.setBuffer buffer (BitVec.ofNat w v.length)).Ok s.heap :=
      ⟨by simp [BitVec.le_def, BufferWriterBuff.setBuffer],hcount.trans_lt hn,v,hv⟩
    exact kept_set hok hin hi (Heap.SameSizes.refl _) hnew ⟨v,hv,hcount.le⟩
  · cases h

theorem step_writeBuf {bs : List Byte} (hw : 0 < w) (hok : s.Ok) (hin : s.Bounded)
    (h : Step (.writeBuf i bs) s t) : t.Ok ∧ t.Bounded := by
  obtain ⟨⟨hi,hn⟩,h⟩ := h
  obtain ⟨wr,hwr,hmem⟩ := exists_writer hi
  have hp := two_pow_pred hw
  have hcount : (BitVec.ofNat w bs.length).toNat = bs.length := by
    rw [BitVec.toNat_ofNat,Nat.mod_eq_of_lt (by omega)]
  rw [apply,onWriter_of_some hwr,BufferWriterBuff.put] at h
  rcases BufferWriterBuff.writeBuf_cases hw (hok wr hmem) (hin wr hmem)
    (BufferWriterBuff.load_bytes hcount) hcount.symm (hcount.trans_lt hn) fun _ => rfl with
    ⟨-,e',hwrite⟩ | ⟨hover,h',hwrite,hs⟩
  · rw [hwrite] at h
    rcases h with h | ⟨e,h⟩
    · cases h
    · cases h
      exact kept_set hok hin hi (Heap.SameSizes.refl _) (hok wr hmem) (hin wr hmem)
  · rw [hwrite] at h
    rcases h with h | ⟨e,h⟩
    · cases h
      have hwr' := (hok wr hmem).sizes hs
      have hnew : { wr with len := wr.len + BitVec.ofNat w bs.length }.Ok h' :=
        ⟨BitVec.not_lt.mp hover,hwr'.small,hwr'.live⟩
      exact kept_set hok hin hi hs hnew
        ((BufferWriterBuff.InBounds.sizes_iff hs (hok wr hmem)).mpr (hin wr hmem))
    · cases h

theorem step_reset (hok : s.Ok) (hin : s.Bounded) (h : Step (.reset i) s t) :
    t.Ok ∧ t.Bounded := by
  obtain ⟨hi,h⟩ := h
  obtain ⟨wr,hwr,hmem⟩ := exists_writer hi
  rw [apply,onWriter_of_some hwr] at h
  rcases h with h | ⟨e,h⟩
  · cases h
    have hnew : wr.reset.Ok s.heap :=
      ⟨by simp [BitVec.le_def, BufferWriterBuff.reset],(hok wr hmem).small,(hok wr hmem).live⟩
    exact kept_set hok hin hi (Heap.SameSizes.refl _) hnew (hin wr hmem)
  · cases h

theorem step_swap (hok : s.Ok) (hin : s.Bounded) (h : Step (.swap i j) s t) :
    t.Ok ∧ t.Bounded := by
  obtain ⟨hgiven,h⟩ := h
  obtain ⟨wr,hwr,hmem⟩ := exists_writer hgiven.1
  obtain ⟨buf,hbuf,hmem'⟩ := exists_writer hgiven.2
  simp only [apply, swap, hwr, hbuf] at h
  rcases h with h | ⟨e,h⟩
  · cases h
    have hall : ∀ a ∈ (s.writers.set i buf).set j wr, a ∈ s.writers := by
      intro a ha
      rcases List.mem_or_eq_of_mem_set ha with ha | rfl
      · rcases List.mem_or_eq_of_mem_set ha with ha | rfl
        · exact ha
        · exact hmem'
      · exact hmem
    exact ⟨fun a ha => hok a (hall a ha),fun a ha => hin a (hall a ha)⟩
  · cases h

theorem fits_assign_iff (hwr : s.writers[i]? = some wr) (hbuf : s.writers[j]? = some buf) :
    Fits (.assign i j) s ↔ (¬ wr.bufLen < wr.len + buf.len →
      ∀ v, s.heap.array wr.buf = some v → buf.bufLen.toNat ≤ v.length) := by
  refine ⟨fun h hover v hv => h i j wr buf v rfl hwr hbuf hover hv,fun h => ?_⟩
  intro i' j' wr' buf' v heq hwr' hbuf' hover hv
  cases heq
  cases hwr.symm.trans hwr'
  cases hbuf.symm.trans hbuf'
  exact h hover v hv

/-- The one operation after which a writer may count on more room than there is. -/
theorem step_assign (hw : 0 < w) (hok : s.Ok) (hin : s.Bounded) (h : Step (.assign i j) s t) :
    t.Ok ∧ (t.Bounded ↔ Fits (.assign i j) s) := by
  obtain ⟨hgiven,h⟩ := h
  obtain ⟨wr,hwr,hmem⟩ := exists_writer hgiven.1
  obtain ⟨buf,hbuf,hmem'⟩ := exists_writer hgiven.2.1
  rw [apply] at h
  rw [fits_assign_iff hwr hbuf]
  rcases assign_cases hw hok hin hwr hbuf hgiven with ⟨hover,e',hassign⟩ | ⟨hover,h',hs,hassign⟩
  · rw [hassign] at h
    rcases h with h | ⟨e,h⟩
    · cases h
    · cases h
      exact ⟨hok,iff_of_true hin fun hnot => absurd hover hnot⟩
  · rw [hassign] at h
    rcases h with h | ⟨e,h⟩
    · cases h
      have hsame : i = j → wr = buf := by
        rintro rfl
        exact Option.some.inj (hwr.symm.trans hbuf)
      have hnew := ok_assigned hok hmem hmem' hsame hover
      refine ⟨hok.set hs (hnew.sizes hs),?_⟩
      rw [bounded_set_iff hok hin hs hgiven.1,BufferWriterBuff.InBounds.sizes_iff hs hnew]
      constructor
      · rintro ⟨v,hv,hroom⟩ - u hu
        cases hv.symm.trans hu
        exact hroom
      · intro hall
        obtain ⟨v,hv⟩ := (hok wr hmem).live
        exact ⟨v,hv,hall hover v hv⟩
    · cases h

/-- An operation keeps the writers such as they are, and each within its buffer unless it is an
assignment that does not fit. -/
theorem step_spec {op : FixedOp} (hw : 0 < w) (hok : s.Ok) (hin : s.Bounded) (h : Step op s t) :
    t.Ok ∧ (t.Bounded ↔ Fits op s) := by
  have hother : (∀ i j, op ≠ .assign i j) → t.Ok ∧ t.Bounded → t.Ok ∧ (t.Bounded ↔ Fits op s) :=
    fun hop ht => ⟨ht.1,iff_of_true ht.2 (fits_of_other hop)⟩
  cases op with
  | init => exact hother (by simp) (step_init hok hin h)
  | setBuffer i buffer n => exact hother (by simp) (step_setBuffer hw hok hin h)
  | writeBuf i bs => exact hother (by simp) (step_writeBuf hw hok hin h)
  | reset i => exact hother (by simp) (step_reset hok hin h)
  | assign i j => exact step_assign hw hok hin h
  | swap i j => exact hother (by simp) (step_swap hok hin h)

end Steps

/-- From a heap without writers on, everything a caller may do stays defined in exactly those runs
in which no assignment gives a writer more room than its own buffer has. -/
theorem safe_fixed_run_iff (hw : 0 < w) (h₀ : Heap Byte) {ops : List FixedOp} :
    Within Safe Step (⟨h₀,[]⟩ : FixedWriters w) ops t ↔
      Run (Guarded Fits Step) (⟨h₀,[]⟩ : FixedWriters w) ops t := by
  have hok : (⟨h₀,[]⟩ : FixedWriters w).Ok := fun wr hwr => absurd hwr List.not_mem_nil
  have hin : (⟨h₀,[]⟩ : FixedWriters w).Bounded := fun wr hwr => absurd hwr List.not_mem_nil
  refine (and_iff_right ((safe_iff hw hok).mpr hin)).trans ?_
  refine Run.congr (I := fun s => s.Ok ∧ s.Bounded) ⟨hok,hin⟩ (fun op s t hs => ?_)
    fun op s t hs h => ?_
  · obtain ⟨hok,hin⟩ := hs
    constructor
    · intro h
      obtain ⟨hok',hiff⟩ := step_spec hw hok hin h.1
      exact ⟨hiff.mp ((safe_iff hw hok').mp h.2),h.1⟩
    · intro h
      obtain ⟨hok',hiff⟩ := step_spec hw hok hin h.2
      exact ⟨h.2,(safe_iff hw hok').mpr (hiff.mpr h.1)⟩
  · obtain ⟨hok',-⟩ := step_spec hw hs.1 hs.2 h.1
    exact ⟨hok',(safe_iff hw hok').mp h.2⟩

/-- Two writers over buffers of two bytes; one takes over what the other has. -/
def assigning : List FixedOp :=
  [.init,.init,.setBuffer 0 (some 0) 2,.setBuffer 1 (some 1) 2,.writeBuf 1 [7],.assign 0 1]

theorem safe_fixed_run_assigning : Within Safe Step
    (⟨[some [0,0],some [0,0]],[]⟩ : FixedWriters 32) assigning
      ⟨[some [7,0],some [7,0]],[⟨some 0,1,2⟩,⟨some 1,1,2⟩]⟩ := by
  have hassign : Given (.assign 0 1) (⟨[some [0,0],some [7,0]],[⟨some 0,0,2⟩,⟨some 1,1,2⟩]⟩ :
      FixedWriters 32) := by
    refine ⟨by decide,by decide,fun wr buf hwr hbuf _ => ?_⟩
    cases hwr
    cases hbuf
    rfl
  refine (safe_fixed_run_iff (by decide) _).mpr
    (.cons ⟨fits_of_other (by simp),trivial,.inl rfl⟩
      (.cons ⟨fits_of_other (by simp),trivial,.inl rfl⟩
        (.cons ⟨fits_of_other (by simp),⟨by decide,by decide,_,rfl,rfl⟩,.inl rfl⟩
          (.cons ⟨fits_of_other (by simp),⟨by decide,by decide,_,rfl,rfl⟩,.inl rfl⟩
            (.cons ⟨fits_of_other (by simp),⟨by decide,by decide⟩,.inl rfl⟩
              (.cons ⟨(fits_assign_iff rfl rfl).mpr fun _ v hv => ?_,hassign,.inl rfl⟩ .nil))))))
  cases hv
  decide

end FixedWriters
end UninstallObserver.Jce
