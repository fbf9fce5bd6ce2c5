import UninstallObserver.Lib.HeapAccounts
import UninstallObserver.Jce.BufferedStream

/-! The arrays that the writers make, and what becomes of them. -/
namespace UninstallObserver.Jce
open Imperative ByteOrder ArrayHeap Transition

variable {w : ℕ} {fresh : ℕ → ℕ → Byte} {h₀ h h' : Heap Byte} {l : List ℕ}
  {wr wr' bw : BufferWriter w}

namespace BufferWriter

/-- A larger array takes the place of the old one, which is deleted. -/
theorem reserve_added {len : BitVec w} (hl : Heap.Added h₀ (wr.buf.toList ++ l) h)
    (hr : wr.reserve fresh len h = some (h',wr')) : Heap.Added h₀ (wr'.buf.toList ++ l) h' := by
  unfold reserve at hr
  split at hr
  · obtain ⟨bs,-,hr⟩ := Option.bind_eq_some_iff.mp hr
    obtain ⟨h₁,hstore,hr⟩ := Option.bind_eq_some_iff.mp hr
    obtain ⟨h₂,hdelete,hr⟩ := Option.bind_eq_some_iff.mp hr
    cases hr
    have hnew := hl.new ((List.range (len * 2).toNat).map (fresh h.length))
    have hstored := hnew.store (fun a ha => by cases ha; exact List.mem_cons_self) hstore
    exact (hstored.perm List.perm_middle.symm).delete hdelete
  · cases hr
    exact hl

theorem writeBuf_added {buf : Source} {n : BitVec w} (hl : Heap.Added h₀ (wr.buf.toList ++ l) h)
    (hwrite : wr.writeBuf fresh buf n h = some (h',wr')) :
    Heap.Added h₀ (wr'.buf.toList ++ l) h' := by
  obtain ⟨⟨h₁,wr₁⟩,hreserve,hwrite⟩ := Option.bind_eq_some_iff.mp hwrite
  obtain ⟨bs,-,hwrite⟩ := Option.bind_eq_some_iff.mp hwrite
  obtain ⟨h₂,hstore,hwrite⟩ := Option.bind_eq_some_iff.mp hwrite
  cases hwrite
  refine (reserve_added hl hreserve).store (fun a ha => ?_) hstore
  rw [ha]
  exact List.mem_cons_self

theorem copy_added (hl : Heap.Added h₀ l h) (hcopy : bw.copy fresh h = some (h',wr')) :
    Heap.Added h₀ (wr'.buf.toList ++ l) h' := by
  obtain ⟨⟨h₁,wr₁⟩,hwrite,hcopy⟩ := Option.bind_eq_some_iff.mp hcopy
  cases hcopy
  have hinit : Heap.Added h₀ ((init : BufferWriter w).buf.toList ++ l) h := hl
  have hadded : Heap.Added h₀ (wr₁.buf.toList ++ l) h' := writeBuf_added hinit hwrite
  exact hadded

/-- A stream leaves its writer with one array, however often the writer grew. -/
theorem put_added {m : (σ : Type) → (List Byte → Put σ Unit) → Put σ Unit} {enc : Encoded}
    (hm : Streams m enc) (hl : Heap.Added h₀ (wr.buf.toList ++ l) h)
    (hret : m _ (put fresh) (h,wr) = .returned () (h',wr')) :
    Heap.Added h₀ (wr'.buf.toList ++ l) h' := by
  obtain ⟨pieces,thrown,-,hm⟩ := hm
  rw [hm] at hret
  refine Exec.emit_invariant (I := fun s : Heap Byte × BufferWriter w =>
    Heap.Added h₀ (s.2.buf.toList ++ l) s.1) (fun bs s t hs hwrite => ?_) hl hret
  unfold put at hwrite
  split at hwrite
  · next t' hsome =>
    cases hwrite
    exact writeBuf_added hs hsome
  · cases hwrite

end BufferWriter

/-- The arrays that the writers have, one after the other. -/
def Writers.arrays (s : Writers w) : List ℕ := s.writers.filterMap (·.buf)

namespace Writers
variable {s s' : Writers w} {i j : ℕ} {op : WriterOp} {ops : List WriterOp}

/-- The arrays of all writers but one. -/
theorem exists_others {writers : List (BufferWriter w)} (hwr : writers[i]? = some wr) :
    ∃ others : List ℕ, (writers.filterMap (·.buf)).Perm (wr.buf.toList ++ others) ∧
      ((writers.eraseIdx i).filterMap (·.buf)).Perm others ∧
      ∀ wr', ((writers.set i wr').filterMap (·.buf)).Perm (wr'.buf.toList ++ others) := by
  obtain ⟨hlt,rfl⟩ := List.getElem?_eq_some_iff.mp hwr
  have hcons (wr' : BufferWriter w) (rest : List (BufferWriter w)) :
      (wr'::rest).filterMap (·.buf) = wr'.buf.toList ++ rest.filterMap (·.buf) := by
    cases hbuf : wr'.buf <;> simp [hbuf]
  have hset (wr' : BufferWriter w) : ((writers.set i wr').filterMap (·.buf)).Perm
      (wr'.buf.toList ++ (writers.eraseIdx i).filterMap (·.buf)) := by
    rw [← hcons]
    exact (List.set_perm_cons_eraseIdx hlt wr').filterMap _
  have hself := hset writers[i]
  rw [List.set_getElem_self] at hself
  exact ⟨_,hself,.refl _,hset⟩

/-- Whatever is done to the writers, every array that they made and did not delete is the one
array of one writer. -/
theorem apply_added (hs : Heap.Added h₀ s.arrays s.heap) (hop : s.apply fresh op = some s') :
    Heap.Added h₀ s'.arrays s'.heap := by
  cases op with
  | init =>
    cases hop
    simpa [arrays, BufferWriter.init] using hs
  | writeBuf i bs =>
    obtain ⟨wr,hwr,hop⟩ := Option.bind_eq_some_iff.mp hop
    obtain ⟨⟨h,wr'⟩,hwrite,hop⟩ := Option.bind_eq_some_iff.mp hop
    cases hop
    obtain ⟨others,hall,-,hset⟩ := exists_others hwr
    exact (BufferWriter.writeBuf_added (hs.perm hall) hwrite).perm (hset wr').symm
  | reset i =>
    obtain ⟨wr,hwr,hop⟩ := Option.bind_eq_some_iff.mp hop
    cases hop
    obtain ⟨others,hall,-,hset⟩ := exists_others hwr
    exact (hs.perm hall).perm (hset wr.reset).symm
  | copy j =>
    obtain ⟨bw,-,hop⟩ := Option.bind_eq_some_iff.mp hop
    obtain ⟨⟨h,wr⟩,hcopy,hop⟩ := Option.bind_eq_some_iff.mp hop
    cases hop
    have happ : (s.writers ++ [wr]).filterMap (·.buf) = s.arrays ++ wr.buf.toList := by
      rw [List.filterMap_append]
      cases hbuf : wr.buf <;> simp [hbuf, arrays]
    have hperm : (wr.buf.toList ++ s.arrays).Perm ((s.writers ++ [wr]).filterMap (·.buf)) := by
      rw [happ]
      exact List.perm_append_comm
    exact (BufferWriter.copy_added hs hcopy).perm hperm
  | assign i j =>
    obtain ⟨this,hthis,hop⟩ := Option.bind_eq_some_iff.mp hop
    obtain ⟨buf,-,hop⟩ := Option.bind_eq_some_iff.mp hop
    obtain ⟨⟨h,this'⟩,hwrite,hop⟩ := Option.bind_eq_some_iff.mp hop
    obtain ⟨buf',-,hop⟩ := Option.bind_eq_some_iff.mp hop
    cases hop
    obtain ⟨others,hall,-,hset⟩ := exists_others hthis
    have hafter := hset { this' with len := buf'.len }
    rw [arrays,List.set_set]
    exact (BufferWriter.writeBuf_added (hs.perm hall) hwrite).perm hafter.symm
  | swap i j =>
    obtain ⟨wr,hwr,hop⟩ := Option.bind_eq_some_iff.mp hop
    obtain ⟨wr',hwr',hop⟩ := Option.bind_eq_some_iff.mp hop
    cases hop
    obtain ⟨hi,rfl⟩ := List.getElem?_eq_some_iff.mp hwr
    obtain ⟨hj,rfl⟩ := List.getElem?_eq_some_iff.mp hwr'
    exact hs.perm ((List.set_set_perm hi hj).filterMap _).symm
  | destroy i =>
    obtain ⟨wr,hwr,hop⟩ := Option.bind_eq_some_iff.mp hop
    obtain ⟨h,hdelete,hop⟩ := Option.bind_eq_some_iff.mp hop
    cases hop
    obtain ⟨others,hall,herase,-⟩ := exists_others hwr
    exact ((hs.perm hall).delete hdelete).perm herase.symm

/-- In every run that is defined the arrays that were made and not deleted are those of the
writers, each of one alone, and what was on the heap before is untouched. So a destructor is
always defined, and once all writers are gone the heap is what it was. -/
theorem run_accounts (h : Run (fun op s s' => s.apply fresh op = some s') ⟨h₀,[]⟩ ops s) :
    Heap.Added h₀ s.arrays s.heap ∧
      (∀ i < s.writers.length, ∃ s', s.apply fresh (.destroy i) = some s') ∧
      (s.writers = [] → ∀ p, s.heap.array p = h₀.array p) := by
  have hs : Heap.Added h₀ s.arrays s.heap :=
    h.invariant (I := fun s => Heap.Added h₀ s.arrays s.heap) (.refl h₀)
      fun _ _ _ hs hop => apply_added hs hop
  refine ⟨hs,fun i hi => ?_,fun hnil p => ?_⟩
  · have hwr : s.writers[i]? = some s.writers[i] := List.getElem?_eq_getElem hi
    obtain ⟨others,hall,-,-⟩ := exists_others hwr
    obtain ⟨h',hdelete⟩ := (hs.perm hall).exists_delete
    refine ⟨⟨h',s.writers.eraseIdx i⟩,?_⟩
    simp only [apply, hwr, hdelete, Option.bind_eq_bind, Option.bind_some]
  · have harrays : s.arrays = [] := by rw [arrays,hnil]; rfl
    rw [harrays] at hs
    exact hs.array_eq p

/-- Two writers that were written, copied, assigned and exchanged, and are both destroyed. -/
def shortLived : List WriterOp :=
  [.init,.writeBuf 0 [0x61],.copy 0,.writeBuf 1 [0x62,0x63],.assign 0 1,.swap 0 1,.destroy 0,
    .destroy 0]

theorem run_accounts_shortLived : ∃ s : Writers 32, Run (fun op s s' =>
    s.apply (fun _ _ => 0) op = some s') ⟨[some [7],none],[]⟩ shortLived s ∧ s.writers = [] ∧
      ∀ p, s.heap.array p = Heap.array p [some [7],none] := by
  have hrun : ∃ s : Writers 32, runAll (Writers.apply fun _ _ => 0) shortLived
      ⟨[some [7],none],[]⟩ = some s ∧ s.writers = [] := ⟨_,rfl,rfl⟩
  obtain ⟨s,hrun,hnil⟩ := hrun
  have hsteps := run_of_runAll hrun fun _ _ _ hst => hst
  exact ⟨s,hsteps,hnil,(run_accounts hsteps).2.2 hnil⟩

end Writers
end UninstallObserver.Jce
