import Mathlib.Logic.Equiv.Basic
import UninstallObserver.Jce.BufferWriter
import UninstallObserver.Lib.Runs

/-! Several writers and what is done to them, in any order. -/
namespace UninstallObserver.Jce
open ByteOrder ArrayHeap Transition

/-- The heap and the writers that there are. -/
structure Writers (w : ℕ) where
  heap : Heap Byte
  writers : List (BufferWriter w)
  deriving DecidableEq, Repr

/-- What is done to the writers, each by its position. -/
inductive WriterOp where
  | init
  | writeBuf (i : ℕ) (bs : List Byte)
  | reset (i : ℕ)
  | copy (j : ℕ)
  | assign (i j : ℕ)
  | swap (i j : ℕ)
  | destroy (i : ℕ)
  deriving DecidableEq, Repr

namespace Writers

variable {w : ℕ}

/-- `operator=`. The right side is a reference, so its length is looked up at the end. -/
def assign (fresh : ℕ → ℕ → Byte) (i j : ℕ) (s : Writers w) : Option (Writers w) := do
  let this ← s.writers[i]?
  let buf ← s.writers[j]?
  let (h,this) ← this.writeBuf fresh (.array buf.buf) buf.len s.heap
  let writers := s.writers.set i this
  let buf ← writers[j]?
  some ⟨h,writers.set i { this with len := buf.len }⟩

/-- One operation; there is none on a writer that does not exist. -/
def apply (fresh : ℕ → ℕ → Byte) (op : WriterOp) (s : Writers w) : Option (Writers w) :=
  match op with
  | .init => some { s with writers := s.writers ++ [.init] }
  | .writeBuf i bs => do
    let wr ← s.writers[i]?
    let (h,wr) ← wr.writeBuf fresh (.bytes bs) (BitVec.ofNat w bs.length) s.heap
    some ⟨h,s.writers.set i wr⟩
  | .reset i => do
    let wr ← s.writers[i]?
    some { s with writers := s.writers.set i wr.reset }
  | .copy j => do
    let bw ← s.writers[j]?
    let (h,wr) ← bw.copy fresh s.heap
    some ⟨h,s.writers ++ [wr]⟩
  | .assign i j => s.assign fresh i j
  | .swap i j => do
    let wr ← s.writers[i]?
    let wr' ← s.writers[j]?
    some { s with writers := (s.writers.set i wr').set j wr }
  | .destroy i => do
    let wr ← s.writers[i]?
    let h ← s.heap.delete wr.buf
    some ⟨h,s.writers.eraseIdx i⟩

end Writers

/-- What each operation is for: the writers are lists of bytes. -/
def WriterOp.onBytes (op : WriterOp) (A : List (List Byte)) : Option (List (List Byte)) :=
  match op with
  | .init => some (A ++ [[]])
  | .writeBuf i bs => A[i]?.map fun a => A.set i (a ++ bs)
  | .reset i => A[i]?.map fun _ => A.set i []
  | .copy j => A[j]?.map fun b => A ++ [b]
  | .assign i j => A[i]?.bind fun _ => A[j]?.map fun b => A.set i b
  | .swap i j => A[i]?.bind fun a => A[j]?.map fun b => (A.set i b).set j a
  | .destroy i => A[i]?.map fun _ => A.eraseIdx i

namespace Writers

variable {w : ℕ}

/-- Each writer holds its bytes, and no two have the same array. -/
structure Represents (s : Writers w) (A : List (List Byte)) : Prop where
  length : s.writers.length = A.length
  holds : ∀ {i : ℕ} {wr : BufferWriter w} {bs : List Byte}, s.writers[i]? = some wr →
    A[i]? = some bs → wr.Holds s.heap bs
  apart : ∀ {i j p : ℕ} {wr wr' : BufferWriter w}, s.writers[i]? = some wr →
    s.writers[j]? = some wr' → wr.buf = some p → wr'.buf = some p → i = j

/-- What the buffers of the writers show. -/
structure Shows (s : Writers w) (A : List (List Byte)) : Prop where
  bytes : s.writers.map (·.getByteBuffer s.heap) = A.map some
  le : ∀ wr ∈ s.writers, wr.len ≤ wr.bufLen

section Represents
variable {s : Writers w} {A : List (List Byte)} {i : ℕ} {wr wr' : BufferWriter w}
  {h' : Heap Byte} {bs : List Byte}

theorem Represents.exists_bytes (h : s.Represents A) (hwr : s.writers[i]? = some wr) :
    ∃ bs, A[i]? = some bs ∧ wr.Holds s.heap bs := by
  obtain ⟨hlt,-⟩ := List.getElem?_eq_some_iff.mp hwr
  rw [h.length] at hlt
  exact ⟨A[i],List.getElem?_eq_getElem hlt,h.holds hwr (List.getElem?_eq_getElem hlt)⟩

theorem Represents.exists_writer (h : s.Represents A) (hbs : A[i]? = some bs) :
    ∃ wr, s.writers[i]? = some wr ∧ wr.Holds s.heap bs := by
  obtain ⟨hlt,-⟩ := List.getElem?_eq_some_iff.mp hbs
  rw [← h.length] at hlt
  exact ⟨s.writers[i],List.getElem?_eq_getElem hlt,
    h.holds (List.getElem?_eq_getElem hlt) hbs⟩

theorem Represents.shows (h : s.Represents A) : s.Shows A := by
  refine ⟨?_,fun wr hwr => ?_⟩
  · apply List.ext_getElem?
    intro i
    rw [List.getElem?_map,List.getElem?_map]
    cases hwr : s.writers[i]? with
    | none =>
      rw [List.getElem?_eq_none_iff,h.length] at hwr
      rw [List.getElem?_eq_none hwr]
      rfl
    | some wr =>
      obtain ⟨bs,hbs,hb⟩ := h.exists_bytes hwr
      rw [hbs,Option.map_some,Option.map_some,hb.getByteBuffer]
  · obtain ⟨i,hi⟩ := List.getElem?_of_mem hwr
    obtain ⟨bs,-,hb⟩ := h.exists_bytes hi
    exact hb.le

theorem Shows.unique {B : List (List Byte)} (h : s.Shows A) (h' : s.Shows B) : A = B :=
  List.map_injective_iff.mpr (Option.some_injective _) (h.bytes.symm.trans h'.bytes)

theorem Represents.lt_length (h : s.Represents A) (hwr : s.writers[i]? = some wr) {a : ℕ}
    (ha : wr.buf = some a) : a < s.heap.length := by
  obtain ⟨bs,-,hb⟩ := h.exists_bytes hwr
  exact hb.lt_length ha

/-- One writer is new, or has changed; the others are as they were. -/
theorem Represents.renew (h : s.Represents A) {W : List (BufferWriter w)} {B : List (List Byte)}
    {wr₀ : BufferWriter w} (hlen : W.length = B.length) (hwr : W[i]? = some wr')
    (hbs : B[i]? = some bs) (hW : ∀ k, k ≠ i → W[k]? = s.writers[k]?)
    (hB : ∀ k, k ≠ i → B[k]? = A[k]?) (hc : wr₀.Changes s.heap h' wr') (hb : wr'.Holds h' bs)
    (hapart : ∀ k wr a, k ≠ i → s.writers[k]? = some wr → wr.buf = some a → wr₀.buf ≠ some a) :
    (⟨h',W⟩ : Writers w).Represents B := by
  have hown : ∀ k wr a, k ≠ i → W[k]? = some wr → wr.buf = some a → wr'.buf ≠ some a := by
    intro k wr a hki hk ha hwr'
    rw [hW k hki] at hk
    rcases hc.own with hsame | ⟨p,hp,hfresh⟩
    · exact hapart k wr a hki hk ha (hsame.symm.trans hwr')
    · have hlt := h.lt_length hk ha
      cases hfresh.symm.trans hwr'
      omega
  refine ⟨hlen,?_,?_⟩
  · intro k wr₁ bs₁ hk hbs₁
    by_cases hki : k = i
    · subst hki
      cases hwr.symm.trans hk
      cases hbs.symm.trans hbs₁
      exact hb
    · rw [hW k hki] at hk
      rw [hB k hki] at hbs₁
      exact (h.holds hk hbs₁).keeps hc.keeps fun a ha => hapart k wr₁ a hki hk ha
  · intro j k p wr₁ wr₂ hj hk hp hp'
    by_cases hji : j = i
    · by_cases hki : k = i
      · rw [hji,hki]
      · subst hji
        cases hwr.symm.trans hj
        exact absurd hp (hown k wr₂ p hki hk hp')
    · by_cases hki : k = i
      · subst hki
        cases hwr.symm.trans hk
        exact absurd hp' (hown j wr₁ p hji hj hp)
      · rw [hW j hji] at hj
        rw [hW k hki] at hk
        exact h.apart hj hk hp hp'

theorem Represents.set (h : s.Represents A) (hwr : s.writers[i]? = some wr)
    (hc : wr.Changes s.heap h' wr') (hb : wr'.Holds h' bs) :
    (⟨h',s.writers.set i wr'⟩ : Writers w).Represents (A.set i bs) := by
  have hlt := (List.getElem?_eq_some_iff.mp hwr).1
  refine h.renew (i := i) (by simp [h.length]) (List.getElem?_set_self hlt)
    (List.getElem?_set_self (by rw [← h.length]; exact hlt))
    (fun k hk => List.getElem?_set_ne (Ne.symm hk)) (fun k hk => List.getElem?_set_ne (Ne.symm hk))
    hc hb fun k wr₁ a hki hk ha ha' => ?_
  exact hki (h.apart hk hwr ha ha')

theorem Represents.push (h : s.Represents A) (hc : BufferWriter.init.Changes s.heap h' wr')
    (hb : wr'.Holds h' bs) :
    (⟨h',s.writers ++ [wr']⟩ : Writers w).Represents (A ++ [bs]) := by
  have hlast : ∀ {β : Type} (l : List β) (b : β) (k : ℕ), k ≠ l.length → (l ++ [b])[k]? = l[k]? := by
    intro β l b k hk
    rw [List.getElem?_append]
    split
    · rfl
    · rw [List.getElem?_eq_none (l := l) (by omega)]
      simp
      omega
  refine h.renew (i := s.writers.length) (by simp [h.length]) (by simp) (by simp [h.length])
    (hlast _ _) (by rw [h.length]; exact hlast _ _) hc hb fun k wr₁ a _ _ _ ha => ?_
  cases ha

/-- Some of the writers, in another order. -/
theorem Represents.reindex (h : s.Represents A) {W : List (BufferWriter w)} {B : List (List Byte)}
    {f : ℕ → ℕ} (hf : Function.Injective f) (hlen : W.length = B.length)
    (hW : ∀ k, W[k]? = s.writers[f k]?) (hB : ∀ k, B[k]? = A[f k]?) {p : Option ℕ}
    (hkeeps : Heap.Keeps p s.heap h')
    (hp : ∀ (k : ℕ) (wr : BufferWriter w) (a : ℕ), W[k]? = some wr → wr.buf = some a → p ≠ some a) :
    (⟨h',W⟩ : Writers w).Represents B := by
  refine ⟨hlen,?_,?_⟩
  · intro k wr₁ bs₁ hk hbs
    have hp₁ : ∀ a, wr₁.buf = some a → p ≠ some a := fun a => hp k wr₁ a hk
    rw [hB k] at hbs
    exact (h.holds ((hW k).symm.trans hk) hbs).keeps hkeeps hp₁
  · intro j k p wr₁ wr₂ hj hk hp₁ hp₂
    exact hf (h.apart ((hW j).symm.trans hj) ((hW k).symm.trans hk) hp₁ hp₂)

end Represents
end Writers

namespace WriterOp

/-- The lengths that an operation brings together are not too large. -/
def Small (w : ℕ) (op : WriterOp) (A : List (List Byte)) : Prop :=
  match op with
  | .writeBuf i bs => ∀ a, A[i]? = some a → a.length + bs.length < 2^(w-1)
  | .copy j => ∀ b, A[j]? = some b → b.length < 2^(w-1)
  | .assign i j => ∀ a b, A[i]? = some a → A[j]? = some b → a.length + b.length < 2^(w-1)
  | _ => True

/-- What an operation does to the bytes: an assignment appends, and then cuts off. -/
def effect (op : WriterOp) (A : List (List Byte)) : Option (List (List Byte)) :=
  match op with
  | .assign i j => A[i]?.bind fun a => A[j]?.map fun b =>
      A.set i (if i = j then a ++ a else (a ++ b).take b.length)
  | op => op.onBytes A

end WriterOp

namespace Writers

variable {w : ℕ} {s t : Writers w} {A B : List (List Byte)} {op : WriterOp}
  {i j : ℕ} {bs ds : List Byte}

theorem Represents.writeBuf (fresh : ℕ → ℕ → Byte) (h : s.Represents A) (hbs : A[i]? = some bs)
    (hsmall : bs.length + ds.length < 2^(w-1)) :
    ∃ t, s.apply fresh (.writeBuf i ds) = some t ∧ t.Represents (A.set i (bs ++ ds)) := by
  obtain ⟨wr,hwr,hb⟩ := h.exists_writer hbs
  have hp : 2^(w-1) ≤ 2^w := Nat.pow_le_pow_right (by decide) (Nat.sub_le w 1)
  have hn : (BitVec.ofNat w ds.length).toNat = ds.length := by
    rw [BitVec.toNat_ofNat,Nat.mod_eq_of_lt (by omega)]
  have hsource : ∀ h', Heap.Keeps wr.buf s.heap h' →
      (Source.bytes ds).load (BitVec.ofNat w ds.length).toNat h' = some ds :=
    fun h' _ => by simp [Source.load, hn]
  obtain ⟨h',wr',hwrite,hb',hc⟩ := BufferWriter.writeBuf_spec fresh hb hn hsmall hsource
  refine ⟨_,?_,h.set hwr hc hb'⟩
  simp only [apply, hwr, hwrite, Option.bind_eq_bind, Option.bind_some]

theorem Represents.copy (fresh : ℕ → ℕ → Byte) (h : s.Represents A) (hbs : A[j]? = some bs)
    (hsmall : bs.length < 2^(w-1)) :
    ∃ t, s.apply fresh (.copy j) = some t ∧ t.Represents (A ++ [bs]) := by
  obtain ⟨wr,hwr,hb⟩ := h.exists_writer hbs
  obtain ⟨h',wr',hcopy,hb',hc⟩ := BufferWriter.copy_spec fresh hb hsmall
  refine ⟨_,?_,h.push hc hb'⟩
  simp only [apply, hwr, hcopy, Option.bind_eq_bind, Option.bind_some]

/-- An assignment between two writers appends and then cuts off. -/
theorem Represents.assign (fresh : ℕ → ℕ → Byte) (h : s.Represents A) (hij : i ≠ j)
    (hbs : A[i]? = some bs) (hds : A[j]? = some ds) (hsmall : bs.length + ds.length < 2^(w-1)) :
    ∃ t, s.apply fresh (.assign i j) = some t ∧
      t.Represents (A.set i ((bs ++ ds).take ds.length)) := by
  obtain ⟨wr,hwr,hb⟩ := h.exists_writer hbs
  obtain ⟨buf,hbuf,hd⟩ := h.exists_writer hds
  have hsource : ∀ h', Heap.Keeps wr.buf s.heap h' →
      (Source.array buf.buf).load buf.len.toNat h' = some ds := by
    intro h' hk
    exact (hd.keeps hk fun a ha ha' => hij (h.apart hwr hbuf ha' ha)).getByteBuffer
  obtain ⟨h',wr',hwrite,hb',hc⟩ := BufferWriter.writeBuf_spec fresh hb hd.len hsmall hsource
  have htake := hb'.take (n := buf.len) (by rw [hd.len]; simp)
  rw [hd.len] at htake
  have hset : (⟨h',s.writers.set i { wr' with len := buf.len }⟩ : Writers w).Represents
      (A.set i ((bs ++ ds).take ds.length)) := h.set hwr ⟨hc.keeps,hc.own⟩ htake
  refine ⟨_,?_,hset⟩
  simp only [apply, Writers.assign, hwr, hbuf, hwrite, Option.bind_eq_bind, Option.bind_some,
    List.getElem?_set_ne hij, List.set_set]

/-- An assignment of a writer to itself appends, or copies from an array that is gone. -/
theorem Represents.assign_self (fresh : ℕ → ℕ → Byte) (h : s.Represents A) (hbs : A[i]? = some bs)
    (hsmall : bs.length + bs.length < 2^(w-1)) :
    (∃ t, s.apply fresh (.assign i i) = some t ∧ t.Represents (A.set i (bs ++ bs))) ∨
      (s.apply fresh (.assign i i) = none ∧ bs ≠ []) := by
  obtain ⟨wr,hwr,hb⟩ := h.exists_writer hbs
  have hlt := (List.getElem?_eq_some_iff.mp hwr).1
  rcases BufferWriter.writeBuf_self fresh hb hsmall with
    ⟨hwrite,hne⟩ | ⟨h',wr',hwrite,hb',hc⟩
  · right
    refine ⟨?_,hne⟩
    simp only [apply, Writers.assign, hwr, hwrite, Option.bind_eq_bind, Option.bind_some,
      Option.bind_none]
  · left
    refine ⟨_,?_,h.set hwr hc hb'⟩
    simp only [apply, Writers.assign, hwr, hwrite, Option.bind_eq_bind, Option.bind_some,
      List.getElem?_set_self hlt, List.set_set]

theorem getElem?_swap {β : Type} {l : List β} {a b : β} (hi : l[i]? = some a) (hj : l[j]? = some b)
    (k : ℕ) : ((l.set i b).set j a)[k]? = l[Equiv.swap i j k]? := by
  have hilt := (List.getElem?_eq_some_iff.mp hi).1
  have hjlt := (List.getElem?_eq_some_iff.mp hj).1
  rw [List.getElem?_set,List.getElem?_set]
  by_cases hjk : j = k
  · subst hjk
    rw [Equiv.swap_apply_right,hi]
    simp [hjlt]
  · by_cases hik : i = k
    · subst hik
      rw [Equiv.swap_apply_left,hj]
      simp [hjk, hilt]
    · rw [Equiv.swap_apply_of_ne_of_ne (Ne.symm hik) (Ne.symm hjk)]
      simp [hjk, hik]

theorem Represents.swap (fresh : ℕ → ℕ → Byte) (h : s.Represents A) (hbs : A[i]? = some bs)
    (hds : A[j]? = some ds) :
    ∃ t, s.apply fresh (.swap i j) = some t ∧ t.Represents ((A.set i ds).set j bs) := by
  obtain ⟨wr,hwr,-⟩ := h.exists_writer hbs
  obtain ⟨wr',hwr',-⟩ := h.exists_writer hds
  refine ⟨{ s with writers := (s.writers.set i wr').set j wr },?_,?_⟩
  · simp only [apply, hwr, hwr', Option.bind_eq_bind, Option.bind_some]
  · exact h.reindex (Equiv.swap i j).injective (by simp [h.length]) (getElem?_swap hwr hwr')
      (getElem?_swap hbs hds) (Heap.Keeps.refl none _) (by simp)

theorem Represents.destroy (fresh : ℕ → ℕ → Byte) (h : s.Represents A) (hbs : A[i]? = some bs) :
    ∃ t, s.apply fresh (.destroy i) = some t ∧ t.Represents (A.eraseIdx i) := by
  obtain ⟨wr,hwr,hb⟩ := h.exists_writer hbs
  have hbehind : ∀ {β : Type} (l : List β) (k : ℕ),
      (l.eraseIdx i)[k]? = l[if k < i then k else k+1]? := by
    intro β l k
    rw [List.getElem?_eraseIdx]
    split <;> rfl
  have hinj : Function.Injective fun k => if k < i then k else k+1 := by
    intro k k' hk
    dsimp only at hk
    split at hk <;> split at hk <;> omega
  refine ⟨⟨s.heap.put wr.buf none,s.writers.eraseIdx i⟩,?_,?_⟩
  · simp only [apply, hwr, hb.delete, Option.bind_eq_bind, Option.bind_some]
  · refine h.reindex hinj ?_ (hbehind _) (hbehind _) (Heap.Keeps.put wr.buf none _) ?_
    · simp only [List.length_eraseIdx, h.length]
    · intro k wr₁ a hk ha ha'
      rw [hbehind] at hk
      have hik := h.apart hwr hk ha' ha
      split at hik <;> omega

/-- Every operation does to the bytes what `effect` says, unless a writer is assigned to itself
and its array is too small for its bytes twice. -/
theorem Represents.apply (fresh : ℕ → ℕ → Byte) (h : s.Represents A) (hsmall : op.Small w A)
    (hB : op.effect A = some B) :
    (∃ t, s.apply fresh op = some t ∧ t.Represents B) ∨
      (s.apply fresh op = none ∧ ∃ i a, op = .assign i i ∧ A[i]? = some a ∧ a ≠ []) := by
  cases op with
  | init =>
    cases hB
    exact .inl ⟨_,rfl,h.push ⟨Heap.Keeps.refl none _,.inl rfl⟩ BufferWriter.holds_init⟩
  | writeBuf i ds =>
    obtain ⟨a,ha,rfl⟩ := Option.map_eq_some_iff.mp hB
    exact .inl (h.writeBuf fresh ha (hsmall a ha))
  | reset i =>
    obtain ⟨a,ha,rfl⟩ := Option.map_eq_some_iff.mp hB
    obtain ⟨wr,hwr,hb⟩ := h.exists_writer ha
    have hset : (⟨s.heap,s.writers.set i wr.reset⟩ : Writers w).Represents (A.set i []) :=
      h.set hwr ⟨Heap.Keeps.refl _ _,.inl rfl⟩ hb.reset
    refine .inl ⟨_,?_,hset⟩
    simp only [Writers.apply, hwr, Option.bind_eq_bind, Option.bind_some]
  | copy j =>
    obtain ⟨b,hb,rfl⟩ := Option.map_eq_some_iff.mp hB
    exact .inl (h.copy fresh hb (hsmall b hb))
  | assign i j =>
    obtain ⟨a,ha,hB⟩ := Option.bind_eq_some_iff.mp hB
    obtain ⟨b,hb,rfl⟩ := Option.map_eq_some_iff.mp hB
    have hlen := hsmall a b ha hb
    by_cases hij : i = j
    · subst hij
      cases ha.symm.trans hb
      rw [if_pos rfl]
      rcases h.assign_self fresh ha hlen with hdone | ⟨hnone,hne⟩
      · exact .inl hdone
      · exact .inr ⟨hnone,i,a,rfl,ha,hne⟩
    · rw [if_neg hij]
      exact .inl (h.assign fresh hij ha hb hlen)
  | swap i j =>
    obtain ⟨a,ha,hB⟩ := Option.bind_eq_some_iff.mp hB
    obtain ⟨b,hb,rfl⟩ := Option.map_eq_some_iff.mp hB
    exact .inl (h.swap fresh ha hb)
  | destroy i =>
    obtain ⟨a,ha,rfl⟩ := Option.map_eq_some_iff.mp hB
    exact .inl (h.destroy fresh ha)

end Writers

/-- The operation leaves the bytes that it should: an assigned writer is empty, or what is in
front of the other's bytes makes no difference. -/
def WriterOp.Exact (op : WriterOp) (A : List (List Byte)) : Prop :=
  ∀ i j a b, op = .assign i j → A[i]? = some a → A[j]? = some b →
    if i = j then a = [] else (a ++ b).take b.length = b

/-- An operation on the writers and on the bytes that they should hold. There are no writers
once the code was undefined. -/
def Both (w : ℕ) (fresh : ℕ → ℕ → Byte) (op : WriterOp)
    (s t : Option (Writers w) × List (List Byte)) : Prop :=
  op.Small w s.2 ∧ op.onBytes s.2 = some t.2 ∧ t.1 = s.1.bind (Writers.apply fresh op)

/-- The writers are there and show the bytes. -/
def Agree {w : ℕ} (s : Option (Writers w) × List (List Byte)) : Prop :=
  ∃ t, s.1 = some t ∧ t.Shows s.2

section Runs
variable {w : ℕ} {A B : List (List Byte)} {op : WriterOp} {s t : Option (Writers w) × List (List Byte)}

/-- An operation is exact when its effect is what it is for. -/
theorem WriterOp.exact_iff (h : op.onBytes A = some B) :
    ∃ C, op.effect A = some C ∧ (C = B ↔ op.Exact A) := by
  cases op with
  | assign i j =>
    obtain ⟨a,ha,h⟩ := Option.bind_eq_some_iff.mp h
    obtain ⟨b,hb,rfl⟩ := Option.map_eq_some_iff.mp h
    have hlt := (List.getElem?_eq_some_iff.mp ha).1
    refine ⟨A.set i (if i = j then a ++ a else (a ++ b).take b.length),by simp [effect, ha, hb],?_⟩
    have hset : ∀ {c d : List Byte}, A.set i c = A.set i d ↔ c = d := by
      intro c d
      refine ⟨fun h => ?_,fun h => by rw [h]⟩
      have hget := congrArg (·[i]?) h
      simpa [hlt] using hget
    have hexact : Exact (.assign i j) A ↔
        if i = j then a = [] else (a ++ b).take b.length = b := by
      refine ⟨fun h => h i j a b rfl ha hb,fun h => ?_⟩
      intro i' j' a' b' hop ha' hb'
      cases hop
      cases ha.symm.trans ha'
      cases hb.symm.trans hb'
      exact h
    rw [hset,hexact]
    by_cases hij : i = j
    · subst hij
      cases ha.symm.trans hb
      simp
    · simp only [hij, if_false]
  | _ => exact ⟨B,h,iff_of_true rfl fun _ _ _ _ hop => by cases hop⟩

/-- After an operation the writers show the bytes exactly when it was exact. -/
theorem Both.agree_iff {fresh : ℕ → ℕ → Byte} (h : Both w fresh op s t)
    (hs : ∃ u, s.1 = some u ∧ u.Represents s.2) :
    (Agree t ↔ op.Exact s.2) ∧ (op.Exact s.2 → ∃ u, t.1 = some u ∧ u.Represents t.2) := by
  obtain ⟨hsmall,hbytes,hcode⟩ := h
  obtain ⟨u,hu,hrep⟩ := hs
  obtain ⟨C,hC,hiff⟩ := WriterOp.exact_iff hbytes
  rw [hu,Option.bind_some] at hcode
  rcases hrep.apply fresh hsmall hC with ⟨v,hv,hrep'⟩ | ⟨hnone,i,a,hop,ha,hne⟩
  · rw [hv] at hcode
    refine ⟨?_,fun hexact => ⟨v,hcode,?_⟩⟩
    · rw [← hiff]
      refine ⟨fun hagree => ?_,fun hCB => ⟨v,hcode,hCB ▸ hrep'.shows⟩⟩
      obtain ⟨v',hv',hshows⟩ := hagree
      cases hcode.symm.trans hv'
      exact hrep'.shows.unique hshows
    · rw [← hiff.mpr hexact]
      exact hrep'
  · have hinexact : ¬ op.Exact s.2 := by
      intro hexact
      exact hne (by simpa using hexact i i a a hop ha ha)
    refine ⟨iff_of_false ?_ hinexact,fun hexact => absurd hexact hinexact⟩
    intro hagree
    obtain ⟨v,hv,-⟩ := hagree
    rw [hcode,hnone] at hv
    cases hv

/-- Whatever else is on the heap, the writers show at every point what the same operations make
of plain lists of bytes in exactly those runs whose assignments are exact. -/
theorem bytes_run_iff (fresh : ℕ → ℕ → Byte) (h₀ : Heap Byte) {ops : List WriterOp} :
    Within Agree (Both w fresh) (some ⟨h₀,[]⟩,[]) ops t ↔
      Run (Guarded (fun op s => op.Exact s.2) (Both w fresh)) (some ⟨h₀,[]⟩,[]) ops t := by
  have hinit : (⟨h₀,[]⟩ : Writers w).Represents [] := ⟨rfl,by simp,by simp⟩
  refine (and_iff_right ⟨_,rfl,hinit.shows⟩).trans ?_
  refine Run.congr (I := fun s => ∃ u, s.1 = some u ∧ u.Represents s.2) ⟨_,rfl,hinit⟩
    (fun op s t hs => ?_) fun op s t hs h => ?_
  · refine ⟨fun h => ?_,fun h => ?_⟩
    · exact ⟨(h.1.agree_iff hs).1.mp h.2,h.1⟩
    · exact ⟨h.2,(h.2.agree_iff hs).1.mpr h.1⟩
  · obtain ⟨hiff,hkeeps⟩ := h.1.agree_iff hs
    exact hkeeps (hiff.mp h.2)

/-- The writer of "a" is assigned the writer of "b" and still holds "a". -/
theorem not_agree_assigned : ¬ ∀ ops t,
    Run (Both 32 fun _ _ => 0) (some ⟨[],[]⟩,[]) ops t → Agree t := by
  intro h
  have hrun : Run (Both 32 fun _ _ => 0) (some ⟨[],[]⟩,[])
      [.init,.writeBuf 0 [0x61],.init,.writeBuf 1 [0x62],.assign 0 1]
      (some ⟨[some [0x61,0x62],some [0x62,0]],[⟨some 0,1,2⟩,⟨some 1,1,2⟩]⟩,
        [[0x62],[0x62]]) := by
    refine .cons (t := (some ⟨[],[.init]⟩,[[]])) ⟨trivial,rfl,rfl⟩ ?_
    refine .cons (t := (some ⟨[some [0x61,0]],[⟨some 0,1,2⟩]⟩,[[0x61]])) ⟨?_,rfl,rfl⟩ ?_
    · simp [WriterOp.Small]
    refine .cons (t := (some ⟨[some [0x61,0]],[⟨some 0,1,2⟩,.init]⟩,[[0x61],[]]))
      ⟨trivial,rfl,rfl⟩ ?_
    refine .cons (t := (some ⟨[some [0x61,0],some [0x62,0]],[⟨some 0,1,2⟩,⟨some 1,1,2⟩]⟩,
      [[0x61],[0x62]])) ⟨?_,rfl,rfl⟩ ?_
    · simp [WriterOp.Small]
    · exact .cons ⟨by simp [WriterOp.Small],rfl,rfl⟩ .nil
  obtain ⟨t,ht,hshows⟩ := h _ _ hrun
  cases ht
  exact absurd hshows.bytes (by decide)

/-- Whether the assignments are exact or not, the writers stay what `Represents` says, as far
as the code is defined. -/
theorem represents_run (fresh : ℕ → ℕ → Byte) (h₀ : Heap Byte) {ops : List WriterOp}
    {s : Writers w} (h : Run (fun op (s t : Writers w × List (List Byte)) => op.Small w s.2 ∧
      op.effect s.2 = some t.2 ∧ s.1.apply fresh op = some t.1) (⟨h₀,[]⟩,[]) ops (s,A)) :
    s.Represents A := by
  have hinit : (⟨h₀,[]⟩ : Writers w).Represents [] := ⟨rfl,by simp,by simp⟩
  refine h.invariant (I := fun s => s.1.Represents s.2) hinit fun op s t hs hst => ?_
  obtain ⟨hsmall,heffect,hcode⟩ := hst
  rcases hs.apply fresh hsmall heffect with ⟨u,hu,hrep⟩ | ⟨hnone,-⟩
  · cases hcode.symm.trans hu
    exact hrep
  · cases hcode.symm.trans hnone

/-- What is written piece by piece is there in one piece. -/
theorem exists_writes (fresh : ℕ → ℕ → Byte) (pieces : List (List Byte)) {s : Writers w} {bs : List Byte}
    (h : s.Represents [bs]) (hlen : (bs ++ pieces.flatten).length < 2^(w-1)) :
    ∃ t, runAll (Writers.apply fresh) (pieces.map (.writeBuf 0)) s = some t ∧
      t.Represents [bs ++ pieces.flatten] := by
  induction pieces generalizing s bs with
  | nil => exact ⟨s,rfl,by simpa using h⟩
  | cons piece pieces ih =>
    rw [List.flatten_cons,← List.append_assoc] at hlen
    have hsmall : bs.length + piece.length < 2^(w-1) := by
      rw [List.length_append,List.length_append] at hlen
      omega
    obtain ⟨t,ht,hrep⟩ := h.writeBuf (i := 0) fresh rfl hsmall
    obtain ⟨u,hu,hrep'⟩ := ih hrep hlen
    refine ⟨u,?_,?_⟩
    · rw [List.map_cons,runAll,ht,Option.bind_some]
      exact hu
    · rw [List.flatten_cons,← List.append_assoc]
      exact hrep'

end Runs

end UninstallObserver.Jce
