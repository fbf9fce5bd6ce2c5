import UninstallObserver.Lib.ArrayHeap
import UninstallObserver.Lib.ByteOrder

/-! The buffer that the output stream writes to. -/
namespace UninstallObserver.Jce
open ByteOrder ArrayHeap

/-- `_buf`, `_len` and `_buf_len`. -/
structure BufferWriter (w : ℕ) where
  buf : Option ℕ
  len : BitVec w
  bufLen : BitVec w
  deriving DecidableEq, Repr

/-- Where `writeBuf` copies from: bytes of the caller's, or an array on the heap. -/
inductive Source where
  | bytes (bs : List Byte)
  | array (p : Option ℕ)
  deriving DecidableEq, Repr

def Source.load (n : ℕ) (h : Heap Byte) : Source → Option (List Byte)
  | bytes bs => if n ≤ bs.length then some (bs.take n) else none
  | array p => h.load p 0 n

namespace BufferWriter

variable {w : ℕ}

/-- `BufferWriter()`. -/
def init : BufferWriter w := ⟨none,0,0⟩

/-- `reserve`, with twice what is asked for; `fresh` is what a new array holds. -/
def reserve (fresh : ℕ → ℕ → Byte) (len : BitVec w) (h : Heap Byte) (wr : BufferWriter w) :
    Option (Heap Byte × BufferWriter w) :=
  if wr.bufLen < len then do
    let len := len * 2
    let p := h.length
    let h := h.new ((List.range len.toNat).map (fresh p))
    let bs ← h.load wr.buf 0 wr.len.toNat
    let h ← h.store (some p) 0 bs
    let h ← h.delete wr.buf
    some (h,{ wr with buf := some p, bufLen := len })
  else some (h,wr)

def reset (wr : BufferWriter w) : BufferWriter w := { wr with len := 0 }

def writeBuf (fresh : ℕ → ℕ → Byte) (buf : Source) (len : BitVec w) (h : Heap Byte)
    (wr : BufferWriter w) : Option (Heap Byte × BufferWriter w) := do
  let (h,wr) ← wr.reserve fresh (wr.len + len) h
  let bs ← buf.load len.toNat h
  let h ← h.store wr.buf wr.len.toNat bs
  some (h,{ wr with len := wr.len + len })

/-- `BufferWriter(const BufferWriter&)`. -/
def copy (fresh : ℕ → ℕ → Byte) (bw : BufferWriter w) (h : Heap Byte) :
    Option (Heap Byte × BufferWriter w) := do
  let (h,wr) ← init.writeBuf fresh (.array bw.buf) bw.len h
  some (h,{ wr with len := bw.len })

def getByteBuffer (h : Heap Byte) (wr : BufferWriter w) : Option (List Byte) :=
  h.load wr.buf 0 wr.len.toNat

/-- The writer's bytes are the first of its array, which is as long as it says. -/
structure Holds (h : Heap Byte) (wr : BufferWriter w) (bs : List Byte) : Prop where
  len : wr.len.toNat = bs.length
  room : ∃ rest, h.array wr.buf = some (bs ++ rest) ∧ (bs ++ rest).length = wr.bufLen.toNat

/-- What a method may do to the heap: the writer's own array may change, and be a new one. -/
structure Changes (h : Heap Byte) (wr : BufferWriter w) (h' : Heap Byte) (wr' : BufferWriter w) :
    Prop where
  keeps : Heap.Keeps wr.buf h h'
  own : wr'.buf = wr.buf ∨ ∃ p, h.length ≤ p ∧ wr'.buf = some p

section Methods
variable {h h' : Heap Byte} {wr : BufferWriter w} {bs ds : List Byte} {n len : BitVec w}

theorem Holds.le (hb : wr.Holds h bs) : wr.len ≤ wr.bufLen := by
  obtain ⟨rest,-,hlen⟩ := hb.room
  rw [BitVec.le_def,hb.len,← hlen,List.length_append]
  exact Nat.le_add_right _ _

theorem Holds.getByteBuffer (hb : wr.Holds h bs) : wr.getByteBuffer h = some bs := by
  obtain ⟨rest,harray,-⟩ := hb.room
  rw [BufferWriter.getByteBuffer,hb.len]
  exact Heap.load_append harray

theorem holds_init : (init : BufferWriter w).Holds h [] := ⟨by simp [init],[],rfl,by simp [init]⟩

theorem Holds.lt_length (hb : wr.Holds h bs) {a : ℕ} (ha : wr.buf = some a) : a < h.length := by
  obtain ⟨rest,harray,-⟩ := hb.room
  rw [ha] at harray
  exact Heap.lt_of_array harray

theorem Holds.delete (hb : wr.Holds h bs) : h.delete wr.buf = some (h.put wr.buf none) := by
  obtain ⟨rest,harray,-⟩ := hb.room
  exact Heap.delete_of_array harray

/-- Less of the same bytes. -/
theorem Holds.take (hb : wr.Holds h bs) (hn : n.toNat ≤ bs.length) :
    { wr with len := n }.Holds h (bs.take n.toNat) := by
  obtain ⟨rest,harray,hlen⟩ := hb.room
  refine ⟨?_,bs.drop n.toNat ++ rest,?_,?_⟩
  · simp [hn]
  · rw [← List.append_assoc,List.take_append_drop]
    exact harray
  · rw [← List.append_assoc,List.take_append_drop]
    exact hlen

theorem Holds.reset (hb : wr.Holds h bs) : wr.reset.Holds h [] := by
  have htake : wr.reset.Holds h (bs.take (0 : BitVec w).toNat) := hb.take (by simp)
  simpa using htake

/-- A writer is as it was when its array is. -/
theorem Holds.keeps {p : Option ℕ} (hb : wr.Holds h bs) (hk : Heap.Keeps p h h')
    (hne : ∀ a, wr.buf = some a → p ≠ some a) : wr.Holds h' bs := by
  obtain ⟨rest,harray,hlen⟩ := hb.room
  refine ⟨hb.len,rest,?_,hlen⟩
  cases hbuf : wr.buf with
  | none =>
    rw [hbuf] at harray
    exact harray
  | some a =>
    rw [hk.array a (hne a hbuf) (hb.lt_length hbuf),← hbuf]
    exact harray

theorem toNat_mul_two (hlen : len.toNat < 2^(w-1)) : (len * 2).toNat = 2*len.toNat := by
  have h2 : len.toNat * 2 < 2^w := by
    cases w with
    | zero => simpa using hlen
    | succ w =>
      rw [Nat.add_sub_cancel] at hlen
      rw [pow_succ]
      omega
  have hmul : (len * 2).toNat = len.toNat * 2 % 2^w := by
    rw [BitVec.toNat_mul]
    change len.toNat * (2 % 2^w) % 2^w = _
    rw [Nat.mul_mod_mod]
  rw [hmul,Nat.mod_eq_of_lt h2,Nat.mul_comm]

/-- An array that is too small is replaced by one of twice the length. -/
theorem reserve_of_lt (fresh : ℕ → ℕ → Byte) (hb : wr.Holds h bs) (hlen : len.toNat < 2^(w-1))
    (hlt : wr.bufLen < len) :
    ∃ h' wr', wr.reserve fresh len h = some (h',wr') ∧ wr'.Holds h' bs ∧ len ≤ wr'.bufLen ∧
      wr'.len = wr.len ∧ Changes h wr h' wr' ∧ ∀ a, wr.buf = some a → h'.array wr.buf = none := by
  have htwo := toNat_mul_two hlen
  have hle : bs.length ≤ len.toNat := by
    have hle := hb.le
    rw [BitVec.le_def,hb.len] at hle
    rw [BitVec.lt_def] at hlt
    omega
  obtain ⟨F,hF⟩ : ∃ F, F = (List.range (len * 2).toNat).map (fresh h.length) := ⟨_,rfl⟩
  have hFlen : F.length = 2*len.toNat := by rw [hF,List.length_map,List.length_range,htwo]
  have hload : (h.new F).load wr.buf 0 wr.len.toNat = some bs :=
    (hb.keeps (Heap.Keeps.new none F h) (by simp)).getByteBuffer
  have hroom : bs.length ≤ F.length := by omega
  obtain ⟨h₂,hstore,hnew,hkeeps⟩ := Heap.store_new h hroom
  have hne : wr.buf ≠ some h.length := fun hbuf => Nat.lt_irrefl _ (hb.lt_length hbuf)
  have hdelete : h₂.delete wr.buf = some (h₂.put wr.buf none) :=
    (hb.keeps hkeeps (by simp)).delete
  refine ⟨h₂.put wr.buf none,{ wr with buf := some h.length, bufLen := len * 2 },?_,⟨hb.len,
    F.drop bs.length,?_,?_⟩,?_,rfl,⟨?_,.inr ⟨h.length,Nat.le_refl _,rfl⟩⟩,?_⟩
  · rw [hF] at hload hstore
    simp only [reserve, if_pos hlt, hload, hstore, hdelete, Option.bind_eq_bind, Option.bind_some]
  · rw [Heap.array_put_of_ne hne]
    exact hnew
  · rw [htwo,List.length_append,List.length_drop]
    omega
  · rw [BitVec.le_def,htwo]
    omega
  · exact (hkeeps.weaken).trans (Heap.Keeps.put _ _ _)
  · intro a ha
    rw [ha]
    exact Heap.array_put_none

/-- An array that is large enough stays. -/
theorem reserve_of_le (fresh : ℕ → ℕ → Byte) (hlt : ¬ wr.bufLen < len) :
    wr.reserve fresh len h = some (h,wr) :=
  if_neg hlt

theorem Changes.keeps_put {wr' : BufferWriter w} (hc : Changes h wr h' wr')
    (x : Option (List Byte)) : Heap.Keeps wr.buf h (h'.put wr'.buf x) := by
  rcases hc.own with hown | ⟨p,hp,hown⟩
  · rw [hown]
    exact hc.keeps.trans (Heap.Keeps.put wr.buf x h')
  · rw [hown]
    refine ⟨by rw [Heap.length_put]; exact hc.keeps.length,fun a ha hlt => ?_⟩
    have hpa : some p ≠ some a := by
      intro hpa
      cases hpa
      omega
    rw [Heap.array_put_of_ne hpa,hc.keeps.array a ha hlt]

/-- Where there is room for it, more is put behind the bytes that there are. -/
theorem Holds.append (hb : wr.Holds h bs) (hn : n.toNat = ds.length)
    (hroom : bs.length + ds.length ≤ wr.bufLen.toNat) :
    ∃ x, h.store wr.buf wr.len.toNat ds = some (h.put wr.buf x) ∧
      { wr with len := wr.len + n }.Holds (h.put wr.buf x) (bs ++ ds) := by
  obtain ⟨rest,harray,hlen⟩ := hb.room
  rw [List.length_append] at hlen
  have hmax := wr.bufLen.isLt
  refine ⟨some (bs ++ ds ++ rest.drop ds.length),?_,?_,rest.drop ds.length,?_,?_⟩
  · rw [hb.len]
    exact Heap.store_append harray (by omega)
  · change (wr.len + n).toNat = _
    rw [BitVec.toNat_add_of_lt (by rw [hb.len,hn]; omega),hb.len,hn,List.length_append]
  · refine Heap.array_put_self harray ?_
    simp only [List.length_append, List.length_drop]
    omega
  · simp only [List.length_append, List.length_drop]
    omega

theorem toNat_len_add (hb : wr.Holds h bs) (hn : n.toNat = ds.length)
    (hsmall : bs.length + ds.length < 2^(w-1)) : (wr.len + n).toNat = bs.length + ds.length := by
  have hp : 2^(w-1) ≤ 2^w := Nat.pow_le_pow_right (by decide) (Nat.sub_le w 1)
  rw [BitVec.toNat_add_of_lt (by rw [hb.len,hn]; omega),hb.len,hn]

theorem reserve_spec (fresh : ℕ → ℕ → Byte) (hb : wr.Holds h bs) (hlen : len.toNat < 2^(w-1)) :
    ∃ h' wr', wr.reserve fresh len h = some (h',wr') ∧ wr'.Holds h' bs ∧ len ≤ wr'.bufLen ∧
      wr'.len = wr.len ∧ Changes h wr h' wr' := by
  by_cases hlt : wr.bufLen < len
  · obtain ⟨h',wr',hreserve,hb',hle,hkept,hc,-⟩ := reserve_of_lt fresh hb hlen hlt
    exact ⟨h',wr',hreserve,hb',hle,hkept,hc⟩
  · exact ⟨h,wr,reserve_of_le fresh hlt,hb,BitVec.not_lt.mp hlt,rfl,Heap.Keeps.refl wr.buf h,.inl rfl⟩

/-- `writeBuf` appends what is behind its pointer, unless `reserve` takes that away. -/
theorem writeBuf_spec (fresh : ℕ → ℕ → Byte) {buf : Source} (hb : wr.Holds h bs) (hn : n.toNat = ds.length)
    (hsmall : bs.length + ds.length < 2^(w-1))
    (hsource : ∀ h', Heap.Keeps wr.buf h h' → buf.load n.toNat h' = some ds) :
    ∃ h' wr', wr.writeBuf fresh buf n h = some (h',wr') ∧ wr'.Holds h' (bs ++ ds) ∧
      Changes h wr h' wr' := by
  have hadd := toNat_len_add hb hn hsmall
  have hlen : (wr.len + n).toNat < 2^(w-1) := by omega
  obtain ⟨h₁,wr₁,hreserve,hb₁,hle,hkept,hc⟩ := reserve_spec fresh hb hlen
  rw [BitVec.le_def,hadd] at hle
  obtain ⟨x,hstore,hb₂⟩ := hb₁.append hn hle
  refine ⟨_,_,?_,hb₂,hc.keeps_put x,hc.own⟩
  simp only [writeBuf, hreserve, hsource h₁ hc.keeps, hstore, Option.bind_eq_bind,
    Option.bind_some]

/-- A writer that appends itself has its bytes twice, or has lost the array it copies from. -/
theorem writeBuf_self (fresh : ℕ → ℕ → Byte) (hb : wr.Holds h bs)
    (hsmall : bs.length + bs.length < 2^(w-1)) :
    (wr.writeBuf fresh (.array wr.buf) wr.len h = none ∧ bs ≠ []) ∨
      ∃ h' wr', wr.writeBuf fresh (.array wr.buf) wr.len h = some (h',wr') ∧
        wr'.Holds h' (bs ++ bs) ∧ Changes h wr h' wr' := by
  have hadd := toNat_len_add hb hb.len hsmall
  by_cases hlt : wr.bufLen < wr.len + wr.len
  · left
    have hne : bs ≠ [] := by
      intro hnil
      rw [BitVec.lt_def,hadd,hnil] at hlt
      exact Nat.not_lt_zero _ hlt
    obtain ⟨h',wr',hreserve,-,-,-,-,hgone⟩ := reserve_of_lt fresh hb (by omega) hlt
    obtain ⟨rest,harray,-⟩ := hb.room
    refine ⟨?_,hne⟩
    cases hbuf : wr.buf with
    | none =>
      rw [hbuf] at harray
      simp only [Heap.array_none, Option.some.injEq] at harray
      exact absurd (List.append_eq_nil_iff.mp harray.symm).1 hne
    | some a =>
      have hload : h'.load wr.buf 0 wr.len.toNat = none := by rw [Heap.load,hgone a hbuf]; rfl
      rw [hbuf] at hload
      simp only [writeBuf, hreserve, Source.load, hload, Option.bind_eq_bind, Option.bind_some,
        Option.bind_none]
  · right
    have hle := BitVec.not_lt.mp hlt
    rw [BitVec.le_def,hadd] at hle
    obtain ⟨x,hstore,hb'⟩ := hb.append hb.len hle
    have hload : h.load wr.buf 0 wr.len.toNat = some bs := hb.getByteBuffer
    refine ⟨_,_,?_,hb',Heap.Keeps.put wr.buf x h,.inl rfl⟩
    simp only [writeBuf, reserve_of_le fresh hlt, Source.load, hload, hstore, Option.bind_eq_bind,
      Option.bind_some]

/-- A copy has the same bytes in an array of its own. -/
theorem copy_spec (fresh : ℕ → ℕ → Byte) (hb : wr.Holds h bs) (hsmall : bs.length < 2^(w-1)) :
    ∃ h' wr', wr.copy fresh h = some (h',wr') ∧ wr'.Holds h' bs ∧ Changes h init h' wr' := by
  have hsource : ∀ h', Heap.Keeps none h h' →
      (Source.array wr.buf).load wr.len.toNat h' = some bs :=
    fun h' hk => (hb.keeps hk (by simp)).getByteBuffer
  obtain ⟨h',wr',hwrite,hb',hc⟩ := writeBuf_spec fresh holds_init hb.len
    (by simpa using hsmall) hsource
  have htake := hb'.take (n := wr.len) (by simp [hb.len])
  rw [List.nil_append,hb.len,List.take_length] at htake
  refine ⟨h',_,?_,htake,hc.keeps,hc.own⟩
  simp only [copy, hwrite, Option.bind_eq_bind, Option.bind_some]

end Methods
end BufferWriter

end UninstallObserver.Jce
