import UninstallObserver.Jce.BufferedStream

/-! The writer that is given its buffer, which does not grow. -/
namespace UninstallObserver.Jce
open Imperative ByteOrder ArrayHeap Transition

/-- `_buf`, `_len` and `_buf_len`. -/
structure BufferWriterBuff (w : ℕ) where
  buf : Option ℕ
  len : BitVec w
  bufLen : BitVec w
  deriving DecidableEq, Repr

variable {w : ℕ}

namespace BufferWriterBuff

/-- `BufferWriterBuff()`. -/
def init : BufferWriterBuff w := ⟨none,0,0⟩

def setBuffer (buffer : Option ℕ) (sizeBuff : BitVec w) (_ : BufferWriterBuff w) :
    BufferWriterBuff w := ⟨buffer,0,sizeBuff⟩

def reset (wr : BufferWriterBuff w) : BufferWriterBuff w := { wr with len := 0 }

/-- The first `n` bytes of the source and the `n` from `p + i` on have some in common. -/
def overlaps (p : Option ℕ) (i n : ℕ) : Source → Bool
  | .bytes _ => false
  | .array p' => p' = p ∧ i < n

/-- What does not fit is not written. `memcpy` is undefined on ranges that overlap. -/
def writeBuf (buf : Source) (len : BitVec w) : Put (Heap Byte × BufferWriterBuff w) Unit :=
  fun (h,wr) =>
    if wr.bufLen < wr.len + len then .threw (.jceNotEnoughBuff "not enough buffer") (h,wr)
    else if overlaps wr.buf wr.len.toNat len.toNat buf then .undefined
    else match (buf.load len.toNat h).bind fun bs => h.store wr.buf wr.len.toNat bs with
      | some h => .returned () (h,{ wr with len := wr.len + len })
      | none => .undefined

def getByteBuffer (h : Heap Byte) (wr : BufferWriterBuff w) : Option (List Byte) :=
  h.load wr.buf 0 wr.len.toNat

/-- `writeBuf` of bytes of the caller's, as the stream calls it. -/
def put (bs : List Byte) : Put (Heap Byte × BufferWriterBuff w) Unit :=
  writeBuf (.bytes bs) (BitVec.ofNat w bs.length)

/-- The writer's bytes are the first of its buffer, and `rest` is behind them. -/
structure Holds (h : Heap Byte) (wr : BufferWriterBuff w) (bs rest : List Byte) : Prop where
  len : wr.len.toNat = bs.length
  array : h.array wr.buf = some (bs ++ rest)
  room : wr.bufLen.toNat = (bs ++ rest).length

section Stream
variable {h : Heap Byte} {wr : BufferWriterBuff w} {bs rest ds : List Byte} {n : BitVec w}

theorem Holds.getByteBuffer (hb : wr.Holds h bs rest) : wr.getByteBuffer h = some bs := by
  rw [BufferWriterBuff.getByteBuffer,hb.len]
  exact Heap.load_append hb.array

theorem load_bytes (hn : n.toNat = ds.length) : (Source.bytes ds).load n.toNat h = some ds := by
  simp [Source.load, hn]

/-- Bytes for which there is room are put behind those that are there. -/
theorem Holds.writeBuf (hb : wr.Holds h bs rest) (hn : n.toNat = ds.length)
    (hroom : ds.length ≤ rest.length) :
    ∃ x, BufferWriterBuff.writeBuf (.bytes ds) n (h,wr) =
        .returned () (h.put wr.buf x,{ wr with len := wr.len + n }) ∧
      { wr with len := wr.len + n }.Holds (h.put wr.buf x) (bs ++ ds) (rest.drop ds.length) := by
  have hmax := wr.bufLen.isLt
  rw [hb.room,List.length_append] at hmax
  have hadd : (wr.len + n).toNat = bs.length + ds.length := by
    rw [BitVec.toNat_add_of_lt (by rw [hb.len,hn]; omega),hb.len,hn]
  have hfits : ¬ wr.bufLen < wr.len + n := by
    rw [BitVec.lt_def,hadd,hb.room,List.length_append]
    omega
  have hstore : h.store wr.buf wr.len.toNat ds =
      some (h.put wr.buf (some (bs ++ ds ++ rest.drop ds.length))) := by
    rw [hb.len]
    exact Heap.store_append hb.array hroom
  have hlen : (bs ++ ds ++ rest.drop ds.length).length = (bs ++ rest).length := by
    simp only [List.length_append, List.length_drop]
    omega
  refine ⟨some (bs ++ ds ++ rest.drop ds.length),?_,?_,?_,?_⟩
  · simp only [BufferWriterBuff.writeBuf, if_neg hfits, overlaps, load_bytes hn, Option.bind_some,
      hstore, Bool.false_eq_true, if_false]
  · rw [List.length_append]
    exact hadd
  · exact Heap.array_put_self hb.array hlen
  · exact hb.room.trans hlen.symm

/-- After so many pieces the writer holds them behind what it held, and nothing else changed. -/
structure Taken (h : Heap Byte) (wr : BufferWriterBuff w) (bs rest : List Byte)
    (pieces : List (List Byte)) (s : Heap Byte × BufferWriterBuff w) : Prop where
  holds : s.2.Holds s.1 (bs ++ pieces.flatten) (rest.drop pieces.flatten.length)
  fits : pieces.flatten.length ≤ rest.length
  own : s.2.buf = wr.buf
  keeps : Heap.Keeps wr.buf h s.1

theorem put_takes (h : Heap Byte) (wr : BufferWriterBuff w) (bs rest : List Byte) :
    Exec.Takes put (Taken h wr bs rest) fun pieces => pieces.flatten.length ≤ rest.length := by
  intro pieces d s hs hfits
  simp only [List.flatten_append, List.flatten_singleton, List.length_append] at hfits
  have hmax := s.2.bufLen.isLt
  rw [hs.holds.room] at hmax
  simp only [List.length_append, List.length_drop] at hmax
  have hn : (BitVec.ofNat w d.length).toNat = d.length := by
    rw [BitVec.toNat_ofNat,Nat.mod_eq_of_lt (by omega)]
  obtain ⟨x,hwrite,hholds⟩ := hs.holds.writeBuf hn (by rw [List.length_drop]; omega)
  have hflat : (pieces ++ [d]).flatten = pieces.flatten ++ d := by simp
  refine ⟨_,hwrite,?_,?_,hs.own,?_⟩
  · rw [List.append_assoc,List.drop_drop] at hholds
    rw [hflat,List.length_append]
    exact hholds
  · rw [hflat,List.length_append]
    exact hfits
  · rw [hs.own]
    exact hs.keeps.trans (Heap.Keeps.put _ x _)

theorem put_refuses (h : Heap Byte) (wr : BufferWriterBuff w) (hw : 0 < w)
    (hroom : (bs ++ rest).length ≤ 2^(w-1)) :
    Exec.Refuses put (Taken h wr bs rest) (fun pieces => pieces.flatten.length ≤ rest.length)
      (fun d => d.length < 2^(w-1)) (.jceNotEnoughBuff "not enough buffer") := by
  intro pieces d s hs hsmall hfits
  simp only [List.flatten_append, List.flatten_singleton, List.length_append] at hfits hroom
  have hp := two_pow_pred hw
  have hlen := hs.holds.len
  have hbuf := hs.holds.room
  have hle := hs.fits
  simp only [List.length_append, List.length_drop] at hlen hbuf
  have hn : (BitVec.ofNat w d.length).toNat = d.length := by
    rw [BitVec.toNat_ofNat,Nat.mod_eq_of_lt (by omega)]
  have hadd : (s.2.len + BitVec.ofNat w d.length).toNat = s.2.len.toNat + d.length := by
    rw [BitVec.toNat_add_of_lt (by rw [hn]; omega),hn]
  have hover : s.2.bufLen < s.2.len + BitVec.ofNat w d.length := by
    rw [BitVec.lt_def,hadd]
    omega
  exact ⟨s,if_pos hover,hs⟩

/-- What a stream spells is in the buffer afterwards if it fits; if not, the stream ends with the
exception, and what is there is the beginning of it. Whatever lies behind is as it was. -/
theorem put_streams {m : (σ : Type) → (List Byte → Put σ Unit) → Put σ Unit} {enc : List Byte}
    (hm : Streams m (.ok enc)) (hw : 0 < w) (hb : wr.Holds h bs rest)
    (hroom : (bs ++ rest).length ≤ 2^(w-1)) (hlen : enc.length < 2^(w-1)) :
    (enc.length ≤ rest.length → ∃ h' wr', m _ put (h,wr) = .returned () (h',wr') ∧
      wr'.Holds h' (bs ++ enc) (rest.drop enc.length) ∧ wr'.buf = wr.buf ∧
      Heap.Keeps wr.buf h h') ∧
    (rest.length < enc.length → ∃ h' wr' part,
      m _ put (h,wr) = .threw (.jceNotEnoughBuff "not enough buffer") (h',wr') ∧
      part <+: enc ∧ wr'.Holds h' (bs ++ part) (rest.drop part.length) ∧ wr'.buf = wr.buf ∧
      Heap.Keeps wr.buf h h') := by
  obtain ⟨pieces,thrown,hspells,hm⟩ := hm
  cases hspells
  have hbegin : Taken h wr bs rest [] (h,wr) :=
    ⟨by simpa using hb,by simp,rfl,Heap.Keeps.refl _ h⟩
  constructor
  · intro hfits
    have hdown : ∀ l l' : List (List Byte), (l ++ l').flatten.length ≤ rest.length →
        l.flatten.length ≤ rest.length := by
      intro l l' hl
      rw [List.flatten_append,List.length_append] at hl
      omega
    have hall : ([] ++ pieces).flatten.length ≤ rest.length := hfits
    obtain ⟨⟨h',wr'⟩,hemit,ht⟩ := (put_takes h wr bs rest).emit hdown hall hbegin none
    exact ⟨h',wr',by rw [hm,hemit]; rfl,ht.holds,ht.own,ht.keeps⟩
  · intro hover
    have hsmall : ∀ d ∈ pieces, d.length < 2^(w-1) := by
      intro d hd
      have hle := (List.sublist_flatten_of_mem hd).length_le
      omega
    have hnot : ¬ ([] ++ pieces).flatten.length ≤ rest.length := not_le.mpr hover
    obtain ⟨pre,d,post,⟨h',wr'⟩,rfl,-,hemit,-,ht⟩ := (put_takes h wr bs rest).emit_full
      (put_refuses h wr hw hroom) hsmall (by simp) hnot hbegin none
    refine ⟨h',wr',pre.flatten,by rw [hm,hemit],?_,ht.holds,ht.own,ht.keeps⟩
    rw [List.flatten_append]
    exact List.prefix_append _ _

end Stream

/-- The stream over the fixed buffer does what the stream over the growing one does as long as
there is room; without, it ends in the exception with the beginning of the same bytes. Nothing is
written outside the buffer, nor in it behind the bytes that count. -/
theorem writeFields_agree (fresh : ℕ → ℕ → Byte) {h hg : Heap Byte} {wr : BufferWriterBuff w}
    {g : BufferWriter w} {bs rest enc : List Byte} {fs : List Field} (hw : 0 < w)
    (hb : wr.Holds h bs rest) (hg₀ : g.Holds hg bs) (hroom : (bs ++ rest).length ≤ 2^(w-1))
    (henc : writeElems Field.write fs = .ok enc) (hlen : (bs ++ enc).length < 2^(w-1)) :
    ∃ hg' g' bytes h' wr' written, JceOutputStream.writeFields (BufferWriter.put fresh) fs (hg,g) =
        .returned () (hg',g') ∧ g'.getByteBuffer hg' = some bytes ∧
      wr'.Holds h' written ((bs ++ rest).drop written.length) ∧ wr'.buf = wr.buf ∧
      Heap.Keeps wr.buf h h' ∧
      ((bytes.length ≤ wr.bufLen.toNat ∧ written = bytes ∧
          JceOutputStream.writeFields put fs (h,wr) = .returned () (h',wr')) ∨
        (wr.bufLen.toNat < bytes.length ∧ written <+: bytes ∧
          JceOutputStream.writeFields put fs (h,wr) =
            .threw (.jceNotEnoughBuff "not enough buffer") (h',wr'))) := by
  have hstreams := Streams.writeFields fs
  rw [henc] at hstreams
  obtain ⟨hg',g',hgrow,hgrown,-⟩ := BufferWriter.put_streams hstreams fresh hg₀ hlen
  have hlen' : enc.length < 2^(w-1) := by
    rw [List.length_append] at hlen
    omega
  obtain ⟨hfits,hover⟩ := put_streams hstreams hw hb hroom hlen'
  have hbehind : ∀ ds : List Byte,
      (bs ++ rest).drop (bs ++ ds).length = rest.drop ds.length := by
    intro ds
    rw [List.length_append,← List.drop_drop,List.drop_left]
  have hsize : wr.bufLen.toNat = bs.length + rest.length := by
    rw [hb.room,List.length_append]
  by_cases hle : enc.length ≤ rest.length
  · obtain ⟨h',wr',hwrite,hholds,hown,hkeeps⟩ := hfits hle
    refine ⟨hg',g',bs ++ enc,h',wr',bs ++ enc,hgrow,hgrown.getByteBuffer,?_,hown,hkeeps,?_⟩
    · rwa [hbehind]
    · refine .inl ⟨?_,rfl,hwrite⟩
      rw [List.length_append,hsize]
      omega
  · obtain ⟨h',wr',part,hwrite,hpart,hholds,hown,hkeeps⟩ := hover (not_le.mp hle)
    refine ⟨hg',g',bs ++ enc,h',wr',bs ++ part,hgrow,hgrown.getByteBuffer,?_,hown,hkeeps,?_⟩
    · rwa [hbehind]
    · refine .inr ⟨?_,(List.prefix_append_right_inj bs).mpr hpart,hwrite⟩
      rw [List.length_append,hsize]
      omega

/-- Room for four bytes behind one that is there, and eight to be written. -/
theorem writeFields_agree_boxed : ∃ hg' g' bytes h' wr' written,
    JceOutputStream.writeFields (BufferWriter.put fun _ _ => 0) boxedFields
      ([some [5]],(⟨some 0,1,1⟩ : BufferWriter 32)) = .returned () (hg',g') ∧
    g'.getByteBuffer hg' = some bytes ∧
    wr'.Holds h' written (([5] ++ [0,0,0,0] : List Byte).drop written.length) ∧
    wr'.buf = some 0 ∧ Heap.Keeps (some 0) [some [5,0,0,0,0]] h' ∧
    ((bytes.length ≤ (5 : BitVec 32).toNat ∧ written = bytes ∧
        JceOutputStream.writeFields put boxedFields
          ([some [5,0,0,0,0]],(⟨some 0,1,5⟩ : BufferWriterBuff 32)) = .returned () (h',wr')) ∨
      ((5 : BitVec 32).toNat < bytes.length ∧ written <+: bytes ∧
        JceOutputStream.writeFields put boxedFields
          ([some [5,0,0,0,0]],(⟨some 0,1,5⟩ : BufferWriterBuff 32)) =
            .threw (.jceNotEnoughBuff "not enough buffer") (h',wr'))) := by
  have henc : writeElems Field.write boxedFields = .ok [1,1,44,253,20,0,0,3,7,0,9] := by decide
  have hb : (⟨some 0,1,5⟩ : BufferWriterBuff 32).Holds [some [5,0,0,0,0]] [5] [0,0,0,0] :=
    ⟨rfl,rfl,rfl⟩
  have hg : (⟨some 0,1,1⟩ : BufferWriter 32).Holds [some [5]] [5] := ⟨rfl,[],rfl,rfl⟩
  exact writeFields_agree (fun _ _ => 0) (by decide) hb hg (by decide) henc (by decide)

end BufferWriterBuff
end UninstallObserver.Jce
