import UninstallObserver.Jce.StreamWrites
import UninstallObserver.Jce.WriterRuns

/-! The output stream over the writer whose buffer grows, and the bytes it leaves in memory. -/
namespace UninstallObserver.Jce
open Imperative ByteOrder ArrayHeap BufferReader

variable {w : ℕ}

namespace BufferWriter

/-- `writeBuf` of bytes of the caller's, as the stream calls it. -/
def put (fresh : ℕ → ℕ → Byte) (bs : List Byte) : Put (Heap Byte × BufferWriter w) Unit := fun s =>
  match s.2.writeBuf fresh (.bytes bs) (BitVec.ofNat w bs.length) s.1 with
  | some t => .returned () t
  | none => .undefined

/-- `getBuffer()` and `getLength()`, as far as a reader is given them. -/
def reader (h : Heap Byte) (wr : BufferWriter w) : Option (BufferReader w) :=
  (wr.getByteBuffer h).map fun bs => setBuffer bs wr.len

section Methods
variable {h h' h'' : Heap Byte} {wr wr' wr'' : BufferWriter w} {bs : List Byte}

theorem Changes.refl (h : Heap Byte) (wr : BufferWriter w) : Changes h wr h wr :=
  ⟨Heap.Keeps.refl _ h,.inl rfl⟩

theorem Changes.trans (hc : Changes h wr h' wr') (hc' : Changes h' wr' h'' wr'') :
    Changes h wr h'' wr'' where
  keeps := by
    refine ⟨hc.keeps.length.trans hc'.keeps.length,fun a ha hlt => ?_⟩
    have hne : wr'.buf ≠ some a := by
      rcases hc.own with hown | ⟨p,hp,hown⟩
      · rwa [hown]
      · rw [hown]
        intro hpa
        cases hpa
        omega
    rw [hc'.keeps.array a hne (hlt.trans_le hc.keeps.length),hc.keeps.array a ha hlt]
  own := by
    rcases hc'.own with hown' | ⟨p,hp,hown'⟩
    · rw [hown']
      exact hc.own
    · exact .inr ⟨p,hc.keeps.length.trans hp,hown'⟩

/-- After so many pieces the writer holds them behind what it held. -/
structure Taken (h : Heap Byte) (wr : BufferWriter w) (bs : List Byte) (pieces : List (List Byte))
    (s : Heap Byte × BufferWriter w) : Prop where
  holds : s.2.Holds s.1 (bs ++ pieces.flatten)
  changes : Changes h wr s.1 s.2

/-- As long as there are fewer bytes than an object can have, the writer takes them. -/
theorem put_takes (fresh : ℕ → ℕ → Byte) (h : Heap Byte) (wr : BufferWriter w) (bs : List Byte) :
    Exec.Takes (put fresh) (Taken h wr bs)
      fun pieces => (bs ++ pieces.flatten).length < 2^(w-1) := by
  intro pieces d s hs hfits
  have hflat : bs ++ (pieces ++ [d]).flatten = (bs ++ pieces.flatten) ++ d := by simp
  rw [hflat] at hfits
  rw [List.length_append] at hfits
  have hp : 2^(w-1) ≤ 2^w := Nat.pow_le_pow_right (by decide) (Nat.sub_le w 1)
  have hn : (BitVec.ofNat w d.length).toNat = d.length := by
    rw [BitVec.toNat_ofNat,Nat.mod_eq_of_lt (by omega)]
  have hsource : ∀ h', Heap.Keeps s.2.buf s.1 h' →
      (Source.bytes d).load (BitVec.ofNat w d.length).toNat h' = some d :=
    fun h' _ => by simp [Source.load, hn]
  obtain ⟨h',wr',hwrite,hholds,hc⟩ := writeBuf_spec fresh hs.holds hn hfits hsource
  refine ⟨(h',wr'),?_,?_,hs.changes.trans hc⟩
  · simp only [put, hwrite]
  · rw [hflat]
    exact hholds

/-- Whatever a stream spells is in the writer's memory afterwards, behind what was there. -/
theorem put_streams {m : (σ : Type) → (List Byte → Put σ Unit) → Put σ Unit} {enc : List Byte}
    (hm : Streams m (.ok enc)) (fresh : ℕ → ℕ → Byte) (hb : wr.Holds h bs)
    (hsmall : (bs ++ enc).length < 2^(w-1)) :
    ∃ h' wr', m _ (put fresh) (h,wr) = .returned () (h',wr') ∧ wr'.Holds h' (bs ++ enc) ∧
      Changes h wr h' wr' := by
  obtain ⟨pieces,thrown,hspells,hm⟩ := hm
  cases hspells with
  | ok =>
    have hdown : ∀ l l' : List (List Byte), (bs ++ (l ++ l').flatten).length < 2^(w-1) →
        (bs ++ l.flatten).length < 2^(w-1) := by
      intro l l' hl
      simp only [List.flatten_append, List.length_append] at hl ⊢
      omega
    have hbegin : Taken h wr bs [] (h,wr) := ⟨by simpa using hb,.refl h wr⟩
    have hall : (bs ++ ([] ++ pieces).flatten).length < 2^(w-1) := hsmall
    obtain ⟨⟨h',wr'⟩,hemit,ht⟩ := (put_takes fresh h wr bs).emit hdown hall hbegin none
    exact ⟨h',wr',by rw [hm,hemit]; rfl,ht.holds,ht.changes⟩

end Methods
end BufferWriter

section RoundTrip
variable {fs olds : List Field} {enc : List Byte} {n : ℕ}

/-- Where a variable is read from, and as what. -/
def Field.place (f : Field) : BitVec 8 × JceType := (f.tag,f.type)

theorem Field.reads (E : Env) (hw : 32 ≤ w) {f old : Field} (hf : f.Valid E)
    (hplace : old.place = f.place) (henc : f.write = .ok enc) (hlen : enc.length < 2^32) :
    Reads (w := w) 0 (old.read E (n+3)) enc f := by
  obtain ⟨tag,type,value⟩ := old
  obtain ⟨tag',type',value'⟩ := f
  cases hplace
  have hread := (type.roundTrips (w := w) E hw n value' hf tag false enc henc hlen).2 value
  exact hread.map (g := fun v => (⟨tag,type,v⟩ : Field))

/-- Fields that stand one behind the other are read one after the other. -/
theorem reads_fields (E : Env) (hw : 32 ≤ w) (hvalid : ∀ f ∈ fs, f.Valid E)
    (hplaces : olds.map Field.place = fs.map Field.place)
    (henc : writeElems Field.write fs = .ok enc) (hlen : enc.length < 2^32) :
    Reads (w := w) 0 (readElems (Field.read E (n+3)) olds) enc fs := by
  induction fs generalizing olds enc with
  | nil =>
    cases henc
    rw [List.map_eq_nil_iff.mp hplaces]
    exact .pure _
  | cons f fs ih =>
    obtain ⟨b,bs,hb,hbs,rfl⟩ := writeElems_cons_ok henc
    obtain ⟨old,olds,rfl⟩ : ∃ o os, olds = o::os := by
      cases olds with
      | nil => cases hplaces
      | cons o os => exact ⟨o,os,rfl⟩
    simp only [List.map_cons, List.cons.injEq] at hplaces
    rw [List.length_append] at hlen
    have hfirst := Field.reads (n := n) E hw (hvalid f (by simp)) hplaces.1 hb (by omega)
    have hothers := ih (fun f' hf' => hvalid f' (by simp [hf'])) hplaces.2 hbs (by omega)
    exact hfirst.bind hothers.map (Nat.zero_le _)

/-- Whatever `new[]` hands out and whatever else is on the heap: fields written to a new stream
are in its memory as they are encoded, nothing else has changed there, and an input stream over
that memory reads every one of them back, over any earlier values. -/
theorem writeFields_read (E : Env) (hw : 32 ≤ w) (fresh : ℕ → ℕ → Byte) (h₀ : Heap Byte)
    (hvalid : ∀ f ∈ fs, f.Valid E) (hplaces : olds.map Field.place = fs.map Field.place)
    (hlen : ∀ enc, writeElems Field.write fs = .ok enc → enc.length < 2^31) :
    ∃ h wr enc r, JceOutputStream.writeFields (BufferWriter.put fresh) fs
        (h₀,(BufferWriter.init : BufferWriter w)) = .returned () (h,wr) ∧
      writeElems Field.write fs = .ok enc ∧ wr.reader h = some r ∧ r.buf = enc ∧
      Heap.Keeps none h₀ h ∧
      readElems (Field.read E (n+3)) olds r = .returned fs (readerAt w enc enc.length) := by
  obtain ⟨enc,henc⟩ : ∃ enc, writeElems Field.write fs = .ok enc :=
    writeElems_ok fun f hf => f.type.write_ok E f.value (hvalid f hf) f.tag
  have hlen := hlen enc henc
  have hsmall : ([] ++ enc).length < 2^(w-1) := hlen.trans_le (half_large hw)
  have hstreams := Streams.writeFields fs
  rw [henc] at hstreams
  obtain ⟨h,wr,hwrite,hholds,hc⟩ := BufferWriter.put_streams hstreams fresh
    (BufferWriter.holds_init (h := h₀)) hsmall
  rw [List.nil_append] at hholds
  have hreader : wr.reader h = some (setBufferVector enc) := by
    rw [BufferWriter.reader,hholds.getByteBuffer,Option.map_some,setBufferVector,← hholds.len,
      BitVec.ofNat_toNat,BitVec.setWidth_eq]
  refine ⟨h,wr,enc,_,hwrite,henc,hreader,rfl,hc.keeps,?_⟩
  have hp := two_pow_32_le hw
  exact (reads_fields E hw hvalid hplaces henc (by omega)).whole (by omega)

end RoundTrip

/-- A number that needs no word and a list of bytes, over what `new[]` had in memory before. -/
def boxedFields : List Field := [⟨0,.int32,(300 : BitVec 32)⟩,⟨20,.charVector,([7,0,9] : List Byte)⟩]

theorem writeFields_read_boxed : ∃ h wr enc r,
    JceOutputStream.writeFields (BufferWriter.put fun _ i => BitVec.ofNat 8 i) boxedFields
      ([some [1,2]],(BufferWriter.init : BufferWriter 32)) = .returned () (h,wr) ∧
    writeElems Field.write boxedFields = .ok enc ∧ wr.reader h = some r ∧ r.buf = enc ∧
    Heap.Keeps none [some [1,2]] h ∧
    readElems (Field.read Env.plain 3) boxedFields r =
      .returned boxedFields (readerAt 32 enc enc.length) := by
  refine writeFields_read (n := 0) Env.plain (le_refl _) _ _ ?_ rfl ?_
  · intro f hf
    simp only [boxedFields, List.mem_cons, List.not_mem_nil, or_false] at hf
    obtain rfl | rfl := hf
    · exact trivial
    · exact trivial
  · intro enc henc
    cases henc
    decide

end UninstallObserver.Jce
