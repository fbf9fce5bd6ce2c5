import UninstallObserver.Jce.BufferReader
import UninstallObserver.Lib.Runs

/-! The reader that hands out memory of its own for what is read behind pointers. -/
namespace UninstallObserver.Jce
open Imperative ByteOrder Transition

/-- The reader it is derived from, and the memory: an array by its position, a length and how
much is handed out. -/
structure MapBufferReader (w : ℕ) where
  input : BufferReader w
  mapBuf : Option ℕ
  mapLen : BitVec w
  mapCur : BitVec w
  deriving DecidableEq, Repr

/-- Code that hands out memory. -/
abbrev Mapping (w : ℕ) := Exec JceException (MapBufferReader w)

namespace MapBufferReader

variable {w : ℕ}

def init (input : BufferReader w) : MapBufferReader w := ⟨input,none,0,0⟩

def reset : Mapping w Unit :=
  Exec.modify fun r => { r with mapCur := 0, input := { r.input with cur := 0 } }

/-- A pointer is an array and an offset. -/
def cur : Mapping w (ℕ × BitVec w) := do
  let r ← Exec.get
  match r.mapBuf with
  | some p => pure (p,r.mapCur)
  | none => Exec.throw (.jceDecodeException "MapBufferReader's buff not set,_buf = null")

def left : Mapping w (BitVec w) := do
  let r ← Exec.get
  pure (r.mapLen - r.mapCur)

/-- `snprintf` into 64 characters. -/
def overflow (mapLen : BitVec w) : String := String.ofList
  (s!"MapBufferReader's buffer overflow when peekBuf, over {(mapLen.setWidth 32).toNat}.".toList.take 63)

def mapBufferSkip (len : BitVec w) : Mapping w Unit := do
  let r ← Exec.get
  if r.mapLen < r.mapCur + len then Exec.throw (.jceDecodeException (overflow r.mapLen))
  else Exec.modify fun r => { r with mapCur := r.mapCur + len }

def setMapBuffer (buf : Option ℕ) (len : BitVec w) : Mapping w Unit :=
  Exec.modify fun r => { r with mapBuf := buf, mapLen := len, mapCur := 0 }

/-- The memory for `len` bytes: where it stands now, and past it. -/
def take (len : BitVec w) : Mapping w (ℕ × BitVec w) := do
  let p ← cur
  mapBufferSkip len
  pure p

end MapBufferReader

/-- What was handed out of an array, from an offset on. -/
structure Block where
  array : ℕ
  offset : ℕ
  length : ℕ
  deriving DecidableEq, Repr

/-- The reader, with the blocks that it has handed out of the memory it has now. -/
structure Arena (w : ℕ) where
  reader : MapBufferReader w
  blocks : List Block
  deriving DecidableEq, Repr

inductive ArenaOp (w : ℕ) where
  | setMapBuffer (buf : Option ℕ) (len : BitVec w)
  | reset
  | take (len : BitVec w)
  deriving DecidableEq, Repr

namespace Arena

variable {w : ℕ} {s t : Arena w} {op : ArenaOp w} {ops : List (ArenaOp w)} {len : BitVec w}

def init (input : BufferReader w) : Arena w := ⟨.init input,[]⟩

/-- Where a call throws, nothing has changed. -/
def after {α : Type} (m : Mapping w α) (blocks : α → List Block) (s : Arena w) : Arena w :=
  match m s.reader with
  | .returned a r => ⟨r,blocks a⟩
  | _ => s

def apply (op : ArenaOp w) (s : Arena w) : Arena w :=
  match op with
  | .setMapBuffer buf len => s.after (MapBufferReader.setMapBuffer buf len) fun _ => []
  | .reset => s.after MapBufferReader.reset fun _ => []
  | .take len => s.after (MapBufferReader.take len) fun p =>
      s.blocks ++ [⟨p.1,p.2.toNat,len.toNat⟩]

def Step (op : ArenaOp w) (s t : Arena w) : Prop := s.apply op = t

/-- The blocks lie in the memory, one behind the other. -/
structure Safe (s : Arena w) : Prop where
  inside : ∀ b ∈ s.blocks, s.reader.mapBuf = some b.array ∧
    b.offset + b.length ≤ s.reader.mapLen.toNat
  apart : s.blocks.Pairwise fun b b' => b.offset + b.length ≤ b'.offset

/-- No length that is accepted takes the sum past the end of `size_t`. -/
def NoWrap (op : ArenaOp w) (s : Arena w) : Prop :=
  ∀ len, op = .take len → s.reader.mapBuf ≠ none →
    s.reader.mapCur.toNat + len.toNat < 2^w ∨ s.reader.mapLen < s.reader.mapCur + len

/-- The blocks fill the memory up to the cursor. -/
structure Ok (s : Arena w) : Prop where
  le : s.reader.mapCur.toNat ≤ s.reader.mapLen.toNat
  below : ∀ b ∈ s.blocks, s.reader.mapBuf = some b.array ∧
    b.offset + b.length ≤ s.reader.mapCur.toNat
  apart : s.blocks.Pairwise fun b b' => b.offset + b.length ≤ b'.offset
  all : (s.blocks.map Block.length).sum = s.reader.mapCur.toNat

theorem Ok.safe (hs : s.Ok) : s.Safe :=
  ⟨fun b hb => ⟨(hs.below b hb).1,(hs.below b hb).2.trans hs.le⟩,hs.apart⟩

/-- What an operation can do. -/
inductive Changes (s : Arena w) : ArenaOp w → Arena w → Prop
  | clears {op : ArenaOp w} {t : Arena w} (other : ∀ len, op ≠ .take len) (cur : t.reader.mapCur = 0)
      (none : t.blocks = []) : Changes s op t
  | refuses {len : BitVec w}
      (refused : s.reader.mapBuf ≠ none → s.reader.mapLen < s.reader.mapCur + len) :
      Changes s (.take len) s
  | takes {len : BitVec w} {p : ℕ} (array : s.reader.mapBuf = some p)
      (accepted : ¬ s.reader.mapLen < s.reader.mapCur + len) :
      Changes s (.take len) ⟨{ s.reader with mapCur := s.reader.mapCur + len },
        s.blocks ++ [⟨p,s.reader.mapCur.toNat,len.toNat⟩]⟩

section Steps

theorem take_none (h : s.reader.mapBuf = none) : s.apply (.take len) = s := by
  have hcur : MapBufferReader.cur s.reader =
      .threw (.jceDecodeException "MapBufferReader's buff not set,_buf = null") s.reader := by
    rw [MapBufferReader.cur,Exec.bind_of_returned (Exec.get_apply _),h]
    rfl
  rw [apply,after,MapBufferReader.take,Exec.bind_of_threw hcur]

theorem cur_some {p : ℕ} (h : s.reader.mapBuf = some p) :
    MapBufferReader.cur s.reader = .returned (p,s.reader.mapCur) s.reader := by
  rw [MapBufferReader.cur,Exec.bind_of_returned (Exec.get_apply _),h]
  rfl

theorem take_refused {p : ℕ} (h : s.reader.mapBuf = some p)
    (hlen : s.reader.mapLen < s.reader.mapCur + len) : s.apply (.take len) = s := by
  have hskip : MapBufferReader.mapBufferSkip len s.reader =
      .threw (.jceDecodeException (MapBufferReader.overflow s.reader.mapLen)) s.reader := by
    rw [MapBufferReader.mapBufferSkip,Exec.bind_of_returned (Exec.get_apply _),if_pos hlen]
    rfl
  rw [apply,after,MapBufferReader.take,Exec.bind_of_returned (cur_some h),Exec.bind_of_threw hskip]

theorem take_accepted {p : ℕ} (h : s.reader.mapBuf = some p)
    (hlen : ¬ s.reader.mapLen < s.reader.mapCur + len) :
    s.apply (.take len) = ⟨{ s.reader with mapCur := s.reader.mapCur + len },
      s.blocks ++ [⟨p,s.reader.mapCur.toNat,len.toNat⟩]⟩ := by
  have hskip : MapBufferReader.mapBufferSkip len s.reader =
      .returned () { s.reader with mapCur := s.reader.mapCur + len } := by
    rw [MapBufferReader.mapBufferSkip,Exec.bind_of_returned (Exec.get_apply _),if_neg hlen]
    rfl
  rw [apply,after,MapBufferReader.take,Exec.bind_of_returned (cur_some h),
    Exec.bind_of_returned hskip]
  rfl

theorem Step.changes (h : Step op s t) : Changes s op t := by
  obtain rfl := h
  cases op with
  | setMapBuffer buf len => exact .clears (by simp) rfl rfl
  | reset => exact .clears (by simp) rfl rfl
  | take len =>
    cases hbuf : s.reader.mapBuf with
    | none =>
      rw [take_none hbuf]
      exact .refuses fun hsome => absurd hbuf hsome
    | some p =>
      by_cases hlen : s.reader.mapLen < s.reader.mapCur + len
      · rw [take_refused hbuf hlen]
        exact .refuses fun _ => hlen
      · rw [take_accepted hbuf hlen]
        exact .takes hbuf hlen

end Steps

section Runs

/-- Without a wrap the next block begins where the blocks before it end. -/
theorem Changes.ok (h : Changes s op t) (hop : NoWrap op s) (hs : s.Ok) : t.Ok := by
  cases h with
  | clears _ cur none =>
    refine ⟨?_,?_,?_,?_⟩
    · rw [cur]
      exact Nat.zero_le _
    · simp [none]
    · simp [none]
    · simp [none, cur]
  | refuses => exact hs
  | @takes len p array accepted =>
    have hfits : s.reader.mapCur.toNat + len.toNat < 2^w := by
      refine (hop len rfl ?_).resolve_right accepted
      rw [array]
      exact Option.some_ne_none p
    have hcur : (s.reader.mapCur + len).toNat = s.reader.mapCur.toNat + len.toNat := by
      rw [BitVec.toNat_add,Nat.mod_eq_of_lt hfits]
    refine ⟨?_,?_,?_,?_⟩
    · rw [BitVec.lt_def] at accepted
      exact Nat.not_lt.mp accepted
    · intro b hb
      dsimp only
      rw [hcur]
      rcases List.mem_append.mp hb with hb | hb
      · obtain ⟨harray,hend⟩ := hs.below b hb
        exact ⟨harray,by omega⟩
      · obtain rfl := List.mem_singleton.mp hb
        exact ⟨array,Nat.le_refl _⟩
    · refine List.pairwise_append.mpr ⟨hs.apart,List.pairwise_singleton _ _,?_⟩
      intro b hb b' hb'
      obtain rfl := List.mem_singleton.mp hb'
      exact (hs.below b hb).2
    · simp [hcur, hs.all]

/-- A sum that wraps is accepted for a block that ends behind the memory. -/
theorem Changes.noWrap (h : Changes s op t) (ht : t.Safe) : NoWrap op s := by
  rintro len rfl hbuf
  cases h with
  | clears other => exact absurd rfl (other len)
  | refuses refused => exact .inr (refused hbuf)
  | @takes _ p array accepted =>
    left
    have hlt := s.reader.mapLen.isLt
    have hend := (ht.inside ⟨p,s.reader.mapCur.toNat,len.toNat⟩ (by simp)).2
    dsimp only at hend
    omega

theorem ok_init (input : BufferReader w) : (init input).Ok :=
  ⟨Nat.le_refl _,by simp [init],by simp [init],rfl⟩

/-- The memory handed out stays inside and apart in exactly the runs that accept no sum that
wraps; and then what is left is what was not handed out. -/
theorem arena_run_iff (input : BufferReader w) :
    (Within Safe Step (init input) ops s ↔ Run (Guarded NoWrap Step) (init input) ops s) ∧
    (Run (Guarded NoWrap Step) (init input) ops s → ∃ k,
      MapBufferReader.left s.reader = .returned k s.reader ∧
      (s.blocks.map Block.length).sum + k.toNat = s.reader.mapLen.toNat) := by
  refine ⟨?_,fun h => ?_⟩
  · have hcongr : Run (Keeping Safe Step) (init input) ops s ↔
        Run (Guarded NoWrap Step) (init input) ops s := by
      refine Run.congr (I := Ok) (ok_init input) (fun op s t hs => ?_) fun op s t hs h => ?_
      · refine (and_comm.trans (and_congr_left fun h => ?_))
        exact ⟨h.changes.noWrap,fun hop => (h.changes.ok hop hs).safe⟩
      · exact h.1.changes.ok (h.1.changes.noWrap h.2) hs
    rw [← hcongr]
    exact and_iff_right (ok_init input).safe
  · have hs : s.Ok := h.invariant (ok_init input) fun _ _ _ hs hst => hst.2.changes.ok hst.1 hs
    refine ⟨s.reader.mapLen - s.reader.mapCur,rfl,?_⟩
    have hle := hs.le
    rw [hs.all,BitVec.toNat_sub_of_le hle]
    omega

/-- Two blocks are handed out of twelve bytes, and one that is too large is not. -/
def twoBlocks : List (ArenaOp 8) := [.setMapBuffer (some 0) 12,.take 4,.take 9,.take 6]

theorem arena_run_twoBlocks : ∃ s, Within Safe Step (init (.setBuffer [] 0)) twoBlocks s ∧
    s.blocks = [⟨0,0,4⟩,⟨0,4,6⟩] ∧
    ∃ k, MapBufferReader.left s.reader = .returned k s.reader ∧ k.toNat = 2 := by
  let s₁ : Arena 8 := (init (.setBuffer [] 0)).apply (.setMapBuffer (some 0) 12)
  let s₂ : Arena 8 := s₁.apply (.take 4)
  have hset : NoWrap (.setMapBuffer (some 0) 12) (init (w := 8) (.setBuffer [] 0)) :=
    fun len hlen => by cases hlen
  have hfirst : NoWrap (.take 4) s₁ := by
    intro len hlen _
    cases hlen
    exact .inl (by decide)
  have hrefused : NoWrap (.take 9) s₂ := by
    intro len hlen _
    cases hlen
    exact .inr (by decide)
  have hsecond : NoWrap (.take 6) s₂ := by
    intro len hlen _
    cases hlen
    exact .inl (by decide)
  have hrun : Run (Guarded NoWrap Step) (init (.setBuffer [] 0)) twoBlocks (s₂.apply (.take 6)) :=
    .cons ⟨hset,rfl⟩ (.cons ⟨hfirst,rfl⟩ (.cons ⟨hrefused,rfl⟩ (.cons ⟨hsecond,rfl⟩ .nil)))
  have hsafe : Within Safe Step (init (.setBuffer [] 0)) twoBlocks (s₂.apply (.take 6)) :=
    (arena_run_iff (.setBuffer [] 0)).1.mpr hrun
  obtain ⟨k,hk,hsum⟩ := (arena_run_iff (.setBuffer [] 0)).2 hrun
  have hblocks : (s₂.apply (.take 6)).blocks = [⟨0,0,4⟩,⟨0,4,6⟩] := rfl
  have hlen : (s₂.apply (.take 6)).reader.mapLen.toNat = 12 := rfl
  rw [hblocks,hlen] at hsum
  refine ⟨_,hsafe,hblocks,k,hk,?_⟩
  simp only [List.map_cons, List.map_nil, List.sum_cons, List.sum_nil] at hsum
  omega

/-- In 8 bits, ten bytes are handed out of ten, and then as many once more. -/
example : let ops : List (ArenaOp 8) := [.setMapBuffer (some 0) 10,.take 10,.take 246,.take 10]
    (ops.foldl (fun s op => s.apply op) (init (.setBuffer [] 0))).blocks =
      [⟨0,0,10⟩,⟨0,10,246⟩,⟨0,0,10⟩] := rfl

end Runs
end Arena
end UninstallObserver.Jce
