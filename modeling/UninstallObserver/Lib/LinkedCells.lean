import Mathlib.Data.List.Basic
import Mathlib.Logic.Function.Basic

/-! Cells on a heap that are linked one to the next. -/
namespace LinkedCells

variable {α : Type*}

structure Cell (α : Type*) where
  next : Option ℕ
  value : α
  deriving DecidableEq, Repr

/-- Addresses are positions; a cell that was freed leaves its position behind. -/
abbrev Heap (α : Type*) := List (Option (Cell α))

namespace Heap

/-- The cell at an address, if it is allocated. -/
def read (p : ℕ) (h : Heap α) : Option (Cell α) := h[p]?.join

def write (p : ℕ) (c : Cell α) (h : Heap α) : Heap α := h.set p (some c)

def free (p : ℕ) (h : Heap α) : Heap α := h.set p none

/-- Free these cells, each once and in this order. -/
def freeAll (ps : List ℕ) (h : Heap α) : Heap α := ps.foldl (fun h p => h.free p) h

/-- A new cell, at the address that the length of the heap gives. -/
def malloc (c : Cell α) (h : Heap α) : Heap α := h ++ [some c]

/-- A new cell at a given address. -/
def mallocAt (p : ℕ) (c : Cell α) (h : Heap α) : Heap α :=
  (h ++ List.replicate (p+1-h.length) none).set p (some c)

/-- What stands in the cells that are allocated. -/
def contents (h : Heap α) (p : ℕ) : Option α := (h.read p).map Cell.value

section Reads
variable {h : Heap α} {p q : ℕ} {c c' : Cell α}

theorem lt_of_read (hp : h.read p = some c) : p < h.length := by
  unfold read at hp
  by_contra hlt
  rw [List.getElem?_eq_none (Nat.not_lt.mp hlt)] at hp
  cases hp

theorem read_write (hp : h.read p = some c) :
    (h.write p c').read q = if p = q then some c' else h.read q := by
  unfold read write
  rw [List.getElem?_set]
  by_cases hpq : p = q
  · simp [← hpq, lt_of_read hp]
  · simp [hpq]

theorem read_write_self (hp : h.read p = some c) : (h.write p c').read p = some c' := by
  rw [read_write hp,if_pos rfl]

theorem read_write_of_ne (hp : h.read p = some c) (hq : q ≠ p) :
    (h.write p c').read q = h.read q := by
  rw [read_write hp,if_neg (Ne.symm hq)]

theorem read_free : (h.free p).read q = if p = q then none else h.read q := by
  unfold read free
  rw [List.getElem?_set]
  by_cases hpq : p = q
  · simp only [hpq, if_true]
    split <;> rfl
  · simp [hpq]

theorem read_free_of_ne (hq : q ≠ p) : (h.free p).read q = h.read q := by
  rw [read_free,if_neg (Ne.symm hq)]

theorem free_write : (h.write p c).free p = h.free p := List.set_set _

theorem read_freeAll {ps : List ℕ} :
    (h.freeAll ps).read q = if q ∈ ps then none else h.read q := by
  induction ps generalizing h with
  | nil => simp [freeAll]
  | cons p ps ih =>
    change ((h.free p).freeAll ps).read q = _
    rw [ih,read_free]
    by_cases hq : q ∈ ps
    · simp [hq]
    · simp only [hq, if_false, List.mem_cons, or_false, eq_comm]

theorem read_malloc_self : (h.malloc c).read h.length = some c := by
  simp [read, malloc]

theorem read_malloc_of_ne (hq : q ≠ h.length) : (h.malloc c).read q = h.read q := by
  unfold read malloc
  rw [List.getElem?_append]
  split
  · rfl
  · next hlt =>
    rw [List.getElem?_eq_none (Nat.not_lt.mp hlt),List.getElem?_eq_none]
    simp
    omega

theorem read_mallocAt : (h.mallocAt p c).read q = if p = q then some c else h.read q := by
  unfold read mallocAt
  rw [List.getElem?_set]
  by_cases hpq : p = q
  · have hlt : p < (h ++ List.replicate (p+1-h.length) none).length := by
      rw [List.length_append,List.length_replicate]
      omega
    rw [if_pos hpq,if_pos hpq,if_pos hlt]
    rfl
  · rw [if_neg hpq,if_neg hpq,List.getElem?_append]
    split
    · rfl
    · next hlt =>
      rw [List.getElem?_eq_none (Nat.not_lt.mp hlt),List.getElem?_replicate]
      split <;> rfl

theorem contents_mallocAt : (h.mallocAt p c).contents = Function.update h.contents p (some c.value) := by
  funext q
  rw [contents,read_mallocAt,Function.update_apply]
  by_cases hpq : p = q
  · rw [if_pos hpq,if_pos hpq.symm]
    rfl
  · rw [if_neg hpq,if_neg (Ne.symm hpq)]
    rfl

theorem contents_free : (h.free p).contents = Function.update h.contents p none := by
  funext q
  rw [contents,read_free,Function.update_apply]
  by_cases hpq : p = q
  · rw [if_pos hpq,if_pos hpq.symm]
    rfl
  · rw [if_neg hpq,if_neg (Ne.symm hpq)]
    rfl

theorem isSome_contents : (h.contents p).isSome = (h.read p).isSome := Option.isSome_map

end Reads
end Heap

/-- Following the links from one address to another visits these cells. -/
inductive Segment (h : Heap α) : Option ℕ → List (ℕ × α) → Option ℕ → Prop
  | nil {p : Option ℕ} : Segment h p [] p
  | cons {p : ℕ} {x : α} {next q : Option ℕ} {l : List (ℕ × α)}
      (cell : h.read p = some ⟨next,x⟩) (tail : Segment h next l q) :
      Segment h (some p) ((p,x)::l) q

section Segment
variable {h h' : Heap α} {p q r : Option ℕ} {a : ℕ} {x : α} {l l' : List (ℕ × α)}

/-- Only the cells that are visited matter. -/
theorem Segment.congr (hs : Segment h p l q) (hsame : ∀ a ∈ l.map Prod.fst, h'.read a = h.read a) :
    Segment h' p l q := by
  induction hs with
  | nil => exact .nil
  | @cons p x next q l cell tail ih =>
    refine .cons ?_ (ih fun a ha => hsame a (List.mem_cons_of_mem p ha))
    rw [hsame p List.mem_cons_self,cell]

/-- A cell elsewhere does not matter. -/
theorem Segment.congr_of_notMem (hs : Segment h p l q) (ha : a ∉ l.map Prod.fst)
    (hsame : ∀ b, b ≠ a → h'.read b = h.read b) : Segment h' p l q := by
  refine hs.congr fun b hb => hsame b ?_
  intro hba
  subst hba
  exact ha hb

theorem Segment.append (hs : Segment h p l q) (hs' : Segment h q l' r) :
    Segment h p (l ++ l') r := by
  induction hs with
  | nil => exact hs'
  | cons cell tail ih => exact .cons cell (ih hs')

theorem Segment.split (hs : Segment h p (l ++ l') r) : ∃ q, Segment h p l q ∧ Segment h q l' r := by
  induction l generalizing p with
  | nil => exact ⟨p,.nil,hs⟩
  | cons c l ih =>
    cases hs with
    | cons cell tail =>
      obtain ⟨q,hl,hl'⟩ := ih tail
      exact ⟨q,.cons cell hl,hl'⟩

theorem Segment.read_isSome (hs : Segment h p l q) (ha : a ∈ l.map Prod.fst) :
    (h.read a).isSome := by
  induction hs with
  | nil => cases ha
  | cons cell tail ih =>
    rcases List.mem_cons.mp ha with rfl | ha
    · rw [cell]
      rfl
    · exact ih ha

/-- A segment shows what stands in its cells. -/
theorem Segment.contents (hs : Segment h p l q) {c : ℕ × α} (hc : c ∈ l) :
    h.contents c.1 = some c.2 := by
  induction hs with
  | nil => cases hc
  | cons cell tail ih =>
    rcases List.mem_cons.mp hc with rfl | hc
    · rw [Heap.contents,cell]
      rfl
    · exact ih hc

theorem Segment.lt_length (hs : Segment h p l q) (ha : a ∈ l.map Prod.fst) : a < h.length := by
  obtain ⟨c,hc⟩ := Option.isSome_iff_exists.mp (hs.read_isSome ha)
  exact Heap.lt_of_read hc

theorem Segment.eq_nil (hs : Segment h none l q) : l = [] ∧ q = none := by
  cases hs
  exact ⟨rfl,rfl⟩

/-- The last cell of a segment that ends with NULL, and the way to it. -/
theorem Segment.last (hs : Segment h p (l ++ [(a,x)]) none) :
    Segment h p l (some a) ∧ h.read a = some ⟨none,x⟩ := by
  obtain ⟨q,hl,hlast⟩ := hs.split
  cases hlast with
  | cons cell tail =>
    cases tail
    exact ⟨hl,cell⟩

/-- The last cell is linked to a fresh one that ends with NULL. -/
theorem Segment.link {y : α} {b : ℕ} (hs : Segment h p (l ++ [(a,x)]) none)
    (hnodup : ((l ++ [(a,x)]).map Prod.fst).Nodup) (hb : b ∉ (l ++ [(a,x)]).map Prod.fst)
    (hfresh : h.read b = some ⟨none,y⟩) :
    Segment (h.write a ⟨some b,x⟩) p (l ++ [(a,x),(b,y)]) none := by
  obtain ⟨hl,ha⟩ := hs.last
  have hba : b ≠ a := by
    intro hba
    simp [hba] at hb
  have hal : a ∉ l.map Prod.fst := by
    rw [List.map_append,List.nodup_append] at hnodup
    intro hal
    exact hnodup.2.2 a hal a (by simp) rfl
  have hprefix : Segment (h.write a ⟨some b,x⟩) p l (some a) :=
    hl.congr_of_notMem hal fun c hc => Heap.read_write_of_ne ha hc
  have hlast : Segment (h.write a ⟨some b,x⟩) (some a) [(a,x),(b,y)] none :=
    .cons (Heap.read_write_self ha) (.cons ((Heap.read_write_of_ne ha hba).trans hfresh) .nil)
  exact hprefix.append hlast

end Segment
end LinkedCells
