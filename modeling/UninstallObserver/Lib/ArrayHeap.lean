import Mathlib.Data.List.Basic

/-! Arrays on a heap: `new[]`, `delete[]` and copies, each `none` where it is undefined. -/
namespace ArrayHeap

variable {α : Type*}

/-- Addresses are positions; an array that was deleted leaves its position behind. -/
abbrev Heap (α : Type*) := List (Option (List α))

namespace Heap

/-- The array that a pointer refers to. Behind NULL there are no elements. -/
def array : Option ℕ → Heap α → Option (List α)
  | none, _ => some []
  | some p, h => h[p]?.join

/-- Put another array in the place of one. -/
def put : Option ℕ → Option (List α) → Heap α → Heap α
  | none, _, h => h
  | some p, v, h => h.set p v

/-- `new[]`, at the address that the length of the heap gives; what the array holds is `fresh`. -/
def new (fresh : List α) (h : Heap α) : Heap α := h ++ [some fresh]

/-- `delete[]`. -/
def delete (p : Option ℕ) (h : Heap α) : Option (Heap α) := (h.array p).map fun _ => h.put p none

/-- The `n` elements from `p + i` on. -/
def load (p : Option ℕ) (i n : ℕ) (h : Heap α) : Option (List α) :=
  (h.array p).bind fun v => if i + n ≤ v.length then some ((v.drop i).take n) else none

/-- Store `xs` from `p + i` on. -/
def store (p : Option ℕ) (i : ℕ) (xs : List α) (h : Heap α) : Option (Heap α) :=
  (h.array p).bind fun v =>
    if i + xs.length ≤ v.length then
      some (h.put p (some (v.take i ++ xs ++ v.drop (i+xs.length))))
    else none

section Arrays
variable {h : Heap α} {p : Option ℕ} {v xs ys zs fresh : List α} {a : ℕ}

theorem lt_of_array (hv : h.array (some a) = some v) : a < h.length := by
  by_contra hlt
  rw [array,List.getElem?_eq_none (Nat.not_lt.mp hlt)] at hv
  cases hv

@[simp] theorem array_none : h.array none = some [] := rfl

@[simp] theorem length_put (x : Option (List α)) : (h.put p x).length = h.length := by
  cases p <;> simp [put]

theorem array_put_of_ne {x : Option (List α)} (hq : p ≠ some a) :
    (h.put p x).array (some a) = h.array (some a) := by
  cases p with
  | none => rfl
  | some p =>
    have hpa : p ≠ a := fun hpa => hq (congrArg some hpa)
    simp [array, put, hpa]

theorem array_put_self (hv : h.array p = some v) (hlen : xs.length = v.length) :
    (h.put p (some xs)).array p = some xs := by
  cases p with
  | none =>
    cases hv
    rw [array_none,List.length_eq_zero_iff.mp hlen]
  | some a => simp [array, put, lt_of_array hv]

theorem array_put_none : (h.put (some a) none).array (some a) = none := by
  simp only [array, put, List.getElem?_set, if_true]
  split <;> rfl

theorem array_new_of_lt (ha : a < h.length) : (h.new fresh).array (some a) = h.array (some a) := by
  simp [array, new, List.getElem?_append_left ha]

theorem array_new_self : (h.new fresh).array (some h.length) = some fresh := by
  simp [array, new]

/-- The first elements of an array. -/
theorem load_append (hv : h.array p = some (xs ++ ys)) : h.load p 0 xs.length = some xs := by
  simp [load, hv]

/-- What is stored behind the first elements. -/
theorem store_append (hv : h.array p = some (xs ++ zs)) (hroom : ys.length ≤ zs.length) :
    h.store p xs.length ys = some (h.put p (some (xs ++ ys ++ zs.drop ys.length))) := by
  simp [store, hv, hroom]

theorem delete_of_array (hv : h.array p = some v) : h.delete p = some (h.put p none) := by
  rw [delete,hv,Option.map_some]

end Arrays

/-- The arrays of `h` other than the one at `p` are as they were. -/
structure Keeps (p : Option ℕ) (h h' : Heap α) : Prop where
  length : h.length ≤ h'.length
  array : ∀ a, p ≠ some a → a < h.length → h'.array (some a) = h.array (some a)

namespace Keeps
variable {h h' h'' : Heap α} {p : Option ℕ} {fresh : List α}

theorem refl (p : Option ℕ) (h : Heap α) : Keeps p h h := ⟨Nat.le_refl _,fun _ _ _ => rfl⟩

theorem trans (hk : Keeps p h h') (hk' : Keeps p h' h'') : Keeps p h h'' where
  length := Nat.le_trans hk.length hk'.length
  array a hp ha := (hk'.array a hp (Nat.lt_of_lt_of_le ha hk.length)).trans (hk.array a hp ha)

theorem weaken (hk : Keeps none h h') : Keeps p h h' :=
  ⟨hk.length,fun a _ ha => hk.array a (by simp) ha⟩

theorem put (p : Option ℕ) (x : Option (List α)) (h : Heap α) : Keeps p h (h.put p x) :=
  ⟨Nat.le_of_eq (length_put x).symm,fun _ hp _ => array_put_of_ne hp⟩

theorem new (p : Option ℕ) (fresh : List α) (h : Heap α) : Keeps p h (h.new fresh) :=
  ⟨by simp [Heap.new],fun _ _ ha => array_new_of_lt ha⟩

/-- An array that was not there before does not matter. -/
theorem of_fresh {a : ℕ} (hk : Keeps (some a) h h') (ha : h.length ≤ a) : Keeps p h h' where
  length := hk.length
  array b _ hb := hk.array b (by
    intro hab
    cases hab
    omega) hb

end Keeps

/-- Elements copied to the start of a new array; the arrays that were there stay. -/
theorem store_new {xs fresh : List α} (h : Heap α) (hroom : xs.length ≤ fresh.length) :
    ∃ h', (h.new fresh).store (some h.length) 0 xs = some h' ∧
      h'.array (some h.length) = some (xs ++ fresh.drop xs.length) ∧ Keeps none h h' := by
  have hnew : (h.new fresh).array (some h.length) = some ([] ++ fresh) := array_new_self
  refine ⟨_,store_append hnew hroom,?_,?_⟩
  · apply array_put_self hnew
    simp only [List.nil_append, List.length_append, List.length_drop]
    omega
  · -- the new array is the only one that is touched
    apply Keeps.of_fresh _ (Nat.le_refl h.length)
    exact (Keeps.new _ fresh h).trans (.put _ _ _)

/-- Every array of `h` is in `h'`, and as long as it was. -/
def SameSizes (h h' : Heap α) : Prop :=
  ∀ p v, h.array p = some v → ∃ v', h'.array p = some v' ∧ v'.length = v.length

theorem SameSizes.refl (h : Heap α) : SameSizes h h := fun _ v hv => ⟨v,hv,rfl⟩

/-- A store changes no length. -/
theorem sameSizes_store {h h' : Heap α} {p : Option ℕ} {i : ℕ} {xs : List α}
    (hstore : h.store p i xs = some h') : SameSizes h h' := by
  obtain ⟨v,hv,hroom⟩ := Option.bind_eq_some_iff.mp hstore
  obtain ⟨hle,hroom⟩ := Option.ite_none_right_eq_some.mp hroom
  cases hroom
  have hlen : (v.take i ++ xs ++ v.drop (i+xs.length)).length = v.length := by
    simp only [List.length_append, List.length_take, List.length_drop]
    omega
  intro q u hu
  by_cases hq : p = q
  · subst hq
    cases hv.symm.trans hu
    exact ⟨_,array_put_self hv hlen,hlen⟩
  · cases q with
    | none => exact ⟨u,hu,rfl⟩
    | some a => exact ⟨u,(array_put_of_ne hq).trans hu,rfl⟩

end Heap
end ArrayHeap
