import Mathlib.Data.List.Perm.Basic
import UninstallObserver.Lib.ArrayHeap

/-! Which arrays of a heap were made since an earlier state of it and are still there. -/
namespace ArrayHeap.Heap

variable {α : Type*} {h₀ h h' : Heap α} {l l' : List ℕ} {p : Option ℕ} {a : ℕ} {xs fresh : List α}

/-- The arrays at `l` were made since `h₀` and no others are left; what was there before is
untouched. -/
structure Added (h₀ : Heap α) (l : List ℕ) (h : Heap α) : Prop where
  keeps : Keeps none h₀ h
  nodup : l.Nodup
  mem_iff : ∀ a, a ∈ l ↔ h₀.length ≤ a ∧ (h.array (some a)).isSome

theorem lt_of_isSome (h : (h'.array (some a)).isSome) : a < h'.length := by
  obtain ⟨v,hv⟩ := Option.isSome_iff_exists.mp h
  exact lt_of_array hv

theorem isSome_put_of_ne {x : Option (List α)} (hne : p ≠ some a) :
    ((h.put p x).array (some a)).isSome = (h.array (some a)).isSome := by
  rw [array_put_of_ne hne]

namespace Added

theorem refl (h : Heap α) : Added h [] h where
  keeps := Keeps.refl none h
  nodup := .nil
  mem_iff a := by
    refine iff_of_false List.not_mem_nil fun ha => ?_
    exact absurd (lt_of_isSome ha.2) (Nat.not_lt.mpr ha.1)

theorem perm (hl : Added h₀ l h) (hp : l.Perm l') : Added h₀ l' h where
  keeps := hl.keeps
  nodup := hp.nodup_iff.mp hl.nodup
  mem_iff a := hp.mem_iff.symm.trans (hl.mem_iff a)

theorem new (hl : Added h₀ l h) (fresh : List α) : Added h₀ (h.length::l) (h.new fresh) where
  keeps := hl.keeps.trans (.new none fresh h)
  nodup := by
    refine List.nodup_cons.mpr ⟨fun hmem => ?_,hl.nodup⟩
    exact absurd (lt_of_isSome ((hl.mem_iff _).mp hmem).2) (Nat.lt_irrefl _)
  mem_iff a := by
    rw [List.mem_cons,hl.mem_iff]
    rcases Nat.lt_trichotomy a h.length with hlt | rfl | hgt
    · rw [array_new_of_lt hlt]
      simp [Nat.ne_of_lt hlt]
    · simp [array_new_self, hl.keeps.length]
    · have hnew : (h.new fresh).length = h.length+1 := by simp [Heap.new]
      refine iff_of_false ?_ fun ha => absurd (lt_of_isSome ha.2) (by omega)
      rintro (rfl | ha)
      · exact absurd hgt (Nat.lt_irrefl _)
      · exact absurd (lt_of_isSome ha.2) (by omega)

/-- Another array takes the place of one of them. -/
theorem put {v x : List α} (hl : Added h₀ l h) (hmem : a ∈ l) (hv : h.array (some a) = some v)
    (hlen : x.length = v.length) : Added h₀ l (h.put (some a) (some x)) where
  keeps := (hl.keeps.weaken.trans (.put _ _ _)).of_fresh ((hl.mem_iff a).mp hmem).1
  nodup := hl.nodup
  mem_iff b := by
    rw [hl.mem_iff]
    by_cases hab : a = b
    · subst hab
      rw [array_put_self hv hlen,hv]
      rfl
    · rw [isSome_put_of_ne fun h => hab (Option.some.inj h)]

/-- A store goes to an array of theirs, or to none at all. -/
theorem store {i : ℕ} (hl : Added h₀ l h) (hp : ∀ a, p = some a → a ∈ l)
    (hstore : h.store p i xs = some h') : Added h₀ l h' := by
  obtain ⟨v,hv,hroom⟩ := Option.bind_eq_some_iff.mp hstore
  obtain ⟨hle,hput⟩ := Option.ite_none_right_eq_some.mp hroom
  cases hput
  cases p with
  | none => exact hl
  | some a =>
    refine hl.put (hp a rfl) hv ?_
    simp only [List.length_append, List.length_take, List.length_drop]
    omega

/-- Each of them can be deleted. -/
theorem exists_delete (hl : Added h₀ (p.toList ++ l) h) : ∃ h', h.delete p = some h' := by
  cases p with
  | none => exact ⟨h,rfl⟩
  | some a =>
    obtain ⟨v,hv⟩ := Option.isSome_iff_exists.mp ((hl.mem_iff a).mp List.mem_cons_self).2
    exact ⟨_,delete_of_array hv⟩

/-- The others stay. -/
theorem delete (hl : Added h₀ (p.toList ++ l) h) (hdelete : h.delete p = some h') :
    Added h₀ l h' := by
  obtain ⟨v,hv,rfl⟩ := Option.map_eq_some_iff.mp hdelete
  cases p with
  | none => exact hl
  | some a =>
    obtain ⟨hnot,hnodup⟩ := List.nodup_cons.mp hl.nodup
    have hold := ((hl.mem_iff a).mp List.mem_cons_self).1
    refine ⟨(hl.keeps.weaken.trans (.put _ _ _)).of_fresh hold,hnodup,fun b => ?_⟩
    have hb := hl.mem_iff b
    rw [Option.toList_some,List.singleton_append,List.mem_cons] at hb
    by_cases hab : a = b
    · subst hab
      rw [array_put_none]
      exact iff_of_false hnot fun ha => absurd ha.2 (by simp)
    · rw [isSome_put_of_ne fun h => hab (Option.some.inj h),← hb]
      exact ⟨.inr,fun h => h.resolve_left fun h => hab h.symm⟩

/-- What was made later comes on top. -/
theorem trans {h' : Heap α} (hl : Added h₀ l h) (hl' : Added h l' h') : Added h₀ (l' ++ l) h' where
  keeps := hl.keeps.trans hl'.keeps
  nodup := by
    refine List.nodup_append.mpr ⟨hl'.nodup,hl.nodup,fun a ha b hb hab => ?_⟩
    subst hab
    have hlt := lt_of_isSome ((hl.mem_iff a).mp hb).2
    exact absurd ((hl'.mem_iff a).mp ha).1 (Nat.not_le.mpr hlt)
  mem_iff a := by
    rw [List.mem_append,hl.mem_iff,hl'.mem_iff]
    by_cases hlt : a < h.length
    · rw [hl'.keeps.array a (by simp) hlt]
      exact ⟨fun h => h.resolve_left fun h => absurd hlt (Nat.not_lt.mpr h.1),.inr⟩
    · have hge := Nat.not_lt.mp hlt
      refine ⟨fun h => ?_,fun h => .inl ⟨hge,h.2⟩⟩
      rcases h with h | h
      · exact ⟨Nat.le_trans hl.keeps.length hge,h.2⟩
      · exact absurd (lt_of_isSome h.2) hlt

/-- Where all of them were deleted, the heap is what it was. -/
theorem array_eq (hl : Added h₀ [] h) (p : Option ℕ) : h.array p = h₀.array p := by
  cases p with
  | none => rfl
  | some a =>
    by_cases ha : a < h₀.length
    · exact hl.keeps.array a (by simp) ha
    · have hge := Nat.not_lt.mp ha
      have hnone : ¬ (h.array (some a)).isSome := fun hsome =>
        absurd ((hl.mem_iff a).mpr ⟨hge,hsome⟩) List.not_mem_nil
      have hnone₀ : ¬ (h₀.array (some a)).isSome := fun hsome => ha (lt_of_isSome hsome)
      rw [Option.not_isSome_iff_eq_none.mp hnone,Option.not_isSome_iff_eq_none.mp hnone₀]

end Added
end ArrayHeap.Heap
