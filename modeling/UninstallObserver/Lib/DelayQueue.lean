import Mathlib.Data.List.Induction
import Mathlib.Data.List.Sort

/-! Messages that are delivered in order of due time, first-in first-out for equal due times. -/
namespace DelayQueue

variable {α β : Type*} [LinearOrder β] (due : α → β)

/-- Before whatever is due later, behind everything else. -/
def post (x : α) (q : List α) : List α := q.orderedInsert (fun a b => due a < due b) x

/-- The order in which messages posted one after another stand. -/
def arrange (l : List α) : List α := l.foldl (fun q x => post due x q) []

def InOrder (l : List α) : Prop := l.Pairwise fun a b => due a ≤ due b

section Post
variable {due} {x y : α} {l q : List α} {p : α → Bool}

theorem post_nil : post due x [] = [x] := rfl

theorem post_cons_of_lt (h : due x < due y) : post due x (y::q) = x::y::q :=
  List.orderedInsert_cons_of_le _ _ h

theorem post_cons_of_le (h : due y ≤ due x) : post due x (y::q) = y::post due x q :=
  List.orderedInsert_of_not_le _ _ (not_lt.mpr h)

theorem mem_post : y ∈ post due x q ↔ y = x ∨ y ∈ q := List.mem_orderedInsert _

/-- Whatever is not due later stays ahead. -/
theorem post_append (h : ∀ y ∈ l, due y ≤ due x) : post due x (l ++ q) = l ++ post due x q := by
  induction l with
  | nil => rfl
  | cons y l ih =>
    rw [List.cons_append,post_cons_of_le (h y List.mem_cons_self),
      ih fun z hz => h z (List.mem_cons_of_mem y hz)]
    rfl

theorem post_eq_concat (h : ∀ y ∈ q, due y ≤ due x) : post due x q = q ++ [x] := by
  simpa [post_nil] using post_append (q := []) h

theorem InOrder.post (h : InOrder due q) : InOrder due (post due x q) := by
  induction q with
  | nil => exact List.pairwise_singleton _ _
  | cons y q ih =>
    obtain ⟨hy,hq⟩ := List.pairwise_cons.mp h
    by_cases hxy : due x < due y
    · rw [post_cons_of_lt hxy]
      refine List.pairwise_cons.mpr ⟨fun z hz => ?_,h⟩
      rcases List.mem_cons.mp hz with rfl | hz
      · exact hxy.le
      · exact hxy.le.trans (hy z hz)
    · rw [post_cons_of_le (not_lt.mp hxy)]
      refine List.pairwise_cons.mpr ⟨fun z hz => ?_,ih hq⟩
      rcases mem_post.mp hz with rfl | hz
      · exact not_lt.mp hxy
      · exact hy z hz

/-- Messages of one kind queue up among themselves as if there were no others. -/
theorem filter_post (h : InOrder due q) :
    (post due x q).filter p = if p x then post due x (q.filter p) else q.filter p := by
  induction q with
  | nil => simp [post_nil, List.filter_singleton]
  | cons y q ih =>
    obtain ⟨hy,hq⟩ := List.pairwise_cons.mp h
    by_cases hxy : due x < due y
    · have hlater : ∀ z ∈ (y::q).filter p, due x < due z := by
        intro z hz
        rcases List.mem_cons.mp (List.mem_of_mem_filter hz) with rfl | hz
        · exact hxy
        · exact hxy.trans_le (hy z hz)
      have hfront : DelayQueue.post due x ((y::q).filter p) = x::(y::q).filter p := by
        cases hf : (y::q).filter p with
        | nil => rfl
        | cons z l => exact post_cons_of_lt (hlater z (by rw [hf]; exact List.mem_cons_self))
      rw [post_cons_of_lt hxy,hfront,List.filter_cons]
    · rw [post_cons_of_le (not_lt.mp hxy),List.filter_cons,List.filter_cons,ih hq]
      by_cases hx : p x
      · by_cases hpy : p y
        · simp only [hx, hpy, if_true]
          rw [post_cons_of_le (not_lt.mp hxy)]
        · simp [hx, hpy]
      · simp [hx]

end Post

section Arrange
variable {due} {x : α} {l : List α} {p : α → Bool}

theorem arrange_concat : arrange due (l ++ [x]) = post due x (arrange due l) := by
  simp [arrange]

theorem inOrder_arrange : InOrder due (arrange due l) := by
  induction l using List.reverseRecOn with
  | nil => exact .nil
  | append_singleton l x ih =>
    rw [arrange_concat]
    exact ih.post

theorem filter_arrange : (arrange due l).filter p = arrange due (l.filter p) := by
  induction l using List.reverseRecOn with
  | nil => rfl
  | append_singleton l x ih =>
    rw [arrange_concat,filter_post inOrder_arrange,ih,List.filter_append]
    by_cases hx : p x
    · simp [hx, arrange_concat]
    · simp [hx]

/-- Messages come out as they were posted exactly when their due times are in that order. -/
theorem arrange_eq_self_iff : arrange due l = l ↔ InOrder due l := by
  refine ⟨fun h => h ▸ inOrder_arrange,fun h => ?_⟩
  induction l using List.reverseRecOn with
  | nil => rfl
  | append_singleton l x ih =>
    obtain ⟨hl,-,hx⟩ := List.pairwise_append.mp h
    rw [arrange_concat,ih hl]
    exact post_eq_concat fun y hy => hx y hy x (List.mem_singleton.mpr rfl)

theorem arrange_perm : (arrange due l).Perm l := by
  induction l using List.reverseRecOn with
  | nil => exact .nil
  | append_singleton l x ih =>
    rw [arrange_concat]
    exact (List.perm_orderedInsert _ x _).trans ((ih.cons x).trans (List.perm_append_singleton x l).symm)

end Arrange

/-- A handler of messages: what was sent to it, what waits and what was delivered. -/
structure Handler (α : Type*) where
  sent : List α
  pending : List α
  delivered : List α
  deriving DecidableEq, Repr

namespace Handler

def init : Handler α := ⟨[],[],[]⟩

def send (x : α) (h : Handler α) : Handler α :=
  { h with sent := h.sent ++ [x], pending := post due x h.pending }

/-- The first message that waits, once it is due. -/
def dispatch (now : β) (h : Handler α) : Option (α × Handler α) :=
  match h.pending with
  | [] => none
  | x::q =>
    if due x ≤ now then some (x,{ h with pending := q, delivered := h.delivered ++ [x] })
    else none

/-- Nothing is delivered early, nothing is lost and everything stands in its place. -/
structure Ok (now : β) (h : Handler α) : Prop where
  past : ∀ x ∈ h.delivered, due x ≤ now
  order : h.delivered ++ h.pending = arrange due h.sent

variable {due} {now now' : β} {x : α} {h h' : Handler α} {p : α → Bool}

theorem ok_init : Ok due now (init : Handler α) := ⟨(by simp [init]),rfl⟩

theorem Ok.mono (hh : Ok due now h) (hnow : now ≤ now') : Ok due now' h :=
  ⟨fun x hx => (hh.past x hx).trans hnow,hh.order⟩

theorem Ok.send (hh : Ok due now h) (hx : now ≤ due x) : Ok due now (send due x h) := by
  refine ⟨hh.past,?_⟩
  rw [Handler.send,arrange_concat,← hh.order]
  exact (post_append fun y hy => (hh.past y hy).trans hx).symm

theorem dispatch_eq_some_iff : dispatch due now h = some (x,h') ↔ ∃ q, h.pending = x::q ∧
    due x ≤ now ∧ h' = { h with pending := q, delivered := h.delivered ++ [x] } := by
  unfold dispatch
  cases h.pending with
  | nil => simp
  | cons y q =>
    by_cases hy : due y ≤ now
    · simp only [hy, if_true, Option.some.injEq, Prod.mk.injEq, List.cons.injEq]
      refine ⟨fun hx => ?_,fun hx => ?_⟩
      · obtain ⟨rfl,rfl⟩ := hx
        exact ⟨q,⟨rfl,rfl⟩,hy,rfl⟩
      · obtain ⟨q',⟨rfl,rfl⟩,-,rfl⟩ := hx
        exact ⟨rfl,rfl⟩
    · simp only [hy, if_false]
      refine ⟨fun hx => (by cases hx),fun hx => ?_⟩
      obtain ⟨q',hq,hx,-⟩ := hx
      cases hq
      exact absurd hx hy

theorem Ok.dispatch (hh : Ok due now h) (hd : dispatch due now h = some (x,h')) :
    Ok due now h' := by
  obtain ⟨q,hq,hx,rfl⟩ := dispatch_eq_some_iff.mp hd
  refine ⟨fun y hy => ?_,?_⟩
  · rcases List.mem_append.mp hy with hy | hy
    · exact hh.past y hy
    · rw [List.mem_singleton.mp hy]
      exact hx
  · rw [← hh.order,hq]
    simp

/-- Once no message of a kind waits, those of that kind were delivered as they were sent if
and only if their due times are in that order. -/
theorem Ok.delivered_eq_sent_iff (hh : Ok due now h) (hp : h.pending.filter p = []) :
    h.delivered.filter p = h.sent.filter p ↔ InOrder due (h.sent.filter p) := by
  have hall : h.delivered.filter p = arrange due (h.sent.filter p) := by
    rw [← filter_arrange,← hh.order,List.filter_append,hp,List.append_nil]
  rw [hall,arrange_eq_self_iff]

end Handler
end DelayQueue
