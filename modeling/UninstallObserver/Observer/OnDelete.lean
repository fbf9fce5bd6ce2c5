import UninstallObserver.Lib.Runs
import UninstallObserver.Observer.FileDeleteObserver

/-! What `onDelete` makes of the results of its requests, call by call. -/
namespace UninstallObserver.Observer
open ByteOrder Transition

namespace OnDelete

/-- `CURLcode`, of which only `CURLE_OK` is told apart. -/
abbrev CurlCode := ℕ

def curleOk : CurlCode := 0

/-- What a call of `sendRequest` meets: the URL at that time, whether `curl_easy_init` gives
a handle, and what `curl_easy_perform` would return. -/
structure Attempt where
  mUrl : List Byte
  curl : Bool
  res : CurlCode
  deriving DecidableEq, Repr

/-- What the handler of a deletion does that others can tell. -/
inductive Effect where
  | curlEasyInit
  | setoptUrl (url : List Byte)
  | setoptFollowLocation (value : ℕ)
  | setoptTimeout (seconds : ℕ)
  | curlEasyPerform (url : List Byte) (res : CurlCode)
  | curlEasyGetinfo
  | curlEasyCleanup
  | usleep (microseconds : ℕ)
  /-- `BackendServer::Stop`. -/
  | stop
  | finish (success : Bool)
  deriving DecidableEq, Repr

/-- `FileDeleteObserver::sendRequest`: its result, and what it did. -/
def sendRequest (a : Attempt) : ℤ × List Effect :=
  if a.mUrl.isEmpty then (-1,[])
  else if a.curl then
    (if a.res ≠ curleOk then a.res else 0,
      [.curlEasyInit,.setoptUrl a.mUrl,.setoptFollowLocation 1,.setoptTimeout 30,
        .curlEasyPerform a.mUrl a.res] ++ (if a.res ≠ curleOk then [] else [.curlEasyGetinfo])
        ++ [.curlEasyCleanup])
  else (0,[.curlEasyInit])

/-- The `for` loop with so many turns to go from turn `i`: where `i` stands when it is left,
and what was done. -/
def onDeleteLoop (attempts : ℕ → Attempt) : ℕ → ℕ → ℕ × List Effect
  | 0, i => (i,[])
  | turns+1, i =>
    let (result,effects) := sendRequest (attempts i)
    if curleOk = result then (i,effects)
    else
      let (last,rest) := onDeleteLoop attempts turns (i+1)
      (last,effects ++ [.usleep (1000*1000*3)] ++ rest)

/-- `FileDeleteObserver::onDelete`. -/
def onDelete (attempts : ℕ → Attempt) : List Effect :=
  (onDeleteLoop attempts kFailRetryTimes 0).2 ++ [.stop,.finish true]

/-- The URL was requested, and curl said that it went well. -/
def Sent (a : Attempt) : Prop := .curlEasyPerform a.mUrl curleOk ∈ (sendRequest a).2

/-- There are a URL and a handle for it, and the request goes well. -/
def GoesWell (a : Attempt) : Prop := a.mUrl ≠ [] ∧ a.curl ∧ a.res = curleOk

/-- curl gives no handle for the URL. -/
def NoHandle (a : Attempt) : Prop := a.mUrl ≠ [] ∧ a.curl = false

/-- The loop is left before the limit only after an attempt that was sent. -/
def LeavesOnceSent (attempts : ℕ → Attempt) : Prop :=
  (onDeleteLoop attempts kFailRetryTimes 0).1 < kFailRetryTimes →
    Sent (attempts (onDeleteLoop attempts kFailRetryTimes 0).1)

section SendRequest
variable {a : Attempt}

theorem sent_iff : Sent a ↔ GoesWell a := by
  unfold Sent GoesWell sendRequest
  by_cases hurl : a.mUrl = []
  · simp [hurl]
  · by_cases hcurl : a.curl
    · by_cases hres : a.res = curleOk
      · simp [hurl, hcurl, hres]
      · simp [hurl, hcurl, hres, Ne.symm hres]
    · simp [hurl, hcurl]

/-- The result is that of a success when the request was sent, and when there was no handle. -/
theorem sendRequest_ok_iff : (curleOk : ℤ) = (sendRequest a).1 ↔ Sent a ∨ NoHandle a := by
  rw [sent_iff]
  unfold sendRequest NoHandle GoesWell curleOk
  by_cases hurl : a.mUrl = []
  · simp [hurl]
  · by_cases hcurl : a.curl
    · by_cases hres : a.res = 0
      · simp [hurl, hcurl, hres]
      · have hne : (0 : ℤ) ≠ a.res := by exact_mod_cast Ne.symm hres
        simp [hurl, hcurl, hres, hne]
    · simp [hurl, hcurl]

theorem NoHandle.not_sent (h : NoHandle a) : ¬ Sent a := by
  rw [sent_iff]
  simp [GoesWell, h.2]

end SendRequest

section Loop
variable {attempts : ℕ → Attempt} {turns i j : ℕ}

theorem onDeleteLoop_succ_of_ok (h : (curleOk : ℤ) = (sendRequest (attempts i)).1) :
    (onDeleteLoop attempts (turns+1) i).1 = i := by
  simp [onDeleteLoop, h]

theorem onDeleteLoop_succ_of_ne (h : (curleOk : ℤ) ≠ (sendRequest (attempts i)).1) :
    (onDeleteLoop attempts (turns+1) i).1 = (onDeleteLoop attempts turns (i+1)).1 := by
  simp [onDeleteLoop, h]

/-- The loop is left at the first result that counts as a success, or at the limit. -/
theorem onDeleteLoop_eq_iff (hj : j < i+turns) : (onDeleteLoop attempts turns i).1 = j ↔
    i ≤ j ∧ (curleOk : ℤ) = (sendRequest (attempts j)).1 ∧
      ∀ k, i ≤ k → k < j → (curleOk : ℤ) ≠ (sendRequest (attempts k)).1 := by
  induction turns generalizing i with
  | zero =>
    simp only [onDeleteLoop]
    omega
  | succ turns ih =>
    by_cases hok : (curleOk : ℤ) = (sendRequest (attempts i)).1
    · rw [onDeleteLoop_succ_of_ok hok]
      constructor
      · rintro rfl
        exact ⟨le_rfl,hok,fun k hk hlt => absurd hlt (Nat.not_lt.mpr hk)⟩
      · rintro ⟨hle,-,hfirst⟩
        by_contra hne
        exact hfirst i le_rfl (by omega) hok
    · rw [onDeleteLoop_succ_of_ne hok,ih (by omega)]
      constructor
      · rintro ⟨hle,hj,hfirst⟩
        refine ⟨by omega,hj,fun k hk hlt => ?_⟩
        by_cases hki : k = i
        · subst hki
          exact hok
        · exact hfirst k (by omega) hlt
      · rintro ⟨hle,hj,hfirst⟩
        have hne : i ≠ j := by
          rintro rfl
          exact hok hj
        exact ⟨by omega,hj,fun k hk => hfirst k (by omega)⟩

/-- The loop trusts the result rightly exactly when curl is never without a handle for the
URL before a request has gone well. -/
theorem leavesOnceSent_iff (attempts : ℕ → Attempt) : LeavesOnceSent attempts ↔
    ∀ i < kFailRetryTimes, NoHandle (attempts i) → ∃ j < i, GoesWell (attempts j) := by
  simp only [← sent_iff]
  have hleft : ∀ {j}, j < kFailRetryTimes →
      ((onDeleteLoop attempts kFailRetryTimes 0).1 = j ↔
        (Sent (attempts j) ∨ NoHandle (attempts j)) ∧
          ∀ k < j, ¬ (Sent (attempts k) ∨ NoHandle (attempts k))) := by
    intro j hj
    rw [onDeleteLoop_eq_iff (by omega)]
    simp only [Nat.zero_le, true_and, forall_const, ne_eq, sendRequest_ok_iff]
  unfold LeavesOnceSent
  constructor
  · intro h i hi hnone
    -- the first attempt that counts as a success, at `i` or before
    have hex : ∃ j, Sent (attempts j) ∨ NoHandle (attempts j) := ⟨i,.inr hnone⟩
    classical
    have hle : Nat.find hex ≤ i := Nat.find_min' hex (.inr hnone)
    have hfirst := (hleft (hle.trans_lt hi)).mpr ⟨Nat.find_spec hex,fun k hk => Nat.find_min hex hk⟩
    rw [hfirst] at h
    have hsent := h (hle.trans_lt hi)
    refine ⟨Nat.find hex,lt_of_le_of_ne hle fun heq => ?_,hsent⟩
    rw [heq] at hsent
    exact hnone.not_sent hsent
  · intro h hlt
    obtain ⟨hok,hfirst⟩ := (hleft hlt).mp rfl
    rcases hok with hsent | hnone
    · exact hsent
    · obtain ⟨j,hj,hsent⟩ := h _ hlt hnone
      exact absurd (.inl hsent) (hfirst j hj)

/-- curl is without a handle, and nothing was sent. -/
theorem not_leavesOnceSent_noHandle :
    ¬ LeavesOnceSent fun _ => ⟨[0x75],false,curleOk⟩ := by
  intro h
  have hsent := sent_iff.mp (h (by decide))
  exact absurd hsent.2.1 (by decide)

end Loop

section Thread
variable {attempts : ℕ → Attempt} {o : FileDeleteObserver} {turns i : ℕ}

/-- The transfer that the thread's step goes by. -/
def Attempt.transfer (a : Attempt) : Bool := !a.curl || a.res == curleOk

/-- What the thread is given while the loop has so many turns to go. -/
def loopInputs (attempts : ℕ → Attempt) : ℕ → ℕ → List Input
  | 0, _ => [.next]
  | turns+1, i => .request (attempts i).transfer ::
      if curleOk = (sendRequest (attempts i)).1 then [] else loopInputs attempts turns (i+1)

theorem sendRequest_transfer {a : Attempt} (hurl : a.mUrl = o.mUrl) :
    o.sendRequest a.transfer = decide ((curleOk : ℤ) = (sendRequest a).1) := by
  apply Bool.eq_iff_iff.mpr
  rw [decide_eq_true_iff,sendRequest_ok_iff,sent_iff,NoHandle,GoesWell,
    FileDeleteObserver.sendRequest,Attempt.transfer,← hurl]
  by_cases hempty : a.mUrl = []
  · simp [hempty]
  · cases a.curl <;> simp [hempty]

/-- The steps of the thread between `onEvent` and `BackendServer::Stop` are the turns of
the loop. -/
theorem run_loopInputs (hurl : ∀ j, (attempts j).mUrl = o.mUrl) (hi : i + turns = kFailRetryTimes) :
    Run (fun l s t => Slot.step l s = some t) ⟨some o,.retrying i⟩ (loopInputs attempts turns i)
      ⟨some o,.stopping⟩ := by
  induction turns generalizing i with
  | zero =>
    refine .cons ?_ .nil
    simp [Slot.step, show i = kFailRetryTimes by omega]
  | succ turns ih =>
    have hstep : Slot.step (.request (attempts i).transfer) ⟨some o,.retrying i⟩ =
        some ⟨some o,if (curleOk : ℤ) = (sendRequest (attempts i)).1 then .stopping
          else .retrying (i+1)⟩ := by
      simp [Slot.step, show i < kFailRetryTimes by omega, sendRequest_transfer (hurl i)]
    unfold loopInputs
    refine .cons hstep ?_
    by_cases hok : (curleOk : ℤ) = (sendRequest (attempts i)).1
    · simp only [hok, if_true]
      exact .nil
    · simp only [hok, if_false]
      exact ih (by omega)

end Thread

end OnDelete
end UninstallObserver.Observer
