import Mathlib.Data.List.TakeWhile
import UninstallObserver.Observer.Connections
import UninstallObserver.Observer.WatchRuns

/-! The path that a client gives, and the ones the kernel and `access` are asked about. -/
namespace UninstallObserver.Observer
open Imperative ByteOrder Jce Transition

variable {w : ℕ} {created : Bool} {path p buf : List Byte} {commSock : ℤ} {d d' : Daemon}

section Copy

theorem cString_eq_self_iff : cString path = path ↔ 0 ∉ path := by
  rw [cString,List.takeWhile_eq_self_iff]
  constructor
  · intro h hzero
    simpa using h 0 hzero
  · intro h b hb
    exact decide_eq_true fun hzero => h (hzero ▸ hb)

theorem length_cString_le : (cString path).length ≤ path.length :=
  (List.takeWhile_prefix _).length_le

/-- The copy is the path itself just where there is nothing to convert, and room for the NUL. -/
theorem watchPath_eq_self_iff (hw : 8 ≤ w) (hpath : 0 ∉ path) :
    watchPath w path = some path ↔ Printf.chr '%' ∉ path ∧ path.length ≤ 255 := by
  constructor
  · intro h
    obtain ⟨out,hout,h⟩ := Option.bind_eq_some_iff.mp h
    obtain ⟨hfits,h⟩ := Option.ite_none_right_eq_some.mp h
    have hcopy : cString out = path := Option.some.inj h
    have hle : path.length ≤ out.length := hcopy ▸ length_cString_le
    have hlen : path.length ≤ 255 := by omega
    refine ⟨?_,hlen⟩
    rcases Nat.eq_zero_or_pos path.length with hnil | hpos
    · rw [List.length_eq_zero_iff.mp hnil]
      exact List.not_mem_nil
    · -- the argument is the length, which no "%c" prints as a NUL
      have harg : (BitVec.ofNat w path.length).setWidth 8 ≠ 0 := by
        intro hzero
        have hmod := congrArg BitVec.toNat hzero
        have hdvd : 2^8 ∣ 2^w := Nat.pow_dvd_pow 2 hw
        simp only [BitVec.toNat_setWidth, BitVec.toNat_ofNat, BitVec.ofNat_eq_ofNat,
          Nat.mod_mod_of_dvd _ hdvd] at hmod
        omega
      have hzero : 0 ∉ out := Printf.zero_notMem_of_sprintf hout hpath harg
      rw [cString_eq_self_iff.mpr hzero] at hcopy
      exact Printf.percent_notMem_of_sprintf (hcopy ▸ hout)
  · intro h
    have hlt : path.length < 256 := by omega
    rw [watchPath,Printf.sprintf_of_percent_notMem h.1,Option.bind_some,if_pos hlt,
      cString_eq_self_iff.mpr hpath]

end Copy

namespace ThreadFunc

section Runs
variable {o : FileObserver} {ls : List Act} {Q : Type} {ops : QueueOps Q} {s s' : Watch Q} {a : Act}

/-- The thread hands a path to the kernel once it comes to it, and never another one than this;
nor does it look for another. -/
structure WatchesPath (w : ℕ) (path : List Byte) (o : FileObserver) : Prop where
  reaches : ∀ ls s, Run (Step w eventQueue) (.init o (queueCreate [])) ls s → s.pc = .adding →
    ∃ s', Step w eventQueue (.addWatch true) s s'
  watched : ∀ ls s p, Run (Step w eventQueue) (.init o (queueCreate [])) ls s →
    .addWatch p ∈ s.trace → p = path
  looked : ∀ ls s p, Run (Step w eventQueue) (.init o (queueCreate [])) ls s →
    .isFileExist p ∈ s.trace → p = path

/-- The kernel gets the copy, `access` the path of the observer. -/
structure Watch.Names (w : ℕ) (o : FileObserver) (s : Watch Q) : Prop where
  path : s.path = cString o.mPath
  watched : ∀ p, .addWatch p ∈ s.trace → watchPath w (cString o.mPath) = some p
  looked : ∀ p, .isFileExist p ∈ s.trace → p = cString o.mPath

/-- Actions without a path. -/
theorem Watch.Names.goto (h : s.Names w o) {pc : Pc} {actions : List Action} (q : Q)
    {cur : Option InotifyEvent} (hadd : ∀ p, .addWatch p ∉ actions)
    (hlook : ∀ p, .isFileExist p ∉ actions) :
    (({ s with queue := q, curEventFilename := cur }).goto pc actions).Names w o where
  path := h.path
  watched := fun p hp => h.watched p ((List.mem_append.mp hp).resolve_right (hadd p))
  looked := fun p hp => h.looked p ((List.mem_append.mp hp).resolve_right (hlook p))

theorem Moves.names (h : Moves w ops s a s') (hs : s.Names w o) :
    s'.Names w o := by
  have hnotified : ∀ event, (∀ p, .addWatch p ∉ s.notification event) ∧
      ∀ p, .isFileExist p ∉ s.notification event := by
    intro event
    unfold Watch.notification
    split <;> simp
  cases h with
  | stops => exact ⟨hs.path,hs.watched,hs.looked⟩
  | inits => exact hs.goto s.queue (by simp) (by simp)
  | @adds success p pc path =>
    refine ⟨hs.path,fun p' hp => ?_,fun p' hp => ?_⟩
    · rcases List.mem_append.mp hp with hp | hp
      · exact hs.watched p' hp
      · cases List.mem_singleton.mp hp
        exact hs.path ▸ path
    · exact hs.looked p' ((List.mem_append.mp hp).resolve_right (by simp))
  | loops => exact hs.goto s.queue (by simp) (by simp)
  | fails => exact hs.goto s.queue (by simp) (by simp)
  | reads => exact hs.goto _ (by simp) (by simp)
  | dispatches =>
    refine ⟨hs.path,fun p' hp => ?_,fun p' hp => ?_⟩
    · refine hs.watched p' ((List.mem_append.mp hp).resolve_right ?_)
      split <;> simp
    · rcases List.mem_append.mp hp with hp | hp
      · exact hs.looked p' hp
      · split at hp
        · cases List.mem_singleton.mp hp
          exact hs.path
        · cases hp
  | empties => exact hs.goto _ (by simp) (by simp)
  | breaks => exact hs.goto _ (by simp) (by simp)
  | checks => exact hs.goto s.queue (by simp) (by simp)
  | @notifies k event => exact hs.goto s.queue (hnotified event).1 (hnotified event).2
  | deletes => exact hs.goto _ (hnotified .delete).1 (hnotified .delete).2
  | leaves =>
    refine hs.goto s.queue (fun p => ?_) fun p => ?_
    · split <;> simp
    · split <;> simp
  | closes => exact hs.goto s.queue (by simp) (by simp)

theorem names_of_run {s : Watch (QueueStruct InotifyEvent)}
    (h : Run (Step w eventQueue) (.init o (queueCreate [])) ls s) : s.Names w o :=
  h.invariant (I := fun s => s.Names w o) ⟨rfl,by simp [Watch.init],by simp [Watch.init]⟩
    fun _ _ _ hs hst => (Moves.of_step hst).names hs

/-- That holds just where the copy is the path. -/
theorem watchesPath_iff (ho : cString o.mPath = path) :
    WatchesPath w path o ↔ watchPath w path = some path := by
  subst ho
  constructor
  · intro h
    have hinit : Run (Step w eventQueue) (.init o (queueCreate [])) [.init true] _ :=
      .cons (Moves.step (.inits rfl)) .nil
    obtain ⟨s',hadd⟩ := h.reaches _ _ hinit rfl
    have hrun := run_concat_iff.mpr ⟨_,hinit,hadd⟩
    cases Moves.of_step hadd with
    | @adds _ p _ hcopy =>
      have hp : p = cString o.mPath := h.watched _ _ p hrun (by simp [Watch.goto])
      rw [← hp]
      exact hp ▸ hcopy
  · intro hcopy
    refine ⟨fun ls s h hpc => ?_,fun ls s p h hp => ?_,fun ls s p h hp =>
      (names_of_run h).looked p hp⟩
    · exact ⟨_,Moves.step (.adds hpc ((names_of_run h).path ▸ hcopy))⟩
    · have hcopied := (names_of_run h).watched p hp
      rw [hcopy] at hcopied
      exact (Option.some.inj hcopied).symm

end Runs

end ThreadFunc

section Requests

/-- A path that arrives is the path of the observer that is made for it. -/
theorem current_of_startWatching (hw : 32 ≤ w)
    (h : (Request.startWatching path).bytes = .ok buf) (hlen : buf.length ≤ kBufferSize)
    (hsock : 0 ≤ commSock) (hserved : Exec.Ends
      (fun n => serveConnection w n created commSock [buf]) d (.returned () d')) :
    d'.current = some ((FileDeleteObserver.init path).startWatching created) := by
  have hbuf := Request.bytes_ne_nil h
  have hsmall : buf.length < 2^31 := hlen.trans_lt (by decide)
  have hrecv : recv [buf] = buf := List.take_of_length_le hlen
  obtain ⟨x,hx⟩ := (serveConnection_ends_iff (by rw [hrecv]; exact hbuf)).mp hserved
  rw [hrecv] at hx
  have live := Request.live hw h hsmall hsock ⟨x,_,hx⟩
  have hacts : Exec.Ends (fun n => handle w n created commSock buf) d _ :=
    handle_carries hsock hbuf (Request.carries hw h hsmall) live
  cases hx.unique hacts handle_stable
  exact current_install

/-- The path of a request is the one that is watched and looked for just where it has no '%' and
is not longer than 255 bytes. -/
theorem watches_given_iff (hw : 32 ≤ w) (hpath : 0 ∉ path)
    (h : (Request.startWatching path).bytes = .ok buf) (hlen : buf.length ≤ kBufferSize)
    (hsock : 0 ≤ commSock) (hserved : Exec.Ends
      (fun n => serveConnection w n created commSock [buf]) d (.returned () d')) :
    (∃ o, d'.current = some o ∧ o.mPath = path ∧
      ThreadFunc.WatchesPath w path o.mFileObserver) ↔
        Printf.chr '%' ∉ path ∧ path.length ≤ 255 := by
  have hcurrent := current_of_startWatching hw h hlen hsock hserved
  have hobserver : ((FileDeleteObserver.init path).startWatching created).mFileObserver.mPath =
      path := by
    cases created <;> rfl
  rw [← watchPath_eq_self_iff (w := w) (by omega) hpath,← ThreadFunc.watchesPath_iff
    (o := ((FileDeleteObserver.init path).startWatching created).mFileObserver)
      (by rw [hobserver,cString_eq_self_iff.mpr hpath])]
  constructor
  · intro hwatched
    obtain ⟨o,ho,-,hwatched⟩ := hwatched
    rw [hcurrent] at ho
    cases ho
    exact hwatched
  · intro hwatched
    exact ⟨_,hcurrent,rfl,hwatched⟩

/-- "/a" is watched under that name. -/
theorem watches_given_sample : ∃ d',
    Exec.Ends (fun n => serveConnection 32 n true 5 [sampleBytes]) Daemon.init (.returned () d') ∧
      ∃ o, d'.current = some o ∧ o.mPath = [0x2F,0x61] ∧
        ThreadFunc.WatchesPath 32 [0x2F,0x61] o.mFileObserver := by
  have hserved : ∃ d', serveConnection 32 5 true 5 [sampleBytes] Daemon.init = .returned () d' :=
    ⟨_,rfl⟩
  obtain ⟨d',hserved⟩ := hserved
  refine ⟨d',⟨by simp,5,hserved⟩,(watches_given_iff (by decide) (by decide) rfl (by decide)
    (by decide) ⟨by simp,5,hserved⟩).mpr (by decide)⟩

/-- "/%%", for which "/%" is watched. -/
def percentPath : List Byte := [0x2F,0x25,0x25]

theorem not_watches_percentPath : ¬ ∀ path buf d', 0 ∉ path →
    (Request.startWatching path).bytes = .ok buf → buf.length ≤ kBufferSize →
      Exec.Ends (fun n => serveConnection 32 n true 5 [buf]) Daemon.init (.returned () d') →
        ∃ o, d'.current = some o ∧ o.mPath = path ∧
          ThreadFunc.WatchesPath 32 path o.mFileObserver := by
  intro h
  have hserved : ∃ buf d', (Request.startWatching percentPath).bytes = .ok buf ∧
      buf.length ≤ kBufferSize ∧
        serveConnection 32 5 true 5 [buf] Daemon.init = .returned () d' :=
    ⟨_,_,rfl,by decide,rfl⟩
  obtain ⟨buf,d',hbytes,hlen,hserved⟩ := hserved
  have hends : Exec.Ends (fun n => serveConnection 32 n true 5 [buf]) Daemon.init
      (.returned () d') := ⟨by simp,5,hserved⟩
  obtain ⟨o,ho,hpath,hwatched⟩ := h percentPath buf d' (by decide) hbytes hlen hends
  rw [current_of_startWatching (by decide) hbytes hlen (by decide) hends] at ho
  cases ho
  have hname : cString ((FileDeleteObserver.init percentPath).startWatching true).mFileObserver.mPath =
      percentPath := by decide
  have hcopy := (ThreadFunc.watchesPath_iff hname).mp hwatched
  exact absurd hcopy (by decide +kernel)

end Requests

end UninstallObserver.Observer
