import UninstallObserver.Observer.Requests

/-! What is in force after any sequence of messages. -/
namespace UninstallObserver.Observer
open Imperative ByteOrder Jce

variable {w : ℕ} {created : Bool} {buf path url : List Byte} {d : Daemon} {commSock : ℤ}

/-- A buffer that was received, whether a thread could be made for it, and what it says. -/
structure Delivery where
  created : Bool
  buf : List Byte
  message : Message
  deriving DecidableEq, Repr

def Message.url? : Message → Option (List Byte)
  | .reqOnDel url => some url
  | _ => none

/-- The server handles one buffer after another. -/
def handleAll (w fuel : ℕ) (commSock : ℤ) : List Delivery → Server Unit
  | [] => pure ()
  | m::ms => do
    let _ ← handle w fuel m.created commSock m.buf
    handleAll w fuel commSock ms

def Daemon.actAll (ms : List Delivery) (d : Daemon) : Daemon :=
  ms.foldl (fun d m => d.act m.created m.buf m.message) d

/-- The current observer watches `path` and holds `url`. -/
structure Daemon.Watches (path url : List Byte) (d : Daemon) : Prop where
  watching : ∃ o, d.current = some o ∧ o.mPath = path ∧ o.mFileObserver.mPath = path ∧
    o.mFileObserver.isStopped = false ∧ o.mCancelled = false ∧ o.mUrl = url

theorem pointerOk_act (live : d.PointerOk) (msg : Message) :
    (d.act created buf msg).PointerOk := by
  cases msg with
  | hello => exact live
  | filePath path => exact pointerOk_iff.mpr fun _ => by simp [Daemon.act]
  | reqOnDel url =>
    rw [pointerOk_iff] at live ⊢
    simpa [Daemon.act] using live
  | other => exact live

section Watches

theorem watches_filePath : (d.act created buf (.filePath path)).Watches path [] := by
  refine ⟨_,current_install,?_⟩
  cases created <;> exact ⟨rfl,rfl,rfl,rfl,rfl⟩

theorem Daemon.Watches.reqOnDel (h : d.Watches path url) (url' : List Byte) :
    (d.act created buf (.reqOnDel url')).Watches path url' := by
  obtain ⟨o,hc,hpath,hpath',hstop,hcancel,-⟩ := h.watching
  have hcurrent : (d.act created buf (.reqOnDel url')).current =
      some (FileDeleteObserver.setHttpRequestOnDelete url' o) := by
    rw [Daemon.act,current_modifyCurrent,hc]
    rfl
  exact ⟨_,hcurrent,hpath,hpath',hstop,hcancel,rfl⟩

/-- Without another path, the last URL that comes is the one held. -/
theorem Daemon.Watches.actAll {ms : List Delivery} (h : d.Watches path url)
    (hms : ∀ m ∈ ms, ∀ p, m.message ≠ .filePath p) :
    (d.actAll ms).Watches path ((ms.filterMap (·.message.url?)).getLast?.getD url) := by
  induction ms generalizing d url with
  | nil => exact h
  | cons m ms ih =>
    have hrest : ∀ m ∈ ms, ∀ p, m.message ≠ .filePath p :=
      fun m' hm' => hms m' (List.mem_cons_of_mem m hm')
    change ((d.act m.created m.buf m.message).actAll ms).Watches path _
    cases hm : m.message with
    | hello =>
      have hecho : (d.act m.created m.buf .hello).Watches path url := ⟨h.watching⟩
      simp only [List.filterMap_cons, hm, Message.url?]
      exact ih hecho hrest
    | filePath p => exact absurd hm (hms m List.mem_cons_self p)
    | reqOnDel url' =>
      simp only [List.filterMap_cons, hm, Message.url?, List.getLast?_cons, Option.getD_some]
      exact ih (h.reqOnDel url') hrest
    | other =>
      simp only [List.filterMap_cons, hm, Message.url?]
      exact ih h hrest

end Watches

section Runs
variable {ms : List Delivery}

theorem handleAll_stable (ms : List Delivery) :
    Exec.Stable fun n => handleAll w n commSock ms := by
  induction ms with
  | nil => exact .const _
  | cons m ms ih => exact handle_stable.bind fun _ => ih

/-- Well-formed messages are handled one and all, each as it asks. -/
theorem handleAll_ends (hsock : 0 ≤ commSock) (live : d.PointerOk)
    (hms : ∀ m ∈ ms, m.buf ≠ [] ∧ Carries w m.buf m.message) :
    Exec.Ends (fun n => handleAll w n commSock ms) d (.returned () (d.actAll ms)) := by
  induction ms generalizing d with
  | nil => exact Exec.ends_const_iff.mpr rfl
  | cons m ms ih =>
    obtain ⟨hbuf,hcarries⟩ := hms m List.mem_cons_self
    refine (Exec.ends_bind_of_returned handle_stable (fun _ => handleAll_stable ms)
      (handle_carries hsock hbuf hcarries live)).mpr ?_
    exact ih (pointerOk_act live _) fun m' hm' => hms m' (List.mem_cons_of_mem m hm')

/-- After any sequence of well-formed messages the last path is watched, and the URL held
is the last one that came after it. -/
theorem handleAll_watches {pre post : List Delivery} {last : Delivery} (hsock : 0 ≤ commSock)
    (live : d.PointerOk)
    (hms : ∀ m ∈ pre ++ last::post, m.buf ≠ [] ∧ Carries w m.buf m.message)
    (hlast : last.message = .filePath path)
    (hpost : ∀ m ∈ post, ∀ p, m.message ≠ .filePath p) :
    ∃ d', Exec.Ends (fun n => handleAll w n commSock (pre ++ last::post)) d (.returned () d') ∧
      d'.Watches path ((post.filterMap (·.message.url?)).getLast?.getD []) := by
  refine ⟨_,handleAll_ends hsock live hms,?_⟩
  have hsplit : d.actAll (pre ++ last::post) =
      ((d.actAll pre).act last.created last.buf last.message).actAll post := by
    simp [Daemon.actAll]
  rw [hsplit,hlast]
  exact watches_filePath.actAll hpost

/-- "/p" is to be watched, and "u" requested. -/
def samplePath : Delivery :=
  ⟨true,[0x00,0x01,0x16,0x01,0x30,0x2D,0x00,0x00,0x04,0x06,0x02,0x2F,0x70],.filePath [0x2F,0x70]⟩
def sampleUrl : Delivery :=
  ⟨true,[0x00,0x02,0x16,0x01,0x30,0x2D,0x00,0x00,0x03,0x06,0x01,0x75],.reqOnDel [0x75]⟩

theorem sample_carries {m : Delivery} (hm : m ∈ [sampleUrl,samplePath,sampleUrl]) :
    m.buf ≠ [] ∧ Carries 32 m.buf m.message := by
  have hpath : Carries 32 samplePath.buf (Request.startWatching [0x2F,0x70]).message :=
    Request.carries (by decide) rfl (by decide)
  have hurl : Carries 32 sampleUrl.buf (Request.setOnDeleteRequestInfo [0x75]).message :=
    Request.carries (by decide) rfl (by decide)
  simp only [List.mem_cons, List.not_mem_nil, or_false] at hm
  rcases hm with rfl | rfl | rfl
  · exact ⟨by decide,hurl⟩
  · exact ⟨by decide,hpath⟩
  · exact ⟨by decide,hurl⟩

theorem handleAll_watches_sample : ∃ d',
    Exec.Ends (fun n => handleAll 32 n 5 ([sampleUrl] ++ samplePath::[sampleUrl])) Daemon.init
      (.returned () d') ∧ d'.Watches [0x2F,0x70] [0x75] := by
  have hpost : ∀ m ∈ [sampleUrl], ∀ p, m.message ≠ .filePath p := by
    intro m hm p h
    obtain rfl := List.mem_singleton.mp hm
    cases h
  exact handleAll_watches (by decide) (pointerOk_of_none rfl) (fun _ hm => sample_carries hm) rfl
    hpost

/-- A URL that comes before the path is not kept. -/
theorem not_url_kept : ¬ ∀ d',
    Exec.Ends (fun n => handleAll 32 n 5 [sampleUrl,samplePath]) Daemon.init (.returned () d') →
      d'.Watches [0x2F,0x70] [0x75] := by
  intro h
  have hms : ∀ m ∈ [sampleUrl,samplePath], m.buf ≠ [] ∧ Carries 32 m.buf m.message := by
    intro m hm
    apply sample_carries
    simp only [List.mem_cons] at hm ⊢
    tauto
  have hw := h _ (handleAll_ends (by decide) (pointerOk_of_none rfl) hms)
  obtain ⟨o,hcurrent,-,-,-,-,hurl⟩ := hw.watching
  have hnone : (Daemon.init.actAll [sampleUrl,samplePath]).current.map
      FileDeleteObserver.mUrl = some [] := rfl
  rw [hcurrent,Option.map_some,hurl] at hnone
  cases hnone

end Runs

end UninstallObserver.Observer
