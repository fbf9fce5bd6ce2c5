import UninstallObserver.Jce.Searches
import UninstallObserver.Observer.DecodeRuns

/-! Which buffers decode to a control message, and which payloads to a path or a URL. -/
namespace UninstallObserver.Observer
open Imperative ByteOrder Jce BufferReader Relation

variable {w : ℕ} {r : BufferReader w}

/-- The searches end inside the buffer, and each field that is there can be parsed. -/
structure WellFormed (r : BufferReader w) : Prop where
  ends : NeverReturns r
  inside : NeverAtLast r
  eCtrlType : Parser.zeroField (some eCtrlHello) Parser.int32 (rest r) ≠ none
  sSeq : ∀ s t, Entered r (.tagLoop 1,s) → Finds 1 s t →
    Parser.field Parser.string (rest t) ≠ none
  vbData : ∀ s t, Entered r (.tagLoop 2,s) → Finds 2 s t →
    Parser.field (Parser.charVector r.buf.length) (rest t) ≠ none

/-- A payload with a string under tag 0, or with nothing there. -/
def PayloadOk (data : List Byte) : Prop :=
  Parser.zeroField (some []) Parser.string data ≠ none

theorem entered_searches (hw : 32 ≤ w) (hr : Sound r) :
    (∀ tag s, Entered r (.tagLoop tag,s) → Searches tag s) ↔ NeverReturns r ∧ NeverAtLast r := by
  have hcall : ∀ {c : Config w}, Entered r c → ∃ tag s, c = (.tagLoop tag,s) := by
    intro c hc
    cases hc with
    | sSeq => exact ⟨1,_,rfl⟩
    | vbData => exact ⟨2,_,rfl⟩
  rw [← neverReturns_iff hw hr.len,← neverAtLast_iff hw hr]
  constructor
  · intro h
    constructor
    · intro c hc
      obtain ⟨tag,s,rfl⟩ := hcall hc
      exact (h tag s hc).ends
    · intro c hc
      obtain ⟨tag,s,rfl⟩ := hcall hc
      exact (h tag s hc).inside
  · intro h tag s hc
    obtain ⟨hends,hin⟩ := h
    exact ⟨hends _ hc,hin _ hc⟩

section Reads
variable {old : ControlMsg}

theorem readInt32_zero_returns_iff (hw : 32 ≤ w) (hr : Inside 0 r) :
    Exec.Returns (fun n => readInt32 n eCtrlHello 0 false) r ↔
      Parser.zeroField (some eCtrlHello) Parser.int32 (rest r) ≠ none := by
  have hp : ∀ n, Parses r.buf.length (readInt32 (w := w) (n+3) eCtrlHello 0 false)
      (Parser.zeroField (some eCtrlHello) Parser.int32) :=
    fun n => parses_readField_zero hw fun t => parses_int32Switch hw t
  exact parses_returns_iff (readInt32_stable _ _ _) hp hr rfl

theorem readString_returns_iff (hw : 32 ≤ w) (hr : Sound r) {seq : List Byte} {tag : BitVec 8} :
    Exec.Returns (fun n => readString n seq tag false) r ↔
      Searches tag r ∧ ∀ s, Finds tag r s → Parser.field Parser.string (rest s) ≠ none :=
  readField_returns_iff (g := fun _ => stringSwitch tag) hw hr (fun _ => .const _)
    fun _ t => parses_stringSwitch hw t

theorem readCharVector_returns_iff (hw : 32 ≤ w) (hr : Sound r) {v : List Byte} {tag : BitVec 8} :
    Exec.Returns (fun n => readCharVector n v tag false) r ↔
      Searches tag r ∧ ∀ s, Finds tag r s →
        Parser.field (Parser.charVector r.buf.length) (rest s) ≠ none :=
  readField_returns_iff hw hr (charVectorSwitch_stable v)
    fun _ t => parses_charVectorSwitch hw hr.small v t

theorem readData_returns_iff {e : CtrlType} {seq : List Byte} :
    Exec.Returns (fun n => readData (w := w) old n e seq) r ↔
      Exec.Returns (fun n => readCharVector n old.vbData 2 false) r := by
  refine (Exec.returns_bind_iff (g := fun _ v => (pure ⟨e,seq,v⟩ : Decode w ControlMsg))
    (readCharVector_stable _ _) fun _ => .const _).trans (and_iff_left fun v t _ => ?_)
  exact ⟨_,t,by simp,0,rfl⟩

/-- A control message is decoded from exactly the well-formed buffers. -/
theorem readFrom_returns_iff (hw : 32 ≤ w) (hr : Inside 0 r) :
    Exec.Returns (fun n => ControlMsg.readFrom n old) r ↔ WellFormed r := by
  have hsame : ∀ {tag s}, Entered r (.tagLoop tag,s) → Sound s ∧ s.buf.length = r.buf.length :=
    fun h => ⟨hr.toSound.of_same h.same,congrArg List.length h.same.1⟩
  have hsSeq : ∀ {e s}, Exec.Ends (fun n => readInt32 n eCtrlHello 0 false) r (.returned e s) →
      (Exec.Returns (fun n => readString n [] 1 false) s ↔ Searches 1 s ∧
        ∀ t, Finds 1 s t → Parser.field Parser.string (rest t) ≠ none) :=
    fun first => readString_returns_iff hw (hsame (.sSeq first)).1
  have hvbData : ∀ {e s seq u},
      Exec.Ends (fun n => readInt32 n eCtrlHello 0 false) r (.returned e s) →
      Exec.Ends (fun n => readString n [] 1 false) s (.returned seq u) →
      (Exec.Returns (fun n => readData old n e seq) u ↔ Searches 2 u ∧
        ∀ t, Finds 2 u t → Parser.field (Parser.charVector r.buf.length) (rest t) ≠ none) := by
    intro e s seq u first second
    obtain ⟨hu,hlen⟩ := hsame (.vbData first second)
    rw [readData_returns_iff,readCharVector_returns_iff hw hu,hlen]
  have hseq : ∀ e (s : BufferReader w), Exec.Returns (fun n => readSeq old n e) s ↔
      Exec.Returns (fun n => readString n [] 1 false) s ∧ ∀ seq u,
        Exec.Ends (fun n => readString n [] 1 false) s (.returned seq u) →
          Exec.Returns (fun n => readData old n e seq) u :=
    fun e s => Exec.returns_bind_iff (readString_stable _ _) fun seq => readData_stable old e seq
  refine (Exec.returns_bind_iff (readInt32_stable _ _ _) (readSeq_stable old)).trans ?_
  rw [readInt32_zero_returns_iff hw hr]
  simp only [hseq]
  constructor
  · intro h
    obtain ⟨hint,h⟩ := h
    have hsearch : ∀ tag s, Entered r (.tagLoop tag,s) → Searches tag s := by
      intro tag s hc
      cases hc with
      | sSeq first => exact ((hsSeq first).mp (h _ _ first).1).1
      | vbData first second => exact ((hvbData first second).mp ((h _ _ first).2 _ _ second)).1
    obtain ⟨hends,hin⟩ := (entered_searches hw hr.toSound).mp hsearch
    refine ⟨hends,hin,hint,fun s t hc => ?_,fun s t hc => ?_⟩
    · cases hc with
      | sSeq first => exact ((hsSeq first).mp (h _ _ first).1).2 t
    · cases hc with
      | vbData first second =>
        exact ((hvbData first second).mp ((h _ _ first).2 _ _ second)).2 t
  · intro hwf
    have hsearch := (entered_searches hw hr.toSound).mpr ⟨hwf.ends,hwf.inside⟩
    refine ⟨hwf.eCtrlType,fun e s first => ⟨?_,fun seq u second => ?_⟩⟩
    · exact (hsSeq first).mpr ⟨hsearch 1 s (.sSeq first),fun t => hwf.sSeq s t (.sSeq first)⟩
    · exact (hvbData first second).mpr
        ⟨hsearch 2 u (.vbData first second),fun t => hwf.vbData u t (.vbData first second)⟩

/-- A string under tag 0 is all that a payload is read for. -/
theorem payload_returns_iff (hw : 32 ≤ w) {data : List Byte} (hlen : data.length < 2^(w-1)) :
    Exec.Returns (fun n => readString n [] 0 false) (setBufferVector (w := w) data) ↔
      PayloadOk data := by
  have hp : ∀ n, Parses data.length (readString (w := w) (n+3) [] 0 false)
      (Parser.zeroField (some []) Parser.string) :=
    fun n => parses_readField_zero hw fun t => parses_stringSwitch hw t
  have hrest : rest (setBufferVector (w := w) data) = data := by
    simp [rest, setBufferVector, setBuffer]
  refine (parses_returns_iff (readString_stable _ _) hp (inside_setBufferVector hlen) rfl).trans ?_
  rw [hrest]
  rfl

end Reads

end UninstallObserver.Observer
