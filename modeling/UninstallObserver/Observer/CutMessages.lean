import UninstallObserver.Jce.Truncated
import UninstallObserver.Observer.Requests

/-! What the daemon takes the first bytes of a control message for. -/
namespace UninstallObserver.Observer
open Imperative ByteOrder Jce BufferReader

variable {w k : ℕ} {buf bs : List Byte} {m m' : ControlMsg}

namespace ControlMsg

theorem tag_zero : 0 ≤ BitVec.toNat (0 : BitVec 8) := Nat.zero_le _
theorem tag_one : BitVec.toNat (0 : BitVec 8)+1 ≤ BitVec.toNat (1 : BitVec 8) := Nat.le_refl _
theorem tag_two : BitVec.toNat (1 : BitVec 8)+1 ≤ BitVec.toNat (2 : BitVec 8) := Nat.le_refl _

/-- The members with their tags, all of them optional. -/
def fields : Fields 0 :=
  .cons 0 tag_zero false .int32 (.cons 1 tag_one false .string
    (.cons 2 tag_two false .charVector .nil))

def toVals (m : ControlMsg) : Vals fields := (m.eCtrlType,m.sSeq,m.vbData,())

theorem readFrom_eq_fields (E : Env) (n : ℕ) : readFrom (w := w) n init =
    fields.readFrom E n init.toVals >>= fun v => pure ⟨v.1,v.2.1,v.2.2.1⟩ := by
  symm
  refine (bind_assoc (m := Decode w) _ _ _).trans (bind_congr fun e => ?_)
  refine (bind_assoc (m := Decode w) _ _ _).trans ?_
  refine (bind_assoc (m := Decode w) _ _ _).trans (bind_congr fun seq => ?_)
  refine (bind_assoc (m := Decode w) _ _ _).trans ?_
  exact (bind_assoc (m := Decode w) _ _ _)

theorem writeTo_fields (h : m.writeTo = .ok buf) : fields.writeTo m.toVals = .ok buf := by
  obtain ⟨seq,hseq,h⟩ := encoded_bind_ok h
  cases h
  change (writeString m.sSeq 1 >>= _) >>= _ = _
  rw [hseq,List.append_assoc,← List.append_nil (writeCharVector m.vbData 2)]
  rfl

/-- Cut short, a message has lost its payload. -/
theorem salvage_fields (h : m.writeTo = .ok buf) (hk : k < buf.length) {v : Vals fields}
    (hv : fields.salvage m.toVals init.toVals k = some v) :
    (v.1 = m.eCtrlType ∨ v.1 = eCtrlHello) ∧ v.2.2.1 = ([] : List Byte) := by
  obtain ⟨seq,hseq,h⟩ := encoded_bind_ok h
  cases h
  simp only [List.length_append] at hk
  have hseq : JceType.string.write m.sSeq 1 = .ok seq := hseq
  rcases Fields.salvage_cons_some (v := m.toVals) rfl hv with
    ⟨hle,as,has,rfl⟩ | ⟨-,habsent⟩
  · refine ⟨.inl rfl,?_⟩
    rcases Fields.salvage_cons_some (v := m.toVals.2) hseq has with ⟨hle',bs,hbs,rfl⟩ | ⟨-,habsent⟩
    · rcases Fields.salvage_cons_some (v := m.toVals.2.2) rfl hbs with
        ⟨hle'',-⟩ | ⟨-,habsent⟩
      · simp only [toVals] at hle hle' hle''
        omega
      · cases habsent
        rfl
    · cases habsent
      rfl
  · cases habsent
    exact ⟨.inr rfl,rfl⟩

theorem valid_toVals (hs : m.sSeq.length ≤ jceMaxStringLength) (E : Env) :
    Vals.Valid E fields m.toVals := ⟨trivial,hs,trivial,trivial⟩

end ControlMsg

/-- If less than the whole of a message is taken for one, it is for one without a payload. -/
theorem Decodes.of_cut (hw : 32 ≤ w) (h : m.writeTo = .ok buf) (hlen : buf.length < 2^31)
    (hk : k < buf.length) (hm : Decodes w (buf.take k) m') :
    (m'.eCtrlType = m.eCtrlType ∨ m'.eCtrlType = eCtrlHello) ∧ m'.vbData = [] := by
  have hp := two_pow_32_le hw
  obtain ⟨seq,hseq,-⟩ := encoded_bind_ok h
  have hs : m.sSeq.length ≤ jceMaxStringLength := length_le_of_writeString hseq
  have hl : (buf.take k).length = k := List.length_take_of_le hk.le
  have harr : Arrived w (buf.take k) 0 buf (buf.take k) (buf.drop k) :=
    ⟨by omega,Nat.zero_le _,rfl,(List.take_append_drop k buf).symm⟩
  have hgives := ControlMsg.fields.gives_salvage .plain hw 0 m.toVals
    (ControlMsg.valid_toVals hs .plain) buf (ControlMsg.writeTo_fields h) (by omega)
    ControlMsg.init.toVals _ _ _ _ harr (by omega)
  rw [hl] at hgives
  obtain ⟨s,hm⟩ := hm
  cases ho : ControlMsg.fields.salvage m.toVals ControlMsg.init.toVals k with
  | none =>
    rw [ho] at hgives
    obtain ⟨e,r,he,-⟩ := hgives
    have hends : Exec.Ends (fun n => ControlMsg.readFrom n ControlMsg.init)
        (setBufferVector (w := w) (buf.take k)) (.threw e r) := by
      exact ⟨by simp,3,
        (congrFun (ControlMsg.readFrom_eq_fields .plain 3) _).trans (Exec.bind_of_threw he)⟩
    cases hm.unique hends (readFrom_stable _)
  | some v =>
    rw [ho] at hgives
    obtain ⟨q,hv,-⟩ := hgives
    have hends : Exec.Ends (fun n => ControlMsg.readFrom n ControlMsg.init)
        (setBufferVector (w := w) (buf.take k))
        (.returned ⟨v.1,v.2.1,v.2.2.1⟩ (readerAt w (buf.take k) q)) := by
      exact ⟨by simp,3,
        (congrFun (ControlMsg.readFrom_eq_fields .plain 3) _).trans (Exec.bind_of_returned hv)⟩
    cases hm.unique hends (readFrom_stable _)
    exact ControlMsg.salvage_fields h hk ho

/-- Without a payload there is no string. -/
theorem DecodesString.of_nil (hw : 32 ≤ w) {x : List Byte} (h : DecodesString w [] x) : x = [] := by
  have hp := two_pow_32_le hw
  obtain ⟨s,hs⟩ := h
  have hends : Exec.Ends (fun n => readString n [] 0 false) (setBufferVector (w := w) [])
      (.returned [] (readerAt w [] 0)) := by
    refine ⟨by simp,3,?_⟩
    have hfound : ∀ m, 2 ≤ m → skipToTag (w := w) m 0 (readerAt w [] 0) =
        .returned false (readerAt w [] 0) :=
      fun m hm => Stub.not_found hw (show ([] : List Byte).length + 1 < 2^w by simp; omega)
        (Nat.le_refl 0) .nothing 0 m hm
    exact JceType.string.read_absent .plain hfound []
  cases hs.unique hends (readString_stable _ _)
  rfl

/-- A message without a payload brings none, cut short or not. -/
theorem Decodes.of_empty (hw : 32 ≤ w) (h : m.writeTo = .ok buf) (hdata : m.vbData = [])
    (hlen : buf.length < 2^31) (hpre : bs <+: buf) (hm : Decodes w bs m') : m'.vbData = [] := by
  by_cases hk : bs.length < buf.length
  · rw [List.prefix_iff_eq_take.mp hpre] at hm
    exact (hm.of_cut hw h hlen hk).2
  · have hwhole : bs = buf := hpre.eq_of_length_le (not_lt.mp hk)
    subst hwhole
    obtain ⟨seq,hseq,-⟩ := encoded_bind_ok h
    rw [hm.unique (decodes_of_written hw (length_le_of_writeString hseq) h hlen),hdata]

theorem DecodesString.unique {data x y : List Byte} (h : DecodesString w data x)
    (h' : DecodesString w data y) : x = y := by
  obtain ⟨s,hs⟩ := h
  obtain ⟨s',hs'⟩ := h'
  cases hs.unique hs' (readString_stable _ _)
  rfl

section Lengths
variable {s enc : List Byte} {tag : BitVec 8}

theorem length_le_of_intForm {v : ℕ} {type : HeadType} {body : List Byte} {i : ℤ}
    (h : IntForm v type body i) : body.length ≤ 8 := by
  cases h <;> simp [length_store]

theorem length_writeInt32_le (x : BitVec 32) (tag : BitVec 8) :
    (writeInt32 x tag).length ≤ 10 := by
  obtain ⟨type,body,he,hf⟩ := writeInt32_form x tag
  have hhead := length_writeTo_le type tag
  have hbody := length_le_of_intForm hf
  rw [he,List.length_append]
  omega

theorem length_writeString_le (h : writeString s tag = .ok enc) :
    enc.length ≤ jceMaxStringLength + 6 := by
  have hs := length_le_of_writeString h
  obtain ⟨type,body,he,hf⟩ := writeString_form hs tag
  have hhead := length_writeTo_le type tag
  cases he.symm.trans h
  rw [List.length_append]
  cases hf <;> (simp only [List.length_append, length_store]; omega)

/-- No request is longer than what the format can tell of a length. -/
theorem Request.length_lt {req : Request} (h : req.bytes = .ok buf) : buf.length < 2^31 := by
  obtain ⟨e,data,hdata,hmsg⟩ : ∃ (e : CtrlType) (data : List Byte),
      data.length ≤ jceMaxStringLength + 6 ∧ (ControlMsg.mk e [0x30] data).writeTo = .ok buf := by
    cases req with
    | startWatching path =>
      obtain ⟨data,hdata,h⟩ := encoded_bind_ok h
      exact ⟨_,data,length_writeString_le hdata,h⟩
    | setOnDeleteRequestInfo url =>
      obtain ⟨data,hdata,h⟩ := encoded_bind_ok h
      exact ⟨_,data,length_writeString_le hdata,h⟩
  obtain ⟨seq,hseq,h⟩ := encoded_bind_ok hmsg
  cases h
  have hctrl := length_writeInt32_le e 0
  have hseq := length_writeString_le hseq
  have hsize := length_writeInt32_le (BitVec.ofNat 32 data.length) 0
  have hlist := length_writeTo_le .eSimpleList 2
  have hchar := length_writeTo_le .eChar 0
  simp only [writeCharVector, List.length_append]
  unfold jceMaxStringLength at hdata hseq
  omega

end Lengths

/-- What the first bytes of a request can be taken for: for the request, or for one that has
nothing in it. -/
theorem Request.of_prefix {req : Request} (hw : 32 ≤ w) (h : req.bytes = .ok buf)
    (hpre : bs <+: buf) (hm : Decodes w bs m) :
    (∀ path, m.eCtrlType = eCtrlFilePath → DecodesString w m.vbData path →
      path = [] ∨ req = .startWatching path) ∧
    (∀ url, m.eCtrlType = eCtrlReqOnDel → DecodesString w m.vbData url →
      url = [] ∨ req = .setOnDeleteRequestInfo url) := by
  have hlen := Request.length_lt h
  have htake := List.prefix_iff_eq_take.mp hpre
  by_cases hk : bs.length < buf.length
  · obtain ⟨e,data,hmsg⟩ : ∃ e data, (ControlMsg.mk e [0x30] data).writeTo = .ok buf := by
      cases req with
      | startWatching path =>
        obtain ⟨data,-,h⟩ := encoded_bind_ok h
        exact ⟨_,data,h⟩
      | setOnDeleteRequestInfo url =>
        obtain ⟨data,-,h⟩ := encoded_bind_ok h
        exact ⟨_,data,h⟩
    rw [htake] at hm
    obtain ⟨-,hnone⟩ := hm.of_cut hw hmsg hlen hk
    refine ⟨fun path _ hpath => .inl ?_,fun url _ hurl => .inl ?_⟩
    · rw [hnone] at hpath
      exact hpath.of_nil hw
    · rw [hnone] at hurl
      exact hurl.of_nil hw
  · have hwhole : bs = buf := hpre.eq_of_length_le (not_lt.mp hk)
    subst hwhole
    have hcarries := req.carries hw h hlen
    cases req with
    | startWatching path =>
      cases hcarries with
      | filePath decoded type payload =>
        obtain rfl := hm.unique decoded
        refine ⟨fun path' _ hpath => .inr ?_,fun url htype _ => ?_⟩
        · rw [payload.unique hpath]
        · exact absurd (type.symm.trans htype) (by decide)
    | setOnDeleteRequestInfo url =>
      cases hcarries with
      | reqOnDel decoded type payload =>
        obtain rfl := hm.unique decoded
        refine ⟨fun path htype _ => ?_,fun url' _ hurl => .inr ?_⟩
        · exact absurd (type.symm.trans htype) (by decide)
        · rw [payload.unique hurl]

end UninstallObserver.Observer
