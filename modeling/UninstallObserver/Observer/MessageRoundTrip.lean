import UninstallObserver.Jce.RoundTrip
import UninstallObserver.Observer.Messages

/-! Decoding undoes encoding, for values of every type and for the control messages. -/
namespace UninstallObserver.Observer
open Imperative ByteOrder Jce BufferReader

variable {w : ℕ} {n : ℕ}

theorem ControlMsg.reads (hw : 32 ≤ w) {m : ControlMsg} (old : ControlMsg) {enc : List Byte}
    (hs : m.sSeq.length ≤ jceMaxStringLength) (h : m.writeTo = .ok enc)
    (hlen : enc.length < 2^32) : Reads (w := w) 0 (ControlMsg.readFrom (n+3) old) enc m := by
  obtain ⟨sSeq,hseq,he⟩ := encoded_bind_ok h
  cases he
  simp only [List.length_append] at hlen
  obtain ⟨type,body,hhead,hform⟩ := writeInt32_form m.eCtrlType 0
  have hctrl : Reads (w := w) 0 (readInt32 (n+3) eCtrlHello 0 false)
      (writeInt32 m.eCtrlType 0) m.eCtrlType := by
    have h := reads_readInt32 (w := w) (k := 0) (n := n) hw hform eCtrlHello 0 false
    rwa [BitVec.ofInt_toInt,← hhead] at h
  have hseq := (roundTrips_string (w := w) (n := n) hw hs 1 false sSeq hseq
    (by omega)).2 old.resetDefautlt.sSeq
  have hdata := (roundTrips_charVector (w := w) (n := n) hw m.vbData 2 false _ rfl
    (by omega)).2 old.resetDefautlt.vbData
  rw [List.append_assoc]
  exact hctrl.bind (hseq.bind hdata.map (Nat.zero_le _)) (Nat.zero_le _)

theorem FilePath.reads (hw : 32 ≤ w) {m old : FilePath} {enc : List Byte}
    (hs : m.sFilePath.length ≤ jceMaxStringLength) (h : m.writeTo = .ok enc)
    (hlen : enc.length < 2^32) : Reads (w := w) 0 (FilePath.readFrom (n+3) old) enc m :=
  ((roundTrips_string (w := w) (n := n) hw hs 0 false enc h hlen).2
    old.resetDefautlt.sFilePath).map

theorem ReqOnDel.reads (hw : 32 ≤ w) {m old : ReqOnDel} {enc : List Byte}
    (hs : m.sUrl.length ≤ jceMaxStringLength) (h : m.writeTo = .ok enc)
    (hlen : enc.length < 2^32) : Reads (w := w) 0 (ReqOnDel.readFrom (n+3) old) enc m :=
  ((roundTrips_string (w := w) (n := n) hw hs 0 false enc h hlen).2
    old.resetDefautlt.sUrl).map

/-- A payload in a control message decodes to `a`, and the message to what was written. -/
def DecodesAtBothLevels (w n : ℕ) {α : Type} (payload : Encoded) (readFrom : α → Decode w α)
    (a : α) : Prop :=
  ∀ (eCtrlType : CtrlType) (sSeq : List Byte), sSeq.length ≤ jceMaxStringLength →
    ∃ data enc, payload = .ok data ∧ (ControlMsg.mk eCtrlType sSeq data).writeTo = .ok enc ∧
      (enc.length < 2^31 → ∀ old old',
        ControlMsg.readFrom (n+3) old (setBufferVector enc) =
          .returned ⟨eCtrlType,sSeq,data⟩ (readerAt w enc enc.length) ∧
        readFrom old' (setBufferVector data) = .returned a (readerAt w data data.length))

theorem decodesAtBothLevels {α : Type} {payload : Encoded} {readFrom : α → Decode w α} {a : α}
    (hw : 32 ≤ w) (hpayload : ∃ data, payload = .ok data)
    (hread : ∀ data, payload = .ok data → data.length < 2^32 →
      ∀ old, Reads 0 (readFrom old) data a) : DecodesAtBothLevels w n payload readFrom a := by
  intro eCtrlType sSeq hs
  have hp := two_pow_32_le hw
  obtain ⟨data,hdata⟩ := hpayload
  obtain ⟨seq,hseq⟩ := writeString_ok hs 1
  have henc : (ControlMsg.mk eCtrlType sSeq data).writeTo =
      .ok (writeInt32 eCtrlType 0 ++ seq ++ writeCharVector data 2) := by
    rw [ControlMsg.writeTo,hseq]
    rfl
  refine ⟨data,_,hdata,henc,fun hlen old old' => ?_⟩
  have hle : data.length < 2^31 := by
    simp only [writeCharVector,List.length_append] at hlen
    omega
  have hmsg := ControlMsg.reads (n := n) hw old hs henc (by omega)
  have hpay := hread data hdata (by omega) old'
  exact ⟨hmsg.whole (by omega),hpay.whole (by omega)⟩

/-- Decoding undoes encoding for every value of every type, wherever the encoding stands
in a buffer, and at both levels for the messages that carry a path or a URL. -/
theorem read_of_write (hw : 32 ≤ w) :
    (∀ (E : Env) (t : JceType) (v : Val t) (tag : BitVec 8), Val.Valid E t v →
      ∃ enc, t.write v tag = .ok enc ∧ (enc.length < 2^31 →
        ∀ (old : Val t) (isRequire : Bool) (pre post : List Byte),
          (pre ++ enc ++ post).length < 2^w →
          t.read E (n+3) old tag isRequire (readerAt w (pre ++ enc ++ post) pre.length) =
            .returned v (readerAt w (pre ++ enc ++ post) (pre.length+enc.length)))) ∧
    ∀ s : List Byte, s.length ≤ jceMaxStringLength →
      DecodesAtBothLevels w n (FilePath.mk s).writeTo (FilePath.readFrom (n+3)) ⟨s⟩ ∧
      DecodesAtBothLevels w n (ReqOnDel.mk s).writeTo (ReqOnDel.readFrom (n+3)) ⟨s⟩ := by
  constructor
  · intro E t v tag hv
    obtain ⟨enc,henc⟩ := t.write_ok E v hv tag
    refine ⟨enc,henc,fun hlen old isRequire pre post hbuf => ?_⟩
    have hread := (t.roundTrips E hw n v hv tag isRequire enc henc (by omega)).2 old
    exact hread.at_append pre post hbuf
  · intro s hs
    constructor
    · refine decodesAtBothLevels hw (writeString_ok hs 0) fun data hdata hlen old => ?_
      exact FilePath.reads hw hs hdata hlen
    · refine decodesAtBothLevels hw (writeString_ok hs 0) fun data hdata hlen old => ?_
      exact ReqOnDel.reads hw hs hdata hlen

/-- Two entries, one with a number too large for the short forms. -/
def sampleMap : Val (.map .char (.vector .int32)) :=
  show List (BitVec 8 × List (BitVec 32)) from [(0xFF,[1,70000]),(5,[])]

theorem sampleMap_valid : Val.Valid Env.plain _ sampleMap := by
  have hkeys : BitVec.slt (n := 8) 0xFF 5 := by decide
  refine ⟨.cons (fun e he => ?_) (.cons (fun e he => by cases he) .nil),fun e he => ?_⟩
  · obtain rfl := List.mem_singleton.mp he
    exact hkeys
  · exact ⟨trivial,fun a ha => trivial⟩

theorem read_of_write_sampleMap : ∃ enc,
    (JceType.map .char (.vector .int32)).write sampleMap 200 = .ok enc ∧
      (JceType.map .char (.vector .int32)).read Env.plain 3 (Val.init _) 200 true
        (readerAt 32 ([0] ++ enc ++ [7]) 1) =
          .returned sampleMap (readerAt 32 ([0] ++ enc ++ [7]) (1+enc.length)) := by
  obtain ⟨enc,henc,hread⟩ := (read_of_write (w := 32) (n := 0) (by omega)).1 Env.plain
    (.map .char (.vector .int32)) sampleMap 200 sampleMap_valid
  have he : enc.length = 20 := by
    cases henc
    rfl
  refine ⟨enc,henc,hread (by omega) _ true [0] [7] ?_⟩
  simp [he]

end UninstallObserver.Observer
