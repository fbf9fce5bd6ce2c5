import UninstallObserver.Jce.ReaderLaws
import UninstallObserver.Jce.SkipCalls
import UninstallObserver.Jce.InputStream

/-! Code that reads exactly the bytes it is meant to, wherever they stand in a buffer. -/
namespace UninstallObserver.Jce
open Imperative ByteOrder BufferReader

variable {w : ℕ} {α β : Type}

/-- The reader of a buffer of known size, `p` bytes from its start. -/
def readerAt (w : ℕ) (buf : List Byte) (p : ℕ) : BufferReader w :=
  ⟨buf,BitVec.ofNat w buf.length,BitVec.ofNat w p⟩

/-- Where at least `k` bytes follow `enc`, `m` reads exactly `enc` and yields `a`. -/
def Reads (k : ℕ) (m : Decode w α) (enc : List Byte) (a : α) : Prop :=
  ∀ buf p post, buf.length < 2^w → p ≤ buf.length → buf.drop p = enc ++ post →
    k ≤ post.length → m (readerAt w buf p) = .returned a (readerAt w buf (p+enc.length))

section Primitives
variable {buf : List Byte} {p : ℕ}

theorem readerAt_len (h : buf.length < 2^w) :
    (readerAt w buf p).bufLen.toNat = (readerAt w buf p).buf.length := by
  change (BitVec.ofNat w buf.length).toNat = buf.length
  rw [BitVec.toNat_ofNat,Nat.mod_eq_of_lt h]

theorem readerAt_cur (h : p < 2^w) : (readerAt w buf p).cur.toNat = p := by
  change (BitVec.ofNat w p).toNat = p
  rw [BitVec.toNat_ofNat,Nat.mod_eq_of_lt h]

theorem skip_readerAt (len : BitVec w) :
    skip len (readerAt w buf p) = .returned () (readerAt w buf (p+len.toNat)) := by
  have hc : BitVec.ofNat w p + len = BitVec.ofNat w (p+len.toNat) := by
    rw [BitVec.ofNat_add,BitVec.ofNat_toNat,BitVec.setWidth_eq]
  change Outcome.returned () (⟨buf,_,BitVec.ofNat w p + len⟩ : BufferReader w) = _
  rw [hc]
  rfl

theorem hasEnd_readerAt (h : buf.length < 2^w) (hp : p ≤ buf.length) :
    hasEnd (readerAt w buf p) = .returned (decide (buf.length ≤ p)) (readerAt w buf p) := by
  have hiff : (readerAt w buf p).bufLen ≤ (readerAt w buf p).cur ↔ buf.length ≤ p := by
    rw [BitVec.le_def,readerAt_len h,readerAt_cur (by omega)]
    rfl
  unfold hasEnd
  rw [decide_eq_decide.mpr hiff]

theorem peekBuf_readerAt (len offset : BitVec w) (bs post : List Byte) (h : buf.length < 2^w)
    (hp : p + offset.toNat ≤ buf.length) (hd : buf.drop (p+offset.toNat) = bs ++ post)
    (hlen : len.toNat = bs.length) :
    peekBuf len offset (readerAt w buf p) = .returned bs (readerAt w buf p) := by
  have hl := congrArg List.length hd
  rw [List.length_drop,List.length_append] at hl
  have hc : (readerAt w buf p).cur.toNat = p := readerAt_cur (by omega)
  rw [peekBuf_of_fits (readerAt_len h)]
  · rw [hc]
    change Outcome.returned ((buf.drop (p+offset.toNat)).take len.toNat) _ = _
    rw [hd,hlen,List.take_left]
  · rw [hc]
    change p + offset.toNat + len.toNat ≤ buf.length
    omega

theorem drop_cons_succ {b : Byte} {post : List Byte} (h : buf.drop p = b::post) :
    buf.drop (p+1) = post := by
  rw [← List.drop_drop,h]
  rfl

theorem peekByte_readerAt (offset : BitVec w) {b : Byte} {post : List Byte} (hw : 32 ≤ w)
    (h : buf.length < 2^w) (hd : buf.drop (p+offset.toNat) = b::post) :
    DataHead.peekByte offset (readerAt w buf p) = .returned b (readerAt w buf p) := by
  have hl := congrArg List.length hd
  rw [List.length_drop,List.length_cons] at hl
  have hb := peekBuf_readerAt (w := w) 1 offset [b] post h (by omega) hd (toNat_one hw)
  exact Exec.bind_of_returned hb

end Primitives

namespace Reads
variable {k : ℕ} {m : Decode w α} {f : α → Decode w β} {enc enc' : List Byte} {a : α} {b : β}

theorem pure (a : α) : Reads k (pure a : Decode w α) [] a := fun _ _ _ _ _ _ _ => rfl

theorem bind (hm : Reads k m enc a) (hf : Reads l (f a) enc' b)
    (hk : k ≤ enc'.length + l) : Reads l (m >>= f) (enc ++ enc') b := by
  intro buf p post hb hp hd hl
  have hd' : buf.drop p = enc ++ (enc' ++ post) := by rw [hd,List.append_assoc]
  have hlen := congrArg List.length hd'
  simp only [List.length_drop,List.length_append] at hlen
  have hnext : buf.drop (p+enc.length) = enc' ++ post := by
    rw [← List.drop_drop,hd',List.drop_left]
  have h1 := hm buf p (enc' ++ post) hb hp hd' (by rw [List.length_append]; omega)
  have h2 := hf buf (p+enc.length) post hb (by omega) hnext hl
  rw [Exec.bind_of_returned h1,h2,List.length_append,Nat.add_assoc]

/-- What is computed from a value that was read. -/
theorem map {g : α → β} (h : Reads k m enc a) :
    Reads k (m >>= fun a => Pure.pure (g a)) enc (g a) := by
  have hb := h.bind (f := fun a => Pure.pure (g a)) (pure (k := k) (g a)) (Nat.le_add_left k _)
  rwa [List.append_nil] at hb

theorem at_append (h : Reads 0 m enc a) (pre post : List Byte)
    (hlen : (pre ++ enc ++ post).length < 2^w) :
    m (readerAt w (pre ++ enc ++ post) pre.length) =
      .returned a (readerAt w (pre ++ enc ++ post) (pre.length+enc.length)) := by
  refine h _ _ post hlen ?_ ?_ (Nat.zero_le _)
  · simp only [List.length_append]
    omega
  · rw [List.append_assoc,List.drop_left]

/-- Code that reads a whole buffer leaves the cursor at its end. -/
theorem whole (h : Reads 0 m enc a) (hlen : enc.length < 2^w) :
    m (setBufferVector enc) = .returned a (readerAt w enc enc.length) := by
  have hat := at_append h [] [] (by simpa using hlen)
  rwa [List.append_nil,List.nil_append,List.length_nil,Nat.zero_add] at hat

end Reads

section Copies
variable {k : ℕ} {enc : List Byte}

theorem reads_readBuf {len : BitVec w} (h : len.toNat = enc.length) :
    Reads k (readBuf len) enc enc := by
  intro buf p post hb hp hd _
  have hpeek : peekBuf len 0 (readerAt w buf p) = .returned enc (readerAt w buf p) :=
    peekBuf_readerAt len 0 enc post hb (by simpa using hp) (by simpa using hd) h
  rw [readBuf,Exec.bind_of_returned hpeek,Exec.bind_of_returned (skip_readerAt len),h]
  rfl

theorem reads_skip {len : BitVec w} (h : len.toNat = enc.length) : Reads k (skip len) enc () := by
  intro buf p post _ _ _ _
  rw [skip_readerAt,h]

theorem reads_readByType {n v : ℕ} (h : enc.length = n) :
    Reads (w := w) k (readByType n v) enc (load v enc) := by
  intro buf p post hb hp hd hk
  have hl := congrArg List.length hd
  rw [List.length_drop,List.length_append] at hl
  have hn : (BitVec.ofNat w n).toNat = enc.length := by
    rw [BitVec.toNat_ofNat,Nat.mod_eq_of_lt (by omega),h]
  exact (reads_readBuf hn).map (g := fun bs => load v bs) buf p post hb hp hd hk

end Copies

section Heads
variable {k : ℕ} {buf : List Byte} {p : ℕ} {type : HeadType} {tag : BitVec 8}

theorem length_writeTo_le (type : HeadType) (tag : BitVec 8) :
    (DataHead.writeTo type tag).length ≤ 2 := by
  unfold DataHead.writeTo
  split <;> simp

theorem length_writeTo_pos (type : HeadType) (tag : BitVec 8) :
    0 < (DataHead.writeTo type tag).length :=
  List.length_pos_iff.mpr (DataHead.writeTo_ne_nil type tag)

theorem peekFrom_readerAt {post : List Byte} (hw : 32 ≤ w) (h : buf.length < 2^w)
    (hd : buf.drop p = DataHead.writeTo type tag ++ post) :
    DataHead.peekFrom (readerAt w buf p) = .returned
      (⟨type,tag⟩,BitVec.ofNat w (DataHead.writeTo type tag).length) (readerAt w buf p) := by
  unfold DataHead.writeTo at hd ⊢
  by_cases ht : tag.toNat < 15
  · rw [if_pos ht] at hd ⊢
    have h0 := peekByte_readerAt (w := w) 0 hw h (by simpa using hd)
    have htag := DataHead.helperTag_helper type tag.toNat (by omega)
    rw [DataHead.peekFrom,Exec.bind_of_returned h0,htag,if_neg (by omega)]
    simp
  · rw [if_neg ht] at hd ⊢
    have h0 := peekByte_readerAt (w := w) 0 hw h (by simpa using hd)
    have h1 := peekByte_readerAt (w := w) 1 hw h
      (by rw [toNat_one hw]; exact drop_cons_succ hd)
    have htag := DataHead.helperTag_helper type 15 (by omega)
    rw [DataHead.peekFrom,Exec.bind_of_returned h0,htag,if_pos rfl,Exec.bind_of_returned h1]
    simp

theorem reads_readFrom (hw : 32 ≤ w) :
    Reads (w := w) k DataHead.readFrom (DataHead.writeTo type tag) ⟨type,tag⟩ := by
  intro buf p post hb hp hd _
  have hn : (BitVec.ofNat w (DataHead.writeTo type tag).length).toNat =
      (DataHead.writeTo type tag).length := by
    have h2 := length_writeTo_le type tag
    have hlt : 2 < 2^w := (Nat.pow_le_pow_right (by omega) (show 2 ≤ w by omega)).trans_lt'
      (by omega)
    rw [BitVec.toNat_ofNat,Nat.mod_eq_of_lt (by omega)]
  rw [DataHead.readFrom,Exec.bind_of_returned (peekFrom_readerAt hw hb hd)]
  dsimp only
  rw [Exec.bind_of_returned (skip_readerAt _),hn]
  rfl

/-- A field that stands at the cursor is found there. -/
theorem skipToTag_here {post : List Byte} {n : ℕ} (hw : 32 ≤ w) (h : buf.length < 2^w)
    (hp : p ≤ buf.length) (hd : buf.drop p = DataHead.writeTo type tag ++ post)
    (ht : type ≠ .eStructEnd) :
    skipToTag (n+2) tag (readerAt w buf p) = .returned true (readerAt w buf p) := by
  have hpos := length_writeTo_pos type tag
  have hl := congrArg List.length hd
  rw [List.length_drop,List.length_append] at hl
  have hloop : skipToTagLoop (n+1) tag (readerAt w buf p) =
      .returned true (readerAt w buf p) := by
    rw [skipToTagLoop,Exec.bind_of_returned (hasEnd_readerAt h hp)]
    rw [if_neg (by simp; omega),Exec.bind_of_returned (peekFrom_readerAt hw h hd)]
    dsimp only
    rw [if_pos (.inl (BitVec.le_refl tag)),if_neg ht]
    simp
  rw [skipToTag,Exec.catchIf,hloop]

/-- A typed read of a field that stands at the cursor. -/
theorem reads_field {n : ℕ} {isRequire : Bool} {missing : String} {old a : α} {body : List Byte}
    {switch : HeadType → Decode w α} (hw : 32 ≤ w) (ht : type ≠ .eStructEnd)
    (hs : Reads k (switch type) body a) :
    Reads k (readField (skipToTag (n+2) tag) isRequire missing old switch)
      (DataHead.writeTo type tag ++ body) a := by
  intro buf p post hb hp hd hk
  have hd' : buf.drop p = DataHead.writeTo type tag ++ (body ++ post) := by
    rw [hd,List.append_assoc]
  rw [readField,Exec.bind_of_returned (skipToTag_here hw hb hp hd' ht),if_pos rfl]
  exact (reads_readFrom hw).bind hs (Nat.le_add_left k _) buf p post hb hp hd hk

end Heads
end UninstallObserver.Jce
