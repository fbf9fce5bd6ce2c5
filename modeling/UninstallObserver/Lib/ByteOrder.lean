import Mathlib.Data.Nat.Notation
import Mathlib.Tactic.Common
import Mathlib.Tactic.NormNum
import Mathlib.Tactic.Ring

/-! Machine words as bytes in memory, byte swapping, and narrowing of signed words.

The host is little-endian: byte `i` of a word in memory has weight `256 ^ i`. -/
namespace ByteOrder

abbrev Byte := BitVec 8

/-- The number a little-endian byte string stands for. -/
def value : List Byte → ℕ
  | [] => 0
  | b::bs => b.toNat + 256*value bs

/-- The `k` lowest base-256 digits, lowest first. -/
def digits : ℕ → ℕ → List Byte
  | 0, _ => []
  | k+1, n => BitVec.ofNat 8 n :: digits k (n/256)

@[simp] theorem length_digits (k n : ℕ) : (digits k n).length = k := by
  induction k generalizing n with
  | zero => rfl
  | succ k ih => simp [digits, ih]

theorem value_lt (bs : List Byte) : value bs < 256^bs.length := by
  induction bs with
  | nil => simp [value]
  | cons b bs ih =>
    have hb := b.isLt
    simp only [value, List.length_cons, pow_succ]
    omega

theorem value_digits (k n : ℕ) (h : n < 256^k) : value (digits k n) = n := by
  induction k generalizing n with
  | zero => simp at h; simp [digits, value, h]
  | succ k ih =>
    have hn : n/256 < 256^k := by rw [pow_succ] at h; omega
    simp only [digits, value, ih _ hn, BitVec.toNat_ofNat]
    omega

theorem digits_value (bs : List Byte) : digits bs.length (value bs) = bs := by
  induction bs with
  | nil => rfl
  | cons b bs ih =>
    have hb := b.isLt
    have hd : (b.toNat + 256*value bs)/256 = value bs := by omega
    simp only [List.length_cons, digits, value, hd, ih, List.cons.injEq, and_true]
    apply BitVec.eq_of_toNat_eq
    rw [BitVec.toNat_ofNat]
    omega

/-- The bytes of a word of `k` bytes as they stand in memory. -/
def store (k : ℕ) {w : ℕ} (x : BitVec w) : List Byte := digits k x.toNat

/-- The word that stands in memory at these bytes. -/
def load (w : ℕ) (bs : List Byte) : BitVec w := BitVec.ofNat w (value bs)

@[simp] theorem length_store (k : ℕ) {w : ℕ} (x : BitVec w) : (store k x).length = k :=
  length_digits _ _

theorem two_pow_eq (k : ℕ) : 2^(8*k) = 256^k := by
  rw [pow_mul]; norm_num

theorem load_store {k w : ℕ} (hw : w = 8*k) (x : BitVec w) : load w (store k x) = x := by
  subst hw
  have hx := x.isLt
  rw [two_pow_eq] at hx
  rw [load, store, value_digits _ _ hx, BitVec.ofNat_toNat, BitVec.setWidth_eq]

theorem store_load {k w : ℕ} (hw : w = 8*k) {bs : List Byte} (hbs : bs.length = k) :
    store k (load w bs) = bs := by
  subst hw hbs
  have hv := value_lt bs
  rw [← two_pow_eq] at hv
  rw [store, load, BitVec.toNat_ofNat, Nat.mod_eq_of_lt hv, digits_value]

/-- Reverse the bytes of a word of `k` bytes: host order to network order and back. -/
def swap (k : ℕ) {w : ℕ} (x : BitVec w) : BitVec w := load w (store k x).reverse

theorem store_swap {k w : ℕ} (hw : w = 8*k) (x : BitVec w) :
    store k (swap k x) = (store k x).reverse := store_load hw (by simp)

theorem swap_swap {k w : ℕ} (hw : w = 8*k) (x : BitVec w) : swap k (swap k x) = x := by
  rw [swap, store_swap hw, List.reverse_reverse, load_store hw]

/-- A signed word that fits in `v` bits survives narrowing and sign extension. -/
theorem signExtend_setWidth {v w : ℕ} (hv : v ≤ w) (hpos : 0 < v) (x : BitVec w)
    (hl : -2^(v-1) ≤ x.toInt) (hu : x.toInt < 2^(v-1)) : (x.setWidth v).signExtend w = x := by
  obtain ⟨u,rfl⟩ : ∃ u, v = u+1 := ⟨v-1,by omega⟩
  apply BitVec.eq_of_toInt_eq
  have hp : (2 : ℤ)^(u+1) = 2*2^u := by ring
  simp only [Nat.add_sub_cancel] at hl hu
  have hb : Int.bmod x.toInt (2^(u+1)) = x.toInt := by
    apply Int.bmod_eq_of_le
    · push_cast
      omega
    · push_cast
      omega
  rw [BitVec.toInt_signExtend_of_le hv,BitVec.toInt_setWidth,← hb]
  rw [BitVec.toInt_eq_toNat_bmod x,Int.bmod_bmod_of_dvd]
  exact_mod_cast pow_dvd_pow 2 hv

/-- Narrowing keeps the residue. -/
theorem setWidth_ofInt {v w : ℕ} (hv : v ≤ w) (i : ℤ) :
    (BitVec.ofInt w i).setWidth v = BitVec.ofInt v i := by
  apply BitVec.eq_of_toInt_eq
  have hd : 2^v ∣ 2^w := pow_dvd_pow 2 hv
  calc ((BitVec.ofInt w i).setWidth v).toInt
      = Int.bmod (BitVec.ofInt w i).toNat (2^v) := BitVec.toInt_setWidth _
    _ = Int.bmod (BitVec.ofInt w i).toInt (2^v) := by
      rw [BitVec.toInt_eq_toNat_bmod,Int.bmod_bmod_of_dvd hd]
    _ = (BitVec.ofInt v i).toInt := by
      rw [BitVec.toInt_ofInt,Int.bmod_bmod_of_dvd hd,BitVec.toInt_ofInt]

end ByteOrder
