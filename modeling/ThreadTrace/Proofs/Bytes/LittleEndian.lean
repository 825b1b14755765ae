import ThreadTrace.Bytes.LittleEndian
import Mathlib.Algebra.Group.Nat.Defs

/-!
# ThreadTrace.Proofs.Bytes.LittleEndian — words and their bytes are inverse

`decode_encode` holds up to the width, `encode_decode` for as many bytes as there are.
-/

namespace ThreadTrace

namespace LittleEndian

theorem decode_encode (n v : Nat) : decode (encode n v) = v % 256 ^ n := by
  induction n generalizing v with
  | zero => simp [encode, decode, Nat.mod_one]
  | succ n ih =>
    have hb : (UInt8.ofNat v).toNat = v % 256 := by simp
    rw [encode, decode, ih, hb, Nat.pow_succ, Nat.mul_comm (256 ^ n) 256, Nat.mod_mul]

theorem decode_encode_of_lt {n v : Nat} (h : v < 256 ^ n) : decode (encode n v) = v := by
  rw [decode_encode, Nat.mod_eq_of_lt h]

theorem decode_lt (bs : List UInt8) : decode bs < 256 ^ bs.length := by
  induction bs with
  | nil => simp [decode]
  | cons b bs ih =>
    have hb : b.toNat < 256 := b.toNat_lt
    rw [decode, List.length_cons, Nat.pow_succ]
    omega

theorem encode_decode (bs : List UInt8) : encode bs.length (decode bs) = bs := by
  induction bs with
  | nil => rfl
  | cons b bs ih =>
    have hb : b.toNat < 256 := b.toNat_lt
    have hlow : UInt8.ofNat (b.toNat + 256 * decode bs) = b := by
      apply UInt8.toNat_inj.1
      simp
    have hhigh : (b.toNat + 256 * decode bs) / 256 = decode bs := by omega
    rw [List.length_cons, decode, encode, hlow, hhigh, ih]

/-! ### Words of 32 and 64 bits -/

@[simp] theorem toUInt32_ofUInt32 (w : UInt32) : toUInt32 (ofUInt32 w) = w := by
  rw [toUInt32, ofUInt32, decode_encode_of_lt (by have := w.toNat_lt; omega), UInt32.ofNat_toNat]

@[simp] theorem toUInt64_ofUInt64 (w : UInt64) : toUInt64 (ofUInt64 w) = w := by
  rw [toUInt64, ofUInt64, decode_encode_of_lt (by have := w.toNat_lt; omega), UInt64.ofNat_toNat]

theorem ofUInt32_toUInt32 {bs : List UInt8} (h : bs.length = 4) : ofUInt32 (toUInt32 bs) = bs := by
  have hlt := decode_lt bs
  have hb := encode_decode bs
  rw [h] at hlt hb
  rw [ofUInt32, toUInt32, UInt32.toNat_ofNat_of_lt' (by simpa using hlt), hb]

theorem ofUInt64_toUInt64 {bs : List UInt8} (h : bs.length = 8) : ofUInt64 (toUInt64 bs) = bs := by
  have hlt := decode_lt bs
  have hb := encode_decode bs
  rw [h] at hlt hb
  rw [ofUInt64, toUInt64, UInt64.toNat_ofNat_of_lt' (by simpa using hlt), hb]

end LittleEndian

end ThreadTrace
