import Mathlib.Tactic.Ring

namespace LittleEndian

def encode : Nat → Nat → List UInt8
  | 0, _ => []
  | w + 1, n => UInt8.ofNat n :: encode w (n / 256)

def decode : List UInt8 → Nat
  | [] => 0
  | b :: bs => b.toNat + 256 * decode bs

@[simp]
theorem encode_length (w n : Nat) : (encode w n).length = w := by
  induction w generalizing n with
  | zero => rfl
  | succ w ih => simp [encode, ih]

theorem decode_encode (w n : Nat) : decode (encode w n) = n % 256 ^ w := by
  induction w generalizing n with
  | zero => simp [encode, decode, Nat.mod_one]
  | succ w ih =>
    simp only [encode, decode, ih]
    have hmod : n % (256 * 256 ^ w) = n % 256 + 256 * (n / 256 % 256 ^ w) := Nat.mod_mul
    rw [Nat.pow_succ, Nat.mul_comm (256 ^ w), hmod]
    simp

theorem decode_encode_of_lt {w n : Nat} (h : n < 256 ^ w) : decode (encode w n) = n := by
  rw [decode_encode, Nat.mod_eq_of_lt h]

theorem decode_lt (bytes : List UInt8) : decode bytes < 256 ^ bytes.length := by
  induction bytes with
  | nil => simp [decode]
  | cons b bytes ih =>
    have hb := b.toNat_lt
    simp only [decode, List.length_cons, Nat.pow_succ]
    omega

theorem encode_decode (bytes : List UInt8) : encode bytes.length (decode bytes) = bytes := by
  induction bytes with
  | nil => rfl
  | cons b bytes ih =>
    have hb := b.toNat_lt
    have hlow : (b.toNat + 256 * decode bytes) % 256 = b.toNat := by omega
    have hhigh : (b.toNat + 256 * decode bytes) / 256 = decode bytes := by omega
    simp only [List.length_cons, encode, decode, hhigh, ih]
    congr 1
    apply UInt8.toNat_inj.mp
    rw [UInt8.toNat_ofNat']
    exact hlow

theorem encode_mod (w n : Nat) : encode w (n % 256 ^ w) = encode w n := by
  have := encode_decode (encode w n)
  rw [encode_length, decode_encode] at this
  exact this

@[simp]
theorem decode_encode_uint64 (x : UInt64) : UInt64.ofNat (decode (encode 8 x.toNat)) = x := by
  rw [decode_encode_of_lt]
  . simp
  . have := x.toNat_lt
    norm_num
    omega

end LittleEndian
