import Mathlib.Algebra.Order.Group.Nat
import Mathlib.Algebra.Group.Nat.Basic
import Mathlib.Data.List.Basic

/-! # Big-endian bytes and machine words

Every multi-byte scalar of an ELF or RPL file is stored most significant byte
first, and the tool computes on `uint8_t`, `uint16_t` and `uint32_t` values that
wrap. This module fixes the byte encoding of naturals, the conversions between
the three word types and `Nat`, and the `align_up` helper the tool calls.
-/

namespace Elf2Rpl

/-- The `w` big-endian bytes of `n`; bits above `8 * w` are dropped. -/
def beBytes : Nat → Nat → List UInt8
  | 0, _ => []
  | w + 1, n => beBytes w (n / 256) ++ [UInt8.ofNat n]

/-- The number a big-endian byte string denotes. -/
def beValue (bs : List UInt8) : Nat :=
  bs.foldl (fun acc b => acc * 256 + b.toNat) 0

theorem byte_toNat_ofNat (n : Nat) : (UInt8.ofNat n).toNat = n % 256 := by
  simp [UInt8.toNat, UInt8.ofNat]

theorem byte_ofNat_toNat (b : UInt8) : UInt8.ofNat b.toNat = b :=
  UInt8.toNat.inj (by simp [UInt8.toNat, UInt8.ofNat])

@[simp] theorem length_beBytes (w n : Nat) : (beBytes w n).length = w := by
  induction w generalizing n with
  | zero => rfl
  | succ w ih => simp [beBytes, ih]

@[simp] theorem beValue_nil : beValue [] = 0 := rfl

theorem beValue_append_byte (bs : List UInt8) (b : UInt8) :
    beValue (bs ++ [b]) = beValue bs * 256 + b.toNat := by
  simp [beValue, List.foldl_append]

theorem beValue_beBytes (w n : Nat) : beValue (beBytes w n) = n % 256 ^ w := by
  induction w generalizing n with
  | zero => simp [beBytes, Nat.mod_one]
  | succ w ih =>
    rw [beBytes, beValue_append_byte, ih, byte_toNat_ofNat, pow_succ', Nat.mod_mul]
    omega

theorem beValue_lt (bs : List UInt8) : beValue bs < 256 ^ bs.length := by
  induction bs using List.reverseRecOn with
  | nil => simp
  | append_singleton bs b ih =>
    rw [beValue_append_byte, List.length_append, List.length_singleton, pow_succ]
    have hb : b.toNat < 256 := b.toNat_lt_size
    have : (beValue bs + 1) * 256 ≤ 256 ^ bs.length * 256 := Nat.mul_le_mul_right _ ih
    omega

theorem beBytes_beValue (bs : List UInt8) : beBytes bs.length (beValue bs) = bs := by
  induction bs using List.reverseRecOn with
  | nil => rfl
  | append_singleton bs b ih =>
    have hb : b.toNat < 256 := b.toNat_lt_size
    have hdiv : (beValue bs * 256 + b.toNat) / 256 = beValue bs := by omega
    have hmod : UInt8.ofNat (beValue bs * 256 + b.toNat) = b := by
      rw [← byte_ofNat_toNat b]
      exact UInt8.toNat.inj (by rw [byte_toNat_ofNat, byte_toNat_ofNat]; omega)
    rw [List.length_append, List.length_singleton, beBytes, beValue_append_byte, hdiv, hmod, ih]

theorem beBytes_eq_of_mod {w m n : Nat} (h : m % 256 ^ w = n % 256 ^ w) :
    beBytes w m = beBytes w n := by
  induction w generalizing m n with
  | zero => rfl
  | succ w ih =>
    rw [pow_succ', Nat.mod_mul, Nat.mod_mul] at h
    have h256 : m % 256 = n % 256 := by omega
    have hdiv : m / 256 % 256 ^ w = n / 256 % 256 ^ w := by omega
    have hb : UInt8.ofNat m = UInt8.ofNat n :=
      UInt8.toNat.inj (by rw [byte_toNat_ofNat, byte_toNat_ofNat, h256])
    rw [beBytes, beBytes, ih hdiv, hb]

@[simp] theorem u16_toNat_ofNat (n : Nat) : (UInt16.ofNat n).toNat = n % 2 ^ 16 := by
  simp [UInt16.toNat, UInt16.ofNat]

@[simp] theorem u32_toNat_ofNat (n : Nat) : (UInt32.ofNat n).toNat = n % 2 ^ 32 := by
  simp [UInt32.toNat, UInt32.ofNat]

theorem u16_ofNat_toNat (x : UInt16) : UInt16.ofNat x.toNat = x :=
  UInt16.toNat.inj (by simp [UInt16.toNat, UInt16.ofNat])

theorem u32_ofNat_toNat (x : UInt32) : UInt32.ofNat x.toNat = x :=
  UInt32.toNat.inj (by simp [UInt32.toNat, UInt32.ofNat])

@[simp] theorem u32_toNat_add (a b : UInt32) : (a + b).toNat = (a.toNat + b.toNat) % 2 ^ 32 := by
  simp [UInt32.toNat, UInt32.add_def]

theorem u32_ofNat_add (a b : Nat) : UInt32.ofNat (a + b) = UInt32.ofNat a + UInt32.ofNat b :=
  UInt32.toNat.inj (by simp [Nat.add_mod])

@[simp] theorem u32_add_zero (a : UInt32) : a + 0 = a :=
  UInt32.toNat.inj (by simp [Nat.mod_eq_of_lt a.toNat_lt_size])

@[simp] theorem u32_zero_add (a : UInt32) : 0 + a = a :=
  UInt32.toNat.inj (by simp [Nat.mod_eq_of_lt a.toNat_lt_size])

theorem u32_add_assoc (a b c : UInt32) : a + b + c = a + (b + c) :=
  UInt32.toNat.inj (by simp only [u32_toNat_add]; omega)

@[simp] theorem u32_toNat_sub (a b : UInt32) :
    (a - b).toNat = (a.toNat + (2 ^ 32 - b.toNat)) % 2 ^ 32 := by
  simp [UInt32.toNat, UInt32.sub_def, BitVec.toNat_sub]
  omega

@[simp] theorem u16_toNat_toUInt32 (x : UInt16) : x.toUInt32.toNat = x.toNat := by
  simp [UInt16.toUInt32, UInt16.toNat, UInt32.toNat]

theorem u32_le_iff (a b : UInt32) : a ≤ b ↔ a.toNat ≤ b.toNat := by
  simp [UInt32.le_def, BitVec.le_def, UInt32.toNat]

theorem u32_lt_iff (a b : UInt32) : a < b ↔ a.toNat < b.toNat := Iff.rfl

theorem u16_lt_iff (a b : UInt16) : a < b ↔ a.toNat < b.toNat := by
  simp [UInt16.lt_def, BitVec.lt_def, UInt16.toNat]

/-- Modelled from the spec: `align_up` of `utils.h`, which src/ does not contain.
The least multiple of `alignment` that is at least `value`. -/
def alignUp (value alignment : Nat) : Nat :=
  (value + alignment - 1) / alignment * alignment

section Align

variable {v a : Nat}

theorem le_alignUp (ha : 0 < a) : v ≤ alignUp v a := by
  have := Nat.lt_div_mul_add (a := v + a - 1) ha
  unfold alignUp
  omega

theorem alignUp_lt (ha : 0 < a) : alignUp v a < v + a := by
  have := Nat.div_mul_le_self (v + a - 1) a
  unfold alignUp
  omega

theorem alignUp_mod : alignUp v a % a = 0 := Nat.mul_mod_left _ _

/-- `alignUp` is the least aligned value at or above `v`. -/
theorem alignUp_le {m : Nat} (ha : 0 < a) (hm : m % a = 0) (hv : v ≤ m) : alignUp v a ≤ m := by
  obtain ⟨k, rfl⟩ := Nat.dvd_of_mod_eq_zero hm
  have hq : (v + a - 1) / a < k + 1 := by
    rw [Nat.div_lt_iff_lt_mul ha, Nat.add_mul, Nat.one_mul, Nat.mul_comm k a]
    omega
  calc alignUp v a ≤ k * a := Nat.mul_le_mul_right _ (Nat.lt_succ_iff.mp hq)
    _ = a * k := Nat.mul_comm _ _

end Align

end Elf2Rpl
