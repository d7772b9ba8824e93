/-
**Octet strings: big-endian numbers and cyclic masks.**

Two codecs on lists of octets.  A number is written most significant octet first in a fixed width
(`Octets.toBytes`) and read back by weighting each octet with its place (`Octets.ofBytes`).  A
string is masked by combining octet `i` with octet `i % n` of a key (`Octets.xorCycle`); masking
twice with the same key gives the string back.

Main results:

* `Octets.ofBytes_toBytes` — reading back what was written gives the number modulo `256 ^ w`;
* `Octets.xorCycle_xorCycle` — **masking is an involution**.
-/

import Mathlib.Tactic

set_option relaxedAutoImplicit false
set_option autoImplicit false

namespace Octets

/-! ### Big-endian numbers -/

/-- The `w` least significant octets of `n`, most significant first. -/
def toBytes : ℕ → ℕ → List UInt8
  | 0, _ => []
  | w + 1, n => UInt8.ofNat (n / 256 ^ w) :: toBytes w n

/-- The number whose octets, most significant first, are the given ones. -/
def ofBytes : List UInt8 → ℕ
  | [] => 0
  | b :: bs => b.toNat * 256 ^ bs.length + ofBytes bs

@[simp] theorem length_toBytes (w n : ℕ) : (toBytes w n).length = w := by
  induction w with
  | zero => rfl
  | succ w ih => simp [toBytes, ih]

/-- **Reading back what was written.** -/
theorem ofBytes_toBytes (w n : ℕ) : ofBytes (toBytes w n) = n % 256 ^ w := by
  induction w with
  | zero => simp [toBytes, ofBytes, Nat.mod_one]
  | succ w ih =>
      have hb : (UInt8.ofNat (n / 256 ^ w)).toNat = n / 256 ^ w % 256 := by simp
      rw [toBytes, ofBytes, ih, length_toBytes, hb, Nat.mod_pow_succ]
      ring

theorem ofBytes_toBytes_of_lt {w n : ℕ} (h : n < 256 ^ w) : ofBytes (toBytes w n) = n := by
  rw [ofBytes_toBytes, Nat.mod_eq_of_lt h]

/-- The octets in front and those behind. -/
theorem toBytes_add (v w n : ℕ) : toBytes (v + w) n = toBytes v (n / 256 ^ w) ++ toBytes w n := by
  induction v with
  | zero => rw [Nat.zero_add, toBytes, List.nil_append]
  | succ v ih =>
      rw [Nat.add_right_comm, toBytes, ih, toBytes, List.cons_append, Nat.div_div_eq_div_mul,
        ← Nat.pow_add, Nat.add_comm w v]

/-! ### Cyclic masks -/

variable {n : ℕ} [NeZero n]

/-- Octet `i` of the string combined with octet `i % n` of the key. -/
def xorCycle (key : Fin n → UInt8) (xs : List UInt8) : List UInt8 :=
  xs.mapIdx fun i x => x ^^^ key (Fin.ofNat n i)

@[simp] theorem length_xorCycle (key : Fin n → UInt8) (xs : List UInt8) :
    (xorCycle key xs).length = xs.length := by
  simp [xorCycle]

/-- **Masking is an involution.** -/
@[simp] theorem xorCycle_xorCycle (key : Fin n → UInt8) (xs : List UInt8) :
    xorCycle key (xorCycle key xs) = xs := by
  refine List.ext_getElem (by simp) ?_
  intro i h₁ h₂
  simp only [xorCycle, List.getElem_mapIdx, UInt8.xor_assoc, UInt8.xor_self, UInt8.xor_zero]

end Octets
