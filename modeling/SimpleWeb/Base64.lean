/-
**Base64 (RFC 4648, section 4).**

Three octets are a number of 24 bits, which is four sextets, each written as a character of the
alphabet.  One or two octets at the end are padded with zeros to three, and the characters that hold
nothing but padding are written as `=`.

Main definitions:

* `Base64.group`, `Base64.sextet`, `Base64.octet` — the number of a group, and its parts;
* `Base64.digit`, `Base64.encode` — the alphabet, and the encoding.

Main results:

* `Base64.group_eq_sextets` — a group is the number its sextets make;
* `Base64.octet_group` — the octets of a group are those it was made of;
* `Base64.length_encode` — four characters for every three octets begun;
* `Base64.encode_append` — whole groups are encoded by themselves.
-/

import Mathlib.Tactic

set_option relaxedAutoImplicit false
set_option autoImplicit false

namespace Base64

/-! ### Groups of 24 bits -/

/-- The number made of three octets. -/
def group (a b c : UInt8) : ℕ := a.toNat * 2 ^ 16 + b.toNat * 2 ^ 8 + c.toNat

/-- Sextet `k` of a number, counted from the least significant. -/
def sextet (n k : ℕ) : ℕ := n / 64 ^ k % 64

/-- Octet `k` of a number, counted from the least significant. -/
def octet (n k : ℕ) : UInt8 := UInt8.ofNat (n / 256 ^ k)

theorem sextet_lt (n k : ℕ) : sextet n k < 64 := Nat.mod_lt _ (by omega)

theorem group_lt (a b c : UInt8) : group a b c < 2 ^ 24 := by
  have ha := a.toNat_lt
  have hb := b.toNat_lt
  have hc := c.toNat_lt
  unfold group
  omega

/-- **A group is the number its sextets make.** -/
theorem group_eq_sextets (a b c : UInt8) :
    sextet (group a b c) 3 * 2 ^ 18 + sextet (group a b c) 2 * 2 ^ 12 +
      sextet (group a b c) 1 * 2 ^ 6 + sextet (group a b c) 0 = group a b c := by
  have hlt := group_lt a b c
  simp only [sextet]
  omega

/-- **The octets of a group are those it was made of.** -/
theorem octet_group (a b c : UInt8) :
    octet (group a b c) 2 = a ∧ octet (group a b c) 1 = b ∧ octet (group a b c) 0 = c := by
  have ha := a.toNat_lt
  have hb := b.toNat_lt
  have hc := c.toNat_lt
  refine ⟨?_, ?_, ?_⟩
  · apply UInt8.toNat_inj.1
    simp only [octet, group, UInt8.toNat_ofNat']
    omega
  · apply UInt8.toNat_inj.1
    simp only [octet, group, UInt8.toNat_ofNat']
    omega
  · apply UInt8.toNat_inj.1
    simp only [octet, group, UInt8.toNat_ofNat']
    omega

/-! ### Encoding -/

/-- The characters of the alphabet, in order of their values. -/
def alphabet : List UInt8 :=
  "ABCDEFGHIJKLMNOPQRSTUVWXYZabcdefghijklmnopqrstuvwxyz0123456789+/".toList.map fun c =>
    UInt8.ofNat c.toNat

/-- The character with a given value below 64. -/
def digit (v : ℕ) : UInt8 := alphabet.getD v 0

/-- The character `=`. -/
def pad : UInt8 := 61

def encode : List UInt8 → List UInt8
  | [] => []
  | [a] => [digit (sextet (group a 0 0) 3), digit (sextet (group a 0 0) 2), pad, pad]
  | [a, b] =>
      [digit (sextet (group a b 0) 3), digit (sextet (group a b 0) 2),
        digit (sextet (group a b 0) 1), pad]
  | a :: b :: c :: rest =>
      digit (sextet (group a b c) 3) :: digit (sextet (group a b c) 2) ::
        digit (sextet (group a b c) 1) :: digit (sextet (group a b c) 0) :: encode rest

/-- **Four characters for every three octets begun.** -/
theorem length_encode (xs : List UInt8) : (encode xs).length = 4 * ((xs.length + 2) / 3) := by
  induction xs using encode.induct with
  | case1 => simp [encode]
  | case2 a => simp [encode]
  | case3 a b => simp [encode]
  | case4 a b c rest ih =>
      simp only [encode, List.length_cons, ih]
      omega

/-- Whole groups are encoded by themselves. -/
theorem encode_append (xs : List UInt8) : xs.length % 3 = 0 →
    ∀ ys, encode (xs ++ ys) = encode xs ++ encode ys := by
  induction xs using encode.induct with
  | case1 => intro _ ys; simp [encode]
  | case2 a => intro h; simp at h
  | case3 a b => intro h; simp at h
  | case4 a b c rest ih =>
      intro h ys
      have hrest : rest.length % 3 = 0 := by
        simp only [List.length_cons] at h
        omega
      simp only [List.cons_append, encode, ih hrest ys]

theorem digit_ne_pad {v : ℕ} (hv : v < 64) : digit v ≠ pad := by
  have hall : ∀ v < 64, digit v ≠ pad := by decide +kernel
  exact hall v hv

/-- The encoding of whole groups consists of characters of the alphabet. -/
theorem mem_encode_whole {xs : List UInt8} {c : UInt8} (hlen : xs.length % 3 = 0)
    (h : c ∈ encode xs) : ∃ v < 64, c = digit v := by
  induction xs using encode.induct with
  | case1 => simp [encode] at h
  | case2 a => simp at hlen
  | case3 a b => simp at hlen
  | case4 a b c' rest ih =>
      have hrest : rest.length % 3 = 0 := by
        simp only [List.length_cons] at hlen
        omega
      simp only [encode, List.mem_cons] at h
      rcases h with rfl | rfl | rfl | rfl | h
      · exact ⟨_, sextet_lt _ _, rfl⟩
      · exact ⟨_, sextet_lt _ _, rfl⟩
      · exact ⟨_, sextet_lt _ _, rfl⟩
      · exact ⟨_, sextet_lt _ _, rfl⟩
      · exact ih hrest h

/-- The encoding consists of characters of the alphabet and of `=`. -/
theorem mem_encode {xs : List UInt8} {c : UInt8} (h : c ∈ encode xs) :
    c = pad ∨ ∃ v < 64, c = digit v := by
  induction xs using encode.induct with
  | case1 => simp [encode] at h
  | case2 a =>
      simp only [encode, List.mem_cons, List.not_mem_nil, or_false] at h
      rcases h with rfl | rfl | rfl | rfl
      · exact Or.inr ⟨_, sextet_lt _ _, rfl⟩
      · exact Or.inr ⟨_, sextet_lt _ _, rfl⟩
      · exact Or.inl rfl
      · exact Or.inl rfl
  | case3 a b =>
      simp only [encode, List.mem_cons, List.not_mem_nil, or_false] at h
      rcases h with rfl | rfl | rfl | rfl
      · exact Or.inr ⟨_, sextet_lt _ _, rfl⟩
      · exact Or.inr ⟨_, sextet_lt _ _, rfl⟩
      · exact Or.inr ⟨_, sextet_lt _ _, rfl⟩
      · exact Or.inl rfl
  | case4 a b c' rest ih =>
      simp only [encode, List.mem_cons] at h
      rcases h with rfl | rfl | rfl | rfl | h
      · exact Or.inr ⟨_, sextet_lt _ _, rfl⟩
      · exact Or.inr ⟨_, sextet_lt _ _, rfl⟩
      · exact Or.inr ⟨_, sextet_lt _ _, rfl⟩
      · exact Or.inr ⟨_, sextet_lt _ _, rfl⟩
      · exact ih h

end Base64
