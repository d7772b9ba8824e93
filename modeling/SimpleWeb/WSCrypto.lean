/-
**Base64 and SHA-1 as the library computes them.**

A model of `common/WSCrypto.cpp`.  `base64_encode` and `base64_decode` are compared with the
encoding of `Base64`: what is encoded is the RFC 4648 encoding, and decoding it gives the bytes back.
`base64_decode` indexes its argument and its result; an index out of bounds is a fault.  `calcSha1`
is modelled as it is computed; the handshake takes the digest function as a parameter.

Main definitions:

* `SimpleWeb.base64Encode`, `SimpleWeb.base64Decode` — the two codecs;
* `SimpleWeb.Digest`, `SimpleWeb.calcSha1` — the hash.

Main results:

* `SimpleWeb.base64Encode_eq` — **encoding is RFC 4648**;
* `SimpleWeb.base64Decode_encode` — **decoding undoes it**.
-/

import SimpleWeb.Base64
import SimpleWeb.Strings

set_option relaxedAutoImplicit false
set_option autoImplicit false

namespace SimpleWeb

/-! ### Encoding -/

/-- `base64_table`. -/
def base64Table : Bytes := ascii "ABCDEFGHIJKLMNOPQRSTUVWXYZabcdefghijklmnopqrstuvwxyz0123456789+/"

def base64Char (i : UInt8) : UInt8 := base64Table.getD i.toNat 0

/-- What is written through `pos`: four characters for three bytes, and the padded rest. -/
def encodeBytes : Bytes → Bytes
  | [] => []
  | [a] => [base64Char (a >>> 2), base64Char ((a &&& 0x03) <<< 4), 61, 61]
  | [a, b] =>
      [base64Char (a >>> 2), base64Char (((a &&& 0x03) <<< 4) ||| (b >>> 4)),
        base64Char ((b &&& 0x0f) <<< 2), 61]
  | a :: b :: c :: rest =>
      base64Char (a >>> 2) :: base64Char (((a &&& 0x03) <<< 4) ||| (b >>> 4)) ::
        base64Char (((b &&& 0x0f) <<< 2) ||| (c >>> 6)) :: base64Char (c &&& 0x3f) ::
          encodeBytes rest

/-- The result is a string of `olen` NULs, written over from its beginning. -/
def base64Encode (src : Bytes) (len : UInt32) : Bytes :=
  let olen : UInt32 := 4 * ((len + 2) / 3)
  if olen < len then []
  else
    let written := encodeBytes (src.take len.toNat)
    written ++ List.replicate (olen.toNat - written.length) 0

theorem base64Char_eq (i : UInt8) : base64Char i = Base64.digit i.toNat := rfl

/-- Bits shifted past those of another byte. -/
theorem toNat_shiftLeft_or {x y : UInt8} {k : ℕ} (hk : k < 8) (hx : x.toNat * 2 ^ k < 256)
    (hy : y.toNat < 2 ^ k) : (x <<< UInt8.ofNat k ||| y).toNat = x.toNat * 2 ^ k + y.toNat := by
  have hmod : k % 256 % 8 = k := by omega
  simp only [UInt8.toNat_or, UInt8.toNat_shiftLeft, UInt8.toNat_ofNat', hmod]
  rw [← Nat.shiftLeft_eq] at hx ⊢
  rw [Nat.shiftLeft_add_eq_or_of_lt hy, Nat.mod_eq_of_lt hx]

theorem toNat_shiftRight {x : UInt8} {k : ℕ} (hk : k < 8) :
    (x >>> UInt8.ofNat k).toNat = x.toNat / 2 ^ k := by
  have hmod : k % 256 % 8 = k := by omega
  simp only [UInt8.toNat_shiftRight, UInt8.toNat_ofNat', hmod, Nat.shiftRight_eq_div_pow]

theorem toNat_and_mask {x : UInt8} {k : ℕ} (hk : k ≤ 8) :
    (x &&& UInt8.ofNat (2 ^ k - 1)).toNat = x.toNat % 2 ^ k := by
  have hlt : 2 ^ k - 1 < 256 := by
    have hle : 2 ^ k ≤ 2 ^ 8 := Nat.pow_le_pow_right (by omega) hk
    omega
  rw [UInt8.toNat_and, UInt8.toNat_ofNat', Nat.mod_eq_of_lt hlt, Nat.and_two_pow_sub_one_eq_mod]

section sextets

variable (a b c : UInt8)

/-- The four indices are the sextets of the group. -/
theorem base64Char_sextet₃ :
    base64Char (a >>> 2) = Base64.digit (Base64.sextet (Base64.group a b c) 3) := by
  have ha := a.toNat_lt
  have hb := b.toNat_lt
  have hc := c.toNat_lt
  have hshift : (a >>> 2).toNat = a.toNat / 2 ^ 2 := @toNat_shiftRight a 2 (by omega)
  rw [base64Char_eq, hshift]
  congr 1
  simp only [Base64.sextet, Base64.group]
  omega

theorem base64Char_sextet₂ :
    base64Char (((a &&& 0x03) <<< 4) ||| (b >>> 4)) =
      Base64.digit (Base64.sextet (Base64.group a b c) 2) := by
  have ha := a.toNat_lt
  have hb := b.toNat_lt
  have hc := c.toNat_lt
  have hand : (a &&& 0x03).toNat = a.toNat % 2 ^ 2 := @toNat_and_mask a 2 (by omega)
  have hshift : (b >>> 4).toNat = b.toNat / 2 ^ 4 := @toNat_shiftRight b 4 (by omega)
  have hor : (((a &&& 0x03) <<< 4) ||| (b >>> 4)).toNat =
      (a &&& 0x03).toNat * 2 ^ 4 + (b >>> 4).toNat :=
    @toNat_shiftLeft_or (a &&& 0x03) (b >>> 4) 4 (by omega) (by omega) (by omega)
  rw [base64Char_eq, hor, hand, hshift]
  congr 1
  simp only [Base64.sextet, Base64.group]
  omega

theorem base64Char_sextet₁ :
    base64Char (((b &&& 0x0f) <<< 2) ||| (c >>> 6)) =
      Base64.digit (Base64.sextet (Base64.group a b c) 1) := by
  have ha := a.toNat_lt
  have hb := b.toNat_lt
  have hc := c.toNat_lt
  have hand : (b &&& 0x0f).toNat = b.toNat % 2 ^ 4 := @toNat_and_mask b 4 (by omega)
  have hshift : (c >>> 6).toNat = c.toNat / 2 ^ 6 := @toNat_shiftRight c 6 (by omega)
  have hor : (((b &&& 0x0f) <<< 2) ||| (c >>> 6)).toNat =
      (b &&& 0x0f).toNat * 2 ^ 2 + (c >>> 6).toNat :=
    @toNat_shiftLeft_or (b &&& 0x0f) (c >>> 6) 2 (by omega) (by omega) (by omega)
  rw [base64Char_eq, hor, hand, hshift]
  congr 1
  simp only [Base64.sextet, Base64.group]
  omega

theorem base64Char_sextet₀ :
    base64Char (c &&& 0x3f) = Base64.digit (Base64.sextet (Base64.group a b c) 0) := by
  have hc := c.toNat_lt
  have hand : (c &&& 0x3f).toNat = c.toNat % 2 ^ 6 := @toNat_and_mask c 6 (by omega)
  rw [base64Char_eq, hand]
  congr 1
  simp only [Base64.sextet, Base64.group]
  omega

end sextets

/-- The characters written are those of the encoding. -/
theorem encodeBytes_eq (xs : Bytes) : encodeBytes xs = Base64.encode xs := by
  have hzero : ∀ k : UInt8, k < 8 → ∀ x : UInt8, x ||| ((0 : UInt8) >>> k) = x := by
    intro k _ x
    simp
  induction xs using encodeBytes.induct with
  | case1 => simp [encodeBytes, Base64.encode]
  | case2 a =>
      have h₂ := base64Char_sextet₂ a 0 0
      rw [hzero 4 (by decide)] at h₂
      simp only [encodeBytes, Base64.encode, base64Char_sextet₃ a 0 0, h₂]
      rfl
  | case3 a b =>
      have h₁ := base64Char_sextet₁ a b 0
      rw [hzero 6 (by decide)] at h₁
      simp only [encodeBytes, Base64.encode, base64Char_sextet₃ a b 0, base64Char_sextet₂ a b 0, h₁]
      rfl
  | case4 a b c rest ih =>
      simp only [encodeBytes, Base64.encode, base64Char_sextet₃ a b c, base64Char_sextet₂ a b c,
        base64Char_sextet₁ a b c, base64Char_sextet₀ a b c, ih]

/-- **Encoding is RFC 4648**, and fills the string it is written to. -/
theorem base64Encode_eq {src : Bytes} (h : src.length < 2 ^ 30) :
    base64Encode src (UInt32.ofNat src.length) = Base64.encode src := by
  have hlen : (UInt32.ofNat src.length).toNat = src.length :=
    UInt32.toNat_ofNat_of_lt' (by simp only [UInt32.size]; omega)
  have holen : (4 * ((UInt32.ofNat src.length + 2) / 3)).toNat = 4 * ((src.length + 2) / 3) := by
    rw [UInt32.toNat_mul, UInt32.toNat_div, UInt32.toNat_add, hlen]
    simp only [UInt32.reduceToNat]
    omega
  have hguard : ¬ 4 * ((UInt32.ofNat src.length + 2) / 3) < UInt32.ofNat src.length := by
    rw [UInt32.lt_iff_toNat_lt, holen, hlen]
    omega
  simp only [base64Encode, if_neg hguard, hlen, holen, List.take_length, encodeBytes_eq,
    Base64.length_encode, Nat.sub_self, List.replicate_zero, List.append_nil]

/-! ### Decoding -/

/-- `B64index`; the elements that are not listed are zero. -/
def B64index : List ℕ := [
    0, 0, 0, 0, 0, 0, 0, 0, 0, 0, 0, 0, 0, 0, 0, 0,
    0, 0, 0, 0, 0, 0, 0, 0, 0, 0, 0, 0, 0, 0, 0, 0,
    0, 0, 0, 0, 0, 0, 0, 0, 0, 0, 0, 62, 63, 62, 62, 63,
    52, 53, 54, 55, 56, 57, 58, 59, 60, 61, 0, 0, 0, 0, 0, 0,
    0, 0, 1, 2, 3, 4, 5, 6, 7, 8, 9, 10, 11, 12, 13, 14,
    15, 16, 17, 18, 19, 20, 21, 22, 23, 24, 25, 0, 0, 0, 0, 63,
    0, 26, 27, 28, 29, 30, 31, 32, 33, 34, 35, 36, 37, 38, 39, 40,
    41, 42, 43, 44, 45, 46, 47, 48, 49, 50, 51]

/-- `(int)n` for an `n` of type `std::size_t`. -/
def toInt32 (n : ℕ) : ℤ := (n : ℤ).bmod (2 ^ 32)

/-- `p[i]`, `p` pointing at a NUL-terminated string. -/
def readAt (data : Bytes) (i : ℕ) : Except Fault UInt8 :=
  if i ≤ data.length then .ok (data.getD i 0) else .error .badIndex

/-- `B64index[p[i]]`. -/
def indexAt (data : Bytes) (i : ℕ) : Except Fault ℕ :=
  if i ≤ data.length then .ok (B64index.getD (data.getD i 0).toNat 0) else .error .badIndex

/-- `str[j] = value`. -/
def put (str : Bytes) (j value : ℕ) : Except Fault Bytes :=
  if j < str.length then .ok (str.set j (UInt8.ofNat value)) else .error .badIndex

/-- The loop over `groups` groups of four characters, from index `i` on. -/
def decodeLoop (data : Bytes) : ℕ → ℕ → ℕ → Bytes → Except Fault Bytes
  | 0, _, _, str => .ok str
  | groups + 1, i, j, str => do
      let v₀ ← indexAt data i
      let v₁ ← indexAt data (i + 1)
      let v₂ ← indexAt data (i + 2)
      let v₃ ← indexAt data (i + 3)
      let n := v₀ <<< 18 ||| v₁ <<< 12 ||| v₂ <<< 6 ||| v₃
      let str ← put str j (n >>> 16)
      let str ← put str (j + 1) (n >>> 8 &&& 0xff)
      let str ← put str (j + 2) (n &&& 0xff)
      decodeLoop data groups (i + 4) (j + 3) str

/-- The group that is padded or not complete. -/
def decodeRest (data : Bytes) (len L : ℕ) (str : Bytes) : Except Fault Bytes := do
  let v₀ ← indexAt data L
  let v₁ ← indexAt data (L + 1)
  let n := v₀ <<< 18 ||| v₁ <<< 12
  let str ← put str (sizeSub str.length 1) (n >>> 16)
  if len > L + 2 then
    let third ← readAt data (L + 2)
    if third ≠ 61 then
      let v₂ ← indexAt data (L + 2)
      let n := n ||| v₂ <<< 6
      return str ++ [UInt8.ofNat (n >>> 8 &&& 0xff)]
    else return str
  else return str

/-- The greatest size of a `std::string`. -/
def maxSize : ℕ := 2 ^ 63 - 1

/-- `pad`: whether there is a group that is padded or not complete. -/
def decodePad (data : Bytes) (len : ℤ) : Except Fault ℕ :=
  if len > 0 then
    if len.tmod 4 ≠ 0 then .ok 1
    else do
      let last ← readAt data (len - 1).toNat
      return if last = 61 then 1 else 0
  else .ok 0

/-- What `L` is set to, an `int`. -/
def decodeLength (len : ℤ) (pad : ℕ) : ℤ := ((len + 3).tdiv 4 - pad) * 4

/-- `base64_decode`.  `len` is an `int`, and `L` is computed from it and converted to
`std::size_t`. -/
def base64Decode (data : Bytes) : Except Fault Bytes :=
  let len := toInt32 data.length
  if len + 3 ≥ 2 ^ 31 then .error .overflow
  else do
    let pad ← decodePad data len
    let L : ℕ := (decodeLength len pad % 2 ^ 64).toNat
    let size := L / 4 * 3 + pad
    if size > maxSize then .error .lengthError
    else
      let str ← decodeLoop data (L / 4) 0 0 (List.replicate size 0)
      if pad = 1 then decodeRest data len.toNat L str else return str

/-! #### The characters of an encoding -/

/-- `B64index` undoes the alphabet. -/
theorem B64index_digit {v : ℕ} (hv : v < 64) : B64index.getD (Base64.digit v).toNat 0 = v := by
  have hall : ∀ v < 64, B64index.getD (Base64.digit v).toNat 0 = v := by decide +kernel
  exact hall v hv

theorem indexAt_digit {data : Bytes} {i v : ℕ} (h : data[i]? = some (Base64.digit v))
    (hv : v < 64) : indexAt data i = .ok v := by
  obtain ⟨hi, -⟩ := List.getElem?_eq_some_iff.1 h
  have hget : data.getD i 0 = Base64.digit v := by
    rw [List.getD_eq_getElem?_getD, h]
    rfl
  rw [indexAt, if_pos hi.le, hget, B64index_digit hv]

theorem put_append (out rest : Bytes) (b : UInt8) (value : ℕ) {j : ℕ} (hj : j = out.length) :
    put (out ++ b :: rest) j value = .ok (out ++ UInt8.ofNat value :: rest) := by
  subst hj
  simp [put]

/-- Sextets put next to each other. -/
theorem or_sextets {v₀ v₁ v₂ v₃ : ℕ} (h₁ : v₁ < 64) (h₂ : v₂ < 64) (h₃ : v₃ < 64) :
    v₀ <<< 18 ||| v₁ <<< 12 ||| v₂ <<< 6 ||| v₃ =
      v₀ * 2 ^ 18 + v₁ * 2 ^ 12 + v₂ * 2 ^ 6 + v₃ := by
  have ha : v₀ <<< 18 ||| v₁ <<< 12 = (v₀ * 64 + v₁) <<< 12 := by
    rw [← Nat.shiftLeft_add_eq_or_of_lt (by rw [Nat.shiftLeft_eq]; omega)]
    simp only [Nat.shiftLeft_eq]
    omega
  have hb : (v₀ * 64 + v₁) <<< 12 ||| v₂ <<< 6 = ((v₀ * 64 + v₁) * 64 + v₂) <<< 6 := by
    rw [← Nat.shiftLeft_add_eq_or_of_lt (by rw [Nat.shiftLeft_eq]; omega)]
    simp only [Nat.shiftLeft_eq]
    omega
  rw [ha, hb, ← Nat.shiftLeft_add_eq_or_of_lt (by omega)]
  simp only [Nat.shiftLeft_eq]
  omega

/-- The octets stored for a group. -/
theorem stored_octets (n : ℕ) :
    UInt8.ofNat (n >>> 16) = Base64.octet n 2 ∧
      UInt8.ofNat (n >>> 8 &&& 0xff) = Base64.octet n 1 ∧
      UInt8.ofNat (n &&& 0xff) = Base64.octet n 0 := by
  have hmask : ∀ m : ℕ, m &&& 0xff = m % 256 := fun m => Nat.and_two_pow_sub_one_eq_mod m 8
  refine ⟨?_, ?_, ?_⟩
  · simp [Base64.octet, Nat.shiftRight_eq_div_pow]
  · apply UInt8.toNat_inj.1
    simp [Base64.octet, Nat.shiftRight_eq_div_pow, hmask]
  · apply UInt8.toNat_inj.1
    simp [Base64.octet, hmask]

/-! #### Whole groups -/

/-- The loop decodes the encoding of whole groups, wherever it stands. -/
theorem decodeLoop_encode (xs : Bytes) : xs.length % 3 = 0 → ∀ (before after out : Bytes) (m : ℕ),
    decodeLoop (before ++ (Base64.encode xs ++ after)) (xs.length / 3) before.length out.length
      (out ++ List.replicate (xs.length + m) 0) = .ok (out ++ xs ++ List.replicate m 0) := by
  induction xs using Base64.encode.induct with
  | case1 =>
      intro _ before after out m
      simp [decodeLoop]
  | case2 a => intro h; simp at h
  | case3 a b => intro h; simp at h
  | case4 a b c rest ih =>
      intro h before after out m
      have hrest : rest.length % 3 = 0 := by
        simp only [List.length_cons] at h
        omega
      have hgroups : (a :: b :: c :: rest).length / 3 = rest.length / 3 + 1 := by
        simp only [List.length_cons]
        omega
      obtain ⟨h₂, h₁, h₀⟩ := stored_octets (Base64.group a b c)
      obtain ⟨ha, hb, hc⟩ := Base64.octet_group a b c
      have hlt := Base64.sextet_lt (Base64.group a b c)
      have hread : ∀ k (v : ℕ), v < 64 →
          (before ++ (Base64.encode (a :: b :: c :: rest) ++ after))[before.length + k]? =
            some (Base64.digit v) →
          indexAt (before ++ (Base64.encode (a :: b :: c :: rest) ++ after)) (before.length + k) =
            .ok v := by
        intro k v hv hget
        exact indexAt_digit hget hv
      have hn : Base64.sextet (Base64.group a b c) 3 <<< 18 |||
          Base64.sextet (Base64.group a b c) 2 <<< 12 |||
          Base64.sextet (Base64.group a b c) 1 <<< 6 ||| Base64.sextet (Base64.group a b c) 0 =
            Base64.group a b c := by
        rw [or_sextets (hlt 2) (hlt 1) (hlt 0), Base64.group_eq_sextets]
      -- the twelve bytes of the group's four characters and three octets are dealt with
      have hfirst := hread 0 _ (hlt 3) (by simp [Base64.encode])
      have hsecond := hread 1 _ (hlt 2) (by simp [Base64.encode])
      have hthird := hread 2 _ (hlt 1) (by simp [Base64.encode])
      have hfourth := hread 3 _ (hlt 0) (by simp [Base64.encode])
      have hfill : List.replicate ((a :: b :: c :: rest).length + m) (0 : UInt8) =
          0 :: 0 :: 0 :: List.replicate (rest.length + m) 0 := by
        rw [show (a :: b :: c :: rest).length + m = rest.length + m + 1 + 1 + 1 by
          simp only [List.length_cons]; omega]
        rfl
      have hstore₂ := put_append out (0 :: 0 :: List.replicate (rest.length + m) 0) 0
        (Base64.group a b c >>> 16) rfl
      have hstore₁ := put_append (out ++ [a]) (0 :: List.replicate (rest.length + m) 0) 0
        (Base64.group a b c >>> 8 &&& 0xff) (show out.length + 1 = _ by simp)
      have hstore₀ := put_append (out ++ [a, b]) (List.replicate (rest.length + m) 0) 0
        (Base64.group a b c &&& 0xff) (show out.length + 2 = _ by simp)
      rw [h₂, ha] at hstore₂
      rw [h₁, hb] at hstore₁
      rw [h₀, hc] at hstore₀
      simp only [List.append_assoc, List.cons_append, List.nil_append] at hstore₁ hstore₀
      have hrec := ih hrest (before ++ [Base64.digit (Base64.sextet (Base64.group a b c) 3),
        Base64.digit (Base64.sextet (Base64.group a b c) 2),
        Base64.digit (Base64.sextet (Base64.group a b c) 1),
        Base64.digit (Base64.sextet (Base64.group a b c) 0)]) after (out ++ [a, b, c]) m
      simp only [List.append_assoc, List.cons_append, List.nil_append, List.length_append,
        List.length_cons, List.length_nil, Nat.zero_add] at hrec
      rw [hgroups, decodeLoop, hfill]
      simp only [Nat.add_zero] at hfirst
      simp only [hfirst, hsecond, hthird, hfourth, hn, hstore₂, hstore₁, hstore₀, ok_bind]
      simpa [Base64.encode] using hrec

/-! #### The padded group -/

theorem or_two {v₀ v₁ : ℕ} (h₁ : v₁ < 64) :
    v₀ <<< 18 ||| v₁ <<< 12 = v₀ * 2 ^ 18 + v₁ * 2 ^ 12 := by
  have h := @or_sextets v₀ v₁ 0 0 h₁ (by omega) (by omega)
  simpa using h

/-- One byte is left. -/
theorem decodeRest_one (before out : Bytes) (a : UInt8) :
    decodeRest (before ++ Base64.encode [a]) (before.length + 4) before.length (out ++ [0]) =
      .ok (out ++ [a]) := by
  have ha := a.toNat_lt
  have hlt := Base64.sextet_lt (Base64.group a 0 0)
  have hfirst : indexAt (before ++ Base64.encode [a]) before.length = .ok _ :=
    indexAt_digit (by simp [Base64.encode]) (hlt 3)
  have hsecond : indexAt (before ++ Base64.encode [a]) (before.length + 1) = .ok _ :=
    indexAt_digit (by simp [Base64.encode]) (hlt 2)
  have hpadding : (before ++ Base64.encode [a]).getD (before.length + 2) 0 = 61 := by
    simp [Base64.encode, Base64.pad]
  have hoctet : UInt8.ofNat ((Base64.sextet (Base64.group a 0 0) 3 <<< 18 |||
      Base64.sextet (Base64.group a 0 0) 2 <<< 12) >>> 16) = a := by
    apply UInt8.toNat_inj.1
    rw [or_two (hlt 2), UInt8.toNat_ofNat', Nat.shiftRight_eq_div_pow]
    simp only [Base64.sextet, Base64.group, UInt8.reduceToNat]
    omega
  have hlast : sizeSub (out ++ [0]).length 1 = out.length := by
    rw [sizeSub_of_le (by simp)]
    simp
  have hstore := put_append out [] 0 ((Base64.sextet (Base64.group a 0 0) 3 <<< 18 |||
    Base64.sextet (Base64.group a 0 0) 2 <<< 12) >>> 16) rfl
  rw [hoctet] at hstore
  have hthird : readAt (before ++ Base64.encode [a]) (before.length + 2) = .ok 61 := by
    rw [readAt, if_pos (by simp [Base64.encode]), hpadding]
  simp only [decodeRest, hfirst, hsecond, hlast, hstore, ok_bind]
  rw [if_pos (by omega), hthird]
  rfl

/-- Two bytes are left. -/
theorem decodeRest_two (before out : Bytes) (a b : UInt8) :
    decodeRest (before ++ Base64.encode [a, b]) (before.length + 4) before.length (out ++ [0]) =
      .ok (out ++ [a, b]) := by
  have ha := a.toNat_lt
  have hb := b.toNat_lt
  have hlt := Base64.sextet_lt (Base64.group a b 0)
  have hfirst : indexAt (before ++ Base64.encode [a, b]) before.length = .ok _ :=
    indexAt_digit (by simp [Base64.encode]) (hlt 3)
  have hsecond : indexAt (before ++ Base64.encode [a, b]) (before.length + 1) = .ok _ :=
    indexAt_digit (by simp [Base64.encode]) (hlt 2)
  have hchar : (before ++ Base64.encode [a, b])[before.length + 2]? =
      some (Base64.digit (Base64.sextet (Base64.group a b 0) 1)) := by
    simp [Base64.encode]
  have hthird : indexAt (before ++ Base64.encode [a, b]) (before.length + 2) = .ok _ :=
    indexAt_digit hchar (hlt 1)
  have hpadding : (before ++ Base64.encode [a, b]).getD (before.length + 2) 0 ≠ 61 := by
    rw [List.getD_eq_getElem?_getD, hchar, Option.getD_some]
    exact Base64.digit_ne_pad (hlt 1)
  have hoctet₁ : UInt8.ofNat ((Base64.sextet (Base64.group a b 0) 3 <<< 18 |||
      Base64.sextet (Base64.group a b 0) 2 <<< 12) >>> 16) = a := by
    apply UInt8.toNat_inj.1
    rw [or_two (hlt 2), UInt8.toNat_ofNat', Nat.shiftRight_eq_div_pow]
    simp only [Base64.sextet, Base64.group, UInt8.reduceToNat]
    omega
  have hoctet₂ : UInt8.ofNat ((Base64.sextet (Base64.group a b 0) 3 <<< 18 |||
      Base64.sextet (Base64.group a b 0) 2 <<< 12 |||
      Base64.sextet (Base64.group a b 0) 1 <<< 6) >>> 8 &&& 0xff) = b := by
    have hn := @or_sextets (Base64.sextet (Base64.group a b 0) 3) _ _ 0 (hlt 2) (hlt 1) (by omega)
    rw [Nat.or_zero] at hn
    have hmask : ∀ m : ℕ, m &&& 0xff = m % 256 := fun m => Nat.and_two_pow_sub_one_eq_mod m 8
    apply UInt8.toNat_inj.1
    rw [hn, UInt8.toNat_ofNat', hmask, Nat.shiftRight_eq_div_pow]
    simp only [Base64.sextet, Base64.group, UInt8.reduceToNat]
    omega
  have hlast : sizeSub (out ++ [0]).length 1 = out.length := by
    rw [sizeSub_of_le (by simp)]
    simp
  have hstore := put_append out [] 0 ((Base64.sextet (Base64.group a b 0) 3 <<< 18 |||
    Base64.sextet (Base64.group a b 0) 2 <<< 12) >>> 16) rfl
  rw [hoctet₁] at hstore
  have hread : readAt (before ++ Base64.encode [a, b]) (before.length + 2) = .ok _ :=
    if_pos (by simp [Base64.encode])
  simp only [decodeRest, hfirst, hsecond, hlast, hstore, ok_bind]
  rw [if_pos (by omega), hread, ok_bind, if_pos hpadding]
  simp only [hthird, ok_bind, pure_eq_ok, hoctet₂, List.append_assoc, List.cons_append,
    List.nil_append]

/-! #### The whole -/

theorem toInt32_eq {n : ℕ} (h : n < 2 ^ 31) : toInt32 n = n := by
  unfold toInt32 Int.bmod
  have hmod : (n : ℤ) % ((2 ^ 32 : ℕ) : ℤ) = n := by omega
  simp only [hmod]
  rw [if_pos (by omega)]

/-- For whole groups of characters, the last of them padded or not. -/
theorem base64Decode_groups {data : Bytes} {q : ℕ} (hlen : data.length = 4 * q) (hq : q < 2 ^ 29 - 1)
    {pad : ℕ} (hpad : pad = if 0 < q ∧ data.getD (4 * q - 1) 0 = 61 then 1 else 0) :
    base64Decode data = (do
      let str ← decodeLoop data (q - pad) 0 0 (List.replicate ((q - pad) * 3 + pad) 0)
      if pad = 1 then decodeRest data (4 * q) ((q - pad) * 4) str else return str) := by
  have hint : toInt32 data.length = ((4 * q : ℕ) : ℤ) := by
    rw [hlen, toInt32_eq (by omega)]
  have hle : pad ≤ q := by
    rw [hpad]
    split <;> omega
  have hle1 : pad ≤ 1 := by
    rw [hpad]
    split <;> omega
  have hdiv : (((4 * q : ℕ) : ℤ) + 3).tdiv 4 = q := by
    rw [Int.tdiv_eq_ediv_of_nonneg (by omega)]
    omega
  have hread : 0 < q → readAt data (((4 * q : ℕ) : ℤ) - 1).toNat = .ok (data.getD (4 * q - 1) 0) := by
    intro hpos
    have hidx : (((4 * q : ℕ) : ℤ) - 1).toNat = 4 * q - 1 := by omega
    rw [hidx, readAt, if_pos (by omega)]
  have hpadOut : decodePad data ((4 * q : ℕ) : ℤ) = .ok pad := by
    rw [decodePad, hpad]
    by_cases hpos : 0 < q
    · rw [if_pos (by omega), if_neg (by simp), hread hpos, ok_bind]
      simp [hpos]
    · rw [if_neg (by omega), if_neg (by simp [hpos])]
  have hL : (decodeLength ((4 * q : ℕ) : ℤ) pad % 2 ^ 64).toNat = (q - pad) * 4 := by
    rw [decodeLength, hdiv]
    omega
  simp only [base64Decode, hint, hpadOut, hL, ok_bind]
  rw [if_neg (by omega), Nat.mul_div_cancel _ (by omega), if_neg (by simp only [maxSize]; omega)]
  rfl

/-- Whole groups, with nothing behind them. -/
theorem base64Decode_whole {xs : Bytes} (hxs : xs.length % 3 = 0) (h : xs.length < 2 ^ 30) :
    base64Decode (Base64.encode xs) = .ok xs := by
  have hlen := Base64.length_encode xs
  have hlen' : (Base64.encode xs).length = 4 * (xs.length / 3) := by omega
  have hpad : 0 = if 0 < xs.length / 3 ∧
      (Base64.encode xs).getD (4 * (xs.length / 3) - 1) 0 = 61 then 1 else 0 := by
    rw [if_neg]
    rintro ⟨hpos, hlast⟩
    have hmem : (61 : UInt8) ∈ Base64.encode xs := by
      rw [← hlast, List.getD_eq_getElem _ _ (by omega)]
      exact List.getElem_mem _
    obtain ⟨v, hv, heq⟩ := Base64.mem_encode_whole hxs hmem
    exact Base64.digit_ne_pad hv heq.symm
  have hloop := decodeLoop_encode xs hxs [] [] [] 0
  simp only [List.nil_append, List.append_nil, List.length_nil, Nat.add_zero,
    List.replicate_zero] at hloop
  rw [base64Decode_groups hlen' (by omega) hpad]
  simp only [Nat.sub_zero, Nat.add_zero, show xs.length / 3 * 3 = xs.length by omega, hloop,
    ok_bind]
  rfl

/-- Whole groups with a padded one behind them. -/
theorem base64Decode_padded {xs tail : Bytes} (hxs : xs.length % 3 = 0) (h : xs.length < 2 ^ 30)
    (htail : (Base64.encode tail).length = 4) (hlast : (Base64.encode tail)[3]? = some 61)
    (hrest : decodeRest (Base64.encode xs ++ Base64.encode tail) ((Base64.encode xs).length + 4)
      (Base64.encode xs).length (xs ++ [0]) = .ok (xs ++ tail)) :
    base64Decode (Base64.encode (xs ++ tail)) = .ok (xs ++ tail) := by
  have hlen := Base64.length_encode xs
  have hlen' : (Base64.encode xs).length = 4 * (xs.length / 3) := by omega
  have hdata : (Base64.encode (xs ++ tail)).length = 4 * (xs.length / 3 + 1) := by
    rw [Base64.encode_append xs hxs, List.length_append, hlen', htail]
    omega
  have hpad : 1 = if 0 < xs.length / 3 + 1 ∧
      (Base64.encode (xs ++ tail)).getD (4 * (xs.length / 3 + 1) - 1) 0 = 61 then 1 else 0 := by
    rw [if_pos]
    refine ⟨by omega, ?_⟩
    rw [Base64.encode_append xs hxs, List.getD_eq_getElem?_getD,
      List.getElem?_append_right (by omega),
      show 4 * (xs.length / 3 + 1) - 1 - (Base64.encode xs).length = 3 by omega, hlast]
    rfl
  have hloop := decodeLoop_encode xs hxs [] (Base64.encode tail) [] 1
  simp only [List.nil_append, List.length_nil] at hloop
  rw [hlen'] at hrest
  rw [base64Decode_groups hdata (by omega) hpad, Base64.encode_append xs hxs]
  simp only [Nat.add_sub_cancel, show xs.length / 3 * 3 = xs.length by omega, hloop, ok_bind]
  rw [if_pos trivial, show 4 * (xs.length / 3 + 1) = 4 * (xs.length / 3) + 4 by omega,
    show xs.length / 3 * 4 = 4 * (xs.length / 3) by omega]
  exact hrest

/-- **Decoding undoes the encoding**, whatever the number of bytes. -/
theorem base64Decode_encode {b : Bytes} (h : b.length < 2 ^ 30) :
    base64Decode (Base64.encode b) = .ok b := by
  obtain ⟨xs, tail, rfl, hxs, htail⟩ : ∃ xs tail, b = xs ++ tail ∧ xs.length % 3 = 0 ∧
      tail.length < 3 := by
    refine ⟨b.take (3 * (b.length / 3)), b.drop (3 * (b.length / 3)),
      (List.take_append_drop _ _).symm, ?_, ?_⟩
    · rw [List.length_take]
      omega
    · rw [List.length_drop]
      omega
  rw [List.length_append] at h
  have hshort : xs.length < 2 ^ 30 := by omega
  match tail, htail with
  | [], _ =>
      rw [List.append_nil]
      exact base64Decode_whole hxs hshort
  | [a], _ =>
      exact base64Decode_padded hxs hshort (by simp [Base64.encode])
        (by simp [Base64.encode, Base64.pad]) (decodeRest_one _ _ a)
  | [a, b], _ =>
      exact base64Decode_padded hxs hshort (by simp [Base64.encode])
        (by simp [Base64.encode, Base64.pad]) (decodeRest_two _ _ a b)

/-- Different bytes have different encodings. -/
theorem encode_inj {a b : Bytes} (ha : a.length < 2 ^ 30) (hb : b.length < 2 ^ 30) :
    Base64.encode a = Base64.encode b ↔ a = b := by
  constructor
  · intro h
    have hdecode := base64Decode_encode ha
    rw [h, base64Decode_encode hb] at hdecode
    exact (Except.ok.inj hdecode).symm
  · rintro rfl
    rfl

/-! ### SHA-1 -/

/-- The 20 bytes that `calcSha1` writes. -/
abbrev Digest := { hash : Bytes // hash.length = 20 }

def rol (value steps : UInt32) : UInt32 := (value <<< steps) ||| (value >>> (32 - steps))

/-- The variables of `innerHash`, and the array `result`. -/
structure HashState where
  a : UInt32
  b : UInt32
  c : UInt32
  d : UInt32
  e : UInt32

namespace HashState

def sha1Macro (s : HashState) (func val word : UInt32) : HashState :=
  ⟨rol s.a 5 + func + s.e + val + word, s.a, rol s.b 30, s.c, s.d⟩

/-- The function and the constant of a round. -/
def round (s : HashState) (round : ℕ) : UInt32 × UInt32 :=
  if round < 20 then ((s.b &&& s.c) ||| (~~~s.b &&& s.d), 0x5a827999)
  else if round < 40 then (s.b ^^^ s.c ^^^ s.d, 0x6ed9eba1)
  else if round < 60 then ((s.b &&& s.c) ||| (s.b &&& s.d) ||| (s.c &&& s.d), 0x8f1bbcdc)
  else (s.b ^^^ s.c ^^^ s.d, 0xca62c1d6)

def add (s t : HashState) : HashState := ⟨s.a + t.a, s.b + t.b, s.c + t.c, s.d + t.d, s.e + t.e⟩

def words (s : HashState) : List UInt32 := [s.a, s.b, s.c, s.d, s.e]

end HashState

/-- One round, with `w[round]` computed first from round 16 on. -/
def hashRound (p : HashState × List UInt32) (round : ℕ) : HashState × List UInt32 :=
  let at' := fun i => p.2.getD i 0
  let w :=
    if round < 16 then p.2
    else
      p.2.set round
        (rol (at' (round - 3) ^^^ at' (round - 8) ^^^ at' (round - 14) ^^^ at' (round - 16)) 1)
  let r := p.1.round round
  (p.1.sha1Macro r.1 r.2 (w.getD round 0), w)

def innerHash (result : HashState) (w : List UInt32) : HashState × List UInt32 :=
  let p := (List.range 80).foldl hashRound (result, w)
  (result.add p.1, p.2)

/-- `clearWBuffert`: the first 16 words are set to zero. -/
def clearWBuffert (buffert : List UInt32) : List UInt32 := List.replicate 16 0 ++ buffert.drop 16

/-- `w[i >> 2] |= byte << ((3 - (i & 3)) << 3)`. -/
def orByte (w : List UInt32) (i : ℕ) (byte : UInt8) : List UInt32 :=
  w.set (i / 4) (w.getD (i / 4) 0 ||| byte.toUInt32 <<< UInt32.ofNat ((3 - i % 4) * 8))

/-- The complete blocks of 64 bytes: what is left of the bytes, and the hash so far. -/
def hashBlocks : ℕ → Bytes → HashState × List UInt32 → Bytes × HashState × List UInt32
  | 0, src, p => (src, p)
  | blocks + 1, src, p =>
      let word := fun i => (List.range 4).foldl
        (fun (n : UInt32) k => n <<< 8 ||| (src.getD (4 * i + k) 0).toUInt32) 0
      let w := (List.range 16).map word ++ p.2.drop 16
      hashBlocks blocks (src.drop 64) (innerHash p.1 w)

/-- `calcSha1`. -/
def calcSha1 (src : Bytes) : Digest :=
  let start : HashState := ⟨0x67452301, 0xefcdab89, 0x98badcfe, 0x10325476, 0xc3d2e1f0⟩
  let (rest, result, w) := hashBlocks (src.length / 64) src (start, List.replicate 80 0)
  let w := (List.range rest.length).foldl (fun w i => orByte w i (rest.getD i 0)) (clearWBuffert w)
  let w := orByte w rest.length 0x80
  let (result, w) :=
    if rest.length ≥ 56 then
      let p := innerHash result w
      (p.1, clearWBuffert p.2)
    else (result, w)
  let w := w.set 15 (UInt32.ofNat src.length <<< 3)
  let result := (innerHash result w).1
  ⟨(List.range 20).map fun hashByte =>
    (result.words.getD (hashByte / 4) 0 >>> UInt32.ofNat ((3 - hashByte % 4) * 8)).toUInt8,
    by simp⟩

end SimpleWeb
