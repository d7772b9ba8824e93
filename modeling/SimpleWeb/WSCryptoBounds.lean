/-
**The codecs stay within their strings.**

`base64_encode` writes through a pointer into a string that it has made before, and `base64_decode`
indexes its argument and a string whose size it has computed from the length of the argument and from
its last character.  Both are taken here as far down as they can leave these strings: an access out
of bounds is a fault.

Main definitions:

* `SimpleWeb.EncodeState`, `SimpleWeb.encodeInto` — `base64_encode` with its pointers.

Main results:

* `SimpleWeb.encodeInto_eq` — the pointers write what `base64Encode` is, and end where the string
  ends;
* `SimpleWeb.base64_exact` — **encoding is RFC 4648, and decoding undoes it**;
* `SimpleWeb.base64Decode_inBounds` — **no string makes the decoder leave its bounds**.
-/

import SimpleWeb.WSCrypto

set_option relaxedAutoImplicit false
set_option autoImplicit false

namespace SimpleWeb

/-! ### Encoding through pointers -/

/-- The pointers `in` and `pos`, as offsets from `src` and from `out`, and the string that is written
to. -/
structure EncodeState where
  input : ℕ
  pos : ℕ
  outStr : Bytes

namespace EncodeState

/-- `in[k]`. -/
def read (src : Bytes) (s : EncodeState) (k : ℕ) : Except Fault UInt8 := charAt src (s.input + k)

/-- `*pos++ = c`. -/
def write (s : EncodeState) (c : UInt8) : Except Fault EncodeState :=
  if s.pos < s.outStr.length then .ok { s with pos := s.pos + 1, outStr := s.outStr.set s.pos c }
  else .error .badIndex

/-- `done` has been written, and `rest` is still to be written over. -/
def behind (input : ℕ) (done rest : Bytes) : EncodeState := ⟨input, done.length, done ++ rest⟩

@[simp] theorem write_behind (input : ℕ) (done rest : Bytes) (old c : UInt8) :
    (behind input done (old :: rest)).write c = .ok (behind input (done ++ [c]) rest) := by
  simp [write, behind]

end EncodeState

/-- The loop over the whole groups, up to the offset `last`.  Each takes bytes, which bounds the
fuel. -/
def encodeGroups (src : Bytes) (last : ℕ) : ℕ → EncodeState → Except Fault EncodeState
  | 0, s => .ok s
  | fuel + 1, s =>
      if last - s.input ≥ 3 then do
        let a ← s.read src 0
        let b ← s.read src 1
        let c ← s.read src 2
        let s ← s.write (base64Char (a >>> 2))
        let s ← s.write (base64Char (((a &&& 0x03) <<< 4) ||| (b >>> 4)))
        let s ← s.write (base64Char (((b &&& 0x0f) <<< 2) ||| (c >>> 6)))
        let s ← s.write (base64Char (c &&& 0x3f))
        encodeGroups src last fuel { s with input := s.input + 3 }
      else .ok s

/-- The padded group. -/
def encodeRest (src : Bytes) (last : ℕ) (s : EncodeState) : Except Fault EncodeState :=
  if last - s.input ≠ 0 then do
    let a ← s.read src 0
    let s ← s.write (base64Char (a >>> 2))
    if last - s.input = 1 then
      let s ← s.write (base64Char ((a &&& 0x03) <<< 4))
      let s ← s.write 61
      s.write 61
    else
      let b ← s.read src 1
      let s ← s.write (base64Char (((a &&& 0x03) <<< 4) ||| (b >>> 4)))
      let s ← s.write (base64Char ((b &&& 0x0f) <<< 2))
      s.write 61
  else .ok s

/-- `base64_encode`. -/
def encodeInto (src : Bytes) (len : UInt32) : Except Fault EncodeState :=
  let olen : UInt32 := 4 * ((len + 2) / 3)
  if olen < len then .ok ⟨0, 0, []⟩
  else do
    let s ← encodeGroups src len.toNat len.toNat ⟨0, 0, List.replicate olen.toNat 0⟩
    encodeRest src len.toNat s

/-- Fewer than three bytes are no whole group. -/
theorem encodeGroups_short {src : Bytes} {last : ℕ} {s : EncodeState} (h : last - s.input < 3)
    (fuel : ℕ) : encodeGroups src last fuel s = .ok s := by
  cases fuel with
  | zero => rfl
  | succ fuel => exact if_neg (by omega)

theorem length_encodeBytes (xs : Bytes) : (encodeBytes xs).length = 4 * ((xs.length + 2) / 3) := by
  rw [encodeBytes_eq, Base64.length_encode]

theorem exists_four {α : Type*} {l : List α} (h : 4 ≤ l.length) :
    ∃ a b c d rest, l = a :: b :: c :: d :: rest := by
  match l, h with
  | a :: b :: c :: d :: rest, _ => exact ⟨a, b, c, d, rest, rfl⟩

section pointers

variable {src before after : Bytes}

/-- A byte of what is still to be encoded. -/
theorem read_behind {done rest part after : Bytes} {a : UInt8} {k : ℕ}
    (hsrc : src = before ++ (part ++ a :: after)) (hk : k = part.length) :
    (EncodeState.behind before.length done rest).read src k = .ok a := by
  rw [← List.append_assoc] at hsrc
  exact charAt_of_eq hsrc (by simp [EncodeState.behind, hk])

/-- One byte is left. -/
theorem encodeRest_one {done rest : Bytes} {a : UInt8} (hsrc : src = before ++ a :: after)
    (hrest : rest.length = 4) :
    encodeRest src (before.length + 1) (.behind before.length done rest) =
      .ok (.behind before.length (done ++ encodeBytes [a]) []) := by
  obtain ⟨r₀, r₁, r₂, r₃, rest, rfl⟩ := exists_four hrest.ge
  obtain rfl : rest = [] := by simpa using hrest
  have ha := @read_behind src before done [r₀, r₁, r₂, r₃] [] after a 0 hsrc rfl
  rw [encodeRest, if_pos (by simp [EncodeState.behind]), ha]
  simp only [ok_bind, EncodeState.write_behind]
  rw [if_pos (by simp [EncodeState.behind])]
  simp [encodeBytes]

/-- Two bytes are left. -/
theorem encodeRest_two {done rest : Bytes} {a b : UInt8} (hsrc : src = before ++ a :: b :: after)
    (hrest : rest.length = 4) :
    encodeRest src (before.length + 2) (.behind before.length done rest) =
      .ok (.behind before.length (done ++ encodeBytes [a, b]) []) := by
  obtain ⟨r₀, r₁, r₂, r₃, rest, rfl⟩ := exists_four hrest.ge
  obtain rfl : rest = [] := by simpa using hrest
  have ha := @read_behind src before done [r₀, r₁, r₂, r₃] [] (b :: after) a 0 hsrc rfl
  have hb := @read_behind src before (done ++ [base64Char (a >>> 2)]) [r₁, r₂, r₃] [a] after b 1
    hsrc rfl
  rw [encodeRest, if_pos (by simp [EncodeState.behind]), ha]
  simp only [ok_bind, EncodeState.write_behind]
  rw [if_neg (by simp [EncodeState.behind]), hb]
  simp [encodeBytes]

/-- One turn of the loop. -/
theorem encodeGroups_group {done rest xs : Bytes} {a b c r₀ r₁ r₂ r₃ : UInt8} {last : ℕ}
    (hsrc : src = before ++ a :: b :: c :: (xs ++ after)) (hlast : before.length + 3 ≤ last)
    (fuel : ℕ) :
    encodeGroups src last (fuel + 1) (.behind before.length done (r₀ :: r₁ :: r₂ :: r₃ :: rest)) =
      encodeGroups src last fuel
        (.behind (before.length + 3) (done ++ encodeBytes [a, b, c]) rest) := by
  have ha := @read_behind src before done (r₀ :: r₁ :: r₂ :: r₃ :: rest) [] _ a 0 hsrc rfl
  have hb := @read_behind src before done (r₀ :: r₁ :: r₂ :: r₃ :: rest) [a] _ b 1 hsrc rfl
  have hc := @read_behind src before done (r₀ :: r₁ :: r₂ :: r₃ :: rest) [a, b] _ c 2 hsrc rfl
  have hthree : last - (EncodeState.behind before.length done (r₀ :: r₁ :: r₂ :: r₃ :: rest)).input ≥
      3 := by
    simp only [EncodeState.behind]
    omega
  rw [encodeGroups, if_pos hthree, ha, hb, hc]
  simp only [ok_bind, EncodeState.write_behind]
  simp [encodeBytes, EncodeState.behind]

/-- **The pointers write the encoding**, wherever they stand, if there is just enough room for it. -/
theorem encodeGroups_behind (xs : Bytes) : ∀ {before done rest : Bytes} {fuel last : ℕ},
    src = before ++ (xs ++ after) → last = before.length + xs.length → xs.length ≤ fuel →
    rest.length = (encodeBytes xs).length →
    ∃ input, (encodeGroups src last fuel (.behind before.length done rest) >>= encodeRest src last) =
      .ok (.behind input (done ++ encodeBytes xs) []) := by
  induction xs using encodeBytes.induct with
  | case1 =>
      intro before done rest fuel last hsrc hlast hfuel hrest
      obtain rfl : rest = [] := List.length_eq_zero_iff.1 hrest
      refine ⟨before.length, ?_⟩
      rw [encodeGroups_short (by simp [EncodeState.behind, hlast]), ok_bind, encodeRest,
        if_neg (by simp [EncodeState.behind, hlast])]
      simp [encodeBytes]
  | case2 a =>
      intro before done rest fuel last hsrc hlast hfuel hrest
      refine ⟨before.length, ?_⟩
      rw [encodeGroups_short (by simp [EncodeState.behind, hlast]), ok_bind, hlast]
      exact encodeRest_one hsrc hrest
  | case3 a b =>
      intro before done rest fuel last hsrc hlast hfuel hrest
      refine ⟨before.length, ?_⟩
      rw [encodeGroups_short (by simp [EncodeState.behind, hlast]), ok_bind, hlast]
      exact encodeRest_two hsrc hrest
  | case4 a b c xs ih =>
      intro before done rest fuel last hsrc hlast hfuel hrest
      have hroom : (encodeBytes (a :: b :: c :: xs)).length = (encodeBytes xs).length + 4 := by
        simp [encodeBytes]
      rw [hroom] at hrest
      obtain ⟨r₀, r₁, r₂, r₃, rest, rfl⟩ := exists_four (show 4 ≤ rest.length by omega)
      simp only [List.length_cons] at hlast hfuel hrest
      cases fuel with
      | zero => omega
      | succ fuel =>
          have hnext : src = (before ++ [a, b, c]) ++ (xs ++ after) := by simp [hsrc]
          have hbefore : (before ++ [a, b, c]).length = before.length + 3 := by simp
          obtain ⟨input, hrec⟩ := @ih (before ++ [a, b, c]) (done ++ encodeBytes [a, b, c]) rest fuel
            last hnext (by omega) (by omega) (by omega)
          refine ⟨input, ?_⟩
          rw [encodeGroups_group hsrc (by omega), ← hbefore, hrec]
          simp [encodeBytes]

end pointers

/-- The length that is computed is that of the encoding, unless the computation has wrapped and the
guard finds it. -/
theorem toNat_olen {len : UInt32} (h : ¬ 4 * ((len + 2) / 3) < len) :
    (4 * ((len + 2) / 3)).toNat = 4 * ((len.toNat + 2) / 3) := by
  have hlt := len.toNat_lt
  rw [UInt32.lt_iff_toNat_lt] at h
  rw [UInt32.toNat_mul, UInt32.toNat_div, UInt32.toNat_add] at h ⊢
  simp only [UInt32.reduceToNat] at h ⊢
  have hsum : len.toNat + 2 < 2 ^ 32 := by
    by_contra hwrap
    have hmod : (len.toNat + 2) % 2 ^ 32 < 2 := by omega
    omega
  rw [Nat.mod_eq_of_lt hsum] at h ⊢
  have hproduct : 4 * ((len.toNat + 2) / 3) < 2 ^ 32 := by
    by_contra hwrap
    have hmod : 4 * ((len.toNat + 2) / 3) % 2 ^ 32 = 4 * ((len.toNat + 2) / 3) - 2 ^ 32 := by omega
    omega
  exact Nat.mod_eq_of_lt hproduct

/-- **`base64_encode` writes its string from the beginning to the end**, and the string is what
`base64Encode` is. -/
theorem encodeInto_eq {src : Bytes} {len : UInt32} (h : len.toNat ≤ src.length) :
    ∃ s, encodeInto src len = .ok s ∧ s.outStr = base64Encode src len ∧ s.pos = s.outStr.length := by
  by_cases hguard : 4 * ((len + 2) / 3) < len
  · exact ⟨⟨0, 0, []⟩, by simp only [encodeInto, if_pos hguard], by
      simp only [base64Encode, if_pos hguard], rfl⟩
  · have hlen : (src.take len.toNat).length = len.toNat := List.length_take_of_le h
    have holen := toNat_olen hguard
    have hwritten : (encodeBytes (src.take len.toNat)).length = 4 * ((len.toNat + 2) / 3) := by
      rw [length_encodeBytes, hlen]
    have hsrc : src = [] ++ (src.take len.toNat ++ src.drop len.toNat) := by simp
    obtain ⟨input, hrun⟩ := @encodeGroups_behind src (src.drop len.toNat) (src.take len.toNat) [] []
      (List.replicate (4 * ((len.toNat + 2) / 3)) 0) len.toNat len.toNat hsrc (by simp [hlen]) hlen.le
      (by rw [List.length_replicate, hwritten])
    refine ⟨.behind input ([] ++ encodeBytes (src.take len.toNat)) [], ?_, ?_, ?_⟩
    · simp only [encodeInto, if_neg hguard, holen]
      exact hrun
    · simp [EncodeState.behind, base64Encode, hguard, holen, hwritten]
    · simp [EncodeState.behind]

/-- **Encoding is RFC 4648, and decoding undoes it**, for every string of less than `2 ^ 30` bytes: the
pointer ends where the string ends, and the decoder gives back every byte. -/
theorem base64_exact {b : Bytes} (h : b.length < 2 ^ 30) :
    ∃ s, encodeInto b (UInt32.ofNat b.length) = .ok s ∧
      s.outStr = base64Encode b (UInt32.ofNat b.length) ∧ s.outStr = Base64.encode b ∧
      s.outStr.length = 4 * ((b.length + 2) / 3) ∧ s.pos = s.outStr.length ∧
      base64Decode s.outStr = .ok b := by
  have hlen : (UInt32.ofNat b.length).toNat = b.length :=
    UInt32.toNat_ofNat_of_lt' (by simp only [UInt32.size]; omega)
  obtain ⟨s, hs, hout, hpos⟩ := @encodeInto_eq b (UInt32.ofNat b.length) hlen.le
  have hencode : s.outStr = Base64.encode b := by
    rw [hout, base64Encode_eq h]
  refine ⟨s, hs, hout, hencode, ?_, hpos, ?_⟩
  · rw [hencode, Base64.length_encode]
  · rw [hencode]
    exact base64Decode_encode h

/-- Two zeros, which need one character of padding. -/
theorem base64_exact_zeros :
    ∃ s, encodeInto [0, 0] 2 = .ok s ∧ s.outStr = base64Encode [0, 0] 2 ∧
      s.outStr = Base64.encode [0, 0] ∧ s.outStr.length = 4 ∧ s.pos = s.outStr.length ∧
      base64Decode s.outStr = .ok [0, 0] :=
  @base64_exact [0, 0] (by decide)

/-! ### Decoding within bounds -/

theorem exists_indexAt {data : Bytes} {i : ℕ} (h : i ≤ data.length) :
    ∃ v, indexAt data i = .ok v :=
  ⟨_, if_pos h⟩

theorem exists_put {str : Bytes} {j : ℕ} (h : j < str.length) (value : ℕ) :
    ∃ str', put str j value = .ok str' ∧ str'.length = str.length :=
  ⟨_, if_pos h, List.length_set⟩

/-- The loop reads characters only, and writes where there is room. -/
theorem exists_decodeLoop {data : Bytes} {groups i j : ℕ} {str : Bytes}
    (hread : i + 4 * groups ≤ data.length) (hwrite : j + 3 * groups ≤ str.length) :
    ∃ str', decodeLoop data groups i j str = .ok str' ∧ str'.length = str.length := by
  induction groups generalizing i j str with
  | zero => exact ⟨str, rfl, rfl⟩
  | succ groups ih =>
      obtain ⟨v₀, hv₀⟩ := @exists_indexAt data i (by omega)
      obtain ⟨v₁, hv₁⟩ := @exists_indexAt data (i + 1) (by omega)
      obtain ⟨v₂, hv₂⟩ := @exists_indexAt data (i + 2) (by omega)
      obtain ⟨v₃, hv₃⟩ := @exists_indexAt data (i + 3) (by omega)
      obtain ⟨str₁, hstr₁, hlen₁⟩ := @exists_put str j (by omega)
        ((v₀ <<< 18 ||| v₁ <<< 12 ||| v₂ <<< 6 ||| v₃) >>> 16)
      obtain ⟨str₂, hstr₂, hlen₂⟩ := @exists_put str₁ (j + 1) (by omega)
        ((v₀ <<< 18 ||| v₁ <<< 12 ||| v₂ <<< 6 ||| v₃) >>> 8 &&& 0xff)
      obtain ⟨str₃, hstr₃, hlen₃⟩ := @exists_put str₂ (j + 2) (by omega)
        ((v₀ <<< 18 ||| v₁ <<< 12 ||| v₂ <<< 6 ||| v₃) &&& 0xff)
      obtain ⟨str', hstr', hlen'⟩ := @ih (i + 4) (j + 3) str₃ (by omega) (by omega)
      refine ⟨str', ?_, by omega⟩
      simp only [decodeLoop, hv₀, hv₁, hv₂, hv₃, hstr₁, hstr₂, hstr₃, ok_bind, hstr']

/-- Behind the whole groups there is a character, and behind that another one or the terminating
NUL. -/
theorem exists_decodeRest {data : Bytes} {L : ℕ} {str : Bytes} (hread : L < data.length)
    (hwrite : str ≠ []) :
    ∃ result, decodeRest data data.length L str = .ok result ∧
      (result.length = str.length ∨ result.length = str.length + 1) := by
  have hpos := List.length_pos_iff.2 hwrite
  obtain ⟨v₀, hv₀⟩ := @exists_indexAt data L (by omega)
  obtain ⟨v₁, hv₁⟩ := @exists_indexAt data (L + 1) hread
  obtain ⟨str', hstr', hlen'⟩ := @exists_put str (sizeSub str.length 1)
    (by rw [sizeSub_of_le hpos]; omega) ((v₀ <<< 18 ||| v₁ <<< 12) >>> 16)
  simp only [decodeRest, hv₀, hv₁, hstr', ok_bind]
  by_cases hthird : data.length > L + 2
  · obtain ⟨v₂, hv₂⟩ := @exists_indexAt data (L + 2) hthird.le
    have hlast : readAt data (L + 2) = .ok _ := if_pos hthird.le
    rw [if_pos hthird, hlast, ok_bind]
    split
    · exact ⟨_, by rw [hv₂]; rfl, Or.inr (by simp [hlen'])⟩
    · exact ⟨str', rfl, Or.inl hlen'⟩
  · rw [if_neg hthird]
    exact ⟨str', rfl, Or.inl hlen'⟩

/-- **The pad flag is set if there is something behind the whole groups**, which a string without it
consists of. -/
theorem exists_decodePad (data : Bytes) :
    ∃ pad, decodePad data data.length = .ok pad ∧
      (pad = 0 ∧ data.length % 4 = 0 ∨ pad = 1 ∧ 0 < data.length) := by
  rw [decodePad]
  by_cases hpos : (data.length : ℤ) > 0
  · rw [if_pos hpos]
    by_cases hwhole : (data.length : ℤ).tmod 4 ≠ 0
    · rw [if_pos hwhole]
      exact ⟨1, rfl, Or.inr ⟨rfl, by omega⟩⟩
    · rw [if_neg hwhole]
      rw [Int.tmod_eq_emod_of_nonneg (by omega)] at hwhole
      have hread : readAt data ((data.length : ℤ) - 1).toNat = .ok _ := if_pos (by omega)
      rw [hread, ok_bind]
      split
      · exact ⟨1, rfl, Or.inr ⟨rfl, by omega⟩⟩
      · exact ⟨0, rfl, Or.inl ⟨rfl, by omega⟩⟩
  · rw [if_neg hpos]
    exact ⟨0, rfl, Or.inl ⟨rfl, by omega⟩⟩

/-- **No string makes the decoder leave its bounds.**  Every read and write of `base64Decode` that is
out of bounds is a fault, and there is none; `L` is not negative; and the result is as long as it was
made, or longer by one byte. -/
theorem base64Decode_inBounds {data : Bytes} (h : data.length < 2 ^ 31 - 4) :
    ∃ pad result, decodePad data data.length = .ok pad ∧ 0 ≤ decodeLength data.length pad ∧
      base64Decode data = .ok result ∧
      (result.length = (decodeLength data.length pad).toNat / 4 * 3 + pad ∨
        result.length = (decodeLength data.length pad).toNat / 4 * 3 + pad + 1) := by
  obtain ⟨pad, hpad, hcases⟩ := exists_decodePad data
  have hdiv : ((data.length : ℤ) + 3).tdiv 4 = ((data.length + 3) / 4 : ℕ) := by
    rw [Int.tdiv_eq_ediv_of_nonneg (by omega)]
    omega
  have hL : decodeLength data.length pad = (((data.length + 3) / 4 - pad) * 4 : ℕ) := by
    rw [decodeLength, hdiv]
    omega
  have hsize : (decodeLength data.length pad % 2 ^ 64).toNat = ((data.length + 3) / 4 - pad) * 4 := by
    rw [hL]
    omega
  obtain ⟨str, hstr, hlen⟩ := @exists_decodeLoop data ((data.length + 3) / 4 - pad) 0 0
    (List.replicate (((data.length + 3) / 4 - pad) * 3 + pad) 0) (by omega) (by simp; omega)
  rw [List.length_replicate] at hlen
  have hdecode : base64Decode data =
      if pad = 1 then decodeRest data data.length (((data.length + 3) / 4 - pad) * 4) str
      else .ok str := by
    simp only [base64Decode, toInt32_eq (show data.length < 2 ^ 31 by omega), hpad, ok_bind, hsize]
    rw [if_neg (by omega), Nat.mul_div_cancel _ (by omega), if_neg (by simp only [maxSize]; omega),
      hstr]
    rfl
  refine ⟨pad, ?_⟩
  rw [hL, Int.toNat_natCast, Nat.mul_div_cancel _ (by omega)]
  rcases hcases with ⟨rfl, -⟩ | ⟨rfl, hpos⟩
  · exact ⟨str, hpad, by omega, hdecode, Or.inl hlen⟩
  · obtain ⟨result, hresult, hlength⟩ := @exists_decodeRest data (((data.length + 3) / 4 - 1) * 4) str
      (by omega) (by rintro rfl; simp at hlen)
    refine ⟨result, hpad, by omega, hdecode.trans hresult, ?_⟩
    omega

/-- A string of padding only. -/
theorem base64Decode_inBounds_padding :
    ∃ pad result, decodePad [61, 61, 61, 61, 61] 5 = .ok pad ∧ 0 ≤ decodeLength 5 pad ∧
      base64Decode [61, 61, 61, 61, 61] = .ok result ∧
      (result.length = (decodeLength 5 pad).toNat / 4 * 3 + pad ∨
        result.length = (decodeLength 5 pad).toNat / 4 * 3 + pad + 1) :=
  @base64Decode_inBounds [61, 61, 61, 61, 61] (by decide)

end SimpleWeb
