/-
**The parsers that must not throw.**

`RequestMessage::parse`, `ResponseMessage::parse`, `HttpHeader::parse`, `QueryString::parse` and
`Percent::decode` are `noexcept`, and what they are given comes from the network.  In their models
every position is checked where it is used: a `substr` or a `compare` that starts behind the end of
its string, an index that is not below its size and the `back()` of an empty string are faults.

`Percent.decode` has no positions; the loop that it stands for is given here, with its positions, and
shown to compute the same.  The loops of the other parsers have fuel, and `skipSpaces_fuel_stable`,
`parseLines_fuel_stable` and `scanTarget_fuel_stable` say that it is never used up.

Main definitions:

* `SimpleWeb.Percent.decodeFrom` — the loop of `Percent::decode`.

Main results:

* `SimpleWeb.Percent.decodeFrom_eq` — the loop decodes what is behind its position;
* `SimpleWeb.parsers_noThrow` — **no input makes a parser throw**.
-/

import SimpleWeb.QueryString
import SimpleWeb.StartLine

set_option relaxedAutoImplicit false
set_option autoImplicit false

namespace SimpleWeb

/-! ### Percent-decoding by positions -/

namespace Percent

/-- The loop of `Percent::decode`, from position `i` on.  Each turn moves `i`, which bounds the
fuel. -/
def decodeFrom (value : Bytes) : ℕ → ℕ → Bytes → Except Fault Bytes
  | 0, _, result => .ok result
  | fuel + 1, i, result =>
      if i < value.length then do
        let chr ← charAt value i
        if chr = 37 ∧ i + 2 < value.length then
          let hex ← substr value (i + 1) 2
          decodeFrom value fuel (i + 3) (result ++ [UInt8.ofInt (strtol 16 hex)])
        else if chr = 43 then decodeFrom value fuel (i + 1) (result ++ [32])
        else decodeFrom value fuel (i + 1) (result ++ [chr])
      else .ok result

/-- A character that does not stand in front of two hexadecimal digits. -/
theorem decode_single {chr : UInt8} {rest : Bytes} (h : ¬ (chr = 37 ∧ 2 ≤ rest.length)) :
    decode (chr :: rest) = (if chr = 43 then 32 else chr) :: decode rest := by
  match rest, h with
  | [], _ | [_], _ => simp [decode]
  | _ :: _ :: _, h =>
      have hpercent : chr ≠ 37 := by simpa using h
      simp [decode, hpercent]

/-- **The loop decodes what is behind its position**, and adds it to the result. -/
theorem decodeFrom_eq {value before rest : Bytes} {fuel i : ℕ} (hvalue : value = before ++ rest)
    (hi : i = before.length) (hfuel : rest.length ≤ fuel) (result : Bytes) :
    decodeFrom value fuel i result = .ok (result ++ decode rest) := by
  induction fuel generalizing before rest i result with
  | zero =>
      obtain rfl : rest = [] := List.length_eq_zero_iff.1 (by omega)
      simp [decodeFrom, decode]
  | succ fuel ih =>
      cases rest with
      | nil =>
          rw [decodeFrom, if_neg (by simp [hvalue, hi])]
          simp [decode]
      | cons chr rest =>
          have hlt : i < value.length := by
            rw [hvalue, hi]
            simp
          have hmore : i + 2 < value.length ↔ 2 ≤ rest.length := by
            rw [hvalue, hi]
            simp only [List.length_append, List.length_cons]
            omega
          simp only [List.length_cons] at hfuel
          simp only [decodeFrom, if_pos hlt, charAt_of_eq hvalue hi, ok_bind, hmore]
          by_cases hhex : chr = 37 ∧ 2 ≤ rest.length
          · obtain ⟨rfl, hlen⟩ := hhex
            rw [if_pos ⟨rfl, hlen⟩]
            obtain ⟨hex₁, rest, rfl⟩ := List.exists_cons_of_length_pos (show 0 < rest.length by omega)
            obtain ⟨hex₂, rest, rfl⟩ := List.exists_cons_of_length_pos
              (show 0 < rest.length by simp only [List.length_cons] at hlen; omega)
            have hbehind : value = (before ++ [37]) ++ ([hex₁, hex₂] ++ rest) := by simp [hvalue]
            have hhex : substr value (i + 1) 2 = .ok [hex₁, hex₂] := by
              rw [hbehind]
              exact substr_append _ _ _ (by simp [hi]) rfl
            have hrec := @ih (before ++ [37, hex₁, hex₂]) rest (i + 3) (by simp [hvalue])
              (by simp [hi]) (by simp only [List.length_cons] at hfuel; omega)
            rw [hhex, ok_bind, hrec]
            simp [decode]
          · have hrec := @ih (before ++ [chr]) rest (i + 1) (by simp [hvalue]) (by simp [hi]) (by omega)
            rw [if_neg hhex, decode_single hhex, hrec, hrec]
            by_cases hplus : chr = 43
            · simp [hplus]
            · simp [hplus]

/-- The size of the value is enough fuel. -/
theorem decodeFrom_ok (value : Bytes) {fuel : ℕ} (hfuel : value.length ≤ fuel) :
    decodeFrom value fuel 0 [] = .ok (decode value) :=
  @decodeFrom_eq value [] value fuel 0 rfl rfl hfuel []

end Percent

/-! ### The parsers -/

/-- No stream makes the request parser fault. -/
theorem RequestMessage.parse_ok (stream : Bytes) (out : RequestMessage) :
    ∃ success out' rest, parse stream out = .ok (success, out', rest) := by
  cases hline : getline stream with
  | none => exact ⟨false, out, stream, by simp only [parse, hline]⟩
  | some p =>
      obtain ⟨line, stream'⟩ := p
      by_cases hrequest : ∃ method t version, IsRequestLine line method t version
      · obtain ⟨method, t, version, hrequest⟩ := hrequest
        obtain ⟨fields, rest, hparse⟩ := parse_isRequestLine hline hrequest out
        exact ⟨true, _, rest, hparse⟩
      · obtain ⟨out', hparse⟩ := parse_reject hline hrequest out
        exact ⟨false, out', stream', hparse⟩

/-- **No input makes a parser throw**: every position that a parser uses is one of its string. -/
theorem parsers_noThrow :
    (∀ stream out, ∃ success out' rest,
      RequestMessage.parse stream out = .ok (success, out', rest)) ∧
    (∀ stream out, ∃ success out' rest,
      ResponseMessage.parse stream out = .ok (success, out', rest)) ∧
    (∀ stream, ∃ fields rest, HttpHeader.parse stream = .ok (fields, rest)) ∧
    (∀ queryString, ∃ fields, QueryString.parse queryString = .ok fields) ∧
    ∀ value extra,
      Percent.decodeFrom value (value.length + extra) 0 [] = .ok (Percent.decode value) :=
  ⟨RequestMessage.parse_ok, ResponseMessage.parse_ok, HttpHeader.parse_ok,
    fun queryString => ⟨_, QueryString.parse_eq queryString⟩,
    fun value extra => Percent.decodeFrom_ok value (Nat.le_add_right _ extra)⟩

end SimpleWeb
