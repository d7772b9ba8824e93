/-
**`calcSha1` is SHA-1.**

`calcSha1` of `common/WSCrypto.cpp` keeps the words of a block and those of its rounds in one array of
eighty words, whose first sixteen it fills anew for each block and whose others it writes when their
round comes.  The last block is put together byte by byte in these first sixteen words; the length of the
message goes into the last of them, so that a message may have no more than 2³² - 1 bits.

Main definitions:

* `SimpleWeb.HashState.vars` — the variables of the code as those of the standard;
* `SimpleWeb.Loaded` — an array whose first words are those of a block;
* `SimpleWeb.Rounds` — the variables and the array when some rounds have been made.

Main results:

* `SimpleWeb.Rounds.next` — what one round does;
* `SimpleWeb.vars_innerHash` — `innerHash` compresses a block;
* `SimpleWeb.Loaded.orByte` — how the last block is put together;
* `SimpleWeb.calcSha1_val` — **`calcSha1` computes the hash of the standard**.
-/

import SimpleWeb.Sha1
import SimpleWeb.WSCrypto

set_option relaxedAutoImplicit false
set_option autoImplicit false

namespace SimpleWeb

/-! ### Words -/

theorem or_eq_ch (x y z : Sha1.Word) : (x &&& y) ||| (~~~x &&& z) = Sha1.ch x y z := by
  ext i hi
  simp only [Sha1.ch, BitVec.getElem_or, BitVec.getElem_and, BitVec.getElem_not, BitVec.getElem_xor]
  cases x[i] <;> simp

theorem or_eq_maj (x y z : Sha1.Word) :
    (x &&& y) ||| (x &&& z) ||| (y &&& z) = Sha1.maj x y z := by
  ext i hi
  simp only [Sha1.maj, BitVec.getElem_or, BitVec.getElem_and, BitVec.getElem_xor]
  cases x[i] <;> cases y[i] <;> cases z[i] <;> rfl

theorem toBitVec_rol {steps : UInt32} (hpos : 0 < steps.toNat) (hlt : steps.toNat < 32)
    (x : UInt32) : (rol x steps).toBitVec = x.toBitVec.rotateLeft steps.toNat := by
  have hleft : (steps.toBitVec % 32).toNat = steps.toNat % 32 := rfl
  have hright : ((32 - steps).toBitVec % 32).toNat = 32 - steps.toNat := by
    have hsub : ((32 : UInt32) - steps).toNat = 32 - steps.toNat := by
      rw [UInt32.toNat_sub_of_le _ _ (UInt32.le_iff_toNat_le.2 hlt.le)]
      rfl
    have hmod : ((32 - steps).toBitVec % 32).toNat = ((32 : UInt32) - steps).toNat % 32 := rfl
    rw [hmod, hsub]
    omega
  rw [rol, UInt32.toBitVec_or, UInt32.toBitVec_shiftLeft, UInt32.toBitVec_shiftRight,
    BitVec.shiftLeft_eq', BitVec.ushiftRight_eq', hleft, hright, BitVec.rotateLeft_def,
    Nat.mod_eq_of_lt hlt]

namespace HashState

/-- The variables as those of the standard. -/
def vars (s : HashState) : Sha1.Vars :=
  ⟨s.a.toBitVec, s.b.toBitVec, s.c.toBitVec, s.d.toBitVec, s.e.toBitVec⟩

theorem vars_add (s t : HashState) : (s.add t).vars = s.vars.add t.vars := rfl

theorem toBitVec_round (s : HashState) (t : ℕ) :
    (s.round t).1.toBitVec = Sha1.f t s.vars.b s.vars.c s.vars.d ∧
      (s.round t).2.toBitVec = Sha1.K t := by
  unfold round Sha1.f Sha1.K
  split_ifs
  · exact ⟨or_eq_ch _ _ _, rfl⟩
  · exact ⟨rfl, rfl⟩
  · exact ⟨or_eq_maj _ _ _, rfl⟩
  · exact ⟨rfl, rfl⟩

/-- A round of the code is one of the standard. -/
theorem vars_sha1Macro (s : HashState) (t : ℕ) (word : UInt32) :
    (s.sha1Macro (s.round t).1 (s.round t).2 word).vars = s.vars.step t word.toBitVec := by
  obtain ⟨hf, hK⟩ := toBitVec_round s t
  have hfive := @toBitVec_rol 5 (by decide) (by decide) s.a
  have hthirty := @toBitVec_rol 30 (by decide) (by decide) s.b
  simp only [vars, sha1Macro, Sha1.Vars.step, UInt32.toBitVec_add, hfive, hthirty, hf, hK]
  rfl

end HashState

/-! ### Rounds -/

/-- The array has room for eighty words, and the first sixteen are `M`. -/
structure Loaded (M : ℕ → Sha1.Word) (w : List UInt32) : Prop where
  length : w.length = 80
  words : ∀ t < 16, (w.getD t 0).toBitVec = M t

/-- The variables and the array behind `n` rounds. -/
structure Rounds (M : ℕ → Sha1.Word) (H : Sha1.Vars) (n : ℕ) (p : HashState × List UInt32) :
    Prop where
  vars : p.1.vars = Sha1.rounds M n H
  length : p.2.length = 80
  words : ∀ t < max 16 n, (p.2.getD t 0).toBitVec = Sha1.schedule M t

variable {M : ℕ → Sha1.Word} {H : Sha1.Vars} {n : ℕ} {p : HashState × List UInt32}
  {w : List UInt32}

theorem getD_set_of_lt {i : ℕ} (h : i < w.length) (x : UInt32) (j : ℕ) :
    (w.set i x).getD j 0 = if j = i then x else w.getD j 0 := by
  rw [List.getD_eq_getElem?_getD, List.getElem?_set]
  by_cases hj : i = j
  · subst hj
    simp [h]
  · rw [if_neg hj, if_neg (Ne.symm hj), List.getD_eq_getElem?_getD]

/-- The word of a round is there when the round comes. -/
theorem Rounds.word (h : Rounds M H n p) (hn : n < 80) :
    (hashRound p n).2.length = 80 ∧
      ∀ t < max 16 (n + 1), ((hashRound p n).2.getD t 0).toBitVec = Sha1.schedule M t := by
  have hlen := h.length
  by_cases hsmall : n < 16
  · have hw : (hashRound p n).2 = p.2 := if_pos hsmall
    rw [hw]
    refine ⟨hlen, ?_⟩
    intro t ht
    exact h.words t (by omega)
  · have hw : (hashRound p n).2 = p.2.set n (rol (p.2.getD (n - 3) 0 ^^^ p.2.getD (n - 8) 0 ^^^
        p.2.getD (n - 14) 0 ^^^ p.2.getD (n - 16) 0) 1) := if_neg hsmall
    rw [hw]
    refine ⟨by rw [List.length_set, hlen], ?_⟩
    intro t ht
    rw [getD_set_of_lt (by omega)]
    split
    · next heq =>
        subst heq
        have hone := @toBitVec_rol 1 (by decide) (by decide) (p.2.getD (t - 3) 0 ^^^
          p.2.getD (t - 8) 0 ^^^ p.2.getD (t - 14) 0 ^^^ p.2.getD (t - 16) 0)
        rw [hone, UInt32.toBitVec_xor, UInt32.toBitVec_xor, UInt32.toBitVec_xor,
          h.words (t - 3) (by omega), h.words (t - 8) (by omega), h.words (t - 14) (by omega),
          h.words (t - 16) (by omega), @Sha1.schedule_ge M t (by omega)]
        rfl
    · exact h.words t (by omega)

/-- **What one round does.** -/
theorem Rounds.next (h : Rounds M H n p) (hn : n < 80) : Rounds M H (n + 1) (hashRound p n) := by
  obtain ⟨hlen, hwords⟩ := h.word hn
  refine ⟨?_, hlen, hwords⟩
  have hvars : (hashRound p n).1 =
      p.1.sha1Macro (p.1.round n).1 (p.1.round n).2 ((hashRound p n).2.getD n 0) := rfl
  rw [hvars, HashState.vars_sha1Macro, h.vars, hwords n (by omega), Sha1.rounds_succ]

/-- The rounds, by induction on their number. -/
theorem Loaded.rounds (h : Loaded M w) (s : HashState) (hn : n ≤ 80) :
    Rounds M s.vars n ((List.range n).foldl hashRound (s, w)) := by
  induction n with
  | zero =>
      refine ⟨?_, h.length, ?_⟩
      · rw [List.range_zero, List.foldl_nil, Sha1.rounds_zero]
      · intro t ht
        rw [List.range_zero, List.foldl_nil, h.words t (by omega), Sha1.schedule_lt M (by omega)]
  | succ n ih =>
      rw [List.range_succ, List.foldl_append, List.foldl_cons, List.foldl_nil]
      exact (ih (by omega)).next (by omega)

/-- **`innerHash` compresses a block.** -/
theorem vars_innerHash (h : Loaded M w) (s : HashState) :
    (innerHash s w).1.vars = Sha1.compress M s.vars ∧ (innerHash s w).2.length = 80 := by
  have hrounds := h.rounds s (le_refl 80)
  constructor
  · have hvars : (innerHash s w).1 = s.add ((List.range 80).foldl hashRound (s, w)).1 := by
      rw [innerHash]
    rw [hvars, HashState.vars_add, hrounds.vars, Sha1.compress]
  · have hw : (innerHash s w).2 = ((List.range 80).foldl hashRound (s, w)).2 := by
      rw [innerHash]
    rw [hw, hrounds.length]

/-! ### Complete blocks -/

/-- One more octet behind those of a number. -/
theorem toNat_shift_or (x : UInt32) (b : UInt8) :
    (x <<< 8 ||| b.toUInt32).toNat = (x.toNat * 256 + b.toNat) % 2 ^ 32 := by
  have hb := b.toNat_lt
  have hshift : (x <<< 8).toNat = 2 ^ 8 * (x.toNat % 2 ^ 24) := by
    have h := UInt32.toNat_shiftLeft x 8
    rw [Nat.shiftLeft_eq] at h
    have height : (8 : UInt32).toNat % 32 = 8 := rfl
    rw [h, height]
    omega
  rw [UInt32.toNat_or, hshift, UInt8.toNat_toUInt32, ← Nat.two_pow_add_eq_or_of_lt (by omega)]
  omega

/-- The word that is read from a complete block. -/
theorem toBitVec_word (src : Bytes) (t : ℕ) :
    ((List.range 4).foldl
      (fun (x : UInt32) k => x <<< 8 ||| (src.getD (4 * t + k) 0).toUInt32) 0).toBitVec =
      Sha1.word src t := by
  have hrange : List.range 4 = [0, 1, 2, 3] := rfl
  have h₀ := (src.getD (4 * t) 0).toNat_lt
  have h₁ := (src.getD (4 * t + 1) 0).toNat_lt
  have h₂ := (src.getD (4 * t + 2) 0).toNat_lt
  have h₃ := (src.getD (4 * t + 3) 0).toNat_lt
  have hzero : (0 : UInt32).toNat = 0 := rfl
  apply BitVec.eq_of_toNat_eq
  rw [hrange, UInt32.toNat_toBitVec, Sha1.word, BitVec.toNat_ofNat, Sha1.number_eq]
  simp only [List.foldl_cons, List.foldl_nil, toNat_shift_or, Nat.add_zero, hzero]
  omega

theorem loaded_block (src : Bytes) (hw : w.length = 80) :
    Loaded (Sha1.word src) ((List.range 16).map (fun i => (List.range 4).foldl
      (fun (n : UInt32) k => n <<< 8 ||| (src.getD (4 * i + k) 0).toUInt32) 0) ++ w.drop 16) := by
  constructor
  · simp only [List.length_append, List.length_map, List.length_range, List.length_drop]
    omega
  · intro t ht
    rw [← toBitVec_word]
    congr 1
    rw [List.getD_eq_getElem?_getD,
      List.getElem?_append_left (by simpa using ht), List.getElem?_map, List.getElem?_range ht]
    rfl

theorem hashBlocks_zero (src : Bytes) (p : HashState × List UInt32) :
    hashBlocks 0 src p = (src, p) := by
  conv => lhs; unfold hashBlocks

theorem hashBlocks_succ (n : ℕ) (src : Bytes) (p : HashState × List UInt32) :
    hashBlocks (n + 1) src p = hashBlocks n (src.drop 64) (innerHash p.1
      ((List.range 16).map (fun i => (List.range 4).foldl
        (fun (n : UInt32) k => n <<< 8 ||| (src.getD (4 * i + k) 0).toUInt32) 0) ++
          p.2.drop 16)) := by
  conv => lhs; unfold hashBlocks

/-- **The complete blocks are hashed one after the other.** -/
theorem hashBlocks_spec (n : ℕ) : ∀ (src : Bytes) (p : HashState × List UInt32), p.2.length = 80 →
    (hashBlocks n src p).1 = src.drop (64 * n) ∧
      (hashBlocks n src p).2.1.vars = Sha1.absorb n src p.1.vars ∧
      (hashBlocks n src p).2.2.length = 80 := by
  induction n with
  | zero =>
      intro src p hp
      rw [hashBlocks_zero, Nat.mul_zero, List.drop_zero, Sha1.absorb_zero]
      exact ⟨rfl, rfl, hp⟩
  | succ n ih =>
      intro src p hp
      obtain ⟨hvars, hlen⟩ := vars_innerHash (loaded_block src hp) p.1
      rw [hashBlocks_succ]
      generalize innerHash p.1 _ = q at *
      obtain ⟨hrest, hhash, hw⟩ := ih (src.drop 64) q hlen
      refine ⟨hrest.trans ?_, hhash.trans ?_, hw⟩
      · rw [List.drop_drop]
        congr 1
        omega
      · rw [hvars, Sha1.absorb_cons]

/-! ### The last block -/

/-- The words in the array, as numbers. -/
theorem Loaded.toNat {block : Bytes} (h : Loaded (Sha1.word block) w) {t : ℕ} (ht : t < 16) :
    (w.getD t 0).toNat = Sha1.number block t := by
  have hword := congrArg BitVec.toNat (h.words t ht)
  rwa [UInt32.toNat_toBitVec, Sha1.word, BitVec.toNat_ofNat,
    Nat.mod_eq_of_lt (Sha1.number_lt block t)] at hword

theorem loaded_of_toNat {block : Bytes} (hlen : w.length = 80)
    (h : ∀ t < 16, (w.getD t 0).toNat = Sha1.number block t) : Loaded (Sha1.word block) w := by
  refine ⟨hlen, ?_⟩
  intro t ht
  apply BitVec.eq_of_toNat_eq
  rw [UInt32.toNat_toBitVec, Sha1.word, BitVec.toNat_ofNat, h t ht,
    Nat.mod_eq_of_lt (Sha1.number_lt block t)]

/-- `clearWBuffert` makes room for a block of zeros. -/
theorem loaded_clearWBuffert (hw : w.length = 80) :
    Loaded (Sha1.word (List.replicate 64 0)) (clearWBuffert w) := by
  refine loaded_of_toNat ?_ ?_
  · rw [clearWBuffert, List.length_append, List.length_replicate, List.length_drop]
    omega
  · intro t ht
    have hzero : (clearWBuffert w).getD t 0 = 0 := by
      rw [clearWBuffert, List.getD_eq_getElem?_getD,
        List.getElem?_append_left (by simpa using ht), List.getElem?_replicate_of_lt ht]
      rfl
    have hoctet : ∀ i, (List.replicate 64 (0 : UInt8)).getD i 0 = 0 := by
      intro i
      rw [List.getD_eq_getElem?_getD, List.getElem?_replicate]
      split <;> rfl
    rw [hzero, Sha1.number_eq, hoctet, hoctet, hoctet, hoctet]
    rfl

/-- An octet between those in front of it and those behind it. -/
theorem or_between {hi lo b s : ℕ} (hlo : lo < 2 ^ s) (hb : b < 256) :
    (hi * 2 ^ (s + 8) + lo) ||| (b * 2 ^ s) = hi * 2 ^ (s + 8) + b * 2 ^ s + lo := by
  have hlow : b * 2 ^ s + lo < 2 ^ (s + 8) := by
    rw [Nat.pow_add]
    nlinarith [Nat.two_pow_pos s]
  rw [Nat.mul_comm hi, Nat.two_pow_add_eq_or_of_lt (by omega), Nat.or_assoc, Nat.or_comm lo,
    Nat.mul_comm b, ← Nat.two_pow_add_eq_or_of_lt hlo, ← Nat.two_pow_add_eq_or_of_lt
      (by rw [Nat.mul_comm]; exact hlow), Nat.add_assoc]

theorem getD_set {block : Bytes} {i : ℕ} (h : i < block.length) (b : UInt8) (j : ℕ) :
    (block.set i b).getD j 0 = if j = i then b else block.getD j 0 := by
  rw [List.getD_eq_getElem?_getD, List.getElem?_set]
  by_cases hj : i = j
  · subst hj
    simp [h]
  · rw [if_neg hj, if_neg (Ne.symm hj), List.getD_eq_getElem?_getD]

/-- The octet `k` of a word that has not been written yet, and what writing it does. -/
theorem number_set {block : Bytes} {t k : ℕ} (hk : k < 4) (hlen : 4 * t + k < block.length)
    (hzero : block.getD (4 * t + k) 0 = 0) (b : UInt8) :
    ∃ hi lo, lo < 2 ^ ((3 - k) * 8) ∧
      Sha1.number block t = hi * 2 ^ ((3 - k) * 8 + 8) + lo ∧
      Sha1.number (block.set (4 * t + k) b) t =
        hi * 2 ^ ((3 - k) * 8 + 8) + b.toNat * 2 ^ ((3 - k) * 8) + lo := by
  have h₀ := (block.getD (4 * t) 0).toNat_lt
  have h₁ := (block.getD (4 * t + 1) 0).toNat_lt
  have h₂ := (block.getD (4 * t + 2) 0).toNat_lt
  have h₃ := (block.getD (4 * t + 3) 0).toNat_lt
  have hnat := congrArg UInt8.toNat hzero
  rw [UInt8.toNat_zero] at hnat
  simp only [Sha1.number_eq, getD_set hlen]
  interval_cases k
  · rw [Nat.add_zero] at hnat
    exact ⟨0, (block.getD (4 * t + 1) 0).toNat * 2 ^ 16 + (block.getD (4 * t + 2) 0).toNat * 2 ^ 8 +
        (block.getD (4 * t + 3) 0).toNat, by omega, by omega, by simp; omega⟩
  · exact ⟨(block.getD (4 * t) 0).toNat, (block.getD (4 * t + 2) 0).toNat * 2 ^ 8 +
      (block.getD (4 * t + 3) 0).toNat, by omega, by omega, by simp; omega⟩
  · exact ⟨(block.getD (4 * t) 0).toNat * 2 ^ 8 + (block.getD (4 * t + 1) 0).toNat,
      (block.getD (4 * t + 3) 0).toNat, by omega, by omega, by simp; omega⟩
  · exact ⟨(block.getD (4 * t) 0).toNat * 2 ^ 16 + (block.getD (4 * t + 1) 0).toNat * 2 ^ 8 +
      (block.getD (4 * t + 2) 0).toNat, 0, by omega, by omega, by simp; omega⟩

/-- A byte in its place in a word. -/
theorem toNat_shift_byte {k : ℕ} (hk : k < 4) (b : UInt8) :
    (b.toUInt32 <<< UInt32.ofNat ((3 - k) * 8)).toNat = b.toNat * 2 ^ ((3 - k) * 8) := by
  have hb := b.toNat_lt
  rw [UInt32.toNat_shiftLeft, Nat.shiftLeft_eq, UInt8.toNat_toUInt32]
  interval_cases k <;> simp <;> omega

/-- **How the last block is put together**: a byte is written over a zero. -/
theorem Loaded.orByte {block : Bytes} (h : Loaded (Sha1.word block) w) {i : ℕ} (hi : i < 64)
    (hlen : i < block.length) (hzero : block.getD i 0 = 0) (b : UInt8) :
    Loaded (Sha1.word (block.set i b)) (SimpleWeb.orByte w i b) := by
  have hsplit : i = 4 * (i / 4) + i % 4 := by omega
  refine loaded_of_toNat (by rw [SimpleWeb.orByte, List.length_set, h.length]) ?_
  intro t ht
  rw [SimpleWeb.orByte, getD_set_of_lt (by rw [h.length]; omega)]
  split
  · next heq =>
      rw [hsplit] at hlen hzero
      obtain ⟨hi', lo, hlo, hold, hnew⟩ := number_set (Nat.mod_lt i (by decide)) hlen hzero b
      rw [← hsplit] at hnew
      rw [heq, hnew, UInt32.toNat_or, h.toNat (by omega), hold,
        toNat_shift_byte (Nat.mod_lt i (by decide)), or_between hlo b.toNat_lt]
  · next hne =>
      rw [h.toNat ht]
      simp only [Sha1.number_eq, getD_set hlen]
      rw [if_neg (by omega), if_neg (by omega), if_neg (by omega), if_neg (by omega)]

/-- The bytes that are left behind the complete blocks, and zeros behind them. -/
def partialBlock (rest : Bytes) (j : ℕ) : Bytes := rest.take j ++ List.replicate (64 - j) 0

theorem length_partialBlock {rest : Bytes} {j : ℕ} (hj : j ≤ rest.length) (h : rest.length < 64) :
    (partialBlock rest j).length = 64 := by
  rw [partialBlock, List.length_append, List.length_take, List.length_replicate]
  omega

/-- One more byte of them. -/
theorem partialBlock_set {rest : Bytes} {j : ℕ} (hj : j ≤ rest.length) (h : rest.length < 64)
    (b : UInt8) : (partialBlock rest j).getD j 0 = 0 ∧ (partialBlock rest j).set j b =
      rest.take j ++ b :: List.replicate (63 - j) 0 := by
  have hzeros : List.replicate (64 - j) (0 : UInt8) = 0 :: List.replicate (63 - j) 0 := by
    rw [show 64 - j = 63 - j + 1 by omega, List.replicate_succ]
  have hlen : (rest.take j).length = j := by
    rw [List.length_take]
    omega
  rw [partialBlock, hzeros]
  constructor
  · rw [List.getD_eq_getElem?_getD, List.getElem?_append_right (by omega), hlen]
    simp
  · rw [List.set_append, hlen, if_neg (by omega), Nat.sub_self]
    rfl

/-- The loop over the bytes that are left. -/
theorem loaded_rest {rest : Bytes} (h : rest.length < 64) (hw : w.length = 80) {j : ℕ}
    (hj : j ≤ rest.length) :
    Loaded (Sha1.word (partialBlock rest j)) ((List.range j).foldl
      (fun w i => orByte w i (rest.getD i 0)) (clearWBuffert w)) := by
  induction j with
  | zero =>
      rw [List.range_zero, List.foldl_nil]
      exact loaded_clearWBuffert hw
  | succ j ih =>
      obtain ⟨hzero, hset⟩ := partialBlock_set (show j ≤ rest.length by omega) h (rest.getD j 0)
      have hnext : partialBlock rest (j + 1) = (partialBlock rest j).set j (rest.getD j 0) := by
        have hcount : 64 - (j + 1) = 63 - j := by omega
        rw [hset, partialBlock, hcount, List.take_succ_eq_append_getElem (by omega),
          List.append_assoc, List.getD_eq_getElem?_getD, List.getElem?_eq_getElem (by omega)]
        rfl
      rw [List.range_succ, List.foldl_append, List.foldl_cons, List.foldl_nil, hnext]
      exact (ih (by omega)).orByte (by omega)
        (by rw [length_partialBlock (by omega) h]; omega) hzero _

/-- The length in the last word. -/
theorem Loaded.setLength {front : Bytes} (hfront : front.length = 56)
    (h : Loaded (Sha1.word (front ++ List.replicate 8 0)) w) {len : ℕ} (hlen : len < 2 ^ 29) :
    Loaded (Sha1.word (front ++ Octets.toBytes 8 (8 * len)))
      (w.set 15 (UInt32.ofNat len <<< 3)) := by
  have hzeros : Octets.toBytes 8 0 = List.replicate 8 0 := rfl
  rw [← hzeros] at h
  obtain ⟨hfourteen, hfifteen⟩ := Sha1.number_length hfront (show 8 * len < 2 ^ 32 by omega)
  refine loaded_of_toNat (by rw [List.length_set, h.length]) ?_
  intro t ht
  rw [getD_set_of_lt (by rw [h.length]; decide)]
  split
  · next heq =>
      have hthree : (3 : UInt32).toNat % 32 = 3 := rfl
      rw [heq, hfifteen, UInt32.toNat_shiftLeft, Nat.shiftLeft_eq, UInt32.toNat_ofNat', hthree]
      omega
  · next hne =>
      rw [h.toNat ht]
      by_cases hlast : t = 14
      · rw [hlast, hfourteen, (Sha1.number_length hfront (by decide)).1]
      · rw [Sha1.number_append (by omega), Sha1.number_append (by omega)]

/-! ### The hash -/

/-- An octet of a word. -/
theorem toUInt8_shiftRight {k : ℕ} (hk : k < 4) (x : UInt32) :
    (x >>> UInt32.ofNat (k * 8)).toUInt8 = UInt8.ofNat (x.toNat / 256 ^ k) := by
  have hcount : (UInt32.ofNat (k * 8)).toNat % 32 = 8 * k := by
    rw [UInt32.toNat_ofNat']
    omega
  have hpow : 2 ^ (8 * k) = 256 ^ k := by rw [Nat.pow_mul]
  apply UInt8.toNat_inj.1
  rw [UInt32.toNat_toUInt8, UInt32.toNat_shiftRight, hcount, Nat.shiftRight_eq_div_pow, hpow,
    UInt8.toNat_ofNat']

theorem octets_word (x : UInt32) :
    (List.range 4).map (fun k => (x >>> UInt32.ofNat ((3 - k) * 8)).toUInt8) =
      Octets.toBytes 4 x.toNat := by
  have hrange : List.range 4 = [0, 1, 2, 3] := rfl
  rw [hrange]
  simp only [List.map_cons, List.map_nil, Octets.toBytes]
  rw [toUInt8_shiftRight (by decide), toUInt8_shiftRight (by decide),
    toUInt8_shiftRight (by decide), toUInt8_shiftRight (by decide)]

/-- The words of the hash are written octet by octet. -/
theorem digest_words (s : HashState) :
    ((List.range 20).map fun hashByte =>
      (s.words.getD (hashByte / 4) 0 >>> UInt32.ofNat ((3 - hashByte % 4) * 8)).toUInt8) =
      s.vars.words.flatMap fun x => Octets.toBytes 4 x.toNat := by
  have hwords : s.vars.words.flatMap (fun x => Octets.toBytes 4 x.toNat) =
      s.words.flatMap fun x => Octets.toBytes 4 x.toNat := rfl
  rw [hwords]
  simp only [← octets_word]
  rfl

/-- The array is filled with the bytes that are left, and with the bit behind them. -/
theorem loaded_padding {rest : Bytes} (h : rest.length < 64) (hw : w.length = 80) :
    Loaded (Sha1.word (rest ++ 0x80 :: List.replicate (63 - rest.length) 0))
      (orByte ((List.range rest.length).foldl (fun w i => orByte w i (rest.getD i 0))
        (clearWBuffert w)) rest.length 0x80) := by
  obtain ⟨hzero, hset⟩ := partialBlock_set (le_refl rest.length) h 0x80
  rw [List.take_length] at hset
  rw [← hset]
  exact (loaded_rest h hw (le_refl rest.length)).orByte h
    (by rw [length_partialBlock (le_refl rest.length) h]; exact h) hzero _

variable {src front rest : Bytes} {s : HashState}

/-- There is room for the length in the last block. -/
theorem vars_short (hsrc : src = front ++ rest) (hfront : front.length = 64 * n)
    (hrest : rest.length < 56) (hlen : src.length < 2 ^ 29)
    (hs : s.vars = Sha1.absorb n front Sha1.initial)
    (hw : Loaded (Sha1.word (rest ++ 0x80 :: List.replicate (63 - rest.length) 0)) w) :
    (innerHash s (w.set 15 (UInt32.ofNat src.length <<< 3))).1.vars =
      Sha1.absorb ((Sha1.pad src).length / 64) (Sha1.pad src) Sha1.initial := by
  have hzeros : rest ++ 0x80 :: List.replicate (63 - rest.length) (0 : UInt8) =
      (rest ++ 0x80 :: List.replicate (55 - rest.length) 0) ++ List.replicate 8 0 := by
    rw [show 63 - rest.length = (55 - rest.length) + 8 by omega, List.replicate_add]
    simp
  have hlast : (rest ++ 0x80 :: List.replicate (55 - rest.length) (0 : UInt8)).length = 56 := by
    rw [List.length_append, List.length_cons, List.length_replicate]
    omega
  rw [hzeros] at hw
  have hpad : Sha1.pad src = front ++ ((rest ++ 0x80 :: List.replicate (55 - rest.length) 0) ++
      Octets.toBytes 8 (8 * src.length)) := by
    rw [Sha1.pad_short hsrc hfront hrest, List.append_assoc, List.cons_append]
  have hblocks : (Sha1.pad src).length / 64 = n + 1 := by
    rw [hpad, List.length_append, List.length_append, hfront, hlast, Octets.length_toBytes]
    omega
  rw [(vars_innerHash (hw.setLength hlast hlen) s).1, hs, hblocks, hpad,
    Sha1.absorb_append hfront, Sha1.absorb_succ, Sha1.absorb_zero, Nat.mul_zero, List.drop_zero]

/-- The length goes into another block. -/
theorem vars_long (hsrc : src = front ++ rest) (hfront : front.length = 64 * n)
    (hlow : 56 ≤ rest.length) (hhigh : rest.length < 64) (hlen : src.length < 2 ^ 29)
    (hs : s.vars = Sha1.absorb n front Sha1.initial)
    (hw : Loaded (Sha1.word (rest ++ 0x80 :: List.replicate (63 - rest.length) 0)) w) :
    (innerHash (innerHash s w).1 ((clearWBuffert (innerHash s w).2).set 15
      (UInt32.ofNat src.length <<< 3))).1.vars =
      Sha1.absorb ((Sha1.pad src).length / 64) (Sha1.pad src) Sha1.initial := by
  obtain ⟨hvars, hw'⟩ := vars_innerHash hw s
  have hcleared := loaded_clearWBuffert hw'
  have hzeros : List.replicate 64 (0 : UInt8) = List.replicate 56 0 ++ List.replicate 8 0 := by
    rw [← List.replicate_add]
  rw [hzeros] at hcleared
  have hblock : (rest ++ 0x80 :: List.replicate (63 - rest.length) (0 : UInt8)).length = 64 := by
    rw [List.length_append, List.length_cons, List.length_replicate]
    omega
  have hpad := Sha1.pad_long hsrc hfront hlow hhigh
  have hblocks : (Sha1.pad src).length / 64 = n + (1 + 1) := by
    simp only [hpad, List.length_append, List.length_cons, List.length_replicate,
      Octets.length_toBytes, hfront]
    omega
  rw [(vars_innerHash (hcleared.setLength List.length_replicate hlen) _).1, hvars, hs, hblocks,
    hpad, Sha1.absorb_append hfront, Sha1.absorb_append hblock, Sha1.absorb_succ,
    Sha1.absorb_zero, Sha1.absorb_succ, Sha1.absorb_zero, Nat.mul_zero, List.drop_zero,
    List.drop_zero]

theorem vars_start :
    HashState.vars ⟨0x67452301, 0xefcdab89, 0x98badcfe, 0x10325476, 0xc3d2e1f0⟩ = Sha1.initial :=
  rfl

/-- The hash is that of the standard, for messages whose length in bits fits into a word. -/
theorem calcSha1_val (src : Bytes) (hlen : src.length < 2 ^ 29) :
    (calcSha1 src).1 = Sha1.digest src := by
  obtain ⟨hrest, hhash, hw⟩ := hashBlocks_spec (src.length / 64) src
    (⟨0x67452301, 0xefcdab89, 0x98badcfe, 0x10325476, 0xc3d2e1f0⟩, List.replicate 80 0)
    List.length_replicate
  rw [vars_start] at hhash
  unfold calcSha1
  dsimp only
  rw [digest_words]
  generalize hashBlocks _ _ _ = q at *
  obtain ⟨rest, result, w⟩ := q
  dsimp only at *
  have hsrc : src = src.take (64 * (src.length / 64)) ++ rest := by
    rw [hrest, List.take_append_drop]
  have hfront : (src.take (64 * (src.length / 64))).length = 64 * (src.length / 64) := by
    rw [List.length_take]
    omega
  have hshort : rest.length < 64 := by
    rw [hrest, List.length_drop]
    omega
  have hvars : result.vars =
      Sha1.absorb (src.length / 64) (src.take (64 * (src.length / 64))) Sha1.initial := by
    rw [hhash, ← Sha1.absorb_prefix hfront.ge rest, ← hsrc]
  have hloaded := loaded_padding hshort hw
  generalize orByte _ rest.length 0x80 = u at *
  rw [Sha1.digest]
  refine congrArg (fun v : Sha1.Vars => v.words.flatMap fun x => Octets.toBytes 4 x.toNat) ?_
  split
  · next hlong =>
      dsimp only
      exact vars_long hsrc hfront hlong hshort hlen hvars hloaded
  · next hlong =>
      dsimp only
      exact vars_short hsrc hfront (by omega) hlen hvars hloaded

/-- The hash of three letters, as the standard gives it. -/
example : Sha1.digest (ascii "abc") =
    [0xa9, 0x99, 0x3e, 0x36, 0x47, 0x06, 0x81, 0x6a, 0xba, 0x3e, 0x25, 0x71, 0x78, 0x50, 0xc2, 0x6c,
      0x9c, 0xd0, 0xd8, 0x9d] := by
  rw [← calcSha1_val _ (by decide)]
  decide +kernel

end SimpleWeb
