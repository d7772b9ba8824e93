/-
**`calcSha1` stays within its arrays.**

`calcSha1` is handed a pointer and a number of bytes, and a pointer to where the 20 bytes of the hash are
to be written.  Its array `w` of eighty words is not initialised.  Both are taken here as far down as they
can be misused: an access out of bounds is a fault, and so is reading a word that has not been written.

Main definitions:

* `SimpleWeb.Buffer` — an array whose elements have a value when they have been written;
* `SimpleWeb.calcSha1Into` — `calcSha1` on its arrays.

Main results:

* `SimpleWeb.Written.roundInto` — a round reads nothing but what has been written before;
* `SimpleWeb.calcSha1_inBounds` — **no access is out of bounds, and nothing that is read has not been
  written**;
* `SimpleWeb.calcSha1_isSha1` — **what is written is the hash of the standard**.
-/

import SimpleWeb.WSCryptoSha1

set_option relaxedAutoImplicit false
set_option autoImplicit false

namespace SimpleWeb

/-! ### Arrays -/

/-- An array.  An element that has not been written has no value. -/
abbrev Buffer (α : Type) := List (Option α)

namespace Buffer

variable {α : Type}

def read (u : Buffer α) (i : ℕ) : Except Fault α :=
  match u[i]? with
  | some (some x) => .ok x
  | _ => .error .badIndex

def write (u : Buffer α) (i : ℕ) (x : α) : Except Fault (Buffer α) :=
  if i < u.length then .ok (u.set i (some x)) else .error .badIndex

theorem write_of_lt {u : Buffer α} {i : ℕ} (h : i < u.length) (x : α) :
    u.write i x = .ok (u.set i (some x)) := if_pos h

end Buffer

/-! ### The function -/

/-- One round. -/
def roundInto (p : HashState × Buffer UInt32) (round : ℕ) :
    Except Fault (HashState × Buffer UInt32) := do
  let w ←
    if round < 16 then pure p.2
    else do
      let x ← p.2.read (round - 3)
      let y ← p.2.read (round - 8)
      let z ← p.2.read (round - 14)
      let v ← p.2.read (round - 16)
      p.2.write round (rol (x ^^^ y ^^^ z ^^^ v) 1)
  let word ← w.read round
  let r := p.1.round round
  pure (p.1.sha1Macro r.1 r.2 word, w)

/-- `innerHash`. -/
def innerHashInto (result : HashState) (w : Buffer UInt32) :
    Except Fault (HashState × Buffer UInt32) := do
  let p ← (List.range 80).foldlM roundInto (result, w)
  pure (result.add p.1, p.2)

/-- `clearWBuffert`. -/
def clearInto (buffert : Buffer UInt32) : Except Fault (Buffer UInt32) :=
  (List.range 16).reverse.foldlM (fun w pos => w.write pos 0) buffert

/-- A word of a complete block. -/
def readWord (sarray : Bytes) (currentBlock : ℕ) : Except Fault UInt32 := do
  let d ← charAt sarray (currentBlock + 3)
  let c ← charAt sarray (currentBlock + 2)
  let b ← charAt sarray (currentBlock + 1)
  let a ← charAt sarray currentBlock
  pure (d.toUInt32 ||| c.toUInt32 <<< 8 ||| b.toUInt32 <<< 16 ||| a.toUInt32 <<< 24)

/-- The loop over the complete blocks.  Each moves `currentBlock`, which bounds the fuel. -/
def blocksInto (sarray : Bytes) (endOfFullBlocks : ℤ) :
    ℕ → ℕ → HashState × Buffer UInt32 → Except Fault (ℕ × HashState × Buffer UInt32)
  | 0, currentBlock, p => .ok (currentBlock, p)
  | fuel + 1, currentBlock, p =>
      if (currentBlock : ℤ) ≤ endOfFullBlocks then do
        let w ← (List.range 16).foldlM
          (fun w roundPos => do
            let word ← readWord sarray (currentBlock + 4 * roundPos)
            w.write roundPos word) p.2
        let p ← innerHashInto p.1 w
        blocksInto sarray endOfFullBlocks fuel (currentBlock + 64) p
      else .ok (currentBlock, p)

/-- `w[lastBlockBytes >> 2] |= x << ((3 - (lastBlockBytes & 3)) << 3)`. -/
def orInto (w : Buffer UInt32) (lastBlockBytes : ℕ) (x : UInt8) : Except Fault (Buffer UInt32) := do
  let word ← w.read (lastBlockBytes / 4)
  w.write (lastBlockBytes / 4)
    (word ||| x.toUInt32 <<< UInt32.ofNat ((3 - lastBlockBytes % 4) * 8))

/-- `calcSha1`, with the array that the hash is written to. -/
def calcSha1Into (src : Bytes) (hash : Buffer UInt8) : Except Fault (Buffer UInt8) := do
  let start : HashState := ⟨0x67452301, 0xefcdab89, 0x98badcfe, 0x10325476, 0xc3d2e1f0⟩
  let (currentBlock, result, w) ←
    blocksInto src ((src.length : ℤ) - 64) src.length 0 (start, List.replicate 80 none)
  let endCurrentBlock := src.length - currentBlock
  let w ← clearInto w
  let w ← (List.range endCurrentBlock).foldlM
    (fun w lastBlockBytes => do
      let byte ← charAt src (lastBlockBytes + currentBlock)
      orInto w lastBlockBytes byte) w
  let w ← orInto w endCurrentBlock 0x80
  let (result, w) ←
    if endCurrentBlock ≥ 56 then do
      let p ← innerHashInto result w
      let w ← clearInto p.2
      pure (p.1, w)
    else pure (result, w)
  let w ← w.write 15 (UInt32.ofNat src.length <<< 3)
  let p ← innerHashInto result w
  (List.range 20).reverse.foldlM
    (fun hash hashByte => do
      let word ← Buffer.read (p.1.words.map some) (hashByte / 4)
      hash.write hashByte (word >>> UInt32.ofNat ((3 - hashByte % 4) * 8)).toUInt8) hash

/-! ### What has been written -/

/-- The first `n` elements have been written, and are those of `xs`. -/
structure Written (n : ℕ) (u : Buffer UInt32) (w : List UInt32) : Prop where
  length : u.length = 80
  length_eq : w.length = 80
  value : ∀ i < n, u[i]? = some (some (w.getD i 0))

variable {u : Buffer UInt32} {w : List UInt32} {n : ℕ} {s : HashState}

theorem Written.read (h : Written n u w) {i : ℕ} (hi : i < n) : u.read i = .ok (w.getD i 0) := by
  simp only [Buffer.read, h.value i hi]

/-- An element is written. -/
theorem Written.write (h : Written n u w) {i : ℕ} (hi : i < 80) (x : UInt32) {m : ℕ}
    (hm : ∀ j < m, j = i ∨ j < n) :
    ∃ u', u.write i x = .ok u' ∧ Written m u' (w.set i x) := by
  refine ⟨_, Buffer.write_of_lt (by rw [h.length]; exact hi) x, ?_, ?_, ?_⟩
  · rw [List.length_set, h.length]
  · rw [List.length_set, h.length_eq]
  · intro j hj
    rw [getD_set_of_lt (by rw [h.length_eq]; exact hi), List.getElem?_set]
    by_cases hij : i = j
    · rw [if_pos hij, if_pos (by rw [h.length]; exact hi), if_pos hij.symm]
    · rw [if_neg hij, if_neg (Ne.symm hij)]
      exact h.value j ((hm j hj).resolve_left (Ne.symm hij))

theorem Written.mono (h : Written n u w) {m : ℕ} (hm : m ≤ n) : Written m u w :=
  ⟨h.length, h.length_eq, fun i hi => h.value i (by omega)⟩

/-- **A round reads nothing but what has been written before.** -/
theorem Written.roundInto {p : HashState × List UInt32} (h : Written (max 16 n) u p.2)
    (hn : n < 80) :
    ∃ u', SimpleWeb.roundInto (p.1, u) n = .ok ((hashRound p n).1, u') ∧
      Written (max 16 (n + 1)) u' (hashRound p n).2 := by
  by_cases hsmall : n < 16
  · have hw : (hashRound p n).2 = p.2 := if_pos hsmall
    have hs : (hashRound p n).1 =
        p.1.sha1Macro (p.1.round n).1 (p.1.round n).2 (p.2.getD n 0) := by
      rw [← hw]
      rfl
    have hread := h.read (show n < max 16 n by omega)
    refine ⟨u, ?_, ?_⟩
    · simp only [SimpleWeb.roundInto, if_pos hsmall, pure_eq_ok, ok_bind, hread, hs]
    · rw [hw]
      exact h.mono (by omega)
  · have hw : (hashRound p n).2 = p.2.set n (rol (p.2.getD (n - 3) 0 ^^^ p.2.getD (n - 8) 0 ^^^
        p.2.getD (n - 14) 0 ^^^ p.2.getD (n - 16) 0) 1) := if_neg hsmall
    obtain ⟨u', hwrite, hu'⟩ := h.write hn (rol (p.2.getD (n - 3) 0 ^^^ p.2.getD (n - 8) 0 ^^^
        p.2.getD (n - 14) 0 ^^^ p.2.getD (n - 16) 0) 1) (show ∀ j < max 16 (n + 1), _ by omega)
    rw [← hw] at hu'
    have hs : (hashRound p n).1 =
        p.1.sha1Macro (p.1.round n).1 (p.1.round n).2 ((hashRound p n).2.getD n 0) := rfl
    have hread := hu'.read (show n < max 16 (n + 1) by omega)
    have hthree := h.read (show n - 3 < max 16 n by omega)
    have height := h.read (show n - 8 < max 16 n by omega)
    have hfourteen := h.read (show n - 14 < max 16 n by omega)
    have hsixteen := h.read (show n - 16 < max 16 n by omega)
    refine ⟨u', ?_, hu'⟩
    simp only [SimpleWeb.roundInto, if_neg hsmall, hthree, height, hfourteen, hsixteen, ok_bind,
      hwrite, hread, hs, pure_eq_ok]

/-- The rounds, by induction on their number. -/
theorem Written.rounds (h : Written 16 u w) (s : HashState) (hn : n ≤ 80) :
    ∃ u', (List.range n).foldlM SimpleWeb.roundInto (s, u) =
        .ok (((List.range n).foldl hashRound (s, w)).1, u') ∧
      Written (max 16 n) u' ((List.range n).foldl hashRound (s, w)).2 := by
  induction n with
  | zero => exact ⟨u, rfl, h⟩
  | succ n ih =>
      obtain ⟨u₁, hrun, hu₁⟩ := ih (by omega)
      obtain ⟨u₂, hround, hu₂⟩ := hu₁.roundInto (by omega)
      refine ⟨u₂, ?_, ?_⟩
      · rw [List.range_succ, List.foldlM_append, hrun, ok_bind, List.foldlM_cons, hround, ok_bind,
          List.foldlM_nil, List.foldl_append, List.foldl_cons, List.foldl_nil, pure_eq_ok]
      · rw [List.range_succ, List.foldl_append, List.foldl_cons, List.foldl_nil]
        exact hu₂

theorem Written.innerHashInto (h : Written 16 u w) (s : HashState) :
    ∃ u', SimpleWeb.innerHashInto s u = .ok ((innerHash s w).1, u') ∧
      Written 16 u' (innerHash s w).2 := by
  obtain ⟨u', hrun, hu'⟩ := h.rounds s (le_refl 80)
  have hfst : (innerHash s w).1 = s.add ((List.range 80).foldl hashRound (s, w)).1 := by
    rw [innerHash]
  have hsnd : (innerHash s w).2 = ((List.range 80).foldl hashRound (s, w)).2 := by
    rw [innerHash]
  refine ⟨u', ?_, ?_⟩
  · rw [SimpleWeb.innerHashInto, hrun, ok_bind, hfst, pure_eq_ok]
  · rw [hsnd]
    exact hu'.mono (by omega)

/-! ### The parts of the function -/

/-- Elements that are written one after the other, in any order. -/
theorem foldlM_write {α : Type} {f : ℕ → α} {g : ℕ → Except Fault α} (ps : List ℕ) :
    ∀ {u : Buffer α}, (∀ i ∈ ps, g i = .ok (f i)) → (∀ i ∈ ps, i < u.length) →
      ∃ u', ps.foldlM (fun u i => g i >>= Buffer.write u i) u = .ok u' ∧ u'.length = u.length ∧
        ∀ i, u'[i]? = if i ∈ ps then some (some (f i)) else u[i]? := by
  induction ps with
  | nil => exact fun _ _ => ⟨_, rfl, rfl, fun i => (if_neg (List.not_mem_nil)).symm⟩
  | cons p ps ih =>
      intro u hg hu
      have hp : p < u.length := hu p List.mem_cons_self
      obtain ⟨u', hrun, hlen, hget⟩ := @ih (u.set p (some (f p)))
        (fun i hi => hg i (List.mem_cons_of_mem p hi))
        (fun i hi => by rw [List.length_set]; exact hu i (List.mem_cons_of_mem p hi))
      refine ⟨u', ?_, hlen.trans List.length_set, ?_⟩
      · rw [List.foldlM_cons, hg p List.mem_cons_self, ok_bind, Buffer.write_of_lt hp, ok_bind, hrun]
      · intro i
        rw [hget, List.getElem?_set]
        by_cases hip : p = i
        · subst hip
          simp [hp]
        · simp [hip, Ne.symm hip]

/-- The first sixteen words have been written. -/
theorem written_of_getElem? {u u' : Buffer UInt32} (hu : u.length = 80) (hw : w.length = 80)
    (hlen : u'.length = u.length) {ps : List ℕ} {f : ℕ → UInt32}
    (hget : ∀ i, u'[i]? = if i ∈ ps then some (some (f i)) else u[i]?)
    (hps : ∀ i < 16, i ∈ ps) (hf : ∀ i < 16, f i = w.getD i 0) : Written 16 u' w := by
  refine ⟨hlen.trans hu, hw, ?_⟩
  intro i hi
  rw [hget, if_pos (hps i hi), hf i hi]

/-- Four bytes side by side. -/
theorem toNat_bytes (a b c d : UInt8) :
    (d.toUInt32 ||| c.toUInt32 <<< 8 ||| b.toUInt32 <<< 16 ||| a.toUInt32 <<< 24).toNat =
      a.toNat * 2 ^ 24 + b.toNat * 2 ^ 16 + c.toNat * 2 ^ 8 + d.toNat := by
  have ha := a.toNat_lt
  have hb := b.toNat_lt
  have hc := c.toNat_lt
  have hd := d.toNat_lt
  have ha' : (a.toUInt32 <<< 24).toNat = a.toNat * 2 ^ 24 := @toNat_shift_byte 0 (by decide) a
  have hb' : (b.toUInt32 <<< 16).toNat = b.toNat * 2 ^ 16 := @toNat_shift_byte 1 (by decide) b
  have hc' : (c.toUInt32 <<< 8).toNat = c.toNat * 2 ^ 8 := @toNat_shift_byte 2 (by decide) c
  have hone := @or_between 0 d.toNat c.toNat 8 hd hc
  have htwo := @or_between 0 (c.toNat * 2 ^ 8 + d.toNat) b.toNat 16 (by omega) hb
  have hthree := @or_between 0 (b.toNat * 2 ^ 16 + (c.toNat * 2 ^ 8 + d.toNat)) a.toNat 24
    (by omega) ha
  rw [Nat.zero_mul, Nat.zero_add, Nat.zero_add] at hone htwo hthree
  rw [UInt32.toNat_or, UInt32.toNat_or, UInt32.toNat_or, UInt8.toNat_toUInt32, ha', hb', hc', hone,
    htwo, hthree]
  omega

/-- The word of a complete block, whose bytes are all there. -/
theorem readWord_eq {sarray : Bytes} {i t : ℕ} (h : i + 4 * t + 4 ≤ sarray.length) :
    readWord sarray (i + 4 * t) = .ok ((List.range 4).foldl
      (fun (x : UInt32) k => x <<< 8 ||| ((sarray.drop i).getD (4 * t + k) 0).toUInt32) 0) := by
  have hchar : ∀ k < 4, charAt sarray (i + 4 * t + k) =
      .ok ((sarray.drop i).getD (4 * t + k) 0) := by
    intro k hk
    rw [charAt_of_lt (by omega), List.getD_eq_getElem?_getD, List.getElem?_drop, ← Nat.add_assoc,
      List.getElem?_eq_getElem (by omega)]
    rfl
  have hzero := hchar 0 (by decide)
  rw [Nat.add_zero] at hzero
  rw [readWord, hchar 3 (by decide), ok_bind, hchar 2 (by decide), ok_bind, hchar 1 (by decide),
    ok_bind, hzero, ok_bind, pure_eq_ok]
  congr 1
  apply UInt32.toBitVec_inj.1
  rw [toBitVec_word]
  apply BitVec.eq_of_toNat_eq
  rw [UInt32.toNat_toBitVec, toNat_bytes, Sha1.word, BitVec.toNat_ofNat,
    Nat.mod_eq_of_lt (Sha1.number_lt _ t), Sha1.number_eq]
  rfl

/-- `clearWBuffert` needs nothing to have been written. -/
theorem clearInto_eq (hu : u.length = 80) (hw : w.length = 80) :
    ∃ u', clearInto u = .ok u' ∧ Written 16 u' (clearWBuffert w) := by
  obtain ⟨u', hrun, hlen, hget⟩ := @foldlM_write UInt32 (fun _ => 0) (fun _ => .ok 0)
    (List.range 16).reverse u (fun _ _ => rfl) (fun i hi => by
      rw [List.mem_reverse, List.mem_range] at hi
      omega)
  refine ⟨u', hrun, written_of_getElem? hu (loaded_clearWBuffert hw).length hlen hget ?_ ?_⟩
  · intro i hi
    rw [List.mem_reverse, List.mem_range]
    exact hi
  · intro i hi
    rw [clearWBuffert, List.getD_eq_getElem?_getD, List.getElem?_append_left (by simpa using hi),
      List.getElem?_replicate_of_lt hi]
    rfl

/-- A byte is written into a word that has been written before. -/
theorem Written.orInto (h : Written 16 u w) {i : ℕ} (hi : i < 64) (x : UInt8) :
    ∃ u', SimpleWeb.orInto u i x = .ok u' ∧ Written 16 u' (orByte w i x) := by
  obtain ⟨u', hwrite, hu'⟩ := h.write (show i / 4 < 80 by omega)
    (w.getD (i / 4) 0 ||| x.toUInt32 <<< UInt32.ofNat ((3 - i % 4) * 8))
    (fun j hj => Or.inr hj)
  refine ⟨u', ?_, hu'⟩
  rw [SimpleWeb.orInto, h.read (by omega), ok_bind, hwrite]

/-- The loop over the words of a block. -/
theorem loadInto_eq {src : Bytes} {c : ℕ} (hc : c + 64 ≤ src.length) (h : Written 0 u w) :
    ∃ u', (List.range 16).foldlM (fun u roundPos => readWord src (c + 4 * roundPos) >>=
        Buffer.write u roundPos) u = .ok u' ∧
      Written 16 u' ((List.range 16).map (fun i => (List.range 4).foldl
        (fun (n : UInt32) k => n <<< 8 ||| ((src.drop c).getD (4 * i + k) 0).toUInt32) 0) ++
          w.drop 16) := by
  obtain ⟨u', hrun, hlen, hget⟩ := @foldlM_write UInt32 _
    (fun roundPos => readWord src (c + 4 * roundPos)) (List.range 16) u
    (fun i hi => by
      rw [List.mem_range] at hi
      exact readWord_eq (by omega))
    (fun i hi => by
      rw [List.mem_range] at hi
      rw [h.length]
      omega)
  refine ⟨u', hrun, written_of_getElem? h.length (loaded_block _ h.length_eq).length hlen hget ?_ ?_⟩
  · intro i hi
    exact List.mem_range.2 hi
  · intro i hi
    rw [List.getD_eq_getElem?_getD, List.getElem?_append_left (by simpa using hi),
      List.getElem?_map, List.getElem?_range hi]
    rfl

theorem blocksInto_zero (src : Bytes) (e : ℤ) (c : ℕ) (p : HashState × Buffer UInt32) :
    blocksInto src e 0 c p = .ok (c, p) := by
  conv => lhs; unfold blocksInto

theorem blocksInto_succ (src : Bytes) (e : ℤ) (fuel c : ℕ) (p : HashState × Buffer UInt32) :
    blocksInto src e (fuel + 1) c p =
      if (c : ℤ) ≤ e then
        (List.range 16).foldlM (fun u roundPos => readWord src (c + 4 * roundPos) >>=
          Buffer.write u roundPos) p.2 >>= fun w => innerHashInto p.1 w >>= fun p =>
            blocksInto src e fuel (c + 64) p
      else .ok (c, p) := by
  conv => lhs; unfold blocksInto

/-- **The complete blocks**: all their bytes are there. -/
theorem blocksInto_eq (src : Bytes) (fuel : ℕ) : ∀ {c : ℕ} {s : HashState} {u : Buffer UInt32}
    {w : List UInt32}, Written 0 u w → c ≤ src.length → src.length - c ≤ fuel →
    ∃ u', blocksInto src ((src.length : ℤ) - 64) fuel c (s, u) =
        .ok (c + 64 * ((src.length - c) / 64),
          (hashBlocks ((src.length - c) / 64) (src.drop c) (s, w)).2.1, u') ∧
      Written 0 u' (hashBlocks ((src.length - c) / 64) (src.drop c) (s, w)).2.2 := by
  induction fuel with
  | zero =>
      intro c s u w h hc hfuel
      have hnone : (src.length - c) / 64 = 0 := by omega
      rw [hnone, hashBlocks_zero, Nat.mul_zero, Nat.add_zero, blocksInto_zero]
      exact ⟨u, rfl, h⟩
  | succ fuel ih =>
      intro c s u w h hc hfuel
      by_cases hmore : c + 64 ≤ src.length
      · obtain ⟨u₁, hload, hu₁⟩ := loadInto_eq hmore h
        obtain ⟨u₂, hinner, hu₂⟩ := hu₁.innerHashInto s
        have hblocks : (src.length - c) / 64 = (src.length - (c + 64)) / 64 + 1 := by omega
        have hdrop : (src.drop c).drop 64 = src.drop (c + 64) := List.drop_drop
        have hcount : c + 64 * ((src.length - (c + 64)) / 64 + 1) =
            c + 64 + 64 * ((src.length - (c + 64)) / 64) := by omega
        rw [hblocks, hashBlocks_succ, hdrop, hcount, blocksInto_succ, if_pos (by omega), hload,
          ok_bind, hinner, ok_bind]
        generalize innerHash s _ = q at *
        obtain ⟨s', w'⟩ := q
        exact ih (hu₂.mono (Nat.zero_le 16)) hmore (by omega)
      · have hnone : (src.length - c) / 64 = 0 := by omega
        rw [hnone, hashBlocks_zero, Nat.mul_zero, Nat.add_zero, blocksInto_succ,
          if_neg (by omega)]
        exact ⟨u, rfl, h⟩

/-- The loop over the bytes that are left. -/
theorem restInto_eq {src : Bytes} {c : ℕ} (hc : c + n ≤ src.length) (hn : n < 64)
    (h : Written 16 u w) :
    ∃ u', (List.range n).foldlM (fun u lastBlockBytes =>
        charAt src (lastBlockBytes + c) >>= fun byte => orInto u lastBlockBytes byte) u = .ok u' ∧
      Written 16 u' ((List.range n).foldl (fun w i => orByte w i ((src.drop c).getD i 0)) w) := by
  induction n with
  | zero => exact ⟨u, rfl, h⟩
  | succ n ih =>
      obtain ⟨u₁, hrun, hu₁⟩ := ih (by omega) (by omega)
      have hbyte : charAt src (n + c) = .ok ((src.drop c).getD n 0) := by
        rw [charAt_of_lt (by omega), List.getD_eq_getElem?_getD, List.getElem?_drop, Nat.add_comm c n,
          List.getElem?_eq_getElem (by omega)]
        rfl
      obtain ⟨u₂, hor, hu₂⟩ := hu₁.orInto (show n < 64 by omega) ((src.drop c).getD n 0)
      refine ⟨u₂, ?_, ?_⟩
      · rw [List.range_succ, List.foldlM_append, hrun, ok_bind, List.foldlM_cons, hbyte, ok_bind, hor,
          ok_bind, List.foldlM_nil, pure_eq_ok]
      · rw [List.range_succ, List.foldl_append, List.foldl_cons, List.foldl_nil]
        exact hu₂

/-- The hash is written from its last byte to its first. -/
theorem writeHash_eq (s : HashState) {hash : Buffer UInt8} (hhash : hash.length = 20) :
    (List.range 20).reverse.foldlM (fun hash hashByte =>
      (Buffer.read (s.words.map some) (hashByte / 4) >>= fun word =>
        Buffer.write hash hashByte
          (word >>> UInt32.ofNat ((3 - hashByte % 4) * 8)).toUInt8 : Except Fault (Buffer UInt8)))
        hash =
      .ok (((List.range 20).map fun hashByte =>
        (s.words.getD (hashByte / 4) 0 >>> UInt32.ofNat ((3 - hashByte % 4) * 8)).toUInt8).map
          some) := by
  have hread : ∀ i < 20, Buffer.read (s.words.map some) (i / 4) = .ok (s.words.getD (i / 4) 0) := by
    intro i hi
    have hlen : s.words.length = 5 := rfl
    simp only [Buffer.read, List.getElem?_map, List.getD_eq_getElem?_getD,
      List.getElem?_eq_getElem (show i / 4 < s.words.length by omega), Option.map_some,
      Option.getD_some]
  obtain ⟨u', hrun, hlen, hget⟩ := @foldlM_write UInt8 _
    (fun i => Buffer.read (s.words.map some) (i / 4) >>= fun word =>
      .ok (word >>> UInt32.ofNat ((3 - i % 4) * 8)).toUInt8) (List.range 20).reverse hash
    (fun i hi => by
      rw [List.mem_reverse, List.mem_range] at hi
      rw [hread i hi, ok_bind])
    (fun i hi => by
      rw [List.mem_reverse, List.mem_range] at hi
      omega)
  simp only [bind_assoc, ok_bind] at hrun
  rw [hrun]
  congr 1
  refine List.ext_getElem? ?_
  intro i
  rw [hget, List.getElem?_map, List.getElem?_map]
  by_cases hi : i < 20
  · rw [if_pos (by rw [List.mem_reverse, List.mem_range]; exact hi), List.getElem?_range hi]
    rfl
  · rw [if_neg (by rw [List.mem_reverse, List.mem_range]; exact hi),
      List.getElem?_eq_none (by omega), List.getElem?_eq_none (by rw [List.length_range]; omega)]
    rfl

/-- The last block, and the hash. -/
theorem finishInto_eq (h : Written 16 u w) (s : HashState) (len : UInt32) {hash : Buffer UInt8}
    (hhash : hash.length = 20) :
    (u.write 15 len >>= fun w => innerHashInto s w >>= fun p =>
      (List.range 20).reverse.foldlM (fun hash hashByte =>
        (Buffer.read (p.1.words.map some) (hashByte / 4) >>= fun word =>
          Buffer.write hash hashByte
            (word >>> UInt32.ofNat ((3 - hashByte % 4) * 8)).toUInt8 : Except Fault (Buffer UInt8)))
          hash) =
      .ok (((List.range 20).map fun hashByte =>
        ((innerHash s (w.set 15 len)).1.words.getD (hashByte / 4) 0 >>>
          UInt32.ofNat ((3 - hashByte % 4) * 8)).toUInt8).map some) := by
  obtain ⟨u', hwrite, hu'⟩ := h.write (show 15 < 80 by decide) len (fun j hj => Or.inr hj)
  obtain ⟨u'', hinner, -⟩ := hu'.innerHashInto s
  rw [hwrite, ok_bind, hinner, ok_bind]
  exact writeHash_eq _ hhash

/-- No access is out of bounds, and nothing that is read has not been written, whatever the length of
the message. -/
theorem calcSha1Into_ok (src : Bytes) {hash : Buffer UInt8} (hhash : hash.length = 20) :
    calcSha1Into src hash = .ok ((calcSha1 src).1.map some) := by
  have hstart : Written 0 (List.replicate 80 none) (List.replicate 80 0) :=
    ⟨List.length_replicate, List.length_replicate, nofun⟩
  obtain ⟨u₁, hblocks, hu₁⟩ := @blocksInto_eq src src.length 0
    ⟨0x67452301, 0xefcdab89, 0x98badcfe, 0x10325476, 0xc3d2e1f0⟩ _ _ hstart (Nat.zero_le _)
    (by omega)
  have hdrop := (hashBlocks_spec (src.length / 64) src
    (⟨0x67452301, 0xefcdab89, 0x98badcfe, 0x10325476, 0xc3d2e1f0⟩, List.replicate 80 0)
    List.length_replicate).1
  rw [Nat.sub_zero, List.drop_zero, Nat.zero_add] at hblocks
  rw [Nat.sub_zero, List.drop_zero] at hu₁
  unfold calcSha1 calcSha1Into
  dsimp only
  rw [hblocks, ok_bind]
  dsimp only
  generalize hashBlocks _ _ _ = q at *
  obtain ⟨rest, result, w⟩ := q
  dsimp only at *
  have hrest : src.length - 64 * (src.length / 64) = rest.length := by
    rw [hdrop, List.length_drop]
  obtain ⟨u₂, hclear, hu₂⟩ := clearInto_eq hu₁.length hu₁.length_eq
  obtain ⟨u₃, hloop, hu₃⟩ := @restInto_eq u₂ (clearWBuffert w) (src.length - 64 * (src.length / 64))
    src (64 * (src.length / 64)) (by omega) (by omega) hu₂
  obtain ⟨u₄, hor, hu₄⟩ := hu₃.orInto
    (show src.length - 64 * (src.length / 64) < 64 by omega) 0x80
  rw [hclear, ok_bind, hloop, ok_bind, hor, ok_bind, hrest]
  rw [← hdrop, hrest] at hu₄
  generalize orByte _ rest.length 0x80 = w₄ at *
  split
  · next hlong =>
      obtain ⟨u₅, hinner, hu₅⟩ := hu₄.innerHashInto result
      obtain ⟨u₆, hclear', hu₆⟩ := clearInto_eq hu₅.length hu₅.length_eq
      rw [hinner, ok_bind]
      dsimp only
      rw [hclear', ok_bind, pure_eq_ok, ok_bind]
      exact finishInto_eq hu₆ _ _ hhash
  · next hlong =>
      rw [pure_eq_ok, ok_bind]
      exact finishInto_eq hu₄ _ _ hhash

/-- **No access is out of bounds, and nothing that is read has not been written**, whatever the length
of the message; and every byte of the hash is written, whatever was there before. -/
theorem calcSha1_inBounds (src : Bytes) :
    ∃ digest : Digest, ∀ hash : Buffer UInt8, hash.length = 20 →
      calcSha1Into src hash = .ok (digest.1.map some) :=
  ⟨calcSha1 src, fun _ hhash => calcSha1Into_ok src hhash⟩

/-- **`calcSha1` writes the hash of the standard**, if the length of the message in bits fits into a
word. -/
theorem calcSha1_isSha1 {src : Bytes} (hlen : src.length < 2 ^ 29) {hash : Buffer UInt8}
    (hhash : hash.length = 20) :
    calcSha1Into src hash = .ok ((Sha1.digest src).map some) := by
  rw [calcSha1Into_ok src hhash, calcSha1_val src hlen]

theorem calcSha1_isSha1_abc :
    calcSha1Into (ascii "abc") (List.replicate 20 none) =
      .ok ((Sha1.digest (ascii "abc")).map some) :=
  calcSha1_isSha1 (by decide) List.length_replicate

end SimpleWeb
