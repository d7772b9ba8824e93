/-
**SHA-1 (FIPS 180-4).**

A message is padded to whole blocks of 64 octets: behind it come one bit that is set, as many zeros as
are needed, and the length of the message in bits.  Each block is taken for sixteen words; the schedule
goes on from them to eighty, each of which is mixed into five working variables in a round of its own.

Main definitions:

* `Sha1.word`, `Sha1.schedule` — the words of a block, and those of the rounds;
* `Sha1.Vars`, `Sha1.Vars.step`, `Sha1.compress` — the working variables, and what a block does;
* `Sha1.pad`, `Sha1.digest` — the padded message, and the hash.

Main results:

* `Sha1.compress_congr` — a block is known by its sixteen words;
* `Sha1.absorb_append` — **blocks are hashed one after the other**;
* `Sha1.pad_short`, `Sha1.pad_long` — the padded message, with one block for the padding or with two.
-/

import SimpleWeb.Octets

set_option relaxedAutoImplicit false
set_option autoImplicit false

namespace Sha1

abbrev Word := BitVec 32

/-! ### Functions and constants -/

def ch (x y z : Word) : Word := (x &&& y) ^^^ (~~~x &&& z)

def parity (x y z : Word) : Word := x ^^^ y ^^^ z

def maj (x y z : Word) : Word := (x &&& y) ^^^ (x &&& z) ^^^ (y &&& z)

/-- The function of a round. -/
def f (t : ℕ) : Word → Word → Word → Word :=
  if t < 20 then ch else if t < 40 then parity else if t < 60 then maj else parity

/-- The constant of a round. -/
def K (t : ℕ) : Word :=
  if t < 20 then 0x5a827999
  else if t < 40 then 0x6ed9eba1
  else if t < 60 then 0x8f1bbcdc
  else 0xca62c1d6

/-! ### Blocks -/

/-- The number that the four octets of word `t` make. -/
def number (block : List UInt8) (t : ℕ) : ℕ :=
  Octets.ofBytes ((List.range 4).map fun k => block.getD (4 * t + k) 0)

/-- Word `t` of a block. -/
def word (block : List UInt8) (t : ℕ) : Word := BitVec.ofNat 32 (number block t)

theorem number_eq (block : List UInt8) (t : ℕ) :
    number block t = (block.getD (4 * t) 0).toNat * 2 ^ 24 +
      (block.getD (4 * t + 1) 0).toNat * 2 ^ 16 + (block.getD (4 * t + 2) 0).toNat * 2 ^ 8 +
        (block.getD (4 * t + 3) 0).toNat := by
  have hrange : List.range 4 = [0, 1, 2, 3] := rfl
  rw [number, hrange]
  simp only [List.map_cons, List.map_nil, Octets.ofBytes, List.length_cons, List.length_nil,
    Nat.add_zero]
  omega

theorem number_lt (block : List UInt8) (t : ℕ) : number block t < 2 ^ 32 := by
  have h₀ := (block.getD (4 * t) 0).toNat_lt
  have h₁ := (block.getD (4 * t + 1) 0).toNat_lt
  have h₂ := (block.getD (4 * t + 2) 0).toNat_lt
  have h₃ := (block.getD (4 * t + 3) 0).toNat_lt
  rw [number_eq]
  omega

/-- The word of round `t`, for a block whose words are `M`. -/
def schedule (M : ℕ → Word) (t : ℕ) : Word :=
  if t < 16 then M t
  else
    (schedule M (t - 3) ^^^ schedule M (t - 8) ^^^ schedule M (t - 14) ^^^
      schedule M (t - 16)).rotateLeft 1
termination_by t

theorem schedule_lt (M : ℕ → Word) {t : ℕ} (ht : t < 16) : schedule M t = M t := by
  rw [schedule, if_pos ht]

theorem schedule_ge (M : ℕ → Word) {t : ℕ} (ht : 16 ≤ t) :
    schedule M t = (schedule M (t - 3) ^^^ schedule M (t - 8) ^^^ schedule M (t - 14) ^^^
      schedule M (t - 16)).rotateLeft 1 := by
  rw [schedule, if_neg (by omega)]

/-- The first sixteen words decide about the others. -/
theorem schedule_congr {M M' : ℕ → Word} (h : ∀ t < 16, M t = M' t) (t : ℕ) :
    schedule M t = schedule M' t := by
  induction t using Nat.strong_induction_on with
  | _ t ih =>
      by_cases ht : t < 16
      · rw [schedule_lt M ht, schedule_lt M' ht, h t ht]
      · rw [schedule_ge M (by omega), schedule_ge M' (by omega), ih (t - 3) (by omega),
          ih (t - 8) (by omega), ih (t - 14) (by omega), ih (t - 16) (by omega)]

/-- The working variables, and the hash between two blocks. -/
@[ext] structure Vars where
  a : Word
  b : Word
  c : Word
  d : Word
  e : Word

namespace Vars

/-- Round `t` with the word `W`. -/
def step (t : ℕ) (W : Word) (v : Vars) : Vars :=
  ⟨v.a.rotateLeft 5 + f t v.b v.c v.d + v.e + K t + W, v.a, v.b.rotateLeft 30, v.c, v.d⟩

def add (v v' : Vars) : Vars := ⟨v.a + v'.a, v.b + v'.b, v.c + v'.c, v.d + v'.d, v.e + v'.e⟩

def words (v : Vars) : List Word := [v.a, v.b, v.c, v.d, v.e]

end Vars

/-- The first `n` rounds. -/
def rounds (M : ℕ → Word) (n : ℕ) (H : Vars) : Vars :=
  (List.range n).foldl (fun v t => v.step t (schedule M t)) H

@[simp] theorem rounds_zero (M : ℕ → Word) (H : Vars) : rounds M 0 H = H := rfl

theorem rounds_succ (M : ℕ → Word) (n : ℕ) (H : Vars) :
    rounds M (n + 1) H = (rounds M n H).step n (schedule M n) := by
  rw [rounds, List.range_succ, List.foldl_append, rounds]
  rfl

/-- What a block with the words `M` does to the hash. -/
def compress (M : ℕ → Word) (H : Vars) : Vars := H.add (rounds M 80 H)

/-- **A block is known by its sixteen words.** -/
theorem compress_congr {M M' : ℕ → Word} (h : ∀ t < 16, M t = M' t) (H : Vars) :
    compress M H = compress M' H := by
  have hrounds : ∀ n, rounds M n H = rounds M' n H := by
    intro n
    induction n with
    | zero => rfl
    | succ n ih => rw [rounds_succ, rounds_succ, ih, schedule_congr h]
  rw [compress, compress, hrounds]

/-! ### Messages -/

/-- How many octets of zeros there are behind the octet that begins the padding. -/
def zeros (n : ℕ) : ℕ := (119 - n % 64) % 64

/-- The padded message. -/
def pad (msg : List UInt8) : List UInt8 :=
  msg ++ 0x80 :: (List.replicate (zeros msg.length) 0 ++ Octets.toBytes 8 (8 * msg.length))

/-- The hash behind the first `n` blocks. -/
def absorb (n : ℕ) (msg : List UInt8) (H : Vars) : Vars :=
  (List.range n).foldl (fun H k => compress (word (msg.drop (64 * k))) H) H

/-- The hash in front of the first block. -/
def initial : Vars := ⟨0x67452301, 0xefcdab89, 0x98badcfe, 0x10325476, 0xc3d2e1f0⟩

/-- The hash of a message. -/
def digest (msg : List UInt8) : List UInt8 :=
  (absorb ((pad msg).length / 64) (pad msg) initial).words.flatMap fun w =>
    Octets.toBytes 4 w.toNat

@[simp] theorem length_digest (msg : List UInt8) : (digest msg).length = 20 := by
  simp [digest, Vars.words]

/-- The padded message consists of whole blocks. -/
theorem length_pad_mod (msg : List UInt8) : (pad msg).length % 64 = 0 := by
  simp only [pad, zeros, List.length_append, List.length_cons, List.length_replicate,
    Octets.length_toBytes]
  omega

/-- Behind whole blocks the words are those of what follows. -/
theorem number_drop (msg : List UInt8) (n t : ℕ) :
    number (msg.drop (4 * n)) t = number msg (n + t) := by
  simp only [number, List.getD_eq_getElem?_getD, List.getElem?_drop, Nat.mul_add, Nat.add_assoc]

/-- The words in a prefix are those of the whole. -/
theorem number_append {block rest : List UInt8} {t : ℕ} (ht : 4 * t + 4 ≤ block.length) :
    number (block ++ rest) t = number block t := by
  simp only [number]
  congr 1
  refine List.map_congr_left ?_
  intro k hk
  rw [List.mem_range] at hk
  rw [List.getD_eq_getElem?_getD, List.getD_eq_getElem?_getD,
    List.getElem?_append_left (by omega)]

@[simp] theorem absorb_zero (msg : List UInt8) (H : Vars) : absorb 0 msg H = H := by
  rw [absorb, List.range_zero, List.foldl_nil]

theorem absorb_succ (n : ℕ) (msg : List UInt8) (H : Vars) :
    absorb (n + 1) msg H = compress (word (msg.drop (64 * n))) (absorb n msg H) := by
  rw [absorb, List.range_succ, List.foldl_append, List.foldl_cons, List.foldl_nil, absorb]

/-- The first block in front of the others. -/
theorem absorb_cons (n : ℕ) (msg : List UInt8) (H : Vars) :
    absorb (n + 1) msg H = absorb n (msg.drop 64) (compress (word msg) H) := by
  induction n with
  | zero => rw [absorb_succ, absorb_zero, absorb_zero, Nat.mul_zero, List.drop_zero]
  | succ n ih =>
      have hdrop : (msg.drop 64).drop (64 * n) = msg.drop (64 * (n + 1)) := by
        rw [List.drop_drop]
        congr 1
        omega
      rw [absorb_succ, ih, absorb_succ, hdrop]

/-- What follows the blocks does not matter to them. -/
theorem absorb_prefix {msg : List UInt8} {n : ℕ} (hlen : 64 * n ≤ msg.length) (rest : List UInt8)
    (H : Vars) : absorb n (msg ++ rest) H = absorb n msg H := by
  induction n with
  | zero => rw [absorb_zero, absorb_zero]
  | succ n ih =>
      have hblock : ∀ t < 16,
          word ((msg ++ rest).drop (64 * n)) t = word (msg.drop (64 * n)) t := by
        intro t ht
        rw [List.drop_append_of_le_length (by omega), word, word,
          number_append (by rw [List.length_drop]; omega)]
      rw [absorb_succ, absorb_succ, ih (by omega), compress_congr hblock]

/-- The length in the last two words of a block. -/
theorem number_length {front : List UInt8} (hfront : front.length = 56) {n : ℕ} (hn : n < 2 ^ 32) :
    number (front ++ Octets.toBytes 8 n) 14 = 0 ∧ number (front ++ Octets.toBytes 8 n) 15 = n := by
  have hfour : ∀ n, number (Octets.toBytes 4 n) 0 = n % 256 ^ 4 := by
    intro n
    rw [← Octets.ofBytes_toBytes]
    rfl
  have hbehind : ∀ t, number (front ++ Octets.toBytes 8 n) (14 + t) =
      number (Octets.toBytes 8 n) t := by
    intro t
    rw [← number_drop, List.drop_left' (by rw [hfront])]
  have hparts : Octets.toBytes 8 n = Octets.toBytes 4 (n / 256 ^ 4) ++ Octets.toBytes 4 n :=
    Octets.toBytes_add 4 4 n
  constructor
  · rw [hbehind 0, hparts, number_append (by rw [Octets.length_toBytes]), hfour]
    omega
  · have hsecond : number (Octets.toBytes 8 n) 1 = number (Octets.toBytes 4 n) 0 := by
      rw [hparts, ← number_drop _ 1 0, List.drop_left' (by rw [Octets.length_toBytes])]
    rw [hbehind 1, hsecond, hfour]
    omega

/-- **Blocks are hashed one after the other.** -/
theorem absorb_append {msg : List UInt8} {n : ℕ} (hlen : msg.length = 64 * n) (m : ℕ)
    (rest : List UInt8) (H : Vars) :
    absorb (n + m) (msg ++ rest) H = absorb m rest (absorb n msg H) := by
  induction m with
  | zero => rw [Nat.add_zero, absorb_zero, absorb_prefix hlen.ge]
  | succ m ih =>
      have hdrop : (msg ++ rest).drop (64 * (n + m)) = rest.drop (64 * m) := by
        rw [Nat.mul_add, ← hlen, ← List.drop_drop, List.drop_left]
      rw [← Nat.add_assoc, absorb_succ, ih, hdrop, absorb_succ]

/-- The padding fits into the block that the message ends in. -/
theorem pad_short {msg front rest : List UInt8} {n : ℕ} (hmsg : msg = front ++ rest)
    (hfront : front.length = 64 * n) (hrest : rest.length < 56) :
    pad msg = front ++ (rest ++ 0x80 :: (List.replicate (55 - rest.length) 0 ++
      Octets.toBytes 8 (8 * msg.length))) := by
  have hzeros : zeros msg.length = 55 - rest.length := by
    rw [hmsg, List.length_append, hfront, zeros]
    omega
  rw [pad, hzeros, hmsg, List.append_assoc]

/-- The padding needs another block. -/
theorem pad_long {msg front rest : List UInt8} {n : ℕ} (hmsg : msg = front ++ rest)
    (hfront : front.length = 64 * n) (hlow : 56 ≤ rest.length) (hhigh : rest.length < 64) :
    pad msg = front ++ ((rest ++ 0x80 :: List.replicate (63 - rest.length) 0) ++
      (List.replicate 56 0 ++ Octets.toBytes 8 (8 * msg.length))) := by
  have hzeros : zeros msg.length = (63 - rest.length) + 56 := by
    rw [hmsg, List.length_append, hfront, zeros]
    omega
  rw [pad, hzeros, List.replicate_add, hmsg]
  simp

end Sha1
