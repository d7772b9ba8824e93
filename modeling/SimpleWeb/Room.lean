/-
**Rooms, and tables of mailboxes.**

A room has members, who join and leave it, and each of them hears what is told as long as it is
there.  What a member has heard is determined by what has happened in the room since it joined.

A server keeps a table, from keys to the entries under them, and each entry has a mailbox.  When an
entry with an empty mailbox is put into the table its key joins a room; when an entry is taken out its
key leaves it; and what is put into the mailboxes of the entries under some of the keys is said to
them.  It makes no difference that an entry may be put in place of another one, as long as each entry
is kept under its own key only.

Main definitions:

* `Room`, `Room.act` — who is there, and what each of them has heard;
* `Room.after` — the room in which something has happened;
* `Room.Keyed`, `Room.ofTable` — a table of mailboxes as a room.

Main results:

* `Room.after_eq_some_iff` — **what a member has heard**;
* `Room.ofTable_insert`, `Room.ofTable_erase`, `Room.ofTable_tells` — a table behaves as a room.
-/

import SimpleWeb.Machine
import Mathlib.Data.List.AList

set_option relaxedAutoImplicit false
set_option autoImplicit false

/-- What each member has heard; there is nothing for the others. -/
abbrev Room (κ β : Type*) := κ → Option (List β)

namespace Room

variable {ι κ β : Type*} [DecidableEq κ]

/-- What happens in a room. -/
inductive Event (κ β : Type*)
  | joins (k : κ)
  | leaves (k : κ)
  | tells (hears : κ → Bool) (b : β)
  | closes

/-- Nobody is there. -/
def empty : Room κ β := fun _ => none

/-- Something is said to those who hear it. -/
def tells (r : Room κ β) (hears : κ → Bool) (b : β) : Room κ β :=
  fun k => (r k).map fun inbox => inbox ++ if hears k then [b] else []

def act (r : Room κ β) : Event κ β → Room κ β
  | .joins k => Function.update r k (some [])
  | .leaves k => Function.update r k none
  | .tells hears b => r.tells hears b
  | .closes => empty

/-- The room in which something has happened. -/
def after (events : List (Event κ β)) : Room κ β := events.foldl act empty

@[simp] theorem after_nil : after ([] : List (Event κ β)) = empty := rfl

theorem after_append_singleton (events : List (Event κ β)) (e : Event κ β) :
    after (events ++ [e]) = (after events).act e := by
  simp [after]

/-! ### What a member has heard -/

/-- The coming and going of one of them. -/
def Event.Concerns (k : κ) : Event κ β → Prop
  | .joins k' => k' = k
  | .leaves k' => k' = k
  | .tells _ _ => False
  | .closes => True

/-- What one of them hears. -/
def Event.heardBy (k : κ) : Event κ β → Option β
  | .tells hears b => if hears k then some b else none
  | _ => none

/-- One who neither comes nor goes hears what is said. -/
theorem act_of_not_concerns {r : Room κ β} {k : κ} {e : Event κ β} (he : ¬ e.Concerns k) :
    r.act e k = (r k).map (· ++ (e.heardBy k).toList) := by
  cases e with
  | joins k' =>
      have hne : k ≠ k' := fun h => he h.symm
      simp [act, Function.update_of_ne hne, Event.heardBy]
  | leaves k' =>
      have hne : k ≠ k' := fun h => he h.symm
      simp [act, Function.update_of_ne hne, Event.heardBy]
  | tells hears b =>
      simp only [act, tells, Event.heardBy]
      cases hears k <;> rfl
  | closes => exact absurd trivial he

/-- Only one who joins is there after coming or going. -/
theorem act_eq_some_of_concerns {r : Room κ β} {k : κ} {e : Event κ β} (he : e.Concerns k)
    {inbox : List β} : r.act e k = some inbox ↔ e = .joins k ∧ inbox = [] := by
  cases e with
  | joins k' =>
      obtain rfl : k' = k := he
      simp [act, eq_comm]
  | leaves k' =>
      obtain rfl : k' = k := he
      simp [act]
  | tells hears b => exact he.elim
  | closes => simp [act, empty]

/-- **What a member has heard**: it has joined, neither joined again nor left since, and has heard
what was said to it since. -/
theorem after_eq_some_iff {events : List (Event κ β)} {k : κ} {inbox : List β} :
    after events k = some inbox ↔ ∃ pre post, events = pre ++ .joins k :: post ∧
      (∀ e ∈ post, ¬ e.Concerns k) ∧ inbox = post.filterMap (Event.heardBy k) := by
  induction events using List.reverseRecOn generalizing inbox with
  | nil => simp [empty]
  | append_singleton events e ih =>
      rw [after_append_singleton]
      by_cases he : e.Concerns k
      · rw [act_eq_some_of_concerns he]
        constructor
        · rintro ⟨rfl, rfl⟩
          exact ⟨events, [], rfl, by simp, rfl⟩
        · rintro ⟨pre, post, heq, hpost, rfl⟩
          rcases Machine.append_singleton_eq_iff.1 heq with ⟨rfl, rfl, rfl⟩ | ⟨post, rfl, rfl⟩
          · exact ⟨rfl, rfl⟩
          · exact absurd he (hpost e (by simp))
      · rw [act_of_not_concerns he, Option.map_eq_some_iff]
        constructor
        · rintro ⟨inbox, hinbox, rfl⟩
          obtain ⟨pre, post, rfl, hpost, rfl⟩ := ih.1 hinbox
          refine ⟨pre, post ++ [e], by simp, ?_, ?_⟩
          · intro e' he'
            rcases List.mem_append.1 he' with he' | he'
            · exact hpost e' he'
            · rwa [List.mem_singleton.1 he']
          · rw [List.filterMap_append]
            cases hheard : e.heardBy k <;> simp [hheard]
        · rintro ⟨pre, post, heq, hpost, rfl⟩
          rcases Machine.append_singleton_eq_iff.1 heq with ⟨rfl, rfl, rfl⟩ | ⟨post, rfl, rfl⟩
          · exact absurd rfl he
          · refine ⟨post.filterMap (Event.heardBy k), ih.2 ⟨pre, post, rfl, ?_, rfl⟩, ?_⟩
            · intro e' he'
              exact hpost e' (List.mem_append_left _ he')
            · rw [List.filterMap_append]
              cases hheard : e.heardBy k <;> simp [hheard]

/-! ### Tables of mailboxes -/

/-- Each entry is under its own key. -/
def Keyed (key : ι → κ) (table : AList (fun _ : κ => ι)) : Prop :=
  ∀ k x, table.lookup k = some x → key x = k

/-- The entries of a table, with what is in their mailboxes. -/
def ofTable (table : AList (fun _ : κ => ι)) (mailbox : ι → List β) : Room κ β :=
  fun k => (table.lookup k).map mailbox

/-- The entries under some of the keys. -/
def entriesOf (table : AList (fun _ : κ => ι)) (hears : κ → Bool) : List ι :=
  (table.entries.filter fun e => hears e.1).map Sigma.snd

variable {key : ι → κ} {table : AList (fun _ : κ => ι)} {mailbox mailbox' : ι → List β}

theorem Keyed.empty : Keyed key (∅ : AList (fun _ : κ => ι)) := by
  intro k x h
  simp at h

theorem Keyed.insert (h : Keyed key table) (x : ι) : Keyed key (table.insert (key x) x) := by
  intro k y hlookup
  by_cases hk : k = key x
  · rw [hk, AList.lookup_insert] at hlookup
    rw [hk, Option.some.inj hlookup]
  · rw [AList.lookup_insert_ne hk] at hlookup
    exact h k y hlookup

theorem Keyed.erase (h : Keyed key table) (k : κ) : Keyed key (table.erase k) := by
  intro k' x hlookup
  by_cases hk : k' = k
  · rw [hk, AList.lookup_erase] at hlookup
    cases hlookup
  · rw [AList.lookup_erase_ne hk] at hlookup
    exact h k' x hlookup

theorem Keyed.congr {key' : ι → κ} (h : Keyed key table)
    (hkey : ∀ k x, table.lookup k = some x → key' x = key x) : Keyed key' table := by
  intro k x hlookup
  rw [hkey k x hlookup]
  exact h k x hlookup

/-- An entry is among those of its key, and not of another one. -/
theorem Keyed.mem_entriesOf (h : Keyed key table) {hears : κ → Bool} {k : κ} {x : ι}
    (hlookup : table.lookup k = some x) : x ∈ entriesOf table hears ↔ hears k = true := by
  constructor
  · intro hmem
    obtain ⟨e, he, rfl⟩ := List.mem_map.1 hmem
    obtain ⟨he, hhears⟩ := List.mem_filter.1 he
    have hkey := h e.1 e.2 (AList.mem_lookup_iff.2 he)
    rw [← h k e.2 hlookup, hkey]
    exact hhears
  · intro hhears
    have he : (⟨k, x⟩ : (_ : κ) × ι) ∈ table.entries := AList.mem_lookup_iff.1 hlookup
    exact List.mem_map.2 ⟨_, List.mem_filter.2 ⟨he, hhears⟩, rfl⟩

theorem exists_lookup_of_mem_entriesOf {hears : κ → Bool} {x : ι}
    (hmem : x ∈ entriesOf table hears) : ∃ k, table.lookup k = some x := by
  obtain ⟨e, he, rfl⟩ := List.mem_map.1 hmem
  exact ⟨e.1, AList.mem_lookup_iff.2 (List.mem_filter.1 he).1⟩

/-- No entry is found twice. -/
theorem Keyed.nodup_entriesOf (h : Keyed key table) (hears : κ → Bool) :
    (entriesOf table hears).Nodup := by
  refine List.Nodup.map_on ?_ (table.nodupKeys.nodup.filter _)
  rintro ⟨k, x⟩ hx ⟨k', x'⟩ hx' heq
  obtain rfl : x = x' := heq
  have hkey := h k x (AList.mem_lookup_iff.2 (List.mem_filter.1 hx).1)
  have hkey' := h k' x (AList.mem_lookup_iff.2 (List.mem_filter.1 hx').1)
  rw [← hkey, ← hkey']

@[simp] theorem ofTable_empty : ofTable (∅ : AList (fun _ : κ => ι)) mailbox = empty := by
  funext k
  simp [ofTable, empty]

/-- **An entry with an empty mailbox joins.** -/
theorem ofTable_insert (k : κ) {x : ι} (hx : mailbox x = []) :
    ofTable (table.insert k x) mailbox = (ofTable table mailbox).act (.joins k) := by
  funext k'
  by_cases hk : k' = k
  · subst hk
    simp [ofTable, act, hx]
  · simp [ofTable, act, hk]

/-- **An entry that is taken out leaves.** -/
theorem ofTable_erase (k : κ) :
    ofTable (table.erase k) mailbox = (ofTable table mailbox).act (.leaves k) := by
  funext k'
  by_cases hk : k' = k
  · subst hk
    simp [ofTable, act]
  · simp [ofTable, act, hk]

/-- **What is put into mailboxes is said.** -/
theorem ofTable_tells {hears : κ → Bool} {b : β}
    (h : ∀ k x, table.lookup k = some x →
      mailbox' x = mailbox x ++ if hears k then [b] else []) :
    ofTable table mailbox' = (ofTable table mailbox).act (.tells hears b) := by
  funext k
  cases hlookup : table.lookup k with
  | none => simp [ofTable, act, tells, hlookup]
  | some x => simp [ofTable, act, tells, hlookup, h k x hlookup]

end Room
