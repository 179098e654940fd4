import DriversLab.Lib.Ring

/-!
# Lib.Spool — a ring that one consumer empties

Texts are put into a ring at its head, each with a terminator behind it that the head does
not pass. One consumer looks whether head and tail differ, takes what is there in one run,
element by element, and then moves the tail. Nobody takes a lock, and nobody who puts
looks at the tail.

* `State.print`, `State.read`: the two sides;
* `print_kept_iff`: a text is appended to what is held exactly if there is room for it;
* `Inv`: what has been put is what has been delivered and what is held; `inv_print` and
  `inv_read` keep it.
-/

namespace Spool

open Ring

universe u

variable {α : Type u}

/-- Move a pointer into the ring: at its end, or behind, it starts again. -/
def incr (n p : ℤ) (k : ℕ) : ℤ := if n ≤ p + k then 0 else p + k

/-- Where the consumer stands. -/
inductive Consumer (α : Type u) where
  | idle
  /-- It has seen that the ring is not empty, and wants `count` elements. -/
  | awake (count : ℕ)
  /-- It copies `count` elements from the tail on. -/
  | copying (count : ℕ) (got : List α)
deriving DecidableEq

/-- What it has copied of these `count` elements. -/
def Consumer.got (count : ℕ) : Consumer α → Option (List α)
  | .copying c got => if c = count then some got else none
  | _ => none

theorem Consumer.eq_of_got {count : ℕ} {c : Consumer α} {got : List α} (h : got ∈ c.got count) :
    c = .copying count got := by
  cases c with
  | idle => cases h
  | awake k => cases h
  | copying k l =>
      rw [Consumer.got, Option.mem_def, Option.ite_none_right_eq_some] at h
      rcases h with ⟨rfl, hl⟩
      cases hl
      rfl

structure State (α : Type u) where
  mem : ℤ → α
  head : ℤ
  tail : ℤ
  consumer : Consumer α
  delivered : List α

/-- The steps of the consumer. -/
inductive Read where
  | test (count : ℕ)
  | size (count : ℕ)
  | copy (count : ℕ)
  /-- The elements cannot be handed over. -/
  | fault (count : ℕ)
  | advance (count : ℕ)
deriving DecidableEq

namespace State

/-- What the ring holds. -/
def unread (n : ℤ) (s : State α) : List α := content s.mem n s.tail s.head

/-- Put a text, and a terminator behind it. -/
def print (n : ℤ) (s : State α) (text : List α) (term : α) : State α :=
  { s with
    mem := store s.mem s.head (text ++ [term])
    head := incr n s.head text.length }

/-- How many elements the consumer finds in one run. -/
def count0 (n : ℤ) (s : State α) : ℤ :=
  if s.head - s.tail < 0 then n - s.tail else s.head - s.tail

def readGuard (s : State α) : Read → Prop
  | .test _ => s.consumer = .idle ∧ s.head ≠ s.tail
  | .size count => s.consumer = .awake count
  | .copy count => ∃ got ∈ s.consumer.got count, got.length < count
  | .fault count => (s.consumer.got count).isSome = true
  | .advance count => ∃ got ∈ s.consumer.got count, got.length = count

instance [DecidableEq α] (s : State α) (a : Read) : Decidable (s.readGuard a) := by
  cases a <;> unfold readGuard <;> infer_instance

def read (n : ℤ) (s : State α) : Read → State α
  | .test count => { s with consumer := .awake count }
  | .size count => { s with consumer := .copying (min (s.count0 n).toNat count) [] }
  | .copy count =>
      match s.consumer with
      | .copying _ got =>
          { s with consumer := .copying count (got ++ [s.mem (s.tail + got.length)]) }
      | _ => s
  | .fault _ => { s with consumer := .idle }
  | .advance count =>
      match s.consumer with
      | .copying _ got =>
          { s with
            consumer := .idle
            tail := incr n s.tail count
            delivered := s.delivered ++ got }
      | _ => s

end State

/-! ## Room -/

section Print

variable {n : ℤ} {s : State α} {text : List α} {term : α}

theorem incr_eq_advance {p : ℤ} {k : ℕ} (h : p + k ≤ n) : incr n p k = advance n p k := by
  unfold incr advance
  split <;> split <;> omega

/-- Texts of one length keep the head aligned. -/
theorem dvd_incr {k p : ℤ} {m : ℕ} (hp : k ∣ p) (hm : k ∣ m) : k ∣ incr n p m := by
  unfold incr
  split
  · exact Int.dvd_zero k
  · exact Int.dvd_add hp hm

/-- The terminator lies behind the text. -/
theorem store_term (mem : ℤ → α) (a : ℤ) {x : ℤ} (hx : x ≠ a + text.length) :
    store mem a (text ++ [term]) x = store mem a text x := by
  unfold store
  split
  · rename_i hle
    by_cases hlt : (x - a).toNat < text.length
    · rw [List.getElem?_append_left hlt]
    · rw [List.getElem?_eq_none (by simp only [List.length_append, List.length_singleton]; omega),
        List.getElem?_eq_none (by omega)]
  · rfl

variable (term) in
theorem within_print (hw : Within n s.tail s.head) (hend : s.head + text.length ≤ n) :
    Within n (s.print n text term).tail (s.print n text term).head := by
  rcases hw with ⟨hnonneg, hlt, hhead, _⟩
  have hincr : (s.print n text term).head = incr n s.head text.length := rfl
  rw [hincr]
  unfold incr
  constructor
  · exact hnonneg
  · exact hlt
  · split <;> omega
  · split <;> omega

variable (term) in
/-- A text that does not reach over the end of the ring is appended to what is held,
exactly if there is room for it. -/
theorem print_kept_iff (hw : Within n s.tail s.head) (hend : s.head + text.length ≤ n) :
    (s.print n text term).unread n = s.unread n ++ text ↔
      (text.length : ℤ) ≤ free n s.tail s.head := by
  constructor
  · intro heq
    -- one cell stays free, also afterwards
    have hafter := length_add_free (s.print n text term).mem (within_print term hw hend)
    have hbefore := length_add_free s.mem hw
    have hfree := free_nonneg (within_print term hw hend)
    have hlen := congrArg List.length heq
    simp only [State.unread, List.length_append] at hlen
    omega
  · intro hroom
    have hrun : (text.length : ℤ) ≤ writable n s.tail s.head := by
      unfold free at hroom
      unfold writable
      split at hroom <;> split <;> omega
    have happend : content (store s.mem s.head text) n s.tail (advance n s.head text.length) = _ :=
      content_store hw hroom hrun
    show content (store s.mem s.head (text ++ [term])) n s.tail (incr n s.head text.length) = _
    rw [incr_eq_advance hend, State.unread, ← happend]
    apply content_congr (hw.write hrun)
    intro x hx
    apply store_term
    rintro rfl
    -- the terminator is in the free cell, or behind the ring
    rcases hw with ⟨_, _, _, _⟩
    unfold Occupied advance at hx
    unfold free at hroom
    split at hx <;> split at hx <;> split at hroom <;> omega

end Print

/-! ## The invariant -/

/-- What a consumer may rely on where it stands. -/
def ConsumerOk (n : ℤ) (s : State α) : Consumer α → Prop
  | .idle => True
  | .awake _ => s.head ≠ s.tail
  | .copying count got =>
      s.head ≠ s.tail ∧ got.length ≤ count ∧ (count : ℤ) ≤ readable n s.tail s.head ∧
        got = Ring.segment s.mem s.tail got.length

/-- `total` is what has been put so far. -/
structure Inv (n : ℤ) (total : List α) (s : State α) : Prop where
  within : Within n s.tail s.head
  kept : total = s.delivered ++ s.unread n
  consumer : ConsumerOk n s s.consumer

section Steps

variable {n : ℤ} {s : State α} {total text : List α} {term : α}

theorem segment_eq_of_content {mem mem' : ℤ → α} {rp wp wp' : ℤ} {k : ℕ} {more : List α}
    (hw : Within n rp wp) (hw' : Within n rp wp') (hne : rp ≠ wp) (hne' : rp ≠ wp')
    (hk : (k : ℤ) ≤ readable n rp wp) (hk' : (k : ℤ) ≤ readable n rp wp')
    (heq : content mem' n rp wp' = content mem n rp wp ++ more) :
    Ring.segment mem' rp k = Ring.segment mem rp k := by
  rw [content_take hw hne hk, content_take hw' hne' hk', List.append_assoc] at heq
  exact (List.append_inj heq (by rw [segment_length, segment_length])).1

/-- Somebody puts a text for which there is room. -/
theorem inv_print (hi : Inv n total s) (hend : s.head + text.length ≤ n)
    (hroom : (text.length : ℤ) ≤ free n s.tail s.head) :
    Inv n (total ++ text) (s.print n text term) := by
  have hkept := (print_kept_iff term hi.within hend).mpr hroom
  have hw' := within_print term hi.within hend
  have hw := hi.within
  have hhead : (s.print n text term).head = incr n s.head text.length := rfl
  have hmore : s.head ≠ s.tail → (s.print n text term).head ≠ s.tail ∧
      readable n s.tail s.head ≤ readable n s.tail (s.print n text term).head := by
    intro hne
    rw [hhead]
    rcases hw with ⟨_, _, _, _⟩
    unfold free at hroom
    unfold incr readable
    split at hroom <;> split <;> split <;> split <;> omega
  constructor
  · exact hw'
  · rw [hkept, hi.kept, List.append_assoc]
    rfl
  · have hc := hi.consumer
    show ConsumerOk n (s.print n text term) s.consumer
    cases hs : s.consumer with
    | idle => trivial
    | awake count =>
        rw [hs] at hc
        exact (hmore hc).1
    | copying count got =>
        rw [hs] at hc
        rcases hc with ⟨hne, hgot, hcount, heq⟩
        rcases hmore hne with ⟨hne', hle⟩
        have hlen : (got.length : ℤ) ≤ readable n s.tail s.head := by omega
        have hseg := segment_eq_of_content hw hw' (Ne.symm hne) (Ne.symm hne') hlen
          (Int.le_trans hlen hle) hkept
        exact ⟨hne', hgot, Int.le_trans hcount hle, heq.trans hseg.symm⟩

/-- The consumer takes a step. -/
theorem inv_read {a : Read} (hi : Inv n total s) (hg : s.readGuard a) :
    Inv n total (s.read n a) := by
  have hc := hi.consumer
  cases a with
  | test count => exact ⟨hi.within, hi.kept, hg.2⟩
  | size count =>
      have hne : s.head ≠ s.tail := by
        rw [show s.consumer = .awake count from hg] at hc
        exact hc
      refine ⟨hi.within, hi.kept, hne, Nat.zero_le _, ?_, rfl⟩
      show ((min (s.count0 n).toNat count : ℕ) : ℤ) ≤ readable n s.tail s.head
      have hcount0 : s.count0 n ≤ readable n s.tail s.head := by
        rcases hi.within with ⟨_, _, _, _⟩
        unfold State.count0 readable
        split <;> split <;> omega
      have hpos := one_le_readable hi.within
      omega
  | copy count =>
      rcases hg with ⟨got, hmem, hlt⟩
      have hgot := Consumer.eq_of_got hmem
      rw [hgot] at hc
      rcases hc with ⟨hne, -, hcount, heq⟩
      have hread : s.read n (.copy count) =
          { s with consumer := .copying count (got ++ [s.mem (s.tail + got.length)]) } := by
        simp only [State.read, hgot]
      rw [hread]
      refine ⟨hi.within, hi.kept, hne, ?_, hcount, ?_⟩
      · rw [List.length_append, List.length_singleton]
        exact hlt
      · rw [List.length_append, List.length_singleton, segment_add, ← heq, segment_one]
  | fault count => exact ⟨hi.within, hi.kept, trivial⟩
  | advance count =>
      rcases hg with ⟨got, hmem, hlen⟩
      have hgot := Consumer.eq_of_got hmem
      rw [hgot] at hc
      rcases hc with ⟨hne, -, hcount, heq⟩
      have hend : s.tail + count ≤ n := by
        rcases hi.within with ⟨_, _, _, _⟩
        unfold readable at hcount
        split at hcount <;> omega
      have hread : s.read n (.advance count) =
          { s with
            consumer := .idle
            tail := advance n s.tail count
            delivered := s.delivered ++ got } := by
        simp only [State.read, hgot, incr_eq_advance hend]
      rw [hread]
      refine ⟨hi.within.read hcount, ?_, trivial⟩
      rw [hi.kept, State.unread, content_take hi.within (Ne.symm hne) hcount, ← hlen, ← heq,
        ← List.append_assoc]
      rfl

end Steps

end Spool
