import Mathlib.Tactic.Common
import Mathlib.Data.List.Basic
import Mathlib.Algebra.GroupWithZero.Nat

/-!
# Lib.Window — a window on a text that is written piece by piece

A handler is asked for `count` entries of a text from position `off` on. It writes the text
from its beginning into a page, forgets what it has written as long as that lies in front of
`off`, and stops when the page reaches behind the window, or is full.

* `Page`, `emit`: the page, and the loop over the pieces;
* `emit_window`: as long as the text fits into a page, the window is that of the whole text;
* `emit_done`: whether the loop has come to its end;
* `pieces_eq`: windows of any sizes, each from where the one before has ended.
-/

namespace Window

universe u v

variable {α : Type u} {ι : Type v}

/-- `page` has been written, and `start` entries in front of it have been forgotten. -/
structure Page (α : Type u) where
  start : ℕ
  page : List α

namespace Page

/-- What has been written in all. -/
def stop (p : Page α) : ℕ := p.start + p.page.length

def write (p : Page α) (seg : List α) : Page α := { p with page := p.page ++ seg }

/-- All of the page is forgotten. -/
def forget (p : Page α) : Page α := ⟨p.stop, []⟩

/-- The window, as far as it lies in the page. -/
def window (p : Page α) (off count : ℕ) : List α :=
  if p.stop ≤ off then []
  else (p.page.drop (off - p.start)).take (if count < p.stop - off then count else p.stop - off)

end Page

variable (piece : ι → Option (List α)) (off count size : ℕ)

/-- The loop; it says whether it has come to the end of the pieces. -/
def emit : List ι → Page α → Page α × Bool
  | [], p => (p, true)
  | i :: is, p =>
      if p.page.length < size then
        match piece i with
        | none => emit is p
        | some seg =>
            let p := p.write seg
            if off + count < p.stop then (p, false)
            else emit is (if p.stop < off then p.forget else p)
      else (p, true)

variable {piece off count size}

/-- The page ends where the text does, and nothing of the window has been forgotten. -/
structure Page.Shows (p : Page α) (text : List α) (off : ℕ) : Prop where
  page : p.page = text.drop p.start
  le : p.start ≤ text.length
  off : p.start ≤ off

variable {p : Page α} {text seg : List α}

theorem Page.Shows.stop (h : p.Shows text off) : p.stop = text.length := by
  rw [Page.stop, h.page, List.length_drop]
  have hle := h.le
  omega

theorem Page.Shows.write (h : p.Shows text off) (seg : List α) :
    (p.write seg).Shows (text ++ seg) off := by
  refine ⟨?_, ?_, h.off⟩
  · show p.page ++ seg = (text ++ seg).drop p.start
    rw [h.page, List.drop_append_of_le_length h.le]
  · show p.start ≤ (text ++ seg).length
    rw [List.length_append]
    exact Nat.le_add_right_of_le h.le

theorem Page.Shows.forget (h : p.Shows text off) (hlt : p.stop < off) :
    p.forget.Shows text off := by
  rw [h.stop] at hlt
  refine ⟨?_, ?_, ?_⟩
  · show [] = text.drop p.stop
    rw [h.stop, List.drop_length]
  · show p.stop ≤ text.length
    exact Nat.le_of_eq h.stop
  · show p.stop ≤ off
    rw [h.stop]
    exact Nat.le_of_lt hlt

/-- The window in the page is the window in the text. -/
theorem Page.Shows.window (h : p.Shows text off) (count : ℕ) :
    p.window off count = (text.drop off).take count := by
  have hdrop : p.page.drop (off - p.start) = text.drop off := by
    rw [h.page, List.drop_drop, Nat.add_sub_of_le h.off]
  unfold Page.window
  rw [h.stop, hdrop]
  split
  · rename_i hle
    rw [List.drop_eq_nil_of_le hle, List.take_nil]
  · split
    · rfl
    · rename_i hcount
      have hlen : (text.drop off).length = text.length - off := List.length_drop
      rw [List.take_of_length_le (Nat.le_of_eq hlen), List.take_of_length_le (by omega)]

/-- How the loop ends: with all the text, which does not reach behind the window if a piece
has been looked at, or as soon as it does. -/
inductive Ends (off count : ℕ) (all text : List α) : Bool → Prop
  | done (h : text = all) (hlen : text.length ≤ off + count) : Ends off count all text true
  | reached (h : text <+: all) (hlen : off + count < text.length) : Ends off count all text false

/-- A page that has been written up to here shows at the end what it would show of all. -/
theorem emit_shows (count : ℕ) {is : List ι} (h : p.Shows text off)
    (hfits : (text ++ (is.filterMap piece).flatten).length < size)
    (hshort : is.filterMap piece = [] → text.length ≤ off + count) :
    ∃ text', (emit piece off count size is p).1.Shows text' off ∧
      Ends off count (text ++ (is.filterMap piece).flatten) text'
        (emit piece off count size is p).2 := by
  induction is generalizing p text with
  | nil =>
      refine ⟨text, h, .done ?_ (hshort rfl)⟩
      simp
  | cons i is ih =>
      -- the page is not full
      have hroom : p.page.length < size := by
        rw [h.page, List.length_drop]
        rw [List.length_append] at hfits
        omega
      cases hpiece : piece i with
      | none =>
          have hskip : emit piece off count size (i :: is) p = emit piece off count size is p := by
            simp only [emit, hroom, if_true, hpiece]
          rw [List.filterMap_cons_none hpiece] at hfits hshort ⊢
          rw [hskip]
          exact ih h hfits hshort
      | some seg =>
          have hwritten := h.write seg
          have hall : text ++ ((i :: is).filterMap piece).flatten =
              (text ++ seg) ++ (is.filterMap piece).flatten := by
            rw [List.filterMap_cons_some hpiece, List.flatten_cons, List.append_assoc]
          have hstep : emit piece off count size (i :: is) p =
              if off + count < (p.write seg).stop then (p.write seg, false)
              else emit piece off count size is
                (if (p.write seg).stop < off then (p.write seg).forget else p.write seg) := by
            simp only [emit, hroom, if_true, hpiece]
          rw [hall] at hfits ⊢
          rw [hstep]
          split
          · rename_i hreached
            rw [hwritten.stop] at hreached
            exact ⟨text ++ seg, hwritten, .reached (List.prefix_append _ _) hreached⟩
          · rename_i hnot
            rw [hwritten.stop] at hnot
            refine ih ?_ hfits fun _ => Nat.le_of_not_lt hnot
            split
            · rename_i hbefore
              exact hwritten.forget hbefore
            · exact hwritten

/-- Behind the window, what follows does not matter. -/
theorem take_drop_of_prefix {text text' : List α} (h : text' <+: text)
    (hlong : off + count ≤ text'.length) :
    (text'.drop off).take count = (text.drop off).take count := by
  obtain ⟨rest, rfl⟩ := h
  rw [List.drop_append_of_le_length (by omega), List.take_append_of_le_length]
  rw [List.length_drop]
  omega

/-- Without a piece to look at, the loop ends at once. -/
theorem emit_of_nil {is : List ι} (h : is.filterMap piece = []) :
    emit piece off count size is p = (p, true) := by
  induction is with
  | nil => rfl
  | cons i is ih =>
      have hnone : piece i = none := by
        by_contra hsome
        obtain ⟨seg, hseg⟩ := Option.ne_none_iff_exists'.mp hsome
        rw [List.filterMap_cons_some hseg] at h
        cases h
      rw [List.filterMap_cons_none hnone] at h
      unfold emit
      simp only [hnone, ih h, ite_self]

/-- The handler gives the window of the whole text. -/
theorem emit_window {is : List ι} (h : p.Shows text off)
    (hfits : (text ++ (is.filterMap piece).flatten).length < size) :
    (emit piece off count size is p).1.window off count =
      ((text ++ (is.filterMap piece).flatten).drop off).take count := by
  by_cases hnil : is.filterMap piece = []
  · rw [emit_of_nil hnil, hnil, List.flatten_nil, List.append_nil]
    exact h.window count
  · obtain ⟨text', hshows, hends⟩ := emit_shows count h hfits fun he => absurd he hnil
    rw [hshows.window count]
    generalize (emit piece off count size is p).2 = ended at hends
    cases hends with
    | done heq _ => rw [heq]
    | reached hprefix hlong => exact take_drop_of_prefix hprefix (Nat.le_of_lt hlong)

/-- It has come to its end if there is no piece, or nothing is left behind the window. -/
theorem emit_done {is : List ι} (h : p.Shows text off)
    (hfits : (text ++ (is.filterMap piece).flatten).length < size) :
    (emit piece off count size is p).2 = true ↔
      is.filterMap piece = [] ∨
        (text ++ (is.filterMap piece).flatten).length ≤ off + count := by
  by_cases hnil : is.filterMap piece = []
  · rw [emit_of_nil hnil]
    exact iff_of_true rfl (.inl hnil)
  · obtain ⟨text', -, hends⟩ := emit_shows count h hfits fun he => absurd he hnil
    generalize (emit piece off count size is p).2 = ended at hends ⊢
    cases hends with
    | done heq hlen => exact iff_of_true rfl (.inr (heq ▸ hlen))
    | reached hprefix hlong =>
        refine iff_of_false Bool.false_ne_true ?_
        rintro (he | hlen)
        · exact hnil he
        · exact absurd (List.IsPrefix.length_le hprefix) (by omega)

/-! ## One window after the other -/

/-- What reads of the sizes `counts` give, each from where the one before has ended. -/
def pieces (read : ℕ → ℕ → List α) : ℕ → List ℕ → List α
  | _, [] => []
  | off, count :: counts =>
      read off count ++ pieces read (off + (read off count).length) counts

/-- They give the text, as far as it has been asked for. -/
theorem pieces_eq {read : ℕ → ℕ → List α}
    (hread : ∀ off count, read off count = (text.drop off).take count) (off : ℕ)
    (counts : List ℕ) : pieces read off counts = (text.drop off).take counts.sum := by
  induction counts generalizing off with
  | nil => rw [pieces, List.sum_nil, List.take_zero]
  | cons count counts ih =>
      rw [pieces, ih, List.sum_cons, hread off count, List.length_take, List.length_drop,
        List.take_add, List.drop_drop]
      congr 2
      rcases Nat.le_total count (text.length - off) with hle | hle
      · rw [Nat.min_eq_left hle]
      · rw [Nat.min_eq_right hle, List.drop_eq_nil_of_le (by omega),
          List.drop_eq_nil_of_le (by omega)]

/-! ## A text that grows in between -/

/-- What has been read of `a ++ b` is the beginning of the text with `c` in between exactly if
it ends in front of `c`, when `b` and `c` begin differently. -/
theorem prefix_insert_iff {got a b c : List α} (h : got <+: a ++ b)
    (hdiff : ∀ x ∈ b.head?, x ∉ c.head?) (hc : c ≠ []) :
    got <+: a ++ (c ++ b) ↔ got.length ≤ a.length := by
  constructor
  · intro h'
    by_contra hlong
    have hlt : a.length < got.length := Nat.lt_of_not_le hlong
    have hat : ∀ {l : List α}, got <+: a ++ l → got[a.length]? = l.head? := by
      rintro l ⟨rest, hrest⟩
      rw [← List.getElem?_append_left hlt, hrest,
        List.getElem?_append_right (Nat.le_refl _), Nat.sub_self, List.head?_eq_getElem?]
    have hsome : got[a.length]? = some got[a.length] := List.getElem?_eq_getElem hlt
    have hb : b.head? = some got[a.length] := (hat h).symm.trans hsome
    have hcb : (c ++ b).head? = some got[a.length] := (hat h').symm.trans hsome
    rw [List.head?_append_of_ne_nil _ hc] at hcb
    exact hdiff _ hb hcb
  · intro hle
    have hprefix : got <+: a := List.prefix_of_prefix_length_le h (List.prefix_append a b) hle
    exact hprefix.trans (List.prefix_append _ _)

end Window
