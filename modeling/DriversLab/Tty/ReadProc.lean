import DriversLab.Lib.Lts
import DriversLab.Lib.Printf
import DriversLab.Lib.Window
import Mathlib.Logic.Function.Basic

/-!
# Tty.ReadProc — reading `/proc/tty/driver/tiny_tty`

`tiny_read_proc` prints a title and a line for each port that has a record. The reader gets
a window of that text with each call; ports may get their records between the calls.

* `tinyReadProc_window`, `tinyReadProc_eof`: what a call gives, and whether it is the last;
* `pieces_text`: while the ports stay, reads of any sizes give the text;
* `read_iff`: along every run, what has been read is the beginning of the text exactly as
  long as no port gets its record whose line belongs in front of the position.
-/

namespace Tty.Proc

open Lts Printf

/-! ## tiny_read_proc -/

def TINY_TTY_MINORS : ℕ := 4

def PAGE_SIZE : ℕ := 4096

def DRIVER_VERSION : List Char := "v2.0".toList

def title : List Char := "tinyserinfo:1.0 driver:".toList ++ DRIVER_VERSION ++ ['\n']

/-- The line of a port. -/
def line (i : ℕ) : List Char := signedText i ++ ['\n']

/-- A port without a record has none. `table` says which entries of `tiny_table` are not NULL. -/
def portLine (table : ℕ → Bool) (i : ℕ) : Option (List Char) :=
  if table i then some (line i) else none

/-- What a call returns from `*start` on, and `*eof`. -/
structure ReadProc where
  data : List Char
  eof : Bool
deriving DecidableEq, Repr

/-- `tiny_read_proc`. -/
def tinyReadProc (table : ℕ → Bool) (off count : ℕ) : ReadProc :=
  let r := Window.emit (portLine table) off count PAGE_SIZE (List.range TINY_TTY_MINORS) ⟨0, title⟩
  ⟨r.1.window off count, r.2⟩

/-! ## The text -/

/-- The lines of some ports. -/
def linesOf (table : ℕ → Bool) (is : List ℕ) : List Char :=
  (is.filterMap (portLine table)).flatten

def text (table : ℕ → Bool) : List Char := title ++ linesOf table (List.range TINY_TTY_MINORS)

theorem title_length : title.length = 28 := by decide

theorem line_length {i : ℕ} (h : i < TINY_TTY_MINORS) : (line i).length = 2 := by
  revert i
  decide

theorem linesOf_cons (table : ℕ → Bool) (i : ℕ) (is : List ℕ) :
    linesOf table (i :: is) = (if table i then line i else []) ++ linesOf table is := by
  unfold linesOf
  cases h : table i <;> simp [portLine, h]

theorem linesOf_append (table : ℕ → Bool) (is js : List ℕ) :
    linesOf table (is ++ js) = linesOf table is ++ linesOf table js := by
  rw [linesOf, List.filterMap_append, List.flatten_append]
  rfl

theorem linesOf_length {table : ℕ → Bool} {is : List ℕ} (h : ∀ i ∈ is, i < TINY_TTY_MINORS) :
    (linesOf table is).length ≤ 2 * is.length := by
  induction is with
  | nil => exact Nat.le_refl 0
  | cons i is ih =>
      rcases List.forall_mem_cons.mp h with ⟨hi, his⟩
      have hrest := ih his
      have hline := line_length hi
      rw [linesOf_cons, List.length_append, List.length_cons]
      split
      · omega
      · rw [List.length_nil]
        omega

/-- The page has room for it. -/
theorem text_fits (table : ℕ → Bool) : (text table).length < PAGE_SIZE := by
  have hlines : (linesOf table (List.range TINY_TTY_MINORS)).length ≤ 2 * _ :=
    linesOf_length fun _ hi => List.mem_range.mp hi
  rw [List.length_range] at hlines
  rw [text, List.length_append, title_length]
  unfold TINY_TTY_MINORS PAGE_SIZE at *
  omega

theorem title_shows (off : ℕ) : (⟨0, title⟩ : Window.Page Char).Shows title off :=
  ⟨rfl, Nat.zero_le _, Nat.zero_le _⟩

theorem tinyReadProc_window (table : ℕ → Bool) (off count : ℕ) :
    (tinyReadProc table off count).data = ((text table).drop off).take count :=
  Window.emit_window (title_shows off) (text_fits table)

/-- `*eof` says that nothing is left behind the window, or that no port has a record. -/
theorem tinyReadProc_eof (table : ℕ → Bool) (off count : ℕ) :
    (tinyReadProc table off count).eof = true ↔
      (∀ i < TINY_TTY_MINORS, table i = false) ∨ (text table).length ≤ off + count := by
  have hdone : (tinyReadProc table off count).eof = true ↔ _ :=
    Window.emit_done (title_shows off) (text_fits table)
  rw [hdone, List.filterMap_eq_nil_iff]
  refine or_congr ?_ Iff.rfl
  constructor
  · intro h i hi
    have hnone := h i (List.mem_range.mpr hi)
    unfold portLine at hnone
    split at hnone
    · cases hnone
    · rename_i hfalse
      exact Bool.eq_false_iff.mpr hfalse
  · intro h i hi
    rw [portLine, h i (List.mem_range.mp hi)]
    rfl

/-- While no port gets a record, reads of any sizes give the text. -/
theorem pieces_text (table : ℕ → Bool) (counts : List ℕ) :
    Window.pieces (fun off count => (tinyReadProc table off count).data) 0 counts =
      (text table).take counts.sum :=
  Window.pieces_eq (tinyReadProc_window table) 0 counts

/-! ## A reader -/

/-- A reader of the file, whose position is behind what it has got. -/
structure Reader where
  table : ℕ → Bool
  got : List Char

inductive Act where
  /-- `tiny_open` gives port `i` its record. -/
  | create (i : ℕ)
  | read (count : ℕ)
deriving DecidableEq, Repr

namespace Reader

def guard (s : Reader) : Act → Prop
  | .create i => i < TINY_TTY_MINORS ∧ s.table i = false
  | .read _ => True

instance (s : Reader) : ∀ a : Act, Decidable (s.guard a)
  | .create _ => inferInstanceAs (Decidable (_ ∧ _))
  | .read _ => inferInstanceAs (Decidable True)

def update (s : Reader) : Act → Reader
  | .create i => { s with table := Function.update s.table i true }
  | .read count => { s with got := s.got ++ (tinyReadProc s.table s.got.length count).data }

def step : Reader → Act → Option Reader := guarded guard update

/-- The file has just been opened. -/
def opened (table : ℕ → Bool) : Reader := ⟨table, []⟩

/-- What has been read is the beginning of the text. -/
def Consistent (s : Reader) : Prop := s.got <+: text s.table

/-- Where the line of a port belongs. -/
def place (s : Reader) (i : ℕ) : ℕ := (title ++ linesOf s.table (List.range i)).length

/-- A line does not come in front of the position. -/
def Behind (s : Reader) : Act → Prop
  | .create i => s.got.length ≤ s.place i
  | .read _ => True

end Reader

section Steps

variable {s : Reader} {table table' : ℕ → Bool} {is : List ℕ} {i : ℕ}

theorem linesOf_congr (h : ∀ i ∈ is, table i = table' i) :
    linesOf table is = linesOf table' is := by
  induction is with
  | nil => rfl
  | cons i is ih =>
      rcases List.forall_mem_cons.mp h with ⟨hi, his⟩
      rw [linesOf_cons, linesOf_cons, hi, ih his]

theorem line_head : ∀ i < TINY_TTY_MINORS, ∀ j < TINY_TTY_MINORS, i ≠ j →
    (line i).head? ≠ (line j).head? := by decide

theorem line_ne_nil (i : ℕ) : line i ≠ [] := List.append_ne_nil_of_right_ne_nil _ (by decide)

/-- Lines begin with the line of a port. -/
theorem linesOf_head {c : Char} (h : c ∈ (linesOf table is).head?) :
    ∃ i ∈ is, c ∈ (line i).head? := by
  induction is with
  | nil => cases h
  | cons i is ih =>
      rw [linesOf_cons] at h
      split at h
      · rw [List.head?_append_of_ne_nil _ (line_ne_nil i)] at h
        exact ⟨i, List.mem_cons_self, h⟩
      · obtain ⟨j, hj, hc⟩ := ih h
        exact ⟨j, List.mem_cons_of_mem _ hj, hc⟩

/-- The ports in front of `i`, and those behind it. -/
theorem range_split (hi : i < TINY_TTY_MINORS) : ∃ behind : List ℕ,
    List.range TINY_TTY_MINORS = List.range i ++ i :: behind ∧
      ∀ j ∈ behind, i < j ∧ j < TINY_TTY_MINORS := by
  obtain ⟨m, hm⟩ := Nat.exists_eq_add_of_lt hi
  refine ⟨(List.range m).map fun j => i + (j + 1), ?_, ?_⟩
  · rw [hm, Nat.add_assoc, List.range_add, List.range_succ_eq_map, List.map_cons, List.map_map]
    rfl
  · intro j hj
    obtain ⟨k, hk, rfl⟩ := List.mem_map.mp hj
    have hlt := List.mem_range.mp hk
    omega

/-- The text with a line that was not there. -/
theorem text_create (hi : i < TINY_TTY_MINORS) (hnone : table i = false) : ∃ rest : List Char,
    text table = (title ++ linesOf table (List.range i)) ++ rest ∧
      text (Function.update table i true) =
        (title ++ linesOf table (List.range i)) ++ (line i ++ rest) ∧
      ∀ c ∈ rest.head?, c ∉ (line i).head? := by
  obtain ⟨behind, hsplit, hbehind⟩ := range_split hi
  have hsame : ∀ is : List ℕ, i ∉ is →
      linesOf (Function.update table i true) is = linesOf table is := by
    intro is hmem
    refine linesOf_congr fun j hj => Function.update_of_ne ?_ _ _
    rintro rfl
    exact hmem hj
  refine ⟨linesOf table behind, ?_, ?_, ?_⟩
  · rw [text, hsplit, linesOf_append, linesOf_cons, hnone, List.append_assoc]
    rfl
  · rw [text, hsplit, linesOf_append, linesOf_cons, Function.update_self,
      hsame _ List.not_mem_range_self, hsame _ fun hmem => Nat.lt_irrefl _ (hbehind i hmem).1,
      List.append_assoc]
    rfl
  · intro c hc hline
    obtain ⟨j, hj, hcj⟩ := linesOf_head hc
    obtain ⟨hlt, hjlt⟩ := hbehind j hj
    exact line_head i hi j hjlt (by omega) (hline.trans hcj.symm)

theorem read_consistent (h : s.Consistent) (count : ℕ) : (s.update (.read count)).Consistent := by
  obtain ⟨rest, hrest⟩ := h
  show s.got ++ (tinyReadProc s.table s.got.length count).data <+: text s.table
  rw [tinyReadProc_window, ← hrest, List.drop_left, List.prefix_append_right_inj]
  exact List.take_prefix count rest

/-- One step keeps what has been read the beginning of the text exactly if it adds no line
in front of the position. -/
theorem update_consistent (h : s.Consistent) {a : Act} (hg : s.guard a) :
    (s.update a).Consistent ↔ s.Behind a := by
  cases a with
  | read count => exact iff_of_true (read_consistent h count) trivial
  | create i =>
      obtain ⟨rest, hold, hnew, hdiff⟩ := text_create hg.1 hg.2
      have hprefix : s.got <+: text s.table := h
      rw [hold] at hprefix
      show s.got <+: text (Function.update s.table i true) ↔ s.got.length ≤ s.place i
      rw [hnew]
      exact Window.prefix_insert_iff hprefix hdiff (line_ne_nil i)

end Steps

/-- A reader with pieces of any sizes, and ports that get their records in between: what has
been read is the beginning of the text after every step exactly if no line comes in front of
the position. Every call gives the window of the text that it is asked for, and says that it
is the last exactly if nothing is left behind the window, or if no port has a record. -/
theorem read_iff {table : ℕ → Bool} {as : List Act} {s : Reader}
    (hr : run Reader.step (Reader.opened table) as = some s) :
    (Along Reader.step (fun s a => ∀ s', s.step a = some s' → s'.Consistent)
        (Reader.opened table) as ↔
      Along Reader.step Reader.Behind (Reader.opened table) as) ∧
    ∀ (ports : ℕ → Bool) (off count : ℕ),
      (tinyReadProc ports off count).data = ((text ports).drop off).take count ∧
      ((tinyReadProc ports off count).eof = true ↔
        (∀ i < TINY_TTY_MINORS, ports i = false) ∨ (text ports).length ≤ off + count) := by
  constructor
  · exact along_keeps_iff (fun _ _ hs hg => update_consistent hs hg)
      (List.nil_prefix : [] <+: text table) hr
  · intro ports off count
    exact ⟨tinyReadProc_window ports off count, tinyReadProc_eof ports off count⟩

instance (s : Reader) : ∀ a : Act, Decidable (s.Behind a)
  | .create _ => inferInstanceAs (Decidable (_ ≤ _))
  | .read _ => inferInstanceAs (Decidable True)

/-- The line of port 2 has been begun when another port is opened. -/
def inserted (i : ℕ) : List Act := [.read 29, .create i, .read 9]

/-- That of port 1 comes in front of it, that of port 3 does not. -/
theorem read_iff_inserted :
    (¬ Along Reader.step (fun s a => ∀ s', s.step a = some s' → s'.Consistent)
      (Reader.opened fun i => i = 2) (inserted 1)) ∧
    Along Reader.step (fun s a => ∀ s', s.step a = some s' → s'.Consistent)
      (Reader.opened fun i => i = 2) (inserted 3) := by
  constructor
  · obtain ⟨s, hs⟩ := Option.isSome_iff_exists.mp
      (show (run Reader.step (Reader.opened fun i => i = 2) (inserted 1)).isSome = true by decide)
    rw [(read_iff hs).1]
    decide
  · obtain ⟨s, hs⟩ := Option.isSome_iff_exists.mp
      (show (run Reader.step (Reader.opened fun i => i = 2) (inserted 3)).isSome = true by decide)
    rw [(read_iff hs).1]
    decide

end Tty.Proc
