import DriversLab.Lib.Lts
import DriversLab.Lib.Spool
import DriversLab.Short.Text

/-!
# ShortPrint.Reading — the times that `read` returns

Each run of `shortp_do_work` ends with a line that gives the time of the last interrupt, put
into a page of its own. The page "is allowed to overrun if the reader isn't fast enough".

* `InSys`: the page, and `shortp_read` step by step;
* `times_iff`: whenever the lines are as long as their format says, overruns are what loses
  lines, and nothing else: along every run no line is lost exactly as long as each finds
  room, and then the reads return the lines in order.
-/

namespace ShortPrint

open Lts Ring

/-- `shortp_in_buffer` with its two pointers, and the reading process. -/
abbrev InSys := Spool.State Char

/-- `PAGE_SIZE`. -/
def inSize : ℤ := 4096

/-- The end of `shortp_do_work`, with what `shortp_tv` holds, or a step of `shortp_read`. -/
inductive InAct where
  | doWork (tvSec tvUsec : ℤ)
  | read (a : Spool.Read)
deriving DecidableEq

namespace InSys

/-- `"%08u.%06u\n"`, as `short` prints it, too. -/
def line : InAct → List Char
  | .doWork tvSec tvUsec => (Short.Record.time tvSec tvUsec).text
  | .read _ => []

def guard (s : InSys) : InAct → Prop
  | .doWork _ _ => True
  | .read a => s.readGuard a

instance (s : InSys) (a : InAct) : Decidable (guard s a) := by
  cases a <;> unfold guard <;> infer_instance

def update (s : InSys) (a : InAct) : InSys :=
  match a with
  | .doWork _ _ => s.print inSize (line a) (Char.ofNat 0)
  | .read a => s.read inSize a

def step : InSys → InAct → Option InSys := guarded guard update

/-- The module once it is loaded. -/
def loaded (page : ℤ → Char) : InSys := ⟨page, 0, 0, .idle, []⟩

/-- The system with all lines that were put. -/
def lineStep : InSys × List Char → InAct → Option (InSys × List Char) :=
  recorded step fun _ a total => total ++ line a

/-! ## What is promised, and when it holds -/

/-- A line is appended to what is unread. -/
def Unlost (c : InSys × List Char) (a : InAct) : Prop :=
  ∀ tvSec tvUsec, a = .doWork tvSec tvUsec →
    (update c.1 a).unread inSize = c.1.unread inSize ++ line a

def Room (c : InSys × List Char) : InAct → Prop
  | .doWork _ _ => 16 ≤ free inSize c.1.tail c.1.head
  | .read _ => True

/-- The time has no more digits than its fields. -/
def Fitting (_ : InSys × List Char) : InAct → Prop
  | .doWork tvSec tvUsec => (Short.Record.time tvSec tvUsec).Fits
  | .read _ => True

structure Inv (c : InSys × List Char) : Prop where
  spool : Spool.Inv inSize c.2 c.1
  aligned : 16 ∣ c.1.head

section Steps

variable {c c' : InSys × List Char} {a : InAct}

theorem line_length {tvSec tvUsec : ℤ} (hfits : Fitting c (.doWork tvSec tvUsec)) :
    (line (.doWork tvSec tvUsec)).length = 16 :=
  (Short.text_length_iff (.time tvSec tvUsec)).mpr hfits

theorem head_room (hi : Inv c) : c.1.head + 16 ≤ inSize := by
  have hlt := hi.spool.within.wpLt
  have hdvd := hi.aligned
  unfold inSize at hlt ⊢
  omega

theorem unlost_iff (hi : Inv c) (hfits : Fitting c a) : Unlost c a ↔ Room c a := by
  have hend := head_room hi
  cases a with
  | read a =>
      constructor
      · exact fun _ => trivial
      · intro _ tvSec tvUsec hread
        cases hread
  | doWork tvSec tvUsec =>
      have hlen := line_length hfits
      have hfield : c.1.head + (line (.doWork tvSec tvUsec)).length ≤ inSize := by
        rw [hlen]
        exact hend
      have hkept := Spool.print_kept_iff (Char.ofNat 0) hi.spool.within hfield
      rw [hlen] at hkept
      constructor
      · exact fun h => hkept.mp (h tvSec tvUsec rfl)
      · exact fun hroom _ _ _ => hkept.mpr hroom

theorem inv_step (hi : Inv c) (hfits : Fitting c a) (hroom : Room c a)
    (hs : lineStep c a = some c') : Inv c' := by
  rcases c with ⟨s, total⟩
  rcases c' with ⟨s', total'⟩
  rcases recorded_eq_some.mp hs with ⟨hstep, htotal⟩
  simp only at hstep htotal
  rcases guarded_eq_some.mp hstep with ⟨hg, rfl⟩
  subst htotal
  have hend := head_room hi
  cases a with
  | doWork tvSec tvUsec =>
      have hlen := line_length hfits
      constructor
      · refine Spool.inv_print hi.spool ?_ ?_
        · rw [hlen]
          exact hend
        · rw [hlen]
          exact hroom
      · have hdvd : 16 ∣ s.head := hi.aligned
        refine Spool.dvd_incr hdvd ?_
        rw [hlen]
        exact Int.dvd_refl 16
  | read a =>
      have hread := Spool.inv_read hi.spool hg
      constructor
      · show Spool.Inv inSize (total ++ []) (s.read inSize a)
        rw [List.append_nil]
        exact hread
      · have hhead : (s.read inSize a).head = s.head := by
          cases a <;> simp only [Spool.State.read] <;> split <;> rfl
        show 16 ∣ (s.read inSize a).head
        rw [hhead]
        exact hi.aligned

end Steps

theorem inv_loaded (page : ℤ → Char) : Inv (loaded page, []) := by
  constructor
  · constructor
    · constructor <;> simp [loaded, inSize]
    · simp [loaded, Spool.State.unread]
    · trivial
  · exact Int.dvd_zero 16

/-- One reading process, any interleaving with the work function. -/
theorem times_iff {page : ℤ → Char} {as : List InAct} {c : InSys × List Char}
    (hr : run lineStep (loaded page, []) as = some c)
    (hfits : Along lineStep Fitting (loaded page, []) as) :
    (Along lineStep Unlost (loaded page, []) as ↔ Along lineStep Room (loaded page, []) as) ∧
    (Along lineStep Room (loaded page, []) as → c.2 = c.1.delivered ++ c.1.unread inSize) := by
  constructor
  · have hiff : ∀ c a, Inv c → Fitting c a → (Unlost c a ↔ Room c a) := by
      intro c a hi hfit
      exact unlost_iff hi hfit
    refine along_iff hiff ?_ (inv_loaded page) hfits
    intro c a c' hi hfit hroom hs
    exact inv_step hi hfit hroom hs
  · intro hroom
    have hi : Inv c := by
      refine run_invariant_along ?_ (inv_loaded page) (along_and hfits hroom) hr
      rintro t b t' hi ⟨hfit, hroom⟩ hs
      exact inv_step hi hfit hroom hs
    exact hi.spool.kept

/-- A line, and a read of its first eight characters. -/
def halfLine : List InAct :=
  [.doWork 1 2, .read (.test 8), .read (.size 8)] ++ List.replicate 8 (.read (.copy 8)) ++
    [.read (.advance 8)]

instance (c : InSys × List Char) (a : InAct) : Decidable (Room c a) := by
  cases a <;> unfold Room <;> infer_instance

theorem times_iff_halfLine : ∃ c, run lineStep (loaded fun _ => 'x', []) halfLine = some c ∧
    c.2 = c.1.delivered ++ c.1.unread inSize := by
  have hrun : (run lineStep (loaded fun _ => 'x', []) halfLine).isSome = true := by decide +kernel
  rcases Option.isSome_iff_exists.mp hrun with ⟨c, hc⟩
  refine ⟨c, hc, (times_iff hc ?_).2 (by decide +kernel)⟩
  apply along_of_forall
  intro a ha t
  cases a with
  | read a => trivial
  | doWork tvSec tvUsec =>
      have hline : tvSec = 1 ∧ tvUsec = 2 := by simpa [halfLine] using ha
      rcases hline with ⟨rfl, rfl⟩
      constructor <;> decide

end InSys

end ShortPrint
