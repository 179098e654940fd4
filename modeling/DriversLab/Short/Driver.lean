import DriversLab.Lib.CInt
import DriversLab.Lib.Lts
import DriversLab.Lib.Ring

/-!
# Short.Driver — the two halves of the interrupt handling of short

The top half, `short_wq_interrupt` or `short_tl_interrupt`, takes the next entry of the
array of times, queues the bottom half and counts itself; the two differ in what they
queue. The bottom half, `short_do_tasklet`, prints the count and the entries.

The kernel runs neither of them twice at a time. The bottom half is off its queue when
it starts, so it can be queued again from then on. Every load and store of a variable
that the other half uses is a step of its own.

Nothing writes the array of times, the calls of `do_gettimeofday` being commented out:
an entry is its index, and a line of the text buffer says which entry it was printed
from.
-/

namespace Short

open CInt Lts

def NR_TIMEVAL : ℤ := 512

/-- `short_incr_tv`. -/
def shortIncrTv (tv : ℤ) : ℤ := if tv = NR_TIMEVAL - 1 then 0 else tv + 1

/-- What is printed to the text buffer. -/
inductive Line where
  | bhAfter (count : ℤ)
  | time (entry : ℤ)
deriving DecidableEq, Repr

/-- Where the bottom half is. -/
inductive Bottom where
  | idle
  /-- In front of the load of `short_wq_count`. -/
  | started
  /-- In front of the store of zero. -/
  | loaded (savecount : ℤ)
  /-- In front of the print of the count. -/
  | cleared (savecount : ℤ)
  /-- In front of the print of an entry, in the first round of the loop or in a later one. -/
  | printing (first : Bool)
  /-- In front of the move of the tail. -/
  | printed
  /-- In front of the test of the loop. -/
  | moved
deriving DecidableEq, Repr

/-- Where the top half is. -/
inductive Top where
  | idle
  /-- In front of the call that queues the bottom half. -/
  | recorded
  /-- In front of the load of `short_wq_count`. -/
  | scheduled
  /-- In front of the store of the count plus one. -/
  | loaded (count : ℤ)
deriving DecidableEq, Repr

structure ShortDev where
  tvHead : ℤ
  tvTail : ℤ
  shortWqCount : ℤ
  queued : Bool
  bottom : Bottom
  top : Top
  lines : List Line
deriving DecidableEq, Repr

inductive Act where
  | interrupt
  | schedule
  | loadCount
  | storeCount (count : ℤ)
  | runBottom
  | saveCount
  | clearCount (savecount : ℤ)
  | printCount (savecount : ℤ)
  | printTime (first : Bool)
  | moveTail
  | testTail
deriving DecidableEq, Repr

namespace ShortDev

def guard (s : ShortDev) : Act → Prop
  | .interrupt => s.top = .idle
  | .schedule => s.top = .recorded
  | .loadCount => s.top = .scheduled
  | .storeCount count => s.top = .loaded count
  | .runBottom => s.bottom = .idle ∧ s.queued = true
  | .saveCount => s.bottom = .started
  | .clearCount savecount => s.bottom = .loaded savecount
  | .printCount savecount => s.bottom = .cleared savecount
  | .printTime first => s.bottom = .printing first
  | .moveTail => s.bottom = .printed
  | .testTail => s.bottom = .moved

instance (s : ShortDev) : ∀ a : Act, Decidable (guard s a)
  | .runBottom => inferInstanceAs (Decidable (_ ∧ _))
  | .interrupt | .schedule | .loadCount | .storeCount _ | .saveCount | .clearCount _
  | .printCount _ | .printTime _ | .moveTail | .testTail => inferInstanceAs (Decidable (_ = _))

def update (s : ShortDev) : Act → ShortDev
  | .interrupt => { s with tvHead := shortIncrTv s.tvHead, top := .recorded }
  | .schedule => { s with queued := true, top := .scheduled }
  | .loadCount => { s with top := .loaded s.shortWqCount }
  | .storeCount count => { s with shortWqCount := toInt (count + 1), top := .idle }
  | .runBottom => { s with queued := false, bottom := .started }
  | .saveCount => { s with bottom := .loaded s.shortWqCount }
  | .clearCount savecount => { s with shortWqCount := 0, bottom := .cleared savecount }
  | .printCount savecount =>
      { s with lines := s.lines ++ [.bhAfter savecount], bottom := .printing true }
  | .printTime _ => { s with lines := s.lines ++ [.time s.tvTail], bottom := .printed }
  | .moveTail => { s with tvTail := shortIncrTv s.tvTail, bottom := .moved }
  | .testTail =>
      { s with bottom := if s.tvTail = s.tvHead then .idle else .printing false }

def step : ShortDev → Act → Option ShortDev := guarded guard update

/-- The module once it is loaded. -/
def loaded : ShortDev := ⟨0, 0, 0, false, .idle, .idle, []⟩

end ShortDev

end Short
