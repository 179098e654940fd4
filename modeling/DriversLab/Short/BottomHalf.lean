import DriversLab.Short.Driver

/-!
# Short.BottomHalf — every interrupt is handled once

The loop of the bottom half tests at its end, so it prints an entry even if there is
none: when it has been queued for an entry that its last run has already printed. The
count is loaded and cleared in two steps, so an interrupt between them is not counted.

* `Handled`: what is printed is what has been recorded, in order, and the counts add up;
* `Undisturbed`: a run starts with an entry to print, and nobody touches the count between
  a load of it and the store that belongs to the load;
* `handled_iff`: along every run, the first holds exactly as long as the second does;
* `handled_stale`: a run that prints an entry no interrupt has recorded.
-/

namespace Short

open CInt Lts

def Line.entry : Line → Option ℤ
  | time entry => some entry
  | bhAfter _ => none

def Line.count : Line → ℤ
  | bhAfter count => count
  | time _ => 0

/-- The entries printed, in order. -/
def times (lines : List Line) : List ℤ := lines.filterMap Line.entry

/-- The sum of the counts printed. -/
def total (lines : List Line) : ℤ := (lines.map Line.count).sum

@[simp] theorem times_append (l₁ l₂ : List Line) : times (l₁ ++ l₂) = times l₁ ++ times l₂ :=
  List.filterMap_append

@[simp] theorem times_time (e : ℤ) : times [.time e] = [e] := rfl

@[simp] theorem times_bhAfter (n : ℤ) : times [.bhAfter n] = [] := rfl

@[simp] theorem total_append (l₁ l₂ : List Line) : total (l₁ ++ l₂) = total l₁ + total l₂ := by
  simp [total]

@[simp] theorem total_time (e : ℤ) : total [.time e] = 0 := rfl

@[simp] theorem total_bhAfter (n : ℤ) : total [.bhAfter n] = n := by
  simp [total, Line.count]

/-- The count that has been taken out of `short_wq_count` and is about to be printed. -/
def Bottom.taken : Bottom → ℤ
  | cleared savecount => savecount
  | idle | started | loaded _ | printing _ | printed | moved => 0

namespace ShortDev

/-- The history: the entries that interrupts have recorded, and how many have counted
themselves. -/
structure Arrivals where
  recorded : List ℤ
  counted : ℤ
deriving DecidableEq, Repr

def arrived (s : ShortDev) (a : Act) (h : Arrivals) : Arrivals :=
  match a with
  | .interrupt => { h with recorded := h.recorded ++ [s.tvHead] }
  | .storeCount _ => { h with counted := h.counted + 1 }
  | _ => h

/-- The system with that history. -/
def arrivalStep : ShortDev × Arrivals → Act → Option (ShortDev × Arrivals) :=
  recorded step arrived

def loadedArrivals : ShortDev × Arrivals := (loaded, ⟨[], 0⟩)

/-- No entry is printed that has not been recorded, or twice; none is left when both halves
have nothing to do; the counts that have been printed, that is about to be, and that is
left add up. -/
structure Handled (c : ShortDev × Arrivals) : Prop where
  noStale : times c.1.lines <+: c.2.recorded
  noneLeft : c.1.bottom = .idle → c.1.queued = false → c.1.top = .idle →
    times c.1.lines = c.2.recorded
  counts : total c.1.lines + c.1.bottom.taken + c.1.shortWqCount = c.2.counted

/-- Fewer than `NR_TIMEVAL` recorded entries are not printed yet. -/
def Room (c : ShortDev × Arrivals) (a : Act) : Prop :=
  a = .interrupt → (c.2.recorded.length : ℤ) + 1 - (times c.1.lines).length < NR_TIMEVAL

/-- A run of the bottom half starts with an entry to print; a store of the count finds
there what the load that belongs to it has found, and the count fits an `int`. -/
def Undisturbed (c : ShortDev × Arrivals) : Act → Prop
  | .printTime true => c.1.tvTail ≠ c.1.tvHead
  | .clearCount savecount => c.1.shortWqCount = savecount
  | .storeCount count => c.1.shortWqCount = count ∧ count + 1 < 2 ^ 31
  | _ => True

instance (c : ShortDev × Arrivals) (a : Act) : Decidable (Room c a) :=
  inferInstanceAs (Decidable (_ → _))

instance (c : ShortDev × Arrivals) : ∀ a, Decidable (Undisturbed c a)
  | .printTime true => inferInstanceAs (Decidable (_ ≠ _))
  | .clearCount _ => inferInstanceAs (Decidable (_ = _))
  | .storeCount _ => inferInstanceAs (Decidable (_ ∧ _))
  | .interrupt | .schedule | .loadCount | .runBottom | .saveCount | .printCount _
  | .printTime false | .moveTail | .testTail => inferInstanceAs (Decidable True)

/-- The tail, as if it had moved with the print. -/
def drained (s : ShortDev) : ℤ := if s.bottom = .printed then shortIncrTv s.tvTail else s.tvTail

/-- The entries that are still to be printed. -/
def waiting (s : ShortDev) : List ℤ := Ring.content (fun x => x) NR_TIMEVAL (drained s) s.tvHead

def Fits (z : ℤ) : Prop := 0 ≤ z ∧ z < 2 ^ 31

structure Books (c : ShortDev × Arrivals) : Prop where
  within : Ring.Within NR_TIMEVAL (drained c.1) c.1.tvHead
  entries : c.2.recorded = times c.1.lines ++ waiting c.1
  counts : total c.1.lines + c.1.bottom.taken + c.1.shortWqCount = c.2.counted
  /-- Somebody is about to print, or to have it printed. -/
  attended : drained c.1 ≠ c.1.tvHead →
    c.1.queued = true ∨ c.1.top = .recorded ∨ c.1.bottom ≠ .idle
  again : c.1.bottom = .printing false → c.1.tvTail ≠ c.1.tvHead
  fits : Fits c.1.shortWqCount ∧ ∀ count, c.1.top = .loaded count → Fits count

theorem shortIncrTv_eq (p : ℤ) : shortIncrTv p = Ring.advance NR_TIMEVAL p 1 := by
  unfold shortIncrTv Ring.advance
  split <;> split <;> omega

theorem books_handled {c : ShortDev × Arrivals} (h : Books c) : Handled c := by
  refine ⟨⟨_, h.entries.symm⟩, ?_, h.counts⟩
  intro hbottom hqueued htop
  have heq : drained c.1 = c.1.tvHead := by
    by_contra hne
    simpa [hbottom, hqueued, htop] using h.attended hne
  rw [h.entries, waiting, heq, Ring.content_empty, List.append_nil]

/-! ## The steps -/

section Steps

variable {s : ShortDev} {h : Arrivals}

/-- A step that leaves the entries alone. -/
theorem books_frame {s' : ShortDev} {h' : Arrivals} (hb : Books (s, h))
    (hhead : s'.tvHead = s.tvHead) (hdrained : drained s' = drained s)
    (htimes : times s'.lines = times s.lines) (hrecorded : h'.recorded = h.recorded)
    (hcounts : total s'.lines + s'.bottom.taken + s'.shortWqCount = h'.counted)
    (hattended : drained s ≠ s.tvHead →
      s'.queued = true ∨ s'.top = .recorded ∨ s'.bottom ≠ .idle)
    (hagain : s'.bottom = .printing false → s'.tvTail ≠ s'.tvHead)
    (hfits : Fits s'.shortWqCount ∧ ∀ count, s'.top = .loaded count → Fits count) :
    Books (s', h') := by
  refine ⟨?_, ?_, hcounts, ?_, hagain, hfits⟩
  · rw [hdrained, hhead]
    exact hb.within
  · have hent := hb.entries
    simp only at hent ⊢
    rw [hrecorded, htimes, hent]
    unfold waiting
    rw [hdrained, hhead]
  · simp only [hdrained, hhead]
    exact hattended

theorem drained_of_ne (hne : s.bottom ≠ .printed) : drained s = s.tvTail := if_neg hne

theorem drained_frame {s' : ShortDev} (hs : s.bottom ≠ .printed) (hs' : s'.bottom ≠ .printed)
    (htail : s'.tvTail = s.tvTail) : drained s' = drained s := by
  rw [drained_of_ne hs, drained_of_ne hs', htail]

theorem free_of_room (hb : Books (s, h)) (hr : Room (s, h) .interrupt) :
    1 ≤ Ring.free NR_TIMEVAL (drained s) s.tvHead := by
  have hroom := hr rfl
  have hent := congrArg List.length hb.entries
  have hsum := Ring.length_add_free (fun x : ℤ => x) hb.within
  simp only [List.length_append, waiting] at hent hroom hsum
  omega

theorem books_interrupt (hb : Books (s, h)) (hr : Room (s, h) .interrupt) :
    Books (update s .interrupt, arrived s .interrupt h) := by
  have hfree := free_of_room hb hr
  have hwith : Ring.Within NR_TIMEVAL (drained s) s.tvHead := hb.within
  have hrun := Ring.one_le_writable hwith hfree
  have hhead : shortIncrTv s.tvHead = Ring.advance NR_TIMEVAL s.tvHead 1 := shortIncrTv_eq _
  have hwith' : Ring.Within NR_TIMEVAL (drained s) (shortIncrTv s.tvHead) :=
    hhead ▸ hwith.write hrun
  have hdrained : drained (update s .interrupt) = drained s := rfl
  have hwaiting : waiting (update s .interrupt) = waiting s ++ [s.tvHead] := by
    unfold waiting
    rw [hdrained]
    simp only [update, hhead]
    rw [Ring.content_extend hwith hfree hrun, Ring.segment_one]
  refine ⟨hwith', ?_, hb.counts, fun _ => Or.inr (Or.inl rfl), ?_, hb.fits.1, by simp [update]⟩
  · have hent : h.recorded = times s.lines ++ waiting s := hb.entries
    simp only [arrived, hent, hwaiting, List.append_assoc]
    rfl
  · -- the ring holds one entry more, so the head has not reached the tail
    intro hagain
    have hagain' : s.bottom = .printing false := hagain
    have htail : drained s = s.tvTail := drained_of_ne (by simp [hagain'])
    intro heq
    have hzero : (waiting (update s .interrupt)).length = 0 :=
      (Ring.content_length_eq_zero_iff hwith').mpr (htail.trans heq)
    simp [hwaiting] at hzero

theorem books_storeCount (hb : Books (s, h)) {count : ℤ} (hw : s.top = .loaded count)
    (hq : Undisturbed (s, h) (.storeCount count)) :
    Books (update s (.storeCount count), arrived s (.storeCount count) h) := by
  obtain ⟨hsame, hsmall⟩ := hq
  have hfits := hb.fits.2 count hw
  have hcount : toInt (count + 1) = s.shortWqCount + 1 := by
    rw [toInt_of_range (by have := hfits.1; omega) hsmall]
    simp only at hsame
    omega
  refine books_frame hb rfl rfl rfl rfl ?_ ?_ hb.again ?_
  · have hcounts := hb.counts
    simp only [update, arrived, hcount] at hcounts ⊢
    omega
  · intro hne
    simpa [update, hw] using hb.attended hne
  · simp only [update, hcount]
    refine ⟨?_, by simp⟩
    unfold Fits at *
    simp only at hsame
    omega

theorem books_clearCount (hb : Books (s, h)) {savecount : ℤ} (hw : s.bottom = .loaded savecount)
    (hq : Undisturbed (s, h) (.clearCount savecount)) :
    Books (update s (.clearCount savecount), arrived s (.clearCount savecount) h) := by
  have hdrained : drained (update s (.clearCount savecount)) = drained s :=
    drained_frame (by simp [hw]) (by simp [update]) rfl
  refine books_frame hb rfl hdrained rfl rfl ?_ ?_ (by simp [update]) ?_
  · have hcounts := hb.counts
    have hsame : s.shortWqCount = savecount := hq
    simp only [update, arrived, hw, Bottom.taken] at hcounts ⊢
    omega
  · exact fun _ => Or.inr (Or.inr (by simp [update]))
  · have hzero : Fits 0 := ⟨by decide, by decide⟩
    exact ⟨hzero, hb.fits.2⟩

theorem books_printCount (hb : Books (s, h)) {savecount : ℤ} (hw : s.bottom = .cleared savecount) :
    Books (update s (.printCount savecount), arrived s (.printCount savecount) h) := by
  have hdrained : drained (update s (.printCount savecount)) = drained s :=
    drained_frame (by simp [hw]) (by simp [update]) rfl
  refine books_frame hb rfl hdrained (by simp [update]) rfl ?_ ?_ (by simp [update]) hb.fits
  · have hcounts := hb.counts
    simp only [update, arrived, hw, Bottom.taken, total_append, total_bhAfter] at hcounts ⊢
    omega
  · exact fun _ => Or.inr (Or.inr (by simp [update]))

/-- Where there is an entry, it is printed. -/
theorem books_printTime (hb : Books (s, h)) {first : Bool} (hw : s.bottom = .printing first)
    (hne : s.tvTail ≠ s.tvHead) :
    Books (update s (.printTime first), arrived s (.printTime first) h) := by
  have hbefore : drained s = s.tvTail := drained_of_ne (by simp [hw])
  have hafter : drained (update s (.printTime first)) = Ring.advance NR_TIMEVAL s.tvTail 1 :=
    (if_pos rfl).trans (shortIncrTv_eq _)
  have hwith : Ring.Within NR_TIMEVAL s.tvTail s.tvHead := hbefore ▸ hb.within
  have hread := Ring.one_le_readable hwith
  refine ⟨?_, ?_, ?_, fun _ => Or.inr (Or.inr (by simp [update])), by simp [update], hb.fits⟩
  · simp only [hafter]
    exact hwith.read hread
  · have hent : h.recorded = times s.lines ++ waiting s := hb.entries
    have hwaiting : waiting s = [s.tvTail] ++ waiting (update s (.printTime first)) := by
      unfold waiting
      rw [hbefore, hafter, Ring.content_take hwith hne hread, Ring.segment_one]
      rfl
    simp only [arrived, hent, hwaiting]
    simp [update]
  · have hcounts := hb.counts
    simp only [update, arrived, hw, Bottom.taken, total_append, total_time] at hcounts ⊢
    omega

theorem books_moveTail (hb : Books (s, h)) (hw : s.bottom = .printed) :
    Books (update s .moveTail, arrived s .moveTail h) := by
  have hdrained : drained (update s .moveTail) = drained s := by
    rw [drained_of_ne (by simp [update])]
    exact (if_pos hw).symm
  refine books_frame hb rfl hdrained rfl rfl ?_ ?_ (by simp [update]) hb.fits
  · have hcounts := hb.counts
    simp only [hw, Bottom.taken] at hcounts
    exact hcounts
  · exact fun _ => Or.inr (Or.inr (by simp [update]))

theorem books_testTail (hb : Books (s, h)) (hw : s.bottom = .moved) :
    Books (update s .testTail, arrived s .testTail h) := by
  have hbefore : drained s = s.tvTail := drained_of_ne (by simp [hw])
  have hcounts := hb.counts
  simp only [hw, Bottom.taken] at hcounts
  by_cases heq : s.tvTail = s.tvHead
  · have hidle : update s .testTail = { s with bottom := .idle } := by simp [update, heq]
    rw [hidle]
    have hdrained : drained { s with bottom := .idle } = drained s :=
      drained_frame (by simp [hw]) (by simp) rfl
    exact books_frame hb rfl hdrained rfl rfl hcounts (fun hne => absurd (hbefore.trans heq) hne)
      (by simp) hb.fits
  · have hagain : update s .testTail = { s with bottom := .printing false } := by simp [update, heq]
    rw [hagain]
    have hdrained : drained { s with bottom := .printing false } = drained s :=
      drained_frame (by simp [hw]) (by simp) rfl
    exact books_frame hb rfl hdrained rfl rfl hcounts (fun _ => Or.inr (Or.inr (by simp)))
      (fun _ => heq) hb.fits

theorem books_step {c c' : ShortDev × Arrivals} {a : Act} (hb : Books c) (hr : Room c a)
    (hq : Undisturbed c a) (hs : arrivalStep c a = some c') : Books c' := by
  obtain ⟨s, h⟩ := c
  obtain ⟨s', h'⟩ := c'
  obtain ⟨hs, hnext⟩ := recorded_eq_some.mp hs
  obtain ⟨hg, hupd⟩ := guarded_eq_some.mp hs
  simp only at hnext hupd hg
  subst hnext hupd
  cases a with
  | interrupt => exact books_interrupt hb hr
  | schedule =>
      refine books_frame hb rfl rfl rfl rfl hb.counts ?_ hb.again ?_
      · exact fun _ => Or.inl rfl
      · exact ⟨hb.fits.1, by simp [update]⟩
  | loadCount =>
      have hw : s.top = .scheduled := hg
      refine books_frame hb rfl rfl rfl rfl hb.counts ?_ hb.again ?_
      · intro hne
        simpa [update, hw] using hb.attended hne
      · refine ⟨hb.fits.1, ?_⟩
        rintro _ ⟨⟩
        exact hb.fits.1
  | storeCount count => exact books_storeCount hb hg hq
  | runBottom =>
      have hw : s.bottom = .idle := hg.1
      have hdrained : drained (update s .runBottom) = drained s :=
        drained_frame (by simp [hw]) (by simp [update]) rfl
      have hcounts := hb.counts
      simp only [hw, Bottom.taken] at hcounts
      exact books_frame hb rfl hdrained rfl rfl hcounts
        (fun _ => Or.inr (Or.inr (by simp [update]))) (by simp [update]) hb.fits
  | saveCount =>
      have hw : s.bottom = .started := hg
      have hdrained : drained (update s .saveCount) = drained s :=
        drained_frame (by simp [hw]) (by simp [update]) rfl
      have hcounts := hb.counts
      simp only [hw, Bottom.taken] at hcounts
      exact books_frame hb rfl hdrained rfl rfl hcounts
        (fun _ => Or.inr (Or.inr (by simp [update]))) (by simp [update]) hb.fits
  | clearCount savecount => exact books_clearCount hb hg hq
  | printCount savecount => exact books_printCount hb hg
  | printTime first =>
      refine books_printTime hb hg ?_
      cases first with
      | true => exact hq
      | false => exact hb.again hg
  | moveTail => exact books_moveTail hb hg
  | testTail => exact books_testTail hb hg

/-- A step that disturbs the books shows in what is printed. -/
theorem undisturbed_of_handled {c c' : ShortDev × Arrivals} {a : Act} (hb : Books c)
    (hs : arrivalStep c a = some c') (hh : Handled c') : Undisturbed c a := by
  obtain ⟨s, h⟩ := c
  obtain ⟨s', h'⟩ := c'
  obtain ⟨hs, hnext⟩ := recorded_eq_some.mp hs
  obtain ⟨hg, hupd⟩ := guarded_eq_some.mp hs
  simp only at hnext hupd hg
  subst hnext hupd
  have hbefore := hb.counts
  have hafter := hh.counts
  cases a with
  | printTime first =>
      cases first with
      | false => trivial
      | true =>
          -- with nothing waiting, one entry more is printed than has been recorded
          intro heq
          have hw : s.bottom = .printing true := hg
          have hempty : waiting s = [] := by
            unfold waiting
            rw [drained_of_ne (by simp [hw])]
            exact heq ▸ Ring.content_empty
          have hent : h.recorded = times s.lines ++ waiting s := hb.entries
          have hlen := hh.noStale.length_le
          simp only [update, arrived, hent, hempty, times_append, times_time, List.length_append,
            List.length_cons, List.length_nil] at hlen
          omega
  | clearCount savecount =>
      have hw : s.bottom = .loaded savecount := hg
      simp only [update, arrived, hw, Bottom.taken] at hbefore hafter
      simp only [Undisturbed]
      omega
  | storeCount count =>
      have hw : s.top = .loaded count := hg
      have hcount := hb.fits.2 count hw
      have hmem := hb.fits.1
      unfold Fits at hcount hmem
      simp only [update, arrived] at hbefore hafter hmem
      simp only [Undisturbed]
      unfold toInt at hafter
      omega
  | _ => trivial

end Steps

theorem books_loaded : Books loadedArrivals := by
  refine ⟨⟨by decide, by decide, by decide, by decide⟩, rfl, rfl, ?_, by decide, ?_⟩
  · exact fun hne => absurd rfl hne
  · exact ⟨⟨by decide, by decide⟩, by simp [loadedArrivals, loaded]⟩

/-- Along every run in which fewer than `NR_TIMEVAL` recorded entries are unprinted: every
state reached is one in which the interrupts are handled once, exactly if every step finds
what it relies on undisturbed. -/
theorem handled_iff {c : ShortDev × Arrivals} {as : List Act}
    (hr : run arrivalStep loadedArrivals as = some c)
    (hroom : Along arrivalStep Room loadedArrivals as) :
    Along arrivalStep (fun c a => ∀ c', arrivalStep c a = some c' → Handled c') loadedArrivals as ↔
      Along arrivalStep Undisturbed loadedArrivals as := by
  have hiff : ∀ c a, Books c → Room c a ∧ (arrivalStep c a).isSome →
      ((∀ c', arrivalStep c a = some c' → Handled c') ↔ Undisturbed c a) := by
    rintro c a hb ⟨hroom, henabled⟩
    obtain ⟨c', hs⟩ := Option.isSome_iff_exists.mp henabled
    constructor
    · intro hh
      exact undisturbed_of_handled hb hs (hh c' hs)
    · intro hq c' hs
      exact books_handled (books_step hb hroom hq hs)
  refine along_iff hiff ?_ books_loaded (along_and hroom (along_enabled hr))
  rintro c a c' hb ⟨hroom, _⟩ hq hs
  exact books_step hb hroom hq hs

/-- One interrupt, and the run of the bottom half that it has queued. -/
def oneInterrupt : List Act :=
  [.interrupt, .schedule, .loadCount, .storeCount 0, .runBottom, .saveCount, .clearCount 1,
    .printCount 1, .printTime true, .moveTail, .testTail]

theorem handled_one_interrupt : Along arrivalStep
    (fun c a => ∀ c', arrivalStep c a = some c' → Handled c') loadedArrivals oneInterrupt :=
  (handled_iff (c := (⟨1, 1, 0, false, .idle, .idle, [.bhAfter 1, .time 0]⟩, ⟨[0], 1⟩)) rfl
    (by decide)).mpr (by decide)

/-- A second interrupt comes while the bottom half has just printed its count. The entry
is printed by the loop, and the bottom half, which has been queued again, runs once more. -/
def secondInterrupt : List Act :=
  [.interrupt, .schedule, .loadCount, .storeCount 0, .runBottom, .saveCount, .clearCount 1,
    .printCount 1, .interrupt, .schedule, .loadCount, .storeCount 0, .printTime true, .moveTail,
    .testTail, .printTime false, .moveTail, .testTail, .runBottom, .saveCount, .clearCount 1,
    .printCount 1, .printTime true]

theorem handled_stale : Along arrivalStep Room loadedArrivals secondInterrupt ∧
    ∃ c, run arrivalStep loadedArrivals secondInterrupt = some c ∧ c.2.recorded = [0, 1] ∧
      times c.1.lines = [0, 1, 2] ∧ ¬ Handled c := by
  refine ⟨by decide, _, rfl, rfl, rfl, ?_⟩
  intro hh
  exact absurd hh.noStale.length_le (by decide)

end ShortDev

end Short
