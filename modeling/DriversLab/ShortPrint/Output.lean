import DriversLab.ShortPrint.Driver

/-!
# ShortPrint.Output — every queued byte goes out once

The writer computes the free space from a tail that the worker moves at the same time,
and that it loads twice. While the writer is at it the head stands still, so the tail
can only come closer to it: what was free stays free.

* `Passed`: where the tail can have got since the first load;
* `outSpace_fits`: what `shortp_out_space` returns, if positive, fits, wherever the tail
  was at the two loads;
* `Kept`: the bytes copied are those on the port, those in the page and, between the copy
  and the move of the head, those just copied;
* `output_fifo`: so it is in every reachable state.
-/

namespace ShortPrint

open Lts

namespace Printer

/-- The bytes between the tail and the head. -/
def pending (s : Printer) : List UInt8 := Ring.content s.page PAGE_SIZE s.tail s.head

/-- The bytes of a copy that the head has not passed yet. -/
def fresh (s : Printer) : List UInt8 :=
  match s.writer with
  | .copied buf _ n => buf.take n
  | _ => []

/-- The history: the bytes of all successful copies. -/
def copies (_ : Printer) (a : Act) (h : List UInt8) : List UInt8 :=
  match a with
  | .copy buf _ space none => h ++ chunk buf space
  | _ => h

/-- The system with that history. -/
def copyStep : Printer × List UInt8 → Act → Option (Printer × List UInt8) := recorded step copies

def LoadedCopies (c : Printer × List UInt8) : Prop := Loaded c.1 ∧ c.2 = []

/-- The tail has been at `t`, and has not overtaken the head. -/
def Passed (head tail t : ℤ) : Prop :=
  0 ≤ t ∧ t < PAGE_SIZE ∧ if t ≤ head then t ≤ tail ∧ tail ≤ head else t ≤ tail ∨ tail ≤ head

/-- `k` bytes fit behind the head in one run. -/
def Room (head tail k : ℤ) : Prop :=
  k ≤ Ring.free PAGE_SIZE tail head ∧ k ≤ Ring.writable PAGE_SIZE tail head

/-- What the writer relies on. -/
def WriterOk (s : Printer) : Prop :=
  match s.writer with
  | .waiting buf _ => buf ≠ []
  | .loaded buf _ t => buf ≠ [] ∧ Passed s.head s.tail t
  | .room buf _ space => buf ≠ [] ∧ 0 < space ∧ Room s.head s.tail space
  | .copied buf _ n => 0 < n ∧ n ≤ buf.length ∧ Room s.head s.tail n ∧
      Ring.segment s.page s.head n = buf.take n
  | .returned _ _ | .looping _ _ | .advanced _ _ => True

structure Kept (s : Printer) (h : List UInt8) : Prop where
  within : Ring.Within PAGE_SIZE s.tail s.head
  books : h = s.port ++ pending s ++ fresh s
  writer : WriterOk s
  /-- The worker strobes a byte only where there is one. -/
  worker : s.worker = .writing ∨ s.worker = .armed → s.tail ≠ s.head

/-! ## The arithmetic of the two loads -/

section Loads

variable {head tail t k : ℤ}

/-- The free space is positive only if it fits, wherever the tail was at the first load
and is now. -/
theorem outSpace_fits (hw : Ring.Within PAGE_SIZE tail head) (ht : Passed head tail t)
    (hpos : 0 < shortpOutSpace head t tail) : Room head tail (shortpOutSpace head t tail) := by
  rcases hw with ⟨_, _, _, _⟩
  rcases ht with ⟨_, _, hpassed⟩
  unfold Room Ring.free Ring.writable
  unfold shortpOutSpace at hpos ⊢
  by_cases hle : t ≤ head
  · rw [if_pos hle] at hpassed
    simp only [if_pos hle] at hpos ⊢
    rw [if_pos hpassed.2, if_pos hpassed.2]
    split <;> omega
  · -- a tail that has wrapped since the first load leaves a negative number
    rw [if_neg hle] at hpassed
    simp only [if_neg hle] at hpos ⊢
    rw [if_neg (by omega), if_neg (by omega)]
    omega

theorem incr_eq_advance {p : ℤ} {k : ℕ} (h : p + k ≤ PAGE_SIZE) :
    shortpIncrOutBp p k = Ring.advance PAGE_SIZE p k := by
  unfold shortpIncrOutBp Ring.advance
  split <;> split <;> omega

/-- One more byte has gone out: the tail stays in the page, and on the way to the head. -/
theorem tail_within (hw : Ring.Within PAGE_SIZE tail head) :
    Ring.Within PAGE_SIZE (shortpIncrOutBp tail 1) head := by
  rcases hw with ⟨_, _, _, _⟩
  unfold shortpIncrOutBp
  refine ⟨?_, ?_, ‹_›, ‹_›⟩
  · split <;> omega
  · split <;> omega

theorem tail_passed (hw : Ring.Within PAGE_SIZE tail head) (hne : tail ≠ head)
    (ht : Passed head tail t) : Passed head (shortpIncrOutBp tail 1) t := by
  rcases hw with ⟨_, _, _, _⟩
  rcases ht with ⟨hl, hu, hpassed⟩
  refine ⟨hl, hu, ?_⟩
  unfold shortpIncrOutBp
  by_cases hle : t ≤ head
  · rw [if_pos hle] at hpassed ⊢
    rw [if_neg (by omega)]
    omega
  · rw [if_neg hle] at hpassed ⊢
    split <;> omega

theorem tail_room (hw : Ring.Within PAGE_SIZE tail head) (hne : tail ≠ head)
    (hk : Room head tail k) : Room head (shortpIncrOutBp tail 1) k := by
  rcases hw with ⟨_, _, _, _⟩
  rcases hk with ⟨hfree, hrun⟩
  unfold Room Ring.free Ring.writable shortpIncrOutBp
  unfold Ring.free at hfree
  unfold Ring.writable at hrun
  constructor
  · split at hfree <;> split <;> split <;> omega
  · split at hrun <;> split <;> split <;> omega

theorem room_mono {l : ℤ} (hk : Room head tail k) (hle : l ≤ k) : Room head tail l :=
  ⟨Int.le_trans hle hk.1, Int.le_trans hle hk.2⟩

theorem passed_self (hw : Ring.Within PAGE_SIZE tail head) : Passed head tail tail := by
  refine ⟨hw.rpNonneg, hw.rpLt, ?_⟩
  split
  · exact ⟨Int.le_refl _, ‹_›⟩
  · exact Or.inl (Int.le_refl _)

end Loads

/-! ## The steps -/

section Steps

variable {s s' : Printer} {h : List UInt8}

/-- A step that touches neither the page nor its pointers, and leaves the writer in no
place that matters. -/
theorem kept_frame (hk : Kept s h) (hpage : s'.page = s.page) (hhead : s'.head = s.head)
    (htail : s'.tail = s.tail) (hport : s'.port = s.port) (hfresh : fresh s' = fresh s)
    (hwriter : WriterOk s') (hworker : s'.worker = .writing ∨ s'.worker = .armed →
      s'.tail ≠ s'.head) : Kept s' h := by
  refine ⟨?_, ?_, hwriter, hworker⟩
  · rw [hhead, htail]
    exact hk.within
  · rw [hk.books, hfresh]
    unfold pending
    rw [hpage, hhead, htail, hport]

/-- A step of another party. -/
theorem kept_other (hk : Kept s h) (hpage : s'.page = s.page) (hhead : s'.head = s.head)
    (htail : s'.tail = s.tail) (hport : s'.port = s.port) (hwriter : s'.writer = s.writer)
    (hworker : s'.worker = .writing ∨ s'.worker = .armed → s.tail ≠ s.head) : Kept s' h := by
  refine kept_frame hk hpage hhead htail hport ?_ ?_ (by rw [hhead, htail]; exact hworker)
  · unfold fresh
    rw [hwriter]
  · have hok := hk.writer
    unfold WriterOk at hok ⊢
    rw [hwriter, hpage, hhead, htail]
    exact hok

theorem chunk_length {buf : List UInt8} {space : ℤ} (hpos : 0 < space) (hne : buf ≠ []) :
    0 < (chunk buf space).length ∧ (chunk buf space).length ≤ buf.length ∧
      ((chunk buf space).length : ℤ) ≤ space := by
  have hlen := List.length_pos_of_ne_nil hne
  unfold chunk
  rw [List.length_take]
  omega

theorem landed_length (bytes : List UInt8) (fault : Option ℕ) :
    (landed bytes fault).length = bytes.length := by
  cases fault with
  | none => rfl
  | some k =>
      simp only [landed, List.length_append, List.length_take, List.length_replicate]
      omega

theorem kept_copy (hk : Kept s h) {buf : List UInt8} {written : ℕ} {space : ℤ}
    (hw : s.writer = .room buf written space) (fault : Option ℕ) :
    Kept (update s (.copy buf written space fault))
      (copies s (.copy buf written space fault) h) := by
  have hok := hk.writer
  unfold WriterOk at hok
  rw [hw] at hok
  rcases hok with ⟨hne, hpos, hroom⟩
  rcases chunk_length hpos hne with ⟨hlpos, hlbuf, hlspace⟩
  have hroom' := room_mono hroom hlspace
  have hfresh : fresh s = [] := by
    unfold fresh
    rw [hw]
  -- what is pending does not lie where the copy goes
  have hpending : Ring.content (Ring.store s.page s.head (landed (chunk buf space) fault))
      PAGE_SIZE s.tail s.head = pending s :=
    Ring.content_store_stay hk.within (by rw [landed_length]; exact hroom'.2)
  cases fault with
  | none =>
      have htake : buf.take (chunk buf space).length = chunk buf space := by
        simp [chunk]
      refine ⟨hk.within, ?_, ?_, hk.worker⟩
      · simp only [update, copies, pending, fresh, hpending, Option.isSome_none, Bool.false_eq_true,
          if_false, htake]
        rw [hk.books, hfresh, List.append_nil]
        rfl
      · refine ⟨hlpos, hlbuf, hroom', ?_⟩
        have hseg := Ring.segment_store_self s.page s.head (chunk buf space)
        simp only [update, landed, htake]
        exact hseg
  | some k =>
      refine ⟨hk.within, ?_, trivial, hk.worker⟩
      simp only [update, copies, pending, fresh, hpending, Option.isSome_some, if_true]
      rw [hk.books, hfresh]
      rfl

theorem kept_advance (hk : Kept s h) {buf : List UInt8} {written n : ℕ}
    (hw : s.writer = .copied buf written n) : Kept (update s (.advanceHead buf written n)) h := by
  have hok := hk.writer
  unfold WriterOk at hok
  rw [hw] at hok
  rcases hok with ⟨hpos, hlen, ⟨hfree, hrun⟩, hseg⟩
  have hwith := hk.within
  have hend := (Ring.run_free hwith hrun).1
  have hadv : shortpIncrOutBp s.head n = Ring.advance PAGE_SIZE s.head n := incr_eq_advance hend
  have hpending : Ring.content s.page PAGE_SIZE s.tail (Ring.advance PAGE_SIZE s.head n) =
      pending s ++ buf.take n := by
    rw [Ring.content_extend hwith hfree hrun, hseg]
    rfl
  have hwith' := hwith.write hrun
  have hfresh : fresh s = buf.take n := by
    unfold fresh
    rw [hw]
  refine ⟨?_, ?_, trivial, ?_⟩
  · simp only [update, hadv]
    exact hwith'
  · simp only [update, pending, hadv, hpending, fresh, List.append_nil]
    rw [hk.books, hfresh, List.append_assoc]
    rfl
  · intro _
    simp only [update, hadv]
    intro heq
    -- the page holds the new bytes, so the head has not reached the tail
    have hzero : (Ring.content s.page PAGE_SIZE s.tail
        (Ring.advance PAGE_SIZE s.head n)).length = 0 :=
      (Ring.content_length_eq_zero_iff hwith').mpr heq
    rw [hpending, List.length_append, List.length_take] at hzero
    omega

theorem kept_strobe (hk : Kept s h) (hw : s.worker = .armed) : Kept (update s .workStrobe) h := by
  have hne := hk.worker (Or.inr hw)
  have hwith := hk.within
  have hread := Ring.one_le_readable hwith
  have hend : s.tail + ((1 : ℕ) : ℤ) ≤ PAGE_SIZE := by
    have := hwith.rpLt
    omega
  have hadv : shortpIncrOutBp s.tail 1 = Ring.advance PAGE_SIZE s.tail 1 := incr_eq_advance hend
  have htake : pending s = [s.page s.tail] ++
      Ring.content s.page PAGE_SIZE (shortpIncrOutBp s.tail 1) s.head := by
    rw [hadv, pending, Ring.content_take hwith hne hread, Ring.segment_one]
  refine ⟨tail_within hwith, ?_, ?_, by simp [update]⟩
  · rw [hk.books, htake]
    simp [update, pending, fresh]
  · have hok := hk.writer
    unfold WriterOk at hok ⊢
    simp only [update]
    cases hwriter : s.writer with
    | loaded buf written t =>
        rw [hwriter] at hok
        exact ⟨hok.1, tail_passed hwith hne hok.2⟩
    | room buf written space =>
        rw [hwriter] at hok
        exact ⟨hok.1, hok.2.1, tail_room hwith hne hok.2.2⟩
    | copied buf written n =>
        rw [hwriter] at hok
        exact ⟨hok.1, hok.2.1, tail_room hwith hne hok.2.2.1, hok.2.2.2⟩
    | waiting buf written =>
        rw [hwriter] at hok
        exact hok
    | _ => trivial

theorem kept_loadTail (hk : Kept s h) {buf : List UInt8} {written : ℕ}
    (hg : guard s (.loadTail buf written)) : Kept (update s (.loadTail buf written)) h := by
  have hpassed := passed_self hk.within
  rcases hg with ⟨hw, hne⟩ | hw
  · refine kept_frame hk rfl rfl rfl rfl ?_ ⟨hne, hpassed⟩ hk.worker
    simp [fresh, update, hw]
  · have hok := hk.writer
    unfold WriterOk at hok
    rw [hw] at hok
    refine kept_frame hk rfl rfl rfl rfl ?_ ⟨hok, hpassed⟩ hk.worker
    simp [fresh, update, hw]

theorem kept_loadTailAgain (hk : Kept s h) {buf : List UInt8} {written : ℕ} {t : ℤ}
    (hw : s.writer = .loaded buf written t) : Kept (update s (.loadTailAgain buf written t)) h := by
  have hok := hk.writer
  unfold WriterOk at hok
  rw [hw] at hok
  rcases hok with ⟨hne, hpassed⟩
  simp only [update]
  by_cases hpos : 0 < shortpOutSpace s.head t s.tail
  · rw [if_pos hpos]
    have hroom := outSpace_fits hk.within hpassed hpos
    refine kept_frame hk rfl rfl rfl rfl ?_ ⟨hne, hpos, hroom⟩ hk.worker
    simp [fresh, hw]
  · rw [if_neg hpos]
    refine kept_frame hk rfl rfl rfl rfl ?_ hne hk.worker
    simp [fresh, hw]

theorem startOutput_frame (s : Printer) :
    s.shortpStartOutput.page = s.page ∧ s.shortpStartOutput.head = s.head ∧
      s.shortpStartOutput.tail = s.tail ∧ s.shortpStartOutput.port = s.port ∧
      s.shortpStartOutput.worker = s.worker := by
  unfold shortpStartOutput
  split
  · exact ⟨rfl, rfl, rfl, rfl, rfl⟩
  · exact ⟨rfl, rfl, rfl, rfl, rfl⟩

theorem kept_writerSection (hk : Kept s h) {buf : List UInt8} {written : ℕ}
    (hw : s.writer = .advanced buf written) :
    Kept (update s (.writerSection buf written)) h := by
  obtain ⟨hpage, hhead, htail, hport, hworker⟩ := startOutput_frame s
  refine kept_frame hk hpage hhead htail hport ?_ trivial ?_
  · simp [fresh, update, hw]
  · simp only [update, hworker, hhead, htail]
    exact hk.worker

theorem kept_workSection (hk : Kept s h) : Kept (update s .workSection) h := by
  simp only [update]
  by_cases heq : s.head = s.tail
  · rw [if_pos heq]
    refine kept_other hk rfl rfl rfl rfl rfl ?_
    simp
  · rw [if_neg heq]
    refine kept_other hk rfl rfl rfl rfl rfl ?_
    intro _
    exact Ne.symm heq

theorem kept_callbackSection (hk : Kept s h) (status : UInt8) :
    Kept (update s (.callbackSection status)) h := by
  simp only [update]
  split
  · exact kept_other hk rfl rfl rfl rfl rfl hk.worker
  · exact kept_other hk rfl rfl rfl rfl rfl hk.worker

theorem kept_step {a : Act} (hk : Kept s h) (hs : step s a = some s') :
    Kept s' (copies s a h) := by
  obtain ⟨hg, rfl⟩ := guarded_eq_some.mp hs
  cases a with
  | shortpWrite buf =>
      obtain ⟨ret, moved, hw⟩ := hg
      exact kept_frame hk rfl rfl rfl rfl (by simp [fresh, update, hw]) trivial hk.worker
  | loadTail buf written => exact kept_loadTail hk hg
  | loadTailAgain buf written t => exact kept_loadTailAgain hk hg
  | interrupted buf written =>
      have hw : s.writer = .waiting buf written := hg
      exact kept_frame hk rfl rfl rfl rfl (by simp [fresh, update, hw]) trivial hk.worker
  | copy buf written space fault => exact kept_copy hk hg fault
  | advanceHead buf written n => exact kept_advance hk hg
  | writerSection buf written => exact kept_writerSection hk hg.1
  | writeDone written =>
      have hw : s.writer = .looping [] written := hg
      exact kept_frame hk rfl rfl rfl rfl (by simp [fresh, update, hw]) trivial hk.worker
  | workSection => exact kept_workSection hk
  | workModTimer =>
      have hw : s.worker = .writing := hg
      exact kept_other hk rfl rfl rfl rfl rfl fun _ => hk.worker (Or.inl hw)
  | workStrobe => exact kept_strobe hk hg
  | runWork | workStop | workDelTimer | workDone =>
      -- the worker is not about to strobe a byte
      exact kept_other hk rfl rfl rfl rfl rfl (by simp [update])
  | callbackSection status => exact kept_callbackSection hk status
  | irq | irqQueue | expire | callbackTest | callbackInterrupt | callbackQueue =>
      exact kept_other hk rfl rfl rfl rfl rfl hk.worker

end Steps

/-- The bytes of a copy count as pending before the head has passed them. -/
theorem pending_bound {s : Printer} {h : List UInt8} (hk : Kept s h) :
    ((pending s ++ fresh s).length : ℤ) ≤ PAGE_SIZE - 1 := by
  have hsum := Ring.length_add_free s.page hk.within
  have hfree := Ring.free_nonneg hk.within
  have hok := hk.writer
  rw [List.length_append]
  unfold pending
  unfold fresh
  split
  · rename_i buf written n hw
    unfold WriterOk at hok
    rw [hw] at hok
    have hroom := hok.2.2.1.1
    rw [List.length_take]
    omega
  · simp only [List.length_nil]
    omega

theorem kept_loaded {s : Printer} (hs : Loaded s) : Kept s [] := by
  obtain ⟨page, rfl⟩ := hs
  have hzero : Ring.Within PAGE_SIZE 0 0 := ⟨by decide, by decide, by decide, by decide⟩
  refine ⟨hzero, ?_, trivial, by simp⟩
  simp [pending, fresh]

/-- In every reachable state, with `h` the bytes copied so far: those on the port, those
in the page and those just copied are `h`; the page never holds more than it can; it is
empty when the pointers meet, which is when all of `h` has gone out unless the head has not
passed a copy yet; and a copy that is about to be made lies inside the page, on no byte that
has not gone out. -/
theorem output_fifo {s : Printer} {h : List UInt8}
    (hr : Reachable copyStep LoadedCopies (s, h)) :
    h = s.port ++ (pending s ++ fresh s) ∧
      ((pending s ++ fresh s).length : ℤ) ≤ PAGE_SIZE - 1 ∧
      (s.head = s.tail ↔ pending s = []) ∧
      (fresh s = [] → (s.head = s.tail ↔ s.port = h)) ∧
      ∀ buf written space fault, step s (.copy buf written space fault) ≠ none →
        0 ≤ s.head ∧ s.head + (landed (chunk buf space) fault).length ≤ PAGE_SIZE ∧
          ∀ x, s.head ≤ x → x < s.head + (landed (chunk buf space) fault).length →
            ¬ Ring.Occupied PAGE_SIZE s.tail s.head x := by
  have hk : Kept s h := by
    refine @reachable_invariant _ _ _ _ (fun c => Kept c.1 c.2) ?_ ?_ _ hr
    · rintro ⟨s, h⟩ ⟨hl, rfl⟩
      exact kept_loaded hl
    · rintro ⟨s, h⟩ a ⟨s', h'⟩ hk hs
      obtain ⟨hs, rfl⟩ := recorded_eq_some.mp hs
      exact kept_step hk hs
  have hwith := hk.within
  have hmeet : s.head = s.tail ↔ pending s = [] :=
    eq_comm.trans ((Ring.content_length_eq_zero_iff hwith).symm.trans List.length_eq_zero_iff)
  refine ⟨?_, ?_, hmeet, ?_, ?_⟩
  · rw [hk.books, List.append_assoc]
  · exact pending_bound hk
  · intro hfresh
    have hbooks : h = s.port ++ pending s := by
      rw [hk.books, hfresh, List.append_nil]
    rw [hmeet, hbooks, List.self_eq_append_right]
  · intro buf written space fault hs
    obtain ⟨s', hs'⟩ := Option.ne_none_iff_exists'.mp hs
    obtain ⟨hg, rfl⟩ := guarded_eq_some.mp hs'
    have hw : s.writer = .room buf written space := hg
    have hok := hk.writer
    unfold WriterOk at hok
    rw [hw] at hok
    obtain ⟨hne, hpos, hroom⟩ := hok
    have hfit := (room_mono hroom (chunk_length hpos hne).2.2).2
    obtain ⟨hend, hfree⟩ := Ring.run_free hwith hfit
    rw [landed_length]
    exact ⟨hwith.wpNonneg, hend, hfree⟩

/-- A write of two bytes, the first of which goes out before a second write copies one
more byte. -/
def threeBytes : List Act :=
  [.shortpWrite [7, 8], .loadTail [7, 8] 0, .loadTailAgain [7, 8] 0 0, .copy [7, 8] 0 4095 none,
    .advanceHead [7, 8] 0 2, .writerSection [] 2, .writeDone 2, .runWork, .shortpWrite [9],
    .loadTail [9] 0, .workSection, .workModTimer, .workStrobe, .loadTailAgain [9] 0 0,
    .copy [9] 0 4094 none]

theorem output_fifo_three_bytes : ∃ s, run copyStep (loaded, []) threeBytes = some (s, [7, 8, 9]) ∧
    s.port = [7] ∧ s.port ++ (pending s ++ fresh s) = [7, 8, 9] ∧ fresh s = [9] := by
  refine ⟨_, rfl, rfl, ?_, rfl⟩
  exact (output_fifo ⟨(loaded, []), threeBytes, ⟨⟨fun _ => 0, rfl⟩, rfl⟩, rfl⟩).1.symm

end Printer

end ShortPrint
