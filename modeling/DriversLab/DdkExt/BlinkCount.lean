import DriversLab.DdkExt.Config

/-!
# DdkExt.BlinkCount — what `total_blinks` counts

`blink_worker` takes its snapshot of `blink_count`, makes two LED calls for each blink,
without a look at what they return, and then adds the whole snapshot to `total_blinks`.
A "reset" may clear `total_blinks` at any time.

* `Tally`: the history of a run, with the LED cycles that have been performed since the
  last reset;
* `Tracks`: how far the tally is ahead of `total_blinks` inside the loop;
* `blink_count_iff`: the two agree whenever no worker is executing exactly when every
  run of the worker has been able to do what its last section says.
-/

namespace DdkExt

open Lts CInt

/-- Whether an action is the section of a "reset". -/
def resets : Act → Bool
  | .procWrite _ (some ubuf) _ => (request ubuf).any fun r => r.1 = .reset
  | _ => false

theorem resets_iff (a : Act) : resets a = true ↔ IsReset a := by
  constructor
  · intro h
    cases a with
    | procWrite t ubuf junk =>
        cases ubuf with
        | none => cases h
        | some ubuf =>
            unfold resets at h
            cases hq : request ubuf with
            | none => simp [hq] at h
            | some r =>
                rcases r with ⟨c, n⟩
                have hreset : c = .reset := by simpa [hq] using h
                subst hreset
                exact ⟨t, ubuf, junk, n, rfl, hq⟩
    | _ => cases h
  · rintro ⟨t, ubuf, junk, n, rfl, hq⟩
    simp [resets, hq]

/-! ## The history -/

/-- What has been seen of the LED. -/
structure Tally where
  /-- The cycles since the last reset: a successful `ddk_led_ctrl(1)` and the successful
  `ddk_led_ctrl(0)` that follows it, both after the reset. -/
  cycles : ℕ
  /-- The first half of a cycle has succeeded, after the last reset. -/
  half : Bool
  /-- Since the worker took its snapshot a call has failed, or a reset has come after
  the first call. -/
  spoilt : Bool
deriving DecidableEq, Repr

/-- The worker has made a call. -/
def started : Worker → Bool
  | .blinking b => b.lit || 0 < b.i
  | _ => false

/-- What an LED call that returned `ret` adds. -/
def Tally.call (lit : Bool) (ret : ℤ) (h : Tally) : Tally where
  cycles := if lit && h.half && 0 ≤ ret then h.cycles + 1 else h.cycles
  half := !lit && 0 ≤ ret
  spoilt := h.spoilt || ret < 0

/-- What an action adds to the history. -/
def Tally.next (s : Sys) (a : Act) (h : Tally) : Tally :=
  match a with
  | .snapshot => { h with half := false, spoilt := false }
  | .led b ret => h.call b.lit ret
  | a => if resets a then ⟨0, false, h.spoilt || started s.worker⟩ else h

/-- The system with its history. -/
def tallied (j : Jiffies) : Sys × Tally → Act → Option (Sys × Tally) := recorded (step j) Tally.next

def initTallied (created : Bool) (m n k : ℕ) : Sys × Tally :=
  (init created m n k, ⟨0, false, false⟩)

/-- While no worker is executing `total_blinks` is the number of cycles. -/
def Exact (c : Sys × Tally) : Prop :=
  c.1.worker = .idle → c.1.ext.totalBlinks = c.2.cycles

/-- A worker that ends has made all its calls with success and without a reset since
the first one; its snapshot was no negative number, and the sum fits. -/
def Faithful (c : Sys × Tally) (a : Act) : Prop :=
  ∀ b, a = .finishBlink b →
    c.2.spoilt = false ∧ 0 ≤ b.count ∧ c.1.ext.totalBlinks + b.count < 2 ^ 64

/-! ## The invariant -/

/-- The part of a cycle that a half makes up. -/
def part (b : Bool) : ℤ := if b then 1 else 0

/-- The loop of the worker beside the history. -/
structure Tracks (b : Blinking) (total : ℕ) (h : Tally) : Prop where
  nonneg : 0 ≤ b.i
  bound : b.i + part b.lit ≤ max b.count 0
  dark : b.lit = false → h.half = false
  le : total ≤ h.cycles
  clean : h.spoilt = false → (h.cycles : ℤ) = total + b.i ∧ h.half = b.lit
  spoilt : h.spoilt = true → h.cycles + part h.half < total + b.i + part b.lit

/-- `blink_count`, and every copy of it, is an `int`. -/
def IsInt (z : ℤ) : Prop := -2 ^ 31 ≤ z ∧ z < 2 ^ 31

structure Ledger (c : Sys × Tally) : Prop where
  total : c.1.ext.totalBlinks < 2 ^ 64
  setting : IsInt c.1.ext.blinkCount
  count : ∀ b, c.1.worker = .blinking b → IsInt b.count
  quiet : (∀ b, c.1.worker ≠ .blinking b) → c.1.ext.totalBlinks = c.2.cycles
  loop : ∀ b, c.1.worker = .blinking b → Tracks b c.1.ext.totalBlinks c.2

/-! ## The loop -/

section Loop

variable {b : Blinking} {total : ℕ} {h : Tally}

theorem tracks_start {count delayMs : ℤ} (heq : total = h.cycles) :
    Tracks ⟨0, false, count, delayMs⟩ total { h with half := false, spoilt := false } := by
  refine ⟨Int.le_refl _, ?_, fun _ => rfl, Nat.le_of_eq heq, ?_, ?_⟩
  · show 0 + 0 ≤ max count 0
    omega
  · intro _
    exact ⟨by simp [heq], rfl⟩
  · intro hs
    cases hs

/-- The call that lights the LED. -/
theorem tracks_on (ht : Tracks b total h) (hlit : b.lit = false) (hlt : b.i < b.count) (ret : ℤ) :
    Tracks b.next total (h.call b.lit ret) := by
  have hhalf := ht.dark hlit
  have hbound := ht.bound
  have hnext : b.next = { b with lit := true } := by simp [Blinking.next, hlit]
  have hcall : h.call b.lit ret = ⟨h.cycles, decide (0 ≤ ret), h.spoilt || decide (ret < 0)⟩ := by
    simp [Tally.call, hlit]
  rw [hnext, hcall]
  refine ⟨ht.nonneg, ?_, ?_, ht.le, ?_, ?_⟩
  · show b.i + 1 ≤ max b.count 0
    omega
  · intro hfalse
    cases hfalse
  · intro hs
    rcases Bool.or_eq_false_iff.mp hs with ⟨hold, hret⟩
    refine ⟨(ht.clean hold).1, ?_⟩
    simpa using hret
  · intro hs
    show (h.cycles : ℤ) + part (decide (0 ≤ ret)) < total + b.i + 1
    cases hold : h.spoilt with
    | true =>
        have := ht.spoilt hold
        simp only [hhalf, hlit, part] at this ⊢
        split <;> simp_all
        omega
    | false =>
        -- the call has failed
        have hret : ret < 0 := by simpa [hold] using hs
        have := (ht.clean hold).1
        simp only [part, decide_eq_true_eq]
        rw [if_neg (by omega)]
        omega

/-- The call that ends a cycle. -/
theorem tracks_off (ht : Tracks b total h) (hlit : b.lit = true) (ret : ℤ) :
    Tracks b.next total (h.call b.lit ret) := by
  have hbound := ht.bound
  have hnonneg := ht.nonneg
  have hle := ht.le
  have hnext : b.next = { b with lit := false, i := b.i + 1 } := by simp [Blinking.next, hlit]
  have hcall : h.call b.lit ret =
      ⟨if h.half && decide (0 ≤ ret) then h.cycles + 1 else h.cycles, false,
        h.spoilt || decide (ret < 0)⟩ := by
    simp [Tally.call, hlit]
  rw [hnext, hcall]
  simp only [part, hlit, if_true] at hbound
  -- `i` goes up whatever the call returned, the tally only after two successes
  refine ⟨?_, ?_, fun _ => rfl, ?_, ?_, ?_⟩
  · show 0 ≤ b.i + 1
    omega
  · show b.i + 1 + 0 ≤ max b.count 0
    omega
  · show total ≤ if h.half && decide (0 ≤ ret) then h.cycles + 1 else h.cycles
    split <;> omega
  · intro hs
    rcases Bool.or_eq_false_iff.mp hs with ⟨hold, hret⟩
    rcases ht.clean hold with ⟨hcycles, hhalf⟩
    have hpos : 0 ≤ ret := by simpa using hret
    simp only [hhalf, hlit, hpos, decide_true, Bool.and_self, if_true]
    exact ⟨by push_cast; omega, trivial⟩
  · intro hs
    show ((if h.half && decide (0 ≤ ret) then h.cycles + 1 else h.cycles : ℕ) : ℤ) + 0 <
      total + (b.i + 1) + 0
    cases hold : h.spoilt with
    | true =>
        -- already behind, by half a cycle at least
        have := ht.spoilt hold
        simp only [part, hlit, if_true] at this
        cases hhalf : h.half <;> simp only [hhalf] at this ⊢ <;> split <;> simp_all <;> omega
    | false =>
        have hret : ret < 0 := by simpa [hold] using hs
        have := (ht.clean hold).1
        rw [if_neg (by simp only [Bool.and_eq_true, decide_eq_true_eq]; omega)]
        omega

/-- A reset puts both counters back. -/
theorem tracks_reset (ht : Tracks b total h) :
    Tracks b 0 ⟨0, false, h.spoilt || started (.blinking b)⟩ := by
  have hnonneg := ht.nonneg
  refine ⟨ht.nonneg, ht.bound, fun _ => rfl, le_refl _, ?_, ?_⟩
  · -- before the first call nothing is lost
    intro hs
    rcases Bool.or_eq_false_iff.mp hs with ⟨_, hstart⟩
    simp only [started, Bool.or_eq_false_iff, decide_eq_false_iff_not] at hstart
    exact ⟨by simp only [Int.natCast_zero]; omega, hstart.1.symm⟩
  · intro hs
    simp only [part, Int.natCast_zero]
    rcases Bool.or_eq_true_iff.mp hs with hold | hstart
    · have hle := ht.le
      have hlt := ht.spoilt hold
      have hhalf : 0 ≤ part h.half := by unfold part; split <;> decide
      simp only [part] at hlt hhalf ⊢
      simp only [Bool.false_eq_true, if_false]
      omega
    · simp only [started, Bool.or_eq_true_iff, decide_eq_true_eq] at hstart
      rcases hstart with hlit | hpos
      · simp only [hlit, Bool.false_eq_true, if_true, if_false]
        omega
      · simp only [Bool.false_eq_true, if_false]
        split <;> omega

/-- At the end of the loop the sum is right exactly when nothing has gone wrong. -/
theorem tracks_end (ht : Tracks b total h) (htotal : total < 2 ^ 64) (hint : IsInt b.count)
    (hlit : b.lit = false) (hend : b.count ≤ b.i) :
    (toULong (total + b.count)).toNat = h.cycles ↔
      h.spoilt = false ∧ 0 ≤ b.count ∧ total + b.count < 2 ^ 64 := by
  have hhalf := ht.dark hlit
  have hbound := ht.bound
  have hnonneg := ht.nonneg
  have hle := ht.le
  rcases hint with ⟨hlow, _⟩
  simp only [part, hlit, Bool.false_eq_true, if_false] at hbound
  unfold toULong
  cases hs : h.spoilt with
  | false =>
      -- a negative count makes no cycle, but it is added
      have hcycles := (ht.clean hs).1
      simp only [true_and]
      omega
  | true =>
      -- the sum is too large by at most the count, and a wrap takes off more
      have hcycles := ht.spoilt hs
      simp only [part, hlit, hhalf, Bool.false_eq_true, if_false] at hcycles
      simp only [Bool.true_eq_false, false_and, iff_false]
      omega

end Loop

/-! ## One step -/

section Step

variable {j : Jiffies} {c c' : Sys × Tally} {a : Act}

/-- A write keeps `blink_count` an `int`. -/
theorem isInt_procWrite {e : DdkExtState} (h : IsInt e.blinkCount) (ubuf : Option (List UInt8))
    (junk : ℤ) : IsInt (ddkProcWrite ubuf junk e).2.blinkCount := by
  cases ubuf with
  | none => exact h
  | some ubuf =>
      simp only [ddkProcWrite]
      cases request ubuf with
      | none => exact h
      | some r =>
          rcases r with ⟨cmd, n⟩
          cases cmd with
          | blink =>
              simp only [ddkProcSection]
              split
              · exact toInt_range _
              · exact h
          | timer => simp only [ddkProcSection]; split <;> exact h
          | interval => simp only [ddkProcSection]; split <;> exact h
          | delay => simp only [ddkProcSection]; split <;> exact h
          | reset => exact h

/-- A reset clears `total_blinks`. -/
theorem reset_totalBlinks {t : ℕ} {ubuf : Option (List UInt8)} {junk : ℤ}
    (h : resets (.procWrite t ubuf junk) = true) (e : DdkExtState) :
    (ddkProcWrite ubuf junk e).2.totalBlinks = 0 := by
  rcases (resets_iff _).mp h with ⟨_, u, _, n, heq, hq⟩
  cases heq
  simp only [ddkProcWrite, hq, ddkProcSection]

/-- A step that the tally and `total_blinks` do not notice, and that leaves the worker
where it is. -/
theorem ledger_same (hl : Ledger c) (htally : c'.2 = c.2)
    (htotal : c'.1.ext.totalBlinks = c.1.ext.totalBlinks) (hset : IsInt c'.1.ext.blinkCount)
    (hworker : c'.1.worker = c.1.worker) : Ledger c' := by
  refine ⟨?_, hset, ?_, ?_, ?_⟩
  · rw [htotal]
    exact hl.total
  · rw [hworker]
    exact hl.count
  · rw [hworker, htotal, htally]
    exact hl.quiet
  · rw [hworker, htotal, htally]
    exact hl.loop

theorem ledger_reset (hl : Ledger c) (htally : c'.2 = ⟨0, false, c.2.spoilt || started c.1.worker⟩)
    (htotal : c'.1.ext.totalBlinks = 0) (hset : IsInt c'.1.ext.blinkCount)
    (hworker : c'.1.worker = c.1.worker) : Ledger c' := by
  refine ⟨?_, hset, ?_, ?_, ?_⟩
  · rw [htotal]
    decide
  · rw [hworker]
    exact hl.count
  · intro _
    rw [htotal, htally]
  · rw [hworker, htotal, htally]
    intro b hb
    rw [hb]
    exact tracks_reset (hl.loop b hb)

theorem ledger_led (hl : Ledger c) {b : Blinking} (hb : c.1.worker = .blinking b)
    (hlt : b.i < b.count) {ret : ℤ} (hext : c'.1.ext = c.1.ext)
    (hworker : c'.1.worker = .blinking b.next) (htally : c'.2 = c.2.call b.lit ret) :
    Ledger c' := by
  refine ⟨?_, ?_, ?_, ?_, ?_⟩
  · rw [hext]
    exact hl.total
  · rw [hext]
    exact hl.setting
  · rw [hworker]
    intro b' hb'
    cases hb'
    have hcount : b.next.count = b.count := by
      unfold Blinking.next
      split <;> rfl
    rw [hcount]
    exact hl.count b hb
  · rw [hworker]
    intro hquiet
    exact absurd rfl (hquiet b.next)
  · rw [hworker, hext, htally]
    intro b' hb'
    cases hb'
    cases hlit : b.lit with
    | true => exact hlit ▸ tracks_off (hl.loop b hb) hlit ret
    | false => exact hlit ▸ tracks_on (hl.loop b hb) hlit hlt ret

/-- The worker ends, and what it adds is what has been counted. -/
theorem ledger_end (hl : Ledger c) {b : Blinking}
    (hext : c'.1.ext = c.1.ext.addBlinks b.count) (hworker : c'.1.worker = .idle)
    (hexact : Exact c') : Ledger c' := by
  refine ⟨?_, ?_, ?_, ?_, ?_⟩
  · rw [hext]
    simp only [DdkExtState.addBlinks, toULong]
    omega
  · rw [hext]
    exact hl.setting
  · rw [hworker]
    intro b' hb'
    cases hb'
  · intro _
    exact hexact hworker
  · rw [hworker]
    intro b' hb'
    cases hb'

/-- The last section of the worker leaves `total_blinks` exact when it is faithful, and
only then. -/
theorem exact_end_iff (hl : Ledger c) {b : Blinking} (hb : c.1.worker = .blinking b)
    (hlit : b.lit = false) (hend : b.count ≤ b.i)
    (hext : c'.1.ext = c.1.ext.addBlinks b.count) (hworker : c'.1.worker = .idle)
    (htally : c'.2 = c.2) : Exact c' ↔ Faithful c (.finishBlink b) := by
  have hiff := tracks_end (hl.loop b hb) hl.total (hl.count b hb) hlit hend
  constructor
  · intro hexact b' hb'
    cases hb'
    apply hiff.mp
    have heq := hexact hworker
    rw [hext, htally] at heq
    exact heq
  · intro hf _
    rw [hext, htally]
    exact hiff.mpr (hf b rfl)

theorem ledger_step (hl : Ledger c) (hf : Faithful c a) (hs : tallied j c a = some c') :
    Ledger c' := by
  rcases recorded_eq_some.mp hs with ⟨hstep, htally⟩
  rcases step_eq_some.mp hstep with ⟨hg, hu⟩
  rcases c' with ⟨s', h'⟩
  simp only at hu htally
  subst hu htally
  cases a with
  | dequeue =>
      refine ⟨hl.total, hl.setting, nofun, ?_, nofun⟩
      intro _
      apply hl.quiet
      simp [hg.2]
  | snapshot =>
      -- the copy of blink_count is an int because blink_count is
      refine ⟨hl.total, hl.setting, ?_, ?_, ?_⟩
      · intro b hb
        cases hb
        exact hl.setting
      · intro hquiet
        exact absurd rfl (hquiet _)
      · intro b hb
        cases hb
        apply tracks_start
        apply hl.quiet
        have hw : c.1.worker = .dequeued := hg
        simp [hw]
  | led b ret => exact ledger_led hl hg.1 hg.2 rfl rfl rfl
  | finishBlink b =>
      have hiff : Exact (update j c.1 (.finishBlink b), c.2) ↔ Faithful c (.finishBlink b) :=
        exact_end_iff hl hg.1 hg.2.1 hg.2.2 rfl rfl rfl
      exact ledger_end hl rfl rfl (hiff.mpr hf)
  | procWrite t ubuf junk =>
      have hset := isInt_procWrite hl.setting ubuf junk
      cases hr : resets (.procWrite t ubuf junk) with
      | true =>
          refine ledger_reset hl ?_ (reset_totalBlinks hr c.1.ext) hset rfl
          simp only [Tally.next, hr, if_true]
      | false =>
          have hno : ¬ IsReset (.procWrite t ubuf junk) := by
            rw [← resets_iff, hr]
            exact Bool.false_ne_true
          refine ledger_same hl ?_ (procWrite_totalBlinks hno c.1.ext) hset rfl
          simp only [Tally.next, hr, Bool.false_eq_true, if_false]
  | queueWork t d =>
      refine ledger_same hl rfl (by simp [update, DdkExtState.queueBlink_eq]) ?_ rfl
      simpa [update, DdkExtState.queueBlink_eq] using hl.setting
  | cbQueue t =>
      refine ledger_same hl rfl (by simp [update, DdkExtState.queueBlink_eq]) ?_ rfl
      simpa [update, DdkExtState.queueBlink_eq] using hl.setting
  | onWriteSuccess t len => exact ledger_same hl rfl rfl hl.setting rfl
  | armTimer t d => exact ledger_same hl rfl rfl hl.setting rfl
  | onWriteFail => exact ledger_same hl rfl rfl hl.setting rfl
  | fire t => exact ledger_same hl rfl rfl hl.setting rfl
  | cbInterval t => exact ledger_same hl rfl rfl hl.setting rfl
  | cbRearm t d => exact ledger_same hl rfl rfl hl.setting rfl
  | procEnter t ubuf junk => exact ledger_same hl rfl rfl hl.setting rfl

theorem faithful_of_exact (hl : Ledger c) (hs : tallied j c a = some c') (he : Exact c') :
    Faithful c a := by
  rcases recorded_eq_some.mp hs with ⟨hstep, htally⟩
  rcases step_eq_some.mp hstep with ⟨hg, hu⟩
  intro b hb
  subst hb
  exact (exact_end_iff hl hg.1 hg.2.1 hg.2.2 (by rw [hu]; rfl) (by rw [hu]; rfl) htally).mp he b rfl

theorem exact_of_ledger (hl : Ledger c) : Exact c := by
  intro hidle
  apply hl.quiet
  simp [hidle]

end Step

/-! ## Every run -/

theorem ledger_init (created : Bool) (m n k : ℕ) : Ledger (initTallied created m n k) := by
  refine ⟨?_, ?_, nofun, fun _ => rfl, nofun⟩
  · show 0 < 2 ^ 64
    decide
  · show IsInt DDK_BLINK_DEF_CNT
    unfold IsInt DDK_BLINK_DEF_CNT
    decide

/-- In a run from `ddk_ext_init`, in every state in which no worker is executing
`total_blinks` is the number of LED cycles since the last reset, exactly when every
worker that ends has made all its calls with success and without a reset since the
first one, with a snapshot that is not negative and a sum below 2^64. -/
theorem blink_count_iff (j : Jiffies) (created : Bool) (m n k : ℕ) (as : List Act) :
    Along (tallied j) (fun c a => ∀ c', tallied j c a = some c' → Exact c')
        (initTallied created m n k) as ↔
      Along (tallied j) (fun c a => ∀ c', tallied j c a = some c' → Faithful c a)
        (initTallied created m n k) as := by
  have hiff : ∀ c a, Ledger c → True →
      ((∀ c', tallied j c a = some c' → Exact c') ↔
        ∀ c', tallied j c a = some c' → Faithful c a) := by
    intro c a hl _
    constructor
    · intro h c' hs
      exact faithful_of_exact hl hs (h c' hs)
    · intro h c' hs
      exact exact_of_ledger (ledger_step hl (h c' hs) hs)
  refine along_iff hiff ?_ (ledger_init created m n k) (along_of_forall fun _ _ _ => trivial)
  intro c a c' hl _ hf hs
  exact ledger_step hl (hf c' hs) hs

/-- A worker whose six LED calls all return `-ENODEV`. -/
def unplugged : List Act :=
  [.onWriteSuccess 0 5, .queueWork 0 1000, .dequeue, .snapshot,
    .led ⟨0, false, 3, 200⟩ (-19), .led ⟨0, true, 3, 200⟩ (-19),
    .led ⟨1, false, 3, 200⟩ (-19), .led ⟨1, true, 3, 200⟩ (-19),
    .led ⟨2, false, 3, 200⟩ (-19), .led ⟨2, true, 3, 200⟩ (-19),
    .finishBlink ⟨3, false, 3, 200⟩]

/-- It has blinked three times, says `total_blinks`. -/
theorem blink_count_unplugged : ∃ c,
    run (tallied .hz1000) (initTallied true 1 1 1) unplugged = some c ∧ c.1.worker = .idle ∧
      c.1.ext.totalBlinks = 3 ∧ c.2.cycles = 0 :=
  ⟨_, rfl, rfl, rfl, rfl⟩

end DdkExt
