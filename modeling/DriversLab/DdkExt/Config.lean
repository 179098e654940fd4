import DriversLab.DdkExt.System
import DriversLab.Lib.Table

/-!
# DdkExt.Config — the settings a user can write

`ddk_proc_write` accepts a setting when the 64-bit `val` is positive, and then
keeps it in an `int` (`blink_count`, `blink_delay_ms`) or hands it to an
`unsigned int` parameter (`msecs_to_jiffies`). What that costs:

* `History` records which numbers were written, and which of them the worker, a
  report and a callback have to use;
* `ConfigOk` is the invariant the rest of the driver needs of the settings;
* `StepKeeps` is what a step has to keep: the invariant, the numbers used as they
  were written, `total_blinks` never lowered but by a reset, no zero delay;
* `Fits` is the range of the written numbers;
* `config_iff`: every step of a run keeps it exactly when all its writes fit.
-/

namespace DdkExt

open Lts CInt

variable {j : Jiffies}

/-- The settings are usable: a positive loop bound, positive delays, and a
positive argument for `msecs_to_jiffies`. -/
structure ConfigOk (e : DdkExtState) : Prop where
  blinkCount : 1 ≤ e.blinkCount
  blinkDelayMs : 1 ≤ e.blinkDelayMs
  timerIntervalMs : 1 ≤ e.timerIntervalMs
  msecsArg : 1 ≤ toUInt e.timerIntervalMs

/-- The section of a "reset". -/
def IsReset (a : Act) : Prop :=
  ∃ t ubuf junk n, a = .procWrite t (some ubuf) junk ∧ request ubuf = some (.reset, n)

/-! ## Which numbers are in use -/

/-- The number of each setting; `none` where no positive number was written. -/
abbrev Numbers := Command → Option ℤ

/-- What has been written, and what the parties have to use of it. -/
structure History where
  /-- The number of the last accepted write of each setting. -/
  written : Numbers
  /-- `written`, when the worker took its snapshot. -/
  snapshot : Numbers
  /-- The arguments of its `msleep` calls since then. -/
  msleeps : List ℤ
  /-- The number of "interval", when the first section of a caller read it. -/
  callers : ℕ → Option ℤ
  /-- The number of "interval", when a callback read it. -/
  callbacks : ℕ → Option ℤ

/-- What a write does to the numbers: one whose value is positive is accepted. -/
def Numbers.accept (ubuf : Option (List UInt8)) (junk : ℤ) (w : Numbers) : Numbers :=
  match ubuf.bind request with
  | none => w
  | some (c, n) =>
      if 0 < valOf n junk then Function.update w c (n.filter fun k => decide (0 < k)) else w

/-- The settings of `ddk_ext_init`. -/
def Numbers.default : Numbers
  | .blink => some DDK_BLINK_DEF_CNT
  | .delay => some DDK_BLINK_DEF_MS
  | .interval => some DDK_TIMER_DEF_MS
  | _ => none

def History.start : History where
  written := .default
  snapshot := .default
  msleeps := []
  callers := fun _ => none
  callbacks := fun _ => none

/-- What an action adds to the history. -/
def used (_ : Sys) (a : Act) (h : History) : History :=
  match a with
  | .procWrite _ ubuf junk => { h with written := h.written.accept ubuf junk }
  | .snapshot => { h with snapshot := h.written, msleeps := [] }
  -- each LED call is followed by an msleep
  | .led b _ => { h with msleeps := h.msleeps ++ [b.msleepArg] }
  | .onWriteSuccess t _ =>
      { h with callers := Function.update h.callers t (h.written .interval) }
  | .cbInterval t => { h with callbacks := Function.update h.callbacks t (h.written .interval) }
  | _ => h

/-- The system with that history. -/
def usedStep (j : Jiffies) : Sys × History → Act → Option (Sys × History) :=
  recorded (step j) used

/-- In state `e` the setting of `c` is the number `n`, as its users get it: the loop
bound is an `int`, `msleep` and `msecs_to_jiffies` take an `unsigned int`. -/
def UsedAs (c : Command) (n : ℤ) (e : DdkExtState) : Prop :=
  match c with
  | .blink => e.blinkCount = n
  | .delay => toUInt e.blinkDelayMs = n
  | .interval => toUInt e.timerIntervalMs = n
  | _ => True

/-- The timer is armed, not with a zero delay, and with that of the number `n` if
there is one. -/
def ArmedWith (j : Jiffies) (n : Option ℤ) (timer : Option ℤ) : Prop :=
  ∃ d, timer = some d ∧ 0 < d ∧ ∀ k ∈ n, d = j.msecsToJiffies k

/-- What a step from `c` by `a` has to keep. -/
structure StepKeeps (j : Jiffies) (c : Sys × History) (a : Act) (c' : Sys × History) : Prop where
  config : ConfigOk c'.1.ext
  settings : ∀ s, ∀ n ∈ c'.2.written s, UsedAs s n c'.1.ext
  /-- The worker has the loop bound and the `msleep` argument that were written. -/
  loop : ∀ b, c'.1.worker = .blinking b →
    (∀ n ∈ c'.2.snapshot .blink, b.count = n) ∧ ∀ n ∈ c'.2.snapshot .delay, b.msleepArg = n
  /-- When the worker is done, it has slept twice in each of as many rounds as were
  written, each time as long as was written, and adds the rounds to `total_blinks`. -/
  rounds : ∀ b, a = .finishBlink b →
    (∀ n ∈ c.2.snapshot .blink, c.2.msleeps.length = 2 * n ∧
      c'.1.ext.totalBlinks = (c.1.ext.totalBlinks + n) % 2 ^ 64) ∧
    ∀ n ∈ c.2.snapshot .delay, ∀ m ∈ c.2.msleeps, m = n
  /-- Short of 2^64 blinks only a reset lowers `total_blinks`. -/
  blinks : ¬ IsReset a → (∀ b, a = .finishBlink b → c.1.ext.totalBlinks + b.count < 2 ^ 64) →
    c.1.ext.totalBlinks ≤ c'.1.ext.totalBlinks
  /-- `mod_timer` gets the interval that was written. -/
  armed : ∀ t d, a = .armTimer t d → ArmedWith j (c.2.callers t) c'.1.ext.activityTimer
  rearmed : ∀ t d, a = .cbRearm t d → ArmedWith j (c.2.callbacks t) c'.1.ext.activityTimer

/-- The step by `a`, when there is one, keeps what it has to. -/
def StepOk (j : Jiffies) (c : Sys × History) (a : Act) : Prop :=
  ∀ c', usedStep j c a = some c' → StepKeeps j c a c'

/-- The narrowing that the value of a setting goes through on its way to its
users. -/
def Command.narrow : Command → ℤ → ℤ
  | .blink | .delay => toInt
  | .interval => toUInt
  | _ => id

/-- The numbers that survive it: below 2^31 for an `int`, below 2^32 for an
`unsigned int`. -/
def Command.limit : Command → Option ℤ
  | .blink | .delay => some (2 ^ 31)
  | .interval => some (2 ^ 32)
  | _ => none

/-- If the write is accepted, the value in `val` stays positive when narrowed,
and a positive number that was written is below the limit of its setting. -/
def Fits (a : Act) : Prop :=
  ∀ t ubuf junk c n, a = .procWrite t (some ubuf) junk → request ubuf = some (c, n) →
    0 < valOf n junk →
    0 < c.narrow (valOf n junk) ∧
      ∀ k lim, n = some k → 0 < k → c.limit = some lim → k < lim

/-- The delay `d`, in jiffies, is not zero, and that of the number `n` if there is one. -/
def Lasts (j : Jiffies) (n : Option ℤ) (d : ℤ) : Prop :=
  0 < d ∧ ∀ k ∈ n, d = j.msecsToJiffies k

/-- The loop of the worker, in terms of what was written before its snapshot. -/
structure Looping (h : History) (b : Blinking) : Prop where
  pos : 1 ≤ b.count
  count : ∀ n ∈ h.snapshot .blink, b.count = n
  delay : ∀ n ∈ h.snapshot .delay, b.msleepArg = n
  /-- Two sleeps a round, and one between the two LED calls. -/
  rounds : (h.msleeps.length : ℤ) = 2 * b.i + if b.lit then 1 else 0
  sleeps : ∀ m ∈ h.msleeps, m = b.msleepArg
  bound : b.i + (if b.lit then 1 else 0) ≤ b.count

/-- The invariant: the settings, and every copy of them that a party holds. -/
structure ConfigInv (j : Jiffies) (c : Sys × History) : Prop where
  config : ConfigOk c.1.ext
  settings : ∀ s, ∀ n ∈ c.2.written s, UsedAs s n c.1.ext
  callers : ∀ t x, c.1.callers[t]? = some x →
    ∀ te d, x = .sampled te d → Lasts j (c.2.callers t) d
  callbacks : ∀ t x, c.1.callbacks[t]? = some x → ∀ d, x = .rearm d → Lasts j (c.2.callbacks t) d
  worker : ∀ b, c.1.worker = .blinking b → Looping c.2 b

/-! ## The section of `ddk_proc_write` -/

theorem valOf_lt (n : Option ℤ) (junk : ℤ) : valOf n junk < 2 ^ 63 := (toLong_range _).2

theorem valOf_some {k junk : ℤ} (hk : 0 < k) (hu : k < 2 ^ 32) : valOf (some k) junk = k :=
  toLong_of_range (z := k) (by omega) (by omega)

/-- One section keeps the settings usable exactly when its value, if accepted,
stays positive. -/
theorem configOk_section_iff {c : Command} {val : ℤ} {e : DdkExtState} (h : ConfigOk e)
    (hl : val < 2 ^ 63) :
    ConfigOk (ddkProcSection c val e) ↔ (0 < val → 0 < c.narrow val) := by
  by_cases hv : 0 < val
  · simp only [hv, forall_const]
    cases c with
    | timer =>
        have hs : ConfigOk (ddkProcSection .timer val e) := by
          simp only [ddkProcSection]
          split <;> exact ⟨h.blinkCount, h.blinkDelayMs, h.timerIntervalMs, h.msecsArg⟩
        exact ⟨fun _ => hv, fun _ => hs⟩
    | interval =>
        -- the `unsigned long` holds the value, `msecs_to_jiffies` gets it narrowed
        have hul : toULong val = val := by unfold toULong; omega
        simp only [ddkProcSection, hv, if_true, Command.narrow]
        constructor
        · intro h'
          have hm := h'.msecsArg
          rw [show toUInt (toULong val) = toUInt val by rw [hul]] at hm
          exact hm
        · intro hp
          refine ⟨h.blinkCount, h.blinkDelayMs, ?_, ?_⟩
          · rw [hul]
            exact hv
          · rw [hul]
            exact hp
    | blink =>
        simp only [ddkProcSection, hv, if_true, Command.narrow]
        exact ⟨fun h' => h'.blinkCount,
          fun hp => ⟨hp, h.blinkDelayMs, h.timerIntervalMs, h.msecsArg⟩⟩
    | delay =>
        simp only [ddkProcSection, hv, if_true, Command.narrow]
        exact ⟨fun h' => h'.blinkDelayMs,
          fun hp => ⟨h.blinkCount, hp, h.timerIntervalMs, h.msecsArg⟩⟩
    | reset =>
        exact ⟨fun _ => hv,
          fun _ => ⟨h.blinkCount, h.blinkDelayMs, h.timerIntervalMs, h.msecsArg⟩⟩
  · -- the value is not stored
    simp only [hv, false_imp_iff, iff_true]
    cases c with
    | timer =>
        simp only [ddkProcSection]
        split <;> exact ⟨h.blinkCount, h.blinkDelayMs, h.timerIntervalMs, h.msecsArg⟩
    | interval => simpa only [ddkProcSection, hv, if_false] using h
    | blink => simpa only [ddkProcSection, hv, if_false] using h
    | delay => simpa only [ddkProcSection, hv, if_false] using h
    | reset => exact ⟨h.blinkCount, h.blinkDelayMs, h.timerIntervalMs, h.msecsArg⟩

/-- A positive number below the limit is used as written. -/
theorem usedAs_of_lt {c : Command} {k junk : ℤ} {e : DdkExtState} (hk : 0 < k)
    (hlim : ∀ lim, c.limit = some lim → k < lim) :
    UsedAs c k (ddkProcSection c (valOf (some k) junk) e) := by
  cases c with
  | timer => trivial
  | reset => trivial
  | interval =>
      have hlt : k < 2 ^ 32 := hlim _ rfl
      simp only [UsedAs, ddkProcSection, valOf_some hk hlt, hk, if_true]
      unfold toUInt toULong
      omega
  | blink =>
      have hlt : k < 2 ^ 31 := hlim _ rfl
      simp only [UsedAs, ddkProcSection, valOf_some hk (show k < 2 ^ 32 by omega), hk, if_true]
      exact toInt_of_range (by omega) hlt
  | delay =>
      have hlt : k < 2 ^ 31 := hlim _ rfl
      simp only [UsedAs, ddkProcSection, valOf_some hk (show k < 2 ^ 32 by omega), hk, if_true,
        toUInt_toInt]
      exact toUInt_of_range (by omega) (by omega)

/-- Conversely a number that is used as written, with the settings usable, is
below the limit. -/
theorem lt_of_usedAs {c : Command} {k junk lim : ℤ} {e : DdkExtState}
    (hv : 0 < valOf (some k) junk) (hlim : c.limit = some lim)
    (hu : UsedAs c k (ddkProcSection c (valOf (some k) junk) e))
    (hc : ConfigOk (ddkProcSection c (valOf (some k) junk) e)) : k < lim := by
  cases c with
  | timer => cases hlim
  | reset => cases hlim
  | interval =>
      cases hlim
      have hr := toUInt_range (ddkProcSection .interval (valOf (some k) junk) e).timerIntervalMs
      rw [show toUInt _ = k from hu] at hr
      exact hr.2
  | blink =>
      -- what an `int` holds is below 2^31
      cases hlim
      simp only [UsedAs, ddkProcSection, hv, if_true] at hu
      have hr := toInt_range (valOf (some k) junk)
      rw [hu] at hr
      exact hr.2
  | delay =>
      -- `msleep` gets the `int` as it is, because it is positive
      cases hlim
      have hd := hc.blinkDelayMs
      simp only [UsedAs, ddkProcSection, hv, if_true] at hu hd
      have hr := toInt_range (valOf (some k) junk)
      rw [toUInt_of_range (by omega) (by omega)] at hu
      omega

/-- A section leaves the other settings as they are, and its own if the value is refused. -/
theorem usedAs_section {c c' : Command} {val n : ℤ} {e : DdkExtState} (h : UsedAs c' n e)
    (hne : c' ≠ c ∨ ¬ 0 < val) : UsedAs c' n (ddkProcSection c val e) := by
  by_cases hv : 0 < val
  · have hne : c' ≠ c := hne.resolve_right fun h => h hv
    cases c with
    | timer =>
        simp only [ddkProcSection]
        cases c' <;> split <;> exact h
    | reset => exact h
    | interval =>
        simp only [ddkProcSection, hv, if_true]
        cases c' with
        | interval => exact absurd rfl hne
        | _ => exact h
    | blink =>
        simp only [ddkProcSection, hv, if_true]
        cases c' with
        | blink => exact absurd rfl hne
        | _ => exact h
    | delay =>
        simp only [ddkProcSection, hv, if_true]
        cases c' with
        | delay => exact absurd rfl hne
        | _ => exact h
  · cases c with
    | timer => simp only [ddkProcSection]; split <;> exact h
    | reset => exact h
    | interval => simpa only [ddkProcSection, hv, if_false] using h
    | blink => simpa only [ddkProcSection, hv, if_false] using h
    | delay => simpa only [ddkProcSection, hv, if_false] using h

/-- Only a reset changes `total_blinks` in a write. -/
theorem procWrite_totalBlinks {t : ℕ} {ubuf : Option (List UInt8)} {junk : ℤ}
    (hr : ¬ IsReset (.procWrite t ubuf junk)) (e : DdkExtState) :
    (ddkProcWrite ubuf junk e).2.totalBlinks = e.totalBlinks := by
  cases ubuf with
  | none => rfl
  | some ubuf =>
      simp only [ddkProcWrite]
      cases hq : request ubuf with
      | none => rfl
      | some r =>
          rcases r with ⟨c, n⟩
          cases c with
          | reset => exact absurd ⟨t, ubuf, junk, n, rfl, hq⟩ hr
          | timer => simp only [ddkProcSection]; split <;> rfl
          | interval => simp only [ddkProcSection]; split <;> rfl
          | blink => simp only [ddkProcSection]; split <;> rfl
          | delay => simp only [ddkProcSection]; split <;> rfl

/-! ## One step -/

theorem configInv_init (created : Bool) (m n k : ℕ) :
    ConfigInv j (init created m n k, .start) := by
  have hc : ConfigOk (ddkExtInit created) := by
    constructor <;> simp [ddkExtInit, DDK_BLINK_DEF_CNT, DDK_BLINK_DEF_MS, DDK_TIMER_DEF_MS, toUInt]
  refine ⟨hc, ?_, ?_, ?_, nofun⟩
  · intro s n hn
    cases s <;> cases hn <;> rfl
  · intro t x hx te d heq
    cases (List.eq_of_mem_replicate (List.mem_of_getElem? hx)).symm.trans heq
  · intro t x hx d heq
    cases (List.eq_of_mem_replicate (List.mem_of_getElem? hx)).symm.trans heq

/-- An accepted write in an enabled step changes the settings as its section
does, whatever the write is. -/
theorem procWrite_ext {t : ℕ} {ubuf : List UInt8} {junk : ℤ} {c : Command} {n : Option ℤ}
    (hq : request ubuf = some (c, n)) (s : Sys) :
    (update j s (.procWrite t (some ubuf) junk)).ext = ddkProcSection c (valOf n junk) s.ext := by
  simp only [update, ddkProcWrite, hq]

/-- It leaves its number, if it is positive. -/
theorem accept_request {ubuf : List UInt8} {junk : ℤ} {c : Command} {n : Option ℤ} (w : Numbers)
    (hq : request ubuf = some (c, n)) (hv : 0 < valOf n junk) :
    w.accept (some ubuf) junk = Function.update w c (n.filter fun k => decide (0 < k)) := by
  simp only [Numbers.accept, Option.bind_some, hq, hv, if_true]

/-- A write that fits keeps the settings usable. -/
theorem configOk_procWrite {t : ℕ} {ubuf : Option (List UInt8)} {junk : ℤ} {s : Sys}
    (h : ConfigOk s.ext) (hf : Fits (.procWrite t ubuf junk)) :
    ConfigOk (update j s (.procWrite t ubuf junk)).ext := by
  cases ubuf with
  | none => exact h
  | some ubuf =>
      cases hq : request ubuf with
      | none =>
          -- no command: -EINVAL
          simp only [update, ddkProcWrite, hq]
          exact h
      | some r =>
          rcases r with ⟨c, n⟩
          rw [procWrite_ext hq]
          refine (configOk_section_iff h (valOf_lt n junk)).mpr ?_
          intro hv
          exact (hf t ubuf junk c n rfl hq hv).1

/-- A write that fits leaves every setting as it was last written. -/
theorem settings_procWrite {t : ℕ} {ubuf : Option (List UInt8)} {junk : ℤ} {s : Sys}
    {w : Numbers} (h : ∀ c, ∀ n ∈ w c, UsedAs c n s.ext) (hf : Fits (.procWrite t ubuf junk)) :
    ∀ c, ∀ n ∈ w.accept ubuf junk c, UsedAs c n (update j s (.procWrite t ubuf junk)).ext := by
  cases ubuf with
  | none => exact h
  | some ubuf =>
      cases hq : request ubuf with
      | none =>
          simp only [update, ddkProcWrite, Numbers.accept, Option.bind_some, hq]
          exact h
      | some r =>
          rcases r with ⟨c, n⟩
          rw [procWrite_ext hq]
          intro c' k hk
          by_cases hv : 0 < valOf n junk
          · rw [accept_request w hq hv] at hk
            rcases eq_or_ne c' c with rfl | hne
            · -- the number that has just been written
              rw [Function.update_self] at hk
              rcases Option.mem_filter_iff.mp hk with ⟨hn, hpos⟩
              cases Option.mem_def.mp hn
              have hpos : 0 < k := of_decide_eq_true hpos
              exact usedAs_of_lt hpos fun lim hlim =>
                (hf t ubuf junk c' _ rfl hq hv).2 k lim rfl hpos hlim
            · rw [Function.update_of_ne hne] at hk
              exact usedAs_section (h c' k hk) (Or.inl hne)
          · -- the value is refused
            simp only [Numbers.accept, Option.bind_some, hq, hv, if_false] at hk
            exact usedAs_section (h c' k hk) (Or.inr hv)

/-- Every action that fits keeps the settings usable, and as they were written: only a
write changes them. -/
theorem config_update {s : Sys} {h : History} {a : Act} (hi : ConfigInv j (s, h)) (hf : Fits a) :
    ConfigOk (update j s a).ext ∧
      ∀ c, ∀ n ∈ (used s a h).written c, UsedAs c n (update j s a).ext := by
  by_cases ha : ∃ t ubuf junk, a = .procWrite t ubuf junk
  · rcases ha with ⟨t, ubuf, junk, rfl⟩
    exact ⟨configOk_procWrite hi.config hf, settings_procWrite hi.settings hf⟩
  · have hne : ∀ t ubuf junk, a ≠ .procWrite t ubuf junk := fun t ubuf junk heq =>
      ha ⟨t, ubuf, junk, heq⟩
    have hsame : (used s a h).written = h.written := by
      cases a with
      | procWrite t ubuf junk => exact absurd rfl (hne t ubuf junk)
      | _ => rfl
    rcases update_settings (j := j) (s := s) hne with ⟨hc, hd, hint⟩
    have hok := hi.config
    refine ⟨⟨by rw [hc]; exact hok.blinkCount, by rw [hd]; exact hok.blinkDelayMs,
      by rw [hint]; exact hok.timerIntervalMs, by rw [hint]; exact hok.msecsArg⟩, ?_⟩
    rw [hsame]
    intro c n hn
    have hused := hi.settings c n hn
    cases c with
    | blink => exact hc.trans hused
    | delay => exact (congrArg toUInt hd).trans hused
    | interval => exact (congrArg toUInt hint).trans hused
    | timer => trivial
    | reset => trivial

/-- An interval that is read now lasts as long as was written. -/
theorem lasts_interval {s : Sys} {h : History} (hi : ConfigInv j (s, h)) :
    Lasts j (h.written .interval) (s.ext.interval j) := by
  refine ⟨s.ext.interval_pos j hi.config.msecsArg, ?_⟩
  intro k hk
  exact congrArg j.msecsToJiffies (hi.settings .interval k hk)

/-- What a report has sampled is the interval that was written last by then. -/
theorem callers_update {s : Sys} {h : History} (a : Act) (hi : ConfigInv j (s, h)) :
    ∀ t x, (update j s a).callers[t]? = some x →
      ∀ te d, x = .sampled te d → Lasts j ((used s a h).callers t) d := by
  cases a with
  | onWriteSuccess t len =>
      refine Table.forall_set_update
        (P := fun n x => ∀ te d, x = Caller.sampled te d → Lasts j n d) hi.callers ?_
      intro te d heq
      cases heq
      exact lasts_interval hi
  | armTimer t d' => exact Table.forall_set (fun u x _ => hi.callers u x) nofun
  | queueWork t d' => exact Table.forall_set (fun u x _ => hi.callers u x) nofun
  | _ => exact hi.callers

/-- So is what a callback has read. -/
theorem callbacks_update {s : Sys} {h : History} (a : Act) (hi : ConfigInv j (s, h)) :
    ∀ t x, (update j s a).callbacks[t]? = some x →
      ∀ d, x = .rearm d → Lasts j ((used s a h).callbacks t) d := by
  cases a with
  | cbInterval t =>
      refine Table.forall_set_update
        (P := fun n x => ∀ d, x = Callback.rearm d → Lasts j n d) hi.callbacks ?_
      intro d heq
      cases heq
      exact lasts_interval hi
  | fire t => exact Table.forall_set (fun u x _ => hi.callbacks u x) nofun
  | cbRearm t d' => exact Table.forall_set (fun u x _ => hi.callbacks u x) nofun
  | cbQueue t =>
      -- the callback goes on to read the interval, or ends
      refine Table.forall_set (fun u x _ => hi.callbacks u x) ?_
      intro d heq
      split at heq <;> cases heq
  | _ => exact hi.callbacks

/-! ## The loop of the worker -/

/-- The worker starts with the settings, which are as they were written. -/
theorem looping_snapshot {s : Sys} {h : History} (hi : ConfigInv j (s, h)) :
    Looping (used s .snapshot h) ⟨0, false, s.ext.blinkCount, s.ext.blinkDelayMs⟩ := by
  refine ⟨hi.config.blinkCount, hi.settings .blink, hi.settings .delay, rfl, nofun, ?_⟩
  have hpos : 1 ≤ s.ext.blinkCount := hi.config.blinkCount
  show (0 : ℤ) + 0 ≤ s.ext.blinkCount
  omega

/-- One LED call, with its sleep. -/
theorem looping_led {s : Sys} {h : History} {b : Blinking} {ret : ℤ} (hl : Looping h b)
    (hlt : b.i < b.count) : Looping (used s (.led b ret) h) b.next := by
  have hlen : ((h.msleeps ++ [b.msleepArg]).length : ℤ) = h.msleeps.length + 1 := by simp
  have hsleeps : ∀ m ∈ h.msleeps ++ [b.msleepArg], m = b.msleepArg := by
    intro m hm
    rcases List.mem_append.mp hm with hold | hnew
    · exact hl.sleeps m hold
    · exact List.mem_singleton.mp hnew
  have hrounds := hl.rounds
  have hbound := hl.bound
  unfold Blinking.next
  cases hlit : b.lit with
  | true =>
      -- the LED goes off and the round is over
      simp only [hlit, if_true] at hrounds hbound ⊢
      refine ⟨hl.pos, hl.count, hl.delay, ?_, hsleeps, ?_⟩
      · show ((h.msleeps ++ [b.msleepArg]).length : ℤ) = 2 * (b.i + 1) + 0
        omega
      · show b.i + 1 + 0 ≤ b.count
        omega
  | false =>
      simp only [hlit, Bool.false_eq_true, if_false] at hrounds hbound ⊢
      refine ⟨hl.pos, hl.count, hl.delay, ?_, hsleeps, ?_⟩
      · show ((h.msleeps ++ [b.msleepArg]).length : ℤ) = 2 * b.i + 1
        omega
      · show b.i + 1 ≤ b.count
        omega

theorem worker_update {s : Sys} {h : History} {a : Act} (hi : ConfigInv j (s, h)) (hg : guard s a) :
    ∀ b, (update j s a).worker = .blinking b → Looping (used s a h) b := by
  intro b hw
  cases a with
  | snapshot =>
      cases hw
      exact looping_snapshot hi
  | led b₀ ret =>
      -- `b` is `b₀.next`
      cases hw
      exact looping_led (hi.worker b₀ hg.1) hg.2
  | dequeue => cases hw
  | finishBlink b₀ => cases hw
  | _ =>
      -- the party that moves is another one
      rcases hi.worker b hw with ⟨hpos, hcount, hdelay, hrounds, hsleeps, hbound⟩
      exact ⟨hpos, hcount, hdelay, hrounds, hsleeps, hbound⟩

/-- A loop that has ended has made all its rounds. -/
theorem looping_finish {s : Sys} {h : History} {b : Blinking} (hl : Looping h b)
    (hg : guard s (.finishBlink b)) :
    (∀ n ∈ h.snapshot .blink, h.msleeps.length = 2 * n ∧
      ((s.ext.addBlinks b.count).totalBlinks : ℤ) = (s.ext.totalBlinks + n) % 2 ^ 64) ∧
    ∀ n ∈ h.snapshot .delay, ∀ m ∈ h.msleeps, m = n := by
  rcases hg with ⟨-, hlit, hend⟩
  have hrounds := hl.rounds
  have hbound := hl.bound
  simp only [hlit, Bool.false_eq_true, if_false] at hrounds hbound
  constructor
  · intro n hn
    have hcount := hl.count n hn
    refine ⟨by omega, ?_⟩
    simp only [DdkExtState.addBlinks, toULong, hcount]
    omega
  · intro n hn m hm
    rw [hl.sleeps m hm]
    exact hl.delay n hn

theorem configInv_step {c c' : Sys × History} {a : Act} (hi : ConfigInv j c) (hf : Fits a)
    (hs : usedStep j c a = some c') : ConfigInv j c' := by
  rcases c with ⟨s, h⟩
  rcases c' with ⟨s', h'⟩
  rcases recorded_eq_some.mp hs with ⟨hstep, rfl⟩
  rcases step_eq_some.mp hstep with ⟨hg, rfl⟩
  rcases config_update hi hf with ⟨hok, hsettings⟩
  exact ⟨hok, hsettings, callers_update a hi, callbacks_update a hi, worker_update hi hg⟩

/-- Short of 2^64 blinks, only a reset lowers `total_blinks`. -/
theorem totalBlinks_update {s : Sys} {h : History} {a : Act} (hi : ConfigInv j (s, h))
    (hg : guard s a) (hr : ¬ IsReset a)
    (hw : ∀ b, a = .finishBlink b → s.ext.totalBlinks + b.count < 2 ^ 64) :
    s.ext.totalBlinks ≤ (update j s a).ext.totalBlinks := by
  cases a with
  | finishBlink b =>
      -- the increment is positive and the sum does not wrap
      have hc := (hi.worker b hg.1).pos
      have hlt := hw b rfl
      simp only [update, DdkExtState.addBlinks, toULong]
      omega
  | procWrite t ubuf junk => exact le_of_eq (procWrite_totalBlinks hr s.ext).symm
  | _ => exact le_of_eq (update_totalBlinks (by simp) (by simp)).symm

/-- What an enabled step keeps, if its action fits. -/
theorem stepKeeps_of_fits {s : Sys} {h : History} {a : Act} (hi : ConfigInv j (s, h))
    (hf : Fits a) (hg : guard s a) : StepKeeps j (s, h) a (update j s a, used s a h) := by
  rcases config_update hi hf with ⟨hok, hsettings⟩
  refine ⟨hok, hsettings, ?_, ?_, totalBlinks_update hi hg, ?_, ?_⟩
  · intro b hw
    have hl := worker_update hi hg b hw
    exact ⟨hl.count, hl.delay⟩
  · rintro b rfl
    exact looping_finish (hi.worker b hg.1) hg
  · rintro t d rfl
    exact ⟨d, rfl, hi.callers t _ hg true d rfl⟩
  · rintro t d rfl
    exact ⟨d, rfl, hi.callbacks t _ hg d rfl⟩

/-- A write that is kept fits: the settings after it show what became of the number. -/
theorem fits_of_stepKeeps {s : Sys} {h : History} {a : Act} (hi : ConfigInv j (s, h))
    (hk : StepKeeps j (s, h) a (update j s a, used s a h)) : Fits a := by
  intro t ubuf junk c n ha hq hv
  subst ha
  have hc : ConfigOk (ddkProcSection c (valOf n junk) s.ext) := by
    rw [← procWrite_ext hq s (j := j) (t := t)]
    exact hk.config
  refine ⟨(configOk_section_iff hi.config (valOf_lt n junk)).mp hc hv, ?_⟩
  intro k lim hn hpos hlim
  subst hn
  have hmem : k ∈ (used s (.procWrite t (some ubuf) junk) h).written c := by
    show k ∈ h.written.accept (some ubuf) junk c
    rw [accept_request h.written hq hv, Function.update_self]
    exact Option.mem_filter_iff.mpr ⟨rfl, decide_eq_true hpos⟩
  have hu : UsedAs c k (ddkProcSection c (valOf (some k) junk) s.ext) := by
    rw [← procWrite_ext hq s (j := j) (t := t)]
    exact hk.settings c k hmem
  exact lt_of_usedAs hv hlim hu hc

/-- In a state of the invariant an enabled step keeps what it has to exactly
when its action fits. -/
theorem stepOk_iff {c : Sys × History} {a : Act} (hi : ConfigInv j c)
    (he : (usedStep j c a).isSome = true) : StepOk j c a ↔ Fits a := by
  rcases Option.isSome_iff_exists.mp he with ⟨c', hs⟩
  have hc' := hs
  rcases recorded_eq_some.mp hs with ⟨hstep, hnext⟩
  rcases step_eq_some.mp hstep with ⟨hg, hupdate⟩
  have heq : c' = (update j c.1 a, used c.1 a c.2) := Prod.ext hupdate hnext
  subst heq
  constructor
  · intro hok
    exact fits_of_stepKeeps hi (hok _ hs)
  · intro hf c'' hs''
    cases hs.symm.trans hs''
    exact stepKeeps_of_fits hi hf hg

/-! ## Every run -/

/-- In every run from `ddk_ext_init`, every step keeps the settings usable and its parties
use them as they were written if and only if every accepted write fits. -/
theorem config_iff {created : Bool} {m n k : ℕ} {c : Sys × History} {as : List Act}
    (hr : run (usedStep j) (init created m n k, .start) as = some c) :
    Along (usedStep j) (StepOk j) (init created m n k, .start) as ↔ ∀ a ∈ as, Fits a := by
  have hiff : ∀ c a, ConfigInv j c → (usedStep j c a).isSome = true → (StepOk j c a ↔ Fits a) :=
    fun _ _ hi he => stepOk_iff hi he
  rw [← along_const hr]
  exact along_iff hiff (fun _ _ _ hi _ hf hs => configInv_step hi hf hs)
    (configInv_init created m n k) (along_enabled hr)

/-! ## Both sides on the settings of a user -/

/-- "blink 4294967296": 2^32, which an `int` truncates to 0. -/
def blinkWrap : List UInt8 :=
  ascii ['b', 'l', 'i', 'n', 'k', ' ', '4', '2', '9', '4', '9', '6', '7', '2', '9', '6', '\n']

/-- "interval 4294967296", which an `unsigned int` truncates to 0. -/
def intervalWrap : List UInt8 :=
  ascii ['i', 'n', 't', 'e', 'r', 'v', 'a', 'l', ' ', '4', '2', '9', '4', '9', '6', '7', '2', '9',
    '6']

theorem fits_of_request {t : ℕ} {ubuf : List UInt8} {junk k : ℤ} {c : Command}
    (hq : request ubuf = some (c, some k)) (hn : 0 < c.narrow (valOf (some k) junk))
    (hlim : ∀ lim, c.limit = some lim → k < lim) : Fits (.procWrite t (some ubuf) junk) := by
  intro t' ubuf' junk' c' n' ha hq' hv
  cases ha
  cases hq.symm.trans hq'
  refine ⟨hn, ?_⟩
  intro k' lim hk' _ hl
  cases hk'
  exact hlim lim hl

/-- A write to the board is reported and the worker takes its snapshot. -/
def report : List Act := [.onWriteSuccess 0 5, .queueWork 0 1000, .dequeue, .snapshot]

/-- The rounds of the worker, up to `count`. -/
def blinks (count : ℕ) : List Act :=
  (List.range count).flatMap fun i =>
    [.led ⟨i, false, count, 200⟩ 0, .led ⟨i, true, count, 200⟩ 0]

/-- A user writes "blink 5", then a write is reported and the worker blinks. -/
def blinkFive : List Act :=
  [.procEnter 0 (some blink5) 0, .procWrite 0 (some blink5) 0] ++ report ++ blinks 5 ++
    [.finishBlink ⟨5, false, 5, 200⟩]

/-- Five rounds of two sleeps, and every step keeps what it has to. -/
theorem config_iff_blink5 : ∃ c,
    run (usedStep .hz1000) (init true 1 1 1, .start) blinkFive = some c ∧
      c.2.msleeps = List.replicate 10 200 ∧ c.1.ext.totalBlinks = 5 ∧
      Along (usedStep .hz1000) (StepOk .hz1000) (init true 1 1 1, .start) blinkFive := by
  refine ⟨_, rfl, rfl, rfl, ?_⟩
  refine (config_iff (show run (usedStep .hz1000) _ blinkFive = some _ from rfl)).mpr ?_
  have hq : request blink5 = some (.blink, some 5) := by decide
  have hfit : Fits (.procWrite 0 (some blink5) 0) := by
    refine fits_of_request hq (by decide) ?_
    intro lim hl
    cases hl
    decide
  intro a ha t ubuf junk c n heq
  subst heq
  -- it is the only write
  have hwrite : t = 0 ∧ ubuf = blink5 ∧ junk = 0 := by simpa [blinkFive, report, blinks] using ha
  rcases hwrite with ⟨rfl, rfl, rfl⟩
  exact hfit 0 blink5 0 c n rfl

/-- Two accepted writes after which the settings are unusable: the worker gets a loop
bound of 0, and a report arms the timer with a zero delay. -/
theorem config_truncated :
    ∃ c c', run (usedStep .hz1000) (init true 1 1 1, .start)
        ([.procEnter 0 (some blinkWrap) 0, .procWrite 0 (some blinkWrap) 0] ++ report) = some c ∧
      c.2.snapshot .blink = some (2 ^ 32) ∧ c.1.worker = .blinking ⟨0, false, 0, 200⟩ ∧
      run (usedStep .hz1000) (init true 1 1 1, .start)
        [.procEnter 0 (some intervalWrap) 0, .procWrite 0 (some intervalWrap) 0,
          .procEnter 0 (some timer1) 0, .procWrite 0 (some timer1) 0, .onWriteSuccess 0 5,
          .armTimer 0 0] = some c' ∧
      c'.2.callers 0 = some (2 ^ 32) ∧ c'.1.ext.activityTimer = some 0 ∧
      ¬ Along (usedStep .hz1000) (StepOk .hz1000) (init true 1 1 1, .start)
        [.procEnter 0 (some blinkWrap) 0, .procWrite 0 (some blinkWrap) 0] := by
  refine ⟨_, _, rfl, by decide, by decide, rfl, by decide, by decide, ?_⟩
  intro hok
  have hk := hok.2 _ rfl
  have hc := (hk.1 _ rfl).config.blinkCount
  revert hc
  decide

end DdkExt
