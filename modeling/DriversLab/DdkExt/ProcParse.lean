import DriversLab.DdkExt.ProcWrite

/-!
# DdkExt.ProcParse — what a write to `/proc/ddk_usb_status` does, and what decides it

Only the result 0 of `sscanf` is refused. A word alone makes one conversion, and the
command then works with a `val` that nobody has set.

* `firstWord`, `number`: what `sscanf` finds in the first 63 bytes;
* `Parses`: the write is a function of these bytes, refuses what it must refuse with
  nothing changed, and otherwise changes only what the command is about;
* `parses_iff`: it is all this unless a command that takes a number has got none;
* `parses_uninitialised`: a write of `blink` without one.
-/

namespace DdkExt

open CInt

/-- The word that `strcmp` compares with. -/
def Command.word : Command → List UInt8
  | timer => ascii ['t', 'i', 'm', 'e', 'r']
  | interval => ascii ['i', 'n', 't', 'e', 'r', 'v', 'a', 'l']
  | blink => ascii ['b', 'l', 'i', 'n', 'k']
  | delay => ascii ['d', 'e', 'l', 'a', 'y']
  | reset => ascii ['r', 'e', 's', 'e', 't']

/-- The word that a write begins with, if it has one. -/
def firstWord (ubuf : List UInt8) : Option (List UInt8) := (sscanf (cString ubuf)).map Prod.fst

/-- The decimal integer after the word, if there is one. -/
def number (ubuf : List UInt8) : Option ℤ := (sscanf (cString ubuf)).bind Prod.snd

/-- The fields that a command is about; the others stay. -/
def OnlyFields (c : Command) (s s' : DdkExtState) : Prop :=
  match c with
  | .timer => s' = { s with timerEnabled := s'.timerEnabled, activityTimer := s'.activityTimer }
  | .interval => s' = { s with timerIntervalMs := s'.timerIntervalMs }
  | .blink => s' = { s with blinkCount := s'.blinkCount }
  | .delay => s' = { s with blinkDelayMs := s'.blinkDelayMs }
  | .reset => s' = { s with
      totalUsbSuccess := s'.totalUsbSuccess
      totalUsbFail := s'.totalUsbFail
      totalBlinks := s'.totalBlinks
      lastWriteLen := s'.lastWriteLen }

/-- What a write of `ubuf` should do in the state `s`, whatever is on the stack. -/
structure Parses (ubuf : List UInt8) (s : DdkExtState) : Prop where
  /-- The first 63 bytes decide about the state, and with the length about the result. -/
  determined : ∀ ubuf' junk junk', ubuf'.take 63 = ubuf.take 63 →
    (ddkProcWrite (some ubuf') junk' s).2 = (ddkProcWrite (some ubuf) junk s).2 ∧
      (ubuf'.length = ubuf.length →
        (ddkProcWrite (some ubuf') junk' s).1 = (ddkProcWrite (some ubuf) junk s).1)
  unknown : (∀ c : Command, firstWord ubuf ≠ some c.word) →
    ∀ junk, ddkProcWrite (some ubuf) junk s = (-EINVAL, s)
  numberless : ∀ c : Command, c ≠ .reset → firstWord ubuf = some c.word → number ubuf = none →
    ∀ junk, ddkProcWrite (some ubuf) junk s = (-EINVAL, s)
  accepted : ∀ c : Command, firstWord ubuf = some c.word → c = .reset ∨ number ubuf ≠ none →
    ∀ junk, (ddkProcWrite (some ubuf) junk s).1 = ubuf.length ∧
      OnlyFields c s (ddkProcWrite (some ubuf) junk s).2

/-! ## What `sscanf` has found -/

section Scan

variable {ubuf ubuf' : List UInt8} {c : Command} {n : Option ℤ} {s : DdkExtState} {junk junk' : ℤ}

theorem command_eq_some {cmd : List UInt8} : command cmd = some c ↔ cmd = c.word := by
  constructor
  · intro h
    unfold command at h
    split at h
    · cases h
      assumption
    split at h
    · cases h
      assumption
    split at h
    · cases h
      assumption
    split at h
    · cases h
      assumption
    split at h
    · cases h
      assumption
    · cases h
  · rintro rfl
    cases c <;> decide

theorem request_eq_some :
    request ubuf = some (c, n) ↔ firstWord ubuf = some c.word ∧ number ubuf = n := by
  unfold request firstWord number
  cases sscanf (cString ubuf) with
  | none => simp
  | some w => simp [command_eq_some]

theorem request_eq_none : request ubuf = none ↔ ∀ c : Command, firstWord ubuf ≠ some c.word := by
  rw [Option.eq_none_iff_forall_ne_some]
  constructor
  · intro h c hw
    exact h (c, number ubuf) (request_eq_some.mpr ⟨hw, rfl⟩)
  · rintro h ⟨c, n⟩ hr
    exact h c (request_eq_some.mp hr).1

/-- No more than 63 bytes are looked at. -/
theorem request_take (h : ubuf'.take 63 = ubuf.take 63) : request ubuf' = request ubuf := by
  unfold request cString
  rw [h]

/-! ## The section under the lock -/

theorem section_onlyFields (c : Command) (val : ℤ) (s : DdkExtState) :
    OnlyFields c s (ddkProcSection c val s) := by
  cases c with
  | timer =>
      simp only [OnlyFields, ddkProcSection]
      split <;> rfl
  | interval =>
      simp only [OnlyFields, ddkProcSection]
      split <;> rfl
  | blink =>
      simp only [OnlyFields, ddkProcSection]
      split <;> rfl
  | delay =>
      simp only [OnlyFields, ddkProcSection]
      split <;> rfl
  | reset => rfl

theorem write_of_none (h : request ubuf = none) :
    ddkProcWrite (some ubuf) junk s = (-EINVAL, s) := by
  simp only [ddkProcWrite, h]

theorem write_of_some (h : request ubuf = some (c, n)) :
    ddkProcWrite (some ubuf) junk s =
      ((ubuf.length : ℤ), ddkProcSection c (valOf n junk) s) := by
  simp only [ddkProcWrite, h]

/-- What is on the stack does not matter to a command that has what it needs. -/
theorem section_junk (h : c = .reset ∨ n ≠ none) :
    ddkProcSection c (valOf n junk') s = ddkProcSection c (valOf n junk) s := by
  rcases h with rfl | hn
  · rfl
  · obtain ⟨k, rfl⟩ := Option.ne_none_iff_exists'.mp hn
    rfl

end Scan

/-- A write does what it should exactly if its word is none of the commands that take a
number, or a decimal integer follows the word. -/
theorem parses_iff (ubuf : List UInt8) (s : DdkExtState) :
    Parses ubuf s ↔
      ∀ c : Command, c ≠ .reset → firstWord ubuf = some c.word → number ubuf ≠ none := by
  constructor
  · intro h c hc hw hn
    -- it reports success, whatever it has done
    have hreq : request ubuf = some (c, none) := request_eq_some.mpr ⟨hw, hn⟩
    have hret := congrArg Prod.fst (h.numberless c hc hw hn 0)
    rw [write_of_some hreq] at hret
    simp only [EINVAL] at hret
    omega
  · intro h
    refine ⟨?_, ?_, ?_, ?_⟩
    · intro ubuf' junk junk' htake
      have hreq' := request_take htake
      cases hreq : request ubuf with
      | none =>
          rw [write_of_none hreq, write_of_none (hreq'.trans hreq)]
          exact ⟨rfl, fun _ => rfl⟩
      | some r =>
          obtain ⟨c, n⟩ := r
          obtain ⟨hw, hn⟩ := request_eq_some.mp hreq
          have hneeds : c = .reset ∨ n ≠ none := by
            by_cases hc : c = .reset
            · exact Or.inl hc
            · exact Or.inr (hn ▸ h c hc hw)
          rw [write_of_some hreq, write_of_some (hreq'.trans hreq)]
          refine ⟨section_junk hneeds, fun hlen => ?_⟩
          simp only [hlen]
    · exact fun hunknown junk => write_of_none (request_eq_none.mpr hunknown)
    · exact fun c hc hw hn => absurd hn (h c hc hw)
    · intro c hw _ junk
      rw [write_of_some (request_eq_some.mpr ⟨hw, rfl⟩)]
      exact ⟨rfl, section_onlyFields c _ s⟩

/-- The word `blink` alone: the count becomes what the stack held, and success is
reported. -/
theorem parses_uninitialised : ¬ Parses Command.blink.word (ddkExtInit true) ∧
    ddkProcWrite (some Command.blink.word) 7 (ddkExtInit true) =
      (5, { ddkExtInit true with blinkCount := 7 }) ∧
    ddkProcWrite (some Command.blink.word) 8 (ddkExtInit true) =
      (5, { ddkExtInit true with blinkCount := 8 }) := by
  refine ⟨?_, by decide, by decide⟩
  intro h
  have hret := h.numberless .blink (by decide) (by decide) (by decide) 7
  exact absurd hret (by decide)

end DdkExt
