import DriversLab.Short.Driver
import DriversLab.Lib.Printf

/-!
# Short.Text — the records in the text buffer

Four calls of `sprintf` print to the page at `short_head`: one each in `short_interrupt` and
in `short_sh_interrupt`, and two in `short_do_tasklet`, the bottom half of the other two
handlers. `short_incr_bp` then moves the head on, back to the start where the record has
come to the end of the page.

* `Record.text`: what is printed, in front of the terminator of `sprintf`;
* `InPage`: a record has 16 characters, and it and its terminator lie in the page;
* `text_iff`: along every run, so it is exactly as long as each value fits its field, and no
  record is the last one of the page.
-/

namespace Short

open CInt Lts Printf

def PAGE_SIZE : ℤ := 4096

/-- `short_incr_bp`. -/
def shortIncrBp (bp delta : ℤ) : ℤ := if PAGE_SIZE ≤ bp + delta then 0 else bp + delta

/-- A record, with the values of a `struct timeval` or the count of interrupts. -/
inductive Record where
  | time (tvSec tvUsec : ℤ)
  | bhAfter (savecount : ℤ)
deriving DecidableEq, Repr

/-- What `sprintf` puts out: `"%08u.%06u\n"` and `"bh after %6i\n"`. -/
def Record.text : Record → List Char
  | time tvSec tvUsec =>
      unsignedField 8 (toInt (tvSec.tmod 100000000)) ++ ['.'] ++
        unsignedField 6 (toInt tvUsec) ++ ['\n']
  | bhAfter savecount =>
      ['b', 'h', ' ', 'a', 'f', 't', 'e', 'r', ' '] ++ signedField 6 savecount ++ ['\n']

/-- The two halves, the page from `short_buffer` on with what lies around it, the offset of
`short_head`, and whether `BUG_ON` has stopped everything. -/
structure TextSys where
  dev : ShortDev
  page : ℤ → Char
  head : ℤ
  bug : Bool

/-- A step of the two halves, or one of the handlers that print at once; `value` is what the
port of the shared interrupt reads. -/
inductive TextAct where
  | half (a : Act)
  | shortInterrupt (tvSec tvUsec : ℤ)
  | shortShInterrupt (value : UInt8) (tvSec tvUsec : ℤ)
deriving DecidableEq, Repr

namespace TextSys

def guard (s : TextSys) : TextAct → Prop
  | .half a => s.bug = false ∧ s.dev.guard a
  | .shortInterrupt _ _ | .shortShInterrupt _ _ _ => s.bug = false

instance (s : TextSys) : ∀ a : TextAct, Decidable (guard s a)
  | .half _ => inferInstanceAs (Decidable (_ ∧ _))
  | .shortInterrupt _ _ | .shortShInterrupt _ _ _ => inferInstanceAs (Decidable (_ = _))

/-- `sprintf` at the head, with its terminator. -/
def sprintf (s : TextSys) (text : List Char) : TextSys :=
  { s with page := Ring.store s.page s.head (text ++ [Char.ofNat 0]) }

/-- `sprintf`, and `short_incr_bp` by what it returns. -/
def put (s : TextSys) (r : Record) : TextSys :=
  { s.sprintf r.text with head := shortIncrBp s.head r.text.length }

variable (tvData : ℤ → ℤ × ℤ)

/-- What a step prints. The array of times holds whatever it holds. -/
def printed (s : TextSys) : TextAct → Option Record
  | .half (.printCount savecount) => some (.bhAfter savecount)
  | .half (.printTime _) => some (.time (tvData s.dev.tvTail).1 (tvData s.dev.tvTail).2)
  | .half _ => none
  | .shortInterrupt tvSec tvUsec => some (.time tvSec tvUsec)
  | .shortShInterrupt value tvSec tvUsec =>
      -- the interrupt of another device
      if value &&& 0x80 = 0 then none else some (.time tvSec tvUsec)

def update (s : TextSys) (a : TextAct) : TextSys :=
  match a with
  | .half a' =>
      let s' := ((printed tvData s a).map s.put).getD s
      { s' with dev := s.dev.update a' }
  | .shortInterrupt tvSec tvUsec =>
      let r := Record.time tvSec tvUsec
      if r.text.length ≠ 16 then { s.sprintf r.text with bug := true } else s.put r
  | .shortShInterrupt _ _ _ => ((printed tvData s a).map s.put).getD s

def step : TextSys → TextAct → Option TextSys := guarded guard (update tvData)

/-- The module once it is loaded, the page holding whatever it held. -/
def loaded (page : ℤ → Char) : TextSys := ⟨ShortDev.loaded, page, 0, false⟩

end TextSys

/-! ## What is promised, and when it holds -/

/-- The head is at a record of the page. -/
def HeadOk (head : ℤ) : Prop := 0 ≤ head ∧ head < PAGE_SIZE ∧ 16 ∣ head

namespace TextSys

/-- The head stays where it should be; what is printed has 16 characters, and each byte that
is stored, the terminator included, lies in the page. -/
def InPage (tvData : ℤ → ℤ × ℤ) (s : TextSys) (a : TextAct) : Prop :=
  HeadOk (update tvData s a).head ∧ ∀ r, printed tvData s a = some r →
    r.text.length = 16 ∧
      ∀ x, s.head ≤ x → x < s.head + (r.text ++ [Char.ofNat 0]).length → 0 ≤ x ∧ x < PAGE_SIZE

end TextSys

/-- The values have no more digits than their fields. -/
def Record.Fits : Record → Prop
  | time tvSec tvUsec => 0 ≤ tvSec.tmod 100000000 ∧ toUInt tvUsec < 1000000
  | bhAfter savecount => -99999 ≤ savecount ∧ savecount ≤ 999999

namespace TextSys

/-- What is printed fits, and is not the last record of the page. -/
def FitsStep (tvData : ℤ → ℤ × ℤ) (s : TextSys) (a : TextAct) : Prop :=
  ∀ r, printed tvData s a = some r → r.Fits ∧ s.head ≠ PAGE_SIZE - 16

end TextSys

/-! ## A record -/

/-- A record has 16 characters exactly if its values fit their fields. -/
theorem text_length_iff (r : Record) : r.text.length = 16 ↔ r.Fits := by
  cases r with
  | time tvSec tvUsec =>
      have hsec := unsignedField_length_iff (by decide : 0 < 8) (toInt (tvSec.tmod 100000000))
      have husec := unsignedField_length_iff (by decide : 0 < 6) (toInt tvUsec)
      have hle := le_unsignedField_length 8 (toInt (tvSec.tmod 100000000))
      have hle' := le_unsignedField_length 6 (toInt tvUsec)
      rw [toUInt_toInt] at hsec husec
      -- as an `unsigned int` a negative rest has ten digits
      have hrange : -100000000 < tvSec.tmod 100000000 ∧ tvSec.tmod 100000000 < 100000000 :=
        ⟨Int.lt_tmod_of_pos _ (by decide), Int.tmod_lt_of_pos _ (by decide)⟩
      have hsign : toUInt (tvSec.tmod 100000000) < 10 ^ 8 ↔ 0 ≤ tvSec.tmod 100000000 := by
        unfold toUInt
        omega
      have hfits : Record.Fits (.time tvSec tvUsec) ↔
          (unsignedField 8 (toInt (tvSec.tmod 100000000))).length = 8 ∧
            (unsignedField 6 (toInt tvUsec)).length = 6 := by
        simp only [Record.Fits]
        omega
      rw [hfits]
      simp only [Record.text, List.length_append, List.length_cons, List.length_nil]
      omega
  | bhAfter savecount =>
      have hcount := signedField_length_iff (by decide : 1 < 6) savecount
      have hfits : Record.Fits (.bhAfter savecount) ↔ (signedField 6 savecount).length = 6 := by
        simp only [Record.Fits]
        omega
      rw [hfits]
      simp only [Record.text, List.length_append, List.length_cons, List.length_nil]
      omega

namespace TextSys

variable {tvData : ℤ → ℤ × ℤ} {s s' : TextSys} {a : TextAct}

/-- A step that prints nothing leaves the head alone. -/
theorem head_of_none (h : printed tvData s a = none) : (update tvData s a).head = s.head := by
  cases a with
  | half a => simp only [update, h, Option.map_none, Option.getD_none]
  | shortInterrupt tvSec tvUsec => cases h
  | shortShInterrupt value tvSec tvUsec => simp only [update, h, Option.map_none, Option.getD_none]

/-- A record of 16 characters moves it on. -/
theorem head_of_some {r : Record} (h : printed tvData s a = some r) (hlen : r.text.length = 16) :
    (update tvData s a).head = shortIncrBp s.head 16 := by
  have hput : (s.put r).head = shortIncrBp s.head 16 := by
    simp only [put, hlen]
    rfl
  cases a with
  | half a =>
      simp only [update, h, Option.map_some, Option.getD_some]
      exact hput
  | shortInterrupt tvSec tvUsec =>
      cases h
      simp only [update, if_neg (not_not.mpr hlen)]
      exact hput
  | shortShInterrupt value tvSec tvUsec =>
      simp only [update, h, Option.map_some, Option.getD_some]
      exact hput

theorem headOk_incr {head : ℤ} (h : HeadOk head) : HeadOk (shortIncrBp head 16) := by
  obtain ⟨hpos, hlt, hdvd⟩ := h
  unfold PAGE_SIZE at hlt
  unfold shortIncrBp HeadOk PAGE_SIZE
  split
  · omega
  · omega

theorem inPage_iff (hi : HeadOk s.head) : InPage tvData s a ↔ FitsStep tvData s a := by
  obtain ⟨hpos, hlt, hdvd⟩ := hi
  cases hr : printed tvData s a with
  | none =>
      constructor
      · intro _ r hr'
        cases hr.symm.trans hr'
      · intro _
        refine ⟨?_, ?_⟩
        · rw [head_of_none hr]
          exact ⟨hpos, hlt, hdvd⟩
        · intro r hr'
          cases hr.symm.trans hr'
  | some r =>
      constructor
      · rintro ⟨_, hrecord⟩ r' hr'
        obtain ⟨hlen, hstores⟩ := hrecord r' hr'
        refine ⟨(text_length_iff r').mp hlen, ?_⟩
        intro hlast
        -- the terminator
        have hend := hstores (s.head + 16) (by omega) (by simp [hlen])
        omega
      · intro hfits
        have hlen := (text_length_iff r).mpr (hfits r hr).1
        refine ⟨?_, ?_⟩
        · rw [head_of_some hr hlen]
          exact headOk_incr ⟨hpos, hlt, hdvd⟩
        · intro r' hr'
          cases hr.symm.trans hr'
          refine ⟨hlen, ?_⟩
          intro x hle hx
          have hne := (hfits r hr).2
          simp only [List.length_append, hlen, List.length_cons, List.length_nil] at hx
          unfold PAGE_SIZE at hlt hne ⊢
          omega

/-- Along every run, whatever the page and the array of times hold at its start: the records
stay in the page exactly as long as their values fit, and none is the last one of the page. -/
theorem text_iff (tvData : ℤ → ℤ × ℤ) (page : ℤ → Char) (as : List TextAct) :
    Along (step tvData) (InPage tvData) (loaded page) as ↔
      Along (step tvData) (FitsStep tvData) (loaded page) as := by
  have hinit : HeadOk (loaded page).head :=
    ⟨Int.le_refl 0, (by decide : (0 : ℤ) < PAGE_SIZE), Int.dvd_zero 16⟩
  have hiff : ∀ s a, HeadOk s.head → True → (InPage tvData s a ↔ FitsStep tvData s a) :=
    fun _ _ hi _ => inPage_iff hi
  refine along_iff hiff ?_ hinit (along_of_forall fun _ _ _ => trivial)
  intro s a s' hi _ hfits hs
  obtain ⟨_, rfl⟩ := guarded_eq_some.mp hs
  exact ((inPage_iff hi).mpr hfits).1

/-- With 255 records in the page, the terminator of the next one lies behind it; and a number
of microseconds of seven digits takes 17 characters. -/
theorem text_lastRecord : ∃ s, run (step fun _ => (0, 0)) (loaded fun _ => 'x')
      (List.replicate 255 (.shortInterrupt 0 0)) = some s ∧ s.head = 4080 ∧
    ¬ InPage (fun _ => (0, 0)) s (.shortInterrupt 0 0) ∧
    ¬ InPage (fun _ => (0, 0)) (loaded fun _ => 'x') (.shortInterrupt 0 1000000) := by
  obtain ⟨s, hrun, hhead⟩ : ∃ s, run (step fun _ => (0, 0)) (loaded fun _ => 'x')
      (List.replicate 255 (.shortInterrupt 0 0)) = some s ∧ s.head = 4080 := by
    apply Option.map_eq_some_iff.mp
    decide +kernel
  refine ⟨s, hrun, hhead, ?_, ?_⟩
  · rintro ⟨_, hrecord⟩
    obtain ⟨hlen, hstores⟩ := hrecord _ rfl
    have hend := hstores 4096 (by omega) (by simp [hlen, hhead])
    exact absurd hend.2 (by decide)
  · rintro ⟨_, hrecord⟩
    exact absurd (hrecord _ rfl).1 (by decide)

end TextSys

end Short
