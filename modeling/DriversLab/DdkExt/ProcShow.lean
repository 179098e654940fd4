import DriversLab.DdkExt.ProcParse
import DriversLab.Lib.Printf
import Mathlib.Data.List.TakeWhile

/-!
# DdkExt.ProcShow — reading `/proc/ddk_usb_status`, and writing back what was read

* `ddkProcShow`: the text, a line for each field;
* `readStatus_show`, `show_eq_iff`: every field can be read off the text, so that the text
  determines them all;
* `restore_spec`, `restore_iff`: the settings in the text, written back as commands into any
  other state, are the settings again, unless a number is shown there that the parser does
  not accept.
-/

namespace DdkExt

open CInt Printf

/-! ## The text -/

/-- The lines of `ddk_proc_show` below the title. -/
inductive Field where
  | totalUsbSuccess
  | totalUsbFail
  | totalBlinks
  | lastWriteLen
  | timerEnabled
  | timerIntervalMs
  | blinkCount
  | blinkDelayMs
  | workPending
deriving DecidableEq, Repr

namespace Field

def label : Field → List Char
  | totalUsbSuccess => "total_usb_success : ".toList
  | totalUsbFail => "total_usb_fail    : ".toList
  | totalBlinks => "total_blinks      : ".toList
  | lastWriteLen => "last_write_len    : ".toList
  | timerEnabled => "timer_enabled     : ".toList
  | timerIntervalMs => "timer_interval_ms : ".toList
  | blinkCount => "blink_count       : ".toList
  | blinkDelayMs => "blink_delay_ms    : ".toList
  | workPending => "work_pending      : ".toList

/-- What stands behind the value. -/
def unit : Field → List Char
  | lastWriteLen => " bytes".toList
  | timerIntervalMs | blinkDelayMs => " ms".toList
  | _ => []

def all : List Field :=
  [totalUsbSuccess, totalUsbFail, totalBlinks, lastWriteLen, timerEnabled, timerIntervalMs,
    blinkCount, blinkDelayMs, workPending]

/-- The labels are of one width. -/
theorem label_length (f : Field) : f.label.length = 20 := by
  cases f <;> decide

theorem label_inj {f g : Field} (h : f.label = g.label) : f = g := by
  revert h
  cases f <;> cases g <;> decide

end Field

def yesNo (b : Bool) : List Char := if b then "yes".toList else "no".toList

/-- The value of a field, as it is printed: `%lu` and `%u` of a number that is not negative
are the same text as `%d`. -/
def shown (s : DdkExtState) : Field → List Char
  | .totalUsbSuccess => signedText s.totalUsbSuccess
  | .totalUsbFail => signedText s.totalUsbFail
  | .totalBlinks => signedText s.totalBlinks
  | .lastWriteLen => signedText s.lastWriteLen
  | .timerEnabled => yesNo s.timerEnabled
  | .timerIntervalMs => signedText s.timerIntervalMs
  | .blinkCount => signedText s.blinkCount
  | .blinkDelayMs => signedText s.blinkDelayMs
  | .workPending => yesNo s.workPending

def title : List (List Char) :=
  ["DDK USB Driver — Runtime Status".toList, "--------------------------------".toList]

/-- A line without its newline. -/
def statusLine (s : DdkExtState) (f : Field) : List Char := f.label ++ shown s f ++ f.unit

/-- `ddk_proc_show`. -/
def ddkProcShow (s : DdkExtState) : List Char :=
  (title ++ Field.all.map (statusLine s)).flatMap fun line => line ++ ['\n']

/-! ## Reading a field -/

/-- What a user finds behind the label of `f`. -/
def readStatus (f : Field) (text : List Char) : Option (List Char) :=
  ((text.splitOn '\n').find? fun line => f.label.isPrefixOf line).map fun line =>
    (line.drop f.label.length).takeWhile (· ≠ ' ')

section Reading

variable {s t : DdkExtState}

/-- Lines that are put together come apart again. -/
theorem splitOn_lines {lines : List (List Char)} (h : ∀ l ∈ lines, '\n' ∉ l) :
    (lines.flatMap fun line => line ++ ['\n']).splitOn '\n' = lines ++ [[]] := by
  induction lines with
  | nil => rfl
  | cons line lines ih =>
      rw [List.flatMap_cons, List.append_assoc, List.singleton_append,
        List.splitOn_append_cons_self_of_not_mem (h line List.mem_cons_self),
        ih fun l hl => h l (List.mem_cons_of_mem _ hl)]
      rfl

/-- No blank and no newline is in a number. -/
theorem graphic_signedText (z : ℤ) : ∀ c ∈ signedText z, c ≠ ' ' ∧ c ≠ '\n' := by
  have hdigits : ∀ c ∈ Nat.toDigits 10 z.natAbs, c ≠ ' ' ∧ c ≠ '\n' := by
    intro c hc
    have hdigit := Nat.isDigit_of_mem_toDigits (by decide) (by decide) hc
    constructor <;>
    · rintro rfl
      revert hdigit
      decide
  unfold signedText
  split
  · intro c hc
    rcases List.mem_cons.mp hc with rfl | hc
    · decide
    · exact hdigits c hc
  · exact hdigits

theorem graphic_yesNo (b : Bool) : ∀ c ∈ yesNo b, c ≠ ' ' ∧ c ≠ '\n' := by
  cases b <;> simp [yesNo]

theorem graphic_shown (s : DdkExtState) (f : Field) : ∀ c ∈ shown s f, c ≠ ' ' ∧ c ≠ '\n' := by
  cases f with
  | timerEnabled => exact graphic_yesNo _
  | workPending => exact graphic_yesNo _
  | _ => exact graphic_signedText _

theorem newline_notMem_line (s : DdkExtState) (f : Field) : '\n' ∉ statusLine s f := by
  unfold statusLine
  rw [List.mem_append, List.mem_append]
  rintro ((hl | hv) | hu)
  · revert hl
    cases f <;> decide
  · exact (graphic_shown s f _ hv).2 rfl
  · revert hu
    cases f <;> decide

theorem splitOn_show (s : DdkExtState) :
    (ddkProcShow s).splitOn '\n' = title ++ Field.all.map (statusLine s) ++ [[]] := by
  apply splitOn_lines
  intro l hl
  rcases List.mem_append.mp hl with htitle | hline
  · have hclosed : ∀ l ∈ title, '\n' ∉ l := by decide
    exact hclosed l htitle
  · rcases List.mem_map.mp hline with ⟨f, -, rfl⟩
    exact newline_notMem_line s f

/-- A label is at the beginning of its own line only. -/
theorem label_isPrefixOf_line (s : DdkExtState) (f g : Field) :
    f.label.isPrefixOf (statusLine s g) = decide (f = g) := by
  have hhead : (statusLine s g).take 20 = g.label := by
    rw [statusLine, List.append_assoc,
      List.take_append_of_le_length (Nat.le_of_eq (Field.label_length g).symm),
      List.take_of_length_le (Nat.le_of_eq (Field.label_length g))]
  rw [Bool.eq_iff_iff, List.isPrefixOf_iff_prefix, List.prefix_iff_eq_take, Field.label_length,
    hhead, decide_eq_true_iff]
  constructor
  · exact Field.label_inj
  · rintro rfl
    rfl

/-- Every field can be read off the text. -/
theorem readStatus_show (s : DdkExtState) (f : Field) :
    readStatus f (ddkProcShow s) = some (shown s f) := by
  have htitle : title.find? (fun line => f.label.isPrefixOf line) = none := by
    cases f <;> decide
  have hall : Field.all.find? (fun g => decide (f = g)) = some f := by
    cases f <;> decide
  have hfind : ((ddkProcShow s).splitOn '\n').find? (fun line => f.label.isPrefixOf line) =
      some (statusLine s f) := by
    rw [splitOn_show, List.append_assoc, List.find?_append, htitle, Option.none_or,
      List.find?_append, List.find?_map]
    simp only [Function.comp_def, label_isPrefixOf_line, hall, Option.map_some, Option.some_or]
  have hvalue : (shown s f ++ f.unit).takeWhile (· ≠ ' ') = shown s f := by
    rw [List.takeWhile_append_of_pos]
    · have hunit : f.unit.takeWhile (· ≠ ' ') = [] := by
        cases f <;> decide
      rw [hunit, List.append_nil]
    · intro c hc
      simpa using (graphic_shown s f c hc).1
  rw [readStatus, hfind, Option.map_some, statusLine, List.append_assoc, List.drop_left, hvalue]

end Reading

/-! ## Numbers -/

section Numbers

/-- A digit as a byte. -/
theorem isDigit_of_char {c : Char} (h : c.isDigit = true) :
    isDigit (UInt8.ofNat c.toNat) = true := by
  have hrange : 48 ≤ c.toNat ∧ c.toNat ≤ 57 := by
    simpa [Char.isDigit, UInt32.le_iff_toNat_le] using h
  have hbyte : (UInt8.ofNat c.toNat).toNat = c.toNat := by
    rw [UInt8.toNat_ofNat']
    omega
  simp only [isDigit, Bool.and_eq_true, decide_eq_true_eq, UInt8.le_iff_toNat_le, hbyte]
  exact hrange

theorem decimal_append (ds : List UInt8) (d : UInt8) :
    decimal (ds ++ [d]) = 10 * decimal ds + (d.toNat - 48) := by
  simp only [decimal, List.foldl_append, List.foldl_cons, List.foldl_nil]

theorem digitChar_byte {d : ℕ} (h : d < 10) : (UInt8.ofNat d.digitChar.toNat).toNat - 48 = d := by
  revert d
  decide

/-- The parser reads a number as it is printed. -/
theorem decimal_toDigits (n : ℕ) : decimal (ascii (Nat.toDigits 10 n)) = n := by
  induction n using Nat.strongRecOn with
  | ind n ih =>
      rw [Nat.toDigits_eq_if (by decide)]
      split
      · rename_i hlt
        simp only [ascii, List.map_cons, List.map_nil, decimal, List.foldl_cons, List.foldl_nil,
          digitChar_byte hlt]
        omega
      · -- all digits but the last are those of a smaller number
        have hmod : n % 10 < 10 := Nat.mod_lt _ (by decide)
        have hpre := ih (n / 10) (by omega)
        rw [ascii] at hpre
        rw [ascii, List.map_append, List.map_cons, List.map_nil, decimal_append, hpre,
          digitChar_byte hmod]
        omega

theorem isDigit_toDigits (n : ℕ) : ∀ d ∈ ascii (Nat.toDigits 10 n), isDigit d = true := by
  intro d hd
  rcases List.mem_map.mp hd with ⟨c, hc, rfl⟩
  exact isDigit_of_char (Nat.isDigit_of_mem_toDigits (by decide) (by decide) hc)

theorem ascii_toDigits_ne_nil (n : ℕ) : ascii (Nat.toDigits 10 n) ≠ [] := by
  rw [ascii, ne_eq, List.map_eq_nil_iff]
  exact Nat.toDigits_ne_nil

theorem not_space_of_isDigit {d : UInt8} (h : isDigit d = true) :
    isSpace d = false ∧ d ≠ 45 ∧ d ≠ 0 := by
  simp only [isDigit, Bool.and_eq_true, decide_eq_true_eq, UInt8.le_iff_toNat_le] at h
  have hlow : 48 ≤ d.toNat := h.1
  have hhigh : d.toNat ≤ 57 := h.2
  refine ⟨?_, ?_, ?_⟩
  · simp only [isSpace, Bool.or_eq_false_iff, Bool.and_eq_false_iff, decide_eq_false_iff_not,
      UInt8.le_iff_toNat_le, ← UInt8.toNat_inj]
    have h13 : (13 : UInt8).toNat = 13 := rfl
    have h32 : (32 : UInt8).toNat = 32 := rfl
    have h160 : (160 : UInt8).toNat = 160 := rfl
    omega
  · rintro rfl
    exact absurd hlow (by decide)
  · rintro rfl
    exact absurd hlow (by decide)

/-- The digits of a number, scanned. -/
theorem takeWhile_toDigits (n : ℕ) :
    (ascii (Nat.toDigits 10 n)).takeWhile isDigit = ascii (Nat.toDigits 10 n) :=
  List.takeWhile_eq_self_iff.mpr (isDigit_toDigits n)

/-- The scan of an optional minus sign and digits, behind a blank. -/
theorem scanLong_blank {d : UInt8} {ds : List UInt8} (h : isSpace d = false) :
    scanLong (32 :: d :: ds) =
      if d = 45 then
        if ds.takeWhile isDigit = [] then none else some (-(decimal (ds.takeWhile isDigit) : ℤ))
      else if (d :: ds).takeWhile isDigit = [] then none
      else some (decimal ((d :: ds).takeWhile isDigit)) := by
  have hblank : isSpace 32 = true := by decide
  have hskip : skipSpaces (32 :: d :: ds) = d :: ds := by
    rw [skipSpaces, List.dropWhile_cons, if_pos hblank, List.dropWhile_cons, h, if_neg (by decide)]
  unfold scanLong
  rw [hskip]

/-- `%ld` finds the number that `%d` has printed behind a blank. -/
theorem scanLong_signedText (z : ℤ) : scanLong (32 :: ascii (signedText z)) = some z := by
  unfold signedText
  split
  · -- a minus sign, and the digits
    have htext : ascii ('-' :: Nat.toDigits 10 z.natAbs) = 45 :: ascii (Nat.toDigits 10 z.natAbs) :=
      rfl
    rw [htext, scanLong_blank (by decide), if_pos rfl, takeWhile_toDigits,
      if_neg (ascii_toDigits_ne_nil _), decimal_toDigits]
    congr 1
    omega
  · cases hdigits : ascii (Nat.toDigits 10 z.natAbs) with
    | nil => exact absurd hdigits (ascii_toDigits_ne_nil _)
    | cons d ds =>
        have hd : isDigit d = true := by
          apply isDigit_toDigits z.natAbs
          rw [hdigits]
          exact List.mem_cons_self
        rcases not_space_of_isDigit hd with ⟨hspace, hminus, -⟩
        rw [scanLong_blank hspace, if_neg hminus, ← hdigits, takeWhile_toDigits,
          if_neg (ascii_toDigits_ne_nil _), decimal_toDigits]
        congr 1
        omega

theorem nonzero_signedText (z : ℤ) : ∀ d ∈ ascii (signedText z), d ≠ 0 := by
  have hdigits : ∀ d ∈ ascii (Nat.toDigits 10 z.natAbs), d ≠ 0 :=
    fun d hd => (not_space_of_isDigit (isDigit_toDigits z.natAbs d hd)).2.2
  unfold signedText
  split
  · intro d hd
    rcases List.mem_cons.mp hd with rfl | hd
    · decide
    · exact hdigits d hd
  · exact hdigits

theorem signedText_inj {y z : ℤ} (h : signedText y = signedText z) : y = z := by
  have hscan := scanLong_signedText y
  rw [h, scanLong_signedText z] at hscan
  exact (Option.some.inj hscan).symm

end Numbers

/-! ## What the text determines -/

theorem yesNo_inj {a b : Bool} (h : yesNo a = yesNo b) : a = b := by
  revert h
  cases a <;> cases b <;> decide

/-- The status of two states reads the same exactly if all their fields are the same. -/
theorem show_eq_iff (s t : DdkExtState) :
    ddkProcShow s = ddkProcShow t ↔
      s.totalUsbSuccess = t.totalUsbSuccess ∧ s.totalUsbFail = t.totalUsbFail ∧
      s.totalBlinks = t.totalBlinks ∧ s.lastWriteLen = t.lastWriteLen ∧
      s.timerEnabled = t.timerEnabled ∧ s.timerIntervalMs = t.timerIntervalMs ∧
      s.blinkCount = t.blinkCount ∧ s.blinkDelayMs = t.blinkDelayMs ∧
      s.workPending = t.workPending := by
  constructor
  · intro h
    have hshown : ∀ f, shown s f = shown t f := by
      intro f
      apply Option.some.inj
      rw [← readStatus_show s f, ← readStatus_show t f, h]
    have hcount : ∀ {m n : ℕ}, signedText m = signedText n → m = n :=
      fun heq => Int.ofNat_inj.mp (signedText_inj heq)
    exact ⟨hcount (hshown .totalUsbSuccess), hcount (hshown .totalUsbFail),
      hcount (hshown .totalBlinks), hcount (hshown .lastWriteLen), yesNo_inj (hshown .timerEnabled),
      signedText_inj (hshown .timerIntervalMs), signedText_inj (hshown .blinkCount),
      signedText_inj (hshown .blinkDelayMs), yesNo_inj (hshown .workPending)⟩
  · rintro ⟨h₁, h₂, h₃, h₄, h₅, h₆, h₇, h₈, h₉⟩
    have hshown : ∀ f, shown s f = shown t f := by
      intro f
      cases f <;> simp only [shown, h₁, h₂, h₃, h₄, h₅, h₆, h₇, h₈, h₉]
    have hline : statusLine s = statusLine t := by
      funext f
      rw [statusLine, statusLine, hshown f]
    rw [ddkProcShow, ddkProcShow, hline]

/-! ## Writing the settings back -/

/-- The line that shows what a command sets. -/
def Command.field : Command → Option Field
  | .timer => some .timerEnabled
  | .interval => some .timerIntervalMs
  | .blink => some .blinkCount
  | .delay => some .blinkDelayMs
  | .reset => none

/-- The number that a user writes for a value. -/
def Command.argument (c : Command) (value : List Char) : List Char :=
  match c with
  | .timer => if value = yesNo true then ['1'] else ['0']
  | _ => value

/-- The command with its number, as `echo` puts it out. -/
def echo (c : Command) (argument : List Char) : List UInt8 :=
  c.word ++ 32 :: ascii argument ++ [10]

/-- Write back one setting of a status text, whatever is on the stack. -/
def restoreOne (text : List Char) (junk : ℤ) (t : DdkExtState) (c : Command) : DdkExtState :=
  match c.field.bind fun f => readStatus f text with
  | some value => (ddkProcWrite (some (echo c (c.argument value))) junk t).2
  | none => t

/-- Write back the settings in the order of `cs`. -/
def restore (text : List Char) (junk : ℤ) (cs : List Command) (t : DdkExtState) : DdkExtState :=
  cs.foldl (restoreOne text junk) t

section Restore

variable {s t : DdkExtState} {c : Command} {junk : ℤ}

theorem sscanf_word (c : Command) (rest : List UInt8) :
    sscanf (c.word ++ 32 :: rest) = some (c.word, scanLong (32 :: rest)) := by
  cases c <;> rfl

/-- The parser finds the command and the number in what `echo` puts out. -/
theorem request_echo (c : Command) {z : ℤ} (h : (signedText z).length ≤ 21) :
    request (echo c (signedText z)) = some (c, some z) := by
  have hword : c.word.length ≤ 8 ∧ ∀ d ∈ c.word, d ≠ 0 := by
    cases c <;> simp [Command.word, ascii]
  have hnonzero : ∀ d ∈ c.word ++ 32 :: ascii (signedText z), d ≠ 0 := by
    intro d hd
    rcases List.mem_append.mp hd with hin | hin
    · exact hword.2 d hin
    · rcases List.mem_cons.mp hin with rfl | hin
      · decide
      · exact nonzero_signedText z d hin
  have hstring : cString (echo c (signedText z)) = c.word ++ 32 :: ascii (signedText z) := by
    have hlen : (echo c (signedText z)).length ≤ 63 := by
      simp only [echo, ascii, List.length_append, List.length_cons, List.length_map,
        List.length_nil]
      omega
    unfold cString
    rw [List.take_of_length_le hlen]
    simp only [echo, List.getLast?_concat, if_true, List.dropLast_concat]
    exact List.takeWhile_eq_self_iff.mpr (by simpa using hnonzero)
  have hscan : sscanf (cString (echo c (signedText z))) = some (c.word, some z) := by
    rw [hstring, sscanf_word, scanLong_signedText]
  exact request_eq_some.mpr ⟨by rw [firstWord, hscan]; rfl, by rw [number, hscan]; rfl⟩

/-- What `echo` puts out is accepted, and the number is used as `long`. -/
theorem write_echo (c : Command) (z : ℤ) (hl : -10 ^ 20 < z) (hu : z < 10 ^ 21) :
    ddkProcWrite (some (echo c (signedText z))) junk t =
      (((echo c (signedText z)).length : ℤ), ddkProcSection c (toLong z) t) :=
  write_of_some (request_echo c ((signedText_length_le_iff (by decide) z).mpr ⟨hl, hu⟩))

/-- The fields are values of their C types. -/
structure Typed (s : DdkExtState) : Prop where
  interval : 0 ≤ s.timerIntervalMs ∧ s.timerIntervalMs < 2 ^ 64
  count : -2 ^ 31 ≤ s.blinkCount ∧ s.blinkCount < 2 ^ 31
  delay : -2 ^ 31 ≤ s.blinkDelayMs ∧ s.blinkDelayMs < 2 ^ 31

def LONG_MAX : ℤ := 2 ^ 63 - 1

/-- What comes of writing back the settings `cs` of `s`: the timer is disarmed if it was off,
and a number is taken if it is positive as a `long`. -/
def restored (s : DdkExtState) (cs : List Command) (t : DdkExtState) : DdkExtState :=
  { t with
    timerEnabled := if .timer ∈ cs then s.timerEnabled else t.timerEnabled
    activityTimer := if .timer ∈ cs ∧ s.timerEnabled = false then none else t.activityTimer
    timerIntervalMs :=
      if .interval ∈ cs ∧ 0 < s.timerIntervalMs ∧ s.timerIntervalMs ≤ LONG_MAX then
        s.timerIntervalMs
      else t.timerIntervalMs
    blinkCount := if .blink ∈ cs ∧ 0 < s.blinkCount then s.blinkCount else t.blinkCount
    blinkDelayMs := if .delay ∈ cs ∧ 0 < s.blinkDelayMs then s.blinkDelayMs else t.blinkDelayMs }

theorem ite_merge {α : Type} (P Q R : Prop) [Decidable P] [Decidable Q] [Decidable R] (x y : α) :
    (if P ∧ R then x else if Q ∧ R then x else y) = if (Q ∨ P) ∧ R then x else y := by
  by_cases hP : P <;> by_cases hQ : Q <;> by_cases hR : R <;> simp [hP, hQ, hR]

/-- One setting after the other. -/
theorem restored_cons (s t : DdkExtState) (c : Command) (cs : List Command) :
    restored s cs (restored s [c] t) = restored s (c :: cs) t := by
  have htimer : (if .timer ∈ cs then s.timerEnabled else if .timer = c then s.timerEnabled
      else t.timerEnabled) =
        if .timer = c ∨ .timer ∈ cs then s.timerEnabled else t.timerEnabled := by
    simpa using ite_merge (.timer ∈ cs) (.timer = c) True s.timerEnabled t.timerEnabled
  simp only [restored, List.mem_cons, List.not_mem_nil, or_false, htimer, ite_merge]

theorem restoreOne_show (hs : Typed s) (t : DdkExtState) (c : Command) :
    restoreOne (ddkProcShow s) junk t c = restored s [c] t := by
  rcases hs with ⟨⟨hil, hiu⟩, ⟨hcl, hcu⟩, ⟨hdl, hdu⟩⟩
  unfold restoreOne
  cases c with
  | timer =>
      have harg : Command.timer.argument (yesNo s.timerEnabled) =
          signedText (if s.timerEnabled then 1 else 0) := by
        cases s.timerEnabled <;> decide
      simp only [Command.field, Option.bind_some, readStatus_show, shown, harg]
      rw [write_echo .timer _ (by split <;> decide) (by split <;> decide)]
      cases hon : s.timerEnabled with
      | true => simp [ddkProcSection, restored, hon, toLong]
      | false => simp [ddkProcSection, restored, hon, toLong, DdkExtState.timerDelete]
  | interval =>
      simp only [Command.field, Option.bind_some, readStatus_show, shown, Command.argument]
      rw [write_echo .interval s.timerIntervalMs (by omega) (by omega)]
      by_cases hlong : s.timerIntervalMs ≤ LONG_MAX
      · have hlt : s.timerIntervalMs < 2 ^ 63 := by
          unfold LONG_MAX at hlong
          omega
        have hulong : toULong s.timerIntervalMs = s.timerIntervalMs := by
          unfold toULong
          omega
        rw [toLong_of_range (by omega) hlt]
        by_cases hpos : 0 < s.timerIntervalMs
        · simp [ddkProcSection, restored, hpos, hlong, hulong]
        · simp [ddkProcSection, restored, hpos]
      · -- the number is negative as a `long`
        have hneg : ¬ 0 < toLong s.timerIntervalMs := by
          unfold LONG_MAX at hlong
          unfold toLong
          omega
        simp [ddkProcSection, restored, hneg, hlong]
  | blink =>
      simp only [Command.field, Option.bind_some, readStatus_show, shown, Command.argument]
      rw [write_echo .blink s.blinkCount (by omega) (by omega),
        toLong_of_range (by omega) (by omega)]
      by_cases hpos : 0 < s.blinkCount
      · simp [ddkProcSection, restored, hpos, toInt_of_range hcl hcu]
      · simp [ddkProcSection, restored, hpos]
  | delay =>
      simp only [Command.field, Option.bind_some, readStatus_show, shown, Command.argument]
      rw [write_echo .delay s.blinkDelayMs (by omega) (by omega),
        toLong_of_range (by omega) (by omega)]
      by_cases hpos : 0 < s.blinkDelayMs
      · simp [ddkProcSection, restored, hpos, toInt_of_range hdl hdu]
      · simp [ddkProcSection, restored, hpos]
  | reset => rfl

end Restore

/-- The settings of a status text, written back in any order and any number of times. -/
theorem restore_spec {s : DdkExtState} (hs : Typed s) (junk : ℤ) (cs : List Command)
    (t : DdkExtState) : restore (ddkProcShow s) junk cs t = restored s cs t := by
  induction cs generalizing t with
  | nil => simp [restore, restored]
  | cons c cs ih =>
      show restore (ddkProcShow s) junk cs (restoreOne (ddkProcShow s) junk t c) = _
      rw [restoreOne_show hs, ih, restored_cons]

/-- The settings of two states are the same. -/
def SameSettings (s t : DdkExtState) : Prop :=
  t.timerEnabled = s.timerEnabled ∧ t.timerIntervalMs = s.timerIntervalMs ∧
    t.blinkCount = s.blinkCount ∧ t.blinkDelayMs = s.blinkDelayMs

/-- The settings can be saved by reading the status, and restored by writing them back, in any
order and into any state: this works exactly if no number is shown that the parser does not
take (or that is there already). -/
theorem restore_iff {s : DdkExtState} (hs : Typed s) {cs : List Command}
    (hcs : ∀ c, c ≠ .reset → c ∈ cs) (junk : ℤ) (t : DdkExtState) :
    SameSettings s (restore (ddkProcShow s) junk cs t) ↔
      (0 < s.timerIntervalMs ∧ s.timerIntervalMs ≤ LONG_MAX ∨
        t.timerIntervalMs = s.timerIntervalMs) ∧
      (0 < s.blinkCount ∨ t.blinkCount = s.blinkCount) ∧
      (0 < s.blinkDelayMs ∨ t.blinkDelayMs = s.blinkDelayMs) := by
  have hite : ∀ (P : Prop) [Decidable P] (x y : ℤ), (if P then x else y) = x ↔ P ∨ y = x := by
    intro P _ x y
    by_cases hP : P <;> simp [hP]
  rw [restore_spec hs]
  simp only [SameSettings, restored, hcs .timer (by decide), hcs .interval (by decide),
    hcs .blink (by decide), hcs .delay (by decide), true_and, if_true, hite]

/-- A timer that is on, and five blinks. -/
def blinking : DdkExtState := { ddkExtInit true with timerEnabled := true, blinkCount := 5 }

theorem restore_iff_blinking : SameSettings blinking
    (restore (ddkProcShow blinking) 7 [.delay, .blink, .interval, .timer, .blink]
      (ddkExtInit true)) := by
  have hs : Typed blinking := by
    constructor <;> decide
  apply (restore_iff hs ?_ 7 (ddkExtInit true)).mpr
  · decide
  · intro c hc
    cases c <;> first
      | exact absurd rfl hc
      | decide

end DdkExt
