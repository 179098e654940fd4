import DriversLab.DdkExt.State
import Mathlib.Data.List.TakeDrop

/-!
# DdkExt.ProcWrite — the command parser of `/proc/ddk_usb_status`

`ddk_proc_write` with the parts it is made of: the 64-byte buffer, the kernel's
`sscanf(buf, "%31s %ld", cmd, &val)` and the `strcmp` chain. Bytes are `UInt8`.

`sscanf` follows the kernel: white space is `isspace` of the kernel's table,
`%31s` skips it and stores at most 31 other bytes, `%ld` skips it, takes an
optional minus sign and decimal digits, and stores the number modulo 2^64. A
conversion that is not made leaves its target alone, so after a one-word
command `val` is whatever the stack held (`junk`).
-/

namespace DdkExt

open CInt

def EFAULT : ℤ := 14
def EINVAL : ℤ := 22

/-! ## Bytes and white space -/

/-- A string literal of the source. -/
def ascii (cs : List Char) : List UInt8 := cs.map fun c => UInt8.ofNat c.toNat

/-- `isspace` of the kernel (`lib/ctype.c`): tab to carriage return, blank and
the no-break space. -/
def isSpace (c : UInt8) : Bool := (9 ≤ c && c ≤ 13) || c = 32 || c = 160

def isDigit (c : UInt8) : Bool := 48 ≤ c && c ≤ 57

def skipSpaces (s : List UInt8) : List UInt8 := s.dropWhile isSpace

/-- The decimal number that a list of digits spells. -/
def decimal (ds : List UInt8) : ℕ := ds.foldl (fun n d => 10 * n + (d.toNat - 48)) 0

/-! ## The buffer -/

/-- `buf` as the C string that `sscanf` sees: at most 63 bytes are copied, a
trailing newline is overwritten, and the string ends at the first zero byte. -/
def cString (ubuf : List UInt8) : List UInt8 :=
  let buf := ubuf.take 63
  let buf := if buf.getLast? = some 10 then buf.dropLast else buf
  buf.takeWhile (· ≠ 0)

/-! ## sscanf -/

/-- `%ld` at the head of `s`: the number as written, if there is one. -/
def scanLong (s : List UInt8) : Option ℤ :=
  match skipSpaces s with
  | [] => none
  | c :: s' =>
      if c = 45 then
        let ds := s'.takeWhile isDigit
        if ds = [] then none else some (-(decimal ds : ℤ))
      else
        let ds := (c :: s').takeWhile isDigit
        if ds = [] then none else some (decimal ds)

/-- `sscanf(buf, "%31s %ld", cmd, &val)`: `none` when no conversion is made,
otherwise the word and, when both are made, the number as written. -/
def sscanf (buf : List UInt8) : Option (List UInt8 × Option ℤ) :=
  match buf with
  | [] => none
  | _ :: _ =>
      let s := skipSpaces buf
      let cmd := (s.takeWhile fun c => !isSpace c).take 31
      some (cmd, scanLong (s.drop cmd.length))

/-! ## The commands -/

inductive Command where
  | timer
  | interval
  | blink
  | delay
  | reset
deriving DecidableEq, Repr

/-- The `strcmp` chain. -/
def command (cmd : List UInt8) : Option Command :=
  if cmd = ascii ['t', 'i', 'm', 'e', 'r'] then some .timer
  else if cmd = ascii ['i', 'n', 't', 'e', 'r', 'v', 'a', 'l'] then some .interval
  else if cmd = ascii ['b', 'l', 'i', 'n', 'k'] then some .blink
  else if cmd = ascii ['d', 'e', 'l', 'a', 'y'] then some .delay
  else if cmd = ascii ['r', 'e', 's', 'e', 't'] then some .reset
  else none

/-- What a write asks for: the command and the number as written, if `sscanf`
read one. `none` when the write is refused. -/
def request (ubuf : List UInt8) : Option (Command × Option ℤ) :=
  (sscanf (cString ubuf)).bind fun w => (command w.1).map fun c => (c, w.2)

/-- The value in `val`: the number converted to `long`, or what the stack slot
held where `sscanf` read none. -/
def valOf (n : Option ℤ) (junk : ℤ) : ℤ := toLong (n.getD junk)

/-- The section of `ddk_proc_write` under the lock, for the value `val` that is
in the `long` of that name. -/
def ddkProcSection (c : Command) (val : ℤ) (s : DdkExtState) : DdkExtState :=
  match c with
  | .timer =>
      let s := { s with timerEnabled := decide (val ≠ 0) }
      if !s.timerEnabled then s.timerDelete else s
  | .interval => if 0 < val then { s with timerIntervalMs := toULong val } else s
  | .blink => if 0 < val then { s with blinkCount := toInt val } else s
  | .delay => if 0 < val then { s with blinkDelayMs := toInt val } else s
  | .reset =>
      { s with totalUsbSuccess := 0, totalUsbFail := 0, totalBlinks := 0, lastWriteLen := 0 }

/-- `ddk_proc_write`; `ubuf` is `none` when `copy_from_user` faults. -/
def ddkProcWrite (ubuf : Option (List UInt8)) (junk : ℤ) (s : DdkExtState) : ℤ × DdkExtState :=
  match ubuf with
  | none => (-EFAULT, s)
  | some ubuf =>
      match request ubuf with
      | none => (-EINVAL, s)
      | some (c, n) => (ubuf.length, ddkProcSection c (valOf n junk) s)

/-! ## Commands as a user types them -/

def timer0 : List UInt8 := ascii ['t', 'i', 'm', 'e', 'r', ' ', '0', '\n']
def timer1 : List UInt8 := ascii ['t', 'i', 'm', 'e', 'r', ' ', '1', '\n']
def blink5 : List UInt8 := ascii ['b', 'l', 'i', 'n', 'k', ' ', '5', '\n']

/-! ## What a write leaves alone -/

/-- The fields that no command touches. -/
structure Frame (s s' : DdkExtState) : Prop where
  blinkWork : s'.blinkWork = s.blinkWork
  workPending : s'.workPending = s.workPending
  procEntry : s'.procEntry = s.procEntry
  /-- A command can disarm the timer but never arms it. -/
  activityTimer : s'.activityTimer = s.activityTimer ∨ s'.activityTimer = none

theorem ddkProcSection_frame (c : Command) (val : ℤ) (s : DdkExtState) :
    Frame s (ddkProcSection c val s) := by
  cases c with
  | timer =>
      simp only [ddkProcSection]
      split
      · exact ⟨rfl, rfl, rfl, Or.inr rfl⟩
      · exact ⟨rfl, rfl, rfl, Or.inl rfl⟩
  | interval => simp only [ddkProcSection]; split <;> exact ⟨rfl, rfl, rfl, Or.inl rfl⟩
  | blink => simp only [ddkProcSection]; split <;> exact ⟨rfl, rfl, rfl, Or.inl rfl⟩
  | delay => simp only [ddkProcSection]; split <;> exact ⟨rfl, rfl, rfl, Or.inl rfl⟩
  | reset => exact ⟨rfl, rfl, rfl, Or.inl rfl⟩

theorem ddkProcWrite_frame (ubuf : Option (List UInt8)) (junk : ℤ) (s : DdkExtState) :
    Frame s (ddkProcWrite ubuf junk s).2 := by
  cases ubuf with
  | none => exact ⟨rfl, rfl, rfl, Or.inl rfl⟩
  | some ubuf =>
      simp only [ddkProcWrite]
      cases request ubuf with
      | none => exact ⟨rfl, rfl, rfl, Or.inl rfl⟩
      | some r => exact ddkProcSection_frame r.1 _ s

end DdkExt
