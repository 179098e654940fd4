import DriversLab.Lib.Spool
import DriversLab.Short.Text

/-!
# Short.Reading — the reader of the text buffer

`short_i_read` waits until head and tail differ, takes the text up to the head or to the end
of the page, and moves `short_tail`. The handlers print in between, at any of its steps, and
never look at the tail.

* `ReadSys`: the text buffer of `Short.Text` with one reading process;
* `Unlost`: a record is appended to what is unread;
* `reading_iff`: records that fit are appended, along every run, exactly as long as each
  finds 16 bytes of the page free and one to spare; and then what was printed is what has
  been delivered and what is unread, in this order.
-/

namespace Short

open Lts Ring

/-- The text buffer and its reader: `short_tail`, and all that `read` has returned. -/
structure ReadSys where
  text : TextSys
  tail : ℤ
  reader : Spool.Consumer Char
  delivered : List Char

/-- A step of the module, or one of `short_i_read`. -/
inductive ReadAct where
  | text (a : TextAct)
  | read (a : Spool.Read)
deriving DecidableEq

namespace ReadSys

/-- The page as a ring. -/
def spool (s : ReadSys) : Spool.State Char :=
  ⟨s.text.page, s.text.head, s.tail, s.reader, s.delivered⟩

def guard (s : ReadSys) : ReadAct → Prop
  | .text a => s.text.guard a
  | .read a => s.spool.readGuard a

instance (s : ReadSys) (a : ReadAct) : Decidable (s.guard a) := by
  cases a <;> unfold guard <;> infer_instance

variable (tvData : ℤ → ℤ × ℤ)

def update (s : ReadSys) : ReadAct → ReadSys
  | .text a => { s with text := s.text.update tvData a }
  | .read a =>
      let t := s.spool.read PAGE_SIZE a
      { s with tail := t.tail, reader := t.consumer, delivered := t.delivered }

def step : ReadSys → ReadAct → Option ReadSys := guarded guard (update tvData)

def loaded (page : ℤ → Char) : ReadSys := ⟨TextSys.loaded page, 0, .idle, []⟩

/-- The text that a step prints. -/
def printedText (s : ReadSys) : ReadAct → List Char
  | .text a => ((s.text.printed tvData a).map Record.text).getD []
  | .read _ => []

/-- The history: all that has been printed. -/
def putText (s : ReadSys) (a : ReadAct) (total : List Char) : List Char :=
  total ++ s.printedText tvData a

/-- The system with that history. -/
def textStep : ReadSys × List Char → ReadAct → Option (ReadSys × List Char) :=
  recorded (step tvData) (putText tvData)

/-! ## What is promised, and when it holds -/

/-- What is unread. -/
def unread (s : ReadSys) : List Char := s.spool.unread PAGE_SIZE

/-- What a step prints is appended to what is unread. -/
def Unlost (c : ReadSys × List Char) (a : ReadAct) : Prop :=
  ∀ b, a = .text b → (c.1.update tvData a).unread = c.1.unread ++ c.1.printedText tvData a

/-- What a step prints finds room in front of the tail. -/
def Room (c : ReadSys × List Char) (a : ReadAct) : Prop :=
  c.1.printedText tvData a ≠ [] → 16 ≤ free PAGE_SIZE c.1.tail c.1.text.head

/-- What a step prints has no more digits than its fields. -/
def Fitting (c : ReadSys × List Char) (a : ReadAct) : Prop :=
  ∀ b r, a = .text b → c.1.text.printed tvData b = some r → r.Fits

/-! ## A step -/

structure Inv (c : ReadSys × List Char) : Prop where
  spool : Spool.Inv PAGE_SIZE c.2 c.1.spool
  aligned : 16 ∣ c.1.text.head

section Steps

variable {tvData} {s : ReadSys} {total : List Char} {a : TextAct}

theorem spool_of_none (h : s.text.printed tvData a = none) :
    (s.update tvData (.text a)).spool = s.spool := by
  cases a with
  | half a => simp only [update, spool, TextSys.update, h, Option.map_none, Option.getD_none]
  | shortInterrupt tvSec tvUsec => cases h
  | shortShInterrupt value tvSec tvUsec =>
      simp only [update, spool, TextSys.update, h, Option.map_none, Option.getD_none]

/-- A record that fits is put like any text. -/
theorem spool_of_some {r : Record} (h : s.text.printed tvData a = some r) (hfits : r.Fits) :
    (s.update tvData (.text a)).spool = s.spool.print PAGE_SIZE r.text (Char.ofNat 0) := by
  have hlen := (text_length_iff r).mpr hfits
  cases a with
  | half a =>
      simp only [update, spool, TextSys.update, h, Option.map_some, Option.getD_some]
      rfl
  | shortInterrupt tvSec tvUsec =>
      cases h
      simp only [update, spool, TextSys.update, if_neg (not_not.mpr hlen)]
      rfl
  | shortShInterrupt value tvSec tvUsec =>
      simp only [update, spool, TextSys.update, h, Option.map_some, Option.getD_some]
      rfl

theorem head_room (hi : Inv (s, total)) : s.text.head + 16 ≤ PAGE_SIZE := by
  have hw := hi.spool.within
  have hlt : s.text.head < PAGE_SIZE := hw.wpLt
  have hdvd : 16 ∣ s.text.head := hi.aligned
  unfold PAGE_SIZE at hlt ⊢
  omega

theorem unlost_iff {b : ReadAct} (hi : Inv (s, total)) (hfits : Fitting tvData (s, total) b) :
    Unlost tvData (s, total) b ↔ Room tvData (s, total) b := by
  have hend := head_room hi
  cases b with
  | read a =>
      constructor
      · intro _ hne
        exact absurd rfl hne
      · intro _ b hb
        cases hb
  | text a =>
      cases hp : s.text.printed tvData a with
      | none =>
          have hempty : s.printedText tvData (.text a) = [] := by simp [printedText, hp]
          constructor
          · intro _ hne
            exact absurd hempty hne
          · intro _ b _
            show Spool.State.unread PAGE_SIZE (s.update tvData (.text a)).spool = _
            rw [spool_of_none hp]
            exact (hempty ▸ (List.append_nil _).symm)
      | some r =>
          have hr : r.Fits := hfits a r rfl hp
          have hlen := (text_length_iff r).mpr hr
          have htext : s.printedText tvData (.text a) = r.text := by simp [printedText, hp]
          have hne : r.text ≠ [] := by
            intro hnil
            rw [hnil] at hlen
            cases hlen
          have hfield : s.spool.head + r.text.length ≤ PAGE_SIZE := by
            rw [hlen]
            exact hend
          have hkept := Spool.print_kept_iff (Char.ofNat 0) hi.spool.within hfield
          rw [hlen, ← spool_of_some hp hr] at hkept
          constructor
          · intro hunlost _
            have heq := hunlost a rfl
            simp only [htext] at heq
            exact hkept.mp heq
          · intro hroom b _
            simp only [htext]
            exact hkept.mpr (hroom (by rw [htext]; exact hne))

theorem inv_text (hi : Inv (s, total)) (hfits : Fitting tvData (s, total) (.text a))
    (hroom : Room tvData (s, total) (.text a)) :
    Inv (s.update tvData (.text a), s.putText tvData (.text a) total) := by
  have hend := head_room hi
  cases hp : s.text.printed tvData a with
  | none =>
      have htotal : s.putText tvData (.text a) total = total := by simp [putText, printedText, hp]
      have hspool := spool_of_none hp
      constructor
      · rw [htotal, hspool]
        exact hi.spool
      · have hhead : (s.update tvData (.text a)).text.head = s.text.head :=
          congrArg Spool.State.head hspool
        show 16 ∣ (s.update tvData (.text a)).text.head
        rw [hhead]
        exact hi.aligned
  | some r =>
      have hr : r.Fits := hfits a r rfl hp
      have hlen := (text_length_iff r).mpr hr
      have htext : s.printedText tvData (.text a) = r.text := by simp [printedText, hp]
      have hne : s.printedText tvData (.text a) ≠ [] := by
        rw [htext]
        intro hnil
        rw [hnil] at hlen
        cases hlen
      have hspool := spool_of_some hp hr
      constructor
      · rw [hspool, putText, htext]
        refine Spool.inv_print hi.spool ?_ ?_
        · rw [hlen]
          exact hend
        · rw [hlen]
          exact hroom hne
      · have hhead := congrArg Spool.State.head hspool
        have hdvd : 16 ∣ s.text.head := hi.aligned
        show 16 ∣ (s.update tvData (.text a)).spool.head
        rw [hhead]
        refine Spool.dvd_incr hdvd ?_
        rw [hlen]
        exact Int.dvd_refl 16

theorem inv_step {c c' : ReadSys × List Char} {b : ReadAct} (hi : Inv c)
    (hfits : Fitting tvData c b)
    (hroom : Room tvData c b) (hs : textStep tvData c b = some c') : Inv c' := by
  rcases c with ⟨s, total⟩
  rcases c' with ⟨s', total'⟩
  rcases recorded_eq_some.mp hs with ⟨hstep, htotal⟩
  simp only at hstep htotal
  rcases guarded_eq_some.mp hstep with ⟨hg, rfl⟩
  subst htotal
  cases b with
  | text a => exact inv_text hi hfits hroom
  | read a =>
      have hread := Spool.inv_read hi.spool hg
      have hsame : (s.update tvData (.read a)).spool = s.spool.read PAGE_SIZE a := by
        cases a with
        | copy count =>
            simp only [update, spool, Spool.State.read]
            split <;> rfl
        | advance count =>
            simp only [update, spool, Spool.State.read]
            split <;> rfl
        | test count => rfl
        | size count => rfl
        | fault count => rfl
      constructor
      · rw [hsame]
        simpa [putText, printedText] using hread
      · exact hi.aligned

end Steps

theorem inv_loaded (page : ℤ → Char) : Inv (loaded page, []) := by
  constructor
  · constructor
    · constructor <;> simp [loaded, spool, TextSys.loaded, PAGE_SIZE]
    · simp [loaded, spool, TextSys.loaded, Spool.State.unread]
    · trivial
  · exact Int.dvd_zero 16

/-- One reading process and any interleaving with the handlers, their records fitting: no
record is lost exactly as long as each finds room in front of the tail. Then all that was
printed is what the reads have returned, one after the other, and what is unread. -/
theorem reading_iff {tvData : ℤ → ℤ × ℤ} {page : ℤ → Char} {as : List ReadAct}
    {c : ReadSys × List Char} (hr : run (textStep tvData) (loaded page, []) as = some c)
    (hfits : Along (textStep tvData) (Fitting tvData) (loaded page, []) as) :
    (Along (textStep tvData) (Unlost tvData) (loaded page, []) as ↔
      Along (textStep tvData) (Room tvData) (loaded page, []) as) ∧
    (Along (textStep tvData) (Room tvData) (loaded page, []) as →
      c.2 = c.1.delivered ++ c.1.unread) := by
  constructor
  · have hiff : ∀ c b, Inv c → Fitting tvData c b → (Unlost tvData c b ↔ Room tvData c b) := by
      intro c b hi hfit
      exact unlost_iff hi hfit
    refine along_iff hiff ?_ (inv_loaded page) hfits
    intro c b c' hi hfit hroom hs
    exact inv_step hi hfit hroom hs
  · intro hroom
    have hi : Inv c := by
      refine run_invariant_along ?_ (inv_loaded page) (along_and hfits hroom) hr
      rintro t b t' hi ⟨hfit, hroom⟩ hs
      exact inv_step hi hfit hroom hs
    exact hi.spool.kept

/-- An interrupt, and a read that takes the record. -/
def oneRecord : List ReadAct :=
  [.text (.shortInterrupt 1 2), .read (.test 100), .read (.size 100)] ++
    List.replicate 16 (.read (.copy 16)) ++ [.read (.advance 16)]

instance (c : ReadSys × List Char) (a : ReadAct) : Decidable (Room (fun _ => (0, 0)) c a) :=
  inferInstanceAs (Decidable (_ → _))

theorem reading_iff_oneRecord : ∃ c,
    run (textStep fun _ => (0, 0)) (loaded fun _ => 'x', []) oneRecord = some c ∧
      c.2 = c.1.delivered ++ c.1.unread := by
  have hrun :
      (run (textStep fun _ => (0, 0)) (loaded fun _ => 'x', []) oneRecord).isSome = true := by
    decide +kernel
  rcases Option.isSome_iff_exists.mp hrun with ⟨c, hc⟩
  refine ⟨c, hc, (reading_iff hc ?_).2 (by decide +kernel)⟩
  apply along_of_forall
  intro a ha t b r hb hp
  subst hb
  have hb : b = .shortInterrupt 1 2 := by
    simpa [oneRecord] using ha
  subst hb
  cases hp
  constructor <;> decide

end ReadSys

end Short
