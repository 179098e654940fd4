import DriversLab.Scull.PipeFifo
import DriversLab.Lib.Table

/-!
# Scull.PipeOpen — opens and releases of a pipe that is in use

`scull_p_open` sets `buffersize`, `end`, `rp` and `wp` on every call, while the
buffer is allocated by the first open only and freed by the last release.

* `Booked`: the counts are those of the open files, and while there is a reader or a
  writer there is a buffer;
* `in_bounds`: no access leaves the buffer exactly when no open finds a buffer of
  another size than `scull_p_buffer`;
* `undisturbed`: opens and releases leave the bytes in flight alone while no open finds
  bytes in flight, or a buffer that is too small for `scull_p_buffer`.
-/

namespace Scull

open CInt Lts

namespace Pipe

/-! ## The books -/

/-- The part of `nreaders` that a file makes up. -/
def reads : Option PipeFile → ℤ
  | none => 0
  | some file => ScullPipe.one file.mode.read

/-- The part of `nwriters` that a file makes up. -/
def writes : Option PipeFile → ℤ
  | none => 0
  | some file => ScullPipe.one file.mode.write

/-- The call that a thread is in, with its file. -/
def pending : PipeThread → Option (ℕ × PipeCall)
  | .returned _ => none
  | .locking f call | .sleeping f call => some (f, call)

/-- What the mutex protects, as far as opens and releases change it. -/
structure Booked (s : PipeSys) : Prop where
  nreaders : s.dev.nreaders = (s.files.map reads).sum
  nwriters : s.dev.nwriters = (s.files.map writes).sum
  calls : ∀ th ∈ s.threads, ∀ f call, pending th = some (f, call) →
    ∃ file, s.files[f]? = some (some file) ∧ call.allowed file.mode = true
  buffer : 0 < s.dev.nreaders + s.dev.nwriters → s.dev.buffer ≠ none
  files : s.dev.buffer ≠ none → ∃ file, some file ∈ s.files
  bytes : s.dev.buffer ≠ none → s.dev.rp ≠ s.dev.wp → 0 < s.dev.nreaders + s.dev.nwriters

theorem one_nonneg (b : Bool) : 0 ≤ ScullPipe.one b := by
  cases b <;> decide

theorem reads_nonneg (x : Option PipeFile) : 0 ≤ reads x := by
  cases x with
  | none => exact le_refl _
  | some file => exact one_nonneg _

theorem writes_nonneg (x : Option PipeFile) : 0 ≤ writes x := by
  cases x with
  | none => exact le_refl _
  | some file => exact one_nonneg _

/-- A file that a call may be made on counts as a reader or a writer. -/
theorem counts_of_allowed {file : PipeFile} {call : PipeCall}
    (h : call.allowed file.mode = true) : 0 < reads (some file) + writes (some file) := by
  have hread := one_nonneg file.mode.read
  have hwrite := one_nonneg file.mode.write
  cases call with
  | read count =>
      have hmode : file.mode.read = true := h
      simp only [reads, writes, hmode, ScullPipe.one, if_true] at hwrite ⊢
      omega
  | write buf =>
      have hmode : file.mode.write = true := h
      simp only [reads, writes, hmode, ScullPipe.one, if_true] at hread ⊢
      omega

section Books

variable {s s' : PipeSys}

/-- While a call is in progress there is a reader or a writer. -/
theorem counts_of_call (hb : Booked s) {t f : ℕ} {th : PipeThread} {call : PipeCall}
    (ht : s.threads[t]? = some th) (hcall : pending th = some (f, call)) :
    0 < s.dev.nreaders + s.dev.nwriters := by
  rcases hb.calls th (List.mem_of_getElem? ht) f call hcall with ⟨file, hfile, hallowed⟩
  have hmem : some file ∈ s.files := List.mem_of_getElem? hfile
  have hread := Table.le_sum_map reads_nonneg hmem
  have hwrite := Table.le_sum_map writes_nonneg hmem
  have hpos := counts_of_allowed hallowed
  rw [hb.nreaders, hb.nwriters]
  omega

/-- Whoever reads or writes is on a file. -/
theorem file_of_counts {files : List (Option PipeFile)}
    (h : (files.map reads).sum + (files.map writes).sum ≠ 0) : ∃ file, some file ∈ files := by
  by_contra hnone
  push Not at hnone
  have hall : ∀ x ∈ files, x = none := by
    intro x hx
    cases x with
    | none => rfl
    | some file => exact absurd hx (hnone file)
  apply h
  rw [(Table.sum_map_eq_zero_iff fun x _ => reads_nonneg x).mpr,
    (Table.sum_map_eq_zero_iff fun x _ => writes_nonneg x).mpr, add_zero]
  · intro x hx
    rw [hall x hx]
    rfl
  · intro x hx
    rw [hall x hx]
    rfl

/-! ## What a critical section leaves alone -/

theorem critical_files (s : PipeSys) (t f : ℕ) (call : PipeCall) (fault : Option ℕ) :
    (critical s t f call fault).files = s.files := by
  unfold critical
  split
  · cases call <;> rfl
  · rfl

/-- It leaves the thread in the call it was in, or in none. -/
theorem critical_threads (s : PipeSys) (t f : ℕ) (call : PipeCall) (fault : Option ℕ) :
    ∃ th, (critical s t f call fault).threads = s.threads.set t th ∧
      ∀ x, pending th = some x → x = (f, call) := by
  cases hpass : passes s.dev call with
  | false =>
      rw [critical_blocked hpass]
      refine ⟨_, rfl, ?_⟩
      unfold blocked
      split <;> simp [pending, eq_comm]
  | true =>
      cases call with
      | read count =>
          rw [critical_read hpass]
          exact ⟨_, rfl, by simp [pending]⟩
      | write buf =>
          rw [critical_write hpass]
          exact ⟨_, rfl, by simp [pending]⟩

/-- Only an open makes a buffer. -/
theorem buffer_before {a : PipeAct} (ha : ¬ a.IsOpen) (hs : step s a = some s')
    (hbuf : s'.dev.buffer ≠ none) : s.dev.buffer ≠ none := by
  rcases guarded_eq_some.mp hs with ⟨_, rfl⟩
  cases a with
  | openFile file heap => exact absurd trivial ha
  | release f file =>
      -- what is not there cannot be freed
      intro hnone
      apply hbuf
      simp [update, ScullPipe.scullPRelease, hnone]
  | locked t f call fault =>
      rw [← (critical_frame s t f call fault).buffer]
      exact hbuf
  | ioctl cmd arg user => exact hbuf
  | enter t f file call => exact hbuf
  | wake t f call => exact hbuf
  | interrupted t f call => exact hbuf
  | foreign a val => exact hbuf

/-! ## Every step keeps the books -/

/-- A thread that starts no call other than one on an open file. -/
theorem calls_set (hb : Booked s) {t : ℕ} {th' : PipeThread}
    (h : ∀ f call, pending th' = some (f, call) →
      ∃ file, s.files[f]? = some (some file) ∧ call.allowed file.mode = true) :
    ∀ th ∈ s.threads.set t th', ∀ f call, pending th = some (f, call) →
      ∃ file, s.files[f]? = some (some file) ∧ call.allowed file.mode = true := by
  intro th hth
  rcases List.mem_or_eq_of_mem_set hth with hmem | rfl
  · exact hb.calls th hmem
  · exact h

theorem booked_open (hb : Booked s) (file : PipeFile) (heap : Option (ℤ → UInt8)) :
    Booked (update s (.openFile file heap)) := by
  rcases open_cases s file heap with ⟨h, _⟩ | ⟨n, mem, _, h⟩
  · rw [h]
    exact hb
  · rw [h]
    refine ⟨?_, ?_, ?_, ?_, ?_, ?_⟩
    · simp [hb.nreaders, reads]
    · simp [hb.nwriters, writes]
    · intro th hth f call hcall
      rcases hb.calls th hth f call hcall with ⟨x, hx, hallowed⟩
      have hlt : f < s.files.length := (List.getElem?_eq_some_iff.mp hx).1
      exact ⟨x, by rw [List.getElem?_append_left hlt, hx], hallowed⟩
    · intro _ hnone
      cases hnone
    · intro _
      exact ⟨file, by simp⟩
    · -- both pointers are at the beginning
      intro _ hne
      exact absurd rfl hne

theorem booked_release (hb : Booked s) {f : ℕ} {file : PipeFile}
    (hg : guard s (.release f file)) : Booked (update s (.release f file)) := by
  rcases hg with ⟨hfile, hidle⟩
  have hr : ((s.files.set f none).map reads).sum =
      (s.files.map reads).sum + -ScullPipe.one file.mode.read :=
    Table.sum_map_set reads hfile (by simp [reads])
  have hw : ((s.files.set f none).map writes).sum =
      (s.files.map writes).sum + -ScullPipe.one file.mode.write :=
    Table.sum_map_set writes hfile (by simp [writes])
  have hrpos := Table.sum_map_nonneg (s.files.set f none) reads_nonneg
  have hwpos := Table.sum_map_nonneg (s.files.set f none) writes_nonneg
  have hread := one_nonneg file.mode.read
  have hwrite := one_nonneg file.mode.write
  refine ⟨?_, ?_, ?_, ?_, ?_, ?_⟩
  · simp only [update, ScullPipe.scullPRelease, hb.nreaders]
    omega
  · simp only [update, ScullPipe.scullPRelease, hb.nwriters]
    omega
  · intro th hth g call hcall
    rcases hb.calls th hth g call hcall with ⟨x, hx, hallowed⟩
    -- the released file is not the one the call is on
    have hne : f ≠ g := by
      rintro rfl
      apply hidle th hth
      cases th <;> simp_all [pending, PipeThread.file]
    exact ⟨x, by simp [update, List.getElem?_set_ne hne, hx], hallowed⟩
  · simp only [update, ScullPipe.scullPRelease]
    intro hpos
    rw [if_neg (by omega)]
    exact hb.buffer (by omega)
  · simp only [update, ScullPipe.scullPRelease, hb.nreaders, hb.nwriters]
    split
    · intro h
      exact absurd rfl h
    · intro _
      exact file_of_counts (by omega)
  · simp only [update, ScullPipe.scullPRelease, hb.nreaders, hb.nwriters]
    split
    · intro h
      exact absurd rfl h
    · intro _ _
      omega

theorem booked_critical (hb : Booked s) {t f : ℕ} {call : PipeCall} (fault : Option ℕ)
    (ht : s.threads[t]? = some (.locking f call)) : Booked (critical s t f call fault) := by
  have hframe := critical_frame s t f call fault
  have hfiles := critical_files s t f call fault
  have hpos := counts_of_call hb ht rfl
  rcases critical_threads s t f call fault with ⟨th, hthreads, hth⟩
  refine ⟨?_, ?_, ?_, ?_, ?_, ?_⟩
  · rw [hframe.nreaders, hfiles, hb.nreaders]
  · rw [hframe.nwriters, hfiles, hb.nwriters]
  · rw [hthreads, hfiles]
    refine calls_set hb ?_
    intro g c hcall
    cases hth _ hcall
    exact hb.calls _ (List.mem_of_getElem? ht) f call rfl
  · rw [hframe.nreaders, hframe.nwriters, hframe.buffer]
    exact hb.buffer
  · rw [hframe.buffer, hfiles]
    exact hb.files
  · rw [hframe.nreaders, hframe.nwriters]
    intro _ _
    exact hpos

/-- The books of a step that only changes what a thread does. -/
theorem booked_thread (hb : Booked s) {t : ℕ} {th : PipeThread}
    (h : ∀ f call, pending th = some (f, call) →
      ∃ file, s.files[f]? = some (some file) ∧ call.allowed file.mode = true) :
    Booked { s with threads := s.threads.set t th } :=
  ⟨hb.nreaders, hb.nwriters, calls_set hb h, hb.buffer, hb.files, hb.bytes⟩

theorem booked_step {a : PipeAct} (hb : Booked s) (hs : step s a = some s') : Booked s' := by
  rcases guarded_eq_some.mp hs with ⟨hg, rfl⟩
  cases a with
  | openFile file heap => exact booked_open hb file heap
  | release f file => exact booked_release hb hg
  | ioctl cmd arg user =>
      rcases hb with ⟨hr, hw, hcalls, hbuf, hfiles, hbytes⟩
      exact ⟨hr, hw, hcalls, hbuf, hfiles, hbytes⟩
  | enter t f file call =>
      apply booked_thread hb
      intro g c hcall
      cases hcall
      exact ⟨file, hg.2⟩
  | locked t f call fault => exact booked_critical hb fault hg
  | wake t f call =>
      apply booked_thread hb
      intro g c hcall
      cases hcall
      exact hb.calls _ (List.mem_of_getElem? hg) f call rfl
  | interrupted t f call =>
      apply booked_thread hb
      intro g c hcall
      cases hcall
  | foreign a val =>
      rcases hb with ⟨hr, hw, hcalls, hbuf, hfiles, hbytes⟩
      exact ⟨hr, hw, hcalls, hbuf, hfiles, hbytes⟩

theorem booked_init (scullPBuffer : ℤ) (n : ℕ) : Booked (init scullPBuffer n) := by
  refine ⟨rfl, rfl, ?_, ?_, ?_, ?_⟩
  · intro th hth f call hcall
    rw [List.eq_of_mem_replicate hth] at hcall
    cases hcall
  · intro h
    exact absurd h (lt_irrefl _)
  · intro h
    exact absurd rfl h
  · intro h
    exact absurd rfl h

end Books

/-! ## The ring under any size -/

/-- What a negative `scull_p_buffer` makes of a buffer that is there: `end` lies before
it, and both pointers only go up. -/
structure Linear (dev : ScullPipe) : Prop where
  ends : dev.bufEnd < 0
  rpNonneg : 0 ≤ dev.rp
  le : dev.rp ≤ dev.wp

/-- The pointers form a ring or a line. -/
def Queue (dev : ScullPipe) : Prop := Ringed dev ∨ Linear dev

section Line

variable {dev : ScullPipe}

theorem linear_read (h : Linear dev) (hne : dev.rp ≠ dev.wp) (count : ℕ) (fault : Bool) :
    Linear (dev.scullPRead count fault).2.2 := by
  rcases h with ⟨hends, hrp, hle⟩
  have hcount : dev.readCount count ≤ dev.wp - dev.rp := by
    unfold ScullPipe.readCount toULong
    rw [if_pos (by omega)]
    omega
  unfold ScullPipe.scullPRead
  cases fault with
  | true => exact ⟨hends, hrp, hle⟩
  | false =>
      have hwrap : dev.rp + dev.readCount count ≠ dev.bufEnd := by omega
      simp only [Bool.false_eq_true, if_false, if_neg hwrap]
      refine ⟨hends, ?_, ?_⟩
      · show 0 ≤ dev.rp + dev.readCount count
        omega
      · show dev.rp + dev.readCount count ≤ dev.wp
        omega

theorem linear_write (h : Linear dev) (buf : List UInt8) (fault : Option ℕ) :
    Linear (dev.scullPWrite buf fault).2.2 := by
  rcases h with ⟨hends, hrp, hle⟩
  unfold ScullPipe.scullPWrite
  generalize buf.take (dev.writeCount buf.length) = data
  cases fault with
  | some k => exact ⟨hends, hrp, hle⟩
  | none =>
      have hwrap : dev.wp + data.length ≠ dev.bufEnd := by omega
      simp only [Option.isSome_none, Bool.false_eq_true, if_false, if_neg hwrap]
      refine ⟨hends, hrp, ?_⟩
      show dev.rp ≤ dev.wp + data.length
      omega

/-- Only equal pointers hold nothing. -/
theorem content_ne_nil (h : Queue dev) (hne : dev.rp ≠ dev.wp) : content dev ≠ [] := by
  intro hnil
  have hlen : (content dev).length = 0 := by rw [hnil]; rfl
  rcases h with hring | ⟨_, _, hle⟩
  · exact hne ((Ring.content_length_eq_zero_iff (ring_of_ne hring hne)).mp hlen)
  · simp only [content, Ring.content, if_pos hle, Ring.segment_length] at hlen
    omega

theorem content_nil (h : dev.rp = dev.wp) : content dev = [] := by
  rw [content, h, Ring.content_empty]

end Line

/-! ## Every run -/

/-- What every run keeps, whatever the sizes are. -/
structure Sound (s : PipeSys) : Prop where
  booked : Booked s
  int : IntParam s
  queue : s.dev.buffer ≠ none → Queue s.dev

section Runs

variable {s s' : PipeSys}

theorem critical_queue (h : Queue s.dev) (t f : ℕ) (call : PipeCall) (fault : Option ℕ) :
    Queue (critical s t f call fault).dev := by
  rcases h with hring | hline
  · exact Or.inl (critical_ringed hring t f call fault).1
  · right
    cases hpass : passes s.dev call with
    | false =>
        rw [critical_blocked hpass]
        exact hline
    | true =>
        cases call with
        | read count =>
            have hne : s.dev.rp ≠ s.dev.wp := by simpa [passes] using hpass
            rw [critical_read hpass]
            exact linear_read hline hne count fault.isSome
        | write buf =>
            rw [critical_write hpass]
            exact linear_write hline buf fault

/-- An open sets up an empty ring if `scull_p_buffer` is not negative. -/
theorem ringed_open {n : Option ℕ} {size nreaders nwriters : ℤ} {mem : ℤ → UInt8}
    (h : 0 ≤ size) (hint : size < 2 ^ 31) :
    Ringed ⟨n, size, size, 0, 0, nreaders, nwriters, mem⟩ := by
  refine ⟨rfl, h, hint, ?_⟩
  rcases h.eq_or_lt with hzero | hpos
  · exact Or.inr ⟨hzero.symm, rfl, rfl⟩
  · exact Or.inl ⟨le_refl _, hpos, le_refl _, hpos⟩

theorem queue_step {a : PipeAct} (hi : IntParam s) (hq : s.dev.buffer ≠ none → Queue s.dev)
    (hs : step s a = some s') : s'.dev.buffer ≠ none → Queue s'.dev := by
  have hbefore := fun ha => buffer_before ha hs
  rcases guarded_eq_some.mp hs with ⟨_, rfl⟩
  cases a with
  | openFile file heap =>
      rcases open_cases s file heap with ⟨h, _⟩ | ⟨n, mem, _, h⟩
      · rw [h]
        exact hq
      · -- the sign of scull_p_buffer decides between a line and a ring
        intro _
        rw [h]
        rcases lt_or_ge s.params.scullPBuffer 0 with hneg | hnonneg
        · exact Or.inr ⟨hneg, le_refl _, le_refl _⟩
        · exact Or.inl (ringed_open hnonneg hi.2)
  | release f file =>
      intro hbuf
      rcases hq (hbefore id hbuf) with hring | ⟨hends, hrp, hle⟩
      · exact Or.inl (ringed_release hring file.mode)
      · exact Or.inr ⟨hends, hrp, hle⟩
  | locked t f call fault =>
      intro hbuf
      exact critical_queue (hq (hbefore id hbuf)) t f call fault
  | ioctl cmd arg user => exact hq
  | enter t f file call => exact hq
  | wake t f call => exact hq
  | interrupted t f call => exact hq
  | foreign a val =>
      intro hbuf
      rcases hq hbuf with hring | ⟨hends, hrp, hle⟩
      · exact Or.inl (ringed_foreign hring _)
      · exact Or.inr ⟨hends, hrp, hle⟩

theorem sound_step {a : PipeAct} (h : Sound s) (hs : step s a = some s') : Sound s' :=
  ⟨booked_step h.booked hs, intParam_step h.int hs, queue_step h.int h.queue hs⟩

theorem sound_init (scullPBuffer : ℤ) (n : ℕ) : Sound (init scullPBuffer n) := by
  refine ⟨booked_init scullPBuffer n, toInt_range scullPBuffer, ?_⟩
  intro h
  exact absurd rfl h

end Runs

/-! ## The size of the buffer -/

/-- The cells that a critical section accesses lie in the buffer. -/
def Accesses (s : PipeSys) : PipeAct → Prop
  | .locked _ _ call _ => passes s.dev call = true →
      ∃ n, s.dev.buffer = some n ∧
        0 ≤ (span s.dev call).1 ∧ (span s.dev call).1 + (span s.dev call).2 ≤ n
  | _ => True

/-- `buffersize` is the number of bytes that were allocated and `end` is where they
end. -/
def Sized (dev : ScullPipe) : Prop :=
  ∀ n, dev.buffer = some n → dev.buffersize = n ∧ dev.bufEnd = n

/-- A step that accesses nothing outside the buffer and leaves its size right. -/
def InBounds (s : PipeSys) (a : PipeAct) : Prop :=
  ∀ s', step s a = some s' → Accesses s a ∧ Sized s'.dev

/-- An open that finds a buffer finds it as large as `scull_p_buffer` says. -/
def SameSize (s : PipeSys) : PipeAct → Prop
  | .openFile _ _ => ∀ n, s.dev.buffer = some n → s.params.scullPBuffer = n
  | _ => True

section Size

variable {s s' : PipeSys} {a : PipeAct}

/-- Only an open on a buffer that is there can make the sizes differ. -/
theorem sized_step (h : Sized s.dev) (hsame : SameSize s a) (hs : step s a = some s') :
    Sized s'.dev := by
  rcases guarded_eq_some.mp hs with ⟨_, rfl⟩
  cases a with
  | openFile file heap =>
      rcases open_cases s file heap with ⟨hu, _⟩ | ⟨n, mem, hn, hu⟩
      · rw [hu]
        exact h
      · rw [hu]
        intro m hm
        cases hm
        have hsize : s.params.scullPBuffer = n := by
          rcases hn with ⟨hbuf, _⟩ | ⟨_, hnew⟩
          · exact hsame n hbuf
          · exact hnew.symm
        exact ⟨hsize, hsize⟩
  | release f file =>
      intro m hm
      simp only [update, ScullPipe.scullPRelease] at hm ⊢
      split at hm
      · cases hm
      · exact h m hm
  | locked t f call fault =>
      have hframe := critical_frame s t f call fault
      intro m hm
      simp only [update] at hm ⊢
      rw [hframe.buffer] at hm
      rw [hframe.buffersize, hframe.bufEnd]
      exact h m hm
  | ioctl cmd arg user => exact h
  | enter t f file call => exact h
  | wake t f call => exact h
  | interrupted t f call => exact h
  | foreign a val => exact h

/-- While the sizes are right a critical section stays in the buffer. -/
theorem accesses_of_sized (hi : Sound s) (hsized : Sized s.dev) (hg : guard s a) :
    Accesses s a := by
  cases a with
  | locked t f call fault =>
      intro hpass
      have hbuf := hi.booked.buffer (counts_of_call hi.booked hg rfl)
      rcases Option.ne_none_iff_exists'.mp hbuf with ⟨n, hn⟩
      rcases hsized n hn with ⟨hsize, hends⟩
      rcases hi.queue hbuf with hring | hline
      · have hspan := span_within hring hpass
        rw [hsize] at hspan
        exact ⟨n, hn, hspan⟩
      · -- a line has no size
        have := hline.ends
        omega
  | _ => trivial

/-- An open shows what the size was. -/
theorem sameSize_of_inBounds (h : InBounds s a) : SameSize s a := by
  cases a with
  | openFile file heap =>
      intro n hn
      have hsized := (h _ (guarded_eq_some.mpr ⟨trivial, rfl⟩)).2
      rcases open_cases s file heap with ⟨_, hnone⟩ | ⟨m, mem, ⟨hbuf, _⟩ | ⟨hnone, _⟩, hu⟩
      · rw [hn] at hnone
        cases hnone
      · cases hn.symm.trans hbuf
        rw [hu] at hsized
        exact (hsized n rfl).1
      · rw [hn] at hnone
        cases hnone
  | _ => trivial

end Size

/-- In a run from `scull_p_init`, every access of `scull_p_read` and `scull_p_write`
lies in the buffer, and `buffersize` and `end` tell its size, exactly when every open
that finds a buffer finds `scull_p_buffer` as it was when that was allocated. -/
theorem in_bounds (scullPBuffer : ℤ) (n : ℕ) (as : List PipeAct) :
    Along step InBounds (init scullPBuffer n) as ↔
      Along step SameSize (init scullPBuffer n) as := by
  have hiff : ∀ s a, Sound s ∧ Sized s.dev → True → (InBounds s a ↔ SameSize s a) := by
    rintro s a ⟨hi, hsized⟩ _
    refine ⟨sameSize_of_inBounds, ?_⟩
    intro hsame s' hs
    exact ⟨accesses_of_sized hi hsized (guarded_eq_some.mp hs).1, sized_step hsized hsame hs⟩
  refine along_iff hiff ?_ ⟨sound_init scullPBuffer n, ?_⟩ (along_of_forall fun _ _ _ => trivial)
  · rintro s a s' ⟨hi, hsized⟩ _ hsame hs
    exact ⟨sound_step hi hs, sized_step hsized hsame hs⟩
  · intro m hm
    cases hm

/-- The open of a pipe of four bytes, a larger `scull_p_buffer`, a second open and a
write of six bytes. -/
def grow : List PipeAct :=
  [openFour, .ioctl .pTsize 8 ⟨true, false, none, false⟩, openFour,
    .enter 0 0 both (.write [1, 2, 3, 4, 5, 6])]

/-- The write is about to go two bytes past the four that were allocated. -/
theorem in_bounds_grown : ∃ s, run step (init 4 1) grow = some s ∧
    s.dev.buffer = some 4 ∧ s.dev.buffersize = 8 ∧
    (step s (.locked 0 0 (.write [1, 2, 3, 4, 5, 6]) none)).isSome = true ∧
    span s.dev (.write [1, 2, 3, 4, 5, 6]) = (0, 6) ∧
    ¬ InBounds s (.locked 0 0 (.write [1, 2, 3, 4, 5, 6]) none) := by
  refine ⟨_, rfl, rfl, rfl, rfl, rfl, ?_⟩
  intro h
  rcases (h _ rfl).1 rfl with ⟨n, hn, _, hle⟩
  cases hn
  revert hle
  decide

/-! ## The bytes in flight -/

/-- The bytes that writes have put into the buffer and that no read has taken. -/
def inFlight (dev : ScullPipe) : List UInt8 :=
  match dev.buffer with
  | none => []
  | some _ => content dev

theorem inFlight_of_buffer {dev : ScullPipe} (h : dev.buffer ≠ none) :
    inFlight dev = content dev := by
  unfold inFlight
  split
  · exact absurd ‹_› h
  · rfl

/-- An open or a release. -/
def IsOpenOrRelease : PipeAct → Prop
  | .openFile _ _ | .release _ _ => True
  | _ => False

/-- What a step does to the bytes in flight: an open or a release of a pipe that is
open and keeps a reader or a writer leaves them alone, and as long as the buffer is
there they are what has been accepted and not returned. -/
structure Undisturbed (s : PipeSys) (a : PipeAct) (s' : PipeSys) : Prop where
  frame : IsOpenOrRelease a → (∃ file, some file ∈ s.files) →
    0 < s'.dev.nreaders + s'.dev.nwriters → inFlight s'.dev = inFlight s.dev
  order : s'.dev.buffer ≠ none → s'.accepted = s'.returned ++ inFlight s'.dev

/-- An open that finds a buffer finds no bytes in it. -/
def FindsEmpty (s : PipeSys) : PipeAct → Prop
  | .openFile _ _ => s.dev.buffer ≠ none → s.dev.rp = s.dev.wp
  | _ => True

/-- It finds as many bytes in the buffer as `scull_p_buffer` asks for, or more. -/
def FindsRoom (s : PipeSys) : PipeAct → Prop
  | .openFile _ _ => ∀ n ∈ s.dev.buffer,
      0 ≤ s.params.scullPBuffer ∧ s.params.scullPBuffer ≤ (n : ℤ)
  | _ => True

instance (s : PipeSys) : ∀ a : PipeAct, Decidable (FindsEmpty s a)
  | .openFile _ _ => inferInstanceAs (Decidable (_ → _))
  | .release _ _ | .ioctl _ _ _ | .enter _ _ _ _ | .locked _ _ _ _ | .wake _ _ _
  | .interrupted _ _ _ | .foreign _ _ => inferInstanceAs (Decidable True)

instance (s : PipeSys) : ∀ a : PipeAct, Decidable (FindsRoom s a)
  | .openFile _ _ => inferInstanceAs (Decidable (∀ n ∈ s.dev.buffer, _ ∧ _))
  | .release _ _ | .ioctl _ _ _ | .enter _ _ _ _ | .locked _ _ _ _ | .wake _ _ _
  | .interrupted _ _ _ | .foreign _ _ => inferInstanceAs (Decidable True)

/-- What has been accepted has been returned or is in flight. -/
def Ordered (s : PipeSys) : Prop :=
  s.dev.buffer ≠ none → s.accepted = s.returned ++ content s.dev

/-- The bytes in flight are in the buffer, and nobody else's. -/
structure Intact (s : PipeSys) : Prop where
  ringed : s.dev.buffer ≠ none → Ringed s.dev
  roomy : Roomy s.dev
  ordered : Ordered s

section Bytes

variable {s s' : PipeSys} {a : PipeAct}

theorem intact_open (hi : Sound s) (h : Intact s) {file : PipeFile} {heap : Option (ℤ → UInt8)}
    (hempty : FindsEmpty s (.openFile file heap)) (hroom : FindsRoom s (.openFile file heap)) :
    Intact (update s (.openFile file heap)) := by
  rcases open_cases s file heap with ⟨hu, _⟩ | ⟨n, mem, hn, hu⟩
  · rw [hu]
    exact h
  · have hsize : 0 ≤ s.params.scullPBuffer ∧ s.params.scullPBuffer ≤ (n : ℤ) := by
      rcases hn with ⟨hbuf, -⟩ | ⟨-, hnew⟩
      · exact hroom n hbuf
      · omega
    rw [hu]
    refine ⟨fun _ => ringed_open hsize.1 hi.int.2, ?_, ?_⟩
    · intro k hk
      cases hk
      exact hsize.2
    · intro _
      simp only [content, Ring.content_empty, List.append_nil]
      split
      · -- a new buffer starts a new account
        rfl
      · rename_i hbuf
        rw [h.ordered hbuf, content_nil (hempty hbuf), List.append_nil]

theorem intact_critical (h : Intact s) {t f : ℕ} {call : PipeCall} {fault : Option ℕ}
    (hbuf : s.dev.buffer ≠ none) : Intact (critical s t f call fault) := by
  have hring := h.ringed hbuf
  rcases critical_ringed hring t f call fault with ⟨hring', written, hacc, read, hret, hmove⟩
  refine ⟨fun _ => hring', roomy_critical h.roomy t f call fault, ?_⟩
  intro _
  rw [hacc, hret, h.ordered hbuf, List.append_assoc, hmove, List.append_assoc]

theorem intact_step (hi : Sound s) (h : Intact s) (hempty : FindsEmpty s a)
    (hroom : FindsRoom s a) (hs : step s a = some s') : Intact s' := by
  have hbefore := fun ha => buffer_before ha hs
  rcases guarded_eq_some.mp hs with ⟨hg, rfl⟩
  cases a with
  | openFile file heap => exact intact_open hi h hempty hroom
  | release f file =>
      -- the last release frees the buffer, and there is nothing to show
      refine ⟨?_, roomy_release h.roomy file.mode, fun hbuf => h.ordered (hbefore id hbuf)⟩
      intro hbuf
      exact ringed_release (h.ringed (hbefore id hbuf)) file.mode
  | locked t f call fault =>
      exact intact_critical h (hi.booked.buffer (counts_of_call hi.booked hg rfl))
  | ioctl cmd arg user => exact ⟨h.ringed, h.roomy, h.ordered⟩
  | enter t f file call => exact ⟨h.ringed, h.roomy, h.ordered⟩
  | wake t f call => exact ⟨h.ringed, h.roomy, h.ordered⟩
  | interrupted t f call => exact ⟨h.ringed, h.roomy, h.ordered⟩
  | foreign a val =>
      refine ⟨fun hbuf => ringed_foreign (h.ringed hbuf) _, h.roomy, ?_⟩
      intro hbuf
      exact (h.ordered hbuf).trans
        (congrArg (s.returned ++ ·) (content_foreign (h.ringed hbuf) h.roomy hg val).symm)

/-- A release that leaves a reader or a writer, and an open that finds nothing in
flight, leave the bytes alone. -/
theorem frame_of_findsEmpty (hi : Sound s) (hempty : FindsEmpty s a) (hs : step s a = some s')
    (ha : IsOpenOrRelease a) (hpos : 0 < s'.dev.nreaders + s'.dev.nwriters) :
    inFlight s'.dev = inFlight s.dev := by
  have hbuf' := (booked_step hi.booked hs).buffer hpos
  have hbefore := fun ha => buffer_before ha hs hbuf'
  rcases guarded_eq_some.mp hs with ⟨_, rfl⟩
  rw [inFlight_of_buffer hbuf']
  cases a with
  | openFile file heap =>
      rcases open_cases s file heap with ⟨h, hnone⟩ | ⟨n, mem, _, h⟩
      · rw [h, hnone] at hbuf'
        exact absurd rfl hbuf'
      · rw [h, content_nil rfl]
        unfold inFlight
        split
        · rfl
        · rename_i hbuf
          rw [content_nil (hempty (by simp [hbuf]))]
  | release f file =>
      rw [inFlight_of_buffer (hbefore id)]
      rfl
  | _ => exact absurd ha id

/-- An open of a pipe with bytes in flight throws them away. -/
theorem findsEmpty_of_undisturbed (hi : Sound s)
    (h : ∀ s', step s a = some s' → Undisturbed s a s') : FindsEmpty s a := by
  cases a with
  | openFile file heap =>
      intro hbuf
      by_contra hne
      have hframe := (h _ (guarded_eq_some.mpr ⟨trivial, rfl⟩)).frame trivial (hi.booked.files hbuf)
      have hpos := hi.booked.bytes hbuf hne
      have hread := one_nonneg file.mode.read
      have hwrite := one_nonneg file.mode.write
      rcases open_cases s file heap with ⟨_, hnone⟩ | ⟨n, mem, _, hu⟩
      · exact hbuf hnone
      · rw [hu, inFlight_of_buffer hbuf] at hframe
        -- nothing is in flight any more, and something was
        have hlost := hframe (by simp only; omega)
        apply content_ne_nil (hi.queue hbuf) hne
        rw [← hlost]
        exact content_nil rfl
  | _ => trivial

end Bytes

theorem intact_init (scullPBuffer : ℤ) (n : ℕ) : Intact (init scullPBuffer n) := by
  refine ⟨fun h => absurd rfl h, ?_, fun h => absurd rfl h⟩
  intro k hk
  cases hk

/-- In a run from `scull_p_init` whose opens, when they find a buffer, find it empty and
no smaller than `scull_p_buffer`, opens and releases leave the bytes in flight alone, and
readers get what was accepted, once and in order. No run does with an open that finds
bytes in the buffer. -/
theorem undisturbed (scullPBuffer : ℤ) (n : ℕ) (as : List PipeAct) :
    (Along step (fun s a => FindsEmpty s a ∧ FindsRoom s a) (init scullPBuffer n) as →
      Along step (fun s a => ∀ s', step s a = some s' → Undisturbed s a s')
        (init scullPBuffer n) as) ∧
    (Along step (fun s a => ∀ s', step s a = some s' → Undisturbed s a s')
        (init scullPBuffer n) as →
      Along step FindsEmpty (init scullPBuffer n) as) := by
  constructor
  · refine along_of_invariant (fun s => Sound s ∧ Intact s) ?_ ?_
      ⟨sound_init scullPBuffer n, intact_init scullPBuffer n⟩
    · rintro s a ⟨hi, h⟩ ⟨hempty, hroom⟩ s' hs
      refine ⟨fun ha _ hpos => frame_of_findsEmpty hi hempty hs ha hpos, ?_⟩
      intro hbuf
      rw [inFlight_of_buffer hbuf]
      exact (intact_step hi h hempty hroom hs).ordered hbuf
    · rintro s a s' ⟨hi, h⟩ ⟨hempty, hroom⟩ hs
      exact ⟨sound_step hi hs, intact_step hi h hempty hroom hs⟩
  · exact along_of_invariant Sound (fun _ _ hi h => findsEmpty_of_undisturbed hi h)
      (fun _ _ _ hi _ hs => sound_step hi hs) (sound_init scullPBuffer n)

/-- A pipe of four bytes with one in it is emptied, shrunk and opened again. -/
def reopen : List PipeAct :=
  openFour :: putTwoTakeOne ++ [.enter 0 0 both (.read 5), .locked 0 0 (.read 5) none, shrink,
    openFour, .foreign 4 7] ++ putTwo

theorem undisturbed_reopened :
    (run step (init 4 1) reopen).isSome = true ∧
      Along step (fun s a => ∀ s', step s a = some s' → Undisturbed s a s') (init 4 1) reopen :=
  ⟨by decide, (undisturbed 4 1 reopen).1 (by decide)⟩

/-- Two bytes are in flight when the pipe is opened a second time: they are gone. -/
theorem undisturbed_dropped : ∃ s s', run step (init 4 1) (openFour :: putTwo) = some s ∧
    step s openFour = some s' ∧ inFlight s.dev = [1, 2] ∧ inFlight s'.dev = [] ∧
    s'.accepted = [1, 2] ∧ s'.returned = [] ∧ s'.dev.nreaders + s'.dev.nwriters = 4 :=
  ⟨_, _, rfl, rfl, by decide, by decide, rfl, rfl, rfl⟩

/-- In a buffer that is too small the last two of six bytes are somebody else's. -/
example : (run step (init 4 1)
    (grow ++ [.locked 0 0 (.write [1, 2, 3, 4, 5, 6]) none, .foreign 5 0])).map
      (fun s => (s.accepted, inFlight s.dev)) = some ([1, 2, 3, 4, 5, 6], [1, 2, 3, 4, 5, 0]) := by
  decide

end Pipe

end Scull
