import DriversLab.Usb.Skeleton

/-!
# Usb.Reading — two reads of one device

A transfer brings its bytes into `bulk_in_buffer`, from where the call copies them to
the user. All files of a device share the buffer, and nothing keeps a second transfer
from ending in between.

* `Waiting`: what is about to be copied is in the buffer;
* `reads_own_bytes`: so it is, as long as the transfers into a buffer keep apart.
-/

namespace Usb

open Lts

/-! ## What a read returns -/

/-- The process is between the end of its transfer into the buffer of `d` and its copy. -/
def Point.copies (d : ℕ) : Point → Bool
  | .copying _ e _ => e == d
  | _ => false

/-- A transfer ends only while no other one is still to be copied from the same buffer. -/
def Exclusive (s : SkelSys) : Action → Prop
  | .readFill _ _ d _ _ => ∀ x ∈ s.procs, x.copies d = false
  | _ => True

/-- What is copied to the user are the bytes that the call's own transfer has brought. -/
def OwnBytes (s : SkelSys) : Action → Prop
  | .readCopy _ _ d data => (buffer s.skels d).take data.length = data
  | _ => True

/-- Whatever is about to be copied is in the buffer. -/
def Waiting (s : SkelSys) : Prop :=
  ∀ (p f d : ℕ) (data : List UInt8), s.procs[p]? = some (Point.copying f d data) →
    (buffer s.skels d).take data.length = data

section Reads

variable {s : SkelSys}

theorem buffer_modify {skels : List (Kref.Obj UsbSkel)} {g : Kref.Obj UsbSkel → Kref.Obj UsbSkel}
    {d e : ℕ} (hg : d = e → ∀ o, (g o).val = o.val) :
    buffer (skels.modify d g) e = buffer skels e := by
  unfold buffer
  rw [List.getElem?_modify]
  cases skels[e]? with
  | none => rfl
  | some o =>
      by_cases hde : d = e
      · simp [hde, hg hde]
      · simp [hde]

theorem buffer_fill (hi : Inv s) {d : ℕ} (hd : 0 < hold s d) (data : List UInt8) :
    (buffer (Kref.write s.skels d (UsbSkel.fill data)) d).take data.length = data := by
  rcases hi.counted.live hd with ⟨o, ho, -, -⟩
  rcases Option.isSome_iff_exists.mp (hi.buffers o (List.mem_of_getElem? ho)) with ⟨b, hb⟩
  unfold buffer Kref.write
  rw [List.getElem?_modify, ho]
  simp [UsbSkel.fill, hb]

/-- A process goes on to a point from which nothing is copied, the buffers stay. -/
theorem waiting_goto (hw : Waiting s) {s' : SkelSys} {p : ℕ} {y : Point}
    (hprocs : s'.procs = s.procs.set p y) (hy : ∀ f d data, y ≠ Point.copying f d data)
    (hbuf : ∀ d, buffer s'.skels d = buffer s.skels d) : Waiting s' := by
  intro q f d data hq
  rw [hbuf]
  rw [hprocs, List.getElem?_set] at hq
  split at hq
  · split at hq
    · exact absurd (Option.some.inj hq) (hy f d data)
    · cases hq
  · exact hw q f d data hq

/-- No process moves. A structure that is waited for is there already. -/
theorem waiting_stay (hi : Inv s) (hw : Waiting s) {s' : SkelSys} (hprocs : s'.procs = s.procs)
    (hbuf : ∀ d < s.skels.length, buffer s'.skels d = buffer s.skels d) : Waiting s' := by
  intro q f d data hq
  rw [hprocs] at hq
  have hfile : s.files[f]? = some (some d) := hi.points q _ hq
  rcases hi.counted.live (hold_pos_of_file hfile) with ⟨o, ho, -, -⟩
  rw [hbuf d (List.getElem?_eq_some_iff.mp ho).1]
  exact hw q f d data hq

theorem waiting_fill (hi : Inv s) (hw : Waiting s) {p f d count : ℕ} {data : List UInt8}
    (hx : s.procs[p]? = some (.waiting f d count)) (hnone : ∀ x ∈ s.procs, x.copies d = false) :
    Waiting (update true s (.readFill p f d count data)) := by
  have hfile : s.files[f]? = some (some d) := hi.points p _ hx
  intro q g e own hq
  rcases eq_or_ne d e with rfl | hne
  · -- the transfer that has just ended is the only one
    have hself : own = data := by
      change (s.procs.set p (.copying f d data))[q]? = _ at hq
      rw [List.getElem?_set] at hq
      split at hq
      · split at hq
        · cases hq
          rfl
        · cases hq
      · have hno := hnone _ (List.mem_of_getElem? hq)
        simp [Point.copies] at hno
    rw [hself]
    exact buffer_fill hi (hold_pos_of_file hfile) data
  · show (buffer (Kref.write s.skels d (UsbSkel.fill data)) e).take own.length = own
    rw [Kref.write, buffer_modify fun heq => absurd heq hne]
    change (s.procs.set p (.copying f d data))[q]? = _ at hq
    rw [List.getElem?_set] at hq
    split at hq
    · split at hq
      · cases hq
        exact absurd rfl hne
      · cases hq
    · exact hw q g e own hq

end Reads

theorem waiting_step {s s' : SkelSys} {a : Action} (hi : Inv s) (hw : Waiting s)
    (hex : Exclusive s a) (hs : step true s a = some s') : Waiting s' := by
  rcases guarded_eq_some.mp hs with ⟨hg, rfl⟩
  cases a with
  | skelProbe i o endpoints =>
      rcases probeStep_cases s i o endpoints with heq | ⟨dev, -, heq⟩
      · show Waiting (probeStep s i o endpoints)
        rw [heq]
        exact hw
      · show Waiting (probeStep s i o endpoints)
        rw [heq]
        refine waiting_stay hi hw rfl ?_
        intro d hd
        unfold buffer
        rw [List.getElem?_append_left hd]
  | openFind p i =>
      show Waiting (if s.intfs[i]?.elim false (·.registered) then
        { s.goto p (.found i) with bkl := some p } else s)
      split
      · exact waiting_goto hw rfl (by simp) fun _ => rfl
      · exact hw
  | openData p i =>
      cases hd : s.intfs[i]?.bind (·.intfdata) with
      | none =>
          simp only [update, hd]
          exact waiting_goto hw rfl (by simp) fun _ => rfl
      | some d =>
          simp only [update, hd]
          exact waiting_goto hw rfl (by simp) fun _ => rfl
  | openGet p d => exact waiting_goto hw rfl (by simp) fun _ => buffer_modify fun _ _ => rfl
  | disconnect p i d => exact waiting_goto hw rfl (by simp) fun _ => rfl
  | deregister p i d => exact waiting_goto hw rfl (by simp) fun _ => rfl
  | disconnectPut p d => exact waiting_goto hw rfl (by simp) fun _ => buffer_modify fun _ _ => rfl
  | release p f d => exact waiting_stay hi hw rfl fun _ _ => buffer_modify fun _ _ => rfl
  | readBegin p f d count => exact waiting_goto hw rfl (by simp) fun _ => rfl
  | readFill p f d count data => exact waiting_fill hi hw hg.1 hex
  | readFail p f d count => exact waiting_goto hw rfl (by simp) fun _ => rfl
  | readCopy p f d data => exact waiting_goto hw rfl (by simp) fun _ => rfl
  | writeBegin p f d => exact waiting_goto hw rfl (by simp) fun _ => rfl
  | writeEnd p f d => exact waiting_goto hw rfl (by simp) fun _ => rfl

theorem waiting_init (n m : ℕ) : Waiting (SkelSys.init n m) := by
  intro p f d data hp
  have hmem := List.mem_of_getElem? hp
  rw [SkelSys.init, List.mem_replicate] at hmem
  cases hmem.2

/-- Two processes that read one after the other through one file. -/
def turns : List Action :=
  [plug 0, .openFind 0 0, .openData 0 0, .openGet 0 0, .readBegin 0 0 0 9, .readBegin 1 0 0 9,
    .readFill 0 0 0 9 [1, 2], .readCopy 0 0 0 [1, 2], .readFill 1 0 0 9 [3, 4],
    .readCopy 1 0 0 [3, 4]]

instance (s : SkelSys) : ∀ a : Action, Decidable (Exclusive s a)
  | .readFill _ _ d _ _ => inferInstanceAs (Decidable (∀ x ∈ s.procs, x.copies d = false))
  | .readCopy _ _ _ _ => inferInstanceAs (Decidable True)
  | .skelProbe _ _ _ | .openFind _ _ | .openData _ _ | .openGet _ _ | .disconnect _ _ _
  | .deregister _ _ _ | .disconnectPut _ _ | .release _ _ _ | .readBegin _ _ _ _
  | .readFail _ _ _ _ | .writeBegin _ _ _ | .writeEnd _ _ _ => inferInstanceAs (Decidable True)

instance (s : SkelSys) : ∀ a : Action, Decidable (OwnBytes s a)
  | .readCopy _ _ d data => inferInstanceAs (Decidable ((buffer s.skels d).take data.length = data))
  | .readFill _ _ _ _ _ => inferInstanceAs (Decidable True)
  | .skelProbe _ _ _ | .openFind _ _ | .openData _ _ | .openGet _ _ | .disconnect _ _ _
  | .deregister _ _ _ | .disconnectPut _ _ | .release _ _ _ | .readBegin _ _ _ _
  | .readFail _ _ _ _ | .writeBegin _ _ _ | .writeEnd _ _ _ => inferInstanceAs (Decidable True)

theorem turns_exclusive : Along (step true) Exclusive (SkelSys.init 2 1) turns := by
  decide +kernel

/-- The same two reads, the second transfer ending before the first copy. -/
def overlap : List Action :=
  [plug 0, .openFind 0 0, .openData 0 0, .openGet 0 0, .readBegin 0 0 0 9, .readBegin 1 0 0 9,
    .readFill 0 0 0 9 [1, 2], .readFill 1 0 0 9 [3, 4], .readCopy 0 0 0 [1, 2]]

theorem overlap_mixes : (run (step true) (SkelSys.init 2 1) overlap).isSome = true ∧
    ¬ Along (step true) OwnBytes (SkelSys.init 2 1) overlap := by
  constructor <;> decide +kernel

end Usb
