import DriversLab.Lib.Kref
import DriversLab.Lib.Lts
import DriversLab.Lib.Table
import DriversLab.Usb.Probe

/-!
# Usb.Write — what `skel_write` allocates

Each write allocates a URB and a buffer. The host controller holds a reference on a URB
from its submission to its completion, and the completion callback frees the buffer.
Completions come in any order, also before `skel_write` has dropped its own reference.

All failures leave `skel_write` through one label, where the buffer is given to
`usb_buffer_free` and then to `kfree`, and where the URB is dereferenced.

* `CleanExit`: the exits where this does no harm;
* `skel_write_sound_iff`: a run frees no buffer twice and dereferences no null pointer
  exactly if all its exits are clean, and then whatever was allocated is freed once.
-/

namespace Usb

open Lts

inductive WritePoint where
  | returned (ret : ℤ)
  /-- `skel_write` before its `usb_free_urb`. -/
  | submitted (u count : ℕ)
deriving DecidableEq, Repr

/-- What the calls that `skel_write` makes come to. -/
structure WriteOutcome where
  /-- `usb_alloc_urb` succeeds. -/
  urb : Bool
  /-- `usb_buffer_alloc` succeeds. -/
  buffer : Bool
  /-- `copy_from_user` leaves something uncopied. -/
  fault : Bool
  /-- `usb_submit_urb`. -/
  submit : ℤ
deriving DecidableEq, Repr

/-- The URBs and the buffers are all that were ever allocated. -/
structure WriteSys where
  urbs : List (Kref.Obj Unit)
  /-- How often each buffer has been freed. -/
  bufs : List ℕ
  /-- The URBs that the host controller has, each with its `transfer_buffer`. -/
  inFlight : List (ℕ × ℕ)
  procs : List WritePoint
  /-- A null pointer has been dereferenced. -/
  oops : Bool
deriving DecidableEq

def WriteSys.init (n : ℕ) : WriteSys where
  urbs := []
  bufs := []
  inFlight := []
  procs := List.replicate n (.returned 0)
  oops := false

inductive WriteAction where
  | skelWrite (p : ℕ) (ret : ℤ) (count : ℕ) (o : WriteOutcome)
  | freeUrb (p u count : ℕ)
  /-- `skel_write_bulk_callback`, and the host controller is done with the URB. -/
  | complete (u b : ℕ)

namespace WriteSys

/-- `usb_buffer_free` and `kfree`: `NULL` is nothing to free. -/
def free (s : WriteSys) (buf : Option ℕ) : WriteSys :=
  match buf with
  | none => s
  | some b => { s with bufs := s.bufs.modify b (· + 1) }

/-- `usb_free_urb`. -/
def usbFreeUrb (s : WriteSys) (u : ℕ) : WriteSys := { s with urbs := Kref.put s.urbs u }

/-- The label `error`. -/
def error (s : WriteSys) (p : ℕ) (urb buf : Option ℕ) (retval : ℤ) : WriteSys :=
  match urb with
  | none => { s with oops := true } -- `urb->transfer_dma`
  | some u =>
      let s := s.free buf
      let s := s.usbFreeUrb u
      let s := s.free buf
      { s with procs := s.procs.set p (.returned retval) }

/-- `skel_write` up to the return of `usb_submit_urb`. -/
def skelWrite (s : WriteSys) (p count : ℕ) (o : WriteOutcome) : WriteSys :=
  if count = 0 then { s with procs := s.procs.set p (.returned 0) }
  else if !o.urb then s.error p none none (-enomem)
  else
    let u := s.urbs.length
    let s := { s with urbs := s.urbs ++ [Kref.Obj.init ()] }
    if !o.buffer then s.error p (some u) none (-enomem)
    else
      let b := s.bufs.length
      let s := { s with bufs := s.bufs ++ [0] }
      if o.fault then s.error p (some u) (some b) (-efault)
      else if o.submit ≠ 0 then s.error p (some u) (some b) o.submit
      else
        { s with
          urbs := Kref.get s.urbs u
          inFlight := s.inFlight ++ [(u, b)]
          procs := s.procs.set p (.submitted u count) }

def guard (s : WriteSys) : WriteAction → Prop
  | .skelWrite p ret _ _ => s.procs[p]? = some (.returned ret)
  | .freeUrb p u count => s.procs[p]? = some (.submitted u count)
  | .complete u b => (u, b) ∈ s.inFlight

instance (s : WriteSys) (a : WriteAction) : Decidable (s.guard a) := by
  cases a <;> unfold guard <;> infer_instance

def update (s : WriteSys) : WriteAction → WriteSys
  | .skelWrite p _ count o => s.skelWrite p count o
  | .freeUrb p u count => { s.usbFreeUrb u with procs := s.procs.set p (.returned count) }
  | .complete u b =>
      { (s.free (some b)).usbFreeUrb u with inFlight := s.inFlight.erase (u, b) }

def step : WriteSys → WriteAction → Option WriteSys := guarded guard update

end WriteSys

/-- An exit that is not through `error`, or comes there with a URB and no buffer. -/
def CleanExit : WriteAction → Prop
  | .skelWrite _ _ count o =>
      count = 0 ∨ (o.urb = true ∧ (o.buffer = true → o.fault = false ∧ o.submit = 0))
  | _ => True

/-- The harm that may have been done. -/
def Harmed (s : WriteSys) : Prop := s.oops = true ∨ ∃ n ∈ s.bufs, 2 ≤ n

namespace WriteSys

/-! ## Clean exits -/

def pointHold (u : ℕ) : WritePoint → ℤ
  | .submitted v _ => if v = u then 1 else 0
  | .returned _ => 0

/-- The holders of a URB: the host controller and the writes. -/
def hold (s : WriteSys) (u : ℕ) : ℤ :=
  (s.inFlight.map Prod.fst).count u + (s.procs.map (pointHold u)).sum

structure Inv (s : WriteSys) : Prop where
  oops : s.oops = false
  counted : Kref.Counted s.urbs (hold s)
  /-- A buffer has been freed, or is still in flight. -/
  bufs : ∀ b n, s.bufs[b]? = some n → n + (s.inFlight.map Prod.snd).count b = 1
  flight : ∀ e ∈ s.inFlight, e.2 < s.bufs.length

theorem inv_init (n : ℕ) : Inv (init n) := by
  have hzero : hold (init n) = fun _ => 0 := by
    funext d
    simp [hold, init, pointHold]
  constructor
  · rfl
  · rw [hzero]
    exact Kref.counted_nil
  · intro b k hb
    simp [init] at hb
  · intro e he
    simp [init] at he

theorem pointHold_nonneg (u : ℕ) (x : WritePoint) : 0 ≤ pointHold u x := by
  unfold pointHold
  split
  · split <;> decide
  · exact le_refl _

section Steps

variable {s : WriteSys}

/-- A write returns without having left anything behind. -/
theorem hold_returned {p : ℕ} {x : WritePoint} (hx : s.procs[p]? = some x) (ret : ℤ) (e : ℕ) :
    ((s.procs.set p (.returned ret)).map (pointHold e)).sum =
      (s.procs.map (pointHold e)).sum - pointHold e x := by
  rw [Table.sum_map_set (pointHold e) hx (d := -pointHold e x) (by simp [pointHold]),
    sub_eq_add_neg]

theorem inv_empty (hi : Inv s) {p : ℕ} {ret : ℤ} (hx : s.procs[p]? = some (.returned ret))
    (ret' : ℤ) :
    Inv { s with procs := s.procs.set p (.returned ret') } := by
  constructor
  · exact hi.oops
  · refine hi.counted.handOver ?_
    intro e
    simp only [hold, hold_returned hx ret', pointHold, sub_zero]
  · exact hi.bufs
  · exact hi.flight

/-- The buffer cannot be had: the URB goes as it came. -/
theorem inv_nomem (hi : Inv s) {p : ℕ} {ret ret' : ℤ} (hx : s.procs[p]? = some (.returned ret)) :
    Inv { s with
      urbs := Kref.put (s.urbs ++ [Kref.Obj.init ()]) s.urbs.length
      procs := s.procs.set p (.returned ret') } := by
  have hempty := inv_empty hi hx ret'
  have hborn : hold s s.urbs.length = 0 := hi.counted.unborn _ le_rfl
  have halloc : Kref.Counted (s.urbs ++ [Kref.Obj.init ()])
      (fun e => hold s e + if e = s.urbs.length then 1 else 0) :=
    hi.counted.alloc () fun _ => rfl
  constructor
  · exact hi.oops
  · refine halloc.put (by simp [hborn]) ?_
    intro e
    simp only [hold, hold_returned hx ret', pointHold]
    omega
  · exact hi.bufs
  · exact hi.flight

/-- The URB goes to the host controller, and the buffer with it. -/
theorem inv_submit (hi : Inv s) {p count : ℕ} {ret : ℤ}
    (hx : s.procs[p]? = some (.returned ret)) :
    Inv { s with
      urbs := Kref.get (s.urbs ++ [Kref.Obj.init ()]) s.urbs.length
      bufs := s.bufs ++ [0]
      inFlight := s.inFlight ++ [(s.urbs.length, s.bufs.length)]
      procs := s.procs.set p (.submitted s.urbs.length count) } := by
  have hborn : hold s s.urbs.length = 0 := hi.counted.unborn _ le_rfl
  have halloc : Kref.Counted (s.urbs ++ [Kref.Obj.init ()])
      (fun e => hold s e + if e = s.urbs.length then 1 else 0) :=
    hi.counted.alloc () fun _ => rfl
  constructor
  · exact hi.oops
  · refine halloc.get (by simp [hborn]) ?_
    intro e
    have hprocs := Table.sum_map_set (pointHold e) hx (y := .submitted s.urbs.length count)
      (d := if e = s.urbs.length then 1 else 0) (by simp [pointHold, eq_comm])
    have hflight : ((s.inFlight ++ [(s.urbs.length, s.bufs.length)]).map Prod.fst).count e =
        (s.inFlight.map Prod.fst).count e + if s.urbs.length = e then 1 else 0 := by
      rw [List.map_append, List.count_append, List.map_singleton, List.count_singleton]
      simp
    simp only [hold, hprocs, hflight]
    by_cases he : e = s.urbs.length
    · simp only [he, if_true]
      push_cast
      omega
    · simp only [he, Ne.symm he, if_false]
      omega
  · -- the new buffer is in flight, the others are where they were
    intro b n hb
    have hnone : (s.inFlight.map Prod.snd).count s.bufs.length = 0 := by
      rw [List.count_eq_zero]
      intro hmem
      rcases List.mem_map.mp hmem with ⟨e, he, heq⟩
      have hlt := hi.flight e he
      omega
    rw [List.getElem?_append] at hb
    rw [List.map_append, List.count_append]
    split at hb
    · have hne : s.bufs.length ≠ b := by omega
      have hold := hi.bufs b n hb
      simpa [List.count_singleton, hne] using hold
    · rcases List.getElem?_eq_some_iff.mp hb with ⟨hlt, hval⟩
      rw [List.length_singleton] at hlt
      have hlast : b = s.bufs.length := by omega
      subst hlast
      have hzero : n = 0 := by simpa using hval.symm
      rw [hnone, hzero]
      simp
  · intro e he
    rw [List.length_append, List.length_singleton]
    rcases List.mem_append.mp he with hold | hnew
    · have hlt := hi.flight e hold
      omega
    · rw [List.mem_singleton.mp hnew]
      exact Nat.lt_succ_self _

theorem inv_skelWrite (hi : Inv s) {p count : ℕ} {ret : ℤ} {o : WriteOutcome}
    (hx : s.procs[p]? = some (.returned ret)) (hclean : CleanExit (.skelWrite p ret count o)) :
    Inv (s.skelWrite p count o) := by
  unfold skelWrite
  by_cases hcount : count = 0
  · rw [if_pos hcount]
    exact inv_empty hi hx _
  · rw [if_neg hcount]
    rcases hclean.resolve_left hcount with ⟨hurb, hrest⟩
    cases hbuf : o.buffer with
    | false =>
        simp only [hurb, Bool.not_true, Bool.not_false, Bool.false_eq_true, if_false, if_true]
        exact inv_nomem hi hx
    | true =>
        rcases hrest hbuf with ⟨hfault, hsubmit⟩
        simp only [hurb, hfault, hsubmit, Bool.not_true, Bool.false_eq_true, if_false,
          ne_eq, not_true_eq_false]
        exact inv_submit hi hx

theorem inv_freeUrb (hi : Inv s) {p u count : ℕ} (hx : s.procs[p]? = some (.submitted u count)) :
    Inv (s.update (.freeUrb p u count)) := by
  have hone : pointHold u (.submitted u count) = 1 := if_pos rfl
  have hpos : 0 < hold s u := by
    have hle := Table.le_sum_map (pointHold_nonneg u) (List.mem_of_getElem? hx)
    unfold hold
    omega
  constructor
  · exact hi.oops
  · refine hi.counted.put hpos ?_
    intro e
    have hprocs := hold_returned hx count e
    simp only [hold, update, usbFreeUrb, hprocs, pointHold, eq_comm]
    omega
  · exact hi.bufs
  · exact hi.flight

theorem count_erase_map {α β : Type*} [BEq α] [LawfulBEq α] [DecidableEq β] (f : α → β)
    {l : List α} {a : α} (ha : a ∈ l) (b : β) :
    ((l.erase a).map f).count b + (if f a = b then 1 else 0) = (l.map f).count b := by
  have hperm := (List.perm_cons_erase ha).map f
  rw [hperm.count_eq, List.map_cons, List.count_cons]
  simp

theorem inv_complete (hi : Inv s) {u b : ℕ} (hmem : (u, b) ∈ s.inFlight) :
    Inv (s.update (.complete u b)) := by
  have hpos : 0 < hold s u := by
    have hcount : 0 < (s.inFlight.map Prod.fst).count u :=
      List.count_pos_iff.mpr (List.mem_map_of_mem hmem)
    have hprocs := Table.sum_map_nonneg s.procs (pointHold_nonneg u)
    unfold hold
    omega
  constructor
  · exact hi.oops
  · refine hi.counted.put hpos ?_
    intro e
    have hurbs : ((s.inFlight.erase (u, b)).map Prod.fst).count e + (if u = e then 1 else 0) =
        (s.inFlight.map Prod.fst).count e := count_erase_map Prod.fst hmem e
    simp only [hold, update, usbFreeUrb, free, ← hurbs]
    by_cases he : e = u
    · simp only [he, if_true]
      push_cast
      omega
    · simp only [he, Ne.symm he, if_false]
      push_cast
      omega
  · -- the buffer is freed, and no longer in flight
    intro c n hc
    have hbufs : ((s.inFlight.erase (u, b)).map Prod.snd).count c + (if b = c then 1 else 0) =
        (s.inFlight.map Prod.snd).count c := count_erase_map Prod.snd hmem c
    change (s.bufs.modify b (· + 1))[c]? = some n at hc
    rw [List.getElem?_modify] at hc
    rcases Option.map_eq_some_iff.mp hc with ⟨k, hk, hn⟩
    have hold := hi.bufs c k hk
    rw [← hbufs] at hold
    show n + ((s.inFlight.erase (u, b)).map Prod.snd).count c = 1
    by_cases hbc : b = c
    · rw [if_pos hbc] at hn hold
      omega
    · rw [if_neg hbc] at hn hold
      change k = n at hn
      omega
  · intro e he
    show e.2 < (s.bufs.modify b (· + 1)).length
    rw [List.length_modify]
    exact hi.flight e (List.mem_of_mem_erase he)

end Steps

theorem inv_step {s s' : WriteSys} {a : WriteAction} (hi : Inv s) (hclean : CleanExit a)
    (hs : step s a = some s') : Inv s' := by
  rcases guarded_eq_some.mp hs with ⟨hg, rfl⟩
  cases a with
  | skelWrite p ret count o => exact inv_skelWrite hi hg hclean
  | freeUrb p u count => exact inv_freeUrb hi hg
  | complete u b => exact inv_complete hi hg

/-! ## Harm stays -/

/-- Nothing that was counted in `s` is counted less often in `s'`. -/
structure Grows (s s' : WriteSys) : Prop where
  oops : s.oops = true → s'.oops = true
  bufs : ∀ b n : ℕ, s.bufs[b]? = some n → ∃ k, s'.bufs[b]? = some k ∧ n ≤ k

theorem Grows.of_eq {s s' : WriteSys} (hoops : s'.oops = s.oops) (hbufs : s'.bufs = s.bufs) :
    Grows s s' := by
  constructor
  · rw [hoops]
    exact id
  · rw [hbufs]
    exact fun b n hb => ⟨n, hb, le_refl n⟩

theorem Grows.trans {s t u : WriteSys} (hst : Grows s t) (htu : Grows t u) : Grows s u := by
  constructor
  · exact fun h => htu.oops (hst.oops h)
  · intro b n hb
    rcases hst.bufs b n hb with ⟨k, hk, hnk⟩
    rcases htu.bufs b k hk with ⟨m, hm, hkm⟩
    exact ⟨m, hm, le_trans hnk hkm⟩

theorem Grows.harmed {s s' : WriteSys} (h : Grows s s') (hharm : Harmed s) : Harmed s' := by
  rcases hharm with hoops | ⟨n, hn, htwo⟩
  · exact .inl (h.oops hoops)
  · rcases List.mem_iff_getElem?.mp hn with ⟨b, hb⟩
    rcases h.bufs b n hb with ⟨k, hk, hle⟩
    exact .inr ⟨k, List.mem_of_getElem? hk, le_trans htwo hle⟩

theorem grows_free (s : WriteSys) (buf : Option ℕ) : Grows s (s.free buf) := by
  cases buf with
  | none => exact .of_eq rfl rfl
  | some b =>
      constructor
      · exact id
      · intro c n hc
        show ∃ k, (s.bufs.modify b (· + 1))[c]? = some k ∧ n ≤ k
        rw [List.getElem?_modify, hc]
        by_cases hbc : b = c
        · exact ⟨n + 1, by simp [hbc], Nat.le_succ n⟩
        · exact ⟨n, by simp [hbc], le_refl n⟩

theorem grows_error (s : WriteSys) (p : ℕ) (urb buf : Option ℕ) (retval : ℤ) :
    Grows s (s.error p urb buf retval) := by
  cases urb with
  | none =>
      constructor
      · exact fun _ => rfl
      · exact fun b n hb => ⟨n, hb, le_refl n⟩
  | some u =>
      have hfirst := grows_free s buf
      have hurb : Grows (s.free buf) ((s.free buf).usbFreeUrb u) := .of_eq rfl rfl
      have hsecond := grows_free ((s.free buf).usbFreeUrb u) buf
      exact (hfirst.trans hurb).trans (hsecond.trans (.of_eq rfl rfl))

/-- A new buffer. -/
theorem grows_alloc {s s' : WriteSys} (hoops : s'.oops = s.oops) {n : ℕ}
    (hbufs : s'.bufs = s.bufs ++ [n]) : Grows s s' := by
  constructor
  · rw [hoops]
    exact id
  · intro b k hb
    have hlt : b < s.bufs.length := (List.getElem?_eq_some_iff.mp hb).1
    rw [hbufs, List.getElem?_append_left hlt]
    exact ⟨k, hb, le_refl k⟩

theorem grows_skelWrite (s : WriteSys) (p count : ℕ) (o : WriteOutcome) :
    Grows s (s.skelWrite p count o) := by
  unfold skelWrite
  dsimp only
  split
  · exact .of_eq rfl rfl
  · split
    · exact grows_error _ _ _ _ _
    · split
      · refine Grows.trans (.of_eq ?_ ?_) (grows_error _ _ _ _ _) <;> rfl
      · split
        · refine Grows.trans (grows_alloc (n := 0) ?_ ?_) (grows_error _ _ _ _ _) <;> rfl
        · split
          · refine Grows.trans (grows_alloc (n := 0) ?_ ?_) (grows_error _ _ _ _ _) <;> rfl
          · exact grows_alloc rfl rfl

theorem grows_step {s s' : WriteSys} {a : WriteAction} (hs : step s a = some s') : Grows s s' := by
  rcases guarded_eq_some.mp hs with ⟨-, rfl⟩
  cases a with
  | skelWrite p ret count o => exact grows_skelWrite s p count o
  | freeUrb p u count => exact .of_eq rfl rfl
  | complete u b => exact (grows_free s (some b)).trans (.of_eq rfl rfl)

/-- The label `error` with a buffer frees it twice. -/
theorem harmed_error (s : WriteSys) {p u b n : ℕ} (retval : ℤ) (hb : s.bufs[b]? = some n) :
    Harmed (s.error p (some u) (some b) retval) := by
  refine .inr ⟨n + 2, ?_, by omega⟩
  refine List.mem_of_getElem? (i := b) ?_
  show ((s.bufs.modify b (· + 1)).modify b (· + 1))[b]? = some (n + 2)
  simp [hb]

theorem harmed_skelWrite (s : WriteSys) {p count : ℕ} {ret : ℤ} {o : WriteOutcome}
    (hclean : ¬ CleanExit (.skelWrite p ret count o)) : Harmed (s.skelWrite p count o) := by
  simp only [CleanExit, not_or, not_and, Classical.not_imp] at hclean
  rcases hclean with ⟨hcount, hrest⟩
  unfold skelWrite
  rw [if_neg hcount]
  have hnew : ∀ t : WriteSys, t.bufs = s.bufs ++ [0] → t.bufs[s.bufs.length]? = some 0 := by
    intro t ht
    simp [ht]
  cases hurb : o.urb with
  | false =>
      simp only [Bool.not_false, if_true]
      exact .inl rfl
  | true =>
      rcases hrest hurb with ⟨hbuf, hfail⟩
      simp only [hbuf, Bool.not_true, Bool.false_eq_true, if_false]
      cases hfault : o.fault with
      | true =>
          simp only [if_true]
          exact harmed_error _ _ (hnew _ rfl)
      | false =>
          simp only [Bool.false_eq_true, if_false, ne_eq, hfail hfault, not_false_eq_true, if_true]
          exact harmed_error _ _ (hnew _ rfl)

/-! ## The account -/

/-- Everything that is allocated has been freed, once. -/
structure Settled (s : WriteSys) : Prop where
  urbs : ∀ o ∈ s.urbs, o.frees = 1
  bufs : ∀ n ∈ s.bufs, n = 1

/-- No write and no transfer is on its way. -/
structure Quiet (s : WriteSys) : Prop where
  inFlight : s.inFlight = []
  procs : ∀ x ∈ s.procs, ∃ ret, x = .returned ret

theorem settled_of_quiet {s : WriteSys} (hi : Inv s) (hq : Quiet s) : Settled s := by
  have hnone : ∀ u, hold s u = 0 := by
    intro u
    have hprocs := (Table.sum_map_eq_zero_iff (l := s.procs) fun x _ => pointHold_nonneg u x).mpr ?_
    · rw [hold, hprocs, hq.inFlight]
      rfl
    · intro x hx
      rcases hq.procs x hx with ⟨ret, rfl⟩
      rfl
  constructor
  · intro o ho
    rcases List.mem_iff_getElem?.mp ho with ⟨u, hu⟩
    rw [hi.counted.frees u o hu, hnone, if_pos rfl]
  · intro n hn
    rcases List.mem_iff_getElem?.mp hn with ⟨b, hb⟩
    have hone := hi.bufs b n hb
    rw [hq.inFlight] at hone
    simpa using hone

end WriteSys

open WriteSys in
/-- In every run of any number of writes and completions: no null pointer is
dereferenced and no buffer freed twice, exactly if no write comes to `error` without a
URB or with a buffer. Such a run has freed all it allocated, once, when nothing is on
its way. -/
theorem skel_write_sound_iff {n : ℕ} {as : List WriteAction} {s : WriteSys}
    (hr : run WriteSys.step (WriteSys.init n) as = some s) :
    ((∀ a ∈ as, CleanExit a) ↔ ¬ Harmed s) ∧ (¬ Harmed s → Quiet s → Settled s) := by
  have hclean : ¬ Harmed s → Along WriteSys.step (fun _ a => CleanExit a) (WriteSys.init n) as := by
    intro hunharmed
    have hharms : ∀ t a t', True → (WriteSys.step t a).isSome = true → ¬ CleanExit a →
        WriteSys.step t a = some t' → Harmed t' := by
      intro t a t' _ _ hdirty ht
      rcases guarded_eq_some.mp ht with ⟨-, rfl⟩
      cases a with
      | skelWrite p ret count o => exact harmed_skelWrite t hdirty
      | freeUrb p u count => exact absurd trivial hdirty
      | complete u b => exact absurd trivial hdirty
    refine along_of_avoids (fun _ _ _ _ _ _ => trivial) hharms ?_ trivial (along_enabled hr) hr
      hunharmed
    exact fun t a t' _ _ hharm ht => (grows_step ht).harmed hharm
  have hinv : (∀ a ∈ as, CleanExit a) → WriteSys.Inv s := by
    intro hall
    refine run_invariant_along (P := fun _ a => CleanExit a) ?_ (WriteSys.inv_init n)
      ((along_const hr).mpr hall) hr
    exact fun t a t' hi ha ht => WriteSys.inv_step hi ha ht
  refine ⟨⟨?_, ?_⟩, ?_⟩
  · -- a buffer that is freed once at most
    intro hall hharm
    have hi := hinv hall
    rcases hharm with hoops | ⟨k, hk, htwo⟩
    · rw [hi.oops] at hoops
      cases hoops
    · rcases List.mem_iff_getElem?.mp hk with ⟨b, hb⟩
      have hone := hi.bufs b k hb
      omega
  · intro hunharmed
    exact (along_const hr).mp (hclean hunharmed)
  · intro hunharmed hq
    exact settled_of_quiet (hinv ((along_const hr).mp (hclean hunharmed))) hq

/-- Two writes that complete in the other order, one before its own call is done. -/
def crossing : List WriteAction :=
  [.skelWrite 0 0 5 ⟨true, true, false, 0⟩, .skelWrite 1 0 3 ⟨true, true, false, 0⟩,
    .complete 1 1, .freeUrb 0 0 5, .freeUrb 1 1 3, .complete 0 0]

theorem skel_write_sound_crossing :
    ∃ s, run WriteSys.step (WriteSys.init 2) crossing = some s ∧ ¬ Harmed s := by
  have hrun : (run WriteSys.step (WriteSys.init 2) crossing).isSome = true := by decide
  rcases Option.isSome_iff_exists.mp hrun with ⟨s, hs⟩
  refine ⟨s, hs, (skel_write_sound_iff hs).1.mp ?_⟩
  intro a ha
  simp only [crossing, List.mem_cons, List.not_mem_nil, or_false] at ha
  rcases ha with rfl | rfl | rfl | rfl | rfl | rfl <;> simp [CleanExit]

end Usb
