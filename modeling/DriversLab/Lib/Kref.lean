import Mathlib.Algebra.Order.Group.Int
import Mathlib.Data.List.Basic
import Mathlib.Tactic.Common

/-!
# Lib.Kref — counted objects and their holders

An object carries a counter and is released when the counter comes down to zero. The
counter knows nothing of who holds the object; what makes the scheme work is that the
holders keep to it:

* `Counted objs hold`: each counter is the number of holders that `hold` gives for its
  object, and an object has been released once if nobody holds it, else never;
* `Counted.alloc`, `Counted.get`, `Counted.put`, `Counted.handOver`: the four things that
  may happen to a holder;
* `Counted.live`: whatever is held has not been released.
-/

namespace Kref

/-- A value under a counter. `frees` counts how often it has been released. -/
structure Obj (β : Type*) where
  refcount : ℤ
  frees : ℕ
  val : β
deriving DecidableEq, Repr

variable {β : Type*}

/-- `kref_init` on a new value. -/
def Obj.init (val : β) : Obj β := ⟨1, 0, val⟩

/-- `kref_get`. -/
def get (objs : List (Obj β)) (d : ℕ) : List (Obj β) :=
  objs.modify d fun o => { o with refcount := o.refcount + 1 }

/-- `kref_put`, as far as the object is concerned. -/
def put (objs : List (Obj β)) (d : ℕ) : List (Obj β) :=
  objs.modify d fun o =>
    { o with
      refcount := o.refcount - 1
      frees := if o.refcount - 1 = 0 then o.frees + 1 else o.frees }

/-- The value is written, the counter is not touched. -/
def write (objs : List (Obj β)) (d : ℕ) (f : β → β) : List (Obj β) :=
  objs.modify d fun o => { o with val := f o.val }

/-- The objects that have not been released. -/
def liveCount (objs : List (Obj β)) : ℕ := objs.countP fun o => o.frees = 0

/-- The counters count the holders. -/
structure Counted (objs : List (Obj β)) (hold : ℕ → ℤ) : Prop where
  refcount : ∀ d o, objs[d]? = some o → o.refcount = hold d
  frees : ∀ d o, objs[d]? = some o → o.frees = if hold d = 0 then 1 else 0
  unborn : ∀ d, objs.length ≤ d → hold d = 0

theorem counted_nil : Counted ([] : List (Obj β)) fun _ => 0 := by
  constructor <;> simp

/-- What an object of the changed list was before. -/
theorem modify_some {objs : List (Obj β)} {f : Obj β → Obj β} {d e : ℕ} {o : Obj β}
    (h : (objs.modify d f)[e]? = some o) :
    ∃ o', objs[e]? = some o' ∧ o = if e = d then f o' else o' := by
  rw [List.getElem?_modify] at h
  rcases Option.map_eq_some_iff.mp h with ⟨o', ho', rfl⟩
  refine ⟨o', ho', ?_⟩
  by_cases hed : d = e
  · simp [hed]
  · simp [hed, Ne.symm hed]

section Rules

variable {objs : List (Obj β)} {hold hold' : ℕ → ℤ} {d : ℕ}

/-- What somebody holds is there, and has not been released. -/
theorem Counted.live (h : Counted objs hold) (hd : 0 < hold d) :
    ∃ o, objs[d]? = some o ∧ o.refcount = hold d ∧ o.frees = 0 := by
  have hlt : d < objs.length := by
    by_contra hle
    have hzero := h.unborn d (not_lt.mp hle)
    omega
  have hsome := List.getElem?_eq_getElem hlt
  have hfrees := h.frees d _ hsome
  rw [if_neg (by omega)] at hfrees
  exact ⟨_, hsome, h.refcount d _ hsome, hfrees⟩

/-- The objects stay with as many holders. -/
theorem Counted.handOver (h : Counted objs hold) (hsame : ∀ e, hold' e = hold e) :
    Counted objs hold' := by
  rwa [funext hsame]

/-- A new object, held by the one who made it. -/
theorem Counted.alloc (h : Counted objs hold) (val : β)
    (hnew : ∀ e, hold' e = hold e + if e = objs.length then 1 else 0) :
    Counted (objs ++ [Obj.init val]) hold' := by
  have hborn : hold objs.length = 0 := h.unborn _ le_rfl
  have hcases : ∀ e o, (objs ++ [Obj.init val])[e]? = some o →
      (objs[e]? = some o ∧ hold' e = hold e) ∨ (o = Obj.init val ∧ hold' e = 1) := by
    intro e o he
    rw [List.getElem?_append] at he
    split at he
    · refine .inl ⟨he, ?_⟩
      rw [hnew, if_neg (by omega), add_zero]
    · rcases List.getElem?_eq_some_iff.mp he with ⟨hlt, heq⟩
      rw [List.length_singleton] at hlt
      have hlast : e = objs.length := by omega
      refine .inr ⟨?_, ?_⟩
      · simpa using heq.symm
      · rw [hnew, if_pos hlast, hlast, hborn, zero_add]
  constructor
  · intro e o he
    rcases hcases e o he with ⟨hbefore, heq⟩ | ⟨rfl, heq⟩
    · rw [heq]
      exact h.refcount e o hbefore
    · rw [heq]
      rfl
  · intro e o he
    rcases hcases e o he with ⟨hbefore, heq⟩ | ⟨rfl, heq⟩
    · rw [heq]
      exact h.frees e o hbefore
    · rw [heq]
      rfl
  · intro e he
    rw [List.length_append, List.length_singleton] at he
    rw [hnew, if_neg (by omega), add_zero]
    exact h.unborn e (by omega)

/-- One holder more, of an object that is held already. -/
theorem Counted.get (h : Counted objs hold) (hd : 0 < hold d)
    (hnew : ∀ e, hold' e = hold e + if e = d then 1 else 0) : Counted (get objs d) hold' := by
  constructor
  · intro e o he
    rcases modify_some he with ⟨o', ho', rfl⟩
    rw [hnew, ← h.refcount e o' ho']
    split
    · rfl
    · exact (add_zero _).symm
  · intro e o he
    rcases modify_some he with ⟨o', ho', rfl⟩
    have hbefore := h.frees e o' ho'
    rw [hnew]
    by_cases hed : e = d
    · subst hed
      rw [if_neg (by omega)] at hbefore
      rw [if_pos rfl, if_pos rfl, if_neg (by omega)]
      exact hbefore
    · rw [if_neg hed, if_neg hed, add_zero]
      exact hbefore
  · intro e he
    rw [Kref.get, List.length_modify] at he
    have hzero := h.unborn e he
    rw [hnew, if_neg (by rintro rfl; omega), hzero, add_zero]

/-- One holder less. The last one releases the object. -/
theorem Counted.put (h : Counted objs hold) (hd : 0 < hold d)
    (hnew : ∀ e, hold' e = hold e - if e = d then 1 else 0) : Counted (put objs d) hold' := by
  constructor
  · intro e o he
    rcases modify_some he with ⟨o', ho', rfl⟩
    rw [hnew, ← h.refcount e o' ho']
    split
    · rfl
    · exact (sub_zero _).symm
  · intro e o he
    rcases modify_some he with ⟨o', ho', rfl⟩
    have hbefore := h.frees e o' ho'
    rw [hnew]
    by_cases hed : e = d
    · subst hed
      rw [if_neg (by omega)] at hbefore
      rw [if_pos rfl, if_pos rfl, ← h.refcount e o' ho']
      show (if o'.refcount - 1 = 0 then o'.frees + 1 else o'.frees) = _
      rw [hbefore]
    · rw [if_neg hed, if_neg hed, sub_zero]
      exact hbefore
  · intro e he
    rw [Kref.put, List.length_modify] at he
    have hzero := h.unborn e he
    rw [hnew, if_neg (by rintro rfl; omega), hzero, sub_zero]

/-- Writing a value disturbs no counter. -/
theorem Counted.write (h : Counted objs hold) (f : β → β) :
    Counted (Kref.write objs d f) hold := by
  constructor
  · intro e o he
    rcases modify_some he with ⟨o', ho', rfl⟩
    rw [← h.refcount e o' ho']
    split <;> rfl
  · intro e o he
    rcases modify_some he with ⟨o', ho', rfl⟩
    rw [← h.frees e o' ho']
    split <;> rfl
  · intro e he
    rw [Kref.write, List.length_modify] at he
    exact h.unborn e he

end Rules

/-! ## How many are left -/

theorem liveCount_modify {objs : List (Obj β)} {f : Obj β → Obj β}
    (hf : ∀ o, (f o).frees = o.frees) (d : ℕ) : liveCount (objs.modify d f) = liveCount objs := by
  unfold liveCount
  induction objs generalizing d with
  | nil => simp
  | cons o objs ih =>
      cases d with
      | zero => simp [List.countP_cons, hf]
      | succ d => simp [List.countP_cons, ih]

theorem liveCount_get (objs : List (Obj β)) (d : ℕ) : liveCount (get objs d) = liveCount objs := by
  unfold get
  apply liveCount_modify
  intro o
  rfl

theorem liveCount_write (objs : List (Obj β)) (d : ℕ) (f : β → β) :
    liveCount (write objs d f) = liveCount objs := by
  unfold write
  apply liveCount_modify
  intro o
  rfl

theorem liveCount_alloc (objs : List (Obj β)) (val : β) :
    liveCount (objs ++ [Obj.init val]) = liveCount objs + 1 := by
  simp [liveCount, Obj.init]

/-- The last put takes one object away, any other none. -/
theorem liveCount_put {objs : List (Obj β)} {d : ℕ} {o : Obj β} (ho : objs[d]? = some o)
    (hfrees : o.frees = 0) :
    (liveCount (put objs d) : ℤ) = liveCount objs - if o.refcount - 1 = 0 then 1 else 0 := by
  unfold liveCount put
  induction objs generalizing d with
  | nil => simp at ho
  | cons x objs ih =>
      cases d with
      | zero =>
          have hx : x = o := by simpa using ho
          subst hx
          by_cases hzero : x.refcount - 1 = 0 <;> simp [hfrees, hzero]
      | succ d =>
          have hrest := ih (d := d) (by simpa using ho)
          simp only [List.modify_succ_cons, List.countP_cons]
          push_cast
          omega

end Kref
