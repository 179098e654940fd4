import DriversLab.Lib.Lts
import DriversLab.Lib.Prog
import DriversLab.Lib.Table

/-!
# Lib.Pool — typestate and interleaved calls

1. **Typestate**: what a program may do next depends on a ghost state that its
   own answers drive. `Conforms` is checked branch by branch and is what makes
   a property of one program survive any interleaving.
2. **Services**: calls are started, interleave at the granularity of single
   operations, and return. A call keeps the list of what it has done, also
   after it has returned.
3. **Orderly**: the invariant rule for calls whose programs conform.
4. **Accounting**: a quantity of the world that every operation changes by a
   known amount is, in every reachable state, the sum of what the calls have
   contributed.
-/

namespace Interact

universe u v w

variable {Op : Type u} {Ans : Op → Type v} {α β : Type w}

/-! ## Typestate -/

/-- A protocol for programs: `pre g o` allows operation `o` in ghost state `g`,
and `next` follows the answer. -/
structure Typestate (Ans : Op → Type v) (G : Type*) where
  pre : G → Op → Prop
  next : G → (o : Op) → Ans o → G

/-- One operation together with its answer. -/
abbrev Event (Ans : Op → Type v) := (o : Op) × Ans o

namespace Typestate

variable {G : Type*} (T : Typestate Ans G)

/-- Every branch of the program keeps to the protocol from `g` on and returns
in a ghost state that `post` accepts. -/
def Conforms (post : G → α → Prop) : Prog Ans α → G → Prop
  | .ret a, g => post g a
  | .call o k, g => T.pre g o ∧ ∀ r, Conforms post (k r) (T.next g o r)

/-- The ghost state after the events of `hist`. -/
def after (g : G) (hist : List (Event Ans)) : G :=
  hist.foldl (fun g e => T.next g e.1 e.2) g

variable {T}

@[simp] theorem conforms_ret {post : G → α → Prop} {a : α} {g : G} :
    T.Conforms post (.ret a) g ↔ post g a := Iff.rfl

@[simp] theorem conforms_call {post : G → α → Prop} {o : Op} {k : Ans o → Prog Ans α} {g : G} :
    T.Conforms post (.call o k) g ↔
      T.pre g o ∧ ∀ r, T.Conforms post (k r) (T.next g o r) := Iff.rfl

@[simp] theorem after_nil (g : G) : T.after g [] = g := rfl

@[simp] theorem after_concat (g : G) (hist : List (Event Ans)) (e : Event Ans) :
    T.after g (hist ++ [e]) = T.next (T.after g hist) e.1 e.2 := by
  simp [after]

/-- Sequencing: the second program starts from the ghost states in which the
first may return. -/
theorem conforms_bind {mid : G → α → Prop} {post : G → β → Prop} {p : Prog Ans α}
    {f : α → Prog Ans β} {g : G} (hp : T.Conforms mid p g)
    (hf : ∀ g' a, mid g' a → T.Conforms post (f a) g') : T.Conforms post (p.bind f) g := by
  induction p generalizing g with
  | ret a => exact hf g a hp
  | call o k ih => exact ⟨hp.1, fun r => ih r (hp.2 r)⟩

theorem conforms_mono {post post' : G → α → Prop} (h : ∀ g a, post g a → post' g a)
    {p : Prog Ans α} {g : G} (hp : T.Conforms post p g) : T.Conforms post' p g := by
  induction p generalizing g with
  | ret a => exact h g a hp
  | call o k ih => exact ⟨hp.1, fun r => ih r (hp.2 r)⟩

/-- A program of operations that `T` allows in every ghost state of `I`, and
that do not leave `I`, conforms and returns in `I`. -/
theorem conforms_of_only {P : Op → Prop} {I : G → Prop}
    (h : ∀ g o, I g → P o → T.pre g o ∧ ∀ r, I (T.next g o r)) {p : Prog Ans α}
    (hp : p.Only P) {g : G} (hg : I g) : T.Conforms (fun g _ => I g) p g := by
  induction p generalizing g with
  | ret a => exact hg
  | call o k ih =>
      have ho := h g o hg hp.1
      exact ⟨ho.1, fun r => ih r (hp.2 r) (ho.2 r)⟩

end Typestate

/-! ## Services -/

/-- A call in progress: what was called, the rest of its program, and what it
has done. -/
structure Thread (Ans : Op → Type v) (α : Type w) (τ : Type*) where
  tag : τ
  prog : Prog Ans α
  hist : List (Event Ans)

/-- A call that has returned. -/
structure Done (Ans : Op → Type v) (α : Type w) (τ : Type*) where
  tag : τ
  val : α
  hist : List (Event Ans)

/-- Calls `τ` over a world `W`. `accept` lets a call start, `retire` is what its
return changes, `env` is what else happens to the world. -/
structure Service {Op : Type u} (Ans : Op → Type v) (α : Type w) (W C E τ : Type*) where
  serve : Handler Ans W C
  prog : τ → Prog Ans α
  accept : W → τ → Option W
  retire : W → τ → α → W
  env : W → E → Option W

/-- A world with the calls in progress and the calls that have returned. -/
structure Busy (Ans : Op → Type v) (α : Type w) (W τ : Type*) where
  world : W
  pool : List (Thread Ans α τ)
  returned : List (Done Ans α τ)

inductive Move (C E τ : Type*) where
  | start (t : τ)
  | advance (i : ℕ) (c : C)
  | finish (i : ℕ)
  | env (e : E)

/-- A step of a call, not of the environment. -/
def Move.IsCall {C E τ : Type*} : Move C E τ → Prop
  | .env _ => False
  | _ => True

instance {C E τ : Type*} : DecidablePred (Move.IsCall (C := C) (E := E) (τ := τ))
  | .start _ => inferInstanceAs (Decidable True)
  | .advance _ _ => inferInstanceAs (Decidable True)
  | .finish _ => inferInstanceAs (Decidable True)
  | .env _ => inferInstanceAs (Decidable False)

namespace Service

variable {W C E τ : Type*} (S : Service Ans α W C E τ)

/-- One step: a call starts, performs its next operation or returns, or the
environment moves. -/
def step (s : Busy Ans α W τ) : Move C E τ → Option (Busy Ans α W τ)
  | .start t =>
      (S.accept s.world t).map fun w => { s with world := w, pool := s.pool ++ [⟨t, S.prog t, []⟩] }
  | .advance i c =>
      match s.pool[i]? with
      | some ⟨tag, .call o k, hist⟩ =>
          (S.serve s.world o c).map fun a =>
            { s with world := a.2, pool := s.pool.set i ⟨tag, k a.1, hist ++ [⟨o, a.1⟩]⟩ }
      | _ => none
  | .finish i =>
      match s.pool[i]? with
      | some ⟨tag, .ret a, hist⟩ =>
          some
            { world := S.retire s.world tag a
              pool := s.pool.eraseIdx i
              returned := s.returned ++ [⟨tag, a, hist⟩] }
      | _ => none
  | .env e => (S.env s.world e).map fun w => { s with world := w }

/-- What a step can do, by its move. -/
inductive StepCases (s : Busy Ans α W τ) : Move C E τ → Busy Ans α W τ → Prop where
  | start (t : τ) (w : W) (hw : S.accept s.world t = some w) :
      StepCases s (.start t) { s with world := w, pool := s.pool ++ [⟨t, S.prog t, []⟩] }
  | advance (i : ℕ) (c : C) (tag : τ) (o : Op) (k : Ans o → Prog Ans α)
      (hist : List (Event Ans)) (r : Ans o) (w : W)
      (hi : s.pool[i]? = some ⟨tag, .call o k, hist⟩) (hw : S.serve s.world o c = some (r, w)) :
      StepCases s (.advance i c)
        { s with world := w, pool := s.pool.set i ⟨tag, k r, hist ++ [⟨o, r⟩]⟩ }
  | finish (i : ℕ) (tag : τ) (a : α) (hist : List (Event Ans))
      (hi : s.pool[i]? = some ⟨tag, .ret a, hist⟩) :
      StepCases s (.finish i)
        { world := S.retire s.world tag a
          pool := s.pool.eraseIdx i
          returned := s.returned ++ [⟨tag, a, hist⟩] }
  | env (e : E) (w : W) (hw : S.env s.world e = some w) :
      StepCases s (.env e) { s with world := w }

variable {S}

theorem step_cases {s s' : Busy Ans α W τ} {m : Move C E τ} (h : S.step s m = some s') :
    StepCases S s m s' := by
  cases m with
  | start t =>
      rcases Option.map_eq_some_iff.mp h with ⟨w, hw, rfl⟩
      exact .start t w hw
  | advance i c =>
      simp only [step] at h
      split at h
      · rename_i tag o k hist hi
        rcases Option.map_eq_some_iff.mp h with ⟨⟨r, w⟩, hw, rfl⟩
        exact .advance i c tag o k hist r w hi hw
      · cases h
  | finish i =>
      simp only [step] at h
      split at h
      · rename_i tag a hist hi
        cases h
        exact .finish i tag a hist hi
      · cases h
  | env e =>
      rcases Option.map_eq_some_iff.mp h with ⟨w, hw, rfl⟩
      exact .env e w hw

end Service

/-! ## Orderly pools -/

section Orderly

variable {W C E τ G : Type*} {S : Service Ans α W C E τ} {T : Typestate Ans G} {start : τ → G}
  {post : τ → G → α → Prop}

/-- A call that keeps to `T`, from the ghost state its tag starts in to one its
tag may end in. -/
def Thread.Conforms (T : Typestate Ans G) (start : τ → G) (post : τ → G → α → Prop)
    (t : Thread Ans α τ) : Prop :=
  T.Conforms (post t.tag) t.prog (T.after (start t.tag) t.hist)

/-- Every call in progress keeps to `T`, and every call that has returned ended
as it may. -/
structure Orderly (T : Typestate Ans G) (start : τ → G) (post : τ → G → α → Prop)
    (s : Busy Ans α W τ) : Prop where
  pool : ∀ t ∈ s.pool, t.Conforms T start post
  returned : ∀ d ∈ s.returned, post d.tag (T.after (start d.tag) d.hist) d.val

/-- Calls whose programs conform stay orderly. -/
theorem Orderly.step (hprog : ∀ t, T.Conforms (post t) (S.prog t) (start t))
    {s s' : Busy Ans α W τ} {m : Move C E τ} (ho : Orderly T start post s)
    (h : S.step s m = some s') : Orderly T start post s' := by
  cases Service.step_cases h with
  | start t w hw =>
      refine ⟨?_, ho.returned⟩
      intro x hx
      rcases List.mem_append.mp hx with hx | hx
      · exact ho.pool x hx
      · cases List.mem_singleton.mp hx
        exact hprog t
  | advance i c tag o k hist r w hi hw =>
      refine ⟨?_, ho.returned⟩
      intro x hx
      rcases List.mem_or_eq_of_mem_set hx with hx | rfl
      · exact ho.pool x hx
      · have hc := (ho.pool _ (List.mem_of_getElem? hi)).2 r
        simpa [Thread.Conforms] using hc
  | finish i tag a hist hi =>
      refine ⟨fun x hx => ho.pool x (List.mem_of_mem_eraseIdx hx), ?_⟩
      intro d hd
      rcases List.mem_append.mp hd with hd | hd
      · exact ho.returned d hd
      · cases List.mem_singleton.mp hd
        exact ho.pool _ (List.mem_of_getElem? hi)
  | env e w hw => exact ⟨ho.pool, ho.returned⟩

/-- An operation that is next in an orderly pool is one that `T` allows. -/
theorem Orderly.pre {s : Busy Ans α W τ} (ho : Orderly T start post s) {i : ℕ} {tag : τ} {o : Op}
    {k : Ans o → Prog Ans α} {hist : List (Event Ans)}
    (hi : s.pool[i]? = some ⟨tag, .call o k, hist⟩) : T.pre (T.after (start tag) hist) o :=
  (ho.pool _ (List.mem_of_getElem? hi)).1

/-- A call that is about to return does so as it may. -/
theorem Orderly.ret {s : Busy Ans α W τ} (ho : Orderly T start post s) {i : ℕ} {tag : τ} {a : α}
    {hist : List (Event Ans)} (hi : s.pool[i]? = some ⟨tag, .ret a, hist⟩) :
    post tag (T.after (start tag) hist) a :=
  ho.pool _ (List.mem_of_getElem? hi)

end Orderly

/-- Calls whose programs perform only operations of `P` go on to do so. -/
theorem Service.only_step {W C E τ : Type*} {S : Service Ans α W C E τ} {P : Op → Prop}
    (hprog : ∀ t, (S.prog t).Only P) {s s' : Busy Ans α W τ} {m : Move C E τ}
    (ho : ∀ t ∈ s.pool, t.prog.Only P) (h : S.step s m = some s') :
    ∀ t ∈ s'.pool, t.prog.Only P := by
  cases Service.step_cases h with
  | start t w hw =>
      intro x hx
      rcases List.mem_append.mp hx with hx | hx
      · exact ho x hx
      · cases List.mem_singleton.mp hx
        exact hprog t
  | advance i c tag o k hist r w hi hw =>
      intro x hx
      rcases List.mem_or_eq_of_mem_set hx with hx | rfl
      · exact ho x hx
      · exact (ho _ (List.mem_of_getElem? hi)).2 r
  | finish i tag a hist hi => exact fun x hx => ho x (List.mem_of_mem_eraseIdx hx)
  | env e w hw => exact ho

/-! ## Accounting -/

section Accounting

variable {M : Type*} [AddCommMonoid M]

/-- What the events of `hist` contribute. -/
def tally (δ : Event Ans → M) (hist : List (Event Ans)) : M := (hist.map δ).sum

/-- A component of the ghost state that every operation moves by `δ` is a
tally. -/
theorem Typestate.after_tally {G : Type*} {T : Typestate Ans G} {δ : Event Ans → M} {π : G → M}
    (h : ∀ g o r, π (T.next g o r) = π g + δ ⟨o, r⟩) (g : G) (hist : List (Event Ans)) :
    π (T.after g hist) = π g + tally δ hist := by
  induction hist generalizing g with
  | nil => simp [tally]
  | cons e hist ih =>
      have hcons := ih (T.next g e.1 e.2)
      rw [h] at hcons
      simpa [Typestate.after, tally, add_assoc] using hcons

/-- A component that records whether some operation has met `P`. -/
theorem Typestate.after_exists {G : Type*} {T : Typestate Ans G} {P : Event Ans → Prop}
    {π : G → Prop} (h : ∀ g o r, π (T.next g o r) ↔ π g ∨ P ⟨o, r⟩) (g : G)
    (hist : List (Event Ans)) : π (T.after g hist) ↔ π g ∨ ∃ e ∈ hist, P e := by
  induction hist generalizing g with
  | nil => simp
  | cons e hist ih =>
      have hcons := ih (T.next g e.1 e.2)
      rw [h, or_assoc] at hcons
      simpa [Typestate.after] using hcons

variable {W C E τ : Type*} {S : Service Ans α W C E τ}

/-- The contribution of all calls: `enter` when they start, `δ` for each
operation, `leave` when they return. -/
def balance (δ : Event Ans → M) (enter : τ → M) (leave : τ → α → M) (s : Busy Ans α W τ) : M :=
  (s.pool.map fun t => enter t.tag + tally δ t.hist).sum +
    (s.returned.map fun d => enter d.tag + tally δ d.hist + leave d.tag d.val).sum

/-- If `Q w m` says that the accounts of `w` stand at `m`, and every change of
the world by a call keeps it with the change booked, then a step of a call keeps
it with the balance booked. -/
theorem balance_step {P : Op → Prop} {δ : Event Ans → M} {enter : τ → M} {leave : τ → α → M}
    {Q : W → M → Prop}
    (hserve : ∀ w o c r w' m, P o → Q w m → S.serve w o c = some (r, w') → Q w' (m + δ ⟨o, r⟩))
    (haccept : ∀ w t w' m, Q w m → S.accept w t = some w' → Q w' (m + enter t))
    (hretire : ∀ w t a m, Q w m → Q (S.retire w t a) (m + leave t a))
    {s s' : Busy Ans α W τ} {m : Move C E τ} {m₀ : M} (hm : m.IsCall)
    (ho : ∀ t ∈ s.pool, t.prog.Only P)
    (hq : Q s.world (m₀ + balance δ enter leave s)) (h : S.step s m = some s') :
    Q s'.world (m₀ + balance δ enter leave s') := by
  cases Service.step_cases h with
  | start t w hw =>
      have hq' := haccept _ t w _ hq hw
      have he : m₀ + balance δ enter leave s + enter t =
          m₀ + balance δ enter leave
            { s with world := w, pool := s.pool ++ [⟨t, S.prog t, []⟩] } := by
        simp only [balance, List.map_append, List.map_cons, List.map_nil, List.sum_append,
          List.sum_cons, List.sum_nil, tally]
        abel
      rw [he] at hq'
      exact hq'
  | advance i c tag o k hist r w hi hw =>
      have hq' := hserve _ o c r w _ (ho _ (List.mem_of_getElem? hi)).1 hq hw
      have hset := Table.sum_map_set (fun t : Thread Ans α τ => enter t.tag + tally δ t.hist)
        (y := ⟨tag, k r, hist ++ [⟨o, r⟩]⟩) (d := δ ⟨o, r⟩) hi
        (by simp [tally, add_assoc])
      have he : m₀ + balance δ enter leave s + δ ⟨o, r⟩ =
          m₀ + balance δ enter leave
            { s with world := w, pool := s.pool.set i ⟨tag, k r, hist ++ [⟨o, r⟩]⟩ } := by
        simp only [balance, hset]
        abel
      rw [he] at hq'
      exact hq'
  | finish i tag a hist hi =>
      have hq' := hretire _ tag a _ hq
      have hsplit := Table.sum_map_split (fun t : Thread Ans α τ => enter t.tag + tally δ t.hist) hi
      have he : m₀ + balance δ enter leave s + leave tag a =
          m₀ + balance δ enter leave
            { world := S.retire s.world tag a
              pool := s.pool.eraseIdx i
              returned := s.returned ++ [⟨tag, a, hist⟩] } := by
        simp only [balance, hsplit, List.map_append, List.map_cons, List.map_nil, List.sum_append,
          List.sum_cons, List.sum_nil]
        abel
      rw [he] at hq'
      exact hq'
  | env e w hw => cases hm

/-- After a run of calls that starts and ends with none in progress, the
accounts stand at what the calls that have returned add up to. -/
theorem balance_run {P : Op → Prop} {δ : Event Ans → M} {enter : τ → M} {leave : τ → α → M}
    {Q : W → M → Prop}
    (hserve : ∀ w o c r w' m, P o → Q w m → S.serve w o c = some (r, w') → Q w' (m + δ ⟨o, r⟩))
    (haccept : ∀ w t w' m, Q w m → S.accept w t = some w' → Q w' (m + enter t))
    (hretire : ∀ w t a m, Q w m → Q (S.retire w t a) (m + leave t a))
    (hprog : ∀ t, (S.prog t).Only P)
    {w : W} {s : Busy Ans α W τ} {ms : List (Move C E τ)} {m₀ : M} (hms : ∀ m ∈ ms, m.IsCall)
    (hq : Q w m₀) (hr : Lts.run S.step ⟨w, [], []⟩ ms = some s) (hs : s.pool = []) :
    Q s.world
      (m₀ + (s.returned.map fun d => enter d.tag + tally δ d.hist + leave d.tag d.val).sum) := by
  have hkeep : ∀ (s : Busy Ans α W τ) (m : Move C E τ) s',
      (∀ t ∈ s.pool, t.prog.Only P) ∧ Q s.world (m₀ + balance δ enter leave s) → m.IsCall →
      S.step s m = some s' →
      (∀ t ∈ s'.pool, t.prog.Only P) ∧ Q s'.world (m₀ + balance δ enter leave s') := by
    intro s m s' hi hm h
    exact ⟨Service.only_step hprog hi.1 h, balance_step hserve haccept hretire hm hi.1 hi.2 h⟩
  have hrun := Lts.run_invariant_along hkeep ?_ ((Lts.along_const hr).mpr hms) hr
  · simpa [balance, hs] using hrun.2
  · simpa [balance] using hq

end Accounting

end Interact
