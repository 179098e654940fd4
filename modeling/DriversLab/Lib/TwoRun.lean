import DriversLab.Lib.Prog

/-!
# Lib.TwoRun — two runs of programs, side by side

An environment answers the operations that meet `P`. A program that performs no other
operation has one result and one trace in it. Two programs in two environments are
`Related` when what can be seen of their traces is the same and their results are in a
relation. The rules follow the program.
-/

namespace Interact

universe u v w

variable {Op : Type u} {Ans : Op → Type v} {P : Op → Prop} {α β α' β' : Type w}

namespace Prog

section Run

variable (env : (o : Op) → P o → Ans o)

/-- What the program returns in an environment. -/
def eval : (p : Prog Ans α) → p.Only P → α
  | .ret a, _ => a
  | .call o k, h => (k (env o h.1)).eval (h.2 _)

/-- The operations that it performs there. -/
def trace : (p : Prog Ans α) → p.Only P → List Op
  | .ret _, _ => []
  | .call o k, h => o :: (k (env o h.1)).trace (h.2 _)

end Run

variable {env : (o : Op) → P o → Ans o}

@[simp] theorem eval_ret {a : α} {h : (ret a : Prog Ans α).Only P} :
    (ret a).eval env h = a := rfl

@[simp] theorem eval_call {o : Op} {k : Ans o → Prog Ans α} {h : (call o k).Only P} :
    (call o k).eval env h = (k (env o h.1)).eval env (h.2 _) := rfl

@[simp] theorem trace_ret {a : α} {h : (ret a : Prog Ans α).Only P} :
    (ret a).trace env h = [] := rfl

@[simp] theorem trace_call {o : Op} {k : Ans o → Prog Ans α} {h : (call o k).Only P} :
    (call o k).trace env h = o :: (k (env o h.1)).trace env (h.2 _) := rfl

theorem only_of_bind {p : Prog Ans α} {f : α → Prog Ans β} (h : (p.bind f).Only P) :
    p.Only P := by
  induction p with
  | ret a => trivial
  | call o k ih => exact ⟨h.1, fun r => ih r (h.2 r)⟩

theorem only_rest {p : Prog Ans α} {f : α → Prog Ans β} (h : (p.bind f).Only P) :
    (f (p.eval env (only_of_bind h))).Only P := by
  induction p with
  | ret a => exact h
  | call o k ih => exact ih _ (h.2 _)

theorem eval_bind {p : Prog Ans α} {f : α → Prog Ans β} (h : (p.bind f).Only P) :
    (p.bind f).eval env h = (f (p.eval env (only_of_bind h))).eval env (only_rest h) := by
  induction p with
  | ret a => rfl
  | call o k ih => exact ih _ (h.2 _)

theorem trace_bind {p : Prog Ans α} {f : α → Prog Ans β} (h : (p.bind f).Only P) :
    (p.bind f).trace env h = p.trace env (only_of_bind h) ++
      (f (p.eval env (only_of_bind h))).trace env (only_rest h) := by
  induction p with
  | ret a => rfl
  | call o k ih => exact congrArg (o :: ·) (ih _ (h.2 _))

end Prog

open Prog

variable {V : Type*} (view : Op → Option V) (env env' : (o : Op) → P o → Ans o)

/-- What can be seen of the two runs is the same, and the results are related. -/
structure Related (R : α → α' → Prop) (p : Prog Ans α) (hp : p.Only P) (q : Prog Ans α')
    (hq : q.Only P) : Prop where
  seen : (p.trace env hp).filterMap view = (q.trace env' hq).filterMap view
  results : R (p.eval env hp) (q.eval env' hq)

variable {view env env'} {R : α → α' → Prop} {S : β → β' → Prop}

theorem related_ret {a : α} {b : α'} {ha : (ret a : Prog Ans α).Only P}
    {hb : (ret b : Prog Ans α').Only P} (h : R a b) :
    Related view env env' R (.ret a) ha (.ret b) hb :=
  ⟨rfl, h⟩

/-- One operation on each side, which look the same, with related answers. -/
theorem related_call {o o' : Op} (A : Ans o → Ans o' → Prop) {k : Ans o → Prog Ans α}
    {k' : Ans o' → Prog Ans α'} {hp : (call o k).Only P} {hq : (call o' k').Only P}
    (hview : view o = view o') (hans : A (env o hp.1) (env' o' hq.1))
    (h : ∀ r r', A r r' → Related view env env' R (k r) (hp.2 r) (k' r') (hq.2 r')) :
    Related view env env' R (.call o k) hp (.call o' k') hq := by
  have hrest := h _ _ hans
  refine ⟨?_, hrest.results⟩
  simp only [trace_call, List.filterMap_cons, hview, hrest.seen]

/-- The same operation on each side, with the same answer. -/
theorem related_same {o : Op} {k : Ans o → Prog Ans α} {k' : Ans o → Prog Ans α'}
    {hp : (call o k).Only P} {hq : (call o k').Only P} (henv : env o = env' o)
    (h : ∀ r, Related view env env' R (k r) (hp.2 r) (k' r) (hq.2 r)) :
    Related view env env' R (.call o k) hp (.call o k') hq := by
  refine related_call (· = ·) rfl (congrFun henv _) ?_
  intro r r' heq
  subst heq
  exact h r

theorem related_bind {p : Prog Ans α} {q : Prog Ans α'} {f : α → Prog Ans β}
    {g : α' → Prog Ans β'} {hf : (p.bind f).Only P} {hg : (q.bind g).Only P}
    (hp : Related view env env' R p (only_of_bind hf) q (only_of_bind hg))
    (hrest : ∀ a b, R a b → ∀ ha hb, Related view env env' S (f a) ha (g b) hb) :
    Related view env env' S (p.bind f) hf (q.bind g) hg := by
  have hnext := hrest _ _ hp.results (only_rest hf) (only_rest hg)
  refine ⟨?_, ?_⟩
  · simp only [trace_bind, List.filterMap_append, hp.seen, hnext.seen]
  · simp only [eval_bind]
    exact hnext.results

end Interact
