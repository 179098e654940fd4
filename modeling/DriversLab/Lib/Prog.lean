import Mathlib.Tactic.Common
import Mathlib.Data.List.Basic
import Mathlib.Algebra.BigOperators.Group.List.Basic

/-!
# Lib.Prog — programs that talk to an environment

A program either returns or performs one operation and goes on with its
answer. The operations are uninterpreted; a `Handler` answers them from a
world and from a choice of the environment, and may refuse (`none`): then the
program is blocked.

1. **Execution**: `exec` runs a program against a script that holds one choice
   for each operation performed, and logs every operation with the world it
   met.
2. **Typestate**: a `Typestate` follows what a program has done so far in a
   ghost state; `Conforms` says that every branch of the program keeps to it.
-/

namespace Interact

universe u v w

/-- Programs over the operations `Op`, where `o` is answered by an `Ans o`. -/
inductive Prog {Op : Type u} (Ans : Op → Type v) (α : Type w) where
  | ret (a : α)
  | call (o : Op) (k : Ans o → Prog Ans α)

variable {Op : Type u} {Ans : Op → Type v} {α β : Type w}

namespace Prog

/-- Sequencing. -/
def bind : Prog Ans α → (α → Prog Ans β) → Prog Ans β
  | .ret a, f => f a
  | .call o k, f => .call o fun r => (k r).bind f

instance : Monad (Prog Ans) where
  pure := .ret
  bind := bind

/-- Perform one operation and return its answer. -/
def perform (o : Op) : Prog Ans (Ans o) := .call o .ret

@[simp] theorem pure_eq (a : α) : (pure a : Prog Ans α) = .ret a := rfl

@[simp] theorem bind_eq (p : Prog Ans α) (f : α → Prog Ans β) : p >>= f = p.bind f := rfl

@[simp] theorem ret_bind (a : α) (f : α → Prog Ans β) : (ret a : Prog Ans α).bind f = f a := rfl

@[simp] theorem call_bind (o : Op) (k : Ans o → Prog Ans α) (f : α → Prog Ans β) :
    (call o k).bind f = call o fun r => (k r).bind f := rfl

@[simp] theorem map_eq (p : Prog Ans α) (f : α → β) : f <$> p = p.bind fun a => .ret (f a) := rfl

theorem bind_assoc {γ : Type w} (p : Prog Ans α) (f : α → Prog Ans β) (g : β → Prog Ans γ) :
    (p.bind f).bind g = p.bind fun a => (f a).bind g := by
  induction p with
  | ret a => rfl
  | call o k ih =>
      simp only [call_bind]
      exact congrArg (call o) (funext fun r => ih r)

/-- The result of a program that has returned. -/
def result? : Prog Ans α → Option α
  | .ret a => some a
  | .call _ _ => none

theorem result?_eq_some {p : Prog Ans α} {a : α} : p.result? = some a ↔ p = .ret a := by
  cases p with
  | ret b => simp [result?]
  | call o k => simp [result?]

/-- Every operation that some branch of the program performs meets `P`. -/
def Only (P : Op → Prop) : Prog Ans α → Prop
  | .ret _ => True
  | .call o k => P o ∧ ∀ r, Only P (k r)

@[simp] theorem only_ret {P : Op → Prop} (a : α) : Only P (.ret a : Prog Ans α) := trivial

@[simp] theorem only_call {P : Op → Prop} {o : Op} {k : Ans o → Prog Ans α} :
    Only P (.call o k) ↔ P o ∧ ∀ r, Only P (k r) := Iff.rfl

theorem only_bind {P : Op → Prop} {p : Prog Ans α} {f : α → Prog Ans β} (hp : Only P p)
    (hf : ∀ a, Only P (f a)) : Only P (p.bind f) := by
  induction p with
  | ret a => exact hf a
  | call o k ih => exact ⟨hp.1, fun r => ih r (hp.2 r)⟩

theorem only_mono {P Q : Op → Prop} (h : ∀ o, P o → Q o) {p : Prog Ans α} (hp : Only P p) :
    Only Q p := by
  induction p with
  | ret a => trivial
  | call o k ih => exact ⟨h o hp.1, fun r => ih r (hp.2 r)⟩

/-- Every branch of the program returns a result that meets `Q`. -/
def Returns (Q : α → Prop) : Prog Ans α → Prop
  | .ret a => Q a
  | .call _ k => ∀ r, Returns Q (k r)

theorem returns_true (p : Prog Ans α) : p.Returns fun _ => True := by
  induction p with
  | ret a => trivial
  | call o k ih => exact ih

theorem returns_bind {P : α → Prop} {Q : β → Prop} {p : Prog Ans α} {f : α → Prog Ans β}
    (hp : p.Returns P) (hf : ∀ a, P a → (f a).Returns Q) : (p.bind f).Returns Q := by
  induction p with
  | ret a => exact hf a hp
  | call o k ih => exact fun r => ih r (hp r)

end Prog

/-! ## Execution against a script -/

/-- How an environment answers: from a world and a choice, or not at all. -/
abbrev Handler (Ans : Op → Type v) (W C : Type*) := W → (o : Op) → C → Option (Ans o × W)

/-- One operation of an execution, with the world it met and the choice made. -/
structure Entry (Op W C : Type*) where
  before : W
  op : Op
  choice : C

section Exec

variable {W C : Type*} (h : Handler Ans W C)

/-- Run a program on a script that answers its operations one by one and is
used up exactly when the program returns. -/
def exec : Prog Ans α → W → List C → Option (α × W × List (Entry Op W C))
  | .ret a, w, [] => some (a, w, [])
  | .ret _, _, _ :: _ => none
  | .call _ _, _, [] => none
  | .call o k, w, c :: cs =>
      (h w o c).bind fun a => (exec (k a.1) a.2 cs).map fun e => (e.1, e.2.1, ⟨w, o, c⟩ :: e.2.2)

variable {h}

theorem exec_ret {a b : α} {w w' : W} {cs : List C} {l : List (Entry Op W C)} :
    exec h (.ret a : Prog Ans α) w cs = some (b, w', l) ↔
      cs = [] ∧ b = a ∧ w' = w ∧ l = [] := by
  cases cs with
  | nil => simp [exec, eq_comm]
  | cons c cs => simp [exec]

theorem exec_call {o : Op} {k : Ans o → Prog Ans α} {b : α} {w w' : W} {cs : List C}
    {l : List (Entry Op W C)} :
    exec h (.call o k) w cs = some (b, w', l) ↔
      ∃ c cs' r m l', cs = c :: cs' ∧ h w o c = some (r, m) ∧
        exec h (k r) m cs' = some (b, w', l') ∧ l = ⟨w, o, c⟩ :: l' := by
  cases cs with
  | nil => simp [exec]
  | cons c cs =>
      simp only [exec, Option.bind_eq_some_iff, Option.map_eq_some_iff, Prod.exists,
        Prod.mk.injEq, List.cons.injEq]
      constructor
      · rintro ⟨r, m, hh, b', m', l', he, rfl, rfl, rfl⟩
        exact ⟨c, cs, r, m, l', ⟨rfl, rfl⟩, hh, he, rfl⟩
      · rintro ⟨c', cs', r, m, l', ⟨rfl, rfl⟩, hh, he, rfl⟩
        exact ⟨r, m, hh, b, w', l', he, rfl, rfl, rfl⟩

/-- An execution of a sequence splits at the point where its first part
returns. -/
theorem exec_bind {p : Prog Ans α} {f : α → Prog Ans β} {b : β} {w w' : W} {cs : List C}
    {l : List (Entry Op W C)} :
    exec h (p.bind f) w cs = some (b, w', l) ↔
      ∃ a m cs₁ cs₂ l₁ l₂, cs = cs₁ ++ cs₂ ∧ exec h p w cs₁ = some (a, m, l₁) ∧
        exec h (f a) m cs₂ = some (b, w', l₂) ∧ l = l₁ ++ l₂ := by
  induction p generalizing w cs l with
  | ret a =>
      simp only [Prog.ret_bind, exec_ret]
      constructor
      · intro he
        exact ⟨a, w, [], cs, [], l, rfl, ⟨rfl, rfl, rfl, rfl⟩, he, rfl⟩
      · rintro ⟨a', m, cs₁, cs₂, l₁, l₂, rfl, ⟨rfl, rfl, rfl, rfl⟩, he, rfl⟩
        exact he
  | call o k ih =>
      simp only [Prog.call_bind, exec_call, ih]
      constructor
      · rintro ⟨c, cs', r, m, l', rfl, hh, ⟨a, m', cs₁, cs₂, l₁, l₂, rfl, he₁, he₂, rfl⟩, rfl⟩
        exact ⟨a, m', c :: cs₁, cs₂, _ :: l₁, l₂, rfl, ⟨c, cs₁, r, m, l₁, rfl, hh, he₁, rfl⟩,
          he₂, rfl⟩
      · rintro ⟨a, m', cs₁, cs₂, l₁, l₂, rfl, ⟨c, cs', r, m, l', rfl, hh, he₁, rfl⟩, he₂, rfl⟩
        exact ⟨c, cs' ++ cs₂, r, m, l' ++ l₂, rfl, hh,
          ⟨a, m', cs', cs₂, l', l₂, rfl, he₁, he₂, rfl⟩, rfl⟩

/-- The log holds operations of the program only. -/
theorem Prog.Only.exec {P : Op → Prop} {p : Prog Ans α} {a : α} {w w' : W} {cs : List C}
    {l : List (Entry Op W C)} (hp : p.Only P) (he : Interact.exec h p w cs = some (a, w', l)) :
    ∀ e ∈ l, P e.op := by
  induction p generalizing w cs l with
  | ret b =>
      rcases exec_ret.mp he with ⟨-, -, -, rfl⟩
      exact fun _ hmem => absurd hmem List.not_mem_nil
  | call o k ih =>
      rcases exec_call.mp he with ⟨c, cs', r, m, l', -, -, he', rfl⟩
      exact List.forall_mem_cons.mpr ⟨hp.1, ih r (hp.2 r) he'⟩

theorem Prog.Returns.exec {Q : α → Prop} {p : Prog Ans α} {a : α} {w w' : W} {cs : List C}
    {l : List (Entry Op W C)} (hp : p.Returns Q) (he : Interact.exec h p w cs = some (a, w', l)) :
    Q a := by
  induction p generalizing w cs l with
  | ret b =>
      rcases exec_ret.mp he with ⟨-, rfl, -⟩
      exact hp
  | call o k ih =>
      rcases exec_call.mp he with ⟨c, cs', r, m, l', -, -, he', -⟩
      exact ih r (hp r) he'

end Exec

end Interact
