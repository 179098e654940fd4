import DriversLab.Lib.Prog

/-!
# Lib.Wp — what a program ensures against a handler

* `Wp`: every way in which the handler can answer under the allowed choices ends
  in a result that meets the postcondition. The rules follow the program;
  `wp_exec` brings the postcondition to an execution.
* `play`: a program run against an unbounded supply of choices, of which it uses
  as many as it performs operations. It is for statements that compare two runs
  of different lengths, and for those that say that a program returns.
-/

namespace Interact

universe u v w

variable {Op : Type u} {Ans : Op → Type v} {α β : Type w} {W C : Type*}

/-! ## Weakest preconditions -/

/-- Whatever allowed choices the handler gets, the program ends as `Q` says, if
it ends. -/
def Wp (h : Handler Ans W C) (allowed : C → Prop) : Prog Ans α → W → (α → W → Prop) → Prop
  | .ret a, w, Q => Q a w
  | .call o k, w, Q => ∀ c r m, allowed c → h w o c = some (r, m) → Wp h allowed (k r) m Q

variable {h : Handler Ans W C} {allowed : C → Prop} {w : W}

@[simp] theorem wp_ret {a : α} {Q : α → W → Prop} : Wp h allowed (.ret a) w Q ↔ Q a w := Iff.rfl

theorem wp_call {o : Op} {k : Ans o → Prog Ans α} {Q : α → W → Prop} :
    Wp h allowed (.call o k) w Q ↔
      ∀ c r m, allowed c → h w o c = some (r, m) → Wp h allowed (k r) m Q := Iff.rfl

theorem wp_mono {p : Prog Ans α} {Q R : α → W → Prop} (hQR : ∀ a m, Q a m → R a m)
    (hp : Wp h allowed p w Q) : Wp h allowed p w R := by
  induction p generalizing w with
  | ret a => exact hQR a w hp
  | call o k ih =>
      intro c r m hc hr
      exact ih r (hp c r m hc hr)

theorem wp_bind {p : Prog Ans α} {f : α → Prog Ans β} {Q : β → W → Prop} :
    Wp h allowed (p.bind f) w Q ↔ Wp h allowed p w fun a m => Wp h allowed (f a) m Q := by
  induction p generalizing w with
  | ret a => exact Iff.rfl
  | call o k ih =>
      simp only [Prog.call_bind, wp_call]
      constructor
      · intro hp c r m hc hr
        exact (ih r).mp (hp c r m hc hr)
      · intro hp c r m hc hr
        exact (ih r).mpr (hp c r m hc hr)

/-- The first part, known to end as `Q` says, followed by the second. -/
theorem wp_seq {p : Prog Ans α} {f : α → Prog Ans β} {Q : α → W → Prop} {R : β → W → Prop}
    (hp : Wp h allowed p w Q) (hf : ∀ a m, Q a m → Wp h allowed (f a) m R) :
    Wp h allowed (p.bind f) w R :=
  wp_bind.mpr (wp_mono hf hp)

/-- What is ensured holds at the end of an execution. -/
theorem wp_exec {p : Prog Ans α} {Q : α → W → Prop} {a : α} {w' : W} {cs : List C}
    {l : List (Entry Op W C)} (hp : Wp h allowed p w Q) (hcs : ∀ c ∈ cs, allowed c)
    (he : exec h p w cs = some (a, w', l)) : Q a w' := by
  induction p generalizing w cs l with
  | ret b =>
      rcases exec_ret.mp he with ⟨-, rfl, rfl, -⟩
      exact hp
  | call o k ih =>
      rcases exec_call.mp he with ⟨c, cs', r, m, l', rfl, hr, he', -⟩
      rcases List.forall_mem_cons.mp hcs with ⟨hc, hcs'⟩
      exact ih r (hp c r m hc hr) hcs' he'

/-! ## Runs against a supply of choices -/

/-- Run a program; operation `i` is answered under the choice `cs i`. -/
def play (h : Handler Ans W C) : Prog Ans α → W → (ℕ → C) → Option (α × W × List (Entry Op W C))
  | .ret a, w, _ => some (a, w, [])
  | .call o k, w, cs =>
      (h w o (cs 0)).bind fun x =>
        (play h (k x.1) x.2 fun i => cs (i + 1)).map fun e => (e.1, e.2.1, ⟨w, o, cs 0⟩ :: e.2.2)

theorem play_call {o : Op} {k : Ans o → Prog Ans α} {cs : ℕ → C}
    {x : α × W × List (Entry Op W C)} :
    play h (.call o k) w cs = some x ↔
      ∃ r m e, h w o (cs 0) = some (r, m) ∧ play h (k r) m (fun i => cs (i + 1)) = some e ∧
        x = (e.1, e.2.1, ⟨w, o, cs 0⟩ :: e.2.2) := by
  simp only [play, Option.bind_eq_some_iff, Option.map_eq_some_iff, Prod.exists]
  constructor
  · rintro ⟨r, m, hr, a, m', l, he, rfl⟩
    exact ⟨r, m, a, m', l, hr, he, rfl⟩
  · rintro ⟨r, m, a, m', l, hr, he, rfl⟩
    exact ⟨r, m, hr, a, m', l, he, rfl⟩

theorem play_call_isSome {o : Op} {k : Ans o → Prog Ans α} {cs : ℕ → C} :
    (play h (.call o k) w cs).isSome = true ↔
      ∃ r m, h w o (cs 0) = some (r, m) ∧ (play h (k r) m fun i => cs (i + 1)).isSome = true := by
  constructor
  · intro hs
    rcases Option.isSome_iff_exists.mp hs with ⟨x, hx⟩
    rcases play_call.mp hx with ⟨r, m, e, hr, he, -⟩
    exact ⟨r, m, hr, Option.isSome_iff_exists.mpr ⟨e, he⟩⟩
  · rintro ⟨r, m, hr, hs⟩
    rcases Option.isSome_iff_exists.mp hs with ⟨e, he⟩
    exact Option.isSome_iff_exists.mpr ⟨_, play_call.mpr ⟨r, m, e, hr, he, rfl⟩⟩

/-- A sequence returns when its first part does and its second does after it. -/
theorem play_bind_isSome {p : Prog Ans α} {f : α → Prog Ans β} {cs : ℕ → C} {P : C → Prop}
    (hcs : ∀ i, P (cs i)) (hp : (play h p w cs).isSome = true)
    (hf : ∀ a m ds, (∀ i, P (ds i)) → (play h (f a) m ds).isSome = true) :
    (play h (p.bind f) w cs).isSome = true := by
  induction p generalizing w cs with
  | ret a => exact hf a w cs hcs
  | call o k ih =>
      rcases play_call_isSome.mp hp with ⟨r, m, hr, hs⟩
      exact play_call_isSome.mpr ⟨r, m, hr, ih r (fun i => hcs (i + 1)) hs⟩

/-- A sequence whose first part does not return does not either. -/
theorem play_bind_isSome_left {p : Prog Ans α} {f : α → Prog Ans β} {cs : ℕ → C}
    (hp : (play h (p.bind f) w cs).isSome = true) : (play h p w cs).isSome = true := by
  induction p generalizing w cs with
  | ret a => rfl
  | call o k ih =>
      rcases play_call_isSome.mp hp with ⟨r, m, hr, hs⟩
      exact play_call_isSome.mpr ⟨r, m, hr, ih r hs⟩

/-- The run returns `a` in the world `w'` after `n` operations. -/
def Plays (h : Handler Ans W C) (p : Prog Ans α) (w : W) (cs : ℕ → C) (a : α) (w' : W) (n : ℕ) :
    Prop :=
  ∃ l, play h p w cs = some (a, w', l) ∧ l.length = n

section Plays

variable {cs : ℕ → C} {w' m : W} {n n' : ℕ}

theorem plays_ret (a : α) : Plays h (.ret a) w cs a w 0 := ⟨[], rfl, rfl⟩

theorem plays_call {o : Op} {k : Ans o → Prog Ans α} {r : Ans o} {a : α}
    (hr : h w o (cs 0) = some (r, m)) (hp : Plays h (k r) m (fun i => cs (i + 1)) a w' n) :
    Plays h (.call o k) w cs a w' (n + 1) := by
  rcases hp with ⟨l, hp, rfl⟩
  exact ⟨_, play_call.mpr ⟨r, m, _, hr, hp, rfl⟩, rfl⟩

theorem plays_bind {p : Prog Ans α} {f : α → Prog Ans β} {a : α} {b : β}
    (hp : Plays h p w cs a m n) (hf : Plays h (f a) m (fun i => cs (i + n)) b w' n') :
    Plays h (p.bind f) w cs b w' (n + n') := by
  induction p generalizing w cs n with
  | ret a' =>
      rcases hp with ⟨l, hp, rfl⟩
      simp only [play, Option.some.injEq, Prod.mk.injEq] at hp
      rcases hp with ⟨rfl, rfl, rfl⟩
      rw [List.length_nil, Nat.zero_add]
      exact hf
  | call o k ih =>
      rcases hp with ⟨l, hp, rfl⟩
      rcases play_call.mp hp with ⟨r, m', ⟨a', w'', l'⟩, hr, hrest, hx⟩
      simp only [Prod.mk.injEq] at hx
      rcases hx with ⟨rfl, rfl, rfl⟩
      have hnext := ih r ⟨l', hrest, rfl⟩ (by
        simpa only [List.length_cons, Nat.add_assoc, Nat.add_comm 1] using hf)
      have hcall : Plays h (.call o fun r => (k r).bind f) w cs b w' (l'.length + n' + 1) :=
        plays_call hr hnext
      rwa [Nat.add_right_comm] at hcall

theorem Plays.play {p : Prog Ans α} {a : α} (hp : Plays h p w cs a w' n) :
    ∃ l, Interact.play h p w cs = some (a, w', l) :=
  hp.imp fun _ hl => hl.1

end Plays

end Interact
