import DriversLab.Lib.Lts

/-!
# Lib.Simulation — a fine system seen through a coarse one

A system with more steps is simulated by one with fewer when each of its steps is matched by
a run of the other between related states, often an empty one. Whatever is known of the runs
of the coarse system then holds of the fine one.

* `Simulated`, `Simulated.run`: the relation between the steps, and that it carries over to
  whole runs with a condition on the actions;
* `run_map`: an action of the fine system that changes many processes at once, as a run of
  the coarse system that changes them one by one.
-/

namespace Lts

universe u v w x y

variable {σ : Type u} {α : Type v} {τ : Type w} {β : Type x}

/-- Each step of `fine` is matched by a run of `coarse`, of actions that `allows` says may
stand for it. -/
def Simulated (fine : σ → α → Option σ) (coarse : τ → β → Option τ) (R : σ → τ → Prop)
    (allows : α → β → Prop) : Prop :=
  ∀ s t a s', R s t → fine s a = some s' →
    ∃ bs t', run coarse t bs = some t' ∧ (∀ b ∈ bs, allows a b) ∧ R s' t'

variable {fine : σ → α → Option σ} {coarse : τ → β → Option τ} {R : σ → τ → Prop}
  {allows : α → β → Prop}

/-- Steps chain up to runs. -/
theorem Simulated.run (h : Simulated fine coarse R allows) {s s' : σ} {t : τ} {as : List α}
    (hR : R s t) (hr : run fine s as = some s') :
    ∃ bs t', run coarse t bs = some t' ∧ (∀ b ∈ bs, ∃ a ∈ as, allows a b) ∧ R s' t' := by
  induction as generalizing s t with
  | nil =>
      cases hr
      exact ⟨[], t, rfl, by simp, hR⟩
  | cons a as ih =>
      rcases run_cons.mp hr with ⟨m, hm, hr'⟩
      rcases h s t a m hR hm with ⟨bs, k, hbs, hallow, hRm⟩
      rcases ih hRm hr' with ⟨cs, t', hcs, hallow', hR'⟩
      refine ⟨bs ++ cs, t', run_append.mpr ⟨k, hbs, hcs⟩, ?_, hR'⟩
      intro b hb
      rcases List.mem_append.mp hb with hin | hin
      · exact ⟨a, List.mem_cons_self, hallow b hin⟩
      · rcases hallow' b hin with ⟨a', ha', hab⟩
        exact ⟨a', List.mem_cons_of_mem _ ha', hab⟩

/-- What one process can do wherever it stands, all can do one after the other. -/
theorem run_map {ι : Type*} {ω : Type y} {m : List ω → τ} {f g : ι → ω} {P : β → Prop}
    (hone : ∀ pre z post, ∃ bs, run coarse (m (pre ++ f z :: post)) bs =
      some (m (pre ++ g z :: post)) ∧ ∀ b ∈ bs, P b) (l : List ι) :
    ∃ bs, run coarse (m (l.map f)) bs = some (m (l.map g)) ∧ ∀ b ∈ bs, P b := by
  -- the processes in front have had their turn
  have hfrom : ∀ pre : List ω, ∃ bs, run coarse (m (pre ++ l.map f)) bs =
      some (m (pre ++ l.map g)) ∧ ∀ b ∈ bs, P b := by
    induction l with
    | nil => exact fun pre => ⟨[], rfl, by simp⟩
    | cons z l ih =>
        intro pre
        rcases hone pre z (l.map f) with ⟨bs, hbs, hP⟩
        rcases ih (pre ++ [g z]) with ⟨cs, hcs, hP'⟩
        simp only [List.append_assoc, List.cons_append, List.nil_append] at hcs
        refine ⟨bs ++ cs, run_append.mpr ⟨_, hbs, hcs⟩, ?_⟩
        intro b hb
        rcases List.mem_append.mp hb with hin | hin
        · exact hP b hin
        · exact hP' b hin
  exact hfrom []

end Lts
