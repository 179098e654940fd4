import DriversLab.Lib.Lts

/-!
# Lib.View — what one party sees of a shared system

The parties of a system act on one state, and every action is answered. `view` says which
actions concern a party, and what they are in a system that it has to itself.

* `viewed`, `heard`: the actions of a run that concern the party, and the answers to them;
* `Unwinds`: an action that concerns the party does the same in both systems and is answered
  in the same way, the others change nothing that it can see;
* `Unwinds.run`: over whole runs, the party cannot tell the shared system from its own.
-/

namespace Lts

universe u v w x y

variable {σ : Type u} {α : Type v} {τ : Type w} {β : Type x} {ω : Type y}

section Runs

variable (step : σ → α → Option σ)

/-- The answers to the actions of a run. -/
def answers (out : σ → α → ω) : σ → List α → List ω
  | _, [] => []
  | s, a :: as => out s a :: ((step s a).map fun s' => answers out s' as).getD []

/-- The actions of a run that concern the party. -/
def viewed (view : σ → α → Option β) : σ → List α → List β
  | _, [] => []
  | s, a :: as => (view s a).toList ++ ((step s a).map fun s' => viewed view s' as).getD []

/-- The answers to them. -/
def heard (view : σ → α → Option β) (out : σ → α → ω) : σ → List α → List ω
  | _, [] => []
  | s, a :: as =>
      ((view s a).map fun _ => out s a).toList ++
        ((step s a).map fun s' => heard view out s' as).getD []

end Runs

variable {shared : σ → α → Option σ} {own : τ → β → Option τ} {view : σ → α → Option β}
  {out : σ → α → ω} {ownOut : τ → β → ω} {R : σ → τ → Prop}

/-- The conditions on single actions, between related states. -/
structure Unwinds (shared : σ → α → Option σ) (own : τ → β → Option τ) (view : σ → α → Option β)
    (out : σ → α → ω) (ownOut : τ → β → ω) (R : σ → τ → Prop) : Prop where
  seen : ∀ s t a b s', R s t → view s a = some b → shared s a = some s' →
    ∃ t', own t b = some t' ∧ out s a = ownOut t b ∧ R s' t'
  unseen : ∀ s t a s', R s t → view s a = none → shared s a = some s' → R s' t

/-- A run of the shared system is, for the party, a run of its own. -/
theorem Unwinds.run (h : Unwinds shared own view out ownOut R) {s s' : σ} {t : τ} {as : List α}
    (hR : R s t) (hr : run shared s as = some s') :
    ∃ t', Lts.run own t (viewed shared view s as) = some t' ∧ R s' t' ∧
      heard shared view out s as = answers own ownOut t (viewed shared view s as) := by
  induction as generalizing s t with
  | nil =>
      cases hr
      exact ⟨t, rfl, hR, rfl⟩
  | cons a as ih =>
      rcases run_cons.mp hr with ⟨m, hm, hr'⟩
      cases hview : view s a with
      | none =>
          rcases ih (h.unseen s t a m hR hview hm) hr' with ⟨t', hrun, hR', hheard⟩
          refine ⟨t', ?_, hR', ?_⟩
          · simp only [viewed, hview, hm, Option.toList_none, List.nil_append, Option.map_some,
              Option.getD_some, hrun]
          · simp only [heard, viewed, hview, hm, Option.map_none, Option.toList_none,
              List.nil_append, Option.map_some, Option.getD_some, hheard]
      | some b =>
          rcases h.seen s t a b m hR hview hm with ⟨k, hk, hout, hRm⟩
          rcases ih hRm hr' with ⟨t', hrun, hR', hheard⟩
          have hviewed : viewed shared view s (a :: as) = b :: viewed shared view m as := by
            simp only [viewed, hview, hm, Option.toList_some, List.singleton_append,
              Option.map_some, Option.getD_some]
          rw [hviewed]
          refine ⟨t', run_cons.mpr ⟨k, hk, hrun⟩, hR', ?_⟩
          simp only [heard, answers, hview, hm, hk, Option.map_some, Option.toList_some,
            List.singleton_append, Option.getD_some, hheard, hout]

end Lts
