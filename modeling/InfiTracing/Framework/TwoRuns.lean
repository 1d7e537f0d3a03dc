import InfiTracing.Framework.Machine
import Mathlib.Data.List.Forall2

/-!
# Two runs compared

Two laws about a pair of runs, each from what single steps do.

A `Lockstep` goes through a run of one machine and a run of another side by side: every step of
the first is matched by a step of the second, or by none where nothing is observed.  What is
observed of the two agrees all along exactly in the runs whose steps meet a condition
(`Lockstep.exec`).

A `Component` is a part of a machine that acts on its own: its view of the state changes with
its own actions only, and by what it sees itself.  What is observed of it is then a function of
its own actions, whatever others do in between (`Component.traceOf_eq`,
`Component.noninterference`).
-/

namespace InfiTracing.Framework.Machine

variable {σ τ α β ω ω' : Type*}

/-! ## Lockstep -/

/-- Every step of `M` is matched by the step of `N` it counts as, and the two are observed to
agree exactly if the step meets `G`; a step that counts as none is not observed. -/
structure Lockstep (M : Machine σ α) (N : Machine τ β) (as : α → Option β)
    (obs : σ → α → Option ω) (obs' : τ → β → Option ω') (agree : ω → ω' → Prop)
    (G : σ → α → Prop) where
  rel : σ → τ → Prop
  skip : ∀ s t a s', M.Reachable s → rel s t → M.step s a = some s' → as a = none →
    obs s a = none ∧ G s a ∧ rel s' t
  step : ∀ s t a s' b, M.Reachable s → rel s t → M.step s a = some s' → as a = some b →
    ∃ t' x y, N.step t b = some t' ∧ rel s' t' ∧ obs s a = some x ∧ obs' t b = some y ∧
      (agree x y ↔ G s a)

section Lockstep

variable {M : Machine σ α} {N : Machine τ β} {as : α → Option β} {obs : σ → α → Option ω}
  {obs' : τ → β → Option ω'} {agree : ω → ω' → Prop} {G : σ → α → Prop}
  [∀ s a, Decidable (G s a)]

/-- **The law of runs in lockstep.**  The second machine can go through the run, and what is
observed of the two agrees exactly if every step of the run meets the condition. -/
theorem Lockstep.exec (L : Lockstep M N as obs obs' agree G) {s s' : σ} {t : τ} {acts : List α}
    (hs : M.Reachable s) (hrel : L.rel s t) (hrun : M.exec s acts = some s') :
    ∃ t', N.exec t (acts.filterMap as) = some t' ∧ L.rel s' t' ∧
      (List.Forall₂ agree (M.traceOf obs s acts) (N.traceOf obs' t (acts.filterMap as)) ↔
        (M.restrict G).exec s acts = some s') := by
  induction acts generalizing s t with
  | nil =>
      obtain rfl : s = s' := Option.some.inj hrun
      exact ⟨t, rfl, hrel, iff_of_true .nil rfl⟩
  | cons a acts ih =>
      obtain ⟨u, hu, hrest⟩ := Option.bind_eq_some_iff.mp hrun
      cases has : as a with
      | none =>
          obtain ⟨hobs, hG, hrel'⟩ := L.skip s t a u hs hrel hu has
          obtain ⟨t', hexec, hend, hiff⟩ := ih (.step a hs hu) hrel' hrest
          have hres : (M.restrict G).step s a = some u := restrict_step_eq_some.mpr ⟨hG, hu⟩
          refine ⟨t', by rwa [List.filterMap_cons_none has], hend, ?_⟩
          rw [traceOf_cons hu, List.filterMap_cons_none has, exec_cons, hres, hobs]
          exact hiff
      | some b =>
          obtain ⟨v, x, y, hv, hrel', hx, hy, hagree⟩ := L.step s t a u b hs hrel hu has
          obtain ⟨t', hexec, hend, hiff⟩ := ih (.step a hs hu) hrel' hrest
          refine ⟨t', ?_, hend, ?_⟩
          · rw [List.filterMap_cons_some has, exec_cons, hv]
            exact hexec
          · rw [traceOf_cons hu, List.filterMap_cons_some has, traceOf_cons hv, hx, hy, exec_cons,
              Option.toList_some, Option.toList_some, List.singleton_append,
              List.singleton_append, List.forall₂_cons, hagree, hiff]
            by_cases hG : G s a
            · rw [restrict_step_eq_some.mpr ⟨hG, hu⟩]
              exact and_iff_right hG
            · rw [show (M.restrict G).step s a = none from if_neg hG]
              exact iff_of_false (fun h => hG h.1) (by simp)

omit [∀ s a, Decidable (G s a)] in
/-- Where all steps agree, all runs do. -/
theorem Lockstep.exec_agree (L : Lockstep M N as obs obs' agree fun _ _ => True) {s s' : σ}
    {t : τ} {acts : List α} (hs : M.Reachable s) (hrel : L.rel s t)
    (hrun : M.exec s acts = some s') :
    ∃ t', N.exec t (acts.filterMap as) = some t' ∧ L.rel s' t' ∧
      List.Forall₂ agree (M.traceOf obs s acts) (N.traceOf obs' t (acts.filterMap as)) := by
  obtain ⟨t', hexec, hend, hiff⟩ := L.exec hs hrel hrun
  refine ⟨t', hexec, hend, hiff.mpr ?_⟩
  have hsame : M.restrict (fun _ _ => True) = M := by simp [restrict]
  rw [hsame]
  exact hrun

end Lockstep

/-! ## Components -/

/-- A part of `M` that takes the actions in `mine` by what it sees, and sees no others. -/
structure Component (M : Machine σ α) (mine : α → Bool) (obs : σ → α → Option ω) (τ : Type*) where
  view : σ → τ
  act : τ → α → Option (τ × Option ω)
  own : ∀ s a s', M.Reachable s → M.step s a = some s' → mine a = true →
    act (view s) a = some (view s', obs s a)
  other : ∀ s a s', M.Reachable s → M.step s a = some s' → mine a = false → view s' = view s

/-- What is observed of a component left alone with its actions. -/
def solo (act : τ → α → Option (τ × Option ω)) (v : τ) : List α → List ω
  | [] => []
  | a :: acts => (act v a).elim [] fun (v', x) => x.toList ++ solo act v' acts

/-- What is observed of the actions in `mine`. -/
def obsOf (mine : α → Bool) (obs : σ → α → Option ω) (s : σ) (a : α) : Option ω :=
  if mine a then obs s a else none

section Component

variable {M : Machine σ α} {mine : α → Bool} {obs : σ → α → Option ω}

/-- **A component is on its own.** -/
theorem Component.traceOf_eq (C : Component M mine obs τ) {s s' : σ} {acts : List α}
    (hs : M.Reachable s) (hrun : M.exec s acts = some s') :
    M.traceOf (obsOf mine obs) s acts = solo C.act (C.view s) (acts.filter mine) := by
  induction acts generalizing s with
  | nil => rfl
  | cons a acts ih =>
      obtain ⟨t, ht, hrest⟩ := Option.bind_eq_some_iff.mp hrun
      rw [traceOf_cons ht, ih (.step a hs ht) hrest, obsOf]
      cases hmine : mine a with
      | true =>
          rw [List.filter_cons_of_pos hmine, solo, C.own s a t hs ht hmine]
          rfl
      | false =>
          rw [List.filter_cons_of_neg (by simp [hmine]), C.other s a t hs ht hmine]
          rfl

/-- **Noninterference.**  In two runs from one state with the same actions of a component, the
same is observed of it. -/
theorem Component.noninterference (C : Component M mine obs τ) {s s₁ s₂ : σ}
    {acts₁ acts₂ : List α} (hs : M.Reachable s) (hrun₁ : M.exec s acts₁ = some s₁)
    (hrun₂ : M.exec s acts₂ = some s₂) (hsame : acts₁.filter mine = acts₂.filter mine) :
    M.traceOf (obsOf mine obs) s acts₁ = M.traceOf (obsOf mine obs) s acts₂ := by
  rw [C.traceOf_eq hs hrun₁, C.traceOf_eq hs hrun₂, hsame]

end Component

end InfiTracing.Framework.Machine
