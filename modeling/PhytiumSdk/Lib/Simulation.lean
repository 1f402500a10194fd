import PhytiumSdk.Lib.System

/-!
# Forward simulation

A step of one system stands for some events of another one, none, one or
several, and a relation between their states is kept. Then a run of the first is
a run of the second over the events its steps stand for.
-/

namespace Lib.System

variable {σ ε τ β : Type*} (M : System σ ε) (N : System τ β)

/-- The events of `N` a run of `M` stands for. -/
def trace (label : σ → ε → List β) : σ → List ε → List β
  | _, [] => []
  | s, e :: es => label s e ++ (M.step s e).elim [] fun t => trace label t es

/-- Every step of `M` is matched by the events it stands for. -/
structure Simulates (label : σ → ε → List β) (R : σ → τ → Prop) : Prop where
  init : ∀ s, M.init s → ∃ a, N.init a ∧ R s a
  step : ∀ s e s' a, R s a → M.step s e = some s' →
    ∃ a', N.run a (label s e) = some a' ∧ R s' a'

variable {M N} {label : σ → ε → List β} {R : σ → τ → Prop}

theorem trace_cons {s s' : σ} {e : ε} (h : M.step s e = some s') (es : List ε) :
    M.trace label s (e :: es) = label s e ++ M.trace label s' es := by
  rw [trace, h]
  rfl

theorem trace_append {s t : σ} {es : List ε} (h : M.run s es = some t) (fs : List ε) :
    M.trace label s (es ++ fs) = M.trace label s es ++ M.trace label t fs := by
  induction es generalizing s with
  | nil =>
      cases h
      rfl
  | cons e es ih =>
      rw [run_cons, Option.bind_eq_some_iff] at h
      obtain ⟨u, hu, h⟩ := h
      rw [List.cons_append, trace_cons hu, trace_cons hu, ih h, List.append_assoc]

theorem mem_trace {b : β} {s : σ} {es : List ε} (h : b ∈ M.trace label s es) :
    ∃ e ∈ es, ∃ t, b ∈ label t e := by
  induction es generalizing s with
  | nil => cases h
  | cons e es ih =>
      rcases List.mem_append.mp h with h | h
      · exact ⟨e, List.mem_cons_self, s, h⟩
      · cases hs : M.step s e with
        | none =>
            rw [hs] at h
            cases h
        | some t =>
            rw [hs] at h
            obtain ⟨e', he', hb⟩ := ih h
            exact ⟨e', List.mem_cons_of_mem e he', hb⟩

/-- **The simulation rule.** -/
theorem Simulates.run (h : Simulates M N label R) {s t : σ} {a : τ} {es : List ε} (hs : R s a)
    (hr : M.run s es = some t) : ∃ b, N.run a (M.trace label s es) = some b ∧ R t b := by
  induction es generalizing s a with
  | nil =>
      cases hr
      exact ⟨a, rfl, hs⟩
  | cons e es ih =>
      rw [run_cons, Option.bind_eq_some_iff] at hr
      obtain ⟨u, hu, hr⟩ := hr
      obtain ⟨b, hb, hub⟩ := h.step s e u a hs hu
      obtain ⟨c, hc, htc⟩ := ih hub hr
      refine ⟨c, ?_, htc⟩
      rw [trace_cons hu, run_append, hb]
      exact hc

/-- What is reached in `M` is related to something reached in `N`. -/
theorem Simulates.reachable (h : Simulates M N label R) {s : σ} (hs : M.Reachable s) :
    ∃ a, N.Reachable a ∧ R s a := by
  induction hs with
  | init hi =>
      obtain ⟨a, ha, hr⟩ := h.init _ hi
      exact ⟨a, .init ha, hr⟩
  | step _ he ih =>
      obtain ⟨a, ha, hr⟩ := ih
      obtain ⟨a', hrun, hr'⟩ := h.step _ _ _ a hr he
      exact ⟨a', ha.run hrun, hr'⟩

/-- Events that meet the condition anywhere run as before. -/
theorem run_restrict {ok : τ → β → Prop} [∀ a b, Decidable (ok a b)] {bs : List β}
    (h : ∀ b ∈ bs, ∀ a, ok a b) (a : τ) : (N.restrict ok).run a bs = N.run a bs := by
  induction bs generalizing a with
  | nil => rfl
  | cons b bs ih =>
      have hstep : (N.restrict ok).step a b = N.step a b := if_pos (h b List.mem_cons_self a)
      rw [run_cons, run_cons, hstep]
      exact Option.bind_congr fun t _ => ih (fun c hc => h c (List.mem_cons_of_mem b hc)) t

/-- **Restrictions.** If the events a good step stands for are good, the good
runs simulate the good runs. -/
theorem Simulates.restrict {ok : σ → ε → Prop} {fine : τ → β → Prop}
    [∀ s e, Decidable (ok s e)] [∀ a b, Decidable (fine a b)] (h : Simulates M N label R)
    (hfine : ∀ s e s' a, R s a → ok s e → M.step s e = some s' →
      (N.restrict fine).run a (label s e) = N.run a (label s e)) :
    Simulates (M.restrict ok) (N.restrict fine) label R := by
  refine ⟨h.init, ?_⟩
  intro s e s' a hr hs
  obtain ⟨hok, hs⟩ := restrict_step.mp hs
  obtain ⟨a', hrun, hr'⟩ := h.step s e s' a hr hs
  refine ⟨a', ?_, hr'⟩
  rw [hfine s e s' a hr hok hs]
  exact hrun

/-- What the events of a run leave is in the events of its trace. -/
theorem filterMap_trace {γ : Type*} {f : β → Option γ} {g : ε → Option γ}
    (h : ∀ s e s', M.step s e = some s' → (label s e).filterMap f = (g e).toList) {s t : σ}
    {es : List ε} (hr : M.run s es = some t) :
    (M.trace label s es).filterMap f = es.filterMap g := by
  induction es generalizing s with
  | nil => rfl
  | cons e es ih =>
      rw [run_cons, Option.bind_eq_some_iff] at hr
      obtain ⟨u, hu, hr⟩ := hr
      rw [trace_cons hu, List.filterMap_append, h s e u hu, ih hr]
      cases hg : g e with
      | none => rw [List.filterMap_cons_none hg, Option.toList_none, List.nil_append]
      | some c => rw [List.filterMap_cons_some hg, Option.toList_some, List.singleton_append]

end Lib.System
