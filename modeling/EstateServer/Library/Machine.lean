import Mathlib.Data.List.Basic

/-!
# Labelled machines and their runs

A machine takes labelled steps: `next s a` is the state after the step `a`, when that step is
enabled in `s`.  All the choices of a step are in its label, so `next` is a function and a run can
be computed from its labels (`exec`).

A run (`Run C s tr t`) records every step with the states around it; `C` is a condition that all
its steps meet.  The rules are `Run.invariant` (what every step keeps, a run keeps),
`Run.trace_invariant` (the same for a property of the steps taken so far) and `Run.split`
(a run around one of its steps).
-/

/-- A labelled machine. -/
structure Machine (σ α : Type*) where
  /-- The states a run may start from. -/
  start : σ → Prop
  /-- The state after a step, when the step is enabled. -/
  next : σ → α → Option σ

namespace Machine

/-- One step of a run, with the states around it. -/
structure Step (σ α : Type*) where
  pre : σ
  label : α
  post : σ

variable {σ α : Type*} (M : Machine σ α)

/-- A finite run from `s` to `t` with the steps `tr`, each of which meets `C`. -/
inductive Run (C : σ → α → Prop) : σ → List (Step σ α) → σ → Prop
  | refl (s : σ) : Run C s [] s
  | snoc {s t u : σ} {tr : List (Step σ α)} {a : α} (run : Run C s tr t) (meets : C t a)
      (step : M.next t a = some u) : Run C s (tr ++ [⟨t, a, u⟩]) u

/-- The condition that every step meets. -/
def Any (_ : σ) (_ : α) : Prop := True

/-- A state that some run reaches from a start state. -/
def Reachable (C : σ → α → Prop) (s : σ) : Prop := ∃ s₀ tr, M.start s₀ ∧ M.Run C s₀ tr s

variable {M} {C : σ → α → Prop} {s t u : σ} {tr tr' : List (Step σ α)}

namespace Run

theorem single {a : α} (meets : C s a) (step : M.next s a = some t) : M.Run C s [⟨s, a, t⟩] t :=
  .snoc (.refl s) meets step

theorem trans (run : M.Run C s tr t) (run' : M.Run C t tr' u) : M.Run C s (tr ++ tr') u := by
  induction run' with
  | refl => rwa [List.append_nil]
  | snoc _ meets step ih =>
    rw [← List.append_assoc]
    exact .snoc ih meets step

theorem mono {D : σ → α → Prop} (run : M.Run C s tr t) (h : ∀ s a, C s a → D s a) :
    M.Run D s tr t := by
  induction run with
  | refl => exact .refl s
  | snoc _ meets step ih => exact .snoc ih (h _ _ meets) step

/-- What every step keeps, a run keeps. -/
theorem invariant {I : σ → Prop} (keep : ∀ s a t, I s → C s a → M.next s a = some t → I t)
    (run : M.Run C s tr t) (h : I s) : I t := by
  induction run with
  | refl => exact h
  | snoc _ meets step ih => exact keep _ _ _ ih meets step

/-- A property of the steps taken so far and the state reached, kept by every further step. -/
theorem trace_invariant {I : List (Step σ α) → σ → Prop}
    (keep : ∀ tr s a t, I tr s → C s a → M.next s a = some t → I (tr ++ [⟨s, a, t⟩]) t)
    (run : M.Run C s tr t) (h : I [] s) : I tr t := by
  induction run with
  | refl => exact h
  | snoc _ meets step ih => exact keep _ _ _ _ ih meets step

theorem next_of_mem {st : Step σ α} (run : M.Run C s tr t) (h : st ∈ tr) :
    M.next st.pre st.label = some st.post := by
  induction run with
  | refl => cases h
  | snoc _ _ step ih =>
    rcases List.mem_append.1 h with h | h
    · exact ih h
    · rw [List.mem_singleton.1 h]
      exact step

theorem meets_of_mem {st : Step σ α} (run : M.Run C s tr t) (h : st ∈ tr) : C st.pre st.label := by
  induction run with
  | refl => cases h
  | snoc _ meets _ ih =>
    rcases List.mem_append.1 h with h | h
    · exact ih h
    · rw [List.mem_singleton.1 h]
      exact meets

/-- A condition that the steps of a run turn out to meet. -/
theorem restrict {D : σ → α → Prop} (run : M.Run C s tr t) (h : ∀ st ∈ tr, D st.pre st.label) :
    M.Run D s tr t := by
  induction run with
  | refl => exact .refl s
  | snoc _ _ step ih =>
    refine .snoc (ih fun st hst => h st (List.mem_append_left _ hst)) ?_ step
    exact h _ List.mem_concat_self

/-- A run around one of its steps. -/
theorem split {st : Step σ α} (run : M.Run C s (tr ++ st :: tr') t) :
    M.Run C s tr st.pre ∧ M.Run C st.post tr' t := by
  generalize h : tr ++ st :: tr' = steps at run
  induction run generalizing tr' with
  | refl => simp at h
  | @snoc v w trv a run meets step ih =>
    rcases List.eq_nil_or_concat tr' with rfl | ⟨init, last, rfl⟩
    · obtain ⟨rfl, last⟩ := List.append_inj' h rfl
      obtain rfl := List.singleton_inj.1 last
      exact ⟨run, .refl _⟩
    · rw [List.concat_eq_append, ← List.cons_append, ← List.append_assoc] at h
      obtain ⟨front, back⟩ := List.append_inj' h rfl
      obtain rfl := List.singleton_inj.1 back
      obtain ⟨left, right⟩ := ih front
      exact ⟨left, by rw [List.concat_eq_append]; exact .snoc right meets step⟩

/-- An invariant before a step of the run. -/
theorem invariant_of_mem {I : σ → Prop} {st : Step σ α}
    (keep : ∀ s a t, I s → C s a → M.next s a = some t → I t) (run : M.Run C s tr t) (h : I s)
    (mem : st ∈ tr) : I st.pre := by
  obtain ⟨front, back, rfl⟩ := List.append_of_mem mem
  exact run.split.1.invariant keep h

end Run

namespace Reachable

theorem invariant {I : σ → Prop} (init : ∀ s, M.start s → I s)
    (keep : ∀ s a t, I s → C s a → M.next s a = some t → I t) (h : M.Reachable C s) : I s := by
  obtain ⟨s₀, tr, h₀, run⟩ := h
  exact run.invariant keep (init _ h₀)

end Reachable

/-! ## Hidden steps -/

/-- A run seen through `f`: the hidden steps change nothing there, and the others are steps there. -/
theorem Run.hide_of_invariant {I : σ → Prop} (f : σ → σ) (hidden : Step σ α → Bool)
    (keep : ∀ s a t, I s → C s a → M.next s a = some t → I t)
    (same : ∀ s a t, I s → C s a → M.next s a = some t → hidden ⟨s, a, t⟩ = true → f t = f s)
    (seen : ∀ s a t, I s → C s a → M.next s a = some t → hidden ⟨s, a, t⟩ = false →
      M.next (f s) a = some (f t))
    (run : M.Run C s tr t) (h : I s) : ∃ tr', M.Run Any (f s) tr' (f t) ∧
      tr'.map (·.label) = (tr.filter fun st => !hidden st).map (·.label) := by
  induction run with
  | refl => exact ⟨[], .refl _, rfl⟩
  | @snoc t u tr a run meets step ih =>
    obtain ⟨tr', run', labels⟩ := ih
    have inv : I t := run.invariant keep h
    rw [List.filter_append, List.filter_singleton, List.map_append, ← labels]
    cases hid : hidden ⟨t, a, u⟩ with
    | true =>
      rw [same t a u inv meets step hid]
      exact ⟨tr', run', (List.append_nil _).symm⟩
    | false => exact ⟨_, run'.snoc trivial (seen t a u inv meets step hid), List.map_append⟩

theorem Run.hide (f : σ → σ) (hidden : Step σ α → Bool)
    (same : ∀ s a t, M.next s a = some t → hidden ⟨s, a, t⟩ = true → f t = f s)
    (seen : ∀ s a t, M.next s a = some t → hidden ⟨s, a, t⟩ = false →
      M.next (f s) a = some (f t))
    (run : M.Run C s tr t) : ∃ tr', M.Run Any (f s) tr' (f t) ∧
      tr'.map (·.label) = (tr.filter fun st => !hidden st).map (·.label) :=
  run.hide_of_invariant (I := fun _ => True) f hidden (fun _ _ _ _ _ _ => trivial)
    (fun s a t _ _ => same s a t) (fun s a t _ _ => seen s a t) trivial

/-- A run seen as one of another machine: each step is a run there. -/
theorem Run.simulate {τ β : Type*} {N : Machine τ β} {D : τ → β → Prop} (f : σ → τ)
    (seen : ∀ s a t, C s a → M.next s a = some t → ∃ tr, N.Run D (f s) tr (f t))
    (run : M.Run C s tr t) : ∃ tr', N.Run D (f s) tr' (f t) := by
  induction run with
  | refl => exact ⟨[], .refl _⟩
  | snoc run meets step ih =>
    obtain ⟨tr', before⟩ := ih
    obtain ⟨tr'', after⟩ := seen _ _ _ meets step
    exact ⟨tr' ++ tr'', before.trans after⟩

/-! ## Parts of the state -/

/-- The steps of a part of the state; `g` is the step of the part behind a label, if there is one. -/
def project {τ β : Type*} (f : σ → τ) (g : σ → α → Option β) (tr : List (Step σ α)) :
    List (Step τ β) :=
  tr.filterMap fun st => (g st.pre st.label).map fun b => ⟨f st.pre, b, f st.post⟩

section project

variable {τ β : Type*} {N : Machine τ β} {D : τ → β → Prop} {f : σ → τ} {g : σ → α → Option β}
  {a : α} {b : β}

theorem project_append : project f g (tr ++ tr') = project f g tr ++ project f g tr' :=
  List.filterMap_append

theorem project_of_none (hidden : g s a = none) : project f g [⟨s, a, t⟩] = [] := by
  simp [project, hidden]

theorem project_of_some (seen : g s a = some b) : project f g [⟨s, a, t⟩] = [⟨f s, b, f t⟩] := by
  simp [project, seen]

theorem mem_project {st : Step σ α} (mem : st ∈ tr) (seen : g st.pre st.label = some b) :
    ⟨f st.pre, b, f st.post⟩ ∈ project f g tr :=
  List.mem_filterMap.2 ⟨st, mem, by rw [seen]; rfl⟩

theorem of_mem_project {st : Step τ β} (mem : st ∈ project f g tr) :
    ∃ st' ∈ tr, g st'.pre st'.label = some st.label := by
  obtain ⟨st', there, same⟩ := List.mem_filterMap.1 mem
  obtain ⟨b, seen, rfl⟩ := Option.map_eq_some_iff.1 same
  exact ⟨st', there, seen⟩

/-- A run seen in a part of the state, when each step is one of the part or changes nothing there. -/
theorem Run.project
    (part : ∀ s a t, C s a → M.next s a = some t → g s a = none ∧ f t = f s ∨
      ∃ b, g s a = some b ∧ D (f s) b ∧ N.next (f s) b = some (f t))
    (run : M.Run C s tr t) : N.Run D (f s) (Machine.project f g tr) (f t) := by
  induction run with
  | refl => exact .refl _
  | @snoc t u tr a run meets step ih =>
    rw [project_append]
    rcases part t a u meets step with ⟨hidden, same⟩ | ⟨b, seen, meets', step'⟩
    · rw [project_of_none hidden, List.append_nil, same]
      exact ih
    · rw [project_of_some seen]
      exact ih.snoc meets' step'

end project

/-- The labels of a run decide where it ends. -/
theorem Run.eq_of_labels {D : σ → α → Prop} {v : σ} (run : M.Run C s tr t) (run' : M.Run D s tr' v)
    (labels : tr.map (·.label) = tr'.map (·.label)) : t = v := by
  induction run generalizing tr' v with
  | refl =>
    cases run' with
    | refl => rfl
    | snoc => simp at labels
  | snoc _ _ step ih =>
    cases run' with
    | refl => simp at labels
    | snoc run' _ step' =>
      rw [List.map_append, List.map_append] at labels
      obtain ⟨front, last⟩ := List.append_inj' labels rfl
      obtain rfl := ih run' front
      obtain rfl : _ = _ := List.singleton_inj.1 last
      exact Option.some.inj (step.symm.trans step')

/-! ## Executing a list of labels -/

variable (M)

/-- The state after the steps with the given labels, when each is enabled in turn and passes the
check `c`. -/
def exec (c : σ → α → Bool) : σ → List α → Option σ
  | s, [] => some s
  | s, a :: as => if c s a then (M.next s a).bind fun t => exec c t as else none

/-- The steps with the given labels, as long as they are enabled. -/
def steps : σ → List α → List (Step σ α)
  | _, [] => []
  | s, a :: as => (M.next s a).elim [] fun t => ⟨s, a, t⟩ :: steps t as

variable {M} {c : σ → α → Bool} {as bs : List α} {a : α}

/-- A computed state is reached by the computed steps. -/
theorem run_of_exec (hc : ∀ s a, c s a = true → C s a) (h : M.exec c s as = some t) :
    M.Run C s (M.steps s as) t ∧ (M.steps s as).map (·.label) = as := by
  induction as generalizing s with
  | nil =>
    simp only [exec, Option.some.injEq] at h
    exact ⟨h ▸ .refl s, rfl⟩
  | cons a as ih =>
    simp only [exec, Option.ite_none_right_eq_some, Option.bind_eq_some_iff] at h
    obtain ⟨meets, v, hv, h⟩ := h
    obtain ⟨run, labels⟩ := ih h
    simp only [steps, hv, Option.elim_some, List.map_cons, labels, and_true]
    exact (Run.single (hc s a meets) hv).trans run

/-- A computed state is reached by a run with these labels. -/
theorem exists_run_of_exec (hc : ∀ s a, c s a = true → C s a) (h : M.exec c s as = some t) :
    ∃ tr, M.Run C s tr t ∧ tr.map (·.label) = as :=
  ⟨_, run_of_exec hc h⟩

/-- The same with a condition that holds of each step only as long as the states meet `I`. -/
theorem exists_run_of_exec_invariant {I : σ → Prop}
    (keep : ∀ s a t, I s → c s a = true → M.next s a = some t → C s a ∧ I t) (init : I s)
    (h : M.exec c s as = some t) : ∃ tr, M.Run C s tr t ∧ tr.map (·.label) = as ∧ I t := by
  induction as generalizing s with
  | nil =>
    simp only [exec, Option.some.injEq] at h
    exact ⟨[], h ▸ .refl s, rfl, h ▸ init⟩
  | cons a as ih =>
    simp only [exec, Option.ite_none_right_eq_some, Option.bind_eq_some_iff] at h
    obtain ⟨checked, v, hv, h⟩ := h
    obtain ⟨meets, init⟩ := keep s a v init checked hv
    obtain ⟨tr, run, labels, last⟩ := ih init h
    exact ⟨_, (Run.single meets hv).trans run, congrArg (a :: ·) labels, last⟩

theorem reachable_of_exec (init : M.start s) (hc : ∀ s a, c s a = true → C s a)
    (h : M.exec c s as = some t) : M.Reachable C t := by
  obtain ⟨tr, run, -⟩ := exists_run_of_exec hc h
  exact ⟨s, tr, init, run⟩

/-- A run computed around a step `a`, with what `f` reads off the states around the step and the last
state. -/
theorem exists_step_of_exec {β : Type*} {f : σ → σ → σ → β} {b : β}
    (hc : ∀ s a, c s a = true → C s a)
    (h : ((M.exec c s as).bind fun t => (M.next t a).bind fun u => (M.exec c u bs).map (f t u)) =
      some b) :
    ∃ tr t u tr' v, M.Run C s tr t ∧ M.next t a = some u ∧ M.Run C u tr' v ∧ f t u v = b := by
  obtain ⟨t, ht, h⟩ := Option.bind_eq_some_iff.1 h
  obtain ⟨u, hu, h⟩ := Option.bind_eq_some_iff.1 h
  obtain ⟨v, hv, h⟩ := Option.map_eq_some_iff.1 h
  obtain ⟨tr, run, -⟩ := exists_run_of_exec hc ht
  obtain ⟨tr', run', -⟩ := exists_run_of_exec hc hv
  exact ⟨tr, t, u, tr', v, run, hu, run', h⟩

end Machine
