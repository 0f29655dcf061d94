import EstateServer.Library.Machine
import Mathlib.Data.Set.Basic

/-!
# A read-through cache beside a store

One value of a store, its copy in a cache, and any number of processes that read one or the other.
A process that has read the store holds the value, and may put it into the cache later (`fills`);
what a process has found, to return it, is what it has `shown`.

* `held_since`: what a process holds, it has read since any given point, unless it held it there.
* `cached_since`: once the copy has been dropped after a given point, what the cache has was read
  since that point, as long as nobody fills the cache who held a value at that point.
* `shown_since`: the same for what a process shows, when it starts after the copy has been dropped.
-/

namespace Machine

variable {σ α V : Type*} {M : Machine σ α} {C : σ → α → Prop} {s t : σ} {tr tr' : List (Step σ α)}

/-- The values of `f` in the states of a run, from its first state on. -/
def Since (f : σ → V) (s : σ) (tr : List (Step σ α)) : Set V :=
  {v | f s = v ∨ ∃ st ∈ tr, f st.post = v}

namespace Since

variable {f : σ → V} {v : V}

theorem append (h : v ∈ Since f s tr) : v ∈ Since f s (tr ++ tr') := by
  rcases h with h | ⟨st, hst, h⟩
  · exact .inl h
  · exact .inr ⟨st, List.mem_append_left _ hst, h⟩

theorem concat {st : Step σ α} (h : f st.post = v) : v ∈ Since f s (tr ++ [st]) :=
  .inr ⟨st, List.mem_concat_self, h⟩

/-- A value taken in a run is the value of a state that the run passes. -/
theorem exists_state (run : M.Run C s tr t) (h : v ∈ Since f s tr) :
    ∃ front back u, M.Run C s front u ∧ M.Run C u back t ∧ f u = v := by
  induction run with
  | refl =>
    rcases h with h | ⟨st, hst, -⟩
    · exact ⟨[], [], s, .refl s, .refl s, h⟩
    · exact absurd hst List.not_mem_nil
  | @snoc w t tr a run meets step ih =>
    by_cases before : v ∈ Since f s tr
    · obtain ⟨front, back, u, left, right, h⟩ := ih before
      exact ⟨front, _, u, left, .snoc right meets step, h⟩
    · refine ⟨_, [], t, .snoc run meets step, .refl t, ?_⟩
      rcases h with h | ⟨st, hst, h⟩
      · exact absurd (.inl h) before
      · rcases List.mem_append.1 hst with hst | hst
        · exact absurd (.inr ⟨st, hst, h⟩) before
        · rwa [List.mem_singleton.1 hst] at h

theorem not_mem (run : M.Run C s tr t) (apart : ∀ s a, C s a → f s ≠ v) (last : f t ≠ v) :
    v ∉ Since f s tr := by
  induction run with
  | refl =>
    rintro (h | ⟨st, hst, -⟩)
    · exact last h
    · cases hst
  | snoc _ meets _ ih =>
    rintro (h | ⟨st, hst, h⟩)
    · exact ih (apart _ _ meets) (.inl h)
    · rcases List.mem_append.1 hst with hst | hst
      · exact ih (apart _ _ meets) (.inr ⟨st, hst, h⟩)
      · rw [List.mem_singleton.1 hst] at h
        exact last h

end Since

end Machine

open Machine

/-- A value of a store, its copy in a cache, and what the processes `π` do with them. -/
structure ReadThrough {σ α : Type*} (M : Machine σ α) (π V : Type*) where
  value : σ → V
  cached : σ → Option V
  /-- What a process has read from the store and may still put into the cache. -/
  held : σ → π → Option V
  /-- What a process has found, in the store or in the cache. -/
  shown : σ → π → Option V
  /-- The step puts what the process holds into the cache. -/
  fills : σ → α → π → Prop
  cached_step : ∀ {s a t v}, M.next s a = some t → cached t = some v →
    cached s = some v ∨ ∃ p, fills s a p ∧ held s p = some v
  held_step : ∀ {s a t p v}, M.next s a = some t → held t p = some v →
    held s p = some v ∨ value t = v
  shown_step : ∀ {s a t p v}, M.next s a = some t → shown t p = some v →
    shown s p = some v ∨ cached s = some v ∨ value t = v

namespace ReadThrough

variable {σ α π V : Type*} {M : Machine σ α} {C : σ → α → Prop} {s t u w : σ}
  {tr₁ tr₂ tr₃ : List (Step σ α)} (X : ReadThrough M π V) {p : π} {v : V}

theorem held_since (run : M.Run C s tr₁ t) (h : X.held t p = some v) :
    X.held s p = some v ∨ v ∈ Since X.value s tr₁ := by
  induction run with
  | refl => exact .inl h
  | snoc _ _ step ih =>
    rcases X.held_step step h with h | h
    · exact (ih h).imp_right Since.append
    · exact .inr (.concat h)

/-- No step fills the cache with a value that was held in `s`. -/
def Apart (s : σ) (tr : List (Step σ α)) : Prop :=
  ∀ st ∈ tr, ∀ p, X.fills st.pre st.label p → X.held s p = none

variable {X} in
theorem Apart.append : X.Apart s (tr₁ ++ tr₂) ↔ X.Apart s tr₁ ∧ X.Apart s tr₂ := List.forall_mem_append

theorem cached_since (run₁ : M.Run C s tr₁ t) (dropped : X.cached t = none)
    (run₂ : M.Run C t tr₂ u) (apart : X.Apart s tr₂) (h : X.cached u = some v) :
    v ∈ Since X.value s (tr₁ ++ tr₂) := by
  induction run₂ with
  | refl => simp [dropped] at h
  | @snoc u w tr₂ a run₂ meets step ih =>
    obtain ⟨apart, last⟩ := Apart.append.1 apart
    rw [← List.append_assoc]
    rcases X.cached_step step h with h | ⟨p, fills, h⟩
    · exact Since.append (ih apart h)
    · rcases X.held_since (run₁.trans run₂) h with old | new
      · simp [last _ (List.mem_singleton_self _) p fills] at old
      · exact Since.append new

theorem shown_since (run₁ : M.Run C s tr₁ t) (dropped : X.cached t = none)
    (run₂ : M.Run C t tr₂ u) (idle : X.shown u p = none) (run₃ : M.Run C u tr₃ w)
    (apart : X.Apart s (tr₂ ++ tr₃)) (h : X.shown w p = some v) :
    v ∈ Since X.value s (tr₁ ++ (tr₂ ++ tr₃)) := by
  induction run₃ with
  | refl => simp [idle] at h
  | @snoc w x tr₃ a run₃ meets step ih =>
    rw [← List.append_assoc] at apart
    rw [← List.append_assoc tr₂, ← List.append_assoc tr₁]
    obtain ⟨apart, -⟩ := Apart.append.1 apart
    rcases X.shown_step step h with h | h | h
    · exact Since.append (ih apart h)
    · exact Since.append (X.cached_since run₁ dropped (run₂.trans run₃) apart h)
    · exact .concat h

end ReadThrough
