import EstateServer.Library.Machine

/-!
# Logs

A log lists what the steps of a run have done, oldest first: `event` says what a step does, if it does
anything that is logged.  A state and the log of the run that has led to it keep an invariant that
every step keeps (`Run.log_invariant`).

`chain.Sublist log` says that the events of the chain have happened, in this order.
-/

namespace Machine

variable {σ α ε : Type*} {M : Machine σ α} {C : σ → α → Prop} {s t : σ} {tr : List (Step σ α)}

/-- What the steps have done. -/
def events (event : Step σ α → Option ε) (tr : List (Step σ α)) : List ε := tr.filterMap event

variable {event : Step σ α → Option ε}

theorem events_concat {st : Step σ α} :
    events event (tr ++ [st]) = events event tr ++ (event st).toList := by
  rw [events, List.filterMap_append]
  cases h : event st <;> simp [events, h]

/-- What every step keeps of the state and the log. -/
theorem Run.log_invariant {I : List ε → σ → Prop} (keep : ∀ log s a t, I log s → C s a →
      M.next s a = some t → I (log ++ (event ⟨s, a, t⟩).toList) t)
    (run : M.Run C s tr t) (h : I [] s) : I (events event tr) t := by
  refine run.trace_invariant (I := fun tr t => I (events event tr) t) ?_ h
  intro tr s a t inv meets step
  rw [events_concat]
  exact keep _ s a t inv meets step

/-! ## Chains of events -/

variable {chain log : List ε} {e : ε}

/-- What has happened stays so. -/
theorem sublist_concat (h : chain.Sublist log) (more : List ε) : chain.Sublist (log ++ more) :=
  h.trans (List.sublist_append_left log more)

/-- A chain goes on with the newest event. -/
theorem sublist_snoc (h : chain.Sublist log) (e : ε) : (chain ++ [e]).Sublist (log ++ [e]) :=
  h.append (List.Sublist.refl [e])

end Machine
