import Mathlib.Data.List.Basic
import Mathlib.Tactic.Common

/-! States that are reached by replaying a log of events: invariants of the replay,
and observations that the last event concerning them decides. -/
namespace ReplayLog
variable {State Event β : Type*}

def replay (step : State → Event → State) (s : State) (log : List Event) : State :=
  log.foldl step s

@[simp] theorem replay_nil (step : State → Event → State) (s : State) : replay step s [] = s := rfl

@[simp] theorem replay_cons (step : State → Event → State) (s : State) (e : Event)
    (log : List Event) : replay step s (e :: log) = replay step (step s e) log := rfl

theorem replay_append (step : State → Event → State) (s : State) (log log' : List Event) :
    replay step s (log ++ log') = replay step (replay step s log) log' :=
  List.foldl_append

/-- What admissible events keep holds after an admissible log. -/
theorem replay_invariant {step : State → Event → State} {ok : Event → Prop} (Inv : State → Prop)
    (hstep : ∀ s e, Inv s → ok e → Inv (step s e)) {s : State} {log : List Event} (hs : Inv s)
    (hlog : ∀ e ∈ log, ok e) : Inv (replay step s log) := by
  induction log generalizing s with
  | nil => exact hs
  | cons e log ih =>
    apply ih
    · exact hstep s e hs (hlog e List.mem_cons_self)
    · exact fun e' he' => hlog e' (List.mem_cons_of_mem e he')

/-- An observation that each event either sets or leaves alone is what the last event
that sets it says. -/
theorem replay_view {step : State → Event → State} {ok : Event → Prop} {Inv : State → Prop}
    (view : State → β) (effect : Event → Option β)
    (hinv : ∀ s e, Inv s → ok e → Inv (step s e))
    (hview : ∀ s e, Inv s → ok e → view (step s e) = (effect e).getD (view s))
    {s : State} {log : List Event} (hs : Inv s) (hlog : ∀ e ∈ log, ok e) :
    view (replay step s log) = ((log.filterMap effect).getLast?).getD (view s) := by
  induction log generalizing s with
  | nil => rfl
  | cons e log ih =>
    have hok := hlog e List.mem_cons_self
    have hi := ih (hinv s e hs hok) (fun e' he' => hlog e' (List.mem_cons_of_mem e he'))
    rw [replay_cons, hi, hview s e hs hok, List.filterMap_cons]
    cases heff : effect e with
    | none => rfl
    | some b =>
      rw [List.getLast?_cons]
      cases (log.filterMap effect).getLast? <;> rfl

end ReplayLog
