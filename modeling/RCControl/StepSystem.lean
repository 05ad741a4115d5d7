import Mathlib.Logic.Relation
import Mathlib.Tactic.Common

/-! Partial step functions with named actions, their runs, and the runs that
keep to a guard. Nothing here depends on a particular program. -/
namespace StepSystem

variable {State Action : Type*}

/-- Fire a list of actions in order; `none` as soon as one of them is disabled. -/
def exec (step : Action → State → Option State) : List Action → State → Option State
  | [], s => some s
  | a :: as, s => (step a s).bind (exec step as)

/-- A run whose every step, taken in state `t` by action `a`, meets `ok t a`. -/
inductive Run (step : Action → State → Option State) (ok : State → Action → Prop)
    (s : State) : List Action → State → Prop
  | refl : Run step ok s [] s
  | snoc {as : List Action} {t u : State} {a : Action} :
      Run step ok s as t → ok t a → step a t = some u → Run step ok s (as ++ [a]) u

/-- Runs without a guard: every interleaving of the actions. -/
abbrev FreeRun (step : Action → State → Option State) :
    State → List Action → State → Prop :=
  Run step (fun _ _ => True)

/-- The states some interleaving reaches. -/
def Reachable (step : Action → State → Option State) (s t : State) : Prop :=
  ∃ as, FreeRun step s as t

variable {step : Action → State → Option State} {ok : State → Action → Prop}

/-- What holds of the empty run and is kept by each guarded step holds of each guarded
run and the state it ends in. -/
theorem Run.trace_invariant (Inv : List Action → State → Prop) {s t : State} {as : List Action}
    (hrun : Run step ok s as t) (hinit : Inv [] s)
    (hstep : ∀ as t a u, Inv as t → ok t a → step a t = some u → Inv (as ++ [a]) u) :
    Inv as t := by
  induction hrun with
  | refl => exact hinit
  | snoc _ hok hs ih => exact hstep _ _ _ _ ih hok hs

/-- The induction every safety proof uses: what holds at the start and is kept
by each guarded step holds at the end of each guarded run. -/
theorem Run.invariant (Inv : State → Prop) {s t : State} {as : List Action}
    (hrun : Run step ok s as t) (hinit : Inv s)
    (hstep : ∀ t a u, Inv t → ok t a → step a t = some u → Inv u) : Inv t :=
  hrun.trace_invariant (fun _ t => Inv t) hinit (fun _ t a u => hstep t a u)

theorem Run.mono {ok' : State → Action → Prop} (h : ∀ t a, ok t a → ok' t a)
    {s t : State} {as : List Action} (hrun : Run step ok s as t) :
    Run step ok' s as t := by
  induction hrun with
  | refl => exact .refl
  | snoc _ hok hs ih => exact .snoc ih (h _ _ hok) hs

theorem Run.free {s t : State} {as : List Action} (hrun : Run step ok s as t) :
    FreeRun step s as t :=
  hrun.mono (fun _ _ _ => trivial)

theorem Run.reachable {s t : State} {as : List Action} (hrun : Run step ok s as t) :
    Reachable step s t :=
  ⟨as, hrun.free⟩

theorem Run.append {s t u : State} {as bs : List Action}
    (h₁ : Run step ok s as t) (h₂ : Run step ok t bs u) : Run step ok s (as ++ bs) u := by
  -- on the second run, step by step at its end
  induction h₂ with
  | refl => simpa using h₁
  | snoc _ hok hs ih =>
    rw [← List.append_assoc]
    exact .snoc ih hok hs

/-- A run in which nothing is written keeps to any guard that quiet steps meet. -/
theorem Run.of_quiet {ok' : State → Action → Prop} (writes : State → ℕ)
    (hmono : ∀ t a u, step a t = some u → writes t ≤ writes u)
    (hok : ∀ t a u, writes u = writes t → step a t = some u → ok' t a)
    {s t : State} {as : List Action} (hrun : Run step ok s as t) (hquiet : writes t = writes s) :
    Run step ok' s as t := by
  -- no prefix of the run can have written: the count only grows and ends where it began
  have hgrow : ∀ {bs v}, Run step ok s bs v → writes s ≤ writes v := by
    intro bs v hrun
    refine hrun.invariant (fun v => writes s ≤ writes v) (Nat.le_refl _) ?_
    intro t a u hle _ hs
    exact Nat.le_trans hle (hmono t a u hs)
  induction hrun with
  | refl => exact .refl
  | @snoc as t u a hpre _ hs ih =>
    have hle := hgrow hpre
    have hstep := hmono t a u hs
    exact .snoc (ih (by omega)) (hok t a u (by omega) hs) hs

/-- The rule for a poller among writers: a run in which `actor` moves at least
once, starting `idle`, and in which nothing is written ends `fresh`, if its first
move makes it so and no quiet move undoes it. -/
theorem Run.fresh_of_quiet (writes : State → ℕ) (actor : Action) (idle fresh : State → Prop)
    (hmono : ∀ t a u, step a t = some u → writes t ≤ writes u)
    (hfirst : ∀ t u, idle t → step actor t = some u → fresh u)
    (hidle : ∀ t a u, a ≠ actor → idle t → step a t = some u → idle u)
    (hfresh : ∀ t a u, writes u = writes t → fresh t → step a t = some u → fresh u)
    {s t : State} {as : List Action} (hrun : Run step ok s as t) (hinit : idle s)
    (hactor : actor ∈ as) (hquiet : writes t = writes s) : fresh t := by
  -- along the run: the poller is still idle, or something was written, or it is fresh
  have hsplit : writes s ≤ writes t ∧
      (actor ∉ as ∧ idle t ∨ actor ∈ as ∧ (writes s < writes t ∨ fresh t)) := by
    clear hactor hquiet
    induction hrun with
    | refl => exact ⟨Nat.le_refl _, Or.inl ⟨List.not_mem_nil, hinit⟩⟩
    | @snoc as t u a _ _ hs ih =>
      obtain ⟨hle, hcases⟩ := ih
      have hgrow := hmono t a u hs
      refine ⟨Nat.le_trans hle hgrow, ?_⟩
      rcases hcases with ⟨hnot, hid⟩ | ⟨hmem, hrest⟩
      -- the first move of the poller is where idleness ends
      · by_cases ha : a = actor
        · subst ha
          exact Or.inr ⟨by simp, Or.inr (hfirst t u hid hs)⟩
        · refine Or.inl ⟨?_, hidle t a u ha hid hs⟩
          simp [hnot, Ne.symm ha]
      · refine Or.inr ⟨List.mem_append_left _ hmem, ?_⟩
        rcases hrest with hlt | hf
        · exact Or.inl (Nat.lt_of_lt_of_le hlt hgrow)
        -- a step after the first move: it writes, or it is quiet
        · rcases Nat.lt_or_ge (writes t) (writes u) with hlt | hge
          · exact Or.inl (Nat.lt_of_le_of_lt hle hlt)
          · exact Or.inr (hfresh t a u (Nat.le_antisymm hge hgrow) hf hs)
  obtain ⟨-, ⟨hnot, -⟩ | ⟨-, hlt | hf⟩⟩ := hsplit
  · exact absurd hactor hnot
  · omega
  · exact hf

theorem Reachable.refl (s : State) : Reachable step s s := ⟨[], .refl⟩

theorem Reachable.invariant (Inv : State → Prop) {s t : State}
    (hreach : Reachable step s t) (hinit : Inv s)
    (hstep : ∀ t a u, Inv t → step a t = some u → Inv u) : Inv t := by
  obtain ⟨as, hrun⟩ := hreach
  exact hrun.invariant Inv hinit (fun t a u hi _ hs => hstep t a u hi hs)

theorem Reachable.trans {s t u : State} (h₁ : Reachable step s t)
    (h₂ : Reachable step t u) : Reachable step s u := by
  obtain ⟨as, ha⟩ := h₁
  obtain ⟨bs, hb⟩ := h₂
  exact ⟨as ++ bs, ha.append hb⟩

theorem Reachable.tail {s t u : State} {a : Action} (h : Reachable step s t)
    (hs : step a t = some u) : Reachable step s u := by
  obtain ⟨as, hrun⟩ := h
  exact ⟨as ++ [a], .snoc hrun trivial hs⟩

theorem freeRun_of_exec {as : List Action} {s t : State} (h : exec step as s = some t) :
    FreeRun step s as t := by
  -- a schedule is executed from its first action, a run grows at its end
  induction as generalizing s with
  | nil =>
    simp only [exec, Option.some.injEq] at h
    exact h ▸ .refl
  | cons a as ih =>
    obtain ⟨u, hu, hrest⟩ := Option.bind_eq_some_iff.mp h
    have hfirst : FreeRun step s ([] ++ [a]) u := .snoc .refl trivial hu
    simpa using hfirst.append (ih hrest)

/-- `step` with the moves cut off that a test rejects. -/
def gate (test : State → Action → Bool) (step : Action → State → Option State)
    (a : Action) (s : State) : Option State :=
  if test s a = true then step a s else none

/-- A schedule executed through a gate is a guarded run. -/
theorem run_of_exec_gate {test : State → Action → Bool}
    (htest : ∀ s a, test s a = true → ok s a) {as : List Action} {s t : State}
    (h : exec (gate test step) as s = some t) : Run step ok s as t := by
  have hfree := freeRun_of_exec h
  clear h
  induction hfree with
  | refl => exact .refl
  | @snoc as t u a _ _ hs ih =>
    -- every step of the run has passed the test
    unfold gate at hs
    split at hs
    · exact .snoc ih (htest t a ‹_›) hs
    · cases hs

theorem reachable_of_exec {as : List Action} {s t : State} (h : exec step as s = some t) :
    Reachable step s t :=
  ⟨as, freeRun_of_exec h⟩

end StepSystem
