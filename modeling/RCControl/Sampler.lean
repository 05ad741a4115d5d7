import Mathlib.Data.List.Basic
import Mathlib.Data.List.Chain
import Mathlib.Tactic.Common

/-! A register that is written in one place and polled in another: the poller
logs a value when it finds it changed. Nothing here depends on a program. -/

/-- `log` is what the poller has logged since it started with `start`; `seen` are
the writes up to its last entry and `unseen` those after it. -/
structure Sampler (α : Type*) where
  start : α
  log : List α
  seen : List α
  unseen : List α
  changes : (start :: log).IsChain (· ≠ ·)
  embeds : log.Sublist seen

namespace Sampler
variable {α : Type*}

/-- The value the poller knows. -/
def current (σ : Sampler α) : α := (σ.start :: σ.log).getLast (List.cons_ne_nil _ _)

/-- The content of the register. -/
def value (σ : Sampler α) : α := (σ.current :: σ.unseen).getLast (List.cons_ne_nil _ _)

/-- Every write so far. -/
def writes (σ : Sampler α) : List α := σ.seen ++ σ.unseen

/-- The poller starts after the writes `seen` with the register holding `a`. -/
def begin (a : α) (seen : List α) : Sampler α where
  start := a
  log := []
  seen := seen
  unseen := []
  changes := .singleton a
  embeds := List.nil_sublist seen

@[simp] theorem begin_value (a : α) (seen : List α) : (begin a seen).value = a := rfl

@[simp] theorem begin_writes (a : α) (seen : List α) : (begin a seen).writes = seen :=
  List.append_nil seen

def write (σ : Sampler α) (a : α) : Sampler α :=
  { σ with unseen := σ.unseen ++ [a] }

@[simp] theorem write_current (σ : Sampler α) (a : α) : (σ.write a).current = σ.current := rfl

@[simp] theorem write_value (σ : Sampler α) (a : α) : (σ.write a).value = a := by
  simp [value, write]

@[simp] theorem write_writes (σ : Sampler α) (a : α) : (σ.write a).writes = σ.writes ++ [a] := by
  simp [writes, write]

theorem current_eq_of_log {σ : Sampler α} {a : α} (h : σ.log.getLast? = some a) :
    σ.current = a := by
  -- the last entry, if there is one, hides the start
  obtain ⟨ys, hys⟩ := List.getLast?_eq_some_iff.mp h
  simp [current, hys]

theorem unseen_of_changed {σ : Sampler α} (h : σ.value ≠ σ.current) :
    ∃ before, σ.unseen = before ++ [σ.value] := by
  rcases List.eq_nil_or_concat σ.unseen with hnil | ⟨before, a, hlast⟩
  -- nothing written: the value is still `current`
  · exact absurd (by simp [value, hnil]) h
  · have hvalue : σ.value = a := by simp [value, hlast]
    exact ⟨before, by rw [hvalue, hlast, List.concat_eq_append]⟩

/-- Log the value of a register that has changed. -/
def announce (σ : Sampler α) (h : σ.value ≠ σ.current) : Sampler α where
  start := σ.start
  log := σ.log ++ [σ.value]
  seen := σ.writes
  unseen := []
  changes := by
    rw [← List.cons_append]
    refine σ.changes.append (.singleton _) ?_
    intro a ha b hb
    have hlast : σ.current = a := by
      rw [List.getLast?_eq_some_getLast (List.cons_ne_nil _ _)] at ha
      exact Option.some.inj ha
    have hnew : σ.value = b := Option.some.inj hb
    rw [← hlast, ← hnew]
    exact h.symm
  embeds := by
    obtain ⟨before, hbefore⟩ := unseen_of_changed h
    rw [writes, hbefore, ← List.append_assoc]
    exact (σ.embeds.trans (List.sublist_append_left _ _)).append (List.Sublist.refl _)

section
variable (σ : Sampler α) (h : σ.value ≠ σ.current)

@[simp] theorem announce_log : (σ.announce h).log = σ.log ++ [σ.value] := rfl

@[simp] theorem announce_current : (σ.announce h).current = σ.value := by
  simp [current, announce]

@[simp] theorem announce_value : (σ.announce h).value = σ.value := by
  simp [value, current, announce]

@[simp] theorem announce_writes : (σ.announce h).writes = σ.writes := by
  simp [writes, announce]

end

/-- The log is a subsequence of all writes, and so stays one whatever follows. -/
theorem log_sublist_writes (σ : Sampler α) : σ.log.Sublist σ.writes :=
  σ.embeds.trans (List.sublist_append_left _ _)

/-- No two consecutive entries of the log agree. -/
theorem log_changes (σ : Sampler α) : σ.log.IsChain (· ≠ ·) := σ.changes.tail

theorem head_ne_start (σ : Sampler α) {a : α} (h : σ.log.head? = some a) : a ≠ σ.start := by
  have hchanges := σ.changes
  obtain ⟨rest, hrest⟩ := List.head?_eq_some_iff.mp h
  rw [hrest] at hchanges
  exact (List.isChain_cons_cons.mp hchanges).1.symm

end Sampler
