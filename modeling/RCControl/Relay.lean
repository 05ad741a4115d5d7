import Mathlib.Tactic.Common
import Mathlib.Data.Nat.Notation

/-! One request at a time between two parties: a request is issued, completed by the
other side, and its completion is taken before the next one is issued. Nothing here
depends on a program. -/

/-- The requests issued, the completions signalled and the completions taken. -/
structure Relay where
  issued : ℕ
  completed : ℕ
  taken : ℕ
  taken_le : taken ≤ completed
  completed_le : completed ≤ issued
  issued_le : issued ≤ taken + 1

namespace Relay

/-- A request has been issued and is not completed. -/
def InFlight (σ : Relay) : Prop := σ.completed < σ.issued

/-- A completion has been signalled and is not taken. -/
def Waiting (σ : Relay) : Prop := σ.taken < σ.completed

/-- Everything issued has been completed and taken: it is the issuer's turn. -/
def Free (σ : Relay) : Prop := σ.issued = σ.taken

theorem exactly_one (σ : Relay) :
    (σ.InFlight ∧ ¬σ.Waiting ∧ ¬σ.Free) ∨ (¬σ.InFlight ∧ σ.Waiting ∧ ¬σ.Free) ∨
      (¬σ.InFlight ∧ ¬σ.Waiting ∧ σ.Free) := by
  have htaken := σ.taken_le
  have hcompleted := σ.completed_le
  have hissued := σ.issued_le
  unfold InFlight Waiting Free
  omega

def start : Relay where
  issued := 0
  completed := 0
  taken := 0
  taken_le := Nat.le_refl 0
  completed_le := Nat.le_refl 0
  issued_le := Nat.zero_le _

/-- The issuer's turn ends with a request. -/
def issue (σ : Relay) (h : σ.Free) : Relay where
  issued := σ.issued + 1
  completed := σ.completed
  taken := σ.taken
  taken_le := σ.taken_le
  completed_le := Nat.le_succ_of_le σ.completed_le
  issued_le := Nat.succ_le_succ (Nat.le_of_eq h)

/-- The request in flight is completed. -/
def complete (σ : Relay) (h : σ.InFlight) : Relay where
  issued := σ.issued
  completed := σ.completed + 1
  taken := σ.taken
  taken_le := Nat.le_succ_of_le σ.taken_le
  completed_le := h
  issued_le := σ.issued_le

/-- The waiting completion is taken. -/
def take (σ : Relay) (h : σ.Waiting) : Relay where
  issued := σ.issued
  completed := σ.completed
  taken := σ.taken + 1
  taken_le := h
  completed_le := σ.completed_le
  issued_le := Nat.le_succ_of_le σ.issued_le

section
variable (σ : Relay)

theorem not_waiting_of_free (h : σ.Free) : ¬σ.Waiting := by
  have hcompleted := σ.completed_le
  unfold Free at h
  unfold Waiting
  omega

theorem not_inFlight_of_free (h : σ.Free) : ¬σ.InFlight := by
  have htaken := σ.taken_le
  unfold Free at h
  unfold InFlight
  omega

theorem start_free : start.Free := rfl

theorem issue_inFlight (h : σ.Free) : (σ.issue h).InFlight :=
  Nat.lt_succ_of_le σ.completed_le

theorem complete_waiting (h : σ.InFlight) : (σ.complete h).Waiting :=
  Nat.lt_succ_of_le σ.taken_le

theorem take_free (h : σ.Waiting) : (σ.take h).Free := by
  have hcompleted := σ.completed_le
  have hissued := σ.issued_le
  unfold Waiting at h
  change σ.issued = σ.taken + 1
  omega

end
end Relay
