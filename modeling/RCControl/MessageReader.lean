import RCControl.MessageFormat
import RCControl.ReplayLog

/-! Reading a received message (`Message::extract` and its iterator). -/
namespace RCControl
open ReplayLog

/-- The iterator of a message over its arguments, and what was extracted last. -/
structure MessageReader where
  arguments : List Wire
  position : ℕ
  initialized : Bool
  extracted : Option Holder

inductive ReadStep
  | extract
  | next
  | reset
deriving DecidableEq, Repr

/-- `_extract_generic` at a position; behind the arguments there is nothing. -/
def argumentAt (arguments : List Wire) (position : ℕ) : Holder :=
  (arguments[position]?.map extractGeneric).getD .none

namespace MessageReader

def create (arguments : List Wire) : MessageReader := ⟨arguments, 0, false, none⟩

def extractReset (r : MessageReader) : MessageReader := { r with position := 0, initialized := true }

/-- The value stays until `extract_next` goes on. -/
def extract (r : MessageReader) : MessageReader × Holder :=
  match r.extracted with
  | some h => (r, h)
  | none =>
    let r := if r.initialized then r else r.extractReset
    let h := argumentAt r.arguments r.position
    ({ r with extracted := some h }, h)

def extractHasNext (r : MessageReader) : Bool :=
  r.initialized && decide (r.position + 1 < r.arguments.length)

def extractNext (r : MessageReader) : MessageReader :=
  if r.extractHasNext then { r with position := r.position + 1, extracted := none } else r

def step (r : MessageReader) : ReadStep → MessageReader
  | .extract => r.extract.1
  | .next => r.extractNext
  | .reset => r.extractReset

def after (r : MessageReader) (steps : List ReadStep) : MessageReader := replay step r steps

end MessageReader

/-- How often a run goes on after its first extraction. -/
def nextsRead (steps : List ReadStep) : ℕ := (steps.dropWhile (· ≠ .extract)).count .next

namespace MessageReader

/-- The iterator has gone on `count` times since it was initialized, as far as it could, and
what is kept is the argument it is at. -/
structure At (arguments : List Wire) (count : ℕ) (r : MessageReader) : Prop where
  arguments_eq : r.arguments = arguments
  initialized : r.initialized = true
  position_eq : r.position = min count (arguments.length - 1)
  kept : ∀ h, r.extracted = some h → h = argumentAt arguments r.position

theorem At.extract {arguments : List Wire} {count : ℕ} {r : MessageReader}
    (hr : r.At arguments count) :
    r.extract.1.At arguments count ∧ r.extract.2 = argumentAt arguments r.position := by
  obtain ⟨rfl, hinit, hpos, hkept⟩ := hr
  cases hext : r.extracted with
  | some h =>
    have hsame : r.extract = (r, h) := by simp [MessageReader.extract, hext]
    rw [hsame]
    exact ⟨⟨rfl, hinit, hpos, hkept⟩, hkept h hext⟩
  | none =>
    have hread : r.extract = ({ r with extracted := some (argumentAt r.arguments r.position) },
        argumentAt r.arguments r.position) := by
      simp [MessageReader.extract, hext, hinit]
    rw [hread]
    exact ⟨⟨rfl, hinit, hpos, fun h hh => (Option.some.inj hh).symm⟩, rfl⟩

theorem At.next {arguments : List Wire} {count : ℕ} {r : MessageReader}
    (hr : r.At arguments count) : r.extractNext.At arguments (count + 1) := by
  obtain ⟨rfl, hinit, hpos, hkept⟩ := hr
  rw [extractNext, extractHasNext, hinit, Bool.true_and]
  by_cases hlt : r.position + 1 < r.arguments.length
  · rw [if_pos (decide_eq_true hlt)]
    refine ⟨rfl, rfl, ?_, fun h hh => by cases hh⟩
    show r.position + 1 = _
    omega
  · rw [if_neg (by simpa using hlt)]
    refine ⟨rfl, hinit, ?_, hkept⟩
    omega

theorem At.after {arguments : List Wire} {count : ℕ} {r : MessageReader}
    (hr : r.At arguments count) {steps : List ReadStep} (hsteps : .reset ∉ steps) :
    (r.after steps).At arguments (count + steps.count .next) := by
  induction steps generalizing r count with
  | nil => exact hr
  | cons s steps ih =>
    have htail : ReadStep.reset ∉ steps := fun h => hsteps (List.mem_cons_of_mem s h)
    cases s with
    | extract => exact ih hr.extract.1 htail
    | next =>
      have hnext := ih hr.next htail
      rwa [Nat.add_right_comm, Nat.add_assoc, ← List.count_cons_self] at hnext
    | reset => exact absurd List.mem_cons_self hsteps

/-- The first extraction is of the first argument. -/
theorem create_extract (arguments : List Wire) :
    (create arguments).extract.1.At arguments 0 ∧
      (create arguments).extract.2 = argumentAt arguments 0 :=
  ⟨⟨rfl, rfl, by simp [MessageReader.extract, create, extractReset],
    fun _ h => (Option.some.inj h).symm⟩, rfl⟩

/-- As long as nothing is reset, an extraction gives the argument after as many as the run
has gone on since its first extraction, and at the end the last one again. -/
theorem extract_after {arguments : List Wire} {steps : List ReadStep} (hsteps : .reset ∉ steps) :
    ((create arguments).after steps).extract.2 =
      argumentAt arguments (min (nextsRead steps) (arguments.length - 1)) := by
  induction steps with
  | nil => exact (create_extract arguments).2
  | cons s steps ih =>
    have htail : ReadStep.reset ∉ steps := fun h => hsteps (List.mem_cons_of_mem s h)
    cases s with
    | extract =>
      have hat := (create_extract arguments).1.after htail
      rw [Nat.zero_add] at hat
      have hread := hat.extract.2
      rw [hat.position_eq] at hread
      exact hread
    -- before the first extraction the iterator is not initialized and stays
    | next => exact ih htail
    | reset => exact absurd List.mem_cons_self hsteps

/-- The arguments of `DisplayPinCode`, which the agent extracts without going on. -/
def pinCodeArguments : List Wire :=
  [.basic (.objectPath "/org/bluez/hci0/dev_A"), .basic (.string "0000")]

/-- A reader that goes on twice, past the end, still reads the pin code. -/
theorem pinCode_read_past_end :
    ((create pinCodeArguments).after [.extract, .next, .extract, .next]).extract.2 =
      argumentAt pinCodeArguments (min (nextsRead [.extract, .next, .extract, .next])
        (pinCodeArguments.length - 1)) :=
  extract_after (by decide)

end MessageReader

end RCControl
