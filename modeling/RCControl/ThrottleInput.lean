import Mathlib.Data.Rat.Floor
import Mathlib.Tactic.Linarith
import Mathlib.Tactic.NormNum

/-! The input side: `convert_to_percent` and the classification of joystick
events made by the loop body of `hotas_inputs`. -/
namespace RCControl

/-- Rounding to single precision, read over exact rationals. -/
structure FloatRounding where
  round : ℚ → ℚ
  rel_err : ∀ q, |round q - q| ≤ |q| * (1 / 2^24)
  int_exact : ∀ n : ℤ, |n| ≤ 2^24 → round n = n

/-- The rounding that loses nothing; it agrees with the hardware wherever the
exact result has at most 24 significant bits. -/
def FloatRounding.exact : FloatRounding where
  round q := q
  rel_err q := by simp only [sub_self, abs_zero]; positivity
  int_exact _ _ := rfl

/-- The C conversion from `float` to `int`: truncation toward zero. -/
def truncate (q : ℚ) : ℤ := if 0 ≤ q then ⌊q⌋ else ⌈q⌉

/-- `(raw==32767)?0:(raw - 32767) * 100.0f / (2 * -32767)`, with one rounding
for each conversion to `float` and each `float` operation. -/
def convertToPercent (fl : FloatRounding) (raw : ℤ) : ℤ :=
  if raw = 32767 then 0
  else truncate (fl.round (fl.round (fl.round (raw - 32767 : ℤ) * 100) /
    fl.round (2 * -32767 : ℤ)))

/-- For a 16-bit axis value only the quotient is rounded: the two conversions
and the product stay below `2^24`. -/
theorem convertToPercent_eq (fl : FloatRounding) (v : ℤ) (hlo : -32768 ≤ v) (hhi : v ≤ 32767) :
    convertToPercent fl v = truncate (fl.round (((v - 32767) * 100 : ℤ) / (-65534 : ℚ))) := by
  have hconv : fl.round (v - 32767 : ℤ) = (v - 32767 : ℤ) :=
    fl.int_exact _ (by rw [abs_le]; omega)
  have hprod : fl.round (((v - 32767) * 100 : ℤ) : ℚ) = ((v - 32767) * 100 : ℤ) :=
    fl.int_exact _ (by rw [abs_le]; omega)
  have hden : fl.round ((2 * -32767 : ℤ) : ℚ) = (2 * -32767 : ℤ) :=
    fl.int_exact _ (by norm_num)
  have hmul : ((v - 32767 : ℤ) : ℚ) * 100 = ((v - 32767) * 100 : ℤ) := by push_cast; ring
  unfold convertToPercent
  split_ifs with hv
  · have hz : fl.round 0 = 0 := by simpa using fl.int_exact 0 (by norm_num)
    simp [hv, hz, truncate]
  · rw [hconv, hmul, hprod, hden]
    norm_num

/-- `struct js_event`; its time stamp is never read. -/
structure JsEvent where
  value : Int16
  type : UInt8
  number : UInt8
deriving DecidableEq, Repr

def jsEventButton : UInt8 := 0x01
def jsEventAxis : UInt8 := 0x02
def jsEventInit : UInt8 := 0x80

/-- What `read` on the device returns: one whole event, or anything else. -/
inductive ReadResult
  | event (e : JsEvent)
  | failed
deriving DecidableEq, Repr

/-- The lines `hotas_inputs` prints or hands to `perror`. -/
inductive HotasOutput
  | couldNotOpen
  | readingInputs
  | readError
  | axis (number : UInt8) (value : Int16)
  | button (number : UInt8) (pressed : Bool)
  | byeBye
deriving DecidableEq, Repr

/-- The effect one event has on the shared variables. -/
inductive EventAction
  | setThrottle (percent : ℤ)
  | clearRunning
  | nothing
deriving DecidableEq, Repr

/-- "ACTION ACCORDING TO THE BUTTON/AXIS": both tests compare `e.type` with the
bare flag, so a report that also carries `jsEventInit` takes neither branch. -/
def eventAction (fl : FloatRounding) (e : JsEvent) : EventAction :=
  if e.type = jsEventAxis then
    if e.number = 2 then .setThrottle (convertToPercent fl e.value.toInt) else .nothing
  else if e.type = jsEventButton then
    if e.number = 0 ∧ e.value = 1 then .clearRunning else .nothing
  else .nothing

/-- The lines printed on the way to that effect. -/
def eventOutput (e : JsEvent) : List HotasOutput :=
  if e.type = jsEventAxis then
    if e.number = 2 then [] else [.axis e.number e.value]
  else if e.type = jsEventButton then
    if e.number = 0 ∧ e.value = 1 then [.button e.number true, .byeBye]
    else [.button e.number (e.value ≠ 0)]
  else []

/-- A change report of the throttle axis. -/
def JsEvent.changesThrottle (e : JsEvent) : Bool :=
  e.type == jsEventAxis && e.number == 2

/-- A change report or an initial-state report of the throttle axis. -/
def JsEvent.reportsThrottle (e : JsEvent) : Bool :=
  (e.type == jsEventAxis || e.type == jsEventAxis ||| jsEventInit) && e.number == 2

/-- Button 0 pressed. -/
def JsEvent.quits (e : JsEvent) : Bool :=
  e.type == jsEventButton && e.number == 0 && e.value == 1

/-- The percentage of the last report selected by `p`, 0 when there is none. -/
def lastPercent (fl : FloatRounding) (p : JsEvent → Bool) (es : List JsEvent) : ℤ :=
  match (es.filter p).getLast? with
  | none => 0
  | some e => convertToPercent fl e.value.toInt

theorem lastPercent_snoc_of_true (fl : FloatRounding) (p : JsEvent → Bool) (es : List JsEvent)
    (e : JsEvent) (h : p e = true) :
    lastPercent fl p (es ++ [e]) = convertToPercent fl e.value.toInt := by
  simp [lastPercent, List.filter_append, h]

theorem lastPercent_snoc_of_false (fl : FloatRounding) (p : JsEvent → Bool) (es : List JsEvent)
    (e : JsEvent) (h : p e = false) :
    lastPercent fl p (es ++ [e]) = lastPercent fl p es := by
  simp [lastPercent, List.filter_append, h]

/-- The events that store a percentage are exactly the throttle's change reports. -/
theorem eventAction_eq_setThrottle_iff (fl : FloatRounding) (e : JsEvent) (percent : ℤ) :
    eventAction fl e = .setThrottle percent ↔
      e.changesThrottle = true ∧ percent = convertToPercent fl e.value.toInt := by
  unfold eventAction JsEvent.changesThrottle
  by_cases htype : e.type = jsEventAxis
  -- of the axes only number 2 is applied
  · by_cases hnumber : e.number = 2
    · simpa [htype, hnumber] using eq_comm
    · simp [htype, hnumber]
  · simp only [htype, ↓reduceIte]
    split_ifs <;> simp [htype]

/-- The events that clear `running` are exactly the presses of button 0. -/
theorem eventAction_eq_clearRunning_iff (fl : FloatRounding) (e : JsEvent) :
    eventAction fl e = .clearRunning ↔ e.quits = true := by
  unfold eventAction JsEvent.quits
  split_ifs with htype <;> simp_all [jsEventAxis, jsEventButton]

theorem quits_eq_false_of_changesThrottle {e : JsEvent} (h : e.changesThrottle = true) :
    e.quits = false := by
  -- one event has one action, and these are two different ones
  have haction := (eventAction_eq_setThrottle_iff .exact e _).mpr ⟨h, rfl⟩
  apply Bool.eq_false_of_not_eq_true
  intro hquit
  rw [(eventAction_eq_clearRunning_iff .exact e).mpr hquit] at haction
  cases haction

theorem changesThrottle_eq_false_of_quits {e : JsEvent} (h : e.quits = true) :
    e.changesThrottle = false := by
  apply Bool.eq_false_of_not_eq_true
  intro hchange
  rw [quits_eq_false_of_changesThrottle hchange] at h
  cases h

theorem eventAction_eq_nothing_iff (fl : FloatRounding) (e : JsEvent) :
    eventAction fl e = .nothing ↔ e.changesThrottle = false ∧ e.quits = false := by
  constructor
  · intro haction
    constructor
    · apply Bool.eq_false_of_not_eq_true
      intro hchange
      rw [(eventAction_eq_setThrottle_iff fl e _).mpr ⟨hchange, rfl⟩] at haction
      cases haction
    · apply Bool.eq_false_of_not_eq_true
      intro hquit
      rw [(eventAction_eq_clearRunning_iff fl e).mpr hquit] at haction
      cases haction
  · intro ⟨hchange, hquit⟩
    -- the other two actions are those of the two tests
    cases haction : eventAction fl e with
    | setThrottle percent =>
      rw [((eventAction_eq_setThrottle_iff fl e percent).mp haction).1] at hchange
      cases hchange
    | clearRunning =>
      rw [(eventAction_eq_clearRunning_iff fl e).mp haction] at hquit
      cases hquit
    | nothing => rfl

end RCControl
