import RCControl.StepSystem
import Mathlib.Data.Int.Notation

/-! The fade sketch of the Arduino side: `setup`, `loop` and the interrupt routine
statement by statement, with the fades that the LEDC library has in flight. -/
namespace RCControl.LedcFade
open StepSystem

/-- `LED_BLUE`, `LED_YELLOW` and `LED_RED`. -/
inductive Led
  | blue
  | yellow
  | red
deriving DecidableEq, Repr

/-- `LEDC_START_DUTY` and `LEDC_TARGET_DUTY`. -/
def ledcStartDuty : ℕ := 0
def ledcTargetDuty : ℕ := 4095

/-- A fade as it is started; `interrupt` when `LED_FADE_ISR` runs at its end. -/
structure Fade where
  led : Led
  start : ℕ
  target : ℕ
  interrupt : Bool
deriving DecidableEq, Repr

def ledcFade (led : Led) (start target : ℕ) : Fade := ⟨led, start, target, false⟩

def ledcFadeWithInterrupt (led : Led) (start target : ℕ) : Fade := ⟨led, start, target, true⟩

/-- A case of the `switch` in `loop`: its LED, its two messages and what it makes of
`current_led` after a fade out. -/
structure Case where
  led : Led
  inStarted : String
  outStarted : String
  next : ℤ → ℤ

namespace Case

def blue : Case where
  led := .blue
  inStarted := "blue LED Fade in started."
  outStarted := "blue LED Fade out started."
  next currentLed := currentLed + 1

def yellow : Case where
  led := .yellow
  inStarted := "yellow LED Fade in started."
  outStarted := "yellow LED Fade out started."
  next currentLed := currentLed + 1

def red : Case where
  led := .red
  inStarted := "Red LED Fade in started."
  outStarted := "Red LED Fade out started."
  next _ := 0

/-- The fade a case starts, in or out. -/
def fade (c : Case) (fadeIn : Bool) : Fade :=
  if fadeIn then ledcFadeWithInterrupt c.led ledcStartDuty ledcTargetDuty
  else ledcFadeWithInterrupt c.led ledcTargetDuty ledcStartDuty

def message (c : Case) (fadeIn : Bool) : String :=
  if fadeIn then c.inStarted else c.outStarted

end Case

/-- `switch (current_led)`; `none` is the default branch. -/
def switchLed (currentLed : ℤ) : Option Case :=
  if currentLed = 0 then some .blue
  else if currentLed = 1 then some .yellow
  else if currentLed = 2 then some .red
  else none

/-- Where the sketch is. The first five points are in `setup`, the others in `loop`,
of which `testing` is the head. -/
inductive Pc
  | fadingOn
  | reportingOn
  | delaying
  | fadingOff
  | reportingOff
  | testing
  | reporting
  | clearing
  | switching
  | starting (c : Case) (fadeIn : Bool)
  | printing (c : Case) (fadeIn : Bool)
  | turning (c : Case) (fadeIn : Bool)
  | stepping (c : Case)
  | unknownLed

/-- The globals of the sketch and its output, the fades in flight, and the history:
the fades started and ended, and how often the flag was cleared. -/
structure Sketch where
  fadeEnded : Bool
  fadeIn : Bool
  currentLed : ℤ
  pc : Pc
  serial : List String
  fading : List Fade
  started : List Fade
  ended : List Fade
  handled : ℕ

/-- The static initialisers. -/
def Sketch.initial : Sketch where
  fadeEnded := false
  fadeIn := true
  currentLed := 0
  pc := .fadingOn
  serial := []
  fading := []
  started := []
  ended := []
  handled := 0

namespace Sketch

def goto (pc : Pc) (s : Sketch) : Sketch := { s with pc := pc }

def println (line : String) (pc : Pc) (s : Sketch) : Sketch :=
  { s with pc := pc, serial := s.serial ++ [line] }

/-- The library starts a fade. -/
def begin (f : Fade) (pc : Pc) (s : Sketch) : Sketch :=
  { s with pc := pc, fading := s.fading ++ [f], started := s.started ++ [f] }

def ledFadeIsr (s : Sketch) : Sketch := { s with fadeEnded := true }

/-- The library ends the fade at place `i`. -/
def finish (i : ℕ) (f : Fade) (s : Sketch) : Sketch :=
  { s with fading := s.fading.eraseIdx i, ended := s.ended ++ [f] }

end Sketch

/-- The next statement of the sketch. -/
def sketchStep (s : Sketch) : Sketch :=
  match s.pc with
  | .fadingOn => s.begin (ledcFade .blue ledcStartDuty ledcTargetDuty) .reportingOn
  | .reportingOn => s.println "LED Fade on started." .delaying
  -- how long the delay lasts is not modelled: any number of fades may end meanwhile
  | .delaying => s.goto .fadingOff
  | .fadingOff => s.begin (ledcFadeWithInterrupt .blue ledcTargetDuty ledcStartDuty) .reportingOff
  | .reportingOff => s.println "LED Fade off started." .testing
  | .testing => s.goto (if s.fadeEnded then .reporting else .testing)
  | .reporting => s.println "LED fade ended" .clearing
  | .clearing => { s with pc := .switching, fadeEnded := false, handled := s.handled + 1 }
  | .switching =>
    match switchLed s.currentLed with
    | some c => s.goto (.starting c s.fadeIn)
    | none => s.goto .unknownLed
  | .starting c fadeIn => s.begin (c.fade fadeIn) (.printing c fadeIn)
  | .printing c fadeIn => s.println (c.message fadeIn) (.turning c fadeIn)
  | .turning c fadeIn =>
    { s with fadeIn := !fadeIn, pc := if fadeIn then .testing else .stepping c }
  | .stepping c => { s with currentLed := c.next s.currentLed, pc := .testing }
  | .unknownLed => s.println "frero wtf" .testing

/-- A statement of the sketch, or the end of one of the fades in flight. -/
inductive Action
  | sketch
  | fadeEnds (i : ℕ)
deriving DecidableEq, Repr

/-- The end of a fade, with the interrupt routine if it was asked for. -/
def fadeEndsStep (i : ℕ) (s : Sketch) : Option Sketch :=
  match s.fading[i]? with
  | none => none
  | some f =>
    let t := s.finish i f
    some (if f.interrupt then t.ledFadeIsr else t)

def step (a : Action) (s : Sketch) : Option Sketch :=
  match a with
  | .sketch => some (sketchStep s)
  | .fadeEnds i => fadeEndsStep i s

/-- The delay of `setup` returns when its fade has ended. -/
def SetupFadeEnds (s : Sketch) (a : Action) : Prop :=
  a = .sketch → s.pc = .delaying → s.fading = []

/-- What one step can do. -/
inductive Move (s : Sketch) : Action → Sketch → Prop
  | fadesOn (hpc : s.pc = .fadingOn) :
      Move s .sketch (s.begin (ledcFade .blue ledcStartDuty ledcTargetDuty) .reportingOn)
  | reportsOn (hpc : s.pc = .reportingOn) :
      Move s .sketch (s.println "LED Fade on started." .delaying)
  | delays (hpc : s.pc = .delaying) : Move s .sketch (s.goto .fadingOff)
  | fadesOff (hpc : s.pc = .fadingOff) : Move s .sketch
      (s.begin (ledcFadeWithInterrupt .blue ledcTargetDuty ledcStartDuty) .reportingOff)
  | reportsOff (hpc : s.pc = .reportingOff) :
      Move s .sketch (s.println "LED Fade off started." .testing)
  | finds (hpc : s.pc = .testing) (hended : s.fadeEnded = true) :
      Move s .sketch (s.goto .reporting)
  | idles (hpc : s.pc = .testing) (hended : s.fadeEnded = false) :
      Move s .sketch (s.goto .testing)
  | reports (hpc : s.pc = .reporting) : Move s .sketch (s.println "LED fade ended" .clearing)
  | clears (hpc : s.pc = .clearing) : Move s .sketch
      { s with pc := .switching, fadeEnded := false, handled := s.handled + 1 }
  | switches {c : Case} (hpc : s.pc = .switching) (hcase : switchLed s.currentLed = some c) :
      Move s .sketch (s.goto (.starting c s.fadeIn))
  | defaults (hpc : s.pc = .switching) (hcase : switchLed s.currentLed = none) :
      Move s .sketch (s.goto .unknownLed)
  | starts {c : Case} {fadeIn : Bool} (hpc : s.pc = .starting c fadeIn) :
      Move s .sketch (s.begin (c.fade fadeIn) (.printing c fadeIn))
  | prints {c : Case} {fadeIn : Bool} (hpc : s.pc = .printing c fadeIn) :
      Move s .sketch (s.println (c.message fadeIn) (.turning c fadeIn))
  | turnsOut {c : Case} (hpc : s.pc = .turning c true) :
      Move s .sketch { s with fadeIn := false, pc := .testing }
  | turnsIn {c : Case} (hpc : s.pc = .turning c false) :
      Move s .sketch { s with fadeIn := true, pc := .stepping c }
  | advances {c : Case} (hpc : s.pc = .stepping c) :
      Move s .sketch { s with currentLed := c.next s.currentLed, pc := .testing }
  | complains (hpc : s.pc = .unknownLed) : Move s .sketch (s.println "frero wtf" .testing)
  | interrupts {i : ℕ} {f : Fade} (hfading : s.fading[i]? = some f)
      (hinterrupt : f.interrupt = true) : Move s (.fadeEnds i) (s.finish i f).ledFadeIsr
  | ends {i : ℕ} {f : Fade} (hfading : s.fading[i]? = some f)
      (hinterrupt : f.interrupt = false) : Move s (.fadeEnds i) (s.finish i f)

theorem move_of_step {a : Action} {s t : Sketch} (h : step a s = some t) : Move s a t := by
  cases a with
  | sketch =>
    obtain rfl : sketchStep s = t := Option.some.inj h
    unfold sketchStep
    -- the points of `sketchStep` in their order
    split
    · next hpc => exact .fadesOn hpc
    · next hpc => exact .reportsOn hpc
    · next hpc => exact .delays hpc
    · next hpc => exact .fadesOff hpc
    · next hpc => exact .reportsOff hpc
    · next hpc =>
      by_cases hended : s.fadeEnded = true
      · rw [if_pos hended]
        exact .finds hpc hended
      · rw [if_neg hended]
        exact .idles hpc (eq_false_of_ne_true hended)
    · next hpc => exact .reports hpc
    · next hpc => exact .clears hpc
    · next hpc =>
      split
      · next hcase => exact .switches hpc hcase
      · next hcase => exact .defaults hpc hcase
    · next hpc => exact .starts hpc
    · next hpc => exact .prints hpc
    · next c fadeIn hpc =>
      cases fadeIn with
      | true => exact .turnsOut hpc
      | false => exact .turnsIn hpc
    · next hpc => exact .advances hpc
    · next hpc => exact .complains hpc
  | fadeEnds i =>
    change fadeEndsStep i s = some t at h
    unfold fadeEndsStep at h
    split at h
    · cases h
    · next f hfading =>
      cases hinterrupt : f.interrupt <;> simp only [hinterrupt] at h <;> cases h
      · exact .ends hfading hinterrupt
      · exact .interrupts hfading hinterrupt

end RCControl.LedcFade
