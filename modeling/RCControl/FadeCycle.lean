import RCControl.FadeHandshake
import Mathlib.Algebra.Ring.Parity

/-! The order of the fades over a whole run, and the duties the LEDs are left at. -/
namespace RCControl.LedcFade
open StepSystem

/-- The duty that the fades ended so far have left an LED at. -/
def endDuty (ended : List Fade) (led : Led) : ℕ :=
  ended.foldl (fun duty f => if f.led = led then f.target else duty) 0

@[simp] theorem endDuty_concat (ended : List Fade) (f : Fade) (led : Led) :
    endDuty (ended ++ [f]) led = if f.led = led then f.target else endDuty ended led := by
  rw [endDuty, List.foldl_append]
  rfl

def setupFades : List Fade :=
  [ledcFade .blue ledcStartDuty ledcTargetDuty,
    ledcFadeWithInterrupt .blue ledcTargetDuty ledcStartDuty]

/-- The cycle of `loop`: each LED in turn, in and out. -/
def fadeOrder : List Fade :=
  [ledcFadeWithInterrupt .blue ledcStartDuty ledcTargetDuty,
    ledcFadeWithInterrupt .blue ledcTargetDuty ledcStartDuty,
    ledcFadeWithInterrupt .yellow ledcStartDuty ledcTargetDuty,
    ledcFadeWithInterrupt .yellow ledcTargetDuty ledcStartDuty,
    ledcFadeWithInterrupt .red ledcStartDuty ledcTargetDuty,
    ledcFadeWithInterrupt .red ledcTargetDuty ledcStartDuty]

theorem fadeOrder_index_lt (k : ℕ) : k % 6 < fadeOrder.length := Nat.mod_lt k (by decide)

/-- Fade number `n` of a run, counted from that of `setup`. -/
def fadeNumber : ℕ → Fade
  | 0 => ledcFade .blue ledcStartDuty ledcTargetDuty
  | 1 => ledcFadeWithInterrupt .blue ledcTargetDuty ledcStartDuty
  | k + 2 => fadeOrder.get ⟨k % 6, fadeOrder_index_lt k⟩

theorem fadeNumber_of_mod {k p : ℕ} (h : k % 6 = p) :
    fadeOrder[p]? = some (fadeNumber (k + 2)) := by
  subst h
  exact List.getElem?_eq_getElem (fadeOrder_index_lt k)

/-- A fade up from the dark and the fade of the same LED down again. -/
structure UpAndDown (up down : Fade) : Prop where
  led : down.led = up.led
  upStart : up.start = ledcStartDuty
  upTarget : up.target = ledcTargetDuty
  downStart : down.start = ledcTargetDuty
  downTarget : down.target = ledcStartDuty

theorem Case.upAndDown (c : Case) : UpAndDown (c.fade true) (c.fade false) :=
  ⟨rfl, rfl, rfl, rfl, rfl⟩

theorem fadeNumber_case (c : Case) (fadeIn : Bool) {k p : ℕ}
    (hplace : fadeOrder[p]? = some (c.fade fadeIn)) (hmod : k % 6 = p) :
    fadeNumber (k + 2) = c.fade fadeIn := by
  -- the first two fades are those of `setup`
  rw [fadeNumber_of_mod hmod] at hplace
  exact Option.some.inj hplace

theorem fadeNumber_upAndDown (j : ℕ) :
    UpAndDown (fadeNumber (2 * j)) (fadeNumber (2 * j + 1)) := by
  cases j with
  | zero => exact ⟨rfl, rfl, rfl, rfl, rfl⟩
  | succ j =>
    change UpAndDown (fadeNumber (2 * j + 2)) (fadeNumber (2 * j + 1 + 2))
    -- a pair starts at one of the even places of the cycle, each of them the fade in of a case
    obtain hmod | hmod | hmod : (2 * j) % 6 = 0 ∨ (2 * j) % 6 = 2 ∨ (2 * j) % 6 = 4 := by omega
    · have hnext : (2 * j + 1) % 6 = 1 := by omega
      rw [fadeNumber_case .blue true rfl hmod, fadeNumber_case .blue false rfl hnext]
      exact Case.upAndDown _
    · have hnext : (2 * j + 1) % 6 = 3 := by omega
      rw [fadeNumber_case .yellow true rfl hmod, fadeNumber_case .yellow false rfl hnext]
      exact Case.upAndDown _
    · have hnext : (2 * j + 1) % 6 = 5 := by omega
      rw [fadeNumber_case .red true rfl hmod, fadeNumber_case .red false rfl hnext]
      exact Case.upAndDown _

def firstFades (n : ℕ) : List Fade := (List.range n).map fadeNumber

theorem firstFades_succ (n : ℕ) : firstFades (n + 1) = firstFades n ++ [fadeNumber n] := by
  rw [firstFades, List.range_succ, List.map_append]
  rfl

theorem firstFades_take_two (n : ℕ) : (firstFades n).take 2 <+: setupFades := by
  -- taking two of `n` or `n` of two is the same prefix
  have hswap : (firstFades n).take 2 = (firstFades 2).take n := by
    rw [firstFades, firstFades, ← List.map_take, ← List.map_take, List.take_range,
      List.take_range, Nat.min_comm]
  rw [hswap]
  exact List.take_prefix n (firstFades 2)

theorem firstFades_drop_two {n k : ℕ} {f : Fade} (h : ((firstFades n).drop 2)[k]? = some f) :
    fadeOrder[k % 6]? = some f := by
  rw [List.getElem?_drop, firstFades, List.getElem?_map, Option.map_eq_some_iff] at h
  obtain ⟨i, hi, rfl⟩ := h
  obtain ⟨hlt, rfl⟩ := List.getElem?_eq_some_iff.mp hi
  rw [List.getElem_range, Nat.add_comm]
  exact fadeNumber_of_mod rfl

theorem endDuty_even (j : ℕ) (led : Led) : endDuty (firstFades (2 * j)) led = 0 := by
  induction j with
  | zero => rfl
  | succ j ih =>
    -- by pairs: the second fade brings the LED of the first one back
    have hpair := fadeNumber_upAndDown j
    rw [Nat.mul_succ, firstFades_succ, endDuty_concat, firstFades_succ, endDuty_concat, ih,
      hpair.led, hpair.downTarget]
    split_ifs <;> rfl

/-- Each fade takes up the duty its LED was left at, the others being dark. -/
theorem fadeNumber_continues (n : ℕ) :
    (fadeNumber n).start = endDuty (firstFades n) (fadeNumber n).led ∧
      ∀ led, led ≠ (fadeNumber n).led → endDuty (firstFades n) led = 0 := by
  obtain ⟨j, rfl | rfl⟩ := Nat.even_or_odd' n
  -- an even fade starts a pair from the dark
  · refine ⟨?_, fun led _ => endDuty_even j led⟩
    rw [endDuty_even, (fadeNumber_upAndDown j).upStart]
    rfl
  -- an odd one ends the pair that the fade before it has begun
  · have hpair := fadeNumber_upAndDown j
    rw [firstFades_succ, hpair.downStart, hpair.led]
    refine ⟨?_, ?_⟩
    · rw [endDuty_concat, if_pos rfl, hpair.upTarget]
    · intro led hne
      rw [endDuty_concat, if_neg hne.symm, endDuty_even]

/-- `fade_in` as the branch being run found it. -/
def Pc.direction : Pc → Option Bool
  | .starting _ fadeIn | .printing _ fadeIn | .turning _ fadeIn => some fadeIn
  | _ => none

/-- The fades that `setup` has started. -/
def Pc.setupStarted : Pc → ℕ
  | .fadingOn => 0
  | .reportingOn | .delaying | .fadingOff => 1
  | _ => 2

/-- How many turns of the cycle the two variables are behind the fades. -/
def Pc.lag : Pc → ℤ
  | .printing _ _ | .turning _ _ => 1
  | .stepping _ => 2
  | _ => 0

/-- The turn of the cycle that `current_led` and `fade_in` stand for. -/
def Sketch.turn (s : Sketch) : ℤ := 2 * s.currentLed + if s.fadeIn then 0 else 1

/-- The fades are in order and the variables know whose turn it is. -/
structure OnTurn (s : Sketch) : Prop where
  inOrder : s.started = firstFades s.started.length
  direction : ∀ fadeIn, s.pc.direction = some fadeIn → s.fadeIn = fadeIn
  setup : s.pc.inLoop = false →
    s.currentLed = 0 ∧ s.fadeIn = true ∧ s.started.length = s.pc.setupStarted
  loop : s.pc.inLoop = true →
    ∃ k : ℕ, s.started.length = k + 2 ∧ (k : ℤ) % 6 = (s.turn + s.pc.lag) % 6

section
variable {s t : Sketch}

theorem turn_next {currentLed : ℤ} {c : Case} (h : switchLed currentLed = some c) :
    (2 * c.next currentLed) % 6 = (2 * currentLed + 2) % 6 := by
  unfold switchLed at h
  -- the three cases, one after the other
  split_ifs at h with h0 h1 h2 <;> cases h
  · rw [h0]
    rfl
  · rw [h1]
    rfl
  · rw [h2]
    rfl

/-- The fade that a case is about to start is the next of the run. -/
theorem OnTurn.due (h : OnTurn s) (hknown : KnownLed s) {c : Case} {fadeIn : Bool}
    (hpc : s.pc = .starting c fadeIn) : c.fade fadeIn = fadeNumber s.started.length := by
  have hcase := hknown.runs c (by rw [hpc]; rfl)
  have hdirection := h.direction fadeIn (by rw [hpc]; rfl)
  obtain ⟨k, hlength, hk⟩ := h.loop (by rw [hpc]; rfl)
  have hlag : s.pc.lag = 0 := by rw [hpc]; rfl
  rw [Sketch.turn, hdirection, hlag] at hk
  have hmod : ∀ p : ℕ, 2 * s.currentLed + (if fadeIn then 0 else 1) = p → p < 6 → k % 6 = p := by
    intro p hp hlt
    omega
  rw [hlength]
  symm
  unfold switchLed at hcase
  -- the case fixes `current_led`, and with `fade_in` the place in the cycle
  split_ifs at hcase with h0 h1 h2 <;> cases hcase <;> cases fadeIn
  · exact fadeNumber_case .blue false rfl (hmod 1 (by rw [h0]; rfl) (by decide))
  · exact fadeNumber_case .blue true rfl (hmod 0 (by rw [h0]; rfl) (by decide))
  · exact fadeNumber_case .yellow false rfl (hmod 3 (by rw [h1]; rfl) (by decide))
  · exact fadeNumber_case .yellow true rfl (hmod 2 (by rw [h1]; rfl) (by decide))
  · exact fadeNumber_case .red false rfl (hmod 5 (by rw [h2]; rfl) (by decide))
  · exact fadeNumber_case .red true rfl (hmod 4 (by rw [h2]; rfl) (by decide))

theorem OnTurn.quiet (h : OnTurn s) (hstarted : t.started = s.started)
    (hdirection : ∀ fadeIn, t.pc.direction = some fadeIn → t.fadeIn = fadeIn)
    (hled : t.currentLed = s.currentLed) (hfadeIn : t.fadeIn = s.fadeIn)
    (hloop : t.pc.inLoop = s.pc.inLoop) (hsetup : t.pc.setupStarted = s.pc.setupStarted)
    (hlag : t.pc.lag = s.pc.lag) : OnTurn t where
  inOrder := by rw [hstarted]; exact h.inOrder
  direction := hdirection
  setup := by rw [hstarted, hled, hfadeIn, hloop, hsetup]; exact h.setup
  loop := by rw [hstarted, Sketch.turn, hled, hfadeIn, hloop, hlag]; exact h.loop

theorem OnTurn.begin_inOrder (h : OnTurn s) {f : Fade} (hf : f = fadeNumber s.started.length) :
    s.started ++ [f] = firstFades (s.started ++ [f]).length := by
  rw [List.length_append, List.length_singleton, firstFades_succ, ← h.inOrder, hf]

theorem OnTurn.move {a : Action} (h : OnTurn s) (hknown : KnownLed s) (hmove : Move s a t) :
    OnTurn t := by
  cases hmove with
  | fadesOn hpc | fadesOff hpc =>
    obtain ⟨hled, hfadeIn, hlength⟩ := h.setup (by rw [hpc]; rfl)
    rw [hpc] at hlength
    refine ⟨h.begin_inOrder (by rw [hlength]; rfl), by simp [Sketch.begin, Pc.direction], ?_, ?_⟩
    · intro _
      exact ⟨hled, hfadeIn, by simp [Sketch.begin, hlength, Pc.setupStarted]⟩
    · simp [Sketch.begin, Pc.inLoop]
  | reportsOn hpc | delays hpc | finds hpc _ | idles hpc _ | reports hpc | clears hpc =>
    refine h.quiet rfl ?_ rfl rfl (by rw [hpc]; rfl) (by rw [hpc]; rfl) (by rw [hpc]; rfl)
    simp [Sketch.println, Sketch.goto, Pc.direction]
  | reportsOff hpc =>
    -- `setup` returns with the cycle at its beginning
    obtain ⟨hled, hfadeIn, hlength⟩ := h.setup (by rw [hpc]; rfl)
    rw [hpc] at hlength
    refine ⟨h.inOrder, by simp [Sketch.println, Pc.direction], by simp [Sketch.println, Pc.inLoop],
      fun _ => ⟨0, hlength, ?_⟩⟩
    simp [Sketch.println, Sketch.turn, hled, hfadeIn, Pc.lag]
  | switches hpc _ =>
    refine h.quiet rfl ?_ rfl rfl (by rw [hpc]; rfl) (by rw [hpc]; rfl) (by rw [hpc]; rfl)
    simp [Sketch.goto, Pc.direction]
  | defaults hpc hcase =>
    obtain ⟨c, hsome⟩ := hknown.led
    rw [hsome] at hcase
    cases hcase
  -- the fades get ahead of the variables by one turn
  | @starts c fadeIn hpc =>
    obtain ⟨k, hlength, hk⟩ := h.loop (by rw [hpc]; rfl)
    have hdirection := h.direction fadeIn (by rw [hpc]; rfl)
    have hlag : s.pc.lag = 0 := by rw [hpc]; rfl
    rw [hlag] at hk
    refine ⟨h.begin_inOrder (h.due hknown hpc), ?_, by simp [Sketch.begin, Pc.inLoop], fun _ =>
      ⟨k + 1, by simp [Sketch.begin, hlength], ?_⟩⟩
    · simp [Sketch.begin, Pc.direction, hdirection]
    · change ((k + 1 : ℕ) : ℤ) % 6 = (s.turn + 1) % 6
      omega
  | prints hpc =>
    have hdirection := h.direction _ (by rw [hpc]; rfl)
    refine h.quiet rfl ?_ rfl rfl (by rw [hpc]; rfl) (by rw [hpc]; rfl) (by rw [hpc]; rfl)
    simp [Sketch.println, Pc.direction, hdirection]
  -- after a fade in it is the fade out of the same LED that is due
  | turnsOut hpc =>
    obtain ⟨k, hlength, hk⟩ := h.loop (by rw [hpc]; rfl)
    have hdirection := h.direction _ (by rw [hpc]; rfl)
    have hlag : s.pc.lag = 1 := by rw [hpc]; rfl
    rw [hlag, Sketch.turn, hdirection] at hk
    refine ⟨h.inOrder, by simp [Pc.direction], by simp [Pc.inLoop], fun _ => ⟨k, hlength, ?_⟩⟩
    simpa [Sketch.turn, Pc.lag] using hk
  -- after a fade out the turn is made up in two statements, `fade_in` first
  | turnsIn hpc =>
    obtain ⟨k, hlength, hk⟩ := h.loop (by rw [hpc]; rfl)
    have hdirection := h.direction _ (by rw [hpc]; rfl)
    have hlag : s.pc.lag = 1 := by rw [hpc]; rfl
    rw [hlag, Sketch.turn, hdirection] at hk
    refine ⟨h.inOrder, by simp [Pc.direction], by simp [Pc.inLoop], fun _ => ⟨k, hlength, ?_⟩⟩
    change (k : ℤ) % 6 = (2 * s.currentLed + 0 + 2) % 6
    simpa [add_assoc] using hk
  -- and then `current_led`
  | @advances c hpc =>
    obtain ⟨k, hlength, hk⟩ := h.loop (by rw [hpc]; rfl)
    have hlag : s.pc.lag = 2 := by rw [hpc]; rfl
    rw [hlag, Sketch.turn] at hk
    have hnext := turn_next (hknown.runs c (by rw [hpc]; rfl))
    refine ⟨h.inOrder, by simp [Pc.direction], by simp [Pc.inLoop], fun _ => ⟨k, hlength, ?_⟩⟩
    change (k : ℤ) % 6 = (2 * c.next s.currentLed + (if s.fadeIn then 0 else 1) + 0) % 6
    omega
  | complains hpc => exact absurd hpc hknown.notDefault
  | interrupts _ _ | ends _ _ => exact ⟨h.inOrder, h.direction, h.setup, h.loop⟩

/-- The fades started are those ended and at most one in flight. -/
structure OneAtATime (s : Sketch) : Prop where
  history : s.started = s.ended ++ s.fading
  single : s.fading.length ≤ 1

theorem Relays.fading_nil {σ : Relay} (h : Relays s σ) (hall : AllInterrupt s)
    (howes : s.pc.owes = true) (hon : s.pc ≠ .reportingOn) (hdelay : s.pc ≠ .delaying) :
    s.fading = [] := by
  obtain hpc | hpc | hinterrupt := hall
  · exact absurd hpc hon
  · exact absurd hpc hdelay
  · have hcount := List.countP_eq_length.mpr hinterrupt
    exact List.eq_nil_of_length_eq_zero (hcount.symm.trans (h.of_owes howes).1)

theorem OneAtATime.move {σ : Relay} {a : Action} (h : OneAtATime s) (hrelays : Relays s σ)
    (hall : AllInterrupt s) (hmove : Move s a t) : OneAtATime t := by
  -- a fade is started when none is in flight
  have hbegin : ∀ f, s.fading = [] → t.fading = s.fading ++ [f] → t.started = s.started ++ [f] →
      t.ended = s.ended → OneAtATime t := by
    intro f hempty hfading hstarted hended
    refine ⟨?_, by simp [hfading, hempty]⟩
    rw [hstarted, hended, hfading, h.history, List.append_assoc]
  have hend : ∀ i f, s.fading[i]? = some f → t.fading = s.fading.eraseIdx i →
      t.started = s.started → t.ended = s.ended ++ [f] → OneAtATime t := by
    intro i f hget hfading hstarted hended
    -- the fade that ends is the only one in flight
    obtain ⟨hi, hf⟩ := List.getElem?_eq_some_iff.mp hget
    have hsingle := h.single
    obtain ⟨g, hg⟩ := List.length_eq_one_iff.mp (show s.fading.length = 1 by omega)
    obtain rfl : i = 0 := by omega
    obtain rfl : g = f := by simpa [hg] using hf
    refine ⟨?_, by simp [hfading, hg]⟩
    rw [hstarted, hended, hfading, h.history, hg]
    simp
  cases hmove with
  | fadesOn hpc | fadesOff hpc | starts hpc =>
    exact hbegin _ (hrelays.fading_nil hall (by rw [hpc]; rfl) (by simp [hpc]) (by simp [hpc]))
      rfl rfl rfl
  | interrupts hget _ | ends hget _ => exact hend _ _ hget rfl rfl rfl
  | _ => exact ⟨h.history, h.single⟩

/-- What every run whose `setup` waits long enough keeps. -/
structure Cycles (s : Sketch) : Prop where
  known : KnownLed s
  relays : ∃ σ, Relays s σ
  allInterrupt : AllInterrupt s
  onTurn : OnTurn s
  oneAtATime : OneAtATime s

theorem cycles_of_run {as : List Action} (hrun : Run step SetupFadeEnds .initial as s) :
    Cycles s := by
  have hinitial : Cycles .initial := by
    refine ⟨KnownLed.initial, ⟨.start, Relays.initial⟩, ?_, ⟨rfl, ?_, ?_, ?_⟩, ⟨rfl, ?_⟩⟩
    all_goals simp [Sketch.initial, AllInterrupt, Pc.direction, Pc.inLoop, Pc.setupStarted]
  -- the five facts are kept together: each move lemma uses those before it
  refine hrun.invariant Cycles hinitial ?_
  intro t a u h hok hstep
  have hmove := move_of_step hstep
  obtain ⟨σ, hrelays⟩ := h.relays
  exact ⟨h.known.move hmove, hrelays.move h.known hmove, h.allInterrupt.move hok hmove,
    h.onTurn.move h.known hmove, h.oneAtATime.move hrelays h.allInterrupt hmove⟩

/-- A step that starts a fade finds the one before it ended, and starts the next in order. -/
theorem Cycles.starts {a : Action} {f : Fade} (h : Cycles s) (hmove : Move s a t)
    (hstarted : t.started = s.started ++ [f]) :
    s.fading = [] ∧ f = fadeNumber s.ended.length := by
  obtain ⟨σ, hrelays⟩ := h.relays
  -- only the three moves that start a fade lengthen the history, and each owes one
  have hempty : s.fading = [] := by
    cases hmove with
    | fadesOn hpc | fadesOff hpc | starts hpc =>
      exact hrelays.fading_nil h.allInterrupt (by rw [hpc]; rfl) (by simp [hpc]) (by simp [hpc])
    | _ => simp [Sketch.println, Sketch.goto, Sketch.finish, Sketch.ledFadeIsr] at hstarted
  have hnext := (h.onTurn.move h.known hmove).inOrder
  have hended : s.started = s.ended := by rw [h.oneAtATime.history, hempty, List.append_nil]
  -- the order before and after the step differ by the fade started
  rw [hstarted, List.length_append, List.length_singleton, firstFades_succ,
    ← h.onTurn.inOrder] at hnext
  rw [← hended]
  exact ⟨hempty, List.singleton_inj.mp (List.append_cancel_left hnext)⟩

end

/-- Each fade takes up the duty its LED was left at while the other LEDs are dark, and
`loop` goes through its cycle, in every run whose `setup` waits for its first fade. -/
theorem fades_follow_cycle (as : List Action) (s : Sketch)
    (hrun : Run step SetupFadeEnds .initial as s) :
    (∀ a t f, step a s = some t → t.started = s.started ++ [f] →
      s.fading = [] ∧ f.start = endDuty s.ended f.led ∧
        ∀ led, led ≠ f.led → endDuty s.ended led = 0) ∧
    s.started.take 2 <+: setupFades ∧
    (∀ k f, (s.started.drop 2)[k]? = some f → fadeOrder[k % 6]? = some f) ∧
    s.pc ≠ .unknownLed := by
  have hcycles := cycles_of_run hrun
  refine ⟨?_, ?_, ?_, hcycles.known.notDefault⟩
  · intro a t f hstep hstarted
    obtain ⟨hempty, hf⟩ := hcycles.starts (move_of_step hstep) hstarted
    -- nothing is in flight, so the fades ended are the first ones of the run
    have hended : s.ended = firstFades s.ended.length := by
      have hinOrder := hcycles.onTurn.inOrder
      rw [hcycles.oneAtATime.history, hempty, List.append_nil] at hinOrder
      exact hinOrder
    have hcontinues := fadeNumber_continues s.ended.length
    rw [← hf, ← hended] at hcontinues
    exact ⟨hempty, hcontinues⟩
  · rw [hcycles.onTurn.inOrder]
    exact firstFades_take_two _
  · intro k f hget
    rw [hcycles.onTurn.inOrder] at hget
    exact firstFades_drop_two hget

/-- The first fade of the cycle, due once the interrupt of `setup`'s is handled. -/
theorem blue_fades_in_after_setup : ∃ s t, Run step SetupFadeEnds .initial
      (setupSchedule ++ List.replicate 4 .sketch) s ∧ step .sketch s = some t ∧
    t.started = s.started ++ [ledcFadeWithInterrupt .blue ledcStartDuty ledcTargetDuty] ∧
    s.fading = [] ∧ endDuty s.ended .blue = ledcStartDuty ∧
    s.started.take 2 <+: setupFades := by
  -- the interrupt of the second fade of `setup` is handled up to the start of the next fade
  have hexec : (exec (gate setupFadeEndsTest step) (setupSchedule ++ List.replicate 4 .sketch)
      .initial).map (fun s => decide ((sketchStep s).started =
        s.started ++ [ledcFadeWithInterrupt .blue ledcStartDuty ledcTargetDuty])) = some true := by
    decide +kernel
  obtain ⟨s, hs, hstate⟩ := Option.map_eq_some_iff.mp hexec
  have hstarted := of_decide_eq_true hstate
  have hrun := run_of_exec_gate setupFadeEnds_of_test hs
  obtain ⟨hfade, hsetup, -, -⟩ := fades_follow_cycle _ s hrun
  obtain ⟨hempty, hduty, -⟩ := hfade .sketch (sketchStep s) _ rfl hstarted
  exact ⟨s, sketchStep s, hrun, rfl, hstarted, hempty, hduty.symm, hsetup⟩

end RCControl.LedcFade
