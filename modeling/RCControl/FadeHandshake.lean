import RCControl.LedcFade
import RCControl.Relay
import Mathlib.Data.List.Perm.Basic
import Mathlib.Tactic.SplitIfs

/-! The flag between `loop` and the interrupt routine as a relay: every fade is
started by a turn of the sketch, and every completion is taken once. -/
namespace RCControl.LedcFade
open StepSystem

/-- The case of the `switch` that is being run. -/
def Pc.runs : Pc → Option Case
  | .starting c _ | .printing c _ | .turning c _ | .stepping c => some c
  | _ => none

/-- The sketch has yet to start the next fade with the interrupt. -/
def Pc.owes : Pc → Bool
  | .fadingOn | .reportingOn | .delaying | .fadingOff | .switching | .starting _ _ => true
  | _ => false

/-- The flag has been found set and is not cleared yet. -/
def Pc.found : Pc → Bool
  | .reporting | .clearing => true
  | _ => false

/-- Between the clearing of the flag and the start of the next fade. -/
def Pc.betweenFades : Pc → Bool
  | .switching | .starting _ _ => true
  | _ => false

/-- `setup` has returned. -/
def Pc.inLoop : Pc → Bool
  | .fadingOn | .reportingOn | .delaying | .fadingOff | .reportingOff => false
  | _ => true

/-- The fades in flight that will raise the interrupt. -/
def Sketch.inFlight (s : Sketch) : ℕ := s.fading.countP (·.interrupt)

@[simp] theorem Case.fade_interrupt (c : Case) (fadeIn : Bool) :
    (c.fade fadeIn).interrupt = true := by
  cases fadeIn <;> rfl

/-- Every case leads to a case: the default branch is out of reach. -/
theorem switchLed_next {currentLed : ℤ} {c : Case} (h : switchLed currentLed = some c) :
    ∃ c', switchLed (c.next currentLed) = some c' := by
  unfold switchLed at h
  split_ifs at h with h0 h1 h2 <;> cases h
  · exact ⟨.yellow, by rw [h0]; rfl⟩
  · exact ⟨.red, by rw [h1]; rfl⟩
  · exact ⟨.blue, rfl⟩

/-- The `switch` always finds its case. -/
structure KnownLed (s : Sketch) : Prop where
  led : ∃ c, switchLed s.currentLed = some c
  runs : ∀ c, s.pc.runs = some c → switchLed s.currentLed = some c
  notDefault : s.pc ≠ .unknownLed

theorem KnownLed.initial : KnownLed .initial where
  led := ⟨.blue, rfl⟩
  runs := by simp [Sketch.initial, Pc.runs]
  notDefault := by simp [Sketch.initial]

theorem KnownLed.move {s t : Sketch} {a : Action} (h : KnownLed s) (hmove : Move s a t) :
    KnownLed t := by
  -- between two cases nothing is run
  have hidle : t.currentLed = s.currentLed → t.pc.runs = none → t.pc ≠ .unknownLed →
      KnownLed t := by
    intro hled hruns hpc
    refine ⟨by rw [hled]; exact h.led, ?_, hpc⟩
    intro c hc
    rw [hruns] at hc
    cases hc
  -- and inside a case it is the one of `current_led`
  have hcase : ∀ c, t.currentLed = s.currentLed → switchLed s.currentLed = some c →
      t.pc.runs = some c → t.pc ≠ .unknownLed → KnownLed t := by
    intro c hled hc hruns hpc
    refine ⟨by rw [hled]; exact h.led, ?_, hpc⟩
    intro c' hc'
    rw [hruns] at hc'
    obtain rfl : c = c' := Option.some.inj hc'
    rw [hled]
    exact hc
  cases hmove with
  | fadesOn _ | reportsOn _ | delays _ | fadesOff _ | reportsOff _ | finds _ _ | idles _ _
  | reports _ | clears _ | turnsOut _ =>
    exact hidle rfl rfl (by simp [Sketch.begin, Sketch.println, Sketch.goto])
  | @switches c hpc hc => exact hcase c rfl hc rfl (by simp [Sketch.goto])
  | defaults hpc hc =>
    obtain ⟨c, hsome⟩ := h.led
    rw [hsome] at hc
    cases hc
  | @starts c fadeIn hpc | @prints c fadeIn hpc | @turnsIn c hpc =>
    have hruns := h.runs c (by rw [hpc]; rfl)
    exact hcase c rfl hruns rfl (by simp [Sketch.begin, Sketch.println])
  | @advances c hpc =>
    -- `current_led` moves on, to a case again
    refine ⟨switchLed_next (h.runs c (by rw [hpc]; rfl)), ?_, by simp⟩
    simp [Pc.runs]
  | complains hpc => exact absurd hpc h.notDefault
  | interrupts _ _ | ends _ _ => exact ⟨h.led, h.runs, h.notDefault⟩

/-- The sketch and its fades are in the state `σ` of the relay. -/
structure Relays (s : Sketch) (σ : Relay) : Prop where
  issued : s.started.countP (·.interrupt) = σ.issued
  completed : s.ended.countP (·.interrupt) = σ.completed
  handled : s.handled = σ.taken
  inFlight : s.inFlight = σ.issued - σ.completed
  flag : s.fadeEnded = true ↔ σ.Waiting
  owes : s.pc.owes = true ↔ σ.Free
  found : s.pc.found = true → σ.Waiting

theorem Relays.initial : Relays .initial .start where
  issued := rfl
  completed := rfl
  handled := rfl
  inFlight := rfl
  flag := by simp [Sketch.initial, Relay.start, Relay.Waiting]
  owes := by simp [Sketch.initial, Pc.owes, Relay.start_free]
  found := by simp [Sketch.initial, Pc.found]

section
variable {s t : Sketch} {σ : Relay}

theorem Relays.quiet (h : Relays s σ) (hstarted : t.started = s.started)
    (hended : t.ended = s.ended) (hfading : t.fading = s.fading) (hhandled : t.handled = s.handled)
    (hflag : t.fadeEnded = s.fadeEnded) (howes : t.pc.owes = s.pc.owes)
    (hfound : t.pc.found = true → s.fadeEnded = true) : Relays t σ where
  issued := by rw [hstarted]; exact h.issued
  completed := by rw [hended]; exact h.completed
  handled := by rw [hhandled]; exact h.handled
  inFlight := by rw [← h.inFlight, Sketch.inFlight, hfading, Sketch.inFlight]
  flag := by rw [hflag]; exact h.flag
  owes := by rw [howes]; exact h.owes
  found := fun hf => h.flag.mp (hfound hf)

theorem Relays.begin (h : Relays s σ) {f : Fade} {pc : Pc} (hfade : f.interrupt = true)
    (howed : s.pc.owes = true) (howes : pc.owes = false) (hfound : pc.found = false) :
    Relays (s.begin f pc) (σ.issue (h.owes.mp howed)) where
  issued := by
    rw [Sketch.begin, List.countP_append, h.issued, List.countP_singleton, if_pos hfade]
    rfl
  completed := h.completed
  handled := h.handled
  inFlight := by
    have hcount := h.inFlight
    have hle := σ.completed_le
    rw [Sketch.inFlight] at hcount
    rw [Sketch.inFlight, Sketch.begin, List.countP_append, hcount, List.countP_singleton,
      if_pos hfade]
    change σ.issued - σ.completed + 1 = σ.issued + 1 - σ.completed
    omega
  flag := h.flag
  owes := by
    -- what was owed has been issued
    have hnot : ¬(σ.issue (h.owes.mp howed)).Free := fun hfree =>
      (Relay.not_inFlight_of_free _ hfree) (σ.issue_inFlight _)
    rw [Sketch.begin, howes]
    simp [hnot]
  found := by
    rw [Sketch.begin, hfound]
    simp

theorem countP_eraseIdx_add {i : ℕ} {f : Fade} (hfading : s.fading[i]? = some f) :
    (s.fading.eraseIdx i).countP (·.interrupt) + (if f.interrupt then 1 else 0) =
      s.fading.countP (·.interrupt) := by
  obtain ⟨hi, hf⟩ := List.getElem?_eq_some_iff.mp hfading
  -- the list is the erased element in front of the rest, up to order
  have hperm := List.getElem_cons_eraseIdx_perm hi
  rw [hf] at hperm
  rw [← hperm.countP_eq, List.countP_cons]

theorem Relays.interrupt (h : Relays s σ) {i : ℕ} {f : Fade} (hfading : s.fading[i]? = some f)
    (hfade : f.interrupt = true) : ∃ τ, Relays (s.finish i f).ledFadeIsr τ := by
  have hcount := countP_eraseIdx_add hfading
  rw [if_pos hfade] at hcount
  have hbefore := h.inFlight
  rw [Sketch.inFlight] at hbefore
  -- the fade that ends is counted, so something is in flight
  have hinFlight : σ.InFlight := by
    unfold Relay.InFlight
    omega
  refine ⟨σ.complete hinFlight, h.issued, ?_, h.handled, ?_, ?_, h.owes, ?_⟩
  · change (s.ended ++ [f]).countP _ = σ.completed + 1
    rw [List.countP_append, h.completed, List.countP_singleton, if_pos hfade]
  · change (s.fading.eraseIdx i).countP _ = σ.issued - (σ.completed + 1)
    omega
  · exact iff_of_true rfl (σ.complete_waiting hinFlight)
  · intro _
    exact σ.complete_waiting hinFlight

theorem Relays.finish (h : Relays s σ) {i : ℕ} {f : Fade} (hfading : s.fading[i]? = some f)
    (hfade : f.interrupt = false) : Relays (s.finish i f) σ where
  issued := h.issued
  completed := by
    change (s.ended ++ [f]).countP _ = σ.completed
    rw [List.countP_append, h.completed, List.countP_singleton, hfade]
    rfl
  handled := h.handled
  inFlight := by
    have hcount := countP_eraseIdx_add hfading
    rw [hfade] at hcount
    rw [← h.inFlight]
    exact hcount
  flag := h.flag
  owes := h.owes
  found := h.found

theorem Relays.clear (h : Relays s σ) (hpc : s.pc = .clearing) : ∃ τ,
    Relays { s with pc := .switching, fadeEnded := false, handled := s.handled + 1 } τ := by
  have hwaiting := h.found (by rw [hpc]; rfl)
  have hfree := σ.take_free hwaiting
  -- `clearing` is only reached past the test that found the flag set
  refine ⟨σ.take hwaiting, h.issued, h.completed, ?_, h.inFlight, ?_, ?_, ?_⟩
  · change s.handled + 1 = σ.taken + 1
    rw [h.handled]
  · simp [Relay.not_waiting_of_free _ hfree]
  · simp [Pc.owes, hfree]
  · simp [Pc.found]

theorem Relays.move {a : Action} (h : Relays s σ) (hknown : KnownLed s) (hmove : Move s a t) :
    ∃ τ, Relays t τ := by
  cases hmove with
  -- the first fade of `setup` raises no interrupt and is not counted
  | fadesOn hpc =>
    refine ⟨σ, ?_, h.completed, h.handled, ?_, h.flag, ?_, ?_⟩
    · rw [← h.issued, Sketch.begin, List.countP_append]
      rfl
    · rw [← h.inFlight, Sketch.inFlight, Sketch.begin, List.countP_append]
      rfl
    · rw [← h.owes, hpc]
      simp [Sketch.begin, Pc.owes]
    · simp [Sketch.begin, Pc.found]
  | reportsOn hpc | delays hpc | reportsOff hpc | idles hpc _ | switches hpc _ | prints hpc
  | turnsOut hpc | turnsIn hpc | advances hpc =>
    refine ⟨σ, h.quiet rfl rfl rfl rfl rfl (by rw [hpc]; rfl) ?_⟩
    simp [Sketch.println, Sketch.goto, Pc.found]
  | finds hpc hended => exact ⟨σ, h.quiet rfl rfl rfl rfl rfl (by rw [hpc]; rfl) (fun _ => hended)⟩
  | reports hpc =>
    have hended := h.flag.mpr (h.found (by rw [hpc]; rfl))
    exact ⟨σ, h.quiet rfl rfl rfl rfl rfl (by rw [hpc]; rfl) (fun _ => hended)⟩
  | fadesOff hpc => exact ⟨_, h.begin rfl (by rw [hpc]; rfl) rfl rfl⟩
  | starts hpc => exact ⟨_, h.begin (Case.fade_interrupt _ _) (by rw [hpc]; rfl) rfl rfl⟩
  | clears hpc => exact h.clear hpc
  | defaults hpc hc =>
    obtain ⟨c, hsome⟩ := hknown.led
    rw [hsome] at hc
    cases hc
  | complains hpc => exact absurd hpc hknown.notDefault
  | interrupts hfading hinterrupt => exact h.interrupt hfading hinterrupt
  | ends hfading hinterrupt => exact ⟨σ, h.finish hfading hinterrupt⟩

theorem relays_of_reachable (hreach : Reachable step .initial s) :
    KnownLed s ∧ ∃ σ, Relays s σ := by
  refine hreach.invariant (fun s => KnownLed s ∧ ∃ σ, Relays s σ)
    ⟨KnownLed.initial, .start, Relays.initial⟩ ?_
  rintro t a u ⟨hknown, σ, hrelays⟩ hstep
  have hmove := move_of_step hstep
  exact ⟨hknown.move hmove, hrelays.move hknown hmove⟩

theorem Move.started {a : Action} (hmove : Move s a t) :
    t.started = s.started ∨ s.pc.owes = true := by
  cases hmove with
  | fadesOn hpc | fadesOff hpc | starts hpc =>
    right
    rw [hpc]
    rfl
  | _ => exact Or.inl rfl

theorem Relays.phases (h : Relays s σ) :
    (s.inFlight = 1 ∧ s.fadeEnded = false ∧ s.pc.owes = false ∧ σ.completed = σ.taken) ∨
    (s.inFlight = 0 ∧ s.fadeEnded = true ∧ s.pc.owes = false ∧ σ.completed = σ.taken + 1) ∨
    (s.inFlight = 0 ∧ s.fadeEnded = false ∧ s.pc.owes = true ∧ σ.completed = σ.taken) := by
  have htaken := σ.taken_le
  have hcompleted := σ.completed_le
  have hissued := σ.issued_le
  have hcount := h.inFlight
  -- each phase of the relay fixes the count, the flag and what is owed
  obtain ⟨hfly, hwait, hfree⟩ | ⟨hfly, hwait, hfree⟩ | ⟨hfly, hwait, hfree⟩ := σ.exactly_one
  · refine Or.inl ⟨?_, ?_, ?_, ?_⟩
    · unfold Relay.InFlight at hfly
      omega
    · exact eq_false_of_ne_true fun hflag => hwait (h.flag.mp hflag)
    · exact eq_false_of_ne_true fun howes => hfree (h.owes.mp howes)
    · unfold Relay.Waiting at hwait
      omega
  · refine Or.inr (Or.inl ⟨?_, h.flag.mpr hwait, ?_, ?_⟩)
    · unfold Relay.InFlight at hfly
      omega
    · exact eq_false_of_ne_true fun howes => hfree (h.owes.mp howes)
    · unfold Relay.Waiting at hwait
      omega
  · refine Or.inr (Or.inr ⟨?_, ?_, h.owes.mpr hfree, ?_⟩)
    · unfold Relay.InFlight at hfly
      omega
    · exact eq_false_of_ne_true fun hflag => hwait (h.flag.mp hflag)
    · unfold Relay.Waiting at hwait
      omega

theorem Relays.of_owes (h : Relays s σ) (howes : s.pc.owes = true) :
    s.inFlight = 0 ∧ s.fadeEnded = false := by
  obtain ⟨-, -, hnot, -⟩ | ⟨-, -, hnot, -⟩ | ⟨hcount, hflag, -, -⟩ := h.phases
  · simp [howes] at hnot
  · simp [howes] at hnot
  · exact ⟨hcount, hflag⟩

/-- After the delay of `setup` every fade in flight will raise the interrupt. -/
def AllInterrupt (s : Sketch) : Prop :=
  s.pc = .reportingOn ∨ s.pc = .delaying ∨ ∀ f ∈ s.fading, f.interrupt = true

theorem AllInterrupt.move {a : Action} (h : AllInterrupt s) (hok : SetupFadeEnds s a)
    (hmove : Move s a t) : AllInterrupt t := by
  -- three ways a move can treat the fades in flight
  have hkeep : t.fading = s.fading → s.pc ≠ .reportingOn → s.pc ≠ .delaying →
      AllInterrupt t := by
    intro hfading hon hdelay
    obtain hpc | hpc | hall := h
    · exact absurd hpc hon
    · exact absurd hpc hdelay
    · exact Or.inr (Or.inr (by rw [hfading]; exact hall))
  have hbegin : ∀ f, t.fading = s.fading ++ [f] → f.interrupt = true → s.pc ≠ .reportingOn →
      s.pc ≠ .delaying → AllInterrupt t := by
    intro f hfading hf hon hdelay
    obtain hpc | hpc | hall := h
    · exact absurd hpc hon
    · exact absurd hpc hdelay
    · refine Or.inr (Or.inr ?_)
      rw [hfading]
      simpa [or_imp, forall_and, hf] using hall
  have hend : ∀ i, t.fading = s.fading.eraseIdx i → t.pc = s.pc → AllInterrupt t := by
    intro i hfading hpc
    obtain hon | hdelay | hall := h
    · exact Or.inl (by rw [hpc, hon])
    · exact Or.inr (Or.inl (by rw [hpc, hdelay]))
    · refine Or.inr (Or.inr fun f hf => hall f ?_)
      rw [hfading] at hf
      exact List.mem_of_mem_eraseIdx hf
  cases hmove with
  | fadesOn _ => exact Or.inl rfl
  | reportsOn _ => exact Or.inr (Or.inl rfl)
  | delays hpc =>
    -- the guard: the fade of `setup` has ended
    have hempty := hok rfl hpc
    exact Or.inr (Or.inr (by simp [Sketch.goto, hempty]))
  | fadesOff hpc => exact hbegin _ rfl rfl (by simp [hpc]) (by simp [hpc])
  | starts hpc => exact hbegin _ rfl (Case.fade_interrupt _ _) (by simp [hpc]) (by simp [hpc])
  | reportsOff hpc | finds hpc _ | idles hpc _ | reports hpc | clears hpc | switches hpc _
  | defaults hpc _ | prints hpc | turnsOut hpc | turnsIn hpc | advances hpc | complains hpc =>
    exact hkeep rfl (by simp [hpc]) (by simp [hpc])
  | @interrupts i _ _ _ | @ends i _ _ _ => exact hend i rfl rfl

theorem allInterrupt_of_run {as : List Action} (hrun : Run step SetupFadeEnds .initial as s) :
    AllInterrupt s := by
  refine hrun.invariant AllInterrupt (Or.inr (Or.inr (by simp [Sketch.initial]))) ?_
  intro t a u h hok hstep
  exact h.move hok (move_of_step hstep)

end

/-- One fade is in flight and its completion is still to come. -/
def OneInFlight (s : Sketch) : Prop := s.inFlight = 1 ∧ s.fadeEnded = false

/-- The fade has ended and `loop` is to handle it. -/
def CompletionPending (s : Sketch) : Prop := s.inFlight = 0 ∧ s.fadeEnded = true

/-- `loop` is about to start the next fade. -/
def BetweenFades (s : Sketch) : Prop :=
  s.inFlight = 0 ∧ s.fadeEnded = false ∧ s.pc.betweenFades = true

/-- The handshake of `loop` and `LED_FADE_ISR` in a state. -/
structure Handshake (s : Sketch) : Prop where
  exactlyOne : (OneInFlight s ∧ ¬CompletionPending s ∧ ¬BetweenFades s) ∨
    (¬OneInFlight s ∧ CompletionPending s ∧ ¬BetweenFades s) ∨
    (¬OneInFlight s ∧ ¬CompletionPending s ∧ BetweenFades s)
  /-- No completion is lost and none handled twice. -/
  accounted : s.ended.countP (·.interrupt) = s.handled + s.fadeEnded.toNat
  startsAlone : ∀ a t, step a s = some t → t.started ≠ s.started →
    s.inFlight = 0 ∧ s.fadeEnded = false
  notStuck : ¬(s.inFlight = 0 ∧ s.fadeEnded = false ∧ s.pc = .testing)

theorem Pc.betweenFades_of_owes {pc : Pc} (hloop : pc.inLoop = true) (howes : pc.owes = true) :
    pc.betweenFades = true := by
  cases pc <;> simp_all [Pc.inLoop, Pc.owes, Pc.betweenFades]

theorem Relays.handshake {s : Sketch} {σ : Relay} (h : Relays s σ) (hloop : s.pc.inLoop = true) :
    Handshake s where
  exactlyOne := by
    unfold OneInFlight CompletionPending BetweenFades
    obtain ⟨hcount, hflag, -, -⟩ | ⟨hcount, hflag, -, -⟩ | ⟨hcount, hflag, howes, -⟩ := h.phases
    · simp [hcount, hflag]
    · simp [hcount, hflag]
    · simp [hcount, hflag, Pc.betweenFades_of_owes hloop howes]
  accounted := by
    -- the completions not handled yet are those the flag stands for
    rw [h.completed, h.handled]
    obtain ⟨-, hflag, -, htaken⟩ | ⟨-, hflag, -, htaken⟩ | ⟨-, hflag, -, htaken⟩ := h.phases
    all_goals
      rw [hflag, htaken]
      rfl
  startsAlone := by
    intro a t hstep hstarted
    obtain hsame | howes := (move_of_step hstep).started
    · exact absurd hsame hstarted
    · exact h.of_owes howes
  notStuck := by
    intro hpost
    obtain ⟨hcount, hflag, hpc⟩ := hpost
    -- with nothing in flight and the flag down a fade is owed, which the head of `loop` never
    -- does
    obtain ⟨hone, -⟩ | ⟨-, hended, -⟩ | ⟨-, -, howes, -⟩ := h.phases
    · omega
    · simp [hflag] at hended
    · rw [hpc] at howes
      cases howes

/-- In every interleaving of `loop` with the interrupt routine the handshake holds,
and no other fade is in flight if the delay of `setup` was long enough. -/
theorem handshake_in_loop (s : Sketch) (hreach : Reachable step .initial s)
    (hloop : s.pc.inLoop = true) :
    Handshake s ∧ ∀ as, Run step SetupFadeEnds .initial as s → s.fading.length = s.inFlight := by
  obtain ⟨-, σ, hrelays⟩ := relays_of_reachable hreach
  refine ⟨hrelays.handshake hloop, ?_⟩
  intro as hrun
  -- every fade in flight is one that is counted
  symm
  apply List.countP_eq_length.mpr
  obtain hpc | hpc | hall := allInterrupt_of_run hrun
  · rw [hpc] at hloop
    cases hloop
  · rw [hpc] at hloop
    cases hloop
  · exact hall

/-- `SetupFadeEnds` as a test. -/
def setupFadeEndsTest (s : Sketch) (a : Action) : Bool :=
  match a, s.pc with
  | .sketch, .delaying => s.fading.isEmpty
  | _, _ => true

theorem setupFadeEnds_of_test (s : Sketch) (a : Action) (h : setupFadeEndsTest s a = true) :
    SetupFadeEnds s a := by
  rintro rfl hpc
  simpa [setupFadeEndsTest, hpc] using h

/-- `setup` and its second fade. -/
def setupSchedule : List Action :=
  [.sketch, .sketch, .fadeEnds 0, .sketch, .sketch, .sketch, .fadeEnds 0]

theorem completion_pending_after_setup : ∃ s, Run step SetupFadeEnds .initial setupSchedule s ∧
    CompletionPending s ∧ Handshake s ∧ s.fading.length = s.inFlight := by
  -- the gate makes `setup` wait for its first fade
  have hexec : (exec (gate setupFadeEndsTest step) setupSchedule .initial).map
      (fun s => (s.inFlight, s.fadeEnded, s.pc.inLoop)) = some (0, true, true) := by
    decide +kernel
  obtain ⟨s, hs, hstate⟩ := Option.map_eq_some_iff.mp hexec
  obtain ⟨hcount, hflag, hloop⟩ : s.inFlight = 0 ∧ s.fadeEnded = true ∧ s.pc.inLoop = true := by
    simpa using hstate
  have hrun := run_of_exec_gate setupFadeEnds_of_test hs
  obtain ⟨hshake, hfading⟩ := handshake_in_loop s hrun.reachable hloop
  exact ⟨s, hrun, ⟨hcount, hflag⟩, hshake, hfading _ hrun⟩

end RCControl.LedcFade
