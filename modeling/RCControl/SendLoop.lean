import RCControl.Display

/-! The send loop of `ble_sender`, which reads the throttle three times a pass
without the mutex: which stores between its loads it survives. -/
namespace RCControl
open Resumption StepSystem

/-- The points of the send loop. -/
def SenderPc.polling : SenderPc → Bool
  | .head _ | .testing _ | .announcing _ | .recording _ | .disconnecting _ => true
  | _ => false

section Frames
variable {env : Env} {s t : System} {a : Action}

theorem onward_polling {α : Type} {next : α → SenderPc} (hnext : ∀ a, (next a).polling = false)
    (o : Outcome α) : (SenderPc.onward next o).polling = false := by
  cases o with
  | value a => exact hnext a
  | returned => rfl
  | faulted => rfl

theorem backToScan_polling (o : Outcome Unit) : (SenderPc.backToScan o).polling = false := by
  cases o <;> rfl

theorem SenderMove.outside (h : SenderMove env s t) (hpc : s.senderPc.polling = false) :
    (t.senderPc.polling = false ∧ t.send = s.send) ∨
      ∃ peripheral, t.senderPc = .head peripheral ∧ t.send = .start s.throttlePosition := by
  cases h with
  | setsUp _ hnext =>
    rw [← hnext]
    exact Or.inl ⟨Prog.advance_fst (SenderPc.polling · = false) (fun _ => rfl)
      (onward_polling fun _ => rfl) _ _, rfl⟩
  | callsBack _ hnext =>
    rw [← hnext]
    exact Or.inl ⟨Prog.advance_fst (SenderPc.polling · = false) (fun _ => rfl)
      backToScan_polling _ _, rfl⟩
  | connects _ hnext =>
    rw [← hnext]
    exact Or.inl ⟨Prog.advance_fst (SenderPc.polling · = false) (fun _ => rfl)
      (onward_polling fun _ => rfl) _ _, rfl⟩
  | enumerates _ hnext =>
    rw [← hnext]
    exact Or.inl ⟨Prog.advance_fst (SenderPc.polling · = false) (fun _ => rfl)
      (onward_polling fun _ => rfl) _ _, rfl⟩
  -- the one way into the loop
  | @starts peripheral _ => exact Or.inr ⟨peripheral, rfl, rfl⟩
  | enters hloop _ | leaves hloop _ | finds hloop _ | skips hloop _ | announces hloop
  | records hloop | disconnects hloop =>
    rw [hloop] at hpc
    cases hpc

theorem Move.sender_frame (h : Move env s a t) (hexcl : Exclusive s) (ha : a ≠ .bleSender) :
    t.send = s.send ∧
      (t.senderPc = s.senderPc ∨ s.senderPc.polling = false ∧ t.senderPc.polling = false) := by
  cases h with
  | hotas h => exact ⟨h.frame.2.2.2.1, Or.inl h.frame.2.2.1⟩
  | main h =>
    refine ⟨h.frame.2.2.2.2, ?_⟩
    cases h with
    -- `main` creates the thread, which is not in its loop yet
    | createsSender hpc =>
      rw [hexcl.senderUnborn (Or.inr hpc)]
      exact Or.inr ⟨rfl, rfl⟩
    | _ => exact Or.inl rfl
  | sender _ => exact absurd rfl ha
  | reports hpc =>
    rw [hpc]
    exact ⟨rfl, Or.inr ⟨rfl, rfl⟩⟩
  | scanEnds hpc =>
    rw [hpc]
    exact ⟨rfl, Or.inr ⟨rfl, rfl⟩⟩

end Frames

/-- A store made between the announcement and the record of a pass writes the
value that is already there. -/
def KeepsRecord (s : System) (a : Action) : Prop :=
  ∀ percent peripheral, a = .hotasInputs → s.hotas.pc = .storing percent →
    s.senderPc = .recording peripheral → percent = s.throttlePosition

/-- And one made between the test and the announcement does not restore the value
that `ble_sender` holds in `current`. -/
def KeepsPass (s : System) (a : Action) : Prop :=
  KeepsRecord s a ∧
    ∀ percent peripheral, a = .hotasInputs → s.hotas.pc = .storing percent →
      s.senderPc = .announcing peripheral → percent ≠ s.send.current

/-- What the send loop holds at each point. -/
def SenderPc.Knows (send : Poller) (σ : Sampler ℤ) : SenderPc → Prop
  | .announcing _ => send.current = σ.current ∧ send.recorded = σ.log ∧ σ.value ≠ σ.current
  | .recording _ => σ.value = σ.current ∧ σ.log = send.recorded ++ [σ.current]
  | _ => send.current = σ.current ∧ send.recorded = σ.log

theorem SenderPc.knows_of_outside {send : Poller} {σ : Sampler ℤ} {pc : SenderPc}
    (hpc : pc.polling = false) :
    pc.Knows send σ ↔ send.current = σ.current ∧ send.recorded = σ.log := by
  cases pc <;> first | exact Iff.rfl | cases hpc

theorem SenderPc.Knows.recorded_prefix {send : Poller} {σ : Sampler ℤ} {pc : SenderPc}
    (h : pc.Knows send σ) : send.recorded <+: σ.log := by
  cases pc with
  | announcing peripheral =>
    have hrecorded : send.recorded = σ.log := h.2.1
    simp only [hrecorded, List.prefix_rfl]
  -- the value announced last is still to be recorded
  | recording peripheral =>
    have hlog : σ.log = send.recorded ++ [σ.current] := h.2
    rw [hlog]
    exact List.prefix_append _ _
  | _ =>
    have hrecorded : send.recorded = σ.log := h.2
    simp only [hrecorded, List.prefix_rfl]

/-- The abstraction of the send loop. -/
inductive Sends (s : System) : Prop
  | starting (hpc : s.senderPc.polling = false) (hidle : s.send = .idle)
  | polling (σ : Sampler ℤ) (h : Samples s.send s σ) (hknows : s.senderPc.Knows s.send σ)

namespace Sends
variable {env : Env} {s t : System} {a : Action}

/-- The stores that `KeepsPass` admits keep what the loop holds. -/
theorem knows_store {σ : Sampler ℤ} {percent : ℤ} (hok : KeepsPass s .hotasInputs)
    (hstoring : s.hotas.pc = .storing percent) (h : Samples s.send s σ)
    (hknows : s.senderPc.Knows s.send σ) : s.senderPc.Knows s.send (σ.write percent) := by
  cases hpc : s.senderPc with
  -- the store must leave the test of the pass true
  | announcing peripheral =>
    rw [hpc] at hknows
    obtain ⟨hcurrent, hrecorded, -⟩ := hknows
    refine ⟨hcurrent, hrecorded, ?_⟩
    have hne := hok.2 percent peripheral rfl hstoring hpc
    rw [hcurrent] at hne
    rw [Sampler.write_value, Sampler.write_current]
    exact hne
  -- and here it must not touch the value just announced
  | recording peripheral =>
    rw [hpc] at hknows
    obtain ⟨hvalue, hlog⟩ := hknows
    refine ⟨?_, hlog⟩
    have heq := hok.1 percent peripheral rfl hstoring hpc
    rw [Sampler.write_value, Sampler.write_current, heq, h.throttle]
    exact hvalue
  | _ =>
    rw [hpc] at hknows
    exact hknows

theorem otherMove (h : Sends s) (hexcl : Exclusive s) (hok : KeepsPass s a)
    (hmove : Move env s a t) (ha : a ≠ .bleSender) : Sends t := by
  obtain ⟨hsend, hpc⟩ := hmove.sender_frame hexcl ha
  cases h with
  | starting houtside hidle =>
    refine .starting ?_ (hsend.trans hidle)
    rcases hpc with hpc | ⟨-, hout⟩
    · rw [hpc]
      exact houtside
    · exact hout
  | polling σ hσ hknows =>
    -- where `ble_sender` is outside its loop, what it knows does not depend on the point
    have hstay : ∀ τ : Sampler ℤ, s.senderPc.Knows s.send τ → t.senderPc.Knows t.send τ := by
      intro τ hτ
      rw [hsend]
      rcases hpc with hpc | ⟨hs, ht⟩
      · rw [hpc]
        exact hτ
      · exact (SenderPc.knows_of_outside ht).mpr ((SenderPc.knows_of_outside hs).mp hτ)
    rcases hmove.throttle with ⟨rfl, percent, hstoring, hthrottle, hstored⟩ | ⟨hthrottle, hstored⟩
    · refine .polling (σ.write percent) ?_ (hstay _ (knows_store hok hstoring hσ hknows))
      rw [hsend]
      exact hσ.store hthrottle hstored
    · refine .polling σ ?_ (hstay σ hknows)
      rw [hsend]
      exact hσ.of_same rfl rfl hthrottle hstored

theorem senderMove (h : Sends s) (hmove : SenderMove env s t) : Sends t := by
  have hthrottle : t.throttlePosition = s.throttlePosition := by rw [hmove.frame]
  have hstored : t.stored = s.stored := by rw [hmove.frame]
  by_cases houtside : s.senderPc.polling = false
  · rcases hmove.outside houtside with ⟨ht, hsend⟩ | ⟨peripheral, hpc, hsend⟩
    · cases h with
      | starting _ hidle => exact .starting ht (hsend.trans hidle)
      | polling σ hσ hknows =>
        refine .polling σ ?_ ?_
        · rw [hsend]
          exact hσ.of_same rfl rfl hthrottle hstored
        · rw [hsend]
          rw [SenderPc.knows_of_outside houtside] at hknows
          exact (SenderPc.knows_of_outside ht).mpr hknows
    -- the baseline starts the sampler
    · refine .polling (.begin s.throttlePosition s.stored) ?_ ?_
      · rw [hsend]
        exact (Samples.start s).of_same rfl rfl hthrottle hstored
      · rw [hsend, hpc]
        exact ⟨rfl, rfl⟩
  · cases h with
    | starting hpc _ => exact absurd hpc houtside
    | polling σ hσ hknows =>
      have hsame : Samples s.send t σ := hσ.of_same rfl rfl hthrottle hstored
      cases hmove with
      | setsUp hpc _ | callsBack hpc _ | connects hpc _ | enumerates hpc _ | starts hpc =>
        rw [hpc] at houtside
        exact absurd rfl houtside
      | enters hpc _ | leaves hpc _ | skips hpc _ | disconnects hpc =>
        rw [hpc] at hknows
        exact .polling σ hsame hknows
      | finds hpc hne =>
        rw [hpc] at hknows
        refine .polling σ hsame ⟨hknows.1, hknows.2, ?_⟩
        rw [← hσ.throttle, ← hknows.1]
        exact hne
      | announces hpc =>
        rw [hpc] at hknows
        obtain ⟨-, hrecorded, hne⟩ := hknows
        -- the second load, in which the abstract sampler moves
        refine .polling (σ.announce hne) (hσ.announce hne hσ.throttle rfl rfl) ⟨?_, ?_⟩
        · rw [Sampler.announce_value, Sampler.announce_current]
        · rw [Sampler.announce_log, Sampler.announce_current, ← hrecorded]
          rfl
      | records hpc =>
        rw [hpc] at hknows
        obtain ⟨hvalue, hlog⟩ := hknows
        -- nothing was stored since the announcement that would show here
        have hrecord : s.throttlePosition = σ.current := calc
          s.throttlePosition = σ.value := hσ.throttle
          _ = σ.current := hvalue
        refine .polling σ (hσ.of_same rfl rfl rfl rfl) ⟨hrecord, ?_⟩
        rw [hlog, ← hrecord]
        rfl

theorem of_run {as : List Action} (hrun : Run (step env) KeepsPass (.initial env) as s) :
    Sends s := by
  -- by induction on the run, the guard admitting only stores that spare the pass
  refine run_invariant Sends (.starting rfl rfl) ?_ hrun
  intro t a u hexcl h hok _ hmove
  by_cases ha : a = .bleSender
  · subst ha
    obtain _ | _ | hmove := hmove
    exact h.senderMove hmove
  · exact h.otherMove hexcl hok hmove ha

end Sends

/-- What the send loop promises: the values recorded are those announced, pass by
pass; each announced value differs from the one before it, the first one from the
baseline; and at the loop head `current` is the last value announced. -/
structure SendContract (s : System) : Prop where
  records : s.send.recorded <+: s.send.announced
  changes : ∀ b, s.send.baseline = some b → (b :: s.send.announced).IsChain (· ≠ ·)
  atHead : ∀ peripheral v, s.senderPc = .head peripheral →
    s.send.announced.getLast? = some v → s.send.current = v

theorem Sends.contract {s : System} (h : Sends s) : SendContract s := by
  cases h with
  | starting hpc hidle =>
    refine ⟨?_, ?_, ?_⟩
    · rw [hidle]
      exact List.prefix_refl _
    · intro b hb
      rw [hidle] at hb
      cases hb
    · intro peripheral v hhead
      rw [hhead] at hpc
      cases hpc
  -- each clause is a fact of the sampler
  | polling σ hσ hknows =>
    refine ⟨?_, ?_, ?_⟩
    · rw [hσ.announced]
      exact hknows.recorded_prefix
    · intro b hb
      have hstart : σ.start = b := Option.some.inj (hσ.baseline.symm.trans hb)
      rw [hσ.announced, ← hstart]
      exact σ.changes
    · intro peripheral v hhead hv
      rw [hhead] at hknows
      rw [hσ.announced] at hv
      calc s.send.current = σ.current := hknows.1
        _ = v := Sampler.current_eq_of_log hv

section Defect
variable {env : Env} {s t : System} {percent : ℤ} {peripheral : Handle}

/-- A store that restores `current` before the announcement: the next value
announced is the one before it. -/
theorem announce_repeats (h : Sends s) (hstep : step env .hotasInputs s = some t)
    (hstoring : s.hotas.pc = .storing percent) (hpc : s.senderPc = .announcing peripheral)
    (hback : percent = s.send.current) :
    ∃ u, exec (step env) [.bleSender] t = some u ∧ ¬SendContract u := by
  obtain ⟨hlive, hmove⟩ := move_of_step hstep
  have ht := hmove.store hstoring
  -- the load of the announcement finds the value that was put back
  have hnext : step env .bleSender t = some { t with
      senderPc := .recording peripheral, send := s.send.announce percent } := by
    have hlive' : t.mainPc ≠ .exited := by rw [ht]; exact hlive
    rw [step_bleSender hlive', ht]
    simp only [senderStep, hpc]
  refine ⟨_, by simp only [exec, hnext]; rfl, ?_⟩
  intro hcontract
  cases h with
  | starting houtside _ =>
    rw [hpc] at houtside
    cases houtside
  | polling σ hσ hknows =>
    rw [hpc] at hknows
    -- the value now announced is the last one of the log
    have hchain := hcontract.changes σ.start hσ.baseline
    simp only [Poller.announce, hσ.announced] at hchain
    rw [← List.cons_append, List.isChain_append] at hchain
    refine hchain.2.2 σ.current ?_ percent rfl ?_
    · exact List.getLast?_eq_some_getLast (List.cons_ne_nil _ _)
    · rw [hback]
      exact hknows.1.symm

/-- A store of another value before the record: what is recorded was not
announced. -/
theorem record_differs (h : Sends s) (hstep : step env .hotasInputs s = some t)
    (hstoring : s.hotas.pc = .storing percent) (hpc : s.senderPc = .recording peripheral)
    (hother : percent ≠ s.throttlePosition) :
    ∃ u, exec (step env) [.bleSender] t = some u ∧ ¬SendContract u := by
  obtain ⟨hlive, hmove⟩ := move_of_step hstep
  have ht := hmove.store hstoring
  -- the load of the record finds the other value
  have hnext : step env .bleSender t = some { t with
      senderPc := .head peripheral, send := s.send.record percent } := by
    have hlive' : t.mainPc ≠ .exited := by rw [ht]; exact hlive
    rw [step_bleSender hlive', ht]
    simp only [senderStep, hpc]
  refine ⟨_, by simp only [exec, hnext]; rfl, ?_⟩
  intro hcontract
  cases h with
  | starting houtside _ =>
    rw [hpc] at houtside
    cases houtside
  | polling σ hσ hknows =>
    rw [hpc] at hknows
    obtain ⟨hvalue, hlog⟩ := hknows
    -- the announced log ends in another value than the recorded one
    have hprefix := hcontract.records
    simp only [Poller.record, hσ.announced, hlog] at hprefix
    apply hother
    rw [hσ.throttle, hvalue]
    rw [List.prefix_append_right_inj] at hprefix
    simpa using hprefix

end Defect

/-- The send loop keeps its promise in every run whose stores all spare the passes
they land in, and a store that does not spare its pass can be followed by a step
of `ble_sender` that breaks the promise. -/
theorem sendContract_of_kept_passes (env : Env) :
    (∀ as s, Run (step env) KeepsPass (.initial env) as s → SendContract s) ∧
    ∀ as s a t, Run (step env) KeepsPass (.initial env) as s → step env a s = some t →
      ¬KeepsPass s a → ∃ u, exec (step env) [.bleSender] t = some u ∧ ¬SendContract u := by
  constructor
  · intro as s hrun
    exact (Sends.of_run hrun).contract
  · intro as s a t hrun hstep hbad
    have hsends := Sends.of_run hrun
    -- the store that breaks the condition lands in one of two places of a pass
    simp only [KeepsPass, KeepsRecord, not_and_or, not_forall] at hbad
    rcases hbad with ⟨percent, peripheral, rfl, hstoring, hpc, hother⟩ |
      ⟨percent, peripheral, rfl, hstoring, hpc, hback⟩
    · exact record_differs hsends hstep hstoring hpc hother
    · exact announce_repeats hsends hstep hstoring hpc (not_not.mp hback)

/-- `ble_sender` finds the ESP32 of `headsetRoom` and comes to its loop head. -/
def connectEsp32 : List Action :=
  [.main, .main] ++ List.replicate 10 .bleSender ++ [.report (.found 11)] ++
    List.replicate 9 .bleSender ++ [.scanEnds] ++ List.replicate 21 .bleSender

/-- Whether `ble_sender` is between two loads of one pass. -/
def SenderPc.midPass : SenderPc → Bool
  | .announcing _ | .recording _ => true
  | _ => false

/-- A test that admits stores only between passes. -/
def betweenPasses (s : System) (a : Action) : Bool :=
  a ≠ .hotasInputs || !s.senderPc.midPass

theorem keepsPass_of_betweenPasses (s : System) (a : Action) (h : betweenPasses s a = true) :
    KeepsPass s a := by
  refine ⟨?_, ?_⟩
  · intro percent peripheral ha _ hpc
    simp [betweenPasses, ha, hpc, SenderPc.midPass] at h
  · intro percent peripheral ha _ hpc
    simp [betweenPasses, ha, hpc, SenderPc.midPass] at h

theorem sendContract_of_lever_between_passes :
    ∃ as s, Run (step leverEnv) KeepsPass (.initial leverEnv) as s ∧
      s.send.announced = [50] ∧ SendContract s := by
  have hrun : (exec (gate betweenPasses (step leverEnv))
      (connectEsp32 ++ List.replicate 7 .hotasInputs ++ List.replicate 4 .bleSender)
      (.initial leverEnv)).map (·.send.announced) = some [50] := by decide +kernel
  obtain ⟨s, hs, hannounced⟩ := Option.map_eq_some_iff.mp hrun
  have hkept := run_of_exec_gate keepsPass_of_betweenPasses hs
  exact ⟨_, s, hkept, hannounced, (sendContract_of_kept_passes leverEnv).1 _ s hkept⟩

/-- The lever is put to the middle, a pass announces that, and the lever is put to
its end before the pass records. -/
def storeInsidePass : List Action :=
  connectEsp32 ++ List.replicate 7 .hotasInputs ++ List.replicate 3 .bleSender ++
    List.replicate 5 .hotasInputs ++ [.bleSender]

theorem sendContract_fails_on_store_inside_pass :
    ¬∀ s, Reachable (step leverEnv) (.initial leverEnv) s → SendContract s := by
  intro hclaim
  -- the pass announces 50 and records 100
  have hrun : (exec (step leverEnv) storeInsidePass (.initial leverEnv)).map
      (fun s => (s.send.announced, s.send.recorded)) = some ([50], [100]) := by decide +kernel
  obtain ⟨s, hs, hstate⟩ := Option.map_eq_some_iff.mp hrun
  obtain ⟨hannounced, hrecorded⟩ : s.send.announced = [50] ∧ s.send.recorded = [100] := by
    simpa using hstate
  have hprefix := (hclaim s (reachable_of_exec hs)).records
  rw [hannounced, hrecorded] at hprefix
  exact absurd hprefix (by decide)

end RCControl
