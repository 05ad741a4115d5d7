import RCControl.SendLoop

/-! When a poller is up to date: after a pass of its loop during which nothing
was stored, what it has announced or started with is the throttle. -/
namespace RCControl
open StepSystem

/-- The last value announced, or the baseline when there is none. -/
def Poller.known (p : Poller) : Option ℤ := p.announced.getLast?.or p.baseline

@[simp] theorem Poller.known_announce (v : ℤ) (p : Poller) : (p.announce v).known = some v := by
  simp [known, announce]

theorem Samples.known {poller : Poller} {s : System} {σ : Sampler ℤ} (h : Samples poller s σ) :
    poller.known = some σ.current := by
  unfold Poller.known
  rw [h.announced, h.baseline]
  -- an empty log leaves the poller with its baseline
  cases hlog : σ.log.getLast? with
  | none =>
    have hnil : σ.log = [] := List.getLast?_eq_none_iff.mp hlog
    simp [Sampler.current, hnil]
  | some v => rw [Sampler.current_eq_of_log hlog, Option.some_or]

theorem display_known {env : Env} {s : System} (hreach : Reachable (step env) (.initial env) s)
    (hhead : s.mainPc = .head) : s.display.known = some s.display.current := by
  cases Displays.reachable hreach with
  | starting hpc _ =>
    rw [hhead] at hpc
    cases hpc
  | polling _ σ hσ hknows =>
    rw [hhead] at hknows
    rw [hσ.known]
    exact congrArg some hknows.symm

/-- What `ble_sender` knows at each point of its loop. -/
def System.SendKnows (s : System) : Prop :=
  match s.senderPc with
  | .recording _ => s.send.known = some s.throttlePosition
  | .head _ | .testing _ | .announcing _ | .disconnecting _ =>
    s.send.known = some s.send.current
  | _ => True

theorem System.sendKnows_of_outside {s : System} (hpc : s.senderPc.polling = false) :
    s.SendKnows := by
  unfold SendKnows
  split <;> first | trivial | simp_all [SenderPc.polling]

theorem System.SendKnows.otherMove {env : Env} {s t : System} {a : Action} (h : s.SendKnows)
    (hexcl : Exclusive s) (hok : KeepsRecord s a) (hmove : Move env s a t)
    (ha : a ≠ .bleSender) : t.SendKnows := by
  obtain ⟨hsend, hpc | ⟨-, hout⟩⟩ := hmove.sender_frame hexcl ha
  · unfold SendKnows at h ⊢
    rw [hpc, hsend]
    rcases hmove.throttle with ⟨rfl, percent, hstoring, hthrottle, -⟩ | ⟨hthrottle, -⟩
    · cases hs : s.senderPc with
      -- the one point at which the throttle itself is known
      | recording peripheral =>
        rw [hs] at h
        rw [hthrottle, hok percent peripheral rfl hstoring hs]
        exact h
      | _ =>
        rw [hs] at h
        exact h
    -- nothing was stored
    · rw [hthrottle]
      exact h
  · exact sendKnows_of_outside hout

theorem System.SendKnows.senderMove {env : Env} {s t : System} (h : s.SendKnows)
    (hmove : SenderMove env s t) : t.SendKnows := by
  by_cases houtside : s.senderPc.polling = false
  -- from outside the loop there is one way in, which takes the baseline
  · rcases hmove.outside houtside with ⟨hout, -⟩ | ⟨peripheral, hpc, hsend⟩
    · exact sendKnows_of_outside hout
    · unfold SendKnows
      rw [hpc, hsend]
      rfl
  · unfold SendKnows at h ⊢
    cases hmove with
    | setsUp hpc _ | callsBack hpc _ | connects hpc _ | enumerates hpc _ | starts hpc =>
      rw [hpc] at houtside
      exact absurd rfl houtside
    | enters hpc _ | leaves hpc _ | finds hpc _ | skips hpc _ | records hpc =>
      rw [hpc] at h
      exact h
    | announces hpc => exact Poller.known_announce _ _
    | disconnects hpc => trivial

/-- In runs that keep the records, `ble_sender` at its loop head knows what it
holds in `current`. -/
theorem send_known {env : Env} {s : System} {as : List Action} {peripheral : Handle}
    (hrun : Run (step env) KeepsRecord (.initial env) as s)
    (hhead : s.senderPc = .head peripheral) : s.send.known = some s.send.current := by
  have hknows : s.SendKnows := by
    -- induction on the run, by whether `ble_sender` is the one that moves
    refine run_invariant System.SendKnows (System.sendKnows_of_outside rfl) ?_ hrun
    intro t a u hexcl h hok _ hmove
    by_cases ha : a = .bleSender
    · subst ha
      obtain _ | _ | hmove := hmove
      exact h.senderMove hmove
    · exact h.otherMove hexcl hok hmove ha
  unfold System.SendKnows at hknows
  rw [hhead] at hknows
  exact hknows

/-- While nothing is stored, `current` is the throttle whenever a pass of the send
loop ends. -/
def System.SendFresh (s : System) : Prop :=
  ∀ peripheral, s.senderPc = .head peripheral → s.throttlePosition = s.send.current

theorem System.SendFresh.move {env : Env} {s t : System} {a : Action} (h : s.SendFresh)
    (hexcl : Exclusive s) (hmove : Move env s a t) (hquiet : t.stored.length = s.stored.length) :
    t.SendFresh := by
  intro peripheral hhead
  have hthrottle := hmove.throttle_of_quiet hquiet
  by_cases ha : a = .bleSender
  · subst ha
    obtain _ | _ | hmove := hmove
    by_cases houtside : s.senderPc.polling = false
    · rcases hmove.outside houtside with ⟨hout, -⟩ | ⟨_, -, hsend⟩
      · rw [hhead] at hout
        cases hout
      · rw [hthrottle, hsend]
        rfl
    -- of the moves inside the loop only a pass that ends comes back to its head
    · cases hmove with
      | skips hpc heq => exact heq
      | records hpc => rfl
      | starts hpc => rfl
      | setsUp hpc _ | callsBack hpc _ | connects hpc _ | enumerates hpc _ =>
        rw [hpc] at houtside
        exact absurd rfl houtside
      | _ => cases hhead
  · obtain ⟨hsend, hpc | ⟨-, hout⟩⟩ := hmove.sender_frame hexcl ha
    · rw [hthrottle, hsend]
      exact h peripheral (hpc ▸ hhead)
    · rw [hhead] at hout
      cases hout

/-- After a quiet run from loop head to loop head in which `ble_sender` moves, its
`current` is the throttle. -/
theorem send_fresh_of_quiet {env : Env} {s t : System} {acts : List Action} {peripheral : Handle}
    (hexcl : Exclusive s) (hrun : FreeRun (step env) s acts t)
    (hs : s.senderPc = .head peripheral) (ht : t.senderPc = .head peripheral)
    (hsender : .bleSender ∈ acts) (hquiet : t.stored = s.stored) :
    t.throttlePosition = t.send.current := by
  have hfresh : Exclusive t ∧ t.SendFresh := by
    -- until its first move `ble_sender` waits at the head; from then on the loop is fresh
    refine hrun.fresh_of_quiet (fun s => s.stored.length) .bleSender
      (fun s => Exclusive s ∧ s.senderPc = .head peripheral)
      (fun s => Exclusive s ∧ s.SendFresh) ?_ ?_ ?_ ?_ ⟨hexcl, hs⟩ hsender (by rw [hquiet])
    · intro t a u hstep
      exact (move_of_step hstep).2.stored_length_le
    · intro t u ⟨hexcl, hhead⟩ hstep
      have hmove := (move_of_step hstep).2
      refine ⟨hexcl.move hmove, ?_⟩
      obtain _ | _ | hmove := hmove
      intro peripheral' hhead'
      -- that move leaves the head, where alone something is asked for
      cases hmove <;> simp_all
    · intro t a u ha ⟨hexcl, hhead⟩ hstep
      have hmove := (move_of_step hstep).2
      refine ⟨hexcl.move hmove, ?_⟩
      obtain ⟨-, hpc | ⟨hout, -⟩⟩ := hmove.sender_frame hexcl ha
      · rw [hpc]
        exact hhead
      · rw [hhead] at hout
        cases hout
    · intro t a u hsame ⟨hexcl, hfresh⟩ hstep
      have hmove := (move_of_step hstep).2
      exact ⟨hexcl.move hmove, hfresh.move hexcl hmove hsame⟩
  exact hfresh.2 peripheral ht

theorem keepsRecord_of_quiet {env : Env} {s t : System} {acts : List Action}
    (hrun : FreeRun (step env) s acts t) (hquiet : t.stored = s.stored) :
    Run (step env) KeepsRecord s acts t := by
  refine hrun.of_quiet (fun s => s.stored.length) ?_ ?_ (by rw [hquiet])
  · intro t a u hstep
    exact (move_of_step hstep).2.stored_length_le
  · intro t a u hsame hstep percent peripheral ha hstoring _
    subst ha
    -- the store of a percentage would lengthen the history
    have hu := (move_of_step hstep).2.store hstoring
    rw [hu] at hsame
    simp at hsame

/-- A poller that goes once round its loop, from head to head, while nothing is
stored, has announced the throttle last, or started with it and announced nothing:
`main` in every run, `ble_sender` in the runs that keep its records. -/
theorem caught_up_after_quiet_iteration (env : Env) :
    (∀ s t acts, Reachable (step env) (.initial env) s → FreeRun (step env) s acts t →
      s.mainPc = .head → t.mainPc = .head → .main ∈ acts → t.stored = s.stored →
      t.display.known = some t.throttlePosition) ∧
    ∀ as s t acts peripheral, Run (step env) KeepsRecord (.initial env) as s →
      FreeRun (step env) s acts t → s.senderPc = .head peripheral →
      t.senderPc = .head peripheral → .bleSender ∈ acts → t.stored = s.stored →
      t.send.known = some t.throttlePosition := by
  constructor
  · intro s t acts hreach hrun hs ht hmain hquiet
    calc t.display.known
        = some t.display.current := display_known (hreach.trans hrun.reachable) ht
      _ = some t.throttlePosition := by rw [display_fresh_of_quiet hrun hs ht hmain hquiet]
  · intro as s t acts peripheral hkept hrun hs ht hsender hquiet
    -- a quiet iteration adds no store, so the kept run extends over it
    have hexcl := Exclusive.reachable hkept.reachable
    calc t.send.known
        = some t.send.current := send_known (hkept.append (keepsRecord_of_quiet hrun hquiet)) ht
      _ = some t.throttlePosition := by rw [send_fresh_of_quiet hexcl hrun hs ht hsender hquiet]

/-- One pass of the display loop that prints nothing. -/
def quietPass : List Action := List.replicate 5 .main

theorem caught_up_lever :
    (∃ t, Reachable (step leverEnv) (.initial leverEnv) t ∧ t.display.announced = [50] ∧
      t.display.known = some t.throttlePosition) ∧
    ∃ t, Reachable (step leverEnv) (.initial leverEnv) t ∧ t.send.announced = [50] ∧
      t.send.known = some t.throttlePosition := by
  constructor
  -- `main` has printed the lever and goes round once more
  · have hrun : ((exec (step leverEnv) (printOnce ++ [.main, .main]) (.initial leverEnv)).bind
        fun s => (exec (step leverEnv) quietPass s).map fun t =>
          (s.mainPc.atHead, t.mainPc.atHead, t.display.announced, decide (t.stored = s.stored))) =
        some (true, true, [50], true) := by decide +kernel
    obtain ⟨s, hs, hrest⟩ := Option.bind_eq_some_iff.mp hrun
    obtain ⟨t, ht, hstate⟩ := Option.map_eq_some_iff.mp hrest
    obtain ⟨hhead, hhead', hannounced, hquiet⟩ : s.mainPc.atHead = true ∧
        t.mainPc.atHead = true ∧ t.display.announced = [50] ∧ t.stored = s.stored := by
      simpa using hstate
    have hreach := reachable_of_exec hs
    refine ⟨t, hreach.trans (reachable_of_exec ht), hannounced, ?_⟩
    exact (caught_up_after_quiet_iteration leverEnv).1 s t quietPass hreach (freeRun_of_exec ht)
      (MainPc.atHead_iff.mp hhead) (MainPc.atHead_iff.mp hhead') (by decide) hquiet
  -- so has `ble_sender`, the gate admitting stores between passes only
  · have hrun : ((exec (gate betweenPasses (step leverEnv))
        (connectEsp32 ++ List.replicate 7 .hotasInputs ++ List.replicate 4 .bleSender)
        (.initial leverEnv)).bind
        fun s => (exec (step leverEnv) [.bleSender, .bleSender] s).map fun t =>
          (s.senderPc.atHead, t.senderPc.atHead, t.send.announced,
            decide (t.stored = s.stored))) =
        some (some 11, some 11, [50], true) := by decide +kernel
    obtain ⟨s, hs, hrest⟩ := Option.bind_eq_some_iff.mp hrun
    obtain ⟨t, ht, hstate⟩ := Option.map_eq_some_iff.mp hrest
    obtain ⟨hhead, hhead', hannounced, hquiet⟩ : s.senderPc.atHead = some 11 ∧
        t.senderPc.atHead = some 11 ∧ t.send.announced = [50] ∧ t.stored = s.stored := by
      simpa using hstate
    have hkept := run_of_exec_gate (fun s a h => (keepsPass_of_betweenPasses s a h).1) hs
    refine ⟨t, hkept.reachable.trans (reachable_of_exec ht), hannounced, ?_⟩
    exact (caught_up_after_quiet_iteration leverEnv).2 _ s t _ 11 hkept (freeRun_of_exec ht)
      (SenderPc.atHead_iff.mp hhead) (SenderPc.atHead_iff.mp hhead') (by decide) hquiet

/-- The lever stands in the middle before `main` takes its baseline: it has
announced nothing, and the throttle is not 0. -/
theorem quiet_iteration_without_announcement :
    ¬∀ s t acts, Reachable (step leverEnv) (.initial leverEnv) s →
      FreeRun (step leverEnv) s acts t → s.mainPc = .head → t.mainPc = .head → .main ∈ acts →
      t.stored = s.stored → t.display.announced.getLast?.getD 0 = t.throttlePosition := by
  intro hclaim
  have hrun : ((exec (step leverEnv) ([.main] ++ List.replicate 7 .hotasInputs ++ [.main, .main])
      (.initial leverEnv)).bind
      fun s => (exec (step leverEnv) quietPass s).map fun t =>
        (s.mainPc.atHead, t.mainPc.atHead, t.display.announced, t.throttlePosition,
          decide (t.stored = s.stored))) = some (true, true, [], 50, true) := by decide +kernel
  obtain ⟨s, hs, hrest⟩ := Option.bind_eq_some_iff.mp hrun
  obtain ⟨t, ht, hstate⟩ := Option.map_eq_some_iff.mp hrest
  obtain ⟨hhead, hhead', hannounced, hthrottle, hquiet⟩ : s.mainPc.atHead = true ∧
      t.mainPc.atHead = true ∧ t.display.announced = [] ∧ t.throttlePosition = 50 ∧
      t.stored = s.stored := by simpa using hstate
  have hlast := hclaim s t quietPass (reachable_of_exec hs) (freeRun_of_exec ht)
    (MainPc.atHead_iff.mp hhead) (MainPc.atHead_iff.mp hhead') (by decide) hquiet
  rw [hannounced, hthrottle] at hlast
  exact absurd hlast (by decide)

end RCControl
