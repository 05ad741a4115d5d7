import RCControl.HotasInputs
import RCControl.Sampler

/-! The display loop of `main` as a sampler of `throttle_position`: what it
prints, in every interleaving. -/
namespace RCControl
open StepSystem

/-- A poller and the throttle are in the state `σ` of the sampler. -/
structure Samples (poller : Poller) (s : System) (σ : Sampler ℤ) : Prop where
  baseline : poller.baseline = some σ.start
  announced : poller.announced = σ.log
  throttle : s.throttlePosition = σ.value
  stored : s.stored = σ.writes

namespace Samples
variable {poller : Poller} {s t : System} {σ : Sampler ℤ}

theorem start (s : System) :
    Samples (.start s.throttlePosition) s (.begin s.throttlePosition s.stored) where
  baseline := rfl
  announced := rfl
  throttle := (Sampler.begin_value _ _).symm
  stored := (Sampler.begin_writes _ _).symm

theorem store (h : Samples poller s σ) {percent : ℤ} (hthrottle : t.throttlePosition = percent)
    (hstored : t.stored = s.stored ++ [percent]) : Samples poller t (σ.write percent) where
  baseline := h.baseline
  announced := h.announced
  throttle := by rw [hthrottle, Sampler.write_value]
  stored := by rw [hstored, h.stored, Sampler.write_writes]

theorem announce (h : Samples poller s σ) (hne : σ.value ≠ σ.current) {v : ℤ}
    (hv : v = σ.value) (hthrottle : t.throttlePosition = s.throttlePosition)
    (hstored : t.stored = s.stored) : Samples (poller.announce v) t (σ.announce hne) where
  baseline := h.baseline
  announced := by
    rw [Sampler.announce_log, ← h.announced, ← hv]
    rfl
  throttle := by rw [hthrottle, h.throttle, Sampler.announce_value]
  stored := by rw [hstored, h.stored, Sampler.announce_writes]

theorem of_same {poller' : Poller} (h : Samples poller s σ)
    (hbaseline : poller'.baseline = poller.baseline)
    (hannounced : poller'.announced = poller.announced)
    (hthrottle : t.throttlePosition = s.throttlePosition) (hstored : t.stored = s.stored) :
    Samples poller' t σ where
  baseline := hbaseline.trans h.baseline
  announced := hannounced.trans h.announced
  throttle := hthrottle.trans h.throttle
  stored := hstored.trans h.stored

end Samples

/-- What `current` is at each point of the display loop. -/
def MainPc.Knows (current : ℤ) (σ : Sampler ℤ) : MainPc → Prop
  | .copying => current = σ.current ∧ σ.value ≠ σ.current
  | .printing => current = σ.value ∧ σ.value ≠ σ.current
  | .unlocking => current = σ.current ∧ σ.value = σ.current
  | _ => current = σ.current

/-- `main` has not read its baseline yet. -/
def MainPc.starting : MainPc → Bool
  | .createInputs | .createSender | .baseline => true
  | _ => false

/-- The abstraction of the display loop. -/
inductive Displays (s : System) : Prop
  | starting (hpc : s.mainPc.starting = true) (hidle : s.display = .idle)
  | polling (hpc : s.mainPc.starting = false) (σ : Sampler ℤ) (h : Samples s.display s σ)
      (hknows : s.mainPc.Knows s.display.current σ)

namespace Displays
variable {env : Env} {s t : System} {a : Action}

theorem of_same (h : Displays s) (hpc : t.mainPc = s.mainPc) (hdisplay : t.display = s.display)
    (hthrottle : t.throttlePosition = s.throttlePosition) (hstored : t.stored = s.stored) :
    Displays t := by
  cases h with
  | starting hstarting hidle => exact .starting (hpc ▸ hstarting) (hdisplay.trans hidle)
  | polling hstarted σ hσ hknows =>
    refine .polling (hpc ▸ hstarted) σ ?_ (by rw [hpc, hdisplay]; exact hknows)
    exact hσ.of_same (by rw [hdisplay]) (by rw [hdisplay]) hthrottle hstored

/-- A store of `hotas_inputs` finds `main` outside its critical section, where
only the sampled value depends on the throttle. -/
theorem hotasMove (h : Displays s) (hexcl : Exclusive s) (hmove : HotasMove env s t) :
    Displays t := by
  obtain ⟨hpc, hdisplay, -⟩ := hmove.frame
  rcases hmove.throttle with ⟨percent, hstoring, hthrottle, hstored⟩ | ⟨hthrottle, hstored⟩
  -- the mutex keeps the store out of the critical section of `main`
  · have houtside : s.mainPc.inside ≠ true := by
      intro hinside
      have := hexcl.not_both hinside
      rw [hstoring] at this
      cases this
    cases h with
    | starting hstarting hidle => exact .starting (hpc ▸ hstarting) (hdisplay.trans hidle)
    | polling hstarted σ hσ hknows =>
      refine .polling (hpc ▸ hstarted) (σ.write percent) ?_ ?_
      · rw [hdisplay]
        exact hσ.store hthrottle hstored
      · rw [hpc, hdisplay]
        cases hmain : s.mainPc <;> rw [hmain] at hknows houtside <;>
          first | exact hknows | exact absurd rfl houtside
  · exact h.of_same hpc hdisplay hthrottle hstored

theorem mainMove (h : Displays s) (hmove : MainMove env s t) : Displays t := by
  cases h with
  | starting hstarting hidle =>
    cases hmove with
    | createsInputs hpc => exact .starting rfl hidle
    | createsSender hpc => exact .starting rfl hidle
    -- here the sampler begins, with the throttle as its baseline
    | starts hpc =>
      refine .polling rfl (.begin s.throttlePosition s.stored) ?_ rfl
      exact (Samples.start s).of_same rfl rfl rfl rfl
    | _ => simp_all [MainPc.starting]
  | polling hstarted σ hσ hknows =>
    have hsame : Samples s.display t σ :=
      hσ.of_same rfl rfl hmove.frame.2.1 hmove.frame.2.2.1
    cases hmove with
    | createsInputs hpc | createsSender hpc | starts hpc =>
      rw [hpc] at hstarted
      cases hstarted
    | enters hpc _ | leaves hpc _ | locks hpc _ | wakes hpc | exits hpc _
    | startsCleaning hpc _ =>
      rw [hpc] at hknows
      exact .polling rfl σ hsame hknows
    | unlocks hpc =>
      rw [hpc] at hknows
      exact .polling rfl σ hsame hknows.1
    -- both tests compare `current` with the throttle, which is the register of the sampler
    | finds hpc hne =>
      rw [hpc] at hknows
      refine .polling rfl σ hsame ⟨hknows, ?_⟩
      rw [← hσ.throttle, ← hknows]
      exact hne
    | skips hpc heq =>
      rw [hpc] at hknows
      refine .polling rfl σ hsame ⟨hknows, ?_⟩
      rw [← hσ.throttle, ← hknows]
      exact heq
    | copies hpc =>
      rw [hpc] at hknows
      exact .polling rfl σ (hσ.of_same rfl rfl rfl rfl) ⟨hσ.throttle, hknows.2⟩
    | prints hpc =>
      rw [hpc] at hknows
      -- the announcement is where the abstract sampler moves
      refine .polling rfl (σ.announce hknows.2) (hσ.announce hknows.2 hknows.1 rfl rfl) ?_
      have hcurrent := Sampler.announce_current σ hknows.2
      constructor
      · calc s.display.current = σ.value := hknows.1
          _ = (σ.announce hknows.2).current := hcurrent.symm
      · rw [hcurrent, Sampler.announce_value]
    -- nothing is sampled any more
    | @cleans rest next hpc hnext =>
      rw [hpc] at hknows
      rcases cleaning_next hnext with hexit | ⟨q, hclean⟩
      · refine .polling (by rw [hexit]; rfl) σ hsame ?_
        rw [hexit]
        exact hknows
      · refine .polling (by rw [hclean]; rfl) σ hsame ?_
        rw [hclean]
        exact hknows

theorem move (h : Displays s) (hexcl : Exclusive s) (hmove : Move env s a t) : Displays t := by
  cases hmove with
  | hotas hmove => exact h.hotasMove hexcl hmove
  | main hmove => exact h.mainMove hmove
  | sender hmove =>
    rw [hmove.frame]
    exact h.of_same rfl rfl rfl rfl
  | reports _ => exact h.of_same rfl rfl rfl rfl
  | scanEnds _ => exact h.of_same rfl rfl rfl rfl

theorem reachable (hreach : Reachable (step env) (.initial env) s) : Displays s := by
  obtain ⟨as, hrun⟩ := hreach
  -- before `main` has created its threads there is nothing to sample
  exact run_invariant Displays (.starting rfl rfl)
    (fun _ _ _ hexcl h _ _ hmove => h.move hexcl hmove) hrun

end Displays

/-- What `main` prints, in every interleaving: each value differs from the one
before it, the first one from the baseline; the values are among those stored,
in that order; and whenever `main` is about to release the mutex, `current` is
the throttle and the last value printed. -/
theorem display_refines_stores (env : Env) (s : System)
    (hreach : Reachable (step env) (.initial env) s) :
    s.display.announced.IsChain (· ≠ ·) ∧
    (∀ v, s.display.announced.head? = some v → ∃ b, s.display.baseline = some b ∧ v ≠ b) ∧
    s.display.announced.Sublist s.stored ∧
    (s.mainPc = .unlocking → s.display.current = s.throttlePosition ∧
      ∀ v, s.display.announced.getLast? = some v → s.display.current = v) := by
  -- each part is a fact of the sampler, read off through the abstraction
  cases Displays.reachable hreach with
  | starting hpc hidle =>
    rw [hidle]
    refine ⟨List.isChain_nil, nofun, List.nil_sublist _, ?_⟩
    intro hunlocking
    rw [hunlocking] at hpc
    cases hpc
  | polling _ σ hσ hknows =>
    rw [hσ.announced, hσ.stored]
    refine ⟨σ.log_changes, ?_, σ.log_sublist_writes, ?_⟩
    · intro v hv
      exact ⟨σ.start, hσ.baseline, σ.head_ne_start hv⟩
    · intro hunlocking
      rw [hunlocking] at hknows
      constructor
      · calc s.display.current = σ.current := hknows.1
          _ = σ.value := hknows.2.symm
          _ = s.throttlePosition := hσ.throttle.symm
      · intro v hv
        calc s.display.current = σ.current := hknows.1
          _ = v := Sampler.current_eq_of_log hv

/-- A stick whose lever is put to the middle and then to its upper end. -/
def leverEnv : Env where
  fl := .exact
  library := headsetRoom.library
  opens := true
  reads := [.event ⟨0, jsEventAxis, 2⟩, .event ⟨-32767, jsEventAxis, 2⟩]

/-- `main` takes its baseline, the lever is put to the middle, `main` prints. -/
def printOnce : List Action :=
  List.replicate 3 .main ++ List.replicate 7 .hotasInputs ++ List.replicate 5 .main

theorem display_prints_lever :
    ∃ s, Reachable (step leverEnv) (.initial leverEnv) s ∧ s.display.announced = [50] ∧
      s.display.announced.Sublist s.stored ∧ s.display.current = s.throttlePosition := by
  -- `main` has just printed and is about to release the mutex
  have hrun : (exec (step leverEnv) printOnce (.initial leverEnv)).map
      (fun s => (s.mainPc.releasing, s.display.announced)) = some (true, [50]) := by
    decide +kernel
  obtain ⟨s, hs, hstate⟩ := Option.map_eq_some_iff.mp hrun
  obtain ⟨hpc, hannounced⟩ : s.mainPc.releasing = true ∧ s.display.announced = [50] := by
    simpa using hstate
  have hreach := reachable_of_exec hs
  have hdisplay := display_refines_stores leverEnv s hreach
  exact ⟨s, hreach, hannounced, hdisplay.2.2.1,
    (hdisplay.2.2.2 (MainPc.releasing_iff.mp hpc)).1⟩

/-- What `current` is worth at each point of the loop while nothing is stored. -/
def System.DisplayFresh (s : System) : Prop :=
  match s.mainPc with
  | .head | .printing | .unlocking | .sleeping => s.throttlePosition = s.display.current
  | _ => True

theorem System.DisplayFresh.move {env : Env} {s t : System} {a : Action} (h : s.DisplayFresh)
    (hmove : Move env s a t) (hquiet : t.stored.length = s.stored.length) : t.DisplayFresh := by
  have hthrottle := hmove.throttle_of_quiet hquiet
  unfold DisplayFresh at h ⊢
  by_cases ha : a = .main
  · subst ha
    obtain hmove | hmove := hmove
    cases hmove with
    -- the test has just found them equal
    | skips hpc heq => exact heq
    -- no store comes between, so what held before the move still does
    | prints hpc | unlocks hpc | wakes hpc =>
      rw [hpc] at h
      exact h
    | cleans hpc hnext =>
      rcases cleaning_next hnext with hexit | ⟨q, hclean⟩
      · simp only [hexit]
      · simp only [hclean]
    | _ => trivial
  · obtain ⟨hpc, hdisplay⟩ := hmove.main_frame ha
    rw [hpc, hdisplay, hthrottle]
    exact h

/-- After a quiet run from loop head to loop head in which `main` moves, its
`current` is the throttle. -/
theorem display_fresh_of_quiet {env : Env} {s t : System} {acts : List Action}
    (hrun : FreeRun (step env) s acts t) (hs : s.mainPc = .head) (ht : t.mainPc = .head)
    (hmain : .main ∈ acts) (hquiet : t.stored = s.stored) :
    t.throttlePosition = t.display.current := by
  have hfresh : t.DisplayFresh := by
    -- until its first move `main` waits at the head; from then on its loop is fresh
    refine hrun.fresh_of_quiet (fun s => s.stored.length) .main (fun s => s.mainPc = .head)
      System.DisplayFresh ?_ ?_ ?_ ?_ hs hmain (by rw [hquiet])
    · intro t a u hstep
      exact (move_of_step hstep).2.stored_length_le
    · intro t u hhead hstep
      obtain hmove | hmove := (move_of_step hstep).2
      unfold System.DisplayFresh
      -- it leaves the head for its test, where nothing is asked for
      cases hmove <;> simp_all
    · intro t a u ha hhead hstep
      rw [((move_of_step hstep).2.main_frame ha).1]
      exact hhead
    · intro t a u hsame hfresh hstep
      exact hfresh.move (move_of_step hstep).2 hsame
  unfold System.DisplayFresh at hfresh
  rw [ht] at hfresh
  exact hfresh

end RCControl
