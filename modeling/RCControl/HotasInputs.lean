import RCControl.Moves

/-! The input thread over all interleavings: the throttle follows the change
reports of axis 2, and when the thread ends without a quit. -/
namespace RCControl
open StepSystem

/-- What is left to do with the input at each point, `es` being the events whose
handling is complete. -/
def Pending (env : Env) (s : System) (es : List JsEvent) : HotasPc → Prop
  | .handling e => env.reads = es.map .event ++ .event e :: s.hotas.reads
  | .locking percent | .storing percent => ∃ e,
      env.reads = es.map .event ++ .event e :: s.hotas.reads ∧
      e.changesThrottle = true ∧ percent = convertToPercent env.fl e.value.toInt
  | .clearing => ∃ e, env.reads = es.map .event ++ .event e :: s.hotas.reads ∧ e.quits = true
  | .closing | .finished => env.opens = false ∨ s.running = false ∨
      env.reads = es.map .event ++ .failed :: s.hotas.reads
  | _ => env.reads = es.map .event ++ s.hotas.reads

/-- The events `es` have been handled: the throttle is what they say, and
`running` is still set only if none of them quits. -/
structure Tracked (env : Env) (s : System) (es : List JsEvent) : Prop where
  throttle : s.throttlePosition = lastPercent env.fl JsEvent.changesThrottle es
  noQuit : s.running = true → ∀ e ∈ es, e.quits = false
  pending : Pending env s es s.hotas.pc

namespace Tracked
variable {env : Env} {s t : System} {es : List JsEvent}

theorem initial (env : Env) : Tracked env (.initial env) [] where
  throttle := rfl
  noQuit _ _ he := absurd he List.not_mem_nil
  pending := rfl

theorem of_same (h : Tracked env s es) (hthrottle : t.throttlePosition = s.throttlePosition)
    (hrunning : t.running = s.running) (hhotas : t.hotas = s.hotas) : Tracked env t es where
  throttle := hthrottle.trans h.throttle
  noQuit hr := h.noQuit (hrunning ▸ hr)
  pending := by
    have hpending := h.pending
    rw [hhotas]
    cases hpc : s.hotas.pc <;> rw [hpc] at hpending <;>
      simpa only [Pending, hhotas, hrunning] using hpending

theorem completes (h : Tracked env s es) {e : JsEvent} {rest : List ReadResult}
    (hreads : env.reads = es.map .event ++ .event e :: rest) (hrest : t.hotas.reads = rest)
    (hthrottle : t.throttlePosition =
      lastPercent env.fl JsEvent.changesThrottle (es ++ [e]))
    (hquit : t.running = true → s.running = true ∧ e.quits = false)
    (hpending : env.reads = (es ++ [e]).map .event ++ t.hotas.reads →
      Pending env t (es ++ [e]) t.hotas.pc) :
    Tracked env t (es ++ [e]) where
  throttle := hthrottle
  noQuit hr e' he := by
    obtain ⟨hrunning, hthis⟩ := hquit hr
    -- an event handled before, or this one
    rcases List.mem_append.mp he with he | he
    · exact h.noQuit hrunning e' he
    · rw [List.mem_singleton.mp he]
      exact hthis
  pending := by
    apply hpending
    rw [hreads, hrest]
    simp

/-- Step lemma: a move of `hotas_inputs` keeps the account, completing one event
or none. -/
theorem hotasMove (h : Tracked env s es) (hmove : HotasMove env s t) :
    ∃ es', Tracked env t es' := by
  obtain ⟨hthrottle, hnoQuit, hpending⟩ := h
  cases hmove with
  | opened hpc _ =>
    rw [hpc] at hpending
    exact ⟨es, hthrottle, hnoQuit, hpending⟩
  | openFailed _ hopens => exact ⟨es, hthrottle, hnoQuit, Or.inl hopens⟩
  | enters hpc _ =>
    rw [hpc] at hpending
    exact ⟨es, hthrottle, hnoQuit, hpending⟩
  | leaves _ hrunning => exact ⟨es, hthrottle, hnoQuit, Or.inr (Or.inl hrunning)⟩
  | readFailed hpc hreads =>
    rw [hpc] at hpending
    refine ⟨es, hthrottle, hnoQuit, Or.inr (Or.inr ?_)⟩
    rw [← hreads]
    exact hpending
  | reads hpc hreads =>
    rw [hpc] at hpending
    refine ⟨es, hthrottle, hnoQuit, ?_⟩
    change env.reads = _ ++ _ :: _
    rw [← hreads]
    exact hpending
  | @handles e hpc =>
    rw [hpc] at hpending
    -- the action of the event decides which pending clause has to hold next
    cases haction : eventAction env.fl e with
    | setThrottle percent =>
      obtain ⟨hchange, hpercent⟩ := (eventAction_eq_setThrottle_iff env.fl e percent).mp haction
      refine ⟨es, hthrottle, hnoQuit, ?_⟩
      exact ⟨e, hpending, hchange, hpercent⟩
    | clearRunning =>
      have hquit := (eventAction_eq_clearRunning_iff env.fl e).mp haction
      refine ⟨es, hthrottle, hnoQuit, ?_⟩
      exact ⟨e, hpending, hquit⟩
    | nothing =>
      obtain ⟨hkeep, hquit⟩ := (eventAction_eq_nothing_iff env.fl e).mp haction
      refine ⟨es ++ [e], completes ⟨hthrottle, hnoQuit, hpc ▸ hpending⟩ hpending rfl ?_
        (fun hr => ⟨hr, hquit⟩) (fun hreads => hreads)⟩
      rw [lastPercent_snoc_of_false _ _ _ _ hkeep]
      exact hthrottle
  | locks hpc _ =>
    rw [hpc] at hpending
    exact ⟨es, hthrottle, hnoQuit, hpending⟩
  -- the store completes a change report
  | @stores percent hpc =>
    have hwhole : Tracked env s es := ⟨hthrottle, hnoQuit, hpending⟩
    rw [hpc] at hpending
    obtain ⟨e, hreads, hchange, hpercent⟩ := hpending
    have hquit := quits_eq_false_of_changesThrottle hchange
    refine ⟨es ++ [e], hwhole.completes hreads rfl ?_ (fun hr => ⟨hr, hquit⟩)
      (fun hreads => hreads)⟩
    rw [lastPercent_snoc_of_true _ _ _ _ hchange]
    exact hpercent
  | unlocks hpc =>
    rw [hpc] at hpending
    exact ⟨es, hthrottle, hnoQuit, hpending⟩
  -- and the clearing of `running` a quit
  | clears hpc =>
    have hwhole : Tracked env s es := ⟨hthrottle, hnoQuit, hpending⟩
    rw [hpc] at hpending
    obtain ⟨e, hreads, hquit⟩ := hpending
    refine ⟨es ++ [e], hwhole.completes hreads rfl ?_ nofun (fun hreads => hreads)⟩
    have hkeep := changesThrottle_eq_false_of_quits hquit
    rw [lastPercent_snoc_of_false _ _ _ _ hkeep]
    exact hthrottle
  | closes hpc =>
    rw [hpc] at hpending
    exact ⟨es, hthrottle, hnoQuit, hpending⟩

theorem move (h : Tracked env s es) (hexcl : Exclusive s) {a : Action} (hmove : Move env s a t) :
    ∃ es', Tracked env t es' := by
  cases hmove with
  | hotas hmove => exact h.hotasMove hmove
  | main hmove =>
    cases hmove with
    -- the one move of another thread that touches `hotas_inputs`, which is not running yet
    | createsInputs hpc =>
      have hpending := h.pending
      rw [hexcl.hotasUnborn hpc] at hpending
      exact ⟨es, h.throttle, h.noQuit, hpending⟩
    | _ => exact ⟨es, h.of_same rfl rfl rfl⟩
  | sender hmove =>
    rw [hmove.frame]
    exact ⟨es, h.of_same rfl rfl rfl⟩
  | reports _ => exact ⟨es, h.of_same rfl rfl rfl⟩
  | scanEnds _ => exact ⟨es, h.of_same rfl rfl rfl⟩

theorem reachable (hreach : Reachable (step env) (.initial env) s) : ∃ es, Tracked env s es := by
  obtain ⟨as, hrun⟩ := hreach
  refine run_invariant (fun s => ∃ es, Tracked env s es) ⟨[], .initial env⟩ ?_ hrun
  intro t a u hexcl ⟨es, htracked⟩ _ _ hmove
  exact htracked.move hexcl hmove

end Tracked

/-- Whenever `hotas_inputs` is back at its loop head, in any interleaving, the
throttle is the percentage of the last change report of axis 2 it has read. -/
theorem throttle_follows_change_reports (env : Env) (s : System)
    (hreach : Reachable (step env) (.initial env) s) (hhead : s.hotas.pc = .head) :
    ∃ es : List JsEvent, env.reads = es.map .event ++ s.hotas.reads ∧
      s.throttlePosition = lastPercent env.fl JsEvent.changesThrottle es := by
  obtain ⟨es, htracked⟩ := Tracked.reachable hreach
  have hpending := htracked.pending
  rw [hhead] at hpending
  exact ⟨es, hpending, htracked.throttle⟩

/-- A stick whose throttle stands at its upper end when it is opened; it is moved twice,
and the driver repeats its initial-state reports in between and afterwards. -/
def initReportEnv : Env where
  fl := .exact
  library := headsetRoom.library
  opens := true
  reads := [.event ⟨-32767, jsEventAxis ||| jsEventInit, 2⟩, .event ⟨0, jsEventAxis, 2⟩,
    .event ⟨32767, jsEventAxis ||| jsEventInit, 2⟩, .event ⟨-16384, jsEventAxis, 2⟩,
    .event ⟨0, jsEventAxis ||| jsEventInit, 2⟩]

/-- All five reports are read; 75 percent is what the second move says. -/
theorem throttle_follows_initReportEnv :
    ∃ s, Reachable (step initReportEnv) (.initial initReportEnv) s ∧ s.hotas.reads = [] ∧
      s.throttlePosition = 75 ∧
      ∃ es : List JsEvent, initReportEnv.reads = es.map .event ++ s.hotas.reads ∧
        s.throttlePosition = lastPercent initReportEnv.fl JsEvent.changesThrottle es := by
  have hrun : (exec (step initReportEnv) (.main :: List.replicate 22 .hotasInputs)
      (.initial initReportEnv)).map (fun s => (s.hotas.pc, s.hotas.reads, s.throttlePosition)) =
      some (.head, [], 75) := by decide +kernel
  obtain ⟨s, hs, hstate⟩ := Option.map_eq_some_iff.mp hrun
  obtain ⟨hpc, hreads, hthrottle⟩ : s.hotas.pc = .head ∧ s.hotas.reads = [] ∧
      s.throttlePosition = 75 := by simpa using hstate
  exact ⟨s, reachable_of_exec hs, hreads, hthrottle,
    throttle_follows_change_reports initReportEnv s (reachable_of_exec hs) hpc⟩

/-- The first initial-state report says 100 percent and is not applied. -/
theorem initReport_not_applied :
    ¬∀ s, Reachable (step initReportEnv) (.initial initReportEnv) s → s.hotas.pc = .head →
      ∀ es : List JsEvent, initReportEnv.reads = es.map .event ++ s.hotas.reads →
        s.throttlePosition = lastPercent initReportEnv.fl JsEvent.reportsThrottle es := by
  intro hclaim
  -- one event is handled
  have hrun : (exec (step initReportEnv) (.main :: List.replicate 4 .hotasInputs)
      (.initial initReportEnv)).map (fun s => (s.hotas.pc, s.hotas.reads, s.throttlePosition)) =
      some (.head, initReportEnv.reads.tail, 0) := by decide +kernel
  obtain ⟨s, hs, hstate⟩ := Option.map_eq_some_iff.mp hrun
  obtain ⟨hpc, hreads, hthrottle⟩ : s.hotas.pc = .head ∧
      s.hotas.reads = initReportEnv.reads.tail ∧ s.throttlePosition = 0 := by simpa using hstate
  -- it would have to be 100
  have hlast := hclaim s (reachable_of_exec hs) hpc
    [⟨-32767, jsEventAxis ||| jsEventInit, 2⟩] (by rw [hreads]; rfl)
  rw [hthrottle] at hlast
  exact absurd hlast (by decide +kernel)

/-- `hotas_inputs` runs alone, `main` waiting at its second `pthread_create`; it
has not been told to stop, is at its loop head and has `unread` before it. -/
structure Alone (env : Env) (s : System) (unread : List ReadResult) : Prop where
  reachable : Reachable (step env) (.initial env) s
  main : s.mainPc = .createSender
  running : s.running = true
  free : s.throttleMutex = none
  pc : s.hotas.pc = .head
  reads : s.hotas.reads = unread

namespace Alone
variable {env : Env} {s t : System} {unread : List ReadResult}

theorem opened (hopens : env.opens = true) : ∃ s, Alone env s env.reads := by
  -- the schedule is executed symbolically, the reads being arbitrary
  have hrun : ∃ s, exec (step env) [.main, .hotasInputs] (.initial env) = some s ∧
      s.mainPc = .createSender ∧ s.running = true ∧ s.throttleMutex = none ∧
      s.hotas.pc = .head ∧ s.hotas.reads = env.reads := by
    simp [exec, step, mainStep, hotasStep, System.initial, Hotas.goto, Hotas.report, hopens]
  obtain ⟨s, hs, hmain, hrunning, hfree, hpc, hreads⟩ := hrun
  exact ⟨s, reachable_of_exec hs, hmain, hrunning, hfree, hpc, hreads⟩

theorem handles {e : JsEvent} (h : Alone env s (.event e :: unread)) (hquit : e.quits = false) :
    ∃ t, Alone env t unread := by
  obtain ⟨hreach, hmain, hrunning, hfree, hpc, hreads⟩ := h
  cases haction : eventAction env.fl e with
  -- only a quit clears `running`
  | clearRunning =>
    rw [(eventAction_eq_clearRunning_iff env.fl e).mp haction] at hquit
    cases hquit
  | nothing =>
    have hrun : ∃ t, exec (step env) [.hotasInputs, .hotasInputs, .hotasInputs] s = some t ∧
        t.mainPc = .createSender ∧ t.running = true ∧ t.throttleMutex = none ∧
        t.hotas.pc = .head ∧ t.hotas.reads = unread := by
      simp [exec, step, hotasStep, Hotas.goto, Hotas.report, EventAction.pc, *]
    obtain ⟨t, ht, hrest⟩ := hrun
    exact ⟨t, hreach.trans (reachable_of_exec ht), hrest.1, hrest.2.1, hrest.2.2.1,
      hrest.2.2.2.1, hrest.2.2.2.2⟩
  -- a change report needs three steps more, for the critical section
  | setThrottle percent =>
    have hrun : ∃ t, exec (step env) [.hotasInputs, .hotasInputs, .hotasInputs, .hotasInputs,
        .hotasInputs, .hotasInputs] s = some t ∧
        t.mainPc = .createSender ∧ t.running = true ∧ t.throttleMutex = none ∧
        t.hotas.pc = .head ∧ t.hotas.reads = unread := by
      simp [exec, step, hotasStep, Hotas.goto, Hotas.report, EventAction.pc, *]
    obtain ⟨t, ht, hrest⟩ := hrun
    exact ⟨t, hreach.trans (reachable_of_exec ht), hrest.1, hrest.2.1, hrest.2.2.1,
      hrest.2.2.2.1, hrest.2.2.2.2⟩

theorem fails (h : Alone env s (.failed :: unread)) :
    ∃ t, Reachable (step env) (.initial env) t ∧ t.hotas.pc = .finished ∧ t.running = true := by
  obtain ⟨hreach, hmain, hrunning, hfree, hpc, hreads⟩ := h
  have hrun : ∃ t, exec (step env) [.hotasInputs, .hotasInputs, .hotasInputs] s = some t ∧
      t.hotas.pc = .finished ∧ t.running = true := by
    simp [exec, step, hotasStep, Hotas.goto, Hotas.report, *]
  obtain ⟨t, ht, hfinished, hset⟩ := hrun
  exact ⟨t, hreach.trans (reachable_of_exec ht), hfinished, hset⟩

/-- A failed read without a quit in front of it ends the thread with `running` set. -/
theorem fails_later {before after : List ReadResult} (h : Alone env s (before ++ .failed :: after))
    (hquit : ∀ e, .event e ∈ before → e.quits = false) :
    ∃ t, Reachable (step env) (.initial env) t ∧ t.hotas.pc = .finished ∧ t.running = true := by
  -- one event after the other, each of them handled undisturbed
  induction before generalizing s with
  | nil => exact h.fails
  | cons r before ih =>
    cases r with
    | failed => exact h.fails
    | event e =>
      obtain ⟨t, ht⟩ := h.handles (hquit e List.mem_cons_self)
      exact ih ht fun e' he' => hquit e' (List.mem_cons_of_mem _ he')

end Alone

/-- `hotas_inputs` never ends with `running` still set exactly when the device
opens and every failing read comes after a press of button 0. -/
theorem finished_stops_iff (env : Env) :
    (∀ s, Reachable (step env) (.initial env) s → s.hotas.pc = .finished → s.running = false) ↔
      env.opens = true ∧ ∀ before after, env.reads = before ++ .failed :: after →
        ∃ e, .event e ∈ before ∧ e.quits = true := by
  constructor
  · intro hstops
    -- a failed open is the shortest run to a finished thread
    have hopens : env.opens = true := by
      by_contra hfails
      have hrun : ∃ s, exec (step env) [.main, .hotasInputs] (.initial env) = some s ∧
          s.hotas.pc = .finished ∧ s.running = true := by
        simp [exec, step, mainStep, hotasStep, System.initial, Hotas.goto, Hotas.report, hfails]
      obtain ⟨s, hs, hpc, hrunning⟩ := hrun
      rw [hstops s (reachable_of_exec hs) hpc] at hrunning
      cases hrunning
    refine ⟨hopens, fun before after hreads => ?_⟩
    -- without a quit in front of it the failing read is reached
    by_contra hnone
    have hquit : ∀ e, .event e ∈ before → e.quits = false := by
      intro e he
      apply Bool.eq_false_of_not_eq_true
      intro hquit
      exact hnone ⟨e, he, hquit⟩
    obtain ⟨s, hs⟩ := Alone.opened hopens
    rw [hreads] at hs
    obtain ⟨t, hreach, hpc, hrunning⟩ := hs.fails_later hquit
    rw [hstops t hreach hpc] at hrunning
    cases hrunning
  · intro hcond s hreach hpc
    obtain ⟨hopens, hfailures⟩ := hcond
    obtain ⟨es, htracked⟩ := Tracked.reachable hreach
    have hpending := htracked.pending
    rw [hpc] at hpending
    -- the three ways out of the thread
    rcases hpending with hclosed | hstopped | hfailed
    · rw [hopens] at hclosed
      cases hclosed
    · exact hstopped
    · obtain ⟨e, he, hquit⟩ := hfailures _ _ hfailed
      have hmem : e ∈ es := by simpa using he
      apply Bool.eq_false_of_not_eq_true
      intro hrunning
      rw [htracked.noQuit hrunning e hmem] at hquit
      cases hquit

/-- A stick that is moved once and then unplugged. -/
def unpluggedEnv : Env where
  fl := .exact
  library := headsetRoom.library
  opens := true
  reads := [.event ⟨0, jsEventAxis, 2⟩, .failed]

theorem unplugged_leaves_running_set :
    ¬∀ s, Reachable (step unpluggedEnv) (.initial unpluggedEnv) s →
      s.hotas.pc = .finished → s.running = false := by
  intro hclaim
  have hrun : (exec (step unpluggedEnv) (.main :: List.replicate 10 .hotasInputs)
      (.initial unpluggedEnv)).map (fun s => (s.hotas.pc, s.running)) =
        some (.finished, true) := by decide +kernel
  obtain ⟨s, hs, hstate⟩ := Option.map_eq_some_iff.mp hrun
  obtain ⟨hpc, hrunning⟩ : s.hotas.pc = .finished ∧ s.running = true := by simpa using hstate
  rw [hclaim s (reachable_of_exec hs) hpc] at hrunning
  cases hrunning

end RCControl
