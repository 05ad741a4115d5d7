import RCControl.Threads

/-! What each step of each thread can do, what the other threads see of it, and
the mutual exclusion that follows. -/
namespace RCControl
open Resumption StepSystem

/-- The moves of `hotas_inputs`, one for each way through its step. -/
inductive HotasMove (env : Env) (s : System) : System → Prop
  | opened (hpc : s.hotas.pc = .opening) (hopens : env.opens = true) :
      HotasMove env s { s with hotas := s.hotas.report [.readingInputs] .head }
  | openFailed (hpc : s.hotas.pc = .opening) (hopens : env.opens = false) :
      HotasMove env s { s with hotas := s.hotas.report [.couldNotOpen] .finished }
  | enters (hpc : s.hotas.pc = .head) (hrunning : s.running = true) :
      HotasMove env s { s with hotas := s.hotas.goto .reading }
  | leaves (hpc : s.hotas.pc = .head) (hrunning : s.running = false) :
      HotasMove env s { s with hotas := s.hotas.goto .closing }
  | readFailed {rest : List ReadResult} (hpc : s.hotas.pc = .reading)
      (hreads : s.hotas.reads = .failed :: rest) : HotasMove env s
        { s with hotas := { s.hotas.report [.readError] .closing with reads := rest } }
  | reads {e : JsEvent} {rest : List ReadResult} (hpc : s.hotas.pc = .reading)
      (hreads : s.hotas.reads = .event e :: rest) : HotasMove env s
        { s with hotas := { s.hotas.goto (.handling e) with reads := rest } }
  | handles {e : JsEvent} (hpc : s.hotas.pc = .handling e) : HotasMove env s
      { s with hotas := s.hotas.report (eventOutput e) (eventAction env.fl e).pc }
  | locks {percent : ℤ} (hpc : s.hotas.pc = .locking percent) (hfree : s.throttleMutex = none) :
      HotasMove env s
        { s with throttleMutex := some .hotasInputs, hotas := s.hotas.goto (.storing percent) }
  | stores {percent : ℤ} (hpc : s.hotas.pc = .storing percent) : HotasMove env s
      { s with throttlePosition := percent, stored := s.stored ++ [percent]
               hotas := s.hotas.goto .unlocking }
  | unlocks (hpc : s.hotas.pc = .unlocking) :
      HotasMove env s { s with throttleMutex := none, hotas := s.hotas.goto .head }
  | clears (hpc : s.hotas.pc = .clearing) :
      HotasMove env s { s with running := false, hotas := s.hotas.goto .head }
  | closes (hpc : s.hotas.pc = .closing) :
      HotasMove env s { s with hotas := s.hotas.goto .finished }

theorem hotasMove_of_step {env : Env} {s t : System} (h : hotasStep env s = some t) :
    HotasMove env s t := by
  unfold hotasStep at h
  -- one point of the thread after the other
  split at h
  · cases h
  · next hpc =>
    split at h <;> cases h
    · exact .opened hpc ‹_›
    · exact .openFailed hpc (Bool.eq_false_of_not_eq_true ‹_›)
  · next hpc =>
    cases h
    by_cases hrunning : s.running = true
    · rw [if_pos hrunning]
      exact .enters hpc hrunning
    · rw [if_neg hrunning]
      exact .leaves hpc (Bool.eq_false_of_not_eq_true hrunning)
  · next hpc =>
    split at h <;> cases h
    · exact .readFailed hpc ‹_›
    · exact .reads hpc ‹_›
  · next hpc => cases h; exact .handles hpc
  · next hpc =>
    split at h <;> cases h
    exact .locks hpc ‹_›
  · next hpc => cases h; exact .stores hpc
  · next hpc => cases h; exact .unlocks hpc
  · next hpc => cases h; exact .clears hpc
  · next hpc => cases h; exact .closes hpc
  · cases h

/-- The moves of `main`. -/
inductive MainMove (env : Env) (s : System) : System → Prop
  | createsInputs (hpc : s.mainPc = .createInputs) :
      MainMove env s { s with mainPc := .createSender, hotas := s.hotas.goto .opening }
  | createsSender (hpc : s.mainPc = .createSender) :
      MainMove env s { s with mainPc := .baseline, senderPc := .setup bleSetup }
  | starts (hpc : s.mainPc = .baseline) :
      MainMove env s { s with mainPc := .head, display := .start s.throttlePosition }
  | enters (hpc : s.mainPc = .head) (hrunning : s.running = true) :
      MainMove env s { s with mainPc := .locking }
  | leaves (hpc : s.mainPc = .head) (hrunning : s.running = false) :
      MainMove env s { s with mainPc := .returning }
  | locks (hpc : s.mainPc = .locking) (hfree : s.throttleMutex = none) :
      MainMove env s { s with throttleMutex := some .main, mainPc := .testing }
  | finds (hpc : s.mainPc = .testing) (hne : s.throttlePosition ≠ s.display.current) :
      MainMove env s { s with mainPc := .copying }
  | skips (hpc : s.mainPc = .testing) (heq : s.throttlePosition = s.display.current) :
      MainMove env s { s with mainPc := .unlocking }
  | copies (hpc : s.mainPc = .copying) : MainMove env s
      { s with mainPc := .printing, display := s.display.record s.throttlePosition }
  | prints (hpc : s.mainPc = .printing) : MainMove env s
      { s with mainPc := .unlocking, display := s.display.announce s.display.current }
  | unlocks (hpc : s.mainPc = .unlocking) :
      MainMove env s { s with throttleMutex := none, mainPc := .sleeping }
  | wakes (hpc : s.mainPc = .sleeping) : MainMove env s { s with mainPc := .head }
  | exits (hpc : s.mainPc = .returning) (hhandler : s.ble.exitHandler = false) :
      MainMove env s { s with mainPc := .exited }
  | startsCleaning (hpc : s.mainPc = .returning) (hhandler : s.ble.exitHandler = true) :
      MainMove env s { s with mainPc := .cleaning cleanOnExit }
  | cleans {rest : BleProg Unit} {next : MainPc × BleWorld} (hpc : s.mainPc = .cleaning rest)
      (hnext : rest.advance (perform env.library .cleanOnExit) .cleaning (fun _ => .exited)
        s.ble = next) :
      MainMove env s { s with mainPc := next.1, ble := next.2 }

theorem cleaning_next {env : Env} {s : System} {rest : BleProg Unit} {next : MainPc × BleWorld}
    (hnext : rest.advance (perform env.library .cleanOnExit) .cleaning (fun _ => .exited)
      s.ble = next) : next.1 = .exited ∨ ∃ q, next.1 = .cleaning q := by
  rw [← hnext]
  exact Prog.advance_fst (fun pc : MainPc => pc = .exited ∨ ∃ q, pc = .cleaning q)
    (fun q => Or.inr ⟨q, rfl⟩) (fun _ => Or.inl rfl) rest s.ble

theorem mainMove_of_step {env : Env} {s t : System} (h : mainStep env s = some t) :
    MainMove env s t := by
  unfold mainStep at h
  split at h
  · next hpc => cases h; exact .createsInputs hpc
  · next hpc => cases h; exact .createsSender hpc
  · next hpc => cases h; exact .starts hpc
  · next hpc =>
    cases h
    by_cases hrunning : s.running = true
    · rw [if_pos hrunning]
      exact .enters hpc hrunning
    · rw [if_neg hrunning]
      exact .leaves hpc (Bool.eq_false_of_not_eq_true hrunning)
  · next hpc =>
    split at h <;> cases h
    exact .locks hpc ‹_›
  · next hpc =>
    cases h
    by_cases heq : s.throttlePosition = s.display.current
    · rw [if_neg (not_not_intro heq)]
      exact .skips hpc heq
    · rw [if_pos heq]
      exact .finds hpc heq
  · next hpc => cases h; exact .copies hpc
  · next hpc => cases h; exact .prints hpc
  · next hpc => cases h; exact .unlocks hpc
  · next hpc => cases h; exact .wakes hpc
  · next hpc =>
    cases h
    by_cases hhandler : s.ble.exitHandler = true
    · rw [if_pos hhandler]
      exact .startsCleaning hpc hhandler
    · rw [if_neg hhandler]
      exact .exits hpc (Bool.eq_false_of_not_eq_true hhandler)
  · next hpc => cases h; exact .cleans hpc rfl
  · cases h

/-- The moves of `ble_sender`. -/
inductive SenderMove (env : Env) (s : System) : System → Prop
  | setsUp {rest : BleProg Unit} {next : SenderPc × BleWorld} (hpc : s.senderPc = .setup rest)
      (hnext : rest.advance (perform env.library .bleSender) .setup
        (.onward fun _ => .scanning) s.ble = next) :
      SenderMove env s { s with senderPc := next.1, ble := next.2 }
  | callsBack {rest : BleProg Unit} {next : SenderPc × BleWorld}
      (hpc : s.senderPc = .callback rest)
      (hnext : rest.advance (perform env.library .scanCallback) .callback .backToScan
        s.ble = next) :
      SenderMove env s { s with senderPc := next.1, ble := next.2 }
  | connects {rest : BleProg Handle} {next : SenderPc × BleWorld}
      (hpc : s.senderPc = .connecting rest)
      (hnext : rest.advance (perform env.library .bleSender) .connecting
        (.onward fun p => .enumerating p (enumerateServices p)) s.ble = next) :
      SenderMove env s { s with senderPc := next.1, ble := next.2 }
  | enumerates {peripheral : Handle} {rest : BleProg Unit} {next : SenderPc × BleWorld}
      (hpc : s.senderPc = .enumerating peripheral rest)
      (hnext : rest.advance (perform env.library .bleSender) (.enumerating peripheral)
        (.onward fun _ => .baseline peripheral) s.ble = next) :
      SenderMove env s { s with senderPc := next.1, ble := next.2 }
  | starts {peripheral : Handle} (hpc : s.senderPc = .baseline peripheral) :
      SenderMove env s
        { s with senderPc := .head peripheral, send := .start s.throttlePosition }
  | enters {peripheral : Handle} (hpc : s.senderPc = .head peripheral)
      (hrunning : s.running = true) :
      SenderMove env s { s with senderPc := .testing peripheral }
  | leaves {peripheral : Handle} (hpc : s.senderPc = .head peripheral)
      (hrunning : s.running = false) :
      SenderMove env s { s with senderPc := .disconnecting peripheral }
  | finds {peripheral : Handle} (hpc : s.senderPc = .testing peripheral)
      (hne : s.throttlePosition ≠ s.send.current) :
      SenderMove env s { s with senderPc := .announcing peripheral }
  | skips {peripheral : Handle} (hpc : s.senderPc = .testing peripheral)
      (heq : s.throttlePosition = s.send.current) :
      SenderMove env s { s with senderPc := .head peripheral }
  | announces {peripheral : Handle} (hpc : s.senderPc = .announcing peripheral) :
      SenderMove env s { s with
        senderPc := .recording peripheral, send := s.send.announce s.throttlePosition }
  | records {peripheral : Handle} (hpc : s.senderPc = .recording peripheral) :
      SenderMove env s { s with
        senderPc := .head peripheral, send := s.send.record s.throttlePosition }
  | disconnects {peripheral : Handle} (hpc : s.senderPc = .disconnecting peripheral) :
      SenderMove env s { s with
        senderPc := .returned
        ble := s.ble.called env.library .bleSender (.peripheralDisconnect peripheral) }

theorem senderMove_of_step {env : Env} {s t : System} (h : senderStep env s = some t) :
    SenderMove env s t := by
  unfold senderStep at h
  split at h
  · next hpc => cases h; exact .setsUp hpc rfl
  · next hpc => cases h; exact .callsBack hpc rfl
  · next hpc => cases h; exact .connects hpc rfl
  · next hpc => cases h; exact .enumerates hpc rfl
  · next hpc => cases h; exact .starts hpc
  · next peripheral hpc =>
    cases h
    by_cases hrunning : s.running = true
    · rw [if_pos hrunning]
      exact .enters hpc hrunning
    · rw [if_neg hrunning]
      exact .leaves hpc (Bool.eq_false_of_not_eq_true hrunning)
  · next peripheral hpc =>
    cases h
    by_cases heq : s.throttlePosition = s.send.current
    · rw [if_neg (not_not_intro heq)]
      exact .skips hpc heq
    · rw [if_pos heq]
      exact .finds hpc heq
  · next hpc => cases h; exact .announces hpc
  · next hpc => cases h; exact .records hpc
  · next hpc => cases h; exact .disconnects hpc
  -- at the remaining points it waits for SimpleBLE or is done
  all_goals cases h

/-- The moves of the whole program. -/
inductive Move (env : Env) (s : System) : Action → System → Prop
  | hotas {t : System} (h : HotasMove env s t) : Move env s .hotasInputs t
  | main {t : System} (h : MainMove env s t) : Move env s .main t
  | sender {t : System} (h : SenderMove env s t) : Move env s .bleSender t
  | reports {e : ScanEvent} (hpc : s.senderPc = .scanning) :
      Move env s (.report e) { s with senderPc := .callback (e.callback s.ble.adapter) }
  | scanEnds (hpc : s.senderPc = .scanning) :
      Move env s .scanEnds { s with senderPc := .connecting selectAndConnect }

/-- Every step is a move, and none is made once the process has exited. -/
theorem move_of_step {env : Env} {a : Action} {s t : System} (h : step env a s = some t) :
    s.mainPc ≠ .exited ∧ Move env s a t := by
  unfold step at h
  split at h
  -- after the exit no thread is left
  · cases h
  · next hlive => exact ⟨hlive, .hotas (hotasMove_of_step h)⟩
  · next hlive => exact ⟨hlive, .main (mainMove_of_step h)⟩
  · next hlive => exact ⟨hlive, .sender (senderMove_of_step h)⟩
  · next hlive =>
    unfold reportStep at h
    split at h <;> cases h
    exact ⟨hlive, .reports ‹_›⟩
  · next hlive =>
    unfold scanEndsStep at h
    split at h <;> cases h
    exact ⟨hlive, .scanEnds ‹_›⟩

/-- Until then `ble_sender` is never held up by the other threads. -/
theorem step_bleSender {env : Env} {s : System} (hlive : s.mainPc ≠ .exited) :
    step env .bleSender s = senderStep env s := by
  cases hpc : s.mainPc <;> simp_all [step]

section Frames
variable {env : Env} {s t : System} {a : Action}

theorem HotasMove.throttle (h : HotasMove env s t) :
    (∃ percent, s.hotas.pc = .storing percent ∧ t.throttlePosition = percent ∧
      t.stored = s.stored ++ [percent]) ∨
    (t.throttlePosition = s.throttlePosition ∧ t.stored = s.stored) := by
  cases h with
  | stores hpc => exact Or.inl ⟨_, hpc, rfl, rfl⟩
  | _ => exact Or.inr ⟨rfl, rfl⟩

theorem HotasMove.frame (h : HotasMove env s t) :
    t.mainPc = s.mainPc ∧ t.display = s.display ∧ t.senderPc = s.senderPc ∧
      t.send = s.send ∧ t.ble = s.ble := by
  cases h <;> exact ⟨rfl, rfl, rfl, rfl, rfl⟩

theorem MainMove.frame (h : MainMove env s t) :
    t.running = s.running ∧ t.throttlePosition = s.throttlePosition ∧ t.stored = s.stored ∧
      t.hotas.reads = s.hotas.reads ∧ t.send = s.send := by
  cases h <;> exact ⟨rfl, rfl, rfl, rfl, rfl⟩

theorem SenderMove.frame (h : SenderMove env s t) :
    t = { s with senderPc := t.senderPc, send := t.send, ble := t.ble } := by
  cases h <;> rfl

theorem Move.throttle (h : Move env s a t) :
    (a = .hotasInputs ∧ ∃ percent, s.hotas.pc = .storing percent ∧
      t.throttlePosition = percent ∧ t.stored = s.stored ++ [percent]) ∨
    (t.throttlePosition = s.throttlePosition ∧ t.stored = s.stored) := by
  cases h with
  | hotas h =>
    rcases h.throttle with hstore | hkeep
    · exact Or.inl ⟨rfl, hstore⟩
    · exact Or.inr hkeep
  -- `main` only reads it, and `ble_sender` does not know the mutex
  | main h => exact Or.inr ⟨h.frame.2.1, h.frame.2.2.1⟩
  | sender h =>
    rw [h.frame]
    exact Or.inr ⟨rfl, rfl⟩
  | reports hpc => exact Or.inr ⟨rfl, rfl⟩
  | scanEnds hpc => exact Or.inr ⟨rfl, rfl⟩

theorem Move.store {percent : ℤ} (h : Move env s .hotasInputs t)
    (hstoring : s.hotas.pc = .storing percent) :
    t = { s with throttlePosition := percent, stored := s.stored ++ [percent]
                 hotas := s.hotas.goto .unlocking } := by
  obtain hmove | _ | _ := h
  cases hmove with
  | stores hpc =>
    rw [hstoring] at hpc
    cases hpc
    rfl
  | _ => simp_all

theorem Move.stored_length_le (h : Move env s a t) : s.stored.length ≤ t.stored.length := by
  rcases h.throttle with ⟨-, percent, -, -, hstored⟩ | ⟨-, hstored⟩
  · rw [hstored, List.length_append]
    omega
  · rw [hstored]

theorem Move.throttle_of_quiet (h : Move env s a t) (hquiet : t.stored.length = s.stored.length) :
    t.throttlePosition = s.throttlePosition := by
  rcases h.throttle with ⟨-, percent, -, -, hstored⟩ | ⟨hthrottle, -⟩
  · rw [hstored, List.length_append, List.length_singleton] at hquiet
    omega
  · exact hthrottle

theorem Move.main_frame (h : Move env s a t) (ha : a ≠ .main) :
    t.mainPc = s.mainPc ∧ t.display = s.display := by
  cases h with
  | hotas h => exact ⟨h.frame.1, h.frame.2.1⟩
  | main _ => exact absurd rfl ha
  | sender h =>
    rw [h.frame]
    exact ⟨rfl, rfl⟩
  | reports _ => exact ⟨rfl, rfl⟩
  | scanEnds _ => exact ⟨rfl, rfl⟩

end Frames

/-- The points at which `hotas_inputs` holds `throttle_mutex`. -/
def HotasPc.inside : HotasPc → Bool
  | .storing _ | .unlocking => true
  | _ => false

/-- The points at which `main` does. -/
def MainPc.inside : MainPc → Bool
  | .testing | .copying | .printing | .unlocking => true
  | _ => false

/-- The point after the critical section of `main`, and the head of its loop, as
tests that compute. -/
def MainPc.releasing : MainPc → Bool
  | .unlocking => true
  | _ => false

def MainPc.atHead : MainPc → Bool
  | .head => true
  | _ => false

theorem MainPc.releasing_iff {pc : MainPc} : pc.releasing = true ↔ pc = .unlocking := by
  cases pc <;> simp [releasing]

theorem MainPc.atHead_iff {pc : MainPc} : pc.atHead = true ↔ pc = .head := by
  cases pc <;> simp [atHead]

/-- The peripheral of a send loop that is at its head. -/
def SenderPc.atHead : SenderPc → Option Handle
  | .head peripheral => some peripheral
  | _ => none

theorem SenderPc.atHead_iff {pc : SenderPc} {peripheral : Handle} :
    pc.atHead = some peripheral ↔ pc = .head peripheral := by
  cases pc <;> simp [atHead]

/-- No thread runs before it is created, and the owner of the mutex is the
thread inside its critical section. -/
structure Exclusive (s : System) : Prop where
  hotasUnborn : s.mainPc = .createInputs → s.hotas.pc = .notStarted
  senderUnborn : s.mainPc = .createInputs ∨ s.mainPc = .createSender → s.senderPc = .notStarted
  hotas : s.hotas.pc.inside = true ↔ s.throttleMutex = some .hotasInputs
  main : s.mainPc.inside = true ↔ s.throttleMutex = some .main

namespace Exclusive
variable {env : Env} {s t : System}

theorem initial (env : Env) : Exclusive (.initial env) where
  hotasUnborn _ := rfl
  senderUnborn _ := rfl
  hotas := by simp [System.initial, HotasPc.inside]
  main := by simp [System.initial, MainPc.inside]

theorem not_both (h : Exclusive s) (hmain : s.mainPc.inside = true) :
    s.hotas.pc.inside = false := by
  apply Bool.eq_false_of_not_eq_true
  intro hhotas
  -- the mutex would have two owners
  have howner := h.hotas.mp hhotas
  rw [h.main.mp hmain] at howner
  cases howner

theorem hotasGoes (h : Exclusive s) (hhotas : t.hotas.pc.inside = s.hotas.pc.inside)
    (hborn : s.hotas.pc ≠ .notStarted) (hmutex : t.throttleMutex = s.throttleMutex)
    (hmain : t.mainPc = s.mainPc) (hsender : t.senderPc = s.senderPc) : Exclusive t where
  hotasUnborn hpc := absurd (h.hotasUnborn (hmain ▸ hpc)) hborn
  senderUnborn hpc := by rw [hsender]; exact h.senderUnborn (hmain ▸ hpc)
  hotas := by rw [hhotas, hmutex]; exact h.hotas
  main := by rw [hmain, hmutex]; exact h.main

theorem hotasMove (h : Exclusive s) (hmove : HotasMove env s t) : Exclusive t := by
  have hborn : s.hotas.pc ≠ .notStarted := by
    intro hpc
    cases hmove <;> simp_all
  have hunborn : s.mainPc ≠ .createInputs := by
    intro hmain
    exact hborn (h.hotasUnborn hmain)
  cases hmove with
  -- the moves that stay on their side of the mutex
  | opened hpc _ | openFailed hpc _ | enters hpc _ | leaves hpc _ | readFailed hpc _
  | reads hpc _ | clears hpc | closes hpc | stores hpc =>
    refine h.hotasGoes ?_ hborn rfl rfl rfl
    rw [hpc]
    rfl
  | @handles e hpc =>
    refine h.hotasGoes ?_ hborn rfl rfl rfl
    -- none of the three effects of an event starts inside the critical section
    rw [hpc]
    change (eventAction env.fl e).pc.inside = false
    cases eventAction env.fl e <;> rfl
  -- the mutex was free, so `main` is outside
  | locks _ hfree =>
    have hmain : s.mainPc.inside ≠ true := by
      rw [Ne, h.main, hfree]
      simp
    refine ⟨fun hmain => absurd hmain hunborn, h.senderUnborn, ?_, ?_⟩
    · exact iff_of_true rfl rfl
    · exact iff_of_false hmain (by simp)
  | unlocks hpc =>
    -- the unlock is the owner's, so `main` is outside
    have howner : s.throttleMutex = some .hotasInputs := by
      apply h.hotas.mp
      rw [hpc]
      rfl
    have hmain : s.mainPc.inside ≠ true := by
      rw [Ne, h.main, howner]
      simp
    refine ⟨fun hmain => absurd hmain hunborn, h.senderUnborn, ?_, ?_⟩
    · exact iff_of_false (by simp [Hotas.goto, HotasPc.inside]) (by simp)
    · exact iff_of_false hmain (by simp)

theorem mainGoes (h : Exclusive s) (hmain : t.mainPc.inside = s.mainPc.inside)
    (hborn : t.mainPc ≠ .createInputs ∧ t.mainPc ≠ .createSender)
    (hmutex : t.throttleMutex = s.throttleMutex) (hhotas : t.hotas = s.hotas) : Exclusive t where
  hotasUnborn hpc := absurd hpc hborn.1
  senderUnborn hpc := hpc.elim (absurd · hborn.1) (absurd · hborn.2)
  hotas := by rw [hhotas, hmutex]; exact h.hotas
  main := by rw [hmain, hmutex]; exact h.main

theorem mainMove (h : Exclusive s) (hmove : MainMove env s t) : Exclusive t := by
  cases hmove with
  -- the new thread starts outside
  | createsInputs hpc =>
    have hidle : s.hotas.pc.inside = false := by
      rw [h.hotasUnborn hpc]
      rfl
    have hmain : s.mainPc.inside = false := by
      rw [hpc]
      rfl
    refine ⟨nofun, fun _ => h.senderUnborn (Or.inl hpc), ?_, ?_⟩
    · rw [← h.hotas, hidle]
      rfl
    · rw [← h.main, hmain]
      rfl
  | createsSender hpc =>
    have hmain : s.mainPc.inside = false := by
      rw [hpc]
      rfl
    refine ⟨nofun, by simp, h.hotas, ?_⟩
    rw [← h.main, hmain]
    rfl
  | starts hpc | enters hpc _ | leaves hpc _ | finds hpc _ | skips hpc _ | copies hpc
  | prints hpc | wakes hpc | exits hpc _ | startsCleaning hpc _ =>
    refine h.mainGoes ?_ ⟨nofun, nofun⟩ rfl rfl
    rw [hpc]
    rfl
  | @cleans rest next hpc hnext =>
    have hlater : next.1.inside = false ∧ next.1 ≠ .createInputs ∧ next.1 ≠ .createSender := by
      rcases cleaning_next hnext with hexit | ⟨q, hclean⟩
      · rw [hexit]
        exact ⟨rfl, nofun, nofun⟩
      · rw [hclean]
        exact ⟨rfl, nofun, nofun⟩
    exact h.mainGoes (by rw [hpc]; exact hlater.1) hlater.2 rfl rfl
  -- again the mutex was free
  | locks hpc hfree =>
    have hhotas : s.hotas.pc.inside ≠ true := by
      rw [Ne, h.hotas, hfree]
      simp
    refine ⟨nofun, by simp, ?_, ?_⟩
    · exact iff_of_false hhotas (by simp)
    · exact iff_of_true rfl rfl
  | unlocks hpc =>
    -- here it is the other way round
    have howner : s.throttleMutex = some .main := h.main.mp (by rw [hpc]; rfl)
    have hhotas : s.hotas.pc.inside ≠ true := by
      rw [Ne, h.hotas, howner]
      simp
    refine ⟨nofun, by simp, ?_, ?_⟩
    · exact iff_of_false hhotas (by simp)
    · exact iff_of_false (by simp [MainPc.inside]) (by simp)

theorem senderGoes (h : Exclusive s) (hborn : s.senderPc ≠ .notStarted)
    (hmain : t.mainPc = s.mainPc) (hmutex : t.throttleMutex = s.throttleMutex)
    (hhotas : t.hotas = s.hotas) : Exclusive t where
  hotasUnborn hpc := by rw [hhotas]; exact h.hotasUnborn (hmain ▸ hpc)
  senderUnborn hpc := absurd (h.senderUnborn (hmain ▸ hpc)) hborn
  hotas := by rw [hhotas, hmutex]; exact h.hotas
  main := by rw [hmain, hmutex]; exact h.main

theorem senderMove (h : Exclusive s) (hmove : SenderMove env s t) : Exclusive t := by
  have hborn : s.senderPc ≠ .notStarted := by
    intro hpc
    cases hmove <;> simp_all
  -- it never touches what `Exclusive` is about
  have hframe := hmove.frame
  exact h.senderGoes hborn (by rw [hframe]) (by rw [hframe]) (by rw [hframe])

theorem move {a : Action} (h : Exclusive s) (hmove : Move env s a t) : Exclusive t := by
  cases hmove with
  | hotas hmove => exact h.hotasMove hmove
  | main hmove => exact h.mainMove hmove
  | sender hmove => exact h.senderMove hmove
  | reports hpc => exact h.senderGoes (by simp [hpc]) rfl rfl rfl
  | scanEnds hpc => exact h.senderGoes (by simp [hpc]) rfl rfl rfl

/-- Mutual exclusion in every interleaving. -/
theorem reachable (hreach : Reachable (step env) (.initial env) s) : Exclusive s :=
  hreach.invariant Exclusive (initial env) fun _ _ _ h hs => h.move (move_of_step hs).2

end Exclusive

/-- The rule for everything below: what holds at the start of the process and is
kept by each guarded move that respects mutual exclusion holds in each guarded
run, of the actions taken and the state reached. -/
theorem run_trace_invariant {env : Env} {ok : System → Action → Prop}
    (Inv : List Action → System → Prop) (hinit : Inv [] (.initial env))
    (hstep : ∀ as t a u, Exclusive t → Inv as t → ok t a → t.mainPc ≠ .exited → Move env t a u →
      Inv (as ++ [a]) u)
    {as : List Action} {s : System} (hrun : Run (step env) ok (.initial env) as s) : Inv as s := by
  -- mutual exclusion is carried along, so that `Inv` may rely on it
  have hboth : Exclusive s ∧ Inv as s := by
    refine hrun.trace_invariant (fun as s => Exclusive s ∧ Inv as s) ⟨.initial env, hinit⟩ ?_
    intro as t a u ⟨hexcl, hinv⟩ hok hs
    obtain ⟨hlive, hmove⟩ := move_of_step hs
    exact ⟨hexcl.move hmove, hstep as t a u hexcl hinv hok hlive hmove⟩
  exact hboth.2

theorem run_invariant {env : Env} {ok : System → Action → Prop} (Inv : System → Prop)
    (hinit : Inv (.initial env))
    (hstep : ∀ t a u, Exclusive t → Inv t → ok t a → t.mainPc ≠ .exited → Move env t a u → Inv u)
    {as : List Action} {s : System} (hrun : Run (step env) ok (.initial env) as s) : Inv s :=
  run_trace_invariant (fun _ s => Inv s) hinit (fun _ t a u => hstep t a u) hrun

end RCControl
