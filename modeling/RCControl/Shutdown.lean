import RCControl.CaughtUp
import RCControl.Selection

/-! The exit handler against the running `ble_sender`: which handles are still
used after their release, and when every connection is closed in time. -/
namespace RCControl
open Resumption StepSystem

/-- Whether `peripheral` is connected after one more call. -/
def connectedAfter (peripheral : Handle) (connected : Bool) (e : LogEntry) : Bool :=
  match e.call with
  | .peripheralConnect p => if p = peripheral then connected || e.ok else connected
  | .peripheralDisconnect p => if p = peripheral then connected && !e.ok else connected
  | _ => connected

/-- Whether `peripheral` was connected in a history and not disconnected since. -/
def connectedIn (log : List LogEntry) (peripheral : Handle) : Bool :=
  log.foldl (connectedAfter peripheral) false

/-- A call is acceptable after a history: when it comes from `ble_sender`, the
exit handler has not released the handle it works on, and a peripheral it
releases is not connected. -/
structure Acceptable (before : List LogEntry) (e : LogEntry) : Prop where
  adapterLive : e.caller = .bleSender → ∀ f ∈ before, f.caller = .cleanOnExit →
    ∀ adapter, f.call = .adapterReleaseHandle adapter → e.call.onAdapter ≠ some adapter
  peripheralLive : e.caller = .bleSender → ∀ f ∈ before, f.caller = .cleanOnExit →
    ∀ peripheral, f.call = .peripheralReleaseHandle peripheral →
      e.call.onPeripheral ≠ some peripheral
  disconnected : ∀ peripheral, e.call = .peripheralReleaseHandle peripheral →
    connectedIn before peripheral = false

/-- Every call of a history is acceptable after those before it. -/
def ShutdownContract (log : List LogEntry) : Prop :=
  ∀ before e after, log = before ++ e :: after → Acceptable before e

theorem ShutdownContract.snoc {log : List LogEntry} {e : LogEntry} (h : ShutdownContract log)
    (he : Acceptable log e) : ShutdownContract (log ++ [e]) := by
  intro before f after hsplit
  -- the split is at the new entry or inside the old history
  rcases List.eq_nil_or_concat after with rfl | ⟨rest, g, rfl⟩
  · obtain ⟨rfl, hf⟩ := List.append_inj' hsplit rfl
    rw [← List.singleton_inj.mp hf]
    exact he
  · have hsame : log ++ [e] = (before ++ f :: rest) ++ [g] := by
      rw [hsplit, List.concat_eq_append]
      simp
    exact h before f rest (List.append_inj' hsame rfl).1

/-- The connections of a history are at most the one given. -/
def Within (connection : Option Handle) (log : List LogEntry) : Prop :=
  ∀ peripheral, connectedIn log peripheral = true → connection = some peripheral

/-- The exit handler has made no call yet. -/
def NoExitCall (log : List LogEntry) : Prop := ∀ e ∈ log, e.caller ≠ .cleanOnExit

section Called
variable {library : Library} {caller : Caller} {c : LibCall} {w : BleWorld}
  {connection : Option Handle}

theorem connectedIn_called (peripheral : Handle) :
    connectedIn (w.called library caller c).log peripheral =
      connectedAfter peripheral (connectedIn w.log peripheral)
        ⟨caller, c, c.ok (w.ask library c)⟩ := by
  simp only [connectedIn, BleWorld.called, List.foldl_append, List.foldl_cons, List.foldl_nil]

theorem Within.called (h : Within connection w.log) (hc : c.connects = []) :
    Within connection (w.called library caller c).log := by
  intro peripheral hopen
  apply h
  rw [connectedIn_called] at hopen
  -- only a connect could open a connection
  cases c with
  | peripheralConnect p => cases hc
  | peripheralDisconnect p =>
    simp only [connectedAfter] at hopen
    split at hopen
    · exact (Bool.and_eq_true_iff.mp hopen).1
    · exact hopen
  | _ => exact hopen

theorem Within.connect (h : Within none w.log) (p : Handle) :
    Within (if w.ask library (.peripheralConnect p) = .success then some p else none)
      (w.called library caller (.peripheralConnect p)).log := by
  intro peripheral hopen
  -- the connection was not open before
  have hclosed : connectedIn w.log peripheral = false := by
    apply Bool.eq_false_of_not_eq_true
    intro hconnected
    cases h peripheral hconnected
  rw [connectedIn_called] at hopen
  simp only [connectedAfter, hclosed, Bool.false_or, LibCall.ok] at hopen
  split at hopen
  · next hp =>
    rw [if_pos (by simpa using hopen), hp]
  · cases hopen

theorem Within.disconnect {p : Handle} (h : Within (some p) w.log)
    (hok : w.ask library (.peripheralDisconnect p) = .success) :
    Within none (w.called library caller (.peripheralDisconnect p)).log := by
  intro peripheral hopen
  have hsucceeds : LibCall.ok (.peripheralDisconnect p)
      (w.ask library (.peripheralDisconnect p)) = true := decide_eq_true hok
  rw [connectedIn_called] at hopen
  simp only [connectedAfter] at hopen
  split at hopen
  · rw [hsucceeds, Bool.not_true, Bool.and_false] at hopen
    cases hopen
  · next hp => exact absurd (Option.some.inj (h peripheral hopen)) hp

theorem NoExitCall.called (h : NoExitCall w.log) (hcaller : caller ≠ .cleanOnExit) :
    NoExitCall (w.called library caller c).log := by
  intro e he
  rcases List.mem_append.mp he with he | he
  · exact h e he
  · rw [List.mem_singleton.mp he]
    exact hcaller

/-- The next call is acceptable when `ble_sender` makes it before the exit handler
has begun, or someone else makes it, and it releases no connected peripheral. -/
theorem ShutdownContract.called (h : ShutdownContract w.log)
    (hlive : caller = .bleSender → NoExitCall w.log)
    (hrelease : ∀ p ∈ c.releases, connectedIn w.log p = false) :
    ShutdownContract (w.called library caller c).log := by
  -- the first two clauses are about calls after the exit handler, which has not begun
  refine h.snoc ⟨?_, ?_, ?_⟩
  · intro hcaller f hf hexit
    exact absurd hexit (hlive hcaller f hf)
  · intro hcaller f hf hexit
    exact absurd hexit (hlive hcaller f hf)
  · intro p hp
    dsimp only at hp
    subst hp
    exact hrelease p (List.mem_singleton_self p)

end Called

/-- What is kept while `caller` works and only `connection` may be open. -/
structure Account (caller : Caller) (connection : Option Handle) (w : BleWorld) : Prop where
  contract : ShutdownContract w.log
  noExit : caller ≠ .cleanOnExit → NoExitCall w.log
  within : Within connection w.log

/-- The calls that keep it: no connect, and no release while something is open. -/
def Harmless (connection : Option Handle) (c : LibCall) : Prop :=
  c.connects = [] ∧ (connection = none ∨ c.releases = [])

theorem Account.perform {library : Library} {caller : Caller} {connection : Option Handle}
    (o : BleOp) (w : BleWorld) (ho : o.Calls (Harmless connection))
    (h : Account caller connection w) :
    Account caller connection (perform library caller o w).2 := by
  rcases perform_log library caller o w with ⟨c, rfl, hcalled⟩ | ⟨-, hlog⟩
  · have hharmless : Harmless connection c := ho
    rw [hcalled]
    refine ⟨h.contract.called ?_ ?_, ?_, h.within.called hharmless.1⟩
    · intro hcaller
      apply h.noExit
      rw [hcaller]
      nofun
    · intro p hp
      apply Bool.eq_false_of_not_eq_true
      intro hopen
      -- what is released would have to be the open connection
      have hsome := h.within p hopen
      rcases hharmless.2 with hnone | hkeep
      · rw [hnone] at hsome
        cases hsome
      · rw [hkeep] at hp
        cases hp
    · intro hcaller
      exact (h.noExit hcaller).called hcaller
  · exact ⟨by rw [hlog]; exact h.contract, by rw [hlog]; exact h.noExit,
      by rw [hlog]; exact h.within⟩

section Fragments
variable {library : Library} {w : BleWorld}

theorem uses_harmless_of_plain {α : Type} {p : BleProg α} (h : p.Uses BleOp.plain) :
    p.Uses (BleOp.Calls (Harmless none)) := by
  refine h.mono fun o ho => ?_
  cases o with
  | lib c => exact ⟨ho, Or.inl rfl⟩
  | _ => trivial

theorem harmless_of_inspects {α : Type} {globals : List Global} {p : BleProg α}
    (connection : Option Handle) (hp : p.Uses (BleOp.Only globals LibCall.Inspects)) :
    p.Uses (BleOp.Calls (Harmless connection)) :=
  uses_calls_of_only hp fun _ hc => ⟨hc.connects, Or.inr hc.releases⟩

theorem enumerateServices_harmless (connection : Option Handle) (p : Handle) :
    (enumerateServices p).Uses (BleOp.Calls (Harmless connection)) :=
  harmless_of_inspects connection (enumerateServices_only p)

theorem selectAndConnect_releases_nothing :
    selectAndConnect.Uses (BleOp.Calls fun c => c.releases = []) :=
  uses_calls_of_only selectAndConnect_only fun _ hc => hc.releases

theorem cleanOnExit_harmless : cleanOnExit.Uses (BleOp.Calls (Harmless none)) :=
  uses_calls_of_only cleanOnExit_only fun _ hc => ⟨hc.connects, Or.inl rfl⟩

/-- The connection an outcome of `selectAndConnect` leaves open. -/
def connectionOf : Outcome Handle → Option Handle
  | .value p => some p
  | _ => none

theorem connectPeripheral_within (selection : ℤ) (hw : Within none w.log) :
    (connectPeripheral selection).Wp (perform library .bleSender) w (fun o u =>
      Within (connectionOf o) u.log) := by
  unfold connectPeripheral
  by_cases hrange : 0 ≤ selection ∧ selection.toNat < peripheralListSize
  · have hread : perform library .bleSender (.peripheralListSelected selection) w =
        (some (w.peripheralList ⟨selection.toNat, hrange.2⟩), w.selected selection) := by
      simp only [perform, dif_pos hrange]
    rw [wp_access_bind hread, wp_simpleble_bind, wp_simpleble_bind, wp_printf_bind,
      wp_simpleble_bind, wp_simpleble_bind, wp_simpleble_bind]
    generalize w.peripheralList ⟨selection.toNat, hrange.2⟩ = p
    -- `v` is the world in which the connect is made
    generalize hv : BleWorld.called library .bleSender (.free _) _ = v
    have hclosed : Within none v.log := by
      rw [← hv]
      refine Within.called (Within.called ?_ rfl) rfl
      exact Within.called (w := (w.selected selection).called _ _ _) (Within.called hw rfl) rfl
    have hafter : Within
        (if v.ask library (.peripheralConnect p) = .success then some p else none)
        (v.called library .bleSender (.peripheralConnect p)).log := hclosed.connect p
    split_ifs with herr
    · rw [if_pos herr] at hafter
      exact hafter
    · rw [if_neg herr] at hafter
      exact hafter
  · have hread : perform library .bleSender (.peripheralListSelected selection) w =
        (none, w.selected selection) := by
      simp only [perform, dif_neg hrange]
    exact (Prog.wp_op_none hread).mpr hw

/-- Selecting and connecting leaves at most the peripheral it returns connected,
and nothing when it returns early. -/
theorem selectAndConnect_within (hw : Within none w.log) :
    selectAndConnect.Wp (perform library .bleSender) w (fun o u =>
      Within (connectionOf o) u.log) := by
  have hstep (o : BleOp) (u : BleWorld) (ho : o.Calls (Harmless none))
      (hu : Within none u.log) : Within none (perform library .bleSender o u).2.log := by
    rcases perform_log library .bleSender o u with ⟨c, rfl, hcalled⟩ | ⟨-, hlog⟩
    · have hharmless : Harmless none c := ho
      rw [hcalled]
      exact hu.called hharmless.1
    · rw [hlog]
      exact hu
  -- up to the attempt to connect nothing is opened
  have hselect : Within none (selectPeripheral.run (perform library .bleSender) w).2.log :=
    (harmless_of_inspects none selectPeripheral_only).run_invariant hstep hw
  unfold selectAndConnect
  rw [Prog.wp_bind]
  unfold Prog.Wp
  generalize selectPeripheral.run (perform library .bleSender) w = run at hselect
  obtain ⟨o, u⟩ := run
  cases o with
  | returned => exact hselect
  | faulted => exact hselect
  | value selection =>
    have hu : Within none u.log := hselect
    dsimp only
    rw [Prog.wp_bind_value]
    exact connectPeripheral_within selection hu

end Fragments

/-- `main` starts the exit handler only when `ble_sender` has returned, and
`ble_sender` does not return out of the middle of its enumeration; the disconnect after
its send loop, whose answer it ignores, succeeds. -/
def OrderlyExit (env : Env) (s : System) (a : Action) : Prop :=
  (a = .main → s.mainPc = .returning → s.ble.exitHandler = true → s.senderPc = .returned) ∧
    (a = .bleSender → ∀ peripheral, s.senderPc ≠ .enumerating peripheral .exit) ∧
    (a = .bleSender → ∀ peripheral, s.senderPc = .disconnecting peripheral →
      s.ble.ask env.library (.peripheralDisconnect peripheral) = .success)

/-- What may be connected at each point of `ble_sender`, and which calls are still
to come in the fragment it runs. -/
def SenderPc.Keeps (library : Library) (w : BleWorld) : SenderPc → Prop
  | .setup rest => rest.Uses (BleOp.Calls (Harmless none)) ∧ Within none w.log
  | .callback rest => rest.Uses (BleOp.Calls (Harmless none)) ∧ Within none w.log
  | .connecting rest => rest.Uses (BleOp.Calls fun c => c.releases = []) ∧
      rest.Wp (perform library .bleSender) w (fun o u => Within (connectionOf o) u.log)
  | .enumerating peripheral rest =>
      rest.Uses (BleOp.Calls (Harmless (some peripheral))) ∧ Within (some peripheral) w.log
  | .baseline peripheral | .head peripheral | .testing peripheral | .announcing peripheral
  | .recording peripheral | .disconnecting peripheral => Within (some peripheral) w.log
  | .faulted => True
  | _ => Within none w.log

/-- The exit handler has begun. -/
def MainPc.cleaned : MainPc → Bool
  | .cleaning _ | .exited => true
  | _ => false

/-- The invariant of the runs in which the process ends in order. -/
structure Orderly (env : Env) (s : System) : Prop where
  contract : ShutdownContract s.ble.log
  noExit : s.mainPc.cleaned = false → NoExitCall s.ble.log
  keeps : s.senderPc.Keeps env.library s.ble
  cleaning : ∀ rest, s.mainPc = .cleaning rest →
    s.senderPc = .returned ∧ rest.Uses (BleOp.Calls (Harmless none))

namespace Orderly
variable {env : Env} {s t : System} {a : Action}

theorem initial (env : Env) : Orderly env (.initial env) where
  contract before e after h := by
    have hmem : e ∈ ([] : List LogEntry) := by
      change [] = _ at h
      rw [h]
      simp
    cases hmem
  noExit _ e he := by cases he
  keeps peripheral hopen := by cases hopen
  cleaning rest h := by cases h

theorem of_same (h : Orderly env s) (hmain : t.mainPc = s.mainPc)
    (hsender : t.senderPc = s.senderPc) (hble : t.ble = s.ble) : Orderly env t where
  contract := by rw [hble]; exact h.contract
  noExit hpc := by rw [hble]; exact h.noExit (hmain ▸ hpc)
  keeps := by rw [hble, hsender]; exact h.keeps
  cleaning rest hpc := by rw [hsender]; exact h.cleaning rest (hmain ▸ hpc)

theorem mainGoes (h : Orderly env s) (hmain : s.mainPc.cleaned = false)
    (hclean : ∀ rest, t.mainPc ≠ .cleaning rest) (hsender : t.senderPc = s.senderPc)
    (hble : t.ble = s.ble) : Orderly env t where
  contract := by rw [hble]; exact h.contract
  noExit _ := by rw [hble]; exact h.noExit hmain
  keeps := by rw [hble, hsender]; exact h.keeps
  cleaning rest hpc := absurd hpc (hclean rest)

theorem mainMove (h : Orderly env s) (hexcl : Exclusive s) (hok : OrderlyExit env s .main)
    (hmove : MainMove env s t) : Orderly env t := by
  cases hmove with
  | createsInputs hpc | starts hpc | enters hpc _ | leaves hpc _ | locks hpc _ | finds hpc _
  | skips hpc _ | copies hpc | prints hpc | unlocks hpc | wakes hpc | exits hpc _ =>
    refine h.mainGoes ?_ nofun rfl rfl
    rw [hpc]
    rfl
  | createsSender hpc =>
    have hkeeps := h.keeps
    rw [hexcl.senderUnborn (Or.inr hpc)] at hkeeps
    refine ⟨h.contract, fun _ => h.noExit (by rw [hpc]; rfl), ?_, nofun⟩
    exact ⟨uses_harmless_of_plain bleSetup_plain, hkeeps⟩
  -- the guard: `ble_sender` has returned, so nothing is connected
  | startsCleaning hpc hhandler =>
    refine ⟨h.contract, nofun, h.keeps, ?_⟩
    intro rest hrest
    cases hrest
    exact ⟨hok.1 rfl hpc hhandler, cleanOnExit_harmless⟩
  | @cleans rest next hpc hnext =>
    obtain ⟨hreturned, huses⟩ := h.cleaning rest hpc
    have hkeeps := h.keeps
    rw [hreturned] at hkeeps
    have haccount : Account .cleanOnExit none s.ble := ⟨h.contract, absurd rfl, hkeeps⟩
    rw [← hnext]
    rcases Prog.advance_cases MainPc.cleaning (fun _ => MainPc.exited) rest s.ble with
      ⟨q, w, hstep, hadv⟩ | ⟨_, -, hadv⟩ | ⟨-, hadv⟩ | ⟨-, hadv⟩ <;> rw [hadv]
    -- one more operation of the exit handler
    · obtain ⟨hq, hw⟩ := huses.step_invariant Account.perform haccount hstep
      refine ⟨hw.contract, nofun, ?_, ?_⟩
      · change s.senderPc.Keeps env.library w
        rw [hreturned]
        exact hw.within
      · intro rest' hrest'
        cases hrest'
        exact ⟨hreturned, hq⟩
    all_goals exact ⟨h.contract, nofun, h.keeps, nofun⟩

theorem not_cleaned (h : Orderly env s) (hlive : s.mainPc ≠ .exited)
    (hpc : s.senderPc ≠ .returned) : s.mainPc.cleaned = false := by
  -- the exit handler only runs after the return
  cases hmain : s.mainPc with
  | cleaning rest => exact absurd (h.cleaning rest hmain).1 hpc
  | exited => exact absurd hmain hlive
  | _ => rfl

theorem senderGoes (hmain : s.mainPc.cleaned = false) (hsame : t.mainPc = s.mainPc)
    (hcontract : ShutdownContract t.ble.log) (hexit : NoExitCall t.ble.log)
    (hkeeps : t.senderPc.Keeps env.library t.ble) : Orderly env t where
  contract := hcontract
  noExit _ := hexit
  keeps := hkeeps
  cleaning rest hpc := by
    rw [← hsame, hpc] at hmain
    cases hmain

/-- A move of `ble_sender` or of a callback inside a fragment that neither connects
nor releases what is connected. -/
theorem senderAdvances {α : Type} {caller : Caller} {connection : Option Handle}
    {rest : BleProg α} {stay : BleProg α → SenderPc} {finish : Outcome α → SenderPc}
    {next : SenderPc × BleWorld} (h : Orderly env s)
    (hnext : rest.advance (perform env.library caller) stay finish s.ble = next)
    (hmain : s.mainPc.cleaned = false) (hcaller : caller ≠ .cleanOnExit)
    (huses : rest.Uses (BleOp.Calls (Harmless connection)))
    (hwithin : Within connection s.ble.log)
    (hstay : ∀ q w, q.Uses (BleOp.Calls (Harmless connection)) → Within connection w.log →
      (stay q).Keeps env.library w)
    (hvalue : ∀ a, (finish (.value a)).Keeps env.library s.ble)
    (hreturned : rest = .exit → (finish .returned).Keeps env.library s.ble)
    (hfaulted : (finish .faulted).Keeps env.library s.ble) :
    Orderly env { s with senderPc := next.1, ble := next.2 } := by
  have hexit := h.noExit hmain
  have haccount : Account caller connection s.ble := ⟨h.contract, fun _ => hexit, hwithin⟩
  rw [← hnext]
  -- a step inside the fragment, or one of its three ends
  rcases Prog.advance_cases stay finish rest s.ble with
    ⟨q, w, hstep, hadv⟩ | ⟨a, -, hadv⟩ | ⟨hrest, hadv⟩ | ⟨-, hadv⟩ <;> rw [hadv]
  · obtain ⟨hq, hw⟩ := huses.step_invariant Account.perform haccount hstep
    exact senderGoes hmain rfl hw.contract (hw.noExit hcaller) (hstay q w hq hw.within)
  · exact senderGoes hmain rfl h.contract hexit (hvalue a)
  · exact senderGoes hmain rfl h.contract hexit (hreturned hrest)
  · exact senderGoes hmain rfl h.contract hexit hfaulted

theorem senderConnects (h : Orderly env s) (hmain : s.mainPc.cleaned = false)
    {rest : BleProg Handle} (hkeeps : (SenderPc.connecting rest).Keeps env.library s.ble)
    {next : SenderPc × BleWorld}
    (hnext : rest.advance (perform env.library .bleSender) .connecting
      (.onward fun p => .enumerating p (enumerateServices p)) s.ble = next) :
    Orderly env { s with senderPc := next.1, ble := next.2 } := by
  obtain ⟨huses, hwp⟩ := hkeeps
  have hexit := h.noExit hmain
  -- before the connect is made it cannot be said what will be open, only that nothing is released
  have hop (o : BleOp) (u : BleWorld) (ho : o.Calls fun c => c.releases = [])
      (hu : ShutdownContract u.log ∧ NoExitCall u.log) :
      ShutdownContract (perform env.library .bleSender o u).2.log ∧
        NoExitCall (perform env.library .bleSender o u).2.log := by
    rcases perform_log env.library .bleSender o u with ⟨c, rfl, hcalled⟩ | ⟨-, hlog⟩
    · have hreleases : c.releases = [] := ho
      rw [hcalled]
      refine ⟨hu.1.called (fun _ => hu.2) ?_, hu.2.called nofun⟩
      rw [hreleases]
      nofun
    · rw [hlog]
      exact hu
  rw [← hnext]
  rcases Prog.advance_cases SenderPc.connecting
      (SenderPc.onward fun p => .enumerating p (enumerateServices p)) rest s.ble with
    ⟨q, w, hstep, hadv⟩ | ⟨p, rfl, hadv⟩ | ⟨rfl, hadv⟩ | ⟨-, hadv⟩ <;> rw [hadv]
  · obtain ⟨hq, hw⟩ := huses.step_invariant hop ⟨h.contract, hexit⟩ hstep
    refine senderGoes hmain rfl hw.1 hw.2 ⟨hq, ?_⟩
    -- what is connected at the end is known of the undisturbed run only
    unfold Prog.Wp at hwp ⊢
    rw [Prog.run_step hstep] at hwp
    exact hwp
  · exact senderGoes hmain rfl h.contract hexit ⟨enumerateServices_harmless (some p) p, hwp⟩
  · exact senderGoes hmain rfl h.contract hexit hwp
  · exact senderGoes hmain rfl h.contract hexit trivial

theorem senderMove (h : Orderly env s) (hlive : s.mainPc ≠ .exited)
    (hok : OrderlyExit env s .bleSender) (hmove : SenderMove env s t) : Orderly env t := by
  have hpc : s.senderPc ≠ .returned := by
    intro hreturned
    cases hmove <;> simp_all
  -- as long as `ble_sender` moves, the exit handler has not begun
  have hmain := h.not_cleaned hlive hpc
  have hexit := h.noExit hmain
  have hkeeps := h.keeps
  cases hmove with
  | starts hpc | enters hpc _ | leaves hpc _ | finds hpc _ | skips hpc _ | announces hpc
  | records hpc =>
    rw [hpc] at hkeeps
    exact senderGoes hmain rfl h.contract hexit hkeeps
  | disconnects hpc =>
    rw [hpc] at hkeeps
    have hsucceeds := hok.2.2 rfl _ hpc
    refine senderGoes hmain rfl ?_ (hexit.called nofun) (hkeeps.disconnect hsucceeds)
    exact h.contract.called (fun _ => hexit) nofun
  | setsUp hpc hnext =>
    rw [hpc] at hkeeps
    obtain ⟨huses, hwithin⟩ := hkeeps
    exact h.senderAdvances hnext hmain (by simp) huses hwithin (fun _ _ hq hw => ⟨hq, hw⟩)
      (fun _ => hwithin) (fun _ => hwithin) trivial
  | callsBack hpc hnext =>
    rw [hpc] at hkeeps
    obtain ⟨huses, hwithin⟩ := hkeeps
    exact h.senderAdvances hnext hmain (by simp) huses hwithin (fun _ _ hq hw => ⟨hq, hw⟩)
      (fun _ => hwithin) (fun _ => hwithin) trivial
  | @enumerates peripheral rest next hpc hnext =>
    have hnoReturn := hok.2.1 rfl peripheral
    rw [hpc] at hkeeps hnoReturn
    obtain ⟨huses, hwithin⟩ := hkeeps
    refine h.senderAdvances hnext hmain (by simp) huses hwithin (fun _ _ hq hw => ⟨hq, hw⟩)
      (fun _ => hwithin) ?_ trivial
    -- the early return, with the peripheral still connected
    rintro rfl
    exact absurd rfl hnoReturn
  | connects hpc hnext =>
    rw [hpc] at hkeeps
    exact h.senderConnects hmain hkeeps hnext

theorem move (h : Orderly env s) (hexcl : Exclusive s) (hok : OrderlyExit env s a)
    (hlive : s.mainPc ≠ .exited) (hmove : Move env s a t) : Orderly env t := by
  cases hmove with
  | hotas hmove => exact h.of_same hmove.frame.1 hmove.frame.2.2.1 hmove.frame.2.2.2.2
  | main hmove => exact h.mainMove hexcl hok hmove
  | sender hmove => exact h.senderMove hlive hok hmove
  -- a callback begins with nothing connected
  | @reports e hpc =>
    have hmain := h.not_cleaned hlive (by simp [hpc])
    have hkeeps := h.keeps
    rw [hpc] at hkeeps
    refine senderGoes hmain rfl h.contract (h.noExit hmain) ?_
    exact ⟨uses_harmless_of_plain (callback_plain s.ble.adapter e), hkeeps⟩
  | scanEnds hpc =>
    have hmain := h.not_cleaned hlive (by simp [hpc])
    have hkeeps := h.keeps
    rw [hpc] at hkeeps
    refine senderGoes hmain rfl h.contract (h.noExit hmain) ?_
    exact ⟨selectAndConnect_releases_nothing, selectAndConnect_within hkeeps⟩

end Orderly

/-- In every run in which `main` starts the exit handler only after `ble_sender`
has returned, `ble_sender` does not leave its enumeration early and its disconnect
succeeds, no call is made on a released handle and no connected peripheral is released. -/
theorem shutdown_contract_of_orderly_exit (env : Env) (as : List Action) (s : System)
    (hrun : Run (step env) (OrderlyExit env) (.initial env) as s) : ShutdownContract s.ble.log := by
  have horderly : Orderly env s := by
    -- by induction on the run
    refine run_invariant (Orderly env) (.initial env) ?_ hrun
    intro t a u hexcl h hok hlive hmove
    exact h.move hexcl hok hlive hmove
  exact horderly.contract

/-- A test for that condition. -/
def exitsInOrder (env : Env) (s : System) : Action → Bool
  | .main => match s.mainPc, s.senderPc with
    | .returning, .returned => true
    | .returning, _ => !s.ble.exitHandler
    | _, _ => true
  | .bleSender => match s.senderPc with
    | .enumerating _ .exit => false
    | .disconnecting peripheral =>
      s.ble.ask env.library (.peripheralDisconnect peripheral) = .success
    | _ => true
  | _ => true

theorem orderlyExit_of_exitsInOrder (env : Env) (s : System) (a : Action)
    (h : exitsInOrder env s a = true) : OrderlyExit env s a := by
  refine ⟨?_, ?_, ?_⟩
  · intro ha hpc hhandler
    subst ha
    cases hsender : s.senderPc <;> simp_all [exitsInOrder]
  · intro ha peripheral hpc
    subst ha
    simp [exitsInOrder, hpc] at h
  · intro ha peripheral hpc
    subst ha
    simpa [exitsInOrder, hpc] using h

/-- A stick whose button 0 is pressed. -/
def quitEnv : Env where
  fl := .exact
  library := headsetRoom.library
  opens := true
  reads := [.event ⟨1, jsEventButton, 0⟩]

/-- `ble_sender` is in its send loop when button 0 is pressed. -/
def quitInSendLoop : List Action := connectEsp32 ++ List.replicate 5 .hotasInputs

theorem shutdown_contract_when_sender_first :
    ∃ as s, Run (step quitEnv) (OrderlyExit quitEnv) (.initial quitEnv) as s ∧
      released s.ble.log = [11] ∧ ShutdownContract s.ble.log := by
  have hrun : (exec (gate (exitsInOrder quitEnv) (step quitEnv))
      (quitInSendLoop ++ [.bleSender, .bleSender] ++ List.replicate 11 .main)
      (.initial quitEnv)).map (fun s => released s.ble.log) = some [11] := by decide +kernel
  obtain ⟨s, hs, hreleased⟩ := Option.map_eq_some_iff.mp hrun
  have horderly := run_of_exec_gate (orderlyExit_of_exitsInOrder quitEnv) hs
  exact ⟨_, s, horderly, hreleased, shutdown_contract_of_orderly_exit quitEnv _ s horderly⟩

/-- `main` is faster: the peripheral is released while it is connected, and
disconnected afterwards. -/
theorem shutdown_contract_fails_when_main_first :
    ¬∀ s, Reachable (step quitEnv) (.initial quitEnv) s → ShutdownContract s.ble.log := by
  intro hclaim
  -- `main` runs to its end before `ble_sender` looks at `running` again
  have hrun : (exec (step quitEnv)
      (quitInSendLoop ++ List.replicate 10 .main ++ [.bleSender, .bleSender])
      (.initial quitEnv)).map (fun s => (s.ble.log.getLast?,
        decide (⟨.cleanOnExit, .peripheralReleaseHandle 11, true⟩ ∈ s.ble.log.dropLast))) =
      some (some ⟨.bleSender, .peripheralDisconnect 11, true⟩, true) := by decide +kernel
  obtain ⟨s, hs, hstate⟩ := Option.map_eq_some_iff.mp hrun
  obtain ⟨hlast, hmem⟩ : s.ble.log.getLast? = some ⟨.bleSender, .peripheralDisconnect 11, true⟩ ∧
      ⟨.cleanOnExit, .peripheralReleaseHandle 11, true⟩ ∈ s.ble.log.dropLast := by
    simpa using hstate
  -- the disconnect is the last call, with the release before it
  have hsplit : s.ble.log = s.ble.log.dropLast ++
      ⟨.bleSender, .peripheralDisconnect 11, true⟩ :: [] :=
    (List.dropLast_append_getLast? _ hlast).symm
  have hacceptable := hclaim s (reachable_of_exec hs) _ _ _ hsplit
  exact hacceptable.peripheralLive rfl _ hmem rfl 11 rfl rfl

end RCControl
