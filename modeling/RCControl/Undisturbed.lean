import RCControl.Enumeration
import RCControl.Shutdown

/-! `ble_sender` among the other threads: until the exit handler begins, what it
computes in any interleaving is what it computes undisturbed. -/
namespace RCControl
open Resumption StepSystem

section Scan
variable {library : Library} {es : List ScanEvent} {w : BleWorld}

theorem deliverAll_adapter (library : Library) (adapter : Handle) (es : List ScanEvent)
    (w : BleWorld) : (deliverAll library adapter es w).adapter = w.adapter :=
  deliverAll_global library es adapter w .adapter (by simp)

theorem bleSenderScan_nil
    (h : bleSetup.run (perform library .bleSender) .initial = (.value (), w)) :
    bleSenderScan library [] = (.value (), w) := by
  unfold bleSenderScan
  rw [h]
  rfl

theorem bleSenderScan_concat (h : bleSenderScan library es = (.value (), w)) (e : ScanEvent) :
    bleSenderScan library (es ++ [e]) = (.value (), deliver library w.adapter w e) := by
  unfold bleSenderScan at h ⊢
  generalize bleSetup.run (perform library .bleSender) .initial = r at h ⊢
  obtain ⟨_ | _ | _, u⟩ := r
  · obtain rfl : deliverAll library u.adapter es u = w := congrArg Prod.snd h
    dsimp only
    rw [deliverAll_adapter]
    simp only [deliverAll, List.foldl_append, List.foldl_cons, List.foldl_nil]
  · cases h
  · cases h

theorem bleSenderConnect_of_scan (h : bleSenderScan library es = (.value (), w)) :
    bleSenderConnect library es = selectAndConnect.run (perform library .bleSender) w := by
  unfold bleSenderConnect
  rw [h]

end Scan

/-- The callbacks that SimpleBLE starts in a run. -/
def delivered (as : List Action) : List ScanEvent :=
  as.filterMap fun a => match a with
    | .report e => some e
    | _ => none

theorem delivered_snoc (as : List Action) (a : Action) :
    delivered (as ++ [a]) = delivered as ++ delivered [a] := List.filterMap_append

/-- The actions of the program deliver nothing. -/
theorem append_delivered (es : List ScanEvent) (a : Action) (ha : ∀ e, a ≠ .report e) :
    es ++ delivered [a] = es := by
  have hnone : delivered [a] = [] := by
    cases a with
    | report e => exact absurd rfl (ha e)
    | _ => rfl
  rw [hnone, List.append_nil]

/-- The undisturbed run that each point of `ble_sender` is on, `es` being the
callbacks delivered. -/
def SenderPc.Traces (library : Library) (es : List ScanEvent) (w : BleWorld) : SenderPc → Prop
  | .notStarted => es = [] ∧ w = .initial
  | .setup rest => es = [] ∧ rest.run (perform library .bleSender) w =
      bleSetup.run (perform library .bleSender) .initial
  | .scanning => bleSenderScan library es = (.value (), w)
  | .callback rest => bleSenderScan library es =
      (.value (), (rest.run (perform library .scanCallback) w).2)
  | .connecting rest => rest.run (perform library .bleSender) w = bleSenderConnect library es
  | .enumerating peripheral rest => ∃ u, bleSenderConnect library es = (.value peripheral, u) ∧
      rest.run (perform library .bleSender) w =
        (enumerateServices peripheral).run (perform library .bleSender) u
  | .baseline peripheral | .head peripheral | .testing peripheral | .announcing peripheral
  | .recording peripheral | .disconnecting peripheral =>
      ∃ u, bleSenderConnect library es = (.value peripheral, u) ∧
        (enumerateServices peripheral).run (perform library .bleSender) u = (.value (), w)
  | .returned | .faulted => True

theorem SenderMove.traces {env : Env} {s t : System} {es : List ScanEvent}
    (h : SenderMove env s t) (htraces : s.senderPc.Traces env.library es s.ble) :
    t.senderPc.Traces env.library es t.ble := by
  cases h with
  | @setsUp rest next hpc hnext =>
    rw [hpc] at htraces
    obtain ⟨rfl, hsetup⟩ := htraces
    rw [← hnext]
    refine Prog.advance_run (fun pc w => SenderPc.Traces env.library [] w pc) rest s.ble ?_ ?_
    -- a step inside the fragment does not change its run
    · intro q w hq
      exact ⟨rfl, hq.trans hsetup⟩
    · intro o ho
      cases o with
      | value _ => exact bleSenderScan_nil (hsetup.symm.trans ho)
      | returned => trivial
      | faulted => trivial
  | @callsBack rest next hpc hnext =>
    rw [hpc] at htraces
    have hes : bleSenderScan env.library es =
      (.value (), (rest.run (perform env.library .scanCallback) s.ble).2) := htraces
    rw [← hnext]
    refine Prog.advance_run (fun pc w => SenderPc.Traces env.library es w pc) rest s.ble ?_ ?_
    · intro q w hq
      change bleSenderScan env.library es = _
      rw [hq]
      exact hes
    · intro o ho
      -- a callback leads back to the scan, also when it returns early
      have hend : bleSenderScan env.library es = (.value (), s.ble) := by rw [hes, ho]
      cases o with
      | value _ => exact hend
      | returned => exact hend
      | faulted => trivial
  | @connects rest next hpc hnext =>
    rw [hpc] at htraces
    have hes : rest.run (perform env.library .bleSender) s.ble =
      bleSenderConnect env.library es := htraces
    rw [← hnext]
    refine Prog.advance_run (fun pc w => SenderPc.Traces env.library es w pc) rest s.ble ?_ ?_
    · intro q w hq
      exact hq.trans hes
    · intro o ho
      cases o with
      | value peripheral => exact ⟨s.ble, hes.symm.trans ho, rfl⟩
      | returned => trivial
      | faulted => trivial
  | @enumerates peripheral rest next hpc hnext =>
    rw [hpc] at htraces
    obtain ⟨u, hconnect, hrun⟩ := htraces
    rw [← hnext]
    refine Prog.advance_run (fun pc w => SenderPc.Traces env.library es w pc) rest s.ble ?_ ?_
    · intro q w hq
      exact ⟨u, hconnect, hq.trans hrun⟩
    · intro o ho
      cases o with
      | value _ => exact ⟨u, hconnect, hrun.symm.trans ho⟩
      | returned => trivial
      | faulted => trivial
  | starts hpc | enters hpc _ | leaves hpc _ | finds hpc _ | skips hpc _ | announces hpc
  | records hpc =>
    rw [hpc] at htraces
    exact htraces
  | disconnects hpc => trivial

/-- Until the exit handler begins, `main` does no more to `ble_sender` than create it. -/
theorem MainMove.before_exit {env : Env} {s t : System} (h : MainMove env s t)
    (hmain : t.mainPc.cleaned = false) :
    s.mainPc.cleaned = false ∧ t.ble = s.ble ∧
      (t.senderPc = s.senderPc ∨ s.mainPc = .createSender ∧ t.senderPc = .setup bleSetup) := by
  cases h with
  | createsInputs hpc | starts hpc | enters hpc _ | leaves hpc _ | locks hpc _ | finds hpc _
  | skips hpc _ | copies hpc | prints hpc | unlocks hpc | wakes hpc =>
    exact ⟨by rw [hpc]; rfl, rfl, Or.inl rfl⟩
  | createsSender hpc => exact ⟨by rw [hpc]; rfl, rfl, Or.inr ⟨hpc, rfl⟩⟩
  | exits hpc _ => cases hmain
  | startsCleaning hpc _ => cases hmain
  -- the exit handler has begun
  | @cleans rest next hpc hnext =>
    dsimp only at hmain
    rcases cleaning_next hnext with hexit | ⟨q, hclean⟩
    · rw [hexit] at hmain
      cases hmain
    · rw [hclean] at hmain
      cases hmain

/-- Every move leaves `ble_sender` on its run as long as the exit handler has not begun. -/
theorem Move.traces {env : Env} {s t : System} {a : Action} {es : List ScanEvent}
    (h : Move env s a t) (hexcl : Exclusive s) (hmain : t.mainPc.cleaned = false)
    (htraces : s.mainPc.cleaned = false → s.senderPc.Traces env.library es s.ble) :
    t.senderPc.Traces env.library (es ++ delivered [a]) t.ble := by
  cases h with
  | hotas h =>
    obtain ⟨hpc, -, hsender, -, hble⟩ := h.frame
    rw [hsender, hble, append_delivered es .hotasInputs (by simp)]
    exact htraces (hpc ▸ hmain)
  | main h =>
    rw [append_delivered es .main (by simp)]
    obtain ⟨hbefore, hble, hsender | ⟨hpc, hsender⟩⟩ := h.before_exit hmain
    · rw [hsender, hble]
      exact htraces hbefore
    -- `main` creates the thread, whose run is still the whole set-up
    · have hinitial := htraces hbefore
      rw [hexcl.senderUnborn (Or.inr hpc)] at hinitial
      obtain ⟨rfl, hworld⟩ := hinitial
      rw [hsender, hble]
      refine ⟨rfl, ?_⟩
      rw [hworld]
  | sender h =>
    rw [h.frame] at hmain
    rw [append_delivered es .bleSender (by simp)]
    exact h.traces (htraces hmain)
  | @reports e hpc =>
    have hscan := htraces hmain
    rw [hpc] at hscan
    -- SimpleBLE reports one more event
    exact bleSenderScan_concat hscan e
  | scanEnds hpc =>
    have hscan := htraces hmain
    rw [hpc] at hscan
    rw [append_delivered es .scanEnds (by simp)]
    exact (bleSenderConnect_of_scan hscan).symm

/-- In every interleaving `ble_sender` is on an undisturbed run of its own, with the
callbacks delivered in this interleaving, until the exit handler begins. -/
theorem traces_of_run {env : Env} {as : List Action} {s : System}
    (hrun : FreeRun (step env) (.initial env) as s) (hmain : s.mainPc.cleaned = false) :
    s.senderPc.Traces env.library (delivered as) s.ble := by
  revert hmain
  refine run_trace_invariant (fun as s => s.mainPc.cleaned = false →
    s.senderPc.Traces env.library (delivered as) s.ble) (fun _ => ⟨rfl, rfl⟩) ?_ hrun
  intro as t a u hexcl htraces _ _ hmove hmain
  rw [delivered_snoc]
  exact hmove.traces hexcl hmain htraces

/-- `ble_sender` has come to `pc` with the globals `w` after the callbacks `es`, while the
threads that were created before it wait. -/
def Undisturbed (env : Env) (es : List ScanEvent) (pc : SenderPc) (w : BleWorld) : Prop :=
  ∃ as s, FreeRun (step env) (.initial env) as s ∧ delivered as = es ∧ s.mainPc = .baseline ∧
    s.senderPc = pc ∧ s.ble = w

namespace Undisturbed
variable {env : Env} {es : List ScanEvent} {pc pc' : SenderPc} {w w' : BleWorld}

theorem next (h : Undisturbed env es pc w) (a : Action)
    (hstep : ∀ s, s.mainPc = .baseline → s.senderPc = pc → s.ble = w →
      step env a s = some { s with senderPc := pc', ble := w' }) :
    Undisturbed env (es ++ delivered [a]) pc' w' := by
  -- the other threads stay where they are
  obtain ⟨as, s, hrun, rfl, hmain, hpc, hble⟩ := h
  exact ⟨as ++ [a], _, .snoc hrun trivial (hstep s hmain hpc hble), delivered_snoc as a, hmain,
    rfl, rfl⟩

theorem senderNext (h : Undisturbed env es pc w)
    (hstep : ∀ s, s.mainPc = .baseline → s.senderPc = pc → s.ble = w →
      step env .bleSender s = some { s with senderPc := pc', ble := w' }) :
    Undisturbed env es pc' w' := by
  have hnext := h.next .bleSender hstep
  rw [append_delivered es .bleSender (by simp)] at hnext
  exact hnext

theorem created (env : Env) : Undisturbed env [] (.setup bleSetup) .initial :=
  have hrun : FreeRun (step env) (.initial env) [.main, .main] _ := freeRun_of_exec rfl
  ⟨_, _, hrun, rfl, rfl, rfl, rfl⟩

theorem setup (env : Env) :
    let r := bleSetup.run (perform env.library .bleSender) .initial
    Undisturbed env [] (.onward (fun _ => .scanning) r.1) r.2 := by
  refine Prog.run_reached _ .setup _ (Undisturbed env []) ?_ bleSetup .initial (created env)
  intro q w h
  refine h.senderNext ?_
  rintro s hmain hpc rfl
  simp only [step, hmain, senderStep, hpc]

theorem callback (h : Undisturbed env es .scanning w)
    {b : BoundedStore Handle peripheralListSize} (hw : w.Represents b) (e : ScanEvent) :
    Undisturbed env (es ++ [e]) .scanning (deliver env.library w.adapter w e) := by
  have hcall : Undisturbed env (es ++ [e]) (.callback (e.callback w.adapter)) w := by
    refine h.next (.report e) ?_
    rintro s hmain hpc rfl
    simp only [step, hmain, reportStep, hpc]
  -- the callback is let run to its end, which is not a fault
  have hback := Prog.run_reached (perform env.library .scanCallback) .callback .backToScan
    (Undisturbed env (es ++ [e])) ?_ _ w hcall
  · have hfault := (callback_wp env.library w.adapter hw e).1
    unfold deliver
    generalize (e.callback w.adapter).run (perform env.library .scanCallback) w = r at hback hfault
    obtain ⟨_ | _ | _, u⟩ := r
    · exact hback
    · exact hback
    · exact absurd rfl hfault
  · intro q u hq
    refine hq.senderNext ?_
    rintro s hmain hpc rfl
    simp only [step, hmain, senderStep, hpc]

theorem scan (h : Undisturbed env es .scanning w) {b : BoundedStore Handle peripheralListSize}
    (hw : w.Represents b) (later : List ScanEvent) :
    Undisturbed env (es ++ later) .scanning (deliverAll env.library w.adapter later w) := by
  -- one callback after the other
  induction later generalizing es w b with
  | nil =>
    rw [List.append_nil]
    exact h
  | cons e later ih =>
    obtain ⟨c, hc⟩ := deliver_represents env.library w.adapter hw e
    have hrest := ih (h.callback hw e) hc
    rw [deliver_adapter, List.append_assoc, List.singleton_append] at hrest
    exact hrest

/-- Whatever is reported during the scan, some interleaving carries it through to
the end of the attempt to connect. -/
theorem connect (env : Env) (es : List ScanEvent) (hadapter : ¬noAdapter env.library) :
    let r := bleSenderConnect env.library es
    Undisturbed env es (.onward (fun p => .enumerating p (enumerateServices p)) r.1) r.2 := by
  have hstart := setup env
  obtain ⟨hlen, ⟨hno, -⟩ | ⟨-, hvalue⟩⟩ := bleSetup_wp env.library
  · exact absurd hno hadapter
  unfold bleSenderConnect bleSenderScan
  generalize bleSetup.run (perform env.library .bleSender) .initial = r at hstart hlen hvalue
  obtain ⟨o, w⟩ := r
  dsimp only at hlen hvalue
  subst hvalue
  have hscanning : Undisturbed env [] .scanning w := hstart
  have hempty : w.Represents (.empty Handle peripheralListSize) :=
    ⟨hlen, fun i _ hi => absurd hi (Nat.not_lt_zero i)⟩
  -- set-up, scan and selection are let run one after the other
  have hconnecting : Undisturbed env es (.connecting selectAndConnect)
      (deliverAll env.library w.adapter es w) := by
    have hended : Undisturbed env (es ++ delivered [.scanEnds]) (.connecting selectAndConnect)
        (deliverAll env.library w.adapter es w) := by
      refine (scan hscanning hempty es).next .scanEnds ?_
      intro s hmain hpc hble
      simp only [step, hmain, scanEndsStep, hpc, ← hble]
    rw [append_delivered es .scanEnds (by simp)] at hended
    exact hended
  refine Prog.run_reached _ .connecting _ (Undisturbed env es) ?_ _ _ hconnecting
  intro q u hq
  refine hq.senderNext ?_
  rintro s hmain hpc rfl
  simp only [step, hmain, senderStep, hpc]

theorem enumeration {p : Handle} {u : BleWorld}
    (h : bleSenderConnect env.library es = (.value p, u)) :
    let r := (enumerateServices p).run (perform env.library .bleSender) u
    Undisturbed env es (.onward (fun _ => .baseline p) r.1) r.2 := by
  -- a peripheral was connected, so there is an adapter
  have hadapter : ¬noAdapter env.library := by
    intro hno
    have hreturned := (bleSenderConnect_of_noAdapter es hno).1
    rw [h] at hreturned
    cases hreturned
  have hstart := connect env es hadapter
  rw [h] at hstart
  -- every move of `ble_sender` is one operation of the enumeration
  refine Prog.run_reached _ (.enumerating p) _ (Undisturbed env es) ?_ _ u hstart
  intro q v hq
  refine hq.senderNext ?_
  rintro s hmain hpc rfl
  simp only [step, hmain, senderStep, hpc]

end Undisturbed

/-- Before the exit handler begins, `ble_sender` is about to poll for a peripheral
in some interleaving exactly when it comes there undisturbed after some scan. -/
theorem baseline_reachable_iff (env : Env) (p : Handle) :
    (∃ s, Reachable (step env) (.initial env) s ∧ s.mainPc.cleaned = false ∧
      s.senderPc = .baseline p) ↔
    ∃ es u, bleSenderConnect env.library es = (.value p, u) ∧
      ((enumerateServices p).run (perform env.library .bleSender) u).1 = .value () := by
  constructor
  · intro hpost
    obtain ⟨s, ⟨as, has⟩, hmain, hpc⟩ := hpost
    have htraces := traces_of_run has hmain
    rw [hpc] at htraces
    obtain ⟨u, hconnect, hrun⟩ := htraces
    exact ⟨delivered as, u, hconnect, by rw [hrun]⟩
  · intro hpost
    obtain ⟨es, u, hconnect, hvalue⟩ := hpost
    have hreached : Undisturbed env es _ _ := .enumeration hconnect
    obtain ⟨as, s, hrun, -, hmain, hpc, -⟩ := hreached
    rw [hvalue] at hpc
    exact ⟨s, hrun.reachable, by rw [hmain]; rfl, hpc⟩

/-- The peripheral `ble_sender` works on. -/
def SenderPc.peripheral : SenderPc → Option Handle
  | .enumerating p _ | .baseline p | .head p | .testing p | .announcing p | .recording p
  | .disconnecting p => some p
  | _ => none

theorem SenderPc.Traces.connected {library : Library} {es : List ScanEvent} {w : BleWorld}
    {pc : SenderPc} {p : Handle} (h : pc.Traces library es w) (hp : pc.peripheral = some p) :
    (bleSenderConnect library es).1 = .value p := by
  cases pc with
  | enumerating q _ | baseline q | head q | testing q | announcing q | recording q
  | disconnecting q =>
    obtain ⟨u, hconnect, -⟩ := h
    obtain rfl : q = p := Option.some.inj hp
    rw [hconnect]
  | _ => cases hp

/-- In every interleaving, until the exit handler begins, the peripheral that
`ble_sender` works on is one it has saved, and it is an ESP32. -/
theorem peripheral_is_esp32 {env : Env} {ident : Handle → String}
    (hfix : ∀ t p, env.library t (.peripheralIdentifier p) = some (ident p)) {s : System}
    (hreach : Reachable (step env) (.initial env) s) (hmain : s.mainPc.cleaned = false)
    {p : Handle} (hp : s.senderPc.peripheral = some p) :
    ident p = esp32Control ∧ ∃ es, p ∈ (bleSenderScan env.library es).2.saved := by
  obtain ⟨as, hrun⟩ := hreach
  have hconnect := (traces_of_run hrun hmain).connected hp
  generalize delivered as = es at hconnect
  -- without an adapter nothing would be connected
  have hadapter : ¬noAdapter env.library := by
    intro hno
    have hreturned := (bleSenderConnect_of_noAdapter es hno).1
    rw [hconnect] at hreturned
    cases hreturned
  obtain ⟨-, -, ⟨hfault, -⟩ | ⟨i, q, hq, hname, -, -, hvalue | hreturned⟩⟩ :=
    bleSenderConnect_spec env.library ident hfix es hadapter
  · rw [hconnect] at hfault
    cases hfault
  · rw [hconnect] at hvalue
    obtain rfl : p = q := Outcome.value.inj hvalue
    exact ⟨hname, es, List.mem_of_getElem? hq⟩
  · rw [hconnect] at hreturned
    cases hreturned

/-- A board that serves a target is never polled for: its enumeration ends
`ble_sender`, in every interleaving. -/
theorem not_polling_for_target {env : Env} {p : Handle} {table : List Service}
    {payload : String → String → List UInt8} (hserves : Serves env.library p table payload)
    (htarget : ∃ service ∈ table, serviceUuid = service.uuid ∧
      ∃ c ∈ service.characteristics, characteristicUuid = c.uuid) {s : System}
    (hreach : Reachable (step env) (.initial env) s) (hmain : s.mainPc.cleaned = false)
    (hpc : s.senderPc.polling = true) : s.senderPc.peripheral ≠ some p := by
  obtain ⟨as, hrun⟩ := hreach
  have htraces := traces_of_run hrun hmain
  intro hp
  cases hsender : s.senderPc with
  | head q | testing q | announcing q | recording q | disconnecting q =>
    rw [hsender] at htraces hp
    obtain ⟨u, -, hrun⟩ := htraces
    obtain rfl : q = p := Option.some.inj hp
    -- the enumeration on its run would have returned
    have hreturned := enumerateServices_returns hserves u htarget
    rw [hrun] at hreturned
    cases hreturned
  | _ =>
    rw [hsender] at hpc
    cases hpc

end RCControl
