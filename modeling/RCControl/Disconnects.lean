import RCControl.Undisturbed

/-! The ways out of `ble_sender` after a connection: which of them disconnect the
peripheral. -/
namespace RCControl
open Resumption StepSystem

/-- The handles on which a connect succeeded, in order. -/
def opened (log : List LogEntry) : List Handle :=
  log.flatMap fun e => if e.ok then e.call.connects else []

/-- The handles a history calls `simpleble_peripheral_disconnect` on. -/
def disconnectCalls : List LogEntry → List Handle := handlesOf LibCall.disconnects

/-- What `ble_sender` owes when it returns: the peripheral it connected has been
disconnected once, and nothing else. -/
structure ReturnContract (log : List LogEntry) : Prop where
  disconnected : ∀ p ∈ opened log, disconnectCalls log = [p]
  unconnected : opened log = [] → disconnectCalls log = []

section Fragments
variable {library : Library} {caller : Caller} {c : LibCall} {w : BleWorld}

theorem opened_called : opened (w.called library caller c).log =
    opened w.log ++ (if c.ok (w.ask library c) then c.connects else []) := by
  simp [BleWorld.called, opened]

theorem opened_called_of_inspects (hc : c.connects = []) :
    opened (w.called library caller c).log = opened w.log := by
  rw [opened_called, hc, ite_self, List.append_nil]

@[simp] theorem disconnectCalls_called : disconnectCalls (w.called library caller c).log =
    disconnectCalls w.log ++ c.disconnects :=
  handlesOf_called _ library caller c w

theorem opened_frame {α : Type} {globals : List Global} {good : LibCall → Prop} {p : BleProg α}
    (hp : p.Uses (BleOp.Only globals good)) (hgood : ∀ c, good c → c.connects = [])
    (library : Library) (caller : Caller) (w : BleWorld) :
    opened (p.run (perform library caller) w).2.log = opened w.log := by
  apply frame_log _ (uses_calls_of_only hp fun _ hc => hc)
  intro e he
  rw [hgood _ he, ite_self]

theorem disconnectCalls_frame {α : Type} {globals : List Global} {good : LibCall → Prop}
    {p : BleProg α} (hp : p.Uses (BleOp.Only globals good))
    (hgood : ∀ c, good c → c.disconnects = []) (library : Library) (caller : Caller)
    (w : BleWorld) :
    disconnectCalls (p.run (perform library caller) w).2.log = disconnectCalls w.log :=
  frame_log _ (uses_calls_of_only hp fun _ hc => hc) (fun _ he => hgood _ he) library caller w

theorem connectPeripheral_opened (selection : ℤ) :
    (connectPeripheral selection).Wp (perform library .bleSender) w (fun o u =>
      opened u.log = opened w.log ++ (connectionOf o).toList) := by
  unfold connectPeripheral
  by_cases hrange : 0 ≤ selection ∧ selection.toNat < peripheralListSize
  · have hread : perform library .bleSender (.peripheralListSelected selection) w =
        (some (w.peripheralList ⟨selection.toNat, hrange.2⟩), w.selected selection) := by
      simp only [perform, dif_pos hrange]
    rw [wp_access_bind hread, wp_simpleble_bind, wp_simpleble_bind, wp_printf_bind,
      wp_simpleble_bind, wp_simpleble_bind, wp_simpleble_bind]
    generalize w.peripheralList ⟨selection.toNat, hrange.2⟩ = p
    -- `v` is the world in which the connect is made
    generalize hv : BleWorld.called library .bleSender (.free _) _ = v
    have hbefore : opened v.log = opened w.log := by
      rw [← hv, opened_called_of_inspects rfl, opened_called_of_inspects rfl]
      change opened (BleWorld.called _ _ _ _).log = _
      rw [opened_called_of_inspects rfl, opened_called_of_inspects rfl, selected_log]
    have hafter : opened (v.called library .bleSender (.peripheralConnect p)).log =
        opened w.log ++ if v.ask library (.peripheralConnect p) = .success then [p] else [] := by
      rw [opened_called, hbefore]
      simp only [LibCall.ok, LibCall.connects, decide_eq_true_eq]
    -- a failed connect makes `ble_sender` return, a successful one is its connection
    split_ifs with herr
    · rw [if_pos herr] at hafter
      exact hafter
    · rw [if_neg herr] at hafter
      exact hafter
  · have hread : perform library .bleSender (.peripheralListSelected selection) w =
        (none, w.selected selection) := by
      simp only [perform, dif_neg hrange]
    -- the access outside the list is undefined and opens nothing
    refine (Prog.wp_op_none hread).mpr ?_
    rw [selected_log]
    exact (List.append_nil _).symm

end Fragments

section Sender
variable (library : Library) (es : List ScanEvent)

theorem bleSenderScan_opened : opened (bleSenderScan library es).2.log = [] := by
  apply bleSenderScan_log
  intro e he
  rw [he.connects, ite_self]

theorem bleSenderConnect_opened : opened (bleSenderConnect library es).2.log =
    (connectionOf (bleSenderConnect library es).1).toList := by
  have hscan := bleSenderScan_opened library es
  unfold bleSenderConnect
  generalize bleSenderScan library es = r at hscan
  obtain ⟨_ | _ | _, w⟩ := r
  -- the selection loop opens nothing, so only the attempt to connect counts
  · have hselect := opened_frame selectPeripheral_only (fun _ hc => hc.connects) library .bleSender w
    have hconnect : selectAndConnect.Wp (perform library .bleSender) w (fun o u =>
        opened u.log = opened w.log ++ (connectionOf o).toList) := by
      unfold selectAndConnect
      rw [Prog.wp_bind]
      unfold Prog.Wp
      generalize selectPeripheral.run (perform library .bleSender) w = run at hselect
      obtain ⟨o, u⟩ := run
      dsimp only at hselect
      rw [← hselect]
      -- without a selection there is no attempt
      cases o with
      | value selection => exact connectPeripheral_opened selection
      | returned => exact (List.append_nil _).symm
      | faulted => exact (List.append_nil _).symm
    unfold Prog.Wp at hconnect
    rw [hscan] at hconnect
    exact hconnect
  · exact hscan
  · exact hscan

theorem bleSenderConnect_disconnectCalls :
    disconnectCalls (bleSenderConnect library es).2.log = [] := by
  have hscan : disconnectCalls (bleSenderScan library es).2.log = [] :=
    bleSenderScan_log library es _ fun _ he => he.disconnects
  unfold bleSenderConnect
  generalize bleSenderScan library es = r at hscan
  obtain ⟨_ | _ | _, w⟩ := r
  · calc disconnectCalls (selectAndConnect.run (perform library .bleSender) w).2.log
        = disconnectCalls w.log :=
          disconnectCalls_frame selectAndConnect_only (fun _ hc => hc.disconnects) library
            .bleSender w
      _ = [] := hscan
  · exact hscan
  · exact hscan

end Sender

/-- A world in which `ble_sender` has returned after a scan with the callbacks `es`. -/
inductive Finished (library : Library) (es : List ScanEvent) : BleWorld → Prop
  | unconnected {w : BleWorld} : bleSenderConnect library es = (.returned, w) →
      Finished library es w
  | enumeration {p : Handle} {u w : BleWorld} : bleSenderConnect library es = (.value p, u) →
      (enumerateServices p).run (perform library .bleSender) u = (.returned, w) →
      Finished library es w
  | sendLoop {p : Handle} {u v : BleWorld} : bleSenderConnect library es = (.value p, u) →
      (enumerateServices p).run (perform library .bleSender) u = (.value (), v) →
      Finished library es (v.called library .bleSender (.peripheralDisconnect p))

theorem advance_returned {α : Type} {library : Library} {w : BleWorld} {rest : BleProg α}
    {stay : BleProg α → SenderPc} {next : α → SenderPc} {r : SenderPc × BleWorld}
    (hnext : rest.advance (perform library .bleSender) stay (.onward next) w = r)
    (hstay : ∀ q, stay q ≠ .returned) (hvalue : ∀ a, next a ≠ .returned)
    (hreturned : r.1 = .returned) : rest = .exit ∧ r.2 = w := by
  rw [← hnext] at hreturned ⊢
  -- the other three ways to advance do not lead to `returned`
  obtain ⟨q, t, -, hadv⟩ | ⟨a, -, hadv⟩ | ⟨hexit, hadv⟩ | ⟨-, hadv⟩ :=
    Prog.advance_cases stay (SenderPc.onward next) rest w
  · rw [hadv] at hreturned
    exact absurd hreturned (hstay q)
  · rw [hadv] at hreturned
    exact absurd hreturned (hvalue a)
  · rw [hadv]
    exact ⟨hexit, rfl⟩
  · rw [hadv] at hreturned
    cases hreturned

theorem SenderMove.finished {env : Env} {s t : System} {es : List ScanEvent}
    (h : SenderMove env s t) (htraces : s.senderPc.Traces env.library es s.ble)
    (hreturned : t.senderPc = .returned) : Finished env.library es t.ble := by
  cases h with
  | @setsUp rest next hpc hnext =>
    -- no adapter: the rest of the set-up is a bare return, and no scan took place
    obtain ⟨rfl, hble⟩ := advance_returned hnext (by simp) (by simp) hreturned
    rw [hpc] at htraces
    obtain ⟨rfl, hrest⟩ := htraces
    have hsetup : bleSetup.run (perform env.library .bleSender) .initial = (.returned, s.ble) :=
      hrest.symm
    change Finished env.library [] next.2
    rw [hble]
    have hconnect : bleSenderConnect env.library [] = (.returned, s.ble) := by
      unfold bleSenderConnect bleSenderScan
      rw [hsetup]
    exact .unconnected hconnect
  | @callsBack rest next hpc hnext =>
    -- a callback never ends `ble_sender`, whatever it does itself
    have hback : next.1 ≠ .returned := by
      rw [← hnext]
      apply Prog.advance_fst (fun pc : SenderPc => pc ≠ .returned) (by simp)
      intro o
      cases o <;> simp [SenderPc.backToScan]
    exact absurd hreturned hback
  | @connects rest next hpc hnext =>
    obtain ⟨rfl, hble⟩ := advance_returned hnext (by simp) (by simp) hreturned
    rw [hpc] at htraces
    have hconnect : bleSenderConnect env.library es = (.returned, s.ble) := Eq.symm htraces
    change Finished env.library es next.2
    rw [hble]
    -- the connect failed
    exact .unconnected hconnect
  | @enumerates peripheral rest next hpc hnext =>
    obtain ⟨rfl, hble⟩ := advance_returned hnext (by simp) (by simp) hreturned
    rw [hpc] at htraces
    obtain ⟨u, hconnect, hrun⟩ := htraces
    change Finished env.library es next.2
    rw [hble]
    -- a failed `services_get` or read
    exact .enumeration hconnect hrun.symm
  | @disconnects peripheral hpc =>
    rw [hpc] at htraces
    obtain ⟨u, hconnect, hrun⟩ := htraces
    exact .sendLoop hconnect hrun
  | enters _ _ | leaves _ _ | starts _ | finds _ _ | skips _ _ | announces _ | records _ =>
    cases hreturned

/-- A move after which `ble_sender` has returned: it returned before, or does so now. -/
theorem Move.finished {env : Env} {s t : System} {a : Action} {es : List ScanEvent}
    (h : Move env s a t) (hmain : t.mainPc.cleaned = false)
    (htraces : s.mainPc.cleaned = false → s.senderPc.Traces env.library es s.ble)
    (hbefore : s.mainPc.cleaned = false → s.senderPc = .returned → Finished env.library es s.ble)
    (hreturned : t.senderPc = .returned) : Finished env.library (es ++ delivered [a]) t.ble := by
  cases h with
  | hotas h =>
    obtain ⟨hpc, -, hsender, -, hble⟩ := h.frame
    rw [hble, append_delivered es .hotasInputs (by simp)]
    rw [hsender] at hreturned
    exact hbefore (hpc ▸ hmain) hreturned
  -- `main` creates the thread or leaves it where it is
  | main h =>
    rw [append_delivered es .main (by simp)]
    obtain ⟨hearlier, hble, hsender | ⟨-, hsender⟩⟩ := h.before_exit hmain
    · rw [hble]
      rw [hsender] at hreturned
      exact hbefore hearlier hreturned
    · rw [hsender] at hreturned
      cases hreturned
  | sender h =>
    rw [h.frame] at hmain
    rw [append_delivered es .bleSender (by simp)]
    exact h.finished (htraces hmain) hreturned
  | reports _ => cases hreturned
  | scanEnds _ => cases hreturned

/-- In every interleaving, as long as the exit handler has not begun. -/
theorem finished_of_run {env : Env} {as : List Action} {s : System}
    (hrun : FreeRun (step env) (.initial env) as s) (hmain : s.mainPc.cleaned = false)
    (hreturned : s.senderPc = .returned) : Finished env.library (delivered as) s.ble := by
  have hboth : s.mainPc.cleaned = false →
      s.senderPc.Traces env.library (delivered as) s.ble ∧
        (s.senderPc = .returned → Finished env.library (delivered as) s.ble) := by
    -- `Traces` is carried along: what a return leaves is read off the point before it
    refine run_trace_invariant (fun as s => s.mainPc.cleaned = false →
      s.senderPc.Traces env.library (delivered as) s.ble ∧
        (s.senderPc = .returned → Finished env.library (delivered as) s.ble)) ?_ ?_ hrun
    · intro _
      exact ⟨⟨rfl, rfl⟩, by simp [System.initial]⟩
    · intro as t a u hexcl hinv _ _ hmove hmain
      rw [delivered_snoc]
      exact ⟨hmove.traces hexcl hmain fun hbefore => (hinv hbefore).1,
        hmove.finished hmain (fun hbefore => (hinv hbefore).1) fun hbefore => (hinv hbefore).2⟩
  exact (hboth hmain).2 hreturned

theorem returnContract_of_opened {log : List LogEntry} (connection : Option Handle)
    (hopened : opened log = connection.toList) (hclosed : disconnectCalls log = connection.toList) :
    ReturnContract log where
  disconnected := by
    intro p hp
    rw [hopened] at hp
    rw [hclosed]
    cases connection with
    | none => cases hp
    | some q =>
      -- the one connection there is
      obtain rfl : p = q := List.mem_singleton.mp hp
      rfl
  unconnected := by
    intro hnone
    rw [hclosed, ← hopened, hnone]

/-- What the enumeration leaves of the connections: everything. -/
theorem enumerateServices_connections {library : Library} {es : List ScanEvent} {p : Handle}
    {u w : BleWorld} {o : Outcome Unit} (hconnect : bleSenderConnect library es = (.value p, u))
    (hrun : (enumerateServices p).run (perform library .bleSender) u = (o, w)) :
    opened w.log = [p] ∧ disconnectCalls w.log = [] := by
  have hopened := bleSenderConnect_opened library es
  have hclosed := bleSenderConnect_disconnectCalls library es
  have hopenedFrame := opened_frame (enumerateServices_only p) (fun _ hc => hc.connects)
    library .bleSender u
  have hclosedFrame := disconnectCalls_frame (enumerateServices_only p)
    (fun _ hc => hc.disconnects) library .bleSender u
  rw [hconnect] at hopened hclosed
  rw [hrun] at hopenedFrame hclosedFrame
  constructor
  · calc opened w.log = opened u.log := hopenedFrame
      _ = [p] := hopened
  · calc disconnectCalls w.log = disconnectCalls u.log := hclosedFrame
      _ = [] := hclosed

/-- In every interleaving with the callbacks `es`, `ble_sender` has disconnected what it
connected by the time it returns, exactly when after a scan with these callbacks that leads
to a connection the library gives it every service it asks for and none has a target. -/
theorem return_contract_iff (env : Env) (es : List ScanEvent) :
    (∀ as s, FreeRun (step env) (.initial env) as s → delivered as = es →
      s.mainPc.cleaned = false → s.senderPc = .returned → ReturnContract s.ble.log) ↔
    ∀ p w, bleSenderConnect env.library es = (.value p, w) →
      PassesAll env.library p w.log.length := by
  constructor
  · intro hcontract p w hconnect
    by_contra hstops
    -- the enumeration returns early, in an interleaving that lets `ble_sender` run
    have hreached : Undisturbed env es _ _ := .enumeration hconnect
    obtain ⟨hreturned, -⟩ := (enumerateServices_wp env.library w p).2 hstops
    generalize hrun : (enumerateServices p).run (perform env.library .bleSender) w = r
      at hreached hreturned
    obtain ⟨o, v⟩ := r
    dsimp only at hreached hreturned
    rw [hreturned] at hreached
    obtain ⟨as, s, hfree, hdelivered, hmain, hpc, rfl⟩ := hreached
    obtain ⟨hopened, hclosed⟩ := enumerateServices_connections hconnect hrun
    have hreturn := hcontract as s hfree hdelivered (by rw [hmain]; rfl) hpc
    have hdisconnected := hreturn.disconnected p (by rw [hopened]; exact List.mem_singleton_self p)
    rw [hclosed] at hdisconnected
    cases hdisconnected
  · rintro hpasses as s hfree rfl hmain hreturned
    have hfinished := finished_of_run hfree hmain hreturned
    -- of the three ways to return only the second one leaves a connection
    generalize s.ble = b at hfinished ⊢
    cases hfinished with
    | @unconnected w hconnect =>
      have hopened := bleSenderConnect_opened env.library (delivered as)
      have hclosed := bleSenderConnect_disconnectCalls env.library (delivered as)
      rw [hconnect] at hopened hclosed
      exact returnContract_of_opened none hopened hclosed
    | @enumeration p u w hconnect hrun =>
      -- excluded: the library gives every service and none has a target
      have hvalue := (enumerateServices_wp env.library u p).1 (hpasses p u hconnect)
      rw [hrun] at hvalue
      cases hvalue
    | @sendLoop p u v hconnect hrun =>
      obtain ⟨hopened, hclosed⟩ := enumerateServices_connections hconnect hrun
      apply returnContract_of_opened (some p)
      · rw [opened_called_of_inspects rfl]
        exact hopened
      · rw [disconnectCalls_called, hclosed]
        rfl

/-- The board itself behind the handle, and an idle stick. -/
def esp32Env : Env where
  fl := .exact
  library := esp32Room.library
  opens := true
  reads := []

def SenderPc.hasReturned : SenderPc → Bool
  | .returned => true
  | _ => false

theorem SenderPc.hasReturned_iff {pc : SenderPc} : pc.hasReturned = true ↔ pc = .returned := by
  cases pc <;> simp [hasReturned]

/-- On the board `ble_sender` returns at the failed read, with the peripheral connected. -/
theorem return_contract_fails_on_esp32 :
    ¬∀ s, Reachable (step esp32Env) (.initial esp32Env) s → s.mainPc.cleaned = false →
      s.senderPc = .returned → ReturnContract s.ble.log := by
  intro hcontract
  -- `main` creates the threads, the board is reported, and `ble_sender` runs to its return
  have hexec : (exec (step esp32Env) ([.main, .main] ++ List.replicate 10 .bleSender ++
      [.report (.found 11)] ++ List.replicate 9 .bleSender ++ [.scanEnds] ++
      List.replicate 27 .bleSender) (.initial esp32Env)).map (fun s => (s.mainPc.cleaned,
        s.senderPc.hasReturned, opened s.ble.log, disconnectCalls s.ble.log)) =
      some (false, true, [11], []) := by decide +kernel
  obtain ⟨s, hs, hstate⟩ := Option.map_eq_some_iff.mp hexec
  simp only [Prod.mk.injEq, SenderPc.hasReturned_iff] at hstate
  obtain ⟨hmain, hreturned, hopened, hclosed⟩ := hstate
  have hreturn := hcontract s (reachable_of_exec hs) hmain hreturned
  have hdisconnected := hreturn.disconnected 11 (by rw [hopened]; exact List.mem_singleton_self 11)
  rw [hclosed] at hdisconnected
  cases hdisconnected

end RCControl
