import RCControl.BleSender

/-! What each part of `scan.c` may write and which library calls it may make, and
what it therefore leaves alone. -/
namespace RCControl
open Resumption

/-- The globals of `scan.c`, and the history of `selection`. -/
inductive Global
  | peripheralList
  | adapter
  | serviceNb
  | characNb
  | exitHandler
  | selections
deriving DecidableEq, Repr

def Global.Value : Global → Type
  | .peripheralList => (Fin peripheralListSize → Handle) × ℕ
  | .adapter => Handle
  | .serviceNb => ℤ
  | .characNb => ℤ
  | .exitHandler => Bool
  | .selections => List ℤ

def Global.value : (g : Global) → BleWorld → g.Value
  | .peripheralList, w => (w.peripheralList, w.peripheralListLen)
  | .adapter, w => w.adapter
  | .serviceNb, w => w.serviceNb
  | .characNb, w => w.characNb
  | .exitHandler, w => w.exitHandler
  | .selections, w => w.selections

/-- The global an operation writes. -/
def BleOp.writes : BleOp → List Global
  | .peripheralListPush _ => [.peripheralList]
  | .peripheralListSelected _ => [.selections]
  | .storeAdapter _ => [.adapter]
  | .storeServiceNb _ => [.serviceNb]
  | .storeCharacNb _ => [.characNb]
  | .atexitCleanOnExit => [.exitHandler]
  | _ => []

/-- A restriction on the library calls of a fragment. -/
def BleOp.Calls (good : LibCall → Prop) : BleOp → Prop
  | .lib c => good c
  | _ => True

theorem perform_log (library : Library) (caller : Caller) (o : BleOp) (w : BleWorld) :
    (∃ c, o = .lib c ∧ (perform library caller o w).2 = w.called library caller c) ∨
      ((∀ c, o ≠ .lib c) ∧ (perform library caller o w).2.log = w.log) := by
  cases o with
  | lib c => exact Or.inl ⟨c, rfl, rfl⟩
  | peripheralListPush peripheral =>
    refine Or.inr ⟨by simp, ?_⟩
    simp only [perform]
    split <;> rfl
  | _ => exact Or.inr ⟨by simp, rfl⟩

/-- The globals an operation may write and the calls it may make. -/
def BleOp.Only (globals : List Global) (good : LibCall → Prop) (o : BleOp) : Prop :=
  o.writes ⊆ globals ∧ o.Calls good

section Only
variable {globals : List Global} {good : LibCall → Prop}

theorem only_call {c : LibCall} (h : good c) : (BleOp.lib c).Only globals good :=
  ⟨List.nil_subset globals, h⟩

theorem only_read {o : BleOp} (hwrites : o.writes = []) (hcalls : o.Calls good) :
    o.Only globals good :=
  ⟨by rw [hwrites]; exact List.nil_subset globals, hcalls⟩

theorem only_printf {line : Output} : (BleOp.printf line).Only globals good :=
  only_read rfl trivial

theorem uses_access_bind {α : Type} {allowed : BleOp → Prop} {o : BleOp} {f : o.Ans → BleProg α}
    (ho : allowed o) (hf : ∀ a, (f a).Uses allowed) : (access o >>= f).Uses allowed :=
  Prog.Uses.bind (Prog.uses_call.mpr ho) hf

theorem uses_only_mono {α : Type} {globals' : List Global} {good' : LibCall → Prop}
    {p : BleProg α} (hp : p.Uses (BleOp.Only globals good)) (hglobals : globals ⊆ globals')
    (hgood : ∀ c, good c → good' c) : p.Uses (BleOp.Only globals' good') := by
  apply hp.mono
  intro o ho
  refine ⟨List.Subset.trans ho.1 hglobals, ?_⟩
  cases o with
  | lib c => exact hgood c ho.2
  | _ => trivial

theorem uses_calls_of_only {α : Type} {good' : LibCall → Prop} {p : BleProg α}
    (hp : p.Uses (BleOp.Only globals good)) (hgood : ∀ c, good c → good' c) :
    p.Uses (BleOp.Calls good') := by
  have hmono := uses_only_mono hp (List.Subset.refl globals) hgood
  exact hmono.mono fun _ ho => ho.2

theorem perform_global (library : Library) (caller : Caller) {g : Global} (o : BleOp)
    (w : BleWorld) (hg : g ∉ o.writes) : g.value (perform library caller o w).2 = g.value w := by
  cases o with
  | peripheralListPush peripheral =>
    simp only [perform]
    split
    -- the push writes the list, when there is room
    · cases g with
      | peripheralList => exact absurd (List.mem_singleton_self _) hg
      | _ => rfl
    · rfl
  | peripheralListSelected _ | storeAdapter _ | storeServiceNb _ | storeCharacNb _
  | atexitCleanOnExit =>
    cases g <;> first | rfl | exact absurd (List.mem_singleton_self _) hg
  | printf _ | lib _ => cases g <;> rfl
  | _ => rfl

/-- The frame of the globals: what a fragment may not write keeps its value. -/
theorem frame_global {α : Type} {p : BleProg α} (hp : p.Uses (BleOp.Only globals good))
    (library : Library) (caller : Caller) (w : BleWorld) (g : Global) (hg : g ∉ globals) :
    g.value (p.run (perform library caller) w).2 = g.value w := by
  have hkeep (o : BleOp) (u : BleWorld) (ho : o.Only globals good) (hu : g.value u = g.value w) :
      g.value (perform library caller o u).2 = g.value w := by
    rw [perform_global library caller o u (fun hmem => hg (ho.1 hmem)), hu]
  exact hp.run_invariant hkeep rfl

/-- The frame of the history: what is read off calls that a fragment may not make
does not change. -/
theorem frame_log {α β : Type} (f : LogEntry → List β) {p : BleProg α}
    (hp : p.Uses (BleOp.Calls good)) (hf : ∀ e : LogEntry, good e.call → f e = [])
    (library : Library) (caller : Caller) (w : BleWorld) :
    (p.run (perform library caller) w).2.log.flatMap f = w.log.flatMap f := by
  have hkeep (o : BleOp) (u : BleWorld) (ho : o.Calls good)
      (hu : u.log.flatMap f = w.log.flatMap f) :
      (perform library caller o u).2.log.flatMap f = w.log.flatMap f := by
    -- only a call lengthens the history, by an entry that `f` does not read
    obtain ⟨c, rfl, hcalled⟩ | ⟨-, hlog⟩ := perform_log library caller o u
    · have hnone : f ⟨caller, c, c.ok (u.ask library c)⟩ = [] := hf _ ho
      rw [hcalled, BleWorld.called, List.flatMap_append, List.flatMap_singleton, hnone,
        List.append_nil, hu]
    · rw [hlog, hu]
  exact hp.run_invariant hkeep rfl

theorem frame_quiet {α : Type} {p : BleProg α} (hp : p.Uses (BleOp.Only globals fun _ => False))
    (library : Library) (caller : Caller) (w : BleWorld) :
    (p.run (perform library caller) w).2.log = w.log := by
  have hcalls := uses_calls_of_only hp fun _ hc => hc
  -- the history is what is read off it entry by entry
  have hlog := frame_log (fun e => [e]) hcalls (fun _ hc => hc.elim) library caller w
  rw [List.flatMap_singleton', List.flatMap_singleton'] at hlog
  exact hlog

end Only

def LibCall.disconnects : LibCall → List Handle
  | .peripheralDisconnect peripheral => [peripheral]
  | _ => []

/-- A call that leaves every peripheral as it is. -/
structure LibCall.Inspects (c : LibCall) : Prop where
  connects : c.connects = []
  disconnects : c.disconnects = []
  releases : c.releases = []

/-- A call that may release a peripheral, but leaves its connection alone. -/
structure LibCall.KeepsConnections (c : LibCall) : Prop where
  connects : c.connects = []
  disconnects : c.disconnects = []

/-- A call that may connect a peripheral. -/
structure LibCall.ClosesNothing (c : LibCall) : Prop where
  disconnects : c.disconnects = []
  releases : c.releases = []

section Scan

theorem callback_uses_of {allowed : BleOp → Prop} (hprintf : ∀ line, allowed (.printf line))
    (hlen : allowed .peripheralListLen) (hpush : ∀ p, allowed (.peripheralListPush p))
    (hcall : ∀ c : LibCall, c.KeepsConnections → allowed (.lib c)) (adapter : Handle)
    (e : ScanEvent) : (e.callback adapter).Uses allowed := by
  have hreport (line : String → Output) : (reportAdapter line adapter).Uses allowed := by
    apply uses_access_bind (hcall _ ⟨rfl, rfl⟩)
    intro identifier
    cases identifier with
    | none => trivial
    | some identifier =>
      apply uses_access_bind (hprintf _)
      intro _
      exact Prog.uses_call.mpr (hcall _ ⟨rfl, rfl⟩)
  cases e with
  | started => exact hreport _
  | stopped => exact hreport _
  | found peripheral =>
    apply uses_access_bind (hcall _ ⟨rfl, rfl⟩)
    intro adapterIdentifier
    apply uses_access_bind (hcall _ ⟨rfl, rfl⟩)
    intro identifier
    apply uses_access_bind (hcall _ ⟨rfl, rfl⟩)
    intro address
    have hsave : (savePeripheral peripheral).Uses allowed := by
      apply uses_access_bind hlen
      intro peripheralListLen
      split
      · exact Prog.uses_call.mpr (hpush peripheral)
      · exact Prog.uses_call.mpr (hcall _ ⟨rfl, rfl⟩)
    -- unless all three strings are there the callback returns
    cases adapterIdentifier <;> cases identifier <;> cases address <;> try trivial
    apply uses_access_bind (hprintf _)
    intro _
    apply hsave.bind
    intro _
    apply uses_access_bind (hcall _ ⟨rfl, rfl⟩)
    intro _
    exact Prog.uses_call.mpr (hcall _ ⟨rfl, rfl⟩)

theorem callback_only (adapter : Handle) (e : ScanEvent) :
    (e.callback adapter).Uses (BleOp.Only [.peripheralList] LibCall.KeepsConnections) :=
  callback_uses_of (fun _ => only_printf) (only_read rfl trivial)
    (fun _ => ⟨List.Subset.refl _, trivial⟩) (fun _ hc => only_call hc) adapter e

theorem bleSetup_only :
    bleSetup.Uses (BleOp.Only [.adapter, .exitHandler] LibCall.Inspects) := by
  unfold bleSetup
  apply uses_access_bind ⟨by simp [BleOp.writes], trivial⟩
  intro _
  apply uses_access_bind (only_call ⟨rfl, rfl, rfl⟩)
  intro adapterCount
  -- no adapter: the early return
  split
  · apply uses_access_bind only_printf
    intro _
    trivial
  · apply uses_access_bind (only_call ⟨rfl, rfl, rfl⟩)
    intro handle
    apply uses_access_bind ⟨by simp [BleOp.writes], trivial⟩
    intro _
    refine uses_access_bind (only_read rfl trivial) fun adapter => ?_
    split
    · apply uses_access_bind only_printf
      intro _
      trivial
    · apply uses_access_bind (only_call ⟨rfl, rfl, rfl⟩)
      intro _
      apply uses_access_bind (only_call ⟨rfl, rfl, rfl⟩)
      intro _
      apply uses_access_bind (only_call ⟨rfl, rfl, rfl⟩)
      intro _
      exact Prog.uses_call.mpr (only_call ⟨rfl, rfl, rfl⟩)

end Scan

section Connect

theorem selectionBody_only (i : ℕ) (selection : ℤ) :
    (selectionBody i selection).Uses (BleOp.Only [] LibCall.Inspects) := by
  unfold selectionBody
  refine uses_access_bind (only_read rfl trivial) fun peripheral => ?_
  apply uses_access_bind (only_call ⟨rfl, rfl, rfl⟩)
  intro identifier
  apply uses_access_bind (only_call ⟨rfl, rfl, rfl⟩)
  intro address
  cases identifier with
  | none => trivial
  | some identifier =>
    dsimp only
    split
    all_goals
      apply uses_access_bind only_printf
      intro _
      apply uses_access_bind (only_call ⟨rfl, rfl, rfl⟩)
      intro _
      apply uses_access_bind (only_call ⟨rfl, rfl, rfl⟩)
      intro _
      trivial

theorem selectPeripheral_only : selectPeripheral.Uses (BleOp.Only [] LibCall.Inspects) := by
  unfold selectPeripheral
  apply uses_access_bind only_printf
  intro _
  apply Prog.Uses.forBelow (Prog.uses_call.mpr (only_read (o := .peripheralListLen) rfl trivial))
  exact selectionBody_only

theorem connectPeripheral_only (selection : ℤ) :
    (connectPeripheral selection).Uses (BleOp.Only [.selections] LibCall.ClosesNothing) := by
  unfold connectPeripheral
  apply uses_access_bind ⟨List.Subset.refl _, trivial⟩
  intro peripheral
  apply uses_access_bind (only_call ⟨rfl, rfl⟩)
  intro identifier
  apply uses_access_bind (only_call ⟨rfl, rfl⟩)
  intro address
  apply uses_access_bind only_printf
  intro _
  apply uses_access_bind (only_call ⟨rfl, rfl⟩)
  intro _
  apply uses_access_bind (only_call ⟨rfl, rfl⟩)
  intro _
  apply uses_access_bind (only_call ⟨rfl, rfl⟩)
  intro errCode
  -- a failed connect prints and returns
  split
  · trivial
  · apply uses_access_bind only_printf
    intro _
    trivial

theorem selectAndConnect_only :
    selectAndConnect.Uses (BleOp.Only [.selections] LibCall.ClosesNothing) := by
  unfold selectAndConnect
  apply Prog.Uses.bind
  · exact uses_only_mono selectPeripheral_only (List.nil_subset _) fun _ hc =>
      ⟨hc.disconnects, hc.releases⟩
  · exact connectPeripheral_only

end Connect

section Sender
variable (library : Library) (es : List ScanEvent)

theorem deliverAll_global (adapter : Handle) (w : BleWorld) (g : Global)
    (hg : g ∉ [.peripheralList]) :
    g.value (deliverAll library adapter es w) = g.value w := by
  -- callback by callback
  induction es generalizing w with
  | nil => rfl
  | cons e es ih =>
    calc g.value (deliverAll library adapter (e :: es) w)
        = g.value (deliver library adapter w e) := ih _
      _ = g.value w := frame_global (callback_only adapter e) library .scanCallback w g hg

theorem deliverAll_log {β : Type} (f : LogEntry → List β)
    (hf : ∀ e : LogEntry, e.call.KeepsConnections → f e = []) (adapter : Handle) (w : BleWorld) :
    (deliverAll library adapter es w).log.flatMap f = w.log.flatMap f := by
  induction es generalizing w with
  | nil => rfl
  | cons e es ih =>
    have hcalls := uses_calls_of_only (callback_only adapter e) fun _ hc => hc
    calc (deliverAll library adapter (e :: es) w).log.flatMap f
        = (deliver library adapter w e).log.flatMap f := ih _
      _ = w.log.flatMap f := frame_log f hcalls hf library .scanCallback w

theorem bleSenderConnect_global (g : Global)
    (hg : g ∉ [.peripheralList, .adapter, .exitHandler, .selections]) :
    g.value (bleSenderConnect library es).2 = g.value .initial := by
  -- the global is outside the footprint of each of the three parts
  have hpart (globals : List Global)
      (hsub : globals ⊆ [.peripheralList, .adapter, .exitHandler, .selections]) : g ∉ globals :=
    fun hmem => hg (hsub hmem)
  have hsetup := frame_global bleSetup_only library .bleSender .initial g (hpart _ (by simp))
  have hscan : g.value (bleSenderScan library es).2 = g.value .initial := by
    unfold bleSenderScan
    generalize bleSetup.run (perform library .bleSender) .initial = r at hsetup
    -- the later parts only run if the earlier ones fall through
    obtain ⟨_ | _ | _, w⟩ := r
    · calc g.value (deliverAll library w.adapter es w)
          = g.value w := deliverAll_global library es w.adapter w g (hpart _ (by simp))
        _ = g.value .initial := hsetup
    · exact hsetup
    · exact hsetup
  unfold bleSenderConnect
  generalize bleSenderScan library es = r at hscan
  obtain ⟨_ | _ | _, w⟩ := r
  · calc g.value (selectAndConnect.run (perform library .bleSender) w).2
        = g.value w :=
          frame_global selectAndConnect_only library .bleSender w g (hpart _ (by simp))
      _ = g.value .initial := hscan
  · exact hscan
  · exact hscan

theorem bleSenderScan_log {β : Type} (f : LogEntry → List β)
    (hf : ∀ e : LogEntry, e.call.KeepsConnections → f e = []) :
    (bleSenderScan library es).2.log.flatMap f = [] := by
  have hcalls := uses_calls_of_only bleSetup_only fun _ hc => hc
  have hsetup := frame_log f hcalls (fun e hc => hf e ⟨hc.connects, hc.disconnects⟩) library
    .bleSender .initial
  unfold bleSenderScan
  generalize bleSetup.run (perform library .bleSender) .initial = r at hsetup
  obtain ⟨_ | _ | _, w⟩ := r
  · calc (deliverAll library w.adapter es w).log.flatMap f
        = w.log.flatMap f := deliverAll_log library es f hf w.adapter w
      _ = [] := hsetup
  · exact hsetup
  · exact hsetup

end Sender

section Enumerate

theorem printCharacteristic_only (c : Characteristic) :
    (printCharacteristic c).Uses (BleOp.Only [] fun _ => False) := by
  unfold printCharacteristic
  apply uses_access_bind only_printf
  intro _
  apply Prog.Uses.forBelow Prog.uses_pure
  intro k _
  apply Prog.Uses.bind Prog.uses_index
  intro uuid
  exact Prog.uses_call.mpr only_printf

theorem listService_only (service : Service) :
    (listService service).Uses (BleOp.Only [.characNb] fun _ => False) := by
  have hprint (c : Characteristic) :
      (printCharacteristic c).Uses (BleOp.Only [.characNb] fun _ => False) :=
    uses_only_mono (printCharacteristic_only c) (List.nil_subset _) fun _ hc => hc
  unfold listService
  apply uses_access_bind only_printf
  intro _
  apply Prog.Uses.forBelow Prog.uses_pure
  intro j _
  unfold listBody
  apply Prog.Uses.bind Prog.uses_index
  intro c
  split
  · apply uses_access_bind ⟨List.Subset.refl _, trivial⟩
    intro _
    apply uses_access_bind only_printf
    intro _
    exact hprint c
  · exact hprint c

theorem derefElement_uses {allowed : BleOp → Prop} (data : BufferPtr) (i : ℕ) :
    (derefElement data i).Uses allowed := by
  cases data with
  | none => trivial
  | some data =>
    unfold derefElement
    apply Prog.Uses.bind Prog.uses_index
    intro buffer
    cases buffer with
    | none => trivial
    | some bytes => exact Prog.uses_index

theorem readCharacteristic_only (p : Handle) (service : Service) (data : BufferPtr)
    (dataLength : SizePtr) : (readCharacteristic p service data dataLength).Uses
      (BleOp.Only [] LibCall.Inspects) := by
  -- the two pointers are only read
  have hderef (n : SizePtr) : (derefSize n).Uses (BleOp.Only [] LibCall.Inspects) := by
    cases n <;> trivial
  unfold readCharacteristic
  refine uses_access_bind (only_read rfl trivial) fun characNb => ?_
  apply Prog.Uses.bind Prog.uses_index
  intro c
  apply uses_access_bind (only_call ⟨rfl, rfl, rfl⟩)
  intro answer
  dsimp only
  split
  · apply (hderef _).bind
    intro length
    apply uses_access_bind only_printf
    intro _
    apply Prog.Uses.bind
    · apply Prog.Uses.forBelow (hderef _)
      intro i _
      apply (derefElement_uses _ i).bind
      intro byte
      exact Prog.uses_call.mpr only_printf
    · intro _
      apply uses_access_bind only_printf
      intro _
      exact Prog.uses_call.mpr (only_call ⟨rfl, rfl, rfl⟩)
  · apply uses_access_bind only_printf
    intro _
    trivial

theorem enumerateServices_only (p : Handle) : (enumerateServices p).Uses
    (BleOp.Only [.serviceNb, .characNb] LibCall.Inspects) := by
  have hprint (c : Characteristic) : (printCharacteristic c).Uses
      (BleOp.Only [.serviceNb, .characNb] LibCall.Inspects) :=
    uses_only_mono (printCharacteristic_only c) (List.nil_subset _) fun _ hc => hc.elim
  have hlist (service : Service) : (listService service).Uses
      (BleOp.Only [.serviceNb, .characNb] LibCall.Inspects) :=
    uses_only_mono (listService_only service) (by simp) fun _ hc => hc.elim
  have hread (service : Service) (i : ℕ) : (readService p service i).Uses
      (BleOp.Only [.serviceNb, .characNb] LibCall.Inspects) := by
    unfold readService
    apply uses_access_bind ⟨by simp [BleOp.writes], trivial⟩
    intro _
    apply uses_access_bind only_printf
    intro _
    apply Prog.Uses.forBelow Prog.uses_pure
    intro j _
    unfold readBody
    apply Prog.Uses.bind Prog.uses_index
    intro c
    split
    · apply uses_access_bind ⟨by simp [BleOp.writes], trivial⟩
      intro _
      apply (uses_only_mono (readCharacteristic_only p service none none) (List.nil_subset _)
        fun _ hc => hc).bind
      intro _
      exact hprint c
    · exact hprint c
  unfold enumerateServices
  apply uses_access_bind (only_call ⟨rfl, rfl, rfl⟩)
  intro count
  apply uses_access_bind only_printf
  intro _
  apply Prog.Uses.forBelow Prog.uses_pure
  intro i _
  unfold serviceBody
  apply uses_access_bind (only_call ⟨rfl, rfl, rfl⟩)
  intro service
  -- without a service the enumeration returns
  cases service with
  | none =>
    apply uses_access_bind only_printf
    intro _
    trivial
  | some service =>
    dsimp only
    split
    · apply (hread service i).bind
      intro _
      exact hlist service
    · exact hlist service

end Enumerate

theorem cleanOnExit_only : cleanOnExit.Uses (BleOp.Only [] LibCall.KeepsConnections) := by
  unfold cleanOnExit
  apply uses_access_bind only_printf
  intro _
  -- the loop over the list, and after it the adapter
  apply Prog.Uses.bind
  · apply Prog.Uses.forBelow (Prog.uses_call.mpr (only_read (o := .peripheralListLen) rfl trivial))
    intro i _
    refine uses_access_bind (only_read rfl trivial) fun peripheral => ?_
    exact Prog.uses_call.mpr (only_call ⟨rfl, rfl⟩)
  · intro _
    refine uses_access_bind (only_read rfl trivial) fun adapter => ?_
    exact Prog.uses_call.mpr (only_call ⟨rfl, rfl⟩)

end RCControl
