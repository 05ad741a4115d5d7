import RCControl.Footprint

/-! Which peripheral `ble_sender` connects: the selection loop over the saved
handles and the unchecked use of its result. -/
namespace RCControl
open Resumption

/-- The operations that neither index the list with `selection` nor connect. -/
def BleOp.plain : BleOp → Prop
  | .peripheralListSelected _ => False
  | .lib c => c.connects = []
  | _ => True

theorem BleOp.plain.perform_keeps (library : Library) (caller : Caller)
    {selections : List ℤ} {connected : List Handle} (o : BleOp) (w : BleWorld) (ho : o.plain)
    (hw : w.selections = selections ∧ connectCalls w.log = connected) :
    (perform library caller o w).2.selections = selections ∧
      connectCalls (perform library caller o w).2.log = connected := by
  cases o with
  | peripheralListSelected selection => exact ho.elim
  | peripheralListPush peripheral =>
    simp only [perform]
    split <;> exact hw
  | lib c =>
    have hc : c.connects = [] := ho
    refine ⟨hw.1, ?_⟩
    change connectCalls (w.called library caller c).log = connected
    rw [connectCalls_called, hc, List.append_nil, hw.2]
  | _ => exact hw

/-- The operations of the scan callbacks. -/
def BleOp.ofCallback : BleOp → Prop
  | .lib c => c.connects = []
  | .printf _ | .peripheralListLen | .peripheralListPush _ => True
  | _ => False

theorem callback_uses (adapter : Handle) (e : ScanEvent) :
    (e.callback adapter).Uses BleOp.ofCallback :=
  callback_uses_of (fun _ => trivial) trivial (fun _ => trivial) (fun _ hc => hc.connects)
    adapter e

theorem callback_plain (adapter : Handle) (e : ScanEvent) :
    (e.callback adapter).Uses BleOp.plain := by
  refine (callback_uses adapter e).mono ?_
  intro o ho
  cases o with
  -- a call that a callback makes connects nothing
  | lib c => exact ho
  | peripheralListSelected selection => exact ho.elim
  | _ => trivial

theorem deliver_adapter (library : Library) (adapter : Handle) (w : BleWorld) (e : ScanEvent) :
    (deliver library adapter w e).adapter = w.adapter :=
  frame_global (callback_only adapter e) library .scanCallback w .adapter (by simp)

theorem deliverAll_keeps (library : Library) (adapter : Handle) (es : List ScanEvent)
    (w : BleWorld) :
    (deliverAll library adapter es w).selections = w.selections ∧
      connectCalls (deliverAll library adapter es w).log = connectCalls w.log := by
  -- callback by callback
  induction es generalizing w with
  | nil => exact ⟨rfl, rfl⟩
  | cons e es ih =>
    have hone := (callback_plain adapter e).run_invariant
      (BleOp.plain.perform_keeps library .scanCallback) (s := w) ⟨rfl, rfl⟩
    have hrest := ih (deliver library adapter w e)
    exact ⟨hrest.1.trans hone.1, hrest.2.trans hone.2⟩

/-- There is no adapter to scan with, and `ble_sender` says so and returns. -/
def noAdapter (library : Library) : Prop :=
  library 0 .adapterGetCount = 0 ∨ library 1 (.adapterGetHandle 0) = 0

instance (library : Library) : Decidable (noAdapter library) :=
  inferInstanceAs (Decidable (_ ∨ _))

theorem bleSetup_plain : bleSetup.Uses BleOp.plain := by
  apply bleSetup_only.mono
  intro o ho
  cases o with
  | lib c => exact ho.2.connects
  | peripheralListSelected selection => simp [BleOp.Only, BleOp.writes] at ho
  | _ => trivial

/-- The set-up either finds no adapter and returns, or starts the scan; the
list is still empty. -/
theorem bleSetup_wp (library : Library) :
    bleSetup.Wp (perform library .bleSender) .initial (fun o w =>
      w.peripheralListLen = 0 ∧
        (noAdapter library ∧ o = .returned ∨ ¬noAdapter library ∧ o = .value ())) := by
  unfold bleSetup
  rw [wp_access_bind rfl, wp_simpleble_bind]
  -- no adapter is counted, or none is handed out
  split_ifs with hcount
  · exact ⟨rfl, Or.inl ⟨Or.inl hcount, rfl⟩⟩
  · rw [wp_simpleble_bind, wp_access_bind rfl, wp_access_bind rfl]
    split_ifs with hadapter
    · exact ⟨rfl, Or.inl ⟨Or.inr hadapter, rfl⟩⟩
    · exact ⟨rfl, Or.inr ⟨fun h => h.elim hcount hadapter, rfl⟩⟩

/-- The state when the scan ends: the callbacks have filled the list and
nothing has been selected or connected. -/
theorem bleSenderScan_spec (library : Library) (es : List ScanEvent) :
    let r := bleSenderScan library es
    (∃ b : BoundedStore Handle peripheralListSize, r.2.Represents b) ∧
      r.2.selections = [] ∧ connectCalls r.2.log = [] ∧
      (noAdapter library ∧ r.1 = .returned ∧ r.2.saved = [] ∨
        ¬noAdapter library ∧ r.1 = .value ()) := by
  have hsetup := bleSetup_wp library
  have hkeep := bleSetup_plain.run_invariant
    (BleOp.plain.perform_keeps library .bleSender) (s := .initial) ⟨rfl, rfl⟩
  unfold bleSenderScan
  revert hsetup hkeep
  unfold Prog.Wp
  generalize bleSetup.run (perform library .bleSender) .initial = run
  obtain ⟨o, w⟩ := run
  rintro ⟨hlen, hout⟩ ⟨hsel, hconn⟩
  have hempty : w.Represents (.empty Handle peripheralListSize) :=
    ⟨hlen, fun i _ hi => absurd hi (Nat.not_lt_zero i)⟩
  -- without an adapter there is no scan, and the list stays empty
  rcases hout with ⟨hno, ho⟩ | ⟨hno, ho⟩ <;> dsimp only at ho <;> subst ho
  · exact ⟨⟨_, hempty⟩, hsel, hconn, Or.inl ⟨hno, rfl, hempty.saved_eq⟩⟩
  · have hkeep := deliverAll_keeps library w.adapter es w
    exact ⟨deliverAll_represents library w.adapter hempty es, hkeep.1.trans hsel,
      hkeep.2.trans hconn, Or.inr ⟨hno, rfl⟩⟩

theorem bleSenderConnect_of_noAdapter {library : Library} (es : List ScanEvent)
    (hadapter : noAdapter library) :
    let r := bleSenderConnect library es
    r.1 = .returned ∧ r.2.selections = [] ∧ connectCalls r.2.log = [] := by
  obtain ⟨-, hsel, hconn, ⟨-, ho, -⟩ | ⟨hno, -⟩⟩ := bleSenderScan_spec library es
  · unfold bleSenderConnect
    generalize bleSenderScan library es = r at hsel hconn ho
    obtain ⟨o, w⟩ := r
    dsimp only at hsel hconn ho
    subst ho
    exact ⟨rfl, hsel, hconn⟩
  · exact absurd hadapter hno

section Select
variable {library : Library} {ident : Handle → String} {w : BleWorld}
  {b : BoundedStore Handle peripheralListSize}

/-- What stays put while the saved peripherals are looked at. -/
structure Unselected (b : BoundedStore Handle peripheralListSize) (w : BleWorld) : Prop where
  represents : w.Represents b
  selections : w.selections = []
  connectCalls : connectCalls w.log = []

theorem Unselected.frame {α : Type} (hw : Unselected b w) {p : BleProg α}
    (hp : p.Uses (BleOp.Only [] LibCall.Inspects)) :
    Unselected b (p.run (perform library .bleSender) w).2 := by
  have hlist := frame_global hp library .bleSender w .peripheralList List.not_mem_nil
  have hselections := frame_global hp library .bleSender w .selections List.not_mem_nil
  obtain ⟨hcells, hlen⟩ := Prod.mk.inj hlist
  refine ⟨hw.represents.of_eq hcells hlen, hselections.trans hw.selections, ?_⟩
  calc RCControl.connectCalls (p.run (perform library .bleSender) w).2.log
      = RCControl.connectCalls w.log :=
        frame_log (fun e => e.call.connects) (uses_calls_of_only hp fun _ hc => hc)
          (fun _ hc => hc.connects) library .bleSender w
    _ = [] := hw.connectCalls

/-- One pass of the selection loop overwrites `selection` exactly when the
identifier is the wanted one. -/
theorem selectionBody_wp (hfix : ∀ t p, library t (.peripheralIdentifier p) = some (ident p))
    (hw : Unselected b w) {i : ℕ} (hi : i < b.items.length) (selection : ℤ) :
    (selectionBody i selection).Wp (perform library .bleSender) w (fun o u =>
      Unselected b u ∧
        o = .value (if ident b.items[i] = esp32Control then (i : ℤ) else selection)) := by
  have hlt : i < peripheralListSize := Nat.lt_of_lt_of_le hi b.length_le
  have hat : perform library .bleSender (.peripheralListAt i) w = (some b.items[i], w) := by
    simp only [perform, dif_pos hlt, hw.represents.cell i hlt hi]
  -- the identifier is asked for anew and is the same as in the report
  have hname : w.ask library (.peripheralIdentifier b.items[i]) =
      some ⟨w.log.length, ident b.items[i]⟩ := by
    simp only [BleWorld.ask, LibCall.answer, hfix, Option.map_some]
  refine ⟨hw.frame (selectionBody_only i selection), ?_⟩
  change (selectionBody i selection).Wp (perform library .bleSender) w (fun o _ =>
    o = .value (if ident b.items[i] = esp32Control then (i : ℤ) else selection))
  unfold selectionBody
  rw [wp_access_bind hat, wp_simpleble_bind, wp_simpleble_bind, hname]
  dsimp only
  -- `strcmp` decides which value the pass hands on
  split_ifs
  · rw [wp_printf_bind, wp_simpleble_bind, wp_simpleble_bind, Prog.wp_pure]
  · rw [wp_printf_bind, wp_simpleble_bind, wp_simpleble_bind, Prog.wp_pure]

/-- The selection loop ends with the index of the last saved peripheral of that
name, or with -1. -/
theorem selectPeripheral_wp (hfix : ∀ t p, library t (.peripheralIdentifier p) = some (ident p))
    (hw : Unselected b w) :
    selectPeripheral.Wp (perform library .bleSender) w (fun o u =>
      Unselected b u ∧ ∃ selection, o = .value selection ∧
        LastMatch (fun p => ident p = esp32Control) b.items selection) := by
  have hprinted : Unselected b (w.printed .devicesFound) :=
    ⟨hw.represents.of_eq rfl rfl, hw.selections, hw.connectCalls⟩
  unfold selectPeripheral
  rw [wp_printf_bind]
  -- after `i` passes `selection` is the last match among the first `i`
  refine Prog.wp_forBelow (n := b.items.length)
    (fun i selection u => Unselected b u ∧
      LastMatch (fun p => ident p = esp32Control) (b.items.take i) selection)
    ?_ ?_ ?_ (by have := b.length_le; omega) (Nat.zero_le _) ⟨hprinted, .nil⟩
  · intro i selection u hpost
    obtain ⟨hu, -⟩ := hpost
    rw [← hu.represents.len]
    rfl
  · intro i selection u hi hpost
    obtain ⟨hu, hmatch⟩ := hpost
    apply Prog.wp_mono (selectionBody_wp hfix hu hi selection)
    intro o v hpost
    obtain ⟨hv, rfl⟩ := hpost
    refine ⟨hv, ?_⟩
    rw [List.take_add_one, List.getElem?_eq_getElem hi, Option.toList_some]
    -- the abstract scan takes the same step, and its index is `i`
    have hlen : (b.items.take i).length = i := by rw [List.length_take]; omega
    split_ifs with hname
    · have hhit := LastMatch.hit hmatch hname
      rwa [hlen] at hhit
    · exact LastMatch.miss hmatch hname
  · intro selection u hpost
    obtain ⟨hu, hmatch⟩ := hpost
    rw [List.take_length] at hmatch
    exact ⟨hu, selection, rfl, hmatch⟩

/-- With a selection in range the saved handle at that place is connected, and is
what the selection returns. -/
theorem connectPeripheral_wp (library : Library) (hw : Unselected b w) {i : ℕ} {p : Handle}
    (hp : b.items[i]? = some p) :
    (connectPeripheral i).Wp (perform library .bleSender) w (fun o u =>
      u.Represents b ∧ u.selections = [(i : ℤ)] ∧ connectCalls u.log = [p] ∧
        (o = .value p ∨ o = .returned)) := by
  obtain ⟨hi, hget⟩ := List.getElem?_eq_some_iff.mp hp
  have hlt : i < peripheralListSize := Nat.lt_of_lt_of_le hi b.length_le
  have hread : perform library .bleSender (.peripheralListSelected i) w =
      (some p, w.selected i) := by
    simp only [perform, Int.toNat_natCast, dif_pos (And.intro (Int.natCast_nonneg i) hlt),
      hw.represents.cell i hlt hi, hget]
  unfold connectPeripheral
  rw [wp_access_bind hread]
  rw [wp_simpleble_bind, wp_simpleble_bind, wp_printf_bind, wp_simpleble_bind,
    wp_simpleble_bind, wp_simpleble_bind]
  -- whether or not the connect succeeds
  split_ifs
  · rw [Prog.wp_pure]
    simp [LibCall.connects, hw.represents, hw.selections, hw.connectCalls]
  · rw [wp_printf_bind, Prog.wp_exit]
    simp [LibCall.connects, hw.represents, hw.selections, hw.connectCalls]

/-- With -1 the read of `peripheral_list[-1]` is already undefined. -/
theorem connectPeripheral_wp_unset (library : Library) (hw : Unselected b w) :
    (connectPeripheral (-1)).Wp (perform library .bleSender) w (fun o u =>
      o = .faulted ∧ u.Represents b ∧ u.selections = [-1] ∧ connectCalls u.log = []) := by
  have hread : perform library .bleSender (.peripheralListSelected (-1)) w =
      (none, w.selected (-1)) := rfl
  unfold connectPeripheral
  refine (Prog.wp_op_none hread).mpr ?_
  simp [hw.represents, hw.selections, hw.connectCalls]

theorem selectAndConnect_wp
    (hfix : ∀ t p, library t (.peripheralIdentifier p) = some (ident p)) (hw : Unselected b w) :
    selectAndConnect.Wp (perform library .bleSender) w (fun o u => u.Represents b ∧
      ((o = .faulted ∧ (∀ p ∈ b.items, ident p ≠ esp32Control) ∧ u.selections = [-1] ∧
          connectCalls u.log = []) ∨
        ∃ (i : ℕ) (p : Handle), b.items[i]? = some p ∧ ident p = esp32Control ∧
          u.selections = [(i : ℤ)] ∧ connectCalls u.log = [p] ∧
          (o = .value p ∨ o = .returned))) := by
  unfold selectAndConnect
  rw [Prog.wp_bind]
  apply Prog.wp_mono (selectPeripheral_wp hfix hw)
  intro o u hpost
  obtain ⟨hu, selection, rfl, hmatch⟩ := hpost
  rw [Prog.wp_bind_value]
  -- a selection still at -1 faults, any other one is in range
  rcases hmatch.cases_index with ⟨rfl, hnone⟩ | ⟨i, p, rfl, hp, hname⟩
  · apply Prog.wp_mono (connectPeripheral_wp_unset library hu)
    intro o v hpost
    obtain ⟨ho, hv, hsel, hconn⟩ := hpost
    exact ⟨hv, Or.inl ⟨ho, hnone, hsel, hconn⟩⟩
  · apply Prog.wp_mono (connectPeripheral_wp library hu hp)
    intro o v hpost
    obtain ⟨hv, hsel, hconn, ho⟩ := hpost
    exact ⟨hv, Or.inr ⟨i, p, hp, hname, hsel, hconn, ho⟩⟩

end Select

section Sender
variable (library : Library) (ident : Handle → String)
  (hfix : ∀ t p, library t (.peripheralIdentifier p) = some (ident p)) (es : List ScanEvent)
include hfix

/-- `ble_sender` after a scan: it connects the last saved peripheral of the
wanted name, or reads `peripheral_list[-1]`. -/
theorem bleSenderConnect_spec (hadapter : ¬noAdapter library) :
    let saved := (bleSenderScan library es).2.saved
    let r := bleSenderConnect library es
    r.2.saved = saved ∧ r.2.peripheralListLen = saved.length ∧
      ((r.1 = .faulted ∧ (∀ p ∈ saved, ident p ≠ esp32Control) ∧ r.2.selections = [-1] ∧
          connectCalls r.2.log = []) ∨
        ∃ (i : ℕ) (p : Handle), saved[i]? = some p ∧ ident p = esp32Control ∧
          r.2.selections = [(i : ℤ)] ∧ connectCalls r.2.log = [p] ∧
          (r.1 = .value p ∨ r.1 = .returned)) := by
  obtain ⟨⟨b, hrep⟩, hsel, hconn, hout⟩ := bleSenderScan_spec library es
  -- with an adapter the scan takes place
  have hvalue : (bleSenderScan library es).1 = .value () := by
    rcases hout with ⟨hno, -⟩ | ⟨-, ho⟩
    · exact absurd hno hadapter
    · exact ho
  unfold bleSenderConnect
  generalize bleSenderScan library es = r at hrep hsel hconn hvalue
  obtain ⟨o, w⟩ := r
  dsimp only at hrep hsel hconn hvalue
  subst hvalue
  have h := selectAndConnect_wp hfix ⟨hrep, hsel, hconn⟩
  unfold Prog.Wp at h
  dsimp only
  rw [hrep.saved_eq]
  exact ⟨h.1.saved_eq, h.1.len, h.2⟩

end Sender

/-- What the selection promises, read off the state after the attempt to
connect: every index used is in range and names the ESP32, only an ESP32 is
connected, and without a saved ESP32 the function returns, having indexed and
connected nothing. -/
structure SelectionContract (ident : Handle → String) (o : Outcome Handle) (w : BleWorld) :
    Prop where
  indexed : ∀ selection ∈ w.selections, 0 ≤ selection ∧ selection < w.peripheralListLen ∧
    ∃ p, w.saved[selection.toNat]? = some p ∧ ident p = esp32Control ∧ connectCalls w.log = [p]
  connects : ∀ p ∈ connectCalls w.log, p ∈ w.saved ∧ ident p = esp32Control
  missing : (∀ p ∈ w.saved, ident p ≠ esp32Control) →
    o = .returned ∧ w.selections = [] ∧ connectCalls w.log = []

/-- The reports of a scan of `ble_sender` for which the getters answer with strings. -/
def scanned (library : Library) (es : List ScanEvent) : List Handle :=
  let w := (bleSetup.run (perform library .bleSender) .initial).2
  completeReports library w.adapter w es

/-- The first ten of them are saved. -/
theorem bleSenderScan_saved (library : Library) (hadapter : ¬noAdapter library)
    (es : List ScanEvent) :
    (bleSenderScan library es).2.saved = (scanned library es).take peripheralListSize := by
  have hsetup := bleSetup_wp library
  unfold bleSenderScan scanned
  unfold Prog.Wp at hsetup
  generalize bleSetup.run (perform library .bleSender) .initial = run at hsetup
  obtain ⟨o, w⟩ := run
  obtain ⟨hlen, ⟨hno, -⟩ | ⟨-, ho⟩⟩ := hsetup
  · exact absurd hno hadapter
  · dsimp only at ho hlen
    subst ho
    have hempty : w.Represents (.empty Handle peripheralListSize) :=
      ⟨hlen, fun i _ hi => absurd hi (Nat.not_lt_zero i)⟩
    have hrep := (deliverAll_offers library w.adapter hempty es).1
    calc (deliverAll library w.adapter es w).saved
        = ((BoundedStore.empty Handle peripheralListSize).offerAll
            (completeReports library w.adapter w es)).1.items := hrep.saved_eq
      _ = (completeReports library w.adapter w es).take peripheralListSize :=
        BoundedStore.offerAll_items _ _

/-- The selection keeps its promise exactly when no scan takes place for lack of
an adapter, or one of the first ten reports with all strings has the identifier. -/
theorem selectionContract_iff (library : Library) (ident : Handle → String)
    (hfix : ∀ t p, library t (.peripheralIdentifier p) = some (ident p)) (es : List ScanEvent) :
    SelectionContract ident (bleSenderConnect library es).1 (bleSenderConnect library es).2 ↔
      noAdapter library ∨
        ∃ p ∈ (scanned library es).take peripheralListSize, ident p = esp32Control := by
  by_cases hadapter : noAdapter library
  -- nothing is indexed or connected
  · obtain ⟨ho, hsel, hconn⟩ := bleSenderConnect_of_noAdapter es hadapter
    refine iff_of_true ⟨?_, ?_, fun _ => ⟨ho, hsel, hconn⟩⟩ (Or.inl hadapter)
    · simp [hsel]
    · simp [hconn]
  · rw [← bleSenderScan_saved library hadapter es]
    obtain ⟨hsaved, hlen, h⟩ := bleSenderConnect_spec library ident hfix es hadapter
    rcases h with ⟨hfault, hnone, -, -⟩ | ⟨i, p, hp, hname, hsel, hconn, -⟩
    -- no ESP32 is saved: the function should return and faults
    · refine iff_of_false (fun hcontract => ?_) (fun hcond => ?_)
      · have hmissing := hcontract.missing (by rw [hsaved]; exact hnone)
        rw [hfault] at hmissing
        cases hmissing.1
      · rcases hcond with hno | ⟨p, hp, hname⟩
        · exact hadapter hno
        · exact hnone p hp hname
    · have hi : i < (bleSenderScan library es).2.saved.length :=
        (List.getElem?_eq_some_iff.mp hp).1
      have hmem : p ∈ (bleSenderScan library es).2.saved := List.mem_of_getElem? hp
      -- one is saved: it is the only handle indexed and connected
      refine iff_of_true ⟨?_, ?_, ?_⟩ (Or.inr ⟨p, hmem, hname⟩)
      · intro selection hs
        rw [hsel, List.mem_singleton] at hs
        subst hs
        rw [hlen, hsaved]
        exact ⟨Int.natCast_nonneg i, by exact_mod_cast hi, p, by simpa using hp, hname, hconn⟩
      · intro q hq
        rw [hconn, List.mem_singleton] at hq
        rw [hsaved, hq]
        exact ⟨hmem, hname⟩
      · intro hnone
        rw [hsaved] at hnone
        exact absurd hname (hnone p hmem)

theorem selectionContract_headsetRoom :
    SelectionContract headsetRoom.identifier
      (bleSenderConnect headsetRoom.library [.found 3, .found 11]).1
      (bleSenderConnect headsetRoom.library [.found 3, .found 11]).2 :=
  (selectionContract_iff headsetRoom.library headsetRoom.identifier (fun _ _ => rfl)
    [.found 3, .found 11]).mpr (Or.inr ⟨11, by decide, by decide⟩)

/-- An empty scan: the list is indexed with -1. -/
theorem selectionContract_fails_on_empty_scan :
    ¬SelectionContract headsetRoom.identifier (bleSenderConnect headsetRoom.library []).1
      (bleSenderConnect headsetRoom.library []).2 := by
  intro hcontract
  have hsel : (bleSenderConnect headsetRoom.library []).2.selections = [-1] := by decide
  have hrange := hcontract.indexed (-1) (by rw [hsel]; exact List.mem_singleton_self _)
  exact absurd hrange.1 (by decide)

/-- `ble_sender` calls `simpleble_peripheral_connect` on an ESP32. -/
def ConnectsEsp32 (library : Library) (ident : Handle → String) (es : List ScanEvent) : Prop :=
  ∃ p ∈ connectCalls (bleSenderConnect library es).2.log, ident p = esp32Control

theorem connectsEsp32_of_saved (library : Library) (ident : Handle → String)
    (hfix : ∀ t p, library t (.peripheralIdentifier p) = some (ident p))
    (hadapter : ¬noAdapter library) (es : List ScanEvent)
    (hsaved : ∃ p ∈ (bleSenderScan library es).2.saved, ident p = esp32Control) :
    ConnectsEsp32 library ident es := by
  obtain ⟨-, -, ⟨-, hnone, -, -⟩ | ⟨i, p, -, hname, -, hconn, -⟩⟩ :=
    bleSenderConnect_spec library ident hfix es hadapter
  -- the loop cannot have missed it
  · obtain ⟨p, hp, hname⟩ := hsaved
    exact absurd hname (hnone p hp)
  · exact ⟨p, by rw [hconn]; exact List.mem_singleton_self p, hname⟩

/-- An ESP32 among the first ten reports is connected, whatever else is
reported; so no reordering of at most ten reports loses it. -/
theorem esp32_connected_of_early_report (library : Library) (ident : Handle → String)
    (hfix : ∀ t p, library t (.peripheralIdentifier p) = some (ident p))
    (hstr : StringsGiven library) (hadapter : ¬noAdapter library) :
    (∀ es, (∃ p ∈ (reported es).take peripheralListSize, ident p = esp32Control) →
      ConnectsEsp32 library ident es) ∧
    ∀ es es', (reported es).Perm (reported es') → (reported es).length ≤ peripheralListSize →
      (∃ p ∈ reported es, ident p = esp32Control) →
      ConnectsEsp32 library ident es ∧ ConnectsEsp32 library ident es' := by
  have hearly (es : List ScanEvent)
      (h : ∃ p ∈ (reported es).take peripheralListSize, ident p = esp32Control) :
      ConnectsEsp32 library ident es := by
    have hscanned : scanned library es = reported es :=
      completeReports_eq_reported library _ hstr _ es
    rw [← hscanned, ← bleSenderScan_saved library hadapter es] at h
    exact connectsEsp32_of_saved library ident hfix hadapter es h
  refine ⟨hearly, ?_⟩
  intro es es' hperm hlen hesp
  -- a permutation is no longer, and so loses nothing either
  have hlen' : (reported es').length ≤ peripheralListSize := hperm.length_eq ▸ hlen
  obtain ⟨p, hp, hname⟩ := hesp
  constructor
  · exact hearly es ⟨p, by rwa [List.take_of_length_le hlen], hname⟩
  · exact hearly es' ⟨p, by rw [List.take_of_length_le hlen']; exact hperm.mem_iff.mp hp, hname⟩

theorem esp32_connected_in_headsetRoom :
    ConnectsEsp32 headsetRoom.library headsetRoom.identifier [.found 3, .found 11, .found 4] ∧
      ConnectsEsp32 headsetRoom.library headsetRoom.identifier [.found 4, .found 3, .found 11] :=
  (esp32_connected_of_early_report headsetRoom.library headsetRoom.identifier (fun _ _ => rfl)
    headsetRoom.stringsGiven (by decide)).2 _ _ (by decide) (by decide) ⟨11, by decide, by decide⟩

/-- Ten headsets reported first push the ESP32 off the list, so the order of the
reports decides. -/
theorem esp32_lost_behind_ten_headsets :
    ¬ConnectsEsp32 headsetRoom.library headsetRoom.identifier
        ((List.range' 1 10).map .found ++ [.found 11]) ∧
      ConnectsEsp32 headsetRoom.library headsetRoom.identifier
        (.found 11 :: (List.range' 1 10).map .found) := by
  constructor
  · intro hpost
    obtain ⟨p, hp, -⟩ := hpost
    have hnone : connectCalls (bleSenderConnect headsetRoom.library
        ((List.range' 1 10).map .found ++ [.found 11])).2.log = [] := by decide +kernel
    rw [hnone] at hp
    exact List.not_mem_nil hp
  · exact ⟨11, by decide +kernel, by decide⟩

end RCControl
