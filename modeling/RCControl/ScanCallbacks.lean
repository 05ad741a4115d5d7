import RCControl.BoundedStore
import RCControl.SimpleBle
import Mathlib.Data.List.Nodup

/-! The scan callbacks of `scan.c` and `clean_on_exit`: who owns which
peripheral handle, and when it is released. -/
namespace RCControl
open Resumption

/-- `adapter_on_scan_start` and `adapter_on_scan_stop` differ in one message. -/
def reportAdapter (line : String → Output) (adapter : Handle) : BleProg Unit := do
  match ← simpleble (.adapterIdentifier adapter) with
  | none => .exit
  | some identifier => do
    printf (line identifier.text)
    simpleble (.free (.string identifier.addr))

def adapterOnScanStart : Handle → BleProg Unit := reportAdapter .startedScanning

def adapterOnScanStop : Handle → BleProg Unit := reportAdapter .stoppedScanning

/-- The room left decides whether the handle is saved or released. -/
def savePeripheral (peripheral : Handle) : BleProg Unit := do
  let peripheralListLen ← access .peripheralListLen
  if peripheralListLen < peripheralListSize then
    access (.peripheralListPush peripheral)
  else
    simpleble (.peripheralReleaseHandle peripheral)

def adapterOnScanFound (adapter peripheral : Handle) : BleProg Unit := do
  let adapterIdentifier ← simpleble (.adapterIdentifier adapter)
  let peripheralIdentifier ← simpleble (.peripheralIdentifier peripheral)
  let peripheralAddress ← simpleble (.peripheralAddress peripheral)
  match adapterIdentifier, peripheralIdentifier, peripheralAddress with
  | some adapterIdentifier, some identifier, some address => do
    printf (.foundDevice adapterIdentifier.text identifier.text address.text)
    -- `adapter_identifier` is freed on no path
    savePeripheral peripheral
    simpleble (.free (.string identifier.addr))
    simpleble (.free (.string address.addr))
  -- the early return frees no string and keeps the handle
  | _, _, _ => .exit

def cleanOnExit : BleProg Unit := do
  printf .releasing
  Prog.forBelow (access .peripheralListLen)
    (fun i _ => do
      let peripheral ← access (.peripheralListAt i)
      simpleble (.peripheralReleaseHandle peripheral))
    (peripheralListSize + 1) 0 ()
  let adapter ← access .loadAdapter
  simpleble (.adapterReleaseHandle adapter)

/-- What SimpleBLE reports while it scans. -/
inductive ScanEvent
  | started
  | found (peripheral : Handle)
  | stopped
deriving DecidableEq, Repr

def ScanEvent.callback (adapter : Handle) : ScanEvent → BleProg Unit
  | .started => adapterOnScanStart adapter
  | .found peripheral => adapterOnScanFound adapter peripheral
  | .stopped => adapterOnScanStop adapter

/-- One callback, run to its end. -/
def deliver (library : Library) (adapter : Handle) (w : BleWorld) (e : ScanEvent) : BleWorld :=
  ((e.callback adapter).run (perform library .scanCallback) w).2

def deliverAll (library : Library) (adapter : Handle) (es : List ScanEvent)
    (w : BleWorld) : BleWorld :=
  es.foldl (deliver library adapter) w

/-- The handles reported by a sequence of callbacks. -/
def reported (es : List ScanEvent) : List Handle :=
  es.filterMap fun e => match e with
    | .found peripheral => some peripheral
    | _ => none

/-- `peripheral_list[0..peripheral_list_len)` holds exactly the items of `b`. -/
structure BleWorld.Represents (w : BleWorld) (b : BoundedStore Handle peripheralListSize) :
    Prop where
  len : w.peripheralListLen = b.items.length
  cell : ∀ (i : ℕ) (h : i < peripheralListSize) (hi : i < b.items.length),
    w.peripheralList ⟨i, h⟩ = b.items[i]

/-- `peripheral_list[0..peripheral_list_len)` as a list. -/
def BleWorld.saved (w : BleWorld) : List Handle :=
  (List.ofFn w.peripheralList).take w.peripheralListLen

theorem BleWorld.Represents.saved_eq {w : BleWorld} {b : BoundedStore Handle peripheralListSize}
    (h : w.Represents b) : w.saved = b.items := by
  have hle := b.length_le
  apply List.ext_getElem
  · simp only [saved, List.length_take, List.length_ofFn, h.len]
    omega
  · intro i hi hi'
    simp only [saved, List.getElem_take, List.getElem_ofFn]
    exact h.cell i (by omega) hi'

theorem BleWorld.Represents.of_eq {w u : BleWorld} {b : BoundedStore Handle peripheralListSize}
    (h : w.Represents b) (hlist : u.peripheralList = w.peripheralList)
    (hlen : u.peripheralListLen = w.peripheralListLen) : u.Represents b :=
  ⟨hlen.trans h.len, fun i hi hb => by rw [hlist]; exact h.cell i hi hb⟩

@[simp] theorem represents_called {library : Library} {caller : Caller} {c : LibCall}
    {w : BleWorld} {b : BoundedStore Handle peripheralListSize} :
    (w.called library caller c).Represents b ↔ w.Represents b :=
  ⟨fun h => h.of_eq rfl rfl, fun h => h.of_eq rfl rfl⟩

@[simp] theorem represents_printed {line : Output} {w : BleWorld}
    {b : BoundedStore Handle peripheralListSize} :
    (w.printed line).Represents b ↔ w.Represents b :=
  ⟨fun h => h.of_eq rfl rfl, fun h => h.of_eq rfl rfl⟩

@[simp] theorem represents_selected {selection : ℤ} {w : BleWorld}
    {b : BoundedStore Handle peripheralListSize} :
    (w.selected selection).Represents b ↔ w.Represents b :=
  ⟨fun h => h.of_eq rfl rfl, fun h => h.of_eq rfl rfl⟩

/-- The store of the callback is the abstract offer: the push when there is
room, the release of the handle when there is none. -/
theorem savePeripheral_wp (library : Library) (caller : Caller) {w : BleWorld}
    {b : BoundedStore Handle peripheralListSize} (hw : w.Represents b) (peripheral : Handle) :
    (savePeripheral peripheral).Wp (perform library caller) w (fun o u =>
      o = .value () ∧ u.Represents (b.offer peripheral).1 ∧
        released u.log = released w.log ++ (b.offer peripheral).2) := by
  unfold savePeripheral
  rw [wp_access_bind (a := w.peripheralListLen) rfl]
  by_cases hroom : w.peripheralListLen < peripheralListSize
  · have hitems : b.items.length < peripheralListSize := by rw [← hw.len]; exact hroom
    rw [if_pos hroom, wp_access (by simp only [perform, dif_pos hroom]; rfl)]
    simp only [BoundedStore.offer, dif_pos hitems, List.append_nil, true_and, and_true]
    refine ⟨by simp [hw.len], ?_⟩
    intro i h hi
    -- the new cell is the pushed handle, the others are as they were
    by_cases hlast : i = w.peripheralListLen
    · subst hlast
      simp [hw.len]
    · have hlt : i < b.items.length := by
        have := hw.len
        simp only [List.length_append, List.length_singleton] at hi
        omega
      have hne : (⟨i, h⟩ : Fin peripheralListSize) ≠ ⟨w.peripheralListLen, hroom⟩ :=
        fun he => hlast (congrArg Fin.val he)
      simp only [Function.update_of_ne hne, List.getElem_append_left hlt]
      exact hw.cell i h hlt
  -- without room the callback releases the handle, as the offer turns it away
  · have hfull : b.items.length = peripheralListSize := by
      have := b.length_le
      have := hw.len
      omega
    rw [if_neg hroom, wp_simpleble, BoundedStore.offer_of_full b peripheral hfull]
    refine ⟨rfl, hw.of_eq rfl rfl, ?_⟩
    rw [released_called]
    rfl

/-- Whether the three getters of `adapter_on_scan_found` answer with strings. -/
def complete (library : Library) (adapter peripheral : Handle) (w : BleWorld) : Bool :=
  let t := w.log.length
  (library t (.adapterIdentifier adapter)).isSome &&
  (library (t + 1) (.peripheralIdentifier peripheral)).isSome &&
  (library (t + 2) (.peripheralAddress peripheral)).isSome

/-- The world after the three getters of `adapter_on_scan_found`, which are called in
any case. -/
def gettersCalled (library : Library) (adapter peripheral : Handle) (w : BleWorld) : BleWorld :=
  ((w.called library .scanCallback (.adapterIdentifier adapter)).called library .scanCallback
    (.peripheralIdentifier peripheral)).called library .scanCallback (.peripheralAddress peripheral)

/-- The walk through the getters: with a string missing the callback returns there, else
it prints and saves, and then frees the second and the third string. -/
theorem adapterOnScanFound_getters (library : Library) (adapter peripheral : Handle)
    {w : BleWorld} {Q : Outcome Unit → BleWorld → Prop}
    (hearly : complete library adapter peripheral w = false →
      Q .returned (gettersCalled library adapter peripheral w))
    (hsave : complete library adapter peripheral w = true → ∀ line,
      (savePeripheral peripheral).Wp (perform library .scanCallback)
        ((gettersCalled library adapter peripheral w).printed line) (fun o u =>
          o = .value () ∧ Q (.value ())
            ((u.called library .scanCallback (.free (.string (w.log.length + 1)))).called library
              .scanCallback (.free (.string (w.log.length + 2)))))) :
    (adapterOnScanFound adapter peripheral).Wp (perform library .scanCallback) w Q := by
  let w₁ := w.called library .scanCallback (.adapterIdentifier adapter)
  let w₂ := w₁.called library .scanCallback (.peripheralIdentifier peripheral)
  have hcomplete : complete library adapter peripheral w =
      ((w.ask library (.adapterIdentifier adapter)).isSome &&
      (w₁.ask library (.peripheralIdentifier peripheral)).isSome &&
      (w₂.ask library (.peripheralAddress peripheral)).isSome) := by
    simp [complete, w₁, w₂, BleWorld.called, BleWorld.ask, LibCall.answer]
  rw [hcomplete] at hearly hsave
  unfold adapterOnScanFound
  rw [wp_simpleble_bind, wp_simpleble_bind, wp_simpleble_bind]
  change Prog.Wp _ _ (gettersCalled library adapter peripheral w) _
  cases hadapter : w.ask library (.adapterIdentifier adapter) with
  -- one string missing is enough for the early return
  | none => exact hearly (by rw [hadapter]; rfl)
  | some adapterIdentifier =>
    cases hidentifier : w₁.ask library (.peripheralIdentifier peripheral) with
    | none => exact hearly (by rw [hadapter, hidentifier]; rfl)
    | some identifier =>
      cases haddress : w₂.ask library (.peripheralAddress peripheral) with
      | none => exact hearly (by rw [hadapter, hidentifier, haddress]; rfl)
      | some address =>
        have hsecond : identifier.addr = w.log.length + 1 := by
          obtain ⟨text, -, rfl⟩ := Option.map_eq_some_iff.mp hidentifier
          exact List.length_append
        have hthird : address.addr = w.log.length + 2 := by
          obtain ⟨text, -, rfl⟩ := Option.map_eq_some_iff.mp haddress
          simp [w₁, w₂, BleWorld.called]
        rw [wp_printf_bind, Prog.wp_bind]
        apply Prog.wp_mono (hsave (by rw [hadapter, hidentifier, haddress]; rfl) _)
        intro o u hpost
        obtain ⟨rfl, hfreed⟩ := hpost
        rw [Prog.wp_bind_value, wp_simpleble_bind, wp_simpleble, hsecond, hthird]
        exact hfreed

/-- A complete report offers its handle to the list; an incomplete one is dropped,
its handle neither saved nor released. -/
theorem adapterOnScanFound_wp (library : Library) (adapter peripheral : Handle) {w : BleWorld}
    {b : BoundedStore Handle peripheralListSize} (hw : w.Represents b) :
    (adapterOnScanFound adapter peripheral).Wp (perform library .scanCallback) w (fun o u =>
      if complete library adapter peripheral w then
        o = .value () ∧ u.Represents (b.offer peripheral).1 ∧
          released u.log = released w.log ++ (b.offer peripheral).2
      else o = .returned ∧ u.Represents b ∧ released u.log = released w.log) := by
  have hrel : released (gettersCalled library adapter peripheral w).log = released w.log := by
    simp [gettersCalled, LibCall.releases]
  have hrep : (gettersCalled library adapter peripheral w).Represents b := hw.of_eq rfl rfl
  apply adapterOnScanFound_getters
  · intro hmissing
    rw [hmissing]
    exact ⟨rfl, hrep, hrel⟩
  · intro hgiven line
    have hprinted : ((gettersCalled library adapter peripheral w).printed line).Represents b :=
      hrep.of_eq rfl rfl
    apply Prog.wp_mono (savePeripheral_wp library .scanCallback hprinted peripheral)
    intro o u hpost
    obtain ⟨ho, hu, hur⟩ := hpost
    rw [released_printed, hrel] at hur
    refine ⟨ho, ?_⟩
    rw [if_pos hgiven]
    exact ⟨rfl, hu.of_eq rfl rfl, by simpa [LibCall.releases] using hur⟩

theorem reportAdapter_wp (library : Library) (line : String → Output) (adapter : Handle)
    {w : BleWorld} {b : BoundedStore Handle peripheralListSize} (hw : w.Represents b) :
    (reportAdapter line adapter).Wp (perform library .scanCallback) w (fun o u =>
      o ≠ .faulted ∧ u.Represents b ∧ released u.log = released w.log) := by
  unfold reportAdapter
  rw [wp_simpleble_bind]
  cases w.ask library (.adapterIdentifier adapter) with
  | none =>
    rw [Prog.wp_exit]
    exact ⟨by simp, hw.of_eq rfl rfl, by simp [LibCall.releases]⟩
  | some identifier =>
    rw [wp_printf_bind, wp_simpleble]
    exact ⟨by simp, hw.of_eq rfl rfl, by simp [LibCall.releases]⟩

/-- Every string getter of the scan callbacks answers with a string. -/
structure StringsGiven (library : Library) : Prop where
  adapter : ∀ t a, (library t (.adapterIdentifier a)).isSome
  identifier : ∀ t p, (library t (.peripheralIdentifier p)).isSome
  address : ∀ t p, (library t (.peripheralAddress p)).isSome

theorem StringsGiven.complete {library : Library} (h : StringsGiven library)
    (adapter peripheral : Handle) (w : BleWorld) :
    complete library adapter peripheral w = true := by
  simp only [RCControl.complete, h.adapter, h.identifier, h.address, Bool.and_self]

theorem Surroundings.stringsGiven (env : Surroundings) : StringsGiven env.library :=
  ⟨fun _ _ => rfl, fun _ _ => rfl, fun _ _ => rfl⟩

section Scan
variable (library : Library) (adapter : Handle) {w : BleWorld}
  {b : BoundedStore Handle peripheralListSize}

/-- No callback, whatever the getters answer, breaks the list or is undefined. -/
theorem callback_wp (hw : w.Represents b) (e : ScanEvent) :
    (e.callback adapter).Wp (perform library .scanCallback) w (fun o u =>
      o ≠ .faulted ∧ ∃ c : BoundedStore Handle peripheralListSize, u.Represents c) := by
  -- what a report does to the list does not matter here, only that it is a list again
  cases e with
  | started =>
    apply Prog.wp_mono (reportAdapter_wp library .startedScanning adapter hw)
    intro o u hpost
    obtain ⟨ho, hu, -⟩ := hpost
    exact ⟨ho, b, hu⟩
  | stopped =>
    apply Prog.wp_mono (reportAdapter_wp library .stoppedScanning adapter hw)
    intro o u hpost
    obtain ⟨ho, hu, -⟩ := hpost
    exact ⟨ho, b, hu⟩
  | found peripheral =>
    apply Prog.wp_mono (adapterOnScanFound_wp library adapter peripheral hw)
    intro o u h
    split at h
    · obtain ⟨rfl, hu, -⟩ := h
      exact ⟨by simp, _, hu⟩
    · obtain ⟨rfl, hu, -⟩ := h
      exact ⟨by simp, b, hu⟩

theorem deliver_represents (hw : w.Represents b) (e : ScanEvent) :
    ∃ c : BoundedStore Handle peripheralListSize, (deliver library adapter w e).Represents c :=
  (callback_wp library adapter hw e).2

theorem deliverAll_represents (hw : w.Represents b) (es : List ScanEvent) :
    ∃ c : BoundedStore Handle peripheralListSize,
      (deliverAll library adapter es w).Represents c := by
  -- callback by callback
  induction es generalizing w b with
  | nil => exact ⟨b, hw⟩
  | cons e es ih =>
    obtain ⟨c, hc⟩ := deliver_represents library adapter hw e
    exact ih hc

/-- The handles of the reports for which the getters answer with strings, asked when the
callbacks before have made their calls. -/
def completeReports (library : Library) (adapter : Handle) :
    BleWorld → List ScanEvent → List Handle
  | _, [] => []
  | w, e :: es => (reported [e]).filter (fun p => complete library adapter p w) ++
      completeReports library adapter (deliver library adapter w e) es

/-- Whatever the getters answer, a sequence of callbacks is the abstract sequence of
offers of its complete reports, and the handles turned away are the ones it releases. -/
theorem deliverAll_offers (hw : w.Represents b) (es : List ScanEvent) :
    (deliverAll library adapter es w).Represents
        (b.offerAll (completeReports library adapter w es)).1 ∧
      released (deliverAll library adapter es w).log =
        released w.log ++ (b.offerAll (completeReports library adapter w es)).2 := by
  -- each callback is one offer or none
  induction es generalizing w b with
  | nil => exact ⟨hw, by simp [deliverAll, completeReports, BoundedStore.offerAll]⟩
  | cons e es ih =>
    cases e with
    | started =>
      have h := reportAdapter_wp library .startedScanning adapter hw
      have hrest := ih h.2.1
      rw [h.2.2] at hrest
      exact hrest
    | stopped =>
      have h := reportAdapter_wp library .stoppedScanning adapter hw
      have hrest := ih h.2.1
      rw [h.2.2] at hrest
      exact hrest
    | found peripheral =>
      have h := adapterOnScanFound_wp library adapter peripheral hw
      simp only [Prog.Wp] at h
      rw [completeReports]
      by_cases hgiven : complete library adapter peripheral w = true
      · have hone : (reported [.found peripheral]).filter (fun p => complete library adapter p w) =
            [peripheral] := List.filter_cons_of_pos hgiven
        rw [if_pos hgiven] at h
        have hrest := ih h.2.1
        rw [h.2.2, List.append_assoc] at hrest
        rw [hone]
        exact hrest
      · have hnone : (reported [.found peripheral]).filter (fun p => complete library adapter p w) =
            [] := List.filter_cons_of_neg hgiven
        rw [if_neg hgiven] at h
        have hrest := ih h.2.1
        rw [h.2.2] at hrest
        rw [hnone]
        exact hrest

/-- With all strings given every report is complete. -/
theorem completeReports_eq_reported (hstr : StringsGiven library) (w : BleWorld)
    (es : List ScanEvent) : completeReports library adapter w es = reported es := by
  induction es generalizing w with
  | nil => rfl
  | cons e es ih =>
    have hall : (reported [e]).filter (fun p => complete library adapter p w) = reported [e] :=
      List.filter_eq_self.mpr fun p _ => hstr.complete adapter p w
    calc completeReports library adapter w (e :: es)
        = (reported [e]).filter (fun p => complete library adapter p w) ++
            completeReports library adapter (deliver library adapter w e) es := rfl
      _ = reported [e] ++ reported es := by rw [hall, ih]
      _ = reported (e :: es) := List.filterMap_append.symm

/-- With all strings given, a sequence of callbacks is the abstract sequence of
offers, and the handles turned away are the ones it releases. -/
theorem deliverAll_refines (hstr : StringsGiven library) (hw : w.Represents b)
    (es : List ScanEvent) :
    (deliverAll library adapter es w).Represents (b.offerAll (reported es)).1 ∧
      released (deliverAll library adapter es w).log =
        released w.log ++ (b.offerAll (reported es)).2 := by
  have h := deliverAll_offers library adapter hw es
  rw [completeReports_eq_reported library adapter hstr] at h
  exact h

end Scan

/-- At exit the saved handles are released in order, and then the adapter. -/
theorem cleanOnExit_wp (library : Library) {w : BleWorld}
    {b : BoundedStore Handle peripheralListSize} (hw : w.Represents b) :
    cleanOnExit.Wp (perform library .cleanOnExit) w (fun o u =>
      o = .value () ∧ u.Represents b ∧ released u.log = released w.log ++ b.items) := by
  unfold cleanOnExit
  have hprinted : (w.printed .releasing).Represents b := hw.of_eq rfl rfl
  rw [wp_printf_bind, Prog.wp_bind]
  -- after `i` passes the first `i` saved handles have been released
  refine Prog.wp_forBelow (n := b.items.length)
    (fun i _ u => u.Represents b ∧ released u.log = released w.log ++ b.items.take i)
    ?_ ?_ ?_ (by have := b.length_le; omega) (Nat.zero_le _) ⟨hprinted, by simp⟩
  · intro i _ u hpost
    obtain ⟨hu, -⟩ := hpost
    rw [← hu.len]
    rfl
  · intro i _ u hi hpost
    obtain ⟨hu, hur⟩ := hpost
    -- the loop stays inside the array
    have hlt : i < peripheralListSize := Nat.lt_of_lt_of_le hi b.length_le
    have hat : perform library .cleanOnExit (.peripheralListAt i) u = (some b.items[i], u) := by
      simp only [perform, dif_pos hlt, hu.cell i hlt hi]
    rw [wp_access_bind hat, wp_simpleble]
    refine ⟨hu.of_eq rfl rfl, ?_⟩
    rw [released_called, hur, List.take_add_one, List.getElem?_eq_getElem hi, List.append_assoc]
    rfl
  · intro _ u hpost
    obtain ⟨hu, hur⟩ := hpost
    rw [Prog.wp_bind_value, wp_access_bind (a := u.adapter) rfl, wp_simpleble]
    refine ⟨rfl, hu.of_eq rfl rfl, ?_⟩
    rw [released_called, hur, List.take_length]
    simp [LibCall.releases]

/-- Ownership of the reported handles: while the scan runs the list holds the
first ten of them and none of these is released; after the exit handler each
handle ever reported has been released exactly once. -/
theorem handles_released_once (library : Library) (hstr : StringsGiven library)
    (adapter : Handle) (w : BleWorld) (hempty : w.peripheralListLen = 0)
    (hfresh : released w.log = []) (es : List ScanEvent) (hdistinct : (reported es).Nodup) :
    (∀ seen, seen <+: es →
      let u := deliverAll library adapter seen w
      u.peripheralListLen ≤ peripheralListSize ∧
      u.peripheralListLen = min (reported seen).length peripheralListSize ∧
      u.saved = (reported seen).take peripheralListSize ∧
      released u.log = (reported seen).drop peripheralListSize ∧
      ∀ p ∈ u.saved, p ∉ released u.log) ∧
    let exit := cleanOnExit.run (perform library .cleanOnExit)
      (deliverAll library adapter es w)
    exit.1 = .value () ∧
      released exit.2.log = (reported es).drop peripheralListSize ++
        (reported es).take peripheralListSize ∧
      ∀ p ∈ reported es, (released exit.2.log).count p = 1 := by
  let b := BoundedStore.empty Handle peripheralListSize
  have hw : w.Represents b := ⟨hempty, fun i _ hi => absurd hi (Nat.not_lt_zero i)⟩
  -- both parts rest on the state of the list after any part of the scan
  have hscan (seen : List ScanEvent) :
      (deliverAll library adapter seen w).Represents (b.offerAll (reported seen)).1 ∧
      released (deliverAll library adapter seen w).log =
        (reported seen).drop peripheralListSize := by
    have h := deliverAll_refines library adapter hstr hw seen
    rw [BoundedStore.offerAll_turnedAway, hfresh] at h
    exact h
  have hitems (seen : List ScanEvent) :
      (b.offerAll (reported seen)).1.items = (reported seen).take peripheralListSize :=
    BoundedStore.offerAll_items b (reported seen)
  constructor
  · intro seen hseen u
    obtain ⟨hrep, hrel⟩ := hscan seen
    have hlen : u.peripheralListLen = min (reported seen).length peripheralListSize := by
      rw [hrep.len, hitems, List.length_take, Nat.min_comm]
    have hsaved : u.saved = (reported seen).take peripheralListSize := by
      rw [hrep.saved_eq, hitems]
    refine ⟨hlen ▸ Nat.min_le_right _ _, hlen, hsaved, hrel, ?_⟩
    intro p hp hpr
    rw [hsaved] at hp
    rw [hrel] at hpr
    have hnd : (reported seen).Nodup := hdistinct.sublist (hseen.sublist.filterMap _)
    -- distinct reports, so nothing is both kept and turned away
    rw [← List.take_append_drop peripheralListSize (reported seen)] at hnd
    exact (List.nodup_append.mp hnd).2.2 p hp p hpr rfl
  · intro exit
    obtain ⟨hrep, hrel⟩ := hscan es
    obtain ⟨hout, -, hexit⟩ := cleanOnExit_wp library hrep
    rw [hrel, hitems] at hexit
    refine ⟨hout, hexit, ?_⟩
    intro p hp
    -- those turned away and those kept make up the reports
    calc (released exit.2.log).count p
        = ((reported es).drop peripheralListSize ++
            (reported es).take peripheralListSize).count p := by rw [hexit]
      _ = ((reported es).take peripheralListSize ++
            (reported es).drop peripheralListSize).count p := by
          rw [List.count_append, Nat.add_comm, ← List.count_append]
      _ = (reported es).count p := by rw [List.take_append_drop]
      _ = 1 := List.count_eq_one_of_mem hdistinct hp

theorem twelve_headsets_released_once :
    let exit := cleanOnExit.run (perform headsetRoom.library .cleanOnExit)
      (deliverAll headsetRoom.library 7 ((List.range' 1 12).map .found) .initial)
    exit.1 = .value () ∧ released exit.2.log = [11, 12, 1, 2, 3, 4, 5, 6, 7, 8, 9, 10] ∧
      ∀ p ∈ List.range' 1 12, (released exit.2.log).count p = 1 :=
  (handles_released_once headsetRoom.library headsetRoom.stringsGiven 7 .initial rfl rfl
    ((List.range' 1 12).map .found) (by decide)).2

end RCControl
