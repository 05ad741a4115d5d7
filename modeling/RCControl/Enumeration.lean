import RCControl.Footprint

/-! The service enumeration of `ble_sender`: the nested loops over services,
characteristics and payload bytes. -/
namespace RCControl
open Resumption

/-- The connected peripheral `p` offers `table`, and every call on it with valid
arguments succeeds; a read returns the payload of the characteristic. -/
structure Serves (library : Library) (p : Handle) (table : List Service)
    (payload : String → String → List UInt8) : Prop where
  valid : p ≠ 0
  count : ∀ t, library t (.peripheralServicesCount p) = table.length
  get : ∀ t i, library t (.peripheralServicesGet p i) = table[i]?
  read : ∀ t service characteristic data dataLength,
    library t (.peripheralRead p service characteristic data dataLength) =
      some (payload service characteristic)

/-- The characteristics of a service that the enumeration reads. -/
def Service.targets (service : Service) : List Characteristic :=
  if serviceUuid = service.uuid then
    service.characteristics.filter fun c => characteristicUuid = c.uuid
  else []

/-- The lines that print a payload. -/
def Output.ofPayload : Output → Bool
  | .valueRead _ => true
  | .hexByte _ => true
  | _ => false

/-- What printing the payload of each target in order amounts to. -/
def expectedPayloads (table : List Service) (payload : String → String → List UInt8) :
    List Output :=
  table.flatMap fun service => service.targets.flatMap fun c =>
    .valueRead (payload service.uuid c.uuid).length ::
      (payload service.uuid c.uuid).map .hexByte

/-- The enumeration started in `w` prints exactly the payloads of the targets
and falls through to the send loop. -/
structure EnumerationContract (table : List Service) (payload : String → String → List UInt8)
    (w : BleWorld) (o : Outcome Unit) (u : BleWorld) : Prop where
  reaches_loop : o = .value ()
  prints : u.stdout.filter Output.ofPayload =
    w.stdout.filter Output.ofPayload ++ expectedPayloads table payload

/-- Whether a service has a characteristic with `CHARACTERISTIC_UUID`. -/
def Service.OffersCharacteristic (service : Service) : Prop :=
  ∃ c ∈ service.characteristics, characteristicUuid = c.uuid

theorem Service.targets_eq_nil_iff (service : Service) :
    service.targets = [] ↔ ¬(serviceUuid = service.uuid ∧ service.OffersCharacteristic) := by
  unfold Service.targets Service.OffersCharacteristic
  by_cases hname : serviceUuid = service.uuid
  · simp [hname]
  · simp [hname]

theorem mem_take_succ_iff {α : Type} {xs : List α} {i : ℕ} {x : α} (hi : i < xs.length) :
    x ∈ xs.take (i + 1) ↔ x ∈ xs.take i ∨ x = xs[i] := by
  rw [List.take_add_one, List.getElem?_eq_getElem hi, Option.toList_some, List.mem_append,
    List.mem_singleton]

theorem forall_mem_take_succ {α : Type} {P : α → Prop} {xs : List α} {i : ℕ} (hi : i < xs.length) :
    (∀ x ∈ xs.take (i + 1), P x) ↔ (∀ x ∈ xs.take i, P x) ∧ P xs[i] := by
  simp only [mem_take_succ_iff hi, or_imp, forall_and, forall_eq]

/-- Two worlds that differ in the output at most, as far as the enumeration goes. -/
structure OnlyPrinted (w u : BleWorld) : Prop where
  log : u.log = w.log
  serviceNb : u.serviceNb = w.serviceNb
  characNb : u.characNb = w.characNb

/-- What the listing of some characteristics does to `charac_nb`. -/
structure Listed (characteristics : List Characteristic) (before after : ℤ) : Prop where
  offered : (∃ c ∈ characteristics, characteristicUuid = c.uuid) → ∃ j : ℕ, after = j
  unchanged : (∀ c ∈ characteristics, characteristicUuid ≠ c.uuid) → after = before

/-- A pass of the service loop that got past `service`, the `i`-th: one call was
made, and the two indices are set under different tests. -/
structure Passed (service : Service) (i : ℕ) (w u : BleWorld) : Prop where
  calls : u.log.length = w.log.length + 1
  serviceNb : u.serviceNb = if serviceUuid = service.uuid then (i : ℤ) else w.serviceNb
  characNb : Listed service.characteristics w.characNb u.characNb

/-- How the enumeration ends `ble_sender`. -/
def ReturnsEarly (o : Outcome Unit) (u : BleWorld) : Prop :=
  o = .returned ∧ ∃ out, u.stdout = out ++ [.failedToGetService] ∨
    u.stdout = out ++ [.readError .failure]

section Loops
variable {library : Library} {w : BleWorld} {p : Handle}

theorem printCharacteristic_wp (c : Characteristic) :
    (printCharacteristic c).Wp (perform library .bleSender) w (fun o u =>
      o = .value () ∧ OnlyPrinted w u) := by
  have hframe : OnlyPrinted w ((printCharacteristic c).run (perform library .bleSender) w).2 :=
    ⟨frame_quiet (printCharacteristic_only c) library .bleSender w,
      frame_global (printCharacteristic_only c) library .bleSender w .serviceNb List.not_mem_nil,
      frame_global (printCharacteristic_only c) library .bleSender w .characNb List.not_mem_nil⟩
  refine ⟨?_, hframe⟩
  change (printCharacteristic c).Wp (perform library .bleSender) w (fun o _ => o = .value ())
  unfold printCharacteristic
  rw [wp_printf_bind]
  -- what it prints does not matter, only that no access is out of range
  refine Prog.wp_forBelow (n := c.descriptors.length) (fun _ _ _ => True) (fun _ _ _ _ => rfl)
    ?_ (fun _ _ _ => rfl) (by omega) (Nat.zero_le _) trivial
  intro k _ u hk _
  rw [Prog.wp_bind, Prog.wp_index (List.getElem?_eq_getElem hk)]
  trivial

theorem listBody_wp {service : Service} {j : ℕ} (hj : j < service.characteristics.length) :
    (listBody service j).Wp (perform library .bleSender) w (fun o u => o = .value () ∧
      u.characNb = if characteristicUuid = service.characteristics[j].uuid then (j : ℤ)
        else w.characNb) := by
  unfold listBody
  rw [Prog.wp_bind, Prog.wp_index (List.getElem?_eq_getElem hj), Prog.wp_bind_value]
  -- the store of `charac_nb`, made before the lines are printed
  split_ifs
  · rw [wp_access_bind rfl, wp_printf_bind]
    apply Prog.wp_mono (printCharacteristic_wp _)
    intro o u h
    exact ⟨h.1, h.2.characNb⟩
  · apply Prog.wp_mono (printCharacteristic_wp _)
    intro o u h
    exact ⟨h.1, h.2.characNb⟩

/-- The listing of a service always falls through, and sets `charac_nb` whatever the
service is. -/
theorem listService_wp (service : Service) :
    (listService service).Wp (perform library .bleSender) w (fun o u => o = .value () ∧
      u.log = w.log ∧ u.serviceNb = w.serviceNb ∧
      Listed service.characteristics w.characNb u.characNb) := by
  have hlog := frame_quiet (listService_only service) library .bleSender w
  have hserviceNb := frame_global (listService_only service) library .bleSender w .serviceNb
    (by decide)
  -- after `j` passes the first `j` characteristics have been listed
  have hloop : (listService service).Wp (perform library .bleSender) w (fun o u =>
      o = .value () ∧ Listed service.characteristics w.characNb u.characNb) := by
    unfold listService
    rw [wp_printf_bind]
    refine Prog.wp_forBelow (n := service.characteristics.length)
      (fun j _ (u : BleWorld) => Listed (service.characteristics.take j) w.characNb u.characNb)
      (fun _ _ _ _ => rfl) ?_ ?_ (by omega) (Nat.zero_le _) ⟨by simp, fun _ => rfl⟩
    · intro j _ u hj hbefore
      apply Prog.wp_mono (listBody_wp hj)
      intro o v hpost
      obtain ⟨rfl, hv⟩ := hpost
      -- the latest match wins, and without any the old value stands
      by_cases htarget : characteristicUuid = service.characteristics[j].uuid
      · rw [if_pos htarget] at hv
        refine ⟨fun _ => ⟨j, hv⟩, fun hnone => ?_⟩
        exact absurd htarget ((forall_mem_take_succ hj).mp hnone).2
      · rw [if_neg htarget] at hv
        refine ⟨?_, ?_⟩
        · intro hpost
          obtain ⟨c, hc, huuid⟩ := hpost
          rw [hv]
          apply hbefore.offered
          obtain hc | rfl := (mem_take_succ_iff hj).mp hc
          · exact ⟨c, hc, huuid⟩
          · exact absurd huuid htarget
        · intro hnone
          rw [hv]
          exact hbefore.unchanged ((forall_mem_take_succ hj).mp hnone).1
    · intro _ u h
      rw [List.take_length] at h
      exact ⟨rfl, h⟩
  exact ⟨hloop.1, hlog, hserviceNb, hloop.2⟩

/-- A read with two null pointers fails in the wrapper, whatever the device
would have answered, and the failure ends `ble_sender`. -/
theorem readCharacteristic_null_wp {service : Service} {j : ℕ} (hnb : w.characNb = j)
    (hj : j < service.characteristics.length) :
    (readCharacteristic p service none none).Wp (perform library .bleSender) w (fun o u =>
      o = .returned ∧ u.stdout = w.stdout ++ [.readError .failure]) := by
  have hload : perform library .bleSender .loadCharacNb w = (some (j : ℤ), w) := by
    simp only [perform, hnb]
  have hindex : service.characteristics[(j : ℤ).toNat]? = some service.characteristics[j] := by
    rw [Int.toNat_natCast, List.getElem?_eq_getElem hj]
  unfold readCharacteristic
  rw [wp_access_bind hload, Prog.wp_bind, Prog.wp_index hindex, Prog.wp_bind_value,
    wp_simpleble_bind]
  exact ⟨rfl, rfl⟩

theorem readBody_wp {service : Service} {j : ℕ} (hj : j < service.characteristics.length) :
    (readBody p service j).Wp (perform library .bleSender) w (fun o u =>
      if characteristicUuid = service.characteristics[j].uuid then ReturnsEarly o u
      else o = .value () ∧ OnlyPrinted w u) := by
  unfold readBody
  rw [Prog.wp_bind, Prog.wp_index (List.getElem?_eq_getElem hj), Prog.wp_bind_value]
  split_ifs with htarget
  -- the index is stored, and the read it is used for fails
  · rw [wp_access_bind rfl, Prog.wp_bind]
    apply Prog.wp_mono (readCharacteristic_null_wp rfl hj)
    intro o u hpost
    obtain ⟨rfl, hu⟩ := hpost
    exact ⟨rfl, _, Or.inr hu⟩
  · exact printCharacteristic_wp _

theorem readService_wp (service : Service) (i : ℕ) (hname : serviceUuid = service.uuid) :
    (readService p service i).Wp (perform library .bleSender) w (fun o u =>
      if service.targets = [] then o = .value () ∧ u.log = w.log ∧ u.serviceNb = i ∧
        u.characNb = w.characNb
      else ReturnsEarly o u) := by
  -- the loop has survived `j` passes exactly if none of them met a target
  let untargeted (j : ℕ) : Prop := ∀ c ∈ service.characteristics.take j, characteristicUuid ≠ c.uuid
  have htargets : service.targets = [] ↔ untargeted service.characteristics.length := by
    simp only [Service.targets, if_pos hname, untargeted, List.take_length,
      List.filter_eq_nil_iff, decide_eq_true_eq, ne_eq]
  unfold readService
  rw [wp_access_bind rfl, wp_printf_bind]
  refine Prog.wp_forBelow (n := service.characteristics.length)
    (fun j _ (u : BleWorld) => untargeted j ∧ u.log = w.log ∧ u.serviceNb = i ∧
      u.characNb = w.characNb)
    (fun _ _ _ _ => rfl) ?_ ?_ (by omega) (Nat.zero_le _)
    ⟨by simp [untargeted], rfl, rfl, rfl⟩
  · intro j _ u hj hpost
    obtain ⟨hbefore, hlog, hserviceNb, hcharacNb⟩ := hpost
    apply Prog.wp_mono (readBody_wp hj)
    intro o v h
    by_cases htarget : characteristicUuid = service.characteristics[j].uuid
    -- this pass does not come back
    · have hne : service.targets ≠ [] := by
        rw [Ne, htargets]
        intro hall
        exact hall service.characteristics[j] (by simp) htarget
      rw [if_pos htarget] at h
      obtain ⟨rfl, hout⟩ := h
      rw [if_neg hne]
      exact ⟨rfl, hout⟩
    · rw [if_neg htarget] at h
      obtain ⟨rfl, hprinted⟩ := h
      exact ⟨(forall_mem_take_succ hj).mpr ⟨hbefore, htarget⟩, hprinted.log.trans hlog,
        hprinted.serviceNb.trans hserviceNb, hprinted.characNb.trans hcharacNb⟩
  · intro _ u hpost
    obtain ⟨hall, hsame⟩ := hpost
    rw [if_pos (htargets.mpr hall)]
    exact ⟨rfl, hsame⟩

theorem serviceBody_passes {i : ℕ} {service : Service}
    (hget : library w.log.length (.peripheralServicesGet p i) = some service)
    (hnone : service.targets = []) :
    (serviceBody p i).Wp (perform library .bleSender) w (fun o u =>
      o = .value () ∧ Passed service i w u) := by
  have hask : w.ask library (.peripheralServicesGet p i) = some service := by
    simp only [BleWorld.ask, LibCall.answer, hget]
  unfold serviceBody
  rw [wp_simpleble_bind, hask]
  dsimp only
  -- only the service with the right UUID is read, every service is listed
  by_cases hname : serviceUuid = service.uuid
  · rw [if_pos hname, Prog.wp_bind]
    apply Prog.wp_mono (readService_wp service i hname)
    intro o u h
    rw [if_pos hnone] at h
    obtain ⟨rfl, hlog, hserviceNb, hcharacNb⟩ := h
    -- the listing runs after the reading and leaves `service_nb` as that has set it
    rw [Prog.wp_bind_value]
    apply Prog.wp_mono (listService_wp service)
    intro o v hpost
    obtain ⟨ho, hlog', hserviceNb', hlisted⟩ := hpost
    refine ⟨ho, ?_, ?_, ?_⟩
    · rw [hlog', hlog]
      exact List.length_append
    · rw [hserviceNb', hserviceNb, if_pos hname]
    · rw [hcharacNb] at hlisted
      exact hlisted
  · rw [if_neg hname]
    apply Prog.wp_mono (listService_wp service)
    intro o v hpost
    obtain ⟨ho, hlog, hserviceNb, hlisted⟩ := hpost
    refine ⟨ho, ?_, ?_, hlisted⟩
    · rw [hlog]
      exact List.length_append
    · rw [hserviceNb, if_neg hname]
      rfl

theorem serviceBody_returns {i : ℕ}
    (hget : ∀ service, library w.log.length (.peripheralServicesGet p i) = some service →
      service.targets ≠ []) :
    (serviceBody p i).Wp (perform library .bleSender) w ReturnsEarly := by
  have hask : w.ask library (.peripheralServicesGet p i) =
      library w.log.length (.peripheralServicesGet p i) := by
    simp only [BleWorld.ask, LibCall.answer]
  unfold serviceBody
  rw [wp_simpleble_bind, hask]
  generalize library w.log.length (.peripheralServicesGet p i) = answer at hget
  cases answer with
  -- `simpleble_peripheral_services_get` fails
  | none => exact ⟨rfl, _, Or.inl rfl⟩
  | some service =>
    have hsome := hget service rfl
    -- only a service that is read can have a target
    have hname : serviceUuid = service.uuid := by
      by_contra hname
      exact hsome (by simp only [Service.targets, if_neg hname])
    dsimp only
    rw [if_pos hname, Prog.wp_bind]
    apply Prog.wp_mono (readService_wp service i hname)
    intro o u h
    rw [if_neg hsome] at h
    obtain ⟨rfl, hout⟩ := h
    exact ⟨rfl, hout⟩

/-- From call number `t` on, the library gives the enumeration of `p` every service
it asks for, and none of them has a target. -/
def PassesAll (library : Library) (p : Handle) (t : ℕ) : Prop :=
  ∀ i < library t (.peripheralServicesCount p), ∃ service,
    library (t + 1 + i) (.peripheralServicesGet p i) = some service ∧ service.targets = []

/-- The enumeration falls through to the send loop if it gets past every service,
and otherwise ends the function. -/
theorem enumerateServices_wp (library : Library) (w : BleWorld) (p : Handle) :
    (enumerateServices p).Wp (perform library .bleSender) w (fun o u =>
      (PassesAll library p w.log.length → o = .value ()) ∧
      (¬PassesAll library p w.log.length → ReturnsEarly o u)) := by
  have hask : w.ask library (.peripheralServicesCount p) =
      library w.log.length (.peripheralServicesCount p) := by
    simp only [BleWorld.ask, LibCall.answer]
  unfold enumerateServices
  rw [wp_simpleble_bind, hask, wp_printf_bind]
  -- each pass that is completed has made one call
  refine Prog.wp_forBelow (n := library w.log.length (.peripheralServicesCount p))
    (fun i _ (u : BleWorld) => u.log.length = w.log.length + 1 + i ∧
      ∀ k < i, ∃ service, library (w.log.length + 1 + k) (.peripheralServicesGet p k) =
        some service ∧ service.targets = [])
    (fun _ _ _ _ => rfl) ?_ ?_ (by omega) (Nat.zero_le _) ⟨List.length_append, by simp⟩
  · intro i _ u hi hpost
    obtain ⟨hlength, hbefore⟩ := hpost
    by_cases hpass : ∃ service, library (w.log.length + 1 + i) (.peripheralServicesGet p i) =
        some service ∧ service.targets = []
    -- the numbers of the calls still to come follow from those made
    · obtain ⟨service, hget, hnone⟩ := hpass
      rw [← hlength] at hget
      apply Prog.wp_mono (serviceBody_passes hget hnone)
      intro o v hpost
      obtain ⟨rfl, hpassed⟩ := hpost
      refine ⟨by rw [hpassed.calls, hlength]; omega, ?_⟩
      intro k hk
      obtain hk | rfl := Nat.lt_succ_iff_lt_or_eq.mp hk
      · exact hbefore k hk
      · exact ⟨service, by rw [← hlength]; exact hget, hnone⟩
    -- the first pass that does not get past its service
    · have hfails : ¬PassesAll library p w.log.length := fun hall => hpass (hall i hi)
      have hget : ∀ service, library u.log.length (.peripheralServicesGet p i) = some service →
          service.targets ≠ [] := by
        rw [hlength]
        intro service hget hnone
        exact hpass ⟨service, hget, hnone⟩
      apply Prog.wp_mono (serviceBody_returns hget)
      intro o v hpost
      obtain ⟨rfl, hout⟩ := hpost
      exact ⟨fun hall => absurd hall hfails, fun _ => ⟨rfl, hout⟩⟩
  · intro _ u hpost
    obtain ⟨-, hall⟩ := hpost
    exact ⟨fun _ => rfl, fun hnot => absurd hall hnot⟩

end Loops

theorem Serves.passesAll_iff {library : Library} {p : Handle} {table : List Service}
    {payload : String → String → List UInt8} (hserves : Serves library p table payload) (t : ℕ) :
    PassesAll library p t ↔ ∀ service ∈ table, service.targets = [] := by
  unfold PassesAll
  simp only [hserves.count, hserves.get]
  -- the services asked for are the places of the table
  constructor
  · intro hall service hmem
    obtain ⟨i, hi, rfl⟩ := List.getElem_of_mem hmem
    obtain ⟨service', hget, hnone⟩ := hall i hi
    rw [List.getElem?_eq_getElem hi] at hget
    rw [Option.some.inj hget]
    exact hnone
  · intro hall i hi
    exact ⟨table[i], List.getElem?_eq_getElem hi, hall _ (List.getElem_mem hi)⟩

theorem enumerateServices_returns {library : Library} {p : Handle} {table : List Service}
    {payload : String → String → List UInt8} (hserves : Serves library p table payload)
    (w : BleWorld) (htarget : ∃ service ∈ table, serviceUuid = service.uuid ∧
      ∃ c ∈ service.characteristics, characteristicUuid = c.uuid) :
    ((enumerateServices p).run (perform library .bleSender) w).1 = .returned := by
  obtain ⟨service, hmem, hname, hoffers⟩ := htarget
  have hstops : ¬PassesAll library p w.log.length := by
    rw [hserves.passesAll_iff]
    intro hall
    exact service.targets_eq_nil_iff.mp (hall service hmem) ⟨hname, hoffers⟩
  exact ((enumerateServices_wp library w p).2 hstops).1

/-- On a table with a target the enumeration never does what it promises. -/
theorem enumerationContract_never (library : Library) (p : Handle) (table : List Service)
    (payload : String → String → List UInt8) (hserves : Serves library p table payload)
    (w : BleWorld) (htarget : ∃ service ∈ table, serviceUuid = service.uuid ∧
      ∃ c ∈ service.characteristics, characteristicUuid = c.uuid) :
    ¬EnumerationContract table payload w
      ((enumerateServices p).run (perform library .bleSender) w).1
      ((enumerateServices p).run (perform library .bleSender) w).2 := by
  intro hcontract
  have hloop := hcontract.reaches_loop
  rw [enumerateServices_returns hserves w htarget] at hloop
  cases hloop

/-- The service of `ESP32_code.ino`: one readable characteristic with value "4". -/
def esp32Service : Service where
  uuid := serviceUuid
  characteristics := [⟨characteristicUuid, [], by decide⟩]
  characteristic_count_le := by decide

def esp32Payload : String → String → List UInt8 := fun _ _ => [0x34]

/-- The room with that service behind every handle. -/
def esp32Room : Surroundings :=
  { headsetRoom with services := fun _ => [esp32Service], payload := fun _ => esp32Payload }

theorem esp32Room_serves : Serves esp32Room.library 11 [esp32Service] esp32Payload where
  valid := by decide
  count _ := rfl
  get _ _ := rfl
  read _ _ _ _ _ := rfl

theorem enumerationContract_never_in_esp32Room :
    ¬EnumerationContract [esp32Service] esp32Payload .initial
      ((enumerateServices 11).run (perform esp32Room.library .bleSender) .initial).1
      ((enumerateServices 11).run (perform esp32Room.library .bleSender) .initial).2 :=
  enumerationContract_never esp32Room.library 11 [esp32Service] esp32Payload esp32Room_serves
    .initial ⟨esp32Service, by simp, rfl, ⟨characteristicUuid, [], by decide⟩,
      by simp [esp32Service], rfl⟩

/-- The board itself: the enumeration returns instead of printing 34. -/
theorem enumeration_returns_on_esp32 :
    ((enumerateServices 11).run (perform esp32Room.library .bleSender) .initial).1 = .returned ∧
      ¬EnumerationContract [esp32Service] esp32Payload .initial
        ((enumerateServices 11).run (perform esp32Room.library .bleSender) .initial).1
        ((enumerateServices 11).run (perform esp32Room.library .bleSender) .initial).2 := by
  have hout : ((enumerateServices 11).run (perform esp32Room.library .bleSender)
      .initial).1 = .returned := by decide
  refine ⟨hout, fun hcontract => ?_⟩
  have hloop := hcontract.reaches_loop
  rw [hout] at hloop
  cases hloop

end RCControl
