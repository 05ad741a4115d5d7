import RCControl.Enumeration
import RCControl.MapOption
import Mathlib.Data.List.Basic
import Mathlib.Data.Option.Basic

/-! The services of a device: the objects below it on the bus, the list `PeripheralLinux`
makes of them, the copies the C interface hands out, and the objects the UUIDs of a
request lead back to. -/
namespace RCControl
open Resumption MapOption

/-- A characteristic object. The UUIDs are those of the interfaces of the object and of
its descriptors, `none` where the interface is not there. -/
structure GattCharacteristic where
  uuid : Option String
  flags : List String
  descriptors : List (Option String)
deriving Repr

structure GattService where
  uuid : Option String
  characteristics : List GattCharacteristic
deriving Repr

/-- A device object: what `is_connected` says, its service objects, the level of its
`Battery1` interface if it has one, and the UUIDs it advertises. -/
structure GattDevice where
  connected : Bool
  services : List GattService
  batteryPercentage : Option UInt8
  uuids : List String
deriving Repr

/-- `CharacteristicBase`. -/
structure CharacteristicBase where
  uuid : String
  descriptors : List String
  canRead : Bool
  canWriteRequest : Bool
  canWriteCommand : Bool
  canNotify : Bool
  canIndicate : Bool
deriving DecidableEq, Repr

/-- `ServiceBase`. -/
structure ServiceBase where
  uuid : String
  characteristics : List CharacteristicBase
deriving DecidableEq, Repr

def batteryServiceUuid : String := "0000180f-0000-1000-8000-00805f9b34fb"

def batteryCharacteristicUuid : String := "00002a19-0000-1000-8000-00805f9b34fb"

/-- The body of the loop over characteristics; `none` is an exception. -/
def GattCharacteristic.list (c : GattCharacteristic) : Option CharacteristicBase := do
  let descriptors ← c.descriptors.mapM id
  let uuid ← c.uuid
  return {
    uuid := uuid
    descriptors := descriptors
    canRead := c.flags.contains "read"
    canWriteRequest := c.flags.contains "write"
    canWriteCommand := c.flags.contains "write-without-response"
    canNotify := c.flags.contains "notify"
    canIndicate := c.flags.contains "indicate" }

/-- The body of the loop over services. -/
def GattService.list (s : GattService) : Option ServiceBase := do
  let uuid ← s.uuid
  let characteristics ← s.characteristics.mapM GattCharacteristic.list
  return ⟨uuid, characteristics⟩

/-- The battery service as it is emulated through `Battery1`. -/
def emulatedBattery : ServiceBase where
  uuid := batteryServiceUuid
  characteristics := [⟨batteryCharacteristicUuid, [], true, false, false, true, false⟩]

namespace GattDevice

def availableServices (d : GattDevice) : Option (List ServiceBase) := do
  let services ← d.services.mapM GattService.list
  if batteryServiceUuid ∉ services.map ServiceBase.uuid ∧ d.batteryPercentage.isSome then
    return services ++ [emulatedBattery]
  else return services

def advertisedServices (d : GattDevice) : List ServiceBase := d.uuids.map (⟨·, []⟩)

/-- `SPeripheral::services` around `Peripheral::services`. -/
def safeServices (d : GattDevice) : Option (List ServiceBase) :=
  if d.connected then d.availableServices else some d.advertisedServices

end GattDevice

/-- The copy of a characteristic in a `simpleble_service_t`. -/
def CharacteristicBase.copy (c : CharacteristicBase) : Characteristic where
  uuid := c.uuid
  descriptors := c.descriptors.take simplebleDescriptorMaxCount
  descriptor_count_le := List.length_take_le _ _

/-- The copy of a service, with as many characteristics as there is room for. -/
def ServiceBase.copy (s : ServiceBase) : Service where
  uuid := s.uuid
  characteristics :=
    (s.characteristics.take simplebleCharacteristicMaxCount).map CharacteristicBase.copy
  characteristic_count_le := by
    rw [List.length_map]
    exact List.length_take_le _ _

/-- `simpleble_peripheral_services_count` on a handle that is not null. -/
def simpleblePeripheralServicesCount (d : GattDevice) : ℕ :=
  match d.safeServices with
  | some services => services.length
  | none => 0

/-- `simpleble_peripheral_services_get` with pointers that are not null; `none` is
`SIMPLEBLE_FAILURE`. -/
def simpleblePeripheralServicesGet (d : GattDevice) (index : ℕ) : Option Service :=
  match d.safeServices with
  | some services => (services[index]?).map ServiceBase.copy
  | none => none

/-- The library answers for the peripheral behind `p` from the device as it is at the
time of the call. -/
structure Backed (library : Library) (p : Handle) (device : ℕ → GattDevice) : Prop where
  count : ∀ t, library t (.peripheralServicesCount p) =
    simpleblePeripheralServicesCount (device t)
  get : ∀ t i, library t (.peripheralServicesGet p i) =
    simpleblePeripheralServicesGet (device t) i

/-- What the enumeration of `scan.c` looks for, as far as it can see. -/
def ServiceBase.Visible (s : ServiceBase) : Prop :=
  s.uuid = serviceUuid ∧
    ∃ c ∈ s.characteristics.take simplebleCharacteristicMaxCount, c.uuid = characteristicUuid

theorem ServiceBase.copy_targets_iff (s : ServiceBase) : s.copy.targets = [] ↔ ¬s.Visible := by
  rw [Service.targets_eq_nil_iff, Service.OffersCharacteristic, ServiceBase.Visible]
  constructor
  · intro h hvisible
    obtain ⟨huuid, c, hc, hcu⟩ := hvisible
    apply h
    exact ⟨huuid.symm, c.copy, List.mem_map_of_mem hc, hcu.symm⟩
  · intro h hcopy
    obtain ⟨huuid, c, hc, hcu⟩ := hcopy
    obtain ⟨c', hc', hcc⟩ := List.mem_map.mp hc
    apply h
    refine ⟨huuid.symm, c', hc', ?_⟩
    rw [← hcc] at hcu
    exact hcu.symm

/-- `ble_sender` gets from the enumeration to its send loop exactly when the device lists
every service it is asked for, and none of them has the characteristic of the remote
control among its first sixteen. -/
theorem reaches_send_loop_iff {library : Library} {p : Handle} {device : ℕ → GattDevice}
    (hbacked : Backed library p device) (w : BleWorld) :
    ((enumerateServices p).run (perform library .bleSender) w).1 = .value () ↔
      ∀ i < simpleblePeripheralServicesCount (device w.log.length), ∃ services service,
        (device (w.log.length + 1 + i)).safeServices = some services ∧
          services[i]? = some service ∧ ¬service.Visible := by
  have hpasses : PassesAll library p w.log.length ↔
      ∀ i < simpleblePeripheralServicesCount (device w.log.length), ∃ services service,
        (device (w.log.length + 1 + i)).safeServices = some services ∧
          services[i]? = some service ∧ ¬service.Visible := by
    rw [PassesAll, hbacked.count]
    apply forall_congr'
    intro i
    apply imp_congr_right
    intro _
    rw [hbacked.get, simpleblePeripheralServicesGet]
    cases hs : (device (w.log.length + 1 + i)).safeServices with
    | none => simp
    | some services =>
      cases hi : services[i]? with
      | none => simp [hi]
      | some service => simp [hi, ServiceBase.copy_targets_iff]
  have hwp := enumerateServices_wp library w p
  rw [← hpasses]
  constructor
  · intro hvalue
    by_contra hnot
    have hreturned := (hwp.2 hnot).1
    rw [hvalue] at hreturned
    cases hreturned
  · exact hwp.1

/-- The room with `device` behind every handle. -/
def libraryOf (env : Surroundings) (device : ℕ → GattDevice) : Library
  | t, .peripheralServicesCount _ => simpleblePeripheralServicesCount (device t)
  | t, .peripheralServicesGet _ i => simpleblePeripheralServicesGet (device t) i
  | t, c => env.library t c

theorem libraryOf_backed (env : Surroundings) (p : Handle) (device : ℕ → GattDevice) :
    Backed (libraryOf env device) p device where
  count _ := rfl
  get _ _ := rfl

/-- The board of `ESP32_code.ino`, out of reach after the first call. -/
def fadingBoard (t : ℕ) : GattDevice where
  connected := t = 0
  services := [⟨some serviceUuid, [⟨some characteristicUuid, ["read"], []⟩]⟩]
  batteryPercentage := none
  uuids := [serviceUuid]

/-- A board that drops out between the count and the first service is taken to have no
characteristic, and the send loop is reached. -/
theorem fadingBoard_reaches_send_loop :
    ((enumerateServices 11).run (perform (libraryOf headsetRoom fadingBoard) .bleSender)
      .initial).1 = .value () := by
  apply (reaches_send_loop_iff (libraryOf_backed headsetRoom 11 fadingBoard) .initial).mpr
  intro i hi
  have hcount : simpleblePeripheralServicesCount (fadingBoard 0) = 1 := by decide
  have hfirst : i < 1 := by
    rw [← hcount]
    exact hi
  obtain rfl : i = 0 := by omega
  refine ⟨[⟨serviceUuid, []⟩], ⟨serviceUuid, []⟩, rfl, rfl, ?_⟩
  intro hvisible
  obtain ⟨-, c, hc, -⟩ := hvisible
  cases hc

/-- The exceptions of a request that names a characteristic. -/
inductive GattError
  | serviceNotFound (uuid : String)
  | characteristicNotFound (uuid : String)
  | interfaceNotFound
deriving DecidableEq, Repr

/-- The loops of `Device::get_service` and `Service::get_characteristic`: the place of the
first object with the UUID. -/
def firstWithUuid (uuid : String) (notFound : GattError) :
    List (Option String) → Except GattError ℕ
  | [] => .error notFound
  | none :: _ => .error .interfaceNotFound
  | some u :: us => if u = uuid then .ok 0 else (firstWithUuid uuid notFound us).map (· + 1)

/-- What a request is answered by: the battery interface, or an object by its place. -/
inductive GattRoute
  | battery (percentage : UInt8)
  | object (service characteristic : ℕ)
deriving DecidableEq, Repr

namespace GattDevice

/-- `_get_characteristic`. -/
def getCharacteristic (d : GattDevice) (service characteristic : String) :
    Except GattError GattRoute := do
  let i ← firstWithUuid service (.serviceNotFound service) (d.services.map GattService.uuid)
  let characteristics := ((d.services[i]?).map GattService.characteristics).getD []
  let j ← firstWithUuid characteristic (.characteristicNotFound characteristic)
    (characteristics.map GattCharacteristic.uuid)
  return .object i j

/-- Where `read` goes. -/
def read (d : GattDevice) (service characteristic : String) : Except GattError GattRoute :=
  match d.batteryPercentage with
  | some percentage =>
    if service = batteryServiceUuid ∧ characteristic = batteryCharacteristicUuid then
      .ok (.battery percentage)
    else d.getCharacteristic service characteristic
  | none => d.getCharacteristic service characteristic

end GattDevice

/-- The first place of a UUID, when no interface is missing. -/
theorem firstWithUuid_eq_ok_iff {uuid : String} {notFound : GattError} {us : List String} {n : ℕ} :
    firstWithUuid uuid notFound (us.map some) = .ok n ↔
      us[n]? = some uuid ∧ uuid ∉ us.take n := by
  induction us generalizing n with
  | nil => simp [firstWithUuid]
  | cons u us ih =>
    rw [List.map_cons, firstWithUuid]
    by_cases hu : u = uuid
    · rw [if_pos hu]
      cases n with
      | zero => simp [hu]
      | succ n => simp [hu]
    · rw [if_neg hu]
      cases n with
      | zero =>
        have hne : ∀ r : Except GattError ℕ, r.map (· + 1) ≠ .ok 0 := by
          intro r
          cases r <;> simp [Except.map]
        simp [hu, hne]
      | succ n =>
        have hmap : ∀ r : Except GattError ℕ, r.map (· + 1) = .ok (n + 1) ↔ r = .ok n := by
          intro r
          cases r <;> simp [Except.map]
        rw [hmap, ih, List.getElem?_cons_succ, List.take_succ_cons, List.mem_cons, not_or]
        exact ⟨fun h => ⟨h.1, Ne.symm hu, h.2⟩, fun h => ⟨h.1, h.2.2⟩⟩

theorem GattCharacteristic.list_uuid {c : GattCharacteristic} {b : CharacteristicBase}
    (h : c.list = some b) : c.uuid = some b.uuid := by
  rw [GattCharacteristic.list] at h
  obtain ⟨descriptors, -, h⟩ := Option.bind_eq_some_iff.mp h
  obtain ⟨uuid, huuid, h⟩ := Option.bind_eq_some_iff.mp h
  rw [huuid, ← Option.some.inj h]

theorem GattService.list_eq {s : GattService} {b : ServiceBase} (h : s.list = some b) :
    s.uuid = some b.uuid ∧
      s.characteristics.map GattCharacteristic.list = b.characteristics.map some := by
  rw [GattService.list] at h
  obtain ⟨uuid, huuid, h⟩ := Option.bind_eq_some_iff.mp h
  obtain ⟨characteristics, hlisted, h⟩ := Option.bind_eq_some_iff.mp h
  rw [huuid, ← Option.some.inj h]
  exact ⟨rfl, mapM_eq_some_iff.mp hlisted⟩

theorem except_bind_eq_ok_iff {ε α β : Type} {x : Except ε α} {f : α → Except ε β} {b : β} :
    (x >>= f) = .ok b ↔ ∃ a, x = .ok a ∧ f a = .ok b := by
  cases x with
  | error e =>
    constructor
    · intro h
      cases h
    · rintro ⟨a, ha, -⟩
      cases ha
  | ok a =>
    constructor
    · intro h
      exact ⟨a, rfl, h⟩
    · rintro ⟨a', ha, hb⟩
      cases ha
      exact hb

/-- The place `_get_characteristic` finds, in terms of the list. -/
theorem getCharacteristic_eq_ok_iff {d : GattDevice} {listed : List ServiceBase}
    (hlisted : d.services.map GattService.list = listed.map some) {s : ServiceBase} {i j : ℕ}
    (hs : listed[i]? = some s) {characteristic : String} :
    d.getCharacteristic s.uuid characteristic = .ok (.object i j) ↔
      s.uuid ∉ (listed.take i).map ServiceBase.uuid ∧
        (s.characteristics.map CharacteristicBase.uuid)[j]? = some characteristic ∧
        characteristic ∉ (s.characteristics.map CharacteristicBase.uuid).take j := by
  have huuids : d.services.map GattService.uuid = (listed.map ServiceBase.uuid).map some := by
    rw [List.map_map]
    exact map_of_mapped hlisted (fun a b h => (GattService.list_eq h).1)
  have hplace : (listed.map ServiceBase.uuid)[i]? = some s.uuid := by
    rw [List.getElem?_map, hs]
    rfl
  -- the objects below the service at place `i`
  have hobjects : ((d.services[i]?.map GattService.characteristics).getD []).map
      GattCharacteristic.uuid = (s.characteristics.map CharacteristicBase.uuid).map some := by
    have hi := congrArg (fun l => l[i]?) hlisted
    simp only [List.getElem?_map, hs, Option.map_some] at hi
    obtain ⟨a, ha, hal⟩ := Option.map_eq_some_iff.mp hi
    rw [ha, List.map_map]
    exact map_of_mapped (GattService.list_eq hal).2 (fun c b h => GattCharacteristic.list_uuid h)
  rw [GattDevice.getCharacteristic, except_bind_eq_ok_iff, huuids]
  simp only [firstWithUuid_eq_ok_iff]
  constructor
  · rintro ⟨i', hi', hrest⟩
    obtain ⟨j', hj', hroute⟩ := except_bind_eq_ok_iff.mp hrest
    cases hroute
    rw [hobjects, firstWithUuid_eq_ok_iff] at hj'
    rw [List.map_take]
    exact ⟨hi'.2, hj'⟩
  · rintro ⟨hbefore, hj⟩
    rw [List.map_take] at hbefore
    refine ⟨i, ⟨hplace, hbefore⟩, ?_⟩
    rw [except_bind_eq_ok_iff]
    refine ⟨j, ?_, rfl⟩
    rw [hobjects, firstWithUuid_eq_ok_iff]
    exact hj

/-- The list is what the objects give, and at most the emulated battery after it. -/
theorem availableServices_eq_some {d : GattDevice} {services : List ServiceBase}
    (h : d.availableServices = some services) :
    ∃ listed, d.services.map GattService.list = listed.map some ∧
      (services = listed ∨ services = listed ++ [emulatedBattery]) := by
  rw [GattDevice.availableServices] at h
  obtain ⟨listed, hlisted, hrest⟩ := Option.bind_eq_some_iff.mp h
  refine ⟨listed, mapM_eq_some_iff.mp hlisted, ?_⟩
  split at hrest
  · exact Or.inr (Option.some.inj hrest).symm
  · exact Or.inl (Option.some.inj hrest).symm

/-- Reading what the list shows at a place reaches the object at that place exactly when
no earlier service and no earlier characteristic of the service has its UUID, and the
battery interface does not answer in its stead. -/
theorem read_listed_iff {d : GattDevice} {services : List ServiceBase}
    (havailable : d.availableServices = some services) {i j : ℕ} (hobject : i < d.services.length)
    {s : ServiceBase} (hs : services[i]? = some s) {c : CharacteristicBase}
    (hc : s.characteristics[j]? = some c) :
    d.read s.uuid c.uuid = .ok (.object i j) ↔
      s.uuid ∉ (services.take i).map ServiceBase.uuid ∧
        c.uuid ∉ (s.characteristics.take j).map CharacteristicBase.uuid ∧
        ¬(d.batteryPercentage.isSome ∧ s.uuid = batteryServiceUuid ∧
          c.uuid = batteryCharacteristicUuid) := by
  obtain ⟨listed, hlisted, hshown⟩ := availableServices_eq_some havailable
  have hlength : d.services.length = listed.length := by
    simpa using congrArg List.length hlisted
  have hi : i < listed.length := by omega
  have hs' : listed[i]? = some s := by
    rcases hshown with rfl | rfl
    · exact hs
    · rwa [List.getElem?_append_left hi] at hs
  have htake : services.take i = listed.take i := by
    rcases hshown with rfl | rfl
    · rfl
    · rw [List.take_append_of_le_length (Nat.le_of_lt hi)]
  have hplace : (s.characteristics.map CharacteristicBase.uuid)[j]? = some c.uuid := by
    rw [List.getElem?_map, hc]
    rfl
  have hget : d.getCharacteristic s.uuid c.uuid = .ok (.object i j) ↔
      s.uuid ∉ (services.take i).map ServiceBase.uuid ∧
        c.uuid ∉ (s.characteristics.take j).map CharacteristicBase.uuid := by
    rw [getCharacteristic_eq_ok_iff hlisted hs', htake, List.map_take (l := s.characteristics)]
    constructor
    · intro h
      exact ⟨h.1, h.2.2⟩
    · intro h
      exact ⟨h.1, hplace, h.2⟩
  rw [GattDevice.read]
  cases hb : d.batteryPercentage with
  | none => simp [hget]
  | some percentage =>
    by_cases hbattery : s.uuid = batteryServiceUuid ∧ c.uuid = batteryCharacteristicUuid
    · simp [hbattery]
    · simp only [if_neg hbattery, hget, Option.isSome_some, true_and]
      constructor
      · intro h
        exact ⟨h.1, h.2, hbattery⟩
      · intro h
        exact ⟨h.1, h.2.1⟩

/-- A device with two services of one UUID, and the battery service once more. -/
def twinDevice : GattDevice where
  connected := true
  services := [⟨some "180a", [⟨some "2a29", ["read"], []⟩]⟩,
    ⟨some "180a", [⟨some "2a24", ["read"], []⟩]⟩,
    ⟨some batteryServiceUuid, [⟨some batteryCharacteristicUuid, ["read", "notify"], []⟩]⟩]
  batteryPercentage := some 80
  uuids := ["180a"]

/-- The second of the twins is shown by the list and out of reach of a request. -/
theorem twinDevice_read :
    twinDevice.read "180a" "2a29" = .ok (.object 0 0) ∧
      twinDevice.read "180a" "2a24" ≠ .ok (.object 1 0) := by
  constructor
  · apply (read_listed_iff (d := twinDevice) (i := 0) (j := 0) rfl (by decide) rfl rfl).mpr
    exact ⟨by decide, by decide, by decide⟩
  · intro hread
    have h := (read_listed_iff (d := twinDevice) (i := 1) (j := 0) rfl (by decide) rfl rfl).mp hread
    exact h.1 (by decide)

end RCControl
