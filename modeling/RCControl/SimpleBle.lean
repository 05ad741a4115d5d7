import RCControl.Resumption
import Mathlib.Data.Int.Notation
import Mathlib.Logic.Function.Basic

/-! The C interface of SimpleBLE as `scan.c` uses it, the C globals of that
file, and the effect of one operation on them. -/
namespace RCControl
open Resumption

/-- A SimpleBLE handle; 0 is `NULL`. -/
abbrev Handle := ℕ

inductive SimplebleErr
  | success
  | failure
deriving DecidableEq, Repr

def simplebleCharacteristicMaxCount : ℕ := 16
def simplebleDescriptorMaxCount : ℕ := 16

/-- `simpleble_characteristic_t`: its UUID and the UUIDs of its descriptors. -/
structure Characteristic where
  uuid : String
  descriptors : List String
  descriptor_count_le : descriptors.length ≤ simplebleDescriptorMaxCount

/-- `simpleble_service_t`; the length of the list is `characteristic_count`. -/
structure Service where
  uuid : String
  characteristics : List Characteristic
  characteristic_count_le : characteristics.length ≤ simplebleCharacteristicMaxCount

/-- A string the library allocated. -/
structure CString where
  addr : ℕ
  text : String
deriving DecidableEq, Repr

/-- The pointers handed to `simpleble_free`. -/
inductive Pointer
  | null
  | string (addr : ℕ)
  | outParameter
deriving DecidableEq, Repr

def Pointer.ofString : Option CString → Pointer
  | none => .null
  | some c => .string c.addr

/-- A `uint8_t**`: null, or a block of buffers of which the first is `*data`. -/
abbrev BufferPtr := Option (Option (List UInt8) × List (Option (List UInt8)))

/-- A `size_t*`: null, or the number it points to. -/
abbrev SizePtr := Option ℕ

/-- The calls of `simpleble_c` that `scan.c` makes, with their arguments. -/
inductive LibCall
  | adapterGetCount
  | adapterGetHandle (index : ℕ)
  | adapterSetCallbackOnScanStart (adapter : Handle)
  | adapterSetCallbackOnScanStop (adapter : Handle)
  | adapterSetCallbackOnScanFound (adapter : Handle)
  | adapterScanFor (adapter : Handle) (timeoutMs : ℕ)
  | adapterIdentifier (adapter : Handle)
  | adapterReleaseHandle (adapter : Handle)
  | peripheralIdentifier (peripheral : Handle)
  | peripheralAddress (peripheral : Handle)
  | peripheralConnect (peripheral : Handle)
  | peripheralDisconnect (peripheral : Handle)
  | peripheralServicesCount (peripheral : Handle)
  | peripheralServicesGet (peripheral : Handle) (index : ℕ)
  | peripheralRead (peripheral : Handle) (service characteristic : String)
      (data : BufferPtr) (dataLength : SizePtr)
  | peripheralReleaseHandle (peripheral : Handle)
  | free (pointer : Pointer)
deriving DecidableEq, Repr

/-- The C wrapper `simpleble_peripheral_read` around the device's answer. -/
def simpleblePeripheralRead (payload : Option (List UInt8)) (handle : Handle)
    (data : BufferPtr) (dataLength : SizePtr) : SimplebleErr × BufferPtr × SizePtr :=
  match data, dataLength with
  | some (_, rest), some _ =>
    -- both out-parameters are left as they were
    if handle = 0 then (.failure, data, dataLength)
    else match payload with
      | none => (.failure, some (none, rest), some 0)
      | some bytes => (.success, some (some bytes, rest), some bytes.length)
  | _, _ => (.failure, data, dataLength)

namespace LibCall

/-- What the library or the device decides when the call is made. For a read it
is the payload the device returns, if it returns one. -/
abbrev Raw : LibCall → Type
  | .adapterGetCount => ℕ
  | .adapterGetHandle _ => Handle
  | .adapterIdentifier _ => Option String
  | .peripheralIdentifier _ => Option String
  | .peripheralAddress _ => Option String
  | .peripheralConnect _ => SimplebleErr
  | .peripheralDisconnect _ => SimplebleErr
  | .peripheralServicesCount _ => ℕ
  | .peripheralServicesGet _ _ => Option Service
  | .peripheralRead _ _ _ _ _ => Option (List UInt8)
  | _ => Unit

/-- What the caller sees of it. -/
abbrev Ans : LibCall → Type
  | .adapterIdentifier _ => Option CString
  | .peripheralIdentifier _ => Option CString
  | .peripheralAddress _ => Option CString
  | .peripheralRead _ _ _ _ _ => SimplebleErr × BufferPtr × SizePtr
  | c => c.Raw

/-- A string is copied into fresh memory, here named after the number of the
call; a read goes through its wrapper. -/
def answer : (c : LibCall) → ℕ → c.Raw → c.Ans
  | .adapterIdentifier _, t, raw => raw.map (CString.mk t)
  | .peripheralIdentifier _, t, raw => raw.map (CString.mk t)
  | .peripheralAddress _, t, raw => raw.map (CString.mk t)
  | .peripheralRead p _ _ data dataLength, _, raw =>
    simpleblePeripheralRead raw p data dataLength
  | .adapterGetCount, _, raw => raw
  | .adapterGetHandle _, _, raw => raw
  | .adapterSetCallbackOnScanStart _, _, raw => raw
  | .adapterSetCallbackOnScanStop _, _, raw => raw
  | .adapterSetCallbackOnScanFound _, _, raw => raw
  | .adapterScanFor _ _, _, raw => raw
  | .adapterReleaseHandle _, _, raw => raw
  | .peripheralConnect _, _, raw => raw
  | .peripheralDisconnect _, _, raw => raw
  | .peripheralServicesCount _, _, raw => raw
  | .peripheralServicesGet _ _, _, raw => raw
  | .peripheralReleaseHandle _, _, raw => raw
  | .free _, _, raw => raw

/-- Whether the answer is neither `NULL` nor a failure. -/
def ok : (c : LibCall) → c.Ans → Bool
  | .adapterGetHandle _, a => a != 0
  | .adapterIdentifier _, a => a.isSome
  | .peripheralIdentifier _, a => a.isSome
  | .peripheralAddress _, a => a.isSome
  | .peripheralConnect _, a => a = .success
  | .peripheralDisconnect _, a => a = .success
  | .peripheralServicesGet _ _, a => a.isSome
  | .peripheralRead _ _ _ _ _, a => a.1 = .success
  | _, _ => true

/-- The adapter a call works on. -/
def onAdapter : LibCall → Option Handle
  | .adapterSetCallbackOnScanStart a | .adapterSetCallbackOnScanStop a
  | .adapterSetCallbackOnScanFound a | .adapterScanFor a _ | .adapterIdentifier a
  | .adapterReleaseHandle a => some a
  | _ => none

/-- The peripheral a call works on. -/
def onPeripheral : LibCall → Option Handle
  | .peripheralIdentifier p | .peripheralAddress p | .peripheralConnect p
  | .peripheralDisconnect p | .peripheralServicesCount p | .peripheralServicesGet p _
  | .peripheralRead p _ _ _ _ | .peripheralReleaseHandle p => some p
  | _ => none

end LibCall

/-- The library: its answer to each call, which may depend on how many calls
were made before. -/
abbrev Library := ℕ → (c : LibCall) → c.Raw

/-- Surroundings in which every call with valid arguments succeeds and every
answer stays the same. -/
structure Surroundings where
  adapter : Handle
  adapterName : String
  identifier : Handle → String
  address : Handle → String
  services : Handle → List Service
  payload : Handle → String → String → List UInt8

def Surroundings.library (env : Surroundings) : Library := fun _ c =>
  match c with
  | .adapterGetCount => 1
  | .adapterGetHandle _ => env.adapter
  | .adapterSetCallbackOnScanStart _ => ()
  | .adapterSetCallbackOnScanStop _ => ()
  | .adapterSetCallbackOnScanFound _ => ()
  | .adapterScanFor _ _ => ()
  | .adapterIdentifier _ => some env.adapterName
  | .adapterReleaseHandle _ => ()
  | .peripheralIdentifier p => some (env.identifier p)
  | .peripheralAddress p => some (env.address p)
  | .peripheralConnect _ => .success
  | .peripheralDisconnect _ => .success
  | .peripheralServicesCount p => (env.services p).length
  | .peripheralServicesGet p i => (env.services p)[i]?
  | .peripheralRead p service characteristic _ _ => some (env.payload p service characteristic)
  | .peripheralReleaseHandle _ => ()
  | .free _ => ()

/-- A room in which handle 11 is the ESP32 and all others are headsets. -/
def headsetRoom : Surroundings where
  adapter := 7
  adapterName := "hci0"
  identifier p := if p = 11 then "ESP32_Control" else "Headset"
  address _ := "00:11:22:33:44:55"
  services _ := []
  payload _ _ _ := []

/-- The lines `scan.c` prints outside the send loop. -/
inductive Output
  | noAdapter
  | devicesFound
  | esp32Found
  | device (i : ℕ) (identifier address : Option String)
  | connectingTo (identifier address : Option String)
  | failedToConnect
  | connected (servicesCount : ℕ)
  | failedToGetService
  | goodService
  | readError (err : SimplebleErr)
  | valueRead (length : ℕ)
  | hexByte (b : UInt8)
  | newline
  | goodCharac
  | characteristic (uuid : String) (descriptorCount : ℕ)
  | descriptor (uuid : String)
  | service (uuid : String) (characteristicCount : ℕ)
  | releasing
  | startedScanning (adapter : String)
  | stoppedScanning (adapter : String)
  | foundDevice (adapter identifier address : String)
deriving DecidableEq, Repr

/-- `PERIPHERAL_LIST_SIZE`. -/
def peripheralListSize : ℕ := 10

/-- The code a library call comes from. -/
inductive Caller
  | bleSender
  | scanCallback
  | cleanOnExit
deriving DecidableEq, Repr

/-- One library call of the history; `ok` is false for `NULL` or a failure. -/
structure LogEntry where
  caller : Caller
  call : LibCall
  ok : Bool
deriving DecidableEq, Repr

/-- The globals of `scan.c`, its output and the history of its library calls.
`selections` keeps each `selection` used as an index into `peripheral_list`. -/
structure BleWorld where
  peripheralList : Fin peripheralListSize → Handle
  peripheralListLen : ℕ
  adapter : Handle
  serviceNb : ℤ
  characNb : ℤ
  exitHandler : Bool
  stdout : List Output
  selections : List ℤ
  log : List LogEntry

/-- The static initialisers. -/
def BleWorld.initial : BleWorld where
  peripheralList _ := 0
  peripheralListLen := 0
  adapter := 0
  serviceNb := -1
  characNb := -1
  exitHandler := false
  stdout := []
  selections := []
  log := []

/-- The operations of `scan.c`: accesses to its globals, its output, its
registration with `atexit`, and its library calls. -/
inductive BleOp
  | peripheralListLen
  | peripheralListAt (i : ℕ)
  | peripheralListSelected (selection : ℤ)
  | peripheralListPush (peripheral : Handle)
  | loadAdapter
  | storeAdapter (adapter : Handle)
  | storeServiceNb (i : ℕ)
  | storeCharacNb (j : ℕ)
  | loadCharacNb
  | atexitCleanOnExit
  | printf (line : Output)
  | lib (c : LibCall)

abbrev BleOp.Ans : BleOp → Type
  | .peripheralListLen => ℕ
  | .peripheralListAt _ => Handle
  | .peripheralListSelected _ => Handle
  | .loadAdapter => Handle
  | .loadCharacNb => ℤ
  | .lib c => c.Ans
  | _ => Unit

namespace BleWorld

/-- The answer to a call made now. -/
def ask (library : Library) (c : LibCall) (w : BleWorld) : c.Ans :=
  c.answer w.log.length (library w.log.length c)

/-- The world after that call. -/
def called (library : Library) (caller : Caller) (c : LibCall) (w : BleWorld) : BleWorld :=
  { w with log := w.log ++ [⟨caller, c, c.ok (w.ask library c)⟩] }

def printed (line : Output) (w : BleWorld) : BleWorld :=
  { w with stdout := w.stdout ++ [line] }

/-- The world after `selection` was used as an index. -/
def selected (selection : ℤ) (w : BleWorld) : BleWorld :=
  { w with selections := w.selections ++ [selection] }

end BleWorld

/-- The effect of one operation made by `caller`. An access outside
`peripheral_list` has no answer. -/
def perform (library : Library) (caller : Caller) :
    (o : BleOp) → BleWorld → Option o.Ans × BleWorld
  | .peripheralListLen, w => (some w.peripheralListLen, w)
  | .peripheralListAt i, w =>
    (if h : i < peripheralListSize then some (w.peripheralList ⟨i, h⟩) else none, w)
  | .peripheralListSelected selection, w =>
    (if h : 0 ≤ selection ∧ selection.toNat < peripheralListSize
      then some (w.peripheralList ⟨selection.toNat, h.2⟩) else none, w.selected selection)
  | .peripheralListPush peripheral, w =>
    if h : w.peripheralListLen < peripheralListSize then
      (some (), { w with
        peripheralList := Function.update w.peripheralList ⟨w.peripheralListLen, h⟩ peripheral
        peripheralListLen := w.peripheralListLen + 1 })
    -- a store past the end of the array
    else (none, w)
  | .loadAdapter, w => (some w.adapter, w)
  | .storeAdapter adapter, w => (some (), { w with adapter := adapter })
  | .storeServiceNb i, w => (some (), { w with serviceNb := i })
  | .storeCharacNb j, w => (some (), { w with characNb := j })
  | .loadCharacNb, w => (some w.characNb, w)
  | .atexitCleanOnExit, w => (some (), { w with exitHandler := true })
  | .printf line, w => (some (), w.printed line)
  | .lib c, w => (some (w.ask library c), w.called library caller c)

/-- A fragment of `scan.c`. -/
abbrev BleProg := Prog BleOp.Ans

/-- The call `simpleble_…` with its arguments. -/
abbrev simpleble (c : LibCall) : BleProg c.Ans := Prog.call (BleOp.lib c)

abbrev printf (line : Output) : BleProg Unit := Prog.call (BleOp.printf line)

/-- An access to a global of `scan.c`. -/
abbrev access (o : BleOp) : BleProg o.Ans := Prog.call o

/-- The handles that `f` reads off the calls of a history, in order. -/
def handlesOf (f : LibCall → List Handle) (log : List LogEntry) : List Handle :=
  log.flatMap fun e => f e.call

theorem handlesOf_called (f : LibCall → List Handle) (library : Library)
    (caller : Caller) (c : LibCall) (w : BleWorld) :
    handlesOf f (w.called library caller c).log = handlesOf f w.log ++ f c := by
  simp [BleWorld.called, handlesOf]

def LibCall.releases : LibCall → List Handle
  | .peripheralReleaseHandle peripheral => [peripheral]
  | _ => []

def LibCall.connects : LibCall → List Handle
  | .peripheralConnect peripheral => [peripheral]
  | _ => []

def released : List LogEntry → List Handle := handlesOf LibCall.releases

def connectCalls : List LogEntry → List Handle := handlesOf LibCall.connects

section
variable (library : Library) (caller : Caller) (c : LibCall) (line : Output) (w : BleWorld)

@[simp] theorem released_called :
    released (w.called library caller c).log = released w.log ++ c.releases :=
  handlesOf_called _ library caller c w

@[simp] theorem connectCalls_called :
    connectCalls (w.called library caller c).log = connectCalls w.log ++ c.connects :=
  handlesOf_called _ library caller c w

@[simp] theorem called_selections :
    (w.called library caller c).selections = w.selections := rfl

@[simp] theorem printed_selections : (w.printed line).selections = w.selections := rfl

@[simp] theorem selected_selections (selection : ℤ) :
    (w.selected selection).selections = w.selections ++ [selection] := rfl

@[simp] theorem selected_log (selection : ℤ) : (w.selected selection).log = w.log := rfl

@[simp] theorem released_printed : released (w.printed line).log = released w.log := rfl

@[simp] theorem connectCalls_printed :
    connectCalls (w.printed line).log = connectCalls w.log := rfl

end

section Rules
variable {library : Library} {caller : Caller} {α : Type} {w : BleWorld}
  {Q : Outcome α → BleWorld → Prop}

@[simp] theorem wp_simpleble_bind {c : LibCall} {f : c.Ans → BleProg α} :
    (simpleble c >>= f).Wp (perform library caller) w Q ↔
      (f (w.ask library c)).Wp (perform library caller) (w.called library caller c) Q :=
  Iff.rfl

@[simp] theorem wp_simpleble {c : LibCall} {Q : Outcome c.Ans → BleWorld → Prop} :
    (simpleble c).Wp (perform library caller) w Q ↔
      Q (.value (w.ask library c)) (w.called library caller c) :=
  Iff.rfl

@[simp] theorem wp_printf_bind {line : Output} {f : Unit → BleProg α} :
    (printf line >>= f).Wp (perform library caller) w Q ↔
      (f ()).Wp (perform library caller) (w.printed line) Q :=
  Iff.rfl

theorem wp_access_bind {o : BleOp} {f : o.Ans → BleProg α} {a : o.Ans} {u : BleWorld}
    (h : perform library caller o w = (some a, u)) :
    (access o >>= f).Wp (perform library caller) w Q ↔
      (f a).Wp (perform library caller) u Q :=
  Prog.wp_op h

theorem wp_access {o : BleOp} {a : o.Ans} {u : BleWorld} {Q : Outcome o.Ans → BleWorld → Prop}
    (h : perform library caller o w = (some a, u)) :
    (access o).Wp (perform library caller) w Q ↔ Q (.value a) u :=
  Prog.wp_op h

end Rules
end RCControl
