import RCControl.ScanCallbacks

/-! `ble_sender` up to its send loop: set-up and scan, selection of the
peripheral, connection, enumeration of the services. -/
namespace RCControl
open Resumption

def serviceUuid : String := "12345678-1234-1234-1234-1234567890ab"

def characteristicUuid : String := "0000fff1-0000-1000-8000-00805f9b34fb"

/-- The identifier the ESP32 advertises. -/
def esp32Control : String := "ESP32_Control"

/-- The code before the scan callbacks can arrive. -/
def bleSetup : BleProg Unit := do
  access .atexitCleanOnExit
  let adapterCount ← simpleble .adapterGetCount
  if adapterCount = 0 then do
    printf .noAdapter
    .exit
  else do
    let handle ← simpleble (.adapterGetHandle 0)
    access (.storeAdapter handle)
    -- `adapter` is a global, read back for the test
    let adapter ← access .loadAdapter
    if adapter = 0 then do
      printf .noAdapter
      .exit
    else do
      simpleble (.adapterSetCallbackOnScanStart adapter)
      simpleble (.adapterSetCallbackOnScanStop adapter)
      simpleble (.adapterSetCallbackOnScanFound adapter)
      simpleble (.adapterScanFor adapter 5000)

/-- One pass of the selection loop. `strcmp` on `NULL` is undefined. -/
def selectionBody (i : ℕ) (selection : ℤ) : BleProg ℤ := do
  let peripheral ← access (.peripheralListAt i)
  let peripheralIdentifier ← simpleble (.peripheralIdentifier peripheral)
  let peripheralAddress ← simpleble (.peripheralAddress peripheral)
  match peripheralIdentifier with
  | none => .fault
  | some identifier =>
    if identifier.text = esp32Control then do
      printf .esp32Found
      simpleble (.free (.string identifier.addr))
      simpleble (.free (.ofString peripheralAddress))
      pure (i : ℤ)
    else do
      printf (.device i identifier.text (peripheralAddress.map CString.text))
      simpleble (.free (.string identifier.addr))
      simpleble (.free (.ofString peripheralAddress))
      pure selection

def selectPeripheral : BleProg ℤ := do
  printf .devicesFound
  Prog.forBelow (access .peripheralListLen) selectionBody (peripheralListSize + 1) 0 (-1)

/-- `peripheral_list[selection]` is read without a check of `selection`. -/
def connectPeripheral (selection : ℤ) : BleProg Handle := do
  let peripheral ← access (.peripheralListSelected selection)
  let peripheralIdentifier ← simpleble (.peripheralIdentifier peripheral)
  let peripheralAddress ← simpleble (.peripheralAddress peripheral)
  printf (.connectingTo (peripheralIdentifier.map CString.text)
    (peripheralAddress.map CString.text))
  simpleble (.free (.ofString peripheralIdentifier))
  simpleble (.free (.ofString peripheralAddress))
  let errCode ← simpleble (.peripheralConnect peripheral)
  if errCode = .success then
    pure peripheral
  else do
    printf .failedToConnect
    .exit

def selectAndConnect : BleProg Handle := do
  let selection ← selectPeripheral
  connectPeripheral selection

/-- The dereference `*data_length`. -/
def derefSize : SizePtr → BleProg ℕ
  | none => .fault
  | some n => .done n

/-- The expression `*data[i]`, which is `*(data[i])`: the first byte of the
`i`-th buffer. -/
def derefElement (data : BufferPtr) (i : ℕ) : BleProg UInt8 :=
  match data with
  | none => .fault
  | some (buffer, rest) => do
    match ← Prog.index (buffer :: rest) i with
    | none => .fault
    | some bytes => Prog.index bytes 0

/-- Read the characteristic numbered `charac_nb` into the given out-parameters
and print its payload. -/
def readCharacteristic (peripheral : Handle) (service : Service) (data : BufferPtr)
    (dataLength : SizePtr) : BleProg Unit := do
  let characNb ← access .loadCharacNb
  -- the index is the global `charac_nb`, which the caller has just set
  let characteristic ← Prog.index service.characteristics characNb.toNat
  let (err, data, dataLength) ← simpleble
    (.peripheralRead peripheral service.uuid characteristic.uuid data dataLength)
  if err = .success then do
    let length ← derefSize dataLength
    printf (.valueRead length)
    -- the loop condition reads `*data_length` again on every pass
    Prog.forBelow (derefSize dataLength)
      (fun i _ => do
        let byte ← derefElement data i
        printf (.hexByte byte))
      (length + 1) 0 ()
    printf .newline
    simpleble (.free (if data = none then .null else .outParameter))
  else do
    printf (.readError err)
    .exit

/-- The lines on one characteristic and its descriptors. -/
def printCharacteristic (characteristic : Characteristic) : BleProg Unit := do
  printf (.characteristic characteristic.uuid characteristic.descriptors.length)
  Prog.forBelow (pure characteristic.descriptors.length)
    (fun k _ => do
      let uuid ← Prog.index characteristic.descriptors k
      printf (.descriptor uuid))
    (characteristic.descriptors.length + 1) 0 ()

/-- One pass of the inner loop that reads: both pointers it passes are `NULL`. -/
def readBody (peripheral : Handle) (service : Service) (j : ℕ) : BleProg Unit := do
  let characteristic ← Prog.index service.characteristics j
  if characteristicUuid = characteristic.uuid then do
    access (.storeCharacNb j)
    readCharacteristic peripheral service none none
    printCharacteristic characteristic
  else
    printCharacteristic characteristic

/-- One pass of the inner loop run for every service. -/
def listBody (service : Service) (j : ℕ) : BleProg Unit := do
  let characteristic ← Prog.index service.characteristics j
  if characteristicUuid = characteristic.uuid then do
    access (.storeCharacNb j)
    printf .goodCharac
    printCharacteristic characteristic
  else
    printCharacteristic characteristic

/-- The block run for the service with `SERVICE_UUID`. -/
def readService (peripheral : Handle) (service : Service) (i : ℕ) : BleProg Unit := do
  access (.storeServiceNb i)
  printf .goodService
  Prog.forBelow (pure service.characteristics.length) (fun j _ => readBody peripheral service j)
    (service.characteristics.length + 1) 0 ()

/-- The block run for every service. -/
def listService (service : Service) : BleProg Unit := do
  printf (.service service.uuid service.characteristics.length)
  Prog.forBelow (pure service.characteristics.length) (fun j _ => listBody service j)
    (service.characteristics.length + 1) 0 ()

/-- One pass of the service loop. -/
def serviceBody (peripheral : Handle) (i : ℕ) : BleProg Unit := do
  match ← simpleble (.peripheralServicesGet peripheral i) with
  | none => do
    printf .failedToGetService
    .exit
  | some service =>
    if serviceUuid = service.uuid then do
      readService peripheral service i
      listService service
    else
      listService service

def enumerateServices (peripheral : Handle) : BleProg Unit := do
  let servicesCount ← simpleble (.peripheralServicesCount peripheral)
  printf (.connected servicesCount)
  Prog.forBelow (pure servicesCount) (fun i _ => serviceBody peripheral i)
    (servicesCount + 1) 0 ()

/-- `ble_sender` run undisturbed from the start of the process to the end of the
scan, `es` being the callbacks delivered during the scan. -/
def bleSenderScan (library : Library) (es : List ScanEvent) : Outcome Unit × BleWorld :=
  match bleSetup.run (perform library .bleSender) .initial with
  | (.value _, w) => (.value (), deliverAll library w.adapter es w)
  | (o, w) => (o, w)

/-- And on to the attempt to connect. -/
def bleSenderConnect (library : Library) (es : List ScanEvent) : Outcome Handle × BleWorld :=
  match bleSenderScan library es with
  | (.value _, w) => selectAndConnect.run (perform library .bleSender) w
  | (.returned, w) => (.returned, w)
  | (.faulted, w) => (.faulted, w)

end RCControl
