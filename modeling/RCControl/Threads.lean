import RCControl.BleSender
import RCControl.StepSystem
import RCControl.ThrottleInput

/-! The whole program: the shared variables, the three threads statement by
statement, and the step of one of them. -/
namespace RCControl
open Resumption

/-- What the program does not decide: the rounding of `float`, the answers of
SimpleBLE, whether the joystick opens, and what `read` returns in turn before it
blocks. -/
structure Env where
  fl : FloatRounding
  library : Library
  opens : Bool
  reads : List ReadResult

/-- The threads that take `throttle_mutex`. -/
inductive Thread
  | main
  | hotasInputs
deriving DecidableEq, Repr

/-- Where `hotas_inputs` is. -/
inductive HotasPc
  | notStarted
  | opening
  | head
  | reading
  | handling (e : JsEvent)
  | locking (percent : ℤ)
  | storing (percent : ℤ)
  | unlocking
  | clearing
  | closing
  | finished
deriving DecidableEq, Repr

structure Hotas where
  pc : HotasPc
  reads : List ReadResult
  stdout : List HotasOutput

/-- Where `main` is; `cleaning` runs the exit handler. -/
inductive MainPc
  | createInputs
  | createSender
  | baseline
  | head
  | locking
  | testing
  | copying
  | printing
  | unlocking
  | sleeping
  | returning
  | cleaning (rest : BleProg Unit)
  | exited

/-- Where `ble_sender` is. `callback` runs a callback of SimpleBLE while
`simpleble_adapter_scan_for` blocks. -/
inductive SenderPc
  | notStarted
  | setup (rest : BleProg Unit)
  | scanning
  | callback (rest : BleProg Unit)
  | connecting (rest : BleProg Handle)
  | enumerating (peripheral : Handle) (rest : BleProg Unit)
  | baseline (peripheral : Handle)
  | head (peripheral : Handle)
  | testing (peripheral : Handle)
  | announcing (peripheral : Handle)
  | recording (peripheral : Handle)
  | disconnecting (peripheral : Handle)
  | returned
  | faulted

/-- The local `current` of a polling loop, and what the loop has done: the value
`current` started with, the values printed, and the values assigned to it. -/
structure Poller where
  current : ℤ
  baseline : Option ℤ
  announced : List ℤ
  recorded : List ℤ
deriving DecidableEq, Repr

namespace Poller

def idle : Poller := ⟨0, none, [], []⟩

def start (v : ℤ) : Poller := ⟨v, some v, [], []⟩

def announce (v : ℤ) (p : Poller) : Poller := { p with announced := p.announced ++ [v] }

def record (v : ℤ) (p : Poller) : Poller :=
  { p with current := v, recorded := p.recorded ++ [v] }

end Poller

/-- The shared variables and the state of each thread. `stored` keeps the values
stored in `throttle_position`. -/
structure System where
  running : Bool
  throttlePosition : ℤ
  throttleMutex : Option Thread
  stored : List ℤ
  hotas : Hotas
  mainPc : MainPc
  display : Poller
  senderPc : SenderPc
  send : Poller
  ble : BleWorld

def System.initial (env : Env) : System where
  running := true
  throttlePosition := 0
  throttleMutex := none
  stored := []
  hotas := ⟨.notStarted, env.reads, []⟩
  mainPc := .createInputs
  display := .idle
  senderPc := .notStarted
  send := .idle
  ble := .initial

namespace Hotas

def goto (pc : HotasPc) (h : Hotas) : Hotas := { h with pc := pc }

/-- Print `lines` on the way to `pc`. -/
def report (lines : List HotasOutput) (pc : HotasPc) (h : Hotas) : Hotas :=
  { h with pc := pc, stdout := h.stdout ++ lines }

end Hotas

/-- Where `hotas_inputs` goes on to carry out the effect of an event. -/
def EventAction.pc : EventAction → HotasPc
  | .setThrottle percent => .locking percent
  | .clearRunning => .clearing
  | .nothing => .head

def hotasStep (env : Env) (s : System) : Option System :=
  match s.hotas.pc with
  | .notStarted => none
  | .opening =>
    if env.opens then some { s with hotas := s.hotas.report [.readingInputs] .head }
    -- the early return leaves `running` set
    else some { s with hotas := s.hotas.report [.couldNotOpen] .finished }
  | .head => some { s with hotas := s.hotas.goto (if s.running then .reading else .closing) }
  | .reading =>
    match s.hotas.reads with
    -- `read` blocks for ever on an idle stick
    | [] => none
    -- `break`, with `running` still set
    | .failed :: rest =>
      some { s with hotas := { s.hotas.report [.readError] .closing with reads := rest } }
    | .event e :: rest =>
      some { s with hotas := { s.hotas.goto (.handling e) with reads := rest } }
  | .handling e =>
    some { s with hotas := s.hotas.report (eventOutput e) (eventAction env.fl e).pc }
  | .locking percent =>
    match s.throttleMutex with
    | some _ => none
    | none => some { s with
        throttleMutex := some .hotasInputs, hotas := s.hotas.goto (.storing percent) }
  | .storing percent => some { s with
      throttlePosition := percent, stored := s.stored ++ [percent]
      hotas := s.hotas.goto .unlocking }
  | .unlocking => some { s with throttleMutex := none, hotas := s.hotas.goto .head }
  | .clearing => some { s with running := false, hotas := s.hotas.goto .head }
  | .closing => some { s with hotas := s.hotas.goto .finished }
  | .finished => none

/-- `return 0` of `main` runs the exit handler if `ble_sender` has registered it,
while the other threads run on; after it the process is gone. -/
def mainStep (env : Env) (s : System) : Option System :=
  match s.mainPc with
  | .createInputs => some { s with mainPc := .createSender, hotas := s.hotas.goto .opening }
  | .createSender => some { s with mainPc := .baseline, senderPc := .setup bleSetup }
  | .baseline => some { s with mainPc := .head, display := .start s.throttlePosition }
  | .head => some { s with mainPc := if s.running then .locking else .returning }
  | .locking =>
    match s.throttleMutex with
    | some _ => none
    | none => some { s with throttleMutex := some .main, mainPc := .testing }
  | .testing => some { s with
      mainPc := if s.throttlePosition ≠ s.display.current then .copying else .unlocking }
  | .copying => some { s with
      mainPc := .printing, display := s.display.record s.throttlePosition }
  | .printing => some { s with
      mainPc := .unlocking, display := s.display.announce s.display.current }
  | .unlocking => some { s with throttleMutex := none, mainPc := .sleeping }
  | .sleeping => some { s with mainPc := .head }
  | .returning => some { s with
      mainPc := if s.ble.exitHandler then .cleaning cleanOnExit else .exited }
  -- the handler is interleaved with the other threads, call by call
  | .cleaning rest =>
    let next := rest.advance (perform env.library .cleanOnExit) .cleaning (fun _ => .exited) s.ble
    some { s with mainPc := next.1, ble := next.2 }
  | .exited => none

namespace SenderPc

/-- Where `ble_sender` goes on when a part of it ends: to `next` with the value,
or out of the function. -/
def onward {α : Type} (next : α → SenderPc) : Outcome α → SenderPc
  | .value a => next a
  | .returned => .returned
  | .faulted => .faulted

/-- A callback goes back to the scan, however it returns. -/
def backToScan : Outcome Unit → SenderPc
  | .value _ => .scanning
  | .returned => .scanning
  | .faulted => .faulted

end SenderPc

/-- `ble_sender` tests, announces and records with a load of `throttle_position`
each, and takes no mutex. -/
def senderStep (env : Env) (s : System) : Option System :=
  match s.senderPc with
  | .setup rest =>
    let next := rest.advance (perform env.library .bleSender) .setup
      (.onward fun _ => .scanning) s.ble
    some { s with senderPc := next.1, ble := next.2 }
  -- the callback runs while `simpleble_adapter_scan_for` blocks the thread
  | .callback rest =>
    let next := rest.advance (perform env.library .scanCallback) .callback .backToScan s.ble
    some { s with senderPc := next.1, ble := next.2 }
  | .connecting rest =>
    let next := rest.advance (perform env.library .bleSender) .connecting
      (.onward fun peripheral => .enumerating peripheral (enumerateServices peripheral)) s.ble
    some { s with senderPc := next.1, ble := next.2 }
  | .enumerating peripheral rest =>
    let next := rest.advance (perform env.library .bleSender) (.enumerating peripheral)
      (.onward fun _ => .baseline peripheral) s.ble
    some { s with senderPc := next.1, ble := next.2 }
  | .baseline peripheral => some { s with
      senderPc := .head peripheral, send := .start s.throttlePosition }
  | .head peripheral => some { s with
      senderPc := if s.running then .testing peripheral else .disconnecting peripheral }
  -- three loads of the throttle, each a step of its own
  | .testing peripheral => some { s with
      senderPc := if s.throttlePosition ≠ s.send.current then .announcing peripheral
        else .head peripheral }
  | .announcing peripheral => some { s with
      senderPc := .recording peripheral, send := s.send.announce s.throttlePosition }
  | .recording peripheral => some { s with
      senderPc := .head peripheral, send := s.send.record s.throttlePosition }
  | .disconnecting peripheral => some { s with
      senderPc := .returned
      ble := s.ble.called env.library .bleSender (.peripheralDisconnect peripheral) }
  | .notStarted => none
  | .scanning => none
  | .returned => none
  | .faulted => none

/-- Which thread moves, or what SimpleBLE does during the scan. -/
inductive Action
  | hotasInputs
  | main
  | bleSender
  | report (e : ScanEvent)
  | scanEnds
deriving DecidableEq, Repr

/-- SimpleBLE starts a callback. -/
def reportStep (e : ScanEvent) (s : System) : Option System :=
  match s.senderPc with
  | .scanning => some { s with senderPc := .callback (e.callback s.ble.adapter) }
  | _ => none

/-- `simpleble_adapter_scan_for` returns. -/
def scanEndsStep (s : System) : Option System :=
  match s.senderPc with
  | .scanning => some { s with senderPc := .connecting selectAndConnect }
  | _ => none

def step (env : Env) (a : Action) (s : System) : Option System :=
  match s.mainPc, a with
  -- the process is gone and its threads with it
  | .exited, _ => none
  | _, .hotasInputs => hotasStep env s
  | _, .main => mainStep env s
  | _, .bleSender => senderStep env s
  | _, .report e => reportStep e s
  | _, .scanEnds => scanEndsStep s

end RCControl
