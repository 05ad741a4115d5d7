import RCControl.StepSystem
import Mathlib.Data.List.Induction
import Mathlib.Data.List.Nodup
import Mathlib.Data.List.Sort
import Mathlib.Logic.Function.Basic

/-! A scan of `AdapterLinux`: `scan_start` and `scan_stop` on one thread, the
callback for updated devices on the bus thread, statement by statement. -/
namespace RCControl
open StepSystem

/-- The two safe callbacks that `set_on_device_updated` loads. -/
inductive UpdateSource
  | childCreated
  | childSignalReceived
deriving DecidableEq, Repr

/-- A call of `callback_on_scan_found_` or `callback_on_scan_updated_`, with the
peripheral object as a number. -/
structure DeviceReport (Address : Type) where
  found : Bool
  address : Address
  peripheral : ℕ
deriving DecidableEq, Repr

/-- What the adapter does that can be seen, and the mark of `seen_peripherals_.clear()`,
which says whether the bus thread was about to make a report. -/
inductive ScanEntry (Address : Type)
  | cleared (leftover : Bool)
  | started
  | stopped
  | device (report : DeviceReport Address)
deriving DecidableEq, Repr

/-- The next statement of `scan_start` or `scan_stop`. -/
inductive ScanPc
  | idle
  | loading (source : UpdateSource)
  | discovering
  | notifyingStart
  | flagging
  | unflagging
  | notifyingStop
deriving DecidableEq, Repr

/-- The next statement of the callback for a device. -/
inductive UpdatePc (Address : Type)
  | checking (address : Address)
  | remembering (address : Address)
  | sorting (address : Address) (peripheral : ℕ)
  | reporting (report : DeviceReport Address)
deriving DecidableEq, Repr

structure AdapterLinux (Address : Type) where
  isScanning : Bool
  loaded : UpdateSource → Bool
  peripherals : Address → Option ℕ
  created : ℕ
  seenPeripherals : List (Address × ℕ)
  pc : ScanPc
  updating : Option (UpdateSource × UpdatePc Address)
  log : List (ScanEntry Address)

/-- `discovery ok` is `discovery_start`, `stop ok` is a call of `scan_stop` with its
`discovery_stop`; a failed one throws. `advance` and `update` are the next statement of
either thread. -/
inductive ScanAction (Address : Type)
  | start
  | discovery (ok : Bool)
  | advance
  | stop (ok : Bool)
  | deviceUpdated (source : UpdateSource) (address : Address)
  | update
deriving DecidableEq, Repr

variable {Address : Type} [LinearOrder Address]

namespace AdapterLinux

/-- The constructor gives `is_scanning_` no value, so it may be any. -/
def initial (isScanning : Bool) : AdapterLinux Address where
  isScanning := isScanning
  loaded _ := false
  peripherals _ := none
  created := 0
  seenPeripherals := []
  pc := .idle
  updating := none
  log := []

/-- The report the bus thread is about to make. -/
def inHand (s : AdapterLinux Address) : List (DeviceReport Address) :=
  match s.updating with
  | some (_, .reporting report) => [report]
  | _ => []

/-- The device of the callback that has passed the check of `is_scanning_` and not
reported yet, if there is one. -/
def admitted (s : AdapterLinux Address) : List Address :=
  match s.updating with
  | none => []
  | some (_, .checking _) => []
  | some (_, .remembering address) => [address]
  | some (_, .sorting address _) => [address]
  | some (_, .reporting report) => [report.address]

/-- `peripherals_.at`, after `peripherals_.insert` for an address not seen before. -/
def remember (s : AdapterLinux Address) (address : Address) : ℕ × AdapterLinux Address :=
  match s.peripherals address with
  | some peripheral => (peripheral, s)
  | none =>
    (s.created, { s with
      peripherals := Function.update s.peripherals address (some s.created)
      created := s.created + 1 })

/-- Only the registry of peripherals changes. -/
theorem remember_eq (s : AdapterLinux Address) (address : Address) :
    ∃ peripherals created, (s.remember address).2 =
      { s with peripherals := peripherals, created := created } := by
  rw [remember]
  cases s.peripherals address with
  | some peripheral => exact ⟨s.peripherals, s.created, rfl⟩
  | none => exact ⟨_, _, rfl⟩

/-- `seen_peripherals_.insert`. -/
def see (s : AdapterLinux Address) (address : Address) (peripheral : ℕ) :
    AdapterLinux Address :=
  { s with
    seenPeripherals :=
      s.seenPeripherals.orderedInsert (fun a b => a.1 ≤ b.1) (address, peripheral) }

/-- The bus thread goes on with a device, or is done with it. -/
def turn (s : AdapterLinux Address) (updating : Option (UpdateSource × UpdatePc Address)) :
    AdapterLinux Address :=
  { s with updating := updating }

def goto (s : AdapterLinux Address) (pc : ScanPc) : AdapterLinux Address := { s with pc := pc }

def tell (s : AdapterLinux Address) (entry : ScanEntry Address) : AdapterLinux Address :=
  { s with log := s.log ++ [entry] }

/-- One statement of the callback `scan_start` hands to `set_on_device_updated`. -/
def update (s : AdapterLinux Address) : Option (AdapterLinux Address) :=
  match s.updating with
  | none => none
  | some (source, .checking address) =>
    some (s.turn (if s.isScanning then some (source, .remembering address) else none))
  | some (source, .remembering address) =>
    some ((s.remember address).2.turn (some (source, .sorting address (s.remember address).1)))
  | some (source, .sorting address peripheral) =>
    if address ∈ s.seenPeripherals.map Prod.fst then
      some (s.turn (some (source, .reporting ⟨false, address, peripheral⟩)))
    else
      some ((s.see address peripheral).turn
        (some (source, .reporting ⟨true, address, peripheral⟩)))
  | some (_, .reporting report) => some ((s.tell (.device report)).turn none)

/-- One statement of `scan_start` or `scan_stop`. A safe callback cannot be loaded while
it is being called. -/
def advance (s : AdapterLinux Address) : Option (AdapterLinux Address) :=
  match s.pc with
  | .idle => none
  | .loading source =>
    if s.updating.map Prod.fst = some source then none
    else
      some (({ s with loaded := Function.update s.loaded source true }).goto
        (match source with
          | .childCreated => .loading .childSignalReceived
          | .childSignalReceived => .discovering))
  | .discovering => none
  | .notifyingStart => some ((s.tell .started).goto .flagging)
  | .flagging => some (({ s with isScanning := true }).goto .idle)
  | .unflagging => some (({ s with isScanning := false }).goto .notifyingStop)
  | .notifyingStop => some ((s.tell .stopped).goto .idle)

def step : ScanAction Address → AdapterLinux Address → Option (AdapterLinux Address)
  | .start, s =>
    if s.pc = .idle then
      some ((({ s with seenPeripherals := [] }).tell (.cleared (s.inHand ≠ []))).goto
        (.loading .childCreated))
    else none
  | .discovery ok, s =>
    if s.pc = .discovering then some (s.goto (if ok then .notifyingStart else .idle)) else none
  | .advance, s => s.advance
  | .stop ok, s =>
    if s.pc = .idle then some (s.goto (if ok then .unflagging else .idle)) else none
  | .deviceUpdated source address, s =>
    if s.updating = none then
      some (if s.loaded source then s.turn (some (source, .checking address)) else s)
    else none
  | .update, s => s.update

/-- `scan_get_results`. -/
def scanGetResults (s : AdapterLinux Address) : List ℕ := s.seenPeripherals.map Prod.snd

end AdapterLinux

/-- The moves of the two threads. -/
inductive ScanMove (s : AdapterLinux Address) : AdapterLinux Address → Prop
  | clears (hpc : s.pc = .idle) :
      ScanMove s ((({ s with seenPeripherals := [] } : AdapterLinux Address).tell
        (.cleared (s.inHand ≠ []))).goto (.loading .childCreated))
  | loads {source : UpdateSource} {pc : ScanPc} (hpc : s.pc = .loading source)
      (hnext : pc = .discovering ∨ ∃ source', pc = .loading source') :
      ScanMove s (({ s with loaded := Function.update s.loaded source true } :
        AdapterLinux Address).goto pc)
  | discovers {pc : ScanPc} (hpc : s.pc = .discovering)
      (hnext : pc = .notifyingStart ∨ pc = .idle) : ScanMove s (s.goto pc)
  | announcesStart (hpc : s.pc = .notifyingStart) : ScanMove s ((s.tell .started).goto .flagging)
  | raises (hpc : s.pc = .flagging) :
      ScanMove s (({ s with isScanning := true } : AdapterLinux Address).goto .idle)
  | stops {pc : ScanPc} (hpc : s.pc = .idle) (hnext : pc = .unflagging ∨ pc = .idle) :
      ScanMove s (s.goto pc)
  | lowers (hpc : s.pc = .unflagging) :
      ScanMove s (({ s with isScanning := false } : AdapterLinux Address).goto .notifyingStop)
  | announcesStop (hpc : s.pc = .notifyingStop) : ScanMove s ((s.tell .stopped).goto .idle)
  | takes {source : UpdateSource} (address : Address) (hup : s.updating = none)
      (hloaded : s.loaded source = true) : ScanMove s (s.turn (some (source, .checking address)))
  | misses : ScanMove s s
  | admits {source : UpdateSource} {address : Address}
      (hup : s.updating = some (source, .checking address)) (hscan : s.isScanning = true) :
      ScanMove s (s.turn (some (source, .remembering address)))
  | refuses {source : UpdateSource} {address : Address}
      (hup : s.updating = some (source, .checking address)) (hscan : s.isScanning = false) :
      ScanMove s (s.turn none)
  | remembers {source : UpdateSource} {address : Address}
      (hup : s.updating = some (source, .remembering address)) :
      ScanMove s ((s.remember address).2.turn
        (some (source, .sorting address (s.remember address).1)))
  | updates {source : UpdateSource} {address : Address} {peripheral : ℕ}
      (hup : s.updating = some (source, .sorting address peripheral))
      (hseen : address ∈ s.seenPeripherals.map Prod.fst) :
      ScanMove s (s.turn (some (source, .reporting ⟨false, address, peripheral⟩)))
  | finds {source : UpdateSource} {address : Address} {peripheral : ℕ}
      (hup : s.updating = some (source, .sorting address peripheral))
      (hnew : address ∉ s.seenPeripherals.map Prod.fst) :
      ScanMove s ((s.see address peripheral).turn
        (some (source, .reporting ⟨true, address, peripheral⟩)))
  | reports {source : UpdateSource} {report : DeviceReport Address}
      (hup : s.updating = some (source, .reporting report)) :
      ScanMove s ((s.tell (.device report)).turn none)

theorem scanMove_of_advance {s t : AdapterLinux Address} (hs : s.advance = some t) :
    ScanMove s t := by
  unfold AdapterLinux.advance at hs
  split at hs
  · cases hs
  · next source hpc =>
    split_ifs at hs
    cases hs
    cases source with
    | childCreated => exact .loads hpc (Or.inr ⟨_, rfl⟩)
    | childSignalReceived => exact .loads hpc (Or.inl rfl)
  · cases hs
  · next hpc => cases hs; exact .announcesStart hpc
  · next hpc => cases hs; exact .raises hpc
  · next hpc => cases hs; exact .lowers hpc
  · next hpc => cases hs; exact .announcesStop hpc

theorem scanMove_of_update {s t : AdapterLinux Address} (hs : s.update = some t) :
    ScanMove s t := by
  unfold AdapterLinux.update at hs
  split at hs
  · cases hs
  · next hup =>
    cases hs
    split_ifs with hscan
    · exact .admits hup hscan
    · exact .refuses hup (Bool.eq_false_of_not_eq_true hscan)
  · next hup => cases hs; exact .remembers hup
  · next hup =>
    split_ifs at hs with hseen
    · cases hs
      exact .updates hup hseen
    · cases hs
      exact .finds hup hseen
  · next hup => cases hs; exact .reports hup

/-- Whatever the next action is, it is one of these moves. -/
theorem scanMove_of_step {a : ScanAction Address} {s t : AdapterLinux Address}
    (hs : AdapterLinux.step a s = some t) : ScanMove s t := by
  cases a with
  | advance => exact scanMove_of_advance hs
  | update => exact scanMove_of_update hs
  | start =>
    simp only [AdapterLinux.step] at hs
    split_ifs at hs with hpc
    cases hs
    exact .clears hpc
  | discovery ok =>
    simp only [AdapterLinux.step] at hs
    split_ifs at hs with hpc hok
    · cases hs
      exact .discovers hpc (Or.inl rfl)
    · cases hs
      exact .discovers hpc (Or.inr rfl)
  | stop ok =>
    simp only [AdapterLinux.step] at hs
    split_ifs at hs with hpc hok
    · cases hs
      exact .stops hpc (Or.inl rfl)
    · cases hs
      exact .stops hpc (Or.inr rfl)
  | deviceUpdated source address =>
    simp only [AdapterLinux.step] at hs
    split_ifs at hs with hup hloaded
    · cases hs
      exact .takes address hup hloaded
    · cases hs
      exact .misses

/-- The device reports of a log. -/
def devices (log : List (ScanEntry Address)) : List (DeviceReport Address) :=
  log.filterMap fun e => match e with
    | .device report => some report
    | _ => none

/-- The device reports since `seen_peripherals_` was last cleared. -/
def scanReports (log : List (ScanEntry Address)) : List (DeviceReport Address) :=
  log.foldl (fun current e => match e with
    | .cleared _ => []
    | .device report => current ++ [report]
    | _ => current) []

/-- Whether the first of them was decided before the clearing. -/
def leftover (log : List (ScanEntry Address)) : Bool :=
  log.foldl (fun now e => match e with
    | .cleared late => late
    | _ => now) false

/-- The device reports of the scan itself. -/
def ownReports (log : List (ScanEntry Address)) : List (DeviceReport Address) :=
  (scanReports log).drop (leftover log).toNat

/-- The peripherals that a list of reports found, in order. -/
def foundIn (reports : List (DeviceReport Address)) : List (Address × ℕ) :=
  (reports.filter DeviceReport.found).map fun r => (r.address, r.peripheral)

/-- How often `scan_start` was called. -/
def clearings (log : List (ScanEntry Address)) : ℕ :=
  log.countP fun e => match e with
    | .cleared _ => true
    | _ => false

section Logs
omit [LinearOrder Address]
variable (log : List (ScanEntry Address))

theorem devices_append (log' : List (ScanEntry Address)) :
    devices (log ++ log') = devices log ++ devices log' := List.filterMap_append

@[simp] theorem scanReports_cleared (late : Bool) :
    scanReports (log ++ [.cleared late]) = [] := by
  rw [scanReports, List.foldl_append]
  rfl

@[simp] theorem scanReports_device (report : DeviceReport Address) :
    scanReports (log ++ [.device report]) = scanReports log ++ [report] := by
  rw [scanReports, List.foldl_append]
  rfl

@[simp] theorem scanReports_started :
    scanReports (log ++ [.started]) = scanReports log := by
  rw [scanReports, List.foldl_append]
  rfl

@[simp] theorem scanReports_stopped :
    scanReports (log ++ [.stopped]) = scanReports log := by
  rw [scanReports, List.foldl_append]
  rfl

@[simp] theorem leftover_cleared (late : Bool) : leftover (log ++ [.cleared late]) = late := by
  rw [leftover, List.foldl_append]
  rfl

theorem leftover_snoc {e : ScanEntry Address} (he : ∀ late, e ≠ .cleared late) :
    leftover (log ++ [e]) = leftover log := by
  rw [leftover, List.foldl_append]
  cases e with
  | cleared late => exact absurd rfl (he late)
  | started => rfl
  | stopped => rfl
  | device report => rfl

/-- Announcements concern no device. -/
theorem announcement_eq {e : ScanEntry Address} (he : e = .started ∨ e = .stopped) :
    devices (log ++ [e]) = devices log ∧ scanReports (log ++ [e]) = scanReports log ∧
      leftover (log ++ [e]) = leftover log := by
  have hclear : ∀ late, e ≠ .cleared late := by
    intro late hlate
    rcases he with he | he <;> rw [he] at hlate <;> exact absurd hlate (by simp)
  refine ⟨?_, ?_, leftover_snoc log hclear⟩
  · rw [devices_append]
    rcases he with he | he <;> rw [he] <;> exact List.append_nil _
  · rcases he with he | he <;> simp only [he, scanReports_started, scanReports_stopped]

theorem foundIn_append (reports reports' : List (DeviceReport Address)) :
    foundIn (reports ++ reports') = foundIn reports ++ foundIn reports' := by
  rw [foundIn, List.filter_append, List.map_append]
  rfl

theorem mem_foundIn {reports : List (DeviceReport Address)} {o : Address × ℕ} :
    o ∈ foundIn reports ↔ (⟨true, o.1, o.2⟩ : DeviceReport Address) ∈ reports := by
  rw [foundIn, List.mem_map]
  constructor
  · rintro ⟨⟨found, address, peripheral⟩, hr, ho⟩
    obtain ⟨hmem, hfound⟩ := List.mem_filter.mp hr
    rw [← ho]
    rw [show found = true from hfound] at hmem
    exact hmem
  · intro hmem
    exact ⟨⟨true, o.1, o.2⟩, List.mem_filter.mpr ⟨hmem, rfl⟩, rfl⟩

/-- An entry of a list with one entry more, with what stands before it. -/
theorem entry_snoc {α : Type} {l : List α} {r x : α} {n : ℕ} (h : (l ++ [r])[n]? = some x) :
    (l[n]? = some x ∧ (l ++ [r]).take n = l.take n) ∨ (x = r ∧ (l ++ [r]).take n = l) := by
  by_cases hn : n < l.length
  · refine Or.inl ⟨?_, List.take_append_of_le_length (by omega)⟩
    rw [← h, List.getElem?_append_left hn]
  · have hlen := (List.getElem?_eq_some_iff.mp h).1
    rw [List.length_append, List.length_singleton] at hlen
    have hn' : n = l.length := by omega
    subst hn'
    refine Or.inr ⟨?_, List.take_left⟩
    simpa using h.symm

theorem scanReports_subset : scanReports log ⊆ devices log := by
  -- from the last entry back
  induction log using List.reverseRecOn with
  | nil => exact List.Subset.refl _
  | append_singleton log e ih =>
    rw [devices_append]
    cases e with
    | cleared late =>
      rw [scanReports_cleared]
      exact List.nil_subset _
    | started =>
      rw [scanReports_started]
      exact List.subset_append_of_subset_left _ ih
    | stopped =>
      rw [scanReports_stopped]
      exact List.subset_append_of_subset_left _ ih
    | device report =>
      rw [scanReports_device]
      have hlast : [report] ⊆ devices log ++ devices [.device report] :=
        List.subset_append_right _ _
      exact List.append_subset.mpr ⟨List.subset_append_of_subset_left _ ih, hlast⟩

end Logs

theorem orderedInsert_keys {l : List (Address × ℕ)} {address : Address} {peripheral : ℕ}
    (hl : (l.map Prod.fst).Pairwise (· < ·)) (hnew : address ∉ l.map Prod.fst) :
    ((l.orderedInsert (fun a b => a.1 ≤ b.1) (address, peripheral)).map Prod.fst).Pairwise
      (· < ·) := by
  have hkeys : (l.orderedInsert (fun a b => a.1 ≤ b.1) (address, peripheral)).map Prod.fst =
      (l.map Prod.fst).orderedInsert (· ≤ ·) address :=
    List.map_orderedInsert _ _ _ _ _ (fun _ _ => Iff.rfl) (fun _ _ => Iff.rfl)
  have hle : ((l.map Prod.fst).orderedInsert (· ≤ ·) address).Pairwise (· ≤ ·) :=
    (hl.imp le_of_lt).orderedInsert _ _
  have hnodup : ((l.map Prod.fst).orderedInsert (· ≤ ·) address).Nodup := by
    rw [(List.perm_orderedInsert _ _ _).nodup_iff, List.nodup_cons]
    exact ⟨hnew, hl.imp ne_of_lt⟩
  rw [hkeys]
  exact (hle.and hnodup).imp (fun h => lt_of_le_of_ne h.1 h.2)

end RCControl
