import RCControl.AdapterScan

/-! What `AdapterLinux` reports, whatever statements of its two threads interleave. -/
namespace RCControl
open StepSystem

variable {Address : Type} [LinearOrder Address]

/-- One peripheral object for each address, for good. -/
structure Registered (s : AdapterLinux Address) : Prop where
  numbered : ∀ address peripheral, s.peripherals address = some peripheral →
    peripheral < s.created
  distinct : ∀ a b peripheral, s.peripherals a = some peripheral →
    s.peripherals b = some peripheral → a = b
  reported : ∀ r ∈ devices s.log ++ s.inHand, s.peripherals r.address = some r.peripheral
  sorting : ∀ source address peripheral,
    s.updating = some (source, .sorting address peripheral) →
      s.peripherals address = some peripheral

/-- The reports of the scan, the one in hand included. -/
def AdapterLinux.decided (s : AdapterLinux Address) : List (DeviceReport Address) :=
  (scanReports s.log ++ s.inHand).drop (leftover s.log).toNat

/-- The seen peripherals are those the scan found, and what it updates it has found. -/
structure Collected (s : AdapterLinux Address) : Prop where
  waiting : leftover s.log = true → scanReports s.log ++ s.inHand ≠ []
  seen_perm : s.seenPeripherals.Perm (foundIn s.decided)
  seen_sorted : (s.seenPeripherals.map Prod.fst).Pairwise (· < ·)
  updated_found : ∀ n r, s.decided[n]? = some r → r.found = false →
    (r.address, r.peripheral) ∈ foundIn (s.decided.take n)

variable {s t : AdapterLinux Address}

omit [LinearOrder Address] in
theorem Registered.keep (h : Registered s) (hperipherals : t.peripherals = s.peripherals)
    (hcreated : t.created = s.created)
    (hreports : devices t.log ++ t.inHand ⊆ devices s.log ++ s.inHand)
    (hsorting : ∀ source address peripheral,
      t.updating = some (source, .sorting address peripheral) →
        s.updating = some (source, .sorting address peripheral)) : Registered t := by
  constructor
  · rw [hperipherals, hcreated]
    exact h.numbered
  · rw [hperipherals]
    exact h.distinct
  · intro r hr
    rw [hperipherals]
    exact h.reported r (hreports hr)
  · intro source address peripheral ht
    rw [hperipherals]
    exact h.sorting source address peripheral (hsorting source address peripheral ht)

omit [LinearOrder Address] in
/-- What the bus thread decides about a device it has looked up. -/
theorem Registered.decide (h : Registered s) (hperipherals : t.peripherals = s.peripherals)
    (hcreated : t.created = s.created) (hlog : t.log = s.log) {source : UpdateSource}
    {report : DeviceReport Address}
    (hsorting : s.updating = some (source, .sorting report.address report.peripheral))
    (ht : t.updating = some (source, .reporting report)) : Registered t := by
  have hhand : t.inHand = [report] := by
    rw [AdapterLinux.inHand, ht]
  constructor
  · rw [hperipherals, hcreated]
    exact h.numbered
  · rw [hperipherals]
    exact h.distinct
  · intro r hr
    rw [hperipherals]
    rw [hlog, hhand] at hr
    rcases List.mem_append.mp hr with hold | hnew
    · exact h.reported r (List.mem_append_left _ hold)
    · rw [List.mem_singleton.mp hnew]
      exact h.sorting source _ _ hsorting
  · intro source' address peripheral hsort
    rw [ht] at hsort
    exact absurd hsort (by simp)

/-- A new peripheral takes the next number; the known ones keep theirs. -/
theorem Registered.remember (h : Registered s) {source : UpdateSource} {address : Address}
    (hs : s.updating = some (source, .remembering address)) :
    Registered ((s.remember address).2.turn
      (some (source, .sorting address (s.remember address).1))) := by
  have hhand : s.inHand = [] := by
    rw [AdapterLinux.inHand, hs]
  rw [AdapterLinux.remember]
  cases hp : s.peripherals address with
  | some peripheral =>
    constructor
    · exact h.numbered
    · exact h.distinct
    · intro r hr
      apply h.reported r
      rw [hhand]
      exact hr
    · intro source' address' peripheral' hsort
      simp only [AdapterLinux.turn, Option.some.injEq, Prod.mk.injEq,
        UpdatePc.sorting.injEq] at hsort
      obtain ⟨-, haddress, hperipheral⟩ := hsort
      rw [← haddress, ← hperipheral]
      exact hp
  | none =>
    have hkept : ∀ a peripheral, s.peripherals a = some peripheral → a ≠ address := by
      intro a peripheral ha haa
      rw [haa, hp] at ha
      exact absurd ha (by simp)
    have hcases : ∀ a peripheral,
        Function.update s.peripherals address (some s.created) a = some peripheral →
          (a = address ∧ peripheral = s.created) ∨ s.peripherals a = some peripheral := by
      intro a peripheral ha
      by_cases haa : a = address
      · rw [haa, Function.update_self, Option.some.injEq] at ha
        exact Or.inl ⟨haa, ha.symm⟩
      · rw [Function.update_of_ne haa] at ha
        exact Or.inr ha
    constructor
    · intro a peripheral ha
      show peripheral < s.created + 1
      rcases hcases a peripheral ha with ⟨_, hnew⟩ | hold
      · omega
      · have hlt := h.numbered a peripheral hold
        omega
    · intro a b peripheral ha hb
      rcases hcases a peripheral ha with ⟨haa, hpa⟩ | hold
      · rcases hcases b peripheral hb with ⟨hbb, _⟩ | hold'
        · rw [haa, hbb]
        · have hlt := h.numbered b peripheral hold'
          omega
      · rcases hcases b peripheral hb with ⟨_, hpb⟩ | hold'
        · have hlt := h.numbered a peripheral hold
          omega
        · exact h.distinct a b peripheral hold hold'
    · intro r hr
      have hold : s.peripherals r.address = some r.peripheral := by
        apply h.reported r
        rw [hhand]
        exact hr
      show Function.update s.peripherals address (some s.created) r.address = some r.peripheral
      rw [Function.update_of_ne (hkept _ _ hold)]
      exact hold
    · intro source' address' peripheral' hsort
      simp only [AdapterLinux.turn, Option.some.injEq, Prod.mk.injEq,
        UpdatePc.sorting.injEq] at hsort
      obtain ⟨-, haddress, hperipheral⟩ := hsort
      show Function.update s.peripherals address (some s.created) address' = some peripheral'
      rw [← haddress, ← hperipheral, Function.update_self]

/-- What is in hand counts as reported. -/
theorem Collected.keep (h : Collected s) (hseen : t.seenPeripherals = s.seenPeripherals)
    (hleft : leftover t.log = leftover s.log)
    (hreports : scanReports t.log ++ t.inHand = scanReports s.log ++ s.inHand) :
    Collected t := by
  have hdecided : t.decided = s.decided := by
    rw [AdapterLinux.decided, AdapterLinux.decided, hreports, hleft]
  constructor
  · rw [hleft, hreports]
    exact h.waiting
  · rw [hdecided, hseen]
    exact h.seen_perm
  · rw [hseen]
    exact h.seen_sorted
  · rw [hdecided]
    exact h.updated_found

omit [LinearOrder Address] in
/-- The report taken in hand comes last. -/
theorem decided_snoc (hwaiting : leftover s.log = true → scanReports s.log ++ s.inHand ≠ [])
    (hhand : s.inHand = []) (hlog : t.log = s.log) {report : DeviceReport Address}
    (ht : t.inHand = [report]) : t.decided = s.decided ++ [report] := by
  have hle : (leftover s.log).toNat ≤ (scanReports s.log).length := by
    cases hl : leftover s.log with
    | false => exact Nat.zero_le _
    | true =>
      have hne := hwaiting hl
      rw [hhand, List.append_nil] at hne
      exact List.length_pos_iff.mpr hne
  rw [AdapterLinux.decided, AdapterLinux.decided, hlog, ht, hhand, List.append_nil,
    List.drop_append_of_le_length hle]

theorem Collected.decideUpdated (h : Collected s) (hhand : s.inHand = [])
    (hlog : t.log = s.log) (hseen : t.seenPeripherals = s.seenPeripherals)
    {address : Address} {peripheral : ℕ} (ht : t.inHand = [⟨false, address, peripheral⟩])
    (hmem : (address, peripheral) ∈ s.seenPeripherals) : Collected t := by
  have hdecided := decided_snoc h.waiting hhand hlog ht
  have hfound : foundIn t.decided = foundIn s.decided := by
    rw [hdecided, foundIn_append]
    exact List.append_nil _
  constructor
  · intro _
    rw [ht]
    exact List.append_ne_nil_of_right_ne_nil _ (by simp)
  · rw [hfound, hseen]
    exact h.seen_perm
  · rw [hseen]
    exact h.seen_sorted
  · intro n r hn hr
    rw [hdecided] at hn ⊢
    rcases entry_snoc hn with ⟨hold, htake⟩ | ⟨hnew, htake⟩
    · rw [htake]
      exact h.updated_found n r hold hr
    · rw [htake, hnew]
      exact h.seen_perm.mem_iff.mp hmem

theorem Collected.decideFound (h : Collected s) (hhand : s.inHand = [])
    (hlog : t.log = s.log) {address : Address} {peripheral : ℕ}
    (hseen : t.seenPeripherals = (s.see address peripheral).seenPeripherals)
    (ht : t.inHand = [⟨true, address, peripheral⟩])
    (hnew : address ∉ s.seenPeripherals.map Prod.fst) : Collected t := by
  have hdecided := decided_snoc h.waiting hhand hlog ht
  have hfound : foundIn t.decided = foundIn s.decided ++ [(address, peripheral)] := by
    rw [hdecided, foundIn_append]
    rfl
  constructor
  · intro _
    rw [ht]
    exact List.append_ne_nil_of_right_ne_nil _ (by simp)
  · rw [hfound, hseen]
    have hinsert : (s.see address peripheral).seenPeripherals.Perm
        (s.seenPeripherals ++ [(address, peripheral)]) :=
      (List.perm_orderedInsert _ _ _).trans (List.perm_append_singleton _ _).symm
    exact hinsert.trans (h.seen_perm.append_right _)
  · rw [hseen]
    exact orderedInsert_keys h.seen_sorted hnew
  · intro n r hn hr
    rw [hdecided] at hn ⊢
    rcases entry_snoc hn with ⟨hold, htake⟩ | ⟨hlast, _⟩
    · rw [htake]
      exact h.updated_found n r hold hr
    · rw [hlast] at hr
      exact absurd hr (by simp)

/-- After the clearing nothing has been decided but a report in hand. -/
theorem Collected.clear (hseen : t.seenPeripherals = []) {late : Bool}
    {log : List (ScanEntry Address)} (hlog : t.log = log ++ [.cleared late])
    (hlate : late = decide (t.inHand ≠ [])) : Collected t := by
  have hreports : scanReports t.log = [] := by
    rw [hlog, scanReports_cleared]
  have hleft : leftover t.log = late := by
    rw [hlog, leftover_cleared]
  have hdecided : t.decided = [] := by
    rw [AdapterLinux.decided, hreports, hleft, hlate, List.nil_append, List.drop_eq_nil_iff]
    cases hhand : t.updating with
    | none => simp [AdapterLinux.inHand, hhand]
    | some u =>
      obtain ⟨source, pc⟩ := u
      cases pc <;> simp [AdapterLinux.inHand, hhand]
  constructor
  · intro hl
    rw [hleft, hlate] at hl
    rw [hreports, List.nil_append]
    exact of_decide_eq_true hl
  · rw [hdecided, hseen]
    exact List.Perm.refl _
  · rw [hseen]
    exact List.Pairwise.nil
  · intro n r hn
    rw [hdecided] at hn
    exact absurd hn (by simp)

/-- What holds in every state of every run. -/
structure ScanInv (s : AdapterLinux Address) : Prop where
  registered : Registered s
  collected : Collected s
  stopping_flag : s.pc = .notifyingStop → s.isScanning = false

namespace ScanInv

theorem initial (b : Bool) : ScanInv (AdapterLinux.initial b : AdapterLinux Address) where
  registered := by
    constructor <;> simp [AdapterLinux.initial, AdapterLinux.inHand, devices]
  collected := by
    constructor <;> simp [AdapterLinux.initial, AdapterLinux.inHand, AdapterLinux.decided,
      scanReports, leftover, foundIn]
  stopping_flag := nofun

/-- A statement of `scan_start` or `scan_stop` that neither clears nor announces. -/
theorem quiet (h : ScanInv s) (hseen : t.seenPeripherals = s.seenPeripherals)
    (hperipherals : t.peripherals = s.peripherals) (hcreated : t.created = s.created)
    (hupdating : t.updating = s.updating) (hlog : t.log = s.log)
    (hstop : t.pc = .notifyingStop → t.isScanning = false) : ScanInv t := by
  have hhand : t.inHand = s.inHand := by
    rw [AdapterLinux.inHand, AdapterLinux.inHand, hupdating]
  refine ⟨h.registered.keep hperipherals hcreated ?_ ?_, h.collected.keep hseen ?_ ?_, hstop⟩
  · rw [hlog, hhand]
    exact List.Subset.refl _
  · intro source address peripheral ht
    rw [← hupdating]
    exact ht
  · rw [hlog]
  · rw [hlog, hhand]

theorem start (h : ScanInv s) : ScanInv ((({ s with seenPeripherals := [] } :
    AdapterLinux Address).tell (.cleared (s.inHand ≠ []))).goto (.loading .childCreated)) := by
  refine ⟨h.registered.keep rfl rfl ?_ (fun _ _ _ ht => ht), Collected.clear rfl rfl rfl,
    by simp [AdapterLinux.goto]⟩
  show devices (s.log ++ [.cleared _]) ++ s.inHand ⊆ devices s.log ++ s.inHand
  rw [devices_append]
  exact List.append_subset.mpr
    ⟨List.append_subset.mpr ⟨List.subset_append_left _ _, List.nil_subset _⟩,
      List.subset_append_right _ _⟩

theorem announce (h : ScanInv s) {e : ScanEntry Address} {pc : ScanPc}
    (he : e = .started ∨ e = .stopped) (hpc : pc ≠ .notifyingStop) :
    ScanInv ((s.tell e).goto pc) := by
  obtain ⟨hdevices, hreports, hleft⟩ := announcement_eq s.log he
  refine ⟨h.registered.keep rfl rfl ?_ (fun _ _ _ ht => ht), h.collected.keep rfl hleft ?_,
    fun hstop => absurd hstop hpc⟩
  · show devices (s.log ++ [e]) ++ s.inHand ⊆ devices s.log ++ s.inHand
    rw [hdevices]
    exact List.Subset.refl _
  · show scanReports (s.log ++ [e]) ++ s.inHand = scanReports s.log ++ s.inHand
    rw [hreports]

/-- A statement of the callback that reports nothing and decides nothing. -/
theorem turn (h : ScanInv s) {updating : Option (UpdateSource × UpdatePc Address)}
    (hhand : s.inHand = []) (hhand' : (s.turn updating).inHand = [])
    (hsorting : ∀ source address peripheral,
      updating ≠ some (source, .sorting address peripheral)) : ScanInv (s.turn updating) := by
  refine ⟨h.registered.keep rfl rfl ?_ (fun source a p ht => absurd ht (hsorting source a p)),
    h.collected.keep rfl rfl ?_, h.stopping_flag⟩
  · rw [hhand, hhand']
    exact List.Subset.refl _
  · rw [hhand, hhand']
    rfl

/-- A seen address was seen with the one object it ever has. -/
theorem seen_of_key (h : ScanInv s) {address : Address} {peripheral : ℕ}
    (hknown : s.peripherals address = some peripheral)
    (hkey : address ∈ s.seenPeripherals.map Prod.fst) :
    (address, peripheral) ∈ s.seenPeripherals := by
  obtain ⟨o, ho, hoa⟩ := List.mem_map.mp hkey
  have hdecided : (⟨true, o.1, o.2⟩ : DeviceReport Address) ∈ scanReports s.log ++ s.inHand :=
    List.mem_of_mem_drop (mem_foundIn.mp (h.collected.seen_perm.mem_iff.mp ho))
  have hreported : (⟨true, o.1, o.2⟩ : DeviceReport Address) ∈ devices s.log ++ s.inHand :=
    List.append_subset.mpr ⟨List.subset_append_of_subset_left _ (scanReports_subset _),
      List.subset_append_right _ _⟩ hdecided
  have hown := h.registered.reported _ hreported
  rw [show (⟨true, o.1, o.2⟩ : DeviceReport Address).address = address from hoa, hknown,
    Option.some.injEq] at hown
  rw [← hoa, hown]
  exact ho

theorem remember (h : ScanInv s) {source : UpdateSource} {address : Address}
    (hup : s.updating = some (source, .remembering address)) :
    ScanInv ((s.remember address).2.turn
      (some (source, .sorting address (s.remember address).1))) := by
  have hhand : s.inHand = [] := by
    rw [AdapterLinux.inHand, hup]
  have hregistered := h.registered.remember hup
  obtain ⟨peripherals, created, heq⟩ := s.remember_eq address
  rw [heq] at hregistered ⊢
  refine ⟨hregistered, h.collected.keep rfl rfl ?_, h.stopping_flag⟩
  rw [hhand]
  rfl

theorem report (h : ScanInv s) {source : UpdateSource} {report : DeviceReport Address}
    (hup : s.updating = some (source, .reporting report)) :
    ScanInv ((s.tell (.device report)).turn none) := by
  have hhand : s.inHand = [report] := by
    rw [AdapterLinux.inHand, hup]
  refine ⟨h.registered.keep rfl rfl ?_ (fun _ _ _ ht => absurd ht (by simp [AdapterLinux.turn])),
    h.collected.keep rfl (leftover_snoc _ (by simp)) ?_, h.stopping_flag⟩
  · show devices (s.log ++ [.device report]) ++ [] ⊆ devices s.log ++ s.inHand
    rw [devices_append, hhand, List.append_nil]
    exact List.Subset.refl _
  · show scanReports (s.log ++ [.device report]) ++ [] = scanReports s.log ++ s.inHand
    rw [scanReports_device, hhand, List.append_nil]

theorem move (h : ScanInv s) (hmove : ScanMove s t) : ScanInv t := by
  cases hmove with
  | clears hpc => exact h.start
  | loads hpc hnext =>
    refine h.quiet rfl rfl rfl rfl rfl ?_
    rcases hnext with rfl | ⟨source', rfl⟩ <;> simp [AdapterLinux.goto]
  | discovers hpc hnext | stops hpc hnext =>
    refine h.quiet rfl rfl rfl rfl rfl ?_
    rcases hnext with rfl | rfl <;> simp [AdapterLinux.goto]
  | raises hpc => exact h.quiet rfl rfl rfl rfl rfl (by simp [AdapterLinux.goto])
  | lowers hpc => exact h.quiet rfl rfl rfl rfl rfl (fun _ => rfl)
  | announcesStart hpc => exact h.announce (Or.inl rfl) (by simp)
  | announcesStop hpc => exact h.announce (Or.inr rfl) (by simp)
  | takes address hup _ =>
    exact h.turn (by rw [AdapterLinux.inHand, hup]) rfl (by simp)
  | misses => exact h
  | admits hup _ | refuses hup _ =>
    exact h.turn (by rw [AdapterLinux.inHand, hup]) rfl (by simp)
  | remembers hup => exact h.remember hup
  | @updates source address peripheral hup hseen =>
    have hhand : s.inHand = [] := by
      rw [AdapterLinux.inHand, hup]
    have hmem := h.seen_of_key (h.registered.sorting source address peripheral hup) hseen
    exact ⟨h.registered.decide rfl rfl rfl hup rfl,
      h.collected.decideUpdated hhand rfl rfl rfl hmem, h.stopping_flag⟩
  | finds hup hnew =>
    have hhand : s.inHand = [] := by
      rw [AdapterLinux.inHand, hup]
    exact ⟨h.registered.decide rfl rfl rfl hup rfl,
      h.collected.decideFound hhand rfl rfl rfl hnew, h.stopping_flag⟩
  | reports hup => exact h.report hup

theorem of_reachable {b : Bool} (hreach : Reachable AdapterLinux.step (AdapterLinux.initial b) s) :
    ScanInv s :=
  hreach.invariant ScanInv (ScanInv.initial b) (fun _ _ _ h hs => h.move (scanMove_of_step hs))

end ScanInv

omit [LinearOrder Address] in
theorem ownReports_decided (s : AdapterLinux Address) : ownReports s.log <+: s.decided := by
  rw [ownReports, AdapterLinux.decided, List.drop_append]
  exact ⟨_, rfl⟩

theorem ownReports_keys_nodup {b : Bool}
    (hreach : Reachable AdapterLinux.step (AdapterLinux.initial b) s) :
    ((foundIn (ownReports s.log)).map Prod.fst).Nodup := by
  have h := (ScanInv.of_reachable hreach).collected
  obtain ⟨pending, hpending⟩ := ownReports_decided s
  have hkeys : (s.seenPeripherals.map Prod.fst).Nodup := h.seen_sorted.imp ne_of_lt
  have hall : ((foundIn s.decided).map Prod.fst).Nodup :=
    ((h.seen_perm.map Prod.fst).nodup_iff).mp hkeys
  rw [← hpending, foundIn_append, List.map_append] at hall
  exact (List.nodup_append.mp hall).1

theorem object_of_report {b : Bool}
    (hreach : Reachable AdapterLinux.step (AdapterLinux.initial b) s)
    {r : DeviceReport Address} (hr : r ∈ devices s.log) :
    s.peripherals r.address = some r.peripheral :=
  (ScanInv.of_reachable hreach).registered.reported r (List.mem_append_left _ hr)

/-- Two devices are found and one of them is updated; a third is in hand when `scan_stop`
has lowered the flag. -/
def scanUntilStop : List (ScanAction ℕ) :=
  [.start, .advance, .advance, .discovery true, .advance, .advance,
    .deviceUpdated .childCreated 5, .update, .update, .update, .update,
    .deviceUpdated .childSignalReceived 3, .update, .update, .update, .update,
    .deviceUpdated .childSignalReceived 5, .update, .update, .update, .update,
    .deviceUpdated .childCreated 4, .update, .stop true, .advance]

def stopping : AdapterLinux ℕ :=
  (exec AdapterLinux.step scanUntilStop (.initial true)).getD (.initial true)

theorem stopping_reachable : Reachable AdapterLinux.step (AdapterLinux.initial true) stopping :=
  reachable_of_exec (rfl : exec AdapterLinux.step scanUntilStop (.initial true) = some stopping)

/-- The end of the scan is announced, and then the third device is reported. -/
def strayed : AdapterLinux ℕ :=
  (exec AdapterLinux.step [.advance, .update, .update, .update] stopping).getD stopping

theorem strayed_later : Reachable AdapterLinux.step stopping strayed :=
  reachable_of_exec (rfl :
    exec AdapterLinux.step [.advance, .update, .update, .update] stopping = some strayed)

theorem strayed_reachable : Reachable AdapterLinux.step (AdapterLinux.initial true) strayed :=
  stopping_reachable.trans strayed_later

example : strayed.log = [.cleared false, .started, .device ⟨true, 5, 0⟩, .device ⟨true, 3, 1⟩,
    .device ⟨false, 5, 0⟩, .stopped, .device ⟨true, 4, 2⟩] := rfl

/-- Within one scan, whatever the threads interleave, an address is found at most once,
and it is updated only after it was found, with the same object. Only a report decided
before the scan may precede its own. -/
theorem found_once_per_scan {b : Bool}
    (hreach : Reachable AdapterLinux.step (AdapterLinux.initial b) s) :
    ((foundIn (ownReports s.log)).map Prod.fst).Nodup ∧
      ∀ n r, (ownReports s.log)[n]? = some r → r.found = false →
        (r.address, r.peripheral) ∈ foundIn ((ownReports s.log).take n) := by
  have h := (ScanInv.of_reachable hreach).collected
  obtain ⟨pending, hpending⟩ := ownReports_decided s
  refine ⟨ownReports_keys_nodup hreach, ?_⟩
  intro n r hn hr
  have hlt : n < (ownReports s.log).length := (List.getElem?_eq_some_iff.mp hn).1
  have hn' : s.decided[n]? = some r := by
    rw [← hpending, List.getElem?_append_left hlt]
    exact hn
  have hfound := h.updated_found n r hn' hr
  rw [← hpending, List.take_append_of_le_length (by omega)] at hfound
  exact hfound

theorem strayed_found_once : ((foundIn (ownReports strayed.log)).map Prod.fst).Nodup ∧
    ∀ n r, (ownReports strayed.log)[n]? = some r → r.found = false →
      (r.address, r.peripheral) ∈ foundIn ((ownReports strayed.log).take n) :=
  found_once_per_scan strayed_reachable

/-- Unless the bus thread is between storing a device and reporting it,
`scan_get_results` are the objects the scan has reported as found, by address. -/
theorem scanGetResults_eq {b : Bool}
    (hreach : Reachable AdapterLinux.step (AdapterLinux.initial b) s)
    (hhand : s.inHand = []) :
    s.scanGetResults =
      ((foundIn (ownReports s.log)).insertionSort (fun a b => a.1 ≤ b.1)).map Prod.snd := by
  have h := (ScanInv.of_reachable hreach).collected
  have hdecided : s.decided = ownReports s.log := by
    rw [AdapterLinux.decided, hhand, List.append_nil]
    rfl
  have hperm : s.seenPeripherals.Perm
      ((foundIn (ownReports s.log)).insertionSort (fun a b => a.1 ≤ b.1)) := by
    rw [← hdecided]
    exact h.seen_perm.trans (List.perm_insertionSort _ _).symm
  have hsorted : s.seenPeripherals.Pairwise (fun a b => a.1 ≤ b.1) :=
    (List.pairwise_map.mp h.seen_sorted).imp le_of_lt
  have hkeys : (s.seenPeripherals.map Prod.fst).Nodup := h.seen_sorted.imp ne_of_lt
  have heq : s.seenPeripherals =
      (foundIn (ownReports s.log)).insertionSort (fun a b => a.1 ≤ b.1) := by
    refine List.Perm.eq_of_pairwise ?_ hsorted (List.pairwise_insertionSort _ _) hperm
    -- one entry for each address
    intro a b ha hb hab hba
    exact List.inj_on_of_nodup_map hkeys ha (hperm.mem_iff.mpr hb) (le_antisymm hab hba)
  rw [AdapterLinux.scanGetResults, heq]

theorem strayed_results : strayed.scanGetResults = [1, 2, 0] := by
  rw [scanGetResults_eq strayed_reachable rfl]
  rfl

/-- On the way from `s` to `t`, if the flag is down in `s` and no start is announced, no
callback passes the check, and the devices reported are those admitted before. -/
def OnlyAdmitted (s t : AdapterLinux Address) : Prop :=
  ∃ later, t.log = s.log ++ later ∧ (s.isScanning = false → s.pc ≠ .flagging →
    .started ∉ later → t.isScanning = false ∧ t.pc ≠ .flagging ∧
      (devices later).map DeviceReport.address ++ t.admitted = s.admitted)

namespace OnlyAdmitted
omit [LinearOrder Address]

/-- Nothing is added to the log. -/
theorem silent (hlog : t.log = s.log) (hkeep : s.isScanning = false → s.pc ≠ .flagging →
    t.isScanning = false ∧ t.pc ≠ .flagging ∧ t.admitted = s.admitted) : OnlyAdmitted s t :=
  ⟨[], by rw [hlog, List.append_nil], fun hoff hflag _ => hkeep hoff hflag⟩

theorem trans {u : AdapterLinux Address} (h : OnlyAdmitted s t) (h' : OnlyAdmitted t u) :
    OnlyAdmitted s u := by
  obtain ⟨early, hlog, hearly⟩ := h
  obtain ⟨later, hlog', hlater⟩ := h'
  refine ⟨early ++ later, by rw [hlog', hlog, List.append_assoc], ?_⟩
  intro hoff hflag hno
  rw [List.mem_append, not_or] at hno
  obtain ⟨hdown, hpc, hbefore⟩ := hearly hoff hflag hno.1
  obtain ⟨hdown', hpc', hafter⟩ := hlater hdown hpc hno.2
  refine ⟨hdown', hpc', ?_⟩
  rw [devices_append, List.map_append, List.append_assoc, hafter, hbefore]

end OnlyAdmitted

theorem ScanMove.onlyAdmitted (hmove : ScanMove s t) : OnlyAdmitted s t := by
  cases hmove with
  | clears hpc =>
    exact ⟨[.cleared _], rfl, fun hoff _ _ => ⟨hoff, by simp [AdapterLinux.goto], rfl⟩⟩
  | loads hpc hnext =>
    refine .silent rfl fun hoff _ => ⟨hoff, ?_, rfl⟩
    rcases hnext with rfl | ⟨source', rfl⟩ <;> simp [AdapterLinux.goto]
  | discovers hpc hnext | stops hpc hnext =>
    refine .silent rfl fun hoff _ => ⟨hoff, ?_, rfl⟩
    rcases hnext with rfl | rfl <;> simp [AdapterLinux.goto]
  | announcesStart hpc =>
    exact ⟨[.started], rfl, fun _ _ hno => absurd (List.mem_singleton_self _) hno⟩
  -- the flag goes up only after a start was announced
  | raises hpc => exact .silent rfl fun _ hflag => absurd hpc hflag
  | lowers hpc => exact .silent rfl fun _ _ => ⟨rfl, by simp [AdapterLinux.goto], rfl⟩
  | announcesStop hpc =>
    exact ⟨[.stopped], rfl, fun hoff _ _ => ⟨hoff, by simp [AdapterLinux.goto], rfl⟩⟩
  | misses => exact .silent rfl fun hoff hflag => ⟨hoff, hflag, rfl⟩
  | admits hup hscan =>
    refine .silent rfl fun hoff _ => ?_
    exact absurd (hscan.symm.trans hoff) (by simp)
  -- a callback keeps its device until it reports it
  | takes address hup _ | refuses hup _ | updates hup _ | finds hup _ =>
    refine .silent rfl fun hoff hflag => ⟨hoff, hflag, ?_⟩
    rw [AdapterLinux.admitted, AdapterLinux.admitted, hup]
    rfl
  | @remembers source address hup =>
    obtain ⟨peripherals, created, heq⟩ := s.remember_eq address
    rw [heq]
    refine .silent rfl fun hoff hflag => ⟨hoff, hflag, ?_⟩
    rw [AdapterLinux.admitted, AdapterLinux.admitted, hup]
    rfl
  | @reports source report hup =>
    refine ⟨[.device report], rfl, fun hoff hflag _ => ⟨hoff, hflag, ?_⟩⟩
    rw [AdapterLinux.admitted, AdapterLinux.admitted, hup]
    rfl

theorem onlyAdmitted_of_reachable (hlate : Reachable AdapterLinux.step s t) : OnlyAdmitted s t :=
  hlate.invariant (OnlyAdmitted s) (.silent rfl fun hoff hflag => ⟨hoff, hflag, rfl⟩)
    (fun _ _ _ h hs => h.trans (scanMove_of_step hs).onlyAdmitted)

omit [LinearOrder Address] in
theorem admitted_length_le (s : AdapterLinux Address) : s.admitted.length ≤ 1 := by
  rw [AdapterLinux.admitted]
  cases s.updating with
  | none => exact Nat.zero_le 1
  | some u =>
    obtain ⟨source, pc⟩ := u
    cases pc <;> simp

/-- From the end of a scan, when `scan_stop` has lowered the flag and is about to announce
it, until the next start is announced, at most one report is made: the one the callback
still owes that had passed its check by then. -/
theorem at_most_one_straggler {b : Bool}
    (hreach : Reachable AdapterLinux.step (AdapterLinux.initial b) s)
    (hstop : s.pc = .notifyingStop) (hlate : Reachable AdapterLinux.step s t) :
    ∃ later, t.log = s.log ++ later ∧ (.started ∉ later → (devices later).length ≤ 1 ∧
      (devices later).map DeviceReport.address ++ t.admitted = s.admitted) := by
  have hoff := (ScanInv.of_reachable hreach).stopping_flag hstop
  obtain ⟨later, hlog, hlater⟩ := onlyAdmitted_of_reachable hlate
  refine ⟨later, hlog, fun hno => ?_⟩
  obtain ⟨-, -, hadmitted⟩ := hlater hoff (by rw [hstop]; simp) hno
  refine ⟨?_, hadmitted⟩
  have hlength := congrArg List.length hadmitted
  rw [List.length_append, List.length_map] at hlength
  have hle := admitted_length_le s
  omega

theorem strayed_straggler : ∃ later, strayed.log = stopping.log ++ later ∧ (.started ∉ later →
    (devices later).length ≤ 1 ∧
      (devices later).map DeviceReport.address ++ strayed.admitted = stopping.admitted) :=
  at_most_one_straggler stopping_reachable rfl strayed_later

/-- Over all scans an address has one object, and no two addresses share one. -/
theorem same_object_iff {b : Bool}
    (hreach : Reachable AdapterLinux.step (AdapterLinux.initial b) s)
    {r r' : DeviceReport Address} (hr : ScanEntry.device r ∈ s.log)
    (hr' : ScanEntry.device r' ∈ s.log) :
    r.peripheral = r'.peripheral ↔ r.address = r'.address := by
  have h := (ScanInv.of_reachable hreach).registered
  have hmem : ∀ r : DeviceReport Address, ScanEntry.device r ∈ s.log → r ∈ devices s.log :=
    fun r hr => List.mem_filterMap.mpr ⟨_, hr, rfl⟩
  have hown := object_of_report hreach (hmem r hr)
  have hown' := object_of_report hreach (hmem r' hr')
  constructor
  · intro heq
    rw [← heq] at hown'
    exact h.distinct _ _ _ hown hown'
  · intro heq
    rw [← heq, hown, Option.some.injEq] at hown'
    exact hown'

theorem strayed_same_object :
    (⟨true, 5, 0⟩ : DeviceReport ℕ).peripheral = (⟨false, 5, 0⟩ : DeviceReport ℕ).peripheral ↔
      (⟨true, 5, 0⟩ : DeviceReport ℕ).address = (⟨false, 5, 0⟩ : DeviceReport ℕ).address :=
  same_object_iff strayed_reachable (by decide) (by decide)

end RCControl
