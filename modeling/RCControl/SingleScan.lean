import RCControl.AdapterScan

/-! A program that scans once: the reports of its scan are all the reports there are. -/
namespace RCControl
open StepSystem

variable {Address : Type} [LinearOrder Address] {s t : AdapterLinux Address}

/-- Before the first `scan_start` no callback is loaded, and the reports of a first scan
are all the reports there are. -/
structure FirstScan (s : AdapterLinux Address) : Prop where
  untouched : clearings s.log = 0 → (∀ source, s.loaded source = false) ∧ s.updating = none ∧
    devices s.log = [] ∧ ∀ source, s.pc ≠ .loading source
  whole : clearings s.log = 1 → scanReports s.log = devices s.log ∧ leftover s.log = false

namespace FirstScan

omit [LinearOrder Address] in
theorem initial (b : Bool) : FirstScan (AdapterLinux.initial b : AdapterLinux Address) := by
  constructor
  · simp [AdapterLinux.initial, devices]
  · simp [AdapterLinux.initial, clearings]

omit [LinearOrder Address] in
/-- A statement of the main thread that does not clear. -/
theorem main (h : FirstScan s) (hlog : t.log = s.log) (hupdating : t.updating = s.updating)
    (hloaded : (∀ source, s.pc ≠ .loading source) → t.loaded = s.loaded)
    (hpc : ∀ source, t.pc = .loading source → ∃ source', s.pc = .loading source') :
    FirstScan t := by
  constructor
  · rw [hlog]
    intro hnone
    obtain ⟨hoff, hidle, hdevices, hpcs⟩ := h.untouched hnone
    refine ⟨?_, hupdating.trans hidle, hdevices, ?_⟩
    · rw [hloaded hpcs]
      exact hoff
    · intro source hload
      obtain ⟨source', hsource⟩ := hpc source hload
      exact hpcs source' hsource
  · rw [hlog]
    exact h.whole

omit [LinearOrder Address] in
/-- Once a scan was started only the log matters. -/
theorem later (h : FirstScan s) (hlog : t.log = s.log) (hstarted : clearings s.log ≠ 0) :
    FirstScan t := by
  constructor
  · rw [hlog]
    intro hnone
    exact absurd hnone hstarted
  · rw [hlog]
    exact h.whole

omit [LinearOrder Address] in
theorem announce (h : FirstScan s) {e : ScanEntry Address} {pc : ScanPc}
    (he : e = .started ∨ e = .stopped) (hpc : ∀ source, pc ≠ .loading source) :
    FirstScan ((s.tell e).goto pc) := by
  obtain ⟨hdevices, hreports, hleft⟩ := announcement_eq s.log he
  have hclearings : clearings (s.log ++ [e]) = clearings s.log := by
    rw [clearings, List.countP_append]
    rcases he with he | he <;> rw [he] <;> rfl
  constructor
  · show clearings (s.log ++ [e]) = 0 → _ ∧ _ ∧ devices (s.log ++ [e]) = [] ∧ _
    rw [hclearings, hdevices]
    intro hnone
    obtain ⟨hoff, hidle, hnothing, -⟩ := h.untouched hnone
    exact ⟨hoff, hidle, hnothing, hpc⟩
  · show clearings (s.log ++ [e]) = 1 → scanReports (s.log ++ [e]) = devices (s.log ++ [e]) ∧
      leftover (s.log ++ [e]) = false
    rw [hclearings, hreports, hdevices, hleft]
    exact h.whole

omit [LinearOrder Address] in
theorem start (h : FirstScan s) : FirstScan ((({ s with seenPeripherals := [] } :
    AdapterLinux Address).tell (.cleared (s.inHand ≠ []))).goto (.loading .childCreated)) := by
  have hclearings : clearings (s.log ++ [.cleared (s.inHand ≠ [])]) = clearings s.log + 1 := by
    rw [clearings, List.countP_append]
    rfl
  constructor
  · show clearings (s.log ++ [.cleared (s.inHand ≠ [])]) = 0 → _
    rw [hclearings]
    intro hnone
    exact absurd hnone (Nat.succ_ne_zero _)
  · show clearings (s.log ++ [.cleared (s.inHand ≠ [])]) = 1 →
      scanReports (s.log ++ [.cleared (s.inHand ≠ [])]) =
        devices (s.log ++ [.cleared (s.inHand ≠ [])]) ∧
      leftover (s.log ++ [.cleared (s.inHand ≠ [])]) = false
    rw [hclearings, scanReports_cleared, leftover_cleared, devices_append]
    intro hone
    obtain ⟨-, hidle, hnothing, -⟩ := h.untouched (Nat.succ.inj hone)
    rw [hnothing, AdapterLinux.inHand, hidle]
    exact ⟨rfl, decide_eq_false (fun hne => hne rfl)⟩

omit [LinearOrder Address] in
theorem report (h : FirstScan s) {source : UpdateSource} {report : DeviceReport Address}
    (hup : s.updating = some (source, .reporting report)) :
    FirstScan ((s.tell (.device report)).turn none) := by
  have hclearings : clearings (s.log ++ [.device report]) = clearings s.log := by
    rw [clearings, List.countP_append]
    rfl
  constructor
  · show clearings (s.log ++ [.device report]) = 0 → _
    rw [hclearings]
    intro hnone
    have hidle := (h.untouched hnone).2.1
    rw [hup] at hidle
    exact absurd hidle (by simp)
  · show clearings (s.log ++ [.device report]) = 1 →
      scanReports (s.log ++ [.device report]) = devices (s.log ++ [.device report]) ∧
        leftover (s.log ++ [.device report]) = false
    rw [hclearings, scanReports_device, devices_append, leftover_snoc _ (by simp)]
    intro hone
    obtain ⟨hwhole, hleft⟩ := h.whole hone
    rw [hwhole]
    exact ⟨rfl, hleft⟩

theorem move (h : FirstScan s) (hmove : ScanMove s t) : FirstScan t := by
  have hbusy : s.updating ≠ none → clearings s.log ≠ 0 :=
    fun hup hnone => hup (h.untouched hnone).2.1
  cases hmove with
  | clears hpc => exact h.start
  | @loads source pc hpc _ =>
    exact h.main rfl rfl (fun hno => absurd hpc (hno source)) (fun _ _ => ⟨source, hpc⟩)
  | discovers hpc hnext | stops hpc hnext =>
    refine h.main rfl rfl (fun _ => rfl) ?_
    rcases hnext with rfl | rfl <;> simp [AdapterLinux.goto]
  | raises hpc | lowers hpc =>
    exact h.main rfl rfl (fun _ => rfl) (by simp [AdapterLinux.goto])
  | announcesStart hpc => exact h.announce (Or.inl rfl) (by simp)
  | announcesStop hpc => exact h.announce (Or.inr rfl) (by simp)
  | @takes source address hup hloaded =>
    -- a callback is loaded only by a scan
    refine h.later rfl ?_
    intro hnone
    have hoff := (h.untouched hnone).1 source
    exact absurd (hloaded.symm.trans hoff) (by simp)
  | misses => exact h
  | admits hup _ | refuses hup _ | updates hup _ | finds hup _ =>
    exact h.later rfl (hbusy (by rw [hup]; simp))
  | @remembers source address hup =>
    obtain ⟨peripherals, created, heq⟩ := s.remember_eq address
    rw [heq]
    exact h.later rfl (hbusy (by rw [hup]; simp))
  | reports hup => exact h.report hup

end FirstScan

/-- If `scan_start` is called once, its reports are all there ever are. -/
theorem ownReports_of_one_scan {b : Bool}
    (hreach : Reachable AdapterLinux.step (AdapterLinux.initial b) s)
    (hone : clearings s.log ≤ 1) : ownReports s.log = devices s.log := by
  have h : FirstScan s :=
    hreach.invariant FirstScan (FirstScan.initial b)
      (fun _ _ _ h hs => h.move (scanMove_of_step hs))
  by_cases hnone : clearings s.log = 0
  · obtain ⟨-, -, hdevices, -⟩ := h.untouched hnone
    have hreports : scanReports s.log = [] :=
      List.subset_nil.mp (hdevices ▸ scanReports_subset s.log)
    rw [ownReports, hreports, hdevices, List.drop_nil]
  · obtain ⟨hwhole, hleft⟩ := h.whole (by omega)
    rw [ownReports, hleft, hwhole]
    rfl

end RCControl
