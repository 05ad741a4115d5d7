import RCControl.ScanCallbacks

/-! Who frees the strings that the scan callbacks obtain, and what becomes of the
peripheral handle they are given. -/
namespace RCControl
open Resumption

/-- The getters whose strings the caller has to free. -/
def LibCall.getsString : LibCall → Bool
  | .adapterIdentifier _ | .peripheralIdentifier _ | .peripheralAddress _ => true
  | _ => false

/-- The string a call frees, by the number of the call that obtained it. -/
def LibCall.frees : LibCall → List ℕ
  | .free (.string addr) => [addr]
  | _ => []

/-- The strings obtained by some calls, the first of which has number `n`. -/
def obtained (n : ℕ) : List LogEntry → List ℕ
  | [] => []
  | e :: es => (if e.call.getsString && e.ok then [n] else []) ++ obtained (n + 1) es

def freed (calls : List LogEntry) : List ℕ := calls.flatMap fun e => e.call.frees

theorem freed_append (calls calls' : List LogEntry) :
    freed (calls ++ calls') = freed calls ++ freed calls' :=
  List.flatMap_append

/-- What a callback owes that takes the world from `w` to `u`: each string it obtained
has been freed once, and the handle it was given is in the list or released. -/
structure CallbackContract (e : ScanEvent) (w u : BleWorld) : Prop where
  strings : ∀ t ∈ obtained w.log.length (u.log.drop w.log.length),
    (freed (u.log.drop w.log.length)).count t = 1
  handle : ∀ p, e = .found p →
    u.saved = w.saved ++ [p] ∨ released u.log = released w.log ++ [p]

theorem mem_reported_iff {es : List ScanEvent} {p : Handle} :
    p ∈ reported es ↔ .found p ∈ es := by
  unfold reported
  rw [List.mem_filterMap]
  constructor
  · intro hpost
    obtain ⟨e, he, hp⟩ := hpost
    -- only a report carries a handle
    cases e with
    | found q =>
      obtain rfl : q = p := Option.some.inj hp
      exact he
    | _ => cases hp
  · intro h
    exact ⟨_, h, rfl⟩

section Callbacks
variable {library : Library} {adapter peripheral : Handle} {w : BleWorld}

theorem reportAdapter_strings (library : Library) (adapter : Handle) (w : BleWorld)
    (line : String → Output) :
    (reportAdapter line adapter).Wp (perform library .scanCallback) w (fun _ u =>
      ∃ calls, u.log = w.log ++ calls ∧
        ∀ t ∈ obtained w.log.length calls, (freed calls).count t = 1) := by
  have hcalled : (w.called library .scanCallback (.adapterIdentifier adapter)).log = w.log ++
      [⟨.scanCallback, .adapterIdentifier adapter,
        (w.ask library (.adapterIdentifier adapter)).isSome⟩] := rfl
  have haddr : ∀ identifier, w.ask library (.adapterIdentifier adapter) = some identifier →
      identifier.addr = w.log.length := by
    intro identifier h
    obtain ⟨text, -, rfl⟩ := Option.map_eq_some_iff.mp h
    rfl
  unfold reportAdapter
  rw [wp_simpleble_bind]
  cases hask : w.ask library (.adapterIdentifier adapter) with
  | none =>
    refine ⟨_, hcalled, ?_⟩
    simp [hask, obtained]
  | some identifier =>
    rw [wp_printf_bind, wp_simpleble]
    refine ⟨_, by rw [BleWorld.called, BleWorld.printed, hcalled, List.append_assoc], ?_⟩
    simp [hask, obtained, freed, LibCall.getsString, LibCall.frees, haddr identifier hask]

theorem savePeripheral_strings : (savePeripheral peripheral).Wp (perform library .scanCallback) w
    (fun o u => o = .value () ∧ ∃ calls, u.log = w.log ++ calls ∧ freed calls = []) := by
  unfold savePeripheral
  rw [wp_access_bind (a := w.peripheralListLen) rfl]
  by_cases hroom : w.peripheralListLen < peripheralListSize
  · rw [if_pos hroom, wp_access (by simp only [perform, dif_pos hroom]; rfl)]
    exact ⟨rfl, [], (List.append_nil _).symm, rfl⟩
  · rw [if_neg hroom, wp_simpleble]
    exact ⟨rfl, _, rfl, rfl⟩

/-- The report of a peripheral obtains up to three strings. It frees the last two if it
has got all three, and none otherwise, when it does not keep the handle either. -/
theorem adapterOnScanFound_strings (library : Library) (adapter peripheral : Handle)
    (w : BleWorld) :
    (adapterOnScanFound adapter peripheral).Wp (perform library .scanCallback) w (fun _ u =>
      ∃ calls, u.log = w.log ++ calls ∧
        ((library w.log.length (.adapterIdentifier adapter)).isSome = true →
          w.log.length ∈ obtained w.log.length calls) ∧
        if complete library adapter peripheral w then
          freed calls = [w.log.length + 1, w.log.length + 2]
        else freed calls = [] ∧ u.saved = w.saved ∧ released u.log = released w.log) := by
  -- the calls of the three getters, in any case the first ones
  let getters : List LogEntry :=
    [⟨.scanCallback, .adapterIdentifier adapter,
        (library w.log.length (.adapterIdentifier adapter)).isSome⟩,
      ⟨.scanCallback, .peripheralIdentifier peripheral,
        (library (w.log.length + 1) (.peripheralIdentifier peripheral)).isSome⟩,
      ⟨.scanCallback, .peripheralAddress peripheral,
        (library (w.log.length + 2) (.peripheralAddress peripheral)).isSome⟩]
  have hgetters : (gettersCalled library adapter peripheral w).log = w.log ++ getters := by
    simp [gettersCalled, getters, BleWorld.called, BleWorld.ask, LibCall.answer, LibCall.ok]
  have hobtained : ∀ rest, (library w.log.length (.adapterIdentifier adapter)).isSome = true →
      w.log.length ∈ obtained w.log.length (getters ++ rest) := by
    intro rest hsome
    simp [getters, obtained, LibCall.getsString, hsome]
  have hnone : freed getters = [] := rfl
  apply adapterOnScanFound_getters
  · intro hmissing
    rw [hmissing]
    refine ⟨getters, hgetters, ?_, hnone, rfl, ?_⟩
    · have hlist := hobtained []
      rw [List.append_nil] at hlist
      exact hlist
    · simp [gettersCalled, LibCall.releases]
  · intro hgiven line
    apply Prog.wp_mono savePeripheral_strings
    intro o u hpost
    obtain ⟨ho, calls, hlog, hsaved⟩ := hpost
    let frees : List LogEntry :=
      [⟨.scanCallback, .free (.string (w.log.length + 1)), true⟩,
        ⟨.scanCallback, .free (.string (w.log.length + 2)), true⟩]
    have hfrees : ((u.called library .scanCallback (.free (.string (w.log.length + 1)))).called
        library .scanCallback (.free (.string (w.log.length + 2)))).log = u.log ++ frees := by
      simp [frees, BleWorld.called, LibCall.ok]
    have hall : u.log ++ frees = w.log ++ (getters ++ (calls ++ frees)) := by
      rw [hlog, BleWorld.printed, hgetters, List.append_assoc, List.append_assoc]
    refine ⟨ho, _, hfrees.trans hall, hobtained _, ?_⟩
    rw [if_pos hgiven, freed_append, freed_append, hnone, hsaved]
    rfl

theorem callbackContract_of_report {e : ScanEvent} (h : ∀ p, e ≠ .found p) :
    CallbackContract e w (deliver library adapter w e) := by
  have hreport : ∀ line, CallbackContract e w
      ((reportAdapter line adapter).run (perform library .scanCallback) w).2 := by
    intro line
    obtain ⟨calls, hlog, hstrings⟩ := reportAdapter_strings library adapter w line
    refine ⟨?_, fun p hp => absurd hp (h p)⟩
    rw [hlog, List.drop_left]
    exact hstrings
  cases e with
  | started => exact hreport _
  | stopped => exact hreport _
  | found p => exact absurd rfl (h p)

/-- The report of a peripheral never keeps the contract: it frees the identifier of the
adapter on no path, and without that identifier it does not keep the handle. -/
theorem not_callbackContract_found (library : Library) (adapter peripheral : Handle)
    (w : BleWorld) :
    ¬CallbackContract (.found peripheral) w (deliver library adapter w (.found peripheral)) := by
  intro hcontract
  have hfound := adapterOnScanFound_strings library adapter peripheral w
  unfold Prog.Wp at hfound
  change ∃ calls, (deliver library adapter w (.found peripheral)).log = _ ∧ _ at hfound
  obtain ⟨calls, hlog, hobtained, hfreed⟩ := hfound
  have hstrings := hcontract.strings
  rw [hlog, List.drop_left] at hstrings
  -- the string numbered by the first call is never freed
  have hnever : (freed calls).count w.log.length = 0 := by
    split_ifs at hfreed
    · rw [hfreed]
      simp
    · rw [hfreed.1]
      rfl
  cases hsome : (library w.log.length (.adapterIdentifier adapter)).isSome with
  | true =>
    have honce := hstrings w.log.length (hobtained hsome)
    omega
  -- without it the callback returns early
  | false =>
    have hincomplete : ¬complete library adapter peripheral w = true := by
      simp [complete, hsome]
    rw [if_neg hincomplete] at hfreed
    obtain ⟨-, hsaved, hreleased⟩ := hfreed
    obtain hkept | hgone := hcontract.handle peripheral rfl
    · cases List.self_eq_append_right.mp (hsaved.symm.trans hkept)
    · cases List.self_eq_append_right.mp (hreleased.symm.trans hgone)

end Callbacks

/-- Over any sequence of callbacks and whatever the getters answer, every callback frees
the strings it obtained and keeps or releases its handle exactly when no peripheral is
reported. -/
theorem custody_iff (library : Library) (adapter : Handle) (w : BleWorld) (es : List ScanEvent) :
    (∀ seen e rest, es = seen ++ e :: rest →
      CallbackContract e (deliverAll library adapter seen w)
        (deliverAll library adapter (seen ++ [e]) w)) ↔ reported es = [] := by
  have hlast (seen : List ScanEvent) (e : ScanEvent) : deliverAll library adapter (seen ++ [e]) w =
      deliver library adapter (deliverAll library adapter seen w) e := by
    simp only [deliverAll, List.foldl_append, List.foldl_cons, List.foldl_nil]
  constructor
  · intro hcontract
    by_contra hreported
    obtain ⟨p, hp⟩ := List.exists_mem_of_ne_nil _ hreported
    -- the callback that reports `p` breaks it
    obtain ⟨seen, rest, hsplit⟩ := List.append_of_mem (mem_reported_iff.mp hp)
    have hfound := hcontract seen (.found p) rest hsplit
    rw [hlast] at hfound
    exact not_callbackContract_found library adapter p _ hfound
  · intro hnone seen e rest hsplit
    rw [hlast]
    apply callbackContract_of_report
    intro p he
    have hmem : p ∈ reported es := mem_reported_iff.mpr (by rw [hsplit, he]; simp)
    rw [hnone] at hmem
    cases hmem

/-- One peripheral with all its strings given: the identifier of the adapter, the string
numbered 0, is not freed. -/
theorem custody_fails_on_report :
    ¬∀ seen e rest, [ScanEvent.found 11] = seen ++ e :: rest →
      CallbackContract e (deliverAll headsetRoom.library 7 seen .initial)
        (deliverAll headsetRoom.library 7 (seen ++ [e]) .initial) := by
  intro hcontract
  have hfound := hcontract [] (.found 11) [] rfl
  have hfreed := hfound.strings 0 (by decide)
  revert hfreed
  decide

end RCControl
