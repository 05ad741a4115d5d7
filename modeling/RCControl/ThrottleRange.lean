import RCControl.HotasInputs
import RCControl.NearInteger

/-! The percentage that `convert_to_percent` computes, whatever the rounding of its
quotient, and the range of the throttle in every interleaving. -/
namespace RCControl
open StepSystem

/-- The law of the axis: 0 at the lower end of the lever, 100 at the upper. -/
def axisPercent (v : ℤ) : ℤ := ⌊(100 * (32767 - v) / 65534 : ℚ)⌋

theorem axisPercent_eq_ediv (v : ℤ) : axisPercent v = 100 * (32767 - v) / 65534 := by
  have h := Rat.floor_intCast_div_natCast (100 * (32767 - v)) 65534
  push_cast at h
  exact h

/-- The rounded quotient of a 16-bit value is never carried to another integer. -/
theorem convertToPercent_eq_axisPercent (fl : FloatRounding) (v : ℤ) (hlo : -32768 ≤ v)
    (hhi : v ≤ 32767) : convertToPercent fl v = axisPercent v := by
  -- the source divides by the negative of the travel
  have hquot : (((v - 32767) * 100 : ℤ) / (-65534 : ℚ)) =
      ((100 * (32767 - v) : ℤ) : ℚ) / ((65534 : ℤ) : ℚ) := by
    push_cast
    ring
  -- the numerator stays below `2^24`, which is all the distance argument needs
  have hnum : |((100 * (32767 - v) : ℤ) : ℚ)| * (1 / 2^24) < 1 := by
    have hle : |100 * (32767 - v)| ≤ 6553500 := by rw [abs_le]; omega
    have hleQ : |((100 * (32767 - v) : ℤ) : ℚ)| ≤ 6553500 := by exact_mod_cast hle
    linarith
  -- an integer quotient is small enough to be representable
  have hexact : (65534 : ℤ) ∣ 100 * (32767 - v) →
      fl.round (((100 * (32767 - v) : ℤ) : ℚ) / ((65534 : ℤ) : ℚ)) =
        ((100 * (32767 - v) : ℤ) : ℚ) / ((65534 : ℤ) : ℚ) := by
    intro hdvd
    rw [← Int.cast_div hdvd (by norm_num)]
    apply fl.int_exact
    rw [abs_le]
    omega
  have hfloor := NearInteger.floor_rounded_quotient (by norm_num) hnum hexact (fl.rel_err _)
  -- so that truncation is the floor
  have hnonneg : 0 ≤ fl.round (((100 * (32767 - v) : ℤ) : ℚ) / ((65534 : ℤ) : ℚ)) := by
    apply Int.floor_nonneg.mp
    rw [hfloor]
    omega
  rw [convertToPercent_eq fl v hlo hhi, hquot, truncate, if_pos hnonneg, hfloor,
    axisPercent_eq_ediv]

theorem axisPercent_range (v : ℤ) (hlo : -32768 ≤ v) (hhi : v ≤ 32767) :
    0 ≤ axisPercent v ∧ axisPercent v ≤ 100 := by
  rw [axisPercent_eq_ediv]
  omega

theorem axisPercent_antitone {v w : ℤ} (h : v ≤ w) : axisPercent w ≤ axisPercent v := by
  rw [axisPercent_eq_ediv, axisPercent_eq_ediv]
  omega

theorem JsEvent.convertToPercent_value (fl : FloatRounding) (e : JsEvent) :
    convertToPercent fl e.value.toInt = axisPercent e.value.toInt :=
  convertToPercent_eq_axisPercent fl _ e.value.le_toInt (Int.le_of_lt_add_one e.value.toInt_lt)

theorem JsEvent.axisPercent_value_range (e : JsEvent) :
    0 ≤ axisPercent e.value.toInt ∧ axisPercent e.value.toInt ≤ 100 :=
  axisPercent_range _ e.value.le_toInt (Int.le_of_lt_add_one e.value.toInt_lt)

theorem lastPercent_range (fl : FloatRounding) (p : JsEvent → Bool) (es : List JsEvent) :
    0 ≤ lastPercent fl p es ∧ lastPercent fl p es ≤ 100 := by
  unfold lastPercent
  split
  · omega
  · next e _ =>
    rw [e.convertToPercent_value]
    exact e.axisPercent_value_range

/-- The throttle keeps to its range and to the law of the axis in every
interleaving: right after the store of a change report of axis 2, and still when
`hotas_inputs` is back at its loop head; and the law is antitone. -/
theorem throttle_keeps_axis_law (env : Env) :
    (∀ s, Reachable (step env) (.initial env) s →
      0 ≤ s.throttlePosition ∧ s.throttlePosition ≤ 100) ∧
    (∀ s t percent, Reachable (step env) (.initial env) s → s.hotas.pc = .storing percent →
      step env .hotasInputs s = some t →
      ∃ before e, env.reads = before ++ .event e :: s.hotas.reads ∧ e.changesThrottle = true ∧
        t.throttlePosition = axisPercent e.value.toInt) ∧
    (∀ s before e, Reachable (step env) (.initial env) s → s.hotas.pc = .head →
      env.reads = before ++ .event e :: s.hotas.reads → e.changesThrottle = true →
      s.throttlePosition = axisPercent e.value.toInt) ∧
    ∀ v w : Int16, v.toInt ≤ w.toInt →
      convertToPercent env.fl w.toInt ≤ convertToPercent env.fl v.toInt := by
  refine ⟨?_, ?_, ?_, ?_⟩
  · intro s hreach
    obtain ⟨es, htracked⟩ := Tracked.reachable hreach
    rw [htracked.throttle]
    exact lastPercent_range env.fl _ es
  · intro s t percent hreach hstoring hstep
    obtain ⟨es, htracked⟩ := Tracked.reachable hreach
    have hpending := htracked.pending
    rw [hstoring] at hpending
    obtain ⟨e, hreads, hchange, hpercent⟩ := hpending
    refine ⟨es.map .event, e, hreads, hchange, ?_⟩
    -- the value about to be stored is the one the event asked for
    have ht := (move_of_step hstep).2.store hstoring
    calc t.throttlePosition = percent := by rw [ht]
      _ = convertToPercent env.fl e.value.toInt := hpercent
      _ = axisPercent e.value.toInt := e.convertToPercent_value env.fl
  · intro s before e hreach hhead hsplit hchange
    obtain ⟨es, htracked⟩ := Tracked.reachable hreach
    have hreads := htracked.pending
    rw [hhead] at hreads
    -- the events completed are those read, the last of which is `e`
    have hevents : es.map .event = before ++ [.event e] := by
      have hsame : es.map .event ++ s.hotas.reads = (before ++ [.event e]) ++ s.hotas.reads := by
        rw [List.append_assoc, List.singleton_append, ← hsplit]
        exact hreads.symm
      exact List.append_cancel_right hsame
    rcases List.eq_nil_or_concat es with rfl | ⟨es', e', rfl⟩
    · simp at hevents
    · rw [List.concat_eq_append, List.map_append, List.map_singleton] at hevents
      obtain ⟨-, he⟩ := List.append_inj' hevents rfl
      obtain rfl : e' = e := ReadResult.event.inj (List.singleton_inj.mp he)
      calc s.throttlePosition
          = lastPercent env.fl JsEvent.changesThrottle (es' ++ [e']) := by
            rw [htracked.throttle, List.concat_eq_append]
        _ = convertToPercent env.fl e'.value.toInt :=
            lastPercent_snoc_of_true _ _ _ _ hchange
        _ = axisPercent e'.value.toInt := e'.convertToPercent_value env.fl
  · intro v w hle
    rw [convertToPercent_eq_axisPercent env.fl _ v.le_toInt (Int.le_of_lt_add_one v.toInt_lt),
      convertToPercent_eq_axisPercent env.fl _ w.le_toInt (Int.le_of_lt_add_one w.toInt_lt)]
    exact axisPercent_antitone hle

/-- A stick at the end of its travel where the exact quotient exceeds 100. -/
def fullThrottleEnv : Env where
  fl := .exact
  library := headsetRoom.library
  opens := true
  reads := [.event ⟨-32768, jsEventAxis, 2⟩]

theorem throttle_at_full_deflection :
    ∃ s, Reachable (step fullThrottleEnv) (.initial fullThrottleEnv) s ∧
      s.hotas.reads = [] ∧ s.throttlePosition = 100 := by
  have hrun : (exec (step fullThrottleEnv) (.main :: List.replicate 7 .hotasInputs)
      (.initial fullThrottleEnv)).map (fun s => (s.hotas.pc, s.hotas.reads)) =
        some (.head, []) := by decide +kernel
  obtain ⟨s, hs, hstate⟩ := Option.map_eq_some_iff.mp hrun
  obtain ⟨hpc, hreads⟩ : s.hotas.pc = .head ∧ s.hotas.reads = [] := by simpa using hstate
  -- the last event is the only one
  have hthrottle := (throttle_keeps_axis_law fullThrottleEnv).2.2.1 s [] ⟨-32768, jsEventAxis, 2⟩
    (reachable_of_exec hs) hpc (by rw [hreads]; rfl) rfl
  refine ⟨s, reachable_of_exec hs, hreads, ?_⟩
  rw [hthrottle, axisPercent_eq_ediv]
  rfl

end RCControl
