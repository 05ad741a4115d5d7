import RCControl.BusMirror
import RCControl.OrderedForest
import Mathlib.Data.List.Induction

/-! Which objects the tree of `Bluez` has after a run, in terms of the signals alone. -/
namespace RCControl
open ReplayLog

variable {Name Value : Type} [DecidableEq Name]

namespace BusEvent

omit [DecidableEq Name]

/-- The removal of the object at `path` or of one above it. -/
def Removes (path : ObjectPath) : BusEvent Name Value → Prop
  | interfacesRemoved p _ _ => p <+: path
  | _ => False

/-- The announcement of the object at `path` or of one below it. -/
def Adds (path : ObjectPath) : BusEvent Name Value → Prop
  | interfacesAdded p _ => path <+: p
  | _ => False

/-- A removal does not find another owner of the object or of one below it. -/
def Unowned (path : ObjectPath) : BusEvent Name Value → Prop
  | interfacesRemoved p _ shared => p <+: path → ∀ r, path <+: r → shared r = false
  | _ => True

end BusEvent

namespace Bluez

theorem present_added_iff {U : Set ObjectPath} (hU : Unconfused U) {s : Bluez Name Value}
    (hs : s.WellFormed U) {p : ObjectPath} (managed : Dict Name (Dict Name Value)) (hp : p ∈ U)
    (hne : p ≠ []) {path : ObjectPath} (hpath : path ≠ []) :
    (s.step (.interfacesAdded p managed)).1.present path = true ↔
      s.present path = true ∨ path <+: p := by
  have hbetween : Between [] p path ↔ path <+: p := by
    constructor
    · exact fun h => h.2.2
    · exact fun h => ⟨List.nil_prefix, Ne.symm hpath, h⟩
  rw [present_added hU hs managed hp hne, Bool.or_eq_true, decide_eq_true_eq, hbetween]

/-- An object leaves the tree only by a removal of it or of an object above it. -/
theorem present_stays {U : Set ObjectPath} (hU : Unconfused U) {s : Bluez Name Value}
    {e : BusEvent Name Value} (hs : s.WellFormed U) (he : e.Of U) {path : ObjectPath}
    (hpath : path ≠ []) (hnot : ¬ e.Removes path) (hpresent : s.present path = true) :
    (s.step e).1.present path = true := by
  cases e with
  | interfacesAdded p managed =>
    obtain ⟨hp, hne⟩ : p ∈ U ∧ p ≠ [] := he
    exact (present_added_iff hU hs managed hp hne hpath).mpr (Or.inl hpresent)
  | interfacesRemoved p removed shared =>
    obtain ⟨hp, hne⟩ : p ∈ U ∧ p ≠ [] := he
    obtain ⟨-, hrem⟩ := removed_spec hU hs removed shared hp hne
    have hpp : path ≠ p := by
      rintro rfl
      exact hnot List.prefix_rfl
    obtain ⟨d, hd⟩ := Option.isSome_iff_exists.mp hpresent
    have hafter : (s.step (.interfacesRemoved p removed shared)).1.object path = some d := by
      apply (hrem path d).mpr
      rw [dropAt, if_neg hpp]
      exact ⟨hd, fun habove => absurd habove hnot⟩
    rw [present, hafter]
    rfl
  | message m =>
    rw [present_message hU hs m he.1 he.2]
    exact hpresent

/-- An object comes into the tree only by an announcement of it or of one below it. -/
theorem present_before {U : Set ObjectPath} (hU : Unconfused U) {s : Bluez Name Value}
    {e : BusEvent Name Value} (hs : s.WellFormed U) (he : e.Of U) {path : ObjectPath}
    (hpath : path ≠ []) (hnot : ¬ e.Adds path) (hpresent : (s.step e).1.present path = true) :
    s.present path = true := by
  cases e with
  | interfacesAdded p managed =>
    obtain ⟨hp, hne⟩ : p ∈ U ∧ p ≠ [] := he
    exact ((present_added_iff hU hs managed hp hne hpath).mp hpresent).resolve_right hnot
  | interfacesRemoved p removed shared =>
    obtain ⟨hp, hne⟩ : p ∈ U ∧ p ≠ [] := he
    exact present_of_removed hU hs hp hne hpresent
  | message m =>
    rw [present_message hU hs m he.1 he.2] at hpresent
    exact hpresent

/-- What is left in the subtree of a removed object has something loaded below it. -/
theorem loaded_of_survivor {U : Set ObjectPath} (hU : Unconfused U) {s : Bluez Name Value}
    {e : BusEvent Name Value} (hs : s.WellFormed U) (he : e.Of U) {path : ObjectPath}
    (hremoves : e.Removes path) (hunowned : e.Unowned path)
    (hpresent : (s.step e).1.present path = true) :
    ∃ r name, path <+: r ∧ (s.step e).1.loaded r name = true := by
  cases e with
  | interfacesAdded p managed => exact absurd hremoves id
  | message m => exact absurd hremoves id
  | interfacesRemoved p removed shared =>
    obtain ⟨hp, hne⟩ : p ∈ U ∧ p ≠ [] := he
    obtain ⟨-, hrem⟩ := removed_spec hU hs removed shared hp hne
    obtain ⟨d, hd⟩ := Option.isSome_iff_exists.mp hpresent
    obtain ⟨r, w, hr, hw, hkept⟩ := ((hrem path d).mp hd).2 hremoves
    have hloaded : w.interfacesLoaded = true := by
      rw [kept, hunowned hremoves r hr, Bool.false_or] at hkept
      exact hkept
    obtain ⟨name, hname⟩ := (ProxyData.interfacesLoaded_iff w).mp hloaded
    -- what keeps the object keeps itself
    have hafter : (s.step (.interfacesRemoved p removed shared)).1.object r = some w := by
      apply (hrem r w).mpr
      exact ⟨hw, fun _ => ⟨r, w, List.prefix_rfl, hw, hkept⟩⟩
    refine ⟨r, name, hr, ?_⟩
    rw [loaded, hafter]
    exact hname

theorem present_of_loaded_below {U : Set ObjectPath} {s : Bluez Name Value} (hs : s.WellFormed U)
    {path r : ObjectPath} (hpath : path ≠ []) (hr : path <+: r) {name : Name}
    (hloaded : s.loaded r name = true) : s.present path = true := by
  have hpresent : (s.children.find r).isSome = true := by
    cases hd : s.object r with
    | none => simp [loaded, hd] at hloaded
    | some d =>
      rw [object] at hd
      rw [hd]
      rfl
  exact hs.rooted.find_above hpresent hr List.nil_prefix hpath

theorem present_stays_after {U : Set ObjectPath} (hU : Unconfused U) {s : Bluez Name Value}
    (hs : s.WellFormed U) {path : ObjectPath} (hpath : path ≠ [])
    {events : List (BusEvent Name Value)} (hev : ∀ e ∈ events, e.Of U)
    (hnot : ∀ e ∈ events, ¬ e.Removes path) (hpresent : s.present path = true) :
    (s.after events).present path = true := by
  have hstep : ∀ (s : Bluez Name Value) (e : BusEvent Name Value),
      (s.WellFormed U ∧ s.present path = true) → (e.Of U ∧ ¬ e.Removes path) →
      (s.step e).1.WellFormed U ∧ (s.step e).1.present path = true := fun s e hi ho =>
    ⟨wellFormed_step hU s e hi.1 ho.1, present_stays hU hi.1 ho.1 hpath ho.2 hi.2⟩
  exact (replay_invariant _ hstep ⟨hs, hpresent⟩ (fun e he => ⟨hev e he, hnot e he⟩)).2

/-- The tree has an object exactly when, since the last removal of it or of an object
above it, it or an object below it has been announced, or had an interface left then. -/
theorem present_iff_signalled {U : Set ObjectPath} (hU : Unconfused U)
    (data : ProxyData Name Value) {events : List (BusEvent Name Value)}
    (hev : ∀ e ∈ events, e.Of U) {path : ObjectPath} (hpath : path ≠ [])
    (hunowned : ∀ e ∈ events, e.Unowned path) :
    ((create data).after events).present path = true ↔
      ∃ before later, events = before ++ later ∧ (∀ e ∈ later, ¬ e.Removes path) ∧
        ((∃ e ∈ later, e.Adds path) ∨
          ∃ r name, path <+: r ∧ BusEvent.standing before r name = true) := by
  constructor
  · intro hpresent
    induction events using List.reverseRecOn with
    | nil =>
      have hnone := create_present data path
      exact absurd (hnone.symm.trans hpresent) (by simp)
    | append_singleton log e ih =>
      have hlog : ∀ e' ∈ log, e'.Of U := fun e' he' => hev e' (List.mem_append_left _ he')
      have he : e.Of U := hev e (by simp)
      have hwf := wellFormed_after hU (create_wellFormed U data) hlog
      have hstep : (create data).after (log ++ [e]) = (((create data).after log).step e).1 :=
        replay_append _ _ _ _
      by_cases hremoves : e.Removes path
      · rw [hstep] at hpresent
        obtain ⟨r, name, hr, hloaded⟩ :=
          loaded_of_survivor hU hwf he hremoves (hunowned e (by simp)) hpresent
        rw [← hstep, loaded_eq_standing hU data hev] at hloaded
        exact ⟨log ++ [e], [], (List.append_nil _).symm, by simp, Or.inr ⟨r, name, hr, hloaded⟩⟩
      · by_cases hadds : e.Adds path
        · refine ⟨log, [e], rfl, ?_, Or.inl ⟨e, by simp, hadds⟩⟩
          intro e' he'
          rw [List.mem_singleton.mp he']
          exact hremoves
        · rw [hstep] at hpresent
          have hbefore := present_before hU hwf he hpath hadds hpresent
          obtain ⟨before, later, rfl, hlater, hreason⟩ := ih hlog
            (fun e' he' => hunowned e' (List.mem_append_left _ he')) hbefore
          refine ⟨before, later ++ [e], (List.append_assoc _ _ _).symm ▸ rfl, ?_, ?_⟩
          · intro e' he'
            rcases List.mem_append.mp he' with he' | he'
            · exact hlater e' he'
            · rw [List.mem_singleton.mp he']
              exact hremoves
          · rcases hreason with ⟨e', he', hadds'⟩ | hstanding
            · exact Or.inl ⟨e', List.mem_append_left _ he', hadds'⟩
            · exact Or.inr hstanding
  · rintro ⟨before, later, rfl, hlater, hreason⟩
    have hof : ∀ e ∈ later, e.Of U := fun e he => hev e (List.mem_append_right _ he)
    have hbefore : ∀ e ∈ before, e.Of U := fun e he => hev e (List.mem_append_left _ he)
    have hsplit : (create data).after (before ++ later) =
        ((create data).after before).after later := replay_append _ _ _ _
    have hwf := wellFormed_after hU (create_wellFormed U data) hbefore
    rw [hsplit]
    rcases hreason with ⟨e, he, hadds⟩ | ⟨r, name, hr, hstanding⟩
    · obtain ⟨l₁, l₂, rfl⟩ := List.append_of_mem he
      have hwf₁ : (((create data).after before).after l₁).WellFormed U :=
        wellFormed_after hU hwf (fun e' he' => hof e' (by simp [he']))
      have hadded : ((((create data).after before).after l₁).step e).1.present path = true := by
        cases e with
        | interfacesRemoved p removed shared => exact absurd hadds id
        | message m => exact absurd hadds id
        | interfacesAdded p managed =>
          obtain ⟨hp, hne⟩ : p ∈ U ∧ p ≠ [] := hof _ he
          exact (present_added_iff hU hwf₁ managed hp hne hpath).mpr (Or.inr hadds)
      have hrun : ((create data).after before).after (l₁ ++ e :: l₂) =
          ((((create data).after before).after l₁).step e).1.after l₂ := replay_append _ _ _ _
      rw [hrun]
      apply present_stays_after hU (wellFormed_step hU _ e hwf₁ (hof e he)) hpath
      · exact fun e' he' => hof e' (by simp [he'])
      · exact fun e' he' => hlater e' (by simp [he'])
      · exact hadded
    · rw [← loaded_eq_standing hU data hbefore] at hstanding
      exact present_stays_after hU hwf hpath hof hlater (present_of_loaded_below hwf hpath hr hstanding)

/-- A device that was announced and then removed. -/
theorem removedDevice_present_iff :
    ((create .create).after [deviceAdded, deviceRemoved]).present devicePath = true ↔
      ∃ before later, [deviceAdded, deviceRemoved] = before ++ later ∧
        (∀ e ∈ later, ¬ e.Removes devicePath) ∧
        ((∃ e ∈ later, e.Adds devicePath) ∨
          ∃ r name, devicePath <+: r ∧ BusEvent.standing before r name = true) := by
  apply present_iff_signalled bluezPaths_unconfused .create
  · intro e he
    simp only [List.mem_cons, List.not_mem_nil, or_false] at he
    rcases he with rfl | rfl
    · exact of_bluezPaths rfl
    · exact of_bluezPaths rfl
  · decide
  · intro e he
    simp only [List.mem_cons, List.not_mem_nil, or_false] at he
    rcases he with rfl | rfl
    · exact trivial
    · exact fun _ _ _ => rfl

end Bluez
end RCControl
