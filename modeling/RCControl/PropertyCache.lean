import RCControl.BusInterface
import RCControl.ReplayLog

/-! Runs of the operations on one interface: what those learn who are called when a
property has changed, and what becomes of an invalidated property. -/
namespace RCControl
open ReplayLog

variable {Name Value : Type}

/-- What happens to an interface; `refresh` comes with the reply of the bus, if any. -/
inductive InterfaceEvent (Name Value : Type)
  | load (options : Dict Name Value)
  | unload
  | signal (changed : Dict Name Value) (invalidated : List Name)
  | refresh (name : Name) (reply : Option Value)

variable [DecidableEq Name]

/-- Whether the bus sends a value of the property on its own account. -/
def InterfaceEvent.announces (name : Name) : InterfaceEvent Name Value → Bool
  | .load options => decide (name ∈ options)
  | .signal changed _ => decide (name ∈ changed)
  | _ => false

variable [DecidableEq Value]

namespace Interface

def step (i : Interface Name Value) :
    InterfaceEvent Name Value → Interface Name Value × List Name
  | .load options => i.load options
  | .unload => (i.unload, [])
  | .signal changed invalidated => i.signalPropertyChanged changed invalidated
  | .refresh name reply => i.propertyRefresh name reply

def after (i : Interface Name Value) (events : List (InterfaceEvent Name Value)) :
    Interface Name Value :=
  replay (fun i e => (i.step e).1) i events

/-- The calls of `property_changed`, in order. -/
def changes (i : Interface Name Value) : List (InterfaceEvent Name Value) → List Name
  | [] => []
  | e :: events => (i.step e).2 ++ (i.step e).1.changes events

/-- One who keeps the value of a property and reads it again on `property_changed`. -/
def watch (name : Name) (s : Interface Name Value × Option Value)
    (e : InterfaceEvent Name Value) : Interface Name Value × Option Value :=
  ((s.1.step e).1,
    if name ∈ (s.1.step e).2 then (s.1.step e).1.properties name else s.2)

theorem propertyRefresh_skipped {i : Interface Name Value} {name : Name}
    (h : i.loaded = false ∨ i.propertyValid name = false) (reply : Option Value) :
    i.propertyRefresh name reply = (i, []) := by
  have hskip : (!i.loaded || !i.propertyValid name) = true := by
    rcases h with h | h <;> simp [h]
  unfold propertyRefresh
  exact if_pos hskip

/-- A refresh calls no one and keeps all values, or stores the reply and says so. -/
theorem propertyRefresh_cases (i : Interface Name Value) (name : Name) (reply : Option Value) :
    ((i.propertyRefresh name reply).2 = [] ∧
        (i.propertyRefresh name reply).1.properties = i.properties) ∨
      ((i.propertyRefresh name reply).2 = [name] ∧
        (i.propertyRefresh name reply).1.properties =
          Function.update i.properties name reply) := by
  unfold propertyRefresh
  by_cases hskip : (!i.loaded || !i.propertyValid name) = true
  · rw [if_pos hskip]
    exact Or.inl ⟨rfl, rfl⟩
  · rw [if_neg hskip]
    cases reply with
    | none => exact Or.inl ⟨rfl, rfl⟩
    | some latest =>
      by_cases hsame : i.properties name = some latest
      · left
        simp only [if_pos hsame, and_self]
      · right
        simp only [if_neg hsame, and_self]

theorem propertyRefresh_valid {i : Interface Name Value} {name refreshed : Name}
    (hne : name ≠ refreshed) (reply : Option Value) :
    (i.propertyRefresh refreshed reply).1.propertyValid name = i.propertyValid name := by
  unfold propertyRefresh
  by_cases hskip : (!i.loaded || !i.propertyValid refreshed) = true
  · rw [if_pos hskip]
  · rw [if_neg hskip]
    cases reply with
    | none => exact Function.update_of_ne hne _ _
    | some latest =>
      by_cases hsame : i.properties refreshed = some latest
      · simp only [if_pos hsame]
        exact Function.update_of_ne hne _ _
      · simp only [if_neg hsame]
        exact Function.update_of_ne hne _ _

/-- What is not announced as changed is as it was. -/
theorem step_properties {i : Interface Name Value} {e : InterfaceEvent Name Value} {name : Name}
    (h : name ∉ (i.step e).2) : (i.step e).1.properties name = i.properties name := by
  cases e with
  | unload => rfl
  | load options =>
    have hnone : options.lookup name = none := AList.lookup_eq_none.mpr h
    show (i.load options).1.properties name = i.properties name
    rw [load_properties, hnone, Option.none_or]
  | signal changed invalidated =>
    have hnone : changed.lookup name = none := AList.lookup_eq_none.mpr h
    show (i.signalPropertyChanged changed invalidated).1.properties name = i.properties name
    rw [signal_properties, hnone, Option.none_or]
  | refresh refreshed reply =>
    rcases i.propertyRefresh_cases refreshed reply with ⟨-, hsame⟩ | ⟨hcalled, hnew⟩
    · exact congrFun hsame name
    · have hne : name ≠ refreshed := by
        intro heq
        apply h
        show name ∈ (i.propertyRefresh refreshed reply).2
        rw [hcalled, heq]
        exact List.mem_singleton_self _
      show (i.propertyRefresh refreshed reply).1.properties name = i.properties name
      rw [hnew, Function.update_of_ne hne]

/-- No change is missed: one who reads a property whenever `property_changed` names it
always has the value in the cache, whatever is loaded, signalled, refreshed or unloaded. -/
theorem watcher_in_sync (i : Interface Name Value) (name : Name)
    (events : List (InterfaceEvent Name Value)) :
    (replay (watch name) (i, i.properties name) events).2 =
      (replay (watch name) (i, i.properties name) events).1.properties name := by
  have hinv : ∀ s : Interface Name Value × Option Value, ∀ e, s.2 = s.1.properties name → True →
      (watch name s e).2 = (watch name s e).1.properties name := by
    intro s e hs _
    show (if name ∈ (s.1.step e).2 then (s.1.step e).1.properties name else s.2) = _
    by_cases hcalled : name ∈ (s.1.step e).2
    · rw [if_pos hcalled]
      rfl
    · rw [if_neg hcalled, hs]
      exact (step_properties hcalled).symm
  exact replay_invariant (fun s : Interface Name Value × Option Value =>
    s.2 = s.1.properties name) hinv rfl (fun _ _ => trivial)

/-- An invalid property stays as it is under anything but an announcement of its value. -/
theorem step_invalid {i : Interface Name Value} {e : InterfaceEvent Name Value} {name : Name}
    (hinvalid : i.propertyValid name = false) (hquiet : e.announces name = false) :
    (i.step e).1.propertyValid name = false ∧ name ∉ (i.step e).2 := by
  cases e with
  | unload => exact ⟨hinvalid, List.not_mem_nil⟩
  | load options =>
    have hnot : name ∉ options := of_decide_eq_false hquiet
    constructor
    · show (i.storeAll options).propertyValid name = false
      rw [storeAll_valid, hinvalid, decide_eq_false hnot]
      rfl
    · exact hnot
  | signal changed invalidated =>
    have hnot : name ∉ changed := of_decide_eq_false hquiet
    constructor
    · show (invalidated.foldl invalidate (i.storeAll changed)).propertyValid name = false
      rw [invalidated_valid, storeAll_valid, hinvalid, decide_eq_false hnot]
      exact Bool.and_false _
    · exact hnot
  | refresh refreshed reply =>
    by_cases hname : name = refreshed
    · show (i.propertyRefresh refreshed reply).1.propertyValid name = false ∧
        name ∉ (i.propertyRefresh refreshed reply).2
      rw [propertyRefresh_skipped (Or.inr (hname ▸ hinvalid))]
      exact ⟨hinvalid, List.not_mem_nil⟩
    · constructor
      · exact (propertyRefresh_valid hname reply).trans hinvalid
      · show name ∉ (i.propertyRefresh refreshed reply).2
        rcases i.propertyRefresh_cases refreshed reply with ⟨hcalled, -⟩ | ⟨hcalled, -⟩
        · rw [hcalled]
          exact List.not_mem_nil
        · rw [hcalled, List.mem_singleton]
          exact hname

/-- The value of a property that the bus has invalidated is never asked for again: until
the bus announces one itself, no refresh changes it, and no one is called. -/
theorem invalid_stays_stale {i : Interface Name Value} {name : Name}
    (hinvalid : i.propertyValid name = false) {events : List (InterfaceEvent Name Value)}
    (hquiet : ∀ e ∈ events, e.announces name = false) :
    (i.after events).properties name = i.properties name ∧
      (i.after events).propertyValid name = false ∧ name ∉ i.changes events := by
  induction events generalizing i with
  | nil => exact ⟨rfl, hinvalid, List.not_mem_nil⟩
  | cons e events ih =>
    obtain ⟨hstill, hcalled⟩ := step_invalid hinvalid (hquiet e List.mem_cons_self)
    obtain ⟨hvalue, hvalid, hchanges⟩ :=
      ih hstill (fun e' he' => hquiet e' (List.mem_cons_of_mem e he'))
    refine ⟨hvalue.trans (step_properties hcalled), hvalid, ?_⟩
    show name ∉ (i.step e).2 ++ (i.step e).1.changes events
    rw [List.mem_append, not_or]
    exact ⟨hcalled, hchanges⟩

/-- A property with the value 5, invalidated by the signal that announced it. -/
def invalidatedRssi : Interface ℕ ℕ :=
  (Interface.create.signalPropertyChanged (AList.singleton 0 5) [0]).1

theorem invalidatedRssi_stays :
    let events : List (InterfaceEvent ℕ ℕ) := [.refresh 0 (some 7), .unload, .refresh 0 none]
    (invalidatedRssi.after events).properties 0 = invalidatedRssi.properties 0 ∧
      (invalidatedRssi.after events).propertyValid 0 = false ∧
      0 ∉ invalidatedRssi.changes events :=
  invalid_stays_stale rfl (by decide)

end Interface

end RCControl
