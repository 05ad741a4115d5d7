import Mathlib.Data.List.AList
import Mathlib.Logic.Function.Basic
import Mathlib.Tactic.Common

/-! The property cache of one D-Bus interface (`Interface.cpp`) and the interfaces
of one proxy object (the interface handling of `Proxy.cpp`). Interface and property
names and property values are parameters. -/
namespace RCControl

/-- A `std::map` from names, without an order. -/
abbrev Dict (Name α : Type) := AList (fun _ : Name => α)

structure Interface (Name Value : Type) where
  loaded : Bool
  properties : Name → Option Value
  propertyValid : Name → Bool

/-- The interfaces of a proxy, and whether its path has not been removed. -/
structure ProxyData (Name Value : Type) where
  valid : Bool
  interfaces : Dict Name (Interface Name Value)

variable {Name Value : Type} [DecidableEq Name]

namespace Interface

def create : Interface Name Value := ⟨true, fun _ => none, fun _ => false⟩

/-- One turn of the loops of `load` and `signal_property_changed`. -/
def store (i : Interface Name Value) (name : Name) (value : Value) : Interface Name Value :=
  { i with
    properties := Function.update i.properties name (some value)
    propertyValid := Function.update i.propertyValid name true }

def storeAll (i : Interface Name Value) (options : Dict Name Value) : Interface Name Value :=
  options.entries.foldl (fun i e => i.store e.1 e.2) i

/-- The names are those `property_changed` is called with. -/
def load (i : Interface Name Value) (options : Dict Name Value) :
    Interface Name Value × List Name :=
  ({ i.storeAll options with loaded := true }, options.keys)

omit [DecidableEq Name] in
def unload (i : Interface Name Value) : Interface Name Value := { i with loaded := false }

def invalidate (i : Interface Name Value) (name : Name) : Interface Name Value :=
  { i with propertyValid := Function.update i.propertyValid name false }

def signalPropertyChanged (i : Interface Name Value) (changed : Dict Name Value)
    (invalidated : List Name) : Interface Name Value × List Name :=
  (invalidated.foldl invalidate (i.storeAll changed), changed.keys)

/-- `reply` is the outcome of `property_get`; `none` is a failed send. -/
def propertyRefresh [DecidableEq Value] (i : Interface Name Value) (name : Name)
    (reply : Option Value) : Interface Name Value × List Name :=
  if !i.loaded || !i.propertyValid name then (i, [])
  else
    match reply with
    | none => ({ i with propertyValid := Function.update i.propertyValid name true }, [])
    | some latest =>
      let valid := Function.update i.propertyValid name true
      if i.properties name = some latest then ({ i with propertyValid := valid }, [])
      else
        ({ i with
            properties := Function.update i.properties name (some latest)
            propertyValid := valid }, [name])

theorem storeAll_loaded (i : Interface Name Value) (options : Dict Name Value) :
    (i.storeAll options).loaded = i.loaded := by
  have hl : ∀ (l : List (Σ _ : Name, Value)) (i : Interface Name Value),
      (l.foldl (fun i e => i.store e.1 e.2) i).loaded = i.loaded := by
    intro l
    induction l with
    | nil => intro i; rfl
    | cons e es ih =>
      intro i
      rw [List.foldl_cons, ih]
      rfl
  exact hl options.entries i

/-- The loop stores every announced property and keeps the others. -/
theorem storeAll_properties (i : Interface Name Value) (options : Dict Name Value) (name : Name) :
    (i.storeAll options).properties name = (options.lookup name).or (i.properties name) := by
  have hl : ∀ (l : List (Σ _ : Name, Value)) (i : Interface Name Value), l.NodupKeys →
      (l.foldl (fun i e => i.store e.1 e.2) i).properties name =
        (l.dlookup name).or (i.properties name) := by
    intro l
    induction l with
    | nil => intro i _; simp
    | cons e es ih =>
      intro i hnd
      obtain ⟨hnew, hes⟩ := List.nodupKeys_cons.mp hnd
      rw [List.foldl_cons, ih _ hes]
      obtain ⟨key, value⟩ := e
      by_cases hn : name = key
      · have hnone : es.dlookup name = none := by
          rw [List.dlookup_eq_none, hn]
          exact hnew
        rw [hnone, hn, List.dlookup_cons_eq]
        simp [store]
      · rw [List.dlookup_cons_ne _ _ hn]
        simp [store, Function.update_of_ne hn]
  exact hl options.entries i options.nodupKeys

theorem storeAll_valid (i : Interface Name Value) (options : Dict Name Value) (name : Name) :
    (i.storeAll options).propertyValid name = (decide (name ∈ options) || i.propertyValid name) := by
  have hl : ∀ (l : List (Σ _ : Name, Value)) (i : Interface Name Value),
      (l.foldl (fun i e => i.store e.1 e.2) i).propertyValid name =
        (decide (name ∈ l.keys) || i.propertyValid name) := by
    intro l
    induction l with
    | nil => intro i; simp
    | cons e es ih =>
      intro i
      rw [List.foldl_cons, ih]
      by_cases hn : name = e.1
      · simp [store, hn]
      · simp [store, hn]
  have hmem : name ∈ options.entries.keys ↔ name ∈ options := Iff.rfl
  rw [storeAll, hl, decide_eq_decide.mpr hmem]

theorem invalidated_properties (l : List Name) (i : Interface Name Value) :
    (l.foldl invalidate i).properties = i.properties ∧ (l.foldl invalidate i).loaded = i.loaded := by
  induction l generalizing i with
  | nil => exact ⟨rfl, rfl⟩
  | cons n ns ih => exact ih (i.invalidate n)

theorem invalidated_valid (l : List Name) (i : Interface Name Value) (name : Name) :
    (l.foldl invalidate i).propertyValid name = (decide (name ∉ l) && i.propertyValid name) := by
  induction l generalizing i with
  | nil => simp
  | cons n ns ih =>
    rw [List.foldl_cons, ih]
    by_cases hn : name = n
    · simp [invalidate, hn]
    · simp [invalidate, hn]

@[simp] theorem load_loaded (i : Interface Name Value) (options : Dict Name Value) :
    (i.load options).1.loaded = true := rfl

theorem load_properties (i : Interface Name Value) (options : Dict Name Value) (name : Name) :
    (i.load options).1.properties name = (options.lookup name).or (i.properties name) :=
  i.storeAll_properties options name

theorem signal_loaded (i : Interface Name Value) (changed : Dict Name Value)
    (invalidated : List Name) : (i.signalPropertyChanged changed invalidated).1.loaded = i.loaded := by
  rw [signalPropertyChanged, (invalidated_properties _ _).2, storeAll_loaded]

theorem signal_properties (i : Interface Name Value) (changed : Dict Name Value)
    (invalidated : List Name) (name : Name) :
    (i.signalPropertyChanged changed invalidated).1.properties name =
      (changed.lookup name).or (i.properties name) := by
  rw [signalPropertyChanged, (invalidated_properties _ _).1, storeAll_properties]

end Interface

namespace ProxyData

def create : ProxyData Name Value := ⟨true, ∅⟩

def interfaceExists (d : ProxyData Name Value) (name : Name) : Bool :=
  (d.interfaces.lookup name).isSome

/-- One turn of the loop of `interfaces_load`. -/
def loadOne (d : ProxyData Name Value) (name : Name) (options : Dict Name Value) :
    ProxyData Name Value :=
  let i := (d.interfaces.lookup name).getD Interface.create
  { d with interfaces := d.interfaces.insert name (i.load options).1 }

def interfacesLoad (d : ProxyData Name Value) (managed : Dict Name (Dict Name Value)) :
    ProxyData Name Value :=
  managed.entries.foldl (fun d e => d.loadOne e.1 e.2) d

/-- The calls of `property_changed` made by `interfaces_load`, in order. -/
def loadNotices (managed : Dict Name (Dict Name Value)) : List (Name × Name) :=
  managed.entries.flatMap (fun e => e.2.keys.map (fun property => (e.1, property)))

def unloadOne (d : ProxyData Name Value) (name : Name) : ProxyData Name Value :=
  match d.interfaces.lookup name with
  | none => d
  | some i => { d with interfaces := d.interfaces.insert name i.unload }

def interfacesUnload (d : ProxyData Name Value) (removed : List Name) : ProxyData Name Value :=
  removed.foldl unloadOne d

def interfacesLoaded (d : ProxyData Name Value) : Bool :=
  d.interfaces.entries.any (fun e => e.2.loaded)

/-- Whether an interface is there and loaded. -/
def hasLoaded (d : ProxyData Name Value) (name : Name) : Bool :=
  ((d.interfaces.lookup name).map Interface.loaded).getD false

/-- The cached value of a property. -/
def cached (d : ProxyData Name Value) (name property : Name) : Option Value :=
  (d.interfaces.lookup name).bind (fun i => i.properties property)

theorem interfacesLoad_valid (d : ProxyData Name Value) (managed : Dict Name (Dict Name Value)) :
    (d.interfacesLoad managed).valid = d.valid := by
  have hl : ∀ (l : List (Σ _ : Name, Dict Name Value)) (d : ProxyData Name Value),
      (l.foldl (fun d e => d.loadOne e.1 e.2) d).valid = d.valid := by
    intro l
    induction l with
    | nil => intro d; rfl
    | cons e es ih =>
      intro d
      rw [List.foldl_cons, ih]
      rfl
  exact hl managed.entries d

theorem interfacesLoad_lookup (d : ProxyData Name Value) (managed : Dict Name (Dict Name Value))
    (name : Name) :
    (d.interfacesLoad managed).interfaces.lookup name =
      match managed.lookup name with
      | none => d.interfaces.lookup name
      | some options =>
        some (((d.interfaces.lookup name).getD Interface.create).load options).1 := by
  have hl : ∀ (l : List (Σ _ : Name, Dict Name Value)) (d : ProxyData Name Value), l.NodupKeys →
      (l.foldl (fun d e => d.loadOne e.1 e.2) d).interfaces.lookup name =
        match l.dlookup name with
        | none => d.interfaces.lookup name
        | some options =>
          some (((d.interfaces.lookup name).getD Interface.create).load options).1 := by
    intro l
    induction l with
    | nil => intro d _; simp
    | cons e es ih =>
      intro d hnd
      obtain ⟨hnew, hes⟩ := List.nodupKeys_cons.mp hnd
      obtain ⟨key, options⟩ := e
      rw [List.foldl_cons, ih _ hes]
      by_cases hn : name = key
      · have hnone : es.dlookup name = none := by
          rw [List.dlookup_eq_none, hn]
          exact hnew
        rw [hnone, hn, List.dlookup_cons_eq]
        simp only [loadOne, AList.lookup_insert]
      · rw [List.dlookup_cons_ne _ _ hn]
        simp only [loadOne, AList.lookup_insert_ne hn]
  exact hl managed.entries d managed.nodupKeys

theorem interfacesUnload_lookup (d : ProxyData Name Value) (removed : List Name) (name : Name) :
    (d.interfacesUnload removed).interfaces.lookup name =
      if name ∈ removed then (d.interfaces.lookup name).map Interface.unload
      else d.interfaces.lookup name := by
  induction removed generalizing d with
  | nil => simp [interfacesUnload]
  | cons n ns ih =>
    have hstep : (d.unloadOne n).interfaces.lookup name =
        if name = n then (d.interfaces.lookup name).map Interface.unload
        else d.interfaces.lookup name := by
      rw [unloadOne]
      by_cases hn : name = n
      · subst hn
        rw [if_pos rfl]
        cases hd : d.interfaces.lookup name with
        | none => simp [hd]
        | some i => simp
      · rw [if_neg hn]
        cases d.interfaces.lookup n with
        | none => rfl
        | some i => exact AList.lookup_insert_ne hn
    have hi := ih (d.unloadOne n)
    rw [interfacesUnload] at hi
    rw [interfacesUnload, List.foldl_cons, hi, hstep]
    by_cases hn : name = n
    · subst hn
      cases d.interfaces.lookup name <;> simp [Interface.unload]
    · simp [hn]

theorem interfacesUnload_valid (d : ProxyData Name Value) (removed : List Name) :
    (d.interfacesUnload removed).valid = d.valid := by
  induction removed generalizing d with
  | nil => rfl
  | cons n ns ih =>
    have hstep : (d.unloadOne n).valid = d.valid := by
      rw [unloadOne]
      cases d.interfaces.lookup n <;> rfl
    rw [interfacesUnload, List.foldl_cons, ← hstep]
    exact ih (d.unloadOne n)

theorem interfacesLoaded_iff (d : ProxyData Name Value) :
    d.interfacesLoaded = true ↔ ∃ name, d.hasLoaded name = true := by
  rw [interfacesLoaded, List.any_eq_true]
  constructor
  · intro h
    obtain ⟨e, he, hloaded⟩ := h
    have hlookup : d.interfaces.lookup e.1 = some e.2 := AList.mem_lookup_iff.mpr he
    exact ⟨e.1, by rw [hasLoaded, hlookup]; exact hloaded⟩
  · intro h
    obtain ⟨name, hname⟩ := h
    rw [hasLoaded] at hname
    cases hlookup : d.interfaces.lookup name with
    | none => simp [hlookup] at hname
    | some i =>
      rw [hlookup] at hname
      exact ⟨⟨name, i⟩, AList.mem_lookup_iff.mp hlookup, hname⟩

theorem interfacesLoad_hasLoaded (d : ProxyData Name Value) (managed : Dict Name (Dict Name Value))
    (name : Name) :
    (d.interfacesLoad managed).hasLoaded name = (decide (name ∈ managed) || d.hasLoaded name) := by
  rw [hasLoaded, interfacesLoad_lookup]
  cases hm : managed.lookup name with
  | none =>
    have hmem : name ∉ managed := AList.lookup_eq_none.mp hm
    simp [hmem, hasLoaded]
  | some options =>
    have hmem : name ∈ managed := AList.lookup_isSome.mp (by rw [hm]; rfl)
    simp [hmem]

theorem interfacesUnload_hasLoaded (d : ProxyData Name Value) (removed : List Name) (name : Name) :
    (d.interfacesUnload removed).hasLoaded name = (decide (name ∉ removed) && d.hasLoaded name) := by
  rw [hasLoaded, interfacesUnload_lookup]
  by_cases hmem : name ∈ removed
  · cases hd : d.interfaces.lookup name <;> simp [hmem, Interface.unload]
  · simp [hmem, hasLoaded]

theorem interfacesLoad_cached (d : ProxyData Name Value) (managed : Dict Name (Dict Name Value))
    (name property : Name) :
    (d.interfacesLoad managed).cached name property =
      ((managed.lookup name).bind (fun options => options.lookup property)).or
        (d.cached name property) := by
  rw [cached, interfacesLoad_lookup]
  cases hm : managed.lookup name with
  | none => simp [cached]
  | some options =>
    rw [Option.bind_some, Interface.load_properties, Option.bind_some]
    cases hd : d.interfaces.lookup name with
    | none => simp [cached, hd, Interface.create]
    | some i => simp [cached, hd]

theorem interfacesUnload_cached (d : ProxyData Name Value) (removed : List Name)
    (name property : Name) :
    (d.interfacesUnload removed).cached name property = d.cached name property := by
  rw [cached, interfacesUnload_lookup, cached]
  by_cases hmem : name ∈ removed
  · cases d.interfaces.lookup name <;> simp [hmem, Interface.unload]
  · simp [hmem]

end ProxyData

end RCControl
