import RCControl.ProxyTree
import RCControl.ReplayLog

/-! The object tree of `Bluez` over whole runs of bus signals, against what the
signals announced. -/
namespace RCControl
open ReplayLog

variable {Name Value : Type} [DecidableEq Name]

/-- The proxy at `/` and everything below it. -/
structure Bluez (Name Value : Type) where
  data : ProxyData Name Value
  children : Children Name Value

/-- What the bus hands to `run_async`. The two `ObjectManager` signals end in
`path_add` and `path_remove` at `/`. `shared` tells which proxies have an owner
besides the tree at that moment. -/
inductive BusEvent (Name Value : Type)
  | interfacesAdded (path : ObjectPath) (managed : Dict Name (Dict Name Value))
  | interfacesRemoved (path : ObjectPath) (removed : List Name) (shared : ObjectPath → Bool)
  | message (m : Message Name Value)

namespace Bluez

def step (s : Bluez Name Value) : BusEvent Name Value → Bluez Name Value × List (Notice Name)
  | .interfacesAdded path managed =>
    let r := pathAdd [] s.children path managed
    (⟨s.data, r.1⟩, r.2)
  | .interfacesRemoved path removed shared =>
    let r := pathRemove [] s.data s.children path removed shared
    (⟨r.1.1, r.1.2⟩, [])
  | .message m =>
    let r := messageForward [] s.data s.children m
    (⟨r.1.1, r.1.2⟩, r.2)

def after (s : Bluez Name Value) (events : List (BusEvent Name Value)) : Bluez Name Value :=
  replay (fun s e => (s.step e).1) s events

/-- The callbacks of a run, in order. -/
def notices (s : Bluez Name Value) : List (BusEvent Name Value) → List (Notice Name)
  | [] => []
  | e :: es => (s.step e).2 ++ notices (s.step e).1 es

/-- The object at a path below `/`. -/
def object (s : Bluez Name Value) (path : ObjectPath) : Option (ProxyData Name Value) :=
  s.children.find path

def present (s : Bluez Name Value) (path : ObjectPath) : Bool := (s.object path).isSome

/-- How often the object at `path` comes into being in a run. -/
def appearances (s : Bluez Name Value) (path : ObjectPath) : List (BusEvent Name Value) → ℕ
  | [] => 0
  | e :: es =>
    (if !s.present path && (s.step e).1.present path then 1 else 0) +
      appearances (s.step e).1 path es

def loaded (s : Bluez Name Value) (path : ObjectPath) (name : Name) : Bool :=
  ((s.object path).map (fun d => d.hasLoaded name)).getD false

def cached (s : Bluez Name Value) (path : ObjectPath) (name property : Name) : Option Value :=
  (s.object path).bind (fun d => d.cached name property)

/-- The tree has the paths of announced objects and of the objects above them. -/
structure WellFormed (U : Set ObjectPath) (s : Bluez Name Value) : Prop where
  rooted : s.children.Rooted []
  within : ∀ q, (s.object q).isSome = true → ∃ u ∈ U, q <+: u

end Bluez

namespace BusEvent

def path : BusEvent Name Value → ObjectPath
  | interfacesAdded path _ => path
  | interfacesRemoved path _ _ => path
  | message m => m.path

/-- The events of a bus whose objects lie in `U`, the root not among them. -/
def Of (U : Set ObjectPath) (e : BusEvent Name Value) : Prop := e.path ∈ U ∧ e.path ≠ []

/-- What an event says about an interface of an object: there, gone, or nothing. -/
def announces (path : ObjectPath) (name : Name) : BusEvent Name Value → Option Bool
  | interfacesAdded p managed => if p = path ∧ name ∈ managed then some true else none
  | interfacesRemoved p removed _ => if p = path ∧ name ∈ removed then some false else none
  | message _ => none

/-- Whether an object has an interface after the events of the bus. -/
def standing (events : List (BusEvent Name Value)) (path : ObjectPath) (name : Name) : Bool :=
  ((events.filterMap (announces path name)).getLast?).getD false

theorem standing_append (events later : List (BusEvent Name Value)) (path : ObjectPath)
    (name : Name) : standing (events ++ later) path name =
      ((later.filterMap (announces path name)).getLast?).getD (standing events path name) := by
  rw [standing, List.filterMap_append, List.getLast?_append, standing]
  cases (later.filterMap (announces path name)).getLast? <;> rfl

/-- The value an event gives to a property of an object. -/
def writes (path : ObjectPath) (name property : Name) : BusEvent Name Value → Option Value
  | interfacesAdded p managed =>
    if p = path then (managed.lookup name).bind (fun options => options.lookup property) else none
  | interfacesRemoved _ _ _ => none
  | message (.propertiesChanged p interface changed _) =>
    if p = path ∧ interface = name then changed.lookup property else none
  | message (.other _ _ _) => none

end BusEvent

/-- Pruning takes away no object with a loaded interface. -/
theorem Removed.hasLoaded {path : ObjectPath} {removed : List Name} {shared : ObjectPath → Bool}
    {before after : ObjectPath → Option (ProxyData Name Value)}
    (h : Removed path removed shared before after) (q : ObjectPath) (name : Name) :
    ((after q).map (fun d => d.hasLoaded name)).getD false =
      ((dropAt path removed before q).map (fun d => d.hasLoaded name)).getD false := by
  cases hafter : after q with
  | some v =>
    rw [((h q v).mp hafter).1]
  | none =>
    cases hdrop : dropAt path removed before q with
    | none => rfl
    | some w =>
      by_cases hw : w.hasLoaded name = true
      · have hkept : kept shared q w = true := by
          rw [kept, (ProxyData.interfacesLoaded_iff w).mpr ⟨name, hw⟩, Bool.or_true]
        have hstay := (h q w).mpr ⟨hdrop, fun _ => ⟨q, w, List.prefix_rfl, hdrop, hkept⟩⟩
        rw [hafter] at hstay
        exact absurd hstay (by simp)
      · simp [hw]

namespace Bluez

omit [DecidableEq Name] in
theorem routes_of_within {U : Set ObjectPath} (hU : Unconfused U) {s : Bluez Name Value}
    (hs : s.WellFormed U) {path : ObjectPath} (hp : path ∈ U) :
    ∀ k, (s.children.find k).isSome = true ∨ k <+: path → Routed path k := by
  intro k hk
  rcases hk with hk | hk
  · obtain ⟨u, hu, hku⟩ := hs.within k hk
    exact isDescendant_iff_strict hU hu hku hp
  · exact isDescendant_iff_strict hU hp hk hp

theorem added_spec {U : Set ObjectPath} (hU : Unconfused U) {s : Bluez Name Value}
    (hs : s.WellFormed U) {path : ObjectPath} (managed : Dict Name (Dict Name Value)) (hp : path ∈ U)
    (hne : path ≠ []) :
    (s.step (.interfacesAdded path managed)).1.children.Rooted [] ∧
      Added [] path managed s.object (s.step (.interfacesAdded path managed)).1.object := by
  have hroute := routes_of_within hU hs hp
  have hroot : ([] : ObjectPath) <+: path := List.nil_prefix
  exact pathAdd_spec managed hs.rooted hroute hroot (Ne.symm hne)

theorem removed_spec {U : Set ObjectPath} (hU : Unconfused U) {s : Bluez Name Value}
    (hs : s.WellFormed U) {path : ObjectPath} (removed : List Name) (shared : ObjectPath → Bool)
    (hp : path ∈ U) (hne : path ≠ []) :
    (s.step (.interfacesRemoved path removed shared)).1.children.Rooted [] ∧
      Removed path removed shared s.object
        (s.step (.interfacesRemoved path removed shared)).1.object := by
  have hroute := routes_of_within hU hs hp
  have hroot : ([] : ObjectPath) <+: path := List.nil_prefix
  obtain ⟨kids', heq, hrooted, hrem⟩ :=
    pathRemove_spec s.data removed shared hs.rooted hroute hroot (Ne.symm hne)
  have hstep : (s.step (.interfacesRemoved path removed shared)).1 = ⟨s.data, kids'⟩ := by
    simp only [step, heq]
  rw [hstep]
  exact ⟨hrooted, hrem⟩

theorem message_spec {U : Set ObjectPath} (hU : Unconfused U) {s : Bluez Name Value}
    (hs : s.WellFormed U) (m : Message Name Value) (hp : m.path ∈ U) (hne : m.path ≠ []) :
    (s.step (.message m)).1.children.Rooted [] ∧
      (∀ q, (s.step (.message m)).1.object q =
        if q = m.path then (s.object q).map (fun d => (receive d m).1) else s.object q) ∧
      (s.step (.message m)).2 =
        match s.object m.path with
        | none => []
        | some d => (receive d m).2 ++
            if m.isSignal then [.childSignal m.path.dropLast m.path] else [] := by
  have hroute := routes_of_within hU hs hp
  have hspec := forwardMessage_spec m hs.rooted (fun k hk => hroute k (Or.inl hk))
  have hstep : s.step (.message m) =
      (⟨s.data, (forwardMessage m [] s.children).1⟩, (forwardMessage m [] s.children).2) := by
    simp only [step, messageForward, if_neg hne]
  rw [hstep]
  exact hspec

theorem wellFormed_step {U : Set ObjectPath} (hU : Unconfused U) (s : Bluez Name Value)
    (e : BusEvent Name Value) (hs : s.WellFormed U) (he : e.Of U) : (s.step e).1.WellFormed U := by
  cases e with
  | interfacesAdded path managed =>
    obtain ⟨hp, hne⟩ : path ∈ U ∧ path ≠ [] := he
    obtain ⟨hrooted, hadd⟩ := added_spec hU hs managed hp hne
    refine ⟨hrooted, fun q hq => ?_⟩
    rw [hadd q] at hq
    by_cases hqp : q = path
    · exact ⟨path, hp, by rw [hqp]⟩
    · by_cases hb : Between [] path q
      · exact ⟨path, hp, hb.2.2⟩
      · rw [if_neg hqp, if_neg hb] at hq
        exact hs.within q hq
  | interfacesRemoved path removed shared =>
    obtain ⟨hp, hne⟩ : path ∈ U ∧ path ≠ [] := he
    obtain ⟨hrooted, hrem⟩ := removed_spec hU hs removed shared hp hne
    refine ⟨hrooted, fun q hq => ?_⟩
    obtain ⟨v, hv⟩ := Option.isSome_iff_exists.mp hq
    have hdrop := ((hrem q v).mp hv).1
    rw [dropAt] at hdrop
    by_cases hqp : q = path
    · exact ⟨path, hp, by rw [hqp]⟩
    · rw [if_neg hqp] at hdrop
      exact hs.within q (by rw [hdrop]; rfl)
  | message m =>
    obtain ⟨hrooted, hfind, _⟩ := message_spec hU hs m he.1 he.2
    refine ⟨hrooted, fun q hq => ?_⟩
    rw [hfind q] at hq
    by_cases hqp : q = m.path
    · exact ⟨m.path, he.1, by rw [hqp]⟩
    · rw [if_neg hqp] at hq
      exact hs.within q hq

theorem wellFormed_after {U : Set ObjectPath} (hU : Unconfused U) {s : Bluez Name Value}
    {events : List (BusEvent Name Value)} (hs : s.WellFormed U) (hev : ∀ e ∈ events, e.Of U) :
    (s.after events).WellFormed U :=
  replay_invariant (WellFormed U) (fun s e hs he => wellFormed_step hU s e hs he) hs hev

/-- The constructor of `Bluez`. -/
def create (data : ProxyData Name Value) : Bluez Name Value := ⟨data, .nil⟩

omit [DecidableEq Name] in
theorem create_wellFormed (U : Set ObjectPath) (data : ProxyData Name Value) :
    (create data).WellFormed U :=
  ⟨Forest.rooted_nil [], fun q hq => absurd hq (by simp [object, create, Forest.find])⟩

theorem receive_hasLoaded (d : ProxyData Name Value) (m : Message Name Value) (name : Name) :
    (receive d m).1.hasLoaded name = d.hasLoaded name := by
  cases m with
  | other path interface isSignal => rfl
  | propertiesChanged path interface changed invalidated =>
    rw [receive]
    cases hi : d.interfaces.lookup interface with
    | none => rfl
    | some i =>
      simp only [ProxyData.hasLoaded]
      by_cases hn : name = interface
      · subst hn
        rw [AList.lookup_insert, hi]
        exact i.signal_loaded changed invalidated
      · rw [AList.lookup_insert_ne hn]

theorem create_hasLoaded (name : Name) :
    (ProxyData.create : ProxyData Name Value).hasLoaded name = false := by
  simp [ProxyData.create, ProxyData.hasLoaded]

theorem dropInterfaces_hasLoaded (d : ProxyData Name Value) (removed : List Name) (name : Name) :
    (dropInterfaces d removed).hasLoaded name = (decide (name ∉ removed) && d.hasLoaded name) :=
  ProxyData.interfacesUnload_hasLoaded { d with valid := false } removed name

theorem loaded_getD (before : Option (ProxyData Name Value)) (name : Name) :
    (before.getD ProxyData.create).hasLoaded name =
      (before.map (fun d => d.hasLoaded name)).getD false := by
  cases before with
  | none => exact create_hasLoaded name
  | some d => rfl

/-- One event changes what is loaded exactly as it announces. -/
theorem loaded_step {U : Set ObjectPath} (hU : Unconfused U) (path : ObjectPath) (name : Name)
    (s : Bluez Name Value) (e : BusEvent Name Value) (hs : s.WellFormed U) (he : e.Of U) :
    (s.step e).1.loaded path name = (e.announces path name).getD (s.loaded path name) := by
  cases e with
  | interfacesAdded p managed =>
    obtain ⟨hp, hne⟩ : p ∈ U ∧ p ≠ [] := he
    obtain ⟨_, hadd⟩ := added_spec hU hs managed hp hne
    rw [loaded, hadd path, BusEvent.announces]
    by_cases hpp : path = p
    · subst hpp
      rw [if_pos rfl, Option.map_some, Option.getD_some, ProxyData.interfacesLoad_hasLoaded,
        loaded_getD]
      by_cases hn : name ∈ managed
      · simp [hn]
      · simp [hn, loaded]
    · have hno : ¬ (p = path ∧ name ∈ managed) := fun h => hpp h.1.symm
      rw [if_neg hpp, if_neg hno, Option.getD_none, loaded]
      by_cases hb : Between [] p path
      · rw [if_pos hb, Option.map_some, Option.getD_some, loaded_getD]
      · rw [if_neg hb]
  | interfacesRemoved p removed shared =>
    obtain ⟨hp, hne⟩ : p ∈ U ∧ p ≠ [] := he
    obtain ⟨_, hrem⟩ := removed_spec hU hs removed shared hp hne
    rw [loaded, hrem.hasLoaded path name, dropAt, BusEvent.announces]
    by_cases hpp : path = p
    · subst hpp
      rw [if_pos rfl, loaded]
      cases s.object path with
      | none =>
        by_cases hn : name ∈ removed
        · simp [hn]
        · simp [hn]
      | some d =>
        by_cases hn : name ∈ removed
        · simp [hn, dropInterfaces_hasLoaded]
        · simp [hn, dropInterfaces_hasLoaded]
    · have hno : ¬ (p = path ∧ name ∈ removed) := fun h => hpp h.1.symm
      rw [if_neg hpp, if_neg hno, Option.getD_none, loaded]
  | message m =>
    obtain ⟨_, hfind, _⟩ := message_spec hU hs m he.1 he.2
    rw [loaded, hfind path, BusEvent.announces, Option.getD_none, loaded]
    by_cases hqp : path = m.path
    · rw [if_pos hqp, Option.map_map]
      cases s.object path with
      | none => rfl
      | some d => exact receive_hasLoaded d m name
    · rw [if_neg hqp]

/-- Over any run of signals the tree has an interface loaded exactly when the last
signal about it announced it. -/
theorem loaded_iff_announced {U : Set ObjectPath} (hU : Unconfused U) {s : Bluez Name Value}
    (hs : s.WellFormed U) (events : List (BusEvent Name Value)) (hev : ∀ e ∈ events, e.Of U)
    (path : ObjectPath) (name : Name) :
    (s.after events).loaded path name =
      ((events.filterMap (BusEvent.announces path name)).getLast?).getD (s.loaded path name) :=
  replay_view (fun s => s.loaded path name) (BusEvent.announces path name)
    (fun s e hs he => wellFormed_step hU s e hs he) (fun s e hs he => loaded_step hU path name s e hs he) hs hev

omit [DecidableEq Name] in
theorem create_present (data : ProxyData Name Value) (path : ObjectPath) :
    (create data).present path = false := by
  simp [present, object, create, Forest.find]

theorem create_loaded (data : ProxyData Name Value) (path : ObjectPath) (name : Name) :
    (create data).loaded path name = false := by
  simp [loaded, object, create, Forest.find]

theorem loaded_eq_standing {U : Set ObjectPath} (hU : Unconfused U) (data : ProxyData Name Value)
    {events : List (BusEvent Name Value)} (hev : ∀ e ∈ events, e.Of U) (path : ObjectPath)
    (name : Name) :
    ((create data).after events).loaded path name = BusEvent.standing events path name := by
  rw [loaded_iff_announced hU (create_wellFormed U data) events hev, create_loaded,
    BusEvent.standing]

theorem receive_cached (d : ProxyData Name Value) (m : Message Name Value) (name property : Name)
    (hloaded : d.hasLoaded name = true) :
    (receive d m).1.cached name property =
      (BusEvent.writes m.path name property (.message m)).or (d.cached name property) := by
  cases m with
  | other path interface isSignal => rfl
  | propertiesChanged path interface changed invalidated =>
    rw [receive, BusEvent.writes]
    by_cases hn : interface = name
    · subst hn
      cases hi : d.interfaces.lookup interface with
      | none => simp [ProxyData.hasLoaded, hi] at hloaded
      | some i =>
        have hpath : Message.path (.propertiesChanged path interface changed invalidated) = path :=
          rfl
        simp only [ProxyData.cached, AList.lookup_insert, hi, Option.bind_some, hpath, and_self,
          if_true]
        exact i.signal_properties changed invalidated property
    · have hno : ¬ (path = (Message.propertiesChanged path interface changed invalidated).path ∧
          interface = name) := fun h => hn h.2
      rw [if_neg hno, Option.none_or]
      cases hi : d.interfaces.lookup interface with
      | none => rfl
      | some i =>
        simp only [ProxyData.cached]
        rw [AList.lookup_insert_ne (Ne.symm hn)]

theorem cached_getD (before : Option (ProxyData Name Value)) (name property : Name) :
    (before.getD ProxyData.create).cached name property =
      before.bind (fun d => d.cached name property) := by
  cases before with
  | none => simp [ProxyData.create, ProxyData.cached]
  | some d => rfl

/-- One event, seen from a property of an interface that is loaded after it. -/
theorem cached_step {U : Set ObjectPath} (hU : Unconfused U) (path : ObjectPath)
    (name property : Name) (s : Bluez Name Value) (e : BusEvent Name Value) (hs : s.WellFormed U)
    (he : e.Of U) (hloaded : (s.step e).1.loaded path name = true) :
    (s.step e).1.cached path name property =
      (e.writes path name property).or (s.cached path name property) := by
  cases e with
  | interfacesAdded p managed =>
    obtain ⟨hp, hne⟩ : p ∈ U ∧ p ≠ [] := he
    obtain ⟨_, hadd⟩ := added_spec hU hs managed hp hne
    rw [cached, hadd path, BusEvent.writes]
    by_cases hpp : path = p
    · subst hpp
      rw [if_pos rfl, if_pos rfl, Option.bind_some, ProxyData.interfacesLoad_cached, cached_getD]
      rfl
    · rw [if_neg hpp, if_neg (Ne.symm hpp), Option.none_or, cached]
      by_cases hb : Between [] p path
      · rw [if_pos hb, Option.bind_some, cached_getD]
      · rw [if_neg hb]
  | interfacesRemoved p removed shared =>
    obtain ⟨hp, hne⟩ : p ∈ U ∧ p ≠ [] := he
    obtain ⟨_, hrem⟩ := removed_spec hU hs removed shared hp hne
    rw [BusEvent.writes, Option.none_or, cached, cached]
    cases hafter : (s.step (.interfacesRemoved p removed shared)).1.object path with
    | none => simp [loaded, hafter] at hloaded
    | some v =>
      have hdrop := ((hrem path v).mp hafter).1
      rw [dropAt] at hdrop
      by_cases hpp : path = p
      · subst hpp
        rw [if_pos rfl, Option.map_eq_some_iff] at hdrop
        obtain ⟨d, hd, hv⟩ := hdrop
        rw [hd, Option.bind_some, Option.bind_some, ← hv]
        exact ProxyData.interfacesUnload_cached { d with valid := false } removed name property
      · rw [if_neg hpp] at hdrop
        rw [hdrop]
  | message m =>
    have hbefore : s.loaded path name = true := by
      rw [loaded_step hU path name s _ hs he] at hloaded
      exact hloaded
    obtain ⟨_, hfind, _⟩ := message_spec hU hs m he.1 he.2
    rw [cached, hfind path, cached]
    by_cases hqp : path = m.path
    · subst hqp
      rw [if_pos rfl]
      cases hd : s.object m.path with
      | none => simp [loaded, hd] at hbefore
      | some d =>
        rw [loaded, hd] at hbefore
        exact receive_cached d m name property hbefore
    · have hno : BusEvent.writes path name property (.message m) = none := by
        cases m with
        | other p interface isSignal => rfl
        | propertiesChanged p interface changed invalidated =>
          exact if_neg (fun h => hqp h.1.symm)
      rw [if_neg hqp, hno, Option.none_or]

/-- As long as no signal takes an interface away, each of its properties is cached with
the value announced last. -/
theorem cached_is_latest {U : Set ObjectPath} (hU : Unconfused U) {s : Bluez Name Value}
    (hs : s.WellFormed U) (path : ObjectPath) (name property : Name)
    (hloaded : s.loaded path name = true) (events : List (BusEvent Name Value))
    (hev : ∀ e ∈ events, e.Of U) (hkept : ∀ e ∈ events, e.announces path name ≠ some false) :
    (s.after events).cached path name property =
      ((events.filterMap (BusEvent.writes path name property)).getLast?).or
        (s.cached path name property) := by
  have hstays : ∀ (s : Bluez Name Value) (e : BusEvent Name Value), s.WellFormed U →
      s.loaded path name = true → e.Of U → e.announces path name ≠ some false →
      (s.step e).1.loaded path name = true := by
    intro s e hs hl he hk
    rw [loaded_step hU path name s e hs he, hl]
    cases ha : e.announces path name with
    | none => rfl
    | some b =>
      cases b with
      | true => rfl
      | false => exact absurd ha hk
  have hinv : ∀ (s : Bluez Name Value) (e : BusEvent Name Value),
      (s.WellFormed U ∧ s.loaded path name = true) →
      (e.Of U ∧ e.announces path name ≠ some false) →
      (s.step e).1.WellFormed U ∧ (s.step e).1.loaded path name = true := fun s e hi ho =>
    ⟨wellFormed_step hU s e hi.1 ho.1, hstays s e hi.1 hi.2 ho.1 ho.2⟩
  have hview : ∀ (s : Bluez Name Value) (e : BusEvent Name Value),
      (s.WellFormed U ∧ s.loaded path name = true) →
      (e.Of U ∧ e.announces path name ≠ some false) →
      (s.step e).1.cached path name property =
        ((e.writes path name property).map some).getD (s.cached path name property) := by
    intro s e hi ho
    rw [cached_step hU path name property s e hi.1 ho.1 (hinv s e hi ho).2]
    cases e.writes path name property <;> rfl
  have hlast := replay_view (fun s : Bluez Name Value => s.cached path name property)
    (fun e => (BusEvent.writes path name property e).map some) hinv hview ⟨hs, hloaded⟩
    (fun e he => ⟨hev e he, hkept e he⟩)
  have hsome : events.filterMap (fun e => (BusEvent.writes path name property e).map some) =
      (events.filterMap (BusEvent.writes path name property)).map some :=
    List.map_filterMap.symm
  rw [hsome, List.getLast?_map] at hlast
  rw [after, hlast]
  cases (events.filterMap (BusEvent.writes path name property)).getLast? <;> rfl

/-- Property 1 of interface 0 at 5. -/
def deviceOptions : Dict ℕ (Dict ℕ ℕ) := AList.singleton 0 (AList.singleton 1 5)

def deviceAdded : BusEvent ℕ ℕ := .interfacesAdded devicePath deviceOptions

def deviceRemoved : BusEvent ℕ ℕ := .interfacesRemoved devicePath [0] (fun _ => false)

theorem of_bluezPaths {e : BusEvent ℕ ℕ} (he : e.path = devicePath) :
    e.Of {p | p ∈ bluezPaths} := by
  rw [BusEvent.Of, he]
  exact ⟨devicePath_mem, by decide⟩

theorem deviceAdded_of : ∀ e ∈ [deviceAdded], e.Of {p | p ∈ bluezPaths} := by
  intro e he
  rw [List.mem_singleton.mp he]
  exact of_bluezPaths rfl

def mirroredDevice : Bluez ℕ ℕ := (create .create).after [deviceAdded]

theorem mirroredDevice_wellFormed : mirroredDevice.WellFormed {p | p ∈ bluezPaths} :=
  wellFormed_after bluezPaths_unconfused (create_wellFormed _ _) deviceAdded_of

theorem receive_count_created (d : ProxyData Name Value) (m : Message Name Value)
    (parent child : ObjectPath) : (receive d m).2.count (.childCreated parent child) = 0 := by
  rw [List.count_eq_zero]
  cases m with
  | other path interface isSignal =>
    rw [receive]
    by_cases h : d.interfaceExists interface = true
    · simp [h]
    · simp [h]
  | propertiesChanged path interface changed invalidated =>
    rw [receive]
    cases d.interfaces.lookup interface with
    | none => simp
    | some i => simp

theorem present_added {U : Set ObjectPath} (hU : Unconfused U) {s : Bluez Name Value}
    (hs : s.WellFormed U) {p : ObjectPath} (managed : Dict Name (Dict Name Value)) (hp : p ∈ U)
    (hne : p ≠ []) (path : ObjectPath) :
    (s.step (.interfacesAdded p managed)).1.present path =
      (s.present path || decide (Between [] p path)) := by
  obtain ⟨-, hadd⟩ := added_spec hU hs managed hp hne
  rw [present, hadd path, present]
  by_cases hpp : path = p
  · have hbetween : Between [] p path := ⟨List.nil_prefix, hpp ▸ Ne.symm hne, by rw [hpp]⟩
    simp [hpp, hpp ▸ hbetween]
  · by_cases hbetween : Between [] p path
    · simp [hpp, hbetween]
    · simp [hpp, hbetween]

theorem present_of_removed {U : Set ObjectPath} (hU : Unconfused U) {s : Bluez Name Value}
    (hs : s.WellFormed U) {p : ObjectPath} {removed : List Name} {shared : ObjectPath → Bool}
    (hp : p ∈ U) (hne : p ≠ []) {path : ObjectPath}
    (h : (s.step (.interfacesRemoved p removed shared)).1.present path = true) :
    s.present path = true := by
  obtain ⟨-, hrem⟩ := removed_spec hU hs removed shared hp hne
  obtain ⟨d, hd⟩ := Option.isSome_iff_exists.mp h
  have hdrop := ((hrem path d).mp hd).1
  rw [dropAt] at hdrop
  by_cases hpp : path = p
  · rw [if_pos hpp, Option.map_eq_some_iff] at hdrop
    obtain ⟨d', hd', -⟩ := hdrop
    rw [present, hpp, hd']
    rfl
  · rw [if_neg hpp] at hdrop
    rw [present, hdrop]
    rfl

theorem present_message {U : Set ObjectPath} (hU : Unconfused U) {s : Bluez Name Value}
    (hs : s.WellFormed U) (m : Message Name Value) (hp : m.path ∈ U) (hne : m.path ≠ [])
    (path : ObjectPath) : (s.step (.message m)).1.present path = s.present path := by
  obtain ⟨-, hfind, -⟩ := message_spec hU hs m hp hne
  rw [present, hfind path, present]
  by_cases hpath : path = m.path
  · rw [if_pos hpath, Option.isSome_map]
  · rw [if_neg hpath]

/-- One event announces an object to the proxy above it exactly when it brings the
object into being. -/
theorem created_step {U : Set ObjectPath} (hU : Unconfused U) (parent child : ObjectPath)
    (s : Bluez Name Value) (e : BusEvent Name Value) (hs : s.WellFormed U) (he : e.Of U) :
    (s.step e).2.count (.childCreated parent child) =
      if parent = child.dropLast then
        if !s.present child && (s.step e).1.present child then 1 else 0
      else 0 := by
  cases e with
  | interfacesAdded path managed =>
    obtain ⟨hp, hne⟩ : path ∈ U ∧ path ≠ [] := he
    have hroot : ([] : ObjectPath) <+: path := List.nil_prefix
    have hcount := pathAdd_created managed hs.rooted (routes_of_within hU hs hp) hroot
      (Ne.symm hne) parent child
    rw [present_added hU hs managed hp hne]
    have hnone : s.children.find child = none ↔ s.present child = false := by
      rw [present, object, Option.isSome_eq_false_iff, Option.isNone_iff_eq_none]
    show (pathAdd [] s.children path managed).2.count _ = _
    rw [hcount]
    simp only [hnone]
    by_cases hparent : parent = child.dropLast
    · by_cases hb : Between [] path child
      · cases s.present child <;> simp [hb, hparent]
      · cases s.present child <;> simp [hb, hparent]
    · simp [hparent]
  | interfacesRemoved path removed shared =>
    obtain ⟨hp, hne⟩ : path ∈ U ∧ path ≠ [] := he
    have hbefore : (s.step (.interfacesRemoved path removed shared)).1.present child = true →
        s.present child = true := present_of_removed hU hs hp hne
    show List.count _ [] = _
    cases hb : s.present child with
    | true => simp
    | false =>
      have hno : (s.step (.interfacesRemoved path removed shared)).1.present child = false := by
        by_contra h
        rw [hbefore (by simpa using h)] at hb
        exact absurd hb (by simp)
      simp [hno]
  | message m =>
    obtain ⟨_, _, hnotices⟩ := message_spec hU hs m he.1 he.2
    rw [present_message hU hs m he.1 he.2, hnotices, Bool.not_and_self]
    cases s.object m.path with
    | none => simp
    | some d =>
      have hsignal : (if m.isSignal then [Notice.childSignal m.path.dropLast m.path]
          else [] : List (Notice Name)).count (.childCreated parent child) = 0 := by
        cases m.isSignal <;> simp
      simp [receive_count_created, hsignal]

/-- Over a run every object is announced as created once for each time it comes into
being, always to the proxy above it. -/
theorem created_once_per_appearance {U : Set ObjectPath} (hU : Unconfused U) {s : Bluez Name Value}
    (hs : s.WellFormed U) (events : List (BusEvent Name Value)) (hev : ∀ e ∈ events, e.Of U)
    (parent child : ObjectPath) :
    (s.notices events).count (.childCreated parent child) =
      if parent = child.dropLast then s.appearances child events else 0 := by
  induction events generalizing s with
  | nil => simp [notices, appearances]
  | cons e es ih =>
    have he := hev e List.mem_cons_self
    have hi := ih (wellFormed_step hU s e hs he) (fun e' he' => hev e' (List.mem_cons_of_mem e he'))
    rw [notices, List.count_append, created_step hU parent child s e hs he, hi, appearances]
    by_cases hparent : parent = child.dropLast
    · rw [if_pos hparent, if_pos hparent, if_pos hparent]
    · rw [if_neg hparent, if_neg hparent, if_neg hparent]

/-- The device appears, goes, and appears again. -/
theorem mirroredDevice_created :
    ((create .create).notices [deviceAdded, deviceRemoved, deviceAdded]).count
        (.childCreated devicePath.dropLast devicePath) =
      if devicePath.dropLast = devicePath.dropLast then
        (create .create).appearances devicePath [deviceAdded, deviceRemoved, deviceAdded]
      else 0 := by
  apply created_once_per_appearance bluezPaths_unconfused (create_wellFormed _ _)
  intro e he
  simp only [List.mem_cons, List.not_mem_nil, or_false] at he
  rcases he with rfl | rfl | rfl
  · exact of_bluezPaths rfl
  · exact of_bluezPaths rfl
  · exact of_bluezPaths rfl

theorem receive_valid (d : ProxyData Name Value) (m : Message Name Value) :
    (receive d m).1.valid = d.valid := by
  cases m with
  | other path interface isSignal => rfl
  | propertiesChanged path interface changed invalidated =>
    rw [receive]
    cases d.interfaces.lookup interface <;> rfl

/-- Nothing makes a proxy valid again. -/
theorem valid_step {U : Set ObjectPath} (hU : Unconfused U) {s : Bluez Name Value}
    {e : BusEvent Name Value} (hs : s.WellFormed U) (he : e.Of U) {path : ObjectPath}
    {d d' : ProxyData Name Value} (hd : s.object path = some d) (hvalid : d.valid = false)
    (hd' : (s.step e).1.object path = some d') : d'.valid = false := by
  cases e with
  | interfacesAdded p managed =>
    obtain ⟨hp, hne⟩ : p ∈ U ∧ p ≠ [] := he
    obtain ⟨_, hadd⟩ := added_spec hU hs managed hp hne
    rw [hadd path] at hd'
    by_cases hpp : path = p
    · rw [if_pos hpp, ← hpp, hd, Option.getD_some, Option.some.injEq] at hd'
      rw [← hd', ProxyData.interfacesLoad_valid, hvalid]
    · rw [if_neg hpp, hd, Option.getD_some, ite_self, Option.some.injEq] at hd'
      rw [← hd', hvalid]
  | interfacesRemoved p removed shared =>
    obtain ⟨hp, hne⟩ : p ∈ U ∧ p ≠ [] := he
    obtain ⟨_, hrem⟩ := removed_spec hU hs removed shared hp hne
    have hdrop := ((hrem path d').mp hd').1
    rw [dropAt] at hdrop
    by_cases hpp : path = p
    · rw [if_pos hpp, ← hpp, hd, Option.map_some, Option.some.injEq] at hdrop
      rw [← hdrop, dropInterfaces, ProxyData.interfacesUnload_valid]
    · rw [if_neg hpp, hd, Option.some.injEq] at hdrop
      rw [← hdrop, hvalid]
  | message m =>
    obtain ⟨_, hfind, _⟩ := message_spec hU hs m he.1 he.2
    rw [hfind path, hd] at hd'
    by_cases hqp : path = m.path
    · rw [if_pos hqp, Option.map_some, Option.some.injEq] at hd'
      rw [← hd', receive_valid, hvalid]
    · rw [if_neg hqp, Option.some.injEq] at hd'
      rw [← hd', hvalid]

/-- A proxy whose object was removed while it had another owner stays invalid for as long
as it is in the tree, also when the object is announced again. -/
theorem removed_stays_invalid {U : Set ObjectPath} (hU : Unconfused U) {s : Bluez Name Value}
    (hs : s.WellFormed U) {path : ObjectPath} (removed : List Name) (shared : ObjectPath → Bool)
    (hp : path ∈ U) (hne : path ≠ []) (events : List (BusEvent Name Value))
    (hev : ∀ e ∈ events, e.Of U)
    (hstays : ∀ k, k ≤ events.length →
      (((s.step (.interfacesRemoved path removed shared)).1).after (events.take k)).present path =
        true) :
    (((s.step (.interfacesRemoved path removed shared)).1.after events).object path).map
      ProxyData.valid = some false := by
  have hremoved : (BusEvent.interfacesRemoved path removed shared :
      BusEvent Name Value).Of U := ⟨hp, hne⟩
  have hwf := wellFormed_step hU s _ hs hremoved
  obtain ⟨_, hrem⟩ := removed_spec hU hs removed shared hp hne
  generalize (s.step (.interfacesRemoved path removed shared)).1 = t at hstays hwf hrem
  have hstart : (t.object path).map ProxyData.valid = some false := by
    obtain ⟨d, hd⟩ := Option.isSome_iff_exists.mp (hstays 0 (Nat.zero_le _))
    have hd' : t.object path = some d := hd
    have hdrop := ((hrem path d).mp hd').1
    rw [dropAt, if_pos rfl, Option.map_eq_some_iff] at hdrop
    obtain ⟨d0, _, hd0⟩ := hdrop
    rw [hd', Option.map_some, ← hd0, dropInterfaces, ProxyData.interfacesUnload_valid]
  clear hrem
  induction events generalizing t with
  | nil => exact hstart
  | cons e es ih =>
    have he := hev e List.mem_cons_self
    apply ih (fun e' he' => hev e' (List.mem_cons_of_mem e he')) (t.step e).1
    · intro k hk
      exact hstays (k + 1) (by simpa using hk)
    · exact wellFormed_step hU t e hwf he
    · rw [Option.map_eq_some_iff] at hstart
      obtain ⟨d, hd, hvalid⟩ := hstart
      obtain ⟨d', hd'⟩ := Option.isSome_iff_exists.mp (hstays 1 (by simp))
      have hnext : (t.step e).1.object path = some d' := hd'
      rw [hnext, Option.map_some, valid_step hU hwf he hd hvalid hnext]

theorem mirroredDevice_stays_invalid :
    (((mirroredDevice.step (.interfacesRemoved devicePath [0] (fun _ => true))).1.after
      [deviceAdded]).object devicePath).map ProxyData.valid = some false := by
  apply removed_stays_invalid bluezPaths_unconfused mirroredDevice_wellFormed
  · exact devicePath_mem
  · decide
  · exact deviceAdded_of
  · decide

end Bluez

/-- `path_append_child`. -/
def pathAppendChild (own : ObjectPath) (kids : Children Name Value) (path : ObjectPath)
    (data : ProxyData Name Value) : Children Name Value :=
  if !isChild own.text path.text then kids else emplaceChild path data .nil kids

namespace Bluez

/-- What `GetManagedObjects` returned, as announcements. -/
def announced (managed : List (ObjectPath × Dict Name (Dict Name Value))) :
    List (BusEvent Name Value) := managed.map (fun o => .interfacesAdded o.1 o.2)

/-- `Bluez::init`: the objects that `GetManagedObjects` returns, then the agent. -/
def init (s : Bluez Name Value) (managed : List (ObjectPath × Dict Name (Dict Name Value)))
    (agentPath : ObjectPath) (agent : ProxyData Name Value) : Bluez Name Value :=
  let loaded := s.after (announced managed)
  ⟨loaded.data, pathAppendChild [] loaded.children agentPath agent⟩

omit [DecidableEq Name] in
theorem announced_of {U : Set ObjectPath}
    {managed : List (ObjectPath × Dict Name (Dict Name Value))}
    (hmanaged : ∀ o ∈ managed, o.1 ∈ U ∧ o.1 ≠ []) :
    ∀ e ∈ announced managed, e.Of U := by
  intro e he
  obtain ⟨o, ho, heq⟩ := List.mem_map.mp he
  rw [← heq]
  exact hmanaged o ho

omit [DecidableEq Name] in
/-- Appending the agent changes no other object. -/
theorem pathAppendChild_spec {U : Set ObjectPath} {s : Bluez Name Value} (hs : s.WellFormed U)
    {agentPath : ObjectPath} (hagent : agentPath ∈ U) (hchild : ∃ e, agentPath = [e])
    (agent : ProxyData Name Value) :
    WellFormed U ⟨s.data, pathAppendChild [] s.children agentPath agent⟩ ∧
      ∀ path, path ≠ agentPath →
        (pathAppendChild [] s.children agentPath agent).find path = s.object path := by
  have hbase : ∃ e, agentPath = [] ++ [e] := hchild
  have hnil : (Forest.nil : Children Name Value).Rooted agentPath := Forest.rooted_nil agentPath
  rw [pathAppendChild]
  by_cases hno : (!isChild (ObjectPath.text []) agentPath.text) = true
  · rw [if_pos hno]
    exact ⟨hs, fun path _ => rfl⟩
  · rw [if_neg hno]
    by_cases hmem : agentPath ∈ s.children.tops
    · rw [emplaceChild, if_pos hmem]
      exact ⟨hs, fun path _ => rfl⟩
    · have hrooted := emplaceChild_rooted agent hs.rooted hbase hnil
      have hfind := find_emplaceChild agent hs.rooted hbase hnil hmem
      have hother : ∀ path, path ≠ agentPath →
          (emplaceChild agentPath agent .nil s.children).find path = s.object path := by
        intro path hne
        rw [hfind path, if_neg hne]
        by_cases hp : agentPath <+: path
        · rw [if_pos hp, object, hs.rooted.find_none_under hbase hmem hp, Forest.find]
        · rw [if_neg hp, object]
      refine ⟨⟨hrooted, fun q hq => ?_⟩, hother⟩
      by_cases hqa : q = agentPath
      · exact ⟨agentPath, hagent, by rw [hqa]⟩
      · have hq' : (s.object q).isSome = true := by
          rw [← hother q hqa]
          exact hq
        exact hs.within q hq'

theorem init_wellFormed {U : Set ObjectPath} (hU : Unconfused U) (data : ProxyData Name Value)
    {managed : List (ObjectPath × Dict Name (Dict Name Value))}
    (hmanaged : ∀ o ∈ managed, o.1 ∈ U ∧ o.1 ≠ []) {agentPath : ObjectPath} (hagent : agentPath ∈ U)
    (hchild : ∃ e, agentPath = [e]) (agent : ProxyData Name Value) :
    ((create data).init managed agentPath agent).WellFormed U :=
  (pathAppendChild_spec (wellFormed_after hU (create_wellFormed U data) (announced_of hmanaged))
    hagent hchild agent).1

/-- After `init` the tree has what `GetManagedObjects` returned. -/
theorem init_loaded {U : Set ObjectPath} (hU : Unconfused U) (data : ProxyData Name Value)
    {managed : List (ObjectPath × Dict Name (Dict Name Value))}
    (hmanaged : ∀ o ∈ managed, o.1 ∈ U ∧ o.1 ≠ []) {agentPath : ObjectPath} (hagent : agentPath ∈ U)
    (hchild : ∃ e, agentPath = [e]) (agent : ProxyData Name Value) {path : ObjectPath}
    (hpath : path ≠ agentPath) (name : Name) :
    ((create data).init managed agentPath agent).loaded path name =
      BusEvent.standing (announced managed) path name := by
  have hwf := wellFormed_after hU (create_wellFormed U data) (announced_of hmanaged)
  have hother := (pathAppendChild_spec hwf hagent hchild agent).2 path hpath
  have hobject : ((create data).init managed agentPath agent).object path =
      ((create data).after (announced managed)).object path := hother
  rw [loaded, hobject]
  exact loaded_eq_standing hU data (announced_of hmanaged) path name

end Bluez
end RCControl
