import RCControl.BusMirror
import RCControl.MessageReader
import RCControl.MessageRoundTrip

/-! The signals of BlueZ as messages, and the object tree after them: from the values in
the messages to what the tree shows. -/
namespace RCControl
open MapOption

/-- `get_dict_string` as a dictionary. -/
def textDict {α : Type} (entries : List (Basic × α)) : Dict String α :=
  (entries.map (fun e => (⟨(Holder.basic e.1).text, e.2⟩ : Σ _ : String, α))).toAList

def Holder.getDictString (h : Holder) : Option (Dict String Holder) :=
  (h.getDict .string).map textDict

/-- The loops over a dictionary of interfaces and their options. -/
def Holder.managedInterfaces (h : Holder) : Option (Dict String (Dict String Holder)) :=
  (h.getDict .string).bind fun entries =>
    (entries.mapM (fun e : Basic × Holder => e.2.getDictString.map (fun options => (e.1, options)))).map textDict

def Holder.getTexts (h : Holder) : List String := h.getArray.map Holder.getString

/-- The object of a valid path. -/
def ObjectPath.ofText (path : PathText) : Option ObjectPath :=
  (splitElements path).mapM (fun e => if h : e ≠ [] ∧ '/' ∉ e then some ⟨e, h⟩ else none)

/-- A dictionary of properties. What is in the variants may be of any type, also of one
the program does not know. -/
inductive Wire.IsOptions : Wire → Prop
  | dict {entries : List (Basic × Wire)} : (∀ e ∈ entries, e.1.kind = .string) →
      (∀ e ∈ entries, ∃ content, e.2 = .variant content) →
      IsOptions (.dict .string .variant entries)

/-- A dictionary of interfaces with their properties. -/
inductive Wire.IsManaged : Wire → Prop
  | dict {entries : List (Basic × Wire)} : (∀ e ∈ entries, e.1.kind = .string) →
      (∀ e ∈ entries, e.2.IsOptions) → IsManaged (.dict .string (.dict .string .variant) entries)

/-- A signal as BlueZ sends it. `shared` is about the proxies when it arrives. -/
inductive Signal
  | interfacesAdded (path : ObjectPath) (managed : Wire)
  | interfacesRemoved (path : ObjectPath) (removed : Wire) (shared : ObjectPath → Bool)
  | propertiesChanged (path : ObjectPath) (interface : String) (changed invalidated : Wire)

namespace Signal

def path : Signal → ObjectPath
  | interfacesAdded path _ => path
  | interfacesRemoved path _ _ => path
  | propertiesChanged path _ _ _ => path

def arguments : Signal → List Wire
  | interfacesAdded path managed => [.basic (.objectPath (String.ofList path.text)), managed]
  | interfacesRemoved path removed _ => [.basic (.objectPath (String.ofList path.text)), removed]
  | propertiesChanged _ interface changed invalidated =>
    [.basic (.string interface), changed, invalidated]

/-- The arguments have the types of the interfaces of D-Bus. -/
def WellTyped : Signal → Prop
  | interfacesAdded _ managed => managed.IsManaged
  | interfacesRemoved _ removed _ => removed.HasType (.array (.basic .string))
  | propertiesChanged _ _ changed invalidated =>
    changed.IsOptions ∧ invalidated.HasType (.array (.basic .string))

/-- `ObjectManager::message_handle` and the beginning of `Proxy::message_forward`. -/
def receive (s : Signal) : Option (BusEvent String Holder) :=
  let first := (MessageReader.create s.arguments).extract
  let second := first.1.extractNext.extract
  let third := second.1.extractNext.extract
  match s with
  | interfacesAdded _ _ =>
    (ObjectPath.ofText first.2.getString.toList).bind fun path =>
      second.2.managedInterfaces.map (BusEvent.interfacesAdded path)
  | interfacesRemoved _ _ shared =>
    (ObjectPath.ofText first.2.getString.toList).map fun path =>
      .interfacesRemoved path second.2.getTexts shared
  | propertiesChanged path _ _ _ =>
    second.2.getDictString.map fun changed =>
      .message (.propertiesChanged path first.2.getString changed third.2.getTexts)

end Signal

namespace Wire

/-- What a dictionary in a message has under a name, where the last entry counts. -/
def entry (w : Wire) (name : String) : Option Wire :=
  match w with
  | .dict _ _ entries => AssignMap.last entries (.string name)
  | _ => none

def text : Wire → String
  | .basic value => (Holder.basic value).text
  | _ => ""

def texts : Wire → List String
  | .array _ elements => elements.map text
  | _ => []

end Wire

namespace Signal

/-- What the message says about an interface of an object: there, gone, or nothing. -/
def announces (path : ObjectPath) (name : String) : Signal → Option Bool
  | interfacesAdded p managed => if p = path ∧ (managed.entry name).isSome then some true else none
  | interfacesRemoved p removed _ => if p = path ∧ name ∈ removed.texts then some false else none
  | propertiesChanged _ _ _ _ => none

/-- The value that the message gives to a property. -/
def writes (path : ObjectPath) (name property : String) : Signal → Option Wire
  | interfacesAdded p managed =>
    if p = path then (managed.entry name).bind (fun options => options.entry property) else none
  | interfacesRemoved _ _ _ => none
  | propertiesChanged p interface changed _ =>
    if p = path ∧ interface = name then changed.entry property else none

end Signal

theorem string_text {b : Basic} (hb : b.kind = .string) : .string (Holder.basic b).text = b := by
  cases b <;> first | rfl | cases hb

theorem textDict_lookup {α : Type} {entries : List (Basic × α)}
    (hkeys : ∀ e ∈ entries, e.1.kind = .string) (name : String) :
    (textDict (AssignMap.ofEntries entries)).lookup name =
      AssignMap.last entries (.string name) := by
  have htext : ∀ e ∈ AssignMap.ofEntries entries, .string (Holder.basic e.1).text = e.1 :=
    fun e he => string_text (hkeys e (AssignMap.mem_of_mem_ofEntries he))
  have hnodup : ((AssignMap.ofEntries entries).map
      (fun e => (⟨(Holder.basic e.1).text, e.2⟩ : Σ _ : String, α))).NodupKeys := by
    rw [List.nodupKeys_iff_pairwise, List.pairwise_map]
    refine (AssignMap.sorted_ofEntries entries).imp_of_mem fun ha hb hlt heq => hlt.ne ?_
    rw [← htext _ ha, ← htext _ hb]
    exact congrArg Basic.string heq
  -- no name is there twice, so looking it up finds its entry
  rw [textDict, AList.lookup_to_alist]
  ext v
  rw [← Option.mem_def, List.mem_dlookup_iff hnodup, List.mem_map]
  constructor
  · rintro ⟨e, he, heq⟩
    cases heq
    rw [htext e he, ← (AssignMap.mem_ofEntries_iff entries e).mp he]
  · intro hlast
    exact ⟨(.string name, v), (AssignMap.mem_ofEntries_iff entries _).mpr hlast, rfl⟩

theorem dictOf_withKeys {α : Type} {kind : BasicKind} {entries : List (Basic × α)}
    (hkeys : ∀ e ∈ entries, e.1.kind = kind) :
    dictOf kind (withKeys entries) = some (AssignMap.ofEntries entries) := by
  have htypes : ∀ e ∈ withKeys entries, e.1.type = .basic kind := by
    intro e he
    obtain ⟨f, hf, rfl⟩ := List.mem_map.mp he
    exact congrArg HolderType.basic (hkeys f hf)
  have hcast : (withKeys entries).mapM (castKey kind) = some entries := by
    rw [mapM_eq_some_iff, withKeys, List.map_map]
    refine List.map_congr_left fun e he => ?_
    rw [Function.comp_apply, castKey_eq (htypes _ (List.mem_map_of_mem he)), ofBasic_asBasic]
    rfl
  rw [dictOf_eq htypes, hcast]
  rfl

theorem kinds_map {α β : Type} {kind : BasicKind} {entries : List (Basic × α)}
    (hkeys : ∀ e ∈ entries, e.1.kind = kind) (f : α → β) :
    ∀ e ∈ entries.map (fun e => (e.1, f e.2)), e.1.kind = kind :=
  List.forall_mem_map.mpr hkeys

/-- The entries of a dictionary in a message. -/
theorem extract_getDict {t : SigType} {entries : List (Basic × Wire)}
    (hkeys : ∀ e ∈ entries, e.1.kind = .string) :
    (extractGeneric (.dict .string t entries)).getDict .string =
      some ((AssignMap.ofEntries entries).map (fun e => (e.1, extractGeneric e.2))) := by
  have hentries : ∀ l : List (Basic × Holder), (asDict l).entries = withKeys l := by
    intro l
    cases l <;> rfl
  rw [extract_dict, Holder.getDict, hentries, dictOf_withKeys (kinds_map hkeys extractGeneric),
    AssignMap.map_ofEntries]

/-- A dictionary of properties arrives with the last value of each. -/
theorem extract_getDictString {w : Wire} (hw : w.IsOptions) :
    ∃ options, (extractGeneric w).getDictString = some options ∧
      ∀ name, options.lookup name = (w.entry name).map extractGeneric := by
  cases hw with
  | @dict entries hkeys _ =>
    refine ⟨_, by rw [Holder.getDictString, extract_getDict hkeys]; rfl, fun name => ?_⟩
    rw [AssignMap.map_ofEntries, textDict_lookup (kinds_map hkeys extractGeneric),
      AssignMap.last_map]
    rfl

theorem extract_managedInterfaces {w : Wire} (hw : w.IsManaged) :
    ∃ managed, (extractGeneric w).managedInterfaces = some managed ∧
      (∀ name, name ∈ managed ↔ (w.entry name).isSome = true) ∧
      ∀ name property, (managed.lookup name).bind (fun options => options.lookup property) =
        ((w.entry name).bind (fun options => options.entry property)).map extractGeneric := by
  cases hw with
  | @dict entries hkeys hvalues =>
    have hread := fun (v : Wire) (hv : v.IsOptions) => extract_getDictString hv
    choose! options hoptions hlookup using hread
    have htyped : ∀ e ∈ AssignMap.ofEntries entries, e.2.IsOptions :=
      fun e he => hvalues e (AssignMap.mem_of_mem_ofEntries he)
    have hloaded : ((AssignMap.ofEntries entries).map (fun e => (e.1, extractGeneric e.2))).mapM
        (fun e : Basic × Holder => e.2.getDictString.map (fun options => (e.1, options))) =
        some (AssignMap.ofEntries (entries.map (fun e => (e.1, options e.2)))) := by
      rw [mapM_eq_some_iff, ← AssignMap.map_ofEntries, List.map_map, List.map_map]
      refine List.map_congr_left fun e he => ?_
      rw [Function.comp_apply, hoptions e.2 (htyped e he)]
      rfl
    have hmanaged : ∀ name, (textDict (AssignMap.ofEntries
        (entries.map (fun e => (e.1, options e.2))))).lookup name =
        (AssignMap.last entries (.string name)).map options := by
      intro name
      rw [textDict_lookup (kinds_map hkeys options), AssignMap.last_map]
    refine ⟨_, by rw [Holder.managedInterfaces, extract_getDict hkeys, Option.bind_some, hloaded]; rfl,
      fun name => ?_, fun name property => ?_⟩
    · rw [← AList.lookup_isSome, hmanaged, Option.isSome_map]
      rfl
    · rw [hmanaged, Wire.entry]
      cases hlast : AssignMap.last entries (.string name) with
      | none => rfl
      | some v =>
        have hmem := (AssignMap.mem_ofEntries_iff entries (.string name, v)).mpr hlast
        exact hlookup v (htyped _ hmem) property

theorem ofText_text (path : ObjectPath) : ObjectPath.ofText path.text = some path := by
  rw [ObjectPath.ofText, splitElements_text, mapM_eq_some_iff, List.map_map]
  refine List.map_congr_left fun e _ => ?_
  exact dif_pos e.property

theorem exists_basic {w : Wire} {kind : BasicKind} (hw : w.HasType (.basic kind)) :
    ∃ value, w = .basic value := by
  generalize ht : SigType.basic kind = t at hw
  cases hw with
  | basic value => exact ⟨value, rfl⟩
  | array _ => cases ht
  | dict _ _ => cases ht
  | variant _ => cases ht

theorem extract_getTexts {w : Wire} (hw : w.HasType (.array (.basic .string))) :
    (extractGeneric w).getTexts = w.texts := by
  cases hw with
  | @array _ elements htyped =>
    rw [extractGeneric, extractArray_of_typed htyped, Holder.getTexts, Holder.getArray,
      List.map_map, Wire.texts]
    refine List.map_congr_left fun v hv => ?_
    obtain ⟨value, rfl⟩ := exists_basic (htyped v hv)
    rfl

namespace Signal

theorem ofText_argument (path : ObjectPath) :
    ObjectPath.ofText (String.ofList path.text).toList = some path := by
  rw [String.toList_ofList, ofText_text]

/-- What is made of a signal is about the same object, and says and gives what the message
says and gives. -/
theorem receive_spec {s : Signal} (hs : s.WellTyped) :
    ∃ e, s.receive = some e ∧ e.path = s.path ∧
      (∀ path name, e.announces path name = s.announces path name) ∧
      ∀ path name property, e.writes path name property =
        (s.writes path name property).map extractGeneric := by
  cases s with
  | interfacesAdded path managed =>
    obtain ⟨dict, hdict, hmem, hlookup⟩ := extract_managedInterfaces hs
    refine ⟨.interfacesAdded path dict, ?_, rfl, fun p name => ?_, fun p name property => ?_⟩
    · show (ObjectPath.ofText (String.ofList path.text).toList).bind _ = _
      rw [ofText_argument, Option.bind_some]
      show (extractGeneric managed).managedInterfaces.map _ = _
      rw [hdict]
      rfl
    · simp only [BusEvent.announces, announces, hmem]
    · simp only [BusEvent.writes, writes]
      by_cases hp : path = p
      · rw [if_pos hp, if_pos hp, hlookup]
      · rw [if_neg hp, if_neg hp]
        rfl
  | interfacesRemoved path removed shared =>
    refine ⟨.interfacesRemoved path removed.texts shared, ?_, rfl, fun p name => rfl,
      fun p name property => rfl⟩
    show (ObjectPath.ofText (String.ofList path.text).toList).map _ = _
    rw [ofText_argument, Option.map_some]
    show some (BusEvent.interfacesRemoved path (extractGeneric removed).getTexts shared) = _
    rw [extract_getTexts hs]
  | propertiesChanged path interface changed invalidated =>
    obtain ⟨dict, hdict, hlookup⟩ := extract_getDictString hs.1
    refine ⟨.message (.propertiesChanged path interface dict invalidated.texts), ?_, rfl,
      fun p name => rfl, fun p name property => ?_⟩
    · show (extractGeneric changed).getDictString.map _ = _
      rw [hdict, Option.map_some]
      show some (BusEvent.message (.propertiesChanged path interface dict
        (extractGeneric invalidated).getTexts)) = _
      rw [extract_getTexts hs.2]
    · simp only [BusEvent.writes, writes]
      by_cases hp : path = p ∧ interface = name
      · rw [if_pos hp, if_pos hp, hlookup]
      · rw [if_neg hp, if_neg hp]
        rfl

/-- A run of signals becomes a run of events that say and give the same. -/
theorem receive_run {U : Set ObjectPath} {signals : List Signal}
    (htyped : ∀ s ∈ signals, s.WellTyped) (hof : ∀ s ∈ signals, s.path ∈ U ∧ s.path ≠ []) :
    ∃ events, signals.mapM receive = some events ∧ (∀ e ∈ events, e.Of U) ∧
      (∀ path name, events.map (BusEvent.announces path name) =
        signals.map (announces path name)) ∧
      ∀ path name property, events.map (BusEvent.writes path name property) =
        signals.map (fun s => (writes path name property s).map extractGeneric) := by
  have hnonempty : Nonempty (BusEvent String Holder) :=
    ⟨.interfacesRemoved [] [] (fun _ => false)⟩
  have hread := fun (s : Signal) (hs : s.WellTyped) => receive_spec hs
  choose! event hevent hpath hannounces hwrites using hread
  refine ⟨signals.map event, mapM_of_forall fun s hs => hevent s (htyped s hs), ?_, ?_, ?_⟩
  · intro e he
    obtain ⟨s, hs, rfl⟩ := List.mem_map.mp he
    rw [BusEvent.Of, hpath s (htyped s hs)]
    exact hof s hs
  · intro path name
    rw [List.map_map]
    exact List.map_congr_left fun s hs => hannounces s (htyped s hs) path name
  · intro path name property
    rw [List.map_map]
    exact List.map_congr_left fun s hs => hwrites s (htyped s hs) path name property

/-- Options with a signal strength. -/
def rssiOptions (rssi : Int16) : Wire :=
  .dict .string .variant [(.string "RSSI", .variant (.basic (.int16 rssi)))]

theorem rssiOptions_typed (rssi : Int16) : (rssiOptions rssi).IsOptions := by
  refine .dict (fun e he => ?_) (fun e he => ?_)
  · rw [List.mem_singleton.mp he]
    rfl
  · rw [List.mem_singleton.mp he]
    exact ⟨_, rfl⟩

def strongerSignal : Signal :=
  .propertiesChanged devicePath "org.bluez.Device1" (rssiOptions (-52)) (.array (.basic .string) [])

def deviceSignals : List Signal :=
  [.interfacesAdded devicePath (.dict .string (.dict .string .variant)
    [(.string "org.bluez.Device1", rssiOptions (-60))]), strongerSignal]

theorem strongerSignal_typed : strongerSignal.WellTyped :=
  ⟨rssiOptions_typed (-52), .array fun w hw => by cases hw⟩

theorem deviceSignals_typed : ∀ s ∈ deviceSignals, s.WellTyped := by
  intro s hs
  rcases List.mem_cons.mp hs with rfl | hs
  · refine .dict (fun e he => ?_) (fun e he => ?_)
    · rw [List.mem_singleton.mp he]
      rfl
    · rw [List.mem_singleton.mp he]
      exact rssiOptions_typed (-60)
  · rw [List.mem_singleton.mp hs]
    exact strongerSignal_typed

theorem of_devicePath {signals : List Signal} (h : ∀ s ∈ signals, s.path = devicePath) :
    ∀ s ∈ signals, s.path ∈ {p | p ∈ bluezPaths} ∧ s.path ≠ [] := by
  intro s hs
  rw [h s hs]
  exact ⟨devicePath_mem, by decide⟩

theorem deviceSignals_path : ∀ s ∈ deviceSignals, s.path = devicePath := by
  intro s hs
  rcases List.mem_cons.mp hs with rfl | hs
  · rfl
  · rw [List.mem_singleton.mp hs]
    rfl

/-- As long as no message takes an interface away, each of its properties is cached as it
was last sent. -/
theorem cached_is_last_sent {U : Set ObjectPath} (hU : Unconfused U) {s : Bluez String Holder}
    (hs : s.WellFormed U) (path : ObjectPath) (name property : String)
    (hloaded : s.loaded path name = true) {signals : List Signal}
    (htyped : ∀ s ∈ signals, s.WellTyped) (hof : ∀ s ∈ signals, s.path ∈ U ∧ s.path ≠ [])
    (hkept : ∀ s ∈ signals, s.announces path name ≠ some false) :
    ∃ events, signals.mapM receive = some events ∧
      (s.after events).cached path name property =
        (((signals.filterMap (writes path name property)).getLast?).map extractGeneric).or
          (s.cached path name property) := by
  obtain ⟨events, hevents, hev, hannounces, hwrites⟩ := receive_run htyped hof
  -- the events take no interface away that the messages keep
  have hkeep : ∀ e ∈ events, e.announces path name ≠ some false := by
    have hmem : some false ∉ events.map (BusEvent.announces path name) := by
      rw [hannounces]
      rintro hmem
      obtain ⟨g, hg, hfalse⟩ := List.mem_map.mp hmem
      exact hkept g hg hfalse
    intro e he hfalse
    exact hmem (hfalse ▸ List.mem_map_of_mem he)
  refine ⟨events, hevents, ?_⟩
  rw [Bluez.cached_is_latest hU hs path name property hloaded events hev hkeep]
  have hmap := congrArg (List.filterMap id) (hwrites path name property)
  rw [List.filterMap_map, List.filterMap_map] at hmap
  have hlast : events.filterMap (BusEvent.writes path name property) =
      (signals.filterMap (writes path name property)).map extractGeneric := by
    rw [List.map_filterMap]
    exact hmap
  rw [hlast, List.getLast?_map]

/-- The tree with the device announced. -/
def shownDevice : Bluez String Holder := (Bluez.create .create).after
  [.interfacesAdded devicePath (AList.singleton "org.bluez.Device1" ∅)]

theorem strongerSignal_cached :
    ∃ events, [strongerSignal].mapM receive = some events ∧
      (shownDevice.after events).cached devicePath "org.bluez.Device1" "RSSI" =
        ((([strongerSignal].filterMap
          (writes devicePath "org.bluez.Device1" "RSSI")).getLast?).map extractGeneric).or
          (shownDevice.cached devicePath "org.bluez.Device1" "RSSI") := by
  refine cached_is_last_sent bluezPaths_unconfused ?_ devicePath "org.bluez.Device1" "RSSI" ?_ ?_
    (of_devicePath ?_) ?_
  · refine Bluez.wellFormed_after bluezPaths_unconfused (Bluez.create_wellFormed _ _) fun e he => ?_
    rw [List.mem_singleton.mp he]
    exact ⟨devicePath_mem, by decide⟩
  · decide
  · intro s hs
    rw [List.mem_singleton.mp hs]
    exact strongerSignal_typed
  · intro s hs
    rw [List.mem_singleton.mp hs]
    rfl
  · intro s hs
    rw [List.mem_singleton.mp hs]
    exact nofun

end Signal

end RCControl
