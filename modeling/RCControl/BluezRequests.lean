import RCControl.MessageRoundTrip

/-! What `simplebluez` asks of BlueZ: the filter of a discovery and the values that are
written to a characteristic or a descriptor, as they arrive. -/
namespace RCControl

/-- `DiscoveryFilter::TransportType`. -/
inductive TransportType
  | auto
  | bredr
  | le
deriving DecidableEq, Repr

structure DiscoveryFilter where
  uuids : List String := []
  rssi : Option Int16 := none
  pathloss : Option UInt16 := none
  transport : TransportType := .auto
  duplicateData : Bool := true
  discoverable : Bool := false
  pattern : String := ""

def TransportType.text : TransportType → String
  | auto => "auto"
  | bredr => "bredr"
  | le => "le"

/-- `array_append` in a loop. -/
def Holder.arrayOf (hs : List Holder) : Holder := hs.foldl Holder.arrayAppend (.array [])

/-- `dict_append` under a condition. -/
def Holder.appendIf (h : Holder) (c : Bool) (type : HolderType) (key : String) (value : Holder) :
    Holder :=
  if c then h.dictAppend type (.text key) value else h

/-- The argument of `SetDiscoveryFilter`. Each key is appended with the type of its value. -/
def setDiscoveryFilter (filter : DiscoveryFilter) : Holder :=
  (Holder.dict [])
    |>.appendIf (0 < filter.uuids.length) .array "UUIDs"
      (.arrayOf (filter.uuids.map (fun uuid => .basic (.string uuid))))
    |>.appendIf filter.rssi.isSome (.basic .int16) "RSSI"
      (.basic (.int16 (filter.rssi.getD 0)))
    |>.appendIf filter.pathloss.isSome (.basic .uint16) "Pathloss"
      (.basic (.uint16 (filter.pathloss.getD 0)))
    |>.appendIf true (.basic .string) "Transport" (.basic (.string filter.transport.text))
    |>.appendIf (!filter.duplicateData) (.basic .boolean) "DuplicateData"
      (.basic (.boolean false))
    |>.appendIf filter.discoverable (.basic .boolean) "Discoverable" (.basic (.boolean false))
    |>.appendIf (0 < filter.pattern.length) (.basic .string) "Pattern"
      (.basic (.string filter.pattern))

/-- `GattCharacteristic1::WriteType`. -/
inductive WriteType
  | request
  | command
deriving DecidableEq, Repr

def WriteType.text : WriteType → String
  | request => "request"
  | command => "command"

/-- The first argument of `WriteValue`. -/
def valueData (value : List UInt8) : Holder := .arrayOf (value.map (fun b => .basic (.byte b)))

/-- The options of `GattCharacteristic1::WriteValue`. -/
def writeOptions (type : WriteType) : Holder :=
  (Holder.dict []).dictAppend (.basic .string) (.text "type") (.basic (.string type.text))

/-- The options of `GattDescriptor1::WriteValue`. -/
def descriptorOptions : Holder := .dict []

/-- `update_value`. -/
def updateValue (value : Holder) : List UInt8 := value.getArray.map Holder.getByte

theorem arrayOf_eq (hs : List Holder) : Holder.arrayOf hs = .array hs := by
  have hfold : ∀ (hs gs : List Holder),
      hs.foldl Holder.arrayAppend (.array gs) = .array (gs ++ hs) := by
    intro hs
    induction hs with
    | nil => simp
    | cons h hs ih =>
      intro gs
      rw [List.foldl_cons, Holder.arrayAppend, ih, List.append_assoc]
      rfl
  exact hfold hs []

theorem appendIf_dict (es : List (Key × Holder)) (c : Bool) (type : HolderType) (key : String)
    (value : Holder) : (Holder.dict es).appendIf c type key value =
      .dict (es ++ if c then [(⟨type, .text key⟩, value)] else []) := by
  cases c <;> simp [Holder.appendIf, Holder.dictAppend]

/-- At a type of key, only the entries appended with this type are sent. -/
theorem append_dict_filter (accepts : Basic → Bool) (es : List (Key × Holder)) (key : BasicKind)
    (t : SigType) : appendArgument accepts (.dict es) (SigType.dict key t).render =
      appendArgument accepts (.dict (es.filter (fun e => e.1.type = .basic key)))
        (SigType.dict key t).render := by
  have hcontents : ∀ f : Key × Holder → Key × Option (List Wire), (∀ e, (f e).1 = e.1) →
      dictContents key ((es.filter (fun e => e.1.type = .basic key)).map f) =
        dictContents key (es.map f) := by
    intro f hf
    rw [dictContents, dictContents, dictOf, dictOf, List.filter_map, List.filter_map,
      List.filter_filter]
    simp [Function.comp_def, hf]
  rw [append_dict, append_dict, hcontents _ (fun e => rfl)]

/-- The settings of a filter that are sent. -/
def filterEntries (filter : DiscoveryFilter) : List (Key × Holder) :=
  (⟨.basic .string, .text "Transport"⟩, .basic (.string filter.transport.text)) ::
    if 0 < filter.pattern.length then
      [(⟨.basic .string, .text "Pattern"⟩, .basic (.string filter.pattern))] else []

theorem filter_optional {α : Type} (p : α → Bool) (c : Bool) (a : α) :
    (if c then [a] else []).filter p = if c && p a then [a] else [] := by
  cases c <;> cases h : p a <;> simp [h]

theorem setDiscoveryFilter_append (accepts : Basic → Bool) (filter : DiscoveryFilter) :
    appendArgument accepts (setDiscoveryFilter filter) (SigType.dict .string .variant).render =
      appendArgument accepts (.dict (filterEntries filter))
        (SigType.dict .string .variant).render := by
  simp only [setDiscoveryFilter, appendIf_dict]
  rw [append_dict_filter]
  -- only the keys of `Transport` and `Pattern` have the type of their values
  simp only [List.filter_append, filter_optional]
  simp [filterEntries]

/-- The settings as they arrive, in the order of their names. -/
def arrivingSettings (filter : DiscoveryFilter) : List (Basic × Holder) :=
  (if 0 < filter.pattern.length then
    [(.string "Pattern", .basic (Basic.string filter.pattern).cStr)] else []) ++
    [(.string "Transport", .basic (.string filter.transport.text))]

theorem filterEntries_sent (filter : DiscoveryFilter) : sentEntries (filterEntries filter) =
    (if 0 < filter.pattern.length then
      [(.string "Pattern", .basic (.string filter.pattern))] else []) ++
      [(.string "Transport", .basic (.string filter.transport.text))] := by
  have horder : Basic.string "Pattern" < Basic.string "Transport" := by decide
  by_cases hpattern : 0 < filter.pattern.length
  · simp only [sentEntries, filterEntries, if_pos hpattern]
    simp [keyed, Key.asBasic, Contents.cast, AssignMap.ofEntries, AssignMap.assign, horder,
      Basic.kind, BasicKind.hasDict]
  · simp only [sentEntries, filterEntries, if_neg hpattern]
    simp [keyed, Key.asBasic, Contents.cast, AssignMap.ofEntries, AssignMap.assign,
      Basic.kind, BasicKind.hasDict]

theorem mem_filterEntries (filter : DiscoveryFilter) : ∀ e ∈ filterEntries filter,
    ∃ key text, e = (⟨.basic .string, .text key⟩, .basic (.string text)) := by
  intro e he
  rcases List.mem_cons.mp he with rfl | he
  · exact ⟨_, _, rfl⟩
  · split at he
    · rw [List.mem_singleton.mp he]
      exact ⟨_, _, rfl⟩
    · cases he

theorem fits_text {accepts : Basic → Bool} (htext : ∀ text, accepts (.string text) = true)
    (text : String) : Fits accepts .variant (.basic (.string text)) :=
  .variant ((completeType_iff _ (.basic .string)).mpr rfl) (fits_basic rfl (htext _))

theorem transport_cStr (transport : TransportType) :
    (Basic.string transport.text).cStr = .string transport.text := by
  cases transport <;> rfl

/-- Options whose names and values are texts. -/
theorem fits_texts {accepts : Basic → Bool} (htext : ∀ text, accepts (.string text) = true)
    {es : List (Key × Holder)}
    (hes : ∀ e ∈ es, ∃ key text, e = (⟨.basic .string, .text key⟩, .basic (.string text))) :
    Fits accepts (.dict .string .variant) (.dict es) := by
  refine .dict (fun e he => ?_) (fun _ e he => ?_) (fun e he => ?_) (fun e he => ?_)
  · obtain ⟨key, text, rfl⟩ := hes e he
    rfl
  · obtain ⟨key, text, rfl⟩ := hes e he
    rfl
  · obtain ⟨-, f, hf, hbasic, -⟩ := mem_sentEntries he
    obtain ⟨key, text, rfl⟩ := hes f hf
    rw [← Option.some.inj hbasic]
    exact htext _
  · obtain ⟨-, f, hf, -, hvalue⟩ := mem_sentEntries he
    obtain ⟨key, text, rfl⟩ := hes f hf
    rw [← hvalue]
    exact fits_text htext text

/-- Whatever a filter asks for, BlueZ learns of its transport and its pattern only. -/
theorem discovery_filter_arrives {accepts : Basic → Bool}
    (htext : ∀ text, accepts (.string text) = true) (filter : DiscoveryFilter) :
    ∃ w, appendArgument accepts (setDiscoveryFilter filter) ['a', '{', 's', 'v', '}'] = some [w] ∧
      extractGeneric w = .dict (withKeys (arrivingSettings filter)) := by
  obtain ⟨w, hw, -, hextract⟩ := fits_round_trip (fits_texts htext (mem_filterEntries filter))
  refine ⟨w, (setDiscoveryFilter_append accepts filter).trans hw, ?_⟩
  have harrive : (sentEntries (filterEntries filter)).map (fun e => (e.1.cStr, e.2.normal)) =
      arrivingSettings filter := by
    rw [filterEntries_sent, arrivingSettings, List.map_append]
    congr 1
    · by_cases hpattern : 0 < filter.pattern.length
      · rw [if_pos hpattern, if_pos hpattern]
        rfl
      · rw [if_neg hpattern, if_neg hpattern]
        rfl
    · rw [List.map_singleton, Holder.normal, transport_cStr]
      rfl
  rw [hextract, normal_dict, harrive, asDict_eq_dict_iff]
  exact ⟨by simp [arrivingSettings], rfl⟩

/-- A scan for weak signals of two services: only that it is for `le` arrives. -/
def nearbyFilter : DiscoveryFilter :=
  { uuids := ["180d", "180f"], rssi := some (-70), transport := .le, duplicateData := false }

theorem nearbyFilter_arrives :
    ∃ w, appendArgument (fun _ => true) (setDiscoveryFilter nearbyFilter)
        ['a', '{', 's', 'v', '}'] = some [w] ∧
      extractGeneric w = .dict (withKeys (arrivingSettings nearbyFilter)) :=
  discovery_filter_arrives (fun _ => rfl) nearbyFilter

example : arrivingSettings nearbyFilter = [(.string "Transport", .basic (.string "le"))] := rfl

theorem valueData_eq (value : List UInt8) :
    valueData value = .array (value.map (fun b => .basic (.byte b))) := arrayOf_eq _

theorem valueData_fits {accepts : Basic → Bool} (hbyte : ∀ b, accepts (.byte b) = true)
    (value : List UInt8) : Fits accepts (.array (.basic .byte)) (valueData value) := by
  rw [valueData_eq]
  refine .array fun h hmem => ?_
  obtain ⟨b, -, rfl⟩ := List.mem_map.mp hmem
  exact fits_basic rfl (hbyte b)

theorem valueData_canonical (value : List UInt8) : Canonical (valueData value) := by
  rw [valueData_eq]
  refine .array fun h hmem => ?_
  obtain ⟨b, -, rfl⟩ := List.mem_map.mp hmem
  exact .basic rfl

theorem updateValue_valueData (value : List UInt8) : updateValue (valueData value) = value := by
  rw [valueData_eq, updateValue, Holder.getArray, List.map_map]
  refine map_self_iff.mpr fun b _ => ?_
  simp [Holder.getByte, Holder.integer]

theorem writeOptions_eq (type : WriteType) :
    writeOptions type = .dict (withKeys [(.string "type", .basic (.string type.text))]) := rfl

theorem writeOptions_fits {accepts : Basic → Bool} (htext : ∀ text, accepts (.string text) = true)
    (type : WriteType) : Fits accepts (.dict .string .variant) (writeOptions type) := by
  rw [writeOptions_eq]
  refine fits_texts htext fun e he => ⟨"type", type.text, ?_⟩
  rw [List.mem_singleton.mp he]
  rfl

theorem writeOptions_canonical (type : WriteType) : Canonical (writeOptions type) := by
  rw [writeOptions_eq]
  refine .dict (List.cons_ne_nil _ _) (List.pairwise_singleton _ _) (fun e he => ?_)
    (fun e he => ?_) (fun e he => ?_)
  · rw [List.mem_singleton.mp he]
    rfl
  · rw [List.mem_singleton.mp he]
    rfl
  · rw [List.mem_singleton.mp he]
    refine .basic ?_
    cases type <;> rfl

/-- The bytes that are written are the bytes the other side reads; the options of a
characteristic arrive as they are, the empty ones of a descriptor as an empty array. -/
theorem written_value_arrives {accepts : Basic → Bool} (hbyte : ∀ b, accepts (.byte b) = true)
    (htext : ∀ text, accepts (.string text) = true) (value : List UInt8) (type : WriteType) :
    ∃ w o d, appendArgument accepts (valueData value) ['a', 'y'] = some [w] ∧
      appendArgument accepts (writeOptions type) ['a', '{', 's', 'v', '}'] = some [o] ∧
      appendArgument accepts descriptorOptions ['a', '{', 's', 'v', '}'] = some [d] ∧
      updateValue (extractGeneric w) = value ∧ extractGeneric o = writeOptions type ∧
      extractGeneric d = .array [] := by
  obtain ⟨w, hw, -, hvalue⟩ := fits_round_trip (valueData_fits hbyte value)
  obtain ⟨o, ho, -, hoptions⟩ := fits_round_trip (writeOptions_fits htext type)
  obtain ⟨d, hd, -, hempty⟩ := fits_round_trip (fits_texts htext (List.forall_mem_nil _))
  rw [(normal_canonical _).mpr (valueData_canonical value)] at hvalue
  rw [(normal_canonical _).mpr (writeOptions_canonical type)] at hoptions
  exact ⟨w, o, d, hw, ho, hd, by rw [hvalue, updateValue_valueData], hoptions, hempty⟩

theorem written_value_arrives_command :
    ∃ w o d, appendArgument (fun _ => true) (valueData [7, 255]) ['a', 'y'] = some [w] ∧
      appendArgument (fun _ => true) (writeOptions .command) ['a', '{', 's', 'v', '}'] = some [o] ∧
      appendArgument (fun _ => true) descriptorOptions ['a', '{', 's', 'v', '}'] = some [d] ∧
      updateValue (extractGeneric w) = [7, 255] ∧ extractGeneric o = writeOptions .command ∧
      extractGeneric d = .array [] :=
  written_value_arrives (fun _ => rfl) (fun _ => rfl) [7, 255] .command

end RCControl
