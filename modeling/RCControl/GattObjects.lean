import RCControl.BusMirror
import RCControl.OrderedForest
import RCControl.GattTable
import RCControl.Holder

/-! The services of a device as they are read off the object tree: in the order of the
map of its children, after any run of bus signals. -/
namespace RCControl
open ReplayLog MapOption

theorem textBefore_strictlyTotal : Forest.StrictlyTotal textBefore where
  trans p q r hpq hqr := by
    rw [textBefore, decide_eq_true_eq] at hpq hqr ⊢
    exact List.lt_trans hpq hqr
  total p q hne := by
    rw [textBefore, textBefore, decide_eq_true_eq, decide_eq_true_eq]
    by_contra h
    rw [not_or, List.not_lt, List.not_lt] at h
    exact hne (text_injective (List.le_antisymm h.2 h.1))

section Order
variable {Name Value : Type}

theorem emplaceChild_ordered {path : ObjectPath} {data : ProxyData Name Value}
    {below kids : Children Name Value} (hbelow : below.Ordered textBefore)
    (hkids : kids.Ordered textBefore) :
    (emplaceChild path data below kids).Ordered textBefore := by
  rw [emplaceChild]
  by_cases hmem : path ∈ kids.tops
  · rw [if_pos hmem]
    exact hkids
  · rw [if_neg hmem]
    exact hkids.insert textBefore_strictlyTotal hbelow hmem

variable [DecidableEq Name]

theorem addStep_ordered {own path : ObjectPath} {kids : Children Name Value}
    {managed : Dict Name (Dict Name Value)}
    {forwarded : Option (Children Name Value × List (Notice Name))}
    {grown : ObjectPath → Children Name Value × List (Notice Name)}
    (hkids : kids.Ordered textBefore)
    (hforwarded : ∀ r, forwarded = some r → r.1.Ordered textBefore)
    (hgrown : ∀ c, (grown c).1.Ordered textBefore) :
    (addStep own kids path managed forwarded grown).1.Ordered textBefore := by
  unfold addStep
  split
  · exact hkids
  · split
    · apply hkids.alter
      intro d below r hbelow hr
      rw [← Option.some.inj hr]
      exact hbelow
    · split
      · exact emplaceChild_ordered Forest.ordered_nil hkids
      · cases hf : forwarded with
        | some r => exact hforwarded r hf
        | none => exact emplaceChild_ordered (hgrown _) hkids

theorem growWithin_ordered (path : ObjectPath) (managed : Dict Name (Dict Name Value)) (n : ℕ)
    (own : ObjectPath) : (growWithin path managed n own).1.Ordered textBefore := by
  induction n generalizing own with
  | zero => exact Forest.ordered_nil
  | succ n ih =>
    apply addStep_ordered Forest.ordered_nil
    · intro r hr
      cases hr
    · exact ih

theorem forwardAdd_ordered {path : ObjectPath} {managed : Dict Name (Dict Name Value)}
    {kids : Children Name Value} (hkids : kids.Ordered textBefore) :
    ∀ r, forwardAdd path managed kids = some r →
      r.1.tops = kids.tops ∧ r.1.Ordered textBefore := by
  induction kids with
  | nil =>
    intro r hr
    cases hr
  | cons k d below beside ihBelow ihBeside =>
    intro r hr
    rw [forwardAdd_cons] at hr
    by_cases hk : isDescendant (ObjectPath.text k) path.text = true
    · rw [if_pos hk] at hr
      have hadd : (pathAdd k below path managed).1.Ordered textBefore := by
        apply addStep_ordered hkids.2.1
        · exact fun r' hr' => (ihBelow hkids.2.1 r' hr').2
        · exact fun c => growWithin_ordered path managed _ c
      rw [← Option.some.inj hr]
      exact ⟨rfl, hkids.1, hadd, hkids.2.2⟩
    · rw [if_neg hk] at hr
      obtain ⟨r', hr', rfl⟩ := Option.map_eq_some_iff.mp hr
      obtain ⟨htops, hordered⟩ := ihBeside hkids.2.2 r' hr'
      refine ⟨by rw [Forest.tops, Forest.tops, htops], ?_, hkids.2.1, hordered⟩
      rw [htops]
      exact hkids.1

theorem pathAdd_ordered {own path : ObjectPath} {kids : Children Name Value}
    (managed : Dict Name (Dict Name Value)) (hkids : kids.Ordered textBefore) :
    (pathAdd own kids path managed).1.Ordered textBefore := by
  apply addStep_ordered hkids
  · exact fun r hr => (forwardAdd_ordered hkids r hr).2
  · exact fun c => growWithin_ordered path managed _ c

theorem removeStep_ordered {own path : ObjectPath} {data : ProxyData Name Value}
    {kids inChild : Children Name Value} {removed : List Name} {shared : ObjectPath → Bool}
    (hkids : kids.Ordered textBefore) (hinChild : inChild.Ordered textBefore) :
    (removeStep own data kids path removed shared inChild).1.2.Ordered textBefore := by
  rw [removeStep]
  split
  · exact hkids.prune _
  · split
    · exact hkids
    · exact hinChild

theorem removeIn_ordered {path : ObjectPath} {removed : List Name} {shared : ObjectPath → Bool}
    {child : ObjectPath} {kids : Children Name Value} (hkids : kids.Ordered textBefore) :
    (removeIn path removed shared child kids).Ordered textBefore := by
  induction kids generalizing child with
  | nil => exact Forest.ordered_nil
  | cons k d below beside ihBelow ihBeside =>
    rw [removeIn]
    by_cases hk : k = child
    · have hstep : (removeStep k d below path removed shared
          (removeIn path removed shared (path.take (k.length + 1)) below)).1.2.Ordered textBefore :=
        removeStep_ordered hkids.2.1 (ihBelow hkids.2.1)
      rw [if_pos hk]
      dsimp only
      split
      · exact hkids.2.2
      · exact ⟨hkids.1, hstep, hkids.2.2⟩
    · rw [if_neg hk]
      refine ⟨?_, hkids.2.1, ihBeside hkids.2.2⟩
      intro j hj
      rw [removeIn_eq_alter] at hj
      exact hkids.1 j (Forest.tops_alter_subset child _ beside j hj)

theorem pathRemove_ordered {own path : ObjectPath} {data : ProxyData Name Value}
    {kids : Children Name Value} {removed : List Name} {shared : ObjectPath → Bool}
    (hkids : kids.Ordered textBefore) :
    (pathRemove own data kids path removed shared).1.2.Ordered textBefore :=
  removeStep_ordered hkids (removeIn_ordered hkids)

theorem forwardMessage_ordered (m : Message Name Value) (own : ObjectPath)
    {kids : Children Name Value} (hkids : kids.Ordered textBefore) :
    (forwardMessage m own kids).1.tops = kids.tops ∧
      (forwardMessage m own kids).1.Ordered textBefore := by
  induction kids generalizing own with
  | nil => exact ⟨rfl, Forest.ordered_nil⟩
  | cons k d below beside ihBelow ihBeside =>
    rw [forwardMessage]
    split
    · exact ⟨rfl, hkids⟩
    · split
      · exact ⟨rfl, hkids.1, (ihBelow k hkids.2.1).2, hkids.2.2⟩
      · obtain ⟨htops, hordered⟩ := ihBeside own hkids.2.2
        refine ⟨by rw [Forest.tops, Forest.tops, htops], ?_, hkids.2.1, hordered⟩
        rw [htops]
        exact hkids.1

end Order

namespace Bluez
variable {Name Value : Type} [DecidableEq Name]

theorem ordered_step (s : Bluez Name Value) (e : BusEvent Name Value)
    (hs : s.children.Ordered textBefore) : (s.step e).1.children.Ordered textBefore := by
  cases e with
  | interfacesAdded path managed => exact pathAdd_ordered managed hs
  | interfacesRemoved path removed shared => exact pathRemove_ordered hs
  | message m =>
    rw [step, messageForward]
    split
    · exact hs
    · exact (forwardMessage_ordered m [] hs).2

theorem ordered_after {s : Bluez Name Value} (hs : s.children.Ordered textBefore)
    (events : List (BusEvent Name Value)) : (s.after events).children.Ordered textBefore := by
  have hstep : ∀ (s : Bluez Name Value) (e : BusEvent Name Value),
      s.children.Ordered textBefore → True → (s.step e).1.children.Ordered textBefore :=
    fun s e hs _ => ordered_step s e hs
  exact replay_invariant _ hstep hs (fun _ _ => trivial)

omit [DecidableEq Name] in
/-- The children of a proxy, in the order of their paths, are the objects right below it. -/
theorem children_in_order {U : Set ObjectPath} {s : Bluez Name Value} (hs : s.WellFormed U)
    (hordered : s.children.Ordered textBefore) {path : ObjectPath}
    {n : ProxyData Name Value × Children Name Value} (hn : s.children.nodeAt path = some n) :
    n.2.tops.Pairwise (fun p q : ObjectPath => p.text < q.text) ∧
      ∀ k, k ∈ n.2.tops ↔ s.present k = true ∧ ∃ e, k = path ++ [e] := by
  constructor
  · apply (hordered.nodeAt hn).tops_pairwise.imp
    intro p q hpq
    rw [textBefore, decide_eq_true_eq] at hpq
    exact hpq
  · exact hs.rooted.mem_children_iff hn

end Bluez

section Cast
variable {Name Value : Type}

theorem nextChildStrip_text {own : ObjectPath} (hown : own ≠ []) (e : Element) :
    nextChildStrip own.text (ObjectPath.text (own ++ [e])) = some e.val := by
  have hchars : ObjectPath.chars (own ++ [e]) = own.chars ++ '/' :: e.val := by
    simp [ObjectPath.chars, joinElements]
  have htake : (own ++ [e]).take (own.length + 1) = own ++ [e] := by
    apply List.take_of_length_le
    simp
  rw [nextChildStrip, nextChild_text, htake, text_of_ne_nil own hown,
    text_of_ne_nil (own ++ [e]) (by simp), hchars]
  have hlength : own.chars.length + 1 ≤ (own.chars ++ '/' :: e.val).length := by simp
  rw [if_pos hlength, List.drop_append, List.drop_of_length_le (Nat.le_succ _)]
  simp

/-- `children_casted_with_prefix`; `none` is the exception of `substr`. -/
def childrenCastedWithPrefix (own : ObjectPath) (word : PathText) : Children Name Value →
    Option (List (ObjectPath × ProxyData Name Value × Children Name Value))
  | .nil => some []
  | .cons k d below beside => do
    let name ← nextChildStrip own.text (ObjectPath.text k)
    let rest ← childrenCastedWithPrefix own word beside
    return if word.isPrefixOf name then (k, d, below) :: rest else rest

theorem childrenCastedWithPrefix_spec {own : ObjectPath} (hown : own ≠ []) (word : PathText)
    {kids : Children Name Value} (hkids : kids.Rooted own) :
    ∃ shown, childrenCastedWithPrefix own word kids = some shown ∧
      shown.Sublist kids.outermost ∧
      ∀ c, c ∈ shown ↔ c ∈ kids.outermost ∧ ∃ e, c.1 = own ++ [e] ∧ word <+: e.val := by
  induction kids with
  | nil => exact ⟨[], rfl, List.Sublist.refl _, by simp [Forest.outermost]⟩
  | cons k d below beside _ ih =>
    obtain ⟨⟨e, rfl⟩, -, hbeside, -⟩ := hkids
    obtain ⟨rest, hrest, hsub, hmem⟩ := ih hbeside
    have hcast : childrenCastedWithPrefix own word (.cons (own ++ [e]) d below beside) =
        some (if word.isPrefixOf e.val then (own ++ [e], d, below) :: rest else rest) := by
      rw [childrenCastedWithPrefix, nextChildStrip_text hown, hrest]
      rfl
    by_cases hword : word <+: e.val
    · rw [if_pos (List.isPrefixOf_iff_prefix.mpr hword)] at hcast
      refine ⟨_, hcast, hsub.cons_cons _, ?_⟩
      intro c
      rw [Forest.outermost, List.mem_cons, List.mem_cons, hmem c]
      constructor
      · rintro (rfl | ⟨hc, he⟩)
        · exact ⟨Or.inl rfl, e, rfl, hword⟩
        · exact ⟨Or.inr hc, he⟩
      · rintro ⟨rfl | hc, he⟩
        · exact Or.inl rfl
        · exact Or.inr ⟨hc, he⟩
    · rw [if_neg (fun h => hword (List.isPrefixOf_iff_prefix.mp h))] at hcast
      refine ⟨rest, hcast, hsub.cons _, ?_⟩
      intro c
      rw [Forest.outermost, List.mem_cons, hmem c]
      constructor
      · rintro ⟨hc, he⟩
        exact ⟨Or.inr hc, he⟩
      · rintro ⟨rfl | hc, he⟩
        · obtain ⟨e', hpath, hword'⟩ := he
          obtain rfl : e = e' := by simpa using hpath
          exact absurd hword' hword
        · exact ⟨hc, he⟩

end Cast

/-- `_properties[name].get_string()`, which makes an empty holder of a missing one. -/
def getString (property : Option Holder) : String := (property.getD .none).getString

/-- The loops of `UUIDs` and `Flags` over `get_array()`. -/
def getStrings (property : Option Holder) : List String :=
  (property.getD .none).getArray.map Holder.getString

def getByte (property : Option Holder) : UInt8 := (property.getD .none).getByte

abbrev GattNode := ProxyData String Holder × Children String Holder

/-- `uuid()` of a service, a characteristic or a descriptor. The member that keeps the
UUID follows the property. -/
def gattUuid (interface : String) (d : ProxyData String Holder) : Option String :=
  (d.interfaces.lookup interface).map (fun i => getString (i.properties "UUID"))

def gattService1 : String := "org.bluez.GattService1"

def gattCharacteristic1 : String := "org.bluez.GattCharacteristic1"

def gattDescriptor1 : String := "org.bluez.GattDescriptor1"

def gattCharacteristic (n : GattNode) : GattCharacteristic where
  uuid := gattUuid gattCharacteristic1 n.1
  flags := ((n.1.interfaces.lookup gattCharacteristic1).map
    (fun i => getStrings (i.properties "Flags"))).getD []
  descriptors := n.2.outermost.map (fun c => gattUuid gattDescriptor1 c.2.1)

def gattService (n : GattNode) : GattService where
  uuid := gattUuid gattService1 n.1
  characteristics := n.2.outermost.map (fun c => gattCharacteristic c.2)

def serviceWord : PathText := ['s', 'e', 'r', 'v', 'i', 'c', 'e']

/-- The device at `own` as the calls find it; `connected` is the answer of `is_connected`. -/
def deviceOf (connected : Bool) (own : ObjectPath) (n : GattNode) : Option GattDevice := do
  let device1 ← n.1.interfaces.lookup "org.bluez.Device1"
  let services ← childrenCastedWithPrefix own serviceWord n.2
  return {
    connected := connected
    services := services.map (fun c => gattService c.2)
    batteryPercentage := (n.1.interfaces.lookup "org.bluez.Battery1").map
      (fun i => getByte (i.properties "Percentage"))
    uuids := getStrings (device1.properties "UUIDs") }

/-- A device with a service, and a characteristic below it. -/
def servicePath : ObjectPath :=
  devicePath ++ [⟨['s', 'e', 'r', 'v', 'i', 'c', 'e', '1'], by decide⟩]

def characteristicPath : ObjectPath := servicePath ++ [⟨['c', 'h', 'a', 'r', '2'], by decide⟩]

def gattPaths : List ObjectPath := [devicePath, servicePath, characteristicPath]

theorem gattPaths_unconfused : Unconfused {p | p ∈ gattPaths} := by decide

def gattAdded (path : ObjectPath) (interface uuid : String) : BusEvent String Holder :=
  .interfacesAdded path (AList.singleton interface (AList.singleton "UUID" (.basic (.string uuid))))

def gattEvents : List (BusEvent String Holder) :=
  [gattAdded devicePath "org.bluez.Device1" "", gattAdded servicePath gattService1 "180a",
    gattAdded characteristicPath gattCharacteristic1 "2a29"]

theorem gattEvents_of : ∀ e ∈ gattEvents, e.Of {p | p ∈ gattPaths} := by
  intro e he
  have hpath : e.path ∈ gattPaths ∧ e.path ≠ [] := by
    simp only [gattEvents, List.mem_cons, List.not_mem_nil, or_false] at he
    rcases he with rfl | rfl | rfl
    · exact ⟨by decide, by decide⟩
    · exact ⟨by decide, by decide⟩
    · exact ⟨by decide, by decide⟩
  exact hpath

def gattMirror : Bluez String Holder := (Bluez.create .create).after gattEvents

def gattNode : GattNode := (gattMirror.children.nodeAt devicePath).getD (.create, .nil)

def gattListed : List ServiceBase :=
  [⟨"180a", [⟨"2a29", [], false, false, false, false, false⟩]⟩]

namespace Bluez

/-- The proxies `services()` lists for a device of the tree. -/
theorem services_shown {U : Set ObjectPath} {s : Bluez String Holder} (hs : s.WellFormed U)
    (hordered : s.children.Ordered textBefore) {dev : ObjectPath} (hdev : dev ≠ []) {n : GattNode}
    (hn : s.children.nodeAt dev = some n) :
    ∃ shown, childrenCastedWithPrefix dev serviceWord n.2 = some shown ∧
      (shown.map Prod.fst).Pairwise (fun p q : ObjectPath => p.text < q.text) ∧
      (∀ q, q ∈ shown.map Prod.fst ↔
        s.present q = true ∧ ∃ e, q = dev ++ [e] ∧ serviceWord <+: e.val) ∧
      ∀ c ∈ shown, s.object c.1 = some c.2.1 := by
  obtain ⟨shown, hshown, hsub, hmem⟩ :=
    childrenCastedWithPrefix_spec hdev serviceWord (hs.rooted.nodeAt hn)
  obtain ⟨hpairwise, hchildren⟩ := children_in_order hs hordered hn
  rw [← Forest.map_fst_outermost] at hpairwise hchildren
  refine ⟨shown, hshown, hpairwise.sublist (hsub.map Prod.fst), ?_, ?_⟩
  · intro q
    constructor
    · intro hq
      obtain ⟨c, hc, rfl⟩ := List.mem_map.mp hq
      obtain ⟨hc', he⟩ := (hmem c).mp hc
      exact ⟨((hchildren c.1).mp (List.mem_map_of_mem hc')).1, he⟩
    · rintro ⟨hpresent, e, rfl, hword⟩
      obtain ⟨c, hc, heq⟩ := List.mem_map.mp ((hchildren _).mpr ⟨hpresent, e, rfl⟩)
      exact List.mem_map.mpr ⟨c, (hmem c).mpr ⟨hc, e, heq, hword⟩, heq⟩
  · intro c hc
    have hnode := hs.rooted.nodeAt_child hn ((hmem c).mp hc).1
    rw [object, Forest.find_eq_nodeAt, hnode]
    rfl

/-- What `available_services` lists after any run of signals: the service objects right
below the device, in the order of their paths, with the UUIDs cached last, and at most
the emulated battery behind them. -/
theorem available_services_in_path_order {U : Set ObjectPath} (hU : Unconfused U)
    (data : ProxyData String Holder) {events : List (BusEvent String Holder)}
    (hev : ∀ e ∈ events, e.Of U) {dev : ObjectPath} (hdev : dev ≠ []) {n : GattNode}
    (hn : ((create data).after events).children.nodeAt dev = some n) (connected : Bool)
    {services : List ServiceBase}
    (havailable : (deviceOf connected dev n).bind GattDevice.availableServices = some services) :
    ∃ (paths : List ObjectPath) (rest : List String),
      paths.Pairwise (fun p q : ObjectPath => p.text < q.text) ∧
      (∀ q, q ∈ paths ↔ ((create data).after events).present q = true ∧
        ∃ e, q = dev ++ [e] ∧ serviceWord <+: e.val) ∧
      services.map ServiceBase.uuid = paths.map (fun q =>
        getString (((create data).after events).cached q gattService1 "UUID")) ++ rest ∧
      (rest = [] ∨ rest = [batteryServiceUuid]) := by
  have hwf := wellFormed_after hU (create_wellFormed U data) hev
  have hordered : ((create data).after events).children.Ordered textBefore :=
    ordered_after Forest.ordered_nil events
  generalize (create data).after events = s at hn hwf hordered ⊢
  obtain ⟨shown, hshown, hpairwise, hmem, hobject⟩ := services_shown hwf hordered hdev hn
  obtain ⟨d, hd, hlist⟩ := Option.bind_eq_some_iff.mp havailable
  have hservices : d.services = shown.map (fun c => gattService c.2) := by
    rw [deviceOf, hshown] at hd
    obtain ⟨device1, -, hd⟩ := Option.bind_eq_some_iff.mp hd
    rw [← Option.some.inj hd]
  obtain ⟨listed, hlisted, hrest⟩ := availableServices_eq_some hlist
  have huuids : d.services.map GattService.uuid = (listed.map ServiceBase.uuid).map some := by
    rw [List.map_map]
    exact map_of_mapped hlisted (fun a b h => (GattService.list_eq h).1)
  rw [hservices, List.map_map] at huuids
  -- each UUID that is listed is the cached property of the object
  have hcached : ∀ c ∈ shown, gattUuid gattService1 c.2.1 =
      some (getString (s.cached c.1 gattService1 "UUID")) := by
    intro c hc
    have hsome : gattUuid gattService1 c.2.1 ∈ (listed.map ServiceBase.uuid).map some := by
      rw [← huuids]
      exact List.mem_map.mpr ⟨c, hc, rfl⟩
    obtain ⟨u, -, hu⟩ := List.mem_map.mp hsome
    rw [gattUuid] at hu ⊢
    obtain ⟨i, hi, -⟩ := Option.map_eq_some_iff.mp hu.symm
    rw [hi, Bluez.cached, hobject c hc, Option.bind_some, ProxyData.cached, hi]
    rfl
  have hmap : listed.map ServiceBase.uuid =
      (shown.map Prod.fst).map (fun q => getString (s.cached q gattService1 "UUID")) := by
    apply List.map_injective_iff.mpr (Option.some_injective String)
    rw [← huuids, List.map_map, List.map_map]
    exact List.map_congr_left hcached
  refine ⟨shown.map Prod.fst, (services.map ServiceBase.uuid).drop listed.length, hpairwise,
    hmem, ?_, ?_⟩
  · rw [← hmap]
    rcases hrest with rfl | rfl
    · simp
    · simp
  · rcases hrest with rfl | rfl
    · simp
    · simp [emulatedBattery]

theorem gattMirror_services :
    ∃ (paths : List ObjectPath) (rest : List String),
      paths.Pairwise (fun p q : ObjectPath => p.text < q.text) ∧
      (∀ q, q ∈ paths ↔ ((create .create).after gattEvents).present q = true ∧
        ∃ e, q = devicePath ++ [e] ∧ serviceWord <+: e.val) ∧
      gattListed.map ServiceBase.uuid = paths.map (fun q =>
        getString (((create .create).after gattEvents).cached q gattService1 "UUID")) ++ rest ∧
      (rest = [] ∨ rest = [batteryServiceUuid]) :=
  available_services_in_path_order gattPaths_unconfused .create gattEvents_of (by decide)
    (n := gattNode) rfl true rfl

end Bluez

/-- An event about the object at `path`, or the removal of one above it. -/
def BusEvent.Touches {Name Value : Type} (path : ObjectPath) : BusEvent Name Value → Prop
  | .interfacesAdded p _ => p = path
  | .interfacesRemoved p _ _ => p <+: path
  | .message m => m.path = path

namespace Bluez
variable {Name Value : Type} [DecidableEq Name]

/-- An object is left alone by what happens above, beside and below it. -/
theorem object_step {U : Set ObjectPath} (hU : Unconfused U) {s : Bluez Name Value}
    {e : BusEvent Name Value} (hs : s.WellFormed U) (he : e.Of U) {path : ObjectPath}
    (hnot : ¬ e.Touches path) {d : ProxyData Name Value} (hd : s.object path = some d) :
    (s.step e).1.object path = some d := by
  cases e with
  | interfacesAdded p managed =>
    obtain ⟨hp, hpne⟩ : p ∈ U ∧ p ≠ [] := he
    obtain ⟨_, hadd⟩ := added_spec hU hs managed hp hpne
    have hne : path ≠ p := fun h => hnot h.symm
    rw [hadd path, if_neg hne, hd, Option.getD_some, ite_self]
  | interfacesRemoved p removed shared =>
    obtain ⟨hp, hpne⟩ : p ∈ U ∧ p ≠ [] := he
    obtain ⟨_, hrem⟩ := removed_spec hU hs removed shared hp hpne
    have hne : path ≠ p := by
      rintro rfl
      exact hnot List.prefix_rfl
    apply (hrem path d).mpr
    rw [dropAt, if_neg hne]
    exact ⟨hd, fun habove => absurd habove hnot⟩
  | message m =>
    obtain ⟨_, hfind, _⟩ := message_spec hU hs m he.1 he.2
    have hne : path ≠ m.path := fun h => hnot h.symm
    rw [hfind path, if_neg hne, hd]

theorem object_after {U : Set ObjectPath} (hU : Unconfused U) {s : Bluez Name Value}
    (hs : s.WellFormed U) {path : ObjectPath} {d : ProxyData Name Value}
    (hd : s.object path = some d) {events : List (BusEvent Name Value)}
    (hev : ∀ e ∈ events, e.Of U ∧ ¬ e.Touches path) : (s.after events).object path = some d := by
  have hstep : ∀ (s : Bluez Name Value) (e : BusEvent Name Value),
      (s.WellFormed U ∧ s.object path = some d) → (e.Of U ∧ ¬ e.Touches path) →
      (s.step e).1.WellFormed U ∧ (s.step e).1.object path = some d := fun s e hi ho =>
    ⟨wellFormed_step hU s e hi.1 ho.1, object_step hU hi.1 ho.1 ho.2 hi.2⟩
  exact (replay_invariant _ hstep ⟨hs, hd⟩ hev).2

/-- Pruning spares an object above a loaded one. -/
theorem removed_above_loaded {U : Set ObjectPath} (hU : Unconfused U) {s : Bluez Name Value}
    (hs : s.WellFormed U) {path below : ObjectPath} (removed : List Name)
    (shared : ObjectPath → Bool) (hp : path ∈ U) (hne : path ≠ []) {d : ProxyData Name Value}
    (hd : s.object path = some d) (hbelow : path <+: below) (hbne : below ≠ path) {name : Name}
    (hloaded : s.loaded below name = true) :
    (s.step (.interfacesRemoved path removed shared)).1.object path =
      some (dropInterfaces d removed) := by
  obtain ⟨_, hrem⟩ := removed_spec hU hs removed shared hp hne
  apply (hrem path _).mpr
  constructor
  · rw [dropAt, if_pos rfl, hd]
    rfl
  · intro _
    cases hw : s.object below with
    | none => simp [loaded, hw] at hloaded
    | some w =>
      have hwl : w.hasLoaded name = true := by simpa [loaded, hw] using hloaded
      have hkept : kept shared below w = true := by
        rw [kept, (ProxyData.interfacesLoaded_iff w).mpr ⟨name, hwl⟩, Bool.or_true]
      refine ⟨below, w, hbelow, ?_, hkept⟩
      rw [dropAt, if_neg hbne]
      exact hw

end Bluez

theorem gattUuid_dropInterfaces (interface : String) (d : ProxyData String Holder)
    (removed : List String) :
    gattUuid interface (dropInterfaces d removed) = gattUuid interface d := by
  rw [gattUuid, dropInterfaces, ProxyData.interfacesUnload_lookup, gattUuid]
  by_cases hmem : interface ∈ removed
  · rw [if_pos hmem]
    cases d.interfaces.lookup interface <;> rfl
  · rw [if_neg hmem]

namespace Bluez

/-- A service whose removal is signalled while a characteristic below it is still loaded
stays in the list of its device, with its UUID, also after the characteristic has gone:
until it is announced again or an object above it is removed. -/
theorem removed_service_stays_listed {U : Set ObjectPath} (hU : Unconfused U)
    {s : Bluez String Holder} (hs : s.WellFormed U) (hordered : s.children.Ordered textBefore)
    {dev : ObjectPath} (hdev : dev ≠ []) {e : Element} (hword : serviceWord <+: e.val)
    (hp : dev ++ [e] ∈ U) {d : ProxyData String Holder} (hd : s.object (dev ++ [e]) = some d)
    {below : ObjectPath} (hbelow : dev ++ [e] <+: below) (hne : below ≠ dev ++ [e]) {name : String}
    (hloaded : s.loaded below name = true) (removed : List String) (shared : ObjectPath → Bool)
    {events : List (BusEvent String Holder)}
    (hev : ∀ ev ∈ events, ev.Of U ∧ ¬ ev.Touches (dev ++ [e])) :
    let t := s.after (.interfacesRemoved (dev ++ [e]) removed shared :: events)
    ∃ n shown, t.children.nodeAt dev = some n ∧
      childrenCastedWithPrefix dev serviceWord n.2 = some shown ∧
      ∃ c ∈ shown, c.1 = dev ++ [e] ∧ gattUuid gattService1 c.2.1 = gattUuid gattService1 d := by
  intro t
  have hpath : dev ++ [e] ≠ [] := by simp
  have hof : (BusEvent.interfacesRemoved (dev ++ [e]) removed shared :
      BusEvent String Holder).Of U := ⟨hp, hpath⟩
  have hfirst := removed_above_loaded hU hs removed shared hp hpath hd hbelow hne hloaded
  have hobject : t.object (dev ++ [e]) = some (dropInterfaces d removed) :=
    object_after hU (wellFormed_step hU s _ hs hof) hfirst hev
  have hall : ∀ ev ∈ BusEvent.interfacesRemoved (dev ++ [e]) removed shared :: events, ev.Of U := by
    intro ev hmem
    rcases List.mem_cons.mp hmem with rfl | hmem
    · exact hof
    · exact (hev ev hmem).1
  have hwf : t.WellFormed U := wellFormed_after hU hs hall
  have hto : t.children.Ordered textBefore := ordered_after hordered _
  have hpresent : t.present (dev ++ [e]) = true := by
    rw [present, hobject]
    rfl
  -- the device above it is there as well
  have habove := hwf.rooted.find_above hpresent (List.prefix_append dev [e]) List.nil_prefix hdev
  rw [Forest.find_eq_nodeAt, Option.isSome_map] at habove
  obtain ⟨n, hn⟩ := Option.isSome_iff_exists.mp habove
  obtain ⟨shown, hshown, -, hmem, hobjects⟩ := services_shown hwf hto hdev hn
  obtain ⟨c, hc, heq⟩ := List.mem_map.mp ((hmem _).mpr ⟨hpresent, e, rfl, hword⟩)
  refine ⟨n, shown, hn, hshown, c, hc, heq, ?_⟩
  have hdata := hobjects c hc
  rw [heq, hobject] at hdata
  rw [← Option.some.inj hdata, gattUuid_dropInterfaces]

def gattServiceData : ProxyData String Holder := (gattMirror.object servicePath).getD .create

/-- The service goes before its characteristic, and is still listed when both are gone. -/
theorem gattMirror_ghost :
    let t := gattMirror.after [.interfacesRemoved servicePath [gattService1] (fun _ => false),
      .interfacesRemoved characteristicPath [gattCharacteristic1] (fun _ => false)]
    ∃ n shown, t.children.nodeAt devicePath = some n ∧
      childrenCastedWithPrefix devicePath serviceWord n.2 = some shown ∧
      ∃ c ∈ shown, c.1 = servicePath ∧
        gattUuid gattService1 c.2.1 = gattUuid gattService1 gattServiceData := by
  apply removed_service_stays_listed gattPaths_unconfused
  · exact wellFormed_after gattPaths_unconfused (create_wellFormed _ _) gattEvents_of
  · exact ordered_after Forest.ordered_nil gattEvents
  · decide
  · decide
  · show servicePath ∈ gattPaths
    decide
  · rfl
  · show servicePath <+: characteristicPath
    exact List.prefix_append _ _
  · decide
  · show gattMirror.loaded characteristicPath gattCharacteristic1 = true
    rfl
  · intro ev hmem
    rw [List.mem_singleton.mp hmem]
    refine ⟨⟨?_, by decide⟩, ?_⟩
    · show characteristicPath ∈ gattPaths
      decide
    · intro htouches
      have hlength : characteristicPath.length ≤ servicePath.length :=
        List.IsPrefix.length_le htouches
      exact absurd hlength (by decide)

end Bluez

end RCControl
