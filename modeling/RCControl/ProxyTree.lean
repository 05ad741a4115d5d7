import RCControl.ObjectPath
import RCControl.PathForest
import RCControl.BusInterface

/-! The tree of proxy objects that mirrors the objects of the bus: `path_add`,
`path_remove`, `path_prune` and `message_forward` of `Proxy.cpp`. -/
namespace RCControl

/-- The children of a proxy, each with its own children; a child's key is its path. -/
abbrev Children (Name Value : Type) := Forest Element (ProxyData Name Value)

/-- The callbacks a change of the tree makes. -/
inductive Notice (Name : Type)
  | propertyChanged (path : ObjectPath) (interface property : Name)
  | childCreated (parent child : ObjectPath)
  | childSignal (parent child : ObjectPath)
  | messageHandled (path : ObjectPath) (interface : Name)
deriving DecidableEq

/-- What `message_forward` is given; `other` is any other signal or a method call. -/
inductive Message (Name Value : Type)
  | propertiesChanged (path : ObjectPath) (interface : Name) (changed : Dict Name Value)
      (invalidated : List Name)
  | other (path : ObjectPath) (interface : Name) (isSignal : Bool)

variable {Name Value : Type}

def Message.path : Message Name Value → ObjectPath
  | propertiesChanged path _ _ _ => path
  | other path _ _ => path

def Message.isSignal : Message Name Value → Bool
  | propertiesChanged _ _ _ _ => true
  | other _ _ isSignal => isSignal

/-- The order of `std::map<std::string, …>`. -/
def textBefore (p q : ObjectPath) : Bool := decide (p.text < q.text)

/-- `std::map::emplace` does nothing when the key is there. -/
def emplaceChild (path : ObjectPath) (data : ProxyData Name Value) (below kids : Children Name Value) :
    Children Name Value :=
  if path ∈ kids.tops then kids else Forest.insert textBefore path data below kids

variable [DecidableEq Name]

def loadedAt (path : ObjectPath) (managed : Dict Name (Dict Name Value)) : List (Notice Name) :=
  (ProxyData.loadNotices managed).map (fun n => .propertyChanged path n.1 n.2)

/-- `path_add` on the proxy at `own`. `forwarded` is the result of passing the path on
to the child found by `find_if`, `grown` the result of `path_add` on a new child. -/
def addStep (own : ObjectPath) (kids : Children Name Value) (path : ObjectPath)
    (managed : Dict Name (Dict Name Value))
    (forwarded : Option (Children Name Value × List (Notice Name)))
    (grown : ObjectPath → Children Name Value × List (Notice Name)) :
    Children Name Value × List (Notice Name) :=
  if !isDescendant own.text path.text then (kids, [])
  else if path ∈ kids.tops then
    (kids.adjust path (fun d => d.interfacesLoad managed), loadedAt path managed)
  else if isChild own.text path.text then
    (emplaceChild path (ProxyData.create.interfacesLoad managed) .nil kids,
      loadedAt path managed ++ [.childCreated own path])
  else
    match forwarded with
    | some r => r
    | none =>
      let child := path.take (own.length + 1)
      let r := grown child
      (emplaceChild child ProxyData.create r.1 kids, r.2 ++ [.childCreated own child])

/-- `path_add` on a proxy without children, to a bounded depth. -/
def growWithin (path : ObjectPath) (managed : Dict Name (Dict Name Value)) :
    ℕ → ObjectPath → Children Name Value × List (Notice Name)
  | 0, _ => (.nil, [])
  | n + 1, own => addStep own .nil path managed none (growWithin path managed n)

/-- `path_add` on a proxy without children. -/
def grow (path : ObjectPath) (managed : Dict Name (Dict Name Value)) (own : ObjectPath) :
    Children Name Value × List (Notice Name) :=
  growWithin path managed (path.length + 1 - own.length) own

/-- The `find_if` of `path_add`, with `path_add` on the child it finds. -/
def forwardAdd (path : ObjectPath) (managed : Dict Name (Dict Name Value)) :
    Children Name Value → Option (Children Name Value × List (Notice Name))
  | .nil => none
  | .cons k d below beside =>
    if isDescendant (ObjectPath.text k) path.text then
      let r := addStep k below path managed (forwardAdd path managed below) (grow path managed)
      some (.cons k d r.1 beside, r.2)
    else (forwardAdd path managed beside).map (fun r => (.cons k d below r.1, r.2))

def pathAdd (own : ObjectPath) (kids : Children Name Value) (path : ObjectPath)
    (managed : Dict Name (Dict Name Value)) : Children Name Value × List (Notice Name) :=
  addStep own kids path managed (forwardAdd path managed kids) (grow path managed)

/-- What keeps a child from being erased: a second owner (`use_count() != 1`) or a
loaded interface. -/
def kept (shared : ObjectPath → Bool) (path : ObjectPath) (data : ProxyData Name Value) : Bool :=
  shared path || data.interfacesLoaded

omit [DecidableEq Name] in
/-- `path_prune`: the children that are left, and whether the proxy itself is prunable. -/
def pathPrune (shared : ObjectPath → Bool) (data : ProxyData Name Value)
    (kids : Children Name Value) : Children Name Value × Bool :=
  let left := kids.prune (kept shared)
  (left, left.isNil && !data.interfacesLoaded)

def dropInterfaces (data : ProxyData Name Value) (removed : List Name) : ProxyData Name Value :=
  { data with valid := false }.interfacesUnload removed

/-- `path_remove` on the proxy at `own`. `inChild` is what its children become when
the path is passed on to the next child. -/
def removeStep (own : ObjectPath) (data : ProxyData Name Value) (kids : Children Name Value)
    (path : ObjectPath) (removed : List Name) (shared : ObjectPath → Bool)
    (inChild : Children Name Value) : (ProxyData Name Value × Children Name Value) × Bool :=
  if path = own then
    let data' := dropInterfaces data removed
    let r := pathPrune shared data' kids
    ((data', r.1), r.2)
  else if !isDescendant own.text path.text then ((data, kids), false)
  else ((data, inChild), false)

/-- The children after `path_remove` was passed on to `child`. -/
def removeIn (path : ObjectPath) (removed : List Name) (shared : ObjectPath → Bool) :
    ObjectPath → Children Name Value → Children Name Value
  | _, .nil => .nil
  | child, .cons k d below beside =>
    if k = child then
      let r := removeStep k d below path removed shared
        (removeIn path removed shared (path.take (k.length + 1)) below)
      if r.2 && !shared k then beside else .cons k r.1.1 r.1.2 beside
    else .cons k d below (removeIn path removed shared child beside)

def pathRemove (own : ObjectPath) (data : ProxyData Name Value) (kids : Children Name Value)
    (path : ObjectPath) (removed : List Name) (shared : ObjectPath → Bool) :
    (ProxyData Name Value × Children Name Value) × Bool :=
  removeStep own data kids path removed shared
    (removeIn path removed shared (path.take (own.length + 1)) kids)

/-- What a proxy does with a message for its own path. -/
def receive (data : ProxyData Name Value) :
    Message Name Value → ProxyData Name Value × List (Notice Name)
  | .propertiesChanged path interface changed invalidated =>
    match data.interfaces.lookup interface with
    | none => (data, [])
    | some i =>
      let r := i.signalPropertyChanged changed invalidated
      ({ data with interfaces := data.interfaces.insert interface r.1 },
        r.2.map (fun property => .propertyChanged path interface property))
  | .other path interface _ =>
    (data, if data.interfaceExists interface then [.messageHandled path interface] else [])

/-- The loop of `message_forward` over the children of the proxy at `own`. -/
def forwardMessage (m : Message Name Value) :
    ObjectPath → Children Name Value → Children Name Value × List (Notice Name)
  | _, .nil => (.nil, [])
  | own, .cons k d below beside =>
    if k = m.path then
      let r := receive d m
      (.cons k r.1 below beside, r.2 ++ if m.isSignal then [.childSignal own k] else [])
    else if isDescendant (ObjectPath.text k) m.path.text then
      let r := forwardMessage m k below
      (.cons k d r.1 beside, r.2)
    else
      let r := forwardMessage m own beside
      (.cons k d below r.1, r.2)

def messageForward (own : ObjectPath) (data : ProxyData Name Value) (kids : Children Name Value)
    (m : Message Name Value) : (ProxyData Name Value × Children Name Value) × List (Notice Name) :=
  if m.path = own then
    let r := receive data m
    ((r.1, kids), r.2)
  else
    let r := forwardMessage m own kids
    ((data, r.1), r.2)

/-- The text test agrees with the element order between `k` and `path`. -/
def Routed (path k : ObjectPath) : Prop :=
  isDescendant k.text path.text = true ↔ k <+: path ∧ k ≠ path

theorem take_child {own path : ObjectPath} (h : own <+: path) (hne : own ≠ path) :
    ∃ e, path.take (own.length + 1) = own ++ [e] := by
  obtain ⟨r, hr⟩ := h
  cases r with
  | nil => exact absurd (by simpa using hr) hne
  | cons e es =>
    refine ⟨e, ?_⟩
    rw [← hr, List.take_append, List.take_of_length_le (by omega)]
    simp

theorem length_lt_of_strict {own path : ObjectPath} (h : own <+: path) (hne : own ≠ path) :
    own.length < path.length := by
  have hle := h.length_le
  by_contra hlt
  exact hne (h.eq_of_length (by omega))

/-- A strict prefix ends before the last element or is the parent. -/
theorem take_eq_path_iff {own path : ObjectPath} (h : own <+: path) (hne : own ≠ path) :
    path.take (own.length + 1) = path ↔ own.length + 1 = path.length := by
  have hlt := length_lt_of_strict h hne
  constructor
  · intro ht
    have hlen := congrArg List.length ht
    rw [List.length_take] at hlen
    omega
  · intro hl
    exact List.take_of_length_le (by omega)

/-- `grown` is only asked about the next child. -/
theorem addStep_congr (own : ObjectPath) (kids : Children Name Value) (path : ObjectPath)
    (managed : Dict Name (Dict Name Value))
    (forwarded : Option (Children Name Value × List (Notice Name)))
    (g g' : ObjectPath → Children Name Value × List (Notice Name))
    (h : isDescendant own.text path.text = true → g (path.take (own.length + 1)) =
      g' (path.take (own.length + 1))) :
    addStep own kids path managed forwarded g = addStep own kids path managed forwarded g' := by
  by_cases hd : isDescendant own.text path.text = true
  · simp only [addStep, h hd]
  · simp [addStep, hd]

theorem length_le_of_isDescendant {own path : ObjectPath}
    (h : isDescendant own.text path.text = true) : own.length ≤ path.length := by
  rw [isDescendant_text_iff] at h
  rcases h.2 with h | h
  · simp [h]
  · by_cases ho : own = []
    · simp [ho]
    · obtain ⟨s, b, e, rest, hown, hpath, _⟩ := (startsWith_iff own path ho).mp h.1
      rw [hown, hpath]
      simp

theorem addStep_self (path : ObjectPath) (kids : Children Name Value)
    (managed : Dict Name (Dict Name Value))
    (forwarded : Option (Children Name Value × List (Notice Name)))
    (grown : ObjectPath → Children Name Value × List (Notice Name)) :
    addStep path kids path managed forwarded grown = (kids, []) := by
  simp [addStep, isDescendant]

/-- The bound of `grow` is never what ends it: a new child is grown by `grow` again. -/
theorem grow_eq (path : ObjectPath) (managed : Dict Name (Dict Name Value)) (own : ObjectPath) :
    grow path managed own = addStep own (.nil : Children Name Value) path managed none
      (grow path managed) := by
  by_cases hlen : path.length < own.length
  · have hno : isDescendant own.text path.text = false := by
      by_contra hd
      have hle := length_le_of_isDescendant (by simpa using hd : isDescendant own.text path.text = true)
      omega
    have hzero : path.length + 1 - own.length = 0 := by omega
    rw [grow, hzero, growWithin, addStep, hno]
    rfl
  · obtain ⟨n, hn⟩ : ∃ n, path.length + 1 - own.length = n + 1 := ⟨path.length - own.length, by omega⟩
    rw [grow, hn, growWithin]
    apply addStep_congr
    intro _
    rw [grow]
    by_cases hlast : own.length = path.length
    · have htake : path.take (own.length + 1) = path := List.take_of_length_le (by omega)
      have hz : n = 0 := by omega
      have hone : path.length + 1 - path.length = 0 + 1 := by omega
      rw [htake, hz, hone, growWithin, growWithin, addStep_self]
    · have hn' : path.length + 1 - (path.take (own.length + 1)).length = n := by
        rw [List.length_take]
        omega
      rw [hn']

/-- `path_add` as the source has it: a new child is given the path by `path_add`, and
so is the child that `find_if` finds. -/
theorem grow_eq_pathAdd (path : ObjectPath) (managed : Dict Name (Dict Name Value))
    (own : ObjectPath) :
    grow path managed own = pathAdd own (.nil : Children Name Value) path managed :=
  grow_eq path managed own

theorem forwardAdd_cons (path : ObjectPath) (managed : Dict Name (Dict Name Value))
    (k : ObjectPath) (d : ProxyData Name Value) (below beside : Children Name Value) :
    forwardAdd path managed (.cons k d below beside) =
      if isDescendant k.text path.text then
        some (.cons k d (pathAdd k below path managed).1 beside, (pathAdd k below path managed).2)
      else (forwardAdd path managed beside).map (fun r => (.cons k d below r.1, r.2)) := rfl

omit [DecidableEq Name] in
theorem emplaceChild_rooted {own path : ObjectPath} {kids below : Children Name Value}
    (data : ProxyData Name Value) (hkids : kids.Rooted own) (hpath : ∃ e, path = own ++ [e])
    (hbelow : below.Rooted path) : (emplaceChild path data below kids).Rooted own := by
  rw [emplaceChild]
  by_cases hmem : path ∈ kids.tops
  · rw [if_pos hmem]
    exact hkids
  · rw [if_neg hmem]
    exact hkids.insert hpath hbelow hmem

omit [DecidableEq Name] in
theorem find_emplaceChild {own path : ObjectPath} {kids below : Children Name Value}
    (data : ProxyData Name Value) (hkids : kids.Rooted own) (hpath : ∃ e, path = own ++ [e])
    (hbelow : below.Rooted path) (hnew : path ∉ kids.tops) (q : ObjectPath) :
    (emplaceChild path data below kids).find q =
      if q = path then some data else if path <+: q then below.find q else kids.find q := by
  rw [emplaceChild, if_neg hnew]
  exact hkids.find_insert hpath hbelow hnew q

/-- The paths from `own` to `path`, without `own`. -/
def Between (own path q : ObjectPath) : Prop := own <+: q ∧ own ≠ q ∧ q <+: path

instance (own path q : ObjectPath) : Decidable (Between own path q) :=
  inferInstanceAs (Decidable (_ ∧ _ ∧ _))

/-- A path from `own` to `path` is the next child or comes after it. -/
theorem between_iff {own path c : ObjectPath} (hc : ∃ e, c = own ++ [e]) (hcp : c <+: path)
    (q : ObjectPath) : Between own path q ↔ q = c ∨ Between c path q := by
  obtain ⟨e, he⟩ := hc
  have hclen : c.length = own.length + 1 := by
    rw [he, List.length_append, List.length_singleton]
  have howc : own <+: c := ⟨[e], he.symm⟩
  constructor
  · intro h
    have hlt := length_lt_of_strict h.1 h.2.1
    have hcq : c <+: q := List.prefix_of_prefix_length_le hcp h.2.2 (by omega)
    by_cases hqc : q = c
    · exact Or.inl hqc
    · exact Or.inr ⟨hcq, Ne.symm hqc, h.2.2⟩
  · intro h
    rcases h with h | h
    · rw [h]
      refine ⟨howc, fun hoc => ?_, hcp⟩
      have hlen := congrArg List.length hoc
      omega
    · have hle := h.1.length_le
      refine ⟨howc.trans h.1, fun hoq => ?_, h.2.2⟩
      have hlen := congrArg List.length hoq
      omega

theorem not_between_self (own path : ObjectPath) : ¬ Between own path own := fun h => h.2.1 rfl

theorem between_child_iff {own path : ObjectPath} (hp : ∃ e, path = own ++ [e]) (q : ObjectPath) :
    Between own path q ↔ q = path := by
  rw [between_iff hp List.prefix_rfl]
  constructor
  · intro h
    rcases h with h | h
    · exact h
    · exact absurd (h.1.eq_of_length_le h.2.2.length_le) h.2.1
  · exact Or.inl

/-- What the objects of a tree are after `path` was added below `own`. -/
def Added (own path : ObjectPath) (managed : Dict Name (Dict Name Value))
    (before after : ObjectPath → Option (ProxyData Name Value)) : Prop :=
  ∀ q, after q =
    if q = path then some (((before path).getD ProxyData.create).interfacesLoad managed)
    else if Between own path q then some ((before q).getD ProxyData.create)
    else before q

omit [DecidableEq Name] in
/-- Among the children of `own` only the next child toward `path` is a descendant test away. -/
theorem routed_top {own path k : ObjectPath} {kids : Children Name Value} (hkids : kids.Rooted own)
    (hroute : ∀ k, k ∈ kids.tops → Routed path k) (hk : k ∈ kids.tops) (hown : own <+: path)
    (hne : own ≠ path) (hdeep : own.length + 1 ≠ path.length) :
    isDescendant k.text path.text = true ↔ k = path.take (own.length + 1) := by
  have hr : isDescendant k.text path.text = true ↔ k <+: path ∧ k ≠ path := hroute k hk
  have htake := take_child hown hne
  have hbegins : path.take (own.length + 1) <+: path := List.take_prefix _ _
  rw [hr]
  constructor
  · intro h
    exact Forest.child_eq_of_begins (hkids.tops_child hk) htake h.1 hbegins
  · intro h
    rw [h]
    refine ⟨hbegins, fun hp => ?_⟩
    exact hdeep ((take_eq_path_iff hown hne).mp hp)

/-- Below the parent of `path`, `find_if` finds the next child, if it is there. -/
theorem forwardAdd_eq_node {own path : ObjectPath} {kids : Children Name Value}
    (managed : Dict Name (Dict Name Value)) (hkids : kids.Rooted own)
    (hroute : ∀ k, k ∈ kids.tops → Routed path k) (hown : own <+: path) (hne : own ≠ path)
    (hdeep : own.length + 1 ≠ path.length) :
    forwardAdd path managed kids =
      (kids.node (path.take (own.length + 1))).map (fun n =>
        let r := pathAdd (path.take (own.length + 1)) n.2 path managed
        (kids.alter (path.take (own.length + 1)) (fun v _ => some (v, r.1)), r.2)) := by
  induction kids with
  | nil => rfl
  | cons k d below beside _ ih =>
    have hk := routed_top hkids hroute (List.mem_cons_self) hown hne hdeep
    obtain ⟨_, _, hbeside, _⟩ := hkids
    have hi := ih hbeside (fun k' hk' => hroute k' (List.mem_cons_of_mem k hk'))
    rw [forwardAdd_cons, Forest.node]
    by_cases hkc : k = path.take (own.length + 1)
    · rw [if_pos (hk.mpr hkc), if_pos hkc, ← hkc]
      simp [Forest.alter]
    · have hno : ¬ isDescendant (ObjectPath.text k) path.text = true := fun h => hkc (hk.mp h)
      rw [if_neg hno, if_neg hkc, hi, Option.map_map]
      simp only [Function.comp_def, Forest.alter, if_neg hkc]

/-- `path_add` for a path further down: the child that `find_if` finds, or a new one. -/
theorem pathAdd_forward {own path : ObjectPath} {kids : Children Name Value}
    (managed : Dict Name (Dict Name Value)) (hdesc : isDescendant own.text path.text = true)
    (hmem : path ∉ kids.tops) (hchild : isChild own.text path.text = false) :
    pathAdd own kids path managed =
      (forwardAdd path managed kids).getD
        (emplaceChild (path.take (own.length + 1)) ProxyData.create
            (grow path managed (path.take (own.length + 1))).1 kids,
          (grow path managed (path.take (own.length + 1))).2 ++
            [.childCreated own (path.take (own.length + 1))]) := by
  unfold pathAdd addStep
  simp only [hdesc, hchild, if_neg hmem, Bool.not_true, Bool.false_eq_true, if_false]
  cases forwardAdd path managed kids <;> rfl

/-- `path_add` for a child of the proxy itself. -/
theorem pathAdd_last {own path : ObjectPath} {kids : Children Name Value}
    (managed : Dict Name (Dict Name Value)) (hkids : kids.Rooted own) (hroute : Routed path own)
    (hpath : ∃ e, path = own ++ [e]) :
    (pathAdd own kids path managed).2 =
        loadedAt path managed ++ (if path ∈ kids.tops then [] else [.childCreated own path]) ∧
      (pathAdd own kids path managed).1.Rooted own ∧
      ∀ q, (pathAdd own kids path managed).1.find q =
        if q = path then some (((kids.find path).getD ProxyData.create).interfacesLoad managed)
        else kids.find q := by
  have hstrict : own <+: path ∧ own ≠ path := by
    obtain ⟨e, he⟩ := hpath
    exact ⟨⟨[e], he.symm⟩, by simp [he]⟩
  have hdesc : isDescendant own.text path.text = true := hroute.mpr hstrict
  by_cases hmem : path ∈ kids.tops
  · have hsome := (hkids.mem_tops_iff path hpath).mp hmem
    obtain ⟨d, hd⟩ := Option.isSome_iff_exists.mp hsome
    have hres : pathAdd own kids path managed =
        (kids.adjust path (fun d => d.interfacesLoad managed), loadedAt path managed) := by
      simp [pathAdd, addStep, hdesc, hmem]
    rw [hres, if_pos hmem, List.append_nil]
    refine ⟨rfl, hkids.adjust _, fun q => ?_⟩
    show (kids.adjust path (fun d => d.interfacesLoad managed)).find q = _
    rw [hkids.find_adjust hpath, hd]
    rfl
  · have hlen : own.length + 1 = path.length := by
      obtain ⟨e, he⟩ := hpath
      rw [he, List.length_append, List.length_singleton]
    have hchild : isChild own.text path.text = true := by
      rw [isChild_text, hdesc, Bool.true_and, beq_iff_eq]
      exact hlen
    have hres : pathAdd own kids path managed =
        (emplaceChild path (ProxyData.create.interfacesLoad managed) .nil kids,
          loadedAt path managed ++ [.childCreated own path]) := by
      simp [pathAdd, addStep, hdesc, hmem, hchild]
    have hnil : (Forest.nil : Children Name Value).Rooted path := Forest.rooted_nil path
    rw [hres, if_neg hmem]
    refine ⟨rfl, emplaceChild_rooted _ hkids hpath hnil, fun q => ?_⟩
    show (emplaceChild path (ProxyData.create.interfacesLoad managed) .nil kids).find q = _
    rw [find_emplaceChild _ hkids hpath hnil hmem,
      hkids.find_none_under hpath hmem List.prefix_rfl]
    by_cases hpq : path <+: q
    · simp [hpq, Forest.find, hkids.find_none_under hpath hmem hpq]
    · simp [hpq]

/-- `path_add` further down: the next child is given the path, and is created for it
when it is not there. -/
theorem pathAdd_deep {own path c : ObjectPath} {kids : Children Name Value}
    (managed : Dict Name (Dict Name Value)) (hkids : kids.Rooted own)
    (hroute : ∀ k, k = own ∨ k ∈ kids.tops → Routed path k) (hc : ∃ e, c = own ++ [e])
    (hcp : c <+: path) (hne : c ≠ path)
    (hrec : (pathAdd c (kids.childrenOf c) path managed).1.Rooted c) :
    (pathAdd own kids path managed).2 = (pathAdd c (kids.childrenOf c) path managed).2 ++
        (if c ∈ kids.tops then [] else [.childCreated own c]) ∧
      (pathAdd own kids path managed).1.Rooted own ∧
      ∀ q, (pathAdd own kids path managed).1.find q =
        if q = c then some ((kids.find c).getD ProxyData.create)
        else if c <+: q then (pathAdd c (kids.childrenOf c) path managed).1.find q
        else kids.find q := by
  have hclen : c.length = own.length + 1 := by
    obtain ⟨e, he⟩ := hc
    rw [he, List.length_append, List.length_singleton]
  have hlt := length_lt_of_strict hcp hne
  have hown : own <+: path := by
    obtain ⟨e, he⟩ := hc
    exact List.IsPrefix.trans ⟨[e], he.symm⟩ hcp
  have hone : own ≠ path := fun h => by
    have hlen := congrArg List.length h
    omega
  have hnext : path.take (own.length + 1) = c := by
    rw [← hclen]
    exact (List.prefix_iff_eq_take.mp hcp).symm
  have hdesc : isDescendant own.text path.text = true :=
    (hroute own (Or.inl rfl)).mpr ⟨hown, hone⟩
  have hchild : isChild own.text path.text = false := by
    rw [isChild_text, hdesc, Bool.true_and, beq_eq_false_iff_ne]
    omega
  have hmem : path ∉ kids.tops := by
    intro h
    obtain ⟨e, he⟩ := hkids.tops_child h
    have hlen := congrArg List.length he
    rw [List.length_append, List.length_singleton] at hlen
    omega
  have hfwd := forwardAdd_eq_node managed hkids (fun k hk => hroute k (Or.inr hk)) hown hone
    (by omega)
  rw [hnext] at hfwd
  cases hnode : kids.node c with
  | some r =>
    have hsub : kids.childrenOf c = r.2 := by
      rw [Forest.childrenOf, hnode]
    have htop : c ∈ kids.tops := by
      by_contra h
      rw [(Forest.node_eq_none_iff c kids).mpr h] at hnode
      exact absurd hnode (by simp)
    have hres : pathAdd own kids path managed =
        (kids.alter c (fun v _ => some (v, (pathAdd c r.2 path managed).1)),
          (pathAdd c r.2 path managed).2) := by
      rw [pathAdd_forward managed hdesc hmem hchild, hfwd, hnode]
      rfl
    have hbelow : ∀ v below s, kids.node c = some (v, below) →
        some (v, (pathAdd c r.2 path managed).1) = some s → s.2.Rooted c := by
      intro v below s _ hs
      rw [Option.some.injEq] at hs
      rw [← hs, ← hsub]
      exact hrec
    rw [hres, hsub, if_pos htop, List.append_nil]
    refine ⟨rfl, hkids.alter hbelow, fun q => ?_⟩
    show (kids.alter c (fun v _ => some (v, (pathAdd c r.2 path managed).1))).find q = _
    rw [hkids.find_alter hc hbelow, hkids.find_node hc List.prefix_rfl, hnode]
    by_cases hqc : q = c
    · simp [hqc]
    · simp [hqc]
  | none =>
    have hsub : kids.childrenOf c = .nil := by
      rw [Forest.childrenOf, hnode]
    have hnew : c ∉ kids.tops := (Forest.node_eq_none_iff c kids).mp hnode
    have hres : pathAdd own kids path managed =
        (emplaceChild c ProxyData.create (pathAdd c .nil path managed).1 kids,
          (pathAdd c .nil path managed).2 ++ [.childCreated own c]) := by
      rw [pathAdd_forward managed hdesc hmem hchild, hfwd, hnode, hnext, grow_eq_pathAdd]
      rfl
    rw [hsub] at hrec ⊢
    rw [hres, if_neg hnew]
    refine ⟨rfl, emplaceChild_rooted _ hkids hc hrec, fun q => ?_⟩
    show (emplaceChild c ProxyData.create (pathAdd c .nil path managed).1 kids).find q = _
    rw [find_emplaceChild _ hkids hc hrec hnew, hkids.find_none_under hc hnew List.prefix_rfl]
    rfl

/-- Adding below the next child, whose own object is only created if it was missing. -/
theorem Added.of_child {own path c : ObjectPath} {managed : Dict Name (Dict Name Value)}
    {before after sub subAfter : ObjectPath → Option (ProxyData Name Value)}
    (hc : ∃ e, c = own ++ [e]) (hcp : c <+: path) (hne : c ≠ path)
    (hsub : ∀ q, c <+: q → q ≠ c → before q = sub q)
    (hafter : ∀ q, after q = if q = c then some ((before c).getD ProxyData.create)
      else if c <+: q then subAfter q else before q)
    (hadd : Added c path managed sub subAfter) : Added own path managed before after := by
  intro q
  rw [hafter q]
  simp only [between_iff hc hcp]
  by_cases hqc : q = c
  · rw [if_pos hqc, hqc, if_neg hne, if_pos (Or.inl rfl)]
  · rw [if_neg hqc]
    by_cases hcq : c <+: q
    · rw [if_pos hcq, hadd q, hsub q hcq hqc]
      by_cases hqp : q = path
      · rw [if_pos hqp, if_pos hqp, ← hqp, hsub q hcq hqc]
      · rw [if_neg hqp, if_neg hqp]
        simp only [hqc, false_or]
    · have hqp : q ≠ path := fun h => hcq (h ▸ hcp)
      have hmid : ¬ (q = c ∨ Between c path q) := by
        intro h
        rcases h with h | h
        · exact hqc h
        · exact hcq h.1
      rw [if_neg hcq, if_neg hqp, if_neg hmid]

/-- Adding a child of `own` itself. -/
theorem Added.of_last {own path : ObjectPath} {managed : Dict Name (Dict Name Value)}
    {before after : ObjectPath → Option (ProxyData Name Value)} (hp : ∃ e, path = own ++ [e])
    (hafter : ∀ q, after q =
      if q = path then some (((before path).getD ProxyData.create).interfacesLoad managed)
      else before q) : Added own path managed before after := by
  intro q
  rw [hafter q]
  by_cases hqp : q = path
  · rw [if_pos hqp, if_pos hqp]
  · rw [if_neg hqp, if_neg hqp, if_neg (fun h => hqp ((between_child_iff hp q).mp h))]

/-- The next child toward `path`, and what the test has to agree on below it. -/
theorem next_child_cases {own path : ObjectPath} (hown : own <+: path) (hne : own ≠ path) :
    (∃ e, path = own ++ [e]) ∨ ∃ c, (∃ e, c = own ++ [e]) ∧ c <+: path ∧ c ≠ path := by
  have hnext := take_child hown hne
  by_cases h : path.take (own.length + 1) = path
  · exact Or.inl (h ▸ hnext)
  · exact Or.inr ⟨_, hnext, List.take_prefix _ _, h⟩

omit [DecidableEq Name] in
theorem routes_below {own path c : ObjectPath} {kids : Children Name Value} (hkids : kids.Rooted own)
    (hroute : ∀ k, (kids.find k).isSome = true ∨ k <+: path → Routed path k)
    (hc : ∃ e, c = own ++ [e]) :
    ∀ k, ((kids.childrenOf c).find k).isSome = true ∨ k <+: path → Routed path k := by
  intro k hk
  apply hroute k
  rcases hk with hk | hk
  · obtain ⟨d, hd⟩ := Option.isSome_iff_exists.mp hk
    have hstrict := (hkids.childrenOf c).find_strict hd
    rw [hkids.find_childrenOf hc hstrict.1 (Ne.symm hstrict.2), hd]
    exact Or.inl rfl
  · exact Or.inr hk

omit [DecidableEq Name] in
theorem routes_here {own path : ObjectPath} {kids : Children Name Value} (hkids : kids.Rooted own)
    (hroute : ∀ k, (kids.find k).isSome = true ∨ k <+: path → Routed path k) (hown : own <+: path) :
    ∀ k, k = own ∨ k ∈ kids.tops → Routed path k := by
  intro k hk
  apply hroute k
  rcases hk with hk | hk
  · exact Or.inr (hk ▸ hown)
  · exact Or.inl ((hkids.mem_tops_iff k (hkids.tops_child hk)).mp hk)

theorem pathAdd_spec {own path : ObjectPath} {kids : Children Name Value}
    (managed : Dict Name (Dict Name Value)) (hkids : kids.Rooted own)
    (hroute : ∀ k, (kids.find k).isSome = true ∨ k <+: path → Routed path k) (hown : own <+: path)
    (hne : own ≠ path) :
    (pathAdd own kids path managed).1.Rooted own ∧
      Added own path managed kids.find (pathAdd own kids path managed).1.find := by
  induction hn : path.length - own.length generalizing own kids with
  | zero =>
    have hlt := length_lt_of_strict hown hne
    omega
  | succ n ih =>
    rcases next_child_cases hown hne with hpath | ⟨c, hc, hcp, hcne⟩
    · have hlast := pathAdd_last managed hkids (hroute own (Or.inr hown)) hpath
      exact ⟨hlast.2.1, Added.of_last hpath hlast.2.2⟩
    · have hclen : path.length - c.length = n := by
        obtain ⟨e, he⟩ := hc
        rw [he, List.length_append, List.length_singleton]
        omega
      have hrec := ih (hkids.childrenOf c) (routes_below hkids hroute hc) hcp hcne hclen
      have hdeep := pathAdd_deep managed hkids (routes_here hkids hroute hown) hc hcp hcne hrec.1
      exact ⟨hdeep.2.1, Added.of_child hc hcp hcne
        (fun q hcq hqc => hkids.find_childrenOf hc hcq hqc) hdeep.2.2 hrec.2⟩

theorem loadedAt_count_created (path : ObjectPath) (managed : Dict Name (Dict Name Value))
    (parent child : ObjectPath) : (loadedAt path managed).count (.childCreated parent child) = 0 := by
  rw [List.count_eq_zero, loadedAt, List.mem_map]
  rintro ⟨n, _, hn⟩
  exact absurd hn (by simp)

/-- The announcement of one object, made by the proxy at `own`. -/
theorem created_count {own c parent child : ObjectPath} {kids : Children Name Value}
    (hkids : kids.Rooted own) (hc : ∃ e, c = own ++ [e]) :
    (if c ∈ kids.tops then [] else [Notice.childCreated own c] : List (Notice Name)).count
        (.childCreated parent child) =
      if child = c ∧ kids.find child = none ∧ parent = child.dropLast then 1 else 0 := by
  have hmem := hkids.mem_tops_iff c hc
  have hdrop : c.dropLast = own := by
    obtain ⟨e, he⟩ := hc
    rw [he, List.dropLast_concat]
  by_cases hcc : child = c
  · subst hcc
    rw [hdrop]
    by_cases htop : child ∈ kids.tops
    · have hsome : kids.find child ≠ none := Option.isSome_iff_ne_none.mp (hmem.mp htop)
      simp [htop, hsome]
    · have hnone : kids.find child = none := hkids.find_none_under hc htop List.prefix_rfl
      by_cases hpo : parent = own
      · simp [htop, hnone, hpo]
      · simp [htop, hnone, hpo, Ne.symm hpo]
  · have hno : Notice.childCreated own c ≠ (Notice.childCreated parent child : Notice Name) := by
      intro h
      rw [Notice.childCreated.injEq] at h
      exact hcc h.2.symm
    by_cases htop : c ∈ kids.tops
    · simp [htop, hcc]
    · simp [htop, hcc, hno]

/-- `path_add` announces every object it creates once, to the proxy above it. -/
theorem pathAdd_created {own path : ObjectPath} {kids : Children Name Value}
    (managed : Dict Name (Dict Name Value)) (hkids : kids.Rooted own)
    (hroute : ∀ k, (kids.find k).isSome = true ∨ k <+: path → Routed path k) (hown : own <+: path)
    (hne : own ≠ path) (parent child : ObjectPath) :
    (pathAdd own kids path managed).2.count (.childCreated parent child) =
      if Between own path child ∧ kids.find child = none ∧ parent = child.dropLast then 1
      else 0 := by
  induction hn : path.length - own.length generalizing own kids with
  | zero =>
    have hlt := length_lt_of_strict hown hne
    omega
  | succ n ih =>
    rcases next_child_cases hown hne with hpath | ⟨c, hc, hcp, hcne⟩
    · have hlast := pathAdd_last managed hkids (hroute own (Or.inr hown)) hpath
      rw [hlast.1, List.count_append, loadedAt_count_created, Nat.zero_add, created_count hkids hpath]
      simp only [between_child_iff hpath]
    · have hclen : path.length - c.length = n := by
        obtain ⟨e, he⟩ := hc
        rw [he, List.length_append, List.length_singleton]
        omega
      have hbelow := routes_below hkids hroute hc
      have hspec := pathAdd_spec managed (hkids.childrenOf c) hbelow hcp hcne
      have hdeep := pathAdd_deep managed hkids (routes_here hkids hroute hown) hc hcp hcne hspec.1
      rw [hdeep.1, List.count_append, ih (hkids.childrenOf c) hbelow hcp hcne hclen, created_count hkids hc]
      simp only [between_iff hc hcp]
      by_cases hcc : child = c
      · have hno : ¬ Between c path child := hcc ▸ not_between_self c path
        simp [hcc, hcc ▸ hno]
      · by_cases hb : Between c path child
        · rw [hkids.find_childrenOf hc hb.1 hcc]
          simp [hcc]
        · simp [hcc, hb]

/-- Passing a removal on to a child alters that child and may erase it. -/
theorem removeIn_eq_alter (path : ObjectPath) (removed : List Name) (shared : ObjectPath → Bool)
    (c : ObjectPath) (kids : Children Name Value) :
    removeIn path removed shared c kids =
      kids.alter c (fun d below =>
        if (pathRemove c d below path removed shared).2 && !shared c then none
        else some (pathRemove c d below path removed shared).1) := by
  induction kids with
  | nil => rfl
  | cons k d below beside _ ih =>
    rw [removeIn, Forest.alter]
    by_cases hk : k = c
    · subst hk
      rw [if_pos rfl, if_pos rfl]
      by_cases herase : ((pathRemove k d below path removed shared).2 && !shared k) = true
      · rw [if_pos herase]
        exact if_pos herase
      · rw [if_neg herase]
        exact if_neg herase
    · rw [if_neg hk, if_neg hk, ih]

/-- The objects with the interfaces of `path` unloaded. -/
def dropAt (path : ObjectPath) (removed : List Name)
    (objects : ObjectPath → Option (ProxyData Name Value)) (q : ObjectPath) :
    Option (ProxyData Name Value) :=
  if q = path then (objects path).map (fun d => dropInterfaces d removed) else objects q

/-- What the objects of a tree are after `path` was removed: outside its subtree nothing
changes, and in it an object stays when it or one below it is still owned or loaded. -/
def Removed (path : ObjectPath) (removed : List Name) (shared : ObjectPath → Bool)
    (before after : ObjectPath → Option (ProxyData Name Value)) : Prop :=
  ∀ q v, after q = some v ↔
    dropAt path removed before q = some v ∧
      (path <+: q → ∃ r w, q <+: r ∧ dropAt path removed before r = some w ∧
        kept shared r w = true)

/-- Removing below the next child. -/
theorem Removed.of_child {path c : ObjectPath} {removed : List Name} {shared : ObjectPath → Bool}
    {before after sub subAfter : ObjectPath → Option (ProxyData Name Value)} (hcp : c <+: path)
    (hne : c ≠ path) (hsub : ∀ q, c <+: q → q ≠ c → before q = sub q)
    (hafter : ∀ q, after q =
      if q = c then before c else if c <+: q then subAfter q else before q)
    (hrem : Removed path removed shared sub subAfter) :
    Removed path removed shared before after := by
  have hdrop : ∀ q, c <+: q → q ≠ c →
      dropAt path removed before q = dropAt path removed sub q := by
    intro q hcq hqc
    rw [dropAt, dropAt, hsub path hcp (Ne.symm hne), hsub q hcq hqc]
  intro q v
  rw [hafter q]
  by_cases hqc : q = c
  · have hnot : ¬ path <+: c := fun h => hne (hcp.eq_of_length_le h.length_le)
    rw [if_pos hqc, hqc, dropAt, if_neg hne]
    exact ⟨fun h => ⟨h, fun hp => absurd hp hnot⟩, fun h => h.1⟩
  · rw [if_neg hqc]
    by_cases hcq : c <+: q
    · rw [if_pos hcq, hrem q v, hdrop q hcq hqc]
      have hup : ∀ r, q <+: r → dropAt path removed before r = dropAt path removed sub r := by
        intro r hqr
        apply hdrop r (hcq.trans hqr)
        intro hrc
        exact hqc ((hrc ▸ hqr).eq_of_length_le hcq.length_le)
      constructor
      · intro h
        refine ⟨h.1, fun hp => ?_⟩
        obtain ⟨r, w, hqr, hw, hk⟩ := h.2 hp
        exact ⟨r, w, hqr, by rw [hup r hqr, hw], hk⟩
      · intro h
        refine ⟨h.1, fun hp => ?_⟩
        obtain ⟨r, w, hqr, hw, hk⟩ := h.2 hp
        exact ⟨r, w, hqr, by rw [← hup r hqr, hw], hk⟩
    · have hqp : q ≠ path := fun h => hcq (h ▸ hcp)
      rw [if_neg hcq, dropAt, if_neg hqp]
      exact ⟨fun h => ⟨h, fun hp => absurd (hcp.trans hp) hcq⟩, fun h => h.1⟩

/-- Removing a child of the proxy itself: what is under it is pruned. -/
theorem Removed.of_last {own path : ObjectPath} {removed : List Name} {shared : ObjectPath → Bool}
    {before after : ObjectPath → Option (ProxyData Name Value)} {under : Children Name Value}
    (hunder : under.Rooted own)
    (hbefore : ∀ q, path <+: q → dropAt path removed before q = under.find q)
    (hafter : ∀ q, after q =
      if path <+: q then (under.prune (kept shared)).find q else before q) :
    Removed path removed shared before after := by
  intro q v
  rw [hafter q]
  by_cases hpq : path <+: q
  · rw [if_pos hpq, hunder.find_prune_iff, hbefore q hpq]
    constructor
    · intro h
      refine ⟨h.1, fun _ => ?_⟩
      obtain ⟨r, w, hqr, hw, hk⟩ := h.2
      exact ⟨r, w, hqr, by rw [hbefore r (hpq.trans hqr), hw], hk⟩
    · intro h
      obtain ⟨r, w, hqr, hw, hk⟩ := h.2 hpq
      exact ⟨h.1, r, w, hqr, by rw [← hbefore r (hpq.trans hqr), hw], hk⟩
  · have hqp : q ≠ path := fun h => hpq (h ▸ List.prefix_rfl)
    rw [if_neg hpq, dropAt, if_neg hqp]
    exact ⟨fun h => ⟨h, fun hp => absurd hp hpq⟩, fun h => h.1⟩

/-- What becomes of a child the removal is passed on to; `none` is its erasure. -/
def afterRemove (path : ObjectPath) (removed : List Name) (shared : ObjectPath → Bool)
    (c : ObjectPath) (d : ProxyData Name Value) (below : Children Name Value) :
    Option (ProxyData Name Value × Children Name Value) :=
  if (pathRemove c d below path removed shared).2 && !shared c then none
  else some (pathRemove c d below path removed shared).1

theorem pathRemove_eq_alter {own path : ObjectPath} {kids : Children Name Value}
    (data : ProxyData Name Value) (removed : List Name) (shared : ObjectPath → Bool)
    (hroute : Routed path own) (hown : own <+: path) (hne : own ≠ path) :
    pathRemove own data kids path removed shared =
      ((data, kids.alter (path.take (own.length + 1))
        (afterRemove path removed shared (path.take (own.length + 1)))), false) := by
  have hdesc : isDescendant own.text path.text = true := hroute.mpr ⟨hown, hne⟩
  have halter := removeIn_eq_alter path removed shared (path.take (own.length + 1)) kids
  simp only [pathRemove, removeStep, if_neg (Ne.symm hne), hdesc, Bool.not_true, Bool.false_eq_true,
    if_false, halter]
  rfl

theorem pathRemove_self (path : ObjectPath) (removed : List Name) (shared : ObjectPath → Bool)
    (d : ProxyData Name Value) (below : Children Name Value) :
    pathRemove path d below path removed shared =
      ((dropInterfaces d removed, below.prune (kept shared)),
        (below.prune (kept shared)).isNil && !(dropInterfaces d removed).interfacesLoaded) := by
  simp [pathRemove, removeStep, pathPrune]

/-- At `path` itself the proxy and its children are pruned as one forest. -/
theorem afterRemove_self_find (path : ObjectPath) (removed : List Name) (shared : ObjectPath → Bool)
    (d : ProxyData Name Value) (below : Children Name Value) (q : ObjectPath) :
    Forest.seen path (afterRemove path removed shared path d below) q =
      (Forest.prune (kept shared) (.cons path (dropInterfaces d removed) below .nil)).find q := by
  rw [afterRemove, pathRemove_self, Forest.prune, Forest.prune, kept]
  by_cases herase : ((below.prune (kept shared)).isNil &&
      !(dropInterfaces d removed).interfacesLoaded && !shared path) = true
  · have herase' : ((below.prune (kept shared)).isNil &&
        !(shared path || (dropInterfaces d removed).interfacesLoaded)) = true := by
      rw [Bool.not_or, ← herase]
      ac_rfl
    rw [if_pos herase, if_pos herase', Forest.find, Forest.seen_none]
  · have herase' : ¬ ((below.prune (kept shared)).isNil &&
        !(shared path || (dropInterfaces d removed).interfacesLoaded)) = true := by
      intro h
      apply herase
      rw [Bool.not_or] at h
      rw [← h]
      ac_rfl
    rw [if_neg herase, if_neg herase', Forest.find, Forest.find, Option.or_none, Forest.seen_some]

/-- The removal of a child of the proxy itself. -/
theorem afterRemove_last {own c : ObjectPath} {kids : Children Name Value} (removed : List Name)
    (shared : ObjectPath → Bool) (hkids : kids.Rooted own) (hc : ∃ e, c = own ++ [e]) :
    (kids.alter c (afterRemove c removed shared c)).Rooted own ∧
      Removed c removed shared kids.find (kids.alter c (afterRemove c removed shared c)).find := by
  have hbelow : ∀ d below r, kids.node c = some (d, below) →
      afterRemove c removed shared c d below = some r → r.2.Rooted c := by
    intro d below r hnode hr
    have hrooted : below.Rooted c := hkids.node_rooted hnode
    rw [afterRemove, pathRemove_self, Option.ite_none_left_eq_some, Option.some.injEq] at hr
    rw [← hr.2]
    exact hrooted.prune (kept shared)
  refine ⟨hkids.alter hbelow, ?_⟩
  have hfind := hkids.find_alter hc hbelow
  cases hnode : kids.node c with
  | none =>
    have hnone : ∀ q, c <+: q → kids.find q = none := by
      intro q hcq
      rw [hkids.find_node hc hcq, hnode, Forest.seen_none]
    have hnil : (Forest.nil : Children Name Value).Rooted own := Forest.rooted_nil own
    apply Removed.of_last hnil
    · intro q hcq
      rw [dropAt, hnone c List.prefix_rfl, hnone q hcq]
      simp [Forest.find]
    · intro q
      rw [hfind q, hnode]
      simp [Forest.prune, Forest.find]
  | some r =>
    -- the child and what is below it, as a forest of its own
    have hunder : (Forest.cons c (dropInterfaces r.1 removed) r.2 .nil).Rooted own :=
      ⟨hc, hkids.node_rooted hnode, Forest.rooted_nil own, by simp [Forest.tops]⟩
    apply Removed.of_last hunder
    · intro q hcq
      rw [dropAt, hkids.find_node hc List.prefix_rfl, hkids.find_node hc hcq, hnode, Forest.find,
        Forest.find, Option.or_none]
      by_cases hqc : q = c
      · simp [hqc]
      · simp [hqc]
    · intro q
      rw [hfind q, hnode, ← afterRemove_self_find, Option.bind_some]

/-- A removal further down, from what it does below the next child. -/
theorem afterRemove_deep {own c path : ObjectPath} {kids : Children Name Value}
    {removed : List Name} {shared : ObjectPath → Bool} (hkids : kids.Rooted own)
    (hc : ∃ e, c = own ++ [e]) (hcp : c <+: path) (hcne : c ≠ path)
    (hbelow : ∀ d below, kids.node c = some (d, below) →
      ∃ kids', afterRemove path removed shared c d below = some (d, kids') ∧
        kids'.Rooted c ∧ Removed path removed shared below.find kids'.find) :
    (kids.alter c (afterRemove path removed shared c)).Rooted own ∧
      Removed path removed shared kids.find
        (kids.alter c (afterRemove path removed shared c)).find := by
  have hrooted : ∀ d below r, kids.node c = some (d, below) →
      afterRemove path removed shared c d below = some r → r.2.Rooted c := by
    intro d below r hnode hr
    obtain ⟨kids', heq, hkids', _⟩ := hbelow d below hnode
    rw [heq, Option.some.injEq] at hr
    exact hr ▸ hkids'
  refine ⟨hkids.alter hrooted, ?_⟩
  have hfind := hkids.find_alter hc hrooted
  cases hnode : kids.node c with
  | none =>
    have hnil : Removed path removed shared (Forest.nil : Children Name Value).find
        (Forest.nil : Children Name Value).find := by
      intro q v
      simp [Forest.find, dropAt]
    apply Removed.of_child hcp hcne _ _ hnil
    · intro q hcq _
      rw [hkids.find_node hc hcq, hnode, Forest.find, Forest.seen_none]
    · intro q
      rw [hfind q, hkids.find_node hc List.prefix_rfl, hnode]
      by_cases hqc : q = c
      · simp [hqc]
      · simp [hqc, Forest.find]
  | some r =>
    have hsub : ∀ q, c <+: q → q ≠ c → kids.find q = r.2.find q := by
      intro q hcq hqc
      rw [hkids.find_node hc hcq, hnode]
      exact if_neg hqc
    obtain ⟨kids', hafter, _, hrem⟩ := hbelow r.1 r.2 hnode
    apply Removed.of_child hcp hcne hsub _ hrem
    intro q
    rw [hfind q, hkids.find_node hc List.prefix_rfl, hnode]
    by_cases hqc : q = c
    · simp [hqc, hafter]
    · simp [hqc, hafter]

theorem pathRemove_spec {own path : ObjectPath} {kids : Children Name Value}
    (data : ProxyData Name Value) (removed : List Name) (shared : ObjectPath → Bool)
    (hkids : kids.Rooted own)
    (hroute : ∀ k, (kids.find k).isSome = true ∨ k <+: path → Routed path k) (hown : own <+: path)
    (hne : own ≠ path) :
    ∃ kids', pathRemove own data kids path removed shared = ((data, kids'), false) ∧
      kids'.Rooted own ∧ Removed path removed shared kids.find kids'.find := by
  -- down to the parent of `path`
  induction hn : path.length - own.length generalizing own data kids with
  | zero =>
    have hlt := length_lt_of_strict hown hne
    omega
  | succ n ih =>
    refine ⟨_, pathRemove_eq_alter data removed shared (hroute own (Or.inr hown)) hown hne, ?_⟩
    have hc := take_child hown hne
    have hcp : path.take (own.length + 1) <+: path := List.take_prefix _ _
    have hclen : path.length - (path.take (own.length + 1)).length = n := by
      rw [List.length_take]
      omega
    generalize path.take (own.length + 1) = c at hc hcp hclen
    by_cases hcne : c = path
    · subst hcne
      exact afterRemove_last removed shared hkids hc
    · apply afterRemove_deep hkids hc hcp hcne
      intro d below hnode
      have hroute' := routes_below hkids hroute hc
      have hsub : kids.childrenOf c = below := by
        rw [Forest.childrenOf, hnode]
      rw [hsub] at hroute'
      obtain ⟨kids', heq, hrest⟩ := ih d (hkids.node_rooted hnode) hroute' hcp hcne hclen
      refine ⟨kids', ?_, hrest⟩
      -- only the parent of `path` may erase its child
      rw [afterRemove, heq, Bool.false_and, if_neg Bool.false_ne_true]

/-- A message reaches the proxy at its path, if there is one, and nothing else. -/
theorem forwardMessage_spec (m : Message Name Value) {own : ObjectPath} {kids : Children Name Value}
    (hkids : kids.Rooted own)
    (hroute : ∀ k, (kids.find k).isSome = true → Routed m.path k) :
    (forwardMessage m own kids).1.Rooted own ∧
      (∀ q, (forwardMessage m own kids).1.find q =
        if q = m.path then (kids.find q).map (fun d => (receive d m).1) else kids.find q) ∧
      (forwardMessage m own kids).2 =
        match kids.find m.path with
        | none => []
        | some d => (receive d m).2 ++
            if m.isSignal then [.childSignal m.path.dropLast m.path] else [] := by
  induction kids generalizing own with
  | nil => exact ⟨Forest.rooted_nil own, fun q => by simp [forwardMessage, Forest.find], rfl⟩
  | cons k d below beside ihBelow ihBeside =>
    have hcons := hkids.find_cons
    have hrouteBelow : ∀ q, (below.find q).isSome = true → Routed m.path q :=
      fun q hq => hroute q (Forest.find_isSome_cons (Or.inl hq))
    have hrouteBeside : ∀ q, (beside.find q).isSome = true → Routed m.path q :=
      fun q hq => hroute q (Forest.find_isSome_cons (Or.inr hq))
    obtain ⟨hk, hbelow, hbeside, hnew⟩ := hkids
    have hkroute : isDescendant (ObjectPath.text k) m.path.text = true ↔ k <+: m.path ∧ k ≠ m.path :=
      hroute k (by rw [hcons, if_pos rfl]; rfl)
    rw [forwardMessage]
    by_cases hkp : k = m.path
    · have hrooted : (Forest.cons k (receive d m).1 below beside).Rooted own :=
        ⟨hk, hbelow, hbeside, hnew⟩
      have hparent : own = m.path.dropLast := by
        obtain ⟨e, he⟩ := hk
        rw [← hkp, he, List.dropLast_concat]
      rw [if_pos hkp]
      refine ⟨hrooted, fun q => ?_, ?_⟩
      · rw [hrooted.find_cons q, hcons q, ← hkp]
        by_cases hqk : q = k
        · simp [hqk]
        · simp [hqk]
      · rw [hcons, if_pos hkp.symm, ← hkp, hkp, hparent]
    · rw [if_neg hkp]
      by_cases hdesc : isDescendant (ObjectPath.text k) m.path.text = true
      · obtain ⟨hrooted', hfind, hnotices⟩ := ihBelow hbelow hrouteBelow
        have hkpath := (hkroute.mp hdesc).1
        have hrooted : (Forest.cons k d (forwardMessage m k below).1 beside).Rooted own :=
          ⟨hk, hrooted', hbeside, hnew⟩
        rw [if_pos hdesc]
        refine ⟨hrooted, fun q => ?_, ?_⟩
        · rw [hrooted.find_cons q, hcons q, hfind q]
          by_cases hqk : q = k
          · simp [hqk, hkp]
          · by_cases hkq : k <+: q
            · simp [hqk, hkq]
            · have hqp : q ≠ m.path := fun h => hkq (h ▸ hkpath)
              simp [hqk, hkq, hqp]
        · rw [hcons, if_neg (Ne.symm hkp), if_pos hkpath, hnotices]
      · obtain ⟨hrooted', hfind, hnotices⟩ := ihBeside hbeside hrouteBeside
        have hkpath : ¬ k <+: m.path := fun h => hdesc (hkroute.mpr ⟨h, hkp⟩)
        have htops : k ∉ (forwardMessage m own beside).1.tops := by
          rw [hrooted'.mem_tops_iff k hk, hfind k, if_neg hkp, ← hbeside.mem_tops_iff k hk]
          exact hnew
        have hrooted : (Forest.cons k d below (forwardMessage m own beside).1).Rooted own :=
          ⟨hk, hbelow, hrooted', htops⟩
        rw [if_neg hdesc]
        refine ⟨hrooted, fun q => ?_, ?_⟩
        · rw [hrooted.find_cons q, hcons q, hfind q]
          by_cases hqk : q = k
          · simp [hqk, hkp]
          · by_cases hkq : k <+: q
            · have hqp : q ≠ m.path := fun h => hkpath (h ▸ hkq)
              simp [hqk, hkq, hqp]
            · simp [hqk, hkq]
        · rw [hcons, if_neg (Ne.symm hkp), if_neg hkpath, hnotices]

end RCControl
