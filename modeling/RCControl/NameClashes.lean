import RCControl.BusMirror
import Mathlib.Order.Preorder.Chain

/-! Object paths that the text test of `Path.cpp` confuses: when it is exact, and what
becomes of an object whose parent has a sibling with the shorter name. -/
namespace RCControl
open ReplayLog

/-- The paths of `U` and of the objects above them. -/
def AtOrAbove (U : Set ObjectPath) (q : ObjectPath) : Prop := ∃ u ∈ U, q <+: u

theorem Unconfused.atOrAbove {U : Set ObjectPath} (hU : Unconfused U) :
    Unconfused {q | AtOrAbove U q} where
  head_once h t hht e he := by
    obtain ⟨u, hu, r, hr⟩ := hht
    have hmem : e ∈ t ++ r := List.mem_append_left r he
    exact hU.head_once h (t ++ r) (by rw [← List.cons_append, hr]; exact hu) e hmem
  siblings p hp q hq s b e hb he hbe := by
    obtain ⟨u, hu, hpu⟩ := hp
    obtain ⟨v, hv, hqv⟩ := hq
    exact hU.siblings u hu v hv s b e (hb.trans hqv) (he.trans hpu) hbe

theorem not_startsWith_of_length {base path : ObjectPath} (h : path.length < base.length) :
    base.startsWith path = false := by
  have hb : base ≠ [] := by
    intro hb
    rw [hb, List.length_nil] at h
    omega
  by_contra hs
  rw [Bool.not_eq_false, startsWith_iff base path hb] at hs
  obtain ⟨s, b, e, rest, hbase, hpath, -⟩ := hs
  rw [hbase, hpath] at h
  simp only [List.length_append, List.length_cons, List.length_nil] at h
  omega

theorem unconfused_of_exact {U : Set ObjectPath} (hexact : ∀ base path, AtOrAbove U base →
    AtOrAbove U path → (isDescendant base.text path.text = true ↔ base <+: path ∧ base ≠ path)) :
    Unconfused U := by
  constructor
  · intro h t hht e he hhe
    obtain ⟨t₁, t₂, rfl⟩ := List.append_of_mem he
    have hpath : AtOrAbove U (h :: (t₁ ++ e :: t₂)) := ⟨_, hht, List.prefix_rfl⟩
    have hbegins : [h] <+: h :: (t₁ ++ e :: t₂) := ⟨t₁ ++ e :: t₂, rfl⟩
    have hne : [h] ≠ h :: (t₁ ++ e :: t₂) := by simp
    have hdesc := (hexact [h] _ ⟨_, hht, hbegins⟩ hpath).mpr ⟨hbegins, hne⟩
    rcases ((isDescendant_text_iff _ _).mp hdesc).2 with hroot | ⟨-, hlater⟩
    · cases hroot
    -- the element `e` is a second occurrence
    · have hagain := hlater (t₁.length + 1) (Nat.succ_pos _)
      rw [List.drop_succ_cons, List.drop_left] at hagain
      have hbeginsAt : ObjectPath.startsWith [h] (e :: t₂) = true := by
        simpa [ObjectPath.startsWith] using hhe
      rw [hbeginsAt] at hagain
      cases hagain
  · intro p hp q hq s b e hb he hbe
    by_contra hne
    have hlength : (s ++ [b]).length = (s ++ [e]).length := by simp
    have hneq : s ++ [b] ≠ s ++ [e] := by
      intro heq
      apply hne
      simpa using heq
    have hstarts : ObjectPath.startsWith (s ++ [b]) (s ++ [e]) = true := by
      rw [startsWith_iff _ _ (by simp)]
      exact ⟨s, b, e, [], rfl, rfl, hbe⟩
    have hdesc : isDescendant (ObjectPath.text (s ++ [b])) (ObjectPath.text (s ++ [e])) = true := by
      rw [isDescendant_text_iff]
      refine ⟨hneq, Or.inr ⟨hstarts, fun k hk => ?_⟩⟩
      apply not_startsWith_of_length
      rw [List.length_drop]
      simp only [List.length_append, List.length_cons, List.length_nil]
      omega
    have hstrict := (hexact _ _ ⟨q, hq, hb⟩ ⟨p, hp, he⟩).mp hdesc
    exact hneq (hstrict.1.eq_of_length hlength)

theorem Unconfused.exact {U : Set ObjectPath} (hU : Unconfused U) {base path : ObjectPath}
    (hbase : AtOrAbove U base) (hpath : AtOrAbove U path) :
    isDescendant base.text path.text = true ↔ base <+: path ∧ base ≠ path :=
  isDescendant_iff_strict hU.atOrAbove hbase List.prefix_rfl hpath

/-- The text test is the strict prefix order of the elements on all paths down to `U`
exactly when no element starts with the first one again and no name begins a sibling's. -/
theorem unconfused_iff (U : Set ObjectPath) :
    Unconfused U ↔ ∀ base path, AtOrAbove U base → AtOrAbove U path →
      (isDescendant base.text path.text = true ↔ base <+: path ∧ base ≠ path) :=
  ⟨fun hU _ _ hbase hpath => hU.exact hbase hpath, unconfused_of_exact⟩

theorem isAscendant_text_iff (base path : ObjectPath) :
    isAscendant base.text path.text = true ↔
      base ≠ path ∧ isDescendant base.text path.text = false := by
  simp only [isAscendant, text_ne_nil, or_self, if_false, text_injective.eq_iff]
  by_cases h : base = path
  · simp [h]
  · simp [h]

theorem length_le_of_descendant {base path : ObjectPath}
    (h : isDescendant base.text path.text = true) : base.length ≤ path.length := by
  rcases ((isDescendant_text_iff base path).mp h).2 with hroot | ⟨hstarts, -⟩
  · rw [hroot]
    exact Nat.zero_le _
  · by_contra hlt
    rw [not_startsWith_of_length (Nat.lt_of_not_le hlt)] at hstarts
    cases hstarts

/-- `is_parent` compares the levels of the two paths and no names. -/
theorem isParent_text_iff {base path : ObjectPath} (hbase : base.length ≤ 2 ^ 64) :
    isParent base.text path.text = true ↔ base.length = path.length + 1 := by
  simp only [isParent, text_ne_nil, or_self, if_false, text_injective.eq_iff, countElements_text]
  by_cases heq : base = path
  · simp [heq]
  rw [if_neg heq]
  constructor
  · intro h
    split at h
    · cases h
    · rename_i hasc
      rw [Bool.not_eq_true', Bool.not_eq_false, isAscendant_text_iff] at hasc
      have hroot : base ≠ [] := by
        intro hroot
        have hdesc := (isDescendant_text_iff base path).mpr ⟨heq, Or.inl hroot⟩
        rw [hasc.2] at hdesc
        cases hdesc
      have hpos : 0 < base.length := List.length_pos_iff.mpr hroot
      rw [beq_iff_eq] at h
      omega
  · intro hlength
    have hdesc : isDescendant base.text path.text = false := by
      by_contra h
      have hle := length_le_of_descendant (by simpa using h)
      omega
    have hasc := (isAscendant_text_iff base path).mpr ⟨heq, hdesc⟩
    rw [hasc, Bool.not_true, if_neg Bool.false_ne_true, beq_iff_eq]
    omega

/-- Two paths cannot each be a descendant of the other. -/
theorem descendant_asymm {base path : ObjectPath} (h : isDescendant base.text path.text = true)
    (h' : isDescendant path.text base.text = true) : base = [] ∨ path = [] := by
  by_contra hroots
  obtain ⟨hb, hp⟩ := not_or.mp hroots
  obtain ⟨hne, hstarts⟩ := (isDescendant_text_iff base path).mp h
  obtain ⟨s, b, e, rest, hbase, hpath, hbe⟩ :=
    (startsWith_iff base path hb).mp (hstarts.resolve_left hb).1
  obtain ⟨s', b', e', rest', hpath', hbase', hbe'⟩ :=
    (startsWith_iff path base hp).mp (((isDescendant_text_iff path base).mp h').2.resolve_left hp).1
  have hlength := Nat.le_antisymm (length_le_of_descendant h) (length_le_of_descendant h')
  obtain rfl : rest = [] := by
    rw [hbase, hpath] at hlength
    apply List.eq_nil_of_length_eq_zero
    simp only [List.length_append, List.length_cons, List.length_nil] at hlength
    omega
  obtain rfl : rest' = [] := by
    rw [hbase', hpath'] at hlength
    apply List.eq_nil_of_length_eq_zero
    simp only [List.length_append, List.length_cons, List.length_nil] at hlength
    omega
  -- the last elements begin each other
  obtain ⟨rfl, rfl⟩ := List.append_inj' (hpath'.symm.trans hpath) rfl |>.imp id List.singleton_inj.mp
  obtain rfl := List.singleton_inj.mp (List.append_inj' (hbase'.symm.trans hbase) rfl).2
  have heq := Subtype.ext (hbe.eq_of_length (Nat.le_antisymm hbe.length_le hbe'.length_le))
  exact hne (by rw [hbase, hpath, heq])

theorem comparable_of_chain {U : Set ObjectPath} (hchain : IsChain (· <+: ·) U)
    {p q : ObjectPath} (hp : AtOrAbove U p) (hq : AtOrAbove U q) : p <+: q ∨ q <+: p := by
  obtain ⟨u, hu, hpu⟩ := hp
  obtain ⟨v, hv, hqv⟩ := hq
  by_cases huv : u = v
  · exact List.prefix_or_prefix_of_prefix hpu (huv ▸ hqv)
  · rcases hchain hu hv huv with h | h
    · exact List.prefix_or_prefix_of_prefix (hpu.trans h) hqv
    · exact List.prefix_or_prefix_of_prefix hpu (hqv.trans h)

/-- `is_ascendant` says no more than that the path is not a descendant: it is the strict
prefix order the other way round only where every two paths are on one line, and the
text test is exact there. -/
theorem isAscendant_exact_iff (U : Set ObjectPath) :
    (∀ base path, AtOrAbove U base → AtOrAbove U path →
      (isAscendant base.text path.text = true ↔ path <+: base ∧ path ≠ base)) ↔
      IsChain (· <+: ·) U ∧ Unconfused U := by
  constructor
  · intro hexact
    have hcomparable : ∀ p q, AtOrAbove U p → AtOrAbove U q → p <+: q ∨ q <+: p := by
      intro p q hp hq
      by_contra hnot
      obtain ⟨hpq, hqp⟩ := not_or.mp hnot
      have hne : p ≠ q := fun h => hpq (h ▸ List.prefix_rfl)
      have hdesc : ∀ a b, AtOrAbove U a → AtOrAbove U b → ¬ b <+: a → a ≠ b →
          isDescendant a.text b.text = true := by
        intro a b ha hb hba hab
        by_contra h
        have hasc := (isAscendant_text_iff a b).mpr ⟨hab, by simpa using h⟩
        exact hba ((hexact a b ha hb).mp hasc).1
      rcases descendant_asymm (hdesc p q hp hq hqp hne) (hdesc q p hq hp hpq hne.symm) with h | h
      · exact hpq (h ▸ List.nil_prefix)
      · exact hqp (h ▸ List.nil_prefix)
    constructor
    · intro p hp q hq _
      exact hcomparable p q ⟨p, hp, List.prefix_rfl⟩ ⟨q, hq, List.prefix_rfl⟩
    · apply unconfused_of_exact
      intro base path hbase hpath
      have hasc := hexact base path hbase hpath
      rw [isAscendant_text_iff] at hasc
      by_cases heq : base = path
      · simp [heq, isDescendant]
      · rcases hcomparable base path hbase hpath with h | h
        · have hnot : ¬ path <+: base := fun h' => heq (h.eq_of_length_le h'.length_le)
          simp only [ne_eq, heq, not_false_eq_true, true_and, hnot, false_and, iff_false,
            Bool.not_eq_false] at hasc
          simp [hasc, h, heq]
        · have hnot : ¬ base <+: path := fun h' => heq (h'.eq_of_length_le h.length_le)
          simp only [ne_eq, heq, not_false_eq_true, true_and, h, Ne.symm heq, iff_true] at hasc
          simp [hasc, hnot]
  · rintro ⟨hchain, hU⟩ base path hbase hpath
    have hexact := hU.exact hbase hpath
    rw [isAscendant_text_iff]
    by_cases heq : base = path
    · simp [heq]
    · rcases comparable_of_chain hchain hbase hpath with h | h
      · have hnot : ¬ path <+: base := fun h' => heq (h.eq_of_length_le h'.length_le)
        simp [hexact.mpr ⟨h, heq⟩, hnot]
      · have hnot : ¬ base <+: path := fun h' => heq (h'.eq_of_length_le h.length_le)
        have hdesc : isDescendant base.text path.text = false := by
          rw [← Bool.not_eq_true, hexact]
          exact fun h' => hnot h'.1
        simp [heq, hdesc, h, Ne.symm heq]

variable {Name Value : Type} [DecidableEq Name]

/-- What the proxy at `own` does with the events that reach it. -/
def proxyStep (own : ObjectPath) (s : ProxyData Name Value × Children Name Value) :
    BusEvent Name Value → ProxyData Name Value × Children Name Value
  | .interfacesAdded path managed => (s.1, (pathAdd own s.2 path managed).1)
  | .interfacesRemoved path removed shared => (pathRemove own s.1 s.2 path removed shared).1
  | .message m => (messageForward own s.1 s.2 m).1

/-- The child that `find_if` finds. -/
def firstDescendant (kids : Children Name Value) (path : ObjectPath) : Option ObjectPath :=
  kids.tops.find? (fun k => isDescendant (ObjectPath.text k) path.text)

omit [DecidableEq Name] in
theorem firstDescendant_cons (k : ObjectPath) (d : ProxyData Name Value)
    (below beside : Children Name Value) (path : ObjectPath) :
    firstDescendant (.cons k d below beside) path =
      if isDescendant k.text path.text then some k else firstDescendant beside path := by
  rw [firstDescendant, Forest.tops, List.find?_cons]
  cases isDescendant k.text path.text <;> rfl

omit [DecidableEq Name] in
theorem firstDescendant_mem {kids : Children Name Value} {path c : ObjectPath}
    (h : firstDescendant kids path = some c) :
    c ∈ kids.tops ∧ isDescendant c.text path.text = true := by
  constructor
  · exact List.mem_of_find?_eq_some h
  · exact List.find?_some (p := fun k => isDescendant (ObjectPath.text k) path.text) h

theorem forwardAdd_first {path c : ObjectPath} {kids : Children Name Value}
    (managed : Dict Name (Dict Name Value)) (hfirst : firstDescendant kids path = some c) :
    ∃ r, forwardAdd path managed kids = some r ∧
      r.1 = kids.alter c (fun d below => some (d, (pathAdd c below path managed).1)) := by
  induction kids with
  | nil => cases hfirst
  | cons k d below beside _ ih =>
    rw [firstDescendant_cons] at hfirst
    rw [forwardAdd_cons]
    by_cases hk : isDescendant (ObjectPath.text k) path.text = true
    · rw [if_pos hk] at hfirst
      obtain rfl : k = c := Option.some.inj hfirst
      rw [if_pos hk]
      refine ⟨_, rfl, ?_⟩
      simp [Forest.alter]
    · rw [if_neg hk] at hfirst
      have hkc : k ≠ c := by
        intro hkc
        exact hk (hkc ▸ (firstDescendant_mem hfirst).2)
      obtain ⟨r, hr, heq⟩ := ih hfirst
      rw [if_neg hk, hr]
      refine ⟨_, rfl, ?_⟩
      simp only [Forest.alter, if_neg hkc, heq]

theorem forwardMessage_first (m : Message Name Value) (own : ObjectPath) {c : ObjectPath}
    {kids : Children Name Value} (hfirst : firstDescendant kids m.path = some c)
    (hnot : m.path ∉ kids.tops) :
    (forwardMessage m own kids).1 =
      kids.alter c (fun d below => some (d, (forwardMessage m c below).1)) := by
  induction kids with
  | nil => cases hfirst
  | cons k d below beside _ ih =>
    rw [Forest.tops, List.mem_cons, not_or] at hnot
    rw [firstDescendant_cons] at hfirst
    rw [forwardMessage, if_neg (Ne.symm hnot.1)]
    by_cases hk : isDescendant (ObjectPath.text k) m.path.text = true
    · rw [if_pos hk] at hfirst
      obtain rfl : k = c := Option.some.inj hfirst
      rw [if_pos hk]
      simp [Forest.alter]
    · rw [if_neg hk] at hfirst
      have hkc : k ≠ c := by
        intro hkc
        exact hk (hkc ▸ (firstDescendant_mem hfirst).2)
      rw [if_neg hk]
      simp only [Forest.alter, if_neg hkc, ih hfirst hnot.2]

omit [DecidableEq Name] in
theorem node_insert {before : ObjectPath → ObjectPath → Bool} {path : ObjectPath}
    {d : ProxyData Name Value} {below kids : Children Name Value} (hnot : path ∉ kids.tops) :
    (Forest.insert before path d below kids).node path = some (d, below) := by
  induction kids with
  | nil => simp [Forest.insert, Forest.node]
  | cons k w kbelow beside _ ih =>
    rw [Forest.tops, List.mem_cons, not_or] at hnot
    rw [Forest.insert]
    split
    · simp [Forest.node]
    · rw [Forest.node, if_neg (Ne.symm hnot.1)]
      exact ih hnot.2

/-- Where the text test takes the proxy at `c` for the parent, the object is filed there. -/
theorem pathAdd_files {c path : ObjectPath} {kids : Children Name Value}
    (managed : Dict Name (Dict Name Value)) (hdesc : isDescendant c.text path.text = true)
    (hlength : c.length + 1 = path.length) :
    ((pathAdd c kids path managed).1.node path).map Prod.fst =
      some ((((kids.node path).map Prod.fst).getD ProxyData.create).interfacesLoad managed) := by
  have hchild : isChild c.text path.text = true := by
    rw [isChild_text, hdesc, hlength]
    simp
  unfold pathAdd addStep
  simp only [hdesc, hchild, Bool.not_true, Bool.false_eq_true, if_false, if_true]
  by_cases hmem : path ∈ kids.tops
  · rw [if_pos hmem]
    cases hnode : kids.node path with
    | none => exact absurd hmem ((Forest.node_eq_none_iff path kids).mp hnode)
    | some n =>
      rw [Forest.adjust, Forest.node_alter_some, hnode]
      rfl
  · rw [if_neg hmem, emplaceChild, if_neg hmem, node_insert hmem,
      (Forest.node_eq_none_iff path kids).mpr hmem]
    rfl

theorem forwardMessage_node_hasLoaded (m : Message Name Value) (own : ObjectPath)
    (kids : Children Name Value) (name : Name) :
    ((forwardMessage m own kids).1.node m.path).map (fun n => n.1.hasLoaded name) =
      (kids.node m.path).map (fun n => n.1.hasLoaded name) := by
  induction kids with
  | nil => rfl
  | cons k d below beside _ ih =>
    rw [forwardMessage]
    by_cases hk : k = m.path
    · rw [if_pos hk]
      simp only [Forest.node, if_pos hk, Option.map_some, Bluez.receive_hasLoaded]
    · rw [if_neg hk]
      by_cases hdesc : isDescendant (ObjectPath.text k) m.path.text = true
      · rw [if_pos hdesc]
        simp only [Forest.node, if_neg hk]
      · rw [if_neg hdesc]
        simp only [Forest.node, if_neg hk]
        exact ih

/-- The first child the text test passes for `path` is `c`, one element above `path` and
not its parent, and the object is filed there. -/
structure Misfiled (own c path : ObjectPath) (name : Name)
    (s : ProxyData Name Value × Children Name Value) : Prop where
  first : firstDescendant s.2 path = some c
  unlisted : path ∉ s.2.tops
  filed : (((s.2.childrenOf c).node path).map (fun n => n.1.hasLoaded name)) = some true

omit [DecidableEq Name] in
theorem childrenOf_alter_some {c : ObjectPath} {kids : Children Name Value}
    (f : Children Name Value → Children Name Value) (hc : c ∈ kids.tops) :
    ((kids.alter c (fun d below => some (d, f below))).childrenOf c) = f (kids.childrenOf c) := by
  rw [Forest.childrenOf, Forest.node_alter_some, Forest.childrenOf]
  cases hnode : kids.node c with
  | none => exact absurd hc ((Forest.node_eq_none_iff c kids).mp hnode)
  | some n => rfl

/-- The object comes under `c` when it is added, whether it was there or not. -/
theorem misfiled_add {own c path : ObjectPath} {s : ProxyData Name Value × Children Name Value}
    (hfirst : firstDescendant s.2 path = some c) (hunlisted : path ∉ s.2.tops)
    (hown : isDescendant own.text path.text = true) (hdeep : own.length + 1 ≠ path.length)
    (hlength : c.length + 1 = path.length) (managed : Dict Name (Dict Name Value)) :
    (proxyStep own s (.interfacesAdded path managed)).2.tops = s.2.tops ∧
      (((proxyStep own s (.interfacesAdded path managed)).2.childrenOf c).node path).map Prod.fst =
        some (((((s.2.childrenOf c).node path).map Prod.fst).getD
          ProxyData.create).interfacesLoad managed) := by
  obtain ⟨hc, hdesc⟩ := firstDescendant_mem hfirst
  obtain ⟨r, hr, heq⟩ := forwardAdd_first managed hfirst
  have hchild : isChild own.text path.text = false := by
    rw [isChild_text, Bool.and_eq_false_iff]
    exact Or.inr (by simpa using hdeep)
  have hadd : pathAdd own s.2 path managed = r := by
    rw [pathAdd_forward managed hown hunlisted hchild, hr]
    rfl
  have hstep : (proxyStep own s (.interfacesAdded path managed)).2 =
      s.2.alter c (fun d below => some (d, (pathAdd c below path managed).1)) := by
    rw [proxyStep, hadd, heq]
  rw [hstep]
  constructor
  · exact Forest.tops_alter_some c (fun d below => (d, (pathAdd c below path managed).1)) s.2
  · rw [childrenOf_alter_some (fun below => (pathAdd c below path managed).1) hc]
    exact pathAdd_files managed hdesc hlength

theorem misfiled_step {own c path : ObjectPath} {name : Name} (hne : c ≠ path.take (own.length + 1))
    (hown : isDescendant own.text path.text = true) (hdeep : own.length + 1 ≠ path.length)
    (hlength : c.length + 1 = path.length) (s : ProxyData Name Value × Children Name Value)
    (e : BusEvent Name Value) (h : Misfiled own c path name s) (he : e.path = path) :
    Misfiled own c path name (proxyStep own s e) := by
  obtain ⟨hc, hdesc⟩ := firstDescendant_mem h.first
  have hself : path ≠ own := by
    intro hself
    simp [hself, isDescendant] at hown
  cases e with
  | interfacesAdded p managed =>
    obtain rfl : p = path := he
    obtain ⟨htops, hfiled⟩ := misfiled_add h.first h.unlisted hown hdeep hlength managed
    constructor
    · rw [firstDescendant, htops]
      exact h.first
    · rw [htops]
      exact h.unlisted
    · have hbefore := h.filed
      cases hnode : (s.2.childrenOf c).node p with
      | none =>
        rw [hnode] at hbefore
        cases hbefore
      | some n =>
        rw [hnode, Option.map_some, Option.some.injEq] at hbefore
        obtain ⟨n', hn', hd⟩ := Option.map_eq_some_iff.mp hfiled
        rw [hn', Option.map_some, hd, hnode, Option.map_some, Option.getD_some,
          ProxyData.interfacesLoad_hasLoaded, hbefore]
        simp
  | interfacesRemoved p removed shared =>
    obtain rfl : p = path := he
    -- the next child by elements is another one than `c`
    have hstep : (proxyStep own s (.interfacesRemoved p removed shared)).2 =
        removeIn p removed shared (p.take (own.length + 1)) s.2 := by
      rw [proxyStep, pathRemove, removeStep, if_neg hself, hown]
      rfl
    rw [removeIn_eq_alter] at hstep
    constructor
    · rw [firstDescendant, hstep]
      exact Forest.find?_tops_alter hne _ h.first
    · rw [hstep]
      intro hmem
      exact h.unlisted (Forest.tops_alter_subset _ _ _ _ hmem)
    · rw [hstep, Forest.childrenOf, Forest.node_alter_ne hne]
      exact h.filed
  | message m =>
    obtain rfl : m.path = path := he
    have hstep : (proxyStep own s (.message m)).2 =
        s.2.alter c (fun d below => some (d, (forwardMessage m c below).1)) := by
      rw [proxyStep, messageForward, if_neg hself]
      exact forwardMessage_first m own h.first h.unlisted
    have htops : (proxyStep own s (.message m)).2.tops = s.2.tops := by
      rw [hstep]
      exact Forest.tops_alter_some c (fun d below => (d, (forwardMessage m c below).1)) s.2
    constructor
    · rw [firstDescendant, htops]
      exact h.first
    · rw [htops]
      exact h.unlisted
    · rw [hstep, childrenOf_alter_some (fun below => (forwardMessage m c below).1) hc,
        forwardMessage_node_hasLoaded]
      exact h.filed

/-- Where the first child the text test passes for an object two levels down is not the
object's parent, the object is filed under that child, and no signal about the object,
its removal included, takes it or an announced interface away again. -/
theorem misfiled_stays {own : ObjectPath} {b e f : Element} (hbe : b ≠ e)
    {s : ProxyData Name Value × Children Name Value}
    (hown : isDescendant own.text (ObjectPath.text (own ++ [e, f])) = true)
    (hunlisted : own ++ [e, f] ∉ s.2.tops)
    (hfirst : firstDescendant s.2 (own ++ [e, f]) = some (own ++ [b]))
    {managed : Dict Name (Dict Name Value)} {name : Name} (hname : name ∈ managed)
    {events : List (BusEvent Name Value)} (hev : ∀ ev ∈ events, ev.path = own ++ [e, f]) :
    (((replay (proxyStep own) (proxyStep own s (.interfacesAdded (own ++ [e, f]) managed))
      events).2.childrenOf (own ++ [b])).node (own ++ [e, f])).map
        (fun n => n.1.hasLoaded name) = some true := by
  have htake : (own ++ [e, f]).take (own.length + 1) = own ++ [e] := by
    rw [List.take_length_add_append]
    rfl
  have hne : own ++ [b] ≠ (own ++ [e, f]).take (own.length + 1) := by
    rw [htake]
    intro heq
    exact hbe (by simpa using heq)
  have hdeep : own.length + 1 ≠ (own ++ [e, f]).length := by simp
  have hlength : (own ++ [b]).length + 1 = (own ++ [e, f]).length := by simp
  obtain ⟨htops, hfiled⟩ := misfiled_add hfirst hunlisted hown hdeep hlength managed
  have hstart : Misfiled own (own ++ [b]) (own ++ [e, f]) name
      (proxyStep own s (.interfacesAdded (own ++ [e, f]) managed)) := by
    constructor
    · rw [firstDescendant, htops]
      exact hfirst
    · rw [htops]
      exact hunlisted
    · obtain ⟨n, hn, hd⟩ := Option.map_eq_some_iff.mp hfiled
      rw [hn, Option.map_some, hd, ProxyData.interfacesLoad_hasLoaded]
      simp [hname]
  have hrun := replay_invariant (Misfiled own (own ++ [b]) (own ++ [e, f]) name)
    (misfiled_step hne hown hdeep hlength) hstart hev
  exact hrun.filed

/-- The proxy at `/org/bluez` with the adapters `hci1` and `hci10`. -/
def twoAdapters : ProxyData ℕ ℕ × Children ℕ ℕ :=
  (.create, .cons (orgBluez ++ [hci1]) .create .nil
    (.cons (orgBluez ++ [hci10]) .create .nil .nil))

/-- The device of `hci10` is filed under `hci1`, and removing it changes nothing. -/
theorem twoAdapters_misfiled :
    (((replay (proxyStep orgBluez)
      (proxyStep orgBluez twoAdapters (.interfacesAdded (orgBluez ++ [hci10, devA])
        (AList.singleton 0 ∅)))
      [.interfacesRemoved (orgBluez ++ [hci10, devA]) [0] (fun _ => false)]).2.childrenOf
        (orgBluez ++ [hci1])).node (orgBluez ++ [hci10, devA])).map
          (fun n => n.1.hasLoaded 0) = some true :=
  misfiled_stays (b := hci1) (by decide) (by decide) (by decide) (by decide)
    (AList.mem_keys.mp List.mem_cons_self) (by simp [BusEvent.path])

end RCControl
