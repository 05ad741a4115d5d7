import Mathlib.Data.List.Basic
import Mathlib.Data.List.Infix
import Mathlib.Tactic.Common

/-! Forests whose nodes are labelled with the whole path from the root: search,
insertion, update and bottom-up pruning. The labels and the values are
parameters. -/

/-- A node with its path and value, the nodes below it, and the nodes beside it. -/
inductive Forest (E α : Type)
  | nil
  | cons (path : List E) (value : α) (below beside : Forest E α)

namespace Forest
variable {E α : Type}

def isNil : Forest E α → Bool
  | nil => true
  | cons _ _ _ _ => false

@[simp] theorem isNil_nil : (nil : Forest E α).isNil = true := rfl

@[simp] theorem isNil_cons (p : List E) (v : α) (below beside : Forest E α) :
    (cons p v below beside).isNil = false := rfl

theorem eq_nil_of_isNil {f : Forest E α} (h : f.isNil = true) : f = nil := by
  cases f with
  | nil => rfl
  | cons p v below beside => simp at h

/-- The paths of the outermost nodes, in order. -/
def tops : Forest E α → List (List E)
  | nil => []
  | cons p _ _ beside => p :: beside.tops

/-- Every node lies one element below its parent, and siblings have different paths. -/
def Rooted : List E → Forest E α → Prop
  | _, nil => True
  | base, cons p _ below beside =>
    (∃ e, p = base ++ [e]) ∧ Rooted p below ∧ Rooted base beside ∧ p ∉ beside.tops

theorem rooted_nil (base : List E) : (nil : Forest E α).Rooted base := trivial

variable [DecidableEq E]

/-- The value at a path, wherever in the forest it is. -/
def find : Forest E α → List E → Option α
  | nil, _ => none
  | cons p v below beside, q => if q = p then some v else (below.find q).or (beside.find q)

/-- Insert an outermost node in front of the first one that `before` puts behind it. -/
def insert (before : List E → List E → Bool) (p : List E) (v : α) (children : Forest E α) :
    Forest E α → Forest E α
  | nil => cons p v children nil
  | cons k w below beside =>
    if before p k then cons p v children (cons k w below beside)
    else cons k w below (insert before p v children beside)

/-- The outermost node at `p`: its value and what is below it. -/
def node (p : List E) : Forest E α → Option (α × Forest E α)
  | nil => none
  | cons k v below beside => if k = p then some (v, below) else node p beside

/-- What the search for `q` sees of an outermost node at `p`. -/
def seen (p : List E) (node : Option (α × Forest E α)) (q : List E) : Option α :=
  node.bind (fun n => if q = p then some n.1 else n.2.find q)

@[simp] theorem seen_none (p q : List E) : seen p (none : Option (α × Forest E α)) q = none := rfl

@[simp] theorem seen_some (p q : List E) (n : α × Forest E α) :
    seen p (some n) q = if q = p then some n.1 else n.2.find q := rfl

/-- Change the outermost node at `p` with everything below it, or remove it. -/
def alter (p : List E) (g : α → Forest E α → Option (α × Forest E α)) : Forest E α → Forest E α
  | nil => nil
  | cons k v below beside =>
    if k = p then
      match g v below with
      | some r => cons k r.1 r.2 beside
      | none => beside
    else cons k v below (alter p g beside)

/-- Change the value of the outermost node at `p`. -/
def adjust (p : List E) (f : α → α) : Forest E α → Forest E α :=
  alter p (fun v below => some (f v, below))

/-- Remove, from the leaves upwards, every node that is not kept for itself and has
nothing left below it. -/
def prune (keep : List E → α → Bool) : Forest E α → Forest E α
  | nil => nil
  | cons p v below beside =>
    if (prune keep below).isNil && !keep p v then prune keep beside
    else cons p v (prune keep below) (prune keep beside)

theorem find_isSome_cons {p q : List E} {v : α} {below beside : Forest E α}
    (h : (below.find q).isSome = true ∨ (beside.find q).isSome = true) :
    ((cons p v below beside).find q).isSome = true := by
  rw [find]
  by_cases hq : q = p
  · rw [if_pos hq]
    rfl
  · rw [if_neg hq, Option.isSome_or, Bool.or_eq_true]
    exact h

omit [DecidableEq E] in
theorem Rooted.tops_child {base : List E} {f : Forest E α} (h : f.Rooted base) {k : List E}
    (hk : k ∈ f.tops) : ∃ e, k = base ++ [e] := by
  induction f with
  | nil => simp [tops] at hk
  | cons p w below beside _ ih =>
    obtain ⟨hp, _, hbeside, _⟩ := h
    rcases List.mem_cons.mp hk with hk | hk
    · rw [hk]
      exact hp
    · exact ih hbeside hk

/-- What is found lies under one of the outermost nodes. -/
theorem Rooted.find_under {base : List E} {f : Forest E α} (h : f.Rooted base) {q : List E} {v : α}
    (hq : f.find q = some v) : ∃ p, p ∈ f.tops ∧ p <+: q := by
  induction f generalizing base v with
  | nil => simp [find] at hq
  | cons p w below beside ihBelow ihBeside =>
    obtain ⟨_, hbelow, hbeside, _⟩ := h
    by_cases hqp : q = p
    · exact ⟨p, by simp [tops], by rw [hqp]⟩
    · rw [find, if_neg hqp, Option.or_eq_some_iff] at hq
      rcases hq with hq | ⟨_, hq⟩
      · obtain ⟨k, hk, hkq⟩ := ihBelow hbelow hq
        obtain ⟨e, he⟩ := hbelow.tops_child hk
        exact ⟨p, by simp [tops], List.IsPrefix.trans ⟨[e], he.symm⟩ hkq⟩
      · obtain ⟨k, hk, hkq⟩ := ihBeside hbeside hq
        exact ⟨k, by simp [tops, hk], hkq⟩

theorem Rooted.find_strict {base : List E} {f : Forest E α} (h : f.Rooted base) {q : List E} {v : α}
    (hq : f.find q = some v) : base <+: q ∧ base ≠ q := by
  obtain ⟨k, hk, hkq⟩ := h.find_under hq
  obtain ⟨e, he⟩ := h.tops_child hk
  have hbase : base <+: q := List.IsPrefix.trans ⟨[e], he.symm⟩ hkq
  refine ⟨hbase, fun hbq => ?_⟩
  have hlen := hkq.length_le
  rw [he, ← hbq, List.length_append, List.length_singleton] at hlen
  omega

omit [DecidableEq E] in
/-- Two paths one element below the base that both begin a third are the same. -/
theorem child_eq_of_begins {base k k' q : List E} (hk : ∃ e, k = base ++ [e])
    (hk' : ∃ e, k' = base ++ [e]) (hq : k <+: q) (hq' : k' <+: q) : k = k' := by
  obtain ⟨e, he⟩ := hk
  obtain ⟨e', he'⟩ := hk'
  have hlen : k.length = k'.length := by
    rw [he, he', List.length_append, List.length_append, List.length_singleton,
      List.length_singleton]
  exact (List.prefix_of_prefix_length_le hq hq' hlen.le).eq_of_length hlen

/-- In a rooted forest the search goes below the one node the path runs through. -/
theorem Rooted.find_cons {base p : List E} {v : α} {below beside : Forest E α}
    (h : (cons p v below beside).Rooted base) (q : List E) :
    (cons p v below beside).find q =
      if q = p then some v else if p <+: q then below.find q else beside.find q := by
  obtain ⟨hp, hbelow, hbeside, hnew⟩ := h
  rw [find]
  by_cases hqp : q = p
  · rw [if_pos hqp, if_pos hqp]
  · rw [if_neg hqp, if_neg hqp]
    by_cases hpq : p <+: q
    · rw [if_pos hpq]
      cases hr : beside.find q with
      | none => rw [Option.or_none]
      | some w =>
        obtain ⟨k, hk, hkq⟩ := hbeside.find_under hr
        have hkp := child_eq_of_begins (hbeside.tops_child hk) hp hkq hpq
        exact absurd (hkp ▸ hk) hnew
    · rw [if_neg hpq]
      cases hr : below.find q with
      | none => rw [Option.none_or]
      | some w => exact absurd (hbelow.find_strict hr).1 hpq

theorem Rooted.find_of_below {base p q : List E} {v w : α} {below beside : Forest E α}
    (h : (cons p v below beside).Rooted base) (hq : below.find q = some w) :
    (cons p v below beside).find q = some w := by
  have hstrict := h.2.1.find_strict hq
  rw [h.find_cons, if_neg (Ne.symm hstrict.2), if_pos hstrict.1, hq]

/-- What is found beside a node is not found under it. -/
theorem Rooted.not_under_of_beside {base p q r : List E} {v w : α} {below beside : Forest E α}
    (h : (cons p v below beside).Rooted base) (hq : beside.find q = some w) (hqr : q <+: r) :
    ¬ p <+: r := by
  obtain ⟨hp, -, hbeside, hnew⟩ := h
  obtain ⟨k, hk, hkq⟩ := hbeside.find_under hq
  intro hpr
  exact hnew (child_eq_of_begins (hbeside.tops_child hk) hp (hkq.trans hqr) hpr ▸ hk)

theorem Rooted.find_of_beside {base p q : List E} {v w : α} {below beside : Forest E α}
    (h : (cons p v below beside).Rooted base) (hq : beside.find q = some w) :
    (cons p v below beside).find q = some w := by
  have hpq := h.not_under_of_beside hq List.prefix_rfl
  have hne : q ≠ p := fun hne => hpq (hne ▸ List.prefix_rfl)
  rw [h.find_cons, if_neg hne, if_neg hpq, hq]

/-- Outermost nodes are the ones found one element below the base. -/
theorem Rooted.mem_tops_iff {base : List E} {f : Forest E α} (h : f.Rooted base) (k : List E)
    (hk : ∃ e, k = base ++ [e]) : k ∈ f.tops ↔ (f.find k).isSome = true := by
  induction f with
  | nil => simp [tops, find]
  | cons p w below beside _ ih =>
    have hcons := h.find_cons k
    obtain ⟨hp, hbelow, hbeside, _⟩ := h
    rw [hcons, tops, List.mem_cons]
    by_cases hkp : k = p
    · simp [hkp]
    · have hlen : ¬ p <+: k := fun hpk => hkp (child_eq_of_begins hk hp List.prefix_rfl hpk)
      rw [if_neg hkp, if_neg hlen, ← ih hbeside]
      simp [hkp]

omit [DecidableEq E] in
theorem tops_insert (before : List E → List E → Bool) (p : List E) (v : α)
    (children f : Forest E α) (k : List E) :
    k ∈ (insert before p v children f).tops ↔ k = p ∨ k ∈ f.tops := by
  induction f with
  | nil => simp [insert, tops]
  | cons k' w below beside _ ih =>
    rw [insert]
    by_cases hb : before p k' = true
    · rw [if_pos hb]
      simp [tops]
    · rw [if_neg hb]
      simp only [tops, List.mem_cons, ih]
      exact or_left_comm

omit [DecidableEq E] in
theorem Rooted.insert {before : List E → List E → Bool} {base p : List E} {v : α}
    {children f : Forest E α} (h : f.Rooted base) (hp : ∃ e, p = base ++ [e])
    (hc : children.Rooted p) (hnew : p ∉ f.tops) :
    (Forest.insert before p v children f).Rooted base := by
  induction f with
  | nil => exact ⟨hp, hc, trivial, by simp [tops]⟩
  | cons k w below beside _ ih =>
    have hrooted := h
    obtain ⟨hk, hbelow, hbeside, hknew⟩ := h
    have hkp : k ≠ p := fun hkp => hnew (by simp [tops, hkp])
    have hpb : p ∉ beside.tops := fun hpb => hnew (by simp [tops, hpb])
    rw [Forest.insert]
    by_cases hb : before p k = true
    · rw [if_pos hb]
      exact ⟨hp, hc, hrooted, hnew⟩
    · rw [if_neg hb]
      refine ⟨hk, hbelow, ih hbeside hpb, ?_⟩
      rw [tops_insert]
      intro h
      rcases h with h | h
      · exact hkp h
      · exact hknew h

theorem Rooted.find_insert {before : List E → List E → Bool} {base p : List E} {v : α}
    {children f : Forest E α} (h : f.Rooted base) (hp : ∃ e, p = base ++ [e])
    (hc : children.Rooted p) (hnew : p ∉ f.tops) (q : List E) :
    (Forest.insert before p v children f).find q =
      if q = p then some v else if p <+: q then children.find q else f.find q := by
  have hinsert : (Forest.insert before p v children f).Rooted base := h.insert hp hc hnew
  induction f with
  | nil => exact hinsert.find_cons q
  | cons k w below beside _ ih =>
    have hkp : k ≠ p := fun hkp => hnew (by simp [tops, hkp])
    have hpb : p ∉ beside.tops := fun hpb => hnew (by simp [tops, hpb])
    have hcons := h.find_cons q
    obtain ⟨hk, hbelow, hbeside, hknew⟩ := h
    rw [Forest.insert] at hinsert ⊢
    by_cases hb : before p k = true
    · rw [if_pos hb] at hinsert ⊢
      rw [hinsert.find_cons q]
    · rw [if_neg hb] at hinsert ⊢
      have hi := ih hbeside hpb hinsert.2.2.1
      rw [hinsert.find_cons q, hcons, hi]
      -- `k` and `p` are different children of the base, so only one of them begins `q`.
      by_cases hqk : q = k
      · have hpk : ¬ p <+: k := fun h => hkp (child_eq_of_begins hk hp List.prefix_rfl h)
        rw [if_pos hqk, hqk, if_neg hkp, if_neg hpk, if_pos rfl]
      · rw [if_neg hqk, if_neg hqk]
        by_cases hkq : k <+: q
        · have hpq : ¬ p <+: q := fun h => hkp (child_eq_of_begins hk hp hkq h)
          have hqp : q ≠ p := fun h => hpq (h ▸ List.prefix_rfl)
          rw [if_pos hkq, if_neg hqp, if_neg hpq, if_pos hkq]
        · rw [if_neg hkq, if_neg hkq]

/-- Under an outermost node the search sees that node and what is below it. -/
theorem Rooted.find_node {base p q : List E} {f : Forest E α} (h : f.Rooted base)
    (hp : ∃ e, p = base ++ [e]) (hpq : p <+: q) :
    f.find q = seen p (f.node p) q := by
  induction f with
  | nil => rfl
  | cons k v below beside _ ih =>
    rw [h.find_cons q, node]
    obtain ⟨hk, _, hbeside, _⟩ := h
    by_cases hkp : k = p
    · rw [if_pos hkp, hkp, if_pos hpq, seen_some]
    · have hkq : ¬ k <+: q := fun hkq => hkp (child_eq_of_begins hk hp hkq hpq)
      have hqk : q ≠ k := fun hqk => hkq (hqk ▸ List.prefix_rfl)
      rw [if_neg hkp, if_neg hqk, if_neg hkq]
      exact ih hbeside

theorem node_eq_none_iff (p : List E) (f : Forest E α) : f.node p = none ↔ p ∉ f.tops := by
  induction f with
  | nil => simp [node, tops]
  | cons k v below beside _ ih =>
    rw [node, tops, List.mem_cons, not_or]
    by_cases hk : k = p
    · simp [hk]
    · rw [if_neg hk, ih]
      exact ⟨fun h => ⟨Ne.symm hk, h⟩, fun h => h.2⟩

theorem Rooted.node_rooted {base p : List E} {f : Forest E α} (h : f.Rooted base)
    {r : α × Forest E α} (hr : f.node p = some r) : r.2.Rooted p := by
  induction f with
  | nil => simp [node] at hr
  | cons k v below beside _ ih =>
    obtain ⟨_, hbelow, hbeside, _⟩ := h
    rw [node] at hr
    by_cases hk : k = p
    · rw [if_pos hk, Option.some.injEq] at hr
      rw [← hr, ← hk]
      exact hbelow
    · rw [if_neg hk] at hr
      exact ih hbeside hr

/-- What is below the outermost node at `p`, nothing when there is no such node. -/
def childrenOf (p : List E) (f : Forest E α) : Forest E α :=
  match f.node p with
  | some r => r.2
  | none => nil

theorem Rooted.childrenOf {base : List E} {f : Forest E α} (h : f.Rooted base) (p : List E) :
    (Forest.childrenOf p f).Rooted p := by
  rw [Forest.childrenOf]
  cases hn : f.node p with
  | none => exact rooted_nil p
  | some r => exact h.node_rooted hn

theorem Rooted.find_childrenOf {base p q : List E} {f : Forest E α} (h : f.Rooted base)
    (hp : ∃ e, p = base ++ [e]) (hpq : p <+: q) (hqp : q ≠ p) :
    f.find q = (Forest.childrenOf p f).find q := by
  rw [h.find_node hp hpq, Forest.childrenOf]
  cases f.node p with
  | none => rfl
  | some r => exact if_neg hqp

theorem Rooted.find_none_under {base p q : List E} {f : Forest E α} (h : f.Rooted base)
    (hp : ∃ e, p = base ++ [e]) (hnew : p ∉ f.tops) (hpq : p <+: q) : f.find q = none := by
  have hnone : f.node p = none := (node_eq_none_iff p f).mpr hnew
  rw [h.find_node hp hpq, hnone, seen_none]

theorem tops_alter_subset (p : List E) (g : α → Forest E α → Option (α × Forest E α))
    (f : Forest E α) : ∀ k, k ∈ (alter p g f).tops → k ∈ f.tops := by
  induction f with
  | nil => simp [alter]
  | cons k' v below beside _ ih =>
    intro k hk
    rw [alter] at hk
    rw [tops, List.mem_cons]
    by_cases hkp : k' = p
    · rw [if_pos hkp] at hk
      cases hg : g v below with
      | none =>
        simp only [hg] at hk
        exact Or.inr hk
      | some r =>
        simp only [hg, tops, List.mem_cons] at hk
        exact hk
    · rw [if_neg hkp, tops, List.mem_cons] at hk
      rcases hk with hk | hk
      · exact Or.inl hk
      · exact Or.inr (ih k hk)

theorem tops_alter_some (p : List E) (h : α → Forest E α → α × Forest E α) (f : Forest E α) :
    (alter p (fun v below => some (h v below)) f).tops = f.tops := by
  induction f with
  | nil => rfl
  | cons k v below beside _ ih =>
    rw [alter]
    by_cases hk : k = p
    · rw [if_pos hk]
      rfl
    · rw [if_neg hk, tops, tops, ih]

theorem node_alter_some (p : List E) (h : α → Forest E α → α × Forest E α) (f : Forest E α) :
    (alter p (fun v below => some (h v below)) f).node p = (f.node p).map (fun n => h n.1 n.2) := by
  induction f with
  | nil => rfl
  | cons k v below beside _ ih =>
    rw [alter, node]
    by_cases hk : k = p
    · simp [hk, node]
    · rw [if_neg hk, if_neg hk, node, if_neg hk, ih]

theorem node_alter_ne {p q : List E} (hqp : q ≠ p)
    (g : α → Forest E α → Option (α × Forest E α)) (f : Forest E α) :
    (alter p g f).node q = f.node q := by
  induction f with
  | nil => rfl
  | cons k v below beside _ ih =>
    rw [alter, node]
    by_cases hk : k = p
    · have hkq : k ≠ q := by
        intro hkq
        exact hqp (hkq ▸ hk)
      rw [if_pos hk, if_neg hkq]
      cases g v below with
      | none => rfl
      | some r => exact if_neg hkq
    · rw [if_neg hk, node, ih]

/-- Altering another outermost node leaves the first that passes a test the first. -/
theorem find?_tops_alter {p c : List E} (hcp : c ≠ p)
    (g : α → Forest E α → Option (α × Forest E α)) {f : Forest E α} {test : List E → Bool}
    (hc : f.tops.find? test = some c) : (alter p g f).tops.find? test = some c := by
  induction f with
  | nil => exact hc
  | cons k v below beside _ ih =>
    rw [tops, List.find?_cons] at hc
    rw [alter]
    by_cases hk : k = p
    · have hno : test k = false := by
        cases htest : test k with
        | false => rfl
        | true =>
          rw [htest] at hc
          exact absurd (Option.some.inj hc) (fun hkc => hcp (hkc ▸ hk))
      rw [if_pos hk]
      rw [hno] at hc
      cases g v below with
      | none => exact hc
      | some r =>
        simp only [tops, List.find?_cons, hno]
        exact hc
    · rw [if_neg hk, tops, List.find?_cons]
      cases htest : test k with
      | false =>
        rw [htest] at hc
        exact ih hc
      | true =>
        rw [htest] at hc
        exact hc

theorem Rooted.alter {base p : List E} {g : α → Forest E α → Option (α × Forest E α)}
    {f : Forest E α} (h : f.Rooted base)
    (hg : ∀ v below r, f.node p = some (v, below) → g v below = some r → r.2.Rooted p) :
    (Forest.alter p g f).Rooted base := by
  induction f with
  | nil => trivial
  | cons k v below beside _ ih =>
    obtain ⟨hk, hbelow, hbeside, hnew⟩ := h
    rw [Forest.alter]
    by_cases hkp : k = p
    · rw [if_pos hkp]
      cases hgv : g v below with
      | none => exact hbeside
      | some r =>
        have hr := hg v below r (by rw [node, if_pos hkp]) hgv
        exact ⟨hk, hkp ▸ hr, hbeside, hnew⟩
    · rw [if_neg hkp]
      refine ⟨hk, hbelow, ih hbeside (fun v' b' r hn => ?_), fun hmem => ?_⟩
      · exact hg v' b' r (by rw [node, if_neg hkp, hn])
      · exact hnew (tops_alter_subset p g beside k hmem)

/-- Altering one outermost node changes what is found under it and nothing else. -/
theorem Rooted.find_alter {base p : List E} {g : α → Forest E α → Option (α × Forest E α)}
    {f : Forest E α} (h : f.Rooted base) (hp : ∃ e, p = base ++ [e])
    (hg : ∀ v below r, f.node p = some (v, below) → g v below = some r → r.2.Rooted p)
    (q : List E) :
    (Forest.alter p g f).find q =
      if p <+: q then seen p ((f.node p).bind (fun n => g n.1 n.2)) q else f.find q := by
  have halter := h.alter hg
  induction f with
  | nil => simp [Forest.alter, find, node]
  | cons k v below beside _ ih =>
    have hcons := h.find_cons q
    obtain ⟨hk, hbelow, hbeside, hnew⟩ := h
    rw [Forest.alter] at halter ⊢
    by_cases hkp : k = p
    · subst hkp
      rw [if_pos rfl] at halter ⊢
      rw [node, if_pos rfl, hcons]
      have hout : k <+: q → beside.find q = none := by
        intro hkq
        cases hb : beside.find q with
        | none => rfl
        | some w =>
          obtain ⟨k', hk', hkq'⟩ := hbeside.find_under hb
          have hkk := child_eq_of_begins (hbeside.tops_child hk') hk hkq' hkq
          exact absurd (hkk ▸ hk') hnew
      have hqk : ¬ k <+: q → q ≠ k := fun hkq hqk => hkq (hqk ▸ List.prefix_rfl)
      cases hgv : g v below with
      | none =>
        by_cases hkq : k <+: q
        · simp only [hkq, hgv, if_true, hout hkq, Option.bind_some, seen_none]
        · simp only [hkq, if_false, hqk hkq]
      | some r =>
        simp only [hgv] at halter ⊢
        rw [halter.find_cons q]
        by_cases hkq : k <+: q
        · simp only [hkq, hgv, if_true, Option.bind_some, seen_some]
        · simp only [hkq, if_false, hqk hkq]
    · rw [if_neg hkp] at halter ⊢
      have hi := ih hbeside (fun v' b' r hn => hg v' b' r (by rw [node, if_neg hkp, hn]))
        halter.2.2.1
      rw [halter.find_cons q, hcons, hi, node, if_neg hkp]
      by_cases hkq : k <+: q
      · have hpq : ¬ p <+: q := fun hpq => hkp (child_eq_of_begins hk hp hkq hpq)
        simp only [hkq, hpq, if_true, if_false]
      · have hqk : q ≠ k := fun hqk => hkq (hqk ▸ List.prefix_rfl)
        simp only [hkq, hqk, if_false]

theorem Rooted.adjust {base p : List E} {f : Forest E α} (h : f.Rooted base) (g : α → α) :
    (Forest.adjust p g f).Rooted base := by
  apply h.alter
  intro v below r hn hr
  have hbelow : below.Rooted p := h.node_rooted hn
  rw [Option.some.injEq] at hr
  exact hr ▸ hbelow

theorem Rooted.find_adjust {base p : List E} {f : Forest E α} (h : f.Rooted base)
    (hp : ∃ e, p = base ++ [e]) (g : α → α) (q : List E) :
    (Forest.adjust p g f).find q = if q = p then (f.find p).map g else f.find q := by
  rw [Forest.adjust, h.find_alter hp]
  · by_cases hpq : p <+: q
    · rw [if_pos hpq, h.find_node hp hpq, h.find_node hp List.prefix_rfl]
      cases hn : f.node p with
      | none => simp
      | some n => by_cases hqp : q = p <;> simp [hqp]
    · have hqp : q ≠ p := fun hqp => hpq (hqp ▸ List.prefix_rfl)
      rw [if_neg hpq, if_neg hqp]
  · intro v below r hn hr
    have hbelow : below.Rooted p := h.node_rooted hn
    rw [Option.some.injEq] at hr
    exact hr ▸ hbelow

omit [DecidableEq E] in
theorem tops_prune_subset (keep : List E → α → Bool) (f : Forest E α) :
    ∀ k, k ∈ (prune keep f).tops → k ∈ f.tops := by
  induction f with
  | nil => simp [prune]
  | cons p v below beside _ ih =>
    intro k hk
    rw [prune] at hk
    rw [tops, List.mem_cons]
    by_cases hd : ((prune keep below).isNil && !keep p v) = true
    · rw [if_pos hd] at hk
      exact Or.inr (ih k hk)
    · rw [if_neg hd, tops, List.mem_cons] at hk
      rcases hk with hk | hk
      · exact Or.inl hk
      · exact Or.inr (ih k hk)

omit [DecidableEq E] in
theorem Rooted.prune {base : List E} {f : Forest E α} (h : f.Rooted base)
    (keep : List E → α → Bool) : (Forest.prune keep f).Rooted base := by
  induction f generalizing base with
  | nil => trivial
  | cons p v below beside ihBelow ihBeside =>
    obtain ⟨hp, hbelow, hbeside, hnew⟩ := h
    rw [Forest.prune]
    by_cases hd : ((Forest.prune keep below).isNil && !keep p v) = true
    · rw [if_pos hd]
      exact ihBeside hbeside
    · rw [if_neg hd]
      exact ⟨hp, ihBelow hbelow, ihBeside hbeside,
        fun hmem => hnew (tops_prune_subset keep beside p hmem)⟩

/-- A forest is pruned away entirely when none of its nodes is kept. -/
theorem Rooted.prune_isNil_iff {base : List E} {f : Forest E α} (h : f.Rooted base)
    (keep : List E → α → Bool) :
    (Forest.prune keep f).isNil = true ↔ ∀ q v, f.find q = some v → keep q v = false := by
  induction f generalizing base with
  | nil => simp [Forest.prune, find]
  | cons p w below beside ihBelow ihBeside =>
    have hrooted := h
    have hcons := h.find_cons
    obtain ⟨hp, hbelow, hbeside, hnew⟩ := h
    have hsplit : (Forest.prune keep (cons p w below beside)).isNil = true ↔
        ((Forest.prune keep below).isNil = true ∧ keep p w = false) ∧
          (Forest.prune keep beside).isNil = true := by
      rw [Forest.prune]
      by_cases hd : ((Forest.prune keep below).isNil && !keep p w) = true
      · rw [if_pos hd]
        rw [Bool.and_eq_true, Bool.not_eq_true'] at hd
        simp [hd]
      · rw [if_neg hd]
        rw [Bool.and_eq_true, Bool.not_eq_true'] at hd
        simp only [isNil_cons, hd, false_and, Bool.false_eq_true]
    rw [hsplit, ihBelow hbelow, ihBeside hbeside]
    constructor
    · intro hall q v hq
      rw [hcons] at hq
      by_cases hqp : q = p
      · rw [if_pos hqp, Option.some.injEq] at hq
        rw [hqp, ← hq]
        exact hall.1.2
      · rw [if_neg hqp] at hq
        by_cases hpq : p <+: q
        · rw [if_pos hpq] at hq
          exact hall.1.1 q v hq
        · rw [if_neg hpq] at hq
          exact hall.2 q v hq
    · intro hall
      refine ⟨⟨fun q v hq => ?_, ?_⟩, fun q v hq => ?_⟩
      · exact hall q v (hrooted.find_of_below hq)
      · apply hall p w
        rw [hcons, if_pos rfl]
      · exact hall q v (hrooted.find_of_beside hq)

/-- Where the search goes in a pruned forest. -/
theorem Rooted.find_prune_cons {base p : List E} {w : α} {below beside : Forest E α}
    (h : (cons p w below beside).Rooted base) (keep : List E → α → Bool) (q : List E) :
    (Forest.prune keep (cons p w below beside)).find q =
      if q = p then
        if ((Forest.prune keep below).isNil && !keep p w) = true then none else some w
      else if p <+: q then (Forest.prune keep below).find q
      else (Forest.prune keep beside).find q := by
  have hpruned := h.prune keep
  obtain ⟨hp, _, hbeside, hnew⟩ := h
  rw [Forest.prune] at hpruned ⊢
  by_cases hd : ((Forest.prune keep below).isNil && !keep p w) = true
  · have hnil : Forest.prune keep below = nil := by
      rw [Bool.and_eq_true] at hd
      exact eq_nil_of_isNil hd.1
    -- The node is gone, and with it the whole of `p`'s part of the forest.
    have hnone : p <+: q → (Forest.prune keep beside).find q = none := by
      intro hpq
      cases hf : (Forest.prune keep beside).find q with
      | none => rfl
      | some x =>
        obtain ⟨k, hk, hkq⟩ := (hbeside.prune keep).find_under hf
        have hkb := tops_prune_subset keep beside k hk
        have hkp := child_eq_of_begins (hbeside.tops_child hkb) hp hkq hpq
        exact absurd (hkp ▸ hkb) hnew
    rw [if_pos hd, if_pos hd]
    by_cases hqp : q = p
    · rw [if_pos hqp, hnone (by rw [hqp])]
    · rw [if_neg hqp]
      by_cases hpq : p <+: q
      · rw [if_pos hpq, hnone hpq, hnil, find]
      · rw [if_neg hpq]
  · rw [if_neg hd] at hpruned ⊢
    rw [if_neg hd, hpruned.find_cons q]

/-- A node is left by its pruned children or by its own right when it is kept, or
something below it is. -/
theorem Rooted.kept_below_iff {base p : List E} {w : α} {below beside : Forest E α}
    (h : (cons p w below beside).Rooted base) (keep : List E → α → Bool) :
    (∃ r x, p <+: r ∧ (cons p w below beside).find r = some x ∧ keep r x = true) ↔
      ¬ ((Forest.prune keep below).isNil && !keep p w) = true := by
  have hfind := h.find_cons
  rw [Bool.and_eq_true, Bool.not_eq_true', h.2.1.prune_isNil_iff keep]
  constructor
  · intro hr hnone
    obtain ⟨r, x, hpr, hx, hkeep⟩ := hr
    rw [hfind r] at hx
    by_cases hrp : r = p
    · rw [if_pos hrp, Option.some.injEq] at hx
      rw [hrp, ← hx, hnone.2] at hkeep
      exact absurd hkeep (by simp)
    · rw [if_neg hrp, if_pos hpr] at hx
      rw [hnone.1 r x hx] at hkeep
      exact absurd hkeep (by simp)
  · intro hnone
    by_cases hkp : keep p w = true
    · exact ⟨p, w, List.prefix_rfl, by rw [hfind, if_pos rfl], hkp⟩
    · by_contra hr
      apply hnone
      refine ⟨fun r x hx => ?_, by simpa using hkp⟩
      by_contra hkeep
      have hstrict := h.2.1.find_strict hx
      exact hr ⟨r, x, hstrict.1, h.find_of_below hx, by simpa using hkeep⟩

/-- A node survives pruning exactly when it, or some node below it, is kept. -/
theorem Rooted.find_prune_iff {base : List E} {f : Forest E α} (h : f.Rooted base)
    (keep : List E → α → Bool) (q : List E) (v : α) :
    (Forest.prune keep f).find q = some v ↔
      f.find q = some v ∧ ∃ r w, q <+: r ∧ f.find r = some w ∧ keep r w = true := by
  induction f generalizing base with
  | nil => simp [Forest.prune, find]
  | cons p w below beside ihBelow ihBeside =>
    have hrooted := h
    have hfind := h.find_cons
    rw [h.find_prune_cons keep q, hfind q]
    obtain ⟨hp, hbelow, hbeside, hnew⟩ := h
    by_cases hqp : q = p
    · subst hqp
      rw [if_pos rfl, if_pos rfl, hrooted.kept_below_iff keep]
      by_cases hd : ((Forest.prune keep below).isNil && !keep q w) = true
      · simp [hd]
      · rw [if_neg hd]
        exact ⟨fun h => ⟨h, hd⟩, fun h => h.1⟩
    · rw [if_neg hqp, if_neg hqp]
      by_cases hpq : p <+: q
      -- under `p` the forest is what is below `p`
      · rw [if_pos hpq, if_pos hpq, ihBelow hbelow]
        have hsame : ∀ r, q <+: r → (cons p w below beside).find r = below.find r := by
          intro r hqr
          have hrp : r ≠ p := by
            intro hrp
            exact hqp ((hqr.trans (hrp ▸ List.prefix_rfl)).eq_of_length_le hpq.length_le)
          rw [hfind r, if_neg hrp, if_pos (hpq.trans hqr)]
        constructor
        · intro hq
          obtain ⟨hv, r, x, hqr, hx, hkeep⟩ := hq
          exact ⟨hv, r, x, hqr, by rw [hsame r hqr, hx], hkeep⟩
        · intro hq
          obtain ⟨hv, r, x, hqr, hx, hkeep⟩ := hq
          exact ⟨hv, r, x, hqr, by rw [← hsame r hqr, hx], hkeep⟩
      · rw [if_neg hpq, if_neg hpq, ihBeside hbeside]
        constructor
        · intro hq
          obtain ⟨hv, r, x, hqr, hx, hkeep⟩ := hq
          exact ⟨hv, r, x, hqr, hrooted.find_of_beside hx, hkeep⟩
        · intro hq
          obtain ⟨hv, r, x, hqr, hx, hkeep⟩ := hq
          have hpr := hrooted.not_under_of_beside hv hqr
          have hrp : r ≠ p := fun hrp => hpr (hrp ▸ List.prefix_rfl)
          rw [hfind r, if_neg hrp, if_neg hpr] at hx
          exact ⟨hv, r, x, hqr, hx, hkeep⟩

end Forest
