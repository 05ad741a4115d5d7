import RCControl.PathForest

/-! Forests whose siblings are in order, as the entries of a map from paths are, and the
part of a forest that is below one of its nodes. The order is a parameter. -/
namespace Forest
variable {E α : Type}

/-- The siblings stand in the order `before`, everywhere in the forest. -/
def Ordered (before : List E → List E → Bool) : Forest E α → Prop
  | nil => True
  | cons p _ below beside =>
    (∀ k ∈ beside.tops, before p k = true) ∧ below.Ordered before ∧ beside.Ordered before

/-- What `insert` relies on. -/
structure StrictlyTotal (before : List E → List E → Bool) : Prop where
  trans : ∀ p q r, before p q = true → before q r = true → before p r = true
  total : ∀ p q, p ≠ q → before p q = true ∨ before q p = true

variable {before : List E → List E → Bool}

theorem ordered_nil : (nil : Forest E α).Ordered before := trivial

theorem Ordered.tops_pairwise {f : Forest E α} (h : f.Ordered before) :
    f.tops.Pairwise (fun p q => before p q = true) := by
  induction f with
  | nil => exact List.Pairwise.nil
  | cons p v below beside _ ih => exact List.Pairwise.cons h.1 (ih h.2.2)

theorem Ordered.insert (hbefore : StrictlyTotal before) {p : List E} {v : α}
    {children f : Forest E α} (h : f.Ordered before) (hchildren : children.Ordered before)
    (hnew : p ∉ f.tops) : (Forest.insert before p v children f).Ordered before := by
  induction f with
  | nil => exact ⟨fun k hk => absurd hk List.not_mem_nil, hchildren, trivial⟩
  | cons k w below beside _ ih =>
    rw [tops, List.mem_cons, not_or] at hnew
    rw [Forest.insert]
    by_cases hpk : before p k = true
    · rw [if_pos hpk]
      refine ⟨?_, hchildren, h⟩
      intro j hj
      rcases List.mem_cons.mp hj with rfl | hj
      · exact hpk
      · exact hbefore.trans p k j hpk (h.1 j hj)
    · have hkp : before k p = true := (hbefore.total p k hnew.1).resolve_left hpk
      rw [if_neg hpk]
      refine ⟨?_, h.2.1, ih h.2.2 hnew.2⟩
      intro j hj
      rcases (tops_insert before p v children beside j).mp hj with rfl | hj
      · exact hkp
      · exact h.1 j hj

theorem Ordered.prune {f : Forest E α} (h : f.Ordered before) (keep : List E → α → Bool) :
    (Forest.prune keep f).Ordered before := by
  induction f with
  | nil => trivial
  | cons p v below beside ihBelow ihBeside =>
    rw [Forest.prune]
    by_cases hd : ((Forest.prune keep below).isNil && !keep p v) = true
    · rw [if_pos hd]
      exact ihBeside h.2.2
    · rw [if_neg hd]
      refine ⟨?_, ihBelow h.2.1, ihBeside h.2.2⟩
      intro k hk
      exact h.1 k (tops_prune_subset keep beside k hk)

/-- The outermost nodes, with what is below them. -/
def outermost : Forest E α → List (List E × α × Forest E α)
  | nil => []
  | cons p v below beside => (p, v, below) :: beside.outermost

theorem map_fst_outermost (f : Forest E α) : f.outermost.map Prod.fst = f.tops := by
  induction f with
  | nil => rfl
  | cons p v below beside _ ih => rw [outermost, tops, List.map_cons, ih]

variable [DecidableEq E]

theorem Ordered.alter {p : List E} {g : α → Forest E α → Option (α × Forest E α)}
    {f : Forest E α} (h : f.Ordered before)
    (hg : ∀ v below r, below.Ordered before → g v below = some r → r.2.Ordered before) :
    (Forest.alter p g f).Ordered before := by
  induction f with
  | nil => trivial
  | cons k v below beside _ ih =>
    rw [Forest.alter]
    by_cases hk : k = p
    · rw [if_pos hk]
      cases hr : g v below with
      | none => exact h.2.2
      | some r => exact ⟨h.1, hg v below r h.2.1 hr, h.2.2⟩
    · rw [if_neg hk]
      refine ⟨?_, h.2.1, ih h.2.2⟩
      intro j hj
      exact h.1 j (tops_alter_subset p g beside j hj)

/-- The node at a path, wherever in the forest it is: its value and what is below it. -/
def nodeAt : Forest E α → List E → Option (α × Forest E α)
  | nil, _ => none
  | cons p v below beside, q => if q = p then some (v, below) else (below.nodeAt q).or (beside.nodeAt q)

theorem find_eq_nodeAt (f : Forest E α) (q : List E) : f.find q = (f.nodeAt q).map Prod.fst := by
  induction f with
  | nil => rfl
  | cons p v below beside ihBelow ihBeside =>
    rw [find, nodeAt]
    by_cases hq : q = p
    · rw [if_pos hq, if_pos hq]
      rfl
    · rw [if_neg hq, if_neg hq, ihBelow, ihBeside]
      cases below.nodeAt q <;> rfl

theorem Ordered.nodeAt {f : Forest E α} (h : f.Ordered before) {q : List E} {n : α × Forest E α}
    (hn : f.nodeAt q = some n) : n.2.Ordered before := by
  induction f with
  | nil => cases hn
  | cons p v below beside ihBelow ihBeside =>
    rw [Forest.nodeAt] at hn
    by_cases hq : q = p
    · rw [if_pos hq] at hn
      rw [← Option.some.inj hn]
      exact h.2.1
    · rw [if_neg hq] at hn
      rcases Option.or_eq_some_iff.mp hn with hn | ⟨-, hn⟩
      · exact ihBelow h.2.1 hn
      · exact ihBeside h.2.2 hn

theorem Rooted.nodeAt {base : List E} {f : Forest E α} (h : f.Rooted base) {q : List E}
    {n : α × Forest E α} (hn : f.nodeAt q = some n) : n.2.Rooted q := by
  induction f generalizing base with
  | nil => cases hn
  | cons p v below beside ihBelow ihBeside =>
    rw [Forest.nodeAt] at hn
    by_cases hq : q = p
    · rw [if_pos hq] at hn
      rw [← Option.some.inj hn, hq]
      exact h.2.1
    · rw [if_neg hq] at hn
      rcases Option.or_eq_some_iff.mp hn with hn | ⟨-, hn⟩
      · exact ihBelow h.2.1 hn
      · exact ihBeside h.2.2.1 hn

theorem nodeAt_eq_none {f : Forest E α} {q : List E} (h : f.find q = none) : f.nodeAt q = none := by
  rw [find_eq_nodeAt, Option.map_eq_none_iff] at h
  exact h

theorem Rooted.nodeAt_cons {base p : List E} {v : α} {below beside : Forest E α}
    (h : (cons p v below beside).Rooted base) (q : List E) :
    (cons p v below beside).nodeAt q =
      if q = p then some (v, below) else if p <+: q then below.nodeAt q else beside.nodeAt q := by
  rw [Forest.nodeAt]
  by_cases hq : q = p
  · rw [if_pos hq, if_pos hq]
  · rw [if_neg hq, if_neg hq]
    by_cases hpq : p <+: q
    · have hnone : beside.find q = none := by
        by_contra hsome
        obtain ⟨w, hw⟩ := Option.ne_none_iff_exists'.mp hsome
        exact h.not_under_of_beside hw List.prefix_rfl hpq
      rw [if_pos hpq, nodeAt_eq_none hnone, Option.or_none]
    · have hnone : below.find q = none := by
        by_contra hsome
        obtain ⟨w, hw⟩ := Option.ne_none_iff_exists'.mp hsome
        exact hpq (h.2.1.find_strict hw).1
      rw [if_neg hpq, nodeAt_eq_none hnone, Option.none_or]

/-- Below a node the whole forest is what is below that node. -/
theorem Rooted.nodeAt_below {base : List E} {f : Forest E α} (h : f.Rooted base) {q r : List E}
    {n : α × Forest E α} (hn : f.nodeAt q = some n) (hqr : q <+: r) (hne : r ≠ q) :
    f.nodeAt r = n.2.nodeAt r := by
  induction f generalizing base with
  | nil => cases hn
  | cons p v below beside ihBelow ihBeside =>
    have hrooted := h
    rw [h.nodeAt_cons q] at hn
    rw [h.nodeAt_cons r]
    obtain ⟨hp, hbelow, hbeside, -⟩ := h
    by_cases hq : q = p
    · rw [if_pos hq] at hn
      rw [← Option.some.inj hn, ← hq, if_neg hne, if_pos hqr]
    · rw [if_neg hq] at hn
      by_cases hpq : p <+: q
      · have hrp : r ≠ p := by
          intro hrp
          have hback : q <+: p := hrp ▸ hqr
          exact hq (hback.eq_of_length (Nat.le_antisymm hback.length_le hpq.length_le))
        rw [if_pos hpq] at hn
        rw [if_neg hrp, if_pos (hpq.trans hqr)]
        exact ihBelow hbelow hn
      · rw [if_neg hpq] at hn
        have hfind : beside.find q = some n.1 := by
          rw [find_eq_nodeAt, hn]
          rfl
        -- `r` is below another outermost node than `p`
        have hpr : ¬ p <+: r := hrooted.not_under_of_beside hfind hqr
        have hrp : r ≠ p := by
          intro hrp
          exact hpr (hrp ▸ List.prefix_rfl)
        rw [if_neg hrp, if_neg hpr]
        exact ihBeside hbeside hn

theorem Rooted.nodeAt_top {base : List E} {f : Forest E α} (h : f.Rooted base)
    {c : List E × α × Forest E α} (hc : c ∈ f.outermost) : f.nodeAt c.1 = some c.2 := by
  induction f with
  | nil => exact absurd hc List.not_mem_nil
  | cons p v below beside _ ih =>
    rw [h.nodeAt_cons]
    obtain ⟨hp, -, hbeside, hnew⟩ := h
    rcases List.mem_cons.mp hc with rfl | hc
    · exact if_pos rfl
    · have hmem : c.1 ∈ beside.tops := by
        rw [← map_fst_outermost]
        exact List.mem_map_of_mem hc
      have hcp : c.1 ≠ p := by
        intro hcp
        exact hnew (hcp ▸ hmem)
      have hpc : ¬ p <+: c.1 := by
        intro hpc
        exact hcp (child_eq_of_begins (hbeside.tops_child hmem) hp List.prefix_rfl hpc)
      rw [if_neg hcp, if_neg hpc]
      exact ih hbeside hc

/-- The nodes right below a node are the ones found one element below its path. -/
theorem Rooted.mem_children_iff {base : List E} {f : Forest E α} (h : f.Rooted base) {q : List E}
    {n : α × Forest E α} (hn : f.nodeAt q = some n) (k : List E) :
    k ∈ n.2.tops ↔ (f.find k).isSome = true ∧ ∃ e, k = q ++ [e] := by
  have hrooted := h.nodeAt hn
  have hfind : ∀ e, f.find (q ++ [e]) = n.2.find (q ++ [e]) := by
    intro e
    rw [find_eq_nodeAt, find_eq_nodeAt, h.nodeAt_below hn (List.prefix_append q [e]) (by simp)]
  constructor
  · intro hk
    obtain ⟨e, rfl⟩ := hrooted.tops_child hk
    rw [hfind e]
    exact ⟨(hrooted.mem_tops_iff _ ⟨e, rfl⟩).mp hk, e, rfl⟩
  · rintro ⟨hsome, e, rfl⟩
    rw [hfind e] at hsome
    exact (hrooted.mem_tops_iff _ ⟨e, rfl⟩).mpr hsome

/-- A node right below a node is a node of the forest. -/
theorem Rooted.nodeAt_child {base : List E} {f : Forest E α} (h : f.Rooted base) {q : List E}
    {n : α × Forest E α} (hn : f.nodeAt q = some n) {c : List E × α × Forest E α}
    (hc : c ∈ n.2.outermost) : f.nodeAt c.1 = some c.2 := by
  have hrooted := h.nodeAt hn
  have hmem : c.1 ∈ n.2.tops := by
    rw [← map_fst_outermost]
    exact List.mem_map_of_mem hc
  obtain ⟨e, he⟩ := hrooted.tops_child hmem
  have hbegins : q <+: c.1 := ⟨[e], he.symm⟩
  have hne : c.1 ≠ q := by simp [he]
  rw [h.nodeAt_below hn hbegins hne]
  exact hrooted.nodeAt_top hc

/-- What is found has a node at every path above it. -/
theorem Rooted.find_above {base : List E} {f : Forest E α} (h : f.Rooted base) {q r : List E}
    (hr : (f.find r).isSome = true) (hqr : q <+: r) (hbase : base <+: q) (hne : q ≠ base) :
    (f.find q).isSome = true := by
  induction f generalizing base with
  | nil => exact hr
  | cons p v below beside ihBelow ihBeside =>
    have hconsq := h.find_cons q
    have hconsr := h.find_cons r
    obtain ⟨hp, hbelow, hbeside, hnew⟩ := h
    rw [hconsq]
    rw [hconsr] at hr
    by_cases hqp : q = p
    · rw [if_pos hqp]
      rfl
    · rw [if_neg hqp]
      by_cases hpq : p <+: q
      · have hrp : r ≠ p := by
          intro hrp
          have hback : q <+: p := hrp ▸ hqr
          exact hqp (hback.eq_of_length (Nat.le_antisymm hback.length_le hpq.length_le))
        rw [if_neg hrp, if_pos (hpq.trans hqr)] at hr
        rw [if_pos hpq]
        exact ihBelow hbelow hr hpq hqp
      · -- `q` is no shorter than `p`, so `p` does not begin `r` either
        have hpr : ¬ p <+: r := by
          intro hpr
          apply hpq
          apply List.prefix_of_prefix_length_le hpr hqr
          obtain ⟨e, he⟩ := hp
          have hlt : base.length < q.length := by
            by_contra hle
            exact hne (hbase.eq_of_length (by have := hbase.length_le; omega)).symm
          rw [he, List.length_append, List.length_singleton]
          omega
        have hrp : r ≠ p := by
          intro hrp
          exact hpr (hrp ▸ List.prefix_rfl)
        rw [if_neg hrp, if_neg hpr] at hr
        rw [if_neg hpq]
        exact ihBeside hbeside hr hbase hne

end Forest
