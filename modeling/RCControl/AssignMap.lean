import Mathlib.Data.List.Induction
import Mathlib.Order.Lattice
import Mathlib.Tactic.Common

/-! Ordered maps that are filled by assignments: their entries in the order of the keys,
where each key has the value assigned to it last. -/
namespace AssignMap
variable {K V W : Type*} [LinearOrder K]

/-- `m[key] = value`. -/
def assign (m : List (K × V)) (key : K) (value : V) : List (K × V) :=
  match m with
  | [] => [(key, value)]
  | e :: es =>
    if key < e.1 then (key, value) :: e :: es
    else if e.1 < key then e :: assign es key value
    else (key, value) :: es

/-- The map after the assignments, in turn. -/
def ofEntries (entries : List (K × V)) : List (K × V) :=
  entries.foldl (fun m e => assign m e.1 e.2) []

def Sorted (m : List (K × V)) : Prop := m.Pairwise (fun e e' => e.1 < e'.1)

/-- The value a key is given last. -/
def last (entries : List (K × V)) (key : K) : Option V :=
  (entries.filterMap (fun e => if e.1 = key then some e.2 else none)).getLast?

theorem ofEntries_snoc (entries : List (K × V)) (e : K × V) :
    ofEntries (entries ++ [e]) = assign (ofEntries entries) e.1 e.2 := by
  rw [ofEntries, List.foldl_append]
  rfl

theorem last_snoc (entries : List (K × V)) (e : K × V) (key : K) :
    last (entries ++ [e]) key = if e.1 = key then some e.2 else last entries key := by
  rw [last, List.filterMap_append, last]
  by_cases h : e.1 = key
  · simp [h]
  · simp [h]

theorem mem_assign_iff {m : List (K × V)} (hm : Sorted m) (key : K) (value : V) (x : K × V) :
    x ∈ assign m key value ↔ x = (key, value) ∨ x ∈ m ∧ x.1 ≠ key := by
  induction m with
  | nil => simp [assign]
  | cons e es ih =>
    obtain ⟨hhead, htail⟩ := List.pairwise_cons.mp hm
    rw [assign]
    by_cases hlt : key < e.1
    -- every entry is behind the new one
    · have hne : ∀ y ∈ e :: es, y.1 ≠ key := by
        intro y hy
        rcases List.mem_cons.mp hy with rfl | hy
        · exact hlt.ne'
        · exact (hlt.trans (hhead y hy)).ne'
      rw [if_pos hlt, List.mem_cons]
      exact or_congr_right ⟨fun h => ⟨h, hne x h⟩, And.left⟩
    · rw [if_neg hlt]
      by_cases hgt : e.1 < key
      · rw [if_pos hgt, List.mem_cons, ih htail, List.mem_cons]
        constructor
        · rintro (rfl | h | ⟨h, hne⟩)
          · exact Or.inr ⟨Or.inl rfl, hgt.ne⟩
          · exact Or.inl h
          · exact Or.inr ⟨Or.inr h, hne⟩
        · rintro (h | ⟨h | h, hne⟩)
          · exact Or.inr (Or.inl h)
          · exact Or.inl h
          · exact Or.inr (Or.inr ⟨h, hne⟩)
      · have heq : e.1 = key := le_antisymm (not_lt.mp hlt) (not_lt.mp hgt)
        rw [if_neg hgt, List.mem_cons, List.mem_cons]
        constructor
        · rintro (h | h)
          · exact Or.inl h
          · exact Or.inr ⟨Or.inr h, heq ▸ (hhead x h).ne'⟩
        · rintro (h | ⟨rfl | h, hne⟩)
          · exact Or.inl h
          · exact absurd heq hne
          · exact Or.inr h

theorem Sorted.assign {m : List (K × V)} (hm : Sorted m) (key : K) (value : V) :
    Sorted (assign m key value) := by
  induction m with
  | nil => exact List.pairwise_singleton _ _
  | cons e es ih =>
    obtain ⟨hhead, htail⟩ := List.pairwise_cons.mp hm
    rw [AssignMap.assign]
    by_cases hlt : key < e.1
    · rw [if_pos hlt]
      refine List.pairwise_cons.mpr ⟨fun y hy => ?_, hm⟩
      rcases List.mem_cons.mp hy with rfl | hy
      · exact hlt
      · exact hlt.trans (hhead y hy)
    · rw [if_neg hlt]
      by_cases hgt : e.1 < key
      · rw [if_pos hgt]
        refine List.pairwise_cons.mpr ⟨fun y hy => ?_, ih htail⟩
        rcases (mem_assign_iff htail key value y).mp hy with rfl | ⟨hy, -⟩
        · exact hgt
        · exact hhead y hy
      · have heq : e.1 = key := le_antisymm (not_lt.mp hlt) (not_lt.mp hgt)
        rw [if_neg hgt]
        exact List.pairwise_cons.mpr ⟨fun y hy => heq ▸ hhead y hy, htail⟩

theorem sorted_ofEntries (entries : List (K × V)) : Sorted (ofEntries entries) := by
  induction entries using List.reverseRecOn with
  | nil => exact List.Pairwise.nil
  | append_singleton es e ih =>
    rw [ofEntries_snoc]
    exact ih.assign e.1 e.2

/-- The map has exactly the last values. -/
theorem mem_ofEntries_iff (entries : List (K × V)) (x : K × V) :
    x ∈ ofEntries entries ↔ last entries x.1 = some x.2 := by
  induction entries using List.reverseRecOn with
  | nil => simp [ofEntries, last]
  | append_singleton es e ih =>
    rw [ofEntries_snoc, mem_assign_iff (sorted_ofEntries es), ih, last_snoc]
    by_cases h : e.1 = x.1
    · rw [if_pos h, Option.some.injEq, h]
      constructor
      · rintro (heq | ⟨-, hne⟩)
        · rw [heq]
        · exact absurd rfl hne
      · intro hv
        exact Or.inl (Prod.ext rfl hv.symm)
    · rw [if_neg h]
      constructor
      · rintro (heq | ⟨hx, -⟩)
        · exact absurd (congrArg Prod.fst heq).symm h
        · exact hx
      · intro hx
        exact Or.inr ⟨hx, Ne.symm h⟩

theorem mem_of_mem_ofEntries {entries : List (K × V)} {x : K × V} (hx : x ∈ ofEntries entries) :
    x ∈ entries := by
  rw [mem_ofEntries_iff, last] at hx
  obtain ⟨e, he, heq⟩ := List.mem_filterMap.mp (List.mem_of_getLast? hx)
  by_cases h : e.1 = x.1
  · rw [if_pos h, Option.some.injEq] at heq
    rwa [← Prod.ext h heq]
  · rw [if_neg h] at heq
    cases heq

theorem map_assign (f : V → W) (m : List (K × V)) (key : K) (value : V) :
    (assign m key value).map (fun e => (e.1, f e.2)) =
      assign (m.map (fun e => (e.1, f e.2))) key (f value) := by
  induction m with
  | nil => rfl
  | cons e es ih =>
    rw [assign, List.map_cons, assign]
    by_cases hlt : key < e.1
    · rw [if_pos hlt, if_pos hlt]
      rfl
    · rw [if_neg hlt, if_neg hlt]
      by_cases hgt : e.1 < key
      · rw [if_pos hgt, if_pos hgt, List.map_cons, ih]
      · rw [if_neg hgt, if_neg hgt]
        rfl

/-- What becomes of the values does not depend on the keys. -/
theorem map_ofEntries (f : V → W) (entries : List (K × V)) :
    (ofEntries entries).map (fun e => (e.1, f e.2)) =
      ofEntries (entries.map (fun e => (e.1, f e.2))) := by
  induction entries using List.reverseRecOn with
  | nil => rfl
  | append_singleton es e ih =>
    rw [List.map_append, List.map_singleton, ofEntries_snoc, ofEntries_snoc, map_assign, ih]

theorem last_map (f : V → W) (entries : List (K × V)) (key : K) :
    last (entries.map (fun e => (e.1, f e.2))) key = (last entries key).map f := by
  rw [last, last, List.filterMap_map, ← List.getLast?_map, List.map_filterMap]
  congr 2
  funext e
  by_cases h : e.1 = key <;> simp [h]

theorem assign_of_behind {m : List (K × V)} {key : K} (h : ∀ e ∈ m, e.1 < key) (value : V) :
    assign m key value = m ++ [(key, value)] := by
  induction m with
  | nil => rfl
  | cons e es ih =>
    have hlt := h e List.mem_cons_self
    rw [assign, if_neg hlt.not_gt, if_pos hlt, ih fun y hy => h y (List.mem_cons_of_mem e hy),
      List.cons_append]

/-- Assigning the entries of a map gives the map again. -/
theorem Sorted.ofEntries_eq {m : List (K × V)} (hm : Sorted m) : ofEntries m = m := by
  induction m using List.reverseRecOn with
  | nil => rfl
  | append_singleton es e ih =>
    obtain ⟨hes, -, hlast⟩ := List.pairwise_append.mp hm
    rw [ofEntries_snoc, ih hes]
    exact assign_of_behind (fun y hy => hlast y hy e (List.mem_singleton_self e)) e.2

end AssignMap
