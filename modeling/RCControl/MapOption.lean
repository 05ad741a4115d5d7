import Mathlib.Data.List.Basic
import Mathlib.Data.Option.Basic
import Mathlib.Tactic.Common

/-! Maps over a list whose function may fail, and the lists they succeed with. -/
namespace MapOption
variable {α β γ : Type}

theorem mapM_eq_some_iff {f : α → Option β} {l : List α} {r : List β} :
    l.mapM f = some r ↔ l.map f = r.map some := by
  induction l generalizing r with
  | nil => cases r <;> simp
  | cons a l ih =>
    rw [List.mapM_cons, List.map_cons]
    cases ha : f a with
    | none => cases r <;> simp
    | some b =>
      cases hl : l.mapM f with
      | none =>
        have hnot : ∀ r : List β, l.map f ≠ r.map some := by
          intro r hr
          rw [← ih, hl] at hr
          cases hr
        cases r <;> simp [hnot]
      | some bs =>
        have hbs := ih.mp hl
        have hinj : Function.Injective (List.map (some : β → Option β)) :=
          List.map_injective_iff.mpr (Option.some_injective β)
        cases r with
        | nil => simp
        | cons c cs => simp [hbs, hinj.eq_iff]

/-- What each result keeps of its argument is kept along the list. -/
theorem map_of_mapped {f : α → Option β} {g : α → γ} {h : β → γ} {l : List α}
    {r : List β} (hl : l.map f = r.map some) (hfg : ∀ a b, f a = some b → g a = h b) :
    l.map g = r.map h := by
  induction l generalizing r with
  | nil =>
    cases r with
    | nil => rfl
    | cons b r => cases hl
  | cons a l ih =>
    cases r with
    | nil => cases hl
    | cons b r =>
      rw [List.map_cons, List.map_cons, List.cons.injEq] at hl
      rw [List.map_cons, List.map_cons, hfg a b hl.1, ih hl.2]

theorem mapM_of_forall {f : α → Option β} {g : α → β} {l : List α} (h : ∀ a ∈ l, f a = some (g a)) :
    l.mapM f = some (l.map g) := by
  rw [mapM_eq_some_iff, List.map_map]
  exact List.map_congr_left h

theorem filterMap_of_mapped {f : α → Option β} {l : List α} {r : List β} (h : l.mapM f = some r) :
    l.filterMap f = r := by
  have hid : (l.map f).filterMap id = (r.map some).filterMap id := by
    rw [mapM_eq_some_iff.mp h]
  simpa [List.filterMap_map] using hid

theorem mapM_of_isSome {f : α → Option β} {l : List α} (h : ∀ a ∈ l, (f a).isSome = true) :
    l.mapM f = some (l.filterMap f) := by
  induction l with
  | nil => rfl
  | cons a l ih =>
    obtain ⟨b, hb⟩ := Option.isSome_iff_exists.mp (h a List.mem_cons_self)
    rw [List.mapM_cons, hb, ih (fun a' ha' => h a' (List.mem_cons_of_mem a ha')),
      List.filterMap_cons_some hb]
    rfl

theorem exists_of_mem_mapped {f : α → Option β} {l : List α} {r : List β} (h : l.mapM f = some r)
    {b : β} (hb : b ∈ r) : ∃ a ∈ l, f a = some b := by
  have hmem : some b ∈ l.map f := by
    rw [mapM_eq_some_iff.mp h]
    exact List.mem_map_of_mem hb
  exact List.mem_map.mp hmem

/-- The map succeeds only if it does at every element. -/
theorem exists_of_mapped {f : α → Option β} {l : List α} {r : List β} (h : l.mapM f = some r)
    {a : α} (ha : a ∈ l) : ∃ b, f a = some b := by
  have hmem : f a ∈ r.map some := by
    rw [← mapM_eq_some_iff.mp h]
    exact List.mem_map_of_mem ha
  obtain ⟨b, -, hb⟩ := List.mem_map.mp hmem
  exact ⟨b, hb.symm⟩

end MapOption
