import Mathlib.Data.Int.Notation
import Mathlib.Data.List.Basic
import Mathlib.Tactic.Common

/-! A store that keeps the first `cap` items it is offered and turns the later
ones away, and a scan that overwrites its choice at every match. -/

/-- The kept items, in order of arrival, never more than the capacity. -/
structure BoundedStore (α : Type*) (cap : ℕ) where
  items : List α
  length_le : items.length ≤ cap

namespace BoundedStore
variable {α : Type*} {cap : ℕ}

@[ext] theorem ext {b c : BoundedStore α cap} (h : b.items = c.items) : b = c := by
  cases b
  cases c
  cases h
  rfl

def empty (α : Type*) (cap : ℕ) : BoundedStore α cap := ⟨[], Nat.zero_le _⟩

/-- Offer one item; the second component is what was turned away. -/
def offer (b : BoundedStore α cap) (a : α) : BoundedStore α cap × List α :=
  if h : b.items.length < cap then
    (⟨b.items ++ [a], by simp only [List.length_append, List.length_singleton]; omega⟩, [])
  else (b, [a])

/-- Offer a sequence of items, collecting the ones turned away. -/
def offerAll (b : BoundedStore α cap) : List α → BoundedStore α cap × List α
  | [] => (b, [])
  | a :: as =>
    let next := b.offer a
    let rest := next.1.offerAll as
    (rest.1, next.2 ++ rest.2)

theorem offer_append (b : BoundedStore α cap) (a : α) :
    (b.offer a).1.items ++ (b.offer a).2 = b.items ++ [a] := by
  unfold offer
  split <;> simp

theorem offer_of_full (b : BoundedStore α cap) (a : α) (h : b.items.length = cap) :
    b.offer a = (b, [a]) := by
  unfold offer
  rw [dif_neg (by omega)]

theorem offerAll_of_full (b : BoundedStore α cap) (as : List α) (h : b.items.length = cap) :
    b.offerAll as = (b, as) := by
  induction as with
  | nil => rfl
  | cons a as ih => simp only [offerAll, offer_of_full b a h, ih, List.singleton_append]

/-- What is kept and what is turned away, in order, is what was offered. -/
theorem offerAll_append (b : BoundedStore α cap) (as : List α) :
    (b.offerAll as).1.items ++ (b.offerAll as).2 = b.items ++ as := by
  induction as generalizing b with
  | nil => rfl
  | cons a as ih =>
    by_cases h : b.items.length < cap
    · have hnext : (b.offer a).2 = [] := by simp only [offer, dif_pos h]
      have happ := offer_append b a
      rw [hnext, List.append_nil] at happ
      simp only [offerAll, hnext, List.nil_append]
      rw [ih, happ, List.append_assoc, List.singleton_append]
    · have hfull : b.items.length = cap := by have := b.length_le; omega
      rw [offerAll_of_full b (a :: as) hfull]

/-- The store keeps exactly the first `cap` items. -/
theorem offerAll_items (b : BoundedStore α cap) (as : List α) :
    (b.offerAll as).1.items = (b.items ++ as).take cap := by
  induction as generalizing b with
  | nil => simp [offerAll, List.take_of_length_le b.length_le]
  | cons a as ih =>
    by_cases h : b.items.length < cap
    · have hitems : (b.offer a).1.items = b.items ++ [a] := by simp only [offer, dif_pos h]
      simp only [offerAll]
      rw [ih, hitems, List.append_assoc, List.singleton_append]
    · have hfull : b.items.length = cap := by have := b.length_le; omega
      rw [offerAll_of_full b (a :: as) hfull]
      exact (List.take_left' hfull).symm

theorem offerAll_turnedAway (b : BoundedStore α cap) (as : List α) :
    (b.offerAll as).2 = (b.items ++ as).drop cap := by
  have happ := offerAll_append b as
  rw [offerAll_items] at happ
  exact List.append_cancel_left (happ.trans (List.take_append_drop cap _).symm)

end BoundedStore

/-- `s` is the index a scan of the list ends with when it starts from -1 and
overwrites its choice at every item with `p`. -/
inductive LastMatch {α : Type*} (p : α → Prop) : List α → ℤ → Prop
  | nil : LastMatch p [] (-1)
  | hit {l : List α} {a : α} {s : ℤ} : LastMatch p l s → p a → LastMatch p (l ++ [a]) l.length
  | miss {l : List α} {a : α} {s : ℤ} : LastMatch p l s → ¬p a → LastMatch p (l ++ [a]) s

namespace LastMatch
variable {α : Type*} {p : α → Prop}

theorem cases_index {l : List α} {s : ℤ} (h : LastMatch p l s) :
    (s = -1 ∧ ∀ a ∈ l, ¬p a) ∨ ∃ (i : ℕ) (a : α), s = i ∧ l[i]? = some a ∧ p a := by
  induction h with
  | nil => exact Or.inl ⟨rfl, by simp⟩
  | @hit l a s _ ha _ => exact Or.inr ⟨l.length, a, rfl, by simp, ha⟩
  | @miss l a s _ ha ih =>
    -- a miss keeps the choice, whose index stays valid in the longer list
    rcases ih with ⟨rfl, hnone⟩ | ⟨i, b, rfl, hi, hb⟩
    · refine Or.inl ⟨rfl, fun c hc => ?_⟩
      rcases List.mem_append.mp hc with hc | hc
      · exact hnone c hc
      · rw [List.mem_singleton.mp hc]
        exact ha
    · have hlt : i < l.length := (List.getElem?_eq_some_iff.mp hi).1
      exact Or.inr ⟨i, b, rfl, by rw [List.getElem?_append_left hlt, hi], hb⟩

end LastMatch
