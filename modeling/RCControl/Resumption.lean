import Mathlib.Tactic.Common
import Mathlib.Data.List.Basic

/-! Sequential code as a tree of operations, with its one-thread meaning, its
single steps, and pre/postcondition rules. Operations and state are parameters. -/
namespace Resumption

/-- A code fragment: it falls through with a value, returns from the enclosing
function, has undefined behaviour, or performs `o` and goes on with its answer. -/
inductive Prog {Op : Type} (Ans : Op → Type) (α : Type) : Type
  | done (a : α)
  | exit
  | fault
  | op (o : Op) (k : Ans o → Prog Ans α)

/-- How a fragment ends. -/
inductive Outcome (α : Type)
  | value (a : α)
  | returned
  | faulted
deriving DecidableEq, Repr

variable {Op : Type} {Ans : Op → Type} {α β σ : Type}

namespace Prog

def bind : Prog Ans α → (α → Prog Ans β) → Prog Ans β
  | .done a, f => f a
  | .exit, _ => .exit
  | .fault, _ => .fault
  | .op o k, f => .op o (fun a => (k a).bind f)

instance : Monad (Prog Ans) where
  pure := .done
  bind := .bind

def call (o : Op) : Prog Ans (Ans o) := .op o .done

/-- Array access: undefined past the end. -/
def index (xs : List α) (i : ℕ) : Prog Ans α :=
  match xs[i]? with
  | some a => .done a
  | none => .fault

/-- `for (i = i; i < bound; i++)`, the bound evaluated again on every pass.
`fuel` only has to exceed the number of passes. -/
def forBelow (bound : Prog Ans ℕ) (body : ℕ → β → Prog Ans β) : ℕ → ℕ → β → Prog Ans β
  | 0, _, _ => .fault
  | fuel + 1, i, b =>
    bound.bind fun n =>
      if i < n then (body i b).bind (forBelow bound body fuel (i + 1)) else .done b

variable (perform : (o : Op) → σ → Option (Ans o) × σ)

/-- The meaning of a fragment that runs undisturbed. An operation without an
answer is undefined behaviour. -/
def run : Prog Ans α → σ → Outcome α × σ
  | .done a, s => (.value a, s)
  | .exit, s => (.returned, s)
  | .fault, s => (.faulted, s)
  | .op o k, s =>
    match perform o s with
    | (some a, t) => (k a).run t
    | (none, t) => (.faulted, t)

/-- The value and the state with which a loop up to `n`, started with `b` in `s`, is at
its head after `i` passes; `none` if it does not come there. -/
def atHead (n : ℕ) (body : ℕ → β → Prog Ans β) (b : β) (s : σ) : ℕ → Option (β × σ)
  | 0 => some (b, s)
  | i + 1 => (atHead n body b s i).bind fun (b, t) =>
      if i < n then
        match (body i b).run perform t with
        | (.value b', u) => some (b', u)
        | _ => none
      else none

/-- One operation of a fragment; `none` when it has ended. -/
def step : Prog Ans α → σ → Option (Prog Ans α × σ)
  | .op o k, s =>
    match perform o s with
    | (some a, t) => some (k a, t)
    | (none, t) => some (.fault, t)
  | _, _ => none

/-- A step of a thread at a program point given by a fragment: the next operation,
or the way on from its end. -/
def advance {Pc : Type} (stay : Prog Ans α → Pc) (finish : Outcome α → Pc)
    (p : Prog Ans α) (s : σ) : Pc × σ :=
  match p with
  | .done a => (finish (.value a), s)
  | .exit => (finish .returned, s)
  | .fault => (finish .faulted, s)
  | .op o k =>
    match perform o s with
    | (some a, t) => (stay (k a), t)
    | (none, t) => (stay .fault, t)

/-- `p` started in `s` ends as described by `Q`. -/
def Wp (p : Prog Ans α) (s : σ) (Q : Outcome α → σ → Prop) : Prop :=
  Q (p.run perform s).1 (p.run perform s).2

/-- What follows a fragment only sees its value; a return or a fault passes by. -/
def after (f : α → Prog Ans β) (Q : Outcome β → σ → Prop) : Outcome α → σ → Prop
  | .value a, t => (f a).Wp perform t Q
  | .returned, t => Q .returned t
  | .faulted, t => Q .faulted t

/-- Every operation the fragment may perform, whatever the answers, is allowed. -/
def Uses (allowed : Op → Prop) : Prog Ans α → Prop
  | .op o k => allowed o ∧ ∀ a, (k a).Uses allowed
  | _ => True

variable {perform}

/-- A single step does not change what an undisturbed run computes. -/
theorem run_step {p q : Prog Ans α} {s t : σ} (h : p.step perform s = some (q, t)) :
    p.run perform s = q.run perform t := by
  cases p with
  | done a => cases h
  | exit => cases h
  | fault => cases h
  | op o k =>
    simp only [step, run] at h ⊢
    split at h
    · next a u hp =>
      obtain ⟨rfl, rfl⟩ : k a = q ∧ u = t := by simpa using h
      rfl
    -- an operation without an answer leaves the faulted fragment
    · next u hp =>
      obtain ⟨rfl, rfl⟩ : .fault = q ∧ u = t := by simpa using h
      rfl

theorem advance_cases {Pc : Type} (stay : Prog Ans α → Pc) (finish : Outcome α → Pc)
    (p : Prog Ans α) (s : σ) :
    (∃ q t, p.step perform s = some (q, t) ∧ p.advance perform stay finish s = (stay q, t)) ∨
    (∃ a, p = .done a ∧ p.advance perform stay finish s = (finish (.value a), s)) ∨
    (p = .exit ∧ p.advance perform stay finish s = (finish .returned, s)) ∨
    (p = .fault ∧ p.advance perform stay finish s = (finish .faulted, s)) := by
  cases p with
  | done a => exact Or.inr (Or.inl ⟨a, rfl, rfl⟩)
  | exit => exact Or.inr (Or.inr (Or.inl ⟨rfl, rfl⟩))
  | fault => exact Or.inr (Or.inr (Or.inr ⟨rfl, rfl⟩))
  | op o k =>
    left
    simp only [step, advance]
    rcases perform o s with ⟨_ | a, t⟩
    · exact ⟨.fault, t, rfl, rfl⟩
    · exact ⟨k a, t, rfl, rfl⟩

/-- What holds of every point of the fragment and of every way on from it holds
after the step. -/
theorem advance_fst {Pc : Type} {stay : Prog Ans α → Pc} {finish : Outcome α → Pc}
    (P : Pc → Prop) (hstay : ∀ q, P (stay q)) (hfinish : ∀ o, P (finish o))
    (p : Prog Ans α) (s : σ) : P (p.advance perform stay finish s).1 := by
  rcases advance_cases stay finish p s with
    ⟨q, t, -, hadv⟩ | ⟨a, -, hadv⟩ | ⟨-, hadv⟩ | ⟨-, hadv⟩ <;> rw [hadv]
  · exact hstay q
  · exact hfinish _
  · exact hfinish _
  · exact hfinish _

/-- The fragment a thread is left with after a step still has the same undisturbed
run before it; a thread leaves a fragment only when that run is over. -/
theorem advance_run {Pc : Type} {stay : Prog Ans α → Pc} {finish : Outcome α → Pc}
    (P : Pc → σ → Prop) (p : Prog Ans α) (s : σ)
    (hstay : ∀ q t, q.run perform t = p.run perform s → P (stay q) t)
    (hfinish : ∀ o, p.run perform s = (o, s) → P (finish o) s) :
    P (p.advance perform stay finish s).1 (p.advance perform stay finish s).2 := by
  rcases advance_cases stay finish p s with
    ⟨q, t, hstep, hadv⟩ | ⟨a, rfl, hadv⟩ | ⟨rfl, hadv⟩ | ⟨rfl, hadv⟩ <;> rw [hadv]
  · exact hstay q t (run_step hstep).symm
  · exact hfinish _ rfl
  · exact hfinish _ rfl
  · exact hfinish _ rfl

variable (perform) in
/-- A thread that is let run reaches the end of its fragment in the state the
undisturbed run ends in. -/
theorem run_reached {Pc : Type} (stay : Prog Ans α → Pc) (finish : Outcome α → Pc)
    (P : Pc → σ → Prop)
    (hstep : ∀ q t, P (stay q) t →
      P (q.advance perform stay finish t).1 (q.advance perform stay finish t).2)
    (p : Prog Ans α) (s : σ) (h : P (stay p) s) :
    P (finish (p.run perform s).1) (p.run perform s).2 := by
  -- along the one branch of the fragment that the answers choose
  induction p generalizing s with
  | done a => exact hstep _ s h
  | exit => exact hstep _ s h
  | fault => exact hstep _ s h
  | op o k ih =>
    have hnext := hstep _ s h
    simp only [advance, run] at hnext ⊢
    generalize perform o s = answer at hnext ⊢
    obtain ⟨_ | a, t⟩ := answer
    · -- undefined behaviour takes one step more to end the fragment
      exact hstep .fault t hnext
    · exact ih a t hnext

theorem run_bind_value {p : Prog Ans α} {f : α → Prog Ans β} {a : α} {s t : σ}
    (h : p.run perform s = (.value a, t)) :
    (p.bind f).run perform s = (f a).run perform t := by
  -- a fragment with a value neither returns nor faults on its branch
  induction p generalizing s with
  | done a' =>
    obtain ⟨rfl, rfl⟩ : a' = a ∧ s = t := by simpa [run] using h
    rfl
  | exit => cases h
  | fault => cases h
  | op o k ih =>
    simp only [run, bind] at h ⊢
    generalize perform o s = answer at h ⊢
    obtain ⟨_ | a', u⟩ := answer
    · cases h
    · exact ih a' h

section Loop
variable {n : ℕ} {body : ℕ → β → Prog Ans β} {b b' b'' : β} {s t u : σ} {i : ℕ}

theorem atHead_succ_iff : atHead perform n body b s (i + 1) = some (b'', u) ↔
    ∃ b' t, atHead perform n body b s i = some (b', t) ∧ i < n ∧
      (body i b').run perform t = (.value b'', u) := by
  rw [atHead, Option.bind_eq_some_iff]
  constructor
  · rintro ⟨⟨b', t⟩, hhead, hpass⟩
    dsimp only at hpass
    -- past the bound there is no further head
    split_ifs at hpass with hi
    refine ⟨b', t, hhead, hi, ?_⟩
    generalize (body i b').run perform t = r at hpass ⊢
    obtain ⟨_ | _ | _, v⟩ := r
    · obtain ⟨rfl, rfl⟩ := Prod.mk.inj (Option.some.inj hpass)
      rfl
    · cases hpass
    · cases hpass
  · intro hpost
    obtain ⟨b', t, hhead, hi, hpass⟩ := hpost
    refine ⟨(b', t), hhead, ?_⟩
    dsimp only
    rw [if_pos hi, hpass]

/-- The loop goes through its heads: from each of them the rest of it has the outcome
of the whole. -/
theorem atHead_run (hhead : atHead perform n body b s i = some (b', t)) {fuel : ℕ}
    (hfuel : n < fuel) : i ≤ n ∧ (forBelow (pure n) body fuel 0 b).run perform s =
      (forBelow (pure n) body (fuel - i) i b').run perform t := by
  induction i generalizing b' t with
  | zero =>
    obtain ⟨rfl, rfl⟩ := Prod.mk.inj (Option.some.inj hhead)
    exact ⟨Nat.zero_le n, rfl⟩
  | succ i ih =>
    obtain ⟨c, r, hbefore, hi, hpass⟩ := atHead_succ_iff.mp hhead
    refine ⟨hi, ?_⟩
    have hrest : fuel - i = fuel - (i + 1) + 1 := by omega
    -- one more pass of the remaining loop, by its equation
    rw [(ih hbefore).2, hrest]
    change (if i < n then (body i c).bind _ else .done c).run perform r = _
    rw [if_pos hi]
    exact run_bind_value hpass

end Loop

section Uses
variable {allowed : Op → Prop}

@[simp] theorem uses_call {o : Op} : (call o : Prog Ans (Ans o)).Uses allowed ↔ allowed o :=
  ⟨And.left, fun h => ⟨h, fun _ => trivial⟩⟩

@[simp] theorem uses_pure {a : α} : (pure a : Prog Ans α).Uses allowed := trivial

theorem Uses.bind {p : Prog Ans α} {f : α → Prog Ans β} (hp : p.Uses allowed)
    (hf : ∀ a, (f a).Uses allowed) : (p >>= f).Uses allowed := by
  change (p.bind f).Uses allowed
  induction p with
  | done a => exact hf a
  | exit => trivial
  | fault => trivial
  | op o k ih => exact ⟨hp.1, fun a => ih a (hp.2 a)⟩

theorem Uses.mono {allowed' : Op → Prop} (h : ∀ o, allowed o → allowed' o) {p : Prog Ans α}
    (hp : p.Uses allowed) : p.Uses allowed' := by
  induction p with
  | op o k ih => exact ⟨h o hp.1, fun a => ih a (hp.2 a)⟩
  | _ => trivial

theorem uses_index {xs : List α} {i : ℕ} : (index xs i : Prog Ans α).Uses allowed := by
  unfold index
  split <;> trivial

theorem Uses.forBelow {bound : Prog Ans ℕ} {body : ℕ → β → Prog Ans β}
    (hbound : bound.Uses allowed) (hbody : ∀ i b, (body i b).Uses allowed) (fuel i : ℕ) (b : β) :
    (forBelow bound body fuel i b).Uses allowed := by
  induction fuel generalizing i b with
  | zero => trivial
  | succ fuel ih =>
    refine Uses.bind hbound fun n => ?_
    split
    · exact (hbody i b).bind fun b' => ih (i + 1) b'
    · trivial

/-- What every allowed operation preserves, the whole fragment preserves. -/
theorem Uses.run_invariant {Inv : σ → Prop}
    (hop : ∀ o s, allowed o → Inv s → Inv (perform o s).2)
    {p : Prog Ans α} (hp : p.Uses allowed) {s : σ} (hs : Inv s) : Inv (p.run perform s).2 := by
  -- operation by operation; one without an answer still leaves a state
  induction p generalizing s with
  | done a => exact hs
  | exit => exact hs
  | fault => exact hs
  | op o k ih =>
    have hnext := hop o s hp.1 hs
    simp only [run]
    split
    · next a t h =>
      rw [h] at hnext
      exact ih a (hp.2 a) hnext
    · next t h =>
      rw [h] at hnext
      exact hnext

theorem Uses.step_invariant {Inv : σ → Prop}
    (hop : ∀ o s, allowed o → Inv s → Inv (perform o s).2)
    {p q : Prog Ans α} (hp : p.Uses allowed) {s t : σ} (hs : Inv s)
    (h : p.step perform s = some (q, t)) : q.Uses allowed ∧ Inv t := by
  cases p with
  | done a => cases h
  | exit => cases h
  | fault => cases h
  | op o k =>
    have hnext := hop o s hp.1 hs
    simp only [step] at h
    split at h
    · next a u hu =>
      obtain ⟨rfl, rfl⟩ : k a = q ∧ u = t := by simpa using h
      rw [hu] at hnext
      exact ⟨hp.2 a, hnext⟩
    · next u hu =>
      obtain ⟨rfl, rfl⟩ : .fault = q ∧ u = t := by simpa using h
      rw [hu] at hnext
      exact ⟨trivial, hnext⟩

end Uses

section Rules
variable {s : σ} {Q : Outcome α → σ → Prop}

@[simp] theorem wp_done (a : α) : (.done a : Prog Ans α).Wp perform s Q ↔ Q (.value a) s :=
  Iff.rfl

@[simp] theorem wp_pure (a : α) : (pure a : Prog Ans α).Wp perform s Q ↔ Q (.value a) s :=
  Iff.rfl

@[simp] theorem wp_exit : (.exit : Prog Ans α).Wp perform s Q ↔ Q .returned s := Iff.rfl

theorem wp_op {o : Op} {k : Ans o → Prog Ans α} {a : Ans o} {t : σ}
    (h : perform o s = (some a, t)) :
    (Prog.op o k).Wp perform s Q ↔ (k a).Wp perform t Q := by
  simp only [Wp, run, h]

theorem wp_op_none {o : Op} {k : Ans o → Prog Ans α} {t : σ}
    (h : perform o s = (none, t)) :
    (Prog.op o k).Wp perform s Q ↔ Q .faulted t := by
  simp only [Wp, run, h]

theorem wp_mono {p : Prog Ans α} {R : Outcome α → σ → Prop} (h : p.Wp perform s Q)
    (hQR : ∀ o t, Q o t → R o t) : p.Wp perform s R :=
  hQR _ _ h

theorem wp_bind {p : Prog Ans α} {f : α → Prog Ans β} {R : Outcome β → σ → Prop} :
    (p >>= f).Wp perform s R ↔ p.Wp perform s (after perform f R) := by
  change (p.bind f).Wp perform s R ↔ _
  -- the first fragment is followed to each of its ends
  induction p generalizing s with
  | done a => exact Iff.rfl
  | exit => exact Iff.rfl
  | fault => exact Iff.rfl
  | op o k ih =>
    simp only [bind, Wp, run]
    split
    · exact ih _
    · exact Iff.rfl

@[simp] theorem wp_bind_value {f : α → Prog Ans β} {R : Outcome β → σ → Prop} {a : α} {t : σ} :
    after perform f R (.value a) t ↔ (f a).Wp perform t R := Iff.rfl

theorem wp_index {xs : List α} {i : ℕ} {a : α} (h : xs[i]? = some a) :
    (index xs i : Prog Ans α).Wp perform s Q ↔ Q (.value a) s := by
  simp only [index, h, wp_done]

/-- The invariant rule for a counting loop whose bound keeps the value `n`. -/
theorem wp_forBelow {bound : Prog Ans ℕ} {body : ℕ → β → Prog Ans β} {n : ℕ}
    (Inv : ℕ → β → σ → Prop) {R : Outcome β → σ → Prop}
    (hbound : ∀ i b t, Inv i b t → bound.run perform t = (.value n, t))
    (hbody : ∀ i b t, i < n → Inv i b t → (body i b).Wp perform t
      (fun o u => match o with
        | .value b' => Inv (i + 1) b' u
        | .returned => R .returned u
        | .faulted => R .faulted u))
    (hend : ∀ b t, Inv n b t → R (.value b) t)
    {fuel i : ℕ} {b : β} {s : σ} (hfuel : n < fuel + i) (hi : i ≤ n) (hinv : Inv i b s) :
    (forBelow bound body fuel i b).Wp perform s R := by
  induction fuel generalizing i b s with
  | zero => omega
  | succ fuel ih =>
    -- the bound is evaluated before every pass, as in the source
    change (bound >>= _).Wp perform s R
    have hb := hbound i b s hinv
    rw [wp_bind, Wp, hb]
    change (if i < n then body i b >>= forBelow bound body fuel (i + 1) else .done b).Wp
      perform s R
    by_cases hlt : i < n
    · rw [if_pos hlt]
      rw [wp_bind]
      refine wp_mono (hbody i b s hlt hinv) ?_
      rintro (b' | _ | _) t ht
      -- the fuel lasts for the passes still to come
      · exact ih (by omega) (by omega) ht
      · exact ht
      · exact ht
    · rw [if_neg hlt]
      have hin : i = n := by omega
      exact hend b s (hin ▸ hinv)

end Rules
end Prog
end Resumption
