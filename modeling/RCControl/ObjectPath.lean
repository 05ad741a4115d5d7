import Mathlib.Algebra.Ring.Parity
import Mathlib.Data.List.Basic
import Mathlib.Data.List.Infix
import Mathlib.Tactic.Common

/-! D-Bus object paths as text, with the string functions of `simpledbus`'s
`Path.cpp`, and as lists of elements. -/
namespace RCControl

abbrev PathText := List Char

def countElements (path : PathText) : ℕ :=
  if path = [] ∨ path = ['/'] then 0 else path.count '/'

/-- The loop of `split_elements`, from its iterator to the end. -/
def splitFrom : PathText → List PathText
  | [] => []
  | c :: cs =>
    if c = '/' then [] :: splitFrom cs
    else
      match splitFrom cs with
      | [] => [[c]]
      | word :: words => (c :: word) :: words

def splitElements (path : PathText) : List PathText :=
  if path = [] ∨ path = ['/'] then [] else splitFrom (path.drop 1)

def joinElements (elements : List PathText) : PathText :=
  elements.flatMap (fun element => '/' :: element)

def fetchElements (path : PathText) (count : ℕ) : PathText :=
  if count = 0 then ['/']
  else if count > countElements path then path
  else joinElements ((splitElements path).take count)

/-- `std::string::rfind`: the last position where `base` occurs. -/
def rfind (path base : PathText) : Option ℕ :=
  match path with
  | [] => if base = [] then some 0 else none
  | c :: cs =>
    match rfind cs base with
    | some i => some (i + 1)
    | none => if base.isPrefixOf (c :: cs) then some 0 else none

def isDescendant (base path : PathText) : Bool :=
  if base = [] ∨ path = [] then false
  else if base = path then false
  else if base = ['/'] then true
  else rfind path base == some 0

def isAscendant (base path : PathText) : Bool :=
  if base = [] ∨ path = [] then false
  else if base = path then false
  else !isDescendant base path

def isChild (base path : PathText) : Bool :=
  if base = [] ∨ path = [] then false
  else if base = path then false
  else if !isDescendant base path then false
  else countElements base + 1 == countElements path

/-- `count_elements(base) - 1` is a subtraction of `size_t`. -/
def isParent (base path : PathText) : Bool :=
  if base = [] ∨ path = [] then false
  else if base = path then false
  else if !isAscendant base path then false
  else (countElements base + (2 ^ 64 - 1)) % 2 ^ 64 == countElements path

def nextChild (base path : PathText) : PathText :=
  fetchElements path (countElements base + 1)

/-- `substr` throws `out_of_range` past the end. -/
def nextChildStrip (base path : PathText) : Option PathText :=
  let child := nextChild base path
  if base.length + 1 ≤ child.length then some (child.drop (base.length + 1)) else none

/-- One element of an object path. -/
abbrev Element := { text : List Char // text ≠ [] ∧ '/' ∉ text }

/-- A valid object path: the elements below the root. -/
abbrev ObjectPath := List Element

def ObjectPath.chars (path : ObjectPath) : PathText :=
  joinElements (path.map Subtype.val)

def ObjectPath.text (path : ObjectPath) : PathText :=
  if path = [] then ['/'] else path.chars

/-- Every element of `base` but the last agrees with `path`, the last begins it. -/
def ObjectPath.startsWith : ObjectPath → ObjectPath → Bool
  | [], _ => true
  | _ :: _, [] => false
  | b :: bs, e :: es =>
    if bs = [] then b.val.isPrefixOf e.val else b == e && ObjectPath.startsWith bs es

@[simp] theorem chars_nil : ObjectPath.chars [] = [] := rfl

@[simp] theorem chars_cons (e : Element) (p : ObjectPath) :
    ObjectPath.chars (e :: p) = '/' :: (e.val ++ ObjectPath.chars p) := rfl

theorem chars_ne_nil (p : ObjectPath) (hp : p ≠ []) : p.chars ≠ [] := by
  cases p with
  | nil => exact absurd rfl hp
  | cons e es => simp

theorem text_ne_nil (p : ObjectPath) : p.text ≠ [] := by
  by_cases hp : p = []
  · simp [ObjectPath.text, hp]
  · simpa [ObjectPath.text, hp] using chars_ne_nil p hp

theorem text_of_ne_nil (p : ObjectPath) (hp : p ≠ []) : p.text = p.chars := by
  simp [ObjectPath.text, hp]

/-- An element is not empty, so below the root the text is longer than `/`. -/
theorem two_le_length_chars (p : ObjectPath) (hp : p ≠ []) : 2 ≤ p.chars.length := by
  cases p with
  | nil => exact absurd rfl hp
  | cons e es =>
    have he : 0 < e.val.length := List.length_pos_iff.mpr e.property.1
    simp only [chars_cons, List.length_cons, List.length_append]
    omega

theorem chars_ne_root (p : ObjectPath) : p.chars ≠ ['/'] := by
  intro h
  by_cases hp : p = []
  · simp [hp] at h
  · have hl := two_le_length_chars p hp
    simp [h] at hl

theorem count_chars (p : ObjectPath) : p.chars.count '/' = p.length := by
  induction p with
  | nil => simp
  | cons e es ih =>
    have he : e.val.count '/' = 0 := List.count_eq_zero.mpr e.property.2
    simp [he, ih]

theorem countElements_text (p : ObjectPath) : countElements p.text = p.length := by
  by_cases hp : p = []
  · simp [hp, ObjectPath.text, countElements]
  · rw [text_of_ne_nil p hp]
    simp only [countElements, chars_ne_nil p hp, chars_ne_root p, or_self, if_false]
    exact count_chars p

theorem splitFrom_element (e : PathText) (he : '/' ∉ e) (hne : e ≠ []) : splitFrom e = [e] := by
  induction e with
  | nil => exact absurd rfl hne
  | cons c cs ih =>
    have hc : c ≠ '/' := by
      intro h
      exact he (by simp [h])
    by_cases hcs : cs = []
    · simp [hcs, splitFrom, hc]
    · have hi := ih (fun h => he (List.mem_cons_of_mem c h)) hcs
      simp [splitFrom, hc, hi]

theorem splitFrom_append (e rest : PathText) (he : '/' ∉ e) :
    splitFrom (e ++ '/' :: rest) = e :: splitFrom rest := by
  induction e with
  | nil => simp [splitFrom]
  | cons c cs ih =>
    have hc : c ≠ '/' := by
      intro h
      exact he (by simp [h])
    have hi := ih (fun h => he (List.mem_cons_of_mem c h))
    simp [splitFrom, hc, hi]

theorem splitFrom_chars (p : ObjectPath) (hp : p ≠ []) :
    splitFrom (p.chars.drop 1) = p.map Subtype.val := by
  induction p with
  | nil => exact absurd rfl hp
  | cons e es ih =>
    cases es with
    | nil => simpa using splitFrom_element e.val e.property.2 e.property.1
    | cons e' es' =>
      have hi := ih (by simp)
      simp only [chars_cons, List.drop_succ_cons, List.drop_zero, List.map_cons] at hi ⊢
      rw [splitFrom_append _ _ e.property.2, hi]

theorem splitElements_text (p : ObjectPath) : splitElements p.text = p.map Subtype.val := by
  by_cases hp : p = []
  · simp [hp, ObjectPath.text, splitElements]
  · rw [text_of_ne_nil p hp]
    simp only [splitElements, chars_ne_nil p hp, chars_ne_root p, or_self, if_false]
    exact splitFrom_chars p hp

theorem text_injective : Function.Injective ObjectPath.text := by
  intro p q h
  have hs : p.map Subtype.val = q.map Subtype.val := by
    rw [← splitElements_text, ← splitElements_text, h]
  exact List.map_injective_iff.mpr Subtype.val_injective hs

theorem fetchElements_text (p : ObjectPath) (n : ℕ) :
    fetchElements p.text n = ObjectPath.text (p.take n) := by
  simp only [fetchElements, countElements_text, splitElements_text]
  by_cases hn : n = 0
  · simp [hn, ObjectPath.text]
  · rw [if_neg hn]
    by_cases hl : n > p.length
    · rw [if_pos hl, List.take_of_length_le (by omega)]
    · have hp : p.take n ≠ [] := by
        intro h
        have hz := congrArg List.length h
        simp only [List.length_take, List.length_nil] at hz
        omega
      rw [if_neg hl, text_of_ne_nil _ hp, ObjectPath.chars, List.map_take]

theorem nextChild_text (base path : ObjectPath) :
    nextChild base.text path.text = ObjectPath.text (path.take (base.length + 1)) := by
  rw [nextChild, countElements_text, fetchElements_text]

/-- Words without a slash, each followed by nothing or by a slash, compare word by word. -/
theorem word_append_begins (a e x y : PathText) (ha : '/' ∉ a) (he : '/' ∉ e)
    (hy : y = [] ∨ ∃ y', y = '/' :: y') (x' : PathText) (hx : x = '/' :: x') :
    a ++ x <+: e ++ y ↔ a = e ∧ x <+: y := by
  induction a generalizing e with
  | nil =>
    cases e with
    | nil => simp
    | cons c cs =>
      have hc : '/' ≠ c := fun h => he (h ▸ List.mem_cons_self)
      simp [hx, List.cons_prefix_cons, hc]
  | cons c cs ih =>
    have hc : c ≠ '/' := fun h => ha (by simp [h])
    cases e with
    | nil =>
      have hno : ¬ (c :: cs ++ x <+: [] ++ y) := by
        intro h
        rcases hy with hy | ⟨y', hy⟩
        · simp [hy] at h
        · rw [hy, List.nil_append, List.cons_append, List.cons_prefix_cons] at h
          exact hc h.1
      constructor
      · intro h
        exact absurd h hno
      · intro h
        exact absurd h.1 (List.cons_ne_nil c cs)
    | cons d ds =>
      have hi := ih ds (fun h => ha (List.mem_cons_of_mem c h))
        (fun h => he (List.mem_cons_of_mem d h))
      rw [List.cons_append, List.cons_append, List.cons_prefix_cons, hi, List.cons.injEq, and_assoc]

/-- A word without a slash begins `e ++ y` only inside `e`. -/
theorem word_begins (b e y : PathText) (hb : '/' ∉ b) (hy : y = [] ∨ ∃ y', y = '/' :: y') :
    b <+: e ++ y ↔ b <+: e := by
  induction b generalizing e with
  | nil => simp
  | cons c cs ih =>
    have hc : c ≠ '/' := fun h => hb (by simp [h])
    cases e with
    | nil =>
      rcases hy with hy | ⟨y', hy⟩
      · simp [hy]
      · simp [hy, List.cons_prefix_cons, hc]
    | cons d ds =>
      have hi := ih ds (fun h => hb (List.mem_cons_of_mem c h))
      rw [List.cons_append, List.cons_prefix_cons, hi, List.cons_prefix_cons]

theorem chars_slash (p : ObjectPath) : p.chars = [] ∨ ∃ t, p.chars = '/' :: t := by
  cases p with
  | nil => exact Or.inl rfl
  | cons e es => exact Or.inr ⟨_, rfl⟩

theorem chars_prefix_iff (base path : ObjectPath) :
    base.chars <+: path.chars ↔ base.startsWith path = true := by
  induction base generalizing path with
  | nil => simp [ObjectPath.startsWith]
  | cons b bs ih =>
    cases path with
    | nil => simp [ObjectPath.startsWith]
    | cons e es =>
      rw [chars_cons, chars_cons, List.cons_prefix_cons]
      by_cases hbs : bs = []
      · have hw := word_begins b.val e.val (ObjectPath.chars es) b.property.2 (chars_slash es)
        simpa [ObjectPath.startsWith, hbs] using hw
      · have hslash : ∃ t, ObjectPath.chars bs = '/' :: t := by
          rcases chars_slash bs with h | h
          · exact absurd h (chars_ne_nil bs hbs)
          · exact h
        obtain ⟨t, ht⟩ := hslash
        have hw := word_append_begins b.val e.val _ _ b.property.2 e.property.2
          (chars_slash es) t ht
        simp only [true_and, hw, ih, ObjectPath.startsWith, hbs, if_false, Bool.and_eq_true,
          beq_iff_eq, Subtype.ext_iff]

theorem rfind_eq_none_iff (path base : PathText) :
    rfind path base = none ↔ ∀ t, t <:+ path → ¬ base <+: t := by
  induction path with
  | nil => simp [rfind]
  | cons c cs ih =>
    have hstep : rfind (c :: cs) base = none ↔
        rfind cs base = none ∧ ¬ base <+: c :: cs := by
      cases hr : rfind cs base with
      | none => simp [rfind, hr]
      | some i => simp [rfind, hr]
    rw [hstep, ih]
    constructor
    · intro h t ht
      rcases List.suffix_cons_iff.mp ht with ht | ht
      · rw [ht]
        exact h.2
      · exact h.1 t ht
    · intro h
      exact ⟨fun t ht => h t (List.suffix_cons_iff.mpr (Or.inr ht)), h _ List.suffix_rfl⟩

/-- The last occurrence is at 0 when the text begins with `base` and no proper suffix does. -/
theorem rfind_eq_zero_iff (path base : PathText) (hp : path ≠ []) :
    rfind path base = some 0 ↔ base <+: path ∧ ∀ t, t <:+ path.tail → ¬ base <+: t := by
  cases path with
  | nil => exact absurd rfl hp
  | cons c cs =>
    rw [List.tail_cons, ← rfind_eq_none_iff]
    cases hr : rfind cs base with
    | none => simp [rfind, hr]
    | some i => simp [rfind, hr]

theorem slash_suffix_append (w t y : PathText) (hw : '/' ∉ w) :
    '/' :: t <:+ w ++ y ↔ '/' :: t <:+ y := by
  induction w with
  | nil => simp
  | cons c cs ih =>
    have hc : '/' ≠ c := fun h => hw (h ▸ List.mem_cons_self)
    have hi := ih (fun h => hw (List.mem_cons_of_mem c h))
    rw [List.cons_append, List.suffix_cons_iff, hi]
    simp [hc]

/-- Where a suffix begins with a slash, an element begins. -/
theorem slash_suffix (p : ObjectPath) (t : PathText) :
    '/' :: t <:+ p.chars ↔ ∃ k, k < p.length ∧ '/' :: t = ObjectPath.chars (p.drop k) := by
  induction p with
  | nil => simp
  | cons e es ih =>
    rw [chars_cons, List.suffix_cons_iff, slash_suffix_append _ _ _ e.property.2, ih]
    constructor
    · intro h
      rcases h with h | ⟨k, hk, h⟩
      · exact ⟨0, by simp, by simpa using h⟩
      · exact ⟨k + 1, by simpa using hk, by simpa using h⟩
    · intro h
      obtain ⟨k, hk, h⟩ := h
      cases k with
      | zero => exact Or.inl (by simpa using h)
      | succ k => exact Or.inr ⟨k, by simpa using hk, by simpa using h⟩

theorem startsWith_nil (base : ObjectPath) (hb : base ≠ []) : base.startsWith [] = false := by
  cases base with
  | nil => exact absurd rfl hb
  | cons b bs => simp [ObjectPath.startsWith]

/-- An occurrence of `base` behind the first position is one at a later element. -/
theorem occurs_later_iff (base path : ObjectPath) (hb : base ≠ []) :
    (∃ t, t <:+ path.chars.tail ∧ base.chars <+: t) ↔
      ∃ k, 0 < k ∧ base.startsWith (path.drop k) = true := by
  cases path with
  | nil =>
    have hnil : ¬ base.chars <+: [] := by
      simpa using chars_ne_nil base hb
    simp [hnil, startsWith_nil base hb]
  | cons e es =>
    constructor
    · intro h
      obtain ⟨t, ht, hbt⟩ := h
      have hslash : ∃ t', t = '/' :: t' := by
        rcases chars_slash base with h | ⟨b', h⟩
        · exact absurd h (chars_ne_nil base hb)
        · obtain ⟨r, hr⟩ := hbt
          exact ⟨b' ++ r, by rw [← hr, h, List.cons_append]⟩
      obtain ⟨t', ht'⟩ := hslash
      rw [chars_cons, List.tail_cons, ht', slash_suffix_append _ _ _ e.property.2,
        slash_suffix] at ht
      obtain ⟨k, _, hk⟩ := ht
      refine ⟨k + 1, by omega, ?_⟩
      rw [List.drop_succ_cons, ← chars_prefix_iff, ← hk, ← ht']
      exact hbt
    · intro h
      obtain ⟨k, hk, hs⟩ := h
      obtain ⟨j, hj⟩ : ∃ j, k = j + 1 := ⟨k - 1, by omega⟩
      rw [hj, List.drop_succ_cons, ← chars_prefix_iff] at hs
      have hsuf : ObjectPath.chars (es.drop j) <:+ e.val ++ ObjectPath.chars es := by
        have hd : ObjectPath.chars (es.take j) ++ ObjectPath.chars (es.drop j) =
            ObjectPath.chars es := by
          simp only [ObjectPath.chars, joinElements, ← List.flatMap_append, ← List.map_append,
            List.take_append_drop]
        exact ⟨e.val ++ ObjectPath.chars (es.take j), by rw [List.append_assoc, hd]⟩
      exact ⟨_, hsuf, hs⟩

/-- `is_descendant` compares text: `base` has to begin `path`, up to the end of its last
element, and must not occur again at a later element. -/
theorem isDescendant_text_iff (base path : ObjectPath) :
    isDescendant base.text path.text = true ↔
      base ≠ path ∧ (base = [] ∨ (base.startsWith path = true ∧
        ∀ k, 0 < k → base.startsWith (path.drop k) = false)) := by
  simp only [isDescendant, text_ne_nil, or_self, if_false, text_injective.eq_iff]
  by_cases hbp : base = path
  · simp [hbp]
  · by_cases hb : base = []
    · simp [hb, ObjectPath.text, Ne.symm (hb ▸ hbp)]
    · have hroot : base.text ≠ ['/'] := by
        rw [text_of_ne_nil base hb]
        exact chars_ne_root base
      simp only [hbp, hb, hroot, if_false, beq_iff_eq, ne_eq, not_false_eq_true, true_and, false_or]
      by_cases hp : path = []
      · have hnone : rfind (ObjectPath.text []) base.text ≠ some 0 := by
          rw [Ne, rfind_eq_zero_iff _ _ (text_ne_nil []), text_of_ne_nil base hb]
          intro h
          have hlen := h.1.length_le
          have htwo := two_le_length_chars base hb
          simp only [ObjectPath.text, if_true, List.length_singleton] at hlen
          omega
        simp only [hp, hnone, startsWith_nil base hb, Bool.false_eq_true, false_and]
      · rw [text_of_ne_nil base hb, text_of_ne_nil path hp,
          rfind_eq_zero_iff _ _ (chars_ne_nil path hp), chars_prefix_iff]
        have hlater := occurs_later_iff base path hb
        constructor
        · intro h
          refine ⟨h.1, fun k hk => ?_⟩
          by_contra hs
          obtain ⟨t, ht, hbt⟩ := hlater.mpr ⟨k, hk, by simpa using hs⟩
          exact h.2 t ht hbt
        · intro h
          refine ⟨h.1, fun t ht hbt => ?_⟩
          obtain ⟨k, hk, hs⟩ := hlater.mp ⟨t, ht, hbt⟩
          rw [h.2 k hk] at hs
          exact absurd hs (by simp)

theorem startsWith_iff (base path : ObjectPath) (hb : base ≠ []) :
    base.startsWith path = true ↔
      ∃ s b e rest, base = s ++ [b] ∧ path = s ++ e :: rest ∧ b.val <+: e.val := by
  induction base generalizing path with
  | nil => exact absurd rfl hb
  | cons b bs ih =>
    cases path with
    | nil => simp [ObjectPath.startsWith]
    | cons e es =>
      by_cases hbs : bs = []
      · simp only [ObjectPath.startsWith, hbs, if_true, List.isPrefixOf_iff_prefix]
        constructor
        · intro h
          exact ⟨[], b, e, es, rfl, rfl, h⟩
        · intro h
          obtain ⟨s, b', e', rest, hbase, hpath, hpre⟩ := h
          have hs : s = [] := by
            cases s with
            | nil => rfl
            | cons c cs => simp at hbase
          simp only [hs, List.nil_append, List.cons.injEq] at hbase hpath
          rw [hbase.1, hpath.1]
          exact hpre
      · simp only [ObjectPath.startsWith, hbs, if_false, Bool.and_eq_true, beq_iff_eq, ih es hbs]
        constructor
        · intro h
          obtain ⟨hbe, s, b', e', rest, hbase, hpath, hpre⟩ := h
          exact ⟨b :: s, b', e', rest, by rw [hbase]; rfl, by rw [hpath, hbe]; rfl, hpre⟩
        · intro h
          obtain ⟨s, b', e', rest, hbase, hpath, hpre⟩ := h
          cases s with
          | nil =>
            simp only [List.nil_append, List.cons.injEq] at hbase
            exact absurd hbase.2 hbs
          | cons c cs =>
            simp only [List.cons_append, List.cons.injEq] at hbase hpath
            exact ⟨by rw [hbase.1, hpath.1], cs, b', e', rest, hbase.2, hpath.2, hpre⟩

/-- Paths whose text is read as intended: no element starts with the path's first
element again, and of two siblings neither name begins the other. -/
structure Unconfused (U : Set ObjectPath) : Prop where
  head_once : ∀ h t, h :: t ∈ U → ∀ e ∈ t, ¬ h.val <+: e.val
  siblings : ∀ p ∈ U, ∀ q ∈ U, ∀ s b e, s ++ [b] <+: q → s ++ [e] <+: p → b.val <+: e.val → b = e

/-- Whether, where the two paths part, the name on the first begins the name on the second. -/
def clashes : ObjectPath → ObjectPath → Bool
  | b :: bs, e :: es => if b = e then clashes bs es else b.val.isPrefixOf e.val
  | _, _ => false

def repeatsHead : ObjectPath → Bool
  | [] => false
  | h :: t => t.any (fun e => h.val.isPrefixOf e.val)

theorem clashes_iff (q p : ObjectPath) :
    clashes q p = true ↔ ∃ s b e, s ++ [b] <+: q ∧ s ++ [e] <+: p ∧ b.val <+: e.val ∧ b ≠ e := by
  induction q generalizing p with
  | nil => simp [clashes]
  | cons c cs ih =>
    cases p with
    | nil => simp [clashes]
    | cons d ds =>
      rw [clashes]
      by_cases hcd : c = d
      · rw [if_pos hcd, ih]
        constructor
        · rintro ⟨s, b, e, hb, he, hbe, hne⟩
          refine ⟨c :: s, b, e, ?_, ?_, hbe, hne⟩
          · exact List.cons_prefix_cons.mpr ⟨rfl, hb⟩
          · exact List.cons_prefix_cons.mpr ⟨hcd, he⟩
        · rintro ⟨s, b, e, hb, he, hbe, hne⟩
          cases s with
          | nil =>
            have hbc := (List.cons_prefix_cons.mp hb).1
            have hed := (List.cons_prefix_cons.mp he).1
            exact absurd (hbc.trans (hcd.trans hed.symm)) hne
          | cons x s =>
            have hb' := (List.cons_prefix_cons.mp hb).2
            have he' := (List.cons_prefix_cons.mp he).2
            exact ⟨s, b, e, hb', he', hbe, hne⟩
      · rw [if_neg hcd, List.isPrefixOf_iff_prefix]
        constructor
        · intro hpre
          exact ⟨[], c, d, ⟨cs, rfl⟩, ⟨ds, rfl⟩, hpre, hcd⟩
        · rintro ⟨s, b, e, hb, he, hbe, -⟩
          cases s with
          | nil =>
            rw [← (List.cons_prefix_cons.mp hb).1, ← (List.cons_prefix_cons.mp he).1]
            exact hbe
          | cons x s =>
            have hxc := (List.cons_prefix_cons.mp hb).1
            have hxd := (List.cons_prefix_cons.mp he).1
            exact absurd (hxc.symm.trans hxd) hcd

/-- For finitely many paths the condition can be computed. -/
theorem unconfused_list_iff (paths : List ObjectPath) :
    Unconfused {p | p ∈ paths} ↔
      (∀ p ∈ paths, repeatsHead p = false) ∧ ∀ p ∈ paths, ∀ q ∈ paths, clashes q p = false := by
  constructor
  · intro hU
    constructor
    · intro p hp
      cases p with
      | nil => rfl
      | cons h t =>
        rw [repeatsHead, List.any_eq_false]
        intro e he hpre
        exact hU.head_once h t hp e he (List.isPrefixOf_iff_prefix.mp hpre)
    · intro p hp q hq
      rw [Bool.eq_false_iff]
      intro hclash
      obtain ⟨s, b, e, hb, he, hbe, hne⟩ := (clashes_iff q p).mp hclash
      exact hne (hU.siblings p hp q hq s b e hb he hbe)
  · rintro ⟨hheads, hclash⟩
    constructor
    · intro h t hp e he hpre
      have hhead := hheads _ hp
      rw [repeatsHead, List.any_eq_false] at hhead
      exact hhead e he (List.isPrefixOf_iff_prefix.mpr hpre)
    · intro p hp q hq s b e hb he hbe
      by_contra hne
      have hno := hclash p hp q hq
      rw [(clashes_iff q p).mpr ⟨s, b, e, hb, he, hbe, hne⟩] at hno
      cases hno

instance (paths : List ObjectPath) : Decidable (Unconfused {p | p ∈ paths}) :=
  decidable_of_iff _ (unconfused_list_iff paths).symm

/-- Among unconfused paths the text test is the strict prefix order of the elements. -/
theorem isDescendant_iff_strict {U : Set ObjectPath} (hU : Unconfused U) {base path q : ObjectPath}
    (hq : q ∈ U) (hbq : base <+: q) (hp : path ∈ U) :
    isDescendant base.text path.text = true ↔ base <+: path ∧ base ≠ path := by
  rw [isDescendant_text_iff]
  by_cases hb : base = []
  · simp [hb]
  · simp only [hb, false_or]
    constructor
    · intro h
      obtain ⟨hne, hs, _⟩ := h
      obtain ⟨s, b, e, rest, hbase, hpath, hpre⟩ := (startsWith_iff base path hb).mp hs
      -- The last element of `base` and the element of `path` beside it are siblings.
      have hse : s ++ [e] <+: path := ⟨rest, by rw [hpath]; simp⟩
      have hbe := hU.siblings path hp q hq s b e (hbase ▸ hbq) hse hpre
      exact ⟨by rw [hbase, hbe]; exact hse, hne⟩
    · intro h
      obtain ⟨⟨r, hr⟩, hne⟩ := h
      obtain ⟨s, b, hbase⟩ : ∃ s b, base = s ++ [b] :=
        ⟨_, _, (List.dropLast_append_getLast hb).symm⟩
      refine ⟨hne, ?_, ?_⟩
      · rw [startsWith_iff base path hb]
        exact ⟨s, b, b, r, hbase, by rw [← hr, hbase]; simp, List.prefix_rfl⟩
      · intro k hk
        by_contra hs
        rw [Bool.not_eq_false, startsWith_iff base _ hb] at hs
        obtain ⟨s', b', e', rest', hbase', hdrop, hpre'⟩ := hs
        -- The first element of `base` would begin a later element of `path`.
        cases path with
        | nil =>
          rw [List.drop_nil] at hdrop
          simp at hdrop
        | cons e es =>
          obtain ⟨j, hj⟩ : ∃ j, k = j + 1 := ⟨k - 1, by omega⟩
          rw [hj, List.drop_succ_cons] at hdrop
          have hmem : ∀ x, x ∈ s' ++ e' :: rest' → x ∈ es := by
            intro x hx
            exact List.mem_of_mem_drop (hdrop ▸ hx)
          cases s' with
          | nil =>
            have hhead : b' = e := by
              rw [hbase', List.nil_append, List.cons_append, List.cons.injEq] at hr
              exact hr.1
            exact hU.head_once e es hp e' (hmem e' (by simp)) (hhead ▸ hpre')
          | cons c cs =>
            have hhead : c = e := by
              rw [hbase', List.cons_append, List.cons_append, List.cons.injEq] at hr
              exact hr.1
            exact hU.head_once e es hp c (hmem c (by simp)) (hhead ▸ List.prefix_rfl)

theorem isChild_text (base path : ObjectPath) :
    isChild base.text path.text = (isDescendant base.text path.text &&
      (base.length + 1 == path.length)) := by
  have hself : isDescendant base.text base.text = false := by
    simp [isDescendant]
  simp only [isChild, text_ne_nil, or_self, if_false, countElements_text]
  by_cases h : base.text = path.text
  · rw [if_pos h, ← h, hself, Bool.false_and]
  · rw [if_neg h]
    cases isDescendant base.text path.text <;> simp

def orgBluez : ObjectPath :=
  [⟨['o', 'r', 'g'], by decide⟩, ⟨['b', 'l', 'u', 'e', 'z'], by decide⟩]

def hci0 : Element := ⟨['h', 'c', 'i', '0'], by decide⟩

def hci1 : Element := ⟨['h', 'c', 'i', '1'], by decide⟩

def hci10 : Element := ⟨['h', 'c', 'i', '1', '0'], by decide⟩

def devA : Element := ⟨['d', 'e', 'v', '_', 'A'], by decide⟩

def agentPath : ObjectPath := [⟨['a', 'g', 'e', 'n', 't'], by decide⟩]

def devicePath : ObjectPath := orgBluez ++ [hci0, devA]

/-- The agent, and an adapter with a device. -/
def bluezPaths : List ObjectPath := [agentPath, orgBluez, orgBluez ++ [hci0], devicePath]

theorem bluezPaths_unconfused : Unconfused {p | p ∈ bluezPaths} := by decide

theorem devicePath_mem : devicePath ∈ {p | p ∈ bluezPaths} := by
  show devicePath ∈ bluezPaths
  decide

end RCControl
