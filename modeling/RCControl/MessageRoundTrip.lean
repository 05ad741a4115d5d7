import RCControl.MessageFormat
import RCControl.MapOption
import Mathlib.Data.List.TakeWhile

/-! What becomes of a holder on its way through a message: which holders can be sent, and
what the other side extracts. -/
namespace RCControl
open MapOption

theorem code_ne (kind : BasicKind) : kind.code ≠ 'v' ∧ kind.code ≠ 'a' ∧ kind.code ≠ '{' := by
  cases kind <;> decide

theorem render_ne_brace (t : SigType) (rest cs : Signature) : t.render ++ rest ≠ '{' :: cs := by
  cases t with
  | basic kind =>
    intro h
    exact (code_ne kind).2.2 (List.cons.inj h).1
  | variant => simp [SigType.render]
  | array element => simp [SigType.render]
  | dict key value => simp [SigType.render]

theorem parseType_render (t : SigType) (rest : Signature) :
    parseType (t.render ++ rest) = some (t, rest) := by
  induction t generalizing rest with
  | variant => simp [SigType.render, parseType]
  | basic kind =>
    obtain ⟨hv, ha, -⟩ := code_ne kind
    show parseType (kind.code :: rest) = _
    rw [parseType, ofCode_code]
    · exact hv
    · exact fun _ _ h => absurd h ha
    · exact ha
  | array element ih =>
    show parseType ('a' :: (element.render ++ rest)) = _
    rw [parseType, ih]
    exact fun k cs h => absurd h (render_ne_brace element rest (k :: cs))
  | dict key value ih =>
    have hassoc : (SigType.dict key value).render ++ rest =
        'a' :: '{' :: key.code :: (value.render ++ ('}' :: rest)) := by
      simp [SigType.render]
    simp only [hassoc, parseType, ofCode_code, ih]

theorem parseType_sound {sig rest : Signature} {t : SigType} (h : parseType sig = some (t, rest)) :
    sig = t.render ++ rest := by
  fun_induction parseType sig generalizing t rest with
  | case1 => cases h; rfl
  | case2 k cs key value rest' hcs hk ih =>
    cases h
    rw [code_of_ofCode hk, ih hcs]
    simp [SigType.render]
  | case4 cs _ element rest' hcs ih =>
    cases h
    rw [ih hcs]
    rfl
  | case6 c rest' _ _ _ kind hc =>
    cases h
    rw [code_of_ofCode hc]
    rfl
  | case3 => cases h
  | case5 => cases h
  | case7 => cases h
  | case8 => cases h

theorem completeType_iff (sig : Signature) (t : SigType) :
    completeType sig = some t ↔ sig = t.render := by
  rw [completeType]
  constructor
  · intro h
    split at h
    · rename_i t' hparse
      cases h
      simpa using parseType_sound hparse
    · cases h
  · rintro rfl
    have hparse := parseType_render t []
    rw [List.append_nil] at hparse
    rw [hparse]

@[simp] theorem completeType_render (t : SigType) : completeType t.render = some t :=
  (completeType_iff _ _).mpr rfl

theorem signature_head (h : Holder) : h.signature.head? ≠ some 'v' := by
  cases h with
  | none => simp [Holder.signature]
  | basic value => simpa [Holder.signature] using (code_ne value.kind).1
  | array elements => simp [Holder.signature]
  | dict entries => simp [Holder.signature]

theorem render_head (t : SigType) : t.render.head? = some 'v' ↔ t = .variant := by
  cases t with
  | basic kind => simpa [SigType.render] using (code_ne kind).1
  | variant => simp [SigType.render]
  | array element => simp [SigType.render]
  | dict key value => simp [SigType.render]

/-- The type that the signature of a holder names is no variant. -/
theorem ne_variant_of_signature {h : Holder} {t : SigType} (ht : h.signature = t.render) :
    t ≠ .variant := by
  intro heq
  apply signature_head h
  rw [ht, (render_head t).mpr heq]

theorem appendElements_eq (accepts : Basic → Bool) (hs : List Holder) (sig : Signature) :
    appendElements accepts hs sig = hs.map (fun h => appendArgument accepts h sig) := by
  induction hs with
  | nil => rw [appendElements, List.map_nil]
  | cons h hs ih => rw [appendElements, List.map_cons, ih]

theorem appendEntries_eq (accepts : Basic → Bool) (es : List (Key × Holder)) (sig : Signature) :
    appendEntries accepts es sig = es.map (fun e => (e.1, appendArgument accepts e.2 sig)) := by
  induction es with
  | nil => rw [appendEntries, List.map_nil]
  | cons e es ih => rw [appendEntries, List.map_cons, ih]

/-- The one equation of `_append_argument`. -/
theorem appendArgument_eq (accepts : Basic → Bool) (h : Holder) (sig : Signature) :
    appendArgument accepts h sig = appendAt accepts h
      (fun s => h.getArray.map (fun g => appendArgument accepts g s))
      (fun s => h.entries.map (fun e => (e.1, appendArgument accepts e.2 s))) sig := by
  cases h with
  | none => rw [appendArgument]; rfl
  | basic value => rw [appendArgument]; rfl
  | array elements =>
    have helements := funext (appendElements_eq accepts elements)
    rw [appendArgument, helements]
    rfl
  | dict entries =>
    have hentries := funext (appendEntries_eq accepts entries)
    rw [appendArgument, hentries]
    rfl

theorem extractDict_eq (es : List (Basic × Wire)) :
    extractDict es = es.map (fun e => (.ofBasic e.1, extractGeneric e.2)) := by
  induction es with
  | nil => rw [extractDict, List.map_nil]
  | cons e es ih => rw [extractDict, List.map_cons, ih]

theorem normalElements_eq (hs : List Holder) : normalElements hs = hs.map Holder.normal := by
  induction hs with
  | nil => rw [normalElements, List.map_nil]
  | cons h hs ih => rw [normalElements, List.map_cons, ih]

theorem normalEntries_eq (es : List (Key × Holder)) :
    normalEntries es = es.map (fun e => (e.1, e.2.normal)) := by
  induction es with
  | nil => rw [normalEntries, List.map_nil]
  | cons e es ih => rw [normalEntries, List.map_cons, ih]

/-- What comes from a value of a known type is something. -/
theorem extract_type_ne_none {w : Wire} {t : SigType} (hw : w.HasType t) :
    (extractGeneric w).type ≠ .none := by
  induction hw with
  | basic value => simp [extractGeneric, Holder.type]
  | array _ _ => simp [extractGeneric, Holder.type]
  | @dict key t entries _ _ _ => cases entries <;> simp [extractGeneric, Holder.type]
  | variant _ ih =>
    rw [extractGeneric]
    exact ih

theorem extractArray_of_typed {ws : List Wire} {t : SigType} (hws : ∀ w ∈ ws, w.HasType t) :
    extractArray ws = ws.map extractGeneric := by
  induction ws with
  | nil => rw [extractArray, List.map_nil]
  | cons w ws ih =>
    rw [extractArray, if_neg (extract_type_ne_none (hws w List.mem_cons_self)), List.map_cons,
      ih (fun w' hw' => hws w' (List.mem_cons_of_mem w hw'))]

theorem one_eq_some_iff {r : Option (List Wire)} {w : Wire} : one r = some w ↔ r = some [w] := by
  constructor
  · intro h
    rcases r with _ | (_ | ⟨a, _ | _⟩)
    · cases h
    · cases h
    · rw [← Option.some.inj h]
    · cases h
  · rintro rfl
    rfl

section Cases
variable {accepts : Basic → Bool} {h : Holder} {elements : Signature → List (Option (List Wire))}
  {entries : Signature → List (Key × Option (List Wire))}

theorem appendCase_basic (kind : BasicKind) :
    appendCase accepts h elements entries (SigType.basic kind).render =
      appendBasic accepts (h.getBasic kind) := by
  rw [SigType.render, appendCase, ofCode_code]

theorem ofCode_a : BasicKind.ofCode 'a' = none := rfl

theorem appendCase_array (t : SigType) :
    appendCase accepts h elements entries (SigType.array t).render =
      ((elements t.render).mapM one).map (fun ws => [.array t ws]) := by
  have hcomplete := completeType_render (.array t)
  rw [SigType.render] at hcomplete ⊢
  rw [appendCase, ofCode_a]
  simp only [if_true, hcomplete]

/-- The contents of a dictionary that are appended. -/
def dictContents {α : Type} (key : BasicKind) (entries : List (Key × α)) :
    Option (List (Basic × α)) :=
  if key.hasDict then dictOf key entries else some []

theorem appendCase_dict (key : BasicKind) (t : SigType) :
    appendCase accepts h elements entries (SigType.dict key t).render =
      ((dictContents key (entries t.render)).bind (List.mapM (appendEntry accepts))).map
        (fun es => [.dict key t es]) := by
  have hcomplete := completeType_render (.dict key t)
  have hinner : ((key.code :: (t.render ++ ['}'])).dropLast).drop 1 = t.render := by
    rw [← List.cons_append, List.dropLast_concat, List.drop_one, List.tail_cons]
  rw [SigType.render] at hcomplete ⊢
  rw [appendCase, ofCode_a]
  simp only [if_true, hcomplete, List.drop_one, List.tail_cons] at hinner ⊢
  rw [hinner]
  rfl

theorem appendBasic_eq_some_iff {value : Basic} {ws : List Wire} :
    appendBasic accepts value = some ws ↔ accepts value.cStr = true ∧ ws = [.basic value.cStr] := by
  rw [appendBasic]
  by_cases haccepts : accepts value.cStr = true
  · simp [haccepts, eq_comm]
  · simp [haccepts]

theorem appendEntry_eq_some_iff {e : Basic × Option (List Wire)} {r : Basic × Wire} :
    appendEntry accepts e = some r ↔
      accepts e.1.cStr = true ∧ e.2 = some [r.2] ∧ r.1 = e.1.cStr := by
  rw [appendEntry]
  by_cases haccepts : accepts e.1.cStr = true
  · rw [if_pos haccepts, Option.map_eq_some_iff]
    simp only [one_eq_some_iff, haccepts, true_and]
    constructor
    · rintro ⟨w, hw, rfl⟩
      exact ⟨hw, rfl⟩
    · rintro ⟨hw, hkey⟩
      exact ⟨r.2, hw, Prod.ext hkey.symm rfl⟩
  · simp [haccepts]

theorem mem_dictContents {α : Type} {key : BasicKind} {entries : List (Key × α)}
    {contents : List (Basic × α)} (h : dictContents key entries = some contents) {e : Basic × α}
    (he : e ∈ contents) : e.1.kind = key ∧ ∃ f ∈ entries, f.2 = e.2 := by
  rw [dictContents] at h
  split at h
  · rw [dictOf, Option.map_eq_some_iff] at h
    obtain ⟨cast, hcast, rfl⟩ := h
    obtain ⟨f, hf, hkey⟩ := exists_of_mem_mapped hcast (AssignMap.mem_of_mem_ofEntries he)
    rw [castKey, Option.map_eq_some_iff] at hkey
    obtain ⟨b, hb, rfl⟩ := hkey
    exact ⟨kind_of_cast hb, f, (List.mem_filter.mp hf).1, rfl⟩
  · cases h
    cases he

/-- What is appended has the type of the signature, if what the contents append has. -/
theorem appendCase_typed {t : SigType} (ht : t ≠ .variant)
    (helements : ∀ u, ∀ r ∈ elements u.render, ∀ w, r = some [w] → w.HasType u)
    (hentries : ∀ u, ∀ e ∈ entries u.render, ∀ w, e.2 = some [w] → w.HasType u) {ws : List Wire}
    (hws : appendCase accepts h elements entries t.render = some ws) :
    ∃ w, ws = [w] ∧ w.HasType t := by
  cases t with
  | variant => exact absurd rfl ht
  | basic kind =>
    rw [appendCase_basic, appendBasic_eq_some_iff] at hws
    refine ⟨_, hws.2, ?_⟩
    have htyped := Wire.HasType.basic (h.getBasic kind).cStr
    rwa [cStr_kind, getBasic_kind] at htyped
  | array u =>
    rw [appendCase_array, Option.map_eq_some_iff] at hws
    obtain ⟨vs, hvs, rfl⟩ := hws
    refine ⟨_, rfl, .array fun w hw => ?_⟩
    obtain ⟨r, hr, hone⟩ := exists_of_mem_mapped hvs hw
    exact helements u r hr w (one_eq_some_iff.mp hone)
  | dict key u =>
    rw [appendCase_dict, Option.map_eq_some_iff] at hws
    obtain ⟨es, hes, rfl⟩ := hws
    rw [Option.bind_eq_some_iff] at hes
    obtain ⟨contents, hcontents, hes⟩ := hes
    refine ⟨_, rfl, .dict (fun e he => ?_) (fun e he => ?_)⟩
    · obtain ⟨r, hr, happend⟩ := exists_of_mem_mapped hes he
      rw [(appendEntry_eq_some_iff.mp happend).2.2, cStr_kind]
      exact (mem_dictContents hcontents hr).1
    · obtain ⟨r, hr, happend⟩ := exists_of_mem_mapped hes he
      obtain ⟨-, f, hf, hvalue⟩ := mem_dictContents hcontents hr
      refine hentries u f hf e.2 ?_
      rw [hvalue]
      exact (appendEntry_eq_some_iff.mp happend).2.1

theorem appendVariant_eq_some_iff {own : Signature} {content : Option (List Wire)}
    {ws : List Wire} : appendVariant own content = some ws ↔
      ∃ t w, own = SigType.render t ∧ content = some [w] ∧ ws = [.variant w] := by
  rw [appendVariant]
  constructor
  · intro hws
    split at hws
    · rename_i t ht
      rw [Option.map_eq_some_iff] at hws
      obtain ⟨w, hw, heq⟩ := hws
      exact ⟨t, w, (completeType_iff _ _).mp ht, one_eq_some_iff.mp hw, heq.symm⟩
    · cases hws
  · rintro ⟨t, w, rfl, rfl, rfl⟩
    rw [completeType_render]
    rfl

theorem appendAt_variant : appendAt accepts h elements entries SigType.variant.render =
    appendVariant h.signature (appendCase accepts h elements entries h.signature) :=
  if_pos ((render_head .variant).mpr rfl)

theorem appendAt_of_ne {t : SigType} (ht : t ≠ .variant) :
    appendAt accepts h elements entries t.render = appendCase accepts h elements entries t.render :=
  if_neg (fun hhead => ht ((render_head t).mp hhead))

theorem appendAt_typed {t : SigType}
    (helements : ∀ u, ∀ r ∈ elements u.render, ∀ w, r = some [w] → w.HasType u)
    (hentries : ∀ u, ∀ e ∈ entries u.render, ∀ w, e.2 = some [w] → w.HasType u) {ws : List Wire}
    (hws : appendAt accepts h elements entries t.render = some ws) :
    ∃ w, ws = [w] ∧ w.HasType t := by
  by_cases ht : t = .variant
  · subst ht
    rw [appendAt_variant, appendVariant_eq_some_iff] at hws
    obtain ⟨u, w, hown, hcontent, rfl⟩ := hws
    rw [hown] at hcontent
    obtain ⟨w', hw', htyped⟩ :=
      appendCase_typed (ne_variant_of_signature hown) helements hentries hcontent
    rw [List.singleton_inj.mp hw']
    exact ⟨_, rfl, .variant htyped⟩
  · rw [appendAt_of_ne ht] at hws
    exact appendCase_typed ht helements hentries hws

end Cases

/-- A variant holds what the holder appends at its own signature. -/
theorem appendArgument_variant (accepts : Basic → Bool) (h : Holder) :
    appendArgument accepts h SigType.variant.render =
      appendVariant h.signature (appendArgument accepts h h.signature) := by
  rw [appendArgument_eq, appendAt_variant, appendArgument_eq, appendAt]
  rw [if_neg (signature_head h)]

theorem append_variant_iff {accepts : Basic → Bool} {h : Holder} {ws : List Wire} :
    appendArgument accepts h SigType.variant.render = some ws ↔
      ∃ t w, h.signature = SigType.render t ∧ appendArgument accepts h t.render = some [w] ∧
        ws = [.variant w] := by
  rw [appendArgument_variant, appendVariant_eq_some_iff]
  constructor
  · rintro ⟨t, w, hown, hw, rfl⟩
    exact ⟨t, w, hown, hown ▸ hw, rfl⟩
  · rintro ⟨t, w, hown, hw, rfl⟩
    exact ⟨t, w, hown, hown ▸ hw, rfl⟩

theorem append_array (accepts : Basic → Bool) (hs : List Holder) (t : SigType) :
    appendArgument accepts (.array hs) (SigType.array t).render =
      ((hs.map (fun h => appendArgument accepts h t.render)).mapM one).map
        (fun ws => [.array t ws]) := by
  rw [appendArgument_eq, appendAt_of_ne (by simp), appendCase_array, Holder.getArray]

theorem append_dict (accepts : Basic → Bool) (es : List (Key × Holder)) (key : BasicKind)
    (t : SigType) : appendArgument accepts (.dict es) (SigType.dict key t).render =
      ((dictContents key (es.map (fun e => (e.1, appendArgument accepts e.2 t.render)))).bind
        (List.mapM (appendEntry accepts))).map (fun ws => [.dict key t ws]) := by
  rw [appendArgument_eq, appendAt_of_ne (by simp), appendCase_dict, Holder.entries]

/-- Whatever the holder: at a complete type (without structures and file descriptors), one
value of this type is appended, or the call is refused. -/
theorem append_well_typed (accepts : Basic → Bool) (h : Holder) (t : SigType) {ws : List Wire}
    (hws : appendArgument accepts h t.render = some ws) : ∃ w, ws = [w] ∧ w.HasType t := by
  induction h using Holder.induct generalizing t ws with
  | none =>
    rw [appendArgument_eq] at hws
    exact appendAt_typed (by simp [Holder.getArray]) (by simp [Holder.entries]) hws
  | basic value =>
    rw [appendArgument_eq] at hws
    exact appendAt_typed (by simp [Holder.getArray]) (by simp [Holder.entries]) hws
  | array hs ih =>
    rw [appendArgument_eq] at hws
    refine appendAt_typed ?_ (by simp [Holder.entries]) hws
    intro u r hr w hw
    obtain ⟨g, hg, rfl⟩ := List.mem_map.mp hr
    obtain ⟨w', hw', htyped⟩ := ih g hg u hw
    rwa [List.singleton_inj.mp hw']
  | dict es ih =>
    rw [appendArgument_eq] at hws
    refine appendAt_typed (by simp [Holder.getArray]) ?_ hws
    intro u r hr w hw
    obtain ⟨e, he, rfl⟩ := List.mem_map.mp hr
    obtain ⟨w', hw', htyped⟩ := ih e he u hw
    rwa [List.singleton_inj.mp hw']

theorem append_basic {accepts : Basic → Bool} (value : Basic) (w : Wire) :
    appendArgument accepts (.basic value) (SigType.basic value.kind).render = some [w] ↔
      accepts value.cStr = true ∧ w = .basic value.cStr := by
  rw [appendArgument_eq, appendAt_of_ne (by simp), appendCase_basic, getBasic_basic,
    appendBasic_eq_some_iff, List.singleton_inj]

theorem fits_basic {accepts : Basic → Bool} {kind : BasicKind} {value : Basic}
    (hkind : value.kind = kind) (haccepts : accepts value.cStr = true) :
    Fits accepts (.basic kind) (.basic value) := by
  rw [← hkind]
  exact .basic haccepts

/-- The options of a characteristic that is written to. -/
def requestOptions : Holder :=
  .dict [(⟨.basic .string, .text "type"⟩, .basic (.string "request"))]

theorem requestOptions_well_typed :
    ∃ w, [Wire.dict .string .variant
        [(.string "type", .variant (.basic (.string "request")))]] = [w] ∧
      w.HasType (.dict .string .variant) :=
  append_well_typed (fun _ => true) requestOptions (.dict .string .variant) rfl

theorem extract_dict (key : BasicKind) (t : SigType) (es : List (Basic × Wire)) :
    extractGeneric (.dict key t es) = asDict (es.map (fun e => (e.1, extractGeneric e.2))) := by
  cases es with
  | nil => rw [extractGeneric]; rfl
  | cons e es =>
    rw [extractGeneric, extractDict_eq]
    simp [asDict, withKeys]

theorem keyed_map {α β : Type} (f : α → β) (entries : List (Key × α)) :
    keyed (entries.map (fun e => (e.1, f e.2))) = (keyed entries).map (fun e => (e.1, f e.2)) := by
  rw [keyed, keyed, List.filterMap_map, List.map_filterMap]
  congr 1
  funext e
  simp [Function.comp_def]

theorem sentEntries_map {α β : Type} (f : α → β) (entries : List (Key × α)) :
    sentEntries (entries.map (fun e => (e.1, f e.2))) =
      (sentEntries entries).map (fun e => (e.1, f e.2)) := by
  rw [sentEntries, sentEntries, keyed_map, ← AssignMap.map_ofEntries, List.filter_map]
  rfl

theorem normal_dict (entries : List (Key × Holder)) :
    (Holder.dict entries).normal =
      asDict ((sentEntries entries).map (fun e => (e.1.cStr, e.2.normal))) := by
  rw [Holder.normal, normalEntries_eq, sentEntries_map, List.map_map]
  rfl

theorem mem_sentEntries {α : Type} {entries : List (Key × α)} {e : Basic × α}
    (he : e ∈ sentEntries entries) :
    e.1.kind.hasDict = true ∧ ∃ f ∈ entries, f.1.asBasic = some e.1 ∧ f.2 = e.2 := by
  obtain ⟨hmem, hdict⟩ := List.mem_filter.mp he
  obtain ⟨f, hf, hkey⟩ := List.mem_filterMap.mp (AssignMap.mem_of_mem_ofEntries hmem)
  obtain ⟨b, hb, rfl⟩ := Option.map_eq_some_iff.mp hkey
  exact ⟨hdict, f, hf, hb, rfl⟩

theorem kind_of_sent {α : Type} {key : BasicKind} {entries : List (Key × α)}
    (hkeys : ∀ e ∈ entries, e.1.type = .basic key) {e : Basic × α} (he : e ∈ sentEntries entries) :
    e.1.kind = key := by
  obtain ⟨-, f, hf, hbasic, -⟩ := mem_sentEntries he
  exact kind_of_basic (hkeys f hf) hbasic

theorem castKey_eq {α : Type} {key : BasicKind} {e : Key × α} (htype : e.1.type = .basic key) :
    castKey key e = e.1.asBasic.map (fun b => (b, e.2)) := by
  rw [castKey, Key.asBasic, htype]

theorem dictOf_eq {α : Type} {key : BasicKind} {entries : List (Key × α)}
    (hkeys : ∀ e ∈ entries, e.1.type = .basic key) :
    dictOf key entries = (entries.mapM (castKey key)).map AssignMap.ofEntries := by
  rw [dictOf, List.filter_eq_self.mpr]
  exact fun e he => decide_eq_true (hkeys e he)

theorem keyed_eq {α : Type} {key : BasicKind} {entries : List (Key × α)}
    (hkeys : ∀ e ∈ entries, e.1.type = .basic key) :
    keyed entries = entries.filterMap (castKey key) :=
  List.filterMap_congr fun e he => (castKey_eq (hkeys e he)).symm

theorem sentEntries_of_hasDict {α : Type} {key : BasicKind} {entries : List (Key × α)}
    (hkeys : ∀ e ∈ entries, e.1.type = .basic key) (hdict : key.hasDict = true) :
    sentEntries entries = AssignMap.ofEntries (entries.filterMap (castKey key)) := by
  rw [sentEntries, keyed_eq hkeys, List.filter_eq_self]
  intro e he
  obtain ⟨f, -, hkey⟩ := List.mem_filterMap.mp (AssignMap.mem_of_mem_ofEntries he)
  obtain ⟨b, hb, rfl⟩ := Option.map_eq_some_iff.mp hkey
  rwa [kind_of_cast hb]

/-- With one type of key, the entries that are sent are those of the type, if it has a case
and the keys have contents of it. -/
theorem dictContents_eq_some_iff {α : Type} {key : BasicKind} {entries : List (Key × α)}
    (hkeys : ∀ e ∈ entries, e.1.type = .basic key) (contents : List (Basic × α)) :
    dictContents key entries = some contents ↔
      (key.hasDict = true → ∀ e ∈ entries, e.1.asBasic.isSome = true) ∧
        contents = sentEntries entries := by
  by_cases hdict : key.hasDict = true
  · have hcast : ∀ e ∈ entries, (castKey key e).isSome = e.1.asBasic.isSome := by
      intro e he
      rw [castKey_eq (hkeys e he), Option.isSome_map]
    rw [dictContents, if_pos hdict, dictOf_eq hkeys, Option.map_eq_some_iff,
      sentEntries_of_hasDict hkeys hdict]
    constructor
    · rintro ⟨l, hl, rfl⟩
      refine ⟨fun _ e he => ?_, by rw [filterMap_of_mapped hl]⟩
      obtain ⟨b, hb⟩ := exists_of_mapped hl he
      rw [← hcast e he, hb]
      rfl
    · rintro ⟨hsome, rfl⟩
      exact ⟨_, mapM_of_isSome fun e he => (hcast e he).trans (hsome hdict e he), rfl⟩
  · have hnone : sentEntries entries = [] := by
      refine List.eq_nil_iff_forall_not_mem.mpr fun e he => hdict ?_
      rw [← kind_of_sent hkeys he]
      exact (mem_sentEntries he).1
    rw [dictContents, if_neg hdict, hnone]
    constructor
    · rintro ⟨rfl⟩
      exact ⟨fun h => absurd h hdict, rfl⟩
    · rintro ⟨-, rfl⟩
      rfl

theorem dictContents_map {α β : Type} (f : α → β) {key : BasicKind} {entries : List (Key × α)}
    (hkeys : ∀ e ∈ entries, e.1.type = .basic key) (contents : List (Basic × β)) :
    dictContents key (entries.map (fun e => (e.1, f e.2))) = some contents ↔
      (key.hasDict = true → ∀ e ∈ entries, e.1.asBasic.isSome = true) ∧
        contents = (sentEntries entries).map (fun e => (e.1, f e.2)) := by
  have htypes : ∀ e ∈ entries.map (fun e => (e.1, f e.2)), e.1.type = .basic key :=
    List.forall_mem_map.mpr hkeys
  rw [dictContents_eq_some_iff htypes, sentEntries_map, List.forall_mem_map]

/-- A holder that fits a type is sent as a value of the type, and comes back in its normal
form. -/
theorem fits_round_trip {accepts : Basic → Bool} {t : SigType} {h : Holder}
    (hfits : Fits accepts t h) :
    ∃ w, appendArgument accepts h t.render = some [w] ∧ w.HasType t ∧
      extractGeneric w = h.normal := by
  induction hfits with
  | @basic value haccepts =>
    have htyped := Wire.HasType.basic value.cStr
    rw [cStr_kind] at htyped
    exact ⟨.basic value.cStr, (append_basic value _).mpr ⟨haccepts, rfl⟩, htyped, rfl⟩
  | @variant t h hcomplete _ ih =>
    obtain ⟨w, hw, htyped, hextract⟩ := ih
    have hown := (completeType_iff _ _).mp hcomplete
    exact ⟨.variant w, append_variant_iff.mpr ⟨t, w, hown, hw, rfl⟩, .variant htyped,
      by rw [extractGeneric, hextract]⟩
  | @array t elements _ ih =>
    choose! write hwrite htyped hextract using ih
    -- no element is passed over, since each is of a known type
    have hall : ∀ w ∈ elements.map write, w.HasType t := by
      intro w hw
      obtain ⟨g, hg, rfl⟩ := List.mem_map.mp hw
      exact htyped g hg
    refine ⟨.array t (elements.map write), ?_, .array hall, ?_⟩
    · have hone : (elements.map (fun g => appendArgument accepts g t.render)).mapM one =
          some (elements.map write) := by
        rw [mapM_eq_some_iff, List.map_map, List.map_map]
        exact List.map_congr_left (fun g hg => one_eq_some_iff.mpr (hwrite g hg))
      rw [append_array, hone]
      rfl
    · rw [extractGeneric, extractArray_of_typed hall, List.map_map, Holder.normal,
        normalElements_eq]
      exact congrArg Holder.array (List.map_congr_left hextract)
  | @dict key t entries hkeys hcast haccepts _ ih =>
    -- `ih` is about the entries of the map: those that later ones replace are not sent
    choose! write hwrite htyped hextract using ih
    refine ⟨.dict key t ((sentEntries entries).map (fun e => (e.1.cStr, write e))), ?_,
      .dict (fun f hf => ?_) (fun f hf => ?_), ?_⟩
    · have hcontents : dictContents key
          (entries.map (fun e => (e.1, appendArgument accepts e.2 t.render))) =
          some ((sentEntries entries).map (fun e => (e.1, appendArgument accepts e.2 t.render))) :=
        (dictContents_map (fun h => appendArgument accepts h t.render) hkeys _).mpr
          ⟨hcast, rfl⟩
      have hall : ((sentEntries entries).map
            (fun e => (e.1, appendArgument accepts e.2 t.render))).mapM (appendEntry accepts) =
          some ((sentEntries entries).map (fun e => (e.1.cStr, write e))) := by
        rw [mapM_eq_some_iff, List.map_map, List.map_map]
        apply List.map_congr_left
        intro e he
        exact appendEntry_eq_some_iff.mpr ⟨haccepts e he, hwrite e he, rfl⟩
      rw [append_dict, hcontents, Option.bind_some, hall]
      rfl
    · obtain ⟨e, he, rfl⟩ := List.mem_map.mp hf
      rw [cStr_kind]
      exact kind_of_sent hkeys he
    · obtain ⟨e, he, rfl⟩ := List.mem_map.mp hf
      exact htyped e he
    · rw [extract_dict, normal_dict, List.map_map]
      exact congrArg asDict (List.map_congr_left (fun e he => Prod.ext rfl (hextract e he)))

theorem render_injective : Function.Injective SigType.render := by
  intro t u h
  have ht := completeType_render t
  rw [h, completeType_render] at ht
  exact (Option.some.inj ht).symm

theorem render_ne_nil (t : SigType) : t.render ≠ [] := by
  cases t <;> simp [SigType.render]

/-- The three forms of the signature of elements. -/
theorem elementSignature_cases (hs : List Holder) :
    Holder.elementSignature hs = ['v'] ∨ Holder.elementSignature hs = [] ∨
      ∃ kind : BasicKind, Holder.elementSignature hs = [kind.code] ∧
        ∀ h ∈ hs, ∃ b : Basic, h = .basic b ∧ b.kind = kind := by
  cases hs with
  | nil => exact Or.inl rfl
  | cons h hs =>
    rw [Holder.elementSignature]
    by_cases hall : (h :: hs).all (fun g => g.type = h.type) = true
    · rw [if_pos hall]
      cases h with
      | basic value =>
        refine Or.inr (Or.inr ⟨value.kind, rfl, fun g hg => ?_⟩)
        have htype := of_decide_eq_true (List.all_eq_true.mp hall g hg)
        cases g with
        | basic b => exact ⟨b, rfl, HolderType.basic.inj htype⟩
        | none => cases htype
        | array _ => cases htype
        | dict _ => cases htype
      | none => exact Or.inr (Or.inl rfl)
      | array _ => exact Or.inr (Or.inl rfl)
      | dict _ => exact Or.inr (Or.inl rfl)
    · rw [if_neg hall]
      exact Or.inl rfl

/-- The type that the signature of elements names, if it names one. -/
theorem elementSignature_eq_render {hs : List Holder} {t : SigType}
    (h : Holder.elementSignature hs = t.render) :
    t = .variant ∨ ∃ kind, t = .basic kind ∧ ∀ g ∈ hs, ∃ b : Basic, g = .basic b ∧ b.kind = kind := by
  rcases elementSignature_cases hs with hv | hnil | ⟨kind, hkind, hall⟩
  · exact Or.inl (render_injective (h.symm.trans hv))
  · exact absurd (h.symm.trans hnil) (render_ne_nil t)
  · exact Or.inr ⟨kind, render_injective (h.symm.trans hkind), hall⟩

theorem signature_array {hs : List Holder} {t : SigType}
    (h : (Holder.array hs).signature = t.render) :
    ∃ u, t = .array u ∧ Holder.elementSignature hs = u.render := by
  rw [Holder.signature] at h
  cases t with
  | basic kind => exact absurd (List.cons.inj h).1.symm (code_ne kind).2.1
  | variant => cases (List.cons.inj h).1
  | array u => exact ⟨u, rfl, (List.cons.inj h).2⟩
  | dict key u =>
    have helements := (List.cons.inj h).2
    rcases elementSignature_cases hs with hv | hnil | ⟨kind, hkind, -⟩
    · rw [hv] at helements
      cases helements
    · rw [hnil] at helements
      cases helements
    · rw [hkind] at helements
      exact absurd (List.cons.inj helements).1 (code_ne kind).2.2

theorem keySignature_of_same {ks : List Key} {kind : BasicKind}
    (h : ∀ k ∈ ks, k.type = .basic kind) :
    ∃ key : BasicKind, Holder.keySignature ks = [key.code] ∧ ∀ k ∈ ks, k.type = .basic key := by
  cases ks with
  | nil => exact ⟨.string, rfl, by simp⟩
  | cons k ks =>
    refine ⟨kind, ?_, h⟩
    rw [Holder.keySignature, if_pos, h k List.mem_cons_self, Holder.signatureType]
    refine List.all_eq_true.mpr fun l hl => decide_eq_true ?_
    rw [h l hl, h k List.mem_cons_self]

/-- The forms of the signature of keys. -/
theorem keySignature_cases (ks : List Key) :
    Holder.keySignature ks = ['v'] ∨ Holder.keySignature ks = [] ∨
      ∃ kind : BasicKind, Holder.keySignature ks = [kind.code] ∧ ∀ k ∈ ks, k.type = .basic kind := by
  cases ks with
  | nil => exact Or.inr (Or.inr ⟨.string, rfl, by simp⟩)
  | cons k ks =>
    rw [Holder.keySignature]
    by_cases hall : (k :: ks).all (fun l => l.type = k.type) = true
    · have hsame : ∀ l ∈ k :: ks, l.type = k.type :=
        fun l hl => of_decide_eq_true (List.all_eq_true.mp hall l hl)
      rw [if_pos hall]
      cases htype : k.type with
      | basic kind =>
        rw [htype] at hsame
        exact Or.inr (Or.inr ⟨kind, rfl, hsame⟩)
      | none => exact Or.inr (Or.inl rfl)
      | array => exact Or.inr (Or.inl rfl)
      | dict => exact Or.inr (Or.inl rfl)
    · rw [if_neg hall]
      exact Or.inl rfl

theorem signature_dict {es : List (Key × Holder)} {t : SigType}
    (h : (Holder.dict es).signature = t.render) :
    ∃ key u, t = .dict key u ∧ (∀ e ∈ es, e.1.type = .basic key) ∧
      Holder.elementSignature (es.map Prod.snd) = u.render := by
  rw [Holder.signature] at h
  cases t with
  | basic kind => exact absurd (List.cons.inj h).1.symm (code_ne kind).2.1
  | variant => cases (List.cons.inj h).1
  | array u =>
    have hbrace := render_ne_brace u []
    rw [List.append_nil] at hbrace
    exact absurd (List.cons.inj h).2.symm (hbrace _)
  | dict key u =>
    have hinner := (List.cons.inj (List.cons.inj h).2).2
    rcases keySignature_cases (es.map Prod.fst) with hv | hnil | ⟨kind, hkind, hall⟩
    · rw [hv] at hinner
      exact absurd (List.cons.inj hinner).1.symm (code_ne key).1
    · -- without a key there are too few characters
      have hlength := congrArg List.length hinner
      have hvalue := List.length_pos_iff.mpr (render_ne_nil u)
      rcases elementSignature_cases (es.map Prod.snd) with hs | hs | ⟨kind, hs, -⟩
      all_goals
        rw [hnil, hs] at hlength
        simp only [List.nil_append, List.length_append, List.length_cons, List.length_nil] at hlength
        omega
    · rw [hkind] at hinner
      obtain ⟨hcode, hvalue⟩ := List.cons.inj hinner
      have hkey : some kind = some key := by rw [← ofCode_code, ← ofCode_code, hcode]
      refine ⟨key, u, rfl, fun e he => ?_, List.append_cancel_right hvalue⟩
      rw [hall e.1 (List.mem_map_of_mem he), Option.some.inj hkey]

theorem elementSignature_eq_nil_iff (hs : List Holder) :
    Holder.elementSignature hs = [] ↔ Bundled hs := by
  cases hs with
  | nil => simp [Holder.elementSignature, Bundled]
  | cons h hs =>
    have hsimple : h.signatureSimple = [] ↔ ∀ kind, h.type ≠ .basic kind := by
      rw [Holder.signatureSimple]
      cases h.type <;> simp [Holder.signatureType]
    rw [Holder.elementSignature]
    by_cases hall : (h :: hs).all (fun g => g.type = h.type) = true
    · have htype : ∀ g ∈ h :: hs, g.type = h.type :=
        fun g hg => of_decide_eq_true (List.all_eq_true.mp hall g hg)
      rw [if_pos hall, hsimple]
      constructor
      · exact fun hne => ⟨List.cons_ne_nil h hs, h.type, hne, htype⟩
      · rintro ⟨-, type, hne, hsame⟩
        rwa [hsame h List.mem_cons_self]
    · rw [if_neg hall]
      constructor
      · intro hv
        cases hv
      · rintro ⟨-, type, -, hsame⟩
        refine absurd (List.all_eq_true.mpr fun g hg => decide_eq_true ?_) hall
        rw [hsame g hg, hsame h List.mem_cons_self]

theorem not_bundled_of_render {hs : List Holder} {t : SigType}
    (h : Holder.elementSignature hs = t.render) : ¬ Bundled hs := by
  rw [← elementSignature_eq_nil_iff, h]
  exact render_ne_nil t

theorem exists_render_of_not_bundled {hs : List Holder} (h : ¬ Bundled hs) :
    ∃ t, Holder.elementSignature hs = SigType.render t := by
  rcases elementSignature_cases hs with hv | hnil | ⟨kind, hkind, -⟩
  · exact ⟨.variant, hv⟩
  · exact absurd ((elementSignature_eq_nil_iff hs).mp hnil) h
  · exact ⟨.basic kind, hkind⟩

/-- What is sent at the signature of its container can be sent as a variant. -/
theorem sendable_of_element {accepts : Basic → Bool} {hs : List Holder} {t : SigType}
    (hsig : Holder.elementSignature hs = t.render) {h : Holder} (hmem : h ∈ hs) {w : Wire}
    (hw : appendArgument accepts h t.render = some [w])
    (ih : ∀ w, appendArgument accepts h SigType.variant.render = some [w] →
      Sendable accepts h) : Sendable accepts h := by
  rcases elementSignature_eq_render hsig with rfl | ⟨kind, rfl, hall⟩
  · exact ih w hw
  · obtain ⟨b, rfl, rfl⟩ := hall h hmem
    exact .basic ((append_basic b w).mp hw).1

theorem sendable_of_sent {accepts : Basic → Bool} {h : Holder} {w : Wire}
    (hw : appendArgument accepts h SigType.variant.render = some [w]) : Sendable accepts h := by
  induction h using Holder.induct generalizing w with
  | none =>
    obtain ⟨t, -, hown, -⟩ := append_variant_iff.mp hw
    exact absurd hown.symm (render_ne_nil t)
  | basic value =>
    obtain ⟨t, v, hown, hcontent, -⟩ := append_variant_iff.mp hw
    rw [← hown, Holder.signature] at hcontent
    exact .basic ((append_basic value v).mp hcontent).1
  | array hs ih =>
    obtain ⟨t, v, hown, hcontent, -⟩ := append_variant_iff.mp hw
    -- an element is sent at the signature of its array, which is `v` or its own
    obtain ⟨u, rfl, helements⟩ := signature_array hown
    rw [append_array, Option.map_eq_some_iff] at hcontent
    obtain ⟨ws, hws, -⟩ := hcontent
    refine .array (not_bundled_of_render helements) fun h hmem => ?_
    obtain ⟨x, hx⟩ := exists_of_mapped hws (List.mem_map_of_mem hmem)
    exact sendable_of_element helements hmem (one_eq_some_iff.mp hx) (fun w => ih h hmem)
  | dict es ih =>
    obtain ⟨t, v, hown, hcontent, -⟩ := append_variant_iff.mp hw
    obtain ⟨key, u, rfl, hkeys, hvalues⟩ := signature_dict hown
    rw [append_dict, Option.map_eq_some_iff] at hcontent
    obtain ⟨ws, hws, -⟩ := hcontent
    obtain ⟨contents, hcontents, hws⟩ := Option.bind_eq_some_iff.mp hws
    obtain ⟨hcast, rfl⟩ := (dictContents_map (fun h => appendArgument accepts h u.render) hkeys _).mp hcontents
    have hsent : ∀ e ∈ sentEntries es,
        accepts e.1.cStr = true ∧ ∃ w, appendArgument accepts e.2 u.render = some [w] := by
      intro e he
      obtain ⟨r, hr⟩ := exists_of_mapped hws (List.mem_map_of_mem he)
      obtain ⟨haccepts, hvalue, -⟩ := appendEntry_eq_some_iff.mp hr
      exact ⟨haccepts, r.2, hvalue⟩
    refine .dict hkeys (not_bundled_of_render hvalues) hcast (fun e he => (hsent e he).1)
      (fun e he => ?_)
    obtain ⟨-, f, hf, -, hvalue⟩ := mem_sentEntries he
    obtain ⟨x, hx⟩ := (hsent e he).2
    rw [← hvalue] at hx ⊢
    exact sendable_of_element hvalues (List.mem_map_of_mem hf) hx (fun w => ih f hf)

theorem fits_element {accepts : Basic → Bool} {hs : List Holder} {t : SigType}
    (hsig : Holder.elementSignature hs = t.render) {h : Holder} (hmem : h ∈ hs)
    (hfits : Fits accepts .variant h) : Fits accepts t h := by
  rcases elementSignature_eq_render hsig with rfl | ⟨kind, rfl, hall⟩
  · exact hfits
  · obtain ⟨b, rfl, rfl⟩ := hall h hmem
    cases hfits with
    | @variant t _ hcomplete hcontent =>
      have hown : (SigType.basic b.kind).render = t.render := (completeType_iff _ _).mp hcomplete
      rwa [render_injective hown]

theorem fits_of_sendable {accepts : Basic → Bool} {h : Holder} (hsend : Sendable accepts h) :
    Fits accepts .variant h := by
  induction hsend with
  | @basic value haccepts =>
    exact .variant ((completeType_iff _ (.basic value.kind)).mpr rfl) (.basic haccepts)
  | @array hs hbundled _ ih =>
    obtain ⟨u, helements⟩ := exists_render_of_not_bundled hbundled
    refine .variant ((completeType_iff _ (.array u)).mpr ?_)
      (.array fun h hmem => fits_element helements hmem (ih h hmem))
    rw [Holder.signature, helements]
    rfl
  | @dict kind es htypes hbundled hcast haccepts _ ih =>
    obtain ⟨u, hvalues⟩ := exists_render_of_not_bundled hbundled
    obtain ⟨key, hsig, hall⟩ := keySignature_of_same (List.forall_mem_map.mpr htypes)
    have hkeys : ∀ e ∈ es, e.1.type = .basic key := fun e he => hall e.1 (List.mem_map_of_mem he)
    refine .variant ((completeType_iff _ (.dict key u)).mpr ?_) (.dict hkeys (fun hdict e he => ?_)
      haccepts (fun e he => ?_))
    · rw [Holder.signature, hsig, hvalues]
      rfl
    · have hkind := (htypes e he).symm.trans (hkeys e he)
      rw [← HolderType.basic.inj hkind] at hdict
      exact hcast hdict e he
    · obtain ⟨-, f, hf, -, hvalue⟩ := mem_sentEntries he
      have hfits := ih e he
      rw [← hvalue] at hfits ⊢
      exact fits_element hvalues (List.mem_map_of_mem hf) hfits

/-- A holder can be sent as a variant exactly if its signature and those of its contents
are complete, and `libdbus` takes its texts. -/
theorem variant_sent_iff (accepts : Basic → Bool) (h : Holder) :
    (appendArgument accepts h ['v']).isSome = true ↔ Sendable accepts h := by
  constructor
  · intro hsent
    obtain ⟨ws, hws⟩ := Option.isSome_iff_exists.mp hsent
    obtain ⟨t, w, -, -, rfl⟩ := append_variant_iff.mp hws
    exact sendable_of_sent hws
  · intro hsend
    obtain ⟨w, hw, -⟩ := fits_round_trip (fits_of_sendable hsend)
    exact Option.isSome_iff_exists.mpr ⟨[w], hw⟩

/-- What is sent as a variant comes back in its normal form. -/
theorem variant_round_trip {accepts : Basic → Bool} {h : Holder} {ws : List Wire}
    (hsent : appendArgument accepts h ['v'] = some ws) :
    ∃ w, ws = [.variant w] ∧ extractGeneric (.variant w) = h.normal := by
  obtain ⟨t, w, -, -, rfl⟩ := append_variant_iff.mp hsent
  obtain ⟨v, hv, -, hextract⟩ := fits_round_trip (fits_of_sendable (sendable_of_sent hsent))
  have hwire : [Wire.variant w] = [v] := Option.some.inj (hsent.symm.trans hv)
  refine ⟨w, rfl, ?_⟩
  rw [List.singleton_inj.mp hwire, hextract]

theorem requestOptions_round_trip :
    ∃ w, [Wire.variant (.dict .string (.basic .string)
        [(.string "type", .basic (.string "request"))])] = [.variant w] ∧
      extractGeneric (.variant w) = requestOptions.normal :=
  @variant_round_trip (fun _ => true) requestOptions _ rfl

theorem map_self_iff {α : Type} {f : α → α} {l : List α} :
    l.map f = l ↔ ∀ a ∈ l, f a = a := by
  have h := List.map_inj_left (l := l) (f := f) (g := id)
  rwa [List.map_id] at h

theorem cStr_idem (b : Basic) : b.cStr.cStr = b.cStr := by
  cases b <;> simp [Basic.cStr, List.takeWhile_idem]

theorem sentEntries_of_sorted {entries : List (Basic × Holder)}
    (hsorted : AssignMap.Sorted entries) (hdict : ∀ e ∈ entries, e.1.kind.hasDict = true) :
    sentEntries (withKeys entries) = entries := by
  have hkeyed : keyed (withKeys entries) = entries := by
    simp [keyed, withKeys, List.filterMap_map]
  rw [sentEntries, hkeyed, hsorted.ofEntries_eq]
  exact List.filter_eq_self.mpr hdict

theorem asDict_eq_dict_iff (l : List (Basic × Holder)) (es : List (Key × Holder)) :
    asDict l = .dict es ↔ l ≠ [] ∧ es = withKeys l := by
  cases l with
  | nil =>
    constructor
    · intro h
      cases h
    · rintro ⟨hne, -⟩
      exact absurd rfl hne
  | cons e l =>
    rw [asDict, Holder.dict.injEq]
    constructor
    · intro h
      exact ⟨List.cons_ne_nil e l, h.symm⟩
    · rintro ⟨-, rfl⟩
      rfl

/-- The keys of a dictionary that comes back as it was are in order, and stay. -/
theorem keys_of_unchanged {l : List (Basic × Holder)}
    (h : (sentEntries (withKeys l)).map (fun e => (e.1.cStr, e.2.normal)) = l) :
    AssignMap.Sorted l ∧ (∀ e ∈ l, e.1.kind.hasDict = true) ∧ ∀ e ∈ l, e.1.cStr = e.1 := by
  have hfrom : ∀ e ∈ l, ∃ f ∈ sentEntries (withKeys l), e.1 = f.1.cStr := by
    intro e he
    rw [← h] at he
    obtain ⟨f, hf, rfl⟩ := List.mem_map.mp he
    exact ⟨f, hf, rfl⟩
  have hkeep : ∀ e ∈ l, e.1.cStr = e.1 := by
    intro e he
    obtain ⟨f, -, hkey⟩ := hfrom e he
    rw [hkey, cStr_idem]
  have hsame : ∀ f ∈ sentEntries (withKeys l), f.1.cStr = f.1 := by
    intro f hf
    obtain ⟨-, k, hk, hbasic, -⟩ := mem_sentEntries hf
    obtain ⟨e, he, rfl⟩ := List.mem_map.mp hk
    rw [ofBasic_asBasic, Option.some.injEq] at hbasic
    rw [← hbasic, hkeep e he]
  refine ⟨?_, ?_, hkeep⟩
  · have hsorted : AssignMap.Sorted (sentEntries (withKeys l)) :=
      List.Pairwise.filter _ (AssignMap.sorted_ofEntries _)
    rw [← h]
    refine List.pairwise_map.mpr (hsorted.imp_of_mem fun ha hb hlt => ?_)
    rwa [hsame _ ha, hsame _ hb]
  · intro e he
    obtain ⟨f, hf, hkey⟩ := hfrom e he
    rw [hkey, cStr_kind]
    exact (mem_sentEntries hf).1

theorem normal_canonical (h : Holder) : h.normal = h ↔ Canonical h := by
  induction h using Holder.induct with
  | none => exact ⟨fun _ => .none, fun _ => rfl⟩
  | basic value =>
    rw [Holder.normal, Holder.basic.injEq]
    constructor
    · exact .basic
    · intro h
      cases h with
      | basic hkeep => exact hkeep
  | array hs ih =>
    rw [Holder.normal, normalElements_eq, Holder.array.injEq, map_self_iff]
    constructor
    · exact fun h => .array fun g hg => (ih g hg).mp (h g hg)
    · intro h g hg
      cases h with
      | array hall => exact (ih g hg).mpr (hall g hg)
  | dict es ih =>
    have hcontent : ∀ {l : List (Basic × Holder)}, es = withKeys l → ∀ e ∈ l,
        (e.2.normal = e.2 ↔ Canonical e.2) := by
      rintro l rfl e he
      exact ih (.ofBasic e.1, e.2) (List.mem_map_of_mem he)
    rw [normal_dict, asDict_eq_dict_iff]
    constructor
    · rintro ⟨hne, hes⟩
      -- what comes back has keys of its own, so `es` is of this form already
      generalize hl : (sentEntries es).map (fun e => (e.1.cStr, e.2.normal)) = l at hne hes
      rw [hes] at hl
      obtain ⟨hsorted, hdict, hkeep⟩ := keys_of_unchanged hl
      rw [sentEntries_of_sorted hsorted hdict, map_self_iff] at hl
      rw [hes]
      exact .dict hne hsorted hdict hkeep
        fun e he => (hcontent hes e he).mp (congrArg Prod.snd (hl e he))
    · intro h
      cases h with
      | @dict l hne hsorted hdict hkeep hvalues =>
        have hself : l.map (fun e => (e.1.cStr, e.2.normal)) = l := map_self_iff.mpr
          fun e he => Prod.ext (hkeep e he) ((hcontent rfl e he).mpr (hvalues e he))
        rw [sentEntries_of_sorted hsorted hdict, hself]
        exact ⟨hne, rfl⟩

/-- What fits the type it is sent at comes back as it was exactly if it is canonical. -/
theorem unchanged_iff {accepts : Basic → Bool} {t : SigType} {h : Holder}
    (hfits : Fits accepts t h) :
    ∃ w, appendArgument accepts h t.render = some [w] ∧ (extractGeneric w = h ↔ Canonical h) := by
  obtain ⟨w, hw, -, hextract⟩ := fits_round_trip hfits
  exact ⟨w, hw, by rw [hextract, normal_canonical]⟩

theorem bytes_unchanged :
    ∃ w, appendArgument (fun _ => true) (.array [.basic (.byte 7), .basic (.byte 255)])
        (SigType.array (.basic .byte)).render = some [w] ∧
      (extractGeneric w = .array [.basic (.byte 7), .basic (.byte 255)] ↔
        Canonical (.array [.basic (.byte 7), .basic (.byte 255)])) := by
  refine unchanged_iff (.array fun h hmem => ?_)
  rcases List.mem_cons.mp hmem with rfl | hmem
  · exact fits_basic rfl rfl
  · rw [List.mem_singleton.mp hmem]
    exact fits_basic rfl rfl

end RCControl
