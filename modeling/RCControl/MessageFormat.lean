import RCControl.Holder

/-! The arguments of a D-Bus message, as `Message.cpp` appends them to a message and
extracts them from one. What `libdbus` itself refuses is a failure. -/
namespace RCControl

/-- A single complete type without structures and file descriptors. -/
inductive SigType
  | basic (kind : BasicKind)
  | variant
  | array (element : SigType)
  | dict (key : BasicKind) (value : SigType)
deriving DecidableEq, Repr

def SigType.render : SigType → Signature
  | basic kind => [kind.code]
  | variant => ['v']
  | array element => 'a' :: element.render
  | dict key value => 'a' :: '{' :: key.code :: (value.render ++ ['}'])

/-- The type a signature begins with, and what follows it. -/
def parseType : Signature → Option (SigType × Signature)
  | 'v' :: rest => some (.variant, rest)
  | 'a' :: '{' :: k :: cs =>
    match BasicKind.ofCode k, parseType cs with
    | some key, some (value, '}' :: rest) => some (.dict key value, rest)
    | _, _ => none
  | 'a' :: cs =>
    match parseType cs with
    | some (element, rest) => some (.array element, rest)
    | none => none
  | c :: rest =>
    match BasicKind.ofCode c with
    | some kind => some (.basic kind, rest)
    | none => none
  | [] => none

/-- The type, if the signature is one such type. -/
def completeType (sig : Signature) : Option SigType :=
  match parseType sig with
  | some (t, []) => some t
  | _ => none

/-- A value in a message. An array of dictionary entries is `dict`; `foreign` is a value
of a type the program does not know. -/
inductive Wire
  | basic (value : Basic)
  | array (element : SigType) (elements : List Wire)
  | dict (key : BasicKind) (value : SigType) (entries : List (Basic × Wire))
  | variant (content : Wire)
  | foreign
deriving Repr

instance : Inhabited Wire := ⟨.foreign⟩

inductive Wire.HasType : Wire → SigType → Prop
  | basic (value : Basic) : HasType (.basic value) (.basic value.kind)
  | array {t : SigType} {elements : List Wire} : (∀ w ∈ elements, HasType w t) →
      HasType (.array t elements) (.array t)
  | dict {key : BasicKind} {t : SigType} {entries : List (Basic × Wire)} :
      (∀ e ∈ entries, e.1.kind = key) → (∀ e ∈ entries, HasType e.2 t) →
      HasType (.dict key t entries) (.dict key t)
  | variant {t : SigType} {content : Wire} : HasType content t → HasType (.variant content) .variant

section Append
variable (accepts : Basic → Bool)

/-- `dbus_message_iter_append_basic`, which checks the value. -/
def appendBasic (value : Basic) : Option (List Wire) :=
  if accepts value.cStr then some [.basic value.cStr] else none

/-- What is written into a place for one value. -/
def one : Option (List Wire) → Option Wire
  | some [w] => some w
  | _ => none

/-- The variant case of `_append_argument`, with the signature of the holder itself. -/
def appendVariant (own : Signature) (content : Option (List Wire)) : Option (List Wire) :=
  match completeType own with
  | some _ => (one content).map (fun w => [.variant w])
  | none => none

/-- The types that have a case for the keys of a dictionary. -/
def BasicKind.hasDict : BasicKind → Bool
  | boolean => false
  | double => false
  | _ => true

/-- The body of `MESSAGE_DICT_APPEND_KEY_NUM` and `MESSAGE_DICT_APPEND_KEY_STR`. -/
def appendEntry (e : Basic × Option (List Wire)) : Option (Basic × Wire) :=
  if accepts e.1.cStr then (one e.2).map (fun w => (e.1.cStr, w)) else none

/-- The other cases, given what the contents of the holder append at a signature. -/
def appendCase (h : Holder) (elements : Signature → List (Option (List Wire)))
    (entries : Signature → List (Key × Option (List Wire))) : Signature → Option (List Wire)
  | [] => some []
  | c :: next =>
    match BasicKind.ofCode c with
    | some kind => appendBasic accepts (h.getBasic kind)
    | none =>
      if c = 'a' then
        match completeType (c :: next) with
        | some (.array t) => ((elements next).mapM one).map (fun ws => [.array t ws])
        | some (.dict key t) =>
          -- without the braces: the key, then the value
          let inner := (next.drop 1).dropLast
          let contents := if key.hasDict then dictOf key (entries (inner.drop 1)) else some []
          (contents.bind (List.mapM (appendEntry accepts))).map (fun es => [.dict key t es])
        | _ => none
      else some []

def appendAt (h : Holder) (elements : Signature → List (Option (List Wire)))
    (entries : Signature → List (Key × Option (List Wire))) (sig : Signature) :
    Option (List Wire) :=
  if sig.head? = some 'v' then
    -- the signature of a holder never begins with `v`, so this is the call of itself
    appendVariant h.signature (appendCase accepts h elements entries h.signature)
  else appendCase accepts h elements entries sig

mutual
/-- `_append_argument`: the values it appends. -/
def appendArgument : Holder → Signature → Option (List Wire)
  | .none, sig => appendAt accepts .none (fun _ => []) (fun _ => []) sig
  | .basic value, sig => appendAt accepts (.basic value) (fun _ => []) (fun _ => []) sig
  | .array elements, sig =>
    appendAt accepts (.array elements) (appendElements elements) (fun _ => []) sig
  | .dict entries, sig =>
    appendAt accepts (.dict entries) (fun _ => []) (appendEntries entries) sig

def appendElements : List Holder → Signature → List (Option (List Wire))
  | [], _ => []
  | h :: hs, sig => appendArgument h sig :: appendElements hs sig

def appendEntries : List (Key × Holder) → Signature → List (Key × Option (List Wire))
  | [], _ => []
  | (key, h) :: es, sig => (key, appendArgument h sig) :: appendEntries es sig
end

end Append

mutual
/-- `_extract_generic`. An empty array has no type, so it is no dictionary either. -/
def extractGeneric : Wire → Holder
  | .basic value => .basic value
  | .array _ elements => .array (extractArray elements)
  | .dict _ _ [] => .array []
  | .dict _ _ (e :: es) => .dict (extractDict (e :: es))
  | .variant content => extractGeneric content
  | .foreign => .none

/-- `_extract_array`, which passes over what it cannot read. -/
def extractArray : List Wire → List Holder
  | [] => []
  | w :: ws =>
    if (extractGeneric w).type = .none then extractArray ws
    else extractGeneric w :: extractArray ws

/-- The loop of `_extract_dict`. -/
def extractDict : List (Basic × Wire) → List (Key × Holder)
  | [] => []
  | (key, w) :: es => (.ofBasic key, extractGeneric w) :: extractDict es
end

/-- The entries whose keys have contents of their type. -/
def keyed {α : Type} (entries : List (Key × α)) : List (Basic × α) :=
  entries.filterMap (fun e => e.1.asBasic.map (fun key => (key, e.2)))

/-- The entries of a dictionary that are sent, if their keys are all of one type. -/
def sentEntries {α : Type} (entries : List (Key × α)) : List (Basic × α) :=
  (AssignMap.ofEntries (keyed entries)).filter (fun e => e.1.kind.hasDict)

/-- Entries with their keys as they are extracted. -/
def withKeys {α : Type} (entries : List (Basic × α)) : List (Key × α) :=
  entries.map (fun e => (.ofBasic e.1, e.2))

/-- A dictionary as it is extracted. -/
def asDict : List (Basic × Holder) → Holder
  | [] => .array []
  | e :: es => .dict (withKeys (e :: es))

mutual
/-- A holder as it comes back from a message: texts end at their first NUL, dictionaries
are in the order of their keys, each key with its last value, and an empty dictionary, or
one whose keys have no case, is an empty array. -/
def Holder.normal : Holder → Holder
  | .none => .none
  | .basic value => .basic value.cStr
  | .array elements => .array (normalElements elements)
  | .dict entries => asDict ((sentEntries (normalEntries entries)).map (fun e => (e.1.cStr, e.2)))

def normalElements : List Holder → List Holder
  | [] => []
  | h :: hs => h.normal :: normalElements hs

def normalEntries : List (Key × Holder) → List (Key × Holder)
  | [] => []
  | (key, h) :: es => (key, h.normal) :: normalEntries es
end

/-- The holder is a value of a type that `libdbus` takes: of a variant, if it is one of
the type its own signature names. -/
inductive Fits (accepts : Basic → Bool) : SigType → Holder → Prop
  | basic {value : Basic} : accepts value.cStr = true → Fits accepts (.basic value.kind) (.basic value)
  | variant {t : SigType} {h : Holder} : completeType h.signature = some t → Fits accepts t h →
      Fits accepts .variant h
  | array {t : SigType} {elements : List Holder} : (∀ h ∈ elements, Fits accepts t h) →
      Fits accepts (.array t) (.array elements)
  | dict {key : BasicKind} {t : SigType} {entries : List (Key × Holder)} :
      (∀ e ∈ entries, e.1.type = .basic key) →
      (key.hasDict = true → ∀ e ∈ entries, e.1.asBasic.isSome = true) →
      (∀ e ∈ sentEntries entries, accepts e.1.cStr = true) →
      (∀ e ∈ sentEntries entries, Fits accepts t e.2) →
      Fits accepts (.dict key t) (.dict entries)

/-- Some holders, all of one type, which is not a basic one. -/
def Bundled (hs : List Holder) : Prop :=
  hs ≠ [] ∧ ∃ type : HolderType, (∀ kind, type ≠ .basic kind) ∧ ∀ h ∈ hs, h.type = type

/-- What a variant takes: no contents of one and the same type of container, and no keys of
two types. -/
inductive Sendable (accepts : Basic → Bool) : Holder → Prop
  | basic {value : Basic} : accepts value.cStr = true → Sendable accepts (.basic value)
  | array {elements : List Holder} : ¬ Bundled elements → (∀ h ∈ elements, Sendable accepts h) →
      Sendable accepts (.array elements)
  | dict {key : BasicKind} {entries : List (Key × Holder)} :
      (∀ e ∈ entries, e.1.type = .basic key) → ¬ Bundled (entries.map Prod.snd) →
      (key.hasDict = true → ∀ e ∈ entries, e.1.asBasic.isSome = true) →
      (∀ e ∈ sentEntries entries, accepts e.1.cStr = true) →
      (∀ e ∈ sentEntries entries, Sendable accepts e.2) → Sendable accepts (.dict entries)

/-- What comes back from a message as it was sent. -/
inductive Canonical : Holder → Prop
  | none : Canonical .none
  | basic {value : Basic} : value.cStr = value → Canonical (.basic value)
  | array {elements : List Holder} : (∀ h ∈ elements, Canonical h) → Canonical (.array elements)
  | dict {entries : List (Basic × Holder)} : entries ≠ [] → AssignMap.Sorted entries →
      (∀ e ∈ entries, e.1.kind.hasDict = true) → (∀ e ∈ entries, e.1.cStr = e.1) →
      (∀ e ∈ entries, Canonical e.2) → Canonical (.dict (withKeys entries))

end RCControl
