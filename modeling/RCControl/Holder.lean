import RCControl.AssignMap
import Mathlib.Data.Int.CharZero
import Mathlib.Data.Prod.Lex
import Mathlib.Data.String.Basic

/-! The values that D-Bus messages carry (`Holder.cpp`): their accessors, their
signatures, and the dictionaries that are read from them. -/
namespace RCControl

/-- The D-Bus types without contents of other types. -/
inductive BasicKind
  | byte
  | boolean
  | int16
  | uint16
  | int32
  | uint32
  | int64
  | uint64
  | double
  | string
  | objectPath
  | signature
deriving DecidableEq, Repr

/-- A value of such a type; a `double` is its 64 bits. -/
inductive Basic
  | byte (value : UInt8)
  | boolean (value : Bool)
  | int16 (value : Int16)
  | uint16 (value : UInt16)
  | int32 (value : Int32)
  | uint32 (value : UInt32)
  | int64 (value : Int64)
  | uint64 (value : UInt64)
  | double (bits : UInt64)
  | string (text : String)
  | objectPath (text : String)
  | signature (text : String)
deriving DecidableEq, Repr

/-- `Holder::Type`. -/
inductive HolderType
  | none
  | basic (kind : BasicKind)
  | array
  | dict
deriving DecidableEq, Repr

/-- What the `std::any` of a key holds. -/
inductive Contents
  | byte (value : UInt8)
  | boolean (value : Bool)
  | int16 (value : Int16)
  | uint16 (value : UInt16)
  | int32 (value : Int32)
  | uint32 (value : UInt32)
  | int64 (value : Int64)
  | uint64 (value : UInt64)
  | double (bits : UInt64)
  | text (text : String)
deriving DecidableEq, Repr

/-- The key of an entry, with the type it was appended with. Nothing checks that the
contents are of this type. -/
structure Key where
  type : HolderType
  contents : Contents
deriving DecidableEq, Repr

/-- `Holder` as its constructors fill it. A dictionary keeps the entries as they were
appended. -/
inductive Holder
  | none
  | basic (value : Basic)
  | array (elements : List Holder)
  | dict (entries : List (Key × Holder))
deriving Repr

abbrev Signature := List Char

/-- The type codes of D-Bus. -/
def BasicKind.code : BasicKind → Char
  | byte => 'y'
  | boolean => 'b'
  | int16 => 'n'
  | uint16 => 'q'
  | int32 => 'i'
  | uint32 => 'u'
  | int64 => 'x'
  | uint64 => 't'
  | double => 'd'
  | string => 's'
  | objectPath => 'o'
  | signature => 'g'

def BasicKind.ofCode (c : Char) : Option BasicKind :=
  [byte, boolean, int16, uint16, int32, uint32, int64, uint64, double, string, objectPath,
    signature].find? (fun kind => kind.code = c)

namespace Basic

def kind : Basic → BasicKind
  | byte _ => .byte
  | boolean _ => .boolean
  | int16 _ => .int16
  | uint16 _ => .uint16
  | int32 _ => .int32
  | uint32 _ => .uint32
  | int64 _ => .int64
  | uint64 _ => .uint64
  | double _ => .double
  | string _ => .string
  | objectPath _ => .objectPath
  | signature _ => .signature

/-- The order of the keys of `std::map`: of numbers as numbers, of texts as texts. -/
def rank : Basic → ℕ ×ₗ ℤ ×ₗ String
  | byte value => toLex (0, toLex (value.toNat, ""))
  | boolean value => toLex (1, toLex (if value then 1 else 0, ""))
  | int16 value => toLex (2, toLex (value.toInt, ""))
  | uint16 value => toLex (3, toLex (value.toNat, ""))
  | int32 value => toLex (4, toLex (value.toInt, ""))
  | uint32 value => toLex (5, toLex (value.toNat, ""))
  | int64 value => toLex (6, toLex (value.toInt, ""))
  | uint64 value => toLex (7, toLex (value.toNat, ""))
  | double bits => toLex (8, toLex (bits.toNat, ""))
  | string text => toLex (9, toLex (0, text))
  | objectPath text => toLex (10, toLex (0, text))
  | signature text => toLex (11, toLex (0, text))

theorem ite_one_inj (x y : Bool) : ((if x then 1 else 0 : ℤ) = if y then 1 else 0) ↔ x = y := by
  cases x <;> cases y <;> simp

theorem rank_injective : Function.Injective rank := by
  intro a b h
  cases a <;> cases b <;> simp_all [rank, ite_one_inj, UInt8.toNat_inj, UInt16.toNat_inj,
    UInt32.toNat_inj, UInt64.toNat_inj, Int16.toInt_inj, Int32.toInt_inj, Int64.toInt_inj]

instance : LinearOrder Basic := LinearOrder.lift' rank rank_injective

/-- `std::string(value.c_str())`: a text ends at its first NUL. -/
def cStr : Basic → Basic
  | string text => string (String.ofList (text.toList.takeWhile (· ≠ '\x00')))
  | objectPath text => objectPath (String.ofList (text.toList.takeWhile (· ≠ '\x00')))
  | signature text => signature (String.ofList (text.toList.takeWhile (· ≠ '\x00')))
  | b => b

/-- `get_contents`. -/
def contents : Basic → Contents
  | byte value => .byte value
  | boolean value => .boolean value
  | int16 value => .int16 value
  | uint16 value => .uint16 value
  | int32 value => .int32 value
  | uint32 value => .uint32 value
  | int64 value => .int64 value
  | uint64 value => .uint64 value
  | double bits => .double bits
  | string text => .text text
  | objectPath text => .text text
  | signature text => .text text

end Basic

/-- `std::any_cast` to the C++ type of a key, as which each kind of text is a string. -/
def Contents.cast : BasicKind → Contents → Option Basic
  | .byte, .byte value => some (.byte value)
  | .boolean, .boolean value => some (.boolean value)
  | .int16, .int16 value => some (.int16 value)
  | .uint16, .uint16 value => some (.uint16 value)
  | .int32, .int32 value => some (.int32 value)
  | .uint32, .uint32 value => some (.uint32 value)
  | .int64, .int64 value => some (.int64 value)
  | .uint64, .uint64 value => some (.uint64 value)
  | .double, .double bits => some (.double bits)
  | .string, .text value => some (.string value)
  | .objectPath, .text value => some (.objectPath value)
  | .signature, .text value => some (.signature value)
  | _, _ => none

namespace Key

/-- The key that `_extract_dict` makes of a value. -/
def ofBasic (value : Basic) : Key := ⟨.basic value.kind, value.contents⟩

/-- The value of the key, if its contents are of its type. -/
def asBasic (key : Key) : Option Basic :=
  match key.type with
  | .basic kind => key.contents.cast kind
  | _ => none

end Key

namespace Holder

def type : Holder → HolderType
  | .none => .none
  | .basic value => .basic value.kind
  | .array _ => .array
  | .dict _ => .dict

/-- `holder_integer`, with the sign of a signed number extended. -/
def integer : Holder → UInt64
  | .basic (.byte value) => value.toUInt64
  | .basic (.int16 value) => value.toInt64.toUInt64
  | .basic (.uint16 value) => value.toUInt64
  | .basic (.int32 value) => value.toInt64.toUInt64
  | .basic (.uint32 value) => value.toUInt64
  | .basic (.int64 value) => value.toUInt64
  | .basic (.uint64 value) => value
  | _ => 0

/-- `holder_string`. -/
def text : Holder → String
  | .basic (.string text) => text
  | .basic (.objectPath text) => text
  | .basic (.signature text) => text
  | _ => ""

def getBoolean : Holder → Bool
  | .basic (.boolean value) => value
  | _ => false

def getDouble : Holder → UInt64
  | .basic (.double bits) => bits
  | _ => 0

def getByte (h : Holder) : UInt8 := h.integer.toUInt8

def getInt16 (h : Holder) : Int16 := h.integer.toInt64.toInt16

def getUint16 (h : Holder) : UInt16 := h.integer.toUInt16

def getInt32 (h : Holder) : Int32 := h.integer.toInt64.toInt32

def getUint32 (h : Holder) : UInt32 := h.integer.toUInt32

def getInt64 (h : Holder) : Int64 := h.integer.toInt64

def getUint64 (h : Holder) : UInt64 := h.integer

def getString (h : Holder) : String := h.text

def getObjectPath (h : Holder) : String := h.text

def getSignature (h : Holder) : String := h.text

def getArray : Holder → List Holder
  | .array elements => elements
  | _ => []

/-- `holder_dict`. -/
def entries : Holder → List (Key × Holder)
  | .dict entries => entries
  | _ => []

/-- The accessor for a type. -/
def getBasic (h : Holder) : BasicKind → Basic
  | .byte => .byte h.getByte
  | .boolean => .boolean h.getBoolean
  | .int16 => .int16 h.getInt16
  | .uint16 => .uint16 h.getUint16
  | .int32 => .int32 h.getInt32
  | .uint32 => .uint32 h.getUint32
  | .int64 => .int64 h.getInt64
  | .uint64 => .uint64 h.getUint64
  | .double => .double h.getDouble
  | .string => .string h.getString
  | .objectPath => .objectPath h.getObjectPath
  | .signature => .signature h.getSignature

end Holder

def castKey {α : Type} (kind : BasicKind) (e : Key × α) : Option (Basic × α) :=
  (e.1.contents.cast kind).map (fun key => (key, e.2))

/-- The entries whose keys have a type, as the `std::map` that `_get_dict` makes of them. It
throws at contents of another type. -/
def dictOf {α : Type} (kind : BasicKind) (entries : List (Key × α)) : Option (List (Basic × α)) :=
  ((entries.filter (fun e : Key × α => e.1.type = .basic kind)).mapM (castKey kind)).map
    AssignMap.ofEntries

namespace Holder

/-- `get_dict_uint8` to `get_dict_signature`. -/
def getDict (kind : BasicKind) (h : Holder) : Option (List (Basic × Holder)) :=
  dictOf kind h.entries

def arrayAppend : Holder → Holder → Holder
  | .array elements, h => .array (elements ++ [h])
  | g, _ => g

def dictAppend : Holder → HolderType → Contents → Holder → Holder
  | .dict entries, type, key, h => .dict (entries ++ [(⟨type, key⟩, h)])
  | g, _, _, _ => g

/-- `_signature_type`. -/
def signatureType : HolderType → Signature
  | .basic kind => [kind.code]
  | _ => []

/-- `_signature_simple`. -/
def signatureSimple (h : Holder) : Signature := signatureType h.type

/-- The signature of the elements of an array, or of the values of a dictionary. -/
def elementSignature : List Holder → Signature
  | [] => ['v']
  | h :: hs => if (h :: hs).all (fun g => g.type = h.type) then h.signatureSimple else ['v']

/-- The signature of the keys of a dictionary. -/
def keySignature : List Key → Signature
  | [] => ['s']
  | k :: ks => if (k :: ks).all (fun l => l.type = k.type) then signatureType k.type else ['v']

def signature : Holder → Signature
  | .none => []
  | .basic value => [value.kind.code]
  | .array elements => 'a' :: elementSignature elements
  | .dict entries =>
    'a' :: '{' :: (keySignature (entries.map Prod.fst) ++
      (elementSignature (entries.map Prod.snd) ++ ['}']))

/-- Induction on a holder and on all it contains. -/
theorem induct {P : Holder → Prop} (none : P .none) (basic : ∀ value, P (.basic value))
    (array : ∀ elements, (∀ h ∈ elements, P h) → P (.array elements))
    (dict : ∀ entries : List (Key × Holder), (∀ e ∈ entries, P e.2) → P (.dict entries))
    (h : Holder) : P h := by
  refine Holder.rec (motive_1 := P) (motive_2 := fun hs => ∀ h ∈ hs, P h)
    (motive_3 := fun es => ∀ e ∈ es, P e.2) (motive_4 := fun e => P e.2) none basic array dict
    ?_ ?_ ?_ ?_ ?_ h
  · exact fun _ hmem => absurd hmem List.not_mem_nil
  · intro h hs hh hhs g hg
    rcases List.mem_cons.mp hg with rfl | hg
    · exact hh
    · exact hhs g hg
  · exact fun _ hmem => absurd hmem List.not_mem_nil
  · intro e es he hes f hf
    rcases List.mem_cons.mp hf with rfl | hf
    · exact he
    · exact hes f hf
  · exact fun _ _ hh => hh

end Holder

@[simp] theorem ofCode_code (kind : BasicKind) : BasicKind.ofCode kind.code = some kind := by
  cases kind <;> rfl

theorem code_of_ofCode {c : Char} {kind : BasicKind} (h : BasicKind.ofCode c = some kind) :
    c = kind.code := by
  have hfound := List.find?_some h
  exact (of_decide_eq_true hfound).symm

@[simp] theorem getBasic_kind (h : Holder) (kind : BasicKind) : (h.getBasic kind).kind = kind := by
  cases kind <;> rfl

/-- A holder gives back what it was created with. -/
theorem getBasic_basic (b : Basic) : (Holder.basic b).getBasic b.kind = b := by
  cases b <;> simp [Holder.getBasic, Basic.kind, Holder.getByte, Holder.getBoolean,
    Holder.getInt16, Holder.getUint16, Holder.getInt32, Holder.getUint32, Holder.getInt64,
    Holder.getUint64, Holder.getDouble, Holder.getString, Holder.getObjectPath,
    Holder.getSignature, Holder.integer, Holder.text]

@[simp] theorem ofBasic_asBasic (b : Basic) : (Key.ofBasic b).asBasic = some b := by
  cases b <;> rfl

theorem kind_of_cast {c : Contents} {kind : BasicKind} {b : Basic} (h : c.cast kind = some b) :
    b.kind = kind := by
  cases kind <;> cases c <;> cases h <;> rfl

theorem kind_of_basic {key : Key} {kind : BasicKind} (htype : key.type = .basic kind) {b : Basic}
    (h : key.asBasic = some b) : b.kind = kind := by
  rw [Key.asBasic, htype] at h
  exact kind_of_cast h

theorem cStr_kind (b : Basic) : b.cStr.kind = b.kind := by
  cases b <;> rfl

end RCControl
