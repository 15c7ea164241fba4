import RegistryTree.Calendar
import RegistryTree.Number.Binary64

/-!
# Values

The values that documents are made of. A list, tuple, set, mapping, day or moment may carry a share
number: parts of one document with the same number are one object, reached in several places.
Values are otherwise plain data: `Value.unshared` forgets the share numbers.

A mapping keeps its entries in the order in which their keys first came. `Value.sameKey` tells when
two keys are one key: the numbers are one kind of key, whatever type they have, so that `1`, `1.0`
and the truth value `true` are the same key. What stands for no number is a key that is only known
again by its mark.

> `sameKey_text`, `text_sameKey`: a text is no other key.
> `insert_of_new`: a new key goes to the end of a mapping.
-/

namespace RegistryTree

open RegistryTree.Number

/-- The kinds of document that are checked when they are taken in. -/
inductive Role where
  | definition
  | release
  | package
  deriving DecidableEq, Repr

/-- The number of an object that is reached in several places of a document. -/
abbrev Share := Option Nat

/-- A value of a document. -/
inductive Value where
  | null
  | bool (b : Bool)
  | int (n : Int)
  | float (x : Binary64)
  | text (s : String)
  | bytes (b : List UInt8)
  | date (share : Share) (d : Date)
  | moment (share : Share) (t : Moment)
  | list (share : Share) (items : List Value)
  | tuple (share : Share) (items : List Value)
  | set (share : Share) (items : List Value)
  | mapping (share : Share) (entries : List (Value × Value))
  /-- A document that has been taken in as one of the three kinds. -/
  | checked (role : Role) (document : Value)
  /-- Something that no document can hold. -/
  | foreign
  deriving Repr, Inhabited

/-- The entries of a mapping. -/
abbrev Entries := List (Value × Value)

/-- The name that messages give to a kind of document. -/
def Role.typeName : Role → String
  | .definition => "ResourceDefinitionModel"
  | .release => "ReleaseModel"
  | .package => "PackageModel"

namespace Value

/-- The name that messages give to the type of a value. -/
def typeName : Value → String
  | null => "NoneType"
  | bool _ => "bool"
  | int _ => "int"
  | float _ => "float"
  | text _ => "str"
  | bytes _ => "bytes"
  | date .. => "date"
  | moment .. => "datetime"
  | list .. => "list"
  | tuple .. => "tuple"
  | set .. => "set"
  | mapping .. => "dict"
  | checked role _ => role.typeName
  | foreign => "object"

mutual

/-- A value without its share numbers. -/
def unshared : Value → Value
  | date _ d => date none d
  | moment _ t => moment none t
  | list _ items => list none (unsharedItems items)
  | tuple _ items => tuple none (unsharedItems items)
  | set _ items => set none (unsharedItems items)
  | mapping _ entries => mapping none (unsharedEntries entries)
  | checked role document => checked role (unshared document)
  | v => v

/-- Values without their share numbers. -/
def unsharedItems : List Value → List Value
  | [] => []
  | v :: rest => unshared v :: unsharedItems rest

/-- Entries without their share numbers. -/
def unsharedEntries : Entries → Entries
  | [] => []
  | (k, v) :: rest => (unshared k, unshared v) :: unsharedEntries rest

end

/-- The value of a number of any type: an integer that orders the finite numbers, the sign of an
infinity, or the mark of a number that stands for no number. -/
inductive Magnitude where
  | notANumber (mark : Option Nat)
  | infinite (negative : Bool)
  | finite (scaled : Int)
  deriving DecidableEq

/-- The magnitude of a whole number. -/
def Magnitude.ofInt (n : Int) : Magnitude := .finite (n * Binary64.scale)

/-- The magnitude of a number, or `none` for a value that is no number. -/
def magnitude? : Value → Option Magnitude
  | bool b => some (Magnitude.ofInt (if b then 1 else 0))
  | int n => some (Magnitude.ofInt n)
  | float x =>
    some (if x.isNaN then .notANumber x.mark?
      else if x.isInfinite then .infinite x.negative
      else .finite x.scaledValue)
  | _ => none

/-- Whether one magnitude is less than another; nothing is less or more than no number. -/
def Magnitude.less : Magnitude → Magnitude → Bool
  | .notANumber _, _ => false
  | _, .notANumber _ => false
  | .infinite a, .infinite b => a && !b
  | .infinite a, .finite _ => a
  | .finite _, .infinite b => !b
  | .finite a, .finite b => a < b

/-- Whether two magnitudes are the same. What stands for no number is only the same as what bears
the same mark. -/
def Magnitude.same : Magnitude → Magnitude → Bool
  | .notANumber none, .notANumber none => false
  | x, y => x == y

/-- Whether two moments are the same moment. One with a known offset is never the same as one
without. -/
def sameMoment (s t : Moment) : Bool :=
  s.offset.isSome == t.offset.isSome && s.instant == t.instant

mutual

/-- Whether two values are the same key of a mapping or the same member of a set. -/
def sameKey (a b : Value) : Bool :=
  match a, b with
  | null, null => true
  | text s, text t => s == t
  | bytes s, bytes t => s == t
  | date _ s, date _ t => s == t
  | moment _ s, moment _ t => sameMoment s t
  | tuple _ s, tuple _ t => sameKeys s t
  | list _ s, list _ t => sameKeys s t
  | a, b =>
    match a.magnitude?, b.magnitude? with
    | some x, some y => x.same y
    | _, _ => false

/-- Whether two lists of values are the same keys in the same order. -/
def sameKeys : List Value → List Value → Bool
  | [], [] => true
  | a :: s, b :: t => sameKey a b && sameKeys s t
  | _, _ => false

end

theorem sameKey_text {a : Value} {s : String} : a.sameKey (text s) = true ↔ a = text s := by
  cases a <;> simp [sameKey, magnitude?]

theorem text_sameKey {a : Value} {s : String} : (text s).sameKey a = true ↔ a = text s := by
  cases a with
  | text t => simpa [sameKey] using eq_comm
  | _ => simp [sameKey, magnitude?]

end Value

namespace Entries

open Value

/-- Sets the value of a key: a known key keeps its spelling and its place. -/
def insert (entries : Entries) (key value : Value) : Entries :=
  match entries with
  | [] => [(key, value)]
  | (k, v) :: rest => if k.sameKey key then (k, value) :: rest else (k, v) :: insert rest key value

/-- The entries left when each of a list of them is set in turn. -/
def ofList (entries : Entries) : Entries :=
  entries.foldl (fun es e => insert es e.1 e.2) []

/-- The value of a key that is a text. -/
def get? (entries : Entries) (key : String) : Option Value :=
  entries.findSome? fun e =>
    match e.1 with
    | text s => if s = key then some e.2 else none
    | _ => none

theorem insert_of_new {entries : Entries} {key value : Value}
    (h : ∀ e ∈ entries, e.1.sameKey key = false) :
    insert entries key value = entries ++ [(key, value)] := by
  induction entries with
  | nil => rfl
  | cons e rest ih =>
    rw [insert, h e (List.mem_cons_self ..), if_neg (by simp),
      ih fun d hd => h d (List.mem_cons_of_mem _ hd)]
    rfl

end Entries

namespace Value

/-- The members of a set: the first of several that are the same. -/
def members (items : List Value) : List Value :=
  items.foldl (fun kept v => if kept.any (·.sameKey v) then kept else kept ++ [v]) []

end Value

end RegistryTree
