import Mathlib.Data.Rat.Defs
import Elsa.Base.FixedWidth
import Elsa.Base.Steps

/-!
# The JSON library of the market data

The services make and read JSON values through `nlohmann::json`, which is not part of the repository.  `NlohmannJson`
has the operations they call and the laws of these that the results rest on: a field and an element are found where
they were put, and a number or a text is read at a type as it was written.  `get<int>` keeps the low bits of an
integer and cuts off the fraction of a double.

Doubles are exact numbers here.  `Json` is a type of values with such operations.
-/

namespace Elsa.MarketData

open Base

/-- `nlohmann::json::type_error` and `out_of_range`. -/
inductive JsonError
  | typeError
  | outOfRange
deriving DecidableEq, Repr

/-- A number without its fraction. -/
def truncate (x : ℚ) : Int := Int.tdiv x.num x.den

/-- The values of the library, the operations on them and their laws. -/
class NlohmannJson (J : Type) where
  string : String → J
  numberInteger : Int → J
  numberUnsigned : Nat → J
  numberFloat : ℚ → J
  array : List J → J
  object : List (String × J) → J
  contains : J → String → Bool
  /-- No elements. -/
  empty : J → Bool
  /-- `at` with a key. -/
  at_ : J → String → Except JsonError J
  /-- `operator[]` with a key, on a value that may be changed: a key that is missing is inserted. -/
  field : J → String → Except JsonError J
  /-- `operator[]` with an index. -/
  elem : J → Nat → Except JsonError J
  /-- `get<double>`. -/
  getDouble : J → Except JsonError ℚ
  /-- `get<int>`. -/
  getInt : J → Except JsonError Int
  /-- `get<int64_t>`. -/
  getInt64 : J → Except JsonError Int
  /-- `get<std::string>`. -/
  getString : J → Except JsonError String
  contains_object (fields : List (String × J)) (key : String) :
    contains (object fields) key = (fields.lookup key).isSome
  at_object {fields : List (String × J)} {key : String} {value : J} :
    fields.lookup key = some value → at_ (object fields) key = .ok value
  field_object {fields : List (String × J)} {key : String} {value : J} :
    fields.lookup key = some value → field (object fields) key = .ok value
  elem_array {values : List J} {i : Nat} {value : J} :
    values[i]? = some value → elem (array values) i = .ok value
  getDouble_integer (n : Int) : getDouble (numberInteger n) = .ok n
  getDouble_unsigned (n : Nat) : getDouble (numberUnsigned n) = .ok n
  getDouble_float (x : ℚ) : getDouble (numberFloat x) = .ok x
  getInt_integer {n : Int} : IsInt32 n → getInt (numberInteger n) = .ok n
  /-- The low bits of an integer that is too large. -/
  getInt_unsigned (n : Nat) : getInt (numberUnsigned n) = .ok (Arith.machine.int n)
  getInt_float {x : ℚ} : IsInt32 (truncate x) → getInt (numberFloat x) = .ok (truncate x)
  getInt64_unsigned {n : Nat} : n < 9223372036854775808 → getInt64 (numberUnsigned n) = .ok n
  getString_string (s : String) : getString (string s) = .ok s

/-! ### Values as syntax trees -/

inductive Json
  | null
  | boolean (b : Bool)
  | numberInteger (n : Int)
  | numberUnsigned (n : Nat)
  | numberFloat (x : ℚ)
  | string (s : String)
  | array (values : List Json)
  | object (fields : List (String × Json))

namespace Json

def contains (j : Json) (key : String) : Bool :=
  match j with
  | .object fields => (fields.lookup key).isSome
  | _ => false

def empty : Json → Bool
  | .null => true
  | .array values => values.isEmpty
  | .object fields => fields.isEmpty
  | _ => false

def at_ (j : Json) (key : String) : Except JsonError Json :=
  match j with
  | .object fields => orFail (fields.lookup key) .outOfRange
  | _ => .error .typeError

def field (j : Json) (key : String) : Except JsonError Json :=
  match j with
  | .object fields => .ok ((fields.lookup key).getD .null)
  | .null => .ok .null
  | _ => .error .typeError

def elem (j : Json) (i : Nat) : Except JsonError Json :=
  match j with
  | .array values => orFail values[i]? .outOfRange
  | _ => .error .typeError

def getDouble : Json → Except JsonError ℚ
  | .numberInteger n => .ok n
  | .numberUnsigned n => .ok n
  | .numberFloat x => .ok x
  | _ => .error .typeError

def getInt : Json → Except JsonError Int
  | .numberInteger n => .ok (Arith.machine.int n)
  | .numberUnsigned n => .ok (Arith.machine.int n)
  | .numberFloat x => .ok (Arith.machine.int (truncate x))
  | .boolean b => .ok (if b then 1 else 0)
  | _ => .error .typeError

def getInt64 : Json → Except JsonError Int
  | .numberInteger n => .ok (Arith.machine.int64 n)
  | .numberUnsigned n => .ok (Arith.machine.int64 n)
  | .numberFloat x => .ok (Arith.machine.int64 (truncate x))
  | _ => .error .typeError

def getString : Json → Except JsonError String
  | .string s => .ok s
  | _ => .error .typeError

end Json

instance : NlohmannJson Json where
  string := .string
  numberInteger := .numberInteger
  numberUnsigned := .numberUnsigned
  numberFloat := .numberFloat
  array := .array
  object := .object
  contains := Json.contains
  empty := Json.empty
  at_ := Json.at_
  field := Json.field
  elem := Json.elem
  getDouble := Json.getDouble
  getInt := Json.getInt
  getInt64 := Json.getInt64
  getString := Json.getString
  contains_object _ _ := rfl
  at_object h := congrArg (orFail · JsonError.outOfRange) h
  field_object h := congrArg (fun value : Option Json => Except.ok (value.getD .null)) h
  elem_array h := congrArg (orFail · JsonError.outOfRange) h
  getDouble_integer _ := rfl
  getDouble_unsigned _ := rfl
  getDouble_float _ := rfl
  getInt_integer h := congrArg Except.ok (Arith.machine.int_eq _ h)
  getInt_unsigned _ := rfl
  getInt_float h := congrArg Except.ok (Arith.machine.int_eq _ h)
  getInt64_unsigned {n} h := congrArg Except.ok (Arith.machine.int64_eq n ⟨by omega, by omega⟩)
  getString_string _ := rfl

end Elsa.MarketData
