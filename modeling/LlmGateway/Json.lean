import LlmGateway.Platform

/-!
# JSON values and their typed accessors

The part of `nlohmann::json` the gateway relies on.  Parsing text is the
library's business, so a body enters the model as the outcome of
`json::parse`; reading fields out of a parsed value is the gateway's, and is
modelled with the exceptions the accessors are documented to throw:
`type_error.306` for `value` on something that is not an object,
`type_error.302` for a present field of another type (`null` included) and
`type_error.305` for a numeric subscript of something that is not an array.
-/

namespace Gateway

/-- A `json` value.  Members of an object have distinct names and are listed in any
order: the library keeps them in a `std::map`, so an iteration over them visits
`OrderedMap.ofList members`, in the order of the names. -/
inductive Json where
  | null
  | boolean (b : Bool)
  | integer (n : ℤ)
  | float (x : ℚ)
  | string (s : Str)
  | array (xs : List Json)
  | object (members : List (Str × Json))
  deriving Inhabited

/-- The exceptions derived from `std::exception` that the gateway meets. -/
inductive Exn where
  | runtimeError (what : Str)
  | parseError (what : Str)
  | typeError (id : Nat) (what : Str)
  deriving DecidableEq, Repr

/-- `what()`. -/
def Exn.what : Exn → Str
  | .runtimeError what => what
  | .parseError what => what
  | .typeError id what =>
      str "[json.exception.type_error." ++ toStringNat id ++ str "] " ++ what

/-- Two computations in sequence succeed through the result of the first. -/
theorem bind_eq_ok {ε α β : Type} {x : Except ε α} {f : α → Except ε β} {b : β}
    (h : x >>= f = .ok b) : ∃ a, x = .ok a ∧ f a = .ok b := by
  cases x with
  | error e => cases h
  | ok a => exact ⟨a, rfl, h⟩

namespace Json

/-- `type_name()`. -/
def typeName : Json → Str
  | null => str "null"
  | boolean _ => str "boolean"
  | integer _ | float _ => str "number"
  | string _ => str "string"
  | array _ => str "array"
  | object _ => str "object"

/-- The member of an object, if the value is an object and has it. -/
def find? : Json → Str → Option Json
  | object members, key => members.lookup key
  | _, _ => none

def contains (j : Json) (key : Str) : Bool := (j.find? key).isSome

def isArray : Json → Bool
  | array _ => true
  | _ => false

/-- `empty()`: a scalar other than `null` is never empty. -/
def isEmpty : Json → Bool
  | null => true
  | array xs => xs.isEmpty
  | object members => members.isEmpty
  | _ => false

/-- The elements a range-for visits; the gateway loops over arrays only. -/
def elements : Json → List Json
  | array xs => xs
  | _ => []

def wrongType (expected : String) (j : Json) : Exn :=
  .typeError 302 (str "type must be " ++ str expected ++ str ", but is " ++ j.typeName)

/-- `get<std::string>()`. -/
def getString : Json → Except Exn Str
  | string s => .ok s
  | j => .error (wrongType "string" j)

/-- `get<bool>()`. -/
def getBool : Json → Except Exn Bool
  | boolean b => .ok b
  | j => .error (wrongType "boolean" j)

/-- `get<double>()`. -/
def getDouble : Json → Except Exn Double
  | integer n => .ok n
  | float x => .ok x
  | j => .error (wrongType "number" j)

/-- `get<int>()`: a conversion to 32 bits, which takes a boolean as well. -/
def getInt : Json → Except Exn ℤ
  | integer n => .ok (wrap32 n)
  | float x => .ok (wrap32 (x.num.tdiv x.den))
  | boolean b => .ok (if b then 1 else 0)
  | j => .error (wrongType "number" j)

/-- `value(key, default)` at the type `get` reads. -/
def value {α : Type} (get : Json → Except Exn α) (j : Json) (key : Str) (dflt : α) :
    Except Exn α :=
  match j with
  | object members =>
      match members.lookup key with
      | some v => get v
      | none => .ok dflt
  | other => .error (.typeError 306 (str "cannot use value() with " ++ other.typeName))

/-- `operator[](0)` on a constant value that is known not to be empty. -/
def first : Json → Except Exn Json
  | array (x :: _) => .ok x
  | j => .error (.typeError 305
      (str "cannot use operator[] with a numeric argument with " ++ j.typeName))

/-- A field that `value` reads successfully has the requested type or is missing
from an object. -/
theorem value_eq_ok {α : Type} {get : Json → Except Exn α} {j : Json} {key : Str}
    {dflt a : α} (h : j.value get key dflt = .ok a) :
    (∃ v, j.find? key = some v ∧ get v = .ok a) ∨ (j.find? key = none ∧ a = dflt) := by
  cases j with
  | object members =>
      simp only [value] at h
      split at h
      · next v hv => exact .inl ⟨v, hv, h⟩
      · next hv => exact .inr ⟨hv, (Except.ok.inj h).symm⟩
  | _ => simp [value] at h

end Json

end Gateway
