import AutomateLinux.StandardLibrary
import Mathlib.Algebra.Order.Ring.Int
import Mathlib.Data.Rat.Defs

/-!
# JSON values and their accessors

A received line is parsed into a JSON value before anything looks at it.  The
value is modelled with the kinds the parser distinguishes; the accessors are
those the handlers use.  A typed read of a value of another kind throws
`type_error.302`, and looking a key up in anything but an object finds nothing.
-/

namespace AutomateLinux

inductive Json where
  | null
  | boolean (value : Bool)
  | number_integer (value : Int)
  | number_unsigned (value : ℕ)
  | number_float (value : ℚ)
  | string (value : String)
  | array (items : List Json)
  | object (members : List (String × Json))

namespace Json

def type_name : Json → String
  | null => "null"
  | boolean _ => "boolean"
  | number_integer _ => "number"
  | number_unsigned _ => "number"
  | number_float _ => "number"
  | string _ => "string"
  | array _ => "array"
  | object _ => "object"

/-- The exception of a typed read that finds another type. -/
def typeError (expected : String) (found : Json) : Exn :=
  ⟨"[json.exception.type_error.302] type must be " ++ expected ++ ", but is " ++
    found.type_name⟩

/-- The member a key names, if the value is an object that has it. -/
def find? (j : Json) (key : String) : Option Json :=
  match j with
  | object members => members.lookup key
  | _ => none

def contains (j : Json) (key : String) : Bool := (j.find? key).isSome

def is_object : Json → Bool
  | object _ => true
  | _ => false

def is_string : Json → Bool
  | string _ => true
  | _ => false

def is_number : Json → Bool
  | number_integer _ => true
  | number_unsigned _ => true
  | number_float _ => true
  | _ => false

def getString : Json → Except Exn String
  | string value => .ok value
  | j => .error (typeError "string" j)

/-- Conversion to a signed integer of the given width wraps around. -/
def wrap (width : ℕ) (value : Int) : Int := value.bmod (2 ^ width)

/-- `get<int>` and its siblings read numbers and booleans. -/
def getInt (width : ℕ) : Json → Except Exn Int
  | number_integer value => .ok (wrap width value)
  | number_unsigned value => .ok (wrap width value)
  | number_float value => .ok (wrap width (value.num.tdiv value.den))
  | boolean value => .ok (if value then 1 else 0)
  | j => .error (typeError "number" j)

/-- `get<uint16_t>` and its siblings. -/
def getUInt (width : ℕ) (j : Json) : Except Exn ℕ :=
  (j.getInt 64).map fun value => (value % 2 ^ width).toNat

def getBool : Json → Except Exn Bool
  | boolean value => .ok value
  | j => .error (typeError "boolean" j)

/-- `j.value(key, fallback)`: only an object may be asked. -/
def value {α : Type} (j : Json) (key : String) (get : Json → Except Exn α)
    (fallback : α) : Except Exn α :=
  match j with
  | object members =>
      match members.lookup key with
      | some member => get member
      | none => .ok fallback
  | j =>
      .error ⟨"[json.exception.type_error.306] cannot use value() with " ++
        j.type_name⟩

/-- What a range-based loop over the value goes through. -/
def elements : Json → List Json
  | null => []
  | array items => items
  | object members => members.map Prod.snd
  | j => [j]

theorem getString_eq_error {j : Json} (hj : j.is_string = false) :
    j.getString = .error (typeError "string" j) := by
  cases j <;> first | rfl | simp [is_string] at hj

theorem find?_of_contains {j : Json} {key : String}
    (hj : j.contains key = true) : ∃ member, j.find? key = some member :=
  Option.isSome_iff_exists.mp hj

theorem is_object_of_find? {j member : Json} {key : String}
    (hfind : j.find? key = some member) : j.is_object = true := by
  cases j <;> simp [find?, is_object] at hfind ⊢

end Json

/-- `if (!message.empty() && message.back() == '\r') message.pop_back()`. -/
def dropCarriageReturn (message : List UInt8) : List UInt8 :=
  if message.getLast? = some 13 then message.dropLast else message

/-- A line as a receiver parses it. -/
def received (parse : List UInt8 → Option Json) (bytes : List UInt8) :
    Option Json :=
  parse (dropCarriageReturn bytes)

/-- What a command handler returns. -/
structure CmdResult where
  status : Int
  message : String
deriving DecidableEq, Repr

end AutomateLinux
