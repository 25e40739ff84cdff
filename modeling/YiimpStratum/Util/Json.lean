import YiimpStratum.Library.CharArray
import YiimpStratum.Util.Double
import YiimpStratum.Util.Hex

/-!
# Values of the JSON parser

The values that `json_parse` makes, and the functions of `json.cpp` that look
at their type before they read them.  The characters of a string may have a
terminator among them, and a reader of the string stops there.
-/

namespace YiimpStratum.Util

open YiimpStratum

/-- `json_value` -/
inductive Json where
  | object (members : List (CString × Json))
  | array (elements : List Json)
  | integer (value : Int)
  | double (value : Double)
  | string (text : List Char)
  | boolean (value : Bool)
  | null

/-- An `int` of the value. -/
def toInt (value : Int) : Int :=
  (BitVec.ofInt 32 value).toInt

namespace Json

/-- The first member with this name, as every lookup by name finds it. -/
def lookup (members : List (CString × Json)) (key : CString) : Option Json :=
  (members.find? fun member => textOf member.1 == key).map Prod.snd

/-- `json_get_val` -/
def getVal (json : Json) (key : CString) : Option Json :=
  match json with
  | object members => lookup members key
  | _ => none

def isArray : Json → Bool
  | array _ => true
  | _ => false

def isString : Json → Bool
  | string _ => true
  | _ => false

def isInteger : Json → Bool
  | integer _ => true
  | _ => false

/-- An object or an array. -/
def isContainer : Json → Bool
  | object _ => true
  | array _ => true
  | _ => false

/-- `json_is_string` and `json_string_value` -/
def stringValue : Json → Option CString
  | string text => some (textOf text)
  | _ => none

/-- `json_integer_value` -/
def integerValue : Json → Int
  | integer value => toInt value
  | _ => 0

end Json

/-- `json_double_value` -/
def Json.doubleValue : Json → Number
  | .double value => .double value
  | json => .integer json.integerValue

end YiimpStratum.Util
