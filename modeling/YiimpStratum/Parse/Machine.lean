import YiimpStratum.Util.Json

/-!
# The parser of JSON texts

`json_parse_ex` with the settings of `json_parse`: two passes of one machine
over the characters.  The first pass allocates a `json_value` for every value
of the text and measures what its arrays, its names and its strings need; the
second pass walks over the same values in the same order, allocates that much
and fills it.

The values are kept in the order in which they were allocated, which is the
order of their chain `next_alloc`, and the address of a value is its place in
that order.  An allocation does not fail.  An access outside of what was
allocated, or behind the terminator of the text, is a fault.  The terminator at
`json[length]` is read, also when a constant or the digits of a `\u` break
off in front of it.  The line and the column of an error, which `json_parse`
does not ask for, are left out.
-/

namespace YiimpStratum.Parse

open YiimpStratum
open YiimpStratum.Util

/-! ## Values in memory -/

/-- An element of `u.object.values`; what was not written is `none`. -/
structure JsonMember where
  name : Option Nat
  nameLength : Option Nat
  value : Option Nat
  deriving DecidableEq

/-- `u.object`, with the counter and the block that share its `values`. -/
structure JsonObject where
  length : Nat
  /-- the bytes of the names, as the first pass adds them up in `values` -/
  nameBytes : Nat
  values : List JsonMember
  /-- the part of the block behind the members -/
  names : List (Option Char)
  objectMem : Nat
  deriving DecidableEq

/-- `u.array` -/
structure JsonArray where
  length : Nat
  values : List (Option Nat)
  deriving DecidableEq

/-- `u.string` -/
structure JsonString where
  length : Nat
  ptr : List (Option Char)
  deriving DecidableEq

/-- The type of a value and what the union `u` holds for it. -/
inductive JsonData where
  | object (object : JsonObject)
  | array (array : JsonArray)
  | integer (value : Int)
  | double (value : Double)
  | string (string : JsonString)
  | boolean (value : Bool)
  | null
  deriving DecidableEq

/-- `struct _json_value` -/
structure JsonValue where
  parent : Option Nat
  data : JsonData
  deriving DecidableEq

namespace JsonData

def isArray : JsonData → Bool
  | array _ => true
  | _ => false

def isInteger : JsonData → Bool
  | integer _ => true
  | _ => false

/-- `u.array.length`, which is `u.object.length` as well. -/
def length : JsonData → Nat
  | object o => o.length
  | array a => a.length
  | _ => 0

/-- The same length counted up. -/
def countUp : JsonData → JsonData
  | object o => object { o with length := o.length + 1 }
  | array a => array { a with length := a.length + 1 }
  | data => data

/-- A character stored into the memory that the variable `string` points to. -/
def store (data : JsonData) (offset : Nat) (c : Char) : Option JsonData :=
  match data with
  | string s =>
      if offset < s.ptr.length then
        some (string { s with ptr := s.ptr.set offset (some c) })
      else none
  | object o =>
      if offset < o.names.length then
        some (object { o with names := o.names.set offset (some c) })
      else none
  | _ => none

/-- A value stored at `values[length]` of its parent. -/
def link (data : JsonData) (child : Nat) : Option JsonData :=
  match data with
  | object o =>
      match o.values[o.length]? with
      | some member =>
          some
            (object
              { o with
                values :=
                  o.values.set o.length { member with value := some child } })
      | none => none
  | array a =>
      if a.length < a.values.length then
        some (array { a with values := a.values.set a.length (some child) })
      else none
  | data => some data

end JsonData

/-! ## The state of a pass -/

/-- Arithmetic of `double`. -/
structure Doubles where
  ofInteger : Int → Double
  add : Double → Double → Double
  mul : Double → Double → Double
  div : Double → Double → Double
  pow : Double → Double → Double
  neg : Double → Double

/-- A number as 64 bits hold it with a sign. -/
def toInt64 (value : Int) : Int :=
  (BitVec.ofInt 64 value).toInt

/-- The variables of a string or of a number, with the flags `flag_num`. -/
structure Scratch where
  /-- where `string` points to, in the memory of the top value -/
  string : Nat
  stringLength : Nat
  numNegative : Bool
  numZero : Bool
  numE : Bool
  numEGotSign : Bool
  numENegative : Bool
  numDigits : Nat
  exponent : Int
  numFraction : Int

/--
The variables of the loop.  The flags `flag_next` and `flag_reproc` are not
kept, since they do not outlive the iteration that sets them.
-/
structure State where
  values : List JsonValue
  top : Option Nat
  alloc : Nat
  needComma : Bool
  seekValue : Bool
  escaped : Bool
  string : Bool
  needColon : Bool
  done : Bool
  scratch : Scratch

namespace State

/-- The state in front of the first character. -/
def initial (values : List JsonValue) : State where
  values := values
  top := none
  alloc := 0
  needComma := false
  seekValue := true
  escaped := false
  string := false
  needColon := false
  done := false
  scratch :=
    { string := 0, stringLength := 0, numNegative := false, numZero := false
      numE := false, numEGotSign := false, numENegative := false
      numDigits := 0, exponent := 0, numFraction := 0 }

/-- `*top` -/
def topValue (s : State) : Option JsonValue :=
  match s.top with
  | some address => s.values[address]?
  | none => none

/-- The union of the top value replaced. -/
def setTop (s : State) (data : JsonData) : State :=
  match s.top with
  | some address =>
      { s with
        values :=
          s.values.modify address fun value => { value with data := data } }
  | none => s

end State

/-- How the loop ends: with the `break`, with `goto e_failed`, or not well. -/
inductive Ending where
  | ended (s : State)
  | failed (s : State)
  | fault

/-- An iteration goes on at `i`, behind its `++ i`, or ends the loop. -/
inductive Iteration where
  | next (s : State) (i : List Char)
  | stop (ending : Ending)

/-- `continue`, where `i` has not reached the end. -/
def proceed (s : State) (i : List Char) : Iteration :=
  match i with
  | _ :: i => .next s i
  | [] => .stop .fault

/-- The greatest length after which the next check is not made in vain. -/
def uintMax : Nat :=
  2 ^ 32 - 1 - 8

/-! ## Allocation -/

/-- The data of a value that `calloc` has zeroed, by its type. -/
def newObject : JsonData :=
  .object
    { length := 0, nameBytes := 0, values := [], names := [], objectMem := 0 }

def newArray : JsonData :=
  .array { length := 0, values := [] }

def newString : JsonData :=
  .string { length := 0, ptr := [] }

/-- What the second pass makes of a value; the size of an object is an `int`. -/
def reserve : JsonData → Option JsonData
  | .array a =>
      some (.array { length := 0, values := List.replicate a.length none })
  | .object o =>
      if 24 * o.length < 2 ^ 31 then
        some
          (.object
            { length := 0
              nameBytes := o.nameBytes
              values := List.replicate o.length ⟨none, none, none⟩
              names := List.replicate o.nameBytes none
              objectMem := 0 })
      else none
  | .string s =>
      some (.string { length := 0, ptr := List.replicate (s.length + 1) none })
  | data => some data

/-- `new_value` -/
def newValue (firstPass : Bool) (data : JsonData) (s : State) : Option State :=
  if firstPass then
    some
      { s with
        values := s.values ++ [{ parent := s.top, data := data }]
        top := some s.values.length }
  else
    match s.values[s.alloc]? with
    | none => none
    | some value =>
        match reserve value.data with
        | none => none
        | some data =>
            some
              { s with
                values := s.values.set s.alloc { value with data := data }
                top := some s.alloc
                alloc := s.alloc + 1 }

/-! ## Strings -/

/-- `hex_value` -/
def hexValue (c : Char) : Nat :=
  if c.isDigit then c.toNat - '0'.toNat
  else
    match c with
    | 'a' | 'A' => 10
    | 'b' | 'B' => 11
    | 'c' | 'C' => 12
    | 'd' | 'D' => 13
    | 'e' | 'E' => 14
    | 'f' | 'F' => 15
    | _ => 255

/--
Four hexadecimal digits.  The byte behind the text, which may be read when
there are fewer, is the terminator and no digit.
-/
def readHex : List Char → Option (Nat × List Char)
  | c₁ :: c₂ :: c₃ :: c₄ :: i =>
      let b₁ := hexValue c₁
      let b₂ := hexValue c₂
      let b₃ := hexValue c₃
      let b₄ := hexValue c₄
      if b₁ = 255 ∨ b₂ = 255 ∨ b₃ = 255 ∨ b₄ = 255 then none
      else some ((b₁ <<< 4 ||| b₂) <<< 8 ||| (b₃ <<< 4 ||| b₄), i)
  | _ => none

/-- The character behind `\u`, and the text behind its digits. -/
def readUnicode (i : List Char) : Option (Nat × List Char) :=
  match readHex i with
  | none => none
  | some (uchar, i) =>
      if uchar &&& 0xF800 = 0xD800 then
        match i with
        | '\\' :: 'u' :: i =>
            match readHex i with
            | none => none
            | some (uchar₂, i) =>
                some
                  (0x010000 ||| (uchar &&& 0x3FF) <<< 10 ||| uchar₂ &&& 0x3FF,
                    i)
        | _ => none
      else some (uchar, i)

/-- The bytes that are added for a character. -/
def encode (uchar : Nat) : List Char :=
  if uchar ≤ 0x7F then [Char.ofNat uchar]
  else if uchar ≤ 0x7FF then
    [Char.ofNat (0xC0 ||| uchar >>> 6), Char.ofNat (0x80 ||| uchar &&& 0x3F)]
  else if uchar ≤ 0xFFFF then
    [Char.ofNat (0xE0 ||| uchar >>> 12),
      Char.ofNat (0x80 ||| uchar >>> 6 &&& 0x3F),
      Char.ofNat (0x80 ||| uchar &&& 0x3F)]
  else
    [Char.ofNat (0xF0 ||| uchar >>> 18),
      Char.ofNat (0x80 ||| uchar >>> 12 &&& 0x3F),
      Char.ofNat (0x80 ||| uchar >>> 6 &&& 0x3F),
      Char.ofNat (0x80 ||| uchar &&& 0x3F)]

/-- The byte of an escape other than `\u`; an unknown one is itself. -/
def unescape : Char → Char
  | 'b' => '\x08'
  | 'f' => '\x0c'
  | 'n' => '\n'
  | 'r' => '\r'
  | 't' => '\t'
  | c => c

/-- `string [string_length] = b` -/
def storeAt (s : State) (offset : Nat) (c : Char) : Option State :=
  match s.topValue with
  | none => none
  | some value =>
      match value.data.store offset c with
      | none => none
      | some data => some (s.setTop data)

/-- `string_add` for each of the bytes; the first pass only counts them. -/
def stringAdd (firstPass : Bool) : List Char → State → Option State
  | [], s => some s
  | b :: bytes, s =>
      let counted : State :=
        { s with
          scratch :=
            { s.scratch with stringLength := s.scratch.stringLength + 1 } }
      if firstPass then stringAdd firstPass bytes counted
      else
        match storeAt counted (s.scratch.string + s.scratch.stringLength) b with
        | none => none
        | some s => stringAdd firstPass bytes s

/-- Bytes added, after which the loop goes on at `i`. -/
def addBytes (firstPass : Bool) (bytes : List Char) (s : State)
    (i : List Char) : Iteration :=
  match stringAdd firstPass bytes s with
  | some s => .next s i
  | none => .stop .fault

/-! ## The end of a value -/

/-- What `flag_next` brings about. -/
def finish (firstPass : Bool) (s : State) (i : List Char) : Iteration :=
  match s.top, s.topValue with
  | some top, some value =>
      match value.parent with
      | none => .next { s with needComma := true, done := true } i
      | some address =>
          match s.values[address]? with
          | none => .stop .fault
          | some parent =>
              match
                if firstPass then some parent.data else parent.data.link top
              with
              | none => .stop .fault
              | some data =>
                  let s : State :=
                    { s with
                      values :=
                        s.values.set address
                          { parent with data := data.countUp }
                      needComma := true
                      seekValue := s.seekValue || parent.data.isArray }
                  if uintMax < data.countUp.length then .stop (.failed s)
                  else .next { s with top := some address } i
  | _, _ => .stop .fault

/-! ## Numbers -/

/-- A digit of a number; `none` where it follows a leading zero. -/
def readDigit (b : Char) (z : Scratch) (data : JsonData) :
    Option (Scratch × JsonData) :=
  let digit : Int := b.toNat - '0'.toNat
  let z := { z with numDigits := z.numDigits + 1 }
  if z.numE then
    some
      ({ z with
          numEGotSign := true
          exponent := toInt64 (z.exponent * 10 + digit) }, data)
  else
    match data with
    | .integer value =>
        if z.numZero then none
        else
          some
            ({ z with numZero := z.numDigits == 1 && b == '0' },
              .integer (toInt64 (value * 10 + digit)))
    | data =>
        some
          ({ z with numFraction := toInt64 (z.numFraction * 10 + digit) }, data)

section Numbers

variable (doubles : Doubles) (firstPass : Bool)

/-- The double of a number that had no fraction so far. -/
def widen : JsonData → JsonData
  | .integer value => .double (doubles.ofInteger value)
  | data => data

/-- The fraction added to a double; `none` where it has no digit. -/
def addFraction (z : Scratch) : JsonData → Option JsonData
  | .double dbl =>
      if z.numDigits = 0 then none
      else
        some
          (.double
            (doubles.add dbl
              (doubles.div (doubles.ofInteger z.numFraction)
                (doubles.pow (doubles.ofInteger 10)
                  (doubles.ofInteger z.numDigits)))))
  | data => some data

/-- The double scaled by its exponent. -/
def scale (z : Scratch) : JsonData → JsonData
  | .double dbl =>
      let exponent :=
        if z.numENegative then toInt64 (-z.exponent) else z.exponent
      .double
        (doubles.mul dbl
          (doubles.pow (doubles.ofInteger 10) (doubles.ofInteger exponent)))
  | data => data

def negate : JsonData → JsonData
  | .integer value => .integer (toInt64 (-value))
  | .double dbl => .double (doubles.neg dbl)
  | data => data

/-- The sign of a number applied where it ends, before the next iteration. -/
def endNumber (s : State) (data : JsonData) (i : List Char) : Iteration :=
  let data := if s.scratch.numNegative then negate doubles data else data
  -- the character behind the number is looked at again
  finish firstPass (s.setTop data) i

/-- A character where the top value is a number. -/
def readNumber (s : State) (data : JsonData) (b : Char) (i : List Char) :
    Iteration :=
  let z := s.scratch
  if b.isDigit then
    match readDigit b z data with
    | some (z, data) => proceed ({ s with scratch := z }.setTop data) i
    | none => .stop (.failed s)
  else if (b = '+' ∨ b = '-') ∧ z.numE ∧ ¬ z.numEGotSign then
    proceed
      { s with
        scratch :=
          { z with
            numEGotSign := true
            numENegative := z.numENegative || b == '-' } } i
  else if b = '.' ∧ data.isInteger then
    if z.numDigits = 0 then .stop (.failed s)
    else
      proceed
        ({ s with scratch := { z with numDigits := 0 } }.setTop
          (widen doubles data)) i
  else if z.numE then
    if z.numDigits = 0 then .stop (.failed s)
    else endNumber doubles firstPass s (scale doubles z data) i
  else
    match addFraction doubles z data with
    | none => .stop (.failed s)
    | some data =>
        if b = 'e' ∨ b = 'E' then
          let z := { z with numE := true, numDigits := 0, numZero := false }
          proceed ({ s with scratch := z }.setTop (widen doubles data)) i
        else endNumber doubles firstPass s data i

end Numbers

/-! ## The loop -/

def isWhitespace (c : Char) : Bool :=
  c == '\n' || c == ' ' || c == '\t' || c == '\r'

/-- The characters that the second pass skips as a number. -/
def isNumeric (c : Char) : Bool :=
  c.isDigit || c == '+' || c == '-' || c == 'e' || c == 'E' || c == '.'

/-- A value without characters of its own that ends here. -/
def constant (firstPass : Bool) (fresh : JsonData) (s : State) (i : List Char) :
    Iteration :=
  match newValue firstPass fresh s with
  | none => .stop .fault
  | some s => finish firstPass s i

/-- `top->u.boolean = 1` -/
def constantTrue (firstPass : Bool) (s : State) (i : List Char) : Iteration :=
  match newValue firstPass (.boolean false) s with
  | none => .stop .fault
  | some s => finish firstPass (s.setTop (.boolean true)) i

/-- A number that begins with `b`. -/
def beginNumber (firstPass : Bool) (s : State) (b : Char) (i : List Char) :
    Iteration :=
  match newValue firstPass (.integer 0) s with
  | none => .stop .fault
  | some s =>
      if firstPass then
        let s : State :=
          { s with
            scratch :=
              { s.scratch with
                numNegative := b == '-'
                numZero := false
                numE := false
                numEGotSign := false
                numENegative := false
                numDigits := 0
                exponent := 0
                numFraction := 0 } }
        -- a digit is looked at again
        if b = '-' then .next s i else .next s (b :: i)
      else finish firstPass s (i.dropWhile isNumeric)

/-- A value that begins at `i`. -/
def beginValue (firstPass : Bool) (s : State) (i : List Char) : Iteration :=
  match i with
  | '{' :: i =>
      match newValue firstPass newObject s with
      | none => .stop .fault
      | some s => .next s i
  | '[' :: i =>
      match newValue firstPass newArray s with
      | none => .stop .fault
      | some s => .next { s with seekValue := true } i
  | '"' :: i =>
      match newValue firstPass newString s with
      | none => .stop .fault
      | some s =>
          .next
            { s with
              string := true
              scratch := { s.scratch with string := 0, stringLength := 0 } } i
  | 't' :: i =>
      -- the byte behind the text is no letter of a word either
      match i with
      | 'r' :: 'u' :: 'e' :: i => constantTrue firstPass s i
      | _ => .stop (.failed s)
  | 'f' :: i =>
      match i with
      | 'a' :: 'l' :: 's' :: 'e' :: i =>
          constant firstPass (.boolean false) s i
      | _ => .stop (.failed s)
  | 'n' :: i =>
      match i with
      | 'u' :: 'l' :: 'l' :: i => constant firstPass .null s i
      | _ => .stop (.failed s)
  | b :: i =>
      if b.isDigit ∨ b = '-' then beginNumber firstPass s b i
      else .stop (.failed s)
  | [] => .stop (.failed s)

/-- A character where a value, a comma or a colon is looked for. -/
def seek (firstPass : Bool) (s : State) (b : Char) (i : List Char) :
    Iteration :=
  if isWhitespace b then proceed s i
  else if b = ']' then
    match s.top, s.topValue with
    | none, _ => .stop (.failed s)
    | some _, none => .stop .fault
    | some _, some value =>
        if value.data.isArray then
          finish firstPass { s with needComma := false, seekValue := false }
            i.tail
        else .stop (.failed s)
  else if s.needComma then
    if b = ',' then proceed { s with needComma := false } i
    else .stop (.failed s)
  else if s.needColon then
    if b = ':' then proceed { s with needColon := false } i
    else .stop (.failed s)
  else beginValue firstPass { s with seekValue := false } i

/-- A character between the members of the top object. -/
def inObject (firstPass : Bool) (s : State) (o : JsonObject) (b : Char)
    (i : List Char) : Iteration :=
  if isWhitespace b then proceed s i
  else if b = '"' then
    if s.needComma then .stop (.failed s)
    else
      proceed
        { s with
          string := true
          scratch :=
            { s.scratch with string := o.objectMem, stringLength := 0 } } i
  else if b = '}' then finish firstPass { s with needComma := false } i.tail
  else if b = ',' ∧ s.needComma then proceed { s with needComma := false } i
  else .stop (.failed s)

/-- A quote that ends a name: its member gets it in the second pass. -/
def closeName (firstPass : Bool) (s : State) (o : JsonObject) : Option State :=
  let length := s.scratch.stringLength
  if firstPass then
    some (s.setTop (.object { o with nameBytes := o.nameBytes + (length + 1) }))
  else
    match o.values[o.length]? with
    | none => none
    | some member =>
        some
          (s.setTop
            (.object
              { o with
                values :=
                  o.values.set o.length
                    { member with
                      name := some o.objectMem
                      nameLength := some length }
                objectMem := o.objectMem + (length + 1) }))

/-- What a string is to the top value. -/
def leaveString (firstPass : Bool) (s : State) (i : List Char) : Iteration :=
  let s : State := { s with string := false }
  match s.topValue with
  | none => .stop .fault
  | some value =>
      match value.data with
      | .string t =>
          finish firstPass
            (s.setTop (.string { t with length := s.scratch.stringLength })) i
      | .object o =>
          match closeName firstPass s o with
          | none => .stop .fault
          | some s => .next { s with seekValue := true, needColon := true } i
      -- no other value has a string
      | _ => .stop .fault

/-- The quote that ends a string. -/
def closeString (firstPass : Bool) (s : State) (i : List Char) : Iteration :=
  if firstPass then leaveString firstPass s i
  else
    match storeAt s (s.scratch.string + s.scratch.stringLength) terminator with
    | none => .stop .fault
    | some s => leaveString firstPass s i

/-- A character of a string. -/
def inString (firstPass : Bool) (s : State) (b : Char) (i : List Char) :
    Iteration :=
  if b = terminator then .stop (.failed s)
  else if uintMax < s.scratch.stringLength then .stop (.failed s)
  else if s.escaped then
    let s : State := { s with escaped := false }
    if b = 'u' then
      match readUnicode i.tail with
      | none => .stop (.failed s)
      | some (uchar, i) => addBytes firstPass (encode uchar) s i
    else addBytes firstPass [unescape b] s i.tail
  else if b = '\\' then proceed { s with escaped := true } i
  else if b = '"' then closeString firstPass s i.tail
  else addBytes firstPass [b] s i.tail

section Loop

variable (doubles : Doubles) (firstPass : Bool)

/-- One iteration of the loop over the characters. -/
def step (s : State) (i : List Char) : Iteration :=
  let b := i.headD terminator
  if s.string then inString firstPass s b i
  else if s.done then
    if b = terminator then .stop (.ended s)
    else if isWhitespace b then proceed s i
    else .stop (.failed s)
  else if s.seekValue then seek firstPass s b i
  else
    match s.topValue with
    | none => .stop .fault
    | some value =>
        match value.data with
        | .object o => inObject firstPass s o b i
        | .integer n => readNumber doubles firstPass s (.integer n) b i
        | .double d => readNumber doubles firstPass s (.double d) b i
        | _ => proceed s i

/-- The loop, with a number of rounds. -/
def pass : Nat → State → List Char → Option Ending
  | 0, _, _ => none
  | rounds + 1, s, i =>
      match step doubles firstPass s i with
      | .next s i => pass rounds s i
      | .stop ending => some ending

end Loop

/-! ## The two passes -/

/-- The UTF-8 byte order mark skipped. -/
def skipMark : List Char → List Char
  | b₁ :: b₂ :: b₃ :: json =>
      if b₁.toNat = 0xEF ∧ b₂.toNat = 0xBB ∧ b₃.toNat = 0xBF then json
      else b₁ :: b₂ :: b₃ :: json
  | json => json

/-- What is returned: the values, of which the first is the root, or `NULL`. -/
inductive Parsed where
  | values (values : List JsonValue)
  | null
  | fault

/-- `json_parse` -/
def jsonParse (doubles : Doubles) (json : List Char) (rounds : Nat) :
    Option Parsed := do
  let json := skipMark json
  match ← pass doubles true rounds (State.initial []) json with
  | .fault => some .fault
  | .failed _ => some .null
  | .ended s =>
      match ← pass doubles false rounds (State.initial s.values) json with
      | .fault => some .fault
      | .failed _ => some .null
      | .ended s => some (.values s.values)

end YiimpStratum.Parse
