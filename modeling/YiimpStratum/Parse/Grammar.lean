import YiimpStratum.Parse.Machine

/-!
# The language of the parser

The texts that are meant to be accepted, and the value of each.  It is the
language of JSON with some liberties: a comma may stand behind the last element
and the last member, a minus may stand without digits and then counts as zero,
any character may be escaped, and what stands behind the value and a terminator
does not count.

A rule relates a text to what remains of it behind the phrase.
-/

namespace YiimpStratum.Parse

open YiimpStratum
open YiimpStratum.Util

/-! ## Numbers -/

def IsDigits (text : List Char) : Prop :=
  ∀ c ∈ text, c.isDigit = true

/-- The number that decimal digits stand for. -/
def decimal (digits : List Char) : Nat :=
  digits.foldl (fun number c => number * 10 + (c.toNat - '0'.toNat)) 0

structure Exponent where
  mark : Char
  mark_eq : mark = 'e' ∨ mark = 'E'
  sign : Option Char
  sign_eq : ∀ c ∈ sign, c = '+' ∨ c = '-'
  digits : List Char
  digits_ne_nil : digits ≠ []
  isDigits : IsDigits digits

namespace Exponent

variable (exponent : Exponent)

def text : List Char :=
  exponent.mark :: (exponent.sign.toList ++ exponent.digits)

/-- The value as a `long` with its sign. -/
def value : Int :=
  if exponent.sign = some '-' then
    toInt64 (-toInt64 (decimal exponent.digits))
  else toInt64 (decimal exponent.digits)

end Exponent

/-- The digits behind the point. -/
structure Fraction where
  digits : List Char
  digits_ne_nil : digits ≠ []
  isDigits : IsDigits digits

def Fraction.text (fraction : Fraction) : List Char :=
  '.' :: fraction.digits

namespace Doubles

variable (doubles : Doubles)

def powerOfTen (exponent : Int) : Double :=
  doubles.pow (doubles.ofInteger 10) (doubles.ofInteger exponent)

def signed (negative : Bool) (dbl : Double) : Double :=
  if negative then doubles.neg dbl else dbl

end Doubles

/-- A number as the parser takes it. -/
structure Numeral where
  negative : Bool
  whole : List Char
  isDigits : IsDigits whole
  /-- a leading zero stands alone -/
  zero_alone : ∀ digits, whole = '0' :: digits → digits = []
  fraction : Option Fraction
  exponent : Option Exponent
  /-- behind a minus, the digits may be missing where there is no fraction -/
  whole_ne_nil : whole ≠ [] ∨ negative = true ∧ fraction = none

namespace Numeral

variable (doubles : Doubles) (numeral : Numeral)

def fractionText : Option Fraction → List Char
  | some fraction => fraction.text
  | none => []

def exponentText : Option Exponent → List Char
  | some exponent => exponent.text
  | none => []

def text : List Char :=
  (if numeral.negative then ['-'] else []) ++
    (numeral.whole ++
      (fractionText numeral.fraction ++ exponentText numeral.exponent))

/-- The double of the digits in front of the exponent. -/
def mantissa : Double :=
  let whole := doubles.ofInteger (toInt64 (decimal numeral.whole))
  match numeral.fraction with
  | none => whole
  | some fraction =>
      doubles.add whole
        (doubles.div (doubles.ofInteger (toInt64 (decimal fraction.digits)))
          (doubles.powerOfTen fraction.digits.length))

/-- The double without its sign. -/
def magnitude : Double :=
  match numeral.exponent with
  | none => numeral.mantissa doubles
  | some exponent =>
      doubles.mul (numeral.mantissa doubles) (doubles.powerOfTen exponent.value)

/-- An integer where there is neither a fraction nor an exponent. -/
def value : Json :=
  match numeral.fraction, numeral.exponent with
  | none, none =>
      let whole := toInt64 (decimal numeral.whole)
      .integer (if numeral.negative then toInt64 (-whole) else whole)
  | _, _ =>
      .double (doubles.signed numeral.negative (numeral.magnitude doubles))

end Numeral

/-! ## Strings -/

/-- The bytes of a string up to its closing quote. -/
inductive Characters : List Char → List Char → List Char → Prop where
  | close (rest : List Char) : Characters ('"' :: rest) [] rest
  | plain (b : Char) (visible : b ≠ terminator) (unescaped : b ≠ '\\')
      (unquoted : b ≠ '"') {i bytes rest : List Char}
      (more : Characters i bytes rest) :
      Characters (b :: i) (b :: bytes) rest
  | escape (b : Char) (visible : b ≠ terminator) (other : b ≠ 'u')
      {i bytes rest : List Char} (more : Characters i bytes rest) :
      Characters ('\\' :: b :: i) (unescape b :: bytes) rest
  | unicode {uchar : Nat} {digits i bytes rest : List Char}
      (read : readUnicode digits = some (uchar, i))
      (more : Characters i bytes rest) :
      Characters ('\\' :: 'u' :: digits) (encode uchar ++ bytes) rest

/-! ## Values -/

/-- What the parser looks for; behind an element or a member, a comma. -/
inductive Phrase where
  | value (json : Json)
  | elements (comma : Bool) (elements : List Json)
  | members (comma : Bool) (members : List (CString × Json))

/-- Blanks in front of a rest. -/
inductive Blanks : List Char → List Char → Prop where
  | none (i : List Char) : Blanks i i
  | blank {b : Char} (isBlank : isWhitespace b = true) {i rest : List Char}
      (more : Blanks i rest) : Blanks (b :: i) rest

/-- The rules for values, with the elements and the members to their end. -/
inductive Derives (doubles : Doubles) :
    Phrase → List Char → List Char → Prop where
  | blank {b : Char} (isBlank : isWhitespace b = true) {phrase : Phrase}
      {i rest : List Char} (more : Derives doubles phrase i rest) :
      Derives doubles phrase (b :: i) rest
  | null (rest : List Char) :
      Derives doubles (.value .null) ('n' :: 'u' :: 'l' :: 'l' :: rest) rest
  | constantTrue (rest : List Char) :
      Derives doubles (.value (.boolean true))
        ('t' :: 'r' :: 'u' :: 'e' :: rest) rest
  | constantFalse (rest : List Char) :
      Derives doubles (.value (.boolean false))
        ('f' :: 'a' :: 'l' :: 's' :: 'e' :: rest) rest
  | number (numeral : Numeral) (rest : List Char) :
      Derives doubles (.value (numeral.value doubles)) (numeral.text ++ rest)
        rest
  | string {i text rest : List Char} (characters : Characters i text rest) :
      Derives doubles (.value (.string text)) ('"' :: i) rest
  | array {i rest : List Char} {elements : List Json}
      (inside : Derives doubles (.elements false elements) i rest) :
      Derives doubles (.value (.array elements)) ('[' :: i) rest
  | object {i rest : List Char} {members : List (CString × Json)}
      (inside : Derives doubles (.members false members) i rest) :
      Derives doubles (.value (.object members)) ('{' :: i) rest
  | noElements (comma : Bool) (rest : List Char) :
      Derives doubles (.elements comma []) (']' :: rest) rest
  | elementComma {i rest : List Char} {elements : List Json}
      (more : Derives doubles (.elements false elements) i rest) :
      Derives doubles (.elements true elements) (',' :: i) rest
  | element {i middle rest : List Char} {json : Json} {elements : List Json}
      (first : Derives doubles (.value json) i middle)
      (more : Derives doubles (.elements true elements) middle rest) :
      Derives doubles (.elements false (json :: elements)) i rest
  | noMembers (comma : Bool) (rest : List Char) :
      Derives doubles (.members comma []) ('}' :: rest) rest
  | memberComma {i rest : List Char} {members : List (CString × Json)}
      (more : Derives doubles (.members false members) i rest) :
      Derives doubles (.members true members) (',' :: i) rest
  | member {i behind colon middle rest : List Char} {name : CString}
      {json : Json} {members : List (CString × Json)}
      (named : Characters i name behind)
      (blanks : Blanks behind (':' :: colon))
      (first : Derives doubles (.value json) colon middle)
      (more : Derives doubles (.members true members) middle rest) :
      Derives doubles (.members false ((name, json) :: members))
        ('"' :: i) rest

/-- What may stand behind the value. -/
inductive Trailing : List Char → Prop where
  | nil : Trailing []
  | terminated (i : List Char) : Trailing (terminator :: i)
  | blank {b : Char} (isBlank : isWhitespace b = true) {i : List Char}
      (more : Trailing i) : Trailing (b :: i)

/-- The text of a value. -/
def Denotes (doubles : Doubles) (json : List Char) (value : Json) : Prop :=
  ∃ rest,
    Derives doubles (.value value) (skipMark json) rest ∧ Trailing rest

end YiimpStratum.Parse
