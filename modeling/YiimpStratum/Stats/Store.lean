import YiimpStratum.Library.Quoted
import YiimpStratum.User.Login
import YiimpStratum.Util.Json
import YiimpStratum.Util.Strings

/-!
# Statistics of a miner

`client_store_stats` with `db_store_stats`: the fields of the object that a
miner sends, each cleaned, escaped and cut to the array of the field, and the
query that they get into.

The second cut may go through a pair that the escaping has made.  What the
cleaning keeps has no quote and no backslash, so the pairs are those of line
ends and of the end-of-file character.
-/

namespace YiimpStratum.Stats

open YiimpStratum
open YiimpStratum.Util
open YiimpStratum.Db

/-! ## Escaping -/

/-- The character with which a pair starts. -/
def backslash : Char :=
  Char.ofNat 92

def isQuote (c : Char) : Bool :=
  "'\"".toList.contains c

/-- The characters that MySQL writes as a pair. -/
def isSpecial (c : Char) : Bool :=
  c == terminator || c == Char.ofNat 10 || c == Char.ofNat 13 ||
    c == backslash || isQuote c || c == Char.ofNat 26

/-- `mysql_real_escape_string`, by the second character of each pair. -/
structure MysqlEscape where
  pair : Char → Option Char
  isSome_pair : ∀ c, (pair c).isSome = isSpecial c

/-- What `mysql_real_escape_string` writes. -/
def MysqlEscape.apply (mysql : MysqlEscape) (text : CString) : CString :=
  Quoted.escape backslash mysql.pair text

/-- A string body that keeps between its quotes. -/
def WellFormedBody (text : CString) : Prop :=
  Quoted.wellFormed backslash isQuote text = true

instance (text : CString) : Decidable (WellFormedBody text) :=
  inferInstanceAs (Decidable (_ = true))

/-! ## Cleaning -/

/-- The characters at which `clean_html` ends the string. -/
def isHtml (c : Char) : Bool :=
  "<>%\\\"'".toList.contains c

/-- The loop of `clean_html`, which looks at `strlen & 0x1FF` characters. -/
def cutHtml (string : CString) : CString :=
  let len := string.length % 512
  match (string.take len).findIdx? isHtml with
  | some index => string.take index
  | none => string

/-- `clean_html` -/
def cleanHtml (string : CString) : CString :=
  if (strstr "script".toList (cutHtml string)).isSome then []
  else cutHtml string

/-- The array `str` of `_json_str_safe` before the escaping. -/
def cleaned (maxlen : Nat) (text : CString) : CString :=
  cleanHtml ((text.take 126).take (maxlen - 1))

/-- `_json_str_safe`, for an array of `maxlen` characters. -/
def jsonStrSafe (mysql : MysqlEscape) (stats : Json) (key : CString)
    (maxlen : Nat) : CString :=
  match (stats.getVal key).bind Json.stringValue with
  | some text => (mysql.apply (cleaned maxlen text)).take (maxlen - 1)
  | none => []

/-- `json_int_safe` -/
def jsonIntSafe (stats : Json) (key : CString) : Int :=
  ((stats.getVal key).map Json.integerValue).getD 0

/-- `json_double_safe` -/
def jsonDoubleSafe (stats : Json) (key : CString) : Number :=
  ((stats.getVal key).map Json.doubleValue).getD (.double Double.zero)

/-! ## Storing -/

/-- The name of an algorithm in the table `g_algos`. -/
structure AlgoName where
  text : CString
  plain : ∀ c ∈ text, (isdigit c || isalpha c || c == '-') = true

/-- The client and the server as `db_store_stats` reads them. -/
structure Surroundings where
  /-- `g_current_algo->name` -/
  algo : AlgoName
  submitBad : Int
  userid : Int
  time : Int

/-- `strcasecmp` finds the strings equal. -/
def sameIgnoringCase (left right : CString) : Bool :=
  left.map Char.toLower == right.map Char.toLower

/-- The statistics name another algorithm and the client is not trusted. -/
def wrongAlgo (mysql : MysqlEscape) (around : Surroundings) (stats : Json) :
    Bool :=
  ! sameIgnoringCase around.algo.text
      (jsonStrSafe mysql stats "algo".toList 32) &&
    around.submitBad != 0

/-- A rate or an intensity below zero. -/
def negativeNumbers (stats : Json) : Bool :=
  (jsonDoubleSafe stats "khashes".toList).isNegative ||
    (jsonDoubleSafe stats "intensity".toList).isNegative

/-- `throughput`, which counts as zero when it is negative. -/
def throughput (stats : Json) : Number :=
  let throughput := jsonDoubleSafe stats "throughput".toList
  if throughput.isNegative then .double Double.zero else throughput

/-- A field that is stored as a string, with the size of its array. -/
structure Field where
  key : CString
  maxlen : Nat

def typeField : Field := { key := "type".toList, maxlen := 8 }
def deviceField : Field := { key := "device".toList, maxlen := 80 }
def archField : Field := { key := "arch".toList, maxlen := 8 }
def vendoridField : Field := { key := "vendorid".toList, maxlen := 12 }
def osField : Field := { key := "os".toList, maxlen := 8 }
def driverField : Field := { key := "driver".toList, maxlen := 32 }
def clientField : Field := { key := "client".toList, maxlen := 48 }

/-- The fields in the order of the query. -/
def fields : List Field :=
  [typeField, deviceField, archField, vendoridField, osField, driverField,
    clientField]

/-- One field as an argument. -/
def fieldArgument (mysql : MysqlEscape) (stats : Json) (field : Field) :
    Argument :=
  .client (jsonStrSafe mysql stats field.key field.maxlen)

/-- The query of `db_store_stats`. -/
def insertBenchmark (mysql : MysqlEscape) (around : Surroundings)
    (stats : Json) : Query where
  format := "INSERT INTO benchmarks(time, algo, type, device, arch, vendorid, os, driver,client, khps, freq, memf, realfreq, realmemf, power, plimit, intensity, throughput, userid )VALUES (%d,'%s','%s','%s','%s','%s','%s','%s','%s',%f,%d,%d,%d,%d,%d,%d, %.2f,%.0f,%d)"
  arguments :=
    [.integer around.time, .server around.algo.text] ++
      fields.map (fieldArgument mysql stats) ++
      [.number (jsonDoubleSafe stats "khashes".toList),
        .integer (jsonIntSafe stats "freq".toList),
        .integer (jsonIntSafe stats "memf".toList),
        .integer (jsonIntSafe stats "curr_freq".toList),
        .integer (jsonIntSafe stats "curr_memf".toList),
        .integer (jsonIntSafe stats "power".toList),
        .integer (jsonIntSafe stats "plimit".toList),
        .number (jsonDoubleSafe stats "intensity".toList),
        .number (throughput stats), .integer around.userid]

/-- `db_store_stats`: the query, if there is one. -/
def dbStoreStats (mysql : MysqlEscape) (around : Surroundings)
    (stats : Json) : Option Query :=
  if wrongAlgo mysql around stats then none
  else if negativeNumbers stats then none
  else some (insertBenchmark mysql around stats)

/-- `client_store_stats` on the result of a reply. -/
def clientStoreStats (mysql : MysqlEscape) (around : Surroundings)
    (result : Json) : Option Query :=
  match result with
  | .object _ =>
      match (result.getVal "type".toList).bind Json.stringValue with
      | some _ => dbStoreStats mysql around result
      | none => none
  | _ => none

/-! ## What is in the quotes -/

/-- A string argument is a well formed body; numbers are not quoted. -/
def WellFormedArgument : Argument → Prop
  | .client text => WellFormedBody text
  | .server text => WellFormedBody text
  | .integer _ => True
  | .real _ => True
  | .number _ => True

/-- Every string that the query puts between quotes is a well formed body. -/
def WellFormedQuery (query : Query) : Prop :=
  ∀ argument ∈ query.arguments, WellFormedArgument argument

/-- The query that is sent, if any, is well formed. -/
def StoresWellFormed (mysql : MysqlEscape) (around : Surroundings)
    (result : Json) : Prop :=
  ∀ query ∈ clientStoreStats mysql around result, WellFormedQuery query

/-! ## When it is well formed -/

/-- The reply has statistics that `db_store_stats` does not turn away. -/
def Accepted (mysql : MysqlEscape) (around : Surroundings) (result : Json) :
    Prop :=
  (result.getVal "type".toList).bind Json.stringValue ≠ none ∧
    wrongAlgo mysql around result = false ∧ negativeNumbers result = false

/-- The characters of a cleaned text that become a pair. -/
def isLineEnd (c : Char) : Bool :=
  c == Char.ofNat 10 || c == Char.ofNat 13 || c == Char.ofNat 26

/--
No line end stands where it would take the last place of the array: the
characters before it, with the line ends among them counted twice, do not
fill all but the last place.
-/
def FitsArray (maxlen : Nat) (text : CString) : Prop :=
  ∀ first c rest, cleaned maxlen text = first ++ c :: rest →
    isLineEnd c = true → first.length + first.countP isLineEnd + 2 ≠ maxlen

/-- The field fits, when the statistics have it as a string. -/
def FieldFits (result : Json) (field : Field) : Prop :=
  ∀ text, (result.getVal field.key).bind Json.stringValue = some text →
    FitsArray field.maxlen text

end YiimpStratum.Stats
