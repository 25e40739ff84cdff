import YiimpStratum.Library.CompactSize

/-!
# Transactions

The binary format of a transaction: a version, in some formats a time, the
inputs and the outputs behind their counts and a lock time.  Numbers have their
least significant byte first, and a script stands behind its length.
-/

namespace YiimpStratum

/-- An input; `previous` is the 36 bytes of a hash and an index. -/
structure Transaction.Input where
  previous : List UInt8
  script : List UInt8
  sequence : Nat
  deriving DecidableEq

structure Transaction.Output where
  value : Nat
  script : List UInt8
  deriving DecidableEq

structure Transaction where
  version : Nat
  time : Option Nat
  inputs : List Transaction.Input
  outputs : List Transaction.Output
  lockTime : Nat
  deriving DecidableEq

namespace Transaction

open CompactSize

/-! ## Writing -/

def serializeScript (script : List UInt8) : List UInt8 :=
  encode script.length ++ script

def Input.serialize (input : Input) : List UInt8 :=
  input.previous ++
    (serializeScript input.script ++ littleEndian 4 input.sequence)

def Output.serialize (output : Output) : List UInt8 :=
  littleEndian 8 output.value ++ serializeScript output.script

def serializeTime : Option Nat → List UInt8
  | some time => littleEndian 4 time
  | none => []

def serialize (transaction : Transaction) : List UInt8 :=
  littleEndian 4 transaction.version ++
    (serializeTime transaction.time ++
      (encode transaction.inputs.length ++
        (transaction.inputs.flatMap Input.serialize ++
          (encode transaction.outputs.length ++
            (transaction.outputs.flatMap Output.serialize ++
              littleEndian 4 transaction.lockTime)))))

/-! ## Reading -/

def readBytes (count : Nat) (bytes : List UInt8) :
    Option (List UInt8 × List UInt8) :=
  if bytes.length < count then none
  else some (bytes.take count, bytes.drop count)

def readScript (bytes : List UInt8) : Option (List UInt8 × List UInt8) := do
  let (length, rest) ← decode bytes
  readBytes length rest

def readInput (bytes : List UInt8) : Option (Input × List UInt8) := do
  let (previous, rest) ← readBytes 36 bytes
  let (script, rest) ← readScript rest
  let (sequence, rest) ← readField 4 rest
  some (⟨previous, script, sequence⟩, rest)

def readOutput (bytes : List UInt8) : Option (Output × List UInt8) := do
  let (value, rest) ← readField 8 bytes
  let (script, rest) ← readScript rest
  some (⟨value, script⟩, rest)

def readMany {α : Type} (read : List UInt8 → Option (α × List UInt8)) :
    Nat → List UInt8 → Option (List α × List UInt8)
  | 0, bytes => some ([], bytes)
  | count + 1, bytes => do
      let (value, rest) ← read bytes
      let (values, rest) ← readMany read count rest
      some (value :: values, rest)

/-- The time, in the formats that have one. -/
def readTime (timed : Bool) (bytes : List UInt8) :
    Option (Option Nat × List UInt8) :=
  if timed then (readField 4 bytes).map fun read => (some read.1, read.2)
  else some (none, bytes)

/-- The transaction that a byte string is, with nothing left over. -/
def parse (timed : Bool) (bytes : List UInt8) : Option Transaction := do
  let (version, rest) ← readField 4 bytes
  let (time, rest) ← readTime timed rest
  let (count, rest) ← decode rest
  let (inputs, rest) ← readMany readInput count rest
  let (count, rest) ← decode rest
  let (outputs, rest) ← readMany readOutput count rest
  let (lockTime, rest) ← readField 4 rest
  if rest = [] then some ⟨version, time, inputs, outputs, lockTime⟩ else none

/-! ## Transactions that fit the format -/

structure Input.Fits (input : Input) : Prop where
  previous : input.previous.length = 36
  script : input.script.length < 2 ^ 64
  sequence : input.sequence < 2 ^ 32

structure Output.Fits (output : Output) : Prop where
  value : output.value < 2 ^ 64
  script : output.script.length < 2 ^ 64

structure Fits (transaction : Transaction) : Prop where
  version : transaction.version < 2 ^ 32
  time : ∀ time ∈ transaction.time, time < 2 ^ 32
  inputs : ∀ input ∈ transaction.inputs, input.Fits
  inputCount : transaction.inputs.length < 2 ^ 64
  outputs : ∀ output ∈ transaction.outputs, output.Fits
  outputCount : transaction.outputs.length < 2 ^ 64
  lockTime : transaction.lockTime < 2 ^ 32

/-! ## Reading what was written -/

/-- A number of a fixed width is read back, with what follows it. -/
theorem readField_littleEndian (width : Nat) {number : Nat}
    (small : number < 256 ^ width) (rest : List UInt8) :
    readField width (littleEndian width number ++ rest) =
      some (number, rest) := by
  rw [readField_append, Nat.mod_eq_of_lt small]

theorem readBytes_append {count : Nat} {bytes : List UInt8}
    (length : bytes.length = count) (rest : List UInt8) :
    readBytes count (bytes ++ rest) = some (bytes, rest) := by
  rw [readBytes, if_neg (by rw [List.length_append]; omega),
    List.take_left' length, List.drop_left' length]

theorem readScript_append {script : List UInt8}
    (small : script.length < 2 ^ 64) (rest : List UInt8) :
    readScript (serializeScript script ++ rest) = some (script, rest) := by
  simp only [readScript, serializeScript, List.append_assoc,
    decode_encode_append small, readBytes_append rfl, Option.bind_eq_bind,
    Option.bind_some]

theorem readInput_append {input : Input} (fits : input.Fits)
    (rest : List UInt8) :
    readInput (input.serialize ++ rest) = some (input, rest) := by
  have sequence := readField_littleEndian 4 fits.sequence rest
  simp only [readInput, Input.serialize, List.append_assoc,
    readBytes_append fits.previous, readScript_append fits.script, sequence,
    Option.bind_eq_bind, Option.bind_some]

theorem readOutput_append {output : Output} (fits : output.Fits)
    (rest : List UInt8) :
    readOutput (output.serialize ++ rest) = some (output, rest) := by
  simp only [readOutput, Output.serialize, List.append_assoc,
    readField_littleEndian 8 fits.value,
    readScript_append fits.script, Option.bind_eq_bind, Option.bind_some]

/-- Values that are read back one by one are read back in a row. -/
theorem readMany_append {α : Type} {write : α → List UInt8}
    {read : List UInt8 → Option (α × List UInt8)} (values : List α)
    (readBack : ∀ value ∈ values, ∀ rest,
      read (write value ++ rest) = some (value, rest))
    (rest : List UInt8) :
    readMany read values.length (values.flatMap write ++ rest) =
      some (values, rest) := by
  induction values with
  | nil =>
      rfl
  | cons value values ih =>
      have first := readBack value List.mem_cons_self
      have others := ih fun other member =>
        readBack other (List.mem_cons_of_mem _ member)
      rw [List.length_cons, readMany, List.flatMap_cons, List.append_assoc,
        first]
      simp only [Option.bind_eq_bind, Option.bind_some, others]

theorem readTime_append {time : Option Nat}
    (small : ∀ number ∈ time, number < 2 ^ 32) (rest : List UInt8) :
    readTime time.isSome (serializeTime time ++ rest) = some (time, rest) := by
  cases time with
  | none =>
      rfl
  | some number =>
      have read := readField_littleEndian 4 (small number rfl) rest
      rw [readTime, serializeTime, Option.isSome_some, if_pos rfl, read,
        Option.map_some]

/-- What was written is read back completely. -/
theorem parse_serialize {transaction : Transaction}
    (fits : transaction.Fits) :
    parse transaction.time.isSome transaction.serialize =
      some transaction := by
  have inputs := readMany_append transaction.inputs fun input member =>
    readInput_append (fits.inputs input member)
  have outputs := readMany_append transaction.outputs fun output member =>
    readOutput_append (fits.outputs output member)
  have lockTime := readField_littleEndian 4 fits.lockTime []
  rw [List.append_nil] at lockTime
  simp only [parse, serialize,
    readField_littleEndian 4 fits.version,
    readTime_append fits.time, decode_encode_append fits.inputCount, inputs,
    decode_encode_append fits.outputCount, outputs, lockTime,
    Option.bind_eq_bind, Option.bind_some, if_true]

end Transaction

end YiimpStratum
