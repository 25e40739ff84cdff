import Mathlib.Algebra.Order.Ring.Rat
import Mathlib.Data.List.MinMax
import Mathlib.Tactic.Linarith
import YiimpStratum.Client.Multialgo

/-!
# Miners are redirected to something better

The best candidate is the first in the order of `g_algos` whose product is the
largest, and it is compared with the current one as a record.  Another record
that is just as good counts as better when the miner has just logged in.
Later the gain has to be large enough, but it is divided by the profit and by
the factor of the best candidate, and these may be zero.
-/

namespace YiimpStratum.Multialgo

open YiimpStratum
open YiimpStratum.Util

universe level

variable {count : Nat}

/-! ## The first of the largest -/

section Largest

variable {Item : Type level} [DecidableEq Item] {value : Item → Rat}

end Largest

/-! ## What the loops find -/

section Loops

variable (algos : Fin count → YaampAlgo) (currentAlgo : Fin count)
variable (subscriptions : List (Subscription count))

/-- A candidate is a subscription to the algorithm. -/
def isFor (i : Fin count) (candidate : Fin subscriptions.length) : Bool :=
  (subscriptions.get candidate).algo = i

end Loops

/-! ## The best candidate and the current one -/

section Best

variable (algos : Fin count → YaampAlgo) {currentAlgo : Fin count}
variable {subscriptions : List (Subscription count)}
variable {current best : Fin subscriptions.length}

end Best

/-! ## What the call does -/

section Call

variable (algos : Fin count → YaampAlgo) {currentAlgo : Fin count}
variable {subscriptions : List (Subscription count)}
variable {current best : Fin subscriptions.length}
variable (now lastBest : Int)

end Call

/-! ## The condition -/

section Condition

variable (algos : Fin count → YaampAlgo) (currentAlgo : Fin count)
variable (subscriptions : List (Subscription count))

end Condition

section Main

variable {algos : Fin count → YaampAlgo} {currentAlgo : Fin count}
variable {subscriptions : List (Subscription count)}
variable {current best : Fin subscriptions.length}

end Main

end YiimpStratum.Multialgo
