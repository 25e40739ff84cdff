import Mathlib.Data.Int.Bitwise
import YiimpStratum.Library.Run
import YiimpStratum.Template.Merkle

/-!
# Merged mining

Every coin that is mined along with others has one record `aux`, with the hash
of its block, its chain id and its slot.  A template for a parent coin points
to the records of the coins in its slots, and the root over their hashes goes
into its coinbase.  A proof for an auxiliary block is made from the records as
they are when the share is submitted.

The records are numbered in the order in which the coins are loaded.  A
template is built in two steps, the slots and the coinbase, and the threads of
other coins may run between them.  Which coins can be mined and which hashes
the daemons return are inputs.
-/

namespace YiimpStratum.Merged

open YiimpStratum.Util
open YiimpStratum.Template

/-- A hash as a daemon returns it, in hexadecimal. -/
structure AuxHash where
  digits : CString
  length : digits.length = 64
  deriving DecidableEq

/-- The fields of `YAAMP_COIND_AUX` that proofs are made from. -/
structure CoindAux where
  index : Nat
  chainid : Int
  hash : AuxHash
  deriving DecidableEq

/--
A template: `auxs` holds the numbers of the records in its slots, and its
length is `auxs_size`.  The root is there once the coinbase is.
-/
structure JobTemplate where
  auxs : List (Option Nat)
  root : Option CString
  deleted : Bool
  deriving DecidableEq

/-- The records of the coins and the templates. -/
structure Server where
  records : List CoindAux
  templates : List JobTemplate
  deriving DecidableEq

def Server.initial : Server where
  records := []
  templates := []

/-- The coins of a list that are loaded. -/
def Server.loaded (server : Server) (coinds : List Nat) : List Nat :=
  coinds.filter fun coind => coind < server.records.length

/-! ## Slots -/

/-- `MAX_AUXS` -/
def maxAuxs : Nat := 32

/--
`pos`: the first product is one of two `int` values, the rest is computed in
64 bits.
-/
def auxPosition (chainid : Int) (size : Nat) : Nat :=
  ((Int.bmod (1103515245 * chainid) (2 ^ 32) + 1103515245 * 12345 + 12345) %
    size).toNat

/-- The loop over the coins for one size: whether it was done. -/
def placeAuxs (size : Nat) :
    List Nat → List (Option Nat) → List CoindAux →
      Bool × List (Option Nat) × List CoindAux
  | [], auxs, records => (true, auxs, records)
  | coind :: coinds, auxs, records =>
      match records[coind]? with
      | none => placeAuxs size coinds auxs records
      | some aux =>
          let pos := auxPosition aux.chainid size
          if (auxs.getD pos none).isSome then (false, [], records)
          else
            placeAuxs size coinds (auxs.set pos (some coind))
              (records.set coind { aux with index := pos })

/-- The loop over the sizes, from a list of exponents. -/
def tryAuxs (coinds : List Nat) :
    List Nat → List CoindAux → List (Option Nat) × List CoindAux
  | [], records => ([], records)
  | i :: rest, records =>
      if 2 ^ i < coinds.length then tryAuxs coinds rest records
      else
        match placeAuxs (2 ^ i) coinds (List.replicate (2 ^ i) none)
          records with
        | (true, auxs, placed) => (auxs, placed)
        | (false, _, placed) => tryAuxs coinds rest placed

/-- `coind_aux_build_auxs`, for the coins that can be mined. -/
def coindAuxBuildAuxs (coinds : List Nat) (records : List CoindAux) :
    List (Option Nat) × List CoindAux :=
  if coinds = [] then ([], records)
  else tryAuxs coinds (List.range maxAuxs) records

/-! ## Roots and branches -/

/-- `coind_aux_hashlist` -/
def coindAuxHashlist (records : List CoindAux) (auxs : List (Option Nat)) :
    List CString :=
  auxs.map fun slot =>
    match slot with
    | some coind =>
        (records[coind]?.map fun aux => stringBe aux.hash.digits).getD []
    | none => List.replicate 64 '0'

section Hashes

variable (sha256Double : Sha256Double)

/-- The loop of `coind_aux_merkle_branch`. -/
def merkleBranch (hashlist : List CString) (index : Nat) : List CString :=
  if 1 < hashlist.length then
    (if index % 2 = 1 then hashlist.getD (index - 1) []
      else hashlist.getD (index + 1) []) ::
      merkleBranch (hashPairs sha256Double hashlist) (index / 2)
  else
    []
termination_by hashlist.length
decreasing_by
  rw [length_hashPairs]
  omega

def coindAuxMerkleBranch (records : List CoindAux)
    (auxs : List (Option Nat)) (index : Nat) : List CString :=
  merkleBranch sha256Double (coindAuxHashlist records auxs) index

/-- The loop of `coinbase_aux`. -/
def merkleTop (hashlist : List CString) : List CString :=
  if 1 < hashlist.length then
    merkleTop (hashPairs sha256Double hashlist)
  else
    hashlist
termination_by hashlist.length
decreasing_by
  rw [length_hashPairs]
  omega

/-- `merkle_hash` of `coinbase_aux` -/
def coinbaseAuxRoot (records : List CoindAux)
    (auxs : List (Option Nat)) : CString :=
  stringBe
    ((merkleTop sha256Double (coindAuxHashlist records auxs)).headD [])

/-! ## Proofs -/

/-- What `client_do_submit` sends about one auxiliary block. -/
structure AuxProof where
  hash : AuxHash
  branch : List CString
  index : Nat

/-- The proof for the coin in a slot of a template, if there is one. -/
def clientDoSubmit (records : List CoindAux) (templ : JobTemplate)
    (slot : Nat) : Option AuxProof :=
  match (templ.auxs[slot]?).join with
  | none => none
  | some coind =>
      records[coind]?.map fun aux =>
        { hash := aux.hash
          branch :=
            coindAuxMerkleBranch sha256Double records templ.auxs aux.index
          index := aux.index }

/-! ## Steps -/

/-- A step of one of the threads; submissions leave the state as it is. -/
inductive Action where
  | loadCoind (chainid : Int) (hash : AuxHash)
  | coindGetauxblock (coind : Nat) (chainid : Int) (hash : AuxHash)
  | coindAuxBuildAuxs (coinds : List Nat)
  | coinbaseAux (templ : Nat)
  | deleteJob (templ : Nat)
  deriving DecidableEq

def step (server : Server) : Action → Server
  | .loadCoind chainid hash =>
      { server with
        records :=
          server.records ++
            [{ index := 0, chainid := chainid, hash := hash }] }
  | .coindGetauxblock coind chainid hash =>
      { server with
        records :=
          server.records.modify coind fun aux =>
            { aux with chainid := chainid, hash := hash } }
  | .coindAuxBuildAuxs coinds =>
      let built := coindAuxBuildAuxs (server.loaded coinds) server.records
      { records := built.2
        templates :=
          server.templates ++
            [{ auxs := built.1, root := none, deleted := false }] }
  | .coinbaseAux i =>
      { server with
        templates :=
          server.templates.modify i fun templ =>
            if templ.auxs = [] ∨ templ.root.isSome then templ
            else
              { templ with
                root :=
                  some
                    (coinbaseAuxRoot sha256Double server.records
                      templ.auxs) } }
  | .deleteJob i =>
      { server with
        templates :=
          server.templates.modify i fun templ =>
            { templ with deleted := true } }

end Hashes

end YiimpStratum.Merged
