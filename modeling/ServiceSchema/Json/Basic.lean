import ServiceSchema.Decimal
/-!
# JSON values

Numbers keep apart integers and floating-point numbers, so `1` and `1.0` differ. Objects are lists
of entries in the order of the text; `sorted` brings a value into the form in which constants are
kept, with every object's keys increasing and distinct.
-/

namespace ServiceSchema

open Decimal (Binary64)

namespace Json

/-- The integers that stay integers when read: from `-2 ^ 63` to `2 ^ 64 - 1`. -/
def integerRange (i : Int) : Prop :=
  -9223372036854775808 ≤ i ∧ i < 18446744073709551616

instance (i : Int) : Decidable (integerRange i) :=
  inferInstanceAs (Decidable (_ ∧ _))

inductive Number where
  | integer (i : Int) (inRange : integerRange i)
  | float (x : Binary64)
deriving DecidableEq

namespace Number

def isZero : Number → Bool
  | integer i _ => i == 0
  | float x => x.isZero

def ofNat (n : UInt64) : Number :=
  integer n.toNat ⟨by omega, by have := n.toNat_lt; omega⟩

end Number

end Json

inductive Json where
  | null
  | bool (b : Bool)
  | number (n : Json.Number)
  | string (s : String)
  | array (items : List Json)
  | object (entries : List (String × Json))

namespace Json

variable {α : Type}

/-- Puts an entry into its place among entries with increasing keys; an entry with the same key is
replaced. -/
def insertEntry (key : String) (value : α) : List (String × α) → List (String × α)
  | [] => [(key, value)]
  | (k, v) :: rest =>
    if key < k then (key, value) :: (k, v) :: rest
    else if key = k then (key, value) :: rest
    else (k, v) :: insertEntry key value rest

/-- Entries with increasing keys; of entries with equal keys the last stays. -/
def sortEntries (entries : List (String × α)) : List (String × α) :=
  entries.foldl (fun sorted e => insertEntry e.1 e.2 sorted) []

mutual

def sorted : Json → Json
  | null => null
  | bool b => bool b
  | number n => number n
  | string s => string s
  | array items => array (sortedItems items)
  | object entries => object (sortEntries (sortedEntries entries))

def sortedItems : List Json → List Json
  | [] => []
  | j :: js => j.sorted :: sortedItems js

def sortedEntries : List (String × Json) → List (String × Json)
  | [] => []
  | (k, j) :: rest => (k, j.sorted) :: sortedEntries rest

end

mutual

/-- How deep a value nests; a scalar has depth one. -/
def depth : Json → Nat
  | array items => depthOfItems items + 1
  | object entries => depthOfEntries entries + 1
  | _ => 1

def depthOfItems : List Json → Nat
  | [] => 0
  | j :: js => max j.depth (depthOfItems js)

def depthOfEntries : List (String × Json) → Nat
  | [] => 0
  | (_, j) :: rest => max j.depth (depthOfEntries rest)

end

def natural (n : UInt64) : Json :=
  number (Number.ofNat n)

def strings (ss : List String) : Json :=
  array (ss.map string)

def get? (key : String) : Json → Option Json
  | object entries => entries.lookup key
  | _ => none

end Json

end ServiceSchema
