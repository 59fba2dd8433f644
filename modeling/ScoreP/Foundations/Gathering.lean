import Mathlib.Data.List.Basic

/-!
# Gatherings

Parties merge what they have along a tree: a party starts with its own part and receives what its children
have gathered, one after the other.
-/

namespace Foundations

inductive Gathering (P : Type) where
  | own (party : P)
  | receive (into source : Gathering P)

namespace Gathering

variable {P S : Type}

def members : Gathering P → List P
  | own party => [party]
  | receive into source => into.members ++ source.members

def gather (init : P → S) (merge : S → S → S) : Gathering P → S
  | own party => init party
  | receive into source => merge (into.gather init merge) (source.gather init merge)

def receiveAll (tree : Gathering P) (children : List (Gathering P)) : Gathering P :=
  children.foldl receive tree

end Gathering

end Foundations
