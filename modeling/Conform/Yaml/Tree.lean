import Conform.Yaml.Node

/-! Trees of YAML text: nodes whose references have given way to what they refer to. -/

namespace Conform.Yaml

inductive Tree where
  | scalar (tag : Option String) (style : Style) (text : String)
  | sequence (tag : Option String) (items : List Tree)
  | mapping (tag : Option String) (pairs : List (Tree × Tree))

namespace Tree

instance : Inhabited Tree := ⟨.scalar none .plain ""⟩

def maxNesting : Nat := 128

mutual

def marked : Node → List (Nat × Node)
  | .reference _ => []
  | .scalar label tag style text =>
    label.toList.map fun n => (n, .scalar label tag style text)
  | .sequence label tag items =>
    (label.toList.map fun n => (n, .sequence label tag items)) ++ markedItems items
  | .mapping label tag pairs =>
    (label.toList.map fun n => (n, .mapping label tag pairs)) ++ markedPairs pairs

def markedItems : List Node → List (Nat × Node)
  | [] => []
  | item :: rest => marked item ++ markedItems rest

def markedPairs : List (Node × Node) → List (Nat × Node)
  | [] => []
  | (key, value) :: rest => marked key ++ marked value ++ markedPairs rest

end

mutual

def weight : Node → Nat
  | .reference _ => 1
  | .scalar .. => 1
  | .sequence _ _ items => 2 + weightItems items
  | .mapping _ _ pairs => 2 + weightPairs pairs

def weightItems : List Node → Nat
  | [] => 0
  | item :: rest => weight item + weightItems rest

def weightPairs : List (Node × Node) → Nat
  | [] => 0
  | (key, value) :: rest => weight key + weight value + weightPairs rest

end

/-- References may still be followed as often as the state says. -/
abbrev Expand := StateT Nat (Except Fault)

def follow (targets : List (Nat × Node)) : Node → Expand Node
  -- Of a number given twice, the last node counts.
  | .reference label => do
    match ← get with
    | 0 => throw .tooManyReferences
    | n + 1 =>
      set n
      match targets.lookup label with
      | some node => return node
      | none => throw .unknownAnchor
  | node => return node

def expand (targets : List (Nat × Node)) : Nat → Node → Expand Tree
  | 0, node => do
    match ← follow targets node with
    | .scalar _ tag style text => return .scalar tag style text
    | .sequence .. | .mapping .. => throw .nestedTooDeep
    | .reference _ => throw .unknownAnchor
  | depth + 1, node => do
    match ← follow targets node with
    | .scalar _ tag style text => return .scalar tag style text
    | .sequence _ tag items => return .sequence tag (← items.mapM (expand targets depth))
    | .mapping _ tag pairs =>
      return .mapping tag (← pairs.mapM fun (key, value) => do
        return (← expand targets depth key, ← expand targets depth value))
    | .reference _ => throw .unknownAnchor

def ofNode (node : Node) : Except Fault Tree :=
  -- References may be followed a hundred times for each step.
  (expand (marked node).reverse maxNesting node).run' (100 * weight node)

def ofText (text : String) : Except Fault (Option Tree) := do
  match ← Node.ofTokens (← Token.ofText text) with
  | some node => return some (← ofNode node)
  | none => return none

end Tree

end Conform.Yaml
