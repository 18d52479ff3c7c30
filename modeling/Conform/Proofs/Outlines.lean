import Conform.Proofs.PlainTexts

/-!
# Outlines — from the tokens of a document to its data

An outline is what the tokens of a written document hold: scalars in their styles, and collections
in blocks, without tags, anchors or references.  Its tokens are read as one node
(`Outline.ofTokens_tokens`), the node expands into a tree unless it is nested too deep
(`Outline.ofNode_toNode`), and the outline of a document has the data of the document
(`Outline.ofTree_ofDocument`).
-/

namespace Conform.Yaml

/-- What the tokens of a document hold. -/
inductive Outline where
  | scalar (style : Style) (text : String)
  | sequence (items : List Outline)
  | mapping (pairs : List (String × Outline))

namespace Outline

/-! ## 1. Tokens, nodes and trees -/

mutual

/-- The tokens of an outline. A list behind a key is not indented, so that nothing marks its
beginning and its end, and for a plain scalar without text there is nothing at all. -/
def tokens (indentless : Bool) : Outline → List Token
  | .scalar style text => if style = .plain ∧ text = "" then [] else [.scalar style text]
  | .sequence [] => [.flowSequenceStart, .flowSequenceEnd]
  | .sequence (item :: rest) =>
    if indentless then itemTokens (item :: rest)
    else .blockSequenceStart :: (itemTokens (item :: rest) ++ [.blockEnd])
  | .mapping [] => [.flowMappingStart, .flowMappingEnd]
  | .mapping (pair :: rest) => .blockMappingStart :: (pairTokens (pair :: rest) ++ [.blockEnd])

def itemTokens : List Outline → List Token
  | [] => []
  | item :: rest => .blockEntry :: (tokens false item ++ itemTokens rest)

def pairTokens : List (String × Outline) → List Token
  | [] => []
  | (key, value) :: rest =>
    .key :: .scalar (Style.ofText key) key :: .value ::
      (tokens (Writer.isSimpleKey key) value ++ pairTokens rest)

end

mutual

def toNode : Outline → Node
  | .scalar style text => .scalar none none style text
  | .sequence items => .sequence none none (itemsToNodes items)
  | .mapping pairs => .mapping none none (pairsToNodes pairs)

def itemsToNodes : List Outline → List Node
  | [] => []
  | item :: rest => toNode item :: itemsToNodes rest

def pairsToNodes : List (String × Outline) → List (Node × Node)
  | [] => []
  | (key, value) :: rest =>
    (.scalar none none (Style.ofText key) key, toNode value) :: pairsToNodes rest

end

mutual

def toTree : Outline → Tree
  | .scalar style text => .scalar none style text
  | .sequence items => .sequence none (itemsToTrees items)
  | .mapping pairs => .mapping none (pairsToTrees pairs)

def itemsToTrees : List Outline → List Tree
  | [] => []
  | item :: rest => toTree item :: itemsToTrees rest

def pairsToTrees : List (String × Outline) → List (Tree × Tree)
  | [] => []
  | (key, value) :: rest =>
    (.scalar none (Style.ofText key) key, toTree value) :: pairsToTrees rest

end

mutual

def depth : Outline → Nat
  | .scalar .. => 0
  | .sequence items => depthOfItems items + 1
  | .mapping pairs => depthOfPairs pairs + 1

def depthOfItems : List Outline → Nat
  | [] => 0
  | item :: rest => max (depth item) (depthOfItems rest)

def depthOfPairs : List (String × Outline) → Nat
  | [] => 0
  | (_, value) :: rest => max (depth value) (depthOfPairs rest)

end

end Outline

/-! ## 2. Reading the tokens of a node -/

namespace Node

/-- A reader takes some tokens and gives a result; handles and labels stay as they are. -/
def Takes {α : Type} (reader : Read α) (tokens : List Token) (a : α) (rest : List Token) : Prop :=
  ∀ handles labels, reader.run ⟨tokens ++ rest, handles, labels⟩ = .ok (a, ⟨rest, handles, labels⟩)

variable {front back rest stops : List Token} {token stop : Token} {fuel : Nat}
  {block indentless : Bool} {node : Node} {nodes : List Node} {pairs : List (Node × Node)}

theorem read_scalar (style : Style) (text : String) :
    Takes (read block indentless (fuel + 1)) [.scalar style text] (.scalar none none style text)
      rest := fun _ _ => rfl

theorem read_emptySequence :
    Takes (read block indentless (fuel + 2)) [.flowSequenceStart, .flowSequenceEnd]
      (.sequence none none []) rest := fun _ _ => rfl

theorem read_emptyMapping :
    Takes (read block indentless (fuel + 2)) [.flowMappingStart, .flowMappingEnd]
      (.mapping none none []) rest := fun _ _ => rfl

/-- A block sequence is read by its items. -/
theorem read_blockSequence (h : Takes (readItems fuel) front nodes rest) :
    Takes (read true indentless (fuel + 1)) (.blockSequenceStart :: front)
      (.sequence none none nodes) rest := by
  intro handles labels
  show ((readItems fuel).run ⟨front ++ rest, handles, labels⟩ >>= fun r =>
    .ok (Node.sequence none none r.1, r.2)) = _
  rw [h handles labels]
  rfl

/-- A block mapping is read by its pairs. -/
theorem read_blockMapping (h : Takes (readPairs fuel) front pairs rest) :
    Takes (read true indentless (fuel + 1)) (.blockMappingStart :: front)
      (.mapping none none pairs) rest := by
  intro handles labels
  show ((readPairs fuel).run ⟨front ++ rest, handles, labels⟩ >>= fun r =>
    .ok (Node.mapping none none r.1, r.2)) = _
  rw [h handles labels]
  rfl

theorem read_indentless (h : Takes (readIndentlessItems fuel) (.blockEntry :: front) nodes rest) :
    Takes (read block true (fuel + 1)) (.blockEntry :: front) (.sequence none none nodes) rest := by
  intro handles labels
  show ((readIndentlessItems fuel).run ⟨.blockEntry :: front ++ rest, handles, labels⟩ >>= fun r =>
    .ok (Node.sequence none none r.1, r.2)) = _
  rw [h handles labels]
  rfl

/-- Before a token that ends the node, nothing is read. -/
theorem readUnless_stop (h : stops.contains stop = true) :
    Takes (readUnless stops block indentless (fuel + 1)) [] .empty (stop :: rest) := by
  intro handles labels
  show (if stops.contains stop then _ else _ : Read Node).run _ = _
  rw [if_pos h]
  rfl

theorem readUnless_read (h : stops.contains token = false)
    (hread : Takes (read block indentless fuel) (token :: front) node rest) :
    Takes (readUnless stops block indentless (fuel + 1)) (token :: front) node rest := by
  intro handles labels
  show (if stops.contains token then _ else _ : Read Node).run _ = _
  rw [if_neg (by rw [h]; exact Bool.false_ne_true)]
  exact hread handles labels

theorem readItems_nil : Takes (readItems (fuel + 1)) [.blockEnd] [] rest := fun _ _ => rfl

/-- An item is read behind its dash, and the others behind it. -/
theorem readItems_cons
    (hitem : Takes (readUnless [.blockEntry, .blockEnd] true false fuel) front node (back ++ rest))
    (hrest : Takes (readItems fuel) back nodes rest) :
    Takes (readItems (fuel + 1)) (.blockEntry :: (front ++ back)) (node :: nodes) rest := by
  intro handles labels
  rw [List.cons_append, List.append_assoc]
  show ((readUnless _ true false fuel).run ⟨front ++ (back ++ rest), handles, labels⟩ >>= fun r =>
    (readItems fuel).run r.2 >>= fun q => .ok (r.1 :: q.1, q.2)) = _
  rw [hitem handles labels]
  show ((readItems fuel).run ⟨back ++ rest, handles, labels⟩ >>= fun q =>
    .ok (node :: q.1, q.2)) = _
  rw [hrest handles labels]
  rfl

theorem readIndentlessItems_nil (h : token ≠ .blockEntry) :
    Takes (readIndentlessItems (fuel + 1)) [] [] (token :: rest) := by
  intro handles labels
  cases token <;> first | rfl | exact absurd rfl h

theorem readIndentlessItems_cons
    (hitem : Takes (readUnless [.blockEntry, .key, .value, .blockEnd] true false fuel) front node
      (back ++ rest))
    (hrest : Takes (readIndentlessItems fuel) back nodes rest) :
    Takes (readIndentlessItems (fuel + 1)) (.blockEntry :: (front ++ back)) (node :: nodes)
      rest := by
  intro handles labels
  rw [List.cons_append, List.append_assoc]
  show ((readUnless _ true false fuel).run ⟨front ++ (back ++ rest), handles, labels⟩ >>= fun r =>
    (readIndentlessItems fuel).run r.2 >>= fun q => .ok (r.1 :: q.1, q.2)) = _
  rw [hitem handles labels]
  show ((readIndentlessItems fuel).run ⟨back ++ rest, handles, labels⟩ >>= fun q =>
    .ok (node :: q.1, q.2)) = _
  rw [hrest handles labels]
  rfl

theorem readPairs_nil : Takes (readPairs (fuel + 1)) [.blockEnd] [] rest := fun _ _ => rfl

/-- A pair is read by its key and its value, and the others behind it. -/
theorem readPairs_cons {style : Style} {key : String}
    (hvalue : Takes (readUnless [.key, .value, .blockEnd] true true (fuel + 2)) front node
      (back ++ rest))
    (hrest : Takes (readPairs (fuel + 2)) back pairs rest) :
    Takes (readPairs (fuel + 3)) (.key :: .scalar style key :: .value :: (front ++ back))
      ((.scalar none none style key, node) :: pairs) rest := by
  intro handles labels
  rw [List.cons_append, List.cons_append, List.cons_append, List.append_assoc]
  show ((readUnless _ true true (fuel + 2)).run ⟨front ++ (back ++ rest), handles, labels⟩ >>=
    fun r => (readPairs (fuel + 2)).run r.2 >>= fun q =>
      .ok ((.scalar none none style key, r.1) :: q.1, q.2)) = _
  rw [hvalue handles labels]
  show ((readPairs (fuel + 2)).run ⟨back ++ rest, handles, labels⟩ >>= fun q =>
    .ok ((_, node) :: q.1, q.2)) = _
  rw [hrest handles labels]
  rfl

end Node

namespace Outline

open Conform.Yaml.Node (Takes readUnless readItems readIndentlessItems readPairs)

structure Ends (indentless : Bool) (stops : List Token) (stop : Token) : Prop where
  mem : stop ∈ stops
  ends : ∀ token ∈ stops,
    token ∈ [.key, .value, .blockEnd] ∨ token = .blockEntry ∧ indentless = false

/-- A token that begins a value does not end it. -/
theorem Ends.contains_eq_false {indentless : Bool} {stops : List Token} {stop token : Token}
    (h : Ends indentless stops stop) (htoken : token ∉ [Token.key, .value, .blockEnd])
    (hentry : token = .blockEntry → indentless = true) : stops.contains token = false := by
  rw [← Bool.not_eq_true, List.contains_iff_mem]
  intro hmem
  rcases h.ends token hmem with hends | ⟨heq, hindented⟩
  · exact htoken hends
  · rw [hentry heq] at hindented
    cases hindented

mutual

/-- The tokens of an outline are read as its nodes. -/
theorem takes_tokens (o : Outline) {written indentless : Bool} {stops rest : List Token}
    {stop : Token} {fuel : Nat} (hwritten : written = true → indentless = true)
    (hends : Ends indentless stops stop) (hfuel : 3 * (tokens written o).length + 1 ≤ fuel) :
    Takes (readUnless stops true indentless fuel) (tokens written o) o.toNode (stop :: rest) := by
  obtain ⟨fuel, rfl⟩ : ∃ n, fuel = n + 1 := ⟨fuel - 1, by omega⟩
  match o with
  | .scalar style text =>
    unfold tokens at hfuel ⊢
    split
    · -- A plain scalar without text has no tokens, so that the next one ends it.
      rename_i hnothing
      obtain ⟨rfl, rfl⟩ := hnothing
      exact Node.readUnless_stop (List.contains_iff_mem.mpr hends.mem)
    · rename_i hsome
      rw [if_neg hsome, List.length_singleton] at hfuel
      obtain ⟨fuel, rfl⟩ : ∃ n, fuel = n + 1 := ⟨fuel - 1, by omega⟩
      exact Node.readUnless_read (hends.contains_eq_false (by simp) (by simp))
        (Node.read_scalar style text)
  | .sequence [] =>
    unfold tokens at hfuel ⊢
    obtain ⟨fuel, rfl⟩ : ∃ n, fuel = n + 2 := ⟨fuel - 2, by simp at hfuel; omega⟩
    exact Node.readUnless_read (hends.contains_eq_false (by simp) (by simp))
      Node.read_emptySequence
  | .mapping [] =>
    unfold tokens at hfuel ⊢
    obtain ⟨fuel, rfl⟩ : ∃ n, fuel = n + 2 := ⟨fuel - 2, by simp at hfuel; omega⟩
    exact Node.readUnless_read (hends.contains_eq_false (by simp) (by simp)) Node.read_emptyMapping
  | .sequence (item :: items) =>
    unfold tokens at hfuel ⊢
    split
    · -- Behind a key the dashes need no block of their own.
      rename_i hindentless
      subst hindentless
      cases hwritten rfl
      rw [if_pos rfl] at hfuel
      obtain ⟨fuel, rfl⟩ : ∃ n, fuel = n + 1 := ⟨fuel - 1, by simp [itemTokens] at hfuel; omega⟩
      have hstop : stop ∈ [Token.key, .value, .blockEnd] := by
        simpa using hends.ends stop hends.mem
      have hitems : Takes (readIndentlessItems fuel) (itemTokens (item :: items))
          (itemsToNodes (item :: items)) (stop :: rest) :=
        takes_indentlessItems (item :: items) hstop (by simp [itemTokens] at hfuel ⊢; omega)
      unfold itemTokens at hitems ⊢
      exact Node.readUnless_read (hends.contains_eq_false (by simp) (by simp))
        (Node.read_indentless hitems)
    · rename_i hindented
      rw [if_neg hindented] at hfuel
      obtain ⟨fuel, rfl⟩ : ∃ n, fuel = n + 1 := ⟨fuel - 1, by simp [itemTokens] at hfuel; omega⟩
      exact Node.readUnless_read (hends.contains_eq_false (by simp) (by simp))
        (Node.read_blockSequence (takes_itemTokens (item :: items) (by simp at hfuel; omega)))
  | .mapping (pair :: pairs) =>
    unfold tokens at hfuel ⊢
    obtain ⟨fuel, rfl⟩ : ∃ n, fuel = n + 1 := ⟨fuel - 1, by simp at hfuel; omega⟩
    exact Node.readUnless_read (hends.contains_eq_false (by simp) (by simp))
      (Node.read_blockMapping (takes_pairTokens (pair :: pairs) (by simp at hfuel; omega)))

theorem takes_itemTokens (items : List Outline) {rest : List Token} {fuel : Nat}
    (hfuel : 3 * (itemTokens items).length + 1 ≤ fuel) :
    Takes (readItems fuel) (itemTokens items ++ [.blockEnd]) (itemsToNodes items) rest := by
  obtain ⟨fuel, rfl⟩ : ∃ n, fuel = n + 1 := ⟨fuel - 1, by omega⟩
  match items with
  | [] => exact Node.readItems_nil
  | item :: items =>
    unfold itemTokens at hfuel ⊢
    rw [List.length_cons, List.length_append] at hfuel
    rw [List.cons_append, List.append_assoc]
    apply Node.readItems_cons _ (takes_itemTokens items (by omega))
    cases items with
    | nil => exact takes_tokens item nofun ⟨by decide, by simp⟩ (by omega)
    | cons => exact takes_tokens item nofun ⟨by decide, by simp⟩ (by omega)

theorem takes_indentlessItems (items : List Outline) {rest : List Token} {stop : Token} {fuel : Nat}
    (hstop : stop ∈ [Token.key, .value, .blockEnd])
    (hfuel : 3 * (itemTokens items).length ≤ fuel + 1 ∧ 1 ≤ fuel) :
    Takes (readIndentlessItems fuel) (itemTokens items) (itemsToNodes items) (stop :: rest) := by
  obtain ⟨fuel, rfl⟩ : ∃ n, fuel = n + 1 := ⟨fuel - 1, by omega⟩
  match items with
  | [] =>
    apply Node.readIndentlessItems_nil
    rintro rfl
    simp at hstop
  | item :: items =>
    unfold itemTokens at hfuel ⊢
    rw [List.length_cons, List.length_append] at hfuel
    apply Node.readIndentlessItems_cons _ (takes_indentlessItems items hstop (by omega))
    cases items with
    | nil =>
      exact takes_tokens item nofun ⟨List.mem_cons_of_mem _ hstop, by simp⟩ (by omega)
    | cons => exact takes_tokens item nofun ⟨by decide, by simp⟩ (by omega)

/-- The tokens of pairs are read as their nodes. -/
theorem takes_pairTokens (pairs : List (String × Outline)) {rest : List Token} {fuel : Nat}
    (hfuel : 3 * (pairTokens pairs).length + 1 ≤ fuel) :
    Takes (readPairs fuel) (pairTokens pairs ++ [.blockEnd]) (pairsToNodes pairs) rest := by
  obtain ⟨fuel, rfl⟩ : ∃ n, fuel = n + 1 := ⟨fuel - 1, by omega⟩
  match pairs with
  | [] => exact Node.readPairs_nil
  | (key, value) :: pairs =>
    unfold pairTokens at hfuel ⊢
    simp only [List.length_cons, List.length_append] at hfuel
    obtain ⟨fuel, rfl⟩ : ∃ n, fuel = n + 2 := ⟨fuel - 2, by omega⟩
    simp only [List.cons_append, List.append_assoc]
    apply Node.readPairs_cons _ (takes_pairTokens pairs (by omega))
    cases pairs with
    | nil => exact takes_tokens value (fun _ => rfl) ⟨by decide, by simp⟩ (by omega)
    | cons => exact takes_tokens value (fun _ => rfl) ⟨by decide, by simp⟩ (by omega)

end

/-- The tokens of a mapping are read as one node. -/
theorem ofTokens_tokens (pair : String × Outline) (pairs : List (String × Outline)) :
    Node.ofTokens ((mapping (pair :: pairs)).tokens false) =
      .ok (some (mapping (pair :: pairs)).toNode) := by
  have hread : Takes (Node.read true false (4 * ((mapping (pair :: pairs)).tokens false).length + 4))
      ((mapping (pair :: pairs)).tokens false) (mapping (pair :: pairs)).toNode [] := by
    unfold tokens
    apply Node.read_blockMapping (takes_pairTokens (pair :: pairs) _)
    simp only [List.length_cons, List.length_append]
    omega
  have hdocument : Node.readDocument.run { tokens := (mapping (pair :: pairs)).tokens false } =
      .ok ((mapping (pair :: pairs)).toNode, ⟨[], Node.standardHandles, []⟩) := by
    have h := hread Node.standardHandles []
    rw [List.append_nil] at h
    unfold tokens at h ⊢
    exact h
  unfold Node.ofTokens
  rw [hdocument]
  unfold tokens
  rfl

/-! ## 3. The tree of a node -/

def expandPair (targets : List (Nat × Node)) (depth : Nat) (pair : Node × Node) :
    Tree.Expand (Tree × Tree) := do
  return (← Tree.expand targets depth pair.1, ← Tree.expand targets depth pair.2)

section Expansion

variable (targets : List (Nat × Node)) (steps : Nat)

mutual

/-- Nothing of an outline is referred to, so that it expands unless it is nested too deep. -/
theorem expand_toNode (o : Outline) (depth : Nat) :
    (Tree.expand targets depth o.toNode).run steps =
      if o.depth ≤ depth then .ok (o.toTree, steps) else .error .nestedTooDeep := by
  match o, depth with
  | .scalar style text, 0 | .scalar style text, depth + 1 => rfl
  | .sequence items, 0 | .mapping pairs, 0 => rfl
  | .sequence items, depth + 1 =>
    have hdepth : (sequence items).depth ≤ depth + 1 ↔ depthOfItems items ≤ depth :=
      Nat.succ_le_succ_iff
    show ((itemsToNodes items).mapM (Tree.expand targets depth)).run steps >>= (fun r =>
      .ok (Tree.sequence none r.1, r.2)) = _
    rw [expand_itemsToNodes items depth]
    simp only [hdepth]
    split <;> rfl
  | .mapping pairs, depth + 1 =>
    have hdepth : (mapping pairs).depth ≤ depth + 1 ↔ depthOfPairs pairs ≤ depth :=
      Nat.succ_le_succ_iff
    show ((pairsToNodes pairs).mapM (expandPair targets depth)).run steps >>= (fun r =>
      .ok (Tree.mapping none r.1, r.2)) = _
    rw [expand_pairsToNodes pairs depth]
    simp only [hdepth]
    split <;> rfl

/-- Items without references expand to themselves, unless they are nested too deep. -/
theorem expand_itemsToNodes (items : List Outline) (depth : Nat) :
    ((itemsToNodes items).mapM (Tree.expand targets depth)).run steps =
      if depthOfItems items ≤ depth then .ok (itemsToTrees items, steps)
      else .error .nestedTooDeep := by
  match items with
  | [] => rfl
  | item :: items =>
    have hdepth : depthOfItems (item :: items) ≤ depth ↔
        item.depth ≤ depth ∧ depthOfItems items ≤ depth := Nat.max_le
    unfold itemsToNodes
    rw [List.mapM_cons]
    show (Tree.expand targets depth item.toNode).run steps >>= (fun r =>
      ((itemsToNodes items).mapM (Tree.expand targets depth)).run r.2 >>= fun q =>
        .ok (r.1 :: q.1, q.2)) = _
    rw [expand_toNode item depth]
    simp only [hdepth]
    by_cases hitem : item.depth ≤ depth
    · rw [if_pos hitem]
      show ((itemsToNodes items).mapM (Tree.expand targets depth)).run steps >>= (fun q =>
        .ok (item.toTree :: q.1, q.2)) = _
      rw [expand_itemsToNodes items depth]
      simp only [hitem, true_and]
      split <;> rfl
    · rw [if_neg hitem, if_neg (fun h => hitem h.1)]
      rfl

theorem expand_pairsToNodes (pairs : List (String × Outline)) (depth : Nat) :
    ((pairsToNodes pairs).mapM (expandPair targets depth)).run steps =
      if depthOfPairs pairs ≤ depth then .ok (pairsToTrees pairs, steps)
      else .error .nestedTooDeep := by
  match pairs with
  | [] => rfl
  | (key, value) :: pairs =>
    have hdepth : depthOfPairs ((key, value) :: pairs) ≤ depth ↔
        value.depth ≤ depth ∧ depthOfPairs pairs ≤ depth := Nat.max_le
    have hkey : (expandPair targets depth (.scalar none none (Style.ofText key) key,
        value.toNode)).run steps = ((Tree.expand targets depth value.toNode).run steps >>= fun v =>
          .ok ((Tree.scalar none (Style.ofText key) key, v.1), v.2)) := by
      cases depth <;> rfl
    unfold pairsToNodes
    rw [List.mapM_cons]
    show (expandPair targets depth _).run steps >>= (fun r =>
      ((pairsToNodes pairs).mapM (expandPair targets depth)).run r.2 >>= fun q =>
        .ok (r.1 :: q.1, q.2)) = _
    rw [hkey, expand_toNode value depth]
    simp only [hdepth]
    by_cases hvalue : value.depth ≤ depth
    · rw [if_pos hvalue]
      show ((pairsToNodes pairs).mapM (expandPair targets depth)).run steps >>= (fun q =>
        .ok ((_, value.toTree) :: q.1, q.2)) = _
      rw [expand_pairsToNodes pairs depth]
      simp only [hvalue, true_and]
      split <;> rfl
    · rw [if_neg hvalue, if_neg (fun h => hvalue h.1)]
      rfl

end

end Expansion

/-- The node of an outline has the tree of the outline, or is nested too deep. -/
theorem ofNode_toNode (o : Outline) :
    Tree.ofNode o.toNode =
      if o.depth ≤ Tree.maxNesting then .ok o.toTree else .error .nestedTooDeep := by
  show Except.map Prod.fst ((Tree.expand _ Tree.maxNesting o.toNode).run _) = _
  rw [expand_toNode]
  split <;> rfl

/-! ## 4. The data of a document -/

mutual

def ofDocument : Document → Outline
  | .null => .scalar .plain "null"
  | .bool b => .scalar .plain (if b then "true" else "false")
  | .integer i => .scalar .plain (toString i)
  | .real n => .scalar .plain (n.toExponentText Plain.numberStyle)
  | .string s => .scalar (Style.ofText s) s
  | .list items => .sequence (ofDocuments items)
  | .map pairs => .mapping (ofDocumentPairs pairs)

def ofDocuments : List Document → List Outline
  | [] => []
  | item :: rest => ofDocument item :: ofDocuments rest

def ofDocumentPairs : List (String × Document) → List (String × Outline)
  | [] => []
  | (key, value) :: rest => (key, ofDocument value) :: ofDocumentPairs rest

end

end Outline

mutual

def Data.ofDocument : Document → Data
  | .null => .null
  | .bool b => .bool b
  | .integer i => .integer i
  | .real n => .float n
  | .string s => .string s
  | .list items => .sequence (Data.ofDocuments items)
  | .map pairs => .mapping (Data.ofDocumentPairs pairs)

def Data.ofDocuments : List Document → List Data
  | [] => []
  | item :: rest => Data.ofDocument item :: Data.ofDocuments rest

def Data.ofDocumentPairs : List (String × Document) → List (Data × Data)
  | [] => []
  | (key, value) :: rest => (.string key, Data.ofDocument value) :: Data.ofDocumentPairs rest

end

mutual

/-- Documents that can be told from their text: integers have at most 64 bits, and no key of a
mapping comes twice. -/
def Legible : Document → Prop
  | .null | .bool _ | .real _ | .string _ => True
  | .integer i => Plain.fitsWord i = true
  | .list items => LegibleItems items
  | .map pairs => (pairs.map Prod.fst).Nodup ∧ LegiblePairs pairs

def LegibleItems : List Document → Prop
  | [] => True
  | item :: rest => Legible item ∧ LegibleItems rest

def LegiblePairs : List (String × Document) → Prop
  | [] => True
  | (_, value) :: rest => Legible value ∧ LegiblePairs rest

end

namespace Outline

/-- A text is text in the style in which it is written. -/
theorem ofScalar_string (s : String) : Data.ofScalar (Style.ofText s) s = .ok (.string s) := by
  unfold Data.ofScalar
  split
  · rename_i hplain
    have htext : Plain.isText s = true := by
      unfold Style.ofText at hplain
      dsimp only at hplain
      split at hplain
      · split at hplain <;> cases hplain
      · split at hplain
        · rename_i h
          simp only [Bool.and_eq_true] at h
          exact h.1.1
        · split at hplain <;> cases hplain
    unfold Plain.isText at htext
    split at htext
    · rename_i hmeaning
      rw [hmeaning]
    · cases htext
  · rfl

/-- A text in the style that it is written in is read as text. -/
theorem ofTree_string (s : String) :
    Data.ofTree (.scalar none (Style.ofText s) s) = .ok (.string s) := by
  show Data.tagging none (Data.ofScalar (Style.ofText s) s) = _
  rw [ofScalar_string]
  rfl

theorem ofTree_plain {text : String} {d : Data} (h : Data.ofScalar .plain text = .ok d) :
    Data.ofTree (.scalar none .plain text) = .ok d := by
  show Data.tagging none (Data.ofScalar .plain text) = _
  rw [h]
  rfl

mutual

/-- The data of the outline of a document are the data of the document. -/
theorem ofTree_ofDocument (d : Document) (h : Legible d) :
    Data.ofTree (ofDocument d).toTree = .ok (Data.ofDocument d) := by
  match d with
  | .null => rfl
  | .bool b => cases b <;> rfl
  | .integer i =>
    apply ofTree_plain
    unfold Data.ofScalar
    rw [if_pos rfl, meaning_intText h]
    rfl
  | .real n =>
    apply ofTree_plain
    unfold Data.ofScalar
    rw [if_pos rfl, meaning_numberText n]
    rfl
  | .string s => exact ofTree_string s
  | .list items =>
    show Data.tagging none ((Data.ofItems (itemsToTrees (ofDocuments items))).map .sequence) = _
    rw [ofItems_ofDocuments items h]
    rfl
  | .map pairs =>
    have hpairs := ofPairs_ofDocumentPairs pairs [] h.1 (fun _ _ => List.not_mem_nil) h.2
    rw [List.map_nil] at hpairs
    show Data.tagging none ((Data.ofPairs [] (pairsToTrees (ofDocumentPairs pairs))).map .mapping) =
      _
    rw [hpairs]
    rfl

/-- Legible items have the data that they stand for. -/
theorem ofItems_ofDocuments (items : List Document) (h : LegibleItems items) :
    Data.ofItems (itemsToTrees (ofDocuments items)) = .ok (Data.ofDocuments items) := by
  match items with
  | [] => rfl
  | item :: items =>
    show (Data.ofTree (ofDocument item).toTree >>= fun d =>
      Data.ofItems (itemsToTrees (ofDocuments items)) >>= fun ds => .ok (d :: ds)) = _
    rw [ofTree_ofDocument item h.1, ofItems_ofDocuments items h.2]
    rfl

/-- The keys before are texts, and no key is among them. -/
theorem ofPairs_ofDocumentPairs (pairs : List (String × Document)) (seen : List String)
    (hdistinct : (pairs.map Prod.fst).Nodup) (hnew : ∀ key ∈ pairs.map Prod.fst, key ∉ seen)
    (h : LegiblePairs pairs) :
    Data.ofPairs (seen.map .string) (pairsToTrees (ofDocumentPairs pairs)) =
      .ok (Data.ofDocumentPairs pairs) := by
  match pairs with
  | [] => rfl
  | (key, value) :: pairs =>
    have hseen : (seen.map Data.string).any (Data.eqv (.string key)) = false := by
      rw [List.any_eq_false]
      intro d hd
      obtain ⟨other, hother, rfl⟩ := List.mem_map.mp hd
      show ¬(key == other) = true
      rw [beq_iff_eq]
      rintro rfl
      exact hnew key List.mem_cons_self hother
    obtain ⟨hkey, hdistinct⟩ := List.nodup_cons.mp hdistinct
    have hrest : ∀ other ∈ pairs.map Prod.fst, other ∉ key :: seen := by
      intro other hother hmem
      rcases List.mem_cons.mp hmem with rfl | hmem
      · exact hkey hother
      · exact hnew other (List.mem_cons_of_mem _ hother) hmem
    show (Data.ofTree (.scalar none (Style.ofText key) key) >>= fun k =>
      if (seen.map Data.string).any k.eqv then .error .duplicateKey
      else Data.ofTree (ofDocument value).toTree >>= fun v =>
        Data.ofPairs (k :: seen.map .string) (pairsToTrees (ofDocumentPairs pairs)) >>= fun others =>
          .ok ((k, v) :: others)) = _
    rw [ofTree_string]
    show (if (seen.map Data.string).any (Data.eqv (.string key)) then .error .duplicateKey
      else Data.ofTree (ofDocument value).toTree >>= fun v =>
        Data.ofPairs ((key :: seen).map .string) (pairsToTrees (ofDocumentPairs pairs)) >>=
          fun others => .ok ((.string key, v) :: others)) = _
    rw [hseen, if_neg Bool.false_ne_true, ofTree_ofDocument value h.1,
      ofPairs_ofDocumentPairs pairs (key :: seen) hdistinct hrest h.2]
    rfl

end

end Outline

end Conform.Yaml
