import Conform.Proofs.Readback
import Conform.Report

/-!
# Listings — outcomes up to their last message

An outcome that lists diagnostics is written with the message of the last one at its end
(`Listing.document_eq`).  Whatever stands in the place of this message, the text before it is read
the same way (`Listing.leads_text`, `Listing.ofText_text`), and what is read in its place is the
message of what is read (`Listing.message_of_readsAs`).
-/

namespace Conform.Yaml

open Writer Outline

/-! ## 1. Parts of collections -/

namespace Writer

variable {key : String} {n : Nat}

theorem items_append (n : Nat) (front back : List Document) :
    items n (front ++ back) = items n front ++ items n back := by
  induction front with
  | nil => rfl
  | cons item rest ih => simp only [List.cons_append, items, ih, List.append_assoc]

theorem pairs_append (n : Nat) (front back : List (String × Document)) :
    pairs n (front ++ back) = pairs n front ++ pairs n back := by
  induction front with
  | nil => rfl
  | cons pair rest ih => simp only [List.cons_append, pairs, ih, List.append_assoc]

def item (n : Nat) (front : List Document) (rest : List Char) : List Char :=
  items n front ++ (blanks n ++ '-' :: rest)

def entry (n : Nat) (front : List (String × Document)) (key : String) (rest : List Char) :
    List Char :=
  pairs n front ++ (blanks n ++ (string (n + 2) key ++ ':' :: rest))

/-- The last item of a list stands behind the lines of the others. -/
theorem items_concat (n : Nat) (front : List Document) (d : Document) :
    items n (front ++ [d]) = item n front (behindMark n d) := by
  rw [items_append, items, items, List.append_nil]
  rfl

/-- The last entry of a mapping stands behind the lines of the others. -/
theorem pairs_concat (hkey : isSimpleKey key = true) (n : Nat) (front : List (String × Document))
    (d : Document) : pairs n (front ++ [(key, d)]) = entry n front key (behindKey n d) := by
  rw [pairs_append, pairs, if_pos hkey, pairs]
  simp only [List.append_nil, List.append_assoc]
  rfl

theorem behindKey_list {items : List Document} (h : items ≠ []) :
    behindKey n (.list items) = '\n' :: Writer.items n items := by
  cases items with
  | nil => exact absurd rfl h
  | cons => rfl

theorem behindKey_map {pairs : List (String × Document)} (h : pairs ≠ []) :
    behindKey n (.map pairs) = '\n' :: Writer.pairs (n + 2) pairs := by
  cases pairs with
  | nil => exact absurd rfl h
  | cons => rfl

theorem behindMark_map {pairs : List (String × Document)} (h : pairs ≠ []) :
    behindMark n (.map pairs) = (Writer.pairs (n + 2) pairs).drop (n + 1) := by
  cases pairs with
  | nil => exact absurd rfl h
  | cons => rfl

end Writer

namespace Outline

/-- A list behind a key has neither a beginning nor an end among its tokens. -/
theorem tokens_sequence {items : List Outline} (h : items ≠ []) :
    (sequence items).tokens true = itemTokens items := by
  cases items with
  | nil => exact absurd rfl h
  | cons => rfl

theorem tokens_mapping {pairs : List (String × Outline)} (h : pairs ≠ []) (indentless : Bool) :
    (mapping pairs).tokens indentless = .blockMappingStart :: (pairTokens pairs ++ [.blockEnd]) := by
  cases pairs with
  | nil => exact absurd rfl h
  | cons => rfl

theorem itemTokens_append (front back : List Outline) :
    itemTokens (front ++ back) = itemTokens front ++ itemTokens back := by
  induction front with
  | nil => rfl
  | cons item rest ih => simp only [List.cons_append, itemTokens, ih, List.append_assoc]

theorem pairTokens_append (front back : List (String × Outline)) :
    pairTokens (front ++ back) = pairTokens front ++ pairTokens back := by
  induction front with
  | nil => rfl
  | cons pair rest ih => simp only [List.cons_append, pairTokens, ih, List.append_assoc]

end Outline

namespace Data

variable {o : Outline} {d : Data}

theorem ofDocuments_append (front back : List Document) :
    ofDocuments (front ++ back) = ofDocuments front ++ ofDocuments back := by
  induction front with
  | nil => rfl
  | cons item rest ih => simp only [List.cons_append, ofDocuments, ih]

theorem ofDocumentPairs_append (front back : List (String × Document)) :
    ofDocumentPairs (front ++ back) = ofDocumentPairs front ++ ofDocumentPairs back := by
  induction front with
  | nil => rfl
  | cons pair rest ih => simp only [List.cons_append, ofDocumentPairs, ih]

theorem exists_of_bind {α β : Type} {r : Except Fault α} {f : α → Except Fault β} {b : β}
    (h : (r >>= f) = .ok b) : ∃ a, r = .ok a ∧ f a = .ok b := by
  cases r with
  | ok a => exact ⟨a, rfl, h⟩
  | error e => cases h

/-- The data of the last item are those of its tree. -/
theorem ofItems_concat {front : List Outline} {ds : List Data}
    (h : ofItems (itemsToTrees (front ++ [o])) = .ok ds) :
    ∃ d, ofTree o.toTree = .ok d ∧ ds.getLast? = some d := by
  induction front generalizing ds with
  | nil =>
    obtain ⟨d, hd, h⟩ := exists_of_bind (r := ofTree o.toTree) h
    cases h
    exact ⟨d, hd, rfl⟩
  | cons item front ih =>
    obtain ⟨first, -, h⟩ := exists_of_bind (r := ofTree item.toTree) h
    obtain ⟨rest, hrest, h⟩ := exists_of_bind (r := ofItems (itemsToTrees (front ++ [o]))) h
    cases h
    obtain ⟨d, hd, hlast⟩ := ih hrest
    exact ⟨d, hd, by rw [List.getLast?_cons, hlast]; rfl⟩

/-- The data of the last pair are those of its trees. -/
theorem ofPairs_concat {key : String} {front : List (String × Outline)} {seen : List Data}
    {ds : List (Data × Data)} (h : ofPairs seen (pairsToTrees (front ++ [(key, o)])) = .ok ds) :
    ∃ k d, ofTree o.toTree = .ok d ∧ ds.getLast? = some (k, d) := by
  induction front generalizing seen ds with
  | nil =>
    obtain ⟨k, -, h⟩ := exists_of_bind (r := ofTree (.scalar none (Style.ofText key) key)) h
    split at h
    · cases h
    · obtain ⟨d, hd, h⟩ := exists_of_bind (r := ofTree o.toTree) h
      cases h
      exact ⟨k, d, hd, rfl⟩
  | cons pair front ih =>
    obtain ⟨k, -, h⟩ := exists_of_bind (r := ofTree (.scalar none (Style.ofText pair.1) pair.1)) h
    split at h
    · cases h
    · obtain ⟨first, -, h⟩ := exists_of_bind (r := ofTree pair.2.toTree) h
      obtain ⟨rest, hrest, h⟩ :=
        exists_of_bind (r := ofPairs (k :: seen) (pairsToTrees (front ++ [(key, o)]))) h
      cases h
      obtain ⟨k', d, hd, hlast⟩ := ih hrest
      exact ⟨k', d, hd, by rw [List.getLast?_cons, hlast]; rfl⟩

/-- The data of the last item of a list come from its tree. -/
theorem ofTree_of_sequence (front : List Outline) {ds : List Data}
    (h : ofTree (Outline.sequence (front ++ [o])).toTree = .ok (.sequence (ds ++ [d]))) :
    ofTree o.toTree = .ok d := by
  change (ofItems (itemsToTrees (front ++ [o]))).map Data.sequence = _ at h
  cases hitems : ofItems (itemsToTrees (front ++ [o])) with
  | error e =>
    rw [hitems] at h
    cases h
  | ok found =>
    rw [hitems] at h
    obtain ⟨d', hd, hlast⟩ := ofItems_concat hitems
    cases h
    rw [List.getLast?_concat] at hlast
    cases hlast
    exact hd

/-- The data of the last value of a mapping come from its tree. -/
theorem ofTree_of_mapping {key : String} {k : Data} (front : List (String × Outline))
    {ds : List (Data × Data)}
    (h : ofTree (Outline.mapping (front ++ [(key, o)])).toTree = .ok (.mapping (ds ++ [(k, d)]))) :
    ofTree o.toTree = .ok d := by
  change (ofPairs [] (pairsToTrees (front ++ [(key, o)]))).map Data.mapping = _ at h
  cases hpairs : ofPairs [] (pairsToTrees (front ++ [(key, o)])) with
  | error e =>
    rw [hpairs] at h
    cases h
  | ok found =>
    rw [hpairs] at h
    obtain ⟨k', d', hd, hlast⟩ := ofPairs_concat hpairs
    cases h
    rw [List.getLast?_concat] at hlast
    cases hlast
    exact hd

/-- Data that are a text have it from their scalar. -/
theorem text_of_ofTree {style : Style} {text s : String}
    (h : ofTree (Outline.scalar style text).toTree = .ok (.string s)) : text = s := by
  change ofScalar style text = _ at h
  unfold ofScalar at h
  split at h
  · split at h <;> cases h
    rfl
  · cases h
    rfl

end Data

/-! ## 2. Reading up to a value -/

namespace Layout

variable {b : Blocks} {s : Layout} {rest : List Char} {n : Nat}

theorem enter_enterFor {α : Type} {start : Token} (hb : b.margin ≤ n + 1) (members : List α)
    (tokens : List Token) (hnone : members = [] → tokens = []) :
    ((b.enterFor n start members).append tokens).enter n start =
      (b.enter n start).append tokens := by
  cases members with
  | nil =>
    rw [hnone rfl]
    rfl
  | cons => exact Blocks.enter_eq_self (Blocks.enter_margin hb)

theorem lines_entry (pairs : List (String × Document)) (key : String) (rest : List Char) :
    ∃ after, Lines (entry n pairs key rest) n after := by
  cases pairs with
  | nil => exact ⟨_, rfl, (lexeme_string (n + 1) key).begins n _⟩
  | cons pair pairs => exact lines_pairs pair pairs _

theorem lines_item (items : List Document) (rest : List Char) :
    ∃ after, Lines (item n items rest) n after := by
  cases items with
  | nil => exact ⟨_, lines_blanks (.inl rfl)⟩
  | cons first items => exact ⟨_, lines_items first items⟩

/-- From the lines of a mapping to what stands behind the colon of a key. -/
theorem leads_entry {key : String} (hkey : isSimpleKey key = true) (hends : endsWord rest = true)
    (pairs : List (String × Document)) (hb : b.margin ≤ n + 1)
    (hready : Ready s (entry n pairs key rest) b) :
    ∃ inner place, inner = (b.enter n .blockMappingStart).append (pairTokens
        (ofDocumentPairs pairs) ++ [.key, .scalar (Style.ofText key) key, .value]) ∧
      inner.margin = n + 1 ∧ place.rest = rest ∧ n + 1 ≤ place.column ∧
      Leads s (inner.layout place false) := by
  have hlexeme := lexeme_string (n + 1) key
  obtain ⟨hline, hlength⟩ := string_of_isSimpleKey hkey (n + 2)
  obtain ⟨t, hpairs, ht⟩ := leads_pairs pairs hb hready
    ⟨n, _, ⟨rfl, hlexeme.begins n (':' :: rest)⟩, Nat.le_refl n⟩
  have hmargin : ((b.enterFor n .blockMappingStart pairs).append
      (pairTokens (ofDocumentPairs pairs))).margin ≤ n + 1 := by
    cases pairs with
    | nil => exact hb
    | cons => exact Nat.le_of_eq (Blocks.enter_margin hb)
  obtain ⟨place, hrest, hcolumn, hleads⟩ := leads_key hlexeme hline hlength ht hmargin hends
  rw [enter_enterFor hb pairs _ (by rintro rfl; rfl), Blocks.append_append] at hleads
  exact ⟨_, place, rfl, Blocks.enter_margin hb, hrest, hcolumn, hpairs.trans hleads⟩

/-- From the lines of a list to what stands behind the dash of an item. -/
theorem leads_item (hends : endsWord rest = true) (items : List Document) (hb : b.margin ≤ n + 1)
    (hready : Ready s (item n items rest) b) :
    ∃ inner place, inner = (b.enter n .blockSequenceStart).append (itemTokens
        (ofDocuments items) ++ [.blockEntry]) ∧
      inner.margin = n + 1 ∧ place.rest = rest ∧ place.column = n + 1 ∧
      Leads s (inner.layout place true) := by
  obtain ⟨t, hitems, ht⟩ := leads_items items hb hready
    ⟨n, _, lines_blanks (.inl rfl), Nat.le_refl n⟩
  have hmargin : ((b.enterFor n .blockSequenceStart items).append
      (itemTokens (ofDocuments items))).margin ≤ n + 1 := by
    cases items with
    | nil => exact hb
    | cons => exact Nat.le_of_eq (Blocks.enter_margin hb)
  obtain ⟨place, hrest, hcolumn, hleads⟩ := leads_mark .dash ht hmargin hends
  rw [enter_enterFor hb items _ (by rintro rfl; rfl), Blocks.append_append] at hleads
  exact ⟨_, place, rfl, Blocks.enter_margin hb, hrest, hcolumn, hitems.trans hleads⟩

end Layout

/-! ## 3. The last message -/

/-- An outcome with a diagnostic at its end, by its parts. -/
structure Listing where
  status : String
  before : List (String × Document)
  key : String
  simple : isSimpleKey key = true
  items : List Document
  fields : List (String × Document)
  message : String

namespace Listing

variable (l : Listing)

def document : Document :=
  .map [("status", .string l.status), ("meta", .map (l.before ++ [(l.key, .list (l.items ++
    [.map (l.fields ++ [("message", .string l.message)])]))]))]

def text (tail : List Char) : List Char :=
  entry 0 [("status", .string l.status)] "meta" ('\n' :: entry 2 l.before l.key
    ('\n' :: item 2 l.items ((entry 4 l.fields "message" tail).drop 3)))

def outline (style : Style) (text : String) : Outline :=
  .mapping [("status", .scalar (Style.ofText l.status) l.status), ("meta", .mapping
    (ofDocumentPairs l.before ++ [(l.key, .sequence (ofDocuments l.items ++
      [.mapping (ofDocumentPairs l.fields ++ [("message", .scalar style text)])]))]))]

/-- The document of an outcome ends with the scalar of the message. -/
theorem document_eq :
    Writer.document l.document = l.text (' ' :: endLine (string 6 l.message)) := by
  have hmessage : isSimpleKey "message" = true := by decide
  have hmeta : isSimpleKey "meta" = true := by decide
  show pairs 0 ([("status", .string l.status)] ++ [("meta", _)]) = _
  rw [pairs_concat hmeta, behindKey_map (by simp), pairs_concat l.simple,
    behindKey_list (by simp), items_concat, behindMark_map (by simp), pairs_concat hmessage]
  rfl

/-- The text ends with what stands behind the colon. -/
theorem exists_front : ∃ front, ∀ tail, l.text tail = front ++ ':' :: tail := by
  refine ⟨pairs 0 [("status", .string l.status)] ++ (string 2 "meta" ++ ':' :: '\n' ::
    (pairs 2 l.before ++ (blanks 2 ++ (string 4 l.key ++ ':' :: '\n' :: (Writer.items 2 l.items ++
      (blanks 2 ++ '-' :: (pairs 4 l.fields ++ (blanks 4 ++ string 6 "message")).drop 3)))))),
    fun tail => ?_⟩
  have hlong : 3 ≤ (pairs 4 l.fields ++ (blanks 4 ++ string 6 "message")).length := by
    have hblanks : (blanks 4).length = 4 := rfl
    rw [List.length_append, List.length_append, hblanks]
    omega
  have hdrop : (entry 4 l.fields "message" tail).drop 3 =
      (pairs 4 l.fields ++ (blanks 4 ++ string 6 "message")).drop 3 ++ ':' :: tail := by
    rw [← List.drop_append_of_le_length hlong]
    unfold entry
    simp only [List.append_assoc]
  unfold text
  rw [hdrop]
  simp [entry, item, blanks]

/-- The tokens of an outcome end with those of the message. -/
theorem tokens_outline (style : Style) (text : String) : (l.outline style text).tokens false =
    .blockMappingStart :: (pairTokens (ofDocumentPairs [("status", .string l.status)]) ++
      [.key, .scalar (Style.ofText "meta") "meta", .value] ++
      .blockMappingStart :: (pairTokens (ofDocumentPairs l.before) ++
        [.key, .scalar (Style.ofText l.key) l.key, .value] ++
        (itemTokens (ofDocuments l.items) ++ [.blockEntry] ++
          .blockMappingStart :: (pairTokens (ofDocumentPairs l.fields) ++
            [.key, .scalar (Style.ofText "message") "message", .value] ++
            (Outline.scalar style text).tokens true ++ [.blockEnd])) ++ [.blockEnd]) ++
      [.blockEnd]) := by
  have hmessage : isSimpleKey "message" = true := by decide
  have hlast (key : String) (front : List (String × Outline)) (o : Outline) :
      pairTokens (front ++ [(key, o)]) = pairTokens front ++
        .key :: .scalar (Style.ofText key) key :: .value :: o.tokens (isSimpleKey key) := by
    rw [pairTokens_append, pairTokens, pairTokens, List.append_nil]
  show (Outline.mapping ([("status", _)] ++ [("meta", _)])).tokens false = _
  rw [tokens_mapping (by simp), hlast, tokens_mapping (by simp), hlast, l.simple,
    tokens_sequence (by simp), itemTokens_append, itemTokens, itemTokens, List.append_nil,
    tokens_mapping (by simp), hlast, hmessage]
  simp only [List.append_assoc, List.cons_append, List.nil_append]
  rfl

/-- Whatever stands behind the colon of the message, the text before it is read the same way. -/
theorem leads_text {tail : List Char} (hends : endsWord tail = true) :
    ∃ (b : Blocks) (place : Cursor), b.margin = 5 ∧ 5 ≤ place.column ∧ place.rest = tail ∧
      Layout.Leads (Layout.start (l.text tail)) (b.layout place false) ∧
      ∀ style text, ((b.append ((Outline.scalar style text).tokens true)).close 0).tokens.reverse =
        (l.outline style text).tokens false := by
  obtain ⟨_, hfields⟩ := Layout.lines_entry (n := 4) l.fields "message" tail
  obtain ⟨_, hitems⟩ := Layout.lines_item (n := 2) l.items ((entry 4 l.fields "message" tail).drop 3)
  obtain ⟨_, hbefore⟩ := Layout.lines_entry (n := 2) l.before l.key
    ('\n' :: item 2 l.items ((entry 4 l.fields "message" tail).drop 3))
  obtain ⟨_, htext⟩ := Layout.lines_entry (n := 0) [("status", .string l.status)] "meta"
    ('\n' :: entry 2 l.before l.key
      ('\n' :: item 2 l.items ((entry 4 l.fields "message" tail).drop 3)))
  obtain ⟨outcome, place, houtcome, hmargin, hrest, -, hmeta⟩ := Layout.leads_entry (by decide) rfl
    [("status", .string l.status)] (Nat.zero_le 1) (Layout.ready_start htext)
  obtain ⟨particulars, place, hparticulars, hmargin, hrest, -, hkey⟩ :=
    Layout.leads_entry (b := outcome) l.simple rfl l.before (by omega)
      (Layout.ready_below hbefore hrest)
  obtain ⟨list, place, hlist, hmargin, hrest, hcolumn, hdash⟩ :=
    Layout.leads_item (b := particulars) (by rw [hfields.drop]; rfl) l.items (by omega)
      (Layout.ready_below hitems hrest)
  obtain ⟨diagnostic, place, hdiagnostic, hmargin, hrest, hcolumn, hmessage⟩ :=
    Layout.leads_entry (b := list) (by decide) hends l.fields (by omega)
      (Layout.ready_behind hfields (hrest.trans hfields.drop) (congrArg (· + 1) hcolumn))
  refine ⟨diagnostic, place, hmargin, hcolumn, hrest,
    ((hmeta.trans hkey).trans hdash).trans hmessage, fun style text => ?_⟩
  -- The list begins no block of its own, and the other blocks end in turn.
  rw [Blocks.enter_eq_self (by omega)] at hlist
  rw [hdiagnostic, Blocks.append_append, Blocks.close_enter (by omega), hlist,
    Blocks.append_append, hparticulars, Blocks.append_append, Blocks.close_enter (by omega),
    houtcome, Blocks.append_append, Blocks.close_enter (Nat.le_refl 0),
    Blocks.close_eq_self (Nat.le_refl 0), tokens_outline]
  unfold Blocks.append
  simp

/-- A text behind the colon of the message is read to its end as a scalar, or is faulty. -/
def EndsAs (tail : List Char) (r : Except Fault (Style × String)) : Prop :=
  ∀ (b : Blocks) (place : Cursor), b.margin = 5 → 5 ≤ place.column → place.rest = tail →
    Layout.EndsIn (b.layout place false)
      (r.map fun (style, text) => b.append ((Outline.scalar style text).tokens true))

variable {l} {tail : List Char} {r : Except Fault (Style × String)}

/-- Whatever ends the text, its tokens are those of the outcome with what is read for the message.
-/
theorem ofText_text (hends : endsWord tail = true) (hprints : Prints (l.text tail))
    (h : EndsAs tail r) : Token.ofText (String.ofList (l.text tail)) =
      r.map fun (style, text) => (l.outline style text).tokens false := by
  obtain ⟨b, place, hmargin, hcolumn, hrest, hleads, htokens⟩ := l.leads_text hends
  have hread := hleads.endsIn (h b place hmargin hcolumn hrest) ((l.text tail).length + 1)
    (Nat.lt_succ_self _)
  rw [ofText_of_prints hprints, hread]
  cases r with
  | ok found => exact congrArg Except.ok (htokens found.1 found.2)
  | error e => rfl

/-- Read as the outcome, a text has the message of the outcome at its end. -/
theorem message_of_readsAs (hends : endsWord tail = true) (hprints : Prints (l.text tail))
    (h : EndsAs tail r) (hread : ReadsAs (String.ofList (l.text tail)) l.document) :
    ∃ style, r = .ok (style, l.message) := by
  have htokens := ofText_text hends hprints h
  unfold ReadsAs at hread
  cases r with
  | error e =>
    unfold read Tree.ofText at hread
    rw [htokens] at hread
    cases hread
  | ok found =>
    obtain ⟨style, text⟩ := found
    rw [read_of_tokens htokens] at hread
    split at hread
    · have hdata : Data.ofDocument l.document = .mapping ([(.string "status", .string l.status)] ++
          [(.string "meta", .mapping (Data.ofDocumentPairs l.before ++ [(.string l.key,
            .sequence (Data.ofDocuments l.items ++ [.mapping (Data.ofDocumentPairs l.fields ++
              [(.string "message", .string l.message)])]))]))]) := by
        unfold document
        simp only [Data.ofDocument, Data.ofDocumentPairs, Data.ofDocumentPairs_append,
          Data.ofDocuments, Data.ofDocuments_append]
        rfl
      rw [hdata] at hread
      -- The last pair, the last item and so on, down to the message.
      have hmeta := Data.ofTree_of_mapping [("status", _)] hread
      have hlist := Data.ofTree_of_mapping (ofDocumentPairs l.before) hmeta
      have hdiagnostic := Data.ofTree_of_sequence (ofDocuments l.items) hlist
      have hmessage := Data.ofTree_of_mapping (ofDocumentPairs l.fields) hdiagnostic
      exact ⟨style, by rw [Data.text_of_ofTree hmessage]⟩
    · cases hread

end Listing

end Conform.Yaml
