import Conform.Proofs.Lexemes
import Conform.Proofs.Outlines

/-!
# Readback — the tokens of a written document

The tokens of the lines of a document are those of its outline, wherever the lines stand
(`Layout.leads_pairs`), so that a mapping that is written in blocks is read back as it was
(`readsAs_write`).
-/

namespace Conform.Yaml

open Writer Outline

/-! ## 1. The blocks of lists and mappings -/

namespace Blocks

variable {b : Blocks} {column : Nat} {start : Token} {tokens : List Token} {α : Type}

def enterFor (b : Blocks) (column : Nat) (start : Token) : List α → Blocks
  | [] => b
  | _ :: _ => b.enter column start

theorem enterFor_eq_self {members : List α} (h : b.margin = column + 1) :
    b.enterFor column start members = b := by
  cases members with
  | nil => rfl
  | cons => exact enter_eq_self h

/-- At the end of a text a block ends behind its tokens. -/
theorem close_enter (h : b.margin ≤ column) : ((b.enter column start).append tokens).close 0 =
    (b.append (start :: (tokens ++ [.blockEnd]))).close 0 := by
  rw [enter_eq h]
  unfold append
  rw [close_cons (Nat.succ_pos column), List.reverse_cons, List.reverse_append, List.append_assoc,
    List.append_assoc]
  rfl

end Blocks

namespace Layout

variable {b : Blocks} {cursor : Cursor} {s t : Layout} {more after rest text : List Char}
  {n line : Nat} {allowed : Bool} {α : Type}

def Follows (bound : Nat) (text : List Char) : Prop :=
  ∃ line after, Lines text line after ∧ line ≤ bound

theorem Follows.mono {bound bound' : Nat} (h : Follows bound text) (hle : bound ≤ bound') :
    Follows bound' text := by
  obtain ⟨line, after, hlines, hline⟩ := h
  exact ⟨line, after, hlines, hline.trans hle⟩

theorem lines_blanks {c : Char} (hc : c = '-' ∨ c = '?' ∨ c = ':') :
    Lines (blanks n ++ c :: rest) n (c :: rest) := by
  refine ⟨rfl, ?_⟩
  obtain rfl | rfl | rfl := hc <;> exact .token rfl rfl (by decide) (by decide)

/-- The lines of a list begin with the dash of its first item. -/
theorem lines_items (item : Document) (items : List Document) :
    Lines (Writer.items n (item :: items) ++ more) n
      ('-' :: (behindMark n item ++ (Writer.items n items ++ more))) := by
  have hlines : Writer.items n (item :: items) ++ more =
      blanks n ++ '-' :: (behindMark n item ++ (Writer.items n items ++ more)) := by
    rw [Writer.items]
    simp
  rw [hlines]
  exact lines_blanks (.inl rfl)

/-- A pair is written in one line or two, with its key in front of the colon. -/
theorem pairs_cons (key : String) (value : Document) (pairs : List (String × Document)) :
    Writer.pairs n ((key, value) :: pairs) ++ more =
      if isSimpleKey key then
        blanks n ++ (string (n + 2) key ++ ':' :: (behindKey n value ++ (Writer.pairs n pairs ++ more)))
      else
        blanks n ++ '?' :: ' ' :: (endLine (string (n + 2) key) ++
          (blanks n ++ ':' :: (behindMark n value ++ (Writer.pairs n pairs ++ more)))) := by
  rw [Writer.pairs]
  split <;> simp

/-- The lines of a mapping begin at its column. -/
theorem lines_pairs (pair : String × Document) (pairs : List (String × Document))
    (more : List Char) :
    ∃ after, Lines (Writer.pairs n (pair :: pairs) ++ more) n after := by
  obtain ⟨key, value⟩ := pair
  rw [pairs_cons]
  split
  · exact ⟨_, rfl, (lexeme_string (n + 1) key).begins n _⟩
  · exact ⟨_, lines_blanks (.inr (.inl rfl))⟩

/-- Lines that may follow a list may follow each of its items. -/
theorem follows_items (items : List Document) (h : Follows n more) :
    Follows n (Writer.items n items ++ more) := by
  cases items with
  | nil => exact h
  | cons item items => exact ⟨n, _, lines_items item items, Nat.le_refl n⟩

theorem follows_pairs (pairs : List (String × Document)) (h : Follows n more) :
    Follows n (Writer.pairs n pairs ++ more) := by
  cases pairs with
  | nil => exact h
  | cons pair pairs =>
    obtain ⟨after, hlines⟩ := lines_pairs (n := n) pair pairs more
    exact ⟨n, after, hlines, Nat.le_refl n⟩

/-- A block that was entered for the members of a collection ends before the line that follows. -/
theorem Ready.leave_block {column : Nat} {start : Token} {tokens : List Token}
    (h : Ready s more ((b.enter column start).append tokens)) (hmargin : b.margin ≤ column)
    (hmore : Follows n more) (hn : n < column) :
    Ready s more (b.append (start :: (tokens ++ [.blockEnd]))) := by
  obtain ⟨line, after, hlines, hline⟩ := hmore
  rw [Blocks.enter_eq hmargin] at h
  have hleave := h.leave hlines (Nat.lt_of_le_of_lt hline hn)
  unfold Blocks.append
  rw [List.reverse_cons, List.reverse_append, List.append_assoc, List.append_assoc]
  exact hleave

/-! ## 2. What stands on the line of its mark or key -/

/-- Behind the colon of a key stands a blank or the end of the line. -/
theorem endsWord_behindKey (d : Document) (rest : List Char) :
    endsWord (behindKey n d ++ rest) = true := by
  match d with
  | .null | .bool _ | .integer _ | .real _ | .string _ | .list [] | .list (_ :: _) | .map []
  | .map (_ :: _) => rfl

/-- The first line of a collection goes on behind a mark. -/
theorem Lines.drop (h : Lines text (n + 1) after) : text.drop n = ' ' :: after := by
  have hsplit : blanks (n + 1) = blanks n ++ [' '] := List.replicate_succ'
  have hblanks : (blanks n).length = n := List.length_replicate ..
  rw [h.eq, hsplit, List.append_assoc, List.drop_left' hblanks]
  rfl

/-- The first line of a collection may begin on the line of its mark. -/
theorem drop_lines {body : List Char} (h : ∀ more, ∃ after, Lines (body ++ more) (n + 1) after)
    (more : List Char) : ∃ after, Lines (body ++ more) (n + 1) after ∧
      body.drop n ++ more = ' ' :: after := by
  obtain ⟨after, hlines⟩ := h more
  have hlength : n ≤ body.length := by
    obtain ⟨first, hbody⟩ := h []
    have hblanks : (blanks (n + 1)).length = n + 1 := List.length_replicate ..
    rw [← List.append_nil body, hbody.eq, List.length_append, hblanks]
    omega
  exact ⟨after, hlines, (List.drop_append_of_le_length hlength).symm.trans hlines.drop⟩

theorem lines_behindMark_list (n : Nat) (item : Document) (items : List Document)
    (more : List Char) : ∃ after, Lines (Writer.items (n + 2) (item :: items) ++ more) (n + 2) after ∧
      behindMark n (.list (item :: items)) ++ more = ' ' :: after :=
  drop_lines (fun _ => ⟨_, lines_items item items⟩) more

/-- Behind a mark the lines of a mapping stand at their column. -/
theorem lines_behindMark_map (n : Nat) (pair : String × Document) (pairs : List (String × Document))
    (more : List Char) : ∃ after, Lines (Writer.pairs (n + 2) (pair :: pairs) ++ more) (n + 2) after ∧
      behindMark n (.map (pair :: pairs)) ++ more = ' ' :: after :=
  drop_lines (lines_pairs pair pairs) more

theorem endsWord_behindMark (d : Document) (rest : List Char) :
    endsWord (behindMark n d ++ rest) = true := by
  match d with
  | .null | .bool _ | .integer _ | .real _ | .string _ | .list [] | .map [] => rfl
  | .list (item :: items) =>
    obtain ⟨after, -, h⟩ := lines_behindMark_list n item items rest
    rw [h]
    rfl
  | .map (pair :: pairs) =>
    obtain ⟨after, -, h⟩ := lines_behindMark_map n pair pairs rest
    rw [h]
    rfl

/-! ## 3. Scalars and empty collections -/

theorem lexeme_plain {margin : Nat} {text : String} {lexeme : List Char} (h : lexeme = text.toList)
    (hallowed : Style.allowsPlain lexeme = true) : Lexeme margin text .plain lexeme := by
  subst h
  exact .plain (Style.plainText_of_allowsPlain hallowed)

def IsScalar : Document → Prop
  | .list _ | .map _ => False
  | _ => True

/-- A scalar is written as a lexeme in a style. -/
theorem exists_lexeme (margin : Nat) (d : Document) (h : IsScalar d) :
    ∃ style text, ofDocument d = .scalar style text ∧
      Lexeme margin text style (inline (margin + 1) d) := by
  have hnull : Style.allowsPlain "null".toList = true := by decide
  have hbool (b : Bool) : Style.allowsPlain (if b then "true" else "false").toList = true := by
    cases b <;> decide
  match d with
  | .null => exact ⟨_, _, rfl, lexeme_plain rfl hnull⟩
  | .bool b => exact ⟨_, _, rfl, lexeme_plain rfl (hbool b)⟩
  | .integer i => exact ⟨_, _, rfl, lexeme_plain rfl (allowsPlain_intText i)⟩
  | .real n => exact ⟨_, _, rfl, lexeme_plain rfl (allowsPlain_numberText n)⟩
  | .string s => exact ⟨_, _, rfl, lexeme_string margin s⟩

theorem tokens_lexeme {margin : Nat} {text : String} {style : Style} {lexeme : List Char}
    (h : Lexeme margin text style lexeme) (indentless : Bool) :
    (Outline.scalar style text).tokens indentless = [.scalar style text] := by
  unfold Outline.tokens
  rw [if_neg]
  rintro ⟨rfl, rfl⟩
  cases h with
  | plain suits =>
    obtain ⟨c, rest, hnil, -⟩ := suits.starts
    cases hnil

/-- What stands on the line of its mark or key is read to the line that follows. -/
theorem leads_inline {d : Document} {indentless : Bool} (hb : b.margin = n + 1)
    (hcolumn : n + 1 ≤ cursor.column) (hinline : behindKey n d = ' ' :: endLine (inline (n + 2) d))
    (hrest : cursor.rest = ' ' :: (endLine (inline (n + 2) d) ++ more)) (hmore : Follows n more) :
    ∃ t, Leads (b.layout cursor allowed) t ∧
      Ready t more (b.append ((ofDocument d).tokens indentless)) := by
  obtain ⟨line, after, hlines, hline⟩ := hmore
  have hscalar (h : IsScalar d) : ∃ t, Leads (b.layout cursor allowed) t ∧
      Ready t more (b.append ((ofDocument d).tokens indentless)) := by
    obtain ⟨style, text, hd, hlexeme⟩ := exists_lexeme (n + 1) d h
    rw [hd, tokens_lexeme hlexeme]
    exact leads_lexeme allowed hlexeme hb (by omega) hrest hlines (by omega)
  match d with
  | .list (item :: items) => cases hinline
  | .map (pair :: pairs) => cases hinline
  | .list [] => exact leads_brackets .square (hb ▸ hcolumn) hrest hlines
  | .map [] => exact leads_brackets .curly (hb ▸ hcolumn) hrest hlines
  | .null | .bool _ | .integer _ | .real _ | .string _ => exact hscalar trivial

/-! ## 4. Documents -/

mutual

/-- A node behind a key is read to the line that follows. -/
theorem leads_behindKey (d : Document) {n : Nat} {b : Blocks} {cursor : Cursor} {more : List Char}
    (hb : b.margin = n + 1) (hcolumn : n + 1 ≤ cursor.column)
    (hrest : cursor.rest = behindKey n d ++ more) (hmore : Follows n more) :
    ∃ t, Leads (b.layout cursor false) t ∧
      Ready t more (b.append ((ofDocument d).tokens true)) := by
  match d with
  | .list (item :: items) =>
    obtain ⟨t, hleads, ht⟩ := leads_items (b := b) (item :: items) (Nat.le_of_eq hb)
      (ready_below (lines_items item items) hrest) hmore
    rw [Blocks.enterFor_eq_self hb] at ht
    exact ⟨t, hleads, ht⟩
  | .map (pair :: pairs) =>
    obtain ⟨after, hlines⟩ := lines_pairs (n := n + 2) pair pairs more
    obtain ⟨t, hleads, ht⟩ := leads_pairs (b := b) (pair :: pairs) (by omega)
      (ready_below hlines hrest) (hmore.mono (by omega))
    exact ⟨t, hleads, ht.leave_block (by omega) hmore (by omega)⟩
  | .list [] | .map [] | .null | .bool _ | .integer _ | .real _ | .string _ =>
    exact leads_inline hb hcolumn rfl hrest hmore

/-- A node behind a mark is read to the line that follows. -/
theorem leads_behindMark (d : Document) {n : Nat} {b : Blocks} {cursor : Cursor} {more : List Char}
    (hb : b.margin = n + 1) (hcolumn : cursor.column = n + 1)
    (hrest : cursor.rest = behindMark n d ++ more) (hmore : Follows n more) :
    ∃ t, Leads (b.layout cursor true) t ∧
      Ready t more (b.append ((ofDocument d).tokens false)) := by
  have hplace : cursor.column + 1 = n + 2 := congrArg (· + 1) hcolumn
  match d with
  | .list (item :: items) =>
    obtain ⟨after, hlines, hbehind⟩ := lines_behindMark_list n item items more
    obtain ⟨t, hleads, ht⟩ := leads_items (b := b) (item :: items) (by omega)
      (ready_behind hlines (hrest.trans hbehind) hplace) (hmore.mono (by omega))
    exact ⟨t, hleads, ht.leave_block (by omega) hmore (by omega)⟩
  | .map (pair :: pairs) =>
    obtain ⟨after, hlines, hbehind⟩ := lines_behindMark_map n pair pairs more
    obtain ⟨t, hleads, ht⟩ := leads_pairs (b := b) (pair :: pairs) (by omega)
      (ready_behind hlines (hrest.trans hbehind) hplace) (hmore.mono (by omega))
    exact ⟨t, hleads, ht.leave_block (by omega) hmore (by omega)⟩
  | .list [] | .map [] | .null | .bool _ | .integer _ | .real _ | .string _ =>
    exact leads_inline hb (Nat.le_of_eq hcolumn.symm) rfl hrest hmore

/-- The lines of a list are read to the line that follows. -/
theorem leads_items (items : List Document) {n : Nat} {b : Blocks} {s : Layout} {more : List Char}
    (hb : b.margin ≤ n + 1) (hready : Ready s (Writer.items n items ++ more) b)
    (hmore : Follows n more) :
    ∃ t, Leads s t ∧ Ready t more
      ((b.enterFor n .blockSequenceStart items).append (itemTokens (ofDocuments items))) := by
  match items with
  | [] => exact ⟨s, .refl s, hready⟩
  | item :: items =>
    rw [(lines_items item items).eq] at hready
    have hmargin (tokens : List Token) : ((b.enter n .blockSequenceStart).append tokens).margin =
        n + 1 := Blocks.enter_margin hb
    obtain ⟨place, hrest, hcolumn, hdash⟩ :=
      leads_mark .dash hready hb (endsWord_behindMark item _)
    obtain ⟨u, hitem, hu⟩ :=
      leads_behindMark item (hmargin _) hcolumn hrest (follows_items items hmore)
    rw [Blocks.append_append] at hu
    obtain ⟨t, hitems, ht⟩ := leads_items items (Nat.le_of_eq (hmargin _)) hu hmore
    refine ⟨t, (hdash.trans hitem).trans hitems, ?_⟩
    rw [Blocks.enterFor_eq_self (hmargin _), Blocks.append_append] at ht
    exact ht

/-- The lines of a mapping are read to the line that follows. -/
theorem leads_pairs (pairs : List (String × Document)) {n : Nat} {b : Blocks} {s : Layout}
    {more : List Char} (hb : b.margin ≤ n + 1) (hready : Ready s (Writer.pairs n pairs ++ more) b)
    (hmore : Follows n more) :
    ∃ t, Leads s t ∧ Ready t more
      ((b.enterFor n .blockMappingStart pairs).append (pairTokens (ofDocumentPairs pairs))) := by
  match pairs with
  | [] => exact ⟨s, .refl s, hready⟩
  | (key, value) :: pairs =>
    have hmargin (tokens : List Token) : ((b.enter n .blockMappingStart).append tokens).margin =
        n + 1 := Blocks.enter_margin hb
    have hlexeme := lexeme_string (n + 1) key
    -- The key ends at its colon on the same line, or the value has a mark on a line of its own.
    have hvalue : ∃ u, Leads s u ∧ Ready u (Writer.pairs n pairs ++ more)
        ((b.enter n .blockMappingStart).append (.key :: .scalar (Style.ofText key) key :: .value ::
          (ofDocument value).tokens (isSimpleKey key))) := by
      rw [pairs_cons] at hready
      split at hready
      · rename_i hkey
        obtain ⟨hline, hlength⟩ := string_of_isSimpleKey hkey (n + 2)
        obtain ⟨place, hrest, hcolumn, hleads⟩ :=
          leads_key hlexeme hline hlength hready hb (endsWord_behindKey value _)
        obtain ⟨u, hvalue, hu⟩ :=
          leads_behindKey value (hmargin _) hcolumn hrest (follows_pairs pairs hmore)
        rw [Blocks.append_append] at hu
        rw [hkey]
        exact ⟨u, hleads.trans hvalue, hu⟩
      · rename_i hkey
        rw [Bool.not_eq_true] at hkey
        obtain ⟨place, hrest, hcolumn, hquestion⟩ := leads_mark .question hready hb rfl
        obtain ⟨t, hscalar, ht⟩ := leads_lexeme true hlexeme
          (hmargin [.key]) (by rw [hmargin]; omega) hrest (lines_blanks (.inr (.inr rfl)))
          (by rw [hmargin]; omega)
        rw [Blocks.append_append] at ht
        obtain ⟨place, hrest, hcolumn, hcolon⟩ :=
          leads_mark .colon ht (Nat.le_of_eq (hmargin _)) (endsWord_behindMark value _)
        rw [Blocks.enter_eq_self (hmargin ([Token.key] ++ [Token.scalar (Style.ofText key) key])),
          Blocks.append_append] at hcolon
        obtain ⟨u, hvalue, hu⟩ :=
          leads_behindMark value (hmargin _) hcolumn hrest (follows_pairs pairs hmore)
        rw [Blocks.append_append] at hu
        rw [hkey]
        exact ⟨u, ((hquestion.trans hscalar).trans hcolon).trans hvalue, hu⟩
    obtain ⟨u, hpair, hu⟩ := hvalue
    obtain ⟨t, hpairs, ht⟩ := leads_pairs pairs (Nat.le_of_eq (hmargin _)) hu hmore
    refine ⟨t, hpair.trans hpairs, ?_⟩
    rw [Blocks.enterFor_eq_self (hmargin _), Blocks.append_append] at ht
    exact ht

end

/-! ## 5. The whole text -/

/-- Reading comes to the end of the text with the blocks that are open there, or to a fault. -/
def EndsIn (s : Layout) (r : Except Fault Blocks) : Prop :=
  ∀ fuel, s.cursor.rest.length < fuel →
    readAll fuel s = r.map fun b => (b.close 0).tokens.reverse

/-- A reader that is ready for nothing more comes to the end. -/
theorem Ready.endsIn (h : Ready s [] b) : EndsIn s (.ok b) := by
  intro fuel hfuel
  obtain ⟨fuel, rfl⟩ : ∃ n, fuel = n + 1 := ⟨fuel - 1, by omega⟩
  exact h.readAll_end

/-- A faulty token ends the reading. -/
theorem endsIn_fault {u : Layout} {c : Char} {e : Fault} (hpause : s.pause = .ok u)
    (hrest : u.cursor.rest = c :: rest) (hfetch : u.fetch c rest = .error e) :
    EndsIn s (.error e) := by
  intro fuel hfuel
  obtain ⟨fuel, rfl⟩ : ∃ n, fuel = n + 1 := ⟨fuel - 1, by omega⟩
  rw [readAll_token hpause hrest, hfetch]
  rfl

/-- Where reading leads on, it ends as it does from there. -/
theorem Leads.endsIn {r : Except Fault Blocks} (h : Leads s t) (ht : EndsIn t r) : EndsIn s r := by
  obtain ⟨count, hcount, hread⟩ := h
  intro fuel hfuel
  obtain ⟨rest, rfl⟩ : ∃ rest, fuel = rest + count := ⟨fuel - count, by omega⟩
  rw [hread]
  exact ht rest (by omega)

def start (text : List Char) : Layout := { cursor := { rest := text } }

theorem ready_start (hlines : Lines text 0 after) : Ready (start text) text ⟨0, [], []⟩ :=
  ready_blanks (s := start text) 0 hlines hlines.eq rfl rfl (fun _ h => by cases h) rfl

/-- The lines of a document are read as the tokens of its outline. -/
theorem readAll_document (pair : String × Document) (pairs : List (String × Document)) :
    readAll ((Writer.document (.map (pair :: pairs))).length + 1)
        (start (Writer.document (.map (pair :: pairs)))) =
      .ok ((ofDocument (.map (pair :: pairs))).tokens false) := by
  obtain ⟨after, hlines⟩ := lines_pairs (n := 0) pair pairs []
  have hready : Ready (start (Writer.pairs 0 (pair :: pairs))) (Writer.pairs 0 (pair :: pairs) ++ [])
      ⟨0, [], []⟩ := by
    rw [List.append_nil] at hlines ⊢
    exact ready_start hlines
  obtain ⟨t, hleads, ht⟩ :=
    leads_pairs (pair :: pairs) (Nat.zero_le 1) hready ⟨0, [], lines_nil, Nat.le_refl 0⟩
  have hread := hleads.endsIn ht.endsIn _ (Nat.lt_succ_self _)
  have htokens : (ofDocument (.map (pair :: pairs))).tokens false =
      .blockMappingStart :: (pairTokens (ofDocumentPairs (pair :: pairs)) ++ [.blockEnd]) := rfl
  rw [htokens]
  refine hread.trans (congrArg Except.ok ?_)
  show ((((Blocks.mk 0 [] []).enter 0 .blockMappingStart).append _).close 0).tokens.reverse = _
  rw [Blocks.close_enter (Nat.le_refl 0), Blocks.close_eq_self (Nat.le_refl 0)]
  unfold Blocks.append
  simp

end Layout

namespace Style

variable {c : Char}

theorem isAllowed_of_isPrintable (h : isPrintable c = true) :
    isAllowed c = true ∧ c ≠ '\r' ∧ c ≠ '\u0085' ∧ c ≠ byteOrderMark := by
  refine ⟨?_, ?_, ?_, ?_⟩
  · unfold isPrintable at h
    unfold isAllowed
    simp only [Bool.and_eq_true, Bool.or_eq_true] at h ⊢
    tauto
  all_goals
    rintro rfl
    exact absurd h (by decide)

/-- Texts of printable characters stand for themselves, whatever becomes of the ends of lines. -/
theorem characters_of_isPrintable {text : String} (h : ∀ c ∈ text.toList, isPrintable c = true) :
    characters text = .ok text.toList := by
  -- Of the ends of lines only the line feed prints, which stays as it is.
  have hunify (chars : List Char) (hchars : ∀ c ∈ chars, isPrintable c = true) :
      unifyBreaks chars = chars := by
    induction chars with
    | nil => rfl
    | cons c chars ih =>
      obtain ⟨hc, hchars⟩ := List.forall_mem_cons.mp hchars
      obtain ⟨-, hreturn, hnext, -⟩ := isAllowed_of_isPrintable hc
      have hrest := ih hchars
      unfold unifyBreaks
      split
      · rename_i heq
        cases heq
      · rename_i heq
        cases heq
        exact absurd rfl hreturn
      · rename_i heq
        cases heq
        exact absurd rfl hreturn
      · rename_i heq
        cases heq
        exact absurd rfl hnext
      · rename_i heq
        cases heq
        rw [hrest]
  have hall : text.toList.all isAllowed = true :=
    List.all_eq_true.mpr fun c hc => (isAllowed_of_isPrintable (h c hc)).1
  unfold characters
  cases htext : text.toList with
  | nil => rfl
  | cons c rest =>
    have hmark : c ≠ byteOrderMark := (isAllowed_of_isPrintable (h c (by simp [htext]))).2.2.2
    rw [htext] at hall h
    simp only [if_neg hmark]
    rw [hall, if_pos rfl, hunify _ h]

end Style

/-! ## 6. Reading what was written -/

theorem prints_inline {d : Document} (n : Nat) (h : behindKey n d = ' ' :: endLine (inline (n + 2) d)) :
    Prints (' ' :: endLine (inline (n + 2) d)) := by
  have hscalar (h : Layout.IsScalar d) : Prints (inline (n + 2) d) := by
    obtain ⟨style, text, -, hlexeme⟩ := Layout.exists_lexeme (n + 1) d h
    exact hlexeme.prints
  apply prints_cons.mpr ⟨rfl, prints_endLine _⟩
  match d with
  | .list (item :: items) => cases h
  | .map (pair :: pairs) => cases h
  | .list [] | .map [] => exact prints_cons.mpr ⟨rfl, prints_cons.mpr ⟨rfl, prints_nil⟩⟩
  | .null | .bool _ | .integer _ | .real _ | .string _ => exact hscalar trivial

mutual

/-- What is written behind a key prints. -/
theorem prints_behindKey (d : Document) (n : Nat) : Prints (behindKey n d) := by
  match d with
  | .list (item :: items) => exact prints_cons.mpr ⟨rfl, prints_items (item :: items) n⟩
  | .map (pair :: pairs) => exact prints_cons.mpr ⟨rfl, prints_pairs (pair :: pairs) (n + 2)⟩
  | .list [] | .map [] | .null | .bool _ | .integer _ | .real _ | .string _ =>
    exact prints_inline n rfl

theorem prints_behindMark (d : Document) (n : Nat) : Prints (behindMark n d) := by
  match d with
  | .list (item :: items) =>
    exact fun c hc => prints_items (item :: items) (n + 2) c (List.mem_of_mem_drop hc)
  | .map (pair :: pairs) =>
    exact fun c hc => prints_pairs (pair :: pairs) (n + 2) c (List.mem_of_mem_drop hc)
  | .list [] | .map [] | .null | .bool _ | .integer _ | .real _ | .string _ =>
    exact prints_inline n rfl

/-- The lines of a list print. -/
theorem prints_items (items : List Document) (n : Nat) : Prints (Writer.items n items) := by
  match items with
  | [] => exact prints_nil
  | item :: items =>
    exact prints_append.mpr ⟨prints_blanks n, prints_cons.mpr ⟨rfl, prints_append.mpr
      ⟨prints_behindMark item n, prints_items items n⟩⟩⟩

theorem prints_pairs (pairs : List (String × Document)) (n : Nat) :
    Prints (Writer.pairs n pairs) := by
  match pairs with
  | [] => exact prints_nil
  | (key, value) :: pairs =>
    have hkey := (lexeme_string (n + 1) key).prints
    apply prints_append.mpr ⟨_, prints_pairs pairs n⟩
    split
    · exact prints_append.mpr ⟨prints_append.mpr ⟨prints_blanks n, hkey⟩,
        prints_cons.mpr ⟨rfl, prints_behindKey value n⟩⟩
    · apply prints_append.mpr ⟨_, prints_append.mpr ⟨prints_blanks n,
        prints_cons.mpr ⟨rfl, prints_behindMark value n⟩⟩⟩
      exact prints_append.mpr ⟨prints_blanks n,
        prints_cons.mpr ⟨rfl, prints_cons.mpr ⟨rfl, prints_endLine hkey⟩⟩⟩

end

/-- A text that prints is read from its beginning. -/
theorem ofText_of_prints {text : List Char} (h : Prints text) :
    Token.ofText (String.ofList text) = Layout.readAll (text.length + 1) (Layout.start text) := by
  have hcharacters : characters (String.ofList text) = .ok text := by
    rw [Style.characters_of_isPrintable (by rwa [String.toList_ofList]), String.toList_ofList]
  unfold Token.ofText
  rw [hcharacters]
  rfl

/-- The tokens of a mapping that is written are those of its outline. -/
theorem ofText_write (pair : String × Document) (pairs : List (String × Document)) :
    Token.ofText (write (.map (pair :: pairs))) =
      .ok ((ofDocument (.map (pair :: pairs))).tokens false) :=
  (ofText_of_prints (prints_pairs (pair :: pairs) 0)).trans (Layout.readAll_document pair pairs)

/-- What is read of the tokens of an outline, which may be nested too deep. -/
theorem read_of_tokens {text : String} {pair : String × Outline} {pairs : List (String × Outline)}
    (h : Token.ofText text = .ok ((mapping (pair :: pairs)).tokens false)) :
    read text = if (mapping (pair :: pairs)).depth ≤ Tree.maxNesting then
      Data.ofTree (mapping (pair :: pairs)).toTree else .error .nestedTooDeep := by
  have htree : Tree.ofText text = (Tree.ofNode (mapping (pair :: pairs)).toNode).map some := by
    unfold Tree.ofText
    rw [h]
    show (Node.ofTokens _ >>= _) = _
    rw [ofTokens_tokens]
    rfl
  unfold read
  rw [htree, ofNode_toNode]
  split <;> rfl

def ReadsAs (text : String) (d : Document) : Prop := read text = .ok (Data.ofDocument d)

/-- A legible mapping is read back as it was written, unless it is nested too deep. -/
theorem readsAs_write {pair : String × Document} {pairs : List (String × Document)}
    (hlegible : Legible (.map (pair :: pairs)))
    (hdepth : (ofDocument (.map (pair :: pairs))).depth ≤ Tree.maxNesting) :
    ReadsAs (write (.map (pair :: pairs))) (.map (pair :: pairs)) := by
  unfold ReadsAs
  rw [read_of_tokens (ofText_write pair pairs)]
  exact (if_pos hdepth).trans (ofTree_ofDocument _ hlegible)

end Conform.Yaml
