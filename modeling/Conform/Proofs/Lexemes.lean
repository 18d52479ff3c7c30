import Mathlib.Data.String.Basic
import Conform.Proofs.Layouts

/-!
# Lexemes — scalars and empty collections in a block

A scalar is written as a lexeme of its style.  The reader comes from the lexeme behind a mark or a
key to the line that follows (`Layout.leads_lexeme`), and from a lexeme in front of a colon to what
stands behind the colon (`Layout.leads_key`).
-/

namespace Conform.Yaml

open Writer

/-! ## 1. Texts that may be written plain -/

namespace Style

variable {text front back rest : List Char} {c : Char}

structure StartsPlain (c : Char) (rest : List Char) : Prop where
  unspaced : isBlank c = false ∧ isBreak c = false ∧ c ≠ byteOrderMark
  unlisted : c ∉ "\t,[]\x7b\x7d#&*!|>'\"%@`".toList
  word : c = '-' ∨ c = '?' ∨ c = ':' → endsWord rest = false
  unmarked : "---".toList.isPrefixOf (c :: rest) = false ∧
    "...".toList.isPrefixOf (c :: rest) = false

theorem StartsPlain.begins (h : StartsPlain c rest) (column : Nat) (more : List Char) :
    Begins column (c :: more) := by
  refine .token h.unspaced.1 h.unspaced.2.1 ?_ h.unspaced.2.2
  rintro rfl
  exact h.unlisted (by decide)

theorem isDocumentMark_append {mark : Char} (hmark : [mark, mark, mark].isPrefixOf text = false)
    (hrest : rest.head? ≠ some mark) (hne : text ≠ []) :
    isDocumentMark mark (text ++ rest) = false := by
  match text with
  | [a] =>
    cases rest with
    | nil => rfl
    | cons b rest =>
      have hb : b ≠ mark := fun h => hrest (h ▸ rfl)
      cases rest <;> simp [isDocumentMark, hb]
  | [a, b] =>
    cases rest with
    | nil => rfl
    | cons c rest =>
      have hc : c ≠ mark := fun h => hrest (h ▸ rfl)
      simp [isDocumentMark, hc]
  | a :: b :: c :: more =>
    rw [← Bool.not_eq_true]
    intro h
    simp only [List.cons_append, isDocumentMark, Bool.and_eq_true, beq_iff_eq] at h
    obtain ⟨⟨⟨rfl, rfl⟩, rfl⟩, -⟩ := h
    simp [List.isPrefixOf] at hmark

/-- Neither a colon nor the end of a line belongs to a mark. -/
theorem StartsPlain.beginsPlain (h : StartsPlain c back)
    (hrest : rest.head? ≠ some '-' ∧ rest.head? ≠ some '.') :
    Layout.BeginsPlain c (back ++ rest) := by
  refine ⟨h.unlisted, fun hc => ?_, ?_, ?_⟩
  · have hword := h.word hc
    cases back with
    | nil => cases hword
    | cons d more => exact hword
  · exact isDocumentMark_append h.unmarked.1 hrest.1 (List.cons_ne_nil _ _)
  · exact isDocumentMark_append h.unmarked.2 hrest.2 (List.cons_ne_nil _ _)

theorem ne_blank_of_isPrintable (h : isPrintable c = true) : c ≠ '\t' ∧ c ≠ byteOrderMark := by
  constructor
  · rintro rfl
    exact absurd h (by decide)
  · rintro rfl
    exact absurd h (by decide)

structure PlainText (text : List Char) : Prop where
  prints : ∀ c ∈ text, isPrintable c = true
  runs : Scalar.Runs text
  last : ∀ c ∈ text.getLast?, c ≠ ' ' ∧ isBreak c = false
  starts : ∃ c rest, text = c :: rest ∧ StartsPlain c rest

/-- A text that is written plain begins and goes on as a plain scalar may. -/
theorem plainText_of_allowsPlain (h : allowsPlain text = true) : PlainText text := by
  unfold allowsPlain isTight needsEscapes at h
  simp only [Bool.and_eq_true, Bool.not_eq_true', Bool.or_eq_false_iff] at h
  obtain ⟨⟨⟨⟨⟨hfirst, hlast⟩, hlines⟩, hprints, -⟩, hbegins⟩, hindicator⟩ := h
  have hline (c : Char) (hc : c ∈ text) : isBreak c = false := by
    have := List.any_eq_false.mp hlines c hc
    unfold isLineEnd at this
    simp only [Bool.or_eq_true, not_or, Bool.not_eq_true] at this
    exact this.1.1
  have hprint (c : Char) (hc : c ∈ text) : isPrintable c = true := by
    simpa using List.any_eq_false.mp hprints c hc
  have hmark (c : Char) (hc : c ∈ text) : c ≠ '\t' ∧ c ≠ byteOrderMark :=
    ne_blank_of_isPrintable (hprint c hc)
  refine ⟨hprint, ⟨fun c hc => ⟨(hmark c hc).1, hline c hc⟩, hindicator⟩, ?_, ?_⟩
  · intro c hc
    rw [Option.mem_def.mp hc] at hlast
    simp only [Option.map_some, Option.getD_some, Bool.or_eq_false_iff, beq_eq_false_iff_ne] at hlast
    exact ⟨hlast.1, hline c (List.mem_of_getLast? hc)⟩
  · cases text with
    | nil => cases hbegins
    | cons c rest =>
      simp only [List.head?_cons, Option.map_some, Option.getD_some, Bool.or_eq_false_iff,
        beq_eq_false_iff_ne] at hfirst
      unfold beginsOtherwise at hbegins
      unfold hasIndicator at hindicator
      simp only [Bool.or_eq_false_iff] at hbegins hindicator
      obtain ⟨⟨⟨hlisted, hword⟩, hdash⟩, hdot⟩ := hbegins
      have htab := (hmark c List.mem_cons_self).1
      refine ⟨c, rest, rfl, ⟨?_, hline c List.mem_cons_self, (hmark c List.mem_cons_self).2⟩, ?_,
        fun hc => ?_, hdash, hdot⟩
      · simp [isBlank, hfirst.1, htab]
      · -- What begins otherwise for the writer does so for the reader, but for the tab.
        have hsame : ("\t,[]\x7b\x7d#&*!|>'\"%@`".toList.all fun d =>
            d == '\t' || "#,[]\x7b\x7d&*!|>'\"%@`".toList.contains d) = true := by
          decide
        intro hmem
        rcases Bool.or_eq_true_iff.mp (List.all_eq_true.mp hsame c hmem) with hc | hc
        · exact htab (beq_iff_eq.mp hc)
        · rw [hlisted] at hc
          cases hc
      · obtain rfl | rfl | rfl := hc
        · exact (Bool.or_eq_false_iff.mp hword).1
        · exact (Bool.or_eq_false_iff.mp hword).1
        · exact (Bool.or_eq_false_iff.mp hindicator.1.1).1

end Style

/-! ## 2. Lexemes -/

/-- How a text is written as a scalar in a block at a margin. -/
inductive Lexeme (margin : Nat) (text : String) : Style → List Char → Prop
  | plain (suits : Style.PlainText text.toList) : Lexeme margin text .plain text.toList
  | singleQuoted (prints : ∀ c ∈ text.toList, Style.isPrintable c = true)
    (tidy : Scalar.Tidy text.toList) (oneLine : '\n' ∉ text.toList) :
    Lexeme margin text .singleQuoted (singleQuoted (margin + 1) text.toList)
  | doubleQuoted : Lexeme margin text .doubleQuoted (doubleQuoted text.toList)
  | literal (prints : ∀ c ∈ text.toList, Style.isPrintable c = true)
    (nonempty : text.toList ≠ []) :
    Lexeme margin text .literal (literal (margin + 1) text.toList)

/-- A text between single quotes has no blanks at the ends of its lines. -/
theorem tidy_of_allowsSingleQuoted {text : List Char} (h : Style.allowsSingleQuoted text = true) :
    Scalar.Tidy text := by
  unfold Style.allowsSingleQuoted Style.needsEscapes Style.hasIndentedLine at h
  simp only [Bool.and_eq_true, Bool.not_eq_true', Bool.or_eq_false_iff] at h
  exact ⟨h.1.2, h.2⟩

/-- A text that needs no escapes prints. -/
theorem isPrintable_of_not_needsEscapes {text : List Char} (h : Style.needsEscapes text = false) :
    ∀ c ∈ text, Style.isPrintable c = true := by
  unfold Style.needsEscapes at h
  rw [Bool.or_eq_false_iff] at h
  intro c hc
  simpa using List.any_eq_false.mp h.1 c hc

theorem isPrintable_of_allowsLiteral {text : List Char} (h : Style.allowsLiteral text = true) :
    ∀ c ∈ text, Style.isPrintable c = true := by
  unfold Style.allowsLiteral at h
  apply isPrintable_of_not_needsEscapes
  simpa using (Bool.and_eq_true_iff.mp h).1

theorem not_mem_tab {text : List Char} (h : ∀ c ∈ text, Style.isPrintable c = true) : '\t' ∉ text :=
  fun hmem => (Style.ne_blank_of_isPrintable (h _ hmem)).1 rfl

/-- Every text has a lexeme of its style. -/
theorem lexeme_string (margin : Nat) (text : String) :
    Lexeme margin text (Style.ofText text) (string (margin + 1) text) := by
  unfold string
  have hsuits := Style.suits_ofText text
  generalize Style.ofText text = style at hsuits
  cases hsuits with
  | plain _ _ _ allowed => exact .plain (Style.plainText_of_allowsPlain allowed)
  | singleQuoted oneLine allowed =>
    have hescapes : Style.needsEscapes text.toList = false := by
      unfold Style.allowsSingleQuoted at allowed
      simpa using (Bool.and_eq_true_iff.mp allowed).1
    apply Lexeme.singleQuoted (isPrintable_of_not_needsEscapes hescapes)
      (tidy_of_allowsSingleQuoted allowed)
    simpa using oneLine
  | doubleQuoted => exact .doubleQuoted
  | literal lines allowed =>
    apply Lexeme.literal (isPrintable_of_allowsLiteral allowed)
    intro hnil
    rw [hnil] at lines
    cases lines

/-- A line that begins with a lexeme begins with no white space, comment or mark. -/
theorem Lexeme.begins {margin : Nat} {text : String} {style : Style} {lexeme : List Char}
    (h : Lexeme margin text style lexeme) (column : Nat) (rest : List Char) :
    Begins column (lexeme ++ rest) := by
  cases h with
  | plain suits =>
    obtain ⟨c, cs, htext, hstarts⟩ := suits.starts
    rw [htext]
    exact hstarts.begins column _
  | singleQuoted | doubleQuoted | literal => exact .token rfl rfl (by decide) (by decide)

theorem Lexeme.ne_nil {margin : Nat} {text : String} {style : Style} {lexeme : List Char}
    (h : Lexeme margin text style lexeme) : lexeme ≠ [] := by
  cases h with
  | plain suits =>
    obtain ⟨c, cs, htext, -⟩ := suits.starts
    rw [htext]
    exact List.cons_ne_nil c cs
  | singleQuoted | doubleQuoted | literal => exact List.cons_ne_nil _ _

/-! ### What is written prints -/

def Prints (text : List Char) : Prop := ∀ c ∈ text, Style.isPrintable c = true

theorem prints_append {front back : List Char} :
    Prints (front ++ back) ↔ Prints front ∧ Prints back := List.forall_mem_append

theorem prints_cons {c : Char} {text : List Char} :
    Prints (c :: text) ↔ Style.isPrintable c = true ∧ Prints text := List.forall_mem_cons

theorem prints_nil : Prints [] := fun _ h => absurd h List.not_mem_nil

theorem prints_blanks (n : Nat) : Prints (blanks n) := by
  intro c hc
  rw [List.eq_of_mem_replicate hc]
  rfl

theorem prints_endLine {text : List Char} (h : Prints text) : Prints (endLine text) := by
  unfold endLine
  split
  · exact h
  · exact prints_append.mpr ⟨h, prints_cons.mpr ⟨rfl, prints_nil⟩⟩

/-- Indented lines print if what is written for each character does. -/
theorem prints_indentLines {write : Char → List Char} {text : List Char} (indent : Nat) (fresh : Bool)
    (h : Prints text) (hwrite : ∀ c ∈ text, Prints (write c)) :
    Prints (indentLines indent write fresh text) := by
  induction text generalizing fresh with
  | nil => exact prints_nil
  | cons c text ih =>
    obtain ⟨hc, htext⟩ := prints_cons.mp h
    obtain ⟨hwritten, hwrite⟩ := List.forall_mem_cons.mp hwrite
    have hindent : Prints (if fresh then blanks indent else []) := by
      split
      · exact prints_blanks indent
      · exact prints_nil
    rw [indentLines]
    split
    · exact prints_cons.mpr ⟨hc, ih true htext hwrite⟩
    · exact prints_append.mpr ⟨prints_append.mpr ⟨hindent, hwritten⟩, ih false htext hwrite⟩

theorem prints_hexDigits (width n : Nat) : Prints (hexDigits width n) := by
  induction width generalizing n with
  | zero => exact prints_nil
  | succ width ih =>
    have hdigits : ∀ v < 16, Style.isPrintable (Nat.digitChar v).toUpper = true := by decide
    exact prints_append.mpr ⟨ih _, prints_cons.mpr ⟨hdigits _ (Nat.mod_lt _ (by decide)), prints_nil⟩⟩

/-- An escape prints, whatever it stands for. -/
theorem prints_escape (c : Char) : Prints (escape c) := by
  unfold escape
  split
  case h_15 =>
    split
    · rename_i hc
      exact prints_cons.mpr ⟨hc, prints_nil⟩
    · split
      · exact prints_cons.mpr ⟨rfl, prints_cons.mpr ⟨rfl, prints_hexDigits 2 _⟩⟩
      · split
        · exact prints_cons.mpr ⟨rfl, prints_cons.mpr ⟨rfl, prints_hexDigits 4 _⟩⟩
        · exact prints_cons.mpr ⟨rfl, prints_cons.mpr ⟨rfl, prints_hexDigits 8 _⟩⟩
  all_goals exact prints_cons.mpr ⟨rfl, prints_cons.mpr ⟨rfl, prints_nil⟩⟩

theorem prints_literalHints (text : List Char) : Prints (literalHints text) := by
  unfold literalHints
  apply prints_append.mpr
  constructor
  · split
    · exact prints_cons.mpr ⟨rfl, prints_nil⟩
    · exact prints_nil
  · split
    · split
      · exact prints_cons.mpr ⟨rfl, prints_nil⟩
      · split
        · exact prints_cons.mpr ⟨rfl, prints_nil⟩
        · exact prints_nil
    · exact prints_cons.mpr ⟨rfl, prints_nil⟩

/-- However a text is written, what is written prints. -/
theorem Lexeme.prints {margin : Nat} {text : String} {style : Style} {lexeme : List Char}
    (h : Lexeme margin text style lexeme) : Prints lexeme := by
  cases h with
  | plain suits => exact suits.prints
  | singleQuoted prints =>
    have hclosing : Prints (if (text.toList.getLast?.map isBreak).getD false then
        blanks (margin + 1) else []) := by
      split
      · exact prints_blanks _
      · exact prints_nil
    have hlines : Prints (indentLines (margin + 1)
        (fun c => if c = '\'' then ['\'', '\''] else [c]) false text.toList) := by
      apply prints_indentLines _ _ prints
      intro c hc
      split
      · exact prints_cons.mpr ⟨rfl, prints_cons.mpr ⟨rfl, prints_nil⟩⟩
      · exact prints_cons.mpr ⟨prints c hc, prints_nil⟩
    exact prints_cons.mpr ⟨rfl, prints_append.mpr
      ⟨prints_append.mpr ⟨hlines, hclosing⟩, prints_cons.mpr ⟨rfl, prints_nil⟩⟩⟩
  | doubleQuoted =>
    have hbody : Prints (text.toList.flatMap escape) := by
      intro d hd
      obtain ⟨c, -, hc⟩ := List.mem_flatMap.mp hd
      exact prints_escape c d hc
    exact prints_cons.mpr ⟨rfl, prints_append.mpr ⟨hbody, prints_cons.mpr ⟨rfl, prints_nil⟩⟩⟩
  | literal prints =>
    have hlines : Prints (indentLines (margin + 1) (fun c => [c]) true text.toList) :=
      prints_indentLines _ _ prints fun c hc => prints_cons.mpr ⟨prints c hc, prints_nil⟩
    exact prints_cons.mpr ⟨rfl, prints_append.mpr
      ⟨prints_literalHints _, prints_cons.mpr ⟨rfl, hlines⟩⟩⟩

namespace Layout

variable {b : Blocks} {cursor : Cursor} {text : String} {style : Style}
  {lexeme more rest after : List Char} {line column : Nat} {allowed : Bool} {s t : Layout}

theorem spare_keyHere {bound : Nat} (hrequired : allowed = true → b.margin ≠ cursor.column + 1)
    (hline : cursor.line < bound) :
    Spare bound (if allowed then some (keyHere b cursor) else none) := by
  cases allowed with
  | false => exact fun k hk => by cases hk
  | true =>
    intro k hk
    cases hk
    exact ⟨beq_eq_false_iff_ne.mpr (hrequired rfl), hline⟩

theorem endLine_of_concat {c : Char} (h : ∃ front, lexeme = front ++ [c]) (hc : isBreak c = false) :
    endLine lexeme = lexeme ++ ['\n'] := by
  obtain ⟨front, rfl⟩ := h
  rw [endLine_of_not_break hc, List.append_assoc]
  rfl

theorem exists_endLine (text : List Char) :
    ∃ front c, endLine text = front ++ [c] ∧ isBreak c = true := by
  rcases List.eq_nil_or_concat' text with rfl | ⟨front, c, rfl⟩
  · exact ⟨[], '\n', rfl, rfl⟩
  · cases hc : isBreak c with
    | true => exact ⟨front, c, endLine_of_break hc, hc⟩
    | false =>
      refine ⟨front ++ [c], '\n', ?_, rfl⟩
      rw [endLine_of_not_break hc, List.append_assoc]
      rfl

/-- A scalar in quotes is read to the end of its line, and the line ends. -/
theorem fetch_quoted_line (single : Bool) {c : Char} (hc : c = if single then '\'' else '"')
    (hend : ∃ front, c :: lexeme = front ++ [c])
    (hread : Scalar.readQuoted single (c :: (lexeme ++ '\n' :: more)).length .none false
      (lexeme ++ '\n' :: more) = .ok (text.toList, '\n' :: more))
    (hrequired : allowed = true → b.margin ≠ cursor.column + 1)
    (hrest : cursor.rest = endLine (c :: lexeme) ++ more) (hlines : Lines more line after) :
    ∃ c rest t, cursor.rest = c :: rest ∧ (b.layout cursor allowed).fetch c rest = .ok t ∧
      t.cursor.rest.length ≤ rest.length ∧
      Ready t more (b.append [.scalar (if single then .singleQuoted else .doubleQuoted) text]) := by
  have hbreak : isBreak c = false := by
    subst hc
    cases single <;> rfl
  have hrest' : cursor.rest = c :: (lexeme ++ '\n' :: more) := by
    rw [hrest, endLine_of_concat hend hbreak, List.append_assoc]
    rfl
  have hseek : (cursor.seek ('\n' :: more)).rest = '\n' :: more :=
    Cursor.seek_rest (hrest'.trans (List.cons_append ..).symm)
  have hline : cursor.line < (cursor.seek ('\n' :: more)).line + 1 :=
    Nat.lt_succ_of_le (Cursor.skip_line _ cursor)
  refine ⟨c, _, _, hrest', fetch_quoted single allowed hc hrest' hread, ?_, ?_⟩
  · show (cursor.seek ('\n' :: more)).rest.length ≤ _
    rw [hseek, List.length_append]
    omega
  · rw [String.ofList_toList]
    exact ready_break hlines hseek rfl (spare_keyHere hrequired hline)

/-- The lines of a literal scalar are read to the line that follows. -/
theorem fetch_block (allowed : Bool) {front : List Char} {d : Char} (hrest : cursor.rest = '|' :: rest)
    (hread : Scalar.readBlock true b.margin rest = .ok (text.toList, after))
    (hends : '|' :: rest = front ++ d :: more) (hd : isBreak d = true)
    (hlines : Lines more line after) :
    ∃ t, (b.layout cursor allowed).fetch '|' rest = .ok t ∧
      t.cursor.rest.length ≤ rest.length ∧ Ready t more (b.append [.scalar .literal text]) := by
  have hsplit : cursor.rest = front ++ d :: (blanks line ++ after) := by
    rw [hrest, hends, hlines.eq]
  obtain ⟨hseek, hcolumn, -⟩ := Cursor.seek_line_blanks hsplit hd
  have hfetch := fetch_literal (b := b) allowed hrest hread
  have hlength : rest.length + 1 = front.length + ((blanks line ++ after).length + 1) := by
    rw [← List.length_cons, ← hrest, hsplit, List.length_append, List.length_cons]
  rw [List.length_append] at hlength
  refine ⟨_, hfetch, ?_, ?_⟩
  · show (cursor.seek after).rest.length ≤ _
    rw [hseek]
    -- The bar stands before the end of its line.
    have hfront : front ≠ [] := by
      rintro rfl
      rw [(List.cons.inj hends).1.symm] at hd
      cases hd
    have hpositive := List.length_pos_iff.mpr hfront
    omega
  · rw [String.ofList_toList]
    exact ready_blanks (s := (b.append [.scalar .literal text]).layout (cursor.seek after) true) 0
      hlines hseek hcolumn rfl (fun _ h => by cases h) rfl

/-- A lexeme is read as its scalar, to the line that follows. -/
theorem fetch_lexeme (allowed : Bool) (h : Lexeme b.margin text style lexeme) (hmargin : 0 < b.margin)
    (hcolumn : b.margin ≤ cursor.column)
    (hrequired : allowed = true → b.margin ≠ cursor.column + 1)
    (hrest : cursor.rest = endLine lexeme ++ more) (hlines : Lines more line after)
    (hline : line < b.margin) :
    ∃ c rest t, cursor.rest = c :: rest ∧ (b.layout cursor allowed).fetch c rest = .ok t ∧
      t.cursor.rest.length ≤ rest.length ∧ Ready t more (b.append [.scalar style text]) := by
  have hmore : more = blanks line ++ after := hlines.eq
  cases h with
  | plain suits =>
    obtain ⟨c, cs, htext, hstarts⟩ := suits.starts
    have hne : text.toList ≠ [] := by
      rw [htext]
      exact List.cons_ne_nil c cs
    have hend : endLine text.toList = text.toList ++ ['\n'] := by
      have hlast := List.getLast?_eq_some_getLast hne
      exact endLine_of_concat ⟨_, (List.dropLast_append_getLast hne).symm⟩ (suits.last _ hlast).2
    have hrest' : cursor.rest = text.toList ++ '\n' :: (blanks line ++ after) := by
      rw [hrest, hend, hmore, List.append_assoc]
      rfl
    -- A plain scalar goes on over the line end, and stops at a line that begins before the margin.
    have hread : Scalar.readPlain false b.margin .none cursor.column
        (text.toList ++ '\n' :: (blanks line ++ after)) = .ok (text.toList, true, after) := by
      have hlast : text.toList.getLast? ≠ some ' ' := fun h => (suits.last _ h).1 rfl
      show Scalar.readPlain false b.margin (.within []) cursor.column _ = _
      rw [Scalar.readPlain_append suits.runs hne hlast (fun h => absurd rfl h) (by omega),
        Scalar.readPlain_line hlines.begins hline]
      simp [Scalar.prepend]
    obtain ⟨hseek, hcolumn', hline'⟩ := Cursor.seek_line_blanks hrest' rfl
    rw [htext, List.cons_append] at hrest' hread
    have hfetch := fetch_plain (b := b) allowed (hstarts.beginsPlain ⟨by simp, by simp⟩) hrest'
      hread
    refine ⟨c, _, _, hrest', hfetch, ?_, ?_⟩
    · show (cursor.seek after).rest.length ≤ _
      rw [hseek]
      simp only [List.length_append, List.length_cons]
      omega
    · have hready := ready_blanks (s := withKey (b.append [.scalar .plain text]) (cursor.seek after)
        true (if allowed then some (keyHere b cursor) else none)) 0 hlines hseek hcolumn' rfl
        (spare_keyHere hrequired hline') rfl
      rwa [← htext, String.ofList_toList]
  | singleQuoted prints tidy oneLine =>
    exact fetch_quoted_line true rfl ⟨'\'' :: _, rfl⟩
      (Scalar.readQuoted_singleQuoted (Nat.succ_pos b.margin) tidy ⟨oneLine, not_mem_tab prints⟩
        (by simp)) hrequired hrest hlines
  | doubleQuoted =>
    exact fetch_quoted_line false rfl ⟨'"' :: _, rfl⟩ Scalar.readQuoted_doubleQuoted
      hrequired hrest hlines
  | literal prints nonempty =>
    have hread := Scalar.readBlock_literal hmargin nonempty (not_mem_tab prints) hlines.begins
      (Nat.le_of_lt hline)
    -- Of a literal scalar the bar is what the token begins with.
    have hbar : endLine (literal (b.margin + 1) text.toList) =
        '|' :: (endLine (literal (b.margin + 1) text.toList)).tail := by
      unfold literal
      rw [← List.singleton_append, endLine_append (by simp)]
      rfl
    obtain ⟨front, d, hend, hd⟩ := exists_endLine (literal (b.margin + 1) text.toList)
    have hsplit : '|' :: ((endLine (literal (b.margin + 1) text.toList)).tail ++ more) =
        front ++ d :: more := by
      rw [← List.cons_append, ← hbar, hend, List.append_assoc]
      rfl
    rw [hbar, List.cons_append] at hrest
    obtain ⟨t, hfetch, hlength, hready⟩ :=
      fetch_block allowed hrest (hmore ▸ hread) hsplit hd hlines
    exact ⟨'|', _, t, hrest, hfetch, hlength, hready⟩

/-- A node stands on the line of the mark or the key before it. -/
theorem pause_behind (allowed : Bool) (hrest : cursor.rest = ' ' :: rest)
    (hbegins : Begins (cursor.column + 1) rest) (hcolumn : b.margin ≤ cursor.column + 2) :
    (b.layout cursor allowed).pause = .ok (b.layout (cursor.along 1 rest) allowed) := by
  have hpause := pause_blanks (s := b.layout cursor allowed) 1 hrest hbegins rfl
    (fun _ h => by cases h)
  rw [hpause]
  apply congrArg (fun b : Blocks => Except.ok (b.layout (cursor.along 1 rest) allowed))
  exact Blocks.close_eq_self (b := b) hcolumn

/-- A scalar on its line begins with a token. -/
theorem begins_endLine {margin : Nat} (h : Lexeme margin text style lexeme) (column : Nat)
    (rest : List Char) : Begins column (endLine lexeme ++ rest) := by
  unfold endLine
  split
  · exact h.begins column rest
  · rw [List.append_assoc]
    exact h.begins column (['\n'] ++ rest)

/-- Behind a blank, a lexeme is read to the line that follows. -/
theorem leads_lexeme (allowed : Bool) {margin : Nat} (h : Lexeme margin text style lexeme)
    (hb : b.margin = margin)
    (hcolumn : b.margin ≤ cursor.column)
    (hrest : cursor.rest = ' ' :: (endLine lexeme ++ more)) (hlines : Lines more line after)
    (hline : line < b.margin) :
    ∃ t, Leads (b.layout cursor allowed) t ∧ Ready t more (b.append [.scalar style text]) := by
  subst hb
  have hpause := pause_behind (b := b) allowed hrest (begins_endLine h _ more) (by omega)
  have hrest' : (cursor.along 1 (endLine lexeme ++ more)).rest = endLine lexeme ++ more := rfl
  have hshort : b.margin < (cursor.along 1 (endLine lexeme ++ more)).column + 1 := by
    show b.margin < cursor.column + 1 + 1
    omega
  obtain ⟨c, rest, t, hc, hfetch, hlength, hready⟩ :=
    fetch_lexeme allowed h (Nat.zero_lt_of_lt hline) (hcolumn.trans (Nat.le_succ _))
      (fun _ => Nat.ne_of_lt hshort) hrest' hlines hline
  refine ⟨t, leads_token hpause hc hfetch ?_, hready⟩
  have hc' : endLine lexeme ++ more = c :: rest := hc
  show t.cursor.rest.length < cursor.rest.length
  rw [hrest, hc', List.length_cons, List.length_cons]
  omega

/-! ## 3. Brackets -/

inductive Brackets : Char → Char → Token → Token → Prop
  | square : Brackets '[' ']' .flowSequenceStart .flowSequenceEnd
  | curly : Brackets '\x7b' '\x7d' .flowMappingStart .flowMappingEnd

section Brackets

variable {opening closing : Char} {start stop : Token}

theorem Brackets.begins (h : Brackets opening closing start stop) (column : Nat) :
    Begins column (opening :: rest) ∧ Begins column (closing :: rest) := by
  cases h <;> exact ⟨.token rfl rfl (by decide) (by decide), .token rfl rfl (by decide) (by decide)⟩

theorem Brackets.fetch (h : Brackets opening closing start stop) (s : Layout) (rest : List Char) :
    s.fetch opening rest = s.fetchOpening start ∧ s.fetch closing rest = s.fetchClosing stop := by
  unfold Layout.fetch
  cases h <;> simp [isDocumentMark_of_ne]

def withinBracket (b : Blocks) (cursor : Cursor) (key : Option KeyCandidate) : Layout :=
  { b.layout cursor true with outerCandidates := [key] }

theorem pause_withinBracket {key : Option KeyCandidate} (hbegins : Begins cursor.column cursor.rest)
    (hnear : expire cursor key = .ok key) :
    (withinBracket b cursor key).pause = .ok (withinBracket b cursor key) := by
  have hskip (fuel : Nat) : (withinBracket b cursor key).skipSpace (fuel + 1) =
      withinBracket b cursor key := skipSpace_blanks 0 rfl hbegins
  have hexpire : (withinBracket b cursor key).expireCandidates =
      .ok (withinBracket b cursor key) := by
    show ([key].mapM (expire cursor) >>= fun outerCandidates =>
      .ok { withinBracket b cursor key with outerCandidates }) = _
    rw [List.mapM_cons, hnear]
    rfl
  unfold pause
  rw [hskip, hexpire]
  rfl

/-- Brackets that hold nothing are read to the line that follows. -/
theorem leads_brackets (h : Brackets opening closing start stop) (hcolumn : b.margin ≤ cursor.column)
    (hrest : cursor.rest = ' ' :: opening :: closing :: '\n' :: more)
    (hlines : Lines more line after) :
    ∃ t, Leads (b.layout cursor allowed) t ∧ Ready t more (b.append [start, stop]) := by
  have hpause := pause_behind (b := b) allowed hrest (h.begins _).1 (by omega)
  generalize hplace : cursor.along 1 (opening :: closing :: '\n' :: more) = place at hpause
  -- Within the brackets, the key that may begin before them is remembered.
  generalize hkey : (if allowed then some (keyHere b place) else none) = key
  have hspare : Spare (place.line + 1) key := by
    rw [← hkey]
    apply spare_keyHere _ (Nat.lt_succ_self _)
    subst hplace
    show allowed = true → b.margin ≠ cursor.column + 1 + 1
    omega
  have hopening : (b.layout place allowed).fetch opening (closing :: '\n' :: more) =
      .ok (withinBracket (b.append [start]) (place.along 1 (closing :: '\n' :: more)) key) := by
    have hskip : place.skip 1 = place.along 1 (closing :: '\n' :: more) := by
      apply Cursor.advance_eq (d := opening)
      · rw [← hplace]
        rfl
      · cases h <;> rfl
    rw [(h.fetch _ _).1, ← hskip]
    unfold fetchOpening
    rw [saveCandidate_layout, hkey]
    rfl
  have hnear : expire (place.along 1 (closing :: '\n' :: more)) key = .ok key := by
    rw [← hkey]
    cases allowed with
    | false => rfl
    | true =>
      have hnear : isExpired (place.along 1 (closing :: '\n' :: more)) (keyHere b place) = false := by
        simp [isExpired, keyHere, Cursor.along]
      simp [expire, hnear]
  have hwithin := pause_withinBracket (b := b.append [start]) (h.begins _).2 hnear
  have hclosing : (withinBracket (b.append [start]) (place.along 1 (closing :: '\n' :: more)) key).fetch
      closing ('\n' :: more) =
        .ok (withKey (b.append [start, stop]) (place.along 2 ('\n' :: more)) false key) := by
    have hskip : (place.along 1 (closing :: '\n' :: more)).advance = place.along 2 ('\n' :: more) :=
      Cursor.advance_eq rfl (by cases h <;> rfl)
    rw [(h.fetch _ _).2, ← hskip]
    rfl
  refine ⟨_, (leads_token hpause (by rw [← hplace]; rfl) hopening ?_).trans
    (leads_token hwithin rfl hclosing ?_), ?_⟩
  · show (closing :: '\n' :: more).length < cursor.rest.length
    rw [hrest]
    simp
  · show ('\n' :: more).length < (closing :: '\n' :: more).length
    simp
  · exact ready_break (s := withKey (b.append [start, stop]) (place.along 2 ('\n' :: more)) false key)
      hlines rfl rfl hspare

end Brackets

/-! ## 4. Keys -/

/-- A lexeme on one line of at most 1024 characters is read up to the colon behind it. -/
theorem fetch_key {margin : Nat} (h : Lexeme margin text style lexeme)
    (hline : ∀ c ∈ lexeme, isBreak c = false) (hmargin : b.margin ≤ cursor.column + 1)
    (hrest : cursor.rest = lexeme ++ ':' :: rest) (hends : endsWord rest = true) :
    ∃ c more, cursor.rest = c :: more ∧ (b.layout cursor true).fetch c more =
      .ok (withKey (b.append [.scalar style text]) (cursor.along lexeme.length (':' :: rest)) false
        (some (keyHere b cursor))) := by
  have hseek := Cursor.seek_words hrest hline
  cases h with
  | plain suits =>
    obtain ⟨c, cs, htext, hstarts⟩ := suits.starts
    have hread : Scalar.readPlain false b.margin .none cursor.column (text.toList ++ ':' :: rest) =
        .ok (text.toList, false, ':' :: rest) := by
      have hne : text.toList ≠ [] := by
        rw [htext]
        exact List.cons_ne_nil c cs
      have hlast : text.toList.getLast? ≠ some ' ' := fun h => (suits.last _ h).1 rfl
      show Scalar.readPlain false b.margin (.within []) cursor.column _ = _
      rw [Scalar.readPlain_append suits.runs hne hlast (fun h => absurd rfl h) hmargin]
      show Scalar.prepend _ (Scalar.readPlain false b.margin (.within []) _ _) = _
      rw [Scalar.readPlain_colon (fun h => absurd rfl h) hends]
      simp [Scalar.prepend]
    rw [htext, List.cons_append] at hread
    have hrest' : cursor.rest = c :: (cs ++ ':' :: rest) := by
      rw [hrest, htext, List.cons_append]
    refine ⟨c, _, hrest', ?_⟩
    rw [fetch_plain true (hstarts.beginsPlain ⟨by simp, by simp⟩) hrest' hread, ← htext,
      String.ofList_toList, hseek]
    rfl
  | singleQuoted prints tidy oneLine =>
    have hfetch := fetch_quoted (b := b) true true rfl hrest (Scalar.readQuoted_singleQuoted
      (Nat.succ_pos margin) tidy ⟨oneLine, not_mem_tab prints⟩ (by simp))
    rw [String.ofList_toList, hseek] at hfetch
    exact ⟨'\'', _, hrest, hfetch⟩
  | doubleQuoted =>
    have hfetch := fetch_quoted (b := b) false true rfl hrest
      Scalar.readQuoted_doubleQuoted
    rw [String.ofList_toList, hseek] at hfetch
    exact ⟨'"', _, hrest, hfetch⟩
  | literal =>
    -- A literal scalar is not on one line.
    have hfeed := hline '\n' (by simp [literal])
    cases hfeed

/-- Nothing happens before a node that may be a key and is near. -/
theorem pause_withKey (allowed : Bool) {key : KeyCandidate} (hbegins : Begins cursor.column cursor.rest)
    (hmargin : b.margin ≤ cursor.column + 1) (hnear : isExpired cursor key = false) :
    (withKey b cursor allowed (some key)).pause = .ok (withKey b cursor allowed (some key)) := by
  have hskip (fuel : Nat) : (withKey b cursor allowed (some key)).skipSpace (fuel + 1) =
      withKey b cursor allowed (some key) := skipSpace_blanks 0 rfl hbegins
  have hexpire : (withKey b cursor allowed (some key)).expireCandidates =
      .ok (withKey b cursor allowed (some key)) := by
    show (expire cursor (some key) >>= fun candidate =>
      .ok { withKey b cursor allowed (some key) with candidate }) = _
    unfold expire
    simp only [hnear]
    rfl
  unfold pause
  rw [hskip, hexpire]
  show Except.ok (withKey (b.close (cursor.column + 1)) cursor allowed (some key)) = _
  rw [Blocks.close_eq_self hmargin]

/-- Tokens in front of the last one. -/
theorem insertAt_last {token : Token} {before : List Token} (h : s.tokens = token :: before)
    (tokens : List Token) : s.insertAt before.length tokens =
      { s with tokens := token :: (tokens.reverse ++ before) } := by
  have hlater : (token :: before).length - before.length = 1 := by
    rw [List.length_cons]
    omega
  unfold insertAt
  rw [h, hlater]
  rfl

/-- A key that is pending when its colon comes may begin a mapping. -/
theorem fetchValue_withKey (allowed : Bool) (place : Cursor) (token : Token)
    (hrest : cursor.rest = ':' :: rest) (hends : endsWord rest = true) :
    (withKey (b.append [token]) cursor allowed (some (keyHere b place))).fetch ':' rest =
      .ok (((b.enter place.column .blockMappingStart).append [.key, token, .value]).layout
        (cursor.along 1 rest) false) := by
  have hskip : cursor.advance = cursor.along 1 rest := Cursor.advance_eq hrest rfl
  rw [fetch_eq_fetchValue hends, ← hskip]
  unfold fetchValue Blocks.enter
  simp only [withKey, Blocks.layout, keyHere]
  by_cases hmargin : b.margin ≤ place.column
  · have hopens : (withKey (b.append [token]) cursor allowed (some (keyHere b place))).opensAt
        place.column = true := decide_eq_true hmargin
    simp only [withKey, Blocks.layout, keyHere] at hopens
    simp only [hopens, hmargin, if_true]
    rw [insertAt_last rfl]
    rfl
  · have hstays : (withKey (b.append [token]) cursor allowed (some (keyHere b place))).opensAt
        place.column = false := decide_eq_false hmargin
    simp only [withKey, Blocks.layout, keyHere] at hstays
    simp only [hstays, hmargin, Bool.false_eq_true, if_false]
    rw [insertAt_last rfl]
    rfl

/-- From a line that begins with a key to what stands behind the colon. -/
theorem leads_key {margin : Nat} (h : Lexeme margin text style lexeme)
    (hline : ∀ c ∈ lexeme, isBreak c = false) (hlength : lexeme.length ≤ 1024)
    (hready : Ready s (blanks column ++ (lexeme ++ ':' :: rest)) b) (hmargin : b.margin ≤ column + 1)
    (hends : endsWord rest = true) :
    ∃ place, place.rest = rest ∧ column < place.column ∧ Leads s
      (((b.enter column .blockMappingStart).append [.key, .scalar style text, .value]).layout
        place false) := by
  obtain ⟨cursor, hrest, rfl, hshort, hpause⟩ :=
    hready.stands ⟨rfl, h.begins column (':' :: rest)⟩ hmargin
  obtain ⟨c, more, hc, hfetch⟩ := fetch_key h hline hmargin hrest hends
  have hnear : isExpired (cursor.along lexeme.length (':' :: rest)) (keyHere b cursor) = false := by
    simp [isExpired, keyHere, Cursor.along, hlength]
  have hbehind : (cursor.along lexeme.length (':' :: rest)).rest = ':' :: rest := rfl
  have hcolon := pause_withKey (b := b.append [.scalar style text]) false
    (hbehind ▸ .token rfl rfl (by decide) (by decide))
    (hmargin.trans (Nat.succ_le_succ (Nat.le_add_right ..))) hnear
  have hvalue := fetchValue_withKey (b := b) false cursor (.scalar style text) hbehind hends
  refine ⟨_, rfl, ?_, (leads_token hpause hc hfetch ?_).trans (leads_token hcolon rfl hvalue ?_)⟩
  · show cursor.column < cursor.column + lexeme.length + 1
    omega
  · have hne : 0 < lexeme.length := List.length_pos_iff.mpr h.ne_nil
    rw [List.length_append] at hshort
    show (':' :: rest).length < _
    omega
  · show rest.length < (':' :: rest).length
    exact Nat.lt_succ_self _

end Layout

/-! ## 5. Keys that fit on a line -/

section SimpleKeys

variable {key : String} {c : Char}

theorem isBreak_of_mem_hexDigits {width n : Nat} : ∀ d ∈ hexDigits width n, isBreak d = false := by
  induction width generalizing n with
  | zero => exact fun d hd => absurd hd List.not_mem_nil
  | succ width ih =>
    have hdigits : ∀ v < 16, isBreak (Nat.digitChar v).toUpper = false := by decide
    rw [hexDigits]
    apply List.forall_mem_append.mpr ⟨ih, List.forall_mem_singleton.mpr _⟩
    exact hdigits _ (Nat.mod_lt _ (by decide))

/-- A character takes at most four characters for each of its bytes, and no line ends in them. -/
theorem escape_line (c : Char) :
    (∀ d ∈ escape c, isBreak d = false) ∧ (escape c).length ≤ 4 * c.utf8Size := by
  have hpositive := c.utf8Size_pos
  unfold escape
  split
  case h_15 =>
    split
    · refine ⟨List.forall_mem_singleton.mpr ?_, by rw [List.length_singleton]; omega⟩
      unfold isBreak
      rw [Bool.or_eq_false_iff, Bool.or_eq_false_iff]
      simp only [beq_eq_false_iff_ne]
      refine ⟨⟨?_, ?_⟩, ?_⟩ <;> assumption
    · have hcode (letter : Char) (width : Nat) (hletter : isBreak letter = false) :
          (∀ d ∈ '\\' :: letter :: hexDigits width c.toNat, isBreak d = false) ∧
            ('\\' :: letter :: hexDigits width c.toNat).length = width + 2 := by
        refine ⟨?_, by rw [List.length_cons, List.length_cons, Scalar.length_hexDigits]⟩
        rw [List.forall_mem_cons, List.forall_mem_cons]
        exact ⟨rfl, hletter, isBreak_of_mem_hexDigits⟩
      -- The width of an escape grows with the bytes of the character.
      have hsize : c.utf8Size = if c.toNat ≤ 127 then 1 else if c.toNat ≤ 2047 then 2
          else if c.toNat ≤ 65535 then 3 else 4 := by
        unfold Char.utf8Size
        simp only [UInt32.le_iff_toNat_le]
        rfl
      have htwo : 127 < c.toNat → 2 ≤ c.utf8Size := by
        rw [hsize]
        split_ifs <;> omega
      have hfour : 65535 < c.toNat → 4 ≤ c.utf8Size := by
        rw [hsize]
        split_ifs <;> omega
      split
      · obtain ⟨hbreak, hlength⟩ := hcode 'x' 2 rfl
        exact ⟨hbreak, by omega⟩
      · split
        · obtain ⟨hbreak, hlength⟩ := hcode 'u' 4 rfl
          exact ⟨hbreak, by omega⟩
        · obtain ⟨hbreak, hlength⟩ := hcode 'U' 8 rfl
          exact ⟨hbreak, by omega⟩
  all_goals
    exact ⟨List.forall_mem_cons.mpr ⟨rfl, List.forall_mem_singleton.mpr rfl⟩, by decide⟩

/-- A text takes at most four characters for each of its bytes between double quotes. -/
theorem flatMap_escape_line (text : List Char) :
    (∀ d ∈ text.flatMap escape, isBreak d = false) ∧
      (text.flatMap escape).length ≤ 4 * String.utf8Len text := by
  induction text with
  | nil => exact ⟨fun d hd => absurd hd List.not_mem_nil, Nat.le_refl _⟩
  | cons c text ih =>
    obtain ⟨hbreak, hlength⟩ := escape_line c
    rw [List.flatMap_cons, List.length_append, String.utf8Len_cons]
    exact ⟨List.forall_mem_append.mpr ⟨hbreak, ih.1⟩, by omega⟩

/-- Every character takes a byte at least. -/
theorem length_le_utf8Len (text : List Char) : text.length ≤ String.utf8Len text := by
  induction text with
  | nil => exact Nat.le_refl _
  | cons c text ih =>
    have hpositive := c.utf8Size_pos
    rw [String.utf8Len_cons, List.length_cons]
    omega

/-- On one line, nothing is indented between single quotes. -/
theorem singleQuoted_line {text : List Char} (h : ∀ c ∈ text, isBreak c = false) (indent : Nat) :
    (∀ d ∈ singleQuoted indent text, isBreak d = false) ∧
      (singleQuoted indent text).length ≤ 2 * text.length + 2 := by
  rw [Scalar.singleQuoted_eq]
  suffices hrest : (∀ d ∈ Scalar.quotedRest indent false text, isBreak d = false) ∧
      (Scalar.quotedRest indent false text).length ≤ 2 * text.length + 1 from
    ⟨List.forall_mem_cons.mpr ⟨rfl, hrest.1⟩, Nat.succ_le_succ hrest.2⟩
  induction text with
  | nil => exact ⟨List.forall_mem_singleton.mpr rfl, Nat.le_refl _⟩
  | cons c text ih =>
    obtain ⟨hc, htext⟩ := List.forall_mem_cons.mp h
    obtain ⟨hbreak, hlength⟩ := ih htext
    have hdoubled : (∀ d ∈ Scalar.doubled c, isBreak d = false) ∧ (Scalar.doubled c).length ≤ 2 := by
      unfold Scalar.doubled
      split
      · exact ⟨List.forall_mem_cons.mpr ⟨rfl, List.forall_mem_singleton.mpr rfl⟩, Nat.le_refl _⟩
      · exact ⟨List.forall_mem_singleton.mpr hc, Nat.le_succ _⟩
    rw [Scalar.quotedRest, if_neg (by simp [hc])]
    show (∀ d ∈ Scalar.doubled c ++ _, isBreak d = false) ∧ (Scalar.doubled c ++ _).length ≤ _
    rw [List.length_append, List.length_cons]
    exact ⟨List.forall_mem_append.mpr ⟨hdoubled.1, hbreak⟩, by omega⟩

/-- A key that fits has a lexeme on one line that is short enough for a key. -/
theorem string_of_isSimpleKey (h : isSimpleKey key = true) (indent : Nat) :
    (∀ c ∈ string indent key, isBreak c = false) ∧ (string indent key).length ≤ 1024 := by
  unfold isSimpleKey at h
  simp only [Bool.and_eq_true, decide_eq_true_eq, Bool.not_eq_true'] at h
  obtain ⟨hbytes, hlines⟩ := h
  rw [← String.utf8Len_toList] at hbytes
  have hline (c : Char) (hc : c ∈ key.toList) : isBreak c = false := by
    have hend := List.any_eq_false.mp hlines c hc
    unfold Style.isLineEnd at hend
    simp only [Bool.or_eq_true, not_or, Bool.not_eq_true] at hend
    exact hend.1.1
  have hlength := length_le_utf8Len key.toList
  unfold string
  have hsuits := Style.suits_ofText key
  generalize Style.ofText key = style at hsuits
  cases hsuits with
  | plain =>
    show _ ∧ key.toList.length ≤ 1024
    exact ⟨hline, by omega⟩
  | singleQuoted =>
    obtain ⟨hbreak, hshort⟩ := singleQuoted_line hline indent
    show _ ∧ (singleQuoted indent key.toList).length ≤ 1024
    exact ⟨hbreak, by omega⟩
  | doubleQuoted =>
    obtain ⟨hbreak, hshort⟩ := flatMap_escape_line key.toList
    unfold doubleQuoted
    rw [List.forall_mem_cons, List.forall_mem_append, List.length_cons, List.length_append]
    exact ⟨⟨rfl, hbreak, List.forall_mem_singleton.mpr rfl⟩, by simp only [List.length_singleton]; omega⟩
  | literal lines =>
    have hfeed : '\n' ∈ key.toList := by simpa using lines
    cases hline '\n' hfeed

end SimpleKeys

end Conform.Yaml
