import Mathlib.Data.List.DropRight
import Conform.Proofs.Listings

/-!
# Endings — scalars without the white space at their end

White space at the end of a document is taken off, but for one line feed.  Nothing is lost by that
where the last scalar keeps its end (`Yaml.Style.KeepsEnd`), and only there: the lines that are left
of another scalar are faulty, or read as another text (`Yaml.exists_tail`).
-/

namespace Conform

/-! ## 1. White space at the end of a text -/

theorem isWhiteSpace_blank : Unicode.isWhiteSpace ' ' = true := by decide +kernel

theorem Yaml.isWhiteSpace_of_isBreak {c : Char} (h : isBreak c = true) :
    Unicode.isWhiteSpace c = true := by
  have hbreaks : Unicode.isWhiteSpace '\n' = true ∧ Unicode.isWhiteSpace '\u2028' = true ∧
      Unicode.isWhiteSpace '\u2029' = true := by
    decide +kernel
  unfold isBreak at h
  simp only [Bool.or_eq_true, beq_iff_eq] at h
  obtain (rfl | rfl) | rfl := h
  · exact hbreaks.1
  · exact hbreaks.2.1
  · exact hbreaks.2.2

theorem isWhiteSpace_lineFeed : Unicode.isWhiteSpace '\n' = true :=
  Yaml.isWhiteSpace_of_isBreak rfl

namespace Text

variable {cs : List Char} {c : Char}

theorem trimEnd_concat_of_white (h : Unicode.isWhiteSpace c = true) :
    trimEnd (cs ++ [c]) = trimEnd cs := List.rdropWhile_concat_pos _ _ _ h

/-- White space behind a text does not count where its end is trimmed. -/
theorem trimEnd_append_white {white : List Char} (h : ∀ c ∈ white, Unicode.isWhiteSpace c = true) :
    trimEnd (cs ++ white) = trimEnd cs := by
  induction white using List.reverseRecOn with
  | nil => rw [List.append_nil]
  | append_singleton white c ih =>
    obtain ⟨hwhite, hc⟩ := List.forall_mem_append.mp h
    rw [← List.append_assoc, trimEnd_concat_of_white (hc c List.mem_cons_self), ih hwhite]

theorem trimEnd_concat_eq_self_iff : trimEnd (cs ++ [c]) = cs ++ [c] ↔
    Unicode.isWhiteSpace c = false := by
  constructor
  · intro h
    have hlast := (List.rdropWhile_eq_self_iff (p := Unicode.isWhiteSpace) (l := cs ++ [c])).mp h
      (by simp)
    simpa using hlast
  · intro h
    exact List.rdropWhile_concat_neg _ _ _ (by rw [h]; exact Bool.false_ne_true)

/-- White space is taken off behind another character. -/
theorem trimEnd_append {white : List Char} (hc : Unicode.isWhiteSpace c = false)
    (hwhite : ∀ c ∈ white, Unicode.isWhiteSpace c = true) :
    trimEnd (cs ++ c :: white) = cs ++ [c] := by
  rw [← List.singleton_append, ← List.append_assoc, trimEnd_append_white hwhite,
    trimEnd_concat_eq_self_iff.mpr hc]

/-- A text that ends in a line feed keeps it, and nothing else, as its white space. -/
theorem trimEnd_line_iff :
    trimEnd (cs ++ [c, '\n']) ++ ['\n'] = cs ++ [c, '\n'] ↔ Unicode.isWhiteSpace c = false := by
  have hsplit : cs ++ [c, '\n'] = cs ++ [c] ++ ['\n'] := by
    rw [List.append_assoc]
    rfl
  rw [hsplit, List.append_left_inj, trimEnd_concat_of_white isWhiteSpace_lineFeed,
    trimEnd_concat_eq_self_iff]

end Text

namespace Yaml

/-! ## 2. The end of a scalar -/

/-- What a text keeps when white space behind it is taken off and a line feed is added: all where it
is written in quotes, and where it ends in no white space but one line feed behind another
character. -/
def Style.KeepsEnd (text : String) : Prop :=
  match ofText text with
  | .singleQuoted | .doubleQuoted => True
  | .plain | .literal | .folded => ∃ front c, Unicode.isWhiteSpace c = false ∧
      (text.toList = front ++ [c] ∨ text.toList = front ++ [c, '\n'])

theorem of_not_isWhiteSpace {c : Char} (h : Unicode.isWhiteSpace c = false) :
    c ≠ ' ' ∧ isBreak c = false := by
  constructor
  · rintro rfl
    rw [isWhiteSpace_blank] at h
    cases h
  · rw [← Bool.not_eq_true]
    intro hbreak
    rw [isWhiteSpace_of_isBreak hbreak] at h
    cases h

/-! ## 3. Where nothing is lost -/

open Writer

variable {front : List Char} {n : Nat} {text : String}

theorem Style.allowsPlain_concat (h : allowsPlain text.toList = true) :
    ∃ before c, text.toList = before ++ [c] ∧ isBreak c = false := by
  unfold allowsPlain at h
  simp only [Bool.and_eq_true, Bool.not_eq_true'] at h
  obtain ⟨⟨⟨⟨-, hlines⟩, -⟩, hbegins⟩, -⟩ := h
  have hne : text.toList ≠ [] := by
    intro hnil
    rw [hnil] at hbegins
    cases hbegins
  refine ⟨_, _, (List.dropLast_append_getLast hne).symm, ?_⟩
  have hlast := List.any_eq_false.mp hlines _ (List.getLast_mem hne)
  unfold isLineEnd at hlast
  simp only [Bool.or_eq_true, not_or, Bool.not_eq_true] at hlast
  exact hlast.1.1

/-- A scalar that does not end in the end of a line is followed by one. -/
theorem trimEnd_endLine_iff {before : List Char} {c : Char} (hc : isBreak c = false) :
    Text.trimEnd (front ++ endLine (before ++ [c])) ++ ['\n'] = front ++ endLine (before ++ [c]) ↔
      Unicode.isWhiteSpace c = false := by
  rw [endLine_of_not_break hc, ← List.append_assoc, Text.trimEnd_line_iff]

theorem trimEnd_quoted {before : List Char} {c : Char} (hc : c = '\'' ∨ c = '"') :
    Text.trimEnd (front ++ endLine (before ++ [c])) ++ ['\n'] = front ++ endLine (before ++ [c]) := by
  refine (trimEnd_endLine_iff ?_).mpr ?_
  · rcases hc with rfl | rfl <;> rfl
  · rcases hc with rfl | rfl <;> exact Number.isWhiteSpace_of_ascii (by decide) (by decide)

/-- A text that does not end in the end of a line keeps its end just if it ends in no white space. -/
theorem keeps_concat_iff {before : List Char} {c : Char} (hc : isBreak c = false) :
    (∃ front d, Unicode.isWhiteSpace d = false ∧
        (before ++ [c] = front ++ [d] ∨ before ++ [c] = front ++ [d, '\n'])) ↔
      Unicode.isWhiteSpace c = false := by
  constructor
  · rintro ⟨front, d, hd, h | h⟩
    · obtain ⟨-, h⟩ := List.append_inj' h rfl
      cases h
      exact hd
    · rw [show front ++ [d, '\n'] = front ++ [d] ++ ['\n'] by simp] at h
      obtain ⟨-, h⟩ := List.append_inj' h rfl
      cases h
      cases hc
  · exact fun h => ⟨before, c, h, .inl rfl⟩

/-- A text with a character behind it is kept just when the text ends in no white space and the
character is a line feed. -/
theorem trimEnd_break_iff {cs : List Char} {c d : Char} :
    Text.trimEnd (cs ++ [d]) ++ ['\n'] = cs ++ [d] ++ [c] ↔
      Unicode.isWhiteSpace d = false ∧ c = '\n' := by
  constructor
  · intro h
    obtain ⟨hself, hc⟩ := List.append_inj' h rfl
    exact ⟨Text.trimEnd_concat_eq_self_iff.mp hself, (List.singleton_inj.mp hc).symm⟩
  · rintro ⟨hd, rfl⟩
    rw [Text.trimEnd_concat_eq_self_iff.mpr hd]

/-- A text that ends in the end of a line keeps its end just if that is a line feed behind another
character. -/
theorem keeps_break_iff {before : List Char} {c : Char} (hc : isBreak c = true) :
    (∃ front d, Unicode.isWhiteSpace d = false ∧
        (before ++ [c] = front ++ [d] ∨ before ++ [c] = front ++ [d, '\n'])) ↔
      ∃ front d, before = front ++ [d] ∧ Unicode.isWhiteSpace d = false ∧ c = '\n' := by
  constructor
  · rintro ⟨front, d, hd, h | h⟩
    · obtain ⟨-, h⟩ := List.append_inj' h rfl
      cases h
      rw [isWhiteSpace_of_isBreak hc] at hd
      cases hd
    · rw [show front ++ [d, '\n'] = front ++ [d] ++ ['\n'] by simp] at h
      obtain ⟨hbefore, hlast⟩ := List.append_inj' h rfl
      exact ⟨front, d, hbefore, hd, List.singleton_inj.mp hlast⟩
  · rintro ⟨front, d, rfl, hd, rfl⟩
    exact ⟨front, d, hd, .inr (by simp)⟩

/-- Behind the lines of a text, the end of a line is kept just if it is a line feed behind another
character. -/
theorem trimEnd_indentLines_iff {before : List Char} {c : Char} :
    Text.trimEnd (front ++ '\n' :: indentLines n (fun c => [c]) true before) ++ ['\n'] =
        front ++ '\n' :: indentLines n (fun c => [c]) true before ++ [c] ↔
      ∃ first d, before = first ++ [d] ∧ Unicode.isWhiteSpace d = false ∧ c = '\n' := by
  -- The last character decides; there is one in the text, or it ends the header.
  rcases List.eq_nil_or_concat' before with rfl | ⟨first, d, rfl⟩
  · rw [indentLines, trimEnd_break_iff]
    constructor
    · rintro ⟨hwhite, -⟩
      rw [isWhiteSpace_lineFeed] at hwhite
      cases hwhite
    · rintro ⟨first, d, h, -⟩
      exact absurd h (by simp)
  · obtain ⟨count, hinner, -⟩ := indentLines_concat n true first d
    rw [hinner, ← List.append_assoc, ← List.cons_append, ← List.append_assoc, trimEnd_break_iff]
    constructor
    · rintro ⟨hd, hc⟩
      exact ⟨first, d, rfl, hd, hc⟩
    · rintro ⟨other, e, h, he, hc⟩
      obtain ⟨-, hde⟩ := List.append_inj' h rfl
      rw [List.singleton_inj.mp hde]
      exact ⟨he, hc⟩

/-- The lines of a literal scalar end as the text does. -/
theorem trimEnd_lines_iff {before : List Char} {c : Char} :
    Text.trimEnd (front ++ endLine ('\n' :: indentLines n (fun c => [c]) true (before ++ [c]))) ++
        ['\n'] = front ++ endLine ('\n' :: indentLines n (fun c => [c]) true (before ++ [c])) ↔
      ∃ front d, Unicode.isWhiteSpace d = false ∧
        (before ++ [c] = front ++ [d] ∨ before ++ [c] = front ++ [d, '\n']) := by
  obtain ⟨count, hlines, hcount⟩ := indentLines_concat n true before c
  rw [hlines]
  cases hc : isBreak c with
  | false =>
    rw [← List.append_assoc, ← List.cons_append, trimEnd_endLine_iff hc, keeps_concat_iff hc]
  | true =>
    rw [hcount hc, blanks, List.replicate_zero, List.nil_append, ← List.cons_append,
      endLine_of_break hc, ← List.append_assoc,
      Text.trimEnd_concat_of_white (isWhiteSpace_of_isBreak hc), trimEnd_indentLines_iff,
      keeps_break_iff hc]

/-- Behind the colon of its key, a text is left as it is by trimming just if its end is kept. -/
theorem trimEnd_string_iff :
    Text.trimEnd (front ++ endLine (string n text)) ++ ['\n'] =
      front ++ endLine (string n text) ↔ Style.KeepsEnd text := by
  unfold string Style.KeepsEnd
  have hsuits := Style.suits_ofText text
  generalize Style.ofText text = style at hsuits
  cases hsuits with
  | singleQuoted =>
    obtain ⟨before, h⟩ : ∃ before, singleQuoted n text.toList = before ++ ['\''] :=
      ⟨'\'' :: _, rfl⟩
    dsimp only
    rw [h]
    exact iff_of_true (trimEnd_quoted (.inl rfl)) trivial
  | doubleQuoted =>
    obtain ⟨before, h⟩ : ∃ before, doubleQuoted text.toList = before ++ ['"'] := ⟨'"' :: _, rfl⟩
    dsimp only
    rw [h]
    exact iff_of_true (trimEnd_quoted (.inr rfl)) trivial
  | plain _ _ _ allowed =>
    obtain ⟨before, c, htext, hc⟩ := Style.allowsPlain_concat allowed
    dsimp only
    rw [htext, trimEnd_endLine_iff hc, keeps_concat_iff hc]
  | literal lines allowed =>
    have hne : text.toList ≠ [] := by
      intro hnil
      rw [hnil] at lines
      cases lines
    dsimp only
    unfold literal
    rw [← List.cons_append, endLine_append (List.cons_ne_nil _ _), ← List.append_assoc,
      ← List.dropLast_append_getLast hne]
    exact trimEnd_lines_iff

/-! ## 4. What is left of a plain scalar -/

namespace Style

variable {white body rest : List Char} {c : Char}

/-- A text begins as its beginning does, unless this is an indicator alone. -/
theorem StartsPlain.of_append (h : StartsPlain c (rest ++ white))
    (hword : c = '-' ∨ c = '?' ∨ c = ':' → rest ≠ []) : StartsPlain c rest := by
  have hmark {mark : List Char} (hmark : mark.isPrefixOf (c :: (rest ++ white)) = false) :
      mark.isPrefixOf (c :: rest) = false := by
    rw [← Bool.not_eq_true] at hmark ⊢
    intro hbegins
    rw [List.isPrefixOf_iff_prefix] at hmark hbegins
    exact hmark (hbegins.trans (List.prefix_append (c :: rest) white))
  refine ⟨h.unspaced, h.unlisted, fun hc => ?_, hmark h.unmarked.1, hmark h.unmarked.2⟩
  obtain ⟨d, more, rfl⟩ := List.exists_cons_of_ne_nil (hword hc)
  exact h.word hc

/-- Only a colon may end a word at the end of a text and not within. -/
theorem hasIndicator_of_append (h : hasIndicator (body ++ white) = false)
    (hcolon : body.getLast? ≠ some ':') : hasIndicator body = false := by
  induction body with
  | nil => rfl
  | cons c body ih =>
    rw [List.cons_append] at h
    unfold hasIndicator at h ⊢
    rw [Bool.or_eq_false_iff] at h
    cases body with
    | nil =>
      have hc : c ≠ ':' := fun h => hcolon (by rw [h]; rfl)
      simp [hc, hasIndicator]
    | cons d more =>
      rw [List.getLast?_cons_cons] at hcolon
      rw [ih h.2 hcolon, Bool.or_false]
      exact h.1

theorem hasNeighbours_of_hasIndicator (h : hasIndicator (body ++ white) = false) :
    hasNeighbours (fun a b => a == ' ' && b == '#') body = false := by
  induction body with
  | nil => rfl
  | cons c body ih =>
    rw [List.cons_append] at h
    unfold hasIndicator at h
    rw [Bool.or_eq_false_iff] at h
    cases body with
    | nil => rfl
    | cons d more =>
      obtain ⟨hhere, hmore⟩ := h
      have hcomment := (Bool.or_eq_false_iff.mp hhere).2
      unfold hasNeighbours
      rw [ih hmore, Bool.or_false, Bool.and_eq_false_imp, beq_iff_eq]
      rintro rfl
      exact hcomment

end Style

namespace Listing

variable {body white rest : List Char} {c : Char}

theorem endsAs_nothing : EndsAs ['\n'] (.ok (.plain, "")) := by
  intro b place _ _ hrest
  have hready : Layout.Ready (b.layout place false) [] b :=
    Layout.ready_below Layout.lines_nil hrest
  exact hready.endsIn

/-- A plain text behind the colon is read back. -/
theorem endsAs_plain (h : Style.PlainText body) :
    EndsAs (' ' :: (body ++ ['\n'])) (.ok (.plain, String.ofList body)) := by
  intro b place hmargin hcolumn hrest
  have hlexeme : Lexeme 5 (String.ofList body) .plain (String.ofList body).toList :=
    .plain (by rwa [String.toList_ofList])
  have hend : endLine body = body ++ ['\n'] := by
    obtain ⟨c, rest, rfl, -⟩ := h.starts
    have hlast := List.getLast?_eq_some_getLast (List.cons_ne_nil c rest)
    exact Layout.endLine_of_concat ⟨_, (List.dropLast_append_getLast _).symm⟩ (h.last _ hlast).2
  have hline : place.rest = ' ' :: (endLine (String.ofList body).toList ++ []) := by
    rw [String.toList_ofList, hend, List.append_nil, hrest]
  obtain ⟨t, hleads, ht⟩ := Layout.leads_lexeme false hlexeme hmargin (hmargin.trans_le hcolumn)
    hline Layout.lines_nil (by omega)
  rw [← Layout.tokens_lexeme hlexeme true] at ht
  exact hleads.endsIn ht.endsIn

/-- An indicator behind the key of a line is misplaced. -/
theorem endsAs_indicator (hc : c = '-' ∨ c = '?' ∨ c = ':') :
    EndsAs [' ', c, '\n'] (.error .misplacedIndicator) := by
  intro b place hmargin hcolumn hrest
  have hbegins : Begins (place.column + 1) [c, '\n'] := by
    obtain rfl | rfl | rfl := hc <;> exact .token rfl rfl (by decide) (by decide)
  exact Layout.endsIn_fault (Layout.pause_behind false hrest hbegins (by omega)) rfl
    (Layout.fetch_misplaced hc rfl)

/-- So is a colon that ends a word on the line of a key. -/
theorem endsAs_colon (hstarts : Style.StartsPlain c (rest ++ [':']))
    (hunbroken : ∀ d ∈ c :: rest, d ≠ '\t' ∧ isBreak d = false)
    (hcomment : Style.hasNeighbours (fun a b => a == ' ' && b == '#') (c :: rest) = false) :
    EndsAs (' ' :: (c :: (rest ++ [':']) ++ ['\n'])) (.error .misplacedIndicator) := by
  intro b place hmargin hcolumn hrest
  have hpause := Layout.pause_behind (b := b) false hrest (hstarts.begins _ _) (by omega)
  obtain ⟨front, words, back, hread, hwords, hback⟩ := Scalar.readPlain_stops hunbroken hcomment
    (fun h : ([] : List Char) ≠ [] => absurd rfl h) (by omega : b.margin ≤ place.column + 1 + 1)
    (rfl : endsWord ['\n'] = true)
  have hline : c :: (rest ++ [':']) ++ ['\n'] = c :: rest ++ ':' :: ['\n'] := by simp
  rw [← hline] at hread hwords
  generalize hplace : place.along 1 (c :: (rest ++ [':']) ++ ['\n']) = start at hpause
  have hstart : start.rest = c :: (rest ++ [':']) ++ ['\n'] := by rw [← hplace]; rfl
  have hfetch := Layout.fetch_plain (b := b) false (hstarts.beginsPlain ⟨by simp, by simp⟩)
    hstart (by rw [← hplace]; exact hread)
  have hseek : (start.seek (':' :: back)).rest = ':' :: back :=
    Cursor.seek_rest (hstart.trans hwords)
  refine (Layout.leads_token hpause hstart hfetch ?_).endsIn ?_
  · show (start.seek (':' :: back)).rest.length < place.rest.length
    rw [hseek, hrest, hwords]
    simp only [List.length_cons, List.length_append]
    omega
  · have hbegins : Begins ((start.seek (':' :: back)).column + 0) (':' :: back) :=
      .token rfl rfl (by decide) (by decide)
    exact Layout.endsIn_fault (Layout.pause_blanks
      (s := (b.append [.scalar .plain (String.ofList front)]).layout (start.seek (':' :: back)) false)
      0 hseek hbegins rfl (fun _ h => by cases h)) rfl (Layout.fetch_misplaced (.inr (.inr rfl)) hback)

/-- What is left of a plain scalar is faulty, or read as what is left. -/
theorem exists_endsAs_plain (h : Style.PlainText (body ++ white)) (hne : body ≠ [])
    (hlast : ∀ c ∈ body.getLast?, Unicode.isWhiteSpace c = false) :
    ∃ r, EndsAs (' ' :: (body ++ ['\n'])) r ∧
      ∀ style text, r = .ok (style, text) → text = String.ofList body := by
  obtain ⟨c, more, htext, hstarts⟩ := h.starts
  obtain ⟨d, rest, rfl⟩ := List.exists_cons_of_ne_nil hne
  obtain ⟨rfl, rfl⟩ := List.cons.inj htext
  by_cases hword : (d = '-' ∨ d = '?' ∨ d = ':') ∧ rest = []
  · obtain ⟨hd, rfl⟩ := hword
    exact ⟨_, endsAs_indicator hd, nofun⟩
  · have hstarts := hstarts.of_append fun hd hnil => hword ⟨hd, hnil⟩
    by_cases hcolon : (d :: rest).getLast? = some ':'
    · have hrest : rest ≠ [] := by
        rintro rfl
        exact hword ⟨.inr (.inr (Option.some.inj hcolon)), rfl⟩
      obtain ⟨before, e, rfl⟩ := (List.eq_nil_or_concat' rest).resolve_left hrest
      rw [← List.cons_append, List.getLast?_concat, Option.some.injEq] at hcolon
      subst hcolon
      have hruns := h.runs
      have hmiddle : d :: (before ++ [':']) ++ white = d :: before ++ ':' :: white := by simp
      rw [hmiddle] at hruns
      exact ⟨_, endsAs_colon hstarts (List.forall_mem_append.mp hruns.unbroken).1
        (Style.hasNeighbours_of_hasIndicator hruns.unmarked), nofun⟩
    · have hsuits : Style.PlainText (d :: rest) := by
        refine ⟨(prints_append.mp h.prints).1, ⟨(List.forall_mem_append.mp h.runs.unbroken).1,
          Style.hasIndicator_of_append h.runs.unmarked hcolon⟩,
          fun e he => of_not_isWhiteSpace (hlast e he), d, rest, rfl, hstarts⟩
      refine ⟨_, endsAs_plain hsuits, ?_⟩
      rintro style text heq
      cases heq
      rfl

/-! ## 5. What is left of a literal scalar -/

open Scalar

/-- A literal scalar behind the colon is read back by its lines. -/
theorem endsAs_block {lines text : List Char}
    (hread : readBlock true 5 (lines ++ ['\n']) = .ok (text, [])) :
    EndsAs (' ' :: '|' :: (lines ++ ['\n'])) (.ok (.literal, String.ofList text)) := by
  intro b place hmargin hcolumn hrest
  have hbegins : Begins (place.column + 1) ('|' :: (lines ++ ['\n'])) :=
    .token rfl rfl (by decide) (by decide)
  have hread : readBlock true b.margin (lines ++ ['\n']) =
      .ok ((String.ofList text).toList, []) := by
    rw [hmargin, String.toList_ofList, hread]
  obtain ⟨t, hfetch, hlength, ht⟩ := Layout.fetch_block false
    (rfl : (place.along 1 ('|' :: (lines ++ ['\n']))).rest = _) hread (List.cons_append ..).symm rfl
    Layout.lines_nil
  refine (Layout.leads_token (Layout.pause_behind false hrest hbegins (by omega)) rfl hfetch
    ?_).endsIn ht.endsIn
  show t.cursor.rest.length < place.rest.length
  rw [hrest, List.length_cons, List.length_cons]
  omega

/-- A header without lines is read as nothing. -/
theorem endsAs_header (told : Bool) (chomping : Chomping) :
    EndsAs (' ' :: '|' :: (header told chomping ++ ['\n'])) (.ok (.literal, "")) := by
  have hlead : readLead (toldColumn told 5) 0 0 [] = .ok ⟨[], 0, 0, []⟩ := rfl
  have hread : readBlock true 5 (header told chomping ++ ['\n']) = .ok ([], []) := by
    rw [readBlock_header told (by decide) hlead]
    cases chomping <;> rfl
  exact endsAs_block hread

/-- Behind the last line that is left there is one line feed, or none. -/
theorem endsAs_indented {told : Bool} (chomping : Chomping) (hne : body ≠ [])
    (hlast : ∀ c ∈ body.getLast?, isBreak c = false)
    (htold : told = false → ∀ c ∈ body.head?, isBlank c = false ∧ isBreak c = false) :
    EndsAs (' ' :: '|' :: (header told chomping ++ '\n' :: indented 6 true body ++ ['\n']))
      (.ok (.literal, String.ofList (body ++ chomping.tail (some '\n') []))) := by
  have hread : readBlock true 5 (header told chomping ++
      '\n' :: (indented 6 true body ++ '\n' :: ([] ++ (blanks 0 ++ [])))) =
        .ok (body ++ chomping.tail (some '\n') [], []) :=
    readBlock_indented told (by decide) hne hlast htold rfl nofun .nothing (Nat.zero_le 5)
  apply endsAs_block
  rw [List.append_assoc]
  exact hread

end Listing

/-! ## 6. What is left of a text -/

open Scalar

/-- The end of a line adds nothing but white space. -/
theorem exists_white_endLine (text : List Char) :
    ∃ white, endLine text = text ++ white ∧ ∀ c ∈ white, Unicode.isWhiteSpace c = true := by
  unfold endLine
  split
  · exact ⟨[], (List.append_nil text).symm, nofun⟩
  · exact ⟨['\n'], rfl, List.forall_mem_singleton.mpr isWhiteSpace_lineFeed⟩

/-- Indentation turns white space at the end into white space. -/
theorem exists_white_indented (body : List Char) {white : List Char}
    (hwhite : ∀ c ∈ white, Unicode.isWhiteSpace c = true) (indent : Nat) (fresh : Bool) :
    ∃ gap, indented indent fresh (body ++ white) = indented indent fresh body ++ gap ∧
      ∀ c ∈ gap, Unicode.isWhiteSpace c = true := by
  induction white using List.reverseRecOn with
  | nil => exact ⟨[], by rw [List.append_nil, List.append_nil], nofun⟩
  | append_singleton white c ih =>
    obtain ⟨hwhite, hc⟩ := List.forall_mem_append.mp hwhite
    obtain ⟨gap, hlines, hgap⟩ := ih hwhite
    obtain ⟨count, hlast, -⟩ := indentLines_concat indent fresh (body ++ white) c
    refine ⟨gap ++ (blanks count ++ [c]), ?_, List.forall_mem_append.mpr ⟨hgap,
      List.forall_mem_append.mpr ⟨fun d hd => ?_, hc⟩⟩⟩
    · rw [← List.append_assoc, ← List.append_assoc, ← hlines, ← hlast]
    · rw [List.eq_of_mem_replicate hd]
      exact isWhiteSpace_blank

theorem exists_tail_plain {text : String} (allowed : Style.allowsPlain text.toList = true)
    (hlost : ¬ ∃ front c, Unicode.isWhiteSpace c = false ∧
      (text.toList = front ++ [c] ∨ text.toList = front ++ [c, '\n'])) :
    ∃ tail r, endsWord tail = true ∧ Listing.EndsAs tail r ∧ (∀ style, r ≠ .ok (style, text)) ∧
      ∀ front, Text.trimEnd (front ++ ':' :: ' ' :: endLine text.toList) ++ ['\n'] =
        front ++ ':' :: tail := by
  have hsuits := Style.plainText_of_allowsPlain allowed
  obtain ⟨before, d, hlast, hd⟩ := Style.allowsPlain_concat allowed
  obtain ⟨body, white, htext, hbody, hwhite⟩ := exists_ends Unicode.isWhiteSpace text.toList
  have hend : endLine text.toList = body ++ (white ++ ['\n']) := by
    rw [hlast, endLine_of_not_break hd, ← List.append_assoc, ← htext, hlast, List.append_assoc]
    rfl
  have hwhite' : ∀ c ∈ white ++ ['\n'], Unicode.isWhiteSpace c = true :=
    List.forall_mem_append.mpr ⟨hwhite, List.forall_mem_singleton.mpr isWhiteSpace_lineFeed⟩
  rw [hend]
  rcases List.eq_nil_or_concat' body with rfl | ⟨first, c, rfl⟩
  · refine ⟨['\n'], _, rfl, Listing.endsAs_nothing, ?_, fun front => ?_⟩
    · rintro style heq
      cases heq
      exact absurd hlast (by simp)
    · have hcolon : Unicode.isWhiteSpace ':' = false :=
        Number.isWhiteSpace_of_ascii (by decide) (by decide)
      rw [List.nil_append, Text.trimEnd_append hcolon (List.forall_mem_cons.mpr
        ⟨isWhiteSpace_blank, hwhite'⟩), List.append_assoc]
      rfl
  · have hc : Unicode.isWhiteSpace c = false := hbody c (List.getLast?_concat ..)
    rw [htext] at hsuits
    obtain ⟨r, hends, hr⟩ := Listing.exists_endsAs_plain hsuits (by simp) hbody
    refine ⟨_, r, rfl, hends, fun style heq => hlost ⟨first, c, hc, .inl ?_⟩, fun front => ?_⟩
    · rw [hr style text heq, String.toList_ofList]
    · have hsplit : front ++ ':' :: ' ' :: (first ++ [c] ++ (white ++ ['\n'])) =
          front ++ ':' :: ' ' :: first ++ c :: (white ++ ['\n']) := by simp
      rw [hsplit, Text.trimEnd_append hc hwhite']
      simp

/-- The header of a literal scalar ends in no white space. -/
theorem exists_mark (told : Bool) (chomping : Chomping) :
    ∃ before mark, Unicode.isWhiteSpace mark = false ∧
      ∀ rest, '|' :: (header told chomping ++ rest) = before ++ mark :: rest := by
  obtain ⟨before, mark, hmark⟩ :=
    (List.eq_nil_or_concat' ('|' :: header told chomping)).resolve_left (List.cons_ne_nil _ _)
  refine ⟨before, mark, ?_, fun rest => ?_⟩
  · have hlast := congrArg List.getLast? hmark
    rw [List.getLast?_concat] at hlast
    cases told <;> cases chomping <;> cases hlast <;>
      exact Number.isWhiteSpace_of_ascii (by decide) (by decide)
  · rw [← List.cons_append, hmark, List.append_assoc]
    rfl

theorem exists_tail_literal {text : String} (prints : ∀ c ∈ text.toList, Style.isPrintable c = true)
    (hne : text.toList ≠ []) (hlost : ¬ ∃ front c, Unicode.isWhiteSpace c = false ∧
      (text.toList = front ++ [c] ∨ text.toList = front ++ [c, '\n'])) :
    ∃ tail r, endsWord tail = true ∧ Listing.EndsAs tail r ∧ (∀ style, r ≠ .ok (style, text)) ∧
      ∀ front, Text.trimEnd (front ++ ':' :: ' ' :: endLine (literal 6 text.toList)) ++ ['\n'] =
        front ++ ':' :: tail := by
  obtain ⟨body, white, htext, hbody, hwhite⟩ := exists_ends Unicode.isWhiteSpace text.toList
  obtain ⟨chomping, hhints⟩ := exists_literalHints text.toList
  obtain ⟨gap, hlines, hgap⟩ := exists_white_indented body hwhite 6 true
  have hliteral : literal 6 text.toList = '|' :: (header (tells text.toList) chomping ++
      '\n' :: (indented 6 true body ++ gap)) := by
    rw [← hlines, ← htext, ← hhints]
    rfl
  -- Only the white space at the end is lost, the header stays.
  generalize htells : tells text.toList = told at hliteral
  obtain ⟨ended, hend, hended⟩ := exists_white_endLine (literal 6 text.toList)
  have hwhite : ∀ c ∈ gap ++ ended, Unicode.isWhiteSpace c = true :=
    List.forall_mem_append.mpr ⟨hgap, hended⟩
  rw [hend, hliteral]
  rcases List.eq_nil_or_concat' body with rfl | ⟨first, c, rfl⟩
  · refine ⟨_, _, rfl, Listing.endsAs_header told chomping, ?_, fun front => ?_⟩
    · rintro style heq
      cases heq
      exact absurd rfl hne
    · -- The header is left.
      obtain ⟨before, mark, hmark, hbar⟩ := exists_mark told chomping
      have hfeed : ∀ c ∈ '\n' :: (gap ++ ended), Unicode.isWhiteSpace c = true :=
        List.forall_mem_cons.mpr ⟨isWhiteSpace_lineFeed, hwhite⟩
      have hsplit : front ++ ':' :: ' ' :: ('|' :: (header told chomping ++
          '\n' :: (indented 6 true [] ++ gap)) ++ ended) =
          front ++ ':' :: ' ' :: before ++ mark :: '\n' :: (gap ++ ended) := by
        rw [hbar]
        simp [indented, indentLines]
      rw [hsplit, Text.trimEnd_append hmark hfeed, hbar]
      simp
  · have hc : Unicode.isWhiteSpace c = false := hbody c (List.getLast?_concat ..)
    -- Without a told indentation the first line must begin with a character that shows.
    have hhead : told = false →
        ∀ d ∈ (first ++ [c]).head?, isBlank d = false ∧ isBreak d = false := by
      intro htold d hd
      apply tells_eq_false (not_mem_tab prints) (htells.trans htold) d
      rw [htext, List.head?_append, Option.mem_def.mp hd]
      rfl
    refine ⟨_, _, rfl, Listing.endsAs_indented chomping (by simp)
      (fun d hd => (of_not_isWhiteSpace (hbody d hd)).2) hhead, fun style heq => ?_, fun front => ?_⟩
    · cases heq
      refine hlost ⟨first, c, hc, ?_⟩
      rw [String.toList_ofList]
      cases chomping with
      | strip => exact .inl (List.append_nil _)
      | clip | keep => exact .inr (List.append_assoc ..)
    · -- The last line is left.
      obtain ⟨count, hlast, -⟩ := indentLines_concat 6 true first c
      change indented 6 true (first ++ [c]) = indented 6 true first ++ _ at hlast
      have hsplit : front ++ ':' :: ' ' :: ('|' :: (header told chomping ++
          '\n' :: (indented 6 true (first ++ [c]) ++ gap)) ++ ended) =
          front ++ ':' :: ' ' :: '|' :: (header told chomping ++ '\n' ::
            (indented 6 true first ++ blanks count)) ++ c :: (gap ++ ended) := by
        rw [hlast]
        simp
      rw [hsplit, Text.trimEnd_append hc hwhite, hlast]
      simp

/-- Of a text that does not keep its end something else is left behind its key. -/
theorem exists_tail {text : String} (h : ¬ Style.KeepsEnd text) :
    ∃ tail r, endsWord tail = true ∧ Listing.EndsAs tail r ∧ (∀ style, r ≠ .ok (style, text)) ∧
      ∀ front, Text.trimEnd (front ++ ':' :: ' ' :: endLine (string 6 text)) ++ ['\n'] =
        front ++ ':' :: tail := by
  unfold string
  unfold Style.KeepsEnd at h
  have hsuits := Style.suits_ofText text
  generalize Style.ofText text = style at h hsuits
  cases hsuits with
  | singleQuoted | doubleQuoted => exact absurd trivial h
  | plain _ _ _ allowed => exact exists_tail_plain allowed h
  | literal lines allowed =>
    apply exists_tail_literal (isPrintable_of_allowsLiteral allowed) _ h
    intro hnil
    rw [hnil] at lines
    cases lines

end Yaml

end Conform
