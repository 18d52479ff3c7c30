import Mathlib.Data.List.DropRight
import Mathlib.Data.List.TakeWhile
import Conform.Proofs.Scalars

/-!
# Literal scalars — texts that are read back from lines of their own

The lines of a literal scalar are indented, and its header tells what becomes of the ends of lines
at its end.  A text is read back from its lines (`Scalar.readBlock_literal`); lines without the ends
of lines that the header speaks of are read as another text (`Scalar.readBlock_indented`).
-/

namespace Conform.Yaml

namespace Writer

variable {text : List Char} {c : Char}

/-! ## 1. The end of a line -/

theorem endLine_of_break (h : isBreak c = true) : endLine (text ++ [c]) = text ++ [c] := by
  unfold endLine
  rw [List.getLast?_concat, Option.map_some, Option.getD_some, if_pos h]

theorem endLine_of_not_break (h : isBreak c = false) :
    endLine (text ++ [c]) = text ++ [c, '\n'] := by
  unfold endLine
  rw [List.getLast?_concat, Option.map_some, Option.getD_some, h, if_neg Bool.false_ne_true,
    List.append_assoc]
  rfl

theorem endLine_append {more : List Char} (h : more ≠ []) :
    endLine (text ++ more) = text ++ endLine more := by
  unfold endLine
  rw [List.getLast?_append_of_ne_nil _ h]
  split
  · rfl
  · rw [List.append_assoc]

/-- Indentation goes in front of a character, and not in front of the end of a line. -/
theorem indentLines_concat (indent : Nat) (fresh : Bool) (text : List Char) (c : Char) :
    ∃ count, indentLines indent (fun c => [c]) fresh (text ++ [c]) =
        indentLines indent (fun c => [c]) fresh text ++ (blanks count ++ [c]) ∧
      (isBreak c = true → count = 0) := by
  induction text generalizing fresh with
  | nil =>
    rw [List.nil_append, indentLines, indentLines]
    split
    · exact ⟨0, rfl, fun _ => rfl⟩
    · rename_i hc
      cases fresh with
      | true => exact ⟨indent, by simp [indentLines], fun h => absurd h hc⟩
      | false => exact ⟨0, rfl, fun _ => rfl⟩
  | cons d rest ih =>
    rw [List.cons_append, indentLines, indentLines]
    split
    · obtain ⟨count, h, hcount⟩ := ih true
      exact ⟨count, by rw [h]; simp, hcount⟩
    · obtain ⟨count, h, hcount⟩ := ih false
      exact ⟨count, by rw [h]; simp, hcount⟩

end Writer

namespace Scalar

open Writer

variable {text rest after breaks words : List Char} {indent column line fuel deepest margin : Nat}
  {c d : Char} {chomping : Chomping}

/-! ## 2. Indented lines -/

abbrev indented (indent : Nat) (fresh : Bool) (text : List Char) : List Char :=
  indentLines indent (fun c => [c]) fresh text

theorem indented_breaks (hbreaks : ∀ c ∈ breaks, isBreak c = true) :
    indented indent true (breaks ++ text) = breaks ++ indented indent true text := by
  induction breaks with
  | nil => rfl
  | cons c breaks ih =>
    obtain ⟨hc, hbreaks⟩ := List.forall_mem_cons.mp hbreaks
    rw [List.cons_append, indented, indentLines, if_pos hc]
    exact congrArg (List.cons c) (ih hbreaks)

/-- Within a line nothing is indented. -/
theorem indented_words (hwords : ∀ c ∈ words, isBreak c = false) :
    indented indent false (words ++ text) = words ++ indented indent false text := by
  induction words with
  | nil => rfl
  | cons c words ih =>
    obtain ⟨hc, hwords⟩ := List.forall_mem_cons.mp hwords
    rw [List.cons_append, indented, indentLines, if_neg (by simp [hc])]
    exact congrArg (List.cons c) (ih hwords)

/-- A line that is not empty is indented. -/
theorem indented_char (hc : isBreak c = false) :
    indented indent true (c :: text) = blanks indent ++ c :: indented indent false text := by
  rw [indented, indentLines, if_neg (by simp [hc])]
  simp

theorem length_indented (indent : Nat) (fresh : Bool) (text : List Char) :
    text.length ≤ (indented indent fresh text).length := by
  induction text generalizing fresh with
  | nil => exact Nat.le_refl _
  | cons c text ih =>
    rw [indented, indentLines]
    split
    · exact Nat.succ_le_succ (ih true)
    · have hrest : text.length ≤ (indentLines indent (fun c => [c]) false text).length := ih false
      rw [List.length_append, List.length_append, List.length_cons, List.length_singleton]
      omega

/-- A text that does not end in the end of a line: ends of lines, a line, and what follows it. -/
theorem exists_line (hne : text ≠ []) (hlast : ∀ c ∈ text.getLast?, isBreak c = false) :
    ∃ breaks c words back, text = breaks ++ c :: (words ++ back) ∧
      (∀ c ∈ breaks, isBreak c = true) ∧ isBreak c = false ∧ (∀ c ∈ words, isBreak c = false) ∧
      (back = [] ∨ ∃ d rest, back = d :: rest ∧ isBreak d = true ∧ rest ≠ [] ∧
        ∀ c ∈ rest.getLast?, isBreak c = false) := by
  have hsplit := List.takeWhile_append_dropWhile (p := isBreak) (l := text)
  cases hrest : text.dropWhile isBreak with
  | nil =>
    rw [hrest, List.append_nil] at hsplit
    -- A text of line ends only would end in one.
    have hend := List.takeWhile_eq_self_iff.mp hsplit _ (List.getLast_mem hne)
    rw [hlast _ (List.getLast?_eq_some_getLast hne)] at hend
    cases hend
  | cons c rest =>
    have hc : isBreak c = false := by
      have hhead := List.head_dropWhile_not isBreak (l := text) (by rw [hrest]; simp)
      simpa [hrest] using hhead
    refine ⟨text.takeWhile isBreak, c, rest.takeWhile (!isBreak ·), rest.dropWhile (!isBreak ·), ?_,
      fun c => List.mem_takeWhile_imp, hc, fun c hc => by simpa using List.mem_takeWhile_imp hc, ?_⟩
    · rw [List.takeWhile_append_dropWhile, ← hrest, hsplit]
    · cases hback : rest.dropWhile (!isBreak ·) with
      | nil => exact .inl rfl
      | cons d back =>
        have hd : isBreak d = true := by
          have hhead := List.head_dropWhile_not (!isBreak ·) (l := rest) (by rw [hback]; simp)
          simpa [hback] using hhead
        have hlast' : text.getLast? = (d :: back).getLast? := by
          rw [← hsplit, hrest,
            ← List.takeWhile_append_dropWhile (p := (!isBreak ·)) (l := rest), hback]
          simp [List.getLast?_append, List.getLast?_cons]
        refine .inr ⟨d, back, rfl, hd, ?_, ?_⟩
        · rintro rfl
          rw [hlast d (by rw [hlast']; rfl)] at hd
          cases hd
        · intro e he
          apply hlast
          rw [hlast']
          cases back with
          | nil => cases he
          | cons f back => rwa [List.getLast?_cons_cons]

/-! ## 3. Before a line -/

/-- Empty lines are collected before a line. -/
theorem readLead_breaks (hbreaks : ∀ c ∈ breaks, isBreak c = true) :
    readLead indent 0 deepest (breaks ++ rest) = (readLead indent 0 deepest rest).map fun lead =>
      { lead with breaks := breaks ++ lead.breaks } := by
  induction breaks with
  | nil =>
    rw [List.nil_append]
    cases readLead indent 0 deepest rest <;> rfl
  | cons c breaks ih =>
    obtain ⟨hc, hbreaks⟩ := List.forall_mem_cons.mp hbreaks
    obtain ⟨hspace, htab⟩ := ne_blank_of_isBreak hc
    rw [List.cons_append, readLead, beq_eq_false_iff_ne.mpr hspace, beq_eq_false_iff_ne.mpr htab, hc,
      Nat.max_zero, ih hbreaks]
    simp only [Bool.and_false, Bool.false_eq_true, if_false, if_true]
    cases readLead indent 0 deepest rest <;> rfl

theorem readLead_blanks (count : Nat) (h : indent = 0 ∨ column + count ≤ indent) :
    readLead indent column deepest (blanks count ++ rest) =
      readLead indent (column + count) deepest rest := by
  induction count generalizing column with
  | zero => rfl
  | succ count ih =>
    have hwithin : (indent == 0 || decide (column < indent)) = true := by
      rw [Bool.or_eq_true, beq_iff_eq, decide_eq_true_eq]
      omega
    show readLead indent column deepest (' ' :: (blanks count ++ rest)) = _
    rw [readLead, hwithin]
    show readLead indent (column + 1) deepest (blanks count ++ rest) = _
    rw [ih (by omega), Nat.add_assoc, Nat.add_comm 1]

/-- A line may begin with a blank only where the indentation is known. -/
theorem readLead_char (hbreak : isBreak c = false)
    (h : column = indent ∧ indent ≠ 0 ∨ isBlank c = false) :
    readLead indent column deepest (c :: rest) =
      .ok ⟨[], column, max deepest column, c :: rest⟩ := by
  have hstops (d : Char) (hd : isBlank d = true) :
      ((indent == 0 || decide (column < indent)) && c == d) = false := by
    rw [Bool.and_eq_false_imp, Bool.or_eq_true, beq_iff_eq, decide_eq_true_eq]
    intro hwithin
    rw [beq_eq_false_iff_ne]
    rintro rfl
    rcases h with h | h
    · omega
    · rw [hd] at h
      cases h
  rw [readLead, hbreak, hstops ' ' rfl, hstops '\t' rfl]
  rfl

/-- A line that begins too early is reached with its own indentation. -/
theorem readLead_line (hbegins : Begins line after) (hline : line < indent) :
    readLead indent 0 deepest (blanks line ++ after) = .ok ⟨[], line, max deepest line, after⟩ := by
  rw [readLead_blanks _ (by omega), Nat.zero_add]
  cases hbegins with
  | nothing => rfl
  | token unspaced unbroken => exact readLead_char unbroken (.inr unspaced)

/-! ## 4. Line after line -/

section Lines

variable {ended : Option Char} {wasBlank : Bool}

/-- A line is taken as it is, up to its end. -/
theorem readLines_words (hc : isBreak c = false) (hwords : ∀ c ∈ words, isBreak c = false)
    (hd : isBreak d = true) {next : Lead} (hnext : readLead indent 0 0 rest = .ok next) :
    readLines true chomping indent (fuel + 1) ended wasBlank
        ⟨breaks, indent, deepest, c :: (words ++ d :: rest)⟩ =
      prepend (ended.toList ++ breaks ++ c :: words)
        (readLines true chomping indent fuel (some d) (isBlank c) next) := by
  have htake : (c :: (words ++ d :: rest)).takeWhile (!isBreak ·) = c :: words := by
    rw [List.takeWhile_cons_of_pos (by simp [hc]),
      List.takeWhile_append_of_pos (by simpa using hwords),
      List.takeWhile_cons_of_neg (by simp [hd]), List.append_nil]
  have hdrop : (c :: (words ++ d :: rest)).dropWhile (!isBreak ·) = d :: rest := by
    rw [List.dropWhile_cons_of_pos (by simp [hc]),
      List.dropWhile_append_of_pos (by simpa using hwords), List.dropWhile_cons_of_neg (by simp [hd])]
  rw [readLines]
  simp only [if_true, htake, hdrop, List.tail_cons, hnext]
  rfl

/-- At the end of the scalar its header tells what becomes of the line ends. -/
theorem readLines_end (hbegins : Begins line after) (hline : line < indent) :
    readLines true chomping indent (fuel + 1) ended wasBlank ⟨breaks, line, deepest, after⟩ =
      .ok (chomping.tail ended breaks, after) := by
  rw [readLines]
  cases hbegins with
  | nothing => rfl
  | token => exact if_neg (Nat.ne_of_lt hline)

end Lines

/-- The lines of a text that does not end in the end of a line, and the ends of lines behind it. -/
theorem readLines_indented (chomping : Chomping) (hindent : 0 < indent) (hne : text ≠ [])
    (hlast : ∀ c ∈ text.getLast?, isBreak c = false) (hd : isBreak d = true)
    (hbreaks : ∀ c ∈ breaks, isBreak c = true) (hbegins : Begins line after)
    (hline : line < indent) :
    ∃ lead, readLead indent 0 0
        (indented indent true text ++ d :: (breaks ++ (blanks line ++ after))) = .ok lead ∧
      ∀ fuel, text.length < fuel → ∀ ended wasBlank,
        readLines true chomping indent fuel ended wasBlank lead =
          .ok (ended.toList ++ text ++ chomping.tail (some d) breaks, after) := by
  -- Induction on the number of characters, a line at each step.
  induction hlength : text.length using Nat.strongRecOn generalizing text with
  | ind n ih =>
  obtain ⟨first, c, words, back, rfl, hfirst, hc, hwords, hback⟩ := exists_line hne hlast
  have hlead (rest : List Char) : readLead indent 0 0 (first ++ (blanks indent ++ c :: rest)) =
      .ok ⟨first, indent, indent, c :: rest⟩ := by
    rw [readLead_breaks hfirst, readLead_blanks indent (by omega), Nat.zero_add,
      readLead_char hc (.inl ⟨rfl, by omega⟩)]
    simp [Except.map]
  rw [indented_breaks hfirst, indented_char hc, indented_words hwords]
  simp only [List.append_assoc, List.cons_append, hlead]
  simp only [List.length_append, List.length_cons] at hlength ⊢
  refine ⟨_, rfl, fun fuel hfuel ended wasBlank => ?_⟩
  obtain ⟨fuel, rfl⟩ : ∃ m, fuel = m + 1 := ⟨fuel - 1, by omega⟩
  rcases hback with rfl | ⟨e, rest, rfl, he, hrest, hlast'⟩
  · obtain ⟨fuel, rfl⟩ : ∃ m, fuel = m + 1 := ⟨fuel - 1, by omega⟩
    have hnext : readLead indent 0 0 (breaks ++ (blanks line ++ after)) =
        .ok ⟨breaks, line, max 0 line, after⟩ := by
      rw [readLead_breaks hbreaks, readLead_line hbegins hline]
      simp [Except.map]
    show readLines true chomping indent (fuel + 1 + 1) ended wasBlank
      ⟨first, indent, _, c :: (words ++ d :: (breaks ++ (blanks line ++ after)))⟩ = _
    rw [readLines_words hc hwords hd hnext, readLines_end hbegins hline]
    simp [prepend]
  · have hlines : indented indent false (e :: rest) = e :: indented indent true rest := by
      rw [indented, indentLines, if_pos he]
    rw [List.length_cons] at hlength
    obtain ⟨next, hnext, hread⟩ := ih rest.length (by omega) hrest hlast' rfl
    rw [hlines, List.cons_append, readLines_words hc hwords he hnext, hread _ (by omega)]
    simp [prepend]

/-! ## 5. Behind the bar -/

def Chomping.mark : Chomping → List Char
  | .strip => ['-']
  | .clip => []
  | .keep => ['+']

def header (told : Bool) (chomping : Chomping) : List Char :=
  (if told then ['2'] else []) ++ chomping.mark

/-- The column that a header tells for the lines of a block at a margin, zero for none. -/
def toldColumn (told : Bool) (margin : Nat) : Nat := if told then margin + 1 else 0

/-- The header gives the column of the lines, or their first one does. -/
theorem readBlock_header (told : Bool) (hmargin : 0 < margin) {lead : Lead}
    (hlead : readLead (toldColumn told margin) 0 0 text = .ok lead) :
    readBlock true margin (header told chomping ++ '\n' :: text) =
      readLines true chomping (if told then margin + 1 else max lead.deepest margin)
        (text.length + 1) none false lead := by
  have hcolumn : (if (if told then 2 else 0) = 0 then 0 else margin - 1 + (if told then 2 else 0)) =
      toldColumn told margin := by
    cases told
    · rfl
    · show margin - 1 + 2 = margin + 1
      omega
  have hindent : (if toldColumn told margin = 0 then max lead.deepest (max margin 1)
      else toldColumn told margin) = if told then margin + 1 else max lead.deepest margin := by
    cases told
    · show max lead.deepest (max margin 1) = max lead.deepest margin
      rw [Nat.max_eq_left hmargin]
    · rfl
  have hheader : readHeader (header told chomping ++ '\n' :: text) =
      .ok (chomping, if told then 2 else 0, '\n' :: text) := by
    cases told <;> cases chomping <;> rfl
  unfold readBlock
  rw [hheader]
  show (readLead (if (if told then 2 else 0) = 0 then 0
    else margin - 1 + (if told then 2 else 0)) 0 0 text >>= _) = _
  rw [hcolumn, hlead]
  show readLines true chomping (if toldColumn told margin = 0 then max lead.deepest (max margin 1)
    else toldColumn told margin) _ none false lead = _
  rw [hindent]

/-- A text that does not end in the end of a line is read back with what becomes of the ends of
lines behind it, if the header tells the indentation where the text begins with a blank. -/
theorem readBlock_indented (told : Bool) (hmargin : 0 < margin) (hne : text ≠ [])
    (hlast : ∀ c ∈ text.getLast?, isBreak c = false)
    (htold : told = false → ∀ c ∈ text.head?, isBlank c = false ∧ isBreak c = false)
    (hd : isBreak d = true) (hbreaks : ∀ c ∈ breaks, isBreak c = true)
    (hbegins : Begins line after) (hline : line ≤ margin) :
    readBlock true margin (header told chomping ++
        '\n' :: (indented (margin + 1) true text ++ d :: (breaks ++ (blanks line ++ after)))) =
      .ok (text ++ chomping.tail (some d) breaks, after) := by
  obtain ⟨lead, hlead, hread⟩ := readLines_indented chomping (Nat.succ_pos margin) hne hlast
    hd hbreaks hbegins (Nat.lt_succ_of_le hline)
  have hlength := length_indented (margin + 1) true text
  have hfuel : text.length < (indented (margin + 1) true text ++
      d :: (breaks ++ (blanks line ++ after))).length + 1 := by
    rw [List.length_append]
    omega
  cases told with
  | true =>
    rw [readBlock_header true hmargin hlead, if_pos rfl, hread _ hfuel]
    rfl
  | false =>
    obtain ⟨c, rest, rfl⟩ := List.exists_cons_of_ne_nil hne
    obtain ⟨hblank, hbreak⟩ := htold rfl c rfl
    -- The first line is indented as the others are, so that its column can be found out.
    have hfirst (indent : Nat) (h : indent = 0 ∨ indent = margin + 1) :
        readLead indent 0 0 (indented (margin + 1) true (c :: rest) ++
            d :: (breaks ++ (blanks line ++ after))) =
          .ok ⟨[], margin + 1, margin + 1, c :: (indented (margin + 1) false rest ++
            d :: (breaks ++ (blanks line ++ after)))⟩ := by
      rw [indented_char hbreak, List.append_assoc, readLead_blanks _ (by omega), Nat.zero_add,
        List.cons_append, readLead_char hbreak (.inr hblank), Nat.zero_max]
    have heq := Except.ok.inj (hlead.symm.trans (hfirst (margin + 1) (.inr rfl)))
    have hdeepest : max lead.deepest margin = margin + 1 := by
      rw [heq]
      exact Nat.max_eq_left (Nat.le_succ margin)
    rw [readBlock_header false hmargin ((hfirst 0 (.inl rfl)).trans (congrArg Except.ok heq.symm)),
      if_neg Bool.false_ne_true, hdeepest, hread _ hfuel]
    rfl

/-! ## 6. Texts with lines -/

theorem indented_append (hbreaks : ∀ c ∈ breaks, isBreak c = true) (fresh : Bool)
    (text : List Char) :
    indented indent fresh (text ++ breaks) = indented indent fresh text ++ breaks := by
  induction text generalizing fresh with
  | nil =>
    induction breaks generalizing fresh with
    | nil => rfl
    | cons c breaks ih =>
      obtain ⟨hc, hbreaks⟩ := List.forall_mem_cons.mp hbreaks
      rw [List.nil_append, indented, indentLines, if_pos hc]
      exact congrArg (List.cons c) (ih hbreaks true)
  | cons c text ih =>
    rw [List.cons_append, indented, indented, indentLines, indentLines]
    split
    · exact congrArg (List.cons c) (ih true)
    · rw [List.append_assoc _ (indentLines _ _ _ text)]
      exact congrArg (_ ++ ·) (ih false)

/-- The characters of a class at the end of a text. -/
theorem exists_ends (p : Char → Bool) (text : List Char) : ∃ body ends, text = body ++ ends ∧
    (∀ c ∈ body.getLast?, p c = false) ∧ ∀ c ∈ ends, p c = true := by
  induction text using List.reverseRecOn with
  | nil => exact ⟨[], [], rfl, nofun, nofun⟩
  | append_singleton text c ih =>
    cases hc : p c with
    | true =>
      obtain ⟨body, ends, rfl, hbody, hends⟩ := ih
      refine ⟨body, ends ++ [c], List.append_assoc .., hbody, ?_⟩
      exact List.forall_mem_append.mpr ⟨hends, List.forall_mem_singleton.mpr hc⟩
    | false =>
      refine ⟨text ++ [c], [], (List.append_nil _).symm, ?_, fun c hc => absurd hc List.not_mem_nil⟩
      intro d hd
      rw [List.getLast?_concat] at hd
      exact Option.some.inj hd ▸ hc

def tells (text : List Char) : Bool := (text.head?.map fun c => c == ' ' || isBreak c).getD false

def chompingOf (body : List Char) : List Char → Chomping
  | [] => .strip
  | [_] => if body = [] then .keep else .clip
  | _ :: _ :: _ => .keep

/-- The header tells the ends of lines behind the text, and the indentation where it has to. -/
theorem literalHints_eq {body ends : List Char} (hbody : ∀ c ∈ body.getLast?, isBreak c = false)
    (hends : ∀ c ∈ ends, isBreak c = true) :
    literalHints (body ++ ends) = header (tells (body ++ ends)) (chompingOf body ends) := by
  have hends' : ∀ c ∈ ends.reverse, isBreak c = true := fun c hc =>
    hends c (List.mem_reverse.mp hc)
  have hhead : ∀ c ∈ body.reverse.head?, isBreak c = false := by
    rwa [List.head?_reverse]
  have hlength : ends.reverse.length = ends.length := List.length_reverse
  unfold literalHints header tells
  rw [List.reverse_append]
  apply congrArg (fun mark => (if tells (body ++ ends) then ['2'] else []) ++ mark)
  -- Only whether there are none, one or more line ends counts.
  generalize ends.reverse = later at hends' hlength
  match ends, later with
  | [], [] =>
    rw [List.nil_append]
    cases hrev : body.reverse with
    | nil => rfl
    | cons last before =>
      have hlast : isBreak last = false := hhead last (by rw [hrev]; rfl)
      simp [hlast, chompingOf, Chomping.mark]
  | [e], [b] =>
    have hb : isBreak b = true := hends' b List.mem_cons_self
    rw [List.singleton_append]
    cases hrev : body.reverse with
    | nil =>
      have hnil : body = [] := List.reverse_eq_nil_iff.mp hrev
      simp [hb, hnil, chompingOf, Chomping.mark]
    | cons last before =>
      have hlast : isBreak last = false := hhead last (by rw [hrev]; rfl)
      have hne : body ≠ [] := by
        rintro rfl
        cases hrev
      simp [hb, hlast, hne, chompingOf, Chomping.mark]
  | e :: e' :: ends, b :: b' :: later =>
    have hb : isBreak b = true := hends' b (by simp)
    have hb' : isBreak b' = true := hends' b' (by simp)
    simp [hb, hb', chompingOf, Chomping.mark]

theorem exists_literalHints (text : List Char) :
    ∃ chomping, literalHints text = header (tells text) chomping := by
  obtain ⟨body, ends, rfl, hbody, hends⟩ := exists_ends isBreak text
  exact ⟨_, literalHints_eq hbody hends⟩

/-- A text whose header tells no indentation begins with a character that shows. -/
theorem tells_eq_false (htab : '\t' ∉ text) (h : tells text = false) :
    ∀ c ∈ text.head?, isBlank c = false ∧ isBreak c = false := by
  intro c hc
  unfold tells at h
  rw [Option.mem_def.mp hc] at h
  have hne : c ≠ '\t' := fun h => htab (h ▸ List.mem_of_head? hc)
  simp only [Option.map_some, Option.getD_some, Bool.or_eq_false_iff, beq_eq_false_iff_ne] at h
  exact ⟨by simp [isBlank, h.1, hne], h.2⟩

theorem endLine_ends {lines ends : List Char} (hne : ends ≠ [])
    (hends : ∀ c ∈ ends, isBreak c = true) : endLine (lines ++ ends) = lines ++ ends := by
  rw [endLine_append hne, ← List.dropLast_append_getLast hne,
    endLine_of_break (hends _ (List.getLast_mem hne))]

/-- A text is followed by ends of lines that its header turns into those at its end. -/
theorem exists_written {body ends : List Char} (hne : body ≠ [])
    (hbody : ∀ c ∈ body.getLast?, isBreak c = false) (hends : ∀ c ∈ ends, isBreak c = true) :
    ∃ d breaks, isBreak d = true ∧ (∀ c ∈ breaks, isBreak c = true) ∧
      endLine ('\n' :: (indented indent true body ++ ends)) =
        '\n' :: (indented indent true body ++ d :: breaks) ∧
      (chompingOf body ends).tail (some d) breaks = ends := by
  match ends, hends with
  | [], _ =>
    refine ⟨'\n', [], rfl, nofun, ?_, rfl⟩
    obtain ⟨front, c, rfl⟩ := (List.eq_nil_or_concat' body).resolve_left hne
    have hc : isBreak c = false := hbody c (List.getLast?_concat ..)
    obtain ⟨count, hlines, -⟩ := indentLines_concat indent true front c
    rw [List.append_nil, indented, hlines, ← List.append_assoc, ← List.cons_append,
      endLine_of_not_break hc]
    simp
  | [d], hends =>
    refine ⟨d, [], hends d List.mem_cons_self, nofun, ?_, ?_⟩
    · rw [← List.cons_append, endLine_ends (List.cons_ne_nil _ _) hends]
    · unfold chompingOf
      rw [if_neg hne]
      rfl
  | d :: e :: breaks, hends =>
    obtain ⟨hd, hbreaks⟩ := List.forall_mem_cons.mp hends
    refine ⟨d, e :: breaks, hd, hbreaks, ?_, rfl⟩
    rw [← List.cons_append, endLine_ends (List.cons_ne_nil _ _) hends]

/-- A text is read back from its lines, whatever ends of lines it has at its end. -/
theorem readBlock_literal (hmargin : 0 < margin) (hne : text ≠ []) (htab : '\t' ∉ text)
    (hbegins : Begins line after) (hline : line ≤ margin) :
    readBlock true margin ((endLine (literal (margin + 1) text)).tail ++ (blanks line ++ after)) =
      .ok (text, after) := by
  obtain ⟨body, ends, rfl, hbody, hends⟩ := exists_ends isBreak text
  have hlines : (endLine (literal (margin + 1) (body ++ ends))).tail =
      header (tells (body ++ ends)) (chompingOf body ends) ++
        endLine ('\n' :: (indented (margin + 1) true body ++ ends)) := by
    rw [← indented_append hends, ← literalHints_eq hbody hends]
    unfold literal
    rw [← List.cons_append, endLine_append (List.cons_ne_nil _ _)]
    rfl
  rw [hlines]
  by_cases hnil : body = []
  · -- All lines are empty, and the header tells the indentation.
    subst hnil
    obtain ⟨d, breaks, rfl⟩ := List.exists_cons_of_ne_nil (List.nil_append ends ▸ hne)
    have hlead : readLead (toldColumn true margin) 0 0 (d :: breaks ++ (blanks line ++ after)) =
        .ok ⟨d :: breaks, line, line, after⟩ := by
      rw [readLead_breaks hends]
      show Except.map _ (readLead (margin + 1) 0 0 (blanks line ++ after)) = _
      rw [readLead_line hbegins (Nat.lt_succ_of_le hline)]
      simp [Except.map]
    -- An empty first line makes the header tell the indentation.
    have htells : tells ([] ++ d :: breaks) = true := by simp [tells, hends d List.mem_cons_self]
    have hchomping : chompingOf [] (d :: breaks) = .keep := by cases breaks <;> rfl
    have hended : endLine ('\n' :: (indented (margin + 1) true [] ++ d :: breaks)) =
        '\n' :: (d :: breaks) := by
      show endLine (['\n'] ++ d :: breaks) = ['\n'] ++ d :: breaks
      exact endLine_ends (List.cons_ne_nil _ _) hends
    rw [hended, htells, hchomping, List.append_assoc, List.cons_append,
      readBlock_header true hmargin hlead, if_pos rfl,
      readLines_end hbegins (Nat.lt_succ_of_le hline)]
    rfl
  · obtain ⟨d, breaks, hd, hbreaks, hwritten, htail⟩ := exists_written hnil hbody hends
    have hhead : tells (body ++ ends) = false →
        ∀ c ∈ body.head?, isBlank c = false ∧ isBreak c = false := by
      intro h c hc
      apply tells_eq_false htab h
      rw [List.head?_append, Option.mem_def.mp hc]
      rfl
    rw [hwritten, List.append_assoc, List.cons_append, List.append_assoc, List.cons_append,
      readBlock_indented _ hmargin hnil hbody hhead hd hbreaks hbegins hline, htail]

end Scalar

end Conform.Yaml
