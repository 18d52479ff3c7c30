import Conform.Proofs.Digits
import Conform.Yaml.Layout
import Conform.Yaml.Writer

/-!
# Scalars — texts that are read as they were written

The reader of each style gives a text back that is written in this style, and stops where it ends:
plain (`Scalar.readPlain_append`), and between single quotes (`Scalar.readQuoted_singleQuoted`) or
double ones (`Scalar.readQuoted_doubleQuoted`).
-/

namespace Conform.Yaml

inductive Begins : Nat → List Char → Prop
  | nothing : Begins 0 []
  | token {column : Nat} {c : Char} {rest : List Char} (unspaced : isBlank c = false)
    (unbroken : isBreak c = false) (uncommented : c ≠ '#') (unmarked : c ≠ byteOrderMark) :
    Begins column (c :: rest)

namespace Scalar

open Writer

variable {text rest after breaks : List Char} {indent column line fuel : Nat} {b c : Char}

theorem prepend_prepend {α : Type} (front back : List Char)
    (r : Except Fault (List Char × α)) :
    prepend front (prepend back r) = prepend (front ++ back) r := by
  cases r with
  | ok found => simp [prepend]
  | error e => rfl

theorem ne_blank_of_isBreak (h : isBreak c = true) : c ≠ ' ' ∧ c ≠ '\t' := by
  unfold isBreak at h
  simp only [Bool.or_eq_true, beq_iff_eq] at h
  obtain (rfl | rfl) | rfl := h <;> decide

/-! ## 1. Plain scalars -/

section Plain

variable {spaces : List Char}

structure Runs (text : List Char) : Prop where
  unbroken : ∀ c ∈ text, c ≠ '\t' ∧ isBreak c = false
  unmarked : Style.hasIndicator text = false

theorem readPlain_blank : readPlain false indent (.within spaces) column (' ' :: rest) =
    readPlain false indent (.within (' ' :: spaces)) (column + 1) rest := by
  rw [readPlain]
  simp [Gap.crossesLines, isBlank, Gap.addBlank]

/-- Where no comment and no mark may stand and the line is not indented less, a plain scalar goes on
behind blanks. -/
theorem readPlain_continues (hblank : isBlank c = false) (hbreak : isBreak c = false)
    (hgap : spaces ≠ [] → c ≠ '#' ∧ 0 < column ∧ indent ≤ column) :
    readPlain false indent (.within spaces) column (c :: rest) =
      if endsPlain false c rest then .ok ([], false, c :: rest)
      else prepend (spaces.reverse ++ [c]) (readPlain false indent .none (column + 1) rest) := by
  have htouching : isTouchingColon false c rest = false := by cases rest <;> rfl
  have hstops : (!(Gap.within spaces).isNone && ((!false && decide (column < indent)) || c == '#' ||
      (column == 0 && atDocumentMark (c :: rest)))) = false := by
    cases spaces with
    | nil => rfl
    | cons d spaces =>
      obtain ⟨hcomment, hpositive, hcolumn⟩ := hgap (List.cons_ne_nil _ _)
      have hcolumn' : (column == 0) = false := by
        rw [beq_eq_false_iff_ne]
        omega
      simp [hcomment, hcolumn', hcolumn]
  rw [readPlain, if_neg (by simp [hblank]), if_neg (by simp [hbreak]), hstops, htouching]
  rfl

/-- A character of a plain scalar. -/
theorem readPlain_char (hblank : isBlank c = false) (hbreak : isBreak c = false)
    (hgap : spaces ≠ [] → c ≠ '#' ∧ 0 < column ∧ indent ≤ column)
    (hends : endsPlain false c rest = false) :
    readPlain false indent (.within spaces) column (c :: rest) =
      prepend (spaces.reverse ++ [c]) (readPlain false indent .none (column + 1) rest) := by
  rw [readPlain_continues hblank hbreak hgap, hends]
  rfl

/-- A plain scalar goes on through a text that holds no indicator and does not end in a blank. -/
theorem readPlain_append (h : Runs text) (hne : text ≠ []) (hlast : text.getLast? ≠ some ' ')
    (hgap : spaces ≠ [] → text.head? ≠ some '#' ∧ 0 < column ∧ indent ≤ column)
    (hcolumn : indent ≤ column + 1) :
    readPlain false indent (.within spaces) column (text ++ rest) =
      prepend (spaces.reverse ++ text)
        (readPlain false indent .none (column + text.length) rest) := by
  induction text generalizing spaces column with
  | nil => exact absurd rfl hne
  | cons c text ih =>
    obtain ⟨unbroken, unmarked⟩ := h
    obtain ⟨⟨htab, hbreak⟩, htext⟩ := List.forall_mem_cons.mp unbroken
    unfold Style.hasIndicator at unmarked
    simp only [Bool.or_eq_false_iff] at unmarked
    obtain ⟨⟨hcolon, hcomment⟩, unmarked⟩ := unmarked
    have hlast' (hne : text ≠ []) : text.getLast? ≠ some ' ' := by
      rwa [List.getLast?_cons_of_ne_nil hne] at hlast
    by_cases hspace : c = ' '
    · subst hspace
      have hne' : text ≠ [] := by
        rintro rfl
        exact hlast rfl
      have hhead : text.head? ≠ some '#' := by simpa [isBlank] using hcomment
      rw [List.cons_append, readPlain_blank, ih ⟨htext, unmarked⟩ hne' (hlast' hne')
        (fun _ => ⟨hhead, by omega⟩) (by omega), List.length_cons, List.reverse_cons,
        List.append_assoc, Nat.add_assoc, Nat.add_comm 1]
      rfl
    · have hends : endsPlain false c (text ++ rest) = false := by
        unfold endsPlain
        rw [Bool.false_and, Bool.or_false, Bool.and_eq_false_imp] at *
        intro hc
        have hcolon := hcolon hc
        -- Behind the last character a colon would end a word.
        cases text with
        | nil => cases hcolon
        | cons d more => exact (Bool.or_eq_false_iff.mp hcolon).1
      rw [List.cons_append, readPlain_char (by simp [isBlank, hspace, htab]) hbreak
        (fun h => ⟨fun hc => (hgap h).1 (hc ▸ rfl), (hgap h).2⟩) hends]
      by_cases hne' : text = []
      · subst hne'
        rfl
      · have hread := ih ⟨htext, unmarked⟩ hne' (hlast' hne')
          (fun h : ([] : List Char) ≠ [] => absurd rfl h) (by omega : indent ≤ column + 1 + 1)
        show prepend _ (readPlain false indent (.within []) (column + 1) (text ++ rest)) = _
        rw [hread, prepend_prepend, List.length_cons, List.reverse_nil, List.nil_append,
          List.append_assoc, Nat.add_assoc, Nat.add_comm 1]
        rfl

/-- A plain scalar ends at a colon that ends a word. -/
theorem readPlain_colon (hgap : spaces ≠ [] → 0 < column ∧ indent ≤ column)
    (h : endsWord rest = true) :
    readPlain false indent (.within spaces) column (':' :: rest) = .ok ([], false, ':' :: rest) := by
  have hends : endsPlain false ':' rest = true := by
    unfold endsPlain
    rw [h]
    rfl
  rw [readPlain_continues rfl rfl fun hne => ⟨by decide, hgap hne⟩, hends]
  rfl

/-- A plain scalar that comes to such a colon ends there, or at one before. -/
theorem readPlain_stops (hunbroken : ∀ c ∈ text, c ≠ '\t' ∧ isBreak c = false)
    (hcomment : Style.hasNeighbours (fun a b => a == ' ' && b == '#') text = false)
    (hgap : spaces ≠ [] → text.head? ≠ some '#' ∧ 0 < column ∧ indent ≤ column)
    (hcolumn : indent ≤ column + 1) (h : endsWord rest = true) :
    ∃ front words back, readPlain false indent (.within spaces) column (text ++ ':' :: rest) =
      .ok (front, false, ':' :: back) ∧ text ++ ':' :: rest = words ++ ':' :: back ∧
        endsWord back = true := by
  induction text generalizing spaces column with
  | nil => exact ⟨[], [], rest, readPlain_colon (fun hne => (hgap hne).2) h, rfl, h⟩
  | cons c text ih =>
    obtain ⟨⟨htab, hbreak⟩, htext⟩ := List.forall_mem_cons.mp hunbroken
    have hcomment' : Style.hasNeighbours (fun a b => a == ' ' && b == '#') text = false := by
      cases text with
      | nil => rfl
      | cons d more => exact (Bool.or_eq_false_iff.mp hcomment).2
    -- A blank goes into the gap, any other character ends it.
    by_cases hspace : c = ' '
    · subst hspace
      have hhead : text.head? ≠ some '#' := by
        cases text with
        | nil => nofun
        | cons d more => simpa using (Bool.or_eq_false_iff.mp hcomment).1
      rw [List.cons_append, readPlain_blank]
      obtain ⟨front, words, back, hread, hwords, hback⟩ :=
        ih htext hcomment' (fun _ : ' ' :: spaces ≠ [] => ⟨hhead, Nat.succ_pos column, hcolumn⟩)
          (Nat.le_succ_of_le hcolumn)
      exact ⟨front, ' ' :: words, back, hread, congrArg (List.cons ' ') hwords, hback⟩
    · rw [List.cons_append, readPlain_continues (by simp [isBlank, hspace, htab]) hbreak
        fun h => ⟨fun hc => (hgap h).1 (hc ▸ rfl), (hgap h).2⟩]
      split
      · rename_i hends
        unfold endsPlain at hends
        rw [Bool.false_and, Bool.or_false, Bool.and_eq_true, beq_iff_eq] at hends
        obtain ⟨rfl, hends⟩ := hends
        exact ⟨[], [], _, rfl, rfl, hends⟩
      · obtain ⟨front, words, back, hread, hwords, hback⟩ := ih htext hcomment'
          (fun h : ([] : List Char) ≠ [] => absurd rfl h) (by omega : indent ≤ column + 1 + 1)
        refine ⟨spaces.reverse ++ [c] ++ front, c :: words, back, ?_,
          congrArg (List.cons c) hwords, hback⟩
        show prepend _ (readPlain false indent (.within []) (column + 1) (text ++ ':' :: rest)) = _
        rw [hread]
        rfl

/-- A line that begins before the column ends a plain scalar. -/
theorem readPlain_indentation {first : Option Char} (hbegins : Begins line after) (count : Nat)
    (hline : line < indent) (hcount : column + count = line) :
    readPlain false indent (.across first breaks) column (blanks count ++ after) =
      .ok ([], true, after) := by
  induction count generalizing column with
  | zero =>
    cases hbegins with
    | nothing => rfl
    | token unspaced unbroken =>
      have hindented : decide (column < indent) = true := decide_eq_true (by omega)
      show readPlain false indent (.across first breaks) column (_ :: _) = _
      rw [readPlain, if_neg (by simp [unspaced]), if_neg (by simp [unbroken]), if_pos]
      · rfl
      · simp [Gap.isNone, hindented]
  | succ count ih =>
    show readPlain false indent (.across first breaks) column (' ' :: (blanks count ++ after)) = _
    rw [readPlain, if_pos (by decide), if_neg (by simp)]
    apply ih
    omega

/-- A plain scalar ends at a line that is indented less. -/
theorem readPlain_line (hbegins : Begins line after) (hline : line < indent) :
    readPlain false indent .none column ('\n' :: (blanks line ++ after)) = .ok ([], true, after) := by
  rw [readPlain]
  exact readPlain_indentation hbegins line hline (Nat.zero_add line)

end Plain

/-! ## 2. Quoted scalars -/

section Quoted

variable {gap : Gap} {fresh single : Bool}

/-- A character behind a gap, between single quotes or double ones. -/
theorem readQuoted_char (hblank : isBlank c = false) (hbreak : isBreak c = false) :
    readQuoted single (fuel + 1) gap false (c :: rest) = prepend gap.text (
      if single then
        match c, rest with
        | '\'', '\'' :: rest => prepend ['\''] (readQuoted single fuel .none false rest)
        | '\'', rest => .ok ([], rest)
        | c, rest => prepend [c] (readQuoted single fuel .none false rest)
      else if c = '"' then .ok ([], rest)
      else if c = '\\' then
        match rest with
        | b :: rest =>
          if isBreak b then readQuoted single fuel (.across Option.none []) true rest
          else
            match readEscape (b :: rest) with
            | .ok (e, rest) => prepend [e] (readQuoted single fuel .none false rest)
            | .error e => .error e
        | [] => .error .unknownEscape
      else prepend [c] (readQuoted single fuel .none false rest)) := by
  show (if isBlank c then _ else if isBreak c then _ else _) = _
  rw [if_neg (by simp [hblank]), if_neg (by simp [hbreak])]
  rfl

theorem readQuoted_blank : readQuoted single (fuel + 1) gap fresh (' ' :: rest) =
    readQuoted single fuel (gap.addBlank ' ') false rest := rfl

/-- An end of a line goes into the gap before the next word. -/
theorem readQuoted_break (h : isBreak c = true) :
    readQuoted single (fuel + 1) gap fresh (c :: rest) =
      readQuoted single fuel (gap.addBreak c) true rest := by
  obtain ⟨hspace, htab⟩ := ne_blank_of_isBreak h
  show (if isBlank c then _ else if isBreak c then _ else _) = _
  rw [if_neg (by simp [isBlank, hspace, htab]), if_pos h]

theorem readQuoted_blanks {first : Option Char} {more : List Char} (count : Nat) :
    readQuoted single (fuel + count) (.across first more) fresh (blanks count ++ rest) =
      readQuoted single fuel (.across first more) (fresh && count == 0) rest := by
  induction count generalizing fresh with
  | zero =>
    show readQuoted single fuel (.across first more) fresh rest = _
    rw [show (0 == 0) = true from rfl, Bool.and_true]
  | succ count ih =>
    show readQuoted single (fuel + count) (.across first more) false (blanks count ++ rest) = _
    rw [ih, Bool.false_and, show (count + 1 == 0) = false from rfl, Bool.and_false]

/-! ### Single quotes -/

def doubled (c : Char) : List Char := if c = '\'' then ['\'', '\''] else [c]

/-- A single quote that is not doubled closes the scalar, with the gap before it. -/
theorem readQuoted_closing (h : rest.head? ≠ some '\'') :
    readQuoted true (fuel + 1) gap false ('\'' :: rest) = .ok (gap.text, rest) := by
  rw [readQuoted_char rfl rfl, if_pos rfl]
  split
  · exact absurd rfl h
  · simp [prepend]
  · rename_i hother _
    exact absurd rfl hother

/-- A character is read back, a quote from its two marks. -/
theorem readQuoted_doubled (hblank : isBlank c = false) (hbreak : isBreak c = false) :
    readQuoted true (fuel + 1) gap false (doubled c ++ rest) =
      prepend (gap.text ++ [c]) (readQuoted true fuel .none false rest) := by
  unfold doubled
  split
  · rename_i hc
    subst hc
    rw [← prepend_prepend]
    rfl
  · rename_i hc
    show readQuoted true (fuel + 1) gap false (c :: rest) = _
    rw [readQuoted_char hblank hbreak, if_pos rfl]
    split
    · exact absurd rfl hc
    · exact absurd rfl hc
    · rw [prepend_prepend]

/-- What stands before a character: blanks within a line, or ends of lines. -/
inductive Pending : Gap → Bool → Prop
  | within {spaces : List Char} (h : ∀ d ∈ spaces, d = ' ') : Pending (.within spaces) false
  | across {d : Char} {breaks : List Char} (ended : isBreak d = true)
    (more : ∀ e ∈ breaks, isBreak e = true) (h : d ≠ '\n') : Pending (.across (some d) breaks) true

/-- Ends of lines other than line feeds are kept. -/
theorem text_across {d : Char} (h : d ≠ '\n') :
    (Gap.across (some d) breaks).text = d :: breaks.reverse := by
  unfold Gap.text
  split
  · rename_i heq
    cases heq
  · rename_i heq
    cases heq
    exact absurd rfl h
  · rename_i heq
    cases heq
    exact absurd rfl h
  · rename_i heq
    cases heq
    rfl

def Tidy (text : List Char) : Prop :=
  Style.hasNeighbours (fun a b => a == ' ' && Style.isLineEnd b) text = false ∧
    Style.hasNeighbours (fun a b => Style.isLineEnd a && b == ' ') text = false

theorem test_of_hasNeighbours {test : Char → Char → Bool} (front : List Char) {a : Char}
    (h : Style.hasNeighbours test (front ++ a :: b :: rest) = false) : test a b = false := by
  induction front with
  | nil => exact (Bool.or_eq_false_iff.mp h).1
  | cons d front ih =>
    apply ih
    cases front <;> exact (Bool.or_eq_false_iff.mp h).2

theorem hasNeighbours_of_append {test : Char → Char → Bool} {front : List Char}
    (h : Style.hasNeighbours test (front ++ rest) = false) :
    Style.hasNeighbours test rest = false := by
  induction front with
  | nil => exact h
  | cons d front ih =>
    apply ih
    cases heq : front ++ rest with
    | nil => rfl
    | cons e more =>
      rw [List.cons_append, heq] at h
      exact (Bool.or_eq_false_iff.mp h).2

def margin (indent : Nat) (fresh : Bool) : List Char := if fresh then blanks indent else []

def quotedRest (indent : Nat) : Bool → List Char → List Char
  | fresh, [] => margin indent fresh ++ ['\'']
  | fresh, c :: text =>
    if isBreak c then c :: quotedRest indent true text
    else margin indent fresh ++ (doubled c ++ quotedRest indent false text)

theorem quotedRest_eq (fresh : Bool) (text : List Char) : quotedRest indent fresh text =
    indentLines indent doubled fresh text ++
      (margin indent ((text.getLast?.map isBreak).getD fresh) ++ ['\'']) := by
  induction text generalizing fresh with
  | nil => rfl
  | cons c text ih =>
    have hlast : ((c :: text).getLast?.map isBreak).getD fresh =
        (text.getLast?.map isBreak).getD (isBreak c) := by
      cases text with
      | nil => rfl
      | cons d more =>
        rw [List.getLast?_cons_cons]
        simp [List.getLast?_cons]
    rw [quotedRest, indentLines, hlast]
    split
    · rename_i hc
      rw [ih, hc]
      rfl
    · rename_i hc
      rw [Bool.not_eq_true] at hc
      rw [ih, hc]
      simp [margin]

theorem singleQuoted_eq (indent : Nat) (text : List Char) :
    singleQuoted indent text = '\'' :: quotedRest indent false text := by
  rw [quotedRest_eq]
  exact congrArg (List.cons '\'') (List.append_assoc ..)

/-- The margin of a line within quotes is passed. -/
theorem readQuoted_margin (hpending : Pending gap fresh) (hindent : 0 < indent)
    (hfuel : (margin indent fresh).length ≤ fuel) :
    readQuoted true fuel gap fresh (margin indent fresh ++ rest) =
      readQuoted true (fuel - (margin indent fresh).length) gap false rest := by
  cases hpending with
  | within => rfl
  | across =>
    have hmargin : margin indent true = blanks indent := rfl
    have hlength : (blanks indent).length = indent := List.length_replicate ..
    have hfresh : (true && indent == 0) = false := by
      rw [Bool.true_and, beq_eq_false_iff_ne]
      omega
    rw [hmargin, hlength] at hfuel ⊢
    obtain ⟨n, rfl⟩ : ∃ n, fuel = n + indent := ⟨fuel - indent, by omega⟩
    rw [readQuoted_blanks, hfresh, Nat.add_sub_cancel]

/-- An end of a line is pending behind other ends of lines only. -/
theorem Pending.addBreak (hpending : Pending gap fresh) (hc : isBreak c = true) (hfeed : c ≠ '\n')
    (htidy : Tidy (gap.text ++ c :: text)) :
    Pending (gap.addBreak c) true ∧ (gap.addBreak c).text = gap.text ++ [c] := by
  cases hpending with
  | @across d breaks ended more hd =>
    refine ⟨.across ended (List.forall_mem_cons.mpr ⟨hc, more⟩) hd, ?_⟩
    show (Gap.across (some d) (c :: breaks)).text = _
    rw [text_across hd, text_across hd]
    simp
  | @within spaces hspaces =>
    cases spaces with
    | nil => exact ⟨.across hc (fun _ h => absurd h List.not_mem_nil) hfeed, text_across hfeed⟩
    | cons d spaces =>
      cases hspaces d List.mem_cons_self
      have hbefore := htidy.1
      simp only [Gap.text, List.reverse_cons, List.append_assoc] at hbefore
      have hbefore := test_of_hasNeighbours _ hbefore
      simp [Style.isLineEnd, hc] at hbefore

/-- A blank is pending behind other blanks only. -/
theorem Pending.addBlank (hpending : Pending gap fresh) (htidy : Tidy (gap.text ++ ' ' :: text)) :
    Pending (gap.addBlank ' ') false ∧ (gap.addBlank ' ').text = gap.text ++ [' '] ∧
      fresh = false := by
  cases hpending with
  | within hspaces =>
    exact ⟨.within (List.forall_mem_cons.mpr ⟨rfl, hspaces⟩), List.reverse_cons .., rfl⟩
  | @across d breaks ended more hd =>
    have hbehind := htidy.2
    rw [text_across hd] at hbehind
    cases breaks with
    | nil =>
      have hbehind := test_of_hasNeighbours [] hbehind
      simp [Style.isLineEnd, ended] at hbehind
    | cons e breaks =>
      rw [List.reverse_cons, ← List.cons_append, List.append_assoc] at hbehind
      have hbehind := test_of_hasNeighbours _ hbehind
      simp [Style.isLineEnd, more e List.mem_cons_self] at hbehind

/-- Induction on what is left of the text; the gap before it is a part of the text, too. -/
theorem readQuoted_quotedRest (hindent : 0 < indent) (hpending : Pending gap fresh)
    (htidy : Tidy (gap.text ++ text)) (hplain : '\n' ∉ text ∧ '\t' ∉ text)
    (hrest : rest.head? ≠ some '\'') (hfuel : (quotedRest indent fresh text).length ≤ fuel) :
    readQuoted true fuel gap fresh (quotedRest indent fresh text ++ rest) =
      .ok (gap.text ++ text, rest) := by
  induction text generalizing fuel gap fresh with
  | nil =>
    rw [quotedRest, List.length_append, List.length_singleton] at hfuel
    obtain ⟨m, hm⟩ : ∃ m, fuel - (margin indent fresh).length = m + 1 :=
      ⟨fuel - (margin indent fresh).length - 1, by omega⟩
    rw [quotedRest, List.append_assoc, readQuoted_margin hpending hindent (by omega), hm,
      List.append_nil]
    exact readQuoted_closing hrest
  | cons c text ih =>
    have hplain' : '\n' ∉ text ∧ '\t' ∉ text :=
      ⟨fun h => hplain.1 (List.mem_cons_of_mem _ h), fun h => hplain.2 (List.mem_cons_of_mem _ h)⟩
    rw [quotedRest] at hfuel ⊢
    split
    · rename_i hbreak
      obtain ⟨hpending', htext⟩ :=
        hpending.addBreak hbreak (fun h => hplain.1 (h ▸ List.mem_cons_self)) htidy
      rw [if_pos hbreak, List.length_cons] at hfuel
      obtain ⟨fuel, rfl⟩ : ∃ n, fuel = n + 1 := ⟨fuel - 1, by omega⟩
      rw [List.cons_append, readQuoted_break hbreak,
        ih hpending' (by rw [htext]; simpa using htidy) hplain' (by omega), htext]
      simp
    · rename_i hbreak
      rw [if_neg hbreak] at hfuel
      rw [Bool.not_eq_true] at hbreak
      -- Fuel is left, since every character takes one place at least.
      have hdoubled : 1 ≤ (doubled c).length := by
        unfold doubled
        split <;> simp
      simp only [List.length_append] at hfuel
      obtain ⟨m, hm⟩ : ∃ m, fuel - (margin indent fresh).length = m + 1 :=
        ⟨fuel - (margin indent fresh).length - 1, by omega⟩
      rw [List.append_assoc, List.append_assoc, readQuoted_margin hpending hindent (by omega), hm]
      by_cases hspace : c = ' '
      · subst hspace
        obtain ⟨hpending', htext, rfl⟩ := hpending.addBlank htidy
        show readQuoted true (m + 1) gap false (' ' :: (quotedRest indent false text ++ rest)) = _
        rw [readQuoted_blank, ih hpending' (by rw [htext]; simpa using htidy) hplain' (by omega),
          htext]
        simp
      · have hblank : isBlank c = false := by
          have htab : c ≠ '\t' := fun h => hplain.2 (h ▸ List.mem_cons_self)
          simp [isBlank, hspace, htab]
        have htidy' : Tidy text := by
          rw [← List.singleton_append, ← List.append_assoc] at htidy
          exact ⟨hasNeighbours_of_append htidy.1, hasNeighbours_of_append htidy.2⟩
        -- A character that shows ends the gap, so that nothing is pending behind it.
        have hnone : Pending .none false := .within fun _ h => absurd h List.not_mem_nil
        rw [readQuoted_doubled hblank hbreak, ih hnone htidy' hplain' (by omega)]
        simp [prepend, Gap.none, Gap.text]

/-- A text without line feeds is read back from between single quotes. -/
theorem readQuoted_singleQuoted (hindent : 0 < indent) (htidy : Tidy text)
    (hplain : '\n' ∉ text ∧ '\t' ∉ text) (hrest : rest.head? ≠ some '\'') :
    readQuoted true (singleQuoted indent text ++ rest).length .none false
      (singleQuoted indent text ++ rest).tail = .ok (text, rest) := by
  have hnone : Pending .none false := .within fun _ h => absurd h List.not_mem_nil
  rw [singleQuoted_eq]
  apply readQuoted_quotedRest hindent hnone htidy hplain hrest
  rw [List.length_append, List.length_cons]
  omega

/-! ### Double quotes -/

theorem spells_hexDigits (width n : Nat) :
    Number.Spells 16 (hexDigits width n) (n % 16 ^ width) := by
  induction width generalizing n with
  | zero =>
    rw [Nat.pow_zero, Nat.mod_one]
    exact .nil
  | succ width ih =>
    have hvalue : n % 16 ^ (width + 1) = 16 * (n / 16 % 16 ^ width) + n % 16 := by
      rw [Nat.pow_succ', Nat.mod_mul]
      omega
    rw [hvalue]
    exact (ih (n / 16)).snoc ⟨Nat.mod_lt _ (by decide), .inr rfl⟩

theorem length_hexDigits (width n : Nat) : (hexDigits width n).length = width := by
  induction width generalizing n with
  | zero => rfl
  | succ width ih =>
    rw [hexDigits, List.length_append, ih]
    rfl

/-- A numeric escape is read back as its character. -/
theorem readEscape_hexDigits {letter : Char} {width : Nat} (hshort : unescape? letter = none)
    (hletter : escapeDigits? letter = some width) (hwidth : 0 < width)
    (hc : c.toNat < 16 ^ width) :
    readEscape (letter :: (hexDigits width c.toNat ++ rest)) = .ok (c, rest) := by
  have hlength := length_hexDigits width c.toNat
  have hne : hexDigits width c.toNat ≠ [] := by
    intro hnil
    rw [hnil, List.length_nil] at hlength
    omega
  have hspells := spells_hexDigits width c.toNat
  rw [Nat.mod_eq_of_lt hc] at hspells
  unfold readEscape
  simp only [hshort, hletter, List.take_left' hlength, List.drop_left' hlength,
    Number.radixNat?_of_spells (by decide) hne hspells, hlength]
  rw [if_pos ⟨trivial, c.valid⟩, Char.ofNat_toNat]

/-- A character is written as it is, or as an escape that stands for it. -/
theorem escape_cases (c : Char) :
    (escape c = [c] ∧ isBreak c = false ∧ c ≠ '"' ∧ c ≠ '\\' ∧ c ≠ '\t') ∨
      ∃ letter code, escape c = '\\' :: letter :: code ∧ isBreak letter = false ∧
        ∀ rest, readEscape (letter :: (code ++ rest)) = .ok (c, rest) := by
  unfold escape
  split
  case h_15 =>
    split
    · left
      refine ⟨rfl, ?_, ?_, ?_, ?_⟩
      · unfold isBreak
        rw [Bool.or_eq_false_iff, Bool.or_eq_false_iff]
        simp only [beq_eq_false_iff_ne]
        refine ⟨⟨?_, ?_⟩, ?_⟩ <;> assumption
      all_goals assumption
    · right
      have hmax : c.toNat < 16 ^ 8 := UInt32.toNat_lt c.val
      have hhex {letter : Char} {width : Nat} (hshort : unescape? letter = none)
          (hletter : escapeDigits? letter = some width) (hbreak : isBreak letter = false)
          (hwidth : 0 < width) (hc : c.toNat < 16 ^ width) :
          ∃ b code, '\\' :: letter :: hexDigits width c.toNat = '\\' :: b :: code ∧
            isBreak b = false ∧ ∀ rest, readEscape (b :: (code ++ rest)) = .ok (c, rest) :=
        ⟨letter, _, rfl, hbreak, fun _ => readEscape_hexDigits hshort hletter hwidth hc⟩
      split
      · exact hhex rfl rfl rfl (by decide) (by omega)
      · split
        · exact hhex rfl rfl rfl (by decide) (by omega)
        · exact hhex rfl rfl rfl (by decide) hmax
  all_goals exact .inr ⟨_, _, rfl, by decide, fun _ => rfl⟩

/-- What is written with escapes is read back up to the closing quote. -/
theorem readQuoted_escapes (spaces : List Char)
    (hfuel : (text.flatMap escape ++ ['"']).length ≤ fuel) :
    readQuoted false fuel (.within spaces) false (text.flatMap escape ++ '"' :: rest) =
      .ok (spaces.reverse ++ text, rest) := by
  induction text generalizing fuel spaces with
  | nil =>
    obtain ⟨fuel, rfl⟩ : ∃ n, fuel = n + 1 := ⟨fuel - 1, by simp at hfuel; omega⟩
    show readQuoted false (fuel + 1) (.within spaces) false ('"' :: rest) = _
    rw [readQuoted_char rfl rfl]
    simp [prepend, Gap.text]
  | cons c text ih =>
    rw [List.flatMap_cons, List.append_assoc, List.length_append] at hfuel
    rw [List.flatMap_cons, List.append_assoc]
    -- A character stands for itself, or for the code behind a backslash.
    rcases escape_cases c with
      ⟨hescape, hbreak, hquote, hslash, htab⟩ | ⟨letter, code, hescape, hbreak, hread⟩
    · rw [hescape, List.length_singleton] at hfuel
      obtain ⟨fuel, rfl⟩ : ∃ n, fuel = n + 1 := ⟨fuel - 1, by omega⟩
      rw [hescape, List.singleton_append]
      by_cases hspace : c = ' '
      · subst hspace
        rw [readQuoted_blank]
        show readQuoted false fuel (.within (' ' :: spaces)) false _ = _
        rw [ih _ (by omega)]
        simp
      · rw [readQuoted_char (by simp [isBlank, hspace, htab]) hbreak, if_neg Bool.false_ne_true,
          if_neg hquote, if_neg hslash]
        show prepend _ (prepend [c] (readQuoted false fuel (.within []) false _)) = _
        rw [ih _ (by omega)]
        simp [prepend, Gap.text]
    · have hcode := hread (text.flatMap escape ++ '"' :: rest)
      rw [hescape, List.length_cons, List.length_cons] at hfuel
      obtain ⟨fuel, rfl⟩ : ∃ n, fuel = n + 1 := ⟨fuel - 1, by omega⟩
      rw [hescape, List.cons_append, List.cons_append, readQuoted_char rfl rfl,
        if_neg Bool.false_ne_true, if_neg (by decide), if_pos rfl]
      simp only [hbreak, hcode, if_neg Bool.false_ne_true]
      show prepend _ (prepend [c] (readQuoted false fuel (.within []) false _)) = _
      rw [ih _ (by omega)]
      simp [prepend, Gap.text]

/-- Any text is read back from between double quotes. -/
theorem readQuoted_doubleQuoted :
    readQuoted false (doubleQuoted text ++ rest).length .none false
      (doubleQuoted text ++ rest).tail = .ok (text, rest) := by
  have htail : (doubleQuoted text ++ rest).tail = text.flatMap escape ++ '"' :: rest := by
    show text.flatMap escape ++ ['"'] ++ rest = _
    rw [List.append_assoc]
    rfl
  rw [htail]
  apply readQuoted_escapes []
  show (text.flatMap escape ++ ['"']).length ≤ ('"' :: (text.flatMap escape ++ ['"'] ++ rest)).length
  rw [List.length_cons, List.length_append, List.length_append, List.length_append]
  omega

end Quoted

end Scalar

/-! ## 3. The style of a text -/

namespace Style

inductive Suits (text : String) : Style → Prop
  | plain (typed : Plain.isText text = true) (unpadded : Plain.isZeroPadded text.toList = false)
    (oneLine : text.toList.contains '\n' = false) (allowed : allowsPlain text.toList = true) :
    Suits text .plain
  | singleQuoted (oneLine : text.toList.contains '\n' = false)
    (allowed : allowsSingleQuoted text.toList = true) : Suits text .singleQuoted
  | doubleQuoted : Suits text .doubleQuoted
  | literal (lines : text.toList.contains '\n' = true) (allowed : allowsLiteral text.toList = true) :
    Suits text .literal

/-- The style that is chosen for a text suits it. -/
theorem suits_ofText (text : String) : Suits text (ofText text) := by
  unfold ofText
  dsimp only
  split
  · rename_i lines
    split
    · rename_i allowed
      exact .literal lines allowed
    · exact .doubleQuoted
  · rename_i oneLine
    rw [Bool.not_eq_true] at oneLine
    split
    · rename_i h
      simp only [Bool.and_eq_true, Bool.not_eq_true'] at h
      exact .plain h.1.1 h.1.2 oneLine h.2
    · split
      · rename_i allowed
        exact .singleQuoted oneLine allowed
      · exact .doubleQuoted

end Style

end Conform.Yaml
