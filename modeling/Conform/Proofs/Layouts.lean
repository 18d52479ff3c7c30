import Conform.Proofs.Entries
import Conform.Proofs.LiteralScalars
import Conform.Yaml.Layout

/-!
# Layouts — from one token of a block to the next

Between two tokens the reader passes white space and ends the blocks that a line leaves
(`Layout.pause`).  What it knows outside of brackets, where no key is pending, are the open blocks
with the tokens so far (`Blocks`).  Reading is followed from layout to layout (`Layout.Leads`).
-/

namespace Conform.Yaml

open Writer

/-- What stands at the beginning of a line is no white space, no comment and no mark. -/
theorem Begins.head {column : Nat} {text : List Char} (h : Begins column text) :
    ∀ c ∈ text.head?, isBlank c = false ∧ isBreak c = false ∧ c ≠ '#' ∧ c ≠ byteOrderMark := by
  intro c hc
  cases h with
  | nothing => cases hc
  | token unspaced unbroken uncommented unmarked =>
    cases hc
    exact ⟨unspaced, unbroken, uncommented, unmarked⟩

/-! ## 1. Places in a text -/

namespace Cursor

variable {c : Cursor} {front words rest : List Char} {d : Char} {line : Nat}

def along (c : Cursor) (count : Nat) (rest : List Char) : Cursor :=
  { rest, index := c.index + count, line := c.line, column := c.column + count }

theorem advance_eq (hrest : c.rest = d :: rest) (hd : isBreak d = false) :
    c.advance = c.along 1 rest := by
  unfold advance
  rw [hrest]
  exact if_neg (by simp [hd])

theorem advance_break (hrest : c.rest = d :: rest) (hd : isBreak d = true) :
    c.advance = { rest, index := c.index + 1, line := c.line + 1, column := 0 } := by
  unfold advance
  rw [hrest]
  exact if_pos hd

theorem advance_rest (c : Cursor) : c.advance.rest = c.rest.tail := by
  unfold advance
  cases hrest : c.rest with
  | nil => exact hrest
  | cons d rest => cases hd : isBreak d <;> simp [hd]

/-- Characters may be passed in two goes. -/
theorem skip_add (m n : Nat) (c : Cursor) : c.skip (m + n) = (c.skip m).skip n := by
  induction m generalizing c with
  | zero => rw [Nat.zero_add]; rfl
  | succ m ih => rw [Nat.succ_add]; exact ih c.advance

theorem skip_rest (n : Nat) (c : Cursor) : (c.skip n).rest = c.rest.drop n := by
  induction n generalizing c with
  | zero => rfl
  | succ n ih =>
    show (c.advance.skip n).rest = _
    rw [ih, advance_rest, List.drop_tail]

theorem skip_line (n : Nat) (c : Cursor) : c.line ≤ (c.skip n).line := by
  induction n generalizing c with
  | zero => exact Nat.le_refl _
  | succ n ih =>
    apply Nat.le_trans _ (ih c.advance)
    unfold advance
    cases c.rest with
    | nil => exact Nat.le_refl _
    | cons d rest => cases hd : isBreak d <;> simp [hd]

/-- Past characters of a line. -/
theorem skip_words (hrest : c.rest = words ++ rest) (hwords : ∀ d ∈ words, isBreak d = false) :
    c.skip words.length = c.along words.length rest := by
  induction words generalizing c with
  | nil =>
    obtain ⟨_, index, line, column⟩ := c
    cases hrest
    rfl
  | cons d words ih =>
    obtain ⟨hd, hwords⟩ := List.forall_mem_cons.mp hwords
    have hadvance := advance_eq hrest hd
    show c.advance.skip words.length = _
    rw [ih (by rw [hadvance]; rfl) hwords, hadvance]
    unfold along
    simp only [List.length_cons, Nat.add_assoc, Nat.add_comm 1]

theorem isBreak_of_mem_blanks (n : Nat) : ∀ d ∈ blanks n, isBreak d = false := by
  intro d hd
  rw [List.eq_of_mem_replicate hd]
  rfl

/-- Past the end of a line and the blanks of the next one. -/
theorem skip_line_blanks (hrest : c.rest = front ++ d :: (blanks line ++ rest))
    (hd : isBreak d = true) :
    (c.skip (front.length + (line + 1))).rest = rest ∧
      (c.skip (front.length + (line + 1))).column = line ∧
      c.line < (c.skip (front.length + (line + 1))).line := by
  have hfront : (c.skip front.length).rest = d :: (blanks line ++ rest) := by
    rw [skip_rest, hrest, List.drop_left]
  have hadvance := advance_break hfront hd
  have hline := skip_line front.length c
  have hblanks : (c.skip front.length).advance.skip (blanks line).length =
      (c.skip front.length).advance.along (blanks line).length rest :=
    skip_words (by rw [hadvance]) (isBreak_of_mem_blanks line)
  have hlength : (blanks line).length = line := List.length_replicate ..
  rw [hlength] at hblanks
  have hskip : c.skip (front.length + (line + 1)) = (c.skip front.length).advance.along line rest := by
    rw [skip_add]
    exact hblanks
  rw [hskip, hadvance]
  refine ⟨rfl, Nat.zero_add line, ?_⟩
  show c.line < (c.skip front.length).line + 1
  omega

/-- Words on a line are passed along this line. -/
theorem seek_words (hrest : c.rest = words ++ rest) (hwords : ∀ d ∈ words, isBreak d = false) :
    c.seek rest = c.along words.length rest := by
  unfold seek
  rw [hrest, List.length_append, Nat.add_sub_cancel]
  exact skip_words hrest hwords

theorem seek_rest (hrest : c.rest = words ++ rest) : (c.seek rest).rest = rest := by
  unfold seek
  rw [skip_rest, hrest, List.length_append, Nat.add_sub_cancel, List.drop_left]

/-- Behind a line end the column is that of the indentation. -/
theorem seek_line_blanks (hrest : c.rest = front ++ d :: (blanks line ++ rest))
    (hd : isBreak d = true) :
    (c.seek rest).rest = rest ∧ (c.seek rest).column = line ∧ c.line < (c.seek rest).line := by
  have hlength : c.rest.length - rest.length = front.length + (line + 1) := by
    have hblanks : (blanks line).length = line := List.length_replicate ..
    rw [hrest, List.length_append, List.length_cons, List.length_append, hblanks]
    omega
  unfold seek
  rw [hlength]
  exact skip_line_blanks hrest hd

end Cursor

/-! ## 2. Open blocks -/

/-- The margins of the open blocks, innermost first, with the tokens so far, last first. -/
structure Blocks where
  margin : Nat
  outer : List Nat
  tokens : List Token

namespace Blocks

variable {b : Blocks} {column : Nat} {token : Token}

def layout (b : Blocks) (cursor : Cursor) (keyAllowed : Bool) : Layout :=
  { cursor, tokens := b.tokens, margin := b.margin, outerMargins := b.outer, keyAllowed }

def append (b : Blocks) (tokens : List Token) : Blocks :=
  { b with tokens := tokens.reverse ++ b.tokens }

def enter (b : Blocks) (column : Nat) (token : Token) : Blocks :=
  if b.margin ≤ column then ⟨column + 1, b.margin :: b.outer, token :: b.tokens⟩ else b

def close (b : Blocks) (margin : Nat) : Blocks :=
  let (margin, outer, tokens) := Layout.closeTo margin b.margin b.outer b.tokens
  ⟨margin, outer, tokens⟩

@[simp] theorem append_nil (b : Blocks) : b.append [] = b := rfl

@[simp] theorem append_margin (b : Blocks) (tokens : List Token) :
    (b.append tokens).margin = b.margin := rfl

@[simp] theorem append_append (b : Blocks) (front back : List Token) :
    (b.append front).append back = b.append (front ++ back) := by
  unfold append
  simp

/-- A block that begins further right is opened inside the open ones. -/
theorem enter_eq (h : b.margin ≤ column) :
    b.enter column token = ⟨column + 1, b.margin :: b.outer, token :: b.tokens⟩ := if_pos h

/-- A block that has begun at the column is not opened twice. -/
theorem enter_eq_self (h : b.margin = column + 1) : b.enter column token = b := if_neg (by omega)

theorem enter_margin (h : b.margin ≤ column + 1) : (b.enter column token).margin = column + 1 := by
  unfold enter
  split
  · rfl
  · omega

theorem close_eq_self {m : Nat} (h : b.margin ≤ m) : b.close m = b := by
  unfold close
  cases houter : b.outer with
  | nil =>
    obtain ⟨margin, outer, tokens⟩ := b
    cases houter
    rfl
  | cons next rest =>
    obtain ⟨margin, outer, tokens⟩ := b
    cases houter
    rw [Layout.closeTo, if_neg (Nat.not_lt.mpr h)]

/-- A block that the margin leaves is ended, and the blocks around it are looked at. -/
theorem close_cons {m margin : Nat} {outer : List Nat} {tokens : List Token} (h : m < margin)
    (next : Nat) : (Blocks.mk margin (next :: outer) tokens).close m =
      (Blocks.mk next outer (.blockEnd :: tokens)).close m := by
  unfold close
  rw [Layout.closeTo, if_pos h]

/-- Of two margins the lower one counts. -/
theorem close_close {m n : Nat} (h : m ≤ n) (b : Blocks) : (b.close n).close m = b.close m := by
  obtain ⟨margin, outer, tokens⟩ := b
  induction outer generalizing margin tokens with
  | nil => rfl
  | cons next outer ih =>
    by_cases hn : n < margin
    · rw [close_cons hn, close_cons (by omega), ih]
    · rw [close_eq_self (m := n) (Nat.not_lt.mp hn)]

end Blocks

/-! ## 3. Between two tokens -/

namespace Layout

variable {s t u : Layout} {b : Blocks} {cursor : Cursor} {rest after text : List Char} {c : Char}
  {line count fuel : Nat} {allowed : Bool}

def pause (s : Layout) : Except Fault Layout := do
  let s ← (s.skipSpace (s.cursor.rest.length + 1)).expireCandidates
  return s.closeBlocks (s.cursor.column + 1)

theorem pause_eq_ok (h : s.pause = .ok u) :
    ∃ v, (s.skipSpace (s.cursor.rest.length + 1)).expireCandidates = .ok v ∧
      v.closeBlocks (v.cursor.column + 1) = u := by
  obtain ⟨v, hexpire, hclosed⟩ := bind_eq_ok h
  exact ⟨v, hexpire, Except.ok.inj hclosed⟩

/-- At a character a token is fetched, and reading goes on behind it. -/
theorem readAll_token (hpause : s.pause = .ok u) (hrest : u.cursor.rest = c :: rest) :
    readAll (fuel + 1) s = u.fetch c rest >>= readAll fuel := by
  obtain ⟨v, hexpire, rfl⟩ := pause_eq_ok hpause
  rw [readAll, hexpire]
  dsimp only [bind, Except.bind]
  rw [hrest]

/-- At the end of the text all open blocks are ended. -/
theorem readAll_end (hpause : s.pause = .ok (b.layout cursor allowed)) (hrest : cursor.rest = []) :
    readAll (fuel + 1) s = .ok (b.close 0).tokens.reverse := by
  obtain ⟨v, hexpire, hclosed⟩ := pause_eq_ok hpause
  have hnil : (b.layout cursor allowed).cursor.rest = [] := hrest
  rw [readAll, hexpire]
  dsimp only [bind, Except.bind]
  rw [hclosed, hnil]
  rfl

/-! ### White space -/

/-- A key that would be given up at a later line. -/
def Spare (line : Nat) (candidate : Option KeyCandidate) : Prop :=
  ∀ k ∈ candidate, k.required = false ∧ k.line < line

theorem skipWhile_blanks {p : Char → Bool} (hrest : cursor.rest = blanks count ++ after)
    (hspace : p ' ' = true) (hafter : ∀ c ∈ after.head?, p c = false) :
    cursor.skipWhile p = cursor.along count after := by
  have hlength : (blanks count).length = count := List.length_replicate ..
  have htake : cursor.rest.takeWhile p = blanks count := by
    rw [hrest, List.takeWhile_append_of_pos]
    · cases after with
      | nil => exact List.append_nil _
      | cons c after =>
        have hc : p c = false := hafter c rfl
        rw [List.takeWhile_cons_of_neg (by simp [hc]), List.append_nil]
    · intro d hd
      rw [List.eq_of_mem_replicate hd]
      exact hspace
  unfold Cursor.skipWhile
  rw [htake, Cursor.skip_words hrest (Cursor.isBreak_of_mem_blanks count), hlength]

theorem skipSpace_blanks (count : Nat) (hrest : s.cursor.rest = blanks count ++ after)
    (hbegins : Begins (s.cursor.column + count) after) :
    s.skipSpace (fuel + 1) = { s with cursor := s.cursor.along count after } := by
  have hmark : ¬ (s.cursor.column = 0 ∧ s.cursor.rest.head? = some byteOrderMark) := by
    rintro ⟨-, hhead⟩
    rw [hrest] at hhead
    cases count with
    | zero => exact (hbegins.head _ hhead).2.2.2 rfl
    | succ count => exact absurd (Option.some.inj hhead) (by decide)
  have hblanks : s.cursor.skipWhile
      (fun c => c == ' ' || ((s.inFlow || !s.keyAllowed) && c == '\t')) =
        s.cursor.along count after := by
    apply skipWhile_blanks hrest rfl
    intro c hc
    have hblank := (hbegins.head c hc).1
    unfold isBlank at hblank
    rw [Bool.or_eq_false_iff] at hblank
    simp [hblank]
  have hcomment : ¬ (s.cursor.along count after).rest.head? = some '#' := fun h =>
    (hbegins.head _ h).2.2.1 rfl
  have hbreak : ((s.cursor.along count after).rest.head?.map isBreak).getD false = false := by
    cases hhead : after.head? with
    | none => simp [Cursor.along, hhead]
    | some c => simp [Cursor.along, hhead, (hbegins.head c hhead).2.1]
  rw [skipSpace]
  simp only [if_neg hmark, hblanks, if_neg hcomment, hbreak, Bool.false_eq_true, if_false]

theorem skipSpace_break (hrest : s.cursor.rest = '\n' :: rest) (hflow : s.inFlow = false) :
    s.skipSpace (fuel + 1) =
      skipSpace fuel { s with cursor := s.cursor.advance, keyAllowed := true } := by
  have hmark : ¬ (s.cursor.column = 0 ∧ s.cursor.rest.head? = some byteOrderMark) := by
    rintro ⟨-, hhead⟩
    rw [hrest] at hhead
    exact absurd (Option.some.inj hhead) (by decide)
  have hstop : s.cursor.skipWhile
      (fun c => c == ' ' || ((s.inFlow || !s.keyAllowed) && c == '\t')) = s.cursor := by
    unfold Cursor.skipWhile
    rw [hrest, List.takeWhile_cons_of_neg (by simp)]
    rfl
  have hcomment : ¬ s.cursor.rest.head? = some '#' := by
    rw [hrest]
    exact fun h => absurd (Option.some.inj h) (by decide)
  have hbreak : (s.cursor.rest.head?.map isBreak).getD false = true := by
    rw [hrest]
    rfl
  rw [skipSpace]
  simp only [if_neg hmark, hstop, if_neg hcomment, hbreak, if_true]
  rw [hflow, Bool.not_false, Bool.or_true]

/-- A key that nothing depends on is given up without a fault. -/
theorem expireCandidates_spare (hflow : s.outerCandidates = [])
    (hspare : Spare s.cursor.line s.candidate) :
    s.expireCandidates = .ok { s with candidate := none, outerCandidates := [] } := by
  have hexpire : expire s.cursor s.candidate = .ok none := by
    cases hcandidate : s.candidate with
    | none => rfl
    | some k =>
      obtain ⟨hrequired, hline⟩ := hspare k hcandidate
      have hexpired : isExpired s.cursor k = true := by simp [isExpired, hline]
      simp [expire, hexpired, hrequired]
  unfold expireCandidates
  rw [hexpire, hflow]
  rfl

/-- Blanks before a token are passed, and the blocks that its column leaves are ended. -/
theorem pause_blanks (count : Nat) (hrest : s.cursor.rest = blanks count ++ after)
    (hbegins : Begins (s.cursor.column + count) after) (hflow : s.outerCandidates = [])
    (hspare : Spare s.cursor.line s.candidate) :
    s.pause = .ok (((Blocks.mk s.margin s.outerMargins s.tokens).close
      (s.cursor.column + count + 1)).layout (s.cursor.along count after) s.keyAllowed) := by
  have hexpire := expireCandidates_spare
    (s := { s with cursor := s.cursor.along count after }) hflow hspare
  unfold pause
  rw [skipSpace_blanks count hrest hbegins, hexpire]
  rfl

/-! ### Lines -/

structure Lines (text : List Char) (line : Nat) (after : List Char) : Prop where
  eq : text = blanks line ++ after
  begins : Begins line after

theorem lines_nil : Lines [] 0 [] := ⟨rfl, .nothing⟩

theorem blanks_inj {m n : Nat} {xs ys : List Char} (h : blanks m ++ xs = blanks n ++ ys)
    (hxs : ∀ c ∈ xs.head?, isBlank c = false) (hys : ∀ c ∈ ys.head?, isBlank c = false) :
    m = n ∧ xs = ys := by
  have hstops {k : Nat} {cs ds : List Char} (hcs : ∀ c ∈ cs.head?, isBlank c = false) :
      cs ≠ ' ' :: (blanks k ++ ds) := by
    rintro rfl
    exact absurd (hcs ' ' rfl) (by decide)
  induction m generalizing n with
  | zero =>
    cases n with
    | zero => exact ⟨rfl, h⟩
    | succ n => exact absurd h (hstops hxs)
  | succ m ih =>
    cases n with
    | zero => exact absurd h.symm (hstops hys)
    | succ n =>
      obtain ⟨rfl, hrest⟩ := ih (List.cons.inj h).2
      exact ⟨rfl, hrest⟩

/-- Lines begin at one column only. -/
theorem Lines.unique {line' : Nat} {after' : List Char} (h : Lines text line after)
    (h' : Lines text line' after') : line = line' ∧ after = after' := by
  apply blanks_inj (h.eq.symm.trans h'.eq)
  · exact fun c hc => (h.begins.head c hc).1
  · exact fun c hc => (h'.begins.head c hc).1

/-- The reader stands before lines: the next token is the first one of these, once the blocks are
ended that they leave. -/
def Ready (s : Layout) (text : List Char) (b : Blocks) : Prop :=
  ∃ line after cursor, Lines text line after ∧ cursor.rest = after ∧ cursor.column = line ∧
    after.length ≤ s.cursor.rest.length ∧ s.pause = .ok ((b.close (line + 1)).layout cursor true)

/-- Before a line at its column, the reader is ready for it. -/
theorem ready_blanks (count : Nat) (hlines : Lines text line after)
    (hrest : s.cursor.rest = blanks count ++ after) (hcolumn : s.cursor.column + count = line)
    (hflow : s.outerCandidates = [])
    (hspare : Spare s.cursor.line s.candidate) (hallowed : s.keyAllowed = true) :
    Ready s text ⟨s.margin, s.outerMargins, s.tokens⟩ := by
  refine ⟨line, after, s.cursor.along count after, hlines, rfl, hcolumn, ?_, ?_⟩
  · rw [hrest, List.length_append]
    omega
  · rw [pause_blanks count hrest (hcolumn ▸ hlines.begins) hflow hspare, hcolumn, hallowed]

/-- The reader is ready for the lines behind a line end. -/
theorem ready_break (hlines : Lines text line after) (hrest : s.cursor.rest = '\n' :: text)
    (hflow : s.outerCandidates = []) (hspare : Spare (s.cursor.line + 1) s.candidate) :
    Ready s text ⟨s.margin, s.outerMargins, s.tokens⟩ := by
  have hadvance := Cursor.advance_break hrest rfl
  have hinFlow : s.inFlow = false := by
    unfold inFlow
    rw [hflow]
    rfl
  have hnext : s.pause =
      ({ s with cursor := s.cursor.advance, keyAllowed := true } : Layout).pause := by
    unfold pause
    rw [skipSpace_break hrest hinFlow, hrest, List.length_cons, hadvance]
  have hready : Ready { s with cursor := s.cursor.advance, keyAllowed := true } text
      ⟨s.margin, s.outerMargins, s.tokens⟩ := by
    refine ready_blanks (s := { s with cursor := s.cursor.advance, keyAllowed := true }) line
      hlines ?_ ?_ hflow ?_ rfl
    · rw [hadvance]
      exact hlines.eq
    · rw [hadvance]
      exact Nat.zero_add line
    · rw [hadvance]
      exact hspare
  obtain ⟨line, after, cursor, hlines, hcursor, hcolumn, hlength, hpause⟩ := hready
  refine ⟨line, after, cursor, hlines, hcursor, hcolumn, ?_, hnext.trans hpause⟩
  have hshort : s.cursor.advance.rest.length ≤ s.cursor.rest.length := by
    rw [hadvance, hrest]
    exact Nat.le_succ _
  exact Nat.le_trans hlength hshort

/-- Lines begin below a key. -/
theorem ready_below (hlines : Lines text line after) (hrest : cursor.rest = '\n' :: text) :
    Ready (b.layout cursor allowed) text b :=
  ready_break hlines hrest rfl fun _ h => by cases h

/-- Lines begin behind a mark. -/
theorem ready_behind (hlines : Lines text line after) (hrest : cursor.rest = ' ' :: after)
    (hcolumn : cursor.column + 1 = line) : Ready (b.layout cursor true) text b :=
  ready_blanks (s := b.layout cursor true) 1 hlines hrest hcolumn rfl (fun _ h => by cases h) rfl

/-- A reader that is ready comes to stand at the line that begins there. -/
theorem Ready.stands (h : Ready s text b) (hlines : Lines text line after)
    (hmargin : b.margin ≤ line + 1) : ∃ cursor, cursor.rest = after ∧ cursor.column = line ∧
      after.length ≤ s.cursor.rest.length ∧ s.pause = .ok (b.layout cursor true) := by
  obtain ⟨line', after', cursor, hlines', hrest, hcolumn, hlength, hpause⟩ := h
  obtain ⟨rfl, rfl⟩ := hlines.unique hlines'
  rw [Blocks.close_eq_self hmargin] at hpause
  exact ⟨cursor, hrest, hcolumn, hlength, hpause⟩

/-- A line that begins before a block ends the block. -/
theorem Ready.leave {column next : Nat} {outer : List Nat} {tokens : List Token}
    (h : Ready s text ⟨column + 1, next :: outer, tokens⟩) (hlines : Lines text line after)
    (hline : line < column) : Ready s text ⟨next, outer, .blockEnd :: tokens⟩ := by
  obtain ⟨line', after', cursor, hlines', hrest, hcolumn, hlength, hpause⟩ := h
  obtain ⟨rfl, rfl⟩ := hlines.unique hlines'
  rw [Blocks.close_cons (Nat.succ_lt_succ hline)] at hpause
  exact ⟨line, after, cursor, hlines', hrest, hcolumn, hlength, hpause⟩

/-- At the end of the text all blocks end. -/
theorem Ready.readAll_end (h : Ready s [] b) :
    readAll (fuel + 1) s = .ok (b.close 0).tokens.reverse := by
  obtain ⟨line, after, cursor, hlines, hrest, -, -, hpause⟩ := h
  obtain ⟨rfl, rfl⟩ := hlines.unique lines_nil
  rw [Layout.readAll_end hpause hrest, Blocks.close_close (Nat.zero_le _)]

/-! ### Steps -/

/-- Reading comes from a layout to another one, with a character at least for each token. -/
def Leads (s t : Layout) : Prop :=
  ∃ count, t.cursor.rest.length + count ≤ s.cursor.rest.length ∧
    ∀ fuel, readAll (fuel + count) s = readAll fuel t

theorem Leads.refl (s : Layout) : Leads s s := ⟨0, Nat.le_refl _, fun _ => rfl⟩

theorem Leads.trans (hst : Leads s t) (htu : Leads t u) : Leads s u := by
  obtain ⟨m, hm, hst⟩ := hst
  obtain ⟨n, hn, htu⟩ := htu
  refine ⟨n + m, by omega, fun fuel => ?_⟩
  rw [← Nat.add_assoc, hst, htu]

/-- A token that takes a character is one step of reading. -/
theorem leads_token (hpause : s.pause = .ok u) (hrest : u.cursor.rest = c :: rest)
    (hfetch : u.fetch c rest = .ok t) (hlength : t.cursor.rest.length < s.cursor.rest.length) :
    Leads s t := by
  refine ⟨1, hlength, fun fuel => ?_⟩
  rw [readAll_token hpause hrest, hfetch]
  rfl

/-! ## 4. Indicators -/

theorem isDocumentMark_of_ne {mark : Char} (h : c ≠ mark) :
    isDocumentMark mark (c :: rest) = false := by
  unfold isDocumentMark
  split
  · rename_i heq
    cases heq
    simp [h]
  · rfl

theorem isDocumentMark_of_endsWord (h : endsWord rest = true) :
    isDocumentMark '-' ('-' :: rest) = false := by
  unfold isDocumentMark
  split
  · rename_i a b c more heq
    cases heq
    have hb : b ≠ '-' := by
      rintro rfl
      cases h
    simp [hb]
  · rfl

theorem openBlock_layout (token : Token) : (b.layout cursor allowed).openBlock token =
    (b.enter cursor.column token).layout cursor allowed := by
  have hopens : (b.layout cursor allowed).opensAt cursor.column = decide (b.margin ≤ cursor.column) :=
    rfl
  unfold openBlock Blocks.enter
  show (if (b.layout cursor allowed).opensAt cursor.column = true then _ else _) = _
  rw [hopens]
  by_cases hmargin : b.margin ≤ cursor.column
  · rw [if_pos (decide_eq_true hmargin), if_pos hmargin]
    rfl
  · rw [if_neg (by simp [hmargin]), if_neg hmargin]

/-- A dash before a blank is an item, and opens a block sequence unless one is open there. -/
theorem fetch_dash (hrest : cursor.rest = '-' :: rest) (h : endsWord rest = true) :
    (b.layout cursor true).fetch '-' rest =
      .ok (((b.enter cursor.column .blockSequenceStart).append [.blockEntry]).layout
        (cursor.along 1 rest) true) := by
  have hskip : cursor.skip 1 = cursor.along 1 rest := Cursor.advance_eq hrest rfl
  have hfetch : (b.layout cursor true).fetch '-' rest = (b.layout cursor true).fetchBlockEntry := by
    unfold fetch
    simp [isDocumentMark_of_endsWord h, isDocumentMark_of_ne, h]
  rw [hfetch, ← hskip]
  show ((b.layout cursor true).openBlock .blockSequenceStart).dropCandidate >>= _ = _
  rw [openBlock_layout]
  rfl

/-- A question mark before a blank announces a key of a block mapping. -/
theorem fetch_question (hrest : cursor.rest = '?' :: rest) (h : endsWord rest = true) :
    (b.layout cursor true).fetch '?' rest =
      .ok (((b.enter cursor.column .blockMappingStart).append [.key]).layout
        (cursor.along 1 rest) true) := by
  have hskip : cursor.skip 1 = cursor.along 1 rest := Cursor.advance_eq hrest rfl
  have hfetch : (b.layout cursor true).fetch '?' rest = (b.layout cursor true).fetchKey := by
    unfold fetch
    simp [isDocumentMark_of_ne, h]
  rw [hfetch, ← hskip]
  show ((b.layout cursor true).openBlock .blockMappingStart).dropCandidate >>= _ = _
  rw [openBlock_layout]
  rfl

theorem fetch_eq_fetchValue (h : endsWord rest = true) : s.fetch ':' rest = s.fetchValue := by
  unfold fetch
  simp [isDocumentMark_of_ne, h]

/-- A colon before a blank announces a value of a block mapping. -/
theorem fetch_colon (hrest : cursor.rest = ':' :: rest) (h : endsWord rest = true) :
    (b.layout cursor true).fetch ':' rest =
      .ok (((b.enter cursor.column .blockMappingStart).append [.value]).layout
        (cursor.along 1 rest) true) := by
  have hskip : cursor.skip 1 = cursor.along 1 rest := Cursor.advance_eq hrest rfl
  have hfetch : (b.layout cursor true).fetchValue =
      .ok { ((b.layout cursor true).openBlock .blockMappingStart).take 1 .value with
        keyAllowed := !((b.layout cursor true).openBlock .blockMappingStart).inFlow } := rfl
  rw [fetch_eq_fetchValue h, hfetch, openBlock_layout, ← hskip]
  rfl

inductive Mark : Char → Token → Token → Prop
  | dash : Mark '-' .blockSequenceStart .blockEntry
  | question : Mark '?' .blockMappingStart .key
  | colon : Mark ':' .blockMappingStart .value

/-- From a line that begins with an indicator to what stands behind it. -/
theorem leads_mark {column : Nat} {start token : Token} (h : Mark c start token)
    (hready : Ready s (blanks column ++ c :: rest) b) (hmargin : b.margin ≤ column + 1)
    (hends : endsWord rest = true) :
    ∃ place, place.rest = rest ∧ place.column = column + 1 ∧
      Leads s (((b.enter column start).append [token]).layout place true) := by
  have hlines : Lines (blanks column ++ c :: rest) column (c :: rest) := by
    refine ⟨rfl, ?_⟩
    cases h <;> exact .token rfl rfl (by decide) (by decide)
  obtain ⟨cursor, hrest, rfl, hshort, hpause⟩ := hready.stands hlines hmargin
  have hfetch : (b.layout cursor true).fetch c rest =
      .ok (((b.enter cursor.column start).append [token]).layout (cursor.along 1 rest) true) := by
    cases h with
    | dash => exact fetch_dash hrest hends
    | question => exact fetch_question hrest hends
    | colon => exact fetch_colon hrest hends
  exact ⟨cursor.along 1 rest, rfl, rfl, leads_token hpause hrest hfetch hshort⟩

/-- Where no key may begin, an indicator is misplaced. -/
theorem fetch_misplaced (hc : c = '-' ∨ c = '?' ∨ c = ':') (h : endsWord rest = true) :
    (b.layout cursor false).fetch c rest = .error .misplacedIndicator := by
  obtain rfl | rfl | rfl := hc
  · have hfetch : (b.layout cursor false).fetch '-' rest =
        (b.layout cursor false).fetchBlockEntry := by
      unfold fetch
      simp [isDocumentMark_of_endsWord h, isDocumentMark_of_ne, h]
    rw [hfetch]
    rfl
  · have hfetch : (b.layout cursor false).fetch '?' rest = (b.layout cursor false).fetchKey := by
      unfold fetch
      simp [isDocumentMark_of_ne, h]
    rw [hfetch]
    rfl
  · rw [fetch_eq_fetchValue h]
    rfl

/-! ## 5. Scalars -/

def keyHere (b : Blocks) (cursor : Cursor) : KeyCandidate :=
  { position := b.tokens.length, index := cursor.index, line := cursor.line,
    column := cursor.column, required := b.margin == cursor.column + 1 }

def withKey (b : Blocks) (cursor : Cursor) (allowed : Bool) (key : Option KeyCandidate) : Layout :=
  { b.layout cursor allowed with candidate := key }

/-- Where a key may begin, the node is remembered as one. -/
theorem saveCandidate_layout : (b.layout cursor allowed).saveCandidate =
    .ok (withKey b cursor allowed (if allowed then some (keyHere b cursor) else none)) := by
  cases allowed <;> rfl

structure BeginsPlain (c : Char) (rest : List Char) : Prop where
  unlisted : c ∉ "\t,[]\x7b\x7d#&*!|>'\"%@`".toList
  word : c = '-' ∨ c = '?' ∨ c = ':' → endsWord rest = false
  unmarked : isDocumentMark '-' (c :: rest) = false ∧ isDocumentMark '.' (c :: rest) = false

theorem fetch_eq_fetchPlain (h : BeginsPlain c rest) :
    (b.layout cursor allowed).fetch c rest = (b.layout cursor allowed).fetchPlain := by
  obtain ⟨unlisted, word, hdash, hdot⟩ := h
  -- Every test of `fetch` before the last one fails.
  have hne {d : Char} (hd : d ∈ "\t,[]\x7b\x7d#&*!|>'\"%@`".toList) : (c == d) = false :=
    beq_eq_false_iff_ne.mpr fun h => unlisted (h ▸ hd)
  have hword (d : Char) (hd : d = '-' ∨ d = '?' ∨ d = ':') : (c == d && endsWord rest) = false := by
    rw [Bool.and_eq_false_imp, beq_iff_eq]
    rintro rfl
    exact word hd
  have hbegins : beginsPlain false c rest = true := by
    have hcontains : "\t,[]\x7b\x7d#&*!|>'\"%@`".toList.contains c = false := by
      simpa using unlisted
    unfold beginsPlain
    split
    · rename_i hc
      have hends := word (.inl (beq_iff_eq.mp hc))
      cases rest with
      | nil => cases hends
      | cons d rest =>
        have hblank : isBlank d = false := (Bool.or_eq_false_iff.mp hends).1
        simp [hblank]
    · split
      · rename_i hc
        rw [Bool.or_eq_true, beq_iff_eq, beq_iff_eq] at hc
        rw [word (.inr hc)]
        rfl
      · rw [hcontains]
        rfl
  have hflow : (b.layout cursor allowed).inFlow = false := rfl
  unfold fetch
  simp only [hflow, hbegins, hdash, hdot, hword '-' (.inl rfl), Bool.false_or,
    hword '?' (.inr (.inl rfl)), hword ':' (.inr (.inr rfl)), hne (by decide : '%' ∈ _),
    hne (by decide : '[' ∈ _), hne (by decide : '\x7b' ∈ _), hne (by decide : ']' ∈ _),
    hne (by decide : '\x7d' ∈ _), hne (by decide : ',' ∈ _), hne (by decide : '*' ∈ _),
    hne (by decide : '&' ∈ _), hne (by decide : '!' ∈ _), hne (by decide : '|' ∈ _),
    hne (by decide : '>' ∈ _), hne (by decide : '\'' ∈ _), hne (by decide : '"' ∈ _),
    Bool.and_false, Bool.false_and, Bool.false_eq_true, if_false, if_true]

/-- A plain scalar goes as far as its reader does. -/
theorem fetch_plain (allowed : Bool) {more : List Char} {fresh : Bool} (hbegins : BeginsPlain c rest)
    (hrest : cursor.rest = c :: rest)
    (hread : Scalar.readPlain false b.margin .none cursor.column (c :: rest) =
      .ok (text, fresh, more)) :
    (b.layout cursor allowed).fetch c rest =
      .ok (withKey (b.append [.scalar .plain (String.ofList text)]) (cursor.seek more) fresh
        (if allowed then some (keyHere b cursor) else none)) := by
  rw [fetch_eq_fetchPlain hbegins]
  unfold fetchPlain
  rw [saveCandidate_layout]
  show Scalar.readPlain false b.margin .none cursor.column cursor.rest >>= _ = _
  rw [hrest, hread]
  rfl

theorem fetch_quoted (single allowed : Bool) (hc : c = if single then '\'' else '"')
    (hrest : cursor.rest = c :: rest) {more : List Char}
    (hread : Scalar.readQuoted single (c :: rest).length .none false rest = .ok (text, more)) :
    (b.layout cursor allowed).fetch c rest =
      .ok (withKey (b.append [.scalar (if single then .singleQuoted else .doubleQuoted)
        (String.ofList text)]) (cursor.seek more) false
        (if allowed then some (keyHere b cursor) else none)) := by
  have hfetch : (b.layout cursor allowed).fetch c rest =
      (b.layout cursor allowed).fetchQuoted single := by
    subst hc
    unfold fetch
    cases single <;> simp [isDocumentMark_of_ne]
  rw [hfetch]
  unfold fetchQuoted
  rw [saveCandidate_layout]
  show Scalar.readQuoted single cursor.rest.length .none false cursor.rest.tail >>= _ = _
  rw [hrest]
  show Scalar.readQuoted single (c :: rest).length .none false rest >>= _ = _
  rw [hread]
  cases single <;> rfl

theorem fetch_literal (allowed : Bool) (hrest : cursor.rest = '|' :: rest) {more : List Char}
    (hread : Scalar.readBlock true b.margin rest = .ok (text, more)) :
    (b.layout cursor allowed).fetch '|' rest =
      .ok ((b.append [.scalar .literal (String.ofList text)]).layout (cursor.seek more) true) := by
  have hfetch : (b.layout cursor allowed).fetch '|' rest =
      (b.layout cursor allowed).fetchBlockScalar true := by
    have hflow : (b.layout cursor allowed).inFlow = false := rfl
    unfold fetch
    simp [isDocumentMark_of_ne, hflow]
  rw [hfetch]
  unfold fetchBlockScalar
  show Scalar.readBlock true b.margin cursor.rest.tail >>= _ = _
  rw [hrest]
  show Scalar.readBlock true b.margin rest >>= _ = _
  rw [hread]
  rfl

end Layout

end Conform.Yaml
