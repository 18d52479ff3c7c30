import Conform.Pattern

/-!
# Literals — the literal of a pattern is read as the pattern

Flags hold no slash, so the last slash of a literal is the one behind the source, whatever slashes
the source holds.  A text is therefore a literal in one way at most (`IsLiteral.unique`), and it is
read as what its source compiles to under its flags (`ofLiteral_grammar`).
-/

namespace Conform

/-! ## 1. Written flags -/

namespace PatternFlags

def ofSpelling (written : String) : PatternFlags where
  ignoreCase := written.toList.contains 'i'
  multiLine := written.toList.contains 'm'

def Lacks (flags : PatternFlags) (c : Char) : Prop :=
  (c = 'i' ∧ flags.ignoreCase = false) ∨ (c = 'm' ∧ flags.multiLine = false)

variable {flags next : PatternFlags} {c : Char} {chars : List Char} {written : String}

/-- A flag is set where it was lacking, and is not lacking any more. -/
theorem add?_eq_some (h : flags.add? c = some next) :
    flags.Lacks c ∧ ∀ d, next.Lacks d → flags.Lacks d ∧ d ≠ c := by
  unfold add? at h
  split at h
  · cases hflag : flags.ignoreCase with
    | true => rw [hflag] at h; cases h
    | false =>
      rw [hflag] at h
      cases h
      refine ⟨.inl ⟨rfl, hflag⟩, fun d hd => ?_⟩
      obtain ⟨-, hset⟩ | ⟨rfl, hlacks⟩ := hd
      · cases hset
      · exact ⟨.inr ⟨rfl, hlacks⟩, by decide⟩
  · cases hflag : flags.multiLine with
    | true => rw [hflag] at h; cases h
    | false =>
      rw [hflag] at h
      cases h
      refine ⟨.inr ⟨rfl, hflag⟩, fun d hd => ?_⟩
      obtain ⟨rfl, hlacks⟩ | ⟨-, hset⟩ := hd
      · exact ⟨.inl ⟨rfl, hlacks⟩, by decide⟩
      · cases hset
  · cases h

/-- Flags that are read one by one were all lacking before, and none comes twice. -/
theorem foldlM_add?_eq_some (h : chars.foldlM add? flags = some next) :
    chars.Nodup ∧ ∀ c ∈ chars, flags.Lacks c := by
  induction chars generalizing flags with
  | nil => exact ⟨List.nodup_nil, fun _ hc => absurd hc List.not_mem_nil⟩
  | cons c rest ih =>
    rw [List.foldlM_cons] at h
    obtain ⟨added, hadd, hrest⟩ := Option.bind_eq_some_iff.mp h
    obtain ⟨hlacks, hstep⟩ := add?_eq_some hadd
    obtain ⟨hnodup, hlater⟩ := ih hrest
    constructor
    · exact List.nodup_cons.mpr ⟨fun hc => (hstep c (hlater c hc)).2 rfl, hnodup⟩
    · exact List.forall_mem_cons.mpr ⟨hlacks, fun d hd => (hstep d (hlater d hd)).1⟩

/-- Two flags can be put down in no other ways. -/
theorem mem_spellings_of_nodup (hnodup : chars.Nodup) (h : ∀ c ∈ chars, c = 'i' ∨ c = 'm') :
    String.ofList chars ∈ spellings := by
  match chars with
  | [] => decide
  | [c] =>
    obtain rfl | rfl := h c List.mem_cons_self <;> decide
  | [c, d] =>
    rw [List.forall_mem_cons, List.forall_mem_singleton] at h
    obtain ⟨rfl | rfl, rfl | rfl⟩ := h <;> revert hnodup <;> decide
  | c :: d :: e :: rest =>
    rw [List.forall_mem_cons, List.forall_mem_cons, List.forall_mem_cons] at h
    rw [List.nodup_cons, List.nodup_cons, List.mem_cons, List.mem_cons, List.mem_cons] at hnodup
    obtain ⟨hc, hd, he, -⟩ := h
    obtain ⟨hfirst, hsecond, -⟩ := hnodup
    -- Of three flags two are the same.
    obtain rfl | rfl := hc <;> obtain rfl | rfl := hd <;> obtain rfl | rfl := he <;>
      simp at hfirst hsecond

theorem ofChars?_of_mem (h : written ∈ spellings) :
    ofChars? written.toList = some (ofSpelling written) := by
  revert h
  revert written
  decide

/-- Reading flags one by one takes the same texts as looking them up. -/
theorem ofChars?_eq (written : String) :
    ofChars? written.toList = if written ∈ spellings then some (ofSpelling written) else none := by
  by_cases h : written ∈ spellings
  · rw [if_pos h, ofChars?_of_mem h]
  · rw [if_neg h]
    cases hread : ofChars? written.toList with
    | none => rfl
    | some flags =>
      obtain ⟨hnodup, hlacks⟩ := foldlM_add?_eq_some hread
      have hspelled := mem_spellings_of_nodup hnodup fun c hc => (hlacks c hc).imp And.left And.left
      rw [String.ofList_toList] at hspelled
      exact absurd hspelled h

/-- Flags hold no slash. -/
theorem slash_notMem_of_mem (h : written ∈ spellings) : '/' ∉ written.toList := by
  revert h
  revert written
  decide

/-- The canonical spelling of flags. -/
theorem toText_mem_spellings (flags : PatternFlags) : flags.toText ∈ spellings := by
  rcases flags with ⟨ignoreCase, multiLine⟩
  cases ignoreCase <;> cases multiLine <;> decide

theorem ofSpelling_toText (flags : PatternFlags) : ofSpelling flags.toText = flags := by
  rcases flags with ⟨ignoreCase, multiLine⟩
  cases ignoreCase <;> cases multiLine <;> decide

/-- Only `mi` is not the canonical spelling of its flags. -/
theorem toText_ofSpelling (h : written ∈ spellings) :
    (ofSpelling written).toText = if written = "mi" then "im" else written := by
  revert h
  revert written
  decide

end PatternFlags

/-! ## 2. The last slash -/

namespace Pattern

section Split

variable {separator : Char} {text before after : List Char}

theorem splitLast?_of_notMem (h : separator ∉ text) : splitLast? separator text = none := by
  induction text with
  | nil => rfl
  | cons c rest ih =>
    rw [List.mem_cons, not_or] at h
    rw [splitLast?, ih h.2]
    exact if_neg (Ne.symm h.1)

/-- The last separator is the one behind which none follows. -/
theorem splitLast?_append (before : List Char) (h : separator ∉ after) :
    splitLast? separator (before ++ separator :: after) = some (before, after) := by
  induction before with
  | nil =>
    rw [List.nil_append, splitLast?, splitLast?_of_notMem h]
    exact if_pos rfl
  | cons c before ih => rw [List.cons_append, splitLast?, ih]

/-- What is split can be put together again. -/
theorem eq_of_splitLast?_eq_some (h : splitLast? separator text = some (before, after)) :
    text = before ++ separator :: after := by
  induction text generalizing before with
  | nil => cases h
  | cons c rest ih =>
    rw [splitLast?] at h
    cases hrest : splitLast? separator rest with
    | some split =>
      rw [hrest] at h
      cases h
      rw [ih hrest, List.cons_append]
    | none =>
      rw [hrest] at h
      dsimp only at h
      split at h
      · rename_i hc
        cases h
        rw [hc, List.nil_append]
      · cases h

end Split

/-! ## 3. Literals -/

/-- A text is the literal of a source under written flags. -/
structure IsLiteral (text source written : String) : Prop where
  spelled : written ∈ PatternFlags.spellings
  text_eq : text = "/" ++ source ++ "/" ++ written

section Reading

variable {text source written : String} {flags : PatternFlags} {p : Pattern}

/-- A literal is a source between slashes, with its flags behind. -/
theorem IsLiteral.toList_eq (h : IsLiteral text source written) :
    text.toList = '/' :: (source.toList ++ '/' :: written.toList) := by
  rw [h.text_eq, String.toList_append, String.toList_append, String.toList_append]
  simp only [List.append_assoc]
  rfl

theorem isLiteral_of_toList {body before after : List Char} (htext : text.toList = '/' :: body)
    (hbody : body = before ++ '/' :: after)
    (hspelled : String.ofList after ∈ PatternFlags.spellings) :
    IsLiteral text (String.ofList before) (String.ofList after) := by
  refine ⟨hspelled, String.toList_inj.mp ?_⟩
  rw [htext, hbody]
  simp only [String.toList_append, String.toList_ofList, List.append_assoc]
  rfl

/-- A text is the literal of one source under one spelling of flags. -/
theorem IsLiteral.unique {source' written' : String} (h : IsLiteral text source written)
    (h' : IsLiteral text source' written') : source = source' ∧ written = written' := by
  have hbody := (List.cons.inj (h.toList_eq.symm.trans h'.toList_eq)).2
  have hsplit := splitLast?_append source.toList (PatternFlags.slash_notMem_of_mem h.spelled)
  rw [hbody, splitLast?_append source'.toList (PatternFlags.slash_notMem_of_mem h'.spelled)]
    at hsplit
  obtain ⟨hsource, hwritten⟩ := Prod.mk.inj (Option.some.inj hsplit)
  exact ⟨String.toList_inj.mp hsource.symm, String.toList_inj.mp hwritten.symm⟩

/-- A source is compiled under flags that are spelled, and under no others. -/
theorem ofSource_eq (source written : String) :
    ofSource source written =
      if written ∈ PatternFlags.spellings then compile source (.ofSpelling written)
      else .error (.unsupportedFlags written) := by
  unfold ofSource
  rw [PatternFlags.ofChars?_eq]
  by_cases h : written ∈ PatternFlags.spellings
  · rw [if_pos h, if_pos h]
  · rw [if_neg h, if_neg h]

/-- A literal is read as what its source compiles to. -/
theorem ofLiteral_of_isLiteral (h : IsLiteral text source written) :
    ofLiteral text = compile source (.ofSpelling written) := by
  have hsplit := splitLast?_append source.toList (PatternFlags.slash_notMem_of_mem h.spelled)
  unfold ofLiteral
  split
  · rename_i body hbody
    rw [h.toList_eq] at hbody
    rw [← (List.cons.inj hbody).2, hsplit]
    dsimp only
    rw [String.ofList_toList, String.ofList_toList,
      if_pos (List.contains_iff_mem.mpr h.spelled), ofSource_eq, if_pos h.spelled]
  · rename_i hother
    exact absurd h.toList_eq (hother _)

theorem ofLiteral_of_not_isLiteral (h : ¬∃ source written, IsLiteral text source written) :
    ofLiteral text = .error (.malformedLiteral text) := by
  unfold ofLiteral
  split
  · rename_i body hbody
    split
    · rename_i before after hsplit
      rw [if_neg]
      intro hspelled
      exact h ⟨_, _, isLiteral_of_toList hbody (eq_of_splitLast?_eq_some hsplit)
        (List.contains_iff_mem.mp hspelled)⟩
    · rfl
  · rfl

end Reading

/-! ## 4. Patterns -/

section Compiling

variable {source : String} {flags : PatternFlags} {p : Pattern}

/-- A pattern is what its source compiles to. -/
theorem compile_source (p : Pattern) : compile p.source p.flags = .ok p := by
  unfold compile
  split
  · exact congrArg Except.ok (ext rfl rfl)
  · rename_i fault hread
    rw [p.compiled] at hread
    cases hread

/-- What a source compiles to is the pattern of this source. -/
theorem compile_eq_ok_iff : compile source flags = .ok p ↔ p.source = source ∧ p.flags = flags := by
  constructor
  · intro h
    unfold compile at h
    split at h
    · cases h
      exact ⟨rfl, rfl⟩
    · cases h
  · rintro ⟨rfl, rfl⟩
    exact compile_source p

theorem compile_eq_error_iff {e : PatternError} :
    compile source flags = .error e ↔
      ∃ fault, e = .compile source fault ∧ Regex.read flags.toSwitches source = .error fault := by
  unfold compile
  split
  · rename_i regex hread
    constructor
    · exact nofun
    · rintro ⟨fault, -, hfault⟩
      rw [hread] at hfault
      cases hfault
  · rename_i fault hread
    constructor
    · intro h
      cases h
      exact ⟨fault, rfl, hread⟩
    · rintro ⟨fault', rfl, hfault⟩
      rw [hread] at hfault
      cases hfault
      rfl

theorem isLiteral_toLiteral (p : Pattern) : IsLiteral p.toLiteral p.source p.flags.toText :=
  ⟨p.flags.toText_mem_spellings, rfl⟩

/-- The literal of a pattern is read as the pattern. -/
theorem ofLiteral_toLiteral (p : Pattern) : ofLiteral p.toLiteral = .ok p := by
  rw [ofLiteral_of_isLiteral p.isLiteral_toLiteral, PatternFlags.ofSpelling_toText, compile_source]

end Compiling

/-! ## 5. The grammar of literals -/

/-- The source of a literal and its flags, as they are written, with what the source compiles to. -/
theorem ofLiteral_eq_ok_iff {text : String} {p : Pattern} :
    ofLiteral text = .ok p ↔
      ∃ written, IsLiteral text p.source written ∧ p.flags = .ofSpelling written := by
  constructor
  · intro h
    by_cases hliteral : ∃ source written, IsLiteral text source written
    · obtain ⟨source, written, hliteral⟩ := hliteral
      rw [ofLiteral_of_isLiteral hliteral, compile_eq_ok_iff] at h
      obtain ⟨rfl, hflags⟩ := h
      exact ⟨written, hliteral, hflags⟩
    · rw [ofLiteral_of_not_isLiteral hliteral] at h
      cases h
  · rintro ⟨written, hliteral, hflags⟩
    rw [ofLiteral_of_isLiteral hliteral, compile_eq_ok_iff]
    exact ⟨rfl, hflags⟩

/-- A text fails as no literal, or with the fault of its source. -/
theorem ofLiteral_eq_error_iff {text : String} {e : PatternError} :
    ofLiteral text = .error e ↔
      (e = .malformedLiteral text ∧ ¬∃ source written, IsLiteral text source written) ∨
      ∃ source written fault, e = .compile source fault ∧ IsLiteral text source written ∧
        Regex.read (PatternFlags.ofSpelling written).toSwitches source = .error fault := by
  by_cases hliteral : ∃ source written, IsLiteral text source written
  · obtain ⟨source, written, hliteral⟩ := hliteral
    rw [ofLiteral_of_isLiteral hliteral, compile_eq_error_iff]
    constructor
    · rintro ⟨fault, rfl, hfault⟩
      exact .inr ⟨source, written, fault, rfl, hliteral, hfault⟩
    · rintro (⟨-, hnot⟩ | ⟨source', written', fault, rfl, hliteral', hfault⟩)
      · exact absurd ⟨source, written, hliteral⟩ hnot
      · obtain ⟨rfl, rfl⟩ := hliteral.unique hliteral'
        exact ⟨fault, rfl, hfault⟩
  · rw [ofLiteral_of_not_isLiteral hliteral]
    constructor
    · intro h
      cases h
      exact .inl ⟨rfl, hliteral⟩
    · rintro (⟨rfl, -⟩ | ⟨source, written, -, -, hliteral', -⟩)
      · rfl
      · exact absurd ⟨source, written, hliteral'⟩ hliteral

/-- A text is read as the pattern of the source and the flags that it is the literal of, and these
are unique.  It is malformed where there are none; otherwise its source can be at fault, its flags
cannot.  The literal of a pattern is read as that pattern, and a literal that is read is given
back as it was, but for the order of two flags. -/
theorem ofLiteral_grammar (text : String) :
    (∀ source, (∃ p, ofLiteral text = .ok p ∧ p.source = source) ↔
      ∃ written regex, IsLiteral text source written ∧
        Regex.read (PatternFlags.ofSpelling written).toSwitches source = .ok regex) ∧
    (∀ source source' written written', IsLiteral text source written →
      IsLiteral text source' written' → source = source' ∧ written = written') ∧
    (ofLiteral text = .error (.malformedLiteral text) ↔
      ¬∃ source written, IsLiteral text source written) ∧
    (∀ e, ofLiteral text = .error e → e = .malformedLiteral text ∨
      ∃ source written fault, e = .compile source fault ∧ IsLiteral text source written ∧
        Regex.read (PatternFlags.ofSpelling written).toSwitches source = .error fault) ∧
    (∀ written, ofLiteral text ≠ .error (.unsupportedFlags written)) ∧
    (∀ p : Pattern, ofLiteral p.toLiteral = .ok p) ∧
    ∀ p, ofLiteral text = .ok p → ∃ written, IsLiteral text p.source written ∧
      p.toLiteral = "/" ++ p.source ++ "/" ++ if written = "mi" then "im" else written := by
  refine ⟨fun source => ?_, fun _ _ _ _ h h' => h.unique h', ?_, fun e h => ?_, fun written h => ?_,
    ofLiteral_toLiteral, fun p h => ?_⟩
  · constructor
    · rintro ⟨p, hread, rfl⟩
      obtain ⟨written, hliteral, hflags⟩ := ofLiteral_eq_ok_iff.mp hread
      exact ⟨written, p.regex, hliteral, hflags ▸ p.compiled⟩
    · rintro ⟨written, regex, hliteral, hregex⟩
      exact ⟨⟨source, _, regex, hregex⟩, ofLiteral_eq_ok_iff.mpr ⟨written, hliteral, rfl⟩, rfl⟩
  · rw [ofLiteral_eq_error_iff]
    constructor
    · rintro (⟨-, hnot⟩ | ⟨_, _, _, h, -⟩)
      · exact hnot
      · cases h
    · exact fun hnot => .inl ⟨rfl, hnot⟩
  · exact (ofLiteral_eq_error_iff.mp h).imp_left And.left
  · obtain ⟨h, -⟩ | ⟨_, _, _, h, -⟩ := ofLiteral_eq_error_iff.mp h <;> cases h
  · obtain ⟨written, hliteral, hflags⟩ := ofLiteral_eq_ok_iff.mp h
    refine ⟨written, hliteral, ?_⟩
    rw [toLiteral, hflags, PatternFlags.toText_ofSpelling hliteral.spelled]

/-- A source with a slash of its own, and flags in the other order. -/
theorem ofLiteral_grammar_slash : ∃ p, ofLiteral "/a/b/mi" = .ok p ∧ p.source = "a/b" ∧
    ofLiteral p.toLiteral = .ok p ∧ p.toLiteral = "/a/b/im" := by
  obtain ⟨hsources, hunique, -, -, -, hread, hgiven⟩ := ofLiteral_grammar "/a/b/mi"
  have hliteral : IsLiteral "/a/b/mi" "a/b" "mi" := ⟨by decide, by decide⟩
  have hcompiles : (Regex.read (PatternFlags.ofSpelling "mi").toSwitches "a/b").toOption.isSome =
      true := by
    decide +kernel
  cases hregex : Regex.read (PatternFlags.ofSpelling "mi").toSwitches "a/b" with
  | error fault => rw [hregex] at hcompiles; cases hcompiles
  | ok regex =>
    obtain ⟨p, hp, hsource⟩ := (hsources "a/b").mpr ⟨"mi", regex, hliteral, hregex⟩
    obtain ⟨written, hliteral', hback⟩ := hgiven p hp
    obtain ⟨-, rfl⟩ := hunique _ _ _ _ hliteral' hliteral
    refine ⟨p, hp, hsource, hread p, ?_⟩
    rw [hback, hsource]
    decide

end Pattern
end Conform
