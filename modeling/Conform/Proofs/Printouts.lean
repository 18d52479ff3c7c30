import Conform.Proofs.Endings
import Conform.Run

/-!
# Printouts — outcomes that are printed and read again

An outcome is printed without white space at its end but one line feed.  What is printed is read as
the outcome just where what was written is, and the last message keeps its end
(`Yaml.printDocument_readsAs_iff`).
-/

namespace Conform

/-! ## 1. The last message of an outcome -/

def Outcome.lastMessage? (o : Outcome) : Option String :=
  (o.errorList ++ o.warningList).getLast?.map Diagnostic.message

namespace Yaml

open Writer

/-- A mapping with a list at its end, as outcomes are. -/
theorem exists_listing_of_concat (status key : String) (simple : isSimpleKey key = true)
    (before : List (String × Document)) (ds : List Diagnostic) (d : Diagnostic) :
    ∃ l : Listing, l.message = d.message ∧ l.document = .map [("status", .string status),
      ("meta", .map (before ++ [(key, .list ((ds ++ [d]).map Diagnostic.toDocument))]))] := by
  refine ⟨⟨status, before, key, simple, ds.map Diagnostic.toDocument, [("value", d.value.toDocument),
    ("schema", d.schema.toValue.toDocument), ("path", d.path.toDocument)], d.message⟩, rfl, ?_⟩
  rw [List.map_append]
  rfl

/-- An outcome with diagnostics is a listing that ends with the message of the last one. -/
theorem exists_listing {o : Outcome} {m : String} (h : o.lastMessage? = some m) :
    ∃ l : Listing, l.message = m ∧ l.document = o.toDocument := by
  have hconcat {ds : List Diagnostic} (h : ds.getLast?.map Diagnostic.message = some m) :
      ∃ front d, ds = front ++ [d] ∧ d.message = m := by
    obtain ⟨d, hlast, hd⟩ := Option.map_eq_some_iff.mp h
    obtain ⟨front, hds⟩ := List.getLast?_eq_some_iff.mp hlast
    exact ⟨front, d, hds, hd⟩
  cases o with
  | ok sanitized warnings =>
    obtain ⟨front, d, rfl, rfl⟩ := hconcat h
    exact exists_listing_of_concat "ok" "warnings" (by decide)
      [("sanitized", sanitized.toDocument)] front d
  | errors list =>
    have hlast : (list ++ []).getLast?.map Diagnostic.message = some m := h
    rw [List.append_nil] at hlast
    obtain ⟨front, d, rfl, rfl⟩ := hconcat hlast
    exact exists_listing_of_concat "errors" "list" (by decide) [] front d

/-- Without diagnostics, an outcome ends in an empty list. -/
theorem document_of_nothing {o : Outcome} (h : o.lastMessage? = none) :
    ∃ front, Writer.document o.toDocument = front ++ [']', '\n'] := by
  have hlist (status key : String) (simple : isSimpleKey key = true)
      (before : List (String × Document)) :
      ∃ front, Writer.document (.map [("status", .string status),
        ("meta", .map (before ++ [(key, .list [])]))]) = front ++ [']', '\n'] := by
    have hmeta : isSimpleKey "meta" = true := by decide
    have hempty : behindKey 2 (.list []) = [' ', '[', ']', '\n'] := rfl
    refine ⟨pairs 0 [("status", .string status)] ++ (string 2 "meta" ++ ':' :: '\n' ::
      (pairs 2 before ++ (blanks 2 ++ (string 4 key ++ [':', ' ', '['])))), ?_⟩
    show pairs 0 ([("status", .string status)] ++ [("meta", _)]) = _
    rw [pairs_concat hmeta, behindKey_map (by simp), pairs_concat simple, hempty]
    simp [entry, blanks]
  unfold Outcome.lastMessage? at h
  rw [Option.map_eq_none_iff, List.getLast?_eq_none_iff] at h
  cases o with
  | ok sanitized warnings =>
    obtain rfl : warnings = [] := h
    exact hlist "ok" "warnings" (by decide) [("sanitized", sanitized.toDocument)]
  | errors list =>
    obtain rfl : list = [] := (List.append_eq_nil_iff.mp h).1
    exact hlist "errors" "list" (by decide) []

/-! ## 2. What is printed -/

theorem printDocument_yaml (d : Document) :
    printDocument .yaml d = String.ofList (Text.trimEnd (Writer.document d) ++ ['\n']) := by
  unfold printDocument write
  rw [← String.toList_inj]
  simp

/-- The text of an outcome is printed as it is just if the end of its last message is kept. -/
theorem printDocument_eq_write_iff (o : Outcome) :
    printDocument .yaml o.toDocument = write o.toDocument ↔
      ∀ m, o.lastMessage? = some m → Style.KeepsEnd m := by
  have hprint : printDocument .yaml o.toDocument = write o.toDocument ↔
      Text.trimEnd (Writer.document o.toDocument) ++ ['\n'] = Writer.document o.toDocument := by
    rw [printDocument_yaml, write, String.ofList_inj]
  rw [hprint]
  cases hlast : o.lastMessage? with
  | some m =>
    obtain ⟨l, rfl, hdocument⟩ := exists_listing hlast
    obtain ⟨front, hfront⟩ := l.exists_front
    have hsplit : Writer.document o.toDocument =
        front ++ [':', ' '] ++ endLine (string 6 l.message) := by
      rw [← hdocument, l.document_eq, hfront]
      simp
    rw [hsplit, trimEnd_string_iff]
    exact ⟨fun h _ hm => Option.some.inj hm ▸ h, fun h => h _ rfl⟩
  | none =>
    obtain ⟨front, hfront⟩ := document_of_nothing hlast
    rw [hfront]
    refine iff_of_true (Text.trimEnd_line_iff.mpr ?_) nofun
    exact Number.isWhiteSpace_of_ascii (by decide) (by decide)

/-- Whatever is left of the last message is no longer read as the message. -/
theorem not_readsAs_of_not_keepsEnd {o : Outcome} {m : String} (hm : o.lastMessage? = some m)
    (hlost : ¬ Style.KeepsEnd m) : ¬ ReadsAs (printDocument .yaml o.toDocument) o.toDocument := by
  obtain ⟨l, rfl, hdocument⟩ := exists_listing hm
  obtain ⟨front, hfront⟩ := l.exists_front
  obtain ⟨tail, r, hends, hread, hother, htrim⟩ := exists_tail hlost
  have htext : Text.trimEnd (Writer.document l.document) ++ ['\n'] = l.text tail := by
    rw [l.document_eq, hfront, htrim, hfront]
  have hprints : Prints (l.text tail) := by
    rw [← htext]
    apply prints_append.mpr ⟨fun c hc => ?_, prints_cons.mpr ⟨rfl, prints_nil⟩⟩
    exact prints_pairs _ 0 c ((List.rdropWhile_prefix _ _).subset hc)
  rw [← hdocument, printDocument_yaml, htext]
  intro h
  obtain ⟨style, hr⟩ := Listing.message_of_readsAs hends hprints hread h
  exact hother style hr

/-! ## 3. Reading what is printed -/

/-- What is printed of an outcome is read as the outcome just where what was written is, and the end
of the last message is kept. -/
theorem printDocument_readsAs_iff (o : Outcome) :
    ReadsAs (printDocument .yaml o.toDocument) o.toDocument ↔
      ReadsAs (write o.toDocument) o.toDocument ∧
        ∀ m, o.lastMessage? = some m → Style.KeepsEnd m := by
  constructor
  · intro h
    have hkeeps (m : String) (hm : o.lastMessage? = some m) : Style.KeepsEnd m := by
      by_contra hlost
      exact not_readsAs_of_not_keepsEnd hm hlost h
    rw [(printDocument_eq_write_iff o).mpr hkeeps] at h
    exact ⟨h, hkeeps⟩
  · rintro ⟨h, hkeeps⟩
    rwa [(printDocument_eq_write_iff o).mpr hkeeps]

def choice : SchemaRef := .inline (.enum "value" "meta" true [("x", [])])

def choosing (name : String) : Value := .map [("value", .string name)]

def rejected (name : String) : Outcome :=
  .errors [⟨choosing name, choice, [], .notAllowed name⟩]

/-- The outcome of a rejected choice can be told from its text. -/
theorem legible_rejected (name : String) : Legible (rejected name).toDocument := by
  show Legible (.map [("status", .string "errors"), ("meta", .map [("list", .list [.map
    [("value", .map [("value", .string name)]),
      ("schema", .map [("type", .string "enum"), ("meta", .map [("value_field", .string "value"),
        ("meta_field", .string "meta"), ("strict", .bool true),
        ("options", .map [("x", .map [])])])]),
      ("path", .list []), ("message", .string (Finding.notAllowed name).message)]])])])
  simp [Legible, LegiblePairs, LegibleItems]

/-- Of two line feeds at the end of the last message one is lost, where a name that ends in them is
validated. -/
theorem printDocument_readsAs_lost :
    (validate ⟨choosing "a\n\n", {}, {}⟩ (choosing "a\n\n") choice).map Outcome.ofReport =
        .ok (rejected "a\n\n") ∧
      ReadsAs (write (rejected "a\n\n").toDocument) (rejected "a\n\n").toDocument ∧
      ¬ ReadsAs (printDocument .yaml (rejected "a\n\n").toDocument)
        (rejected "a\n\n").toDocument := by
  let message := "value not allowed by enum: a\n\n"
  refine ⟨rfl, ?_, ?_⟩
  · apply readsAs_write (legible_rejected _)
    show 8 ≤ 128
    decide
  · apply not_readsAs_of_not_keepsEnd (m := message) rfl
    have hliteral : Style.ofText message = .literal := by decide
    have hends : message.toList = "value not allowed by enum: a\n".toList ++ ['\n'] := by decide
    have hfeed : "value not allowed by enum: a\n".toList.getLast? = some '\n' := by decide
    unfold Style.KeepsEnd
    rw [hliteral, hends]
    intro hkeeps
    obtain ⟨front, c, h, hc, -⟩ := (keeps_break_iff rfl).mp hkeeps
    rw [h, List.getLast?_concat, Option.some.injEq] at hfeed
    subst hfeed
    rw [isWhiteSpace_lineFeed] at hc
    cases hc

end Yaml

end Conform
