import Mathlib.Data.List.Basic
import Mathlib.Order.WellFounded
import Conform.Proofs.Completion
import Conform.Proofs.Limits

/-!
# Cycles — which references lead on for ever

Schemas may refer to each other in every way; what a walk cannot come to an end of is a chain from
choice to choice without end.  Where no such chain can be led to, every value has a depth at which
validation completes, and a name that choices lead back to is too deep under every limit
(`validate_completes_unless_cyclic`).
-/

namespace Conform

namespace SchemaSet

variable {set : SchemaSet} {ref candidate : SchemaRef} {schema : Schema} {name : String}

/-! ## 1. Chains that end -/

/-- What is offered by a schema that can be led to can be led to. -/
theorem Reaches.offered {choice : Schema} (h : set.Reaches ref choice)
    (hoffers : set.Offers schema choice) : set.Reaches ref schema := by
  obtain ⟨allowed, candidate, hchoice, hmem, hcandidate⟩ := hoffers
  induction h with
  | here resolved =>
    rw [hchoice] at resolved
    exact .part resolved hmem (.here hcandidate)
  | part resolved mem _ ih => exact .part resolved mem (ih hchoice)

/-- Where no chain of choices goes on for ever among the schemas that can be led to, the chains
from each of them come to an end. -/
theorem productive_of_no_endless_chain
    (h : ¬∃ chain : Nat → Schema, (∀ n, set.Reaches ref (chain n)) ∧
      ∀ n, set.Offers (chain (n + 1)) (chain n)) : set.Productive ref := by
  -- A chain that does not end below a schema can be picked from it, choice by choice.
  intro schema hreaches
  by_contra hacc
  obtain ⟨chain, rfl, hoffers⟩ := not_acc_iff_exists_descending_chain.mp hacc
  refine h ⟨chain, fun n => ?_, hoffers⟩
  induction n with
  | zero => exact hreaches
  | succ n ih => exact ih.offered (hoffers n)

/-! ## 2. Chains that lead back -/

/-- A reference that means a choice leads to the candidates, without a step into the value. -/
def LeadsTo (set : SchemaSet) (ref candidate : SchemaRef) : Prop :=
  ∃ allowed, set.resolve? ref = some (.multi allowed) ∧ candidate ∈ allowed

/-- A completed walk at a choice has completed one at each candidate, with one level less. -/
theorem LeadsTo.completes_below (h : set.LeadsTo ref candidate) {ctx : Context}
    (hset : ctx.schemas = set) {levels : Nat} {path : Path} {v : Value} {r : Report}
    (hwalk : walk ctx (levels + 1) path v ref = .ok r) :
    ∃ path' v' r', walk ctx levels path' v' candidate = .ok r' := by
  obtain ⟨allowed, hschema, hmem⟩ := h
  obtain ⟨position, hposition⟩ := List.mem_iff_getElem?.mp hmem
  have hbranch : ⟨candidateKey position, v.represented, candidate⟩ ∈
      v.represented.branches (.multi allowed) :=
    candidate_mem_branches (c := (candidate, position))
      (List.mem_zipIdx_iff_getElem?.mpr hposition) v.represented
  have hbelow := walk_below hwalk (hset ▸ hschema) _ hbranch
  exact ⟨_, _, _, hbelow⟩

/-- A walk along a chain of choices that comes back to a name on a cycle does not complete. -/
theorem not_completes_of_cycle (hcycle : Relation.TransGen set.LeadsTo (.named name) (.named name))
    {ctx : Context} (hset : ctx.schemas = set) (levels : Nat) :
    ∀ path v ref r, Relation.TransGen set.LeadsTo ref (.named name) →
      walk ctx levels path v ref ≠ .ok r := by
  -- The levels run out, as the value and the chain of references never do.
  induction levels with
  | zero =>
    intro path v ref r _ hwalk
    cases hwalk
  | succ levels ih =>
    intro path v ref r hchain hwalk
    obtain ⟨candidate, hleads, hrest⟩ := Relation.TransGen.head'_iff.mp hchain
    obtain ⟨path', v', r', hbelow⟩ := hleads.completes_below hset hwalk
    have hcandidate : Relation.TransGen set.LeadsTo candidate (.named name) :=
      Relation.TransGen.trans_right hrest hcycle
    exact ih path' v' candidate r' hcandidate hbelow

end SchemaSet

/-! ## 3. Validations that complete, and validations that do not -/

/-- Cycles are unproductive only if they go from choice to choice: without an endless chain of
choices every value is validated from some depth on, and a name that choices lead back to is too
deep for every value and under every limit. -/
theorem validate_completes_unless_cyclic (set : SchemaSet) :
    (∀ ref, (¬∃ chain : Nat → Schema, (∀ n, set.Reaches ref (chain n)) ∧
        ∀ n, set.Offers (chain (n + 1)) (chain n)) →
      ∀ v, ∃ depth, ∀ ctx : Context, ctx.schemas = set → depth ≤ ctx.options.depthLimit →
        ∃ r, validate ctx v ref = .ok r) ∧
    ∀ name, Relation.TransGen set.LeadsTo (.named name) (.named name) →
      ∀ ctx : Context, ctx.schemas = set → ∀ v,
        ∃ cause, validate ctx v (.named name) = .error cause ∧
          cause.limit = ctx.options.depthLimit := by
  constructor
  · intro ref hchains v
    obtain ⟨depth, hdepth⟩ := (SchemaSet.productive_of_no_endless_chain hchains).completes v
    refine ⟨depth, fun ctx hset hlimit => ?_⟩
    exact hdepth ctx hset (ctx.options.depthLimit + 1) (by omega) []
  · intro name hcycle ctx hset v
    cases hvalidate : validate ctx v (.named name) with
    | ok r =>
      exact absurd hvalidate (SchemaSet.not_completes_of_cycle hcycle hset _ [] v _ r hcycle)
    | error cause =>
      exact ⟨cause, rfl, ((validate_error_iff ctx v (.named name) cause).mp hvalidate).1⟩

def treeCandidates : List SchemaRef := [.named "number", .inline (.list (.named "tree"))]

def treesAndLoop : SchemaSet where
  schemas :=
    [("tree", .multi treeCandidates),
      ("here", .multi [.named "string", .inline (.multi [.named "there"])]),
      ("there", .multi [.named "here"])]

theorem reaches_tree {ref : SchemaRef} {schema : Schema} (h : treesAndLoop.Reaches ref schema)
    (href : ref = .named "tree" ∨ ref ∈ treeCandidates) :
    schema = .multi treeCandidates ∨ schema = .number {} ∨ schema = .list (.named "tree") := by
  induction h with
  | here resolved =>
    obtain rfl | href := href
    · exact .inl (Option.some.inj resolved).symm
    · obtain rfl | rfl := List.mem_pair.mp href
      · exact .inr (.inl (Option.some.inj resolved).symm)
      · exact .inr (.inr (Option.some.inj resolved).symm)
  | part resolved mem _ ih =>
    apply ih
    obtain rfl | href := href
    · cases resolved
      exact .inr mem
    · obtain rfl | rfl := List.mem_pair.mp href
      · cases resolved
        cases mem
      · cases resolved
        exact .inl (List.mem_singleton.mp mem)

/-- Trees are walked through at some depth, however they are nested; the other two names are too
deep at all, even for a text that one of the candidates would take. -/
theorem validate_completes_unless_cyclic_treesAndLoop :
    (∃ depth, ∀ options : Options, depth ≤ options.depthLimit →
      ∃ r, validate ⟨.null, treesAndLoop, options⟩ (.list [.list [.null], .list []])
        (.named "tree") = .ok r) ∧
    ∀ options : Options, ∃ cause,
      validate ⟨.null, treesAndLoop, options⟩ (.string "text") (.named "here") = .error cause ∧
        cause.limit = options.depthLimit := by
  obtain ⟨hcompletes, hfails⟩ := validate_completes_unless_cyclic treesAndLoop
  constructor
  · have hchains : ¬∃ chain : Nat → Schema,
        (∀ n, treesAndLoop.Reaches (.named "tree") (chain n)) ∧
          ∀ n, treesAndLoop.Offers (chain (n + 1)) (chain n) := by
      rintro ⟨chain, hreaches, hoffers⟩
      -- The second schema of such a chain is a candidate of trees, and that is no choice.
      obtain ⟨allowed, ref, hfirst, hmem, hsecond⟩ := hoffers 0
      obtain ⟨allowed', -, hchoice, -, -⟩ := hoffers 1
      rw [hchoice] at hsecond
      have htree : allowed = treeCandidates := by
        obtain h | h | h := reaches_tree (hreaches 0) (.inl rfl)
        · exact Schema.multi.inj (hfirst.symm.trans h)
        · cases hfirst.symm.trans h
        · cases hfirst.symm.trans h
      rw [htree] at hmem
      obtain rfl | rfl := List.mem_pair.mp hmem
      · cases hsecond
      · cases hsecond
    obtain ⟨depth, hdepth⟩ := hcompletes (.named "tree") hchains (.list [.list [.null], .list []])
    exact ⟨depth, fun options hlimit => hdepth ⟨.null, treesAndLoop, options⟩ rfl hlimit⟩
  · have hhere : treesAndLoop.LeadsTo (.named "here") (.inline (.multi [.named "there"])) :=
      ⟨_, rfl, List.mem_cons_of_mem _ List.mem_cons_self⟩
    have hinline : treesAndLoop.LeadsTo (.inline (.multi [.named "there"])) (.named "there") :=
      ⟨_, rfl, List.mem_cons_self⟩
    have hthere : treesAndLoop.LeadsTo (.named "there") (.named "here") :=
      ⟨_, rfl, List.mem_cons_self⟩
    have hcycle : Relation.TransGen treesAndLoop.LeadsTo (.named "here") (.named "here") :=
      .tail (.tail (.single hhere) hinline) hthere
    exact fun options => hfails "here" hcycle ⟨.null, treesAndLoop, options⟩ rfl (.string "text")

end Conform
