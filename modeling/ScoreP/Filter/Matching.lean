import ScoreP.Filter.Parser
import ScoreP.Foundations.Glob

/-!
# Matching with filter rules

Source: `src/utils/filter/scorep_filter_matching.c`. The rules are applied in their order. `fnmatch` has no
result but a match and none, so the error paths of the source are never taken.

`excluded_iff` says that what is excluded matches an exclude rule and no include rule after it.
-/

namespace ScoreP.Filter

open Foundations List

/-- `scorep_filter_match_function_rule`; the mangled name may be NULL. -/
def matchFunctionRule (functionName : Text) (mangledName : Option Text) (rule : Rule) : Bool :=
  match rule.isMangled, mangledName with
  | true, some mangledName => Glob.fnmatch rule.pattern mangledName
  | _, _ => Glob.fnmatch rule.pattern functionName

def matchFileRule (withPath : Text) (rule : Rule) : Bool :=
  Glob.fnmatch rule.pattern withPath

def applyRule (matchRule : Rule → Bool) (excluded : Bool) (rule : Rule) : Bool :=
  if !excluded && rule.isExclude then matchRule rule
  else if excluded && !rule.isExclude then !matchRule rule
  else excluded

def applyRules (matchRule : Rule → Bool) (rules : List Rule) : Bool :=
  rules.foldl (applyRule matchRule) false

def matchFunction (functionRules : List Rule) (functionName : Text) (mangledName : Option Text) : Bool :=
  applyRules (matchFunctionRule functionName mangledName) functionRules

def matchFile (fileRules : List Rule) (fileName : Text) : Bool :=
  applyRules (matchFileRule fileName) fileRules

variable {matchRule : Rule → Bool} {rules : List Rule}

theorem applyRules_concat (rule : Rule) :
    applyRules matchRule (rules ++ [rule]) = applyRule matchRule (applyRules matchRule rules) rule := by
  rw [applyRules, foldl_append]
  rfl

theorem excluded_iff : applyRules matchRule rules = true ↔
    ∃ pre rule post, rules = pre ++ rule :: post ∧ rule.isExclude = true ∧ matchRule rule = true ∧
      ∀ other ∈ post, other.isExclude = false → matchRule other = false := by
  induction rules using List.reverseRecOn with
  | nil =>
    constructor
    · intro h
      exact absurd h Bool.false_ne_true
    · intro h
      obtain ⟨pre, rule, post, hsplit, -⟩ := h
      exact absurd hsplit.symm (append_ne_nil_of_right_ne_nil _ (cons_ne_nil _ _))
  | append_singleton rules last ih =>
    rw [applyRules_concat]
    constructor
    · intro h
      by_cases hnew : last.isExclude = true ∧ matchRule last = true
      · exact ⟨rules, last, [], rfl, hnew.1, hnew.2, fun other hother => absurd hother not_mem_nil⟩
      · -- the rules before decide, and the last one does not include
        have hold : applyRules matchRule rules = true ∧ (last.isExclude = false → matchRule last = false) := by
          rw [applyRule] at h
          cases hexcluded : applyRules matchRule rules with
          | true =>
            refine ⟨rfl, fun hinclude => ?_⟩
            rw [hexcluded, hinclude] at h
            exact Bool.not_eq_true' _ ▸ h
          | false =>
            rw [hexcluded] at h
            cases hexclude : last.isExclude with
            | true =>
              rw [hexclude] at h
              exact absurd ⟨hexclude, h⟩ hnew
            | false =>
              rw [hexclude] at h
              exact absurd h Bool.false_ne_true
        obtain ⟨pre, rule, post, hsplit, hexclude, hmatch, hpost⟩ := ih.1 hold.1
        refine ⟨pre, rule, post ++ [last], ?_, hexclude, hmatch, fun other hother => ?_⟩
        · rw [hsplit, append_assoc]
          rfl
        · rcases mem_append.1 hother with hother | hlast
          · exact hpost other hother
          · rw [mem_singleton.1 hlast]
            exact hold.2
    · intro h
      obtain ⟨pre, rule, post, hsplit, hexclude, hmatch, hpost⟩ := h
      rcases eq_nil_or_concat post with rfl | ⟨post, other, rfl⟩
      · obtain ⟨rfl, hlast⟩ := append_inj' hsplit rfl
        obtain rfl := singleton_inj.1 hlast
        rw [applyRule, hexclude]
        cases applyRules matchRule rules with
        | true => rfl
        | false => exact hmatch
      · rw [concat_eq_append, ← cons_append, ← append_assoc] at hsplit
        obtain ⟨hrules, hlast⟩ := append_inj' hsplit rfl
        obtain rfl := singleton_inj.1 hlast
        rw [concat_eq_append] at hpost
        have hold : applyRules matchRule rules = true :=
          ih.2 ⟨pre, rule, post, hrules, hexclude, hmatch, fun other hother =>
            hpost other (mem_append_left _ hother)⟩
        have hinclude := hpost last (mem_append_right _ mem_cons_self)
        rw [applyRule, hold]
        cases hkind : last.isExclude with
        | true => rfl
        | false =>
          rw [hinclude hkind]
          rfl

end ScoreP.Filter
