/-
The lines of a report.

A report as JSON has a line for each template and a last one for the whole run.  That each
is one line, whatever stands in the path, the output or the message, is the work of
`escapeChar`: no character is written as one below the blank (`no_newline_printObject`).
-/
import Mathlib.Data.List.Forall2
import TemplateCompiler.Project.Report
import TemplateCompiler.Proofs.Blanks

namespace TemplateCompiler

/-- The text takes one line. -/
def OneLine (text : String) : Prop := '\n' ∉ text.toList

namespace Json

theorem no_newline_escapeChar (c : Char) : '\n' ∉ escapeChar c := by
  have hhex : ∀ n, hexChar n ≠ '\n' := by
    intro n
    have hdigits : ∀ d < 16, Nat.digitChar d ≠ '\n' := by decide
    exact hdigits (n % 16) (Nat.mod_lt n (by decide))
  unfold escapeChar
  repeat' split
  any_goals decide
  · simp only [List.mem_cons, List.not_mem_nil, or_false, not_or]
    refine ⟨by decide, by decide, by decide, by decide, (hhex _).symm, (hhex _).symm⟩
  · next hnewline _ _ _ _ _ =>
    rw [List.mem_singleton]
    exact fun h => hnewline (beq_iff_eq.mpr h.symm)

theorem oneLine_printText (s : String) : OneLine (printText s) := by
  unfold OneLine printText
  simp only [String.toList_ofList, List.mem_append, List.mem_cons, List.mem_flatMap,
    List.not_mem_nil, or_false, not_or, not_exists, not_and]
  exact ⟨⟨by decide, fun c _ => no_newline_escapeChar c⟩, by decide⟩

theorem oneLine_print (scalar : Scalar) : OneLine scalar.print := by
  cases scalar with
  | null => unfold OneLine; decide
  | natural n =>
      intro h
      have hdigits : '\n' ∈ Nat.toDigits 10 n := by
        rw [← Nat.toList_repr]
        exact h
      exact absurd (Nat.isDigit_of_mem_toDigits (by decide) (by decide) hdigits) (by decide)
  | text s => exact oneLine_printText s

theorem oneLine_append {a b : String} (ha : OneLine a) (hb : OneLine b) : OneLine (a ++ b) := by
  unfold OneLine
  rw [String.toList_append, List.mem_append, not_or]
  exact ⟨ha, hb⟩

theorem oneLine_printMember (member : String × Scalar) : OneLine (printMember member) := by
  have hcolon : OneLine ":" := by unfold OneLine; decide
  exact oneLine_append (oneLine_append (oneLine_printText _) hcolon) (oneLine_print _)

/-- An object takes one line. -/
theorem oneLine_printObject (members : List (String × Scalar)) : OneLine (printObject members) := by
  have hmembers : OneLine (",".intercalate (members.map printMember)) := by
    refine Text.not_mem_intercalate (by decide) fun text htext => ?_
    obtain ⟨member, -, rfl⟩ := List.mem_map.mp htext
    exact oneLine_printMember member
  have hopen : OneLine "\x7b" := by unfold OneLine; decide
  have hclose : OneLine "\x7d" := by unfold OneLine; decide
  exact oneLine_append (oneLine_append hopen hmembers) hclose

end Json

namespace Report

/-- The line of a template: an error if it failed, and otherwise what was written or is the
output. -/
structure FileLine (path : String) (failed : Bool) (line : String) : Prop where
  oneLine : OneLine line
  object : ∃ members, line = Json.printObject members ∧
    members.lookup "file" = some (.text path) ∧
    members.lookup "type" = some (.text (if failed then "error" else "file"))

/-- The line of the whole run, with the number of templates and of failures. -/
structure SummaryLine (files errors : Nat) (line : String) : Prop where
  oneLine : OneLine line
  object : ∃ members, line = Json.printObject members ∧
    members.lookup "type" = some (.text "summary") ∧
    members.lookup "files" = some (.natural files) ∧
    members.lookup "errors" = some (.natural errors)

theorem fileLine (outcome : Outcome) :
    ∃ line, jsonFile outcome = ⟨[line], []⟩ ∧ FileLine outcome.path outcome.isFailure line := by
  unfold jsonFile
  refine ⟨_, rfl, Json.oneLine_printObject _, _, rfl, ?_, ?_⟩
  · cases outcome.result with
    | ok emission => cases emission <;> rfl
    | error error => rfl
  · unfold Outcome.isFailure
    cases outcome.result with
    | ok emission => cases emission <;> rfl
    | error error => rfl

theorem summaryLine (outcomes : List Outcome) (milliseconds : Option Nat) :
    ∃ line, jsonSummary outcomes milliseconds = ⟨[line], []⟩ ∧
      SummaryLine outcomes.length (failures outcomes) line := by
  unfold jsonSummary
  refine ⟨_, rfl, Json.oneLine_printObject _, _, rfl, ?_⟩
  cases milliseconds <;> exact ⟨rfl, rfl, rfl⟩

/-- As JSON a run prints a line for each template in order, and then one for the run. -/
theorem exists_lines (outcomes : List Outcome) (milliseconds : Option Nat) :
    ∃ lines summary, ofOutcomes .json outcomes milliseconds = ⟨lines ++ [summary], []⟩ ∧
      List.Forall₂ (fun outcome line => FileLine outcome.path outcome.isFailure line)
        outcomes lines ∧
      SummaryLine outcomes.length (failures outcomes) summary := by
  obtain ⟨summary, hprinted, hsummary⟩ := summaryLine outcomes milliseconds
  have hlines : ∀ listed : List Outcome, ∃ lines,
      (listed.map jsonFile).foldr append (jsonSummary outcomes milliseconds)
        = ⟨lines ++ [summary], []⟩ ∧ List.Forall₂ (fun outcome line =>
          FileLine outcome.path outcome.isFailure line) listed lines := by
    intro listed
    induction listed with
    | nil => exact ⟨[], hprinted, .nil⟩
    | cons outcome listed ih =>
        obtain ⟨lines, hrest, hforall⟩ := ih
        obtain ⟨line, hjson, hline⟩ := fileLine outcome
        refine ⟨line :: lines, ?_, .cons hline hforall⟩
        rw [List.map_cons, List.foldr_cons, hrest, hjson]
        rfl
  obtain ⟨lines, hprint, hforall⟩ := hlines outcomes
  exact ⟨lines, summary, hprint, hforall, hsummary⟩

end Report

end TemplateCompiler
