/-
The bindings of the style of an element become one, which is made once.

All of it is said entry by entry.  The first binding is replaced by the one that is made of
all of them, the others are gone, the static style is written for the platform, and any other
attribute is kept (`styledEntry`); so the new binding stands where the first one stood.

What is made is a call, and a single binding that is a call already is left alone.  A call
is not trimmed, as it begins with a name and ends with a bracket, and if there is no
interpolation in it, it is the operand that is looked at the second time.
-/
import TemplateCompiler.Proofs.Blanks
import TemplateCompiler.Proofs.Edits
import TemplateCompiler.Proofs.Sparing
import TemplateCompiler.Proofs.Stages

namespace TemplateCompiler

/-! ### Blank texts -/

namespace Text

/-- Nothing is left of a blank text, and of no other. -/
theorem trim_eq_empty_iff {s : String} : trim s = "" ↔ isBlankText s = true := by
  constructor
  · intro htrim
    refine List.all_eq_true.mpr fun c hc => (blank_or_mem_trimChars hc).resolve_right fun hmem => ?_
    have hnil : trimChars s.toList = [] := by
      rw [← String.toList_ofList (l := trimChars s.toList)]
      exact congrArg String.toList htrim
    rw [hnil] at hmem
    cases hmem
  · intro hblank
    by_contra hne
    rw [isBlankText_eq_false hne] at hblank
    cases hblank

end Text

/-! ### Entries -/

namespace Attributes

variable {attrs : Attributes}

/-- The directives of a kind are the attributes whose names are of the kind. -/
theorem map_directivesOf (attrs : Attributes) (kind : DirectiveKind) :
    (attrs.directivesOf kind).map (fun d => (d.name, d.value))
      = attrs.entries.filter fun entry => Directive.kind? entry.1 = some kind := by
  unfold directivesOf directives
  induction attrs.entries with
  | nil => rfl
  | cons entry entries ih =>
      cases hof : Directive.ofAttribute? entry with
      | none =>
          have hnot : Directive.kind? entry.1 ≠ some kind := fun hkind => by
            obtain ⟨d, hd, -⟩ := Directive.exists_of_kind? hkind
            rw [hof] at hd
            cases hd
          rw [List.filterMap_cons_none hof, List.filter_cons_of_neg (by simpa using hnot), ih]
      | some d =>
          have hkind := Directive.kind?_eq hof
          rw [List.filterMap_cons_some hof, List.filter_cons, List.filter_cons, hkind]
          by_cases hd : d.kind = kind
          · rw [if_pos (by simpa using hd), if_pos (by simpa using hd), List.map_cons, ih,
              Directive.attribute_eq hof]
          · rw [if_neg (by simpa using hd), if_neg (by simpa using hd), ih]

end Attributes

namespace Adapter

open Attributes (replaceEntry withoutAll)

variable {attrs : Attributes} {first : Directive} {others : List Directive}

theorem entries_eraseAll_eq (ds : List Directive) (attrs : Attributes) :
    (eraseAll ds attrs).entries = withoutAll (ds.map Directive.name) attrs.entries := by
  induction ds generalizing attrs with
  | nil => exact (Attributes.withoutAll_eq_self fun _ _ => List.not_mem_nil).symm
  | cons d ds ih =>
      show (eraseAll ds (attrs.erase d.name)).entries = _
      rw [ih, List.map_cons, ← Attributes.withoutAll_without]
      rfl

/-! ### The operands -/

/-- The expressions of the bindings, trimmed, without empty ones; text with interpolations is made
an expression. -/
def trimmedOperands (bindings : List Directive) : List String :=
  ((bindings.map fun d => Text.trim d.expression).filter fun e => e ≠ "").map fun e =>
    if Text.holds "\x7b\x7b" e then Script.ofInterpolated e else e

theorem styleOperands_eq_trimmed (bindings : List Directive) :
    styleOperands bindings = trimmedOperands bindings := by
  have hkept : bindings.filter (fun d => !Text.isBlankText d.expression)
      = bindings.filter fun d => decide (Text.trim d.expression ≠ "") := by
    refine List.filter_congr fun d _ => ?_
    rw [Bool.eq_iff_iff, decide_eq_true_eq, Ne, Text.trim_eq_empty_iff, Bool.not_eq_true']
    exact (Bool.not_eq_true _).symm.to_iff
  unfold styleOperands trimmedOperands
  rw [hkept, List.filter_map, List.map_map]
  refine List.map_congr_left fun d _ => ?_
  unfold styleOperand
  dsimp only [Function.comp_apply]

/-! ### What the bindings become -/

/-- The texts of all operands, with a semicolon between each two of them. -/
def mergedExpression : List String → String
  | [operand] => operand
  | operands => "+';'+".intercalate (operands.map fun operand => "(" ++ operand ++ ")")

/-- The call that resolves the style, with the options on the web. -/
def mergedCall (target : Target) (config : Option StyleConfig) (operands : List String) : String :=
  match target, config with
  | .web, some config =>
    "_cmlStyleProxy((" ++ mergedExpression operands ++ ")," ++ config.literal ++ ")"
  | _, _ => "_cmlStyleProxy((" ++ mergedExpression operands ++ "))"

/-- The binding that is made of all of them: none if there is no operand, the only one if it is a
call already, and a call otherwise. -/
def mergedBinding (target : Target) (config : Option StyleConfig) (bindings : List Directive) :
    List Attribute :=
  match bindings, trimmedOperands bindings with
  | _, [] => []
  | [d], [operand] =>
    if Text.beginsWith "_cmlStyleProxy(" operand then [(d.name, d.value)]
    else [("v-bind:style", some (mergedCall target config [operand]))]
  | _, operands => [("v-bind:style", some (mergedCall target config operands))]

/-- The static style, written by `normalize` unless it is blank, and any other attribute. -/
def staticEntry (normalize : String → String) (entry : Attribute) : Attribute :=
  if entry.1 = "style" ∧ Text.trim (entry.2.getD "") ≠ "" then
    ("style", some (normalize (entry.2.getD "")))
  else entry

/-- What becomes of an attribute where `first` is the name of the first binding. -/
def styledEntry (first : String) (merged : List Attribute) (normalize : String → String)
    (entry : Attribute) : List Attribute :=
  if entry.1 = first then merged
  else if Directive.kind? entry.1 = some .styleBinding then []
  else [staticEntry normalize entry]

variable {target : Target} {config : Option StyleConfig} {bindings : List Directive}

theorem mergedBinding_cases (target : Target) (config : Option StyleConfig)
    (bindings : List Directive) :
    trimmedOperands bindings = [] ∧ mergedBinding target config bindings = [] ∨
      (∃ d operand, bindings = [d] ∧ trimmedOperands [d] = [operand] ∧
        Text.beginsWith "_cmlStyleProxy(" operand = true ∧
        mergedBinding target config bindings = [(d.name, d.value)]) ∨
      trimmedOperands bindings ≠ [] ∧
        isStyleCall bindings (trimmedOperands bindings) = false ∧
        mergedBinding target config bindings
          = [("v-bind:style", some (mergedCall target config (trimmedOperands bindings)))] := by
  have hcall : Dialect.styleProxy ++ "(" = "_cmlStyleProxy(" := by decide
  unfold mergedBinding
  split
  · rename_i hoperands
    exact .inl ⟨hoperands, rfl⟩
  · rename_i d operand hoperands
    cases hbegins : Text.beginsWith "_cmlStyleProxy(" operand with
    | true => exact .inr (.inl ⟨d, operand, rfl, hoperands, hbegins, if_pos rfl⟩)
    | false =>
        refine .inr (.inr ⟨by rw [hoperands]; exact List.cons_ne_nil _ _, ?_, ?_⟩)
        · rw [hoperands]
          unfold isStyleCall
          dsimp only
          rw [hcall, hbegins]
        · rw [hoperands]
          exact if_neg Bool.false_ne_true
  · rename_i hnil hone
    refine .inr (.inr ⟨hnil, ?_, rfl⟩)
    unfold isStyleCall
    split
    · rename_i d operand hoperands
      exact absurd hoperands (hone d operand rfl)
    · rfl

theorem styleCall_eq (hmini : target.isMiniProgram = false) (operands : List String) :
    styleCall target.dialect.styleMode config (joinStyles operands)
      = mergedCall target config operands := by
  have hcall : Dialect.styleProxy ++ "((" = "_cmlStyleProxy((" := by decide
  unfold mergedCall
  cases target with
  | web =>
      show styleCall .proxyWithConfig config (joinStyles operands) = _
      unfold styleCall
      cases config <;> (dsimp only; rw [hcall]; rfl)
  | weex =>
      show styleCall .proxy config (joinStyles operands) = _
      unfold styleCall
      dsimp only
      rw [hcall]
      rfl
  | wx | alipay | baidu => cases hmini

/-- The bindings of the style are the attributes of this kind. -/
theorem kind?_iff_mem_names {entry : Attribute} (hentry : entry ∈ attrs.entries) :
    Directive.kind? entry.1 = some .styleBinding
      ↔ entry.1 ∈ (attrs.directivesOf .styleBinding).map Directive.name := by
  constructor
  · intro hkind
    obtain ⟨d, hd, hname, hdkind⟩ :=
      Attributes.exists_directive_of_mem_names (List.mem_map_of_mem hentry) hkind
    exact List.mem_map.mpr ⟨d, Attributes.mem_directivesOf.mpr ⟨hd, hdkind⟩, hname⟩
  · intro hmem
    obtain ⟨d, hd, hname⟩ := List.mem_map.mp hmem
    exact hname ▸ (Attributes.name_of_mem_directivesOf hd).2

theorem withoutAll_eq_flatMap (names : List String) (entries : List Attribute) :
    withoutAll names entries
      = entries.flatMap fun entry => if entry.1 ∈ names then [] else [entry] := by
  induction entries with
  | nil => rfl
  | cons entry entries ih =>
      unfold withoutAll at *
      rw [List.flatMap_cons, ← ih, List.filter_cons]
      by_cases hname : entry.1 ∈ names
      · simp [hname]
      · simp [hname]

/-- What becomes of an attribute when the bindings are merged, and nothing else is done. -/
def mergedEntry (first : String) (merged : List Attribute) (entry : Attribute) : List Attribute :=
  if entry.1 = first then merged
  else if Directive.kind? entry.1 = some .styleBinding then []
  else [entry]

section

variable (hd : attrs.Distinct) (hbindings : attrs.directivesOf .styleBinding = first :: others)
include hbindings

/-- Besides the first one, the bindings of the style are the others. -/
theorem mergedEntry_eq (merged : List Attribute) {entry : Attribute}
    (hentry : entry ∈ attrs.entries) :
    mergedEntry first.name merged entry
      = if entry.1 = first.name then merged
        else if entry.1 ∈ others.map Directive.name then [] else [entry] := by
  have hkind := kind?_iff_mem_names hentry
  rw [hbindings, List.map_cons, List.mem_cons] at hkind
  unfold mergedEntry
  by_cases hname : entry.1 = first.name
  · rw [if_pos hname, if_pos hname]
  · rw [if_neg hname, if_neg hname]
    exact if_congr (hkind.trans (or_iff_right hname)) rfl rfl

/-- All of them are taken away. -/
theorem entries_eraseBindings : (eraseAll (first :: others) attrs).entries
    = attrs.entries.flatMap (mergedEntry first.name []) := by
  rw [entries_eraseAll_eq, withoutAll_eq_flatMap]
  refine List.flatMap_congr fun entry hentry => ?_
  rw [mergedEntry_eq hbindings _ hentry]
  by_cases hname : entry.1 = first.name
  · rw [if_pos hname, if_pos (hname ▸ List.mem_cons_self)]
  · rw [if_neg hname]
    exact if_congr (List.mem_cons.trans (or_iff_right hname)) rfl rfl

include hd

/-- All of them are kept, where there is but one. -/
theorem entries_keepBinding (hone : others = []) :
    attrs.entries = attrs.entries.flatMap (mergedEntry first.name [(first.name, first.value)]) := by
  have hfirst : first ∈ attrs.directivesOf .styleBinding := hbindings ▸ List.mem_cons_self
  have hmem := (Attributes.mem_of_mem_directives (Attributes.mem_directivesOf.mp hfirst).1).1
  refine (List.flatMap_singleton' _).symm.trans (List.flatMap_congr fun entry hentry => ?_)
  rw [mergedEntry_eq hbindings _ hentry, hone]
  by_cases hname : entry.1 = first.name
  · have hsame : entry = (first.name, first.value) := List.inj_on_of_nodup_map hd hentry hmem hname
    rw [if_pos hname, hsame]
  · rw [if_neg hname]
    rfl

/-- The first one is replaced by another binding, and the others are taken away. -/
theorem entries_replaceBindings {name : String} (value : Option String)
    (hkind : Directive.kind? name = some .styleBinding) :
    ((eraseAll others attrs).replaceD first.name [(name, value)]).entries
      = attrs.entries.flatMap (mergedEntry first.name [(name, value)]) := by
  have hfirst : first ∈ attrs.directivesOf .styleBinding := hbindings ▸ List.mem_cons_self
  have hnodup := hd.nodup_directivesOf .styleBinding
  rw [hbindings, List.map_cons, List.nodup_cons] at hnodup
  have hthere : first.name ∈ (eraseAll others attrs).names :=
    mem_names_eraseAll.mpr ⟨(Attributes.name_of_mem_directivesOf hfirst).1, fun d hd' heq =>
      hnodup.1 (List.mem_map.mpr ⟨d, hd', heq.symm⟩)⟩
  have hone : ([(name, value)].map Prod.fst).Nodup := List.nodup_singleton name
  rw [(distinct_eraseAll others hd).entries_replaceD hthere hone, entries_eraseAll_eq,
    withoutAll_eq_flatMap, List.flatMap_assoc]
  refine List.flatMap_congr fun entry hentry => ?_
  rw [mergedEntry_eq hbindings _ hentry]
  by_cases hname : entry.1 = first.name
  · have hnot : entry.1 ∉ others.map Directive.name := hname ▸ hnodup.1
    rw [if_neg hnot, List.flatMap_singleton, replaceEntry, if_pos hname, if_pos hname]
  · rw [if_neg hname]
    by_cases hother : entry.1 ∈ others.map Directive.name
    · rw [if_pos hother]
      rfl
    · -- It is no binding of the style, so it does not have the new name either.
      have hnew : entry.1 ∉ [(name, value)].map Prod.fst := by
        rw [List.map_singleton, List.mem_singleton]
        intro heq
        have hmem := (kind?_iff_mem_names hentry).mp (heq ▸ hkind)
        rw [hbindings, List.map_cons, List.mem_cons] at hmem
        exact hmem.elim hname hother
      rw [if_neg hother, List.flatMap_singleton, replaceEntry, if_neg hname, if_neg hnew]

/-- Merging the bindings, entry by entry. -/
theorem entries_mergeStyleBindings (hmini : target.isMiniProgram = false) :
    (mergeStyleBindings target.dialect.styleMode config (first :: others) attrs).entries
      = attrs.entries.flatMap
          (mergedEntry first.name (mergedBinding target config (first :: others))) := by
  unfold mergeStyleBindings
  dsimp only
  rw [styleOperands_eq_trimmed]
  rcases mergedBinding_cases target config (first :: others) with
    ⟨hnil, hmerged⟩ | ⟨d, operand, hone, hoperands, hbegins, hmerged⟩ | ⟨hne, hcall, hmerged⟩
  · have hcall : isStyleCall (first :: others) [] = false := by
      cases others <;> rfl
    rw [hnil, hcall, hmerged, if_neg Bool.false_ne_true, List.isEmpty_nil, if_pos rfl]
    exact entries_eraseBindings hbindings
  · obtain ⟨rfl, rfl⟩ := List.cons.inj hone
    have hcall : isStyleCall [first] [operand] = true := by
      unfold isStyleCall
      rw [show Dialect.styleProxy ++ "(" = "_cmlStyleProxy(" by decide]
      exact hbegins
    rw [hoperands, hcall, if_pos rfl, hmerged]
    exact entries_keepBinding hd hbindings rfl
  · have hnonempty : (trimmedOperands (first :: others)).isEmpty = false := by simpa using hne
    rw [hcall, if_neg Bool.false_ne_true, hnonempty, if_neg Bool.false_ne_true, hmerged,
      styleCall_eq hmini]
    exact entries_replaceBindings hd hbindings _ (by decide)

end

/-! ### The static style -/

/-- The entry of the static style changes if the text is written in another way. -/
theorem staticEntry_of_name {normalize : String → String} {style : String} {value : Option String}
    (hvalue : value.getD "" = style) : staticEntry normalize ("style", value)
      = if Text.isBlankText style || normalize style == style then ("style", value)
        else ("style", some (normalize style)) := by
  unfold staticEntry
  rw [hvalue]
  cases hblank : Text.isBlankText style with
  | true =>
      have htrim := Text.trim_eq_empty_iff.mpr hblank
      rw [if_neg fun h => h.2 htrim]
      rfl
  | false =>
      have htrim : Text.trim style ≠ "" := fun htrim => by
        rw [Text.trim_eq_empty_iff.mp htrim] at hblank
        cases hblank
      rw [if_pos ⟨rfl, htrim⟩, Bool.false_or]
      split
      · rename_i hsame
        have hsome : value = some style := by
          cases value with
          | none => exact absurd (hvalue ▸ by decide) htrim
          | some text => exact congrArg some hvalue
        rw [beq_iff_eq.mp hsame, hsome]
      · rfl

theorem staticEntry_of_ne {normalize : String → String} {entry : Attribute}
    (hname : entry.1 ≠ "style") : staticEntry normalize entry = entry :=
  if_neg fun h => hname h.1

/-- Writing the static style, entry by entry. -/
theorem entries_staticStyle (hd : attrs.Distinct) (setting : Setting) :
    (staticStyle setting attrs).entries
      = attrs.entries.map (staticEntry setting.normalizeStyle) := by
  have hkept : (∀ entry ∈ attrs.entries, staticEntry setting.normalizeStyle entry = entry) →
      attrs.entries = attrs.entries.map (staticEntry setting.normalizeStyle) := fun h =>
    ((List.map_congr_left h).trans (List.map_id _)).symm
  unfold staticStyle
  cases hstyle : attrs.get? "style" with
  | none =>
      refine hkept fun entry hentry => staticEntry_of_ne fun heq => ?_
      exact Attributes.get?_eq_none_iff.mp hstyle (heq ▸ List.mem_map_of_mem hentry)
  | some style =>
      have hmem : "style" ∈ attrs.names := Attributes.mem_names_of_get? hstyle
      have hentries : ∀ value, ("style", value) ∈ attrs.entries → value.getD "" = style :=
        fun value hvalue => Option.some.inj ((hd.get?_of_mem hvalue).symm.trans hstyle)
      dsimp only
      split
      · rename_i hsame
        refine hkept fun ⟨name, value⟩ hentry => ?_
        by_cases hname : name = "style"
        · subst hname
          rw [staticEntry_of_name (hentries value hentry), if_pos hsame]
        · exact staticEntry_of_ne hname
      · rename_i hwritten
        show (attrs.set "style" (some (setting.normalizeStyle style))).entries = _
        rw [Attributes.entries_set_of_mem hmem, List.map_eq_flatMap]
        refine List.flatMap_congr fun ⟨name, value⟩ hentry => ?_
        rw [Attributes.replaceEntry_value]
        by_cases hname : name = "style"
        · subst hname
          rw [staticEntry_of_name (hentries value hentry), if_neg hwritten]
          rfl
        · rw [staticEntry_of_ne hname, if_neg hname]

theorem fst_staticEntry (normalize : String → String) (entry : Attribute) :
    (staticEntry normalize entry).1 = entry.1 := by
  unfold staticEntry
  split
  · rename_i h
    exact h.1.symm
  · rfl

/-! ### A second time -/

theorem kind?_of_mem_mergedBinding (hkind : ∀ d ∈ bindings, Directive.kind? d.name = some .styleBinding)
    {entry : Attribute} (h : entry ∈ mergedBinding target config bindings) :
    Directive.kind? entry.1 = some .styleBinding := by
  rcases mergedBinding_cases target config bindings with
    ⟨-, hmerged⟩ | ⟨d, operand, rfl, -, -, hmerged⟩ | ⟨-, -, hmerged⟩
  · rw [hmerged] at h
    cases h
  · rw [hmerged] at h
    exact List.mem_singleton.mp h ▸ hkind d List.mem_cons_self
  · rw [hmerged] at h
    exact List.mem_singleton.mp h ▸ show Directive.kind? "v-bind:style" = _ by decide

/-- A call begins with its name and ends with a bracket. -/
theorem exists_mergedCall (target : Target) (config : Option StyleConfig) (operands : List String) :
    ∃ inside, mergedCall target config operands = "_cmlStyleProxy((" ++ inside ++ ")" := by
  unfold mergedCall
  split
  · rename_i config
    exact ⟨mergedExpression operands ++ ")," ++ config.literal, by simp only [String.append_assoc]⟩
  · refine ⟨mergedExpression operands ++ ")", ?_⟩
    rw [String.append_assoc, String.append_assoc, String.append_assoc]
    exact congrArg (fun last => "_cmlStyleProxy((" ++ (mergedExpression operands ++ last))
      (show "))" = ")" ++ ")" by decide)

theorem trimmedOperands_mergedCall {d : Directive} {operands : List String}
    (hvalue : d.expression = mergedCall target config operands)
    (hplain : Text.holds "\x7b\x7b" d.expression = false) :
    trimmedOperands [d] = [d.expression] ∧
      Text.beginsWith "_cmlStyleProxy(" d.expression = true := by
  obtain ⟨inside, hinside⟩ := exists_mergedCall target config operands
  rw [hinside] at hvalue
  have htrim : Text.trim d.expression = d.expression := by
    rw [hvalue]
    exact Text.trim_append_append (show "_cmlStyleProxy((".toList.head? = some '_' by decide)
      (show ")".toList.getLast? = some ')' by decide) (by decide) (by decide) inside
  have hbegins : Text.beginsWith "_cmlStyleProxy(" d.expression = true := by
    rw [hvalue, String.append_assoc]
    exact Text.beginsWith_append "_cmlStyleProxy(" ("(" ++ (inside ++ ")"))
  have hne : d.expression ≠ "" := by
    intro hempty
    rw [hempty] at hbegins
    exact absurd hbegins (by decide)
  refine ⟨?_, hbegins⟩
  unfold trimmedOperands
  rw [List.map_singleton, htrim, List.filter_eq_self.mpr (by simpa using hne), List.map_singleton,
    hplain]
  rfl

/-- Merging again leaves the binding alone. -/
theorem isStyleCall_of_mem {d : Directive}
    (hmem : (d.name, d.value) ∈ mergedBinding target config bindings)
    (hplain : Text.holds "\x7b\x7b" d.expression = false) :
    isStyleCall [d] (styleOperands [d]) = true := by
  have hcall : Dialect.styleProxy ++ "(" = "_cmlStyleProxy(" := by decide
  have hbegins : ∃ operand, trimmedOperands [d] = [operand] ∧
      Text.beginsWith "_cmlStyleProxy(" operand = true := by
    rcases mergedBinding_cases target config bindings with
      ⟨-, hmerged⟩ | ⟨e, operand, rfl, hoperands, hbegins, hmerged⟩ | ⟨-, -, hmerged⟩
    · rw [hmerged] at hmem
      cases hmem
    · rw [hmerged, List.mem_singleton] at hmem
      have hsame : d.expression = e.expression := congrArg (·.getD "") (Prod.mk.inj hmem).2
      refine ⟨operand, ?_, hbegins⟩
      unfold trimmedOperands at *
      rwa [List.map_singleton, hsame]
    · rw [hmerged, List.mem_singleton] at hmem
      have hvalue : d.expression = mergedCall target config (trimmedOperands bindings) :=
        congrArg (·.getD "") (Prod.mk.inj hmem).2
      obtain ⟨hoperands, hbegins⟩ := trimmedOperands_mergedCall hvalue hplain
      exact ⟨d.expression, hoperands, hbegins⟩
  obtain ⟨operand, hoperands, hbegins⟩ := hbegins
  rw [styleOperands_eq_trimmed, hoperands]
  unfold isStyleCall
  rw [hcall]
  exact hbegins

theorem length_mergedBinding_le (target : Target) (config : Option StyleConfig)
    (bindings : List Directive) : (mergedBinding target config bindings).length ≤ 1 := by
  rcases mergedBinding_cases target config bindings with
    ⟨-, hmerged⟩ | ⟨d, operand, -, -, -, hmerged⟩ | ⟨-, -, hmerged⟩ <;> simp [hmerged]

/-- Where the bindings are what has been made of bindings, nothing is merged. -/
theorem mergeStyleBindings_eq_self (mode : StyleMode)
    (hmerged : (attrs.directivesOf .styleBinding).map (fun d => (d.name, d.value))
      = mergedBinding target config bindings)
    (hplain : ∀ entry ∈ mergedBinding target config bindings,
      Text.holds "\x7b\x7b" (entry.2.getD "") = false) :
    mergeStyleBindings mode config (attrs.directivesOf .styleBinding) attrs = attrs := by
  have hlength := length_mergedBinding_le target config bindings
  rw [← hmerged, List.length_map] at hlength
  cases hdirectives : attrs.directivesOf .styleBinding with
  | nil => rfl
  | cons d others =>
      obtain rfl : others = [] := by
        rw [hdirectives, List.length_cons] at hlength
        exact List.length_eq_zero_iff.mp (by omega)
      have hmem : (d.name, d.value) ∈ mergedBinding target config bindings := by
        rw [← hmerged, hdirectives]
        exact List.mem_singleton_self _
      unfold mergeStyleBindings
      dsimp only
      rw [isStyleCall_of_mem hmem (hplain _ hmem)]
      rfl

/-! ### The pass -/

theorem styleBindings_eq (hmini : target.isMiniProgram = false) (config : Option StyleConfig)
    (attrs : Attributes) : styleBindings target.dialect.styleMode config attrs
      = mergeStyleBindings target.dialect.styleMode config (attrs.directivesOf .styleBinding)
          attrs := by
  cases target with
  | web | weex => rfl
  | wx | alipay | baidu => cases hmini

/-- What is merged is not written as a static style. -/
theorem styledEntry_eq (hkind : ∀ d ∈ bindings, Directive.kind? d.name = some .styleBinding)
    (name : String) (normalize : String → String) (entry : Attribute) :
    (mergedEntry name (mergedBinding target config bindings) entry).map (staticEntry normalize)
      = styledEntry name (mergedBinding target config bindings) normalize entry := by
  unfold mergedEntry styledEntry
  split
  · refine (List.map_congr_left fun binding hbinding => staticEntry_of_ne fun heq => ?_).trans
      (List.map_id _)
    have hbound := kind?_of_mem_mergedBinding hkind hbinding
    rw [heq] at hbound
    exact absurd hbound (by decide)
  · split
    · rfl
    · rfl

/-- Of the bindings there is left what has been made of them. -/
theorem filter_flatMap_styledEntry (hd : attrs.Distinct) (hname : first.name ∈ attrs.names)
    {merged : List Attribute}
    (hmerged : ∀ binding ∈ merged, Directive.kind? binding.1 = some .styleBinding)
    (normalize : String → String) :
    (attrs.entries.flatMap (styledEntry first.name merged normalize)).filter
      (fun entry => Directive.kind? entry.1 = some .styleBinding) = merged := by
  obtain ⟨front, value, back, hsplit, hfront, hback⟩ := Edit.exists_cut hd hname
  have hnone : ∀ entries : List Attribute, first.name ∉ entries.map Prod.fst →
      (entries.flatMap (styledEntry first.name merged normalize)).filter
        (fun entry => Directive.kind? entry.1 = some .styleBinding) = [] := by
    intro entries hnot
    refine List.filter_eq_nil_iff.mpr fun entry hentry => ?_
    obtain ⟨old, hold, hentry⟩ := List.mem_flatMap.mp hentry
    have hne : old.1 ≠ first.name := fun heq => hnot (heq ▸ List.mem_map_of_mem hold)
    unfold styledEntry at hentry
    rw [if_neg hne] at hentry
    split at hentry
    · cases hentry
    · rename_i hkind
      rw [List.mem_singleton.mp hentry, fst_staticEntry, decide_eq_true_eq]
      exact hkind
  have hself : styledEntry first.name merged normalize (first.name, value) = merged := if_pos rfl
  rw [hsplit, List.flatMap_append, List.flatMap_cons, List.filter_append, List.filter_append,
    hnone front hfront, hnone back hback, hself,
    List.filter_eq_self.mpr fun binding hbinding => decide_eq_true (hmerged binding hbinding),
    List.nil_append, List.append_nil]

variable {style : Option StyleConfig}
variable {normalizer : Target → Option StyleConfig → String → String}

theorem normalizeStyle_eq (target : Target) (style : Option StyleConfig)
    (normalizer : Target → Option StyleConfig → String → String) :
    Setting.normalizeStyle ⟨target.dialect, style, normalizer⟩ = normalizer target style :=
  congrArg (normalizer · style) target.target_dialect

/-- What the pass makes of the attributes, entry by entry. -/
theorem entries_styles (hmini : target.isMiniProgram = false) (site : Site) (hd : attrs.Distinct)
    (hbindings : attrs.directivesOf .styleBinding = first :: others) {attrs' : Attributes}
    (h : styles ⟨target.dialect, style, normalizer⟩ site attrs = .ok attrs') :
    attrs'.entries = attrs.entries.flatMap (styledEntry first.name
      (mergedBinding target style (first :: others)) (normalizer target style)) := by
  have hkind : ∀ d ∈ first :: others, Directive.kind? d.name = some .styleBinding := fun d hd' =>
    (Attributes.name_of_mem_directivesOf (hbindings ▸ hd')).2
  have hdistinct : (styleBindings target.dialect.styleMode style attrs).Distinct :=
    (@writesOnly_styleBindings ⟨target.dialect, style, normalizer⟩ attrs hd).distinct
  cases h
  rw [entries_staticStyle hdistinct, normalizeStyle_eq, styleBindings_eq hmini, hbindings,
    entries_mergeStyleBindings hd hbindings hmini, List.map_flatMap]
  exact List.flatMap_congr fun entry _ => styledEntry_eq hkind first.name _ entry

/-- Where nothing is merged, only the static style is written. -/
theorem entries_styles_of_merged (hmini : target.isMiniProgram = false) (again : Site)
    (hd : attrs.Distinct)
    (hmerged : (attrs.directivesOf .styleBinding).map (fun d => (d.name, d.value))
      = mergedBinding target style bindings)
    (hplain : ∀ entry ∈ mergedBinding target style bindings,
      Text.holds "\x7b\x7b" (entry.2.getD "") = false) :
    ∃ attrs', styles ⟨target.dialect, style, normalizer⟩ again attrs = .ok attrs' ∧
      attrs'.entries = attrs.entries.map (staticEntry (normalizer target style)) := by
  refine ⟨_, rfl, ?_⟩
  rw [styleBindings_eq hmini, mergeStyleBindings_eq_self _ hmerged hplain, entries_staticStyle hd,
    normalizeStyle_eq]

/-- The pass of styles on one element that has bindings of the style.  They become one
(`mergedBinding`), which stands where the first one stood; the static style is written by the
normalizer unless it is blank; and all other attributes are kept in their order.  If there is no
interpolation in the binding that is left, a second time only the static style is written. -/
theorem styles_merge (target : Target) (hmini : target.isMiniProgram = false)
    (style : Option StyleConfig) (normalizer : Target → Option StyleConfig → String → String)
    (site : Site) (hd : attrs.Distinct)
    (hbindings : attrs.directivesOf .styleBinding = first :: others) :
    ∃ attrs', styles ⟨target.dialect, style, normalizer⟩ site attrs = .ok attrs' ∧
      attrs'.entries = attrs.entries.flatMap (styledEntry first.name
        (mergedBinding target style (first :: others)) (normalizer target style)) ∧
      (attrs'.directivesOf .styleBinding).map (fun d => (d.name, d.value))
        = mergedBinding target style (first :: others) ∧
      ((∀ binding ∈ mergedBinding target style (first :: others),
          Text.holds "\x7b\x7b" (binding.2.getD "") = false) →
        ∀ again : Site, ∃ attrs'',
          styles ⟨target.dialect, style, normalizer⟩ again attrs' = .ok attrs'' ∧
          attrs''.entries = attrs'.entries.map (staticEntry (normalizer target style))) := by
  obtain ⟨attrs', hstyles⟩ : ∃ attrs',
      styles ⟨target.dialect, style, normalizer⟩ site attrs = .ok attrs' := ⟨_, rfl⟩
  have hd' : attrs'.Distinct := (writesOnly_styles site hd hstyles).distinct
  have hentries := entries_styles hmini site hd hbindings hstyles
  have hkind : ∀ d ∈ first :: others, Directive.kind? d.name = some .styleBinding := fun d hmem =>
    (Attributes.name_of_mem_directivesOf (hbindings ▸ hmem)).2
  have hname : first.name ∈ attrs.names :=
    (Attributes.name_of_mem_directivesOf (hbindings ▸ List.mem_cons_self)).1
  have hmerged : (attrs'.directivesOf .styleBinding).map (fun d => (d.name, d.value))
      = mergedBinding target style (first :: others) := by
    rw [Attributes.map_directivesOf, hentries]
    exact filter_flatMap_styledEntry hd hname
      (fun binding hbinding => kind?_of_mem_mergedBinding hkind hbinding) _
  exact ⟨attrs', hstyles, hentries, hmerged, fun hplain again =>
    entries_styles_of_merged hmini again hd' hmerged hplain⟩

/-- Two bindings, one of them a text with an interpolation, around another attribute. -/
theorem styles_merge_interpolation :
    let site : Site := ⟨"view", ⟨0, 0⟩, fun _ => none⟩
    let attrs : Attributes := ⟨[("v-bind:style.a", some " s "), ("id", none),
      (":style", some "top:\x7b\x7bt\x7d\x7d"), ("style", some "color:red")]⟩
    let merged : Attributes := ⟨[("v-bind:style", some "_cmlStyleProxy(((s)+';'+('top:'+(t))))"),
      ("id", none), ("style", some "color: #ff0000")]⟩
    attrs.Distinct ∧ styles (.forTarget .weex none) site attrs = .ok merged ∧
      ∃ again, styles (.forTarget .weex none) site merged = .ok again ∧
        again.entries = merged.entries.map (staticEntry (Style.normalize .weex none)) := by
  intro site attrs merged
  have hd : attrs.Distinct := by
    show List.Nodup ["v-bind:style.a", "id", ":style", "style"]
    decide
  have hbindings : attrs.directivesOf .styleBinding
      = [⟨.styleBinding, "v-bind:style.a", some "style", ["a"], some " s "⟩,
        ⟨.styleBinding, ":style", some "style", [], some "top:\x7b\x7bt\x7d\x7d"⟩] := by
    decide +kernel
  have hrun : styles (.forTarget .weex none) site attrs = .ok merged := by decide +kernel
  obtain ⟨attrs', hstyles, -, -, hagain⟩ :=
    styles_merge .weex rfl none Style.normalize site hd hbindings
  cases hstyles.symm.trans hrun
  obtain ⟨again, hstyles', hentries⟩ := hagain (by decide +kernel) site
  exact ⟨hd, hrun, again, hstyles', hentries⟩

end Adapter

end TemplateCompiler
