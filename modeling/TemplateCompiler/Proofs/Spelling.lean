/-
Attributes in which quotes are spelled out.

Operations on attributes look at names and hand values on, so they commute with spelling out the
quotes in all values.  An adapter therefore does the same to both spellings wherever it writes
what it read, and fails for both with the same code.  An adapter that reads more out of a value
than where it begins and ends needs to know something of its quotes; what that is stands with
each of them.

The pass of styles is the only one whose results are not each other's spelling.  It writes the
style options into the call, and these may hold quotes that no one spelled out.  They are when
the tree is printed.
-/
import TemplateCompiler.Proofs.Conflicts
import TemplateCompiler.Proofs.Declarations

namespace TemplateCompiler

/-! ### Directives -/

namespace Directive

/-- The directive with the quotes in its value spelled out. -/
def escaped (d : Directive) : Directive := { d with value := d.value.map escapeText }

theorem ofAttribute?_escaped (attr : Attribute) :
    ofAttribute? attr.escaped = (ofAttribute? attr).map escaped := by
  obtain ⟨name, value⟩ := attr
  show ofAttribute? (name, value.map escapeText) = _
  rw [ofAttribute?_eq, ofAttribute?_eq name value, Option.map_map]
  rfl

theorem expression_escaped (d : Directive) : d.escaped.expression = escapeText d.expression := by
  obtain ⟨kind, name, arg, modifiers, value⟩ := d
  cases value <;> rfl

end Directive

namespace Attributes

variable {attrs : Attributes}

theorem directives_escaped (attrs : Attributes) :
    attrs.escaped.directives = attrs.directives.map Directive.escaped := by
  show (attrs.entries.map Attribute.escaped).filterMap _ = (attrs.entries.filterMap _).map _
  rw [List.filterMap_map, List.map_filterMap]
  exact List.filterMap_congr fun attr _ => Directive.ofAttribute?_escaped attr

theorem directivesOf_escaped (attrs : Attributes) (kind : DirectiveKind) :
    attrs.escaped.directivesOf kind = (attrs.directivesOf kind).map Directive.escaped := by
  unfold directivesOf
  rw [directives_escaped, List.filter_map]
  rfl

theorem directive?_escaped (attrs : Attributes) (kind : DirectiveKind) :
    attrs.escaped.directive? kind = (attrs.directive? kind).map Directive.escaped := by
  rw [directive?_eq_head?, directive?_eq_head?, directivesOf_escaped, List.head?_map]

theorem conditionals_escaped (attrs : Attributes) :
    attrs.escaped.conditionals = attrs.conditionals.map Directive.escaped := by
  unfold conditionals
  rw [directives_escaped, List.filter_map]
  rfl

/-! ### Operations -/

theorem contains_escaped (attrs : Attributes) (name : String) :
    attrs.escaped.contains name = attrs.contains name := by
  rw [Bool.eq_iff_iff, contains_iff, contains_iff, names_escaped]

theorem doubleBinding?_escaped (attrs : Attributes) :
    attrs.escaped.doubleBinding? = attrs.doubleBinding? := by
  unfold doubleBinding?
  simp only [names_escaped, contains_escaped]

theorem lookup?_escaped (attrs : Attributes) (name : String) :
    attrs.escaped.lookup? name = (attrs.lookup? name).map (Option.map escapeText) := by
  unfold lookup? escaped
  induction attrs.entries with
  | nil => rfl
  | cons entry rest ih =>
      obtain ⟨n, v⟩ := entry
      rw [List.map_cons]
      show List.lookup name ((n, v.map escapeText) :: rest.map Attribute.escaped) = _
      rw [List.lookup_cons, List.lookup_cons]
      split
      · rfl
      · exact ih

theorem set_escaped (attrs : Attributes) (name : String) (value : Option String) :
    attrs.escaped.set name (value.map escapeText) = (attrs.set name value).escaped := by
  unfold set
  rw [contains_escaped]
  split
  · refine congrArg Attributes.mk ?_
    show (attrs.entries.map Attribute.escaped).map _ = (attrs.entries.map _).map Attribute.escaped
    rw [List.map_map, List.map_map]
    refine List.map_congr_left fun entry _ => ?_
    show (if entry.1 == name then (entry.1, value.map escapeText) else entry.escaped)
      = Attribute.escaped (if entry.1 == name then (entry.1, value) else entry)
    split <;> rfl
  · refine congrArg Attributes.mk ?_
    show attrs.entries.map Attribute.escaped ++ _ = (attrs.entries ++ [(name, value)]).map _
    rw [List.map_append]
    rfl

theorem insert_escaped (attrs : Attributes) (name value : String) :
    attrs.escaped.insert name (escapeText value) = (attrs.insert name value).escaped :=
  attrs.set_escaped name (some value)

theorem without_map_escaped (name : String) (entries : List Attribute) :
    without name (entries.map Attribute.escaped)
      = (without name entries).map Attribute.escaped := by
  unfold without
  rw [List.filter_map]
  rfl

theorem erase_escaped (attrs : Attributes) (name : String) :
    attrs.escaped.erase name = (attrs.erase name).escaped :=
  congrArg Attributes.mk (without_map_escaped name attrs.entries)

theorem insertBefore_escaped (attrs : Attributes) (anchor name value : String) :
    attrs.escaped.insertBefore anchor name (escapeText value)
      = (attrs.insertBefore anchor name value).escaped := by
  refine congrArg Attributes.mk ?_
  show (attrs.escaped.insertBefore anchor name (escapeText value)).entries
    = (attrs.insertBefore anchor name value).entries.map Attribute.escaped
  rw [entries_insertBefore, entries_insertBefore]
  show List.takeWhile _ (without name (attrs.entries.map Attribute.escaped)) ++ _ = _
  rw [show attrs.escaped.entries = attrs.entries.map Attribute.escaped from rfl,
    without_map_escaped, List.takeWhile_map, List.dropWhile_map, List.map_append, List.map_cons]
  rfl

theorem foldl_spliceEntry_escaped (new : List Attribute) :
    ∀ parts : List Attribute × List Attribute,
      (new.map Attribute.escaped).foldl spliceEntry
          (parts.1.map Attribute.escaped, parts.2.map Attribute.escaped)
        = ((new.foldl spliceEntry parts).1.map Attribute.escaped,
            (new.foldl spliceEntry parts).2.map Attribute.escaped) := by
  induction new with
  | nil => exact fun _ => rfl
  | cons entry new ih =>
      intro parts
      rw [List.map_cons, List.foldl_cons, List.foldl_cons, ← ih]
      refine congrArg (List.foldl spliceEntry · _) (Prod.ext ?_ ?_)
      · show without entry.1 (parts.1.map Attribute.escaped) ++ [entry.escaped]
          = (without entry.1 parts.1 ++ [entry]).map Attribute.escaped
        rw [without_map_escaped, List.map_append]
        rfl
      · exact without_map_escaped entry.1 parts.2

theorem replace_escaped (attrs : Attributes) (name : String) (new : List Attribute) :
    attrs.escaped.replace name (new.map Attribute.escaped)
      = (attrs.replace name new).map escaped := by
  unfold replace
  rw [contains_escaped]
  split
  · rw [List.span_eq_takeWhile_dropWhile, List.span_eq_takeWhile_dropWhile]
    show some (Attributes.mk _) = some (Attributes.mk _)
    rw [show attrs.escaped.entries = attrs.entries.map Attribute.escaped from rfl,
      List.takeWhile_map, List.dropWhile_map, ← List.map_drop,
      foldl_spliceEntry_escaped new (_, _)]
    refine congrArg (fun entries => some (Attributes.mk entries)) ?_
    exact List.map_append.symm
  · rfl

theorem replaceD_escaped (attrs : Attributes) (name : String) (new : List Attribute) :
    attrs.escaped.replaceD name (new.map Attribute.escaped)
      = (attrs.replaceD name new).escaped := by
  unfold replaceD
  rw [replace_escaped]
  cases attrs.replace name new <;> rfl

theorem replaceD_one_escaped (attrs : Attributes) (name new : String) (value : Option String) :
    attrs.escaped.replaceD name [(new, value.map escapeText)]
      = (attrs.replaceD name [(new, value)]).escaped :=
  attrs.replaceD_escaped name [(new, value)]

theorem rename_escaped (attrs : Attributes) (old new : String) :
    attrs.escaped.rename old new = (attrs.rename old new).map escaped := by
  unfold rename
  rw [lookup?_escaped]
  cases attrs.lookup? old with
  | none => rfl
  | some value => exact attrs.replace_escaped old [(new, value)]

theorem getD_get?_escaped (attrs : Attributes) (name : String) :
    (attrs.escaped.get? name).getD "" = escapeText ((attrs.get? name).getD "") := by
  rw [get?_escaped]
  cases attrs.get? name <;> rfl

theorem Distinct.escaped (hd : attrs.Distinct) : attrs.escaped.Distinct := by
  unfold Distinct
  rw [names_escaped]
  exact hd

theorem escaped_escaped (attrs : Attributes) : attrs.escaped.escaped = attrs.escaped := by
  refine congrArg Attributes.mk ?_
  show (attrs.entries.map Attribute.escaped).map Attribute.escaped
    = attrs.entries.map Attribute.escaped
  rw [List.map_map]
  refine List.map_congr_left fun entry _ => ?_
  obtain ⟨name, value⟩ := entry
  cases value with
  | none => rfl
  | some value =>
      exact congrArg (fun text => (name, some text)) (escapeText_escapeText value)

end Attributes

/-! ### One adapter, two spellings -/

/-- Quotes in values are spelled out.  Places in the source are others then, and errors are the
same if their codes are. -/
def Variation.spelling : Variation :=
  ⟨Attributes.escaped, fun _ _ => True, fun error error' => error'.code = error.code⟩

theorem Variation.spelling_of_eq {r r' : Except CompileError Attributes}
    (h : r' = r.map Attributes.escaped) : spelling.Outcome r r' :=
  .of_eq (fun _ => rfl) h

namespace Adapter

open Variation (spelling spelling_of_eq)

variable {setting : Setting} {attrs : Attributes}

/-! ### References and two-way bindings -/

theorem addClass_escaped {marker : String} (hmarker : Text.Unquoted marker.toList)
    (attrs : Attributes) : attrs.escaped.addClass marker = (attrs.addClass marker).escaped := by
  have hsame : escapeText marker = marker := escapeText_eq_self hmarker.1
  have hinsert : attrs.escaped.insert "class" marker = (attrs.insert "class" marker).escaped := by
    rw [← attrs.insert_escaped, hsame]
  unfold Attributes.addClass
  rw [Attributes.get?_escaped]
  cases attrs.get? "class" with
  | none => exact hinsert
  | some list =>
      have hcontains : (Text.words (escapeText list)).contains marker
          = (Text.words list).contains marker := by
        rw [Bool.eq_iff_iff, List.contains_iff_mem, List.contains_iff_mem]
        exact Text.mem_words_escapeText hmarker
      dsimp only [Option.map_some]
      rw [hcontains, Text.isBlankText_escapeText]
      split
      · rfl
      · split
        · exact hinsert
        · rw [Text.trimEnd_escapeText, ← attrs.insert_escaped, escapeText_append, escapeText_append,
            hsame]
          rfl

theorem reference_escaped (site site' : Site)
    (hmarker : ∀ idName marker, setting.dialect.reference = .identity idName marker →
      Text.Unquoted marker.toList) :
    reference setting site' attrs.escaped
      = (reference setting site attrs).map Attributes.escaped := by
  unfold reference
  rw [Attributes.get?_escaped]
  cases attrs.get? "ref" with
  | none => rfl
  | some value =>
      dsimp only [Option.map_some]
      rw [Text.trim_escapeText, isEmpty_escapeText, attrs.erase_escaped]
      split
      · rfl
      · rename_i idName marker hform
        split
        · rfl
        · have hreplaced := attrs.replaceD_one_escaped "ref" idName (some (Text.trim value))
          rw [Option.map_some] at hreplaced
          rw [hreplaced, addClass_escaped (hmarker idName marker hform)]
          rfl

theorem attributes_escapeText (form : ModelForm) (key : String) :
    form.attributes (escapeText key) = (form.attributes key).map Attribute.escaped := by
  cases form with
  | listener eventName valueName =>
      have hproxy : escapeText (Dialect.modelProxy ++ "($event,")
          = Dialect.modelProxy ++ "($event," := by decide
      have hclose : escapeText ")" = ")" := by decide
      have hcall : escapeText (Dialect.modelProxy ++ "($event," ++ Script.quote key ++ ")")
          = Dialect.modelProxy ++ "($event," ++ Script.quote (escapeText key) ++ ")" := by
        rw [escapeText_append, escapeText_append, hproxy, hclose, Script.quote_escapeText]
      show _ = [(eventName, some (escapeText _)), (valueName, some (escapeText key))]
      rw [hcall]
      rfl
  | dataKey keyName eventName valueName =>
      have hproxy : escapeText Dialect.modelProxy = Dialect.modelProxy := by decide
      show _ = [(keyName, some (escapeText key)), (eventName, some (escapeText Dialect.modelProxy)),
        (valueName, some (escapeText (Encoding.braces.encode key)))]
      rw [hproxy, escapeText_encode]
      rfl

theorem model_escaped (site site' : Site) :
    model setting site' attrs.escaped = (model setting site attrs).map Attributes.escaped := by
  unfold model
  rw [Attributes.directive?_escaped]
  cases attrs.directive? .model with
  | none => rfl
  | some d =>
      dsimp only [Option.map_some]
      rw [Directive.expression_escaped, Text.trim_escapeText, isEmpty_escapeText,
        attributes_escapeText]
      split
      · exact congrArg Except.ok (attrs.erase_escaped d.name)
      · exact congrArg Except.ok (attrs.replaceD_escaped d.name _)

/-! ### Bindings -/

theorem map_encode_escapeText (encoding : Encoding) (value : Option String) :
    (value.map escapeText).map encoding.encode = (value.map encoding.encode).map escapeText :=
  (map_escapeText_encodeWith (some encoding) value).symm

theorem properties_escaped (form : BindingForm) (attrs : Attributes) :
    properties form attrs.escaped = (properties form attrs).escaped := by
  have hstep : ∀ (encoding : Encoding) (attrs : Attributes) (d : Directive),
      plainBinding encoding attrs.escaped d.escaped = (plainBinding encoding attrs d).escaped := by
    rintro encoding attrs ⟨kind, name, arg, modifiers, value⟩
    cases arg with
    | none => rfl
    | some property =>
        show attrs.escaped.replaceD name
          [(property, (value.map escapeText).map encoding.encode)] = _
        rw [map_encode_escapeText]
        exact attrs.replaceD_one_escaped name property _
  unfold properties
  split
  · rfl
  · rename_i encoding
    rw [Attributes.directivesOf_escaped]
    generalize attrs.directivesOf .bind = ds
    induction ds generalizing attrs with
    | nil => rfl
    | cons d ds ih =>
        rw [List.map_cons, List.foldl_cons, List.foldl_cons, hstep]
        exact ih _

theorem showStyle_escapeText (expression : String) :
    showStyle (escapeText expression) = escapeText (showStyle expression) := by
  have hdisplay : escapeText "display:" = "display:" := by decide
  have hsemicolon : escapeText ";" = ";" := by decide
  have hnone : escapeText "?'':'none'" = "?'':'none'" := by decide
  have hhidden : escapeText "?'':'height:0px;width:0px;overflow:hidden'"
      = "?'':'height:0px;width:0px;overflow:hidden'" := by decide
  unfold showStyle
  rw [escapeText_append, escapeText_append, escapeText_append, hdisplay, hsemicolon,
    escapeText_encode, escapeText_encode, escapeText_append, escapeText_append, hnone, hhidden]

/-- The text of an attribute ends with a quote, but for blanks and semicolons after it. -/
def EndsQuoted (attrs : Attributes) (name : String) : Prop :=
  (withoutFinalSemicolons (Text.trim ((attrs.get? name).getD ""))).toList.getLast? = some '"'

instance (attrs : Attributes) (name : String) : Decidable (EndsQuoted attrs name) :=
  inferInstanceAs (Decidable (_ = _))

theorem intoSlot_escaped {slot : ShowSlot}
    (hslot : ∀ slotName, slot = .static slotName → ¬ EndsQuoted attrs slotName)
    (name text : String) :
    intoSlot slot name (escapeText text) attrs.escaped
      = (intoSlot slot name text attrs).escaped := by
  unfold intoSlot
  cases slot with
  | binding slotName =>
      have hrenamed : (attrs.escaped.rename slotName (longBindingName slotName)).getD attrs.escaped
          = ((attrs.rename slotName (longBindingName slotName)).getD attrs).escaped := by
        rw [attrs.rename_escaped]
        cases attrs.rename slotName (longBindingName slotName) <;> rfl
      dsimp only
      rw [hrenamed]
      exact Attributes.replaceD_one_escaped _ name slotName (some text)
  | static slotName =>
      have hsemicolons : ∀ s : String,
          (withoutFinalSemicolons s).toList.getLast? ≠ some '"' →
          withoutFinalSemicolons (escapeText s) = escapeText (withoutFinalSemicolons s) := by
        intro s hs
        unfold withoutFinalSemicolons at hs ⊢
        rw [String.toList_ofList] at hs
        rw [toList_escapeText, Text.dropEndWhile_escapeValue rfl fun _ => hs, escapeText_ofList]
      have hsemicolon : escapeText ";" = ";" := by decide
      dsimp only
      rw [attrs.getD_get?_escaped, Text.trim_escapeText, isEmpty_escapeText]
      split
      · exact attrs.replaceD_one_escaped name slotName (some text)
      · rw [hsemicolons _ (hslot slotName rfl), ← Attributes.erase_escaped,
          ← Attributes.insert_escaped, escapeText_append, escapeText_append, hsemicolon]

theorem showing_escaped {slot : ShowSlot}
    (hslot : ∀ slotName, slot = .static slotName → attrs.directive? .showIf ≠ none →
      ¬ EndsQuoted attrs slotName) :
    showing slot attrs.escaped = (showing slot attrs).escaped := by
  unfold showing
  rw [Attributes.directive?_escaped]
  cases hd : attrs.directive? .showIf with
  | none => rfl
  | some d =>
      dsimp only [Option.map_some]
      rw [Directive.expression_escaped, Text.trim_escapeText, isEmpty_escapeText,
        showStyle_escapeText]
      split
      · exact attrs.erase_escaped d.name
      · exact intoSlot_escaped (fun slotName h => hslot slotName h (by rw [hd]; simp)) d.name _

theorem binding_escaped {site site' : Site}
    (hslot : ∀ slotName, setting.dialect.showSlot = .static slotName →
      (properties setting.dialect.binding attrs).directive? .showIf ≠ none →
      ¬ EndsQuoted (properties setting.dialect.binding attrs) slotName) :
    spelling.Outcome (binding setting site attrs) (binding setting site' attrs.escaped) := by
  unfold binding
  rw [attrs.doubleBinding?_escaped]
  split
  · exact .error rfl
  · refine spelling_of_eq (congrArg Except.ok ?_)
    rw [properties_escaped]
    exact showing_escaped hslot

/-! ### Conditions and loops -/

theorem continuedBy_escaped (names : ConditionalNames) (attrs : Attributes) :
    names.continuedBy attrs.escaped = names.continuedBy attrs := by
  unfold ConditionalNames.continuedBy
  rw [attrs.contains_escaped, attrs.contains_escaped]

theorem conditional_of_one {d : Directive} (h : attrs.conditionals = [d]) (site : Site) :
    conditional setting site attrs
      = if d.kind = .ifCond ∨
          (site.previous ()).any setting.dialect.conditional.continuedBy = true then
          .ok (attrs.replaceD d.name [(setting.dialect.conditional.nameOf d.kind,
            d.value.map setting.dialect.conditional.encoding.encode)])
        else .error (.brokenChain site.tag d.name site.span) := by
  unfold conditional
  rw [h]

theorem conditional_escaped {site site' : Site}
    (hprevious : site'.previous () = (site.previous ()).map Attributes.escaped) :
    spelling.Outcome (conditional setting site attrs)
      (conditional setting site' attrs.escaped) := by
  have hcontinued : (site'.previous ()).any setting.dialect.conditional.continuedBy
      = (site.previous ()).any setting.dialect.conditional.continuedBy := by
    rw [hprevious]
    cases site.previous () with
    | none => rfl
    | some before => exact continuedBy_escaped _ before
  have hsame := attrs.conditionals_escaped
  match hconditionals : attrs.conditionals with
  | [] =>
      rw [hconditionals] at hsame
      unfold conditional
      rw [hsame, hconditionals]
      exact .ok attrs
  | first :: second :: rest =>
      rw [hconditionals] at hsame
      unfold conditional
      rw [hsame, hconditionals]
      exact .error rfl
  | [d] =>
      rw [hconditionals] at hsame
      rw [conditional_of_one hconditionals, conditional_of_one hsame, hcontinued,
        show d.escaped.kind = d.kind from rfl]
      split
      · refine spelling_of_eq (congrArg Except.ok ?_)
        show attrs.escaped.replaceD d.name [(setting.dialect.conditional.nameOf d.kind,
          (d.value.map escapeText).map setting.dialect.conditional.encoding.encode)] = _
        rw [map_encode_escapeText]
        exact attrs.replaceD_one_escaped d.name _ _
      · exact .error rfl

/-- A loop is split if it fits, and is an error otherwise. -/
theorem iteration_of_split {itemName indexName sourceName : String} {encoding : Encoding}
    (hform : setting.dialect.iteration = .split itemName indexName sourceName encoding)
    {d : Directive} (hd : attrs.directive? .forEach = some d) (site : Site) :
    iteration setting site attrs
      = match (Iteration.parse? d.expression).filter Iteration.isSplittable with
        | none => .error (.badIteration site.tag d.expression site.span)
        | some it =>
          .ok (attrs.replaceD d.name (it.attributes itemName indexName sourceName encoding)) := by
  unfold iteration
  rw [hd, hform]
  dsimp only
  cases Iteration.parse? d.expression with
  | none => rfl
  | some it =>
      rw [Option.filter_some]
      dsimp only
      split <;> rfl

theorem iteration_escaped {site site' : Site}
    (hloop : setting.dialect.iteration = .keep → ∀ l ∈ attrs.directive? .forEach,
      Iteration.QuotedLate l.expression) :
    spelling.Outcome (iteration setting site attrs) (iteration setting site' attrs.escaped) := by
  have hfound := attrs.directive?_escaped .forEach
  cases hd : attrs.directive? .forEach with
  | none =>
      rw [hd] at hfound
      unfold iteration
      rw [hfound, hd]
      exact .ok attrs
  | some d =>
      rw [hd, Option.map_some] at hfound
      cases hform : setting.dialect.iteration with
      | keep =>
          unfold iteration
          rw [hfound, hd]
          dsimp only
          rw [hform, d.expression_escaped, Iteration.parse?_escapeText (hloop hform d hd)]
          cases Iteration.parse? d.expression with
          | none => exact .error rfl
          | some it => exact .ok attrs
      | split itemName indexName sourceName encoding =>
          rw [iteration_of_split hform hd, iteration_of_split hform hfound, d.expression_escaped,
            Iteration.filter_parse?_escapeText]
          cases hfits : (Iteration.parse? d.expression).filter Iteration.isSplittable with
          | none => exact .error rfl
          | some it =>
              refine spelling_of_eq (congrArg Except.ok ?_)
              rw [← Attributes.replaceD_escaped,
                ← Iteration.attributes_escapeText (Option.filter_eq_some_iff.mp hfits).2]
              rfl

/-! ### Classes -/

section

variable {tag : String}

/-- Base classes have no quotes if the tag has none. -/
theorem escapeText_baseClasses (htag : Text.Unquoted tag.toList) :
    escapeText (baseClasses tag) = baseClasses tag := by
  have hbase : escapeText (Dialect.baseClass ++ " cml-") = Dialect.baseClass ++ " cml-" := by decide
  unfold baseClasses
  rw [escapeText_append, hbase, escapeText_eq_self htag.1]

theorem mergeClass_escaped (htag : Text.Unquoted tag.toList) (binding : Option Directive)
    (attrs : Attributes) :
    mergeClass (baseClasses tag) (binding.map Directive.escaped) attrs.escaped
      = (mergeClass (baseClasses tag) binding attrs).escaped := by
  have hblank : escapeText " " = " " := by decide
  have hblanks : escapeText "   " = "   " := by decide
  unfold mergeClass
  dsimp only
  rw [attrs.getD_get?_escaped, endsWithBase_escapeText_eq htag]
  split
  · rfl
  · cases binding with
    | none =>
        dsimp only [Option.map_none]
        rw [← attrs.insert_escaped, escapeText_append, escapeText_append, hblank,
          escapeText_baseClasses htag]
    | some d =>
        dsimp only [Option.map_some]
        rw [attrs.contains_escaped]
        split
        · rw [← attrs.insert_escaped, escapeText_append, escapeText_append, hblanks,
            escapeText_baseClasses htag]
        · rw [← attrs.insertBefore_escaped, escapeText_append, escapeText_append, hblanks,
            escapeText_baseClasses htag]
          rfl

theorem wrapClassBinding_escaped (binding : Option Directive) (attrs : Attributes) :
    wrapClassBinding (binding.map Directive.escaped) attrs.escaped
      = (wrapClassBinding binding attrs).escaped := by
  have hproxy : Text.Unquoted (Dialect.classProxy ++ "(").toList := by decide
  have hopen : escapeText (Dialect.classProxy ++ "((") = Dialect.classProxy ++ "((" := by decide
  have hclose : escapeText "))" = "))" := by decide
  cases binding with
  | none => rfl
  | some d =>
      unfold wrapClassBinding classCall
      dsimp only [Option.map_some]
      rw [d.expression_escaped, Text.trim_escapeText, Text.beginsWith_escapeText hproxy]
      split
      · rfl
      · rw [← attrs.insert_escaped, escapeText_append, escapeText_append, hopen, hclose]
        rfl

theorem foldClass_escaped (htag : Text.Unquoted tag.toList) (binding : Option Directive)
    (attrs : Attributes) :
    foldClass (baseClasses tag) (binding.map Directive.escaped) attrs.escaped
      = (foldClass (baseClasses tag) binding attrs).escaped := by
  have hblank : escapeText " " = " " := by decide
  have hblanks : escapeText "  " = "  " := by decide
  unfold foldClass
  dsimp only
  rw [attrs.getD_get?_escaped, endsWithBase_escapeText_eq htag]
  cases binding with
  | none =>
      dsimp only [Option.map_none]
      split
      · rfl
      · rw [← attrs.insert_escaped, escapeText_append, escapeText_append, hblank,
          escapeText_baseClasses htag]
  | some d =>
      have hfront : Encoding.braces.encode d.escaped.expression ++ " "
            ++ escapeText ((attrs.get? "class").getD "")
          = escapeText (Encoding.braces.encode d.expression ++ " "
            ++ (attrs.get? "class").getD "") := by
        rw [escapeText_append, escapeText_append, hblank, escapeText_encode, d.expression_escaped]
      have hvalue : ∀ (b : Bool) (front : String),
          (if b = true then escapeText front else escapeText front ++ "  " ++ baseClasses tag)
            = escapeText (if b = true then front else front ++ "  " ++ baseClasses tag) := by
        intro b front
        split
        · rfl
        · rw [escapeText_append, escapeText_append, hblanks, escapeText_baseClasses htag]
      dsimp only [Option.map_some]
      rw [attrs.contains_escaped, hfront, hvalue]
      split
      · rw [← Attributes.erase_escaped, ← Attributes.insert_escaped]
        rfl
      · exact attrs.replaceD_one_escaped d.name "class" (some _)

theorem classes_escaped {site site' : Site} (htag : Text.Unquoted site.tag.toList)
    (hsame : site'.tag = site.tag) :
    classes setting site' attrs.escaped = (classes setting site attrs).map Attributes.escaped := by
  unfold classes
  dsimp only
  rw [hsame, Attributes.directive?_escaped]
  split
  · exact congrArg Except.ok (mergeClass_escaped htag _ attrs)
  · rw [mergeClass_escaped htag, wrapClassBinding_escaped]
    rfl
  · exact congrArg Except.ok (foldClass_escaped htag _ attrs)

end

/-! ### Styles -/

theorem styleOperand_escaped (d : Directive) :
    styleOperand d.escaped = escapeText (styleOperand d) := by
  unfold styleOperand
  dsimp only
  rw [d.expression_escaped, Text.trim_escapeText, Text.holds_escapeText]
  split
  · rw [Script.ofInterpolated_escapeText]
  · rfl

theorem styleOperands_escaped (ds : List Directive) :
    styleOperands (ds.map Directive.escaped) = (styleOperands ds).map escapeText := by
  unfold styleOperands
  rw [List.filter_map, List.map_map, List.map_map]
  have hblank : (fun d : Directive => !Text.isBlankText d.expression) ∘ Directive.escaped
      = fun d => !Text.isBlankText d.expression := by
    funext d
    rw [Function.comp_apply, d.expression_escaped, Text.isBlankText_escapeText]
  rw [hblank]
  refine List.map_congr_left fun d _ => ?_
  rw [Function.comp_apply, Function.comp_apply, styleOperand_escaped]

theorem joinStyles_escapeText (operands : List String) :
    joinStyles (operands.map escapeText) = escapeText (joinStyles operands) := by
  match operands with
  | [] => rfl
  | [operand] => rfl
  | first :: second :: others =>
      have hparentheses : ∀ operand : String,
          escapeText ("(" ++ operand ++ ")") = "(" ++ escapeText operand ++ ")" := by
        have hopen : escapeText "(" = "(" := by decide
        have hclose : escapeText ")" = ")" := by decide
        intro operand
        rw [escapeText_append, escapeText_append, hopen, hclose]
      have hjoin : ∀ first second : String, ∀ others, joinStyles (first :: second :: others)
          = "+';'+".intercalate
            ((first :: second :: others).map fun operand => "(" ++ operand ++ ")") :=
        fun _ _ _ => rfl
      rw [List.map_cons, List.map_cons, hjoin, hjoin, escapeText_intercalate (by decide),
        ← List.map_cons, ← List.map_cons, List.map_map, List.map_map]
      refine congrArg _ (List.map_congr_left fun operand _ => ?_)
      rw [Function.comp_apply, Function.comp_apply, hparentheses]

/-- The style options may have quotes of their own, which are spelled out in the end. -/
theorem escapeText_styleCall (mode : StyleMode) (config : Option StyleConfig)
    (expression : String) :
    escapeText (styleCall mode config (escapeText expression))
      = escapeText (styleCall mode config expression) := by
  unfold styleCall
  split
  · simp only [escapeText_append, escapeText_escapeText]
  · simp only [escapeText_append, escapeText_escapeText]

theorem isStyleCall_escaped (ds : List Directive) (operands : List String) :
    isStyleCall (ds.map Directive.escaped) (operands.map escapeText) = isStyleCall ds operands := by
  have hproxy : Text.Unquoted (Dialect.styleProxy ++ "(").toList := by decide
  match ds, operands with
  | [_], [operand] => exact Text.beginsWith_escapeText hproxy operand
  | [], _ => rfl
  | _ :: _ :: _, _ => rfl
  | [_], [] => rfl
  | [_], _ :: _ :: _ => rfl

theorem eraseAll_escaped (ds : List Directive) (attrs : Attributes) :
    eraseAll (ds.map Directive.escaped) attrs.escaped = (eraseAll ds attrs).escaped := by
  induction ds generalizing attrs with
  | nil => rfl
  | cons d ds ih =>
      show eraseAll (ds.map Directive.escaped) (attrs.escaped.erase d.name) = _
      rw [attrs.erase_escaped, ih]
      rfl

theorem mergeStyleBindings_cons (mode : StyleMode) (config : Option StyleConfig)
    (first : Directive) (others : List Directive) (attrs : Attributes) :
    mergeStyleBindings mode config (first :: others) attrs
      = if isStyleCall (first :: others) (styleOperands (first :: others)) = true then attrs
        else if (styleOperands (first :: others)).isEmpty = true then
          eraseAll (first :: others) attrs
        else (eraseAll others attrs).replaceD first.name [(styleBindingName,
          some (styleCall mode config (joinStyles (styleOperands (first :: others)))))] := rfl

theorem escaped_styleBindings (mode : StyleMode) (config : Option StyleConfig)
    (attrs : Attributes) :
    (styleBindings mode config attrs.escaped).escaped
      = (styleBindings mode config attrs).escaped := by
  have hmerged : ∀ ds : List Directive,
      (mergeStyleBindings mode config (ds.map Directive.escaped) attrs.escaped).escaped
        = (mergeStyleBindings mode config ds attrs).escaped := by
    intro ds
    cases ds with
    | nil => exact attrs.escaped_escaped
    | cons first others =>
        rw [List.map_cons, mergeStyleBindings_cons, mergeStyleBindings_cons, ← List.map_cons,
          styleOperands_escaped, isStyleCall_escaped, joinStyles_escapeText, List.isEmpty_map,
          eraseAll_escaped, eraseAll_escaped]
        split
        · exact attrs.escaped_escaped
        · split
          · exact Attributes.escaped_escaped _
          · rw [← Attributes.replaceD_escaped, ← Attributes.replaceD_escaped,
              Attributes.escaped_escaped]
            show Attributes.replaceD _ first.name [(styleBindingName, some (escapeText _))]
              = Attributes.replaceD _ first.name [(styleBindingName, some (escapeText _))]
            rw [escapeText_styleCall]
  unfold styleBindings
  dsimp only
  rw [attrs.directivesOf_escaped]
  split
  · rw [eraseAll_escaped, Attributes.escaped_escaped]
  · exact hmerged _

/-- The bindings of the style and the static style have nothing to do with each other. -/
theorem get?_styleBindings (mode : StyleMode) (config : Option StyleConfig) (attrs : Attributes) :
    (styleBindings mode config attrs).get? "style" = attrs.get? "style" := by
  refine (agreeOn_styleBindings (p := fun n => n == "style") mode config (fun d hd => ?_)
    fun n hn => ?_).get?_eq rfl
  · have hk := (Attributes.name_of_mem_directivesOf hd).2
    rw [beq_eq_false_iff_ne]
    intro heq
    rw [heq] at hk
    exact absurd hk (by decide)
  · cases mode with
    | drop => cases hn
    | proxyWithConfig | proxy =>
        rw [List.mem_singleton.mp hn]
        decide

/-- A static style that is not blank is written for the platform. -/
theorem escaped_staticStyle (hd : attrs.Distinct) {style : String}
    (hstyle : attrs.get? "style" = some style) (hblank : Text.isBlankText style = false) :
    (staticStyle setting attrs).escaped
      = attrs.escaped.insert "style" (escapeText (setting.normalizeStyle style)) := by
  have hne : escapeText style ≠ "" := by
    intro hempty
    rw [← Text.isBlankText_escapeText, hempty] at hblank
    cases hblank
  unfold staticStyle
  rw [hstyle]
  dsimp only
  rw [hblank, Bool.false_or]
  split
  · rename_i hsame
    rw [beq_iff_eq.mp hsame]
    refine (hd.escaped.insert_eq_self ?_ hne).symm
    rw [attrs.get?_escaped, hstyle]
    rfl
  · exact (attrs.insert_escaped "style" _).symm

/-- The two spellings of a static style are written for the platform as spellings of one, unless
the style is cut inside a quote that is spelled out. -/
theorem styles_escaped {target : Target} {config : Option StyleConfig} {site site' : Site}
    (hd : attrs.Distinct)
    (hweex : target.dialect.isWeex = true → ∀ style ∈ attrs.get? "style",
      Style.QuotesEnclosed style)
    {r r' : Attributes} (h : styles (.forTarget target config) site attrs = .ok r)
    (h' : styles (.forTarget target config) site' attrs.escaped = .ok r') :
    r'.escaped = r.escaped := by
  have hdistinct : ∀ {attrs : Attributes}, attrs.Distinct →
      (styleBindings target.dialect.styleMode config attrs).Distinct := fun hd =>
    (@writesOnly_styleBindings (.forTarget target config) _ hd).distinct
  have hbindings := escaped_styleBindings target.dialect.styleMode config attrs
  have hfound := get?_styleBindings target.dialect.styleMode config attrs
  have hfound' := get?_styleBindings target.dialect.styleMode config attrs.escaped
  unfold styles at h h'
  cases h
  cases h'
  show (staticStyle _ (styleBindings target.dialect.styleMode config attrs.escaped)).escaped
    = (staticStyle _ (styleBindings target.dialect.styleMode config attrs)).escaped
  rw [attrs.get?_escaped] at hfound'
  cases hstyle : attrs.get? "style" with
  | none =>
      rw [hstyle] at hfound hfound'
      unfold staticStyle
      rw [hfound, hfound']
      exact hbindings
  | some style =>
      rw [hstyle] at hfound hfound'
      rw [Option.map_some] at hfound'
      cases hblank : Text.isBlankText style with
      | true =>
          unfold staticStyle
          rw [hfound, hfound']
          dsimp only
          rw [Text.isBlankText_escapeText, hblank]
          exact hbindings
      | false =>
          rw [escaped_staticStyle (hdistinct hd) hfound hblank,
            escaped_staticStyle (hdistinct hd.escaped) hfound'
              ((Text.isBlankText_escapeText _).trans hblank),
            hbindings, Setting.normalizeStyle_forTarget, Setting.normalizeStyle_forTarget,
            Style.escapeText_normalize config fun h => hweex h style hstyle]

end Adapter

end TemplateCompiler
