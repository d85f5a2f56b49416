/-
Showing and hiding where the style is bound.

The pass of bindings writes the expression of a `v-show` twice into a text with
interpolations, as one more binding of the style, and the pass of styles reads this text and
all other bindings and merges them into one call.  Reading ends an interpolation at the first
two closing braces, so the expression is found again unless it has two closing braces side by
side itself, as an object in an object has.

Between the two passes the bindings of the style stay in their order.  The binding of the
author that has the name of the slot is renamed, not moved, and since no property is bound in
both spellings no other binding gives way.  So in the end the operands of the call stand in the
order in which the author wrote the attributes.
-/
import TemplateCompiler.Proofs.Confinement
import TemplateCompiler.Proofs.Interpolations
import TemplateCompiler.Proofs.Retention
import TemplateCompiler.Proofs.Spelling
import Mathlib.Data.List.Permutation

namespace TemplateCompiler

/-! ### Texts -/

namespace Text

/-- A mark of two characters does not begin inside a text that lacks it and is not followed by the
second one. -/
theorem cutChars_append_of_none {m n c : Char} {front : List Char}
    (h : cutChars [m, n] front = none) (hc : c ≠ n) (rest : List Char) :
    cutChars [m, n] (front ++ c :: rest) = (cutChars [m, n] (c :: rest)).map
      fun (before, after) => (front ++ before, after) := by
  induction front with
  | nil =>
      show cutChars [m, n] (c :: rest) = _
      cases cutChars [m, n] (c :: rest) <;> rfl
  | cons d front ih =>
      rw [cutChars] at h
      cases hafter : afterChars? [m, n] (d :: front) with
      | some after =>
          rw [hafter] at h
          cases h
      | none =>
          rw [hafter] at h
          have hfront : cutChars [m, n] front = none := Option.map_eq_none_iff.mp h
          -- The mark would have to stand across the end.
          have hacross : afterChars? [m, n] (d :: (front ++ c :: rest)) = none := by
            unfold afterChars? at hafter ⊢
            split
            · rename_i hd
              rw [if_pos hd] at hafter
              cases front with
              | nil => exact if_neg hc.symm
              | cons e front =>
                  unfold afterChars? at hafter
                  split at hafter
                  · cases hafter
                  · rename_i he
                    exact if_neg he
            · rfl
          rw [List.cons_append, cutChars, hacross, ih hfront]
          cases cutChars [m, n] (c :: rest) <;> rfl

end Text

/-- The expression that the text of a `v-show` is read as. -/
def showExpression (expression : String) : String :=
  "'display:'+(" ++ expression ++ "?'':'none')+';'+(" ++ expression ++
    "?'':'height:0px;width:0px;overflow:hidden')"

namespace Script

open Segment

/-- An interpolation is found if no braces stand before it and its expression has no two closing
braces side by side, which what comes after the expression keeps apart from those that end it. -/
theorem Segment.cutInterpolation_append {expression : List Char} (before tail after : List Char)
    (hbefore : '{' ∉ before) (h : Text.cutChars ['}', '}'] expression = none) (hne : tail ≠ [])
    (htail : '}' ∉ tail) :
    cutInterpolation (before ++ '{' :: '{' :: (expression ++ tail ++ '}' :: '}' :: after))
      = some (before, expression ++ tail, after) := by
  have hopen : Text.cutChars ['{', '{']
      (before ++ '{' :: '{' :: (expression ++ tail ++ '}' :: '}' :: after))
        = some (before, expression ++ tail ++ '}' :: '}' :: after) := by
    rw [Text.cutChars_append_of_not_mem hbefore]
    simp [Text.cutChars, Text.afterChars?]
  have hclose : Text.cutChars ['}', '}'] (expression ++ tail ++ '}' :: '}' :: after)
      = some (expression ++ tail, after) := by
    obtain ⟨c, rest, rfl⟩ := List.exists_cons_of_ne_nil hne
    have hc : c ≠ '}' := fun heq => htail (heq ▸ List.mem_cons_self)
    rw [List.append_assoc, List.cons_append, Text.cutChars_append_of_none h hc,
      ← List.cons_append, Text.cutChars_append_of_not_mem htail]
    simp [Text.cutChars, Text.afterChars?]
  unfold cutInterpolation
  rw [hopen, Option.bind_some]
  dsimp only
  rw [hclose]
  rfl

end Script

variable {expression : String}

/-- What the expression of a `v-show` is followed by in the two interpolations. -/
def displayTail : List Char := "?'':'none".toList ++ ['\'']

def sizeTail : List Char := "?'':'height:0px;width:0px;overflow:hidden".toList ++ ['\'']

theorem toList_showStyle (expression : String) :
    (showStyle expression).toList = "display:".toList ++ '{' :: '{' ::
      (expression.toList ++ displayTail ++ '}' :: '}' :: ([';'] ++ '{' :: '{' ::
        (expression.toList ++ sizeTail ++ '}' :: '}' :: []))) := by
  unfold showStyle Encoding.encode
  simp only [String.toList_append, List.append_assoc]
  rfl

/-- What stands between the braces begins with the expression and ends with a quote, so there is
nothing to be trimmed. -/
theorem operand_of_trim (hne : Text.trim expression ≠ "") (mid : List Char) :
    (Script.Segment.interpolation ((Text.trim expression).toList ++ (mid ++ ['\'']))).operand
      = '(' :: ((Text.trim expression).toList ++ (mid ++ ['\''])) ++ [')'] := by
  have htrim : Text.trimChars ((Text.trim expression).toList ++ (mid ++ ['\'']))
      = (Text.trim expression).toList ++ (mid ++ ['\'']) := by
    cases hchars : (Text.trim expression).toList with
    | nil => exact absurd (String.toList_eq_nil_iff.mp hchars) hne
    | cons c rest =>
        have hstart : Text.trimChars expression.toList = c :: rest := by
          rw [← hchars]
          exact String.toList_ofList.symm
        rw [← List.append_assoc, List.cons_append]
        exact Text.trimChars_eq_self (Text.isBlank_head_trimChars hstart) (by decide) _
  exact congrArg (fun inside => '(' :: inside ++ [')']) htrim

/-- The text of a `v-show` is read as an expression again. -/
theorem ofInterpolated_showStyle (hne : Text.trim expression ≠ "")
    (h : Text.holds "\x7d\x7d" (Text.trim expression) = false) :
    Script.ofInterpolated (showStyle (Text.trim expression))
      = showExpression (Text.trim expression) := by
  have hclose : Text.cutChars ['}', '}'] (Text.trim expression).toList = none := by
    rw [← Option.not_isSome_iff_eq_none]
    exact fun hsome => Bool.false_ne_true (h.symm.trans hsome)
  have hfirst := Script.Segment.cutInterpolation_append "display:".toList displayTail
    ([';'] ++ '{' :: '{' :: ((Text.trim expression).toList ++ sizeTail ++ '}' :: '}' :: []))
    (by decide) hclose (by decide) (by decide)
  have hsecond := Script.Segment.cutInterpolation_append [';'] sizeTail [] (by decide) hclose
    (by decide) (by decide)
  have hsegments : Script.Segment.ofText (showStyle (Text.trim expression)).toList =
      [.literal "display:".toList, .interpolation ((Text.trim expression).toList ++ displayTail),
        .literal [';'], .interpolation ((Text.trim expression).toList ++ sizeTail)] := by
    have hnil : Script.Segment.ofText [] = [] := by
      rw [Script.Segment.ofText]
      rfl
    rw [toList_showStyle, Script.Segment.ofText_eq_of_cut hfirst,
      Script.Segment.ofText_eq_of_cut hsecond, hnil]
    rfl
  have hdisplay : (Script.Segment.literal "display:".toList).operand = "'display:'".toList := by
    decide
  have hsemicolon : (Script.Segment.literal [';']).operand = "';'".toList := by decide
  have hnone := operand_of_trim hne "?'':'none".toList
  have hsize := operand_of_trim hne "?'':'height:0px;width:0px;overflow:hidden".toList
  unfold Script.ofInterpolated
  rw [hsegments]
  unfold displayTail sizeTail showExpression
  simp only [List.map_cons, List.map_nil]
  rw [hdisplay, hnone, hsemicolon, hsize, ← String.toList_inj]
  simp [Script.Segment.isInterpolation, List.intercalate, List.intersperse]

/-! ### What is merged -/

/-- The text that the directive adds to the style that is bound. -/
def Directive.dynamicStyle? (d : Directive) : Option String :=
  match d.kind with
  | .styleBinding => some d.expression
  | .showIf => some (showStyle (Text.trim d.expression))
  | _ => none

/-- The text that the directive adds where only bindings are looked for. -/
def Directive.boundStyle? (d : Directive) : Option String :=
  match d.kind with
  | .styleBinding => some d.expression
  | _ => none

/-- The text that the directive adds where `shown` is the `v-show` that is adapted. -/
def Directive.adaptedStyle? (shown : Option Directive) (d : Directive) : Option String :=
  match d.kind with
  | .styleBinding => some d.expression
  | .showIf =>
    let expression := Text.trim d.expression
    if some d = shown ∧ expression ≠ "" then some (showStyle expression) else none
  | _ => none

/-- All directives but one are looked at alike. -/
theorem Directive.adaptedStyle?_of_ne {shown : Option Directive} {d : Directive}
    (h : some d ≠ shown) : d.adaptedStyle? shown = d.boundStyle? := by
  unfold adaptedStyle? boundStyle?
  cases d.kind with
  | showIf => exact if_neg fun hshown => h hshown.1
  | _ => rfl

/-- A binding of the style adds its expression. -/
theorem Directive.bind_styleBinding {name : String} (h : Directive.kind? name = some .styleBinding)
    (value : Option String) (shown : Option Directive) :
    (Directive.ofAttribute? (name, value)).bind Directive.boundStyle? = some (value.getD "") ∧
      (Directive.ofAttribute? (name, value)).bind (Directive.adaptedStyle? shown)
        = some (value.getD "") := by
  obtain ⟨d, hd, hkind⟩ := @Directive.exists_of_kind? (name, value) _ h
  have hvalue : d.value = value := congrArg Prod.snd (Directive.attribute_eq hd)
  rw [hd, Option.bind_some, Option.bind_some]
  unfold Directive.adaptedStyle? Directive.boundStyle? Directive.expression
  rw [hkind, hvalue]
  exact ⟨rfl, rfl⟩

/-- The operand of the call that a text of the style becomes. -/
def styleOperandOf (text : String) : String :=
  let expression := Text.trim text
  if Text.holds "\x7b\x7b" expression then Script.ofInterpolated expression else expression

/-- The operands that the texts become, where blank ones are dropped. -/
def mergedOperands (texts : List String) : List String :=
  (texts.filter fun text => !Text.isBlankText text).map styleOperandOf

theorem mergedOperands_cons {text : String} (h : Text.isBlankText text = false)
    (texts : List String) :
    mergedOperands (text :: texts) = styleOperandOf text :: mergedOperands texts := by
  unfold mergedOperands
  rw [List.filter_cons, h]
  rfl

/-- A text without interpolations is the operand. -/
theorem styleOperandOf_eq_trim {text : String}
    (h : Text.holds "\x7b\x7b" (Text.trim text) = false) :
    styleOperandOf text = Text.trim text := by
  unfold styleOperandOf
  dsimp only
  rw [h]
  rfl

/-- The text of a `v-show` begins with a letter and ends with a brace. -/
theorem trim_showStyle (expression : String) :
    Text.trim (showStyle expression) = showStyle expression := by
  have hends : ∃ mid, (showStyle expression).toList = 'd' :: mid ++ ['}'] := by
    refine ⟨"isplay:".toList ++ '{' :: '{' :: (expression.toList ++ displayTail ++
      '}' :: '}' :: ([';'] ++ '{' :: '{' :: (expression.toList ++ sizeTail ++ ['}']))), ?_⟩
    rw [toList_showStyle]
    simp
  obtain ⟨mid, hmid⟩ := hends
  rw [← String.toList_inj, show (Text.trim (showStyle expression)).toList
      = Text.trimChars (showStyle expression).toList from String.toList_ofList, hmid]
  exact Text.trimChars_eq_self (by decide) (by decide) mid

theorem holds_showStyle (expression : String) :
    Text.holds "\x7b\x7b" (showStyle expression) = true := by
  unfold Text.holds
  rw [toList_showStyle]
  show (Text.cutChars ['{', '{'] _).isSome = true
  rw [Text.cutChars_append_of_not_mem (by decide), Option.isSome_map]
  rfl

/-- The operand that the text of a `v-show` becomes. -/
theorem styleOperandOf_showStyle (hne : Text.trim expression ≠ "")
    (h : Text.holds "\x7d\x7d" (Text.trim expression) = false) :
    styleOperandOf (showStyle (Text.trim expression)) = showExpression (Text.trim expression) := by
  unfold styleOperandOf
  dsimp only
  rw [trim_showStyle, if_pos (holds_showStyle _), ofInterpolated_showStyle hne h]

theorem isBlankText_showStyle (expression : String) :
    Text.isBlankText (showStyle expression) = false := by
  unfold Text.isBlankText
  rw [toList_showStyle]
  rfl

/-- The expression of a `v-show` is no call. -/
theorem not_beginsWith_showExpression (expression : String) :
    Text.beginsWith (Dialect.styleProxy ++ "(") (showExpression expression) = false := by
  unfold Text.beginsWith showExpression
  simp only [String.toList_append, List.append_assoc]
  rfl

/-- The only text of the style is a call already. -/
def boundAsCall (texts : List String) : Bool :=
  match texts, mergedOperands texts with
  | [_], [operand] => Text.beginsWith (Dialect.styleProxy ++ "(") operand
  | _, _ => false

theorem boundAsCall_eq_false {texts : List String}
    (h : showExpression expression ∈ mergedOperands texts) : boundAsCall texts = false := by
  unfold boundAsCall
  split
  · rename_i operand hoperands
    rw [hoperands, List.mem_singleton] at h
    rw [← h]
    exact not_beginsWith_showExpression _
  · rfl

namespace Attributes

variable {attrs attrs' : Attributes} {name : String}

/-- The texts of the style that is bound on the element, a `v-show` among them, in the order of the
attributes. -/
def dynamicStyles (attrs : Attributes) : List String :=
  attrs.directives.filterMap Directive.dynamicStyle?

/-- The directives that have to do with the style that is bound. -/
theorem dynamicStyles_eq (attrs : Attributes) :
    attrs.dynamicStyles
      = (attrs.directives.filter fun d => d.kind = .showIf ∨ d.kind = .styleBinding).filterMap
        Directive.dynamicStyle? := by
  unfold dynamicStyles
  rw [List.filterMap_filter]
  refine List.filterMap_congr fun d _ => ?_
  unfold Directive.dynamicStyle?
  cases d.kind <;> rfl

/-- The texts of the style that is bound on the element where the first `v-show` is adapted, in the
order of the attributes. -/
def boundStyles (attrs : Attributes) : List String :=
  attrs.directives.filterMap (Directive.adaptedStyle? (attrs.directive? .showIf))

theorem boundStyles_eq (attrs : Attributes) :
    attrs.boundStyles
      = (attrs.directives.filter fun d => d.kind = .showIf ∨ d.kind = .styleBinding).filterMap
        (Directive.adaptedStyle? (attrs.directivesOf .showIf).head?) := by
  unfold boundStyles
  rw [List.filterMap_filter, directive?_eq_head?]
  refine List.filterMap_congr fun d _ => ?_
  unfold Directive.adaptedStyle?
  cases d.kind <;> rfl

/-- On an element with one `v-show` there is no other. -/
theorem boundStyles_eq_dynamicStyles {d : Directive} (hshow : attrs.directivesOf .showIf = [d])
    (hne : Text.trim d.expression ≠ "") : attrs.boundStyles = attrs.dynamicStyles := by
  unfold boundStyles dynamicStyles
  rw [directive?_eq_head?, hshow]
  refine List.filterMap_congr fun d' hd' => ?_
  unfold Directive.adaptedStyle? Directive.dynamicStyle?
  cases hkind : d'.kind with
  | showIf =>
      have hmem : d' ∈ attrs.directivesOf .showIf := mem_directivesOf.mpr ⟨hd', hkind⟩
      rw [hshow, List.mem_singleton] at hmem
      rw [hmem]
      exact if_pos ⟨rfl, hne⟩
  | _ => rfl

theorem map_expression_styleBinding (attrs : Attributes) :
    (attrs.directivesOf .styleBinding).map Directive.expression
      = attrs.entries.filterMap fun attr =>
        (Directive.ofAttribute? attr).bind Directive.boundStyle? := by
  unfold directivesOf directives
  rw [← List.filterMap_eq_map, List.filterMap_filter, List.filterMap_filterMap]
  refine List.filterMap_congr fun attr _ => congrArg _ (funext fun d => ?_)
  unfold Directive.boundStyle?
  cases d.kind <;> rfl

/-- Where the new name is not taken, replacing one entry by another is done in its place. -/
theorem Distinct.entries_replaceD_of_not_mem (hd : attrs.Distinct) (hname : name ∈ attrs.names)
    {new : String} (hnew : new ∉ attrs.names) (value : Option String) :
    (attrs.replaceD name [(new, value)]).entries
      = attrs.entries.map fun entry => if entry.1 = name then (new, value) else entry := by
  have hone : ([(new, value)].map Prod.fst).Nodup := List.nodup_singleton new
  rw [hd.entries_replaceD hname hone, List.map_eq_flatMap]
  refine List.flatMap_congr fun entry hentry => ?_
  have hne : entry.1 ∉ [(new, value)].map Prod.fst := by
    rw [List.map_cons, List.map_nil, List.mem_singleton]
    rintro rfl
    exact hnew (List.mem_map_of_mem hentry)
  unfold replaceEntry
  rw [if_neg hne]
  split <;> rfl

end Attributes

/-! ### Into the slot and out of it -/

namespace Adapter

variable {setting : Setting} {attrs attrs' : Attributes} {name : String}

/-- A `v-show` becomes a binding of the style in its place, and a binding of the author that has
this name is renamed in its place. -/
theorem entries_intoSlot (hd : attrs.Distinct) (honce : attrs.BoundOnce)
    (hname : name ∈ attrs.names) (hshort : name ≠ ":style") (hlong : name ≠ "v-bind:style")
    (text : String) :
    (intoSlot (.binding ":style") name text attrs).entries
      = attrs.entries.map fun entry => if entry.1 = ":style" then ("v-bind:style", entry.2)
        else if entry.1 = name then (":style", some text) else entry := by
  have hlongName : longBindingName ":style" = "v-bind:style" := by decide
  unfold intoSlot
  dsimp only
  rw [hlongName]
  by_cases hmem : ":style" ∈ attrs.names
  · obtain ⟨value, hvalue⟩ := Attributes.mem_names.mp hmem
    have hone : ([("v-bind:style", value)].map Prod.fst).Nodup := List.nodup_singleton _
    have hd' := hd.replaceD ":style" hone
    have hname' : name ∈ (attrs.replaceD ":style" [("v-bind:style", value)]).names :=
      (Attributes.mem_names_replaceD_one hd hmem).mpr (.inr ⟨hname, hshort⟩)
    have hfreeLong : "v-bind:style" ∉ attrs.names := honce "style" hmem
    have hfree : ":style" ∉ (attrs.replaceD ":style" [("v-bind:style", value)]).names := by
      rw [Attributes.mem_names_replaceD_one hd hmem]
      rintro (heq | ⟨-, hne⟩)
      · exact absurd heq (by decide)
      · exact hne rfl
    rw [Attributes.rename_eq (hd.lookup?_eq hvalue), Option.getD_some,
      hd'.entries_replaceD_of_not_mem hname' hfree,
      hd.entries_replaceD_of_not_mem hmem hfreeLong, List.map_map]
    refine List.map_congr_left fun entry hentry => ?_
    rw [Function.comp_apply]
    by_cases hstyle : entry.1 = ":style"
    · have hsame : entry = (":style", value) :=
        List.inj_on_of_nodup_map hd hentry hvalue hstyle
      rw [if_pos hstyle, if_pos hstyle, if_neg hlong.symm, hsame]
    · rw [if_neg hstyle, if_neg hstyle]
  · rw [Attributes.rename_eq_none hmem, Option.getD_none,
      hd.entries_replaceD_of_not_mem hname hmem]
    refine List.map_congr_left fun entry hentry => ?_
    have hstyle : entry.1 ≠ ":style" := by
      rintro heq
      rw [← heq] at hmem
      exact hmem (List.mem_map_of_mem hentry)
    rw [if_neg hstyle]

/-- An attribute beside the `v-show` that is adapted adds the same where only bindings are looked
for. -/
theorem bind_adaptedStyle?_of_ne {d : Directive} {entry : Attribute} (hne : entry.1 ≠ d.name) :
    (Directive.ofAttribute? entry).bind (Directive.adaptedStyle? (some d))
      = (Directive.ofAttribute? entry).bind Directive.boundStyle? := by
  cases hof : Directive.ofAttribute? entry with
  | none => rfl
  | some d' =>
      rw [Option.bind_some, Option.bind_some]
      refine Directive.adaptedStyle?_of_ne fun hsame => hne ?_
      rw [← Directive.attribute_eq hof, Option.some.inj hsame]

/-- The pass of bindings makes bindings of the style of all texts that are bound to it. -/
theorem expressions_binding (site : Site) (hform : setting.dialect.binding = .keep)
    (hslot : setting.dialect.showSlot = .binding ":style") (hd : attrs.Distinct)
    (h : binding setting site attrs = .ok attrs') :
    (attrs'.directivesOf .styleBinding).map Directive.expression = attrs.boundStyles := by
  have hshowing : attrs' = showing (.binding ":style") attrs := by
    rw [binding_eq_ok site h, hform, hslot]
    rfl
  rw [Attributes.map_expression_styleBinding, hshowing]
  unfold Attributes.boundStyles Attributes.directives showing
  rw [List.filterMap_filterMap]
  cases hshow : attrs.directive? .showIf with
  | none =>
      exact List.filterMap_congr fun entry _ => congrArg _ (funext fun d =>
        (Directive.adaptedStyle?_of_ne (Option.some_ne_none d)).symm)
  | some d =>
      obtain ⟨hdirective, hkindOf⟩ := Attributes.mem_of_directive? hshow
      obtain ⟨hentryOf, hname, hof, hkind⟩ := Attributes.mem_of_mem_directives hdirective
      rw [hkindOf] at hkind
      -- The attribute of the `v-show` is the only one of its name.
      have hsame : ∀ entry ∈ attrs.entries, entry.1 = d.name →
          Directive.ofAttribute? entry = some d := by
        intro entry hentry hentryName
        rw [List.inj_on_of_nodup_map hd hentry hentryOf hentryName, hof]
      dsimp only
      split
      · rename_i hblank
        unfold Attributes.erase Attributes.without
        rw [List.filterMap_filter]
        refine List.filterMap_congr fun entry hentry => ?_
        by_cases hentryName : entry.1 = d.name
        · rw [if_neg (by simpa using hentryName), hsame entry hentry hentryName, Option.bind_some]
          unfold Directive.adaptedStyle?
          rw [hkindOf]
          exact (if_neg fun hne => hne.2 (String.isEmpty_iff.mp hblank)).symm
        · rw [if_pos (by simpa using hentryName), bind_adaptedStyle?_of_ne hentryName]
      · rename_i hne
        have hother : ∀ n : String, Directive.kind? n = some .styleBinding → d.name ≠ n := by
          rintro n hn rfl
          cases hkind.symm.trans hn
        rw [entries_intoSlot hd (boundOnce_of_binding site h) hname (hother _ (by decide))
          (hother _ (by decide)), List.filterMap_map]
        refine List.filterMap_congr fun entry hentry => ?_
        rw [Function.comp_apply]
        by_cases hstyle : entry.1 = ":style"
        · -- The binding that is renamed is one in both spellings.
          obtain ⟨n, value⟩ := entry
          cases hstyle
          rw [if_pos rfl, (Directive.bind_styleBinding (by decide) value (some d)).1,
            (Directive.bind_styleBinding (by decide) value (some d)).2]
        · rw [if_neg hstyle]
          by_cases hentryName : entry.1 = d.name
          · rw [if_pos hentryName, (Directive.bind_styleBinding (by decide) _ (some d)).1,
              hsame entry hentry hentryName, Option.bind_some]
            unfold Directive.adaptedStyle?
            rw [hkindOf]
            exact (if_pos ⟨rfl, fun hempty => hne (String.isEmpty_iff.mpr hempty)⟩).symm
          · rw [if_neg hentryName, bind_adaptedStyle?_of_ne hentryName]

theorem styleOperands_eq (bindings : List Directive) :
    styleOperands bindings = mergedOperands (bindings.map Directive.expression) := by
  unfold styleOperands mergedOperands
  rw [List.filter_map, List.map_map]
  refine congrArg (List.map · _) (funext fun d => ?_)
  rw [Function.comp_apply]
  unfold styleOperand styleOperandOf
  rfl

theorem isStyleCall_eq (bindings : List Directive) :
    isStyleCall bindings (styleOperands bindings)
      = boundAsCall (bindings.map Directive.expression) := by
  rw [styleOperands_eq]
  unfold isStyleCall boundAsCall
  match bindings with
  | [] => rfl
  | [d] =>
      rw [List.map_singleton]
      rcases mergedOperands [d.expression] with _ | ⟨operand, _ | ⟨next, operands⟩⟩
      · rfl
      · rfl
      · rfl
  | _ :: _ :: _ => rfl

/-- The pass of styles writes the call of all operands, unless there are none or the only one is
such a call already. -/
theorem get?_styles {target : Target} {style : Option StyleConfig} (site : Site)
    (hmini : target.isMiniProgram = false) (hd : attrs.Distinct)
    (h : styles (.forTarget target style) site attrs = .ok attrs')
    (hcall : isStyleCall (attrs.directivesOf .styleBinding)
      (styleOperands (attrs.directivesOf .styleBinding)) = false)
    (hne : styleOperands (attrs.directivesOf .styleBinding) ≠ []) :
    attrs'.get? styleBindingName = some (styleCall target.dialect.styleMode style
      (joinStyles (styleOperands (attrs.directivesOf .styleBinding)))) := by
  have hmerged : styleBindings target.dialect.styleMode style attrs
      = mergeStyleBindings target.dialect.styleMode style (attrs.directivesOf .styleBinding)
        attrs := by
    cases target with
    | web | weex => rfl
    | wx | alipay | baidu => cases hmini
  have hstatic : (styleBindings target.dialect.styleMode style attrs).AgreeOn
      (fun n => n == styleBindingName) attrs' := by
    unfold styles at h
    cases h
    unfold staticStyle
    split
    · exact .refl _ _
    · dsimp only
      split
      · exact .refl _ _
      · exact (Attributes.AgreeOn.refl _ _).insert (by decide) _
  rw [hstatic.get?_eq BEq.rfl, hmerged]
  cases hbindings : attrs.directivesOf .styleBinding with
  | nil =>
      rw [hbindings] at hne
      exact absurd rfl hne
  | cons first others =>
      rw [hbindings] at hcall hne
      have hnodup := hd.nodup_directivesOf .styleBinding
      rw [hbindings, List.map_cons, List.nodup_cons] at hnodup
      have hfirst : first ∈ attrs.directivesOf .styleBinding := by
        rw [hbindings]
        exact List.mem_cons_self
      obtain ⟨value, hvalue⟩ :=
        Attributes.mem_names.mp (Attributes.name_of_mem_directivesOf hfirst).1
      -- The others are gone, and the first one is there to be replaced.
      have herased : Result (.forTarget target style) attrs (eraseAll others attrs) :=
        writesOnly_eraseAll others (.refl hd)
      have hthere : first.name ∈ (eraseAll others attrs).names := by
        refine Attributes.mem_names.mpr ⟨value, entries_eraseAll.mpr ⟨hvalue, fun d hmem heq => ?_⟩⟩
        rw [show first.name = d.name from heq] at hnodup
        exact hnodup.1 (List.mem_map_of_mem hmem)
      rw [mergeStyleBindings_cons, hcall, if_neg Bool.false_ne_true,
        if_neg fun hempty => hne (List.isEmpty_iff.mp hempty)]
      have hone : ∀ value : Option String, ([(styleBindingName, value)].map Prod.fst).Nodup :=
        fun value => List.nodup_singleton _
      refine (herased.distinct.replaceD _ (hone _)).get?_eq ?_
      rw [herased.distinct.entries_replaceD hthere (hone _)]
      exact Attributes.mem_flatMap_replaceEntry.mpr (.inl ⟨hthere, List.mem_singleton_self _⟩)

end Adapter

namespace AdaptedBy

variable {target : Target} {style : Option StyleConfig} {tag : String} {attrs attrs' : Attributes}

/-- Up to the pass of bindings the texts of the style that is bound are those of the author. -/
theorem boundStyles_eq (hmini : target.isMiniProgram = false)
    (h : AdaptedBy (.forTarget target style) tag [.ref, .model] attrs attrs')
    (hd : attrs.Distinct) : attrs'.boundStyles = attrs.boundStyles := by
  have hplain := attrs.bindsPlainly_of_keeps hmini
  have hspare : Pass.Spare target [.ref, .model] [.showIf, .styleBinding] := by
    cases target with
    | web | weex => decide
    | wx | alipay | baidu => cases hmini
  have hshow : attrs'.directivesOf .showIf = attrs.directivesOf .showIf :=
    h.directivesOf_eq hd hplain fun kind hkind => hspare kind (by simp_all)
  rw [attrs'.boundStyles_eq, attrs.boundStyles_eq, hshow]
  refine congrArg _ (h.filter_directives hd hplain hspare
    (q := fun kind => kind = .showIf ∨ kind = .styleBinding) fun kind hkind => ?_)
  rcases of_decide_eq_true hkind with rfl | rfl <;> decide

/-- Where styles are bound, all that is bound to the style of an element is merged into one call,
unless there is nothing or the only text is such a call already. -/
theorem get?_boundStyles (hmini : target.isMiniProgram = false)
    (h : AdaptedBy (.forTarget target style) tag Pass.standard attrs attrs') (hd : attrs.Distinct)
    (hcall : boundAsCall attrs.boundStyles = false) (hne : mergedOperands attrs.boundStyles ≠ []) :
    attrs'.get? styleBindingName = some (styleCall target.dialect.styleMode style
      (joinStyles (mergedOperands attrs.boundStyles))) := by
  have hplain := attrs.bindsPlainly_of_keeps hmini
  have hcut : AdaptedBy (.forTarget target style) tag ([.ref, .model] ++ ([.binding] ++
      ([.conditional, .iteration, .classes] ++ [.styles]))) attrs attrs' := h
  obtain ⟨attrs₂, hfront, hrest⟩ := hcut.of_append
  obtain ⟨attrs₃, hbinding, hrest⟩ := hrest.of_append
  obtain ⟨attrs₆, hmiddle, hstyles⟩ := hrest.of_append
  obtain ⟨site, -, hstep⟩ := hbinding.of_singleton
  obtain ⟨site', -, hstep'⟩ := hstyles.of_singleton
  obtain ⟨hd₂, hplain₂⟩ := hfront.plainly hd hplain
  obtain ⟨hd₃, hplain₃⟩ := hbinding.plainly hd₂ hplain₂
  obtain ⟨hform, hslot, -⟩ := Target.forms_of_keeps hmini
  -- From there on the bindings of the style are left alone until they are merged.
  have hexpressions := Adapter.expressions_binding site hform hslot hd₂ hstep
  rw [← hmiddle.directivesOf_eq hd₃ hplain₃ (by cases target <;> decide),
    hfront.boundStyles_eq hmini hd] at hexpressions
  have hoperands := Adapter.styleOperands_eq (attrs₆.directivesOf .styleBinding)
  have hcall' := Adapter.isStyleCall_eq (attrs₆.directivesOf .styleBinding)
  rw [hexpressions] at hoperands hcall'
  rw [Adapter.get?_styles site' hmini (hmiddle.plainly hd₃ hplain₃).1 hstep'
    (hcall'.trans hcall) (hoperands ▸ hne), hoperands]

/-- On an element with a `v-show` something is merged. -/
theorem get?_style (hmini : target.isMiniProgram = false)
    (h : AdaptedBy (.forTarget target style) tag Pass.standard attrs attrs') (hd : attrs.Distinct)
    {d : Directive} (hshow : attrs.directivesOf .showIf = [d])
    (hne : Text.trim d.expression ≠ "")
    (hclose : Text.holds "\x7d\x7d" (Text.trim d.expression) = false) :
    attrs'.get? styleBindingName = some (styleCall target.dialect.styleMode style
      (joinStyles (mergedOperands attrs.dynamicStyles))) := by
  have hoperand : showExpression (Text.trim d.expression) ∈ mergedOperands attrs.dynamicStyles := by
    have hmem : d ∈ attrs.directivesOf .showIf := by
      rw [hshow]
      exact List.mem_singleton_self d
    obtain ⟨hdirective, hkind⟩ := Attributes.mem_directivesOf.mp hmem
    have htext : showStyle (Text.trim d.expression) ∈ attrs.dynamicStyles := by
      refine List.mem_filterMap.mpr ⟨d, hdirective, ?_⟩
      unfold Directive.dynamicStyle?
      rw [hkind]
    refine List.mem_map.mpr ⟨_, List.mem_filter.mpr ⟨htext, ?_⟩, styleOperandOf_showStyle hne hclose⟩
    rw [isBlankText_showStyle]
    rfl
  rw [← Attributes.boundStyles_eq_dynamicStyles hshow hne] at hoperand ⊢
  exact h.get?_boundStyles hmini hd (boundAsCall_eq_false hoperand) (List.ne_nil_of_mem hoperand)

end AdaptedBy

/-! ### Whole templates -/

/-- The call that all that is bound to the style becomes where no style options are handed on. -/
theorem styleCall_eq {target : Target} {style : Option StyleConfig}
    (htarget : target = .weex ∨ target = .web ∧ style = none) (expression : String) :
    styleCall target.dialect.styleMode style expression
      = Dialect.styleProxy ++ "((" ++ expression ++ "))" := by
  rcases htarget with rfl | ⟨rfl, rfl⟩
  · cases style <;> rfl
  · rfl

theorem styleCall_pair (x y : String) :
    Dialect.styleProxy ++ "((" ++ joinStyles [x, y] ++ "))"
      = "_cmlStyleProxy(((" ++ x ++ ")+';'+(" ++ y ++ ")))" := by
  rw [← String.toList_inj]
  simp [joinStyles, Dialect.styleProxy]

/-- The directives that have to do with the style that is bound are of two kinds. -/
theorem Attributes.dynamic_perm (attrs : Attributes) :
    (attrs.directives.filter fun d => d.kind = .showIf ∨ d.kind = .styleBinding).Perm
      (attrs.directivesOf .showIf ++ attrs.directivesOf .styleBinding) := by
  have hperm := List.filter_append_perm (fun d : Directive => d.kind = .showIf)
    (attrs.directives.filter fun d => d.kind = .showIf ∨ d.kind = .styleBinding)
  rw [List.filter_filter, List.filter_filter] at hperm
  refine (hperm.symm.trans (List.Perm.of_eq (congr (congrArg _ ?_) ?_)))
  · refine List.filter_congr fun d _ => ?_
    cases d.kind <;> rfl
  · refine List.filter_congr fun d _ => ?_
    cases d.kind <;> rfl

/-- An element with one `v-show` shows up with the expression in the call of its style, before or
after the one binding of the style that it may have, as the author put them.  This is so where no
style options are handed on, for every expression without two closing braces side by side. -/
theorem compile_show {source out : String} {target : Target} {style : Option StyleConfig}
    (htarget : target = .weex ∨ target = .web ∧ style = none)
    (h : compile source target style = .ok out) :
    ∃ d₀ d', Document.parse source = .ok d₀ ∧ Document.parse out = .ok d' ∧ d₀.SameTree d' ∧
      ∀ id e d, d₀.element? id = some e → e.attrs.directivesOf .showIf = [d] →
        Text.trim d.expression ≠ "" →
        Text.holds "\x7d\x7d" (Text.trim d.expression) = false →
        ∃ e', d'.element? id = some e' ∧
          (e.attrs.directivesOf .styleBinding = [] → e'.attrs.get? "v-bind:style"
            = some (escapeText ("_cmlStyleProxy((" ++ showExpression (Text.trim d.expression) ++
              "))"))) ∧
          ∀ s, e.attrs.directivesOf .styleBinding = [s] → Text.trim s.expression ≠ "" →
            Text.holds "\x7b\x7b" (Text.trim s.expression) = false →
            ([d, s].Sublist e.attrs.directives ∧ e'.attrs.get? "v-bind:style"
              = some (escapeText ("_cmlStyleProxy(((" ++ showExpression (Text.trim d.expression) ++
                ")+';'+(" ++ Text.trim s.expression ++ ")))"))) ∨
            ([s, d].Sublist e.attrs.directives ∧ e'.attrs.get? "v-bind:style"
              = some (escapeText ("_cmlStyleProxy(((" ++ Text.trim s.expression ++ ")+';'+(" ++
                showExpression (Text.trim d.expression) ++ ")))"))) := by
  have hmini : target.isMiniProgram = false := by
    rcases htarget with rfl | ⟨rfl, -⟩ <;> rfl
  obtain ⟨d₀, d', hparse, hparse', htree, helements⟩ := Document.elements_of_compile h
  refine ⟨d₀, d', hparse, hparse', htree, fun id e d he hshow hne hclose => ?_⟩
  obtain ⟨hd, attrs, hby, he'⟩ := helements id e he
  have hvalue := hby.get?_style hmini hd hshow hne hclose
  rw [styleCall_eq htarget, e.attrs.dynamicStyles_eq] at hvalue
  have hmem : d ∈ e.attrs.directivesOf .showIf := by
    rw [hshow]
    exact List.mem_singleton_self d
  have hshown : d.dynamicStyle? = some (showStyle (Text.trim d.expression)) := by
    unfold Directive.dynamicStyle?
    rw [(Attributes.mem_directivesOf.mp hmem).2]
  have hoperand := styleOperandOf_showStyle hne hclose
  have hescaped : ∀ {value : String}, attrs.get? "v-bind:style" = some value →
      attrs.escaped.get? "v-bind:style" = some (escapeText value) := fun hfound =>
    (Attributes.get?_escaped attrs _).trans (congrArg _ hfound)
  have hperm := e.attrs.dynamic_perm
  rw [hshow] at hperm
  refine ⟨_, he', fun hnone => ?_, fun s hstyle hs hopen => ?_⟩
  · rw [hnone, List.append_nil, List.perm_singleton] at hperm
    rw [hperm, List.filterMap_cons_some hshown, List.filterMap_nil,
      mergedOperands_cons (isBlankText_showStyle _), hoperand] at hvalue
    exact hescaped hvalue
  · have hmem' : s ∈ e.attrs.directivesOf .styleBinding := by
      rw [hstyle]
      exact List.mem_singleton_self s
    have hbound : s.dynamicStyle? = some s.expression := by
      unfold Directive.dynamicStyle?
      rw [(Attributes.mem_directivesOf.mp hmem').2]
    have hboundKept := Text.isBlankText_eq_false hs
    have hboundOperand := styleOperandOf_eq_trim hopen
    rw [hstyle] at hperm
    rcases List.perm_pair.mp hperm with horder | horder
    · refine .inl ⟨horder ▸ List.filter_sublist, ?_⟩
      rw [horder, List.filterMap_cons_some hshown, List.filterMap_cons_some hbound,
        List.filterMap_nil, mergedOperands_cons (isBlankText_showStyle _),
        mergedOperands_cons hboundKept, hoperand, hboundOperand] at hvalue
      exact hescaped (hvalue.trans (congrArg some (styleCall_pair _ _)))
    · refine .inr ⟨horder ▸ List.filter_sublist, ?_⟩
      rw [horder, List.filterMap_cons_some hbound, List.filterMap_cons_some hshown,
        List.filterMap_nil, mergedOperands_cons hboundKept,
        mergedOperands_cons (isBlankText_showStyle _), hoperand, hboundOperand] at hvalue
      exact hescaped (hvalue.trans (congrArg some (styleCall_pair _ _)))

/-- A field of an object that is shown, before a binding of the style in the same spelling as the
slot. -/
theorem compile_show_object :
    let source := "<p v-show=\" \x7ba:1\x7d.a \" :style=\"s\"></p>"
    ∃ out, compile source .web none = .ok out ∧ ∃ d', Document.parse out = .ok d' ∧
      ∃ e', d'.element? 0 = some e' ∧ e'.attrs.get? "v-bind:style" =
        some ("_cmlStyleProxy((('display:'+(\x7ba:1\x7d.a?'':'none')+';'+" ++
          "(\x7ba:1\x7d.a?'':'height:0px;width:0px;overflow:hidden'))+';'+(s)))") := by
  intro source
  let d : Directive := ⟨.showIf, "v-show", none, [], some " \x7ba:1\x7d.a "⟩
  let s : Directive := ⟨.styleBinding, ":style", some "style", [], some "s"⟩
  have hok : (compile source .web none).toOption.isSome = true := by decide +kernel
  obtain ⟨out, hout⟩ : ∃ out, compile source .web none = .ok out := by
    cases h : compile source .web none with
    | error err =>
        rw [h] at hok
        cases hok
    | ok out => exact ⟨out, rfl⟩
  obtain ⟨d₀, d', hparse, hread, -, hall⟩ := compile_show (.inr ⟨rfl, rfl⟩) hout
  have hsource : ∃ e ∈ (Document.parse source).toOption.bind (·.element? 0),
      e.attrs.directives = [d, s] := by decide +kernel
  obtain ⟨e, he, hdirectives⟩ := hsource
  rw [hparse] at he
  have hof : ∀ kind, e.attrs.directivesOf kind = [d, s].filter fun x => x.kind = kind := by
    intro kind
    unfold Attributes.directivesOf
    rw [hdirectives]
  obtain ⟨e', he', -, hboth⟩ := hall 0 e d he (hof .showIf) (by decide) (by decide)
  refine ⟨out, hout, d', hread, e', he', ?_⟩
  rcases hboth s (hof .styleBinding) (by decide) (by decide) with ⟨-, hvalue⟩ | ⟨horder, -⟩
  · exact hvalue.trans (by decide +kernel)
  · rw [hdirectives] at horder
    exact absurd horder (by decide)

/-- Two closing braces side by side, as an object in an object has, end the interpolation. -/
theorem compile_show_nested :
    let source := "<p v-show=\"f(\x7ba:\x7b\x7d\x7d)\"></p>"
    let d : Directive := ⟨.showIf, "v-show", none, [], some "f(\x7ba:\x7b\x7d\x7d)"⟩
    let out := "<p v-bind:style=\"_cmlStyleProxy(('display:'+(f(\x7ba:\x7b)+')?\\'\\':" ++
      "\\'none\\'\x7d\x7d;'+(f(\x7ba:\x7b)+')?\\'\\':" ++
      "\\'height:0px;width:0px;overflow:hidden\\'\x7d\x7d'))\" class=\" cml-base cml-p\"></p>"
    (∃ e ∈ (Document.parse source).toOption.bind (·.element? 0), e.attrs.directives = [d]) ∧
    compile source .web none = .ok out ∧
    ∃ e ∈ (Document.parse out).toOption.bind (·.element? 0), e.attrs.get? "v-bind:style"
      ≠ some (escapeText ("_cmlStyleProxy((" ++ showExpression (Text.trim d.expression) ++ "))")) := by
  decide +kernel

end TemplateCompiler
