/-
What is compiled for a mini-program platform is left alone by the compiler.

After the last pass an element is settled: no directive is left on it but the static class
and style, the class ends with the base classes, and the style is written in the unit of
the platform.  Settled attributes are what every adapter answers with again.  And being
settled does not depend on how quotes in values are spelled, so it survives printing and
parsing.

One thing is not a matter of directives.  A property bound in both spellings is an error
even if the binding is none that the adapters know, so it has to be shown that no such pair
arises after the pass that looks for it.  No later pass writes a name that looks like a
binding.
-/
import TemplateCompiler.Proofs.Blanks
import TemplateCompiler.Proofs.Lengths
import TemplateCompiler.Proofs.Residue

namespace TemplateCompiler

/-! ### Words and their spelling -/

namespace Text

theorem splitOnP_escapeValue (cs : List Char) :
    (escapeValue cs).splitOnP isBlank = (cs.splitOnP isBlank).map escapeValue := by
  induction cs with
  | nil =>
      rw [List.splitOnP_nil]
      rfl
  | cons c cs ih =>
      rw [List.splitOnP_cons_eq_if_modifyHead]
      by_cases hquote : c = '"'
      · -- Neither the quote nor what it is spelled with is a blank.
        have hall : "&quot;".toList.all (fun d => isBlank d == false) = true := by decide
        have hspelled : ∀ d ∈ "&quot;".toList, isBlank d = false := fun d hd =>
          beq_iff_eq.mp (List.all_eq_true.mp hall d hd)
        subst hquote
        rw [escapeValue_quote, splitOnP_append hspelled, ih, if_neg (by decide)]
        cases cs.splitOnP isBlank <;> rfl
      · rw [escapeValue_cons_of_ne hquote, List.splitOnP_cons_eq_if_modifyHead, ih]
        split
        · rfl
        · cases cs.splitOnP isBlank with
          | nil => rfl
          | cons word words =>
              simp only [List.map_cons, List.modifyHead_cons]
              rw [escapeValue_cons_of_ne hquote word]

/-- The words of a text with quotes spelled out are its words with quotes spelled out. -/
theorem wordsChars_escapeValue (cs : List Char) :
    wordsChars (escapeValue cs) = (wordsChars cs).map escapeValue := by
  have hempty : ∀ word : List Char, (escapeValue word).isEmpty = word.isEmpty := by
    intro word
    cases word with
    | nil => rfl
    | cons c word =>
        by_cases hquote : c = '"'
        · subst hquote
          rfl
        · rw [escapeValue_cons_of_ne hquote]
          rfl
  unfold wordsChars
  rw [splitOnP_escapeValue, List.filter_map]
  simp only [Function.comp_def, hempty]

theorem words_escapeText (s : String) : words (escapeText s) = (words s).map escapeText := by
  unfold words
  rw [show (escapeText s).toList = escapeValue s.toList from String.toList_ofList,
    wordsChars_escapeValue, List.map_map, List.map_map]
  refine List.map_congr_left fun word _ => ?_
  unfold escapeText
  rw [Function.comp_apply, Function.comp_apply, String.toList_ofList]

/-- A text of blanks has no quotes to be spelled out. -/
theorem escapeText_of_blank {s : String} (h : isBlankText s = true) : escapeText s = s :=
  escapeText_eq_self fun hmem => absurd (List.all_eq_true.mp h _ hmem) (by decide)

end Text

/-! ### Classes that end with the base classes -/

/-- A list to which the base classes are added ends with them. -/
theorem endsWithBase_append (list base : String) :
    endsWithBase (list ++ " " ++ base) base = true := by
  unfold endsWithBase
  rw [Text.words_append_blank, List.isSuffixOf_iff_suffix]
  exact List.suffix_append _ _

/-- What stands before the list has no influence on its end. -/
theorem endsWithBase_append_left {list base : String} (h : endsWithBase list base = true)
    (front : String) : endsWithBase (front ++ " " ++ list) base = true := by
  unfold endsWithBase at *
  rw [List.isSuffixOf_iff_suffix] at *
  rw [Text.words_append_blank]
  exact h.trans (List.suffix_append _ _)

/-- Base classes have no quotes, so they are found where quotes have been spelled out. -/
theorem endsWithBase_escapeText {list tag : String} (htag : '"' ∉ tag.toList)
    (h : endsWithBase list (baseClasses tag) = true) :
    endsWithBase (escapeText list) (baseClasses tag) = true := by
  have hbase : escapeText (baseClasses tag) = baseClasses tag := by
    have hquote : '"' ∉ (baseClasses tag).toList := by
      unfold baseClasses
      rw [String.toList_append, String.toList_append, List.mem_append, List.mem_append]
      rintro ((hmem | hmem) | hmem)
      · exact absurd hmem (by decide)
      · exact absurd hmem (by decide)
      · exact htag hmem
    exact escapeText_eq_self hquote
  unfold endsWithBase at *
  rw [List.isSuffixOf_iff_suffix] at *
  rw [← hbase, Text.words_escapeText, Text.words_escapeText]
  exact h.map escapeText

/-! ### Settled attributes -/

theorem Setting.normalizeStyle_forTarget (target : Target) (config : Option StyleConfig)
    (style : String) :
    (forTarget target config).normalizeStyle style = Style.normalize target config style := by
  show Style.normalize target.dialect.target config style = _
  rw [target.target_dialect]

namespace Attributes

variable {attrs attrs' : Attributes} {setting : Setting} {tag : String}

/-- No property is bound in both spellings. -/
def BoundOnce (attrs : Attributes) : Prop :=
  ∀ property, ":" ++ property ∈ attrs.names → "v-bind:" ++ property ∉ attrs.names

theorem doubleBinding?_eq_none_iff : attrs.doubleBinding? = none ↔ attrs.BoundOnce := by
  unfold doubleBinding?
  rw [List.findSome?_eq_none_iff]
  constructor
  · intro h property hshort hlong
    have hnone := h _ hshort
    rw [Text.after?_append] at hnone
    dsimp only at hnone
    rw [if_pos (contains_iff.mpr hlong)] at hnone
    cases hnone
  · intro h name hname
    cases hafter : Text.after? ":" name with
    | none => rfl
    | some property =>
        have heq := Text.eq_append_of_after? hafter
        have hlong : attrs.contains ("v-bind:" ++ property) = false :=
          contains_eq_false_iff.mpr (h property (heq ▸ hname))
        dsimp only
        rw [hlong]
        rfl

/-- There is nothing on the element that a pass for a mini-program platform would adapt. -/
structure Settled (setting : Setting) (tag : String) (attrs : Attributes) : Prop where
  free : ∀ kind, kind.isStatic = false → attrs.Free kind
  boundOnce : attrs.BoundOnce
  classes : endsWithBase ((attrs.get? "class").getD "") (baseClasses tag) = true
  style : ∀ style, attrs.get? "style" = some style →
    Text.isBlankText style = true ∨ setting.normalizeStyle style = style

theorem Free.directive?_eq_none {kind : DirectiveKind} (h : attrs.Free kind) :
    attrs.directive? kind = none := directive?_eq_none_iff.mpr h

theorem Free.directivesOf_eq_nil {kind : DirectiveKind} (h : attrs.Free kind) :
    attrs.directivesOf kind = [] := by
  have hhead := directive?_eq_head? attrs kind
  rw [h.directive?_eq_none] at hhead
  exact List.head?_eq_none_iff.mp hhead.symm

theorem Settled.conditionals_eq_nil (h : Settled setting tag attrs) : attrs.conditionals = [] := by
  rw [List.eq_nil_iff_forall_not_mem]
  intro d hd
  obtain ⟨hmem, hkind⟩ := mem_conditionals.mp hd
  obtain ⟨-, hname, -, hk⟩ := mem_of_mem_directives hmem
  have hstatic : d.kind.isStatic = false := by
    cases hcond : d.kind <;> rw [hcond] at hkind <;> first | rfl | cases hkind
  exact h.free d.kind hstatic d.name hname hk

/-- Settled attributes are left alone by every adapter. -/
theorem Settled.adapter_eq (h : Settled setting tag attrs) (hδ : setting.dialect.Replaces)
    (pass : Pass) {site : Site} (htag : site.tag = tag) :
    pass.adapter setting site attrs = .ok attrs := by
  cases pass with
  | ref =>
      have href : attrs.get? "ref" = none :=
        get?_eq_none_iff.mpr fun hmem => h.free .ref rfl "ref" hmem (by decide)
      show Adapter.reference setting site attrs = _
      unfold Adapter.reference
      rw [href]
  | model =>
      show Adapter.model setting site attrs = _
      unfold Adapter.model
      rw [(h.free .model rfl).directive?_eq_none]
  | binding =>
      have hproperties : Adapter.properties setting.dialect.binding attrs = attrs := by
        unfold Adapter.properties
        rw [(h.free .bind rfl).directivesOf_eq_nil]
        split <;> rfl
      have hshowing : Adapter.showing setting.dialect.showSlot attrs = attrs := by
        unfold Adapter.showing
        rw [(h.free .showIf rfl).directive?_eq_none]
      show Adapter.binding setting site attrs = _
      unfold Adapter.binding
      rw [doubleBinding?_eq_none_iff.mpr h.boundOnce, hproperties, hshowing]
  | conditional =>
      show Adapter.conditional setting site attrs = _
      unfold Adapter.conditional
      rw [h.conditionals_eq_nil]
  | iteration =>
      show Adapter.iteration setting site attrs = _
      unfold Adapter.iteration
      rw [(h.free .forEach rfl).directive?_eq_none]
  | classes =>
      show Adapter.classes setting site attrs = _
      unfold Adapter.classes
      rw [hδ.classMode, (h.free .classBinding rfl).directive?_eq_none]
      show Except.ok (if endsWithBase _ (baseClasses site.tag) = true then attrs else _) = _
      rw [htag, if_pos h.classes]
  | styles =>
      have hbindings : Adapter.styleBindings .drop setting.style attrs = attrs := by
        show Adapter.eraseAll (attrs.directivesOf .styleBinding) attrs = attrs
        rw [(h.free .styleBinding rfl).directivesOf_eq_nil]
        rfl
      have hstatic : Adapter.staticStyle setting attrs = attrs := by
        unfold Adapter.staticStyle
        cases hstyle : attrs.get? "style" with
        | none => rfl
        | some style =>
            dsimp only
            rw [if_pos]
            rcases h.style style hstyle with hblank | hsame
            · rw [hblank]
              rfl
            · simp [hsame]
      show Adapter.styles setting site attrs = _
      unfold Adapter.styles
      rw [hδ.styleMode, hbindings, hstatic]

end Attributes

/-! ### What the passes settle -/

namespace Adapter

variable {setting : Setting} {attrs attrs' : Attributes}

theorem entries_eraseAll {ds : List Directive} {entry : Attribute} :
    entry ∈ (eraseAll ds attrs).entries ↔ entry ∈ attrs.entries ∧ ∀ d ∈ ds, entry.1 ≠ d.name := by
  induction ds generalizing attrs with
  | nil => simp [eraseAll]
  | cons d ds ih =>
      show entry ∈ (eraseAll ds (attrs.erase d.name)).entries ↔ _
      rw [ih, Attributes.mem_entries_erase]
      simp [and_assoc]

/-- The class that is made of binding, list and base classes ends with the base classes. -/
theorem endsWithBase_classes (site : Site) (hδ : setting.dialect.Replaces) (hd : attrs.Distinct)
    (h : classes setting site attrs = .ok attrs') :
    endsWithBase ((attrs'.get? "class").getD "") (baseClasses site.tag) = true := by
  have hfound : ∀ {attrs' : Attributes} {value : String}, attrs'.Distinct →
      ("class", some value) ∈ attrs'.entries →
      endsWithBase value (baseClasses site.tag) = true →
      endsWithBase ((attrs'.get? "class").getD "") (baseClasses site.tag) = true := by
    intro attrs' value hd' hmem hvalue
    rw [hd'.get?_eq hmem]
    exact hvalue
  unfold classes at h
  dsimp only at h
  rw [hδ.classMode] at h
  cases h
  unfold foldClass
  dsimp only
  split
  · split
    · rename_i hbase
      exact hbase
    · rw [hd.get?_insert]
      exact endsWithBase_append _ _
  · rename_i d hfirst
    obtain ⟨hname, hkind⟩ := Attributes.name_of_directive? hfirst
    have hne : "class" ≠ d.name := by
      intro heq
      rw [← heq] at hkind
      exact absurd hkind (by decide)
    -- The binding and the list stand before the base classes, whether these are there or not.
    have hvalue : ∀ list : String, endsWithBase (if endsWithBase list (baseClasses site.tag) = true
        then Encoding.braces.encode d.expression ++ " " ++ list
        else Encoding.braces.encode d.expression ++ " " ++ list ++ "  " ++ baseClasses site.tag)
        (baseClasses site.tag) = true := by
      intro list
      split
      · rename_i hbase
        exact endsWithBase_append_left hbase _
      · rw [show ("  " : String) = " " ++ " " by decide, ← String.append_assoc]
        exact endsWithBase_append _ _
    split
    · refine hfound ((hd.set _ _).erase _) ?_ (hvalue ((attrs.get? "class").getD ""))
      exact Attributes.mem_entries_erase.mpr ⟨Attributes.mem_entries_set_self _ _ _, hne⟩
    · have hnodup : ∀ value : Option String, ([("class", value)].map Prod.fst).Nodup :=
        fun value => List.nodup_singleton "class"
      refine hfound (hd.replaceD _ (hnodup _)) ?_ (hvalue ((attrs.get? "class").getD ""))
      rw [hd.entries_replaceD hname (hnodup _), Attributes.mem_flatMap_replaceEntry]
      exact .inl ⟨hname, by simp⟩

/-- Styles are no classes. -/
theorem get?_class_styles (site : Site) (hδ : setting.dialect.Replaces) (hd : attrs.Distinct)
    (h : styles setting site attrs = .ok attrs') : attrs'.get? "class" = attrs.get? "class" := by
  have hd' := (writesOnly_styles site hd h).distinct
  refine hd.get?_congr hd' fun value => ?_
  have hbindings : ∀ d ∈ attrs.directivesOf .styleBinding, "class" ≠ d.name := by
    intro d hd heq
    obtain ⟨hmem, hkind⟩ := Attributes.mem_directivesOf.mp hd
    obtain ⟨-, -, -, hk⟩ := Attributes.mem_of_mem_directives hmem
    rw [← heq, hkind] at hk
    exact absurd hk (by decide)
  have herased : ("class", value) ∈ (eraseAll (attrs.directivesOf .styleBinding) attrs).entries
      ↔ ("class", value) ∈ attrs.entries := by
    rw [entries_eraseAll]
    exact and_iff_left hbindings
  unfold styles at h
  rw [hδ.styleMode] at h
  cases h
  show _ ∈ (staticStyle setting (eraseAll _ attrs)).entries ↔ _
  rw [← herased]
  unfold staticStyle
  split
  · rfl
  · dsimp only
    split
    · rfl
    · exact Attributes.mem_entries_set_of_ne (show "class" ≠ "style" by decide)

/-- The static style is blank, or it is written for the platform. -/
theorem style_styles {target : Target} {config : Option StyleConfig}
    (hmini : target.isMiniProgram = true) (site : Site) (hd : attrs.Distinct)
    (h : styles (.forTarget target config) site attrs = .ok attrs') {style : String}
    (hstyle : attrs'.get? "style" = some style) :
    Text.isBlankText style = true ∨ Style.normalize target config style = style := by
  have hnormalize := Setting.normalizeStyle_forTarget target config
  unfold styles at h
  cases h
  have hd' := (@writesOnly_styleBindings (.forTarget target config) attrs hd).distinct
  unfold staticStyle at hstyle
  split at hstyle
  · rename_i hnone
    rw [hnone] at hstyle
    cases hstyle
  · rename_i old hold
    dsimp only at hstyle
    split at hstyle
    · rename_i hkeep
      rw [hold, Option.some.injEq] at hstyle
      subst hstyle
      rw [Bool.or_eq_true, beq_iff_eq, hnormalize] at hkeep
      exact hkeep
    · rw [hnormalize, hd'.get?_insert, Option.some.injEq] at hstyle
      rw [← hstyle]
      exact .inr (Style.normalize_normalize hmini config old)

end Adapter

/-- No platform of this kind writes a name that is marked. -/
theorem Target.not_marked_of_written {target : Target} (hmini : target.isMiniProgram = true)
    {n : String} (h : n ∈ target.dialect.written) : ¬ Directive.Marked n := by
  have hall : ∀ n ∈ target.dialect.written,
      Text.beginsWith ":" n = false ∧ Text.beginsWith "v-" n = false := by
    cases target with
    | web | weex => cases hmini
    | wx | alipay | baidu => decide
  obtain ⟨hcolon, hdash⟩ := hall n h
  rintro (hmarked | hmarked)
  · rw [hcolon] at hmarked
    cases hmarked
  · rw [hdash] at hmarked
    cases hmarked

namespace AdaptedBy

variable {target : Target} {config : Option StyleConfig} {tag : String} {passes : List Pass}
  {attrs attrs' : Attributes}

/-- The passes can be cut anywhere. -/
theorem of_append {setting : Setting} {front back : List Pass}
    (h : AdaptedBy setting tag (front ++ back) attrs attrs') :
    ∃ mid, AdaptedBy setting tag front attrs mid ∧ AdaptedBy setting tag back mid attrs' := by
  induction front generalizing attrs with
  | nil => exact ⟨attrs, .nil attrs, h⟩
  | cons pass front ih =>
      cases h with
      | cons site htag hstep hrest =>
          obtain ⟨mid, hfront, hback⟩ := ih hrest
          exact ⟨mid, .cons site htag hstep hfront, hback⟩

/-- One pass is one step of its adapter. -/
theorem of_singleton {setting : Setting} {pass : Pass}
    (h : AdaptedBy setting tag [pass] attrs attrs') :
    ∃ site : Site, site.tag = tag ∧ pass.adapter setting site attrs = .ok attrs' := by
  cases h with
  | cons site htag hstep hnil =>
      cases hnil
      exact ⟨site, htag, hstep⟩

/-- Passes bring in no marked name, and what they need of an element stays. -/
theorem authored (hmini : target.isMiniProgram = true)
    (h : AdaptedBy (.forTarget target config) tag passes attrs attrs') (hattrs : attrs.Authored) :
    attrs'.Authored ∧ ∀ n ∈ attrs'.names, Directive.Marked n → n ∈ attrs.names := by
  refine h.keeps
    (P := fun attrs' => attrs'.Authored ∧ ∀ n ∈ attrs'.names, Directive.Marked n → n ∈ attrs.names)
    (fun pass site attrs₁ attrs₂ hattrs₁ hpass => ?_) ⟨hattrs, fun n hn _ => hn⟩
  obtain ⟨hauthored, hold⟩ := hattrs₁
  have hδ := Target.replaces hmini
  have hproper := target.proper_dialect
  refine ⟨(pass.recedes hδ hproper hauthored hpass).2, fun n hn hmarked => ?_⟩
  rcases (pass.writesOnly hproper hauthored.distinct hpass).names n hn with
    hn | hwritten | ⟨-, d, hd, harg⟩
  · exact hold n hn hmarked
  · exact absurd hmarked (Target.not_marked_of_written hmini hwritten)
  · obtain ⟨-, hcolon, hdash⟩ := hauthored.plainly d hd n harg
    rcases hmarked with hmarked | hmarked
    · rw [hcolon] at hmarked
      cases hmarked
    · rw [hdash] at hmarked
      cases hmarked

/-- After all passes no property is bound in both spellings: the pass of bindings has seen to it,
and none after it brings a binding in. -/
theorem boundOnce (hmini : target.isMiniProgram = true)
    (h : AdaptedBy (.forTarget target config) tag Pass.standard attrs attrs')
    (hattrs : attrs.Authored) : attrs'.BoundOnce := by
  have hcut : AdaptedBy (.forTarget target config) tag ([.ref, .model] ++
      [.binding, .conditional, .iteration, .classes, .styles]) attrs attrs' := h
  obtain ⟨attrs₂, hfront, hback⟩ := hcut.of_append
  obtain ⟨hattrs₂, -⟩ := hfront.authored hmini hattrs
  obtain ⟨-, hmarked⟩ := hback.authored hmini hattrs₂
  have honce : attrs₂.BoundOnce := by
    cases hback with
    | cons site htag hstep hrest =>
        rw [← Attributes.doubleBinding?_eq_none_iff]
        change Adapter.binding _ site attrs₂ = _ at hstep
        unfold Adapter.binding at hstep
        split at hstep
        · cases hstep
        · assumption
  intro property hshort hlong
  obtain ⟨hmarkedShort, hmarkedLong⟩ := Directive.marked_binding property
  exact honce property (hmarked _ hshort hmarkedShort) (hmarked _ hlong hmarkedLong)

/-- After all passes an element is settled. -/
theorem settled (hmini : target.isMiniProgram = true)
    (h : AdaptedBy (.forTarget target config) tag Pass.standard attrs attrs')
    (hattrs : attrs.Authored) : attrs'.Settled (.forTarget target config) tag := by
  have hδ : (Setting.forTarget target config).dialect.Replaces := Target.replaces hmini
  obtain ⟨-, hfree⟩ := h.free hδ target.proper_dialect hattrs
  have hcut : AdaptedBy (.forTarget target config) tag
      ([.ref, .model, .binding, .conditional, .iteration] ++ [.classes, .styles]) attrs attrs' := h
  obtain ⟨attrs₅, hfront, hback⟩ := hcut.of_append
  obtain ⟨hattrs₅, -⟩ := hfront.authored hmini hattrs
  cases hback with
  | @cons _ _ _ attrs₆ _ site htag hclasses hrest =>
      have hd₆ := (Adapter.writesOnly_classes site hattrs₅.distinct hclasses).distinct
      cases hrest with
      | cons site' htag' hstyles hnil =>
          cases hnil
          refine ⟨?_, h.boundOnce hmini hattrs, ?_, ?_⟩
          · intro kind hstatic
            obtain ⟨pass, hpass, hremoves⟩ := Pass.exists_removes hstatic
            exact hfree pass hpass kind hremoves hstatic
          · rw [Adapter.get?_class_styles site' hδ hd₆ hstyles, ← htag]
            exact Adapter.endsWithBase_classes site hδ hattrs₅.distinct hclasses
          · intro style hstyle
            rw [Setting.normalizeStyle_forTarget]
            exact Adapter.style_styles hmini site' hd₆ hstyles hstyle

end AdaptedBy

/-! ### Settled attributes, printed and read again -/

namespace Attributes

variable {attrs : Attributes}

theorem get?_escaped (attrs : Attributes) (name : String) :
    attrs.escaped.get? name = (attrs.get? name).map escapeText := by
  unfold get? lookup? escaped
  induction attrs.entries with
  | nil => rfl
  | cons entry rest ih =>
      obtain ⟨n, v⟩ := entry
      rw [List.map_cons]
      show Option.map _ (List.lookup name ((n, v.map escapeText) :: rest.map Attribute.escaped)) = _
      rw [List.lookup_cons, List.lookup_cons]
      split
      · cases v with
        | none => rfl
        | some v => rfl
      · exact ih

/-- Settled attributes stay so when their quotes are spelled out. -/
theorem Settled.escaped {target : Target} {config : Option StyleConfig} {tag : String}
    (h : attrs.Settled (.forTarget target config) tag) (hmini : target.isMiniProgram = true)
    (htag : '"' ∉ tag.toList) : attrs.escaped.Settled (.forTarget target config) tag where
  free kind hstatic := by
    intro n hn
    rw [names_escaped] at hn
    exact h.free kind hstatic n hn
  boundOnce := by
    unfold BoundOnce
    rw [names_escaped]
    exact h.boundOnce
  classes := by
    rw [get?_escaped]
    have hclasses := endsWithBase_escapeText htag h.classes
    cases hclass : attrs.get? "class" with
    | none =>
        rw [hclass] at hclasses
        exact hclasses
    | some list =>
        rw [hclass] at hclasses
        exact hclasses
  style style hstyle := by
    rw [get?_escaped] at hstyle
    obtain ⟨old, hold, rfl⟩ := Option.map_eq_some_iff.mp hstyle
    rcases h.style old hold with hblank | hsame
    · rw [Text.escapeText_of_blank hblank]
      exact .inl hblank
    · rw [Setting.normalizeStyle_forTarget] at hsame ⊢
      exact .inr (Style.normalize_escapeText hmini config hsame)

end Attributes

/-! ### The whole tree -/

/-- Every element of a forest that can be written can be written. -/
theorem Forest.Readable.writable {final : Bool} {F : Forest} (h : F.Readable final) {d : Document} :
    ∀ {parent : Option Nat} {start : Nat}, F.Holds d parent start →
      ∀ id, start ≤ id → id < start + F.size → ∀ e, d.element? id = some e → e.Writable := by
  have hself : ∀ {kind : NodeKind} {parent : Option Nat} {children : List Nat} {id : Nat}
      {e : Element}, d.shape? id = some ⟨kind, parent, children⟩ → d.element? id = some e →
      kind.element? = some e := by
    intro kind parent children id e hs he
    rw [Document.element?_eq, hs] at he
    exact he
  induction h with
  | nil =>
      intro parent start _ id h₁ h₂
      simp only [Forest.size] at h₂
      omega
  | comment hend hrest ih | text hne hstops hfollow hrest ih =>
      rintro parent start ⟨hnode, -, hholds⟩ id h₁ h₂ e he
      simp only [Forest.size] at h₂
      by_cases hid : id = start
      · cases hself (hid ▸ hnode) he
      · refine ih hholds id ?_ ?_ e he
        · simp only [Forest.size]
          omega
        · simp only [Forest.size]
          omega
  | lastText hne hread =>
      rintro parent start ⟨hnode, -, -⟩ id h₁ h₂ e he
      simp only [Forest.size] at h₂
      have hid : id = start := by omega
      cases hself (hid ▸ hnode) he
  | leaf hwritable hclosing hrest ih =>
      rintro parent start ⟨hnode, -, hholds⟩ id h₁ h₂ e he
      simp only [Forest.size] at h₂
      by_cases hid : id = start
      · cases hself (hid ▸ hnode) he
        exact hwritable
      · refine ih hholds id ?_ ?_ e he
        · simp only [Forest.size]
          omega
        · simp only [Forest.size]
          omega
  | @nest final e content rest hwritable hclosing hcontent hrest ihc ihr =>
      rintro parent start ⟨hnode, hholdsc, hholds⟩ id h₁ h₂ e' he
      simp only [Forest.size] at h₂
      by_cases hid : id = start
      · cases hself (hid ▸ hnode) he
        exact hwritable
      · by_cases hc : id < start + 1 + content.size
        · exact ihc hholdsc id (by omega) hc e' he
        · exact ihr hholds id (by omega) (by omega) e' he

namespace Document

variable {d : Document} {setting : Setting}

theorem writable_of_parse {source : String} (h : parse source = .ok d) {id : Nat} {e : Element}
    (he : d.element? id = some e) : e.Writable := by
  obtain ⟨F, hrep, hread⟩ := exists_readable_of_parse h
  have hid := lt_size_of_element? he
  rw [hrep.size] at hid
  exact hread.writable hrep.holds id (Nat.zero_le _) (by omega) e he

/-- Changing a node to what it is changes nothing. -/
theorem modify_eq_self {id : Nat} {f : Node → Node} (hf : ∀ n, (f n).children = n.children)
    (h : ∀ n, d.node? id = some n → f n = n) : d.modify id f hf = d := by
  obtain ⟨nodes, roots, younger⟩ := d
  have hnodes : nodes.modify id f = nodes := by
    refine Array.ext_getElem? fun i => ?_
    rw [Array.getElem?_modify]
    split
    · rename_i hi
      subst hi
      cases hn : nodes[id]? with
      | none => rfl
      | some n => exact congrArg some (h n hn)
    · rfl
  unfold modify
  simp only [hnodes]

/-- Giving an element the attributes that it has changes nothing. -/
theorem setAttributes_self {id : Nat} {e : Element} (he : d.element? id = some e) :
    d.setAttributes id e.attrs = d := by
  rw [setAttributes_eq he]
  refine modify_eq_self _ fun n hn => ?_
  unfold element? at he
  rw [hn] at he
  obtain ⟨kind, parent, children, span⟩ := n
  cases kind with
  | element e' =>
      cases he
      rfl
  | text t => cases he
  | comment c => cases he

/-- Where every adapter leaves every element alone, all passes leave the tree alone. -/
theorem adaptEach_eq_self {adapter : Adapter}
    (h : ∀ id e, d.element? id = some e → adapter setting (d.siteOf id e) e.attrs = .ok e.attrs)
    (ids : List Nat) : d.adaptEach adapter setting ids = ⟨d, none⟩ := by
  induction ids with
  | nil => rfl
  | cons id ids ih =>
      have hstep : d.adaptAt adapter setting id = .ok d := by
        unfold adaptAt
        cases he : d.element? id with
        | none => rfl
        | some e =>
            dsimp only
            rw [h id e he]
            exact congrArg Except.ok (setAttributes_self he)
      unfold adaptEach
      rw [hstep]
      exact ih

end Document

theorem Pipeline.run_eq_self {setting : Setting} {d : Document} {passes : Pipeline}
    (h : ∀ pass ∈ passes, ∀ id e, d.element? id = some e →
      pass.adapter setting (d.siteOf id e) e.attrs = .ok e.attrs) :
    passes.run setting d = ⟨d, none⟩ := by
  induction passes with
  | nil => rfl
  | cons pass passes ih =>
      have hpass : pass.run setting d = ⟨d, none⟩ :=
        Document.adaptEach_eq_self (h pass (by simp)) d.preorder
      unfold run
      rw [hpass]
      exact ih fun pass' hpass' => h pass' (by simp [hpass'])

/-- What is compiled for a mini-program platform is compiled to itself, if on every element of the
source a `v-model`, a `v-for`, a `v-show` and a binding of the class occur once at most, and no
binding is of a property that looks like a directive. -/
theorem compile_compile {source out : String} {target : Target} {style : Option StyleConfig}
    (hmini : target.isMiniProgram = true) (h : compile source target style = .ok out)
    (hsource : ∀ d₀, Document.parse source = .ok d₀ → ∀ id e, d₀.element? id = some e →
      (∀ kind ∈ [DirectiveKind.model, .forEach, .showIf, .classBinding],
        (e.attrs.directivesOf kind).length ≤ 1) ∧ e.attrs.BindsPlainly) :
    compile out target style = .ok out := by
  obtain ⟨d₀, d₁, hparse, hadapt, rfl⟩ := Document.compile_eq_ok h
  obtain ⟨d', hparse', hadapted⟩ := Document.adapted_of_parse hparse hadapt
  -- Every element of the tree that is read again is settled.
  have hsettled : ∀ id e', d'.element? id = some e' →
      e'.attrs.Settled (.forTarget target style) e'.tag := by
    intro id e' he'
    rw [hadapted.escaped] at he'
    obtain ⟨e₁, he₁, rfl⟩ := Option.map_eq_some_iff.mp he'
    obtain ⟨e, he⟩ : ∃ e, d₀.element? id = some e := by
      rw [← Option.isSome_iff_exists]
      have := hadapted.tree.isElement_eq id
      unfold Document.isElement at this
      rw [← this, he₁]
      rfl
    obtain ⟨attrs, hby, hnow⟩ := hadapted.element id e he
    cases he₁.symm.trans hnow
    obtain ⟨hone, hplainly⟩ := hsource d₀ hparse id e he
    have hauthored : e.attrs.Authored :=
      ⟨(Document.built_of_parse hparse).distinct id e he,
        fun kind hkind => Attributes.single_of_length_le (hone kind hkind), hplainly⟩
    have hquote : '"' ∉ e.tag.toList := fun hmem =>
      absurd ((Document.writable_of_parse hparse he).tag.2 _ hmem) (by decide)
    exact (hby.settled hmini hauthored).escaped hmini hquote
  have hself : d'.adapt (.forTarget target style) = ⟨d', none⟩ := by
    refine Pipeline.run_eq_self fun pass _ id e he => ?_
    exact (hsettled id e he).adapter_eq (Target.replaces hmini) pass rfl
  unfold compile parseTemplate
  rw [hparse']
  show (d'.adapt (.forTarget target style)).toExcept.bind _ = _
  rw [hself]
  exact congrArg Except.ok hadapted.print

/-- A style with a quote and a length, a class with a binding, and a condition. -/
theorem compile_compile_style :
    let source := "<p v-if=\"a\" style='top:1.5cpx;font:\"b\" 2cpx' :class=\"c\" class=\"d\"></p>"
    let out := "<p wx:if=\"\x7b\x7ba\x7d\x7d\" style=\"top:1.5rpx;font:&quot;b&quot; 2rpx\" " ++
      "class=\"\x7b\x7bc\x7d\x7d d  cml-base cml-p\"></p>"
    compile source .wx none = .ok out ∧ compile out .wx none = .ok out := by
  intro source out
  have hout : compile source .wx none = .ok out := by decide +kernel
  have hsource : ∀ d₀, Document.parse source = .ok d₀ → ∀ id e, d₀.element? id = some e →
      (∀ kind ∈ [DirectiveKind.model, .forEach, .showIf, .classBinding],
        (e.attrs.directivesOf kind).length ≤ 1) ∧ e.attrs.BindsPlainly :=
    Document.forall_element_of_parse (by decide +kernel)
  exact ⟨hout, compile_compile rfl hout hsource⟩

end TemplateCompiler
