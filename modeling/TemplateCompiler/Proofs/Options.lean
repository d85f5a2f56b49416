/-
What the options of styles can reach.

The options are handed to every adapter, and one adapter alone looks at them: that of styles,
which runs last and never fails.  Off the web it does not either, because only the web has a
call that is handed the options and lengths that are scaled by them.  So off the web two
compilations with different options are one compilation.

On the web they are the same up to the last pass, errors included.  What that pass does to an
element it does under two names, and which entries it takes away, moves or keeps does not
hang on the options: they are in the values alone.  `SameApart` says this of two lists of
attributes, and of two trees.
-/
import TemplateCompiler.Proofs.Quotes

namespace TemplateCompiler

/-! ### Attributes that differ in a few values -/

namespace Attributes

variable {names : List String} {name : String} {attrs attrs' attrs'' : Attributes}

/-- One name, and one value unless it is among `names`. -/
def SameEntry (names : List String) (entry entry' : Attribute) : Prop :=
  entry'.1 = entry.1 ∧ (entry.1 ∉ names → entry'.2 = entry.2)

/-- The same names in the same order, with the same values but under `names`. -/
def SameApart (names : List String) (attrs attrs' : Attributes) : Prop :=
  List.Forall₂ (SameEntry names) attrs.entries attrs'.entries

theorem sameEntry_same (names : List String) (entries : List Attribute) :
    List.Forall₂ (SameEntry names) entries entries :=
  List.forall₂_same.mpr fun _ _ => ⟨rfl, fun _ => rfl⟩

namespace SameApart

protected theorem refl (names : List String) (attrs : Attributes) : SameApart names attrs attrs :=
  sameEntry_same names attrs.entries

protected theorem symm (h : SameApart names attrs attrs') : SameApart names attrs' attrs := by
  refine List.Forall₂.flip (h.imp ?_)
  rintro entry entry' ⟨hname, hvalue⟩
  exact ⟨hname.symm, fun hnot => (hvalue (hname ▸ hnot)).symm⟩

protected theorem trans (h : SameApart names attrs attrs') (h' : SameApart names attrs' attrs'') :
    SameApart names attrs attrs'' := by
  unfold SameApart at *
  generalize attrs.entries = entries at h
  generalize attrs'.entries = entries' at h h'
  generalize attrs''.entries = entries'' at h'
  induction h generalizing entries'' with
  | nil =>
      cases h'
      exact .nil
  | cons hhead _ ih =>
      cases h' with
      | cons hhead' htail' =>
          refine .cons ⟨hhead'.1.trans hhead.1, fun hnot => ?_⟩ (ih _ htail')
          exact (hhead'.2 (hhead.1 ▸ hnot)).trans (hhead.2 hnot)

/-- Another value for an attribute that is there. -/
theorem insert (hmem : name ∈ attrs.names) (hname : name ∈ names) (value : String) :
    SameApart names attrs (attrs.insert name value) := by
  unfold SameApart Attributes.insert Attributes.set
  rw [if_pos (contains_iff.mpr hmem), List.forall₂_map_right_iff, List.forall₂_same]
  intro entry _
  split
  · rename_i heq
    exact ⟨rfl, fun hnot => absurd (beq_iff_eq.mp heq ▸ hname) hnot⟩
  · exact ⟨rfl, fun _ => rfl⟩

/-- One attribute put in the place of another, with one value or with another one. -/
theorem replaceD_one (attrs : Attributes) (old : String) (hname : name ∈ names)
    (value value' : Option String) :
    SameApart names (attrs.replaceD old [(name, value)]) (attrs.replaceD old [(name, value')]) := by
  unfold Attributes.replaceD Attributes.replace
  split
  · rw [List.span_eq_takeWhile_dropWhile]
    have hnew : List.Forall₂ (SameEntry names) [(name, value)] [(name, value')] :=
      .cons ⟨rfl, fun hnot => absurd hname hnot⟩ .nil
    exact List.rel_append (List.rel_append (sameEntry_same names _) hnew) (sameEntry_same names _)
  · exact .refl ..

end SameApart

end Attributes

/-! ### The pass of styles -/

namespace Adapter

/-- The names under which a style is written, static or bound. -/
def styleNames : List String := ["style", styleBindingName]

/-- Where bindings are merged, and into what, does not hang on the options; the text of the call
may. -/
theorem sameApart_mergeStyleBindings (mode : StyleMode) (config config' : Option StyleConfig)
    (bindings : List Directive) (attrs : Attributes) :
    (mergeStyleBindings mode config bindings attrs).SameApart styleNames
      (mergeStyleBindings mode config' bindings attrs) := by
  unfold mergeStyleBindings
  cases bindings with
  | nil => exact .refl ..
  | cons first others =>
      dsimp only
      split
      · exact .refl ..
      · split
        · exact .refl ..
        · exact .replaceD_one _ _ (by decide) _ _

theorem sameApart_styleBindings (mode : StyleMode) (config config' : Option StyleConfig)
    (attrs : Attributes) :
    (styleBindings mode config attrs).SameApart styleNames (styleBindings mode config' attrs) := by
  unfold styleBindings
  cases mode with
  | drop => exact .refl ..
  | proxyWithConfig | proxy => exact sameApart_mergeStyleBindings ..

/-- Writing the static style changes a value and nothing else. -/
theorem sameApart_staticStyle (setting : Setting) (attrs : Attributes) :
    attrs.SameApart styleNames (staticStyle setting attrs) := by
  unfold staticStyle
  cases hstyle : attrs.get? "style" with
  | none => exact .refl ..
  | some style =>
      have hmem : "style" ∈ attrs.names := Attributes.mem_names_of_get? hstyle
      dsimp only
      split
      · exact .refl ..
      · exact .insert hmem (by decide) _

/-- What styles become under two settings of one platform. -/
theorem sameApart_styles {σ τ : Setting} (h : σ.dialect = τ.dialect) {site site' : Site}
    {attrs attrs₁ attrs₂ : Attributes} (h₁ : styles σ site attrs = .ok attrs₁)
    (h₂ : styles τ site' attrs = .ok attrs₂) : attrs₁.SameApart styleNames attrs₂ := by
  unfold styles at h₁ h₂
  cases h₁
  cases h₂
  rw [h]
  exact (sameApart_staticStyle σ _).symm.trans
    ((sameApart_styleBindings ..).trans (sameApart_staticStyle τ _))

end Adapter

/-! ### Settings that differ in the options -/

/-- No other pass looks at the options. -/
theorem Pass.adapter_eq_of_ne_styles {pass : Pass} (hpass : pass ≠ .styles) (target : Target)
    (style style' : Option StyleConfig) :
    pass.adapter (.forTarget target style) = pass.adapter (.forTarget target style') := by
  cases pass with
  | styles => exact absurd rfl hpass
  | _ => rfl

/-- Lengths are scaled by the options on the web only. -/
theorem Style.normalize_eq_of_ne_web {target : Target} (h : target ≠ .web)
    (style style' : Option StyleConfig) (text : String) :
    Style.normalize target style text = Style.normalize target style' text := by
  have hother : target.dialect.isWeex = true ∨ target.dialect.isMiniProgram = true := by
    cases target with
    | web => exact absurd rfl h
    | weex => exact .inl rfl
    | wx | alipay | baidu => exact .inr rfl
  unfold Style.normalize Style.normalizeChars
  split
  · rfl
  · rename_i hweex
    rw [if_pos (hother.resolve_left hweex), if_pos (hother.resolve_left hweex)]

/-- Calls are handed the options on the web only. -/
theorem styleBindings_eq_of_ne_web {target : Target} (h : target ≠ .web)
    (style style' : Option StyleConfig) (attrs : Attributes) :
    Adapter.styleBindings target.dialect.styleMode style attrs
      = Adapter.styleBindings target.dialect.styleMode style' attrs := by
  have hcall : ∀ config expression,
      styleCall .proxy config expression = styleCall .proxy none expression := by
    intro config expression
    cases config <;> rfl
  cases target with
  | web => exact absurd rfl h
  | weex =>
      show Adapter.mergeStyleBindings .proxy style _ attrs
        = Adapter.mergeStyleBindings .proxy style' _ attrs
      unfold Adapter.mergeStyleBindings
      simp only [hcall]
  | wx | alipay | baidu => rfl

/-- Off the web no pass looks at the options. -/
theorem Pass.adapter_eq_of_ne_web {target : Target} (h : target ≠ .web) (pass : Pass)
    (style style' : Option StyleConfig) :
    pass.adapter (.forTarget target style) = pass.adapter (.forTarget target style') := by
  by_cases hpass : pass = .styles
  · subst hpass
    funext site attrs
    show Except.ok (Adapter.staticStyle (.forTarget target style)
        (Adapter.styleBindings target.dialect.styleMode style attrs))
      = .ok (Adapter.staticStyle (.forTarget target style')
        (Adapter.styleBindings target.dialect.styleMode style' attrs))
    have hnormalize : (Setting.forTarget target style).normalizeStyle
        = (Setting.forTarget target style').normalizeStyle := by
      funext text
      show Style.normalize target.dialect.target style text
        = Style.normalize target.dialect.target style' text
      rw [target.target_dialect]
      exact Style.normalize_eq_of_ne_web h style style' text
    rw [styleBindings_eq_of_ne_web h style style' attrs]
    unfold Adapter.staticStyle
    rw [hnormalize]
  · exact adapter_eq_of_ne_styles hpass target style style'

/-- Settings that all passes take alike adapt a tree alike. -/
theorem Pipeline.run_congr {σ τ : Setting} {passes : Pipeline}
    (h : ∀ pass ∈ passes, pass.adapter σ = pass.adapter τ) :
    ∀ d : Document, passes.run σ d = passes.run τ d := by
  induction passes with
  | nil => exact fun d => rfl
  | cons pass passes ih =>
      intro d
      have hrun : pass.run σ d = pass.run τ d :=
        Document.adaptEach_congr (h pass List.mem_cons_self) d.preorder d
      have hrest := ih fun pass' hpass' => h pass' (List.mem_cons_of_mem _ hpass')
      cases herror : (pass.run τ d).error with
      | none => rw [run_cons_of_none herror, run_cons_of_none (hrun ▸ herror), hrun, hrest]
      | some error => rw [run_cons_of_error herror, run_cons_of_error (hrun ▸ herror), hrun]

/-! ### Trees -/

namespace Document

variable {names : List String} {d d' : Document}

/-- The same tree at the same places, whose elements differ in the values under `names` at most. -/
structure SameApart (names : List String) (d d' : Document) : Prop where
  tree : SameTree d d'
  span : ∀ id, d'.spanOf id = d.spanOf id
  attrs : ∀ id e e', d.element? id = some e → d'.element? id = some e' →
    e.attrs.SameApart names e'.attrs

/-- With other options the pass of styles makes of one tree another one that differs in values. -/
theorem sameApart_run_styles (hd : d.Linked) (target : Target) (style style' : Option StyleConfig) :
    (Pipeline.run (.forTarget target style) [.styles] d).document.SameApart Adapter.styleNames
      (Pipeline.run (.forTarget target style') [.styles] d).document := by
  have htotal : ∀ style, Pipeline.run (.forTarget target style) [.styles] d
      = ⟨(Pipeline.run (.forTarget target style) [.styles] d).document, none⟩ := by
    intro style
    rw [← error_styles target style d]
  obtain ⟨htree, helement⟩ := Pipeline.run_eq_ok hd (htotal style)
  obtain ⟨htree', helement'⟩ := Pipeline.run_eq_ok hd (htotal style')
  refine ⟨htree.symm.trans htree', fun id => ?_, fun id e₁ e₂ he₁ he₂ => ?_⟩
  · rw [Pipeline.spanOf_run _ _ id hd, Pipeline.spanOf_run _ _ id hd]
  · obtain ⟨e, attrs₁, he, hby, rfl⟩ := Pipeline.exists_element hd (htotal style) he₁
    obtain ⟨attrs₂, hby', hnow⟩ := helement' id e he
    obtain rfl := Option.some.inj (he₂.symm.trans hnow)
    obtain ⟨site, -, (hok : Adapter.styles _ site _ = _)⟩ := hby.of_singleton
    obtain ⟨site', -, (hok' : Adapter.styles _ site' _ = _)⟩ := hby'.of_singleton
    have hdialect : (Setting.forTarget target style).dialect
        = (Setting.forTarget target style').dialect := rfl
    exact Adapter.sameApart_styles hdialect hok hok'

/-- Other options change no error on any platform, and the adapted tree in values of styles alone. -/
theorem adapt_options (hd : d.Linked) (target : Target) (style style' : Option StyleConfig) :
    (d.adapt (.forTarget target style')).error = (d.adapt (.forTarget target style)).error ∧
      ((d.adapt (.forTarget target style)).error = none →
        (d.adapt (.forTarget target style)).document.SameApart Adapter.styleNames
          (d.adapt (.forTarget target style')).document) := by
  have hearly : Pipeline.run (.forTarget target style') Pass.early d
      = Pipeline.run (.forTarget target style) Pass.early d := by
    refine Pipeline.run_congr (fun pass hpass => ?_) d
    refine Pass.adapter_eq_of_ne_styles (fun heq => ?_) target style' style
    subst heq
    exact absurd hpass (by decide)
  unfold adapt
  rw [Pass.standard_eq]
  cases herror : (Pipeline.run (.forTarget target style) Pass.early d).error with
  | none =>
      rw [Pipeline.run_append_of_none herror, Pipeline.run_append_of_none (hearly ▸ herror), hearly]
      refine ⟨(error_styles ..).trans (error_styles ..).symm, fun _ => ?_⟩
      refine sameApart_run_styles ?_ target style style'
      have hrun : Pipeline.run (.forTarget target style) Pass.early d
          = ⟨(Pipeline.run (.forTarget target style) Pass.early d).document, none⟩ := by
        rw [← herror]
      exact hd.of_sameTree (Pipeline.run_eq_ok hd hrun).1
  | some error =>
      rw [Pipeline.run_append_of_error herror, Pipeline.run_append_of_error (hearly ▸ herror),
        hearly, herror]
      exact ⟨rfl, fun hnone => nomatch hnone⟩

end Document

/-! ### Compiling -/

/-- The options are seen in the values of styles on the web and nowhere else.  On every other
platform a template is compiled to the same result whatever they are.  On the web it is rejected
with the same error, or compiled from trees that differ in the values of `style` and
`v-bind:style`. -/
theorem compile_options (source : String) (style style' : Option StyleConfig) :
    (∀ target, target ≠ .web → compile source target style = compile source target style') ∧
      ((∃ error, compile source .web style = .error error ∧
          compile source .web style' = .error error) ∨
        ∃ d₀ d d', Document.parse source = .ok d₀ ∧
          d₀.adapt (.forTarget .web style) = ⟨d, none⟩ ∧
          d₀.adapt (.forTarget .web style') = ⟨d', none⟩ ∧
          compile source .web style = .ok d.print ∧ compile source .web style' = .ok d'.print ∧
          d.SameApart ["style", "v-bind:style"] d') := by
  cases hparse : Document.parse source with
  | error error =>
      refine ⟨fun target _ => ?_, .inl ⟨.markup error, ?_, ?_⟩⟩
      · rw [compile_of_error hparse, compile_of_error hparse]
      · exact compile_of_error hparse .web style
      · exact compile_of_error hparse .web style'
  | ok d₀ =>
      have hd : d₀.Linked := (Document.built_of_parse hparse).linked
      constructor
      · intro target htarget
        have hadapt : d₀.adapt (.forTarget target style) = d₀.adapt (.forTarget target style') :=
          Pipeline.run_congr
            (fun pass _ => pass.adapter_eq_of_ne_web htarget style style') d₀
        rw [compile_of_parse hparse, compile_of_parse hparse, hadapt]
      · obtain ⟨herrors, hsame⟩ := Document.adapt_options hd .web style style'
        cases herror : (d₀.adapt (.forTarget .web style)).error with
        | some error =>
            refine .inl ⟨error, ?_, ?_⟩
            · rw [compile_of_parse hparse, herror]
            · rw [compile_of_parse hparse, herrors, herror]
        | none =>
            refine .inr ⟨d₀, _, _, rfl, ?_, ?_, ?_, ?_, hsame herror⟩
            · rw [← herror]
            · rw [← herrors.trans herror]
            · rw [compile_of_parse hparse, herror]
            · rw [compile_of_parse hparse, herrors, herror]

/-- They are seen there. -/
example :
    compile "<a :style='s'></a>" .web (some ⟨some true, none, none, some ["ie"]⟩)
      = .ok ("<a v-bind:style=\"_cmlStyleProxy((s),\x7b'rem':true," ++
        "'autoprefixOptions':\x7b'browsers':['ie']\x7d\x7d)\" class=\" cml-base cml-a\"></a>") := by
  decide +kernel

end TemplateCompiler
