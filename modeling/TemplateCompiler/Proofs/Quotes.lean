/-
Compiling what was printed.

A template that is parsed and printed has every double quote in a value spelled out.  It is
compiled as the template itself, to the same text or with an error of the same code, as long as no
adapter takes a spelled out quote apart.  There are three that may.

  * On weex a static style is cut at its semicolons, and `&quot;` ends with one.  What becomes of
    it depends on the spelling unless its quotes are enclosed, as they are in expressions.
  * On mini-program platforms the semicolons at the end of a static style are taken away before the
    text of a `v-show` is put after it, and the one of a final `&quot;` with them.
  * Elsewhere the keyword of a loop is looked for outside quotes, and a spelled out quote is none.

The passes before the last one keep both trees spellings of each other, so these go in step.  The
pass of styles does not: the style options that it writes into a call are not read from the
template, so their quotes stand as they are in both trees.  It makes the two alike when they are
printed, which is all that is needed of the last pass.
-/
import TemplateCompiler.Proofs.Spelling

namespace TemplateCompiler

/-! ### What an element needs -/

/-- An expression decides whether the element is shown, or will when its bindings have become
attributes. -/
def Attributes.MayShow (attrs : Attributes) : Prop :=
  ∃ n ∈ attrs.names ++ (attrs.directivesOf .bind).filterMap Directive.arg,
    Directive.kind? n = some .showIf

/-- None of the passes takes a spelled out quote of the element apart. -/
structure Attributes.QuoteSafe (target : Target) (passes : List Pass) (attrs : Attributes) :
    Prop where
  style : .styles ∈ passes → target.dialect.isWeex = true →
    ∀ style ∈ attrs.get? "style", Style.QuotesEnclosed style
  shown : .binding ∈ passes → target.isMiniProgram = true → attrs.MayShow →
    ¬ Adapter.EndsQuoted attrs "style"
  loop : .iteration ∈ passes → target.isMiniProgram = false →
    ∀ l ∈ attrs.directive? .forEach, Iteration.QuotedLate l.expression

namespace Attributes

variable {target : Target} {attrs attrs' : Attributes} {pass : Pass} {passes : List Pass}

instance (attrs : Attributes) : Decidable attrs.MayShow :=
  inferInstanceAs (Decidable (∃ n ∈ _, _))

instance (target : Target) (passes : List Pass) (attrs : Attributes) :
    Decidable (attrs.QuoteSafe target passes) :=
  decidable_of_iff
    ((.styles ∈ passes → target.dialect.isWeex = true →
        ∀ style ∈ attrs.get? "style", Style.QuotesEnclosed style) ∧
      (.binding ∈ passes → target.isMiniProgram = true → attrs.MayShow →
        ¬ Adapter.EndsQuoted attrs "style") ∧
      (.iteration ∈ passes → target.isMiniProgram = false →
        ∀ l ∈ attrs.directive? .forEach, Iteration.QuotedLate l.expression))
    ⟨fun ⟨style, shown, loop⟩ => ⟨style, shown, loop⟩, fun h => ⟨h.style, h.shown, h.loop⟩⟩

end Attributes

/-! ### What a pass leaves of it -/

section

variable {target : Target} {config : Option StyleConfig} {site : Site} {attrs attrs' : Attributes}
  {pass : Pass} {passes : List Pass}

/-- The static style is left alone until bindings have to do with it on mini-program platforms, and
until the last pass elsewhere. -/
theorem Pass.get?_style (hstyles : pass ≠ .styles)
    (hbinding : target.isMiniProgram = true → pass ≠ .binding)
    (h : pass.adapter (.forTarget target config) site attrs = .ok attrs') :
    attrs'.get? "style" = attrs.get? "style" := by
  have hlisted : "style" ∉ pass.listed target.dialect := by
    cases pass with
    | styles => exact absurd rfl hstyles
    | binding =>
        cases target with
        | web | weex => decide
        | wx | alipay | baidu => exact absurd rfl (hbinding rfl)
    | _ => cases target <;> decide
  refine (pass.agreeOn_name h fun hn => ?_).get?_eq BEq.rfl
  rcases hn.of_isStatic (by decide) with hmem | ⟨rfl, hkeep, -⟩
  · exact hlisted hmem
  · cases target with
    | web | weex => exact hkeep rfl
    | wx | alipay | baidu => exact hbinding rfl rfl

/-- Where directives are kept a loop is left alone until it is adapted. -/
theorem Pass.directive?_forEach (hmini : target.isMiniProgram = false) (hpass : pass ≠ .iteration)
    (h : pass.adapter (.forTarget target config) site attrs = .ok attrs') :
    attrs'.directive? .forEach = attrs.directive? .forEach := by
  refine (pass.agreeOn (p := fun n => Directive.kind? n == some .forEach) h
    fun n hn => ?_).directive?_eq fun n hn => beq_iff_eq.mpr hn
  rw [beq_eq_false_iff_ne]
  intro hkind
  rcases hn.kind (fun h => absurd (hmini.symm.trans h) Bool.false_ne_true) hkind with
    hstatic | hremoves | ⟨-, hadds⟩
  · cases hstatic
  · cases pass <;> simp [Pass.removes] at hremoves hpass
  · cases pass <;> simp [Pass.adds] at hadds

/-- Before bindings are adapted no `v-show` is written, and no binding that becomes one. -/
theorem Attributes.MayShow.of_adapter (hmini : target.isMiniProgram = true)
    (hpass : pass ≠ .binding) (hd : attrs.Distinct)
    (h : pass.adapter (.forTarget target config) site attrs = .ok attrs')
    (hshow : attrs'.MayShow) : attrs.MayShow := by
  have hwrites := pass.writesOnly_written hpass target.proper_dialect hd h
  have hwritten : ∀ n ∈ target.dialect.written,
      Directive.kind? n ≠ some .showIf ∧ Directive.kind? n ≠ some .bind := by
    cases target with
    | web | weex => cases hmini
    | wx | alipay | baidu => decide
  obtain ⟨n, hn, hkind⟩ := hshow
  refine ⟨n, ?_, hkind⟩
  rw [List.mem_append, List.mem_filterMap] at hn ⊢
  rcases hn with hn | ⟨d, hd, harg⟩
  · rcases hwrites.names n hn with hold | hnew
    · exact .inl hold
    · exact absurd hkind (hwritten n hnew).1
  · obtain ⟨hname, hbind⟩ := name_of_mem_directivesOf hd
    rcases hwrites.names d.name hname with hold | hnew
    · obtain ⟨d', hd', harg'⟩ := exists_bind_of_name hd hold
      exact .inr ⟨d', hd', harg'.trans harg⟩
    · exact absurd hbind (hwritten _ hnew).2

/-- What is safe stays so for the passes to come. -/
theorem Attributes.QuoteSafe.step (hstyles : pass ≠ .styles) (hpass : pass ∉ passes)
    (hd : attrs.Distinct) (hsafe : attrs.QuoteSafe target (pass :: passes))
    (h : pass.adapter (.forTarget target config) site attrs = .ok attrs') :
    attrs'.QuoteSafe target passes where
  style hlater hweex := by
    have hmini : target.isMiniProgram ≠ true := by
      cases target <;> first | decide | cases hweex
    rw [Pass.get?_style hstyles (fun h => absurd h hmini) h]
    exact hsafe.style (List.mem_cons_of_mem _ hlater) hweex
  shown hlater hmini hshow := by
    have hbinding : pass ≠ .binding := fun heq => hpass (heq ▸ hlater)
    unfold Adapter.EndsQuoted
    rw [Pass.get?_style hstyles (fun _ => hbinding) h]
    exact hsafe.shown (List.mem_cons_of_mem _ hlater) hmini (hshow.of_adapter hmini hbinding hd h)
  loop hlater hmini := by
    have hiteration : pass ≠ .iteration := fun heq => hpass (heq ▸ hlater)
    rw [Pass.directive?_forEach hmini hiteration h]
    exact hsafe.loop (List.mem_cons_of_mem _ hlater) hmini

/-! ### The passes before the last -/

/-- The passes that keep trees each other's spelling. -/
def Pass.early : List Pass := [ref, model, binding, conditional, iteration, classes]

theorem Pass.standard_eq : standard = early ++ [styles] := rfl

/-- The text of a `v-show` finds the static style as it was before bindings became attributes. -/
theorem Attributes.QuoteSafe.not_endsQuoted
    (hsafe : attrs.QuoteSafe target (.binding :: passes)) (hmini : target.isMiniProgram = true)
    (hd : attrs.Distinct)
    (hshow : (Adapter.properties target.dialect.binding attrs).directive? .showIf ≠ none) :
    ¬ Adapter.EndsQuoted (Adapter.properties target.dialect.binding attrs) "style" := by
  have hkept : (Adapter.properties target.dialect.binding attrs).get? "style"
      = attrs.get? "style" := by
    refine (Adapter.agreeOn_properties (p := fun n => n == "style") _ fun _ d hd => ?_).get?_eq rfl
    obtain ⟨hmem, hbind⟩ := mem_directivesOf.mp hd
    obtain ⟨-, -, hof, hk⟩ := mem_of_mem_directives hmem
    obtain ⟨property, harg, -, -, hne, -⟩ := Directive.exists_property hof hbind
    refine ⟨beq_eq_false_iff_ne.mpr fun heq => ?_, fun property' harg' => ?_⟩
    · rw [heq, hbind] at hk
      exact absurd hk (by decide)
    · cases harg.symm.trans harg'
      exact beq_eq_false_iff_ne.mpr hne
  have hmay : attrs.MayShow := by
    obtain ⟨d, hd'⟩ := Option.ne_none_iff_exists'.mp hshow
    obtain ⟨hname, hk⟩ := name_of_directive? hd'
    refine ⟨d.name, ?_, hk⟩
    rw [List.mem_append, List.mem_filterMap]
    have hwrites := @Adapter.writesOnly_properties (.forTarget target none) attrs hd
    rcases hwrites.names d.name hname with hold | hwritten | ⟨-, b, hb, harg⟩
    · exact .inl hold
    · have hnone : ∀ n ∈ target.dialect.written, Directive.kind? n ≠ some .showIf := by
        cases target <;> decide
      exact absurd hk (hnone d.name hwritten)
    · exact .inr ⟨b, hb, harg⟩
  unfold Adapter.EndsQuoted
  rw [hkept]
  exact hsafe.shown List.mem_cons_self hmini hmay

/-- Both spellings of an element are adapted alike by every pass before the last. -/
theorem Pass.adapter_escaped {site' : Site} (hstyles : pass ≠ .styles)
    (htag : Text.Unquoted site.tag.toList) (hsites : Variation.spelling.Sites site site')
    (hd : attrs.Distinct) (hsafe : attrs.QuoteSafe target (pass :: passes)) :
    Variation.spelling.Outcome (pass.adapter (.forTarget target config) site attrs)
      (pass.adapter (.forTarget target config) site' attrs.escaped) := by
  cases pass with
  | ref =>
      refine Variation.spelling_of_eq (Adapter.reference_escaped site site' ?_)
      intro idName marker hform
      cases target <;> cases hform <;> decide
  | model => exact Variation.spelling_of_eq (Adapter.model_escaped site site')
  | binding =>
      refine Adapter.binding_escaped fun slotName hslot hshow => ?_
      obtain ⟨hmini, rfl⟩ : target.isMiniProgram = true ∧ slotName = "style" := by
        cases target <;> cases hslot <;> exact ⟨rfl, rfl⟩
      exact hsafe.not_endsQuoted hmini hd hshow
  | conditional => exact Adapter.conditional_escaped hsites.previous
  | iteration =>
      refine Adapter.iteration_escaped fun hform => hsafe.loop List.mem_cons_self ?_
      cases target <;> first | rfl | cases hform
  | classes => exact Variation.spelling_of_eq (Adapter.classes_escaped htag hsites.tag)
  | styles => exact absurd rfl hstyles

/-- What an element needs to be adapted alike by the passes and then by the last. -/
structure Element.QuoteSafe (target : Target) (passes : List Pass) (e : Element) : Prop where
  tag : Text.Unquoted e.tag.toList
  distinct : e.attrs.Distinct
  early : .styles ∉ passes
  attrs : e.attrs.QuoteSafe target (passes ++ [.styles])

theorem Variation.spelling_kept (target : Target) (config : Option StyleConfig) :
    spelling.Kept (.forTarget target config) (.forTarget target config)
      (Element.QuoteSafe target) where
  outcome hsafe hsites htag _ :=
    Pass.adapter_escaped (fun heq => hsafe.early (heq ▸ List.mem_cons_self))
      (htag ▸ hsafe.tag) hsites hsafe.distinct hsafe.attrs
  step {pass passes _ _ _} hpass hsafe _ hok := by
    have hstyles : pass ≠ .styles := fun heq => hsafe.early (heq ▸ List.mem_cons_self)
    have hlater : pass ∉ passes ++ [.styles] := by
      rw [List.mem_append, List.mem_singleton]
      exact not_or_intro hpass hstyles
    exact ⟨hsafe.tag, (pass.writesOnly target.proper_dialect hsafe.distinct hok).distinct,
      fun h => hsafe.early (List.mem_cons_of_mem _ h),
      hsafe.attrs.step hstyles hlater hsafe.distinct hok⟩

end

/-! ### The last pass, and printing -/

theorem NodeKind.print_escaped (kind : NodeKind) (content : List Char) :
    kind.escaped.print content = kind.print content := by
  cases kind with
  | text t => rfl
  | comment c => rfl
  | element e =>
      show (if e.closing = .normal then e.escaped.printStart ++ content ++ e.printEnd
        else e.escaped.printStart) = _
      rw [e.printStart_escaped]
      rfl

/-- Nodes are each other's spelling if they are but for attributes, and their elements are. -/
theorem NodeKind.escaped_congr {kind kind' : NodeKind} (hbare : kind'.bare = kind.bare)
    (helement : kind'.element?.map Element.escaped = kind.element?.map Element.escaped) :
    kind'.escaped = kind.escaped := by
  cases kind with
  | element e =>
      cases kind' with
      | element e' => exact congrArg NodeKind.element (Option.some.inj helement)
      | text t | comment c => cases hbare
  | text t | comment c =>
      cases kind' <;> cases hbare
      rfl

namespace Document

variable {target : Target} {config : Option StyleConfig} {d d' : Document}

/-- Trees that are each other's spelling are printed alike. -/
theorem print_congr (htree : SameTree d d')
    (helement : ∀ id, (d'.element? id).map Element.escaped = (d.element? id).map Element.escaped) :
    d'.print = d.print := by
  have hnode : ∀ id, d'.printNode id = d.printNode id := by
    intro id
    induction id using subtree_induction (d := d) with
    | step id ih =>
        cases hs : d.shape? id with
        | none =>
            have hs' : d'.shape? id = none := by
              rw [shape?_eq_none_iff] at hs ⊢
              rwa [htree.size_eq]
            rw [printNode, printNode, Option.map_eq_none_iff.mp hs, Option.map_eq_none_iff.mp hs']
        | some s =>
            obtain ⟨kind, hs', hbare⟩ := htree.exists_shape hs
            have hchildren : s.children.flatMap d'.printNode = s.children.flatMap d.printNode := by
              rw [children_eq, hs] at ih
              exact List.flatMap_congr ih
            have hkind : kind.escaped = s.kind.escaped := by
              refine NodeKind.escaped_congr hbare ?_
              have hsame := helement id
              rw [element?_eq, element?_eq, hs, hs'] at hsame
              exact hsame
            rw [printNode_eq hs, printNode_eq hs', hchildren, ← NodeKind.print_escaped, hkind,
              NodeKind.print_escaped]
  unfold print
  rw [htree.roots, funext hnode]

theorem error_styles (target : Target) (config : Option StyleConfig) (d : Document) :
    (Pipeline.run (.forTarget target config) [.styles] d).error = none :=
  Pipeline.run_total (fun pass hpass => pass.total (List.mem_cons_of_mem _ hpass) _) d

/-- The pass of styles makes trees that are each other's spelling into trees that are printed
alike. -/
theorem print_styles (hd : d.Linked) (h : d.Varied .spelling d')
    (hsafe : ∀ id e, d.element? id = some e → e.QuoteSafe target []) :
    (Pipeline.run (.forTarget target config) [.styles] d').document.print
      = (Pipeline.run (.forTarget target config) [.styles] d).document.print := by
  have htotal : ∀ d : Document, Pipeline.run (.forTarget target config) [.styles] d
      = ⟨(Pipeline.run (.forTarget target config) [.styles] d).document, none⟩ := by
    intro d
    rw [← error_styles target config d]
  have hd' := hd.of_sameTree h.tree
  obtain ⟨htree, helement⟩ := Pipeline.run_eq_ok hd (htotal d)
  obtain ⟨htree', helement'⟩ := Pipeline.run_eq_ok hd' (htotal d')
  refine print_congr (htree.symm.trans (h.tree.trans htree')) fun id => ?_
  cases he : d.element? id with
  | none =>
      have hnone : ∀ {d₁ d₂ : Document}, SameTree d₁ d₂ → d₁.element? id = none →
          d₂.element? id = none := by
        intro d₁ d₂ hsame hnone
        have hbool := hsame.isElement_eq id
        unfold isElement at hbool
        rwa [hnone, Option.isSome_none, ← Bool.not_eq_true, Option.not_isSome_iff_eq_none] at hbool
      rw [hnone htree he, hnone htree' (hnone h.tree he)]
  | some e =>
      have he' : d'.element? id = some (Variation.spelling.element e) := by
        rw [h.element, he]
        rfl
      obtain ⟨attrs, hby, hnow⟩ := helement id e he
      obtain ⟨attrs', hby', hnow'⟩ := helement' id _ he'
      obtain ⟨site, -, (hok : Adapter.styles _ site _ = _)⟩ := hby.of_singleton
      obtain ⟨site', -, (hok' : Adapter.styles _ site' _ = _)⟩ := hby'.of_singleton
      have hstyle := (hsafe id e he).attrs.style (List.mem_singleton_self _)
      have hsame := Adapter.styles_escaped (hsafe id e he).distinct hstyle hok hok'
      rw [hnow, hnow']
      exact congrArg (fun attrs => some { e with attrs }) hsame

/-- Two spellings of a tree are adapted to trees that are printed alike, or fail with errors of the
same code. -/
theorem adapt_escaped (config : Option StyleConfig) (hd : d.Linked) (h : d.Varied .spelling d')
    (hsafe : ∀ id e, d.element? id = some e → e.QuoteSafe target Pass.early) :
    (d'.adapt (.forTarget target config)).error.map CompileError.code
        = (d.adapt (.forTarget target config)).error.map CompileError.code ∧
      ((d.adapt (.forTarget target config)).error = none →
        (d'.adapt (.forTarget target config)).document.print
          = (d.adapt (.forTarget target config)).document.print) := by
  obtain ⟨⟨hdocument, herrors⟩, hdone⟩ :=
    Pipeline.run_varied (Variation.spelling_kept target config) (by decide) hd h hsafe
  unfold adapt
  rw [Pass.standard_eq]
  cases herror : (Pipeline.run (.forTarget target config) Pass.early d).error with
  | none =>
      have hrun : Pipeline.run (.forTarget target config) Pass.early d
          = ⟨(Pipeline.run (.forTarget target config) Pass.early d).document, none⟩ := by
        rw [← herror]
      have herror' : (Pipeline.run (.forTarget target config) Pass.early d').error = none := by
        rw [herror] at herrors
        generalize (Pipeline.run (.forTarget target config) Pass.early d').error = r at herrors ⊢
        cases herrors
        rfl
      have hlinked := hd.of_sameTree (Pipeline.run_eq_ok hd hrun).1
      rw [Pipeline.run_append_of_none herror, Pipeline.run_append_of_none herror', error_styles,
        error_styles]
      exact ⟨rfl, fun _ => print_styles hlinked hdocument (hdone herror)⟩
  | some error =>
      obtain ⟨error', herror', hcode⟩ :
          ∃ error', (Pipeline.run (.forTarget target config) Pass.early d').error = some error' ∧
            error'.code = error.code := by
        rw [herror] at herrors
        generalize (Pipeline.run (.forTarget target config) Pass.early d').error = r at herrors
        cases herrors with
        | some hcode => exact ⟨_, rfl, hcode⟩
      rw [Pipeline.run_append_of_error herror, Pipeline.run_append_of_error herror', herror,
        herror']
      exact ⟨congrArg some hcode, fun hnone => nomatch hnone⟩

end Document

/-! ### Compiling -/

/-- Compiling does not depend on how quotes are spelled.  A template that is parsed and printed, so
that double quotes in values are spelled out, is compiled to the same text as the template itself,
or is rejected with an error of the same code, if no pass takes a spelled out quote apart. -/
theorem compile_print {source : String} {d : Document} (hparse : Document.parse source = .ok d)
    (target : Target) (style : Option StyleConfig)
    (hsafe : ∀ id e, d.element? id = some e → e.attrs.QuoteSafe target Pass.standard) :
    (compile d.print target style).mapError CompileError.code
      = (compile source target style).mapError CompileError.code := by
  obtain ⟨F, hrep, hread⟩ := Document.exists_readable_of_parse hparse
  obtain ⟨d', hparse', hrep'⟩ := hrep.parse_print hread
  have hvaried : d.Varied .spelling d' :=
    ⟨Document.sameTree_of_escaped hrep hrep', fun _ => trivial,
      Document.element?_of_escaped hrep hrep'⟩
  have hready : ∀ id e, d.element? id = some e →
      e.QuoteSafe target Pass.early := by
    intro id e he
    have hwritable := Document.writable_of_parse hparse he
    refine ⟨⟨fun hmem => ?_, fun hmem => ?_⟩, hwritable.attrs.distinct, by decide, hsafe id e he⟩
    · exact absurd (hwritable.tag.2 _ hmem) (by decide)
    · exact absurd (hwritable.tag.2 _ hmem) (by decide)
  obtain ⟨hcode, hprint⟩ :=
    Document.adapt_escaped style (Document.built_of_parse hparse).linked hvaried hready
  rw [compile_of_parse hparse, compile_of_parse hparse']
  cases herror : (d.adapt (.forTarget target style)).error with
  | none =>
      rw [herror] at hcode
      rw [Option.map_eq_none_iff.mp hcode, hprint herror]
  | some error =>
      rw [herror] at hcode
      obtain ⟨error', herror', hsame⟩ := Option.map_eq_some_iff.mp hcode
      rw [herror']
      exact congrArg Except.error hsame

/-- A condition, a loop, a binding of the style and a static style, with quotes in each. -/
theorem compile_print_input :
    let source := "<a v-if='b==\"c\"' v-for='d in f(\"\x7b\")' :style='\x7b\"g\":h\x7d' " ++
      "style='k:l(\"m\");n:1cpx'/>"
    let out := "<a v-if=\"b==&quot;c&quot;\" v-for=\"d in f(&quot;\x7b&quot;)\" " ++
      "v-bind:style=\"_cmlStyleProxy((\x7b&quot;g&quot;:h\x7d))\" " ++
      "style=\"k: l(&quot;m&quot;);n: 1px\" " ++
      "class=\" cml-base cml-a\" />"
    ∃ d, Document.parse source = .ok d ∧
      (∀ id e, d.element? id = some e → e.attrs.QuoteSafe .weex Pass.standard) ∧
      compile source .weex none = .ok out ∧
      (compile d.print .weex none).mapError CompileError.code = .ok out := by
  intro source out
  have hsafe : ∀ d, Document.parse source = .ok d → ∀ id e, d.element? id = some e →
      e.attrs.QuoteSafe .weex Pass.standard :=
    Document.forall_element_of_parse (by decide +kernel)
  have hout : compile source .weex none = .ok out := by decide +kernel
  cases hparse : Document.parse source with
  | error error =>
      rw [compile_of_error hparse] at hout
      cases hout
  | ok d =>
      refine ⟨d, rfl, hsafe d hparse, hout, ?_⟩
      rw [compile_print hparse .weex none (hsafe d hparse), hout]
      rfl

/-- On weex the semicolon of a spelled out quote ends a declaration, so what the declaration ends
with depends on the spelling. -/
theorem compile_print_weex :
    let source := "<text style='font-family:\"Open Sans\"'></text>"
    let printed := "<text style=\"font-family:&quot;Open Sans&quot;\"></text>"
    (Document.parse source).map Document.print = .ok printed ∧
      compile source .weex none = .ok ("<text style=\"font-family: &quot;Open Sans&quot;\" " ++
        "class=\" cml-base cml-text\"></text>") ∧
      compile printed .weex none = .ok ("<text style=\"font-family: &quot;Open Sans&quot\" " ++
        "class=\" cml-base cml-text\"></text>") := by decide +kernel

/-- The semicolon of a spelled out quote at the end of a style is taken for one of the style. -/
example : withoutFinalSemicolons (escapeText "a:\"b\"") = "a:&quot;b&quot" := by decide +kernel

/-- A bracket in a pattern counts when the quotes around it are spelled out. -/
example : (Iteration.parse? "\x7ba=\"\x7b\"\x7d in b").isSome = true ∧
    Iteration.parse? (escapeText "\x7ba=\"\x7b\"\x7d in b") = none := by decide +kernel

end TemplateCompiler
