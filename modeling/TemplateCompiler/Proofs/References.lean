/-
What becomes of a reference name on a mini-program platform.

The first pass makes an identity of the name and marks the element by a class.  The mark
stays whatever else is on the element, because no pass takes a class off the list: the
pass of classes puts the binding before it and the base classes after it.  The identity
stays unless the author binds the property `id` as well.  A binding becomes an attribute of
its property's name and takes the place of one that is there, and the pass of bindings does
not know which attributes were written for references.  An attribute `ref` is left only if
the author binds a property of this name.
-/
import TemplateCompiler.Proofs.Confinement
import TemplateCompiler.Proofs.Escaping
import TemplateCompiler.Proofs.Retention

namespace TemplateCompiler

namespace Attributes

/-- No property of this name is bound. -/
def Unbound (attrs : Attributes) (name : String) : Prop :=
  ∀ d ∈ attrs.directivesOf .bind, d.arg ≠ some name

instance (attrs : Attributes) (name : String) : Decidable (attrs.Unbound name) :=
  inferInstanceAs (Decidable (∀ d ∈ attrs.directivesOf .bind, d.arg ≠ some name))

/-- The class that marks references is in the static list. -/
def HasMarker (attrs : Attributes) : Prop :=
  ∃ list, attrs.get? "class" = some list ∧ Dialect.referenceMarker ∈ Text.words list

end Attributes

/-! ### The mark -/

namespace Adapter

variable {attrs attrs' : Attributes}

theorem hasMarker_addClass (hd : attrs.Distinct) :
    (attrs.addClass Dialect.referenceMarker).HasMarker := by
  have halone : Dialect.referenceMarker ∈ Text.words Dialect.referenceMarker := by decide
  unfold Attributes.addClass
  split
  · exact ⟨_, hd.get?_insert _ _, halone⟩
  · rename_i list hlist
    split
    · rename_i hmem
      exact ⟨list, hlist, List.contains_iff_mem.mp hmem⟩
    · split
      · exact ⟨_, hd.get?_insert _ _, halone⟩
      · refine ⟨_, hd.get?_insert _ _, ?_⟩
        rw [Text.words_append_blank]
        exact List.mem_append_right _ halone

/-- Folding the binding and the base classes into the list takes no class off it. -/
theorem hasMarker_foldClass (base : String) (hd : attrs.Distinct) (h : attrs.HasMarker) :
    (foldClass base (attrs.directive? .classBinding) attrs).HasMarker := by
  obtain ⟨list, hlist, hmarker⟩ := h
  unfold foldClass
  dsimp only
  rw [hlist, Option.getD_some]
  split
  · split
    · exact ⟨list, hlist, hmarker⟩
    · refine ⟨_, hd.get?_insert _ _, ?_⟩
      rw [Text.words_append_blank]
      exact List.mem_append_left _ hmarker
  · rename_i d hfirst
    have hne : "class" ≠ d.name := by
      intro heq
      have hkind := (Attributes.name_of_directive? hfirst).2
      rw [← heq] at hkind
      exact absurd hkind (by decide)
    have hcontains : attrs.contains "class" = true :=
      Attributes.contains_iff.mpr (Attributes.mem_names_of_get? hlist)
    have hfront : Dialect.referenceMarker
        ∈ Text.words (Encoding.braces.encode d.expression ++ " " ++ list) := by
      rw [Text.words_append_blank]
      exact List.mem_append_right _ hmarker
    rw [if_pos hcontains]
    refine ⟨_, ((hd.set _ _).erase _).get?_eq (Attributes.mem_entries_erase.mpr
      ⟨Attributes.mem_entries_set_self _ _ _, hne⟩), ?_⟩
    split
    · exact hfront
    · rw [Text.words_append_blanks _ _ (by decide) (by decide)]
      exact List.mem_append_left _ hfront

/-- What the adapter of references writes for a name. -/
theorem reference_eq {target : Target} (hmini : target.isMiniProgram = true)
    {style : Option StyleConfig} (site : Site) {value : String}
    (hvalue : attrs.get? "ref" = some value) (hname : Text.trim value ≠ "")
    (h : reference (.forTarget target style) site attrs = .ok attrs') :
    attrs' = (attrs.replaceD "ref" [("id", some (Text.trim value))]).addClass
      Dialect.referenceMarker := by
  have hform : (Setting.forTarget target style).dialect.reference
      = .identity "id" Dialect.referenceMarker := by
    cases target with
    | web | weex => cases hmini
    | wx | alipay | baidu => rfl
  have hnonempty : ¬ (Text.trim value).isEmpty = true := by
    rw [String.isEmpty_iff]
    exact hname
  unfold reference at h
  rw [hvalue, hform] at h
  dsimp only at h
  rw [if_neg hnonempty] at h
  cases h
  rfl

end Adapter

/-- No pass takes the mark away. -/
theorem Pass.hasMarker (pass : Pass) {target : Target} (hmini : target.isMiniProgram = true)
    {style : Option StyleConfig} {site : Site} {attrs attrs' : Attributes} (hd : attrs.Distinct)
    (h : pass.adapter (.forTarget target style) site attrs = .ok attrs') (hpass : pass ≠ .ref)
    (hmarker : attrs.HasMarker) : attrs'.HasMarker := by
  by_cases hclasses : pass = .classes
  · subst hclasses
    have hmode : (Setting.forTarget target style).dialect.classMode = .fold :=
      (Target.replaces hmini).classMode
    change Adapter.classes _ site attrs = _ at h
    unfold Adapter.classes at h
    rw [hmode] at h
    cases h
    exact Adapter.hasMarker_foldClass _ hd hmarker
  · -- The list is written by two passes only, and no property named like it is bound.
    have hlisted : ∀ pass ∈ Pass.standard, pass ≠ .ref → pass ≠ .classes →
        "class" ∉ pass.listed target.dialect := by
      cases target with
      | web | weex => cases hmini
      | wx | alipay | baidu => decide
    have hstatic : ∀ kind ∈ Directive.kind? "class", kind.isStatic = true := by decide
    have hsame : attrs'.get? "class" = attrs.get? "class" := by
      refine (pass.agreeOn_name h fun htouches => ?_).get?_eq BEq.rfl
      rcases htouches.of_isStatic hstatic with hmem | ⟨-, -, d, hdir, harg⟩
      · exact hlisted pass pass.mem_standard hpass hclasses hmem
      · obtain ⟨-, -, -, property, harg', hne, -⟩ := Attributes.of_mem_bindings hdir
        exact hne (Option.some.inj (harg'.symm.trans harg))
    obtain ⟨list, hlist, hmem⟩ := hmarker
    exact ⟨list, hsame.trans hlist, hmem⟩

namespace AdaptedBy

variable {target : Target} {style : Option StyleConfig} {tag : String} {passes : List Pass}
  {attrs attrs' : Attributes}

theorem hasMarker (hmini : target.isMiniProgram = true)
    (h : AdaptedBy (.forTarget target style) tag passes attrs attrs') (hpasses : .ref ∉ passes)
    (hd : attrs.Distinct) (hmarker : attrs.HasMarker) : attrs'.HasMarker := by
  induction h with
  | nil => exact hmarker
  | @cons pass passes attrs attrs₁ attrs' site htag hstep hrest ih =>
      rw [List.mem_cons, not_or] at hpasses
      exact ih hpasses.2 (pass.writesOnly target.proper_dialect hd hstep).distinct
        (pass.hasMarker hmini hd hstep (Ne.symm hpasses.1) hmarker)

/-! ### The identity -/

/-- After the pass of references no pass has to do with the names that it adapts, unless the author
binds a property of that name. -/
theorem agreeOn_unbound (hmini : target.isMiniProgram = true) {name : String}
    (hname : name = "id" ∨ name = "ref")
    (h : AdaptedBy (.forTarget target style) tag
      [.model, .binding, .conditional, .iteration, .classes, .styles] attrs attrs')
    (hunbound : attrs.Unbound name) : attrs.AgreeOn (fun n => n == name) attrs' := by
  have hnot : ∀ pass ∈ [Pass.model, .binding, .conditional, .iteration, .classes, .styles],
      name ∉ pass.listed target.dialect ∧
        ∀ kind ∈ pass.removes, Directive.kind? name ≠ some kind := by
    cases target with
    | web | weex => cases hmini
    | wx | alipay | baidu => rcases hname with rfl | rfl <;> decide
  have hcut : AdaptedBy (.forTarget target style) tag ([.model] ++ .binding ::
      [.conditional, .iteration, .classes, .styles]) attrs attrs' := h
  refine hcut.agreeOn_of_bound rfl (by decide) (by decide) fun pass attrs₁ n htouches hbound hpass => ?_
  obtain ⟨hlisted, hremoves⟩ := hnot pass hpass
  rw [beq_eq_false_iff_ne]
  rintro rfl
  rcases htouches.cases with ⟨kind, hmem, -, hkind, -⟩ | ⟨hmem, -⟩ | ⟨rfl, hkeep, d, hdir, harg⟩
  · exact hremoves kind hmem hkind
  · exact hlisted hmem
  · exact hunbound d (hbound rfl hkeep ▸ hdir) harg

/-- What all passes make of a reference name. -/
theorem reference (hmini : target.isMiniProgram = true)
    (h : AdaptedBy (.forTarget target style) tag Pass.standard attrs attrs') (hd : attrs.Distinct)
    {value : String} (hvalue : attrs.get? "ref" = some value) (hname : Text.trim value ≠ "") :
    attrs'.HasMarker ∧
      (attrs.Unbound "id" → attrs'.get? "id" = some (Text.trim value)) ∧
      (attrs.Unbound "ref" → "ref" ∉ attrs'.names) := by
  have hcut : AdaptedBy (.forTarget target style) tag ([.ref] ++
      [.model, .binding, .conditional, .iteration, .classes, .styles]) attrs attrs' := h
  obtain ⟨attrs₁, hreference, hrest⟩ := hcut.of_append
  obtain ⟨site, -, hstep⟩ := hreference.of_singleton
  have hmem : "ref" ∈ attrs.names := Attributes.mem_names_of_get? hvalue
  have hone : ([("id", some (Text.trim value))].map Prod.fst).Nodup := List.nodup_singleton "id"
  have hd₁ : attrs₁.Distinct := (Pass.ref.writesOnly target.proper_dialect hd hstep).distinct
  have hd₂ : (attrs.replaceD "ref" [("id", some (Text.trim value))]).Distinct := hd.replaceD _ hone
  have hbind : attrs₁.directivesOf .bind = attrs.directivesOf .bind :=
    hreference.directivesOf_bind rfl
      (by cases target with
        | web | weex => cases hmini
        | wx | alipay | baidu => exact BindingForm.noConfusion) (by decide)
  have hunbound : ∀ {n : String}, attrs.Unbound n → attrs₁.Unbound n := by
    unfold Attributes.Unbound
    rw [hbind]
    exact fun h => h
  have hwritten := Adapter.reference_eq hmini site hvalue hname hstep
  -- Adding a class has to do with the list of classes only.
  have hadded : ∀ {n : String}, "class" ≠ n →
      (attrs.replaceD "ref" [("id", some (Text.trim value))]).AgreeOn (fun m => m == n) attrs₁ := by
    intro n hn
    rw [hwritten]
    have hclass : ("class" == n) = false := beq_eq_false_iff_ne.mpr hn
    exact Adapter.agreeOn_addClass (p := fun m => m == n) hclass (.refl _ _) _
  refine ⟨hrest.hasMarker hmini (by decide) hd₁ (hwritten ▸ Adapter.hasMarker_addClass hd₂),
    fun hid => ?_, fun href => ?_⟩
  · rw [(hrest.agreeOn_unbound hmini (.inl rfl) (hunbound hid)).get?_eq BEq.rfl,
      (hadded (by decide)).get?_eq BEq.rfl]
    refine hd₂.get?_eq ?_
    rw [hd.entries_replaceD hmem hone]
    exact Attributes.mem_flatMap_replaceEntry.mpr (.inl ⟨hmem, List.mem_singleton_self _⟩)
  · rw [(hrest.agreeOn_unbound hmini (.inr rfl) (hunbound href)).mem_names_iff BEq.rfl,
      (hadded (by decide)).mem_names_iff BEq.rfl, Attributes.mem_names_replaceD_one hd hmem]
    rintro (heq | ⟨-, hne⟩)
    · exact absurd heq (by decide)
    · exact hne rfl

end AdaptedBy

/-! ### Whole templates -/

/-- On a mini-program platform an element with a reference name that is not blank carries the class
that marks references, whatever else is on it.  The trimmed name is its identity if no property `id`
is bound on the element, and there is no attribute `ref` if no property `ref` is. -/
theorem compile_reference {source out : String} {target : Target} {style : Option StyleConfig}
    (hmini : target.isMiniProgram = true) (h : compile source target style = .ok out) :
    ∃ d₀ d', Document.parse source = .ok d₀ ∧ Document.parse out = .ok d' ∧ d₀.SameTree d' ∧
      ∀ id e value, d₀.element? id = some e → e.attrs.get? "ref" = some value →
        Text.trim value ≠ "" → ∃ e', d'.element? id = some e' ∧
          (∃ list, e'.attrs.get? "class" = some list ∧
            Dialect.referenceMarker ∈ Text.words list) ∧
          (e.attrs.Unbound "id" → e'.attrs.get? "id" = some (escapeText (Text.trim value))) ∧
          (e.attrs.Unbound "ref" → "ref" ∉ e'.attrs.names) := by
  obtain ⟨d₀, d', hparse, hparse', htree, helements⟩ := Document.elements_of_compile h
  refine ⟨d₀, d', hparse, hparse', htree, fun id e value he hvalue hname => ?_⟩
  obtain ⟨hd, attrs, hby, he'⟩ := helements id e he
  obtain ⟨⟨list, hlist, hmarker⟩, hid, href⟩ := hby.reference hmini hd hvalue hname
  refine ⟨_, he', ⟨escapeText list, ?_, ?_⟩, fun hunbound => ?_, fun hunbound => ?_⟩
  · exact (Attributes.get?_escaped attrs "class").trans (congrArg _ hlist)
  · exact (Text.mem_words_escapeText (by decide)).mpr hmarker
  · exact (Attributes.get?_escaped attrs "id").trans (congrArg _ (hid hunbound))
  · show "ref" ∉ attrs.escaped.names
    rw [Attributes.names_escaped]
    exact href hunbound

/-- A name between blanks, an identity that gives way, and a list and a binding of classes. -/
theorem compile_reference_classes :
    let source := "<view id=\"a\" class=\"b \" ref=\" n \" :class=\"c\"></view>"
    let out := "<view class=\"\x7b\x7bc\x7d\x7d b _cml_ref_lmc_  cml-base cml-view\" id=\"n\"></view>"
    compile source .wx none = .ok out ∧
      ∃ d', Document.parse out = .ok d' ∧ ∃ e', d'.element? 0 = some e' ∧
        (∃ list, e'.attrs.get? "class" = some list ∧
          Dialect.referenceMarker ∈ Text.words list) ∧
        e'.attrs.get? "id" = some "n" ∧ "ref" ∉ e'.attrs.names := by
  intro source out
  have hout : compile source .wx none = .ok out := by decide +kernel
  obtain ⟨d₀, d', hparse, hread, -, hall⟩ := compile_reference rfl hout
  have hsource : ∃ e ∈ (Document.parse source).toOption.bind (·.element? 0),
      e.attrs.get? "ref" = some " n " ∧ e.attrs.Unbound "id" ∧ e.attrs.Unbound "ref" := by
    decide +kernel
  obtain ⟨e, he, hvalue, hid, href⟩ := hsource
  rw [hparse] at he
  obtain ⟨e', he', hmarker, hidentity, hnone⟩ := hall 0 e " n " he hvalue (by decide)
  exact ⟨hout, d', hread, e', he', hmarker, (hidentity hid).trans (by decide), hnone href⟩

/-- A binding of the identity takes the place of the name, and one of `ref` is written as such. -/
theorem compile_reference_bound :
    let source := "<view ref=\"n\" :id=\"x\" :ref=\"y\"></view>"
    let out := "<view id=\"\x7b\x7bx\x7d\x7d\" ref=\"\x7b\x7by\x7d\x7d\" " ++
      "class=\"_cml_ref_lmc_ cml-base cml-view\"></view>"
    (∃ e ∈ (Document.parse source).toOption.bind (·.element? 0),
      e.attrs.get? "ref" = some "n") ∧
    compile source .wx none = .ok out ∧
    ∃ e ∈ (Document.parse out).toOption.bind (·.element? 0),
      e.attrs.get? "id" ≠ some "n" ∧ "ref" ∈ e.attrs.names := by
  decide +kernel

end TemplateCompiler
