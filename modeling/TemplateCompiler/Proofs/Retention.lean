/-
No bound expression is lost, unless two directives are written as one attribute.

The expression of a binding ends up in one attribute, and so does the key of a two-way
binding.  From the pass that writes this attribute on, every other pass has to do with it
only if it writes an attribute of the same name itself; and until then the directive stands
where the author put it.  What remains are directives that are written under one name.  Two
bindings of one property are, and so are a two-way binding and a binding of the value.  Where
bindings become attributes, a property may also have the name that a condition or a loop of
the element is given, or be named like a directive, and be taken for one.
-/
import TemplateCompiler.Proofs.Conflicts
import TemplateCompiler.Proofs.Stages

namespace TemplateCompiler

/-- The attribute that holds the value of a two-way binding. -/
def ModelForm.valueName : ModelForm → String
  | listener _ valueName => valueName
  | dataKey _ _ valueName => valueName

namespace Dialect

/-- How the platform writes an expression that is bound. -/
def expressionEncoding (δ : Dialect) : Encoding :=
  match δ.binding with
  | .keep => .raw
  | .plain encoding => encoding

/-- The attribute that a binding of a property is written as. -/
def bindingName (δ : Dialect) (d : Directive) : String :=
  match δ.binding, d.arg with
  | .plain _, some property => property
  | _, _ => d.name

/-- No binding of a property is written under the name of an attribute that another directive of
the element is written as, nor under one that is itself a directive. -/
structure WritesApart (δ : Dialect) (attrs : Attributes) : Prop where
  model : attrs.modelKey? ≠ none →
    ∀ d ∈ attrs.directivesOf .bind, δ.bindingName d ≠ δ.model.valueName
  conditional : ∀ c ∈ attrs.conditionals,
    ∀ d ∈ attrs.directivesOf .bind, δ.bindingName d ≠ δ.conditional.nameOf c.kind
  iteration : attrs.directivesOf .forEach ≠ [] →
    ∀ d ∈ attrs.directivesOf .bind, δ.bindingName d ∉ δ.iteration.names
  plainly : δ.binding ≠ .keep → attrs.BindsPlainly

instance (δ : Dialect) (attrs : Attributes) : Decidable (δ.WritesApart attrs) :=
  decidable_of_iff
    ((attrs.modelKey? ≠ none →
        ∀ d ∈ attrs.directivesOf .bind, δ.bindingName d ≠ δ.model.valueName) ∧
      (∀ c ∈ attrs.conditionals,
        ∀ d ∈ attrs.directivesOf .bind, δ.bindingName d ≠ δ.conditional.nameOf c.kind) ∧
      (attrs.directivesOf .forEach ≠ [] →
        ∀ d ∈ attrs.directivesOf .bind, δ.bindingName d ∉ δ.iteration.names) ∧
      (δ.binding ≠ .keep → attrs.BindsPlainly))
    ⟨fun h => ⟨h.1, h.2.1, h.2.2.1, h.2.2.2⟩,
      fun h => ⟨h.model, h.conditional, h.iteration, h.plainly⟩⟩

end Dialect

namespace Attributes

/-- No two binding attributes are of one property, the class and the style included. -/
def BindsApart (attrs : Attributes) : Prop :=
  ∀ x ∈ attrs.directives, ∀ y ∈ attrs.directives, x.kind.isBinding = true →
    y.kind.isBinding = true → x.arg = y.arg → x = y

instance (attrs : Attributes) : Decidable attrs.BindsApart :=
  inferInstanceAs (Decidable (∀ x ∈ attrs.directives, ∀ y ∈ attrs.directives,
    x.kind.isBinding = true → y.kind.isBinding = true → x.arg = y.arg → x = y))

/-- What a binding tells of its attribute. -/
theorem of_mem_bindings {attrs : Attributes} {d : Directive} (hd : d ∈ attrs.directivesOf .bind) :
    (d.name, d.value) ∈ attrs.entries ∧ d.name ∈ attrs.names ∧
      Directive.kind? d.name = some .bind ∧
      ∃ property, d.arg = some property ∧ property ≠ "class" ∧ property ≠ "style" := by
  obtain ⟨hmem, hkind⟩ := mem_directivesOf.mp hd
  obtain ⟨hentry, hname, hof, hk⟩ := mem_of_mem_directives hmem
  obtain ⟨property, harg, -, hclass, hstyle, -⟩ := Directive.exists_property hof hkind
  exact ⟨hentry, hname, hkind ▸ hk, property, harg, hclass, hstyle⟩

end Attributes

/-! ### Writing an attribute -/

namespace Adapter

variable {setting : Setting} {attrs attrs' : Attributes}

/-- The adapter of two-way bindings writes the attributes of the key that it finds. -/
theorem mem_entries_model (site : Site) (hδ : setting.dialect.Proper) (hd : attrs.Distinct)
    (h : model setting site attrs = .ok attrs') {key : String} (hkey : attrs.modelKey? = some key)
    {entry : Attribute} (hentry : entry ∈ setting.dialect.model.attributes key) :
    entry ∈ attrs'.entries := by
  unfold Attributes.modelKey? at hkey
  obtain ⟨d, hfound, hkey⟩ := Option.bind_eq_some_iff.mp hkey
  unfold model at h
  rw [hfound] at h
  dsimp only at h hkey
  split at hkey
  · cases hkey
  · rename_i hnonempty
    cases hkey
    rw [if_neg hnonempty] at h
    cases h
    obtain ⟨hname, -⟩ := Attributes.name_of_directive? hfound
    have hnodup :
        ((setting.dialect.model.attributes (Text.trim d.expression)).map Prod.fst).Nodup := by
      rw [ModelForm.map_fst_attributes]
      exact hδ.model
    rw [hd.entries_replaceD hname hnodup]
    exact Attributes.mem_flatMap_replaceEntry.mpr (.inl ⟨hname, hentry⟩)

/-- Bindings that are replaced one after the other are all written, if no two are of one property
and none is of a property that is named like one of them. -/
theorem mem_foldl_plainBinding (encoding : Encoding) {ds : List Directive} :
    ∀ {attrs : Attributes}, attrs.Distinct → (ds.map Directive.name).Nodup →
      (∀ d ∈ ds, d.name ∈ attrs.names) → (∀ x ∈ ds, ∀ y ∈ ds, x.arg = y.arg → x = y) →
      (∀ x ∈ ds, ∀ y ∈ ds, x.arg ≠ some y.name) →
      ∀ d ∈ ds, ∀ property, d.arg = some property →
        (property, d.value.map encoding.encode)
          ∈ (ds.foldl (plainBinding encoding) attrs).entries := by
  induction ds with
  | nil => exact fun _ _ _ _ _ d hd => absurd hd List.not_mem_nil
  | cons first ds ih =>
      intro attrs hdistinct hnodup hnames hargs hapart d hd property harg
      rw [List.map_cons, List.nodup_cons] at hnodup
      have hother : ∀ y ∈ ds, y.name ≠ first.name := fun y hy heq =>
        hnodup.1 (heq ▸ List.mem_map_of_mem hy)
      rw [List.foldl_cons]
      cases hfirst : first.arg with
      | none =>
          have hstep : plainBinding encoding attrs first = attrs := by
            unfold plainBinding
            rw [hfirst]
          have hmem : d ∈ ds := by
            refine (List.mem_cons.mp hd).resolve_left ?_
            rintro rfl
            rw [hfirst] at harg
            cases harg
          rw [hstep]
          exact ih hdistinct hnodup.2 (fun y hy => hnames y (List.mem_cons_of_mem _ hy))
            (fun x hx y hy => hargs x (List.mem_cons_of_mem _ hx) y (List.mem_cons_of_mem _ hy))
            (fun x hx y hy => hapart x (List.mem_cons_of_mem _ hx) y (List.mem_cons_of_mem _ hy))
            d hmem property harg
      | some written =>
          have hstep : plainBinding encoding attrs first
              = attrs.replaceD first.name [(written, first.value.map encoding.encode)] := by
            unfold plainBinding
            rw [hfirst]
          have hname : first.name ∈ attrs.names := hnames first List.mem_cons_self
          have hone : ([(written, first.value.map encoding.encode)].map Prod.fst).Nodup :=
            List.nodup_singleton written
          rw [hstep]
          rcases List.mem_cons.mp hd with rfl | hmem
          · -- What has been written stays, since the bindings that follow have other names and are
            -- of other properties.
            cases harg.symm.trans hfirst
            refine ((agreeOn_foldl_plainBinding (p := fun n => n == property) encoding ?_
              (.refl _ _)).mem_entries_iff (by simp)).mpr ?_
            · intro y hy
              refine ⟨?_, fun other hother => ?_⟩
              · rw [beq_eq_false_iff_ne]
                rintro rfl
                exact hapart _ List.mem_cons_self y (List.mem_cons_of_mem _ hy) harg
              · rw [beq_eq_false_iff_ne]
                rintro rfl
                have hsame := hargs _ List.mem_cons_self y (List.mem_cons_of_mem _ hy)
                  (harg.trans hother.symm)
                exact hnodup.1 (hsame ▸ List.mem_map_of_mem hy)
            · rw [hdistinct.entries_replaceD hname hone]
              exact Attributes.mem_flatMap_replaceEntry.mpr
                (.inl ⟨hname, List.mem_singleton_self _⟩)
          · exact ih (hdistinct.replaceD _ hone) hnodup.2
              (fun y hy => (Attributes.mem_names_replaceD_one hdistinct hname).mpr
                (.inr ⟨hnames y (List.mem_cons_of_mem _ hy), hother y hy⟩))
              (fun x hx y hy => hargs x (List.mem_cons_of_mem _ hx) y (List.mem_cons_of_mem _ hy))
              (fun x hx y hy => hapart x (List.mem_cons_of_mem _ hx) y (List.mem_cons_of_mem _ hy))
              d hmem property harg

/-- The adapter of bindings writes all of them, if no two are of one property. -/
theorem mem_entries_binding (site : Site) {encoding : Encoding}
    (hform : setting.dialect.binding = .plain encoding)
    (hslot : setting.dialect.showSlot = .static "style") (hd : attrs.Distinct)
    (hplain : attrs.BindsPlainly) (hargs : ∀ x ∈ attrs.directivesOf .bind,
      ∀ y ∈ attrs.directivesOf .bind, x.arg = y.arg → x = y)
    (h : binding setting site attrs = .ok attrs') {d : Directive}
    (hdir : d ∈ attrs.directivesOf .bind) {property : String} (harg : d.arg = some property) :
    (property, d.value.map encoding.encode) ∈ attrs'.entries := by
  obtain ⟨-, -, -, property', harg', -, hstyle⟩ := Attributes.of_mem_bindings hdir
  cases harg.symm.trans harg'
  -- Showing and hiding has to do with the style only.
  have hshowing : (properties setting.dialect.binding attrs).AgreeOn (fun n => n == property)
      attrs' := by
    rw [binding_eq_ok site h]
    refine agreeOn_showing _ (.refl _ _) (fun n hn => ?_) fun n hn => ?_
    · rw [beq_eq_false_iff_ne]
      rintro rfl
      rw [hplain.kind?_eq_none hdir harg] at hn
      cases hn
    · rw [hslot] at hn
      rw [beq_eq_false_iff_ne, List.mem_singleton.mp hn]
      exact hstyle.symm
  refine (hshowing.mem_entries_iff (by simp)).mpr ?_
  unfold properties
  rw [hform]
  refine mem_foldl_plainBinding encoding hd (hd.nodup_directivesOf .bind)
    (fun y hy => (Attributes.of_mem_bindings hy).2.1) hargs (fun x hx y hy hsame => ?_)
    d hdir property harg
  have hnone := hplain.kind?_eq_none hx hsame
  rw [(Attributes.of_mem_bindings hy).2.2.1] at hnone
  cases hnone

end Adapter

/-! ### Platforms that keep bindings -/

/-- Where bindings are kept, what is shown or hidden is so by a binding of the style, and a two-way
binding becomes a listener and a binding. -/
theorem Target.forms_of_keeps {target : Target} (hmini : target.isMiniProgram = false) :
    target.dialect.binding = .keep ∧ target.dialect.showSlot = .binding ":style" ∧
      target.dialect.model = .listener "v-on:input" "v-bind:value" := by
  cases target with
  | web | weex => exact ⟨rfl, rfl, rfl⟩
  | wx | alipay | baidu => cases hmini

/-- There nothing is asked of the bindings. -/
theorem Attributes.bindsPlainly_of_keeps {target : Target} (hmini : target.isMiniProgram = false)
    (attrs : Attributes) : target.isMiniProgram = true → attrs.BindsPlainly := fun h =>
  absurd (hmini.symm.trans h) Bool.false_ne_true

/-- The only pass that has to do with a binding where bindings are kept is that of two-way bindings,
which writes one. -/
theorem Target.eq_valueName_of_touches {target : Target} (hmini : target.isMiniProgram = false)
    {pass : Pass} {attrs : Attributes} {n : String} (hkind : Directive.kind? n = some .bind)
    (h : pass.Touches target.dialect attrs n) :
    pass = .model ∧ attrs.modelKey? ≠ none ∧ n = target.dialect.model.valueName := by
  obtain ⟨hkeeps, -⟩ := Target.forms_of_keeps hmini
  rcases h.cases with ⟨kind, -, -, hsome, hkeep⟩ | ⟨hlisted, hkey⟩ | ⟨-, hkeep, -⟩
  · cases hsome.symm.trans hkind
    exact absurd hkeeps (hkeep rfl)
  · have hall : ∀ m ∈ pass.listed target.dialect, Directive.kind? m = some .bind →
        pass = .model ∧ m = target.dialect.model.valueName := by
      cases target with
      | web | weex => cases pass <;> decide
      | wx | alipay | baidu => cases hmini
    obtain ⟨rfl, hvalue⟩ := hall n hlisted hkind
    exact ⟨rfl, hkey rfl, hvalue⟩
  · exact absurd hkeeps hkeep

/-- On a mini program a bound expression stands between braces, and what is shown or hidden is so
by the style. -/
theorem Target.forms_of_isMiniProgram {target : Target} (hmini : target.isMiniProgram = true) :
    target.dialect.binding = .plain .braces ∧ target.dialect.showSlot = .static "style" := by
  cases target with
  | web | weex => cases hmini
  | wx | alipay | baidu => exact ⟨rfl, rfl⟩

namespace AdaptedBy

variable {target : Target} {style : Option StyleConfig} {tag : String} {passes : List Pass}
  {attrs attrs' : Attributes}

/-- Where bindings are kept, they are kept as they are, and the key is bound like them. -/
theorem retains_keep (hmini : target.isMiniProgram = false)
    (h : AdaptedBy (.forTarget target style) tag Pass.standard attrs attrs') (hd : attrs.Distinct)
    (hapart : target.dialect.WritesApart attrs) :
    (∀ d ∈ attrs.directivesOf .bind, (d.name, d.value) ∈ attrs'.entries) ∧
      ∀ key ∈ attrs.modelKey?, (target.dialect.model.valueName, some key) ∈ attrs'.entries := by
  have hplain := attrs.bindsPlainly_of_keeps hmini
  have hcut : AdaptedBy (.forTarget target style) tag ([.ref] ++ ([.model] ++
      [.binding, .conditional, .iteration, .classes, .styles])) attrs attrs' := h
  obtain ⟨attrs₁, href, hrest⟩ := hcut.of_append
  obtain ⟨attrs₂, hmodel, hlate⟩ := hrest.of_append
  have hkey := href.modelKey?_eq hd hplain
  have hlate : ∀ {entry : Attribute}, Directive.kind? entry.1 = some .bind →
      entry ∈ attrs₂.entries → entry ∈ attrs'.entries := by
    intro entry hkind hentry
    refine (hlate.mem_entries_iff fun pass hpass attrs htouches => ?_).mpr hentry
    obtain ⟨rfl, -⟩ := Target.eq_valueName_of_touches hmini hkind htouches
    simp at hpass
  obtain ⟨site, -, hstep⟩ := hmodel.of_singleton
  refine ⟨fun d hdir => ?_, fun key hfound => ?_⟩
  · obtain ⟨hentry, -, hkind, -⟩ := Attributes.of_mem_bindings hdir
    have hentry₁ : (d.name, d.value) ∈ attrs₁.entries := by
      refine (href.mem_entries_iff fun pass hpass attrs htouches => ?_).mpr hentry
      obtain ⟨rfl, -⟩ := Target.eq_valueName_of_touches hmini hkind htouches
      simp at hpass
    have hname : target.dialect.bindingName d = d.name := by
      cases target with
      | web | weex => rfl
      | wx | alipay | baidu => cases hmini
    refine hlate hkind (((Pass.model.agreeOn_name hstep fun hn => ?_).mem_entries_iff
      BEq.rfl).mpr hentry₁)
    obtain ⟨-, hsome, hvalue⟩ := Target.eq_valueName_of_touches hmini hkind hn
    rw [hkey] at hsome
    exact hapart.model hsome d hdir (hname.trans hvalue)
  · have hkind : Directive.kind? target.dialect.model.valueName = some .bind := by
      cases target with
      | web | weex => decide
      | wx | alipay | baidu => cases hmini
    refine hlate hkind (Adapter.mem_entries_model site target.proper_dialect
      (href.plainly hd hplain).1 hstep (hkey.trans hfound) ?_)
    cases target with
    | web | weex => simp [Setting.forTarget, Target.dialect, Dialect.weex, Dialect.web,
        ModelForm.attributes, ModelForm.valueName]
    | wx | alipay | baidu => cases hmini

/-! ### Platforms that have attributes for bindings -/

/-- After the pass of bindings an attribute that is no directive is kept, unless the condition or
the loop of the element, which are still those of the author, are written under its name. -/
theorem mem_entries_late {mid : Attributes} (hmini : target.isMiniProgram = true)
    (hfront : AdaptedBy (.forTarget target style) tag [.ref, .model, .binding] attrs mid)
    (h : AdaptedBy (.forTarget target style) tag [.conditional, .iteration, .classes, .styles]
      mid attrs') (hd : attrs.Distinct) (hplain : attrs.BindsPlainly) {entry : Attribute}
    (hkind : Directive.kind? entry.1 = none)
    (hcond : ∀ c ∈ attrs.conditionals, entry.1 ≠ target.dialect.conditional.nameOf c.kind)
    (hiteration : attrs.directivesOf .forEach ≠ [] → entry.1 ∉ target.dialect.iteration.names) :
    entry ∈ attrs'.entries ↔ entry ∈ mid.entries := by
  have hdirective : ∀ {attrs : Attributes} {d : Directive}, d ∈ attrs.directives →
      entry.1 ≠ d.name := by
    intro attrs d hdir heq
    have hk := (Attributes.mem_of_mem_directives hdir).2.2.2
    rw [← heq, hkind] at hk
    cases hk
  have hcut : AdaptedBy (.forTarget target style) tag ([.conditional] ++ ([.iteration] ++
      [.classes, .styles])) mid attrs' := h
  obtain ⟨attrs₄, hconditional, hrest⟩ := hcut.of_append
  obtain ⟨attrs₅, hloop, hlate⟩ := hrest.of_append
  have hconds : mid.conditionals = attrs.conditionals :=
    hfront.conditionals_eq hd (fun _ => hplain) (by cases target <;> decide)
  have hloops : attrs₄.directivesOf .forEach = attrs.directivesOf .forEach :=
    (hfront.append hconditional).directivesOf_eq hd (fun _ => hplain)
      (by cases target <;> decide)
  have hlate : entry ∈ attrs'.entries ↔ entry ∈ attrs₅.entries := by
    refine hlate.mem_entries_iff fun pass hpass attrs htouches => ?_
    -- The attributes of classes and of styles are directives themselves.
    have hlisted : ∀ pass ∈ [Pass.classes, .styles], ∀ n ∈ pass.listed target.dialect,
        Directive.kind? n ≠ none := by
      cases target with
      | web | weex => cases hmini
      | wx | alipay | baidu => decide
    rcases htouches.of_isStatic (by rw [hkind]; simp) with hmem | ⟨rfl, -⟩
    · exact hlisted pass hpass _ hmem hkind
    · simp at hpass
  obtain ⟨site, -, hstep⟩ := hconditional.of_singleton
  obtain ⟨site', -, hstep'⟩ := hloop.of_singleton
  rw [hlate]
  refine Iff.trans
    ((Pass.iteration.agreeOn_name hstep' ?_).mem_entries_iff BEq.rfl)
    ((Pass.conditional.agreeOn_name hstep ?_).mem_entries_iff BEq.rfl)
  · rintro ⟨-, d, hdir, hname | hmem⟩
    · exact hdirective (Attributes.mem_directivesOf.mp hdir).1 hname
    · exact hiteration (hloops ▸ List.ne_nil_of_mem hdir) hmem
  · rintro ⟨c, hc, hname | hname⟩
    · exact hdirective (Attributes.mem_conditionals.mp hc).1 hname
    · exact hcond c (hconds ▸ hc) hname

/-- The attribute of the value is written by the pass of two-way bindings alone. -/
theorem valueName_apart (hmini : target.isMiniProgram = true) :
    Directive.kind? target.dialect.model.valueName = none ∧
      target.dialect.model.valueName ∉ target.dialect.conditional.names ∧
      target.dialect.model.valueName ∉ target.dialect.iteration.names ∧
      target.dialect.model.valueName ∉ target.dialect.showSlot.names := by
  cases target with
  | web | weex => cases hmini
  | wx | alipay | baidu => decide

/-- Where bindings become attributes, each is written under the name of its property. -/
theorem retains_plain (hmini : target.isMiniProgram = true)
    (h : AdaptedBy (.forTarget target style) tag Pass.standard attrs attrs') (hd : attrs.Distinct)
    (hargs : attrs.BindsApart) (hapart : target.dialect.WritesApart attrs) {d : Directive}
    (hdir : d ∈ attrs.directivesOf .bind) {property : String} (harg : d.arg = some property) :
    (property, d.value.map Encoding.braces.encode) ∈ attrs'.entries := by
  obtain ⟨hform, hslot⟩ := Target.forms_of_isMiniProgram hmini
  have hplain := hapart.plainly (by rw [hform]; exact BindingForm.noConfusion)
  have hwritten : target.dialect.bindingName d = property := by
    unfold Dialect.bindingName
    rw [hform, harg]
  have hcut : AdaptedBy (.forTarget target style) tag ([.ref, .model] ++ ([.binding] ++
      [.conditional, .iteration, .classes, .styles])) attrs attrs' := h
  obtain ⟨attrs₂, hfront, hrest⟩ := hcut.of_append
  obtain ⟨attrs₃, hbinding, hlate⟩ := hrest.of_append
  obtain ⟨hd₂, hplain₂⟩ := hfront.plainly hd fun _ => hplain
  -- What the pass of bindings looks for is what the author wrote.
  have hbinds := hfront.bindings_eq hmini hd hplain
  obtain ⟨site, -, hstep⟩ := hbinding.of_singleton
  refine (mem_entries_late hmini (hfront.append hbinding) hlate hd hplain
    (hplain.kind?_eq_none hdir harg) (fun c hc heq => ?_) fun hne hmem => ?_).mpr ?_
  · exact hapart.conditional c hc d hdir (hwritten.trans heq)
  · exact hapart.iteration hne d hdir (hwritten ▸ hmem)
  · refine Adapter.mem_entries_binding site hform hslot hd₂ (hplain₂ hmini) ?_ hstep
      (hbinds ▸ hdir) harg
    rw [hbinds]
    intro x hx y hy hsame
    obtain ⟨hx, hxkind⟩ := Attributes.mem_directivesOf.mp hx
    obtain ⟨hy, hykind⟩ := Attributes.mem_directivesOf.mp hy
    exact hargs x hx y hy (by rw [hxkind]; rfl) (by rw [hykind]; rfl) hsame

/-- Where bindings become attributes, the key of the two-way binding is written between braces. -/
theorem retains_key (hmini : target.isMiniProgram = true)
    (h : AdaptedBy (.forTarget target style) tag Pass.standard attrs attrs') (hd : attrs.Distinct)
    (hapart : target.dialect.WritesApart attrs) {key : String}
    (hfound : attrs.modelKey? = some key) :
    (target.dialect.model.valueName, some (Encoding.braces.encode key)) ∈ attrs'.entries := by
  obtain ⟨hform, -⟩ := Target.forms_of_isMiniProgram hmini
  obtain ⟨hkind, hcond, hiteration, hshow⟩ := valueName_apart hmini
  have hplain := hapart.plainly (by rw [hform]; exact BindingForm.noConfusion)
  have hcut : AdaptedBy (.forTarget target style) tag ([.ref] ++ ([.model] ++ ([.binding] ++
      [.conditional, .iteration, .classes, .styles]))) attrs attrs' := h
  obtain ⟨attrs₁, href, hrest⟩ := hcut.of_append
  obtain ⟨attrs₂, hmodel, hrest⟩ := hrest.of_append
  obtain ⟨attrs₃, hbinding, hlate⟩ := hrest.of_append
  have hkey := href.modelKey?_eq hd fun _ => hplain
  have hbinds := (href.append hmodel).bindings_eq hmini hd hplain
  obtain ⟨site, -, hstep⟩ := hmodel.of_singleton
  obtain ⟨site', -, hstep'⟩ := hbinding.of_singleton
  have hentry : (target.dialect.model.valueName, some (Encoding.braces.encode key))
      ∈ target.dialect.model.attributes key := by
    cases target with
    | web | weex => cases hmini
    | wx | alipay | baidu => exact .tail _ (.tail _ (.head _))
  have hwritten := Adapter.mem_entries_model site target.proper_dialect
    (href.plainly hd fun _ => hplain).1 hstep (hkey.trans hfound) hentry
  refine (mem_entries_late hmini (href.append (hmodel.append hbinding)) hlate hd hplain hkind
    (fun c _ heq => ?_) fun _ => hiteration).mpr ?_
  · change target.dialect.model.valueName = _ at heq
    rw [heq] at hcond
    exact hcond (target.dialect.conditional.nameOf_mem c.kind)
  · refine ((Pass.binding.agreeOn_name hstep' fun hn => ?_).mem_entries_iff BEq.rfl).mpr hwritten
    rcases hn.of_isStatic (by rw [hkind]; simp) with hmem | ⟨-, -, d, hdir, harg⟩
    · exact hshow hmem
    · rw [hbinds] at hdir
      refine hapart.model (by rw [hfound]; simp) d hdir ?_
      unfold Dialect.bindingName
      rw [hform, harg]

/-- Every binding and the key of the two-way binding are written, each under its name and in the
encoding of the platform. -/
theorem retains (h : AdaptedBy (.forTarget target style) tag Pass.standard attrs attrs')
    (hd : attrs.Distinct) (hargs : attrs.BindsApart) (hapart : target.dialect.WritesApart attrs) :
    (∀ d ∈ attrs.directivesOf .bind, (target.dialect.bindingName d,
        d.value.map target.dialect.expressionEncoding.encode) ∈ attrs'.entries) ∧
      ∀ key ∈ attrs.modelKey?, (target.dialect.model.valueName,
        some (target.dialect.expressionEncoding.encode key)) ∈ attrs'.entries := by
  by_cases hmini : target.isMiniProgram = true
  · obtain ⟨hform, -⟩ := Target.forms_of_isMiniProgram hmini
    have hencoding : target.dialect.expressionEncoding = .braces := by
      cases target with
      | web | weex => cases hmini
      | wx | alipay | baidu => rfl
    rw [hencoding]
    refine ⟨fun d hdir => ?_, fun key hfound => h.retains_key hmini hd hapart hfound⟩
    obtain ⟨-, -, -, property, harg, -⟩ := Attributes.of_mem_bindings hdir
    have hname : target.dialect.bindingName d = property := by
      unfold Dialect.bindingName
      rw [hform, harg]
    rw [hname]
    exact h.retains_plain hmini hd hargs hapart hdir harg
  · rw [Bool.not_eq_true] at hmini
    obtain ⟨hbinds, hkey⟩ := h.retains_keep hmini hd hapart
    obtain ⟨hname, hencoding⟩ : (∀ d, target.dialect.bindingName d = d.name) ∧
        target.dialect.expressionEncoding = .raw := by
      cases target with
      | web | weex => exact ⟨fun _ => rfl, rfl⟩
      | wx | alipay | baidu => cases hmini
    rw [hencoding]
    refine ⟨fun d hdir => ?_, hkey⟩
    rw [hname, show d.value.map Encoding.raw.encode = d.value from Option.map_id']
    exact hbinds d hdir

end AdaptedBy

/-- No bound expression is lost, unless two directives are written as one attribute.  What is
compiled is parsed to the tree of the source, and on every element without two bindings of one
property every binding of a property has become an attribute of the expression as the platform
writes it, and so has the key of the two-way binding.  The names under which the bindings are
written must not be taken by the two-way binding, the condition or the loop of the element, or,
where bindings become attributes, look like a directive. -/
theorem compile_bindings {source out : String} {target : Target} {style : Option StyleConfig}
    (h : compile source target style = .ok out) :
    ∃ d₀ d', Document.parse source = .ok d₀ ∧ Document.parse out = .ok d' ∧ d₀.SameTree d' ∧
      ∀ id e, d₀.element? id = some e → e.attrs.BindsApart → target.dialect.WritesApart e.attrs →
        ∃ e', d'.element? id = some e' ∧
          (∀ d ∈ e.attrs.directivesOf .bind, (target.dialect.bindingName d,
            (d.value.map target.dialect.expressionEncoding.encode).map escapeText)
              ∈ e'.attrs.entries) ∧
          ∀ key ∈ e.attrs.modelKey?, (target.dialect.model.valueName,
            some (escapeText (target.dialect.expressionEncoding.encode key))) ∈ e'.attrs.entries := by
  obtain ⟨d₀, d₁, hparse, hadapt, rfl⟩ := Document.compile_eq_ok h
  obtain ⟨d', hparse', hadapted⟩ := Document.adapted_of_parse hparse hadapt
  refine ⟨d₀, d', hparse, hparse', hadapted.tree.trans hadapted.reread, ?_⟩
  intro id e he hargs hapart
  obtain ⟨attrs, hby, hnow⟩ := hadapted.element id e he
  obtain ⟨hbinds, hkey⟩ :=
    hby.retains ((Document.built_of_parse hparse).distinct id e he) hargs hapart
  have hescaped : ∀ {name : String} {value : Option String}, (name, value) ∈ attrs.entries →
      (name, value.map escapeText) ∈ attrs.escaped.entries := fun hmem =>
    List.mem_map_of_mem (f := Attribute.escaped) hmem
  refine ⟨Element.escaped { e with attrs }, ?_, fun d hdir => ?_, fun key hfound => ?_⟩
  · rw [hadapted.escaped, hnow]
    rfl
  · exact hescaped (hbinds d hdir)
  · exact hescaped (hkey key hfound)

/-- A binding in each spelling and a two-way binding beside a condition. -/
theorem compile_bindings_input :
    let source := "<input v-if=\"c\" :a.sync='\"x\"' v-model=\" k \" v-bind:b=\"y\" />"
    let out := "<input wx:if=\"\x7b\x7bc\x7d\x7d\" a=\"\x7b\x7b&quot;x&quot;\x7d\x7d\" data-modelkey=\"k\" " ++
      "bindinput=\"_cmlModelEventProxy\" value=\"\x7b\x7bk\x7d\x7d\" b=\"\x7b\x7by\x7d\x7d\" " ++
      "class=\" cml-base cml-input\" />"
    compile source .wx none = .ok out ∧ ∃ d', Document.parse out = .ok d' ∧
      ∃ e', d'.element? 0 = some e' ∧
        ("a", some "\x7b\x7b&quot;x&quot;\x7d\x7d") ∈ e'.attrs.entries ∧
        ("b", some "\x7b\x7by\x7d\x7d") ∈ e'.attrs.entries ∧
        ("value", some "\x7b\x7bk\x7d\x7d") ∈ e'.attrs.entries := by
  intro source out
  let x : Directive := ⟨.bind, ":a.sync", some "a", ["sync"], some "\"x\""⟩
  let y : Directive := ⟨.bind, "v-bind:b", some "b", [], some "y"⟩
  have hout : compile source .wx none = .ok out := by decide +kernel
  obtain ⟨d₀, d', hparse, hread, -, hall⟩ := compile_bindings hout
  have hsource : ∃ e ∈ (Document.parse source).toOption.bind (·.element? 0), e.attrs.BindsApart ∧
      Dialect.wx.WritesApart e.attrs ∧ x ∈ e.attrs.directivesOf .bind ∧
      y ∈ e.attrs.directivesOf .bind ∧ e.attrs.modelKey? = some "k" := by decide +kernel
  obtain ⟨e, he, hargs, hapart, hx, hy, hkey⟩ := hsource
  rw [hparse] at he
  obtain ⟨e', he', hbinds, hmodel⟩ := hall 0 e he hargs hapart
  exact ⟨hout, d', hread, e', he', hbinds x hx, hbinds y hy, hmodel "k" hkey⟩

/-- A two-way binding and a binding of the value, one of which is lost where bindings are kept. -/
theorem compile_bindings_value :
    let source := "<input v-model=\"a\" v-bind:value=\"b\" />"
    let out := "<input v-on:input=\"_cmlModelEventProxy($event,'a')\" v-bind:value=\"a\" " ++
      "class=\" cml-base cml-input\" />"
    (∃ e ∈ (Document.parse source).toOption.bind (·.element? 0), e.attrs.BindsApart ∧
      (⟨.bind, "v-bind:value", some "value", [], some "b"⟩ : Directive)
        ∈ e.attrs.directivesOf .bind) ∧
    compile source .web none = .ok out ∧
    ∃ e ∈ (Document.parse out).toOption.bind (·.element? 0),
      ∀ attr ∈ e.attrs.entries, attr.2 ≠ some "b" := by
  decide +kernel

end TemplateCompiler
