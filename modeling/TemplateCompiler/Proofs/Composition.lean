/-
All passes together translate attribute by attribute.

On an element whose class and style nobody touches, and on which a two-way binding and a
loop occur once at most, the passes do not get in each other's way.  What one of them
writes is no directive, or one that is kept, so no later pass takes it up; and a later
pass finds the directives of its own kind where and as they stood in the source.  So the
rewritings of a stage are those that the source gives, whatever the earlier stages have
done, and this is carried from pass to pass.  What remains of all stages is `settle`.

The class comes last.  It is the base classes of the element, after the class that marks
a reference.
-/
import TemplateCompiler.Proofs.Skeleton
import TemplateCompiler.Proofs.Stages

namespace TemplateCompiler

/-- The kinds of directives that are merged with other attributes. -/
def DirectiveKind.merged : List DirectiveKind :=
  [.showIf, .staticClass, .classBinding, .staticStyle, .styleBinding]

/-- Attributes of this name are not merged with others. -/
def Directive.Unmerged (name : String) : Prop :=
  ∀ kind, kind? name = some kind → kind ∉ DirectiveKind.merged

/-- What is asked of an element for its attributes to be translated one by one: it has no class, no
style and nothing that is made into one of them, a two-way binding and a loop occur once at most,
and no binding is of a property that looks like a directive. -/
structure Attributes.Translatable (attrs : Attributes) : Prop where
  unmerged : ∀ kind ∈ DirectiveKind.merged, attrs.directivesOf kind = []
  model : (attrs.directivesOf .model).length ≤ 1
  loop : (attrs.directivesOf .forEach).length ≤ 1
  plainly : attrs.BindsPlainly

instance (attrs : Attributes) : Decidable attrs.Translatable :=
  decidable_of_iff ((∀ kind ∈ DirectiveKind.merged, attrs.directivesOf kind = []) ∧
      (attrs.directivesOf .model).length ≤ 1 ∧ (attrs.directivesOf .forEach).length ≤ 1 ∧
      attrs.BindsPlainly)
    ⟨fun ⟨unmerged, model, loop, plainly⟩ => ⟨unmerged, model, loop, plainly⟩,
      fun h => ⟨h.unmerged, h.model, h.loop, h.plainly⟩⟩

namespace Dialect

/-- The class of an element without a class of its own. -/
def classList (δ : Dialect) (tag : String) (attrs : Attributes) : String :=
  (δ.marker? attrs).getD "" ++ " " ++ baseClasses tag

/-- The attributes of an element, translated one by one, and its class. -/
def translated (δ : Dialect) (tag : String) (attrs : Attributes) : Attributes :=
  ⟨δ.settle [] attrs.entries ++ [("class", some (δ.classList tag attrs))]⟩

/-! ### Dialects whose names stay apart -/

/-- What the dialect writes is no directive, or one that it leaves alone, or, for a condition, a
condition of the same kind. -/
structure Tidy (δ : Dialect) : Prop where
  reference : ∀ n ∈ δ.reference.names, Directive.kind? n = none
  model : ∀ n ∈ δ.model.names, Directive.kind? n = none ∨
    (Directive.kind? n = some .bind ∧ δ.binding = .keep)
  conditional : ∀ kind : DirectiveKind, kind.isConditional = true →
    Directive.kind? (δ.conditional.nameOf kind) = none ∨
      Directive.kind? (δ.conditional.nameOf kind) = some kind
  iteration : ∀ n ∈ δ.iteration.names, Directive.kind? n = none
  marker : ∀ idName marker, δ.reference = .identity idName marker →
    baseClass ∉ Text.words marker

end Dialect

theorem Target.tidy_dialect (target : Target) : target.dialect.Tidy where
  reference := by cases target <;> decide
  model := by cases target <;> decide
  conditional := by
    intro kind hkind
    cases kind with
    | ifCond | elseIf | otherwise => cases target <;> decide
    | _ => cases hkind
  iteration := by cases target <;> decide
  marker := by
    intro idName marker hform
    cases target <;> cases hform <;> decide

namespace Dialect

variable {δ : Dialect} {attrs : Attributes}

/-- The class that marks a reference is no base class. -/
theorem Tidy.base_not_mem_marker (hδ : δ.Tidy) (attrs : Attributes) :
    baseClass ∉ Text.words ((δ.marker? attrs).getD "") := by
  unfold marker?
  split
  · rename_i idName marker d hform hfound
    split
    · decide
    · exact hδ.marker idName marker hform
  · decide

/-- The names that a directive is written as. -/
theorem mem_translateDirective {d : Directive} {x : Attribute} (hx : x ∈ δ.translateDirective d) :
    x = d.attribute ∨ x.1 ∈ δ.reference.names ∨ x.1 ∈ δ.model.names ∨ x.1 ∈ δ.iteration.names ∨
      (d.kind = .bind ∧ d.arg = some x.1) ∨
      (d.kind.isConditional = true ∧ x.1 = δ.conditional.nameOf d.kind) := by
  unfold translateDirective at hx
  cases hkind : d.kind with
  | ref =>
      rw [hkind] at hx
      dsimp only at hx
      refine Or.inr (Or.inl ?_)
      split at hx
      · exact absurd hx List.not_mem_nil
      · rename_i idName marker hform
        split at hx
        · exact absurd hx List.not_mem_nil
        · rw [hform, List.mem_singleton.mp hx]
          exact List.mem_singleton_self idName
  | model =>
      rw [hkind] at hx
      dsimp only at hx
      refine Or.inr (Or.inr (Or.inl ?_))
      split at hx
      · exact absurd hx List.not_mem_nil
      · rw [← ModelForm.map_fst_attributes]
        exact List.mem_map_of_mem hx
  | bind =>
      rw [hkind] at hx
      dsimp only at hx
      split at hx
      · rename_i harg
        rw [List.mem_singleton.mp hx]
        exact Or.inr (Or.inr (Or.inr (Or.inr (Or.inl ⟨rfl, harg⟩))))
      · exact Or.inl (List.mem_singleton.mp hx)
  | ifCond | elseIf | otherwise =>
      rw [hkind] at hx
      rw [List.mem_singleton.mp hx]
      exact Or.inr (Or.inr (Or.inr (Or.inr (Or.inr ⟨rfl, rfl⟩))))
  | forEach =>
      rw [hkind] at hx
      dsimp only at hx
      split at hx
      · rename_i itemName indexName sourceName encoding it hform hparse
        refine Or.inr (Or.inr (Or.inr (Or.inl ?_)))
        rw [hform]
        exact List.mem_map_of_mem (f := Prod.fst) hx
      · exact Or.inl (List.mem_singleton.mp hx)
  | _ =>
      rw [hkind] at hx
      exact Or.inl (List.mem_singleton.mp hx)

/-- What an attribute is written as. -/
theorem Tidy.mem_translate (hδ : δ.Tidy) (hplain : attrs.BindsPlainly) {a x : Attribute}
    (ha : a ∈ attrs.entries) (hx : x ∈ δ.translate a) :
    x = a ∨ Directive.kind? x.1 = none ∨ (Directive.kind? x.1 = some .bind ∧ δ.binding = .keep) ∨
      ∃ kind, kind.isConditional = true ∧ Directive.kind? a.1 = some kind ∧
        Directive.kind? x.1 = some kind := by
  unfold translate at hx
  cases hd : Directive.ofAttribute? a with
  | none =>
      rw [hd] at hx
      exact Or.inl (List.mem_singleton.mp hx)
  | some d =>
      rw [hd] at hx
      have hdir : d ∈ attrs.directives := Attributes.mem_directives.mpr ⟨a, ha, hd⟩
      have hself : d.attribute = a := Directive.attribute_eq hd
      have hkind : Directive.kind? a.1 = some d.kind := Directive.kind?_eq hd
      rcases mem_translateDirective hx with rfl | hname | hname | hname | ⟨hk, harg⟩ | ⟨hk, hname⟩
      · exact Or.inl hself
      · exact Or.inr (Or.inl (hδ.reference x.1 hname))
      · rcases hδ.model x.1 hname with hnone | hbind
        · exact Or.inr (Or.inl hnone)
        · exact Or.inr (Or.inr (Or.inl hbind))
      · exact Or.inr (Or.inl (hδ.iteration x.1 hname))
      · have hbind : d ∈ attrs.directivesOf .bind := Attributes.mem_directivesOf.mpr ⟨hdir, hk⟩
        exact Or.inr (Or.inl (hplain.kind?_eq_none hbind harg))
      · have hcase := hδ.conditional d.kind hk
        rw [← hname] at hcase
        rcases hcase with hnone | hsame
        · exact Or.inr (Or.inl hnone)
        · exact Or.inr (Or.inr (Or.inr ⟨d.kind, hk, hkind, hsame⟩))

/-- What one attribute is written as is not mistaken for another. -/
theorem Tidy.orderly (hδ : δ.Tidy) (hd : attrs.Distinct) (hplain : attrs.BindsPlainly) :
    δ.Orderly attrs.entries where
  distinct := hd
  fresh := by
    intro a ha b hb hne hstage hboth x hx hname
    rcases hδ.mem_translate hplain ha hx with rfl | hnone | ⟨hbind, hkeep⟩ | ⟨kind, hc, hka, hkx⟩
    · exact hne hname
    · rw [hname] at hnone
      exact hstage (stage_of_kind?_eq_none hnone)
    · rw [hname] at hbind
      rw [stage_of_kind? hbind] at hstage
      exact hstage (if_pos hkeep)
    · rw [hname] at hkx
      rw [stage_of_kind? hka, stage_of_kind? hkx, stageOf_eq_four.mpr hc] at hboth
      exact hboth.elim (fun h => h rfl) fun h => h rfl
  stays := by
    intro a ha x hx
    rcases hδ.mem_translate hplain ha hx with rfl | hnone | ⟨hbind, hkeep⟩ | ⟨kind, -, hka, hkx⟩
    · exact Or.inr rfl
    · exact Or.inl (stage_of_kind?_eq_none hnone)
    · rw [stage_of_kind? hbind]
      exact Or.inl (if_pos hkeep)
    · rw [stage_of_kind? hka, stage_of_kind? hkx]
      exact Or.inr rfl

end Dialect

namespace Attributes.Translatable

variable {δ : Dialect} {attrs : Attributes}

theorem unmerged_of_mem (h : attrs.Translatable) {n : String} (hn : n ∈ attrs.names) :
    Directive.Unmerged n := by
  intro kind hkind hmerged
  obtain ⟨d, hd, -, hdkind⟩ := exists_directive_of_mem_names hn hkind
  have hmem : d ∈ attrs.directivesOf kind := mem_directivesOf.mpr ⟨hd, hdkind⟩
  rw [h.unmerged kind hmerged] at hmem
  exact absurd hmem List.not_mem_nil

/-- Nothing is written that is merged with other attributes. -/
theorem unmerged_translate (h : attrs.Translatable) (hδ : δ.Tidy) {a x : Attribute}
    (ha : a ∈ attrs.entries) (hx : x ∈ δ.translate a) : Directive.Unmerged x.1 := by
  rcases hδ.mem_translate h.plainly ha hx with rfl | hnone | ⟨hbind, -⟩ | ⟨kind, hc, -, hkx⟩
  · exact h.unmerged_of_mem (List.mem_map_of_mem ha)
  · intro kind hkind
    rw [hnone] at hkind
    cases hkind
  · intro kind hkind
    cases hbind.symm.trans hkind
    decide
  · intro kind' hkind
    cases hkx.symm.trans hkind
    cases kind with
    | ifCond | elseIf | otherwise => decide
    | _ => cases hc

/-- Nor do several rewritings bring such an attribute in. -/
theorem unmerged_all (h : attrs.Translatable) (hδ : δ.Tidy) {ks : List Nat} {x : Attribute}
    (hx : x ∈ Rewriting.all (δ.rewritingsOf attrs.entries ks) attrs.entries) :
    Directive.Unmerged x.1 := by
  rcases Rewriting.mem_of_mem_all hx with hold | ⟨r, hr, hnew⟩
  · exact h.unmerged_of_mem (List.mem_map_of_mem hold)
  · obtain ⟨a, ha, -, rfl⟩ := Dialect.mem_rewritingsOf.mp hr
    exact h.unmerged_translate hδ ha hnew

/-- Beside the class at the end nothing is merged with other attributes. -/
theorem directivesOf_merged (h : attrs.Translatable) (hδ : δ.Tidy) {now : Attributes}
    {ks : List Nat} {list : Option String}
    (hentries : now.entries
      = Rewriting.all (δ.rewritingsOf attrs.entries ks) attrs.entries ++ classEntry list)
    {kind : DirectiveKind} (hkind : kind ∈ DirectiveKind.merged) (hclass : kind ≠ .staticClass) :
    now.directivesOf kind = [] := by
  rw [List.eq_nil_iff_forall_not_mem]
  intro d hd
  obtain ⟨hdir, hdkind⟩ := mem_directivesOf.mp hd
  obtain ⟨hentry, -, -, hk⟩ := mem_of_mem_directives hdir
  rw [hdkind] at hk
  rw [hentries] at hentry
  rcases List.mem_append.mp hentry with hall | hlast
  · exact h.unmerged_all hδ hall kind hk hkind
  · have hname : d.name = "class" := fst_of_mem_classEntry hlast
    have hstatic : Directive.kind? "class" = some .staticClass := by decide
    rw [hname, hstatic] at hk
    exact hclass (Option.some.inj hk).symm

end Attributes.Translatable

theorem Directive.Unmerged.ne_class {n : String} (h : Unmerged n) : n ≠ "class" := by
  rintro rfl
  exact h .staticClass (by decide) (by decide)

/-! ### From pass to pass -/

namespace Dialect

/-- A map whose attributes the dialect translates one by one. -/
structure Composable (δ : Dialect) (attrs : Attributes) : Prop where
  tidy : δ.Tidy
  proper : δ.Proper
  distinct : attrs.Distinct
  translatable : attrs.Translatable

/-- After the passes of some stages an element carries the entries that their rewritings make, and
at the end the class that marks a reference. -/
structure Reached (δ : Dialect) (attrs : Attributes) (ks : List Nat) (now : Attributes) : Prop where
  distinct : now.Distinct
  entries : now.entries = Rewriting.all (δ.rewritingsOf attrs.entries ks) attrs.entries
    ++ classEntry (δ.marker? attrs)

theorem Composable.orderly {δ : Dialect} {attrs : Attributes} (h : δ.Composable attrs) :
    δ.Orderly attrs.entries := h.tidy.orderly h.distinct h.translatable.plainly

namespace Reached

section

variable {δ : Dialect} {attrs now now' : Attributes} {ks : List Nat} {j : Nat}

/-- Later directives are found as the source has them. -/
theorem rewritings (h : δ.Reached attrs ks now) (hc : δ.Composable attrs)
    (hks : ∀ k ∈ ks, 1 ≤ k ∧ k < j) (hj : j ≠ 0) :
    δ.rewritings now.entries j = δ.rewritings attrs.entries j := by
  have hclass : (classEntry (δ.marker? attrs)).filter (fun attr => δ.stage attr = j) = [] := by
    rw [List.filter_eq_nil_iff]
    intro x hx
    have hkind : Directive.kind? x.1 = some .staticClass := by
      rw [fst_of_mem_classEntry hx]
      decide
    rw [stage_of_kind? hkind, decide_eq_true_eq]
    exact hj.symm
  unfold Dialect.rewritings
  rw [h.entries, List.filter_append, hc.orderly.filter_stage hks, hclass, List.append_nil]

/-- Later directives are as many as in the source. -/
theorem length_directivesOf (h : δ.Reached attrs ks now) (hc : δ.Composable attrs)
    (hks : ∀ k ∈ ks, 1 ≤ k ∧ k < j) (hj : j ≠ 0) {kind : DirectiveKind}
    (hkind : ∀ kind', δ.stageOf kind' = j ↔ kind' = kind) :
    (now.directivesOf kind).length = (attrs.directivesOf kind).length := by
  have hsame := congrArg List.length (h.rewritings hc hks hj)
  rw [rewritings_of_kind hj hkind, rewritings_of_kind hj hkind, List.length_map,
    List.length_map] at hsame
  exact hsame

/-- The class that marks a reference is not touched. -/
theorem all_classEntry (hc : δ.Composable attrs) (list : Option String) :
    Rewriting.all (δ.rewritings attrs.entries j) (classEntry list) = classEntry list := by
  cases list with
  | none => exact Rewriting.all_nil_right _
  | some list =>
      refine Rewriting.all_singleton_of_ne ?_ ?_
      · intro r hr
        obtain ⟨a, ha, -, rfl⟩ := mem_rewritings.mp hr
        exact (hc.translatable.unmerged_of_mem (List.mem_map_of_mem ha)).ne_class.symm
      · intro r hr
        obtain ⟨a, ha, -, rfl⟩ := mem_rewritings.mp hr
        refine Orderly.writes_eq_false ?_
        intro x hx
        exact (hc.translatable.unmerged_translate hc.tidy ha hx).ne_class

/-- A pass that does what the rewritings of its stage do. -/
theorem step (h : δ.Reached attrs ks now) (hc : δ.Composable attrs)
    (hks : ∀ k ∈ ks, 1 ≤ k ∧ k < j) (hj : j ≠ 0) (hd : now'.Distinct)
    (hpass : now'.entries = Rewriting.all (δ.rewritings now.entries j) now.entries) :
    δ.Reached attrs (ks ++ [j]) now' := by
  refine ⟨hd, ?_⟩
  have hsequence : δ.rewritingsOf attrs.entries (ks ++ [j])
      = δ.rewritingsOf attrs.entries ks ++ δ.rewritings attrs.entries j := by
    unfold rewritingsOf
    rw [List.flatMap_append, List.flatMap_singleton]
  rw [hpass, h.rewritings hc hks hj, h.entries, Rewriting.all_append_right, all_classEntry hc,
    hsequence, Rewriting.all_append]

end

variable {setting : Setting} {site : Site} {attrs now now' : Attributes}

theorem reference (hc : setting.dialect.Composable attrs)
    (hpass : Pass.ref.adapter setting site attrs = .ok now) :
    setting.dialect.Reached attrs [1] now := by
  have hsequence : setting.dialect.rewritingsOf attrs.entries [1]
      = setting.dialect.rewritings attrs.entries 1 := List.flatMap_singleton ..
  refine ⟨(Adapter.writesOnly_reference site hc.distinct hpass).distinct, ?_⟩
  rw [hsequence]
  refine Adapter.entries_reference site hc.proper hc.distinct ?_ hpass
  intro x hx
  rw [← hsequence] at hx
  exact (hc.translatable.unmerged_all hc.tidy hx).ne_class

theorem model (h : setting.dialect.Reached attrs [1] now) (hc : setting.dialect.Composable attrs)
    (hpass : Pass.model.adapter setting site now = .ok now') :
    setting.dialect.Reached attrs [1, 2] now' := by
  have hone := h.length_directivesOf hc (by decide) (by decide) fun _ => stageOf_eq_two
  refine h.step hc (by decide) (by decide) ?_ ?_
  · exact (Adapter.writesOnly_model site hc.proper h.distinct hpass).distinct
  · refine Adapter.entries_model site hc.proper h.distinct ?_ hpass
    rw [hone]
    exact hc.translatable.model

theorem binding (h : setting.dialect.Reached attrs [1, 2] now)
    (hc : setting.dialect.Composable attrs)
    (hpass : Pass.binding.adapter setting site now = .ok now') :
    setting.dialect.Reached attrs [1, 2, 3] now' := by
  have hproperties : setting.dialect.Reached attrs [1, 2, 3]
      (Adapter.properties setting.dialect.binding now) := by
    refine h.step hc (by decide) (by decide) ?_ (Adapter.entries_properties hc.proper h.distinct)
    exact (Adapter.writesOnly_properties h.distinct).distinct
  change Adapter.binding setting site now = .ok now' at hpass
  unfold Adapter.binding at hpass
  split at hpass
  · cases hpass
  · cases hpass
    rw [Adapter.showing_eq]
    · exact hproperties
    · exact hc.translatable.directivesOf_merged hc.tidy hproperties.entries (by decide) (by decide)

/-- Where an element with two conditions is an error, it has one at most. -/
theorem conditional (h : setting.dialect.Reached attrs [1, 2, 3] now)
    (hc : setting.dialect.Composable attrs)
    (hpass : Pass.conditional.adapter setting site now = .ok now') :
    (attrs.entries.filter fun attr => setting.dialect.stage attr = 4).length ≤ 1 ∧
      setting.dialect.Reached attrs [1, 2, 3, 4] now' := by
  obtain ⟨hone, hentries⟩ := Adapter.entries_conditional site hc.proper h.distinct hpass
  rw [h.rewritings hc (by decide) (by decide)] at hone
  refine ⟨?_, h.step hc (by decide) (by decide) ?_ hentries⟩
  · unfold Dialect.rewritings at hone
    rw [List.length_map] at hone
    exact hone
  · exact (Adapter.writesOnly_conditional site h.distinct hpass).distinct

theorem iteration (h : setting.dialect.Reached attrs [1, 2, 3, 4] now)
    (hc : setting.dialect.Composable attrs)
    (hpass : Pass.iteration.adapter setting site now = .ok now') :
    setting.dialect.Reached attrs stages now' := by
  refine h.step hc (by decide) (by decide) ?_ ?_
  · exact (Adapter.writesOnly_iteration site hc.proper h.distinct hpass).distinct
  · refine Adapter.entries_iteration site hc.proper h.distinct ?_ hpass
    intro hsplit
    rw [h.length_directivesOf hc (by decide) (by decide) fun _ => stageOf_eq_five hsplit]
    exact hc.translatable.loop

end Reached

end Dialect

namespace AdaptedBy

variable {setting : Setting} {tag : String} {attrs attrs' : Attributes}

/-- All passes together translate the attributes one by one. -/
theorem eq_translated (hc : setting.dialect.Composable attrs)
    (h : AdaptedBy setting tag Pass.standard attrs attrs') :
    attrs' = setting.dialect.translated tag attrs := by
  rcases h with _ | ⟨_, -, hreference, h⟩
  rcases h with _ | ⟨_, -, hmodel, h⟩
  rcases h with _ | ⟨_, -, hbinding, h⟩
  rcases h with _ | ⟨_, -, hconditional, h⟩
  rcases h with _ | ⟨_, -, hiteration, h⟩
  rcases h with _ | ⟨site₆, htag, hclasses, h⟩
  rcases h with _ | ⟨site₇, -, hstyles, h⟩
  rcases h with _ | _
  have hnames := ((Dialect.Reached.reference hc hreference).model hc hmodel).binding hc hbinding
  obtain ⟨hone, hchain⟩ := hnames.conditional hc hconditional
  have hstages := hchain.iteration hc hiteration
  have hfree : ∀ {now : Attributes} {list : Option String},
      now.entries = Rewriting.all (setting.dialect.rewritingsOf attrs.entries Dialect.stages)
        attrs.entries ++ classEntry list →
      ∀ kind ∈ DirectiveKind.merged, kind ≠ .staticClass → now.directivesOf kind = [] :=
    fun hentries kind hkind hne => hc.translatable.directivesOf_merged hc.tidy hentries hkind hne
  have hentries := Adapter.entries_classes site₆ hstages.entries
    (fun x hx => (hc.translatable.unmerged_all hc.tidy hx).ne_class) hstages.distinct
    (hfree hstages.entries .classBinding (by decide) (by decide))
    (hc.tidy.base_not_mem_marker attrs) hclasses
  have hlast := Adapter.styles_eq setting site₇
    (hfree hentries .styleBinding (by decide) (by decide))
    (hfree hentries .staticStyle (by decide) (by decide))
  cases hlast.symm.trans hstyles
  rw [hc.orderly.all_eq_settle hone, htag] at hentries
  exact congrArg Attributes.mk hentries

end AdaptedBy

/-- Compiling translates attribute by attribute.  An element of the source that has no class, no
style and nothing that is made into one of them, on which a two-way binding and a loop occur once at
most and no binding is of a property that looks like a directive, has in the compiled text the
translations of its attributes, in their order, and then its class.  Of two attributes of one name
that are translated to, the one that is written later is kept; where no name is translated to twice,
the translations are simply put one after the other. -/
theorem compile_translation {source out : String} {target : Target} {style : Option StyleConfig}
    (h : compile source target style = .ok out) :
    ∃ d₀ d₁ d' : Document, Document.parse source = .ok d₀ ∧
      d₀.adapt (.forTarget target style) = ⟨d₁, none⟩ ∧ Document.parse out = .ok d' ∧
      ∀ id e, d₀.element? id = some e → e.attrs.Translatable →
        let attrs := target.dialect.translated e.tag e.attrs
        d₁.element? id = some { e with attrs } ∧
          d'.element? id = some (Element.escaped { e with attrs }) ∧
          (((e.attrs.entries.flatMap target.dialect.translate).map Prod.fst).Nodup →
            attrs.entries = e.attrs.entries.flatMap target.dialect.translate
              ++ [("class", some (target.dialect.classList e.tag e.attrs))]) := by
  obtain ⟨d₀, d₁, hparse, hadapt, rfl⟩ := Document.compile_eq_ok h
  obtain ⟨d', hparse', hd'⟩ := Document.adapted_of_parse hparse hadapt
  refine ⟨d₀, d₁, d', hparse, hadapt, hparse', ?_⟩
  intro id e he ht attrs
  have hc : target.dialect.Composable e.attrs :=
    ⟨target.tidy_dialect, target.proper_dialect,
      (Document.built_of_parse hparse).distinct id e he, ht⟩
  obtain ⟨attrs', hadapted, he₁⟩ := hd'.element id e he
  have heq : attrs' = attrs := hadapted.eq_translated hc
  rw [heq] at he₁
  refine ⟨he₁, ?_, ?_⟩
  · rw [hd'.escaped, he₁]
    rfl
  · intro hnodup
    show target.dialect.settle [] e.attrs.entries ++ _ = _
    rw [Dialect.settle_eq_flatMap hnodup]

/-- A reference, a two-way binding, a loop, a condition, a binding and an attribute that is no
directive, on a platform with names of its own and on one that keeps loops and bindings. -/
theorem compile_translation_input :
    let source := "<input ref=' r ' v-model='m' v-for='(x, i) in xs' v-if='a' :title='t' data-k>"
    let Translates (target : Target) (out list : String) : Prop :=
      compile source target none = .ok out ∧
        ∃ d₀ d₁ d' : Document, Document.parse source = .ok d₀ ∧
          d₀.adapt (.forTarget target none) = ⟨d₁, none⟩ ∧ Document.parse out = .ok d' ∧
          ∃ e, d₀.element? 0 = some e ∧ e.attrs.Translatable ∧
            let attrs : Attributes :=
              ⟨e.attrs.entries.flatMap target.dialect.translate ++ [("class", some list)]⟩
            d₁.element? 0 = some { e with attrs } ∧
              d'.element? 0 = some (Element.escaped { e with attrs })
    Translates .wx
        ("<input id=\"r\" data-modelkey=\"m\" bindinput=\"_cmlModelEventProxy\" " ++
          "value=\"\x7b\x7bm\x7d\x7d\" wx:for-item=\"x\" wx:for-index=\"i\" " ++
          "wx:for=\"\x7b\x7bxs\x7d\x7d\" wx:if=\"\x7b\x7ba\x7d\x7d\" " ++
          "title=\"\x7b\x7bt\x7d\x7d\" data-k class=\"_cml_ref_lmc_ cml-base cml-input\">")
        "_cml_ref_lmc_ cml-base cml-input" ∧
      Translates .web
        ("<input v-on:input=\"_cmlModelEventProxy($event,'m')\" v-bind:value=\"m\" " ++
          "v-for=\"(x, i) in xs\" v-if=\"a\" :title=\"t\" data-k class=\" cml-base cml-input\">")
        " cml-base cml-input" := by
  intro source Translates
  have htranslates : ∀ target out list, compile source target none = .ok out →
      (∀ d₀ ∈ (Document.parse source).toOption, (d₀.element? 0).isSome = true ∧
        ∀ e ∈ d₀.element? 0, e.attrs.Translatable ∧
          ((e.attrs.entries.flatMap target.dialect.translate).map Prod.fst).Nodup ∧
          target.dialect.classList e.tag e.attrs = list) → Translates target out list := by
    intro target out list hout hsource
    obtain ⟨d₀, d₁, d', hparse, hadapt, hparse', hall⟩ := compile_translation hout
    obtain ⟨hsome, hfound⟩ := hsource d₀ (by rw [hparse]; rfl)
    obtain ⟨e, he⟩ := Option.isSome_iff_exists.mp hsome
    obtain ⟨ht, hnodup, rfl⟩ := hfound e he
    obtain ⟨he₁, he', hflat⟩ := hall 0 e he ht
    have htranslated : target.dialect.translated e.tag e.attrs =
        ⟨e.attrs.entries.flatMap target.dialect.translate
          ++ [("class", some (target.dialect.classList e.tag e.attrs))]⟩ :=
      congrArg Attributes.mk (hflat hnodup)
    rw [htranslated] at he₁ he'
    exact ⟨hout, d₀, d₁, d', hparse, hadapt, hparse', e, he, ht, he₁, he'⟩
  exact ⟨htranslates .wx _ _ (by decide +kernel) (by decide +kernel),
    htranslates .web _ _ (by decide +kernel) (by decide +kernel)⟩

end TemplateCompiler
