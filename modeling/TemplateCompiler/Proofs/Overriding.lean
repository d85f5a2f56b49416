/-
A binding overrides the attribute of its property.

Where a platform has no bindings, each of them is replaced by an attribute of the property's
name, one after the other, and every replacement takes away whatever else has that name.  Three
things could go wrong when one replacement follows another: it could find its binding gone, it
could take away what an earlier one has put in, and what has been put in could be mistaken for
a binding that is still to be replaced.  Properties that differ from each other, and are not
named like directives, rule all of this out, and then the replacements can be made all at
once: every attribute is known by itself to be a binding, to be overridden or to stay.
-/
import TemplateCompiler.Proofs.Retention
import TemplateCompiler.Proofs.Shorthand

namespace TemplateCompiler

namespace Directive

/-- A `v-show` is marked as a directive. -/
theorem marked_of_showIf {name : String} (h : kind? name = some .showIf) : Marked name := by
  by_contra hmarked
  have hcolon : Text.beginsWith ":" name = false :=
    Bool.eq_false_iff.mpr fun hc => hmarked (.inl hc)
  have hdash : Text.beginsWith "v-" name = false :=
    Bool.eq_false_iff.mpr fun hc => hmarked (.inr hc)
  have hne : ∀ fixed ∈ ["ref", "class", "style"], name ≠ fixed := by
    have hall : ∀ fixed ∈ ["ref", "class", "style"], kind? fixed ≠ some .showIf := by decide
    rintro fixed hfixed rfl
    exact hall _ hfixed h
  rw [kind?_eq_none (hne _ (by simp)) (hne _ (by simp)) (hne _ (by simp)) hcolon hdash] at h
  cases h

end Directive

namespace Attributes

/-- The properties that are bound on the element. -/
def boundProperties (attrs : Attributes) : List String :=
  (attrs.directivesOf .bind).filterMap Directive.arg

/-- What becomes of an attribute where bindings of the properties override others: a binding becomes
an attribute of its property, with the expression between braces, and an attribute that has the
name of one of the properties is gone. -/
def overriddenEntry (properties : List String) (attr : Attribute) : List Attribute :=
  match Directive.ofAttribute? attr with
  | some ⟨.bind, _, some property, _, value⟩ => [(property, value.map Encoding.braces.encode)]
  | _ => if attr.1 ∈ properties then [] else [attr]

variable {attrs : Attributes} {attr : Attribute} {d : Directive} {property : String}

theorem mem_boundProperties :
    property ∈ attrs.boundProperties ↔ ∃ d ∈ attrs.directivesOf .bind, d.arg = some property :=
  List.mem_filterMap

theorem overriddenEntry_of_bind {properties : List String}
    (h : Directive.ofAttribute? attr = some d) (hkind : d.kind = .bind)
    (harg : d.arg = some property) :
    overriddenEntry properties attr = [(property, d.value.map Encoding.braces.encode)] := by
  obtain ⟨kind, name, arg, modifiers, value⟩ := d
  cases hkind
  cases harg
  unfold overriddenEntry
  rw [h]

theorem overriddenEntry_of_ne {properties : List String} (h : Directive.kind? attr.1 ≠ some .bind) :
    overriddenEntry properties attr = if attr.1 ∈ properties then [] else [attr] := by
  unfold overriddenEntry
  split
  · rename_i hd
    exact absurd (Directive.kind?_eq hd) h
  · rfl

/-! ### The replacements of all bindings -/

/-- The replacement of one binding. -/
def bindingRewriting (d : Directive) : Rewriting :=
  ⟨d.name, d.arg.toList.map fun property => (property, d.value.map Encoding.braces.encode)⟩

theorem writes_bindingRewriting {name : String} :
    (bindingRewriting d).writes name = true ↔ d.arg = some name := by
  rw [Rewriting.writes_iff]
  cases harg : d.arg with
  | none => simp [bindingRewriting, harg]
  | some property => simp [bindingRewriting, harg, eq_comm]

/-- Where the platform has no bindings, they are what the third stage replaces. -/
theorem rewritings_bindings {δ : Dialect} (hform : δ.binding = .plain .braces) :
    δ.rewritings attrs.entries 3 = (attrs.directivesOf .bind).map bindingRewriting := by
  have hplain : δ.binding ≠ .keep := by
    rw [hform]
    exact BindingForm.noConfusion
  rw [Dialect.rewritings_of_kind (by decide) fun _ => Dialect.stageOf_eq_three hplain]
  refine List.map_congr_left fun d hd => ?_
  obtain ⟨-, hkind⟩ := mem_directivesOf.mp hd
  obtain ⟨-, -, -, property, harg, -⟩ := of_mem_bindings hd
  unfold bindingRewriting Dialect.translateDirective
  rw [hkind, hform, harg]
  rfl

theorem any_writes_bindingRewriting (attrs : Attributes) (name : String) :
    (((attrs.directivesOf .bind).map bindingRewriting).any fun r => r.writes name)
      = decide (name ∈ attrs.boundProperties) := by
  rw [Bool.eq_iff_iff, decide_eq_true_eq, mem_boundProperties, List.any_map, List.any_eq_true]
  simp only [Function.comp_apply, writes_bindingRewriting]

/-- Properties that differ and are not marked like directives are written all at once. -/
theorem all_bindings (hd : attrs.Distinct) (hunmarked : attrs.BindsUnmarked)
    (hargs : ∀ x ∈ attrs.directivesOf .bind, ∀ y ∈ attrs.directivesOf .bind, x.arg = y.arg → x = y) :
    Rewriting.all ((attrs.directivesOf .bind).map bindingRewriting) attrs.entries
      = attrs.entries.flatMap (overriddenEntry attrs.boundProperties) := by
  have hnodup : (((attrs.directivesOf .bind).map bindingRewriting).map Rewriting.name).Nodup := by
    rw [List.map_map]
    exact hd.nodup_directivesOf .bind
  -- The name of a binding is marked, so it is the property of none.
  have hapart : ∀ x ∈ attrs.directivesOf .bind, ∀ y ∈ attrs.directivesOf .bind,
      x.arg ≠ some y.name := by
    intro x hx y hy harg
    obtain ⟨-, -, hkind, -⟩ := of_mem_bindings hy
    exact hunmarked x hx _ harg (Directive.marked_of_isBinding hkind rfl)
  rw [Rewriting.all_eq_flatMap]
  refine List.flatMap_congr fun attr hattr => ?_
  by_cases hkind : Directive.kind? attr.1 = some .bind
  · -- The attribute is a binding, and the other ones have nothing to do with it.
    obtain ⟨d, hof, hdkind⟩ := Directive.exists_of_kind? hkind
    obtain ⟨property, harg, -⟩ := Directive.exists_property hof hdkind
    have hmem : d ∈ attrs.directivesOf .bind :=
      mem_directivesOf.mpr ⟨mem_directives.mpr ⟨attr, hattr, hof⟩, hdkind⟩
    have hname : attr.1 = (bindingRewriting d).name :=
      (congrArg Prod.fst (Directive.attribute_eq hof)).symm
    rw [overriddenEntry_of_bind hof hdkind harg,
      Rewriting.all_singleton_of_mem hnodup (List.mem_map_of_mem hmem) ?_ ?_ hname]
    · unfold bindingRewriting
      rw [harg]
      rfl
    · intro r hr
      obtain ⟨d', hd', rfl⟩ := List.mem_map.mp hr
      exact Bool.eq_false_iff.mpr fun hwrites =>
        hapart d' hd' d hmem (writes_bindingRewriting.mp hwrites)
    · intro r hr hne y hy
      obtain ⟨d', hd', rfl⟩ := List.mem_map.mp hr
      have hproperty : d.arg = some y.1 :=
        writes_bindingRewriting.mp (Rewriting.writes_iff.mpr (List.mem_map_of_mem hy))
      refine ⟨fun heq => hapart d hmem d' hd' (hproperty.trans (congrArg some heq)), ?_⟩
      refine Bool.eq_false_iff.mpr fun hwrites => hne ?_
      rw [hargs d' hd' d hmem ((writes_bindingRewriting.mp hwrites).trans hproperty.symm)]
  · -- The attribute is no binding, and is gone if a property has its name.
    have hother : ∀ r ∈ (attrs.directivesOf .bind).map bindingRewriting, ∀ x ∈ [attr],
        x.1 ≠ r.name := by
      intro r hr x hx heq
      obtain ⟨d, hd', rfl⟩ := List.mem_map.mp hr
      obtain ⟨-, hbind⟩ := name_of_mem_directivesOf hd'
      rw [List.mem_singleton.mp hx] at heq
      exact hkind ((congrArg Directive.kind? heq).trans hbind)
    rw [Rewriting.all_of_ne hother, overriddenEntry_of_ne hkind, List.filter_singleton,
      any_writes_bindingRewriting]
    by_cases hgone : attr.1 ∈ attrs.boundProperties
    · rw [if_pos hgone, decide_eq_true hgone]
      rfl
    · rw [if_neg hgone, decide_eq_false hgone]
      rfl

/-- Every attribute afterwards has the name of one that was there or of a property. -/
theorem name_of_mem_overridden {x : Attribute}
    (h : x ∈ attrs.entries.flatMap (overriddenEntry attrs.boundProperties)) :
    x.1 ∈ attrs.names ∨ x.1 ∈ attrs.boundProperties := by
  obtain ⟨attr, hattr, hx⟩ := List.mem_flatMap.mp h
  by_cases hkind : Directive.kind? attr.1 = some .bind
  · obtain ⟨d, hof, hdkind⟩ := Directive.exists_of_kind? hkind
    obtain ⟨property, harg, -⟩ := Directive.exists_property hof hdkind
    rw [overriddenEntry_of_bind hof hdkind harg, List.mem_singleton] at hx
    refine .inr (mem_boundProperties.mpr ⟨d, mem_directivesOf.mpr ⟨?_, hdkind⟩, ?_⟩)
    · exact mem_directives.mpr ⟨attr, hattr, hof⟩
    · rw [hx, harg]
  · rw [overriddenEntry_of_ne hkind] at hx
    split at hx
    · cases hx
    · exact .inl (List.mem_singleton.mp hx ▸ List.mem_map_of_mem hattr)

end Attributes

namespace Adapter

variable {setting : Setting} {attrs : Attributes}

/-- An element without a `v-show` has none after its bindings have overridden other attributes. -/
theorem directivesOf_showIf_overridden (hunmarked : attrs.BindsUnmarked)
    (hshow : attrs.directivesOf .showIf = []) {attrs' : Attributes}
    (h : attrs'.entries = attrs.entries.flatMap (Attributes.overriddenEntry attrs.boundProperties)) :
    attrs'.directivesOf .showIf = [] := by
  refine List.eq_nil_iff_forall_not_mem.mpr fun d hd => ?_
  obtain ⟨hname, hkind⟩ := Attributes.name_of_mem_directivesOf hd
  obtain ⟨x, hx, heq⟩ := List.mem_map.mp hname
  rw [h] at hx
  rcases Attributes.name_of_mem_overridden hx with hold | hproperty
  · obtain ⟨d', hd', -, hkind'⟩ := Attributes.exists_directive_of_mem_names hold (heq ▸ hkind)
    have hmem := Attributes.mem_directivesOf.mpr ⟨hd', hkind'⟩
    rw [hshow] at hmem
    cases hmem
  · obtain ⟨d', hd', harg⟩ := Attributes.mem_boundProperties.mp hproperty
    exact hunmarked d' hd' x.1 harg (heq ▸ Directive.marked_of_showIf hkind)

/-- Where no property is bound in both spellings, bindings are adapted and then a `v-show` is. -/
theorem binding_of_boundOnce (honce : attrs.BoundOnce) (site : Site) :
    binding setting site attrs
      = .ok (showing setting.dialect.showSlot (properties setting.dialect.binding attrs)) := by
  unfold binding
  rw [Attributes.doubleBinding?_eq_none_iff.mpr honce]

/-- On an element without a `v-show`, with no property bound in both spellings, and with bindings of
properties that differ and are not marked like directives: on a mini program every binding becomes
an attribute of its property where it stands, every other attribute with the name of one of these
properties is gone, and all else stays as it is and in its order.  Elsewhere nothing is changed. -/
theorem binding_overrides {target : Target} (hdialect : setting.dialect = target.dialect)
    (site : Site) (hd : attrs.Distinct) (honce : attrs.BoundOnce)
    (hshow : attrs.directivesOf .showIf = []) (hunmarked : attrs.BindsUnmarked)
    (hargs : ∀ x ∈ attrs.directivesOf .bind, ∀ y ∈ attrs.directivesOf .bind, x.arg = y.arg → x = y) :
    (target.isMiniProgram = true → binding setting site attrs
      = .ok ⟨attrs.entries.flatMap (Attributes.overriddenEntry attrs.boundProperties)⟩) ∧
    (target.isMiniProgram = false → binding setting site attrs = .ok attrs) := by
  rw [binding_of_boundOnce honce site]
  refine ⟨fun hmini => congrArg Except.ok ?_, fun hmini => congrArg Except.ok ?_⟩
  · have hform : setting.dialect.binding = .plain .braces :=
      hdialect ▸ (Target.forms_of_isMiniProgram hmini).1
    have hentries : (properties setting.dialect.binding attrs).entries
        = attrs.entries.flatMap (Attributes.overriddenEntry attrs.boundProperties) := by
      rw [entries_properties (hdialect ▸ target.proper_dialect) hd,
        Attributes.rewritings_bindings hform, Attributes.all_bindings hd hunmarked hargs]
    rw [showing_eq _ (directivesOf_showIf_overridden hunmarked hshow hentries)]
    exact Attributes.eq_of_entries hentries
  · have hkeep : setting.dialect.binding = .keep := by
      rw [hdialect]
      cases target with
      | web | weex => rfl
      | wx | alipay | baidu => cases hmini
    rw [hkeep]
    exact showing_eq _ hshow

/-- Attributes that are overridden from before and from behind, a binding with a modifier, and a bare
one. -/
theorem binding_overrides_bare :
    let site : Site := ⟨"view", ⟨0, 0⟩, fun _ => none⟩
    let attrs : Attributes := ⟨[("title", some "a"), (":title.sync", some "t"), ("id", some "k"),
      (":bare", none), ("v-bind:src", some "u"), ("src", none)]⟩
    (attrs.Distinct ∧ attrs.BoundOnce ∧ attrs.directivesOf .showIf = [] ∧ attrs.BindsUnmarked) ∧
      binding (.forTarget .wx none) site attrs = .ok ⟨[("title", some "\x7b\x7bt\x7d\x7d"),
        ("id", some "k"), ("bare", none), ("src", some "\x7b\x7bu\x7d\x7d")]⟩ ∧
      binding (.forTarget .weex none) site attrs = .ok attrs := by
  intro site attrs
  have hd : attrs.Distinct := by
    show List.Nodup ["title", ":title.sync", "id", ":bare", "v-bind:src", "src"]
    decide
  have hkept : attrs.BoundOnce ∧ attrs.directivesOf .showIf = [] ∧ attrs.BindsUnmarked := by decide
  have hargs : ∀ x ∈ attrs.directivesOf .bind, ∀ y ∈ attrs.directivesOf .bind,
      x.arg = y.arg → x = y := by decide
  have hwx := (@binding_overrides (.forTarget .wx none) attrs .wx rfl site hd hkept.1 hkept.2.1
    hkept.2.2 hargs).1 rfl
  have hweex := (@binding_overrides (.forTarget .weex none) attrs .weex rfl site hd hkept.1
    hkept.2.1 hkept.2.2 hargs).2 rfl
  exact ⟨⟨hd, hkept⟩, hwx.trans (by decide), hweex⟩

end Adapter

end TemplateCompiler
