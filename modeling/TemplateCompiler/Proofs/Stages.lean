/-
What each pass does to an element, as rewritings.

Five of the passes replace directives, and what one of them does is what the rewritings of
its stage do.  A pass that adapts the first directive of its kind needs for this that
there is no second one.  The pass of references also marks the element with a class; the
passes of classes and styles are described here for elements that have neither, so that
the one adds a class at the end and the other does nothing.
-/
import Mathlib.Data.List.Basic
import TemplateCompiler.Proofs.Blanks
import TemplateCompiler.Proofs.Translation
import TemplateCompiler.Proofs.Writing

namespace TemplateCompiler

/-- If a list has one element of a kind at most, the first is all of them. -/
theorem filter_eq_toList_find? {α : Type} {p : α → Bool} {l : List α}
    (h : (l.filter p).length ≤ 1) : l.filter p = (l.find? p).toList := by
  rw [← List.head?_filter]
  match hl : l.filter p with
  | [] => rfl
  | [only] => rfl
  | first :: second :: others =>
      rw [hl] at h
      simp at h

/-! ### The rewritings of an element's directives -/

namespace Dialect

variable {δ : Dialect} {attrs : Attributes} {d : Directive}

theorem stage_of_kind? {attr : Attribute} {kind : DirectiveKind}
    (h : Directive.kind? attr.1 = some kind) : δ.stage attr = δ.stageOf kind := by
  unfold stage
  rw [h]
  rfl

theorem stage_of_kind?_eq_none {attr : Attribute} (h : Directive.kind? attr.1 = none) :
    δ.stage attr = 0 := by
  unfold stage
  rw [h]
  rfl

theorem stage_eq_zero {attr : Attribute} (h : Directive.ofAttribute? attr = none) :
    δ.stage attr = 0 := by
  refine stage_of_kind?_eq_none ?_
  by_contra hsome
  obtain ⟨kind, hkind⟩ := Option.ne_none_iff_exists'.mp hsome
  obtain ⟨d, hd, -⟩ := Directive.exists_of_kind? hkind
  rw [h] at hd
  cases hd

/-- The rewritings of a stage are those of the directives that it adapts. -/
theorem rewritings_eq {k : Nat} (hk : k ≠ 0) :
    δ.rewritings attrs.entries k
      = (attrs.directives.filter fun d => δ.stageOf d.kind = k).map
        fun d => ⟨d.name, δ.translateDirective d⟩ := by
  unfold rewritings Attributes.directives
  induction attrs.entries with
  | nil => rfl
  | cons attr entries ih =>
      cases hd : Directive.ofAttribute? attr with
      | none =>
          have hne : ¬ decide (δ.stage attr = k) = true := by
            rw [stage_eq_zero hd, decide_eq_true_eq]
            exact hk.symm
          rw [List.filterMap_cons_none hd, List.filter_cons, if_neg hne, ih]
      | some d =>
          have hname : attr.1 = d.name := by
            rw [← Directive.attribute_eq hd]
          have htranslate : δ.translate attr = δ.translateDirective d := by
            unfold translate
            rw [hd]
          rw [List.filterMap_cons_some hd, List.filter_cons, List.filter_cons,
            stage_of_kind? (Directive.kind?_eq hd)]
          by_cases hstage : δ.stageOf d.kind = k
          · simp only [hstage, decide_true, if_true, List.map_cons, ih, hname, htranslate]
          · simp only [hstage, decide_false, Bool.false_eq_true, if_false, ih]

/-- The same for a stage that adapts one kind. -/
theorem rewritings_of_kind {k : Nat} {kind : DirectiveKind} (hk : k ≠ 0)
    (hkind : ∀ kind', δ.stageOf kind' = k ↔ kind' = kind) :
    δ.rewritings attrs.entries k
      = (attrs.directivesOf kind).map fun d => ⟨d.name, δ.translateDirective d⟩ := by
  rw [rewritings_eq hk]
  unfold Attributes.directivesOf
  simp only [hkind]

/-- The same for a stage that adapts nothing. -/
theorem rewritings_of_unused {k : Nat} (hk : k ≠ 0) (hunused : ∀ kind, δ.stageOf kind ≠ k) :
    δ.rewritings attrs.entries k = [] := by
  rw [rewritings_eq hk]
  simp [hunused]

theorem stageOf_eq_one {kind : DirectiveKind} : δ.stageOf kind = 1 ↔ kind = .ref := by
  cases kind <;> grind [stageOf]

theorem stageOf_eq_two {kind : DirectiveKind} : δ.stageOf kind = 2 ↔ kind = .model := by
  cases kind <;> grind [stageOf]

theorem stageOf_eq_three (h : δ.binding ≠ .keep) {kind : DirectiveKind} :
    δ.stageOf kind = 3 ↔ kind = .bind := by
  cases kind <;> grind [stageOf]

theorem stageOf_ne_three (h : δ.binding = .keep) (kind : DirectiveKind) : δ.stageOf kind ≠ 3 := by
  cases kind <;> grind [stageOf]

theorem stageOf_eq_four {kind : DirectiveKind} :
    δ.stageOf kind = 4 ↔ kind.isConditional = true := by
  cases kind <;> grind [stageOf, DirectiveKind.isConditional]

theorem stageOf_eq_five (h : δ.iteration ≠ .keep) {kind : DirectiveKind} :
    δ.stageOf kind = 5 ↔ kind = .forEach := by
  cases kind <;> grind [stageOf]

theorem stageOf_ne_five (h : δ.iteration = .keep) (kind : DirectiveKind) : δ.stageOf kind ≠ 5 := by
  cases kind <;> grind [stageOf]

/-- The rewritings of a stage that adapts one kind, of which there is one directive at most. -/
theorem rewritings_of_one {k : Nat} {kind : DirectiveKind} (hk : k ≠ 0)
    (hkind : ∀ kind', δ.stageOf kind' = k ↔ kind' = kind)
    (hone : (attrs.directivesOf kind).length ≤ 1) :
    δ.rewritings attrs.entries k
      = (attrs.directive? kind).toList.map fun d => ⟨d.name, δ.translateDirective d⟩ := by
  rw [rewritings_of_kind hk hkind]
  unfold Attributes.directivesOf Attributes.directive?
  rw [filter_eq_toList_find? hone]

end Dialect

/-- What a directive is written as has distinct names. -/
theorem Dialect.Proper.nodup_translateDirective {δ : Dialect} (hδ : δ.Proper) (d : Directive) :
    ((δ.translateDirective d).map Prod.fst).Nodup := by
  have hone : ∀ attr : Attribute, ([attr].map Prod.fst).Nodup :=
    fun attr => List.nodup_singleton attr.1
  unfold Dialect.translateDirective
  cases d.kind with
  | ref =>
      dsimp only
      split
      · exact List.nodup_nil
      · split
        · exact List.nodup_nil
        · exact hone _
  | model =>
      dsimp only
      split
      · exact List.nodup_nil
      · rw [ModelForm.map_fst_attributes]
        exact hδ.model
  | bind =>
      dsimp only
      split <;> exact hone _
  | forEach =>
      dsimp only
      split
      · rename_i itemName indexName sourceName encoding it hform hparse
        have hnodup := hδ.iteration
        rw [hform] at hnodup
        exact hnodup
      · exact hone _
  | _ => exact hone _

/-! ### References -/

namespace Attributes

variable {attrs : Attributes}

theorem names_directives_sublist (attrs : Attributes) :
    (attrs.directives.map Directive.name).Sublist attrs.names := by
  unfold directives names
  induction attrs.entries with
  | nil => exact List.Sublist.slnil
  | cons attr entries ih =>
      cases hd : Directive.ofAttribute? attr with
      | none =>
          rw [List.filterMap_cons_none hd]
          exact ih.cons _
      | some d =>
          rw [List.filterMap_cons_some hd, List.map_cons, List.map_cons,
            ← Directive.attribute_eq hd]
          exact ih.cons_cons _

theorem Distinct.nodup_directivesOf (hd : attrs.Distinct) (kind : DirectiveKind) :
    ((attrs.directivesOf kind).map Directive.name).Nodup := by
  have hsub : ((attrs.directivesOf kind).map Directive.name).Sublist attrs.names :=
    (List.filter_sublist.map Directive.name).trans attrs.names_directives_sublist
  exact hsub.nodup hd

theorem name_of_reference {d : Directive} (hdir : d ∈ attrs.directives) (hkind : d.kind = .ref) :
    d.name = "ref" := by
  obtain ⟨-, -, -, hk⟩ := mem_of_mem_directives hdir
  rw [hkind] at hk
  exact Directive.eq_ref_of_kind? hk

/-- A map has one reference at most, because references have one name. -/
theorem Distinct.length_references (hd : attrs.Distinct) :
    (attrs.directivesOf .ref).length ≤ 1 := by
  have hname : ∀ n ∈ (attrs.directivesOf .ref).map Directive.name, n = "ref" := by
    intro n hn
    obtain ⟨d, hmem, rfl⟩ := List.mem_map.mp hn
    obtain ⟨hdir, hkind⟩ := mem_directivesOf.mp hmem
    exact name_of_reference hdir hkind
  have hnodup := hd.nodup_directivesOf .ref
  rw [List.eq_replicate_of_mem hname, List.nodup_replicate, List.length_map] at hnodup
  exact hnodup

/-- The reference, looked up by its name or by its kind. -/
theorem Distinct.get?_ref (hd : attrs.Distinct) :
    attrs.get? "ref" = (attrs.directive? .ref).map Directive.expression := by
  cases hfound : attrs.directive? .ref with
  | none =>
      rw [Option.map_none, get?_eq_none_iff]
      intro hmem
      exact directive?_eq_none_iff.mp hfound "ref" hmem (by decide)
  | some d =>
      obtain ⟨hdir, hkind⟩ := mem_of_directive? hfound
      obtain ⟨hentry, -, -, -⟩ := mem_of_mem_directives hdir
      rw [name_of_reference hdir hkind] at hentry
      exact hd.get?_of_mem hentry

end Attributes

/-- The class that marks an element, where references become identities. -/
def Dialect.marker? (δ : Dialect) (attrs : Attributes) : Option String :=
  match δ.reference, attrs.directive? .ref with
  | .identity _ marker, some d => if (Text.trim d.expression).isEmpty then none else some marker
  | _, _ => none

/-- The static class of a list of classes, if there is one. -/
def classEntry (list : Option String) : List Attribute :=
  (list.map fun list => ("class", some list)).toList

theorem fst_of_mem_classEntry {list : Option String} {x : Attribute} (hx : x ∈ classEntry list) :
    x.1 = "class" := by
  unfold classEntry at hx
  rw [Option.mem_toList, Option.map_eq_some_iff] at hx
  obtain ⟨list, -, rfl⟩ := hx
  rfl

namespace Adapter

variable {setting : Setting} {attrs attrs' : Attributes}

/-- A class that is the first is put at the end. -/
theorem entries_addClass (hclass : "class" ∉ attrs.names) (marker : String) :
    (attrs.addClass marker).entries = attrs.entries ++ classEntry (some marker) := by
  unfold Attributes.addClass
  rw [Attributes.get?_eq_none_iff.mpr hclass]
  exact Attributes.entries_set_of_not_mem _ hclass

/-- Replacing a directive by what it is written as. -/
theorem entries_translate {δ : Dialect} (hδ : δ.Proper) (hd : attrs.Distinct) {d : Directive}
    (hdir : d ∈ attrs.directives) :
    (attrs.replaceD d.name (δ.translateDirective d)).entries
      = Rewriting.all [⟨d.name, δ.translateDirective d⟩] attrs.entries := by
  obtain ⟨-, hmem, -, -⟩ := Attributes.mem_of_mem_directives hdir
  exact hd.entries_replace ⟨d.name, δ.translateDirective d⟩ hmem (hδ.nodup_translateDirective d)

/-- The reference is replaced, and the class that marks the element is put at the end. -/
theorem entries_reference (site : Site) (hδ : setting.dialect.Proper) (hd : attrs.Distinct)
    (hclass : ∀ x ∈ Rewriting.all (setting.dialect.rewritings attrs.entries 1) attrs.entries,
      x.1 ≠ "class")
    (h : reference setting site attrs = .ok attrs') :
    attrs'.entries
      = Rewriting.all (setting.dialect.rewritings attrs.entries 1) attrs.entries
        ++ classEntry (setting.dialect.marker? attrs) := by
  rw [Dialect.rewritings_of_one (by decide) (fun _ => Dialect.stageOf_eq_one)
    hd.length_references] at hclass ⊢
  unfold reference at h
  rw [hd.get?_ref] at h
  unfold Dialect.marker?
  cases hfound : attrs.directive? .ref with
  | none =>
      rw [hfound] at h
      cases h
      cases setting.dialect.reference <;> simp [classEntry, Rewriting.all_nil]
  | some d =>
      obtain ⟨hdir, hkind⟩ := Attributes.mem_of_directive? hfound
      have hname := Attributes.name_of_reference hdir hkind
      rw [hfound] at h hclass
      simp only [Option.map_some, Option.toList_some, List.map_cons, List.map_nil] at h hclass ⊢
      cases hform : setting.dialect.reference with
      | drop =>
          have htranslate : setting.dialect.translateDirective d = [] := by
            unfold Dialect.translateDirective
            rw [hkind, hform]
          rw [hform] at h
          cases h
          rw [htranslate, hname, attrs.erase_entries]
          exact (List.append_nil _).symm
      | identity idName marker =>
          have htranslate : setting.dialect.translateDirective d
              = if (Text.trim d.expression).isEmpty then []
                else [(idName, some (Text.trim d.expression))] := by
            unfold Dialect.translateDirective
            rw [hkind, hform]
          rw [hform] at h
          dsimp only at h ⊢
          by_cases hblank : (Text.trim d.expression).isEmpty = true
          · rw [if_pos hblank] at h htranslate
            cases h
            rw [if_pos hblank, htranslate, hname, attrs.erase_entries]
            exact (List.append_nil _).symm
          · rw [if_neg hblank] at h htranslate
            cases h
            rw [← entries_translate hδ hd hdir, htranslate, hname] at hclass ⊢
            rw [if_neg hblank]
            refine entries_addClass ?_ marker
            intro hmem
            obtain ⟨x, hx, hxname⟩ := List.mem_map.mp hmem
            exact hclass x hx hxname

/-! ### Directives that are replaced once -/

theorem entries_model (site : Site) (hδ : setting.dialect.Proper) (hd : attrs.Distinct)
    (hone : (attrs.directivesOf .model).length ≤ 1) (h : model setting site attrs = .ok attrs') :
    attrs'.entries
      = Rewriting.all (setting.dialect.rewritings attrs.entries 2) attrs.entries := by
  rw [Dialect.rewritings_of_one (by decide) (fun _ => Dialect.stageOf_eq_two) hone]
  unfold model at h
  cases hfound : attrs.directive? .model with
  | none =>
      rw [hfound] at h
      cases h
      rfl
  | some d =>
      rw [hfound] at h
      obtain ⟨hdir, hkind⟩ := Attributes.mem_of_directive? hfound
      have htranslate : setting.dialect.translateDirective d
          = if (Text.trim d.expression).isEmpty then []
            else setting.dialect.model.attributes (Text.trim d.expression) := by
        unfold Dialect.translateDirective
        rw [hkind]
      dsimp only at h
      show attrs'.entries
        = Rewriting.all [⟨d.name, setting.dialect.translateDirective d⟩] attrs.entries
      by_cases hblank : (Text.trim d.expression).isEmpty = true
      · rw [if_pos hblank] at h htranslate
        cases h
        rw [htranslate]
        exact attrs.erase_entries d.name
      · rw [if_neg hblank] at h htranslate
        cases h
        rw [← htranslate]
        exact entries_translate hδ hd hdir

theorem entries_conditional (site : Site) (hδ : setting.dialect.Proper) (hd : attrs.Distinct)
    (h : conditional setting site attrs = .ok attrs') :
    (setting.dialect.rewritings attrs.entries 4).length ≤ 1 ∧
      attrs'.entries
        = Rewriting.all (setting.dialect.rewritings attrs.entries 4) attrs.entries := by
  have hrewritings : setting.dialect.rewritings attrs.entries 4
      = attrs.conditionals.map fun d => ⟨d.name, setting.dialect.translateDirective d⟩ := by
    rw [Dialect.rewritings_eq (by decide)]
    unfold Attributes.conditionals
    simp only [Dialect.stageOf_eq_four, Bool.decide_eq_true]
  rw [hrewritings]
  unfold conditional at h
  dsimp only at h
  split at h
  · rename_i hnone
    cases h
    rw [hnone]
    exact ⟨Nat.zero_le 1, rfl⟩
  · cases h
  · rename_i d hone
    have hmem : d ∈ attrs.conditionals := by
      rw [hone]
      exact List.mem_singleton_self d
    obtain ⟨hdir, hkind⟩ := Attributes.mem_conditionals.mp hmem
    split at h
    · cases h
      rw [hone]
      refine ⟨Nat.le_refl 1, ?_⟩
      have htranslate : setting.dialect.translateDirective d
          = [(setting.dialect.conditional.nameOf d.kind,
            d.value.map setting.dialect.conditional.encoding.encode)] := by
        unfold Dialect.translateDirective
        cases hk : d.kind with
        | ifCond | elseIf | otherwise => rfl
        | _ =>
            rw [hk] at hkind
            cases hkind
      rw [← htranslate]
      exact entries_translate hδ hd hdir
    · cases h

theorem entries_iteration (site : Site) (hδ : setting.dialect.Proper) (hd : attrs.Distinct)
    (hone : setting.dialect.iteration ≠ .keep → (attrs.directivesOf .forEach).length ≤ 1)
    (h : iteration setting site attrs = .ok attrs') :
    attrs'.entries
      = Rewriting.all (setting.dialect.rewritings attrs.entries 5) attrs.entries := by
  unfold iteration at h
  by_cases hkeep : setting.dialect.iteration = .keep
  · rw [Dialect.rewritings_of_unused (by decide) (Dialect.stageOf_ne_five hkeep)]
    rw [hkeep] at h
    split at h
    · cases h
      rfl
    · split at h
      · cases h
      · cases h
        rfl
  · rw [Dialect.rewritings_of_one (by decide) (fun _ => Dialect.stageOf_eq_five hkeep)
      (hone hkeep)]
    cases hfound : attrs.directive? .forEach with
    | none =>
        rw [hfound] at h
        cases h
        rfl
    | some d =>
        rw [hfound] at h
        obtain ⟨hdir, hkind⟩ := Attributes.mem_of_directive? hfound
        dsimp only at h
        split at h
        · cases h
        · rename_i it hparse
          split at h
          · rename_i hform
            exact absurd hform hkeep
          · rename_i itemName indexName sourceName encoding hform
            have htranslate : setting.dialect.translateDirective d
                = it.attributes itemName indexName sourceName encoding := by
              unfold Dialect.translateDirective
              rw [hkind, hform, hparse]
            split at h
            · cases h
              rw [← htranslate]
              exact entries_translate hδ hd hdir
            · cases h

/-! ### Bindings and showing -/

/-- A binding of a property is replaced by what it is written as. -/
theorem plainBinding_eq {δ : Dialect} {encoding : Encoding} (hform : δ.binding = .plain encoding)
    {ds : List Directive} (hds : ∀ d ∈ ds, d ∈ attrs.directivesOf .bind) (attrs' : Attributes) :
    ds.foldl (plainBinding encoding) attrs'
      = (ds.map fun d => (⟨d.name, δ.translateDirective d⟩ : Rewriting)).foldl
        (fun attrs r => attrs.replaceD r.name r.new) attrs' := by
  rw [List.foldl_map]
  induction ds generalizing attrs' with
  | nil => rfl
  | cons d ds ih =>
      have hstep : plainBinding encoding attrs' d
          = attrs'.replaceD d.name (δ.translateDirective d) := by
        obtain ⟨hdir, hkind⟩ := Attributes.mem_directivesOf.mp (hds d (by simp))
        obtain ⟨-, -, hof, -⟩ := Attributes.mem_of_mem_directives hdir
        obtain ⟨property, harg, -⟩ := Directive.exists_property hof hkind
        unfold plainBinding Dialect.translateDirective
        rw [hkind, hform, harg]
      rw [List.foldl_cons, List.foldl_cons, hstep]
      exact ih (fun d' hd' => hds d' (by simp [hd'])) _

theorem entries_properties (hδ : setting.dialect.Proper) (hd : attrs.Distinct) :
    (properties setting.dialect.binding attrs).entries
      = Rewriting.all (setting.dialect.rewritings attrs.entries 3) attrs.entries := by
  unfold properties
  split
  · rename_i hkeep
    rw [Dialect.rewritings_of_unused (by decide) (Dialect.stageOf_ne_three hkeep)]
    rfl
  · rename_i encoding hform
    have hplain : setting.dialect.binding ≠ .keep := by
      rw [hform]
      exact BindingForm.noConfusion
    rw [Dialect.rewritings_of_kind (by decide) (fun _ => Dialect.stageOf_eq_three hplain),
      plainBinding_eq hform fun _ hd => hd]
    refine hd.entries_foldl_replaceD ?_ ?_ ?_
    · rw [List.map_map]
      exact hd.nodup_directivesOf .bind
    · intro r hr
      obtain ⟨d, hmem, rfl⟩ := List.mem_map.mp hr
      exact (Attributes.mem_of_mem_directives (Attributes.mem_directivesOf.mp hmem).1).2.1
    · intro r hr
      obtain ⟨d, -, rfl⟩ := List.mem_map.mp hr
      exact hδ.nodup_translateDirective d

/-- Without a `v-show` nothing is done about showing. -/
theorem showing_eq (slot : ShowSlot) (h : attrs.directivesOf .showIf = []) :
    showing slot attrs = attrs := by
  unfold showing
  rw [Attributes.directive?_eq_head?, h]
  rfl

/-! ### Classes and styles -/

/-- A list of classes that does not name the base class does not end with the base classes. -/
theorem endsWithBase_eq_false {list : String} (h : Dialect.baseClass ∉ Text.words list)
    (tag : String) :
    endsWithBase list (baseClasses tag) = false := by
  have hsplit : baseClasses tag = Dialect.baseClass ++ " " ++ ("cml-" ++ tag) := by
    show Dialect.baseClass ++ " cml-" ++ tag = _
    rw [show " cml-" = " " ++ "cml-" by decide]
    simp only [String.append_assoc]
  have hbase : Dialect.baseClass ∈ Text.words (baseClasses tag) := by
    rw [hsplit, Text.words_append_blank]
    exact List.mem_append_left _ (by decide)
  unfold endsWithBase
  rw [← Bool.not_eq_true, List.isSuffixOf_iff_suffix]
  exact fun hsuffix => h (hsuffix.subset hbase)

/-- Without a binding, all platforms treat classes alike. -/
theorem classes_eq (site : Site) (hbinding : attrs.directivesOf .classBinding = []) :
    classes setting site attrs = .ok (mergeClass (baseClasses site.tag) none attrs) := by
  unfold classes
  rw [Attributes.directive?_eq_head?, hbinding]
  cases setting.dialect.classMode <;> rfl

/-- The base classes are put at the end of a list of classes that stands at the end. -/
theorem entries_classes (site : Site) {entries : List Attribute} {list : Option String}
    (hentries : attrs.entries = entries ++ classEntry list)
    (hclass : ∀ x ∈ entries, x.1 ≠ "class") (hd : attrs.Distinct)
    (hbinding : attrs.directivesOf .classBinding = [])
    (hbase : Dialect.baseClass ∉ Text.words (list.getD ""))
    (h : classes setting site attrs = .ok attrs') :
    attrs'.entries
      = entries ++ classEntry (some (list.getD "" ++ " " ++ baseClasses site.tag)) := by
  rw [classes_eq site hbinding] at h
  cases h
  cases list with
  | none =>
      have hnot : "class" ∉ attrs.names := by
        intro hmem
        obtain ⟨value, hvalue⟩ := Attributes.mem_names.mp hmem
        rw [hentries] at hvalue
        exact hclass _ (by simpa [classEntry] using hvalue) rfl
      unfold mergeClass
      rw [Attributes.get?_eq_none_iff.mpr hnot]
      dsimp only
      rw [endsWithBase_eq_false hbase]
      show (attrs.insert "class" _).entries = _
      unfold Attributes.insert
      rw [Attributes.entries_set_of_not_mem _ hnot, hentries]
      simp [classEntry]
  | some list =>
      have hmem : ("class", some list) ∈ attrs.entries := by
        rw [hentries]
        simp [classEntry]
      rw [Option.getD_some] at hbase
      unfold mergeClass
      rw [hd.get?_eq hmem, Option.getD_some]
      dsimp only
      rw [endsWithBase_eq_false hbase]
      show (attrs.insert "class" _).entries = _
      exact Attributes.entries_set_last hentries hclass _

/-- Without style bindings and a static style nothing is done about styles. -/
theorem styles_eq (setting : Setting) (site : Site)
    (hbinding : attrs.directivesOf .styleBinding = [])
    (hstatic : attrs.directivesOf .staticStyle = []) : styles setting site attrs = .ok attrs := by
  have hbindings : styleBindings setting.dialect.styleMode setting.style attrs = attrs := by
    unfold styleBindings
    rw [hbinding]
    cases setting.dialect.styleMode <;> rfl
  have hnot : "style" ∉ attrs.names := by
    intro hmem
    obtain ⟨d, hd, -, hkind⟩ := Attributes.exists_directive_of_mem_names hmem
      (show Directive.kind? "style" = some .staticStyle by decide)
    have hfound : d ∈ attrs.directivesOf .staticStyle := Attributes.mem_directivesOf.mpr ⟨hd, hkind⟩
    rw [hstatic] at hfound
    exact absurd hfound List.not_mem_nil
  unfold styles staticStyle
  rw [hbindings, Attributes.get?_eq_none_iff.mpr hnot]

end Adapter

end TemplateCompiler
