/-
A binding that is written twice is an error.

The pass of bindings compares names as they are written: it looks for a name in the short
spelling whose long spelling stands on the element as well.  Modifiers are part of these
names.  Two bindings of one property with the same modifiers therefore differ by their mark
alone and are found, while bindings of one property with different modifiers are not.

What the author wrote is still there when the pass looks for it.  The two passes before it do
not fail, and the names that they take away are no bindings.
-/
import TemplateCompiler.Proofs.Dialects
import TemplateCompiler.Proofs.Frame
import TemplateCompiler.Proofs.Stability

namespace TemplateCompiler

/-- The directive binds a property, the class and the style among them. -/
def DirectiveKind.isBinding : DirectiveKind → Bool
  | bind | classBinding | styleBinding => true
  | _ => false

/-! ### Spellings of a binding -/

namespace Directive

variable {name bound : String} {attr : Attribute} {d x y : Directive}

/-- A name is put together again from what is left of it and its modifiers. -/
theorem intercalate_splitModifiers (name : String) :
    ['.'].intercalate ((splitModifiers name).1.toList :: (splitModifiers name).2.map String.toList)
      = name.toList := by
  have hjoin : ['.'].intercalate (name.toList.splitOn '.') = name.toList :=
    List.intercalate_splitOn '.'
  unfold splitModifiers
  split
  · rename_i hnil
    exact absurd hnil (List.splitOnP_ne_nil _ _)
  · rename_i base modifiers hsplit
    rw [hsplit] at hjoin
    rw [List.map_map, String.toList_ofList]
    simpa [Function.comp_def] using hjoin

theorem splitModifiers_injective {s t : String} (h : splitModifiers s = splitModifiers t) :
    s = t := by
  rw [← String.toList_inj, ← intercalate_splitModifiers s, h, intercalate_splitModifiers t]

theorem eq_of_boundName? (h : boundName? name = some bound) :
    name = "v-bind:" ++ bound ∨ name = ":" ++ bound := by
  unfold boundName? at h
  cases hlong : Text.after? "v-bind:" name with
  | some rest =>
      rw [hlong] at h
      cases h
      exact .inl (Text.eq_append_of_after? hlong)
  | none =>
      rw [hlong] at h
      exact .inr (Text.eq_append_of_after? h)

theorem isSome_boundName? (bound : String) :
    (boundName? (":" ++ bound)).isSome ∧ (boundName? ("v-bind:" ++ bound)).isSome := by
  unfold boundName?
  rw [Text.after?_append, Text.after?_append]
  refine ⟨?_, rfl⟩
  cases Text.after? "v-bind:" (":" ++ bound) <;> rfl

/-- A directive whose name is marked as a binding is read off what follows the mark. -/
theorem ofAttribute?_of_boundName? (h : boundName? name = some bound)
    (value : Option String) :
    ofAttribute? (name, value)
      = if (splitModifiers bound).1 = "" ∨ Text.beginsWith "[" (splitModifiers bound).1 then none
        else some ⟨kindOfBinding (splitModifiers bound).1, name, some (splitModifiers bound).1,
          (splitModifiers bound).2, value⟩ := by
  have hfixed : ∀ fixed ∈ ["ref", "class", "style"], name ≠ fixed := by
    rintro fixed hfixed rfl
    have hall : ∀ fixed ∈ ["ref", "class", "style"], boundName? fixed = none := by decide
    rw [hall _ hfixed] at h
    cases h
  unfold ofAttribute?
  dsimp only
  rw [if_neg (hfixed _ (by simp)), if_neg (hfixed _ (by simp)), if_neg (hfixed _ (by simp)), h]

/-- A directive whose name is marked as a binding is one. -/
theorem isBinding_of_boundName? (hname : (boundName? name).isSome) {kind : DirectiveKind}
    (h : kind? name = some kind) : kind.isBinding = true := by
  obtain ⟨bound, hbound⟩ := Option.isSome_iff_exists.mp hname
  unfold kind? at h
  rw [ofAttribute?_of_boundName? hbound] at h
  split at h
  · cases h
  · cases h
    unfold kindOfBinding
    dsimp only
    split
    · rfl
    · split <;> rfl

/-- A binding is read off a name that is marked as one. -/
theorem exists_boundName? (h : ofAttribute? attr = some d) (hkind : d.kind.isBinding = true) :
    ∃ bound, boundName? attr.1 = some bound ∧
      (d.arg, d.modifiers) = (some (splitModifiers bound).1, (splitModifiers bound).2) := by
  obtain ⟨name, value⟩ := attr
  unfold ofAttribute? at h
  dsimp only at h
  split at h
  · cases h; cases hkind
  · split at h
    · cases h; cases hkind
    · split at h
      · cases h; cases hkind
      · split at h
        · rename_i bound hbound
          split at h
          · cases h
          · cases h
            exact ⟨bound, hbound, rfl⟩
        · obtain ⟨rest, -, hmap⟩ := Option.bind_eq_some_iff.mp h
          obtain ⟨kind, hword, rfl⟩ := Option.map_eq_some_iff.mp hmap
          unfold kindOfWord? at hword
          split at hword <;> cases hword <;> cases hkind

/-- Two bindings of one property with the same modifiers have one name in both spellings. -/
theorem exists_spellings {attr attr' : Attribute} (hx : ofAttribute? attr = some x)
    (hy : ofAttribute? attr' = some y) (hxkind : x.kind.isBinding = true)
    (hykind : y.kind.isBinding = true) (hne : attr.1 ≠ attr'.1) (harg : x.arg = y.arg)
    (hmodifiers : x.modifiers = y.modifiers) :
    ∃ bound, ":" ++ bound ∈ [attr.1, attr'.1] ∧ "v-bind:" ++ bound ∈ [attr.1, attr'.1] := by
  obtain ⟨bound, hbound, hparts⟩ := exists_boundName? hx hxkind
  obtain ⟨bound', hbound', hparts'⟩ := exists_boundName? hy hykind
  have hsame : bound = bound' := by
    rw [harg, hmodifiers, hparts'] at hparts
    obtain ⟨harg, hmodifiers⟩ := Prod.mk.inj hparts
    exact (splitModifiers_injective (Prod.ext (Option.some.inj harg) hmodifiers)).symm
  subst hsame
  refine ⟨bound, ?_⟩
  rcases eq_of_boundName? hbound with hlong | hshort
  · rcases eq_of_boundName? hbound' with hlong' | hshort'
    · exact absurd (hlong.trans hlong'.symm) hne
    · simp [hlong, hshort']
  · rcases eq_of_boundName? hbound' with hlong' | hshort'
    · simp [hshort, hlong']
    · exact absurd (hshort.trans hshort'.symm) hne

end Directive

/-! ### What the passes do to a binding in both spellings -/

namespace Adapter

variable {setting : Setting} {attrs attrs' : Attributes} {name : String}

/-- The adapter of bindings fails exactly on a binding in both spellings, and names them. -/
theorem binding_eq_error {site : Site} {error : CompileError}
    (h : binding setting site attrs = .error error) :
    ∃ property, ":" ++ property ∈ attrs.names ∧ "v-bind:" ++ property ∈ attrs.names ∧
      error = .conflict site.tag ("v-bind:" ++ property) (":" ++ property) site.span := by
  unfold binding at h
  split at h
  · rename_i long short hdouble
    cases h
    unfold Attributes.doubleBinding? at hdouble
    obtain ⟨name, hname, hfound⟩ := List.exists_of_findSome?_eq_some hdouble
    cases hafter : Text.after? ":" name with
    | none =>
        rw [hafter] at hfound
        cases hfound
    | some property =>
        rw [hafter] at hfound
        dsimp only at hfound
        split at hfound
        · rename_i hlong
          cases hfound
          obtain rfl := Text.eq_append_of_after? hafter
          exact ⟨property, hname, Attributes.contains_iff.mp hlong, rfl⟩
        · cases hfound
  · cases h

theorem binding_eq_ok (site : Site) (h : binding setting site attrs = .ok attrs') :
    attrs' = showing setting.dialect.showSlot (properties setting.dialect.binding attrs) := by
  unfold binding at h
  split at h
  · cases h
  · cases h
    rfl

theorem boundOnce_of_binding (site : Site) (h : binding setting site attrs = .ok attrs') :
    attrs.BoundOnce := by
  rw [← Attributes.doubleBinding?_eq_none_iff]
  unfold binding at h
  split at h
  · cases h
  · assumption

theorem total_reference (setting : Setting) : Total reference setting := by
  intro site attrs
  unfold reference
  split
  · exact ⟨_, rfl⟩
  · dsimp only
    split
    · exact ⟨_, rfl⟩
    · split
      · exact ⟨_, rfl⟩
      · exact ⟨_, rfl⟩

theorem total_model (setting : Setting) : Total model setting := by
  intro site attrs
  unfold model
  split
  · exact ⟨_, rfl⟩
  · dsimp only
    split
    · exact ⟨_, rfl⟩
    · exact ⟨_, rfl⟩

theorem mem_names_addClass (marker : String) (hname : name ∈ attrs.names) :
    name ∈ (attrs.addClass marker).names := by
  unfold Attributes.addClass
  split
  · exact Attributes.mem_names_set.mpr (.inl hname)
  · split
    · exact hname
    · split
      · exact Attributes.mem_names_set.mpr (.inl hname)
      · exact Attributes.mem_names_set.mpr (.inl hname)

/-- The adapter of references takes one name away. -/
theorem mem_names_reference (site : Site) (hd : attrs.Distinct)
    (h : reference setting site attrs = .ok attrs') (hname : name ∈ attrs.names)
    (hne : name ≠ "ref") : name ∈ attrs'.names := by
  unfold reference at h
  split at h
  · cases h
    exact hname
  · rename_i value href
    have hmem : "ref" ∈ attrs.names := Attributes.mem_names_of_get? href
    dsimp only at h
    split at h
    · cases h
      exact Attributes.mem_names_erase.mpr ⟨hname, hne⟩
    · split at h
      · cases h
        exact Attributes.mem_names_erase.mpr ⟨hname, hne⟩
      · cases h
        exact mem_names_addClass _
          ((Attributes.mem_names_replaceD_one hd hmem).mpr (.inr ⟨hname, hne⟩))

/-- The adapter of two-way bindings takes names of its own kind away. -/
theorem mem_names_model (site : Site) (hδ : setting.dialect.Proper) (hd : attrs.Distinct)
    (h : model setting site attrs = .ok attrs') (hname : name ∈ attrs.names)
    (hkind : Directive.kind? name ≠ some .model) : name ∈ attrs'.names := by
  unfold model at h
  split at h
  · cases h
    exact hname
  · rename_i d hfound
    obtain ⟨hmem, hk⟩ := Attributes.name_of_directive? hfound
    have hne : name ≠ d.name := by
      rintro rfl
      exact hkind hk
    dsimp only at h
    split at h
    · cases h
      exact Attributes.mem_names_erase.mpr ⟨hname, hne⟩
    · cases h
      refine (Attributes.mem_names_replaceD hd hmem ?_).mpr (.inr ⟨hname, hne⟩)
      rw [ModelForm.map_fst_attributes]
      exact hδ.model

end Adapter

/-- Up to the pass of bindings no binding is lost. -/
theorem AdaptedBy.mem_names_of_boundName? {setting : Setting} {tag : String}
    {attrs attrs' : Attributes} (hδ : setting.dialect.Proper)
    (h : AdaptedBy setting tag [.ref, .model] attrs attrs') (hd : attrs.Distinct) {name : String}
    (hname : name ∈ attrs.names) (hbound : (Directive.boundName? name).isSome) :
    name ∈ attrs'.names := by
  have hnot : ∀ kind, kind.isBinding = false → Directive.kind? name ≠ some kind := by
    intro kind hkind hk
    rw [Directive.isBinding_of_boundName? hbound hk] at hkind
    cases hkind
  have href : name ≠ "ref" := by
    rintro rfl
    exact hnot .ref rfl (by decide)
  have hcut : AdaptedBy setting tag ([.ref] ++ [.model]) attrs attrs' := h
  obtain ⟨attrs₁, hreference, hmodel⟩ := hcut.of_append
  obtain ⟨site, -, hstep⟩ := hreference.of_singleton
  obtain ⟨site', -, hstep'⟩ := hmodel.of_singleton
  have hd₁ := (Adapter.writesOnly_reference site hd hstep).distinct
  have hname₁ := Adapter.mem_names_reference site hd hstep hname href
  exact Adapter.mem_names_model site' hδ hd₁ hstep' hname₁ (hnot .model rfl)

/-! ### The whole tree -/

theorem Pass.spanOf_run (pass : Pass) (setting : Setting) {d : Document} (hd : d.Linked)
    (id : Nat) : (pass.run setting d).document.spanOf id = d.spanOf id := by
  rcases Document.adaptAll_cases hd pass.adapter setting with
    ⟨-, hall⟩ | ⟨_, _, _, _, _, -, -, hfront, -⟩
  · exact hall.span id
  · exact hfront.span id

namespace Pipeline

variable {setting : Setting} {front back : Pipeline} {d : Document}

theorem spanOf_run (passes : Pipeline) (setting : Setting) (id : Nat) :
    ∀ {d : Document}, d.Linked → (passes.run setting d).document.spanOf id = d.spanOf id := by
  induction passes with
  | nil => exact fun _ => rfl
  | cons pass passes ih =>
      intro d hd
      cases herror : (pass.run setting d).error with
      | none =>
          rw [run_cons_of_none herror, ih (pass.linked_run setting hd), pass.spanOf_run setting hd]
      | some error => rw [run_cons_of_error herror, pass.spanOf_run setting hd]

/-- Passes that succeed are followed by the others. -/
theorem run_append_of_none (h : (front.run setting d).error = none) :
    (front ++ back).run setting d = back.run setting (front.run setting d).document := by
  induction front generalizing d with
  | nil => rfl
  | cons pass front ih =>
      cases herror : (pass.run setting d).error with
      | none =>
          rw [run_cons_of_none herror] at h ⊢
          rw [List.cons_append, run_cons_of_none herror]
          exact ih h
      | some error =>
          rw [run_cons_of_error herror, herror] at h
          cases h

/-- After passes that fail the others do not follow. -/
theorem run_append_of_error {error : CompileError} (h : (front.run setting d).error = some error) :
    (front ++ back).run setting d = front.run setting d := by
  induction front generalizing d with
  | nil => cases h
  | cons pass front ih =>
      rw [List.cons_append]
      cases herror : (pass.run setting d).error with
      | none =>
          rw [run_cons_of_none herror] at h ⊢
          rw [run_cons_of_none herror]
          exact ih h
      | some error => rw [run_cons_of_error herror, run_cons_of_error herror]

/-- What passes that succeed leave of an element comes from an element. -/
theorem exists_element {passes : Pipeline} {d' : Document} (hd : d.Linked)
    (h : passes.run setting d = ⟨d', none⟩) {id : Nat} {e' : Element}
    (he' : d'.element? id = some e') :
    ∃ e attrs, d.element? id = some e ∧ AdaptedBy setting e.tag passes e.attrs attrs ∧
      e' = { e with attrs } := by
  obtain ⟨htree, helements⟩ := run_eq_ok hd h
  obtain ⟨e, he⟩ : ∃ e, d.element? id = some e := by
    have hsame := htree.isElement_eq id
    unfold Document.isElement at hsame
    rw [← Option.isSome_iff_exists, ← hsame, he']
    rfl
  obtain ⟨attrs, hby, hnow⟩ := helements id e he
  exact ⟨e, attrs, he, hby, Option.some.inj (he'.symm.trans hnow)⟩

end Pipeline

namespace Document

variable {d : Document}

/-- A tree with a binding in both spellings is not adapted to any platform, and the error names
such a binding and the element that it is on. -/
theorem exists_conflict (hd : d.Built) (target : Target) (style : Option StyleConfig) {id : Nat}
    {e : Element} (he : d.element? id = some e) {property : String}
    (hshort : ":" ++ property ∈ e.attrs.names) (hlong : "v-bind:" ++ property ∈ e.attrs.names) :
    ∃ id' e' property', d.element? id' = some e' ∧
      (d.adapt (.forTarget target style)).error
        = some (.conflict e'.tag ("v-bind:" ++ property') (":" ++ property') (d.spanOf id')) := by
  let front : Pipeline := [.ref, .model]
  let d₂ := (front.run (.forTarget target style) d).document
  have hnone : (front.run (.forTarget target style) d).error = none := by
    refine Pipeline.run_total (fun pass hpass => ?_) d
    rcases List.mem_cons.mp hpass with rfl | hpass
    · exact Adapter.total_reference _
    · rw [List.mem_singleton.mp hpass]
      exact Adapter.total_model _
  have hrun : front.run (.forTarget target style) d = ⟨d₂, none⟩ := by rw [← hnone]
  obtain ⟨htree, helements⟩ := Pipeline.run_eq_ok hd.linked hrun
  have hlinked₂ : d₂.Linked := hd.linked.of_sameTree htree
  have hspan : ∀ i, d₂.spanOf i = d.spanOf i := fun i => front.spanOf_run _ i hd.linked
  -- The pass of bindings sees both spellings.
  obtain ⟨attrs₂, hby, he₂⟩ := helements id e he
  have hnot : ¬ attrs₂.BoundOnce := by
    obtain ⟨hsomeShort, hsomeLong⟩ := Directive.isSome_boundName? property
    intro honce
    refine honce property ?_ ?_
    · exact hby.mem_names_of_boundName? target.proper_dialect (hd.distinct id e he) hshort
        hsomeShort
    · exact hby.mem_names_of_boundName? target.proper_dialect (hd.distinct id e he) hlong hsomeLong
  unfold adapt
  rw [show Pass.standard = front ++ [.binding, .conditional, .iteration, .classes, .styles] from rfl,
    Pipeline.run_append_of_none hnone]
  rcases adaptAll_cases hlinked₂ Pass.binding.adapter (.forTarget target style) with
    ⟨-, hall⟩ | ⟨before, id', after, e', error, -, hsome, hfront, he', herror⟩
  · obtain ⟨attrs₃, hstep, -⟩ :=
      hall.adapted id (mem_preorder_of_element? hlinked₂ he₂) _ he₂
    exact absurd (Adapter.boundOnce_of_binding _ hstep) hnot
  · obtain ⟨property', -, -, rfl⟩ := Adapter.binding_eq_error herror
    obtain ⟨e₀, attrs', he₀, -, rfl⟩ := Pipeline.exists_element hd.linked hrun he'
    refine ⟨id', e₀, property', he₀, ?_⟩
    have hfailed : (Pass.binding.run (.forTarget target style) d₂).error
        = some (.conflict e₀.tag ("v-bind:" ++ property') (":" ++ property') (d.spanOf id')) := by
      refine Eq.trans hsome ?_
      rw [← hspan id', ← hfront.span id']
      rfl
    rw [Pipeline.run_cons_of_error hfailed]
    exact hfailed

end Document

/-- A binding that is written twice is rejected on every platform.  If an element of the source has
two binding attributes for one property (the class and the style included) with the same modifiers,
in whatever mix of spellings, compiling fails, and the error names a binding in both spellings and
the place of its element. -/
theorem compile_double_binding {source : String} {d : Document}
    (hparse : Document.parse source = .ok d) (target : Target) (style : Option StyleConfig) {id : Nat}
    {e : Element} (he : d.element? id = some e) {x y : Directive} (hx : x ∈ e.attrs.directives)
    (hy : y ∈ e.attrs.directives) (hne : x ≠ y) (hxkind : x.kind.isBinding = true)
    (hykind : y.kind.isBinding = true) (harg : x.arg = y.arg)
    (hmodifiers : x.modifiers = y.modifiers) :
    ∃ id' e' property, d.element? id' = some e' ∧ compile source target style
      = .error (.conflict e'.tag ("v-bind:" ++ property) (":" ++ property) (d.spanOf id')) := by
  have hd := Document.built_of_parse hparse
  obtain ⟨hxmem, hxname, hxof, -⟩ := Attributes.mem_of_mem_directives hx
  obtain ⟨hymem, hyname, hyof, -⟩ := Attributes.mem_of_mem_directives hy
  have hnames : x.name ≠ y.name := by
    intro heq
    have hentry : (x.name, x.value) = (y.name, y.value) :=
      List.inj_on_of_nodup_map (hd.distinct id e he) hxmem hymem heq
    rw [hentry, hyof] at hxof
    exact hne (Option.some.inj hxof).symm
  obtain ⟨bound, hshort, hlong⟩ :=
    Directive.exists_spellings hxof hyof hxkind hykind hnames harg hmodifiers
  have hmem : ∀ n ∈ [x.name, y.name], n ∈ e.attrs.names := by
    intro n hn
    rcases List.mem_cons.mp hn with rfl | hn
    · exact hxname
    · rw [List.mem_singleton.mp hn]
      exact hyname
  obtain ⟨id', e', property, he', herror⟩ :=
    Document.exists_conflict hd target style he (hmem _ hshort) (hmem _ hlong)
  refine ⟨id', e', property, he', ?_⟩
  rw [compile_of_parse hparse, herror]

/-- A property with a modifier, bound in both spellings beside a condition. -/
theorem compile_double_binding_spellings :
    let source := "<p v-if=\"a\" :t.sync=\"b\" v-bind:t.sync=\"c\"></p>"
    ∃ d, Document.parse source = .ok d ∧ ∃ id' e' property, d.element? id' = some e' ∧
      compile source .wx none
        = .error (.conflict e'.tag ("v-bind:" ++ property) (":" ++ property) (d.spanOf id')) := by
  intro source
  let x : Directive := ⟨.bind, ":t.sync", some "t", ["sync"], some "b"⟩
  let y : Directive := ⟨.bind, "v-bind:t.sync", some "t", ["sync"], some "c"⟩
  have hfound : ∃ e ∈ (Document.parse source).toOption.bind (·.element? 0),
      x ∈ e.attrs.directives ∧ y ∈ e.attrs.directives := by decide +kernel
  obtain ⟨e, he, hx, hy⟩ := hfound
  obtain ⟨d, hparse, he⟩ := Option.bind_eq_some_iff.mp he
  have hparse : Document.parse source = .ok d := by
    cases h : Document.parse source with
    | error error =>
        rw [h] at hparse
        cases hparse
    | ok d' =>
        rw [h] at hparse
        cases hparse
        rfl
  exact ⟨d, hparse, compile_double_binding hparse .wx none he hx hy (by decide) rfl rfl rfl rfl⟩

/-- Two bindings of one property with different modifiers are not found, and the one that stands
first is lost. -/
theorem compile_double_binding_modifiers :
    let source := "<view :title=\"x\" v-bind:title.sync=\"y\"></view>"
    let x : Directive := ⟨.bind, ":title", some "title", [], some "x"⟩
    let y : Directive := ⟨.bind, "v-bind:title.sync", some "title", ["sync"], some "y"⟩
    (Document.parse source).toOption.bind (fun d => (d.element? 0).map fun e => e.attrs.directives)
        = some [x, y] ∧
      compile source .wx none
        = .ok "<view title=\"\x7b\x7by\x7d\x7d\" class=\" cml-base cml-view\"></view>" := by
  decide +kernel

end TemplateCompiler
