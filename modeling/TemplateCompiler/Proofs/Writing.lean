/-
What the adapters write.

An adapter brings in few names: those of its dialect, which are listed here, and, where
bindings become attributes, the properties that are bound.  All other names were there
before.  Nor does an adapter make two attributes of one name.  Both facts are `WritesOnly`,
which every operation on attributes continues, so that each adapter is one chain of them.
-/
import TemplateCompiler.Pipeline
import TemplateCompiler.Proofs.Directives

namespace TemplateCompiler

/-! ### Operations -/

namespace Attributes

/-- `attrs'` is a map, and its names are those of `attrs` and some that are allowed. -/
structure WritesOnly (allowed : String → Prop) (attrs attrs' : Attributes) : Prop where
  distinct : attrs'.Distinct
  names : ∀ n ∈ attrs'.names, n ∈ attrs.names ∨ allowed n

namespace WritesOnly

variable {allowed : String → Prop} {attrs attrs' : Attributes} {name : String}

protected theorem refl (hd : attrs.Distinct) : WritesOnly allowed attrs attrs :=
  ⟨hd, fun _ hn => Or.inl hn⟩

theorem mono {allowed' : String → Prop} (h : WritesOnly allowed attrs attrs')
    (hallowed : ∀ n, allowed n → allowed' n) : WritesOnly allowed' attrs attrs' :=
  ⟨h.distinct, fun n hn => (h.names n hn).imp_right (hallowed n)⟩

theorem erase (h : WritesOnly allowed attrs attrs') (name : String) :
    WritesOnly allowed attrs (attrs'.erase name) :=
  ⟨h.distinct.erase name, fun n hn => h.names n (mem_names_erase.mp hn).1⟩

theorem insert (h : WritesOnly allowed attrs attrs') (hname : allowed name) (value : String) :
    WritesOnly allowed attrs (attrs'.insert name value) := by
  refine ⟨h.distinct.set name _, fun n hn => ?_⟩
  rcases mem_names_set.mp hn with hn | rfl
  · exact h.names n hn
  · exact Or.inr hname

/-- An entry that is there may be given a value whatever its name is. -/
theorem insert_of_mem (h : WritesOnly allowed attrs attrs') (hname : name ∈ attrs.names)
    (value : String) : WritesOnly allowed attrs (attrs'.insert name value) := by
  refine ⟨h.distinct.set name _, fun n hn => ?_⟩
  rcases mem_names_set.mp hn with hn | rfl
  · exact h.names n hn
  · exact Or.inl hname

theorem insertBefore (h : WritesOnly allowed attrs attrs') (hname : allowed name)
    (anchor value : String) : WritesOnly allowed attrs (attrs'.insertBefore anchor name value) := by
  refine ⟨h.distinct.insertBefore anchor name value, fun n hn => ?_⟩
  rcases mem_names_insertBefore.mp hn with hn | rfl
  · exact h.names n hn
  · exact Or.inr hname

theorem replaceD (h : WritesOnly allowed attrs attrs') (name : String) {new : List Attribute}
    (hnodup : (new.map Prod.fst).Nodup) (hnew : ∀ n ∈ new.map Prod.fst, allowed n) :
    WritesOnly allowed attrs (attrs'.replaceD name new) := by
  refine ⟨h.distinct.replaceD name hnodup, fun n hn => ?_⟩
  rcases mem_names_of_replaceD h.distinct hnodup hn with hn | hn
  · exact Or.inr (hnew n hn)
  · exact h.names n hn.1

/-- Writing one attribute in the place of another. -/
theorem replaceD_one (h : WritesOnly allowed attrs attrs') (name : String) {new : String}
    (hnew : allowed new) (value : Option String) :
    WritesOnly allowed attrs (attrs'.replaceD name [(new, value)]) :=
  h.replaceD name (List.nodup_singleton new) fun n hn => by
    rw [List.map_cons, List.map_nil, List.mem_singleton] at hn
    exact hn ▸ hnew

theorem rename (h : WritesOnly allowed attrs attrs') (name : String) {new : String}
    (hnew : allowed new) : WritesOnly allowed attrs ((attrs'.rename name new).getD attrs') := by
  cases hlookup : attrs'.lookup? name with
  | none =>
      unfold Attributes.rename
      rw [hlookup]
      exact h
  | some value =>
      rw [rename_eq hlookup]
      exact h.replaceD_one name hnew value

end WritesOnly

end Attributes

/-! ### The names of a dialect -/

/-- The attributes of conditional elements. -/
def ConditionalNames.names (c : ConditionalNames) : List String :=
  [c.ifName, c.elseIfName, c.elseName]

theorem ConditionalNames.nameOf_mem (c : ConditionalNames) (kind : DirectiveKind) :
    c.nameOf kind ∈ c.names := by
  unfold nameOf names
  cases kind <;> simp

/-- The attributes that loops are split into. -/
def IterationForm.names : IterationForm → List String
  | keep => []
  | split itemName indexName sourceName _ => [itemName, indexName, sourceName]

/-- The attributes that stand for a two-way binding. -/
def ModelForm.names : ModelForm → List String
  | listener eventName valueName => [eventName, valueName]
  | dataKey keyName eventName valueName => [keyName, eventName, valueName]

theorem ModelForm.map_fst_attributes (form : ModelForm) (key : String) :
    (form.attributes key).map Prod.fst = form.names := by
  cases form <;> rfl

/-- The attribute that takes the style text, and the one that makes room for it. -/
def ShowSlot.names : ShowSlot → List String
  | binding name => [name, longBindingName name]
  | static name => [name]

/-- The attribute that stands for a reference name. -/
def ReferenceForm.names : ReferenceForm → List String
  | drop => []
  | identity idName _ => [idName]

/-- The attribute that style bindings are merged into. -/
def StyleMode.names : StyleMode → List String
  | drop => []
  | proxyWithConfig | proxy => [styleBindingName]

namespace Dialect

/-- Every name that the adapters of the dialect write, but for those of bound properties. -/
def written (δ : Dialect) : List String :=
  "class" :: "style" :: (δ.reference.names ++ δ.model.names ++ δ.showSlot.names ++
    δ.conditional.names ++ δ.iteration.names ++ δ.styleMode.names)

/-- The adapters of the dialect may write the name to an element with these attributes. -/
def Writes (δ : Dialect) (attrs : Attributes) (name : String) : Prop :=
  name ∈ δ.written ∨ (δ.binding ≠ .keep ∧ ∃ d ∈ attrs.directivesOf .bind, d.arg = some name)

/-- What the adapters write at once does not collide with itself. -/
structure Proper (δ : Dialect) : Prop where
  model : δ.model.names.Nodup
  iteration : δ.iteration.names.Nodup

end Dialect

theorem Target.proper_dialect (target : Target) : target.dialect.Proper := by
  cases target <;> exact ⟨by decide, by decide⟩

/-! ### The adapters -/

namespace Adapter

open Attributes (WritesOnly)

variable {setting : Setting} {attrs attrs' : Attributes}

/-- What the dialect's adapters may make of the attributes. -/
abbrev Result (setting : Setting) (attrs attrs' : Attributes) : Prop :=
  WritesOnly (setting.dialect.Writes attrs) attrs attrs'

theorem writes_class : setting.dialect.Writes attrs "class" := Or.inl (by simp [Dialect.written])

theorem writes_style : setting.dialect.Writes attrs "style" := Or.inl (by simp [Dialect.written])

theorem writes_reference {n : String} (h : n ∈ setting.dialect.reference.names) :
    setting.dialect.Writes attrs n := Or.inl (by simp [Dialect.written, h])

theorem writes_model {n : String} (h : n ∈ setting.dialect.model.names) :
    setting.dialect.Writes attrs n := Or.inl (by simp [Dialect.written, h])

theorem writes_showSlot {n : String} (h : n ∈ setting.dialect.showSlot.names) :
    setting.dialect.Writes attrs n := Or.inl (by simp [Dialect.written, h])

theorem writes_conditional {n : String} (h : n ∈ setting.dialect.conditional.names) :
    setting.dialect.Writes attrs n := Or.inl (by simp [Dialect.written, h])

theorem writes_iteration {n : String} (h : n ∈ setting.dialect.iteration.names) :
    setting.dialect.Writes attrs n := Or.inl (by simp [Dialect.written, h])

theorem writes_styleMode {n : String} (h : n ∈ setting.dialect.styleMode.names) :
    setting.dialect.Writes attrs n := Or.inl (by simp [Dialect.written, h])

theorem writesOnly_reference (site : Site) (hd : attrs.Distinct)
    (h : reference setting site attrs = .ok attrs') : Result setting attrs attrs' := by
  unfold reference at h
  split at h
  · cases h
    exact .refl hd
  · dsimp only at h
    split at h
    · cases h
      exact (WritesOnly.refl hd).erase "ref"
    · rename_i idName marker hform
      split at h
      · cases h
        exact (WritesOnly.refl hd).erase "ref"
      · cases h
        have hid : setting.dialect.Writes attrs idName :=
          writes_reference (by rw [hform]; simp [ReferenceForm.names])
        have hreplaced : ∀ value, Result setting attrs (attrs.replaceD "ref" [(idName, value)]) :=
          (WritesOnly.refl hd).replaceD_one "ref" hid
        unfold Attributes.addClass
        split
        · exact (hreplaced _).insert writes_class _
        · split
          · exact hreplaced _
          · split
            · exact (hreplaced _).insert writes_class _
            · exact (hreplaced _).insert writes_class _

theorem writesOnly_model (site : Site) (hδ : setting.dialect.Proper) (hd : attrs.Distinct)
    (h : model setting site attrs = .ok attrs') : Result setting attrs attrs' := by
  unfold model at h
  split at h
  · cases h
    exact .refl hd
  · rename_i d hd'
    dsimp only at h
    split at h
    · cases h
      exact (WritesOnly.refl hd).erase d.name
    · cases h
      refine (WritesOnly.refl hd).replaceD d.name ?_ ?_
      · rw [ModelForm.map_fst_attributes]
        exact hδ.model
      · rw [ModelForm.map_fst_attributes]
        exact fun n hn => writes_model hn

/-- The bindings are replaced one after the other; each was among those of the element. -/
theorem writesOnly_foldl_plainBinding (encoding : Encoding)
    (hform : setting.dialect.binding ≠ .keep)
    {ds : List Directive} (hds : ∀ d ∈ ds, d ∈ attrs.directivesOf .bind) :
    ∀ {attrs' : Attributes}, Result setting attrs attrs' →
      Result setting attrs (ds.foldl (plainBinding encoding) attrs') := by
  induction ds with
  | nil => exact fun h => h
  | cons d ds ih =>
      intro attrs' h
      refine ih (fun d' hd' => hds d' (by simp [hd'])) ?_
      unfold plainBinding
      split
      · exact h
      · rename_i property harg
        exact h.replaceD_one d.name (Or.inr ⟨hform, d, hds d (by simp), harg⟩) _

theorem writesOnly_properties (hd : attrs.Distinct) :
    Result setting attrs (properties setting.dialect.binding attrs) := by
  unfold properties
  split
  · exact .refl hd
  · rename_i encoding hform
    exact writesOnly_foldl_plainBinding encoding (by rw [hform]; simp) (fun _ hd' => hd') (.refl hd)

theorem writesOnly_showing (h : Result setting attrs attrs') :
    Result setting attrs (showing setting.dialect.showSlot attrs') := by
  unfold showing
  split
  · exact h
  · rename_i d hd
    dsimp only
    split
    · exact h.erase d.name
    · unfold intoSlot
      split
      · rename_i slotName hslot
        have hwrites : ∀ n ∈ [slotName, longBindingName slotName], setting.dialect.Writes attrs n :=
          fun n hn => writes_showSlot (by rw [hslot]; exact hn)
        exact (h.rename slotName (hwrites _ (by simp))).replaceD_one d.name (hwrites _ (by simp)) _
      · rename_i slotName hslot
        have hwrites : setting.dialect.Writes attrs slotName :=
          writes_showSlot (by rw [hslot]; simp [ShowSlot.names])
        dsimp only
        split
        · exact h.replaceD_one d.name hwrites _
        · exact (h.insert hwrites _).erase d.name

theorem writesOnly_binding (site : Site) (hd : attrs.Distinct)
    (h : binding setting site attrs = .ok attrs') : Result setting attrs attrs' := by
  unfold binding at h
  split at h
  · cases h
  · cases h
    exact writesOnly_showing (writesOnly_properties hd)

theorem writesOnly_conditional (site : Site) (hd : attrs.Distinct)
    (h : conditional setting site attrs = .ok attrs') : Result setting attrs attrs' := by
  unfold conditional at h
  dsimp only at h
  split at h
  · cases h
    exact .refl hd
  · cases h
  · rename_i d hds
    split at h
    · cases h
      exact (WritesOnly.refl hd).replaceD_one d.name
        (writes_conditional (ConditionalNames.nameOf_mem _ d.kind)) _
    · cases h

theorem writesOnly_iteration (site : Site) (hδ : setting.dialect.Proper) (hd : attrs.Distinct)
    (h : iteration setting site attrs = .ok attrs') : Result setting attrs attrs' := by
  unfold iteration at h
  split at h
  · cases h
    exact .refl hd
  · rename_i d hd'
    split at h
    · cases h
    · split at h
      · cases h
        exact .refl hd
      · rename_i itemName indexName sourceName encoding hform
        split at h
        · cases h
          have hnames : [itemName, indexName, sourceName] = setting.dialect.iteration.names := by
            rw [hform]
            rfl
          refine (WritesOnly.refl hd).replaceD d.name ?_ ?_
          · show [itemName, indexName, sourceName].Nodup
            rw [hnames]
            exact hδ.iteration
          · show ∀ n ∈ [itemName, indexName, sourceName], _
            rw [hnames]
            exact fun n hn => writes_iteration hn
        · cases h

/-- The binding of the class that is looked up is among the attributes. -/
theorem mem_names_of_directive? {kind : DirectiveKind} {d : Directive}
    (h : attrs.directive? kind = some d) : d.name ∈ attrs.names :=
  (Attributes.mem_of_mem_directives (Attributes.mem_of_directive? h).1).2.1

theorem writesOnly_mergeClass (hd : attrs.Distinct) (base : String) (binding : Option Directive) :
    Result setting attrs (mergeClass base binding attrs) := by
  unfold mergeClass
  dsimp only
  split
  · exact .refl hd
  · split
    · exact (WritesOnly.refl hd).insert writes_class _
    · rename_i d
      split
      · exact (WritesOnly.refl hd).insert writes_class _
      · exact (WritesOnly.refl hd).insertBefore writes_class d.name _

theorem writesOnly_classes (site : Site) (hd : attrs.Distinct)
    (h : classes setting site attrs = .ok attrs') : Result setting attrs attrs' := by
  unfold classes at h
  dsimp only at h
  split at h
  · cases h
    exact writesOnly_mergeClass hd _ _
  · cases h
    unfold wrapClassBinding
    split
    · exact writesOnly_mergeClass hd _ _
    · rename_i d hbinding
      dsimp only
      split
      · exact writesOnly_mergeClass hd _ _
      · exact (writesOnly_mergeClass hd _ _).insert_of_mem (mem_names_of_directive? hbinding) _
  · cases h
    unfold foldClass
    dsimp only
    split
    · split
      · exact .refl hd
      · exact (WritesOnly.refl hd).insert writes_class _
    · rename_i d hbinding
      split
      · exact ((WritesOnly.refl hd).insert writes_class _).erase d.name
      · exact (WritesOnly.refl hd).replaceD_one d.name writes_class _

theorem writesOnly_eraseAll (ds : List Directive) :
    ∀ {attrs' : Attributes}, Result setting attrs attrs' →
      Result setting attrs (eraseAll ds attrs') := by
  induction ds with
  | nil => exact fun h => h
  | cons d ds ih => exact fun h => ih (h.erase d.name)

theorem writesOnly_styleBindings (hd : attrs.Distinct) :
    Result setting attrs (styleBindings setting.dialect.styleMode setting.style attrs) := by
  unfold styleBindings
  dsimp only
  split
  · exact writesOnly_eraseAll _ (.refl hd)
  · rename_i hmode
    have hwrites : setting.dialect.Writes attrs styleBindingName := by
      refine writes_styleMode ?_
      cases hform : setting.dialect.styleMode with
      | drop => exact absurd hform hmode
      | proxyWithConfig => simp [StyleMode.names]
      | proxy => simp [StyleMode.names]
    unfold mergeStyleBindings
    dsimp only
    split
    · exact .refl hd
    · rename_i first others hds
      split
      · exact .refl hd
      · split
        · exact writesOnly_eraseAll _ (.refl hd)
        · exact (writesOnly_eraseAll others (.refl hd)).replaceD_one first.name hwrites _

theorem writesOnly_styles (site : Site) (hd : attrs.Distinct)
    (h : styles setting site attrs = .ok attrs') : Result setting attrs attrs' := by
  unfold styles at h
  cases h
  unfold staticStyle
  split
  · exact writesOnly_styleBindings hd
  · dsimp only
    split
    · exact writesOnly_styleBindings hd
    · exact (writesOnly_styleBindings hd).insert writes_style _

end Adapter

/-- Every pass keeps attributes a map and writes only what its dialect does. -/
theorem Pass.writesOnly (pass : Pass) {setting : Setting} {site : Site} {attrs attrs' : Attributes}
    (hδ : setting.dialect.Proper) (hd : attrs.Distinct)
    (h : pass.adapter setting site attrs = .ok attrs') :
    attrs.WritesOnly (setting.dialect.Writes attrs) attrs' := by
  cases pass with
  | ref => exact Adapter.writesOnly_reference site hd h
  | model => exact Adapter.writesOnly_model site hδ hd h
  | binding => exact Adapter.writesOnly_binding site hd h
  | conditional => exact Adapter.writesOnly_conditional site hd h
  | iteration => exact Adapter.writesOnly_iteration site hδ hd h
  | classes => exact Adapter.writesOnly_classes site hd h
  | styles => exact Adapter.writesOnly_styles site hd h

/-- Only the pass of bindings writes the names of properties: the others do the same where bindings
are kept. -/
theorem Pass.writesOnly_written (pass : Pass) (hpass : pass ≠ .binding) {setting : Setting}
    {site : Site} {attrs attrs' : Attributes} (hδ : setting.dialect.Proper) (hd : attrs.Distinct)
    (h : pass.adapter setting site attrs = .ok attrs') :
    attrs.WritesOnly (· ∈ setting.dialect.written) attrs' := by
  let keeping : Setting := { setting with dialect := { setting.dialect with binding := .keep } }
  have hkeeping : pass.adapter keeping site attrs = .ok attrs' := by
    cases pass with
    | binding => exact absurd rfl hpass
    | _ => exact h
  have hwrites : attrs.WritesOnly (keeping.dialect.Writes attrs) attrs' :=
    pass.writesOnly ⟨hδ.model, hδ.iteration⟩ hd hkeeping
  refine hwrites.mono fun n hn => ?_
  rcases hn with hwritten | ⟨hbinding, -⟩
  · exact hwritten
  · exact absurd rfl hbinding

end TemplateCompiler
