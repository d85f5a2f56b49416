/-
No directive is left on the mini-program platforms.

Every pass takes away the directives of its own kinds, and none brings a directive back:
the names that the dialects of these platforms write are no directives, apart from the
static class and style, and neither is the property of a binding, as long as the property
does not itself look like one.  So the kinds that are gone only become more from pass to
pass, and after the last pass only the static ones are left.

A pass that adapts the first directive of its kind takes all of them away only if there
is no second one.  That is asked of the source, and since no pass brings directives in it
stays true up to the pass in question.
-/
import TemplateCompiler.Proofs.Skeleton

namespace TemplateCompiler

/-- The static class and style, which every platform has. -/
def DirectiveKind.isStatic : DirectiveKind → Bool
  | staticClass | staticStyle => true
  | _ => false

/-! ### Kinds that are gone -/

namespace Directive

/-- Attributes of this name are no directives, or static ones. -/
def Inert (name : String) : Prop := ∀ kind, kind? name = some kind → kind.isStatic = true

instance (name : String) : Decidable (Inert name) :=
  match h : kind? name with
  | none => .isTrue fun kind hkind => by rw [h] at hkind; cases hkind
  | some kind =>
    if hs : kind.isStatic = true then
      .isTrue fun kind' hkind => by rw [h] at hkind; cases hkind; exact hs
    else .isFalse fun hall => hs (hall kind h)

theorem Inert.ne {name : String} (h : Inert name) {kind : DirectiveKind}
    (hkind : kind.isStatic = false) : kind? name ≠ some kind := by
  intro hk
  rw [h kind hk] at hkind
  cases hkind

end Directive

namespace Attributes

variable {attrs attrs' : Attributes} {kind : DirectiveKind} {name : String}

/-- No attribute is a directive of the kind. -/
def Free (kind : DirectiveKind) (attrs : Attributes) : Prop :=
  ∀ n ∈ attrs.names, Directive.kind? n ≠ some kind

/-- No two attributes are directives of the kind. -/
def Single (kind : DirectiveKind) (attrs : Attributes) : Prop :=
  ∀ n ∈ attrs.names, ∀ m ∈ attrs.names,
    Directive.kind? n = some kind → Directive.kind? m = some kind → n = m

/-- Names are only lost, but for some that are no directives. -/
def Recedes (attrs attrs' : Attributes) : Prop :=
  ∀ n ∈ attrs'.names, n ∈ attrs.names ∨ Directive.Inert n

theorem Free.of_recedes (h : Free kind attrs) (hkind : kind.isStatic = false)
    (hrecedes : Recedes attrs attrs') : Free kind attrs' := by
  intro n hn
  rcases hrecedes n hn with hold | hinert
  · exact h n hold
  · exact hinert.ne hkind

theorem Single.of_recedes (h : Single kind attrs) (hkind : kind.isStatic = false)
    (hrecedes : Recedes attrs attrs') : Single kind attrs' := by
  have hold : ∀ n ∈ attrs'.names, Directive.kind? n = some kind → n ∈ attrs.names := by
    intro n hn hk
    rcases hrecedes n hn with hold | hinert
    · exact hold
    · exact absurd hk (hinert.ne hkind)
  intro n hn m hm hkn hkm
  exact h n (hold n hn hkn) m (hold m hm hkm) hkn hkm

/-- The property of a binding follows from the name of its attribute. -/
theorem exists_bind_of_name {d : Directive} (hd : d ∈ attrs'.directivesOf .bind)
    (hname : d.name ∈ attrs.names) : ∃ d' ∈ attrs.directivesOf .bind, d'.arg = d.arg := by
  obtain ⟨hmem, hkind⟩ := mem_directivesOf.mp hd
  obtain ⟨-, -, hof, -⟩ := mem_of_mem_directives hmem
  obtain ⟨value, hentry⟩ := mem_names.mp hname
  rw [Directive.ofAttribute?_eq] at hof
  obtain ⟨d₀, hd₀, hd₀d⟩ := Option.map_eq_some_iff.mp hof
  refine ⟨{ d₀ with value }, mem_directivesOf.mpr ⟨mem_directives.mpr ⟨_, hentry, ?_⟩, ?_⟩, ?_⟩
  · rw [Directive.ofAttribute?_eq, hd₀]
    rfl
  · rw [← hkind, ← hd₀d]
  · rw [← hd₀d]

theorem BindsPlainly.of_recedes (h : BindsPlainly attrs) (hrecedes : Recedes attrs attrs') :
    BindsPlainly attrs' := by
  intro d hd property harg
  obtain ⟨hmem, hkind⟩ := mem_directivesOf.mp hd
  obtain ⟨-, hname, -, hk⟩ := mem_of_mem_directives hmem
  rcases hrecedes d.name hname with hold | hinert
  · obtain ⟨d', hd', harg'⟩ := exists_bind_of_name hd hold
    exact h d' hd' property (harg'.trans harg)
  · rw [hkind] at hk
    exact absurd hk (hinert.ne rfl)

/-- The property of such a binding is no directive. -/
theorem BindsPlainly.inert (h : BindsPlainly attrs) {d : Directive} {property : String}
    (hd : d ∈ attrs.directivesOf .bind) (harg : d.arg = some property) :
    Directive.Inert property := by
  intro kind hk
  rw [h.kind?_eq_none hd harg] at hk
  cases hk

/-! ### Operations that take a directive away -/

/-- Erasing the one directive of a kind leaves none. -/
theorem Single.free_erase (h : Single kind attrs) (hname : name ∈ attrs.names)
    (hkind : Directive.kind? name = some kind) : Free kind (attrs.erase name) := by
  intro n hn hk
  obtain ⟨hmem, hne⟩ := mem_names_erase.mp hn
  exact hne (h n hmem name hname hk hkind)

/-- Replacing the one directive of a kind by others leaves none. -/
theorem Single.free_replaceD (h : Single kind attrs) (hd : attrs.Distinct)
    (hname : name ∈ attrs.names) (hkind : Directive.kind? name = some kind) {new : List Attribute}
    (hnodup : (new.map Prod.fst).Nodup)
    (hnew : ∀ n ∈ new.map Prod.fst, Directive.kind? n ≠ some kind) :
    Free kind (attrs.replaceD name new) := by
  intro n hn hk
  rcases mem_names_of_replaceD hd hnodup hn with hmem | ⟨hmem, hne⟩
  · exact hnew n hmem hk
  · exact hne (h n hmem name hname hk hkind)

/-- As `free_replaceD`, where one attribute is written that is no directive. -/
theorem Single.free_replaceD_one (h : Single kind attrs) (hd : attrs.Distinct)
    (hname : name ∈ attrs.names) (hkind : Directive.kind? name = some kind) {new : String}
    (hnew : Directive.Inert new) (hstatic : kind.isStatic = false) (value : Option String) :
    Free kind (attrs.replaceD name [(new, value)]) := by
  refine h.free_replaceD hd hname hkind (List.nodup_singleton new) ?_
  intro n hn
  rw [List.map_cons, List.map_nil, List.mem_singleton] at hn
  exact hn ▸ hnew.ne hstatic

theorem recedes_insert (attrs : Attributes) {new : String} (hnew : Directive.Inert new)
    (value : String) : Recedes attrs (attrs.insert new value) := by
  intro n hn
  rcases mem_names_set.mp hn with hold | rfl
  · exact Or.inl hold
  · exact Or.inr hnew

/-- The directive that is found first. -/
theorem name_of_directive? {d : Directive} (h : attrs.directive? kind = some d) :
    d.name ∈ attrs.names ∧ Directive.kind? d.name = some kind := by
  rw [directive?_eq_head?] at h
  exact name_of_mem_directivesOf (List.mem_of_head? h)

theorem free_of_directive?_eq_none (h : attrs.directive? kind = none) : Free kind attrs :=
  directive?_eq_none_iff.mp h

/-- Where a kind is listed once at most, only one name is of the kind. -/
theorem single_of_length_le (h : (attrs.directivesOf kind).length ≤ 1) : Single kind attrs := by
  intro n hn m hm hkn hkm
  obtain ⟨d, hd, rfl, hdkind⟩ := exists_directive_of_mem_names hn hkn
  obtain ⟨d', hd', rfl, hd'kind⟩ := exists_directive_of_mem_names hm hkm
  rw [eq_of_length_le_one h (mem_directivesOf.mpr ⟨hd, hdkind⟩)
    (mem_directivesOf.mpr ⟨hd', hd'kind⟩)]

end Attributes

/-! ### Platforms that replace every directive -/

/-- The dialect has attributes of its own for everything, and none of them is a directive. -/
structure Dialect.Replaces (δ : Dialect) : Prop where
  written : ∀ n ∈ δ.written, Directive.Inert n
  binding : δ.binding ≠ .keep
  iteration : δ.iteration ≠ .keep
  showSlot : ∃ name, δ.showSlot = .static name
  classMode : δ.classMode = .fold
  styleMode : δ.styleMode = .drop

theorem Target.replaces {target : Target} (h : target.isMiniProgram = true) :
    target.dialect.Replaces := by
  cases target with
  | web | weex => cases h
  | wx | alipay | baidu => exact ⟨by decide, by decide, by decide, ⟨_, rfl⟩, rfl, rfl⟩

/-- What the passes need of an element: of the directives that are adapted once there is no second
one, and no binding is of a directive. -/
structure Attributes.Authored (attrs : Attributes) : Prop where
  distinct : attrs.Distinct
  single : ∀ kind ∈ [DirectiveKind.model, .forEach, .showIf, .classBinding], attrs.Single kind
  plainly : attrs.BindsPlainly

theorem Attributes.WritesOnly.recedes {δ : Dialect} {attrs attrs' : Attributes}
    (h : attrs.WritesOnly (δ.Writes attrs) attrs') (hδ : δ.Replaces) (hplain : attrs.BindsPlainly) :
    attrs.Recedes attrs' := by
  intro n hn
  rcases h.names n hn with hold | hwritten | ⟨-, d, hd, harg⟩
  · exact Or.inl hold
  · exact Or.inr (hδ.written n hwritten)
  · exact Or.inr (hplain.inert hd harg)

theorem Attributes.Authored.of_recedes {attrs attrs' : Attributes} (h : attrs.Authored)
    (hd : attrs'.Distinct) (hrecedes : attrs.Recedes attrs') : attrs'.Authored := by
  refine ⟨hd, ?_, h.plainly.of_recedes hrecedes⟩
  intro kind hkind
  refine (h.single kind hkind).of_recedes ?_ hrecedes
  simp only [List.mem_cons, List.not_mem_nil, or_false] at hkind
  rcases hkind with rfl | rfl | rfl | rfl <;> rfl

/-! ### What each adapter takes away -/

namespace Adapter

open Attributes (Free Single Recedes)

variable {setting : Setting} {attrs attrs' : Attributes}

theorem mem_names_of_addClass {marker n : String} (h : n ∈ (attrs.addClass marker).names) :
    n ∈ attrs.names ∨ n = "class" := by
  unfold Attributes.addClass at h
  split at h
  · exact Attributes.mem_names_set.mp h
  · split at h
    · exact Or.inl h
    · split at h
      · exact Attributes.mem_names_set.mp h
      · exact Attributes.mem_names_set.mp h

theorem free_reference (site : Site) (hδ : setting.dialect.Replaces) (hd : attrs.Distinct)
    (h : reference setting site attrs = .ok attrs') : Free .ref attrs' := by
  have hfree : ∀ {attrs : Attributes}, "ref" ∉ attrs.names → Free .ref attrs :=
    fun hnot n hn hk => hnot (Directive.eq_ref_of_kind? hk ▸ hn)
  refine hfree ?_
  intro hmem
  unfold reference at h
  split at h
  · rename_i hnone
    cases h
    exact Attributes.get?_eq_none_iff.mp hnone hmem
  · dsimp only at h
    split at h
    · cases h
      exact (Attributes.mem_names_erase.mp hmem).2 rfl
    · rename_i idName marker hform
      split at h
      · cases h
        exact (Attributes.mem_names_erase.mp hmem).2 rfl
      · cases h
        have hid : idName ∈ setting.dialect.written := by
          simp [Dialect.written, hform, ReferenceForm.names]
        rcases mem_names_of_addClass hmem with hmem | hclass
        · rcases Attributes.mem_names_of_replaceD_one hd hmem with hnew | ⟨-, hne⟩
          · have href : Directive.kind? "ref" = some .ref := by decide
            rw [hnew] at href
            exact absurd href ((hδ.written idName hid).ne rfl)
          · exact hne rfl
        · exact absurd hclass (by decide)

theorem free_model (site : Site) (hδ : setting.dialect.Replaces) (hproper : setting.dialect.Proper)
    (hattrs : attrs.Authored) (h : model setting site attrs = .ok attrs') : Free .model attrs' := by
  unfold model at h
  split at h
  · rename_i hnone
    cases h
    exact Attributes.free_of_directive?_eq_none hnone
  · rename_i d hfound
    obtain ⟨hname, hkind⟩ := Attributes.name_of_directive? hfound
    have hsingle := hattrs.single .model (by simp)
    dsimp only at h
    split at h
    · cases h
      exact hsingle.free_erase hname hkind
    · cases h
      refine hsingle.free_replaceD hattrs.distinct hname hkind ?_ ?_
      · rw [ModelForm.map_fst_attributes]
        exact hproper.model
      · rw [ModelForm.map_fst_attributes]
        intro n hn
        refine (hδ.written n ?_).ne rfl
        simp [Dialect.written, hn]

/-- Replacing bindings takes their names away, whatever else it does. -/
theorem mem_names_of_foldl_plainBinding (encoding : Encoding) :
    ∀ {ds : List Directive} {attrs : Attributes} {n : String}, attrs.Distinct →
      (∀ d ∈ ds, ∀ property, d.arg = some property → Directive.kind? property ≠ some .bind) →
      (∀ d ∈ ds, d.arg ≠ none) → Directive.kind? n = some .bind →
      n ∈ (ds.foldl (plainBinding encoding) attrs).names →
      n ∈ attrs.names ∧ ∀ d ∈ ds, n ≠ d.name := by
  intro ds
  induction ds with
  | nil =>
      intro attrs n _ _ _ _ hn
      exact ⟨hn, fun d hd => absurd hd List.not_mem_nil⟩
  | cons d ds ih =>
      intro attrs n hdistinct hproperties harg hkind hn
      rw [List.foldl_cons] at hn
      unfold plainBinding at hn
      split at hn
      · rename_i hnone
        exact absurd hnone (harg d (by simp))
      · rename_i property hproperty
        have hnodup : ([(property, d.value.map encoding.encode)].map Prod.fst).Nodup :=
          List.nodup_singleton property
        obtain ⟨hmem, hne⟩ := ih (hdistinct.replaceD d.name hnodup)
          (fun d' hd' => hproperties d' (by simp [hd'])) (fun d' hd' => harg d' (by simp [hd']))
          hkind hn
        rcases Attributes.mem_names_of_replaceD_one hdistinct hmem with hnew | ⟨hold, hne'⟩
        · rw [hnew] at hkind
          exact absurd hkind (hproperties d (by simp) property hproperty)
        · refine ⟨hold, ?_⟩
          intro d' hd'
          rcases List.mem_cons.mp hd' with rfl | hd'
          · exact hne'
          · exact hne d' hd'

/-- Where bindings become attributes, none is left, unless one is of a property that is a binding
itself. -/
theorem free_properties (hδ : setting.dialect.Replaces) (hdistinct : attrs.Distinct)
    (hproperties : ∀ d ∈ attrs.directivesOf .bind, ∀ property, d.arg = some property →
      Directive.kind? property ≠ some .bind) :
    Free .bind (properties setting.dialect.binding attrs) := by
  unfold properties
  split
  · rename_i hform
    exact absurd hform hδ.binding
  · intro n hn hk
    have harg : ∀ d ∈ attrs.directivesOf .bind, d.arg ≠ none := by
      intro d hd hnone
      obtain ⟨hmem, hkind⟩ := Attributes.mem_directivesOf.mp hd
      obtain ⟨-, -, hof, -⟩ := Attributes.mem_of_mem_directives hmem
      obtain ⟨property, hsome, -⟩ := Directive.exists_property hof hkind
      rw [hnone] at hsome
      cases hsome
    obtain ⟨hmem, hne⟩ := mem_names_of_foldl_plainBinding _ hdistinct hproperties harg hk hn
    obtain ⟨d, hd, hname, hkind⟩ := Attributes.exists_directive_of_mem_names hmem hk
    exact hne d (Attributes.mem_directivesOf.mpr ⟨hd, hkind⟩) hname.symm

theorem free_showing (hδ : setting.dialect.Replaces) (hd : attrs.Distinct)
    (hsingle : Single .showIf attrs) : Free .showIf (showing setting.dialect.showSlot attrs) := by
  obtain ⟨slotName, hform⟩ := hδ.showSlot
  have hslot : Directive.Inert slotName :=
    hδ.written slotName (by simp [Dialect.written, hform, ShowSlot.names])
  rw [hform]
  unfold showing
  split
  · rename_i hnone
    exact Attributes.free_of_directive?_eq_none hnone
  · rename_i d hfound
    obtain ⟨hname, hkind⟩ := Attributes.name_of_directive? hfound
    dsimp only
    split
    · exact hsingle.free_erase hname hkind
    · unfold intoSlot
      dsimp only
      split
      · exact hsingle.free_replaceD_one hd hname hkind hslot rfl _
      · refine Single.free_erase ?_ ?_ hkind
        · exact hsingle.of_recedes rfl (Attributes.recedes_insert attrs hslot _)
        · exact Attributes.mem_names_set.mpr (Or.inl hname)

theorem free_binding (site : Site) (hδ : setting.dialect.Replaces) (hattrs : attrs.Authored)
    (h : binding setting site attrs = .ok attrs') : Free .bind attrs' ∧ Free .showIf attrs' := by
  unfold binding at h
  split at h
  · cases h
  · cases h
    have hproperties : attrs.WritesOnly (setting.dialect.Writes attrs)
        (properties setting.dialect.binding attrs) := writesOnly_properties hattrs.distinct
    have hauthored := hattrs.of_recedes hproperties.distinct
      (hproperties.recedes hδ hattrs.plainly)
    have hshowing : Result setting (properties setting.dialect.binding attrs) _ :=
      writesOnly_showing (.refl hauthored.distinct)
    have hfree := free_properties hδ hattrs.distinct fun d hd property hproperty =>
      (hattrs.plainly.inert hd hproperty).ne rfl
    exact ⟨hfree.of_recedes rfl (hshowing.recedes hδ hauthored.plainly),
      free_showing hδ hauthored.distinct (hauthored.single .showIf (by simp))⟩

/-- The condition that stands on an element is the only one, so none is left when it is replaced. -/
theorem free_conditional (site : Site) (hδ : setting.dialect.Replaces) (hd : attrs.Distinct)
    (h : conditional setting site attrs = .ok attrs') {kind : DirectiveKind}
    (hkind : kind.isConditional = true) : Free kind attrs' := by
  have hmem : ∀ n ∈ attrs.names, Directive.kind? n = some kind →
      ∃ c ∈ attrs.conditionals, c.name = n := by
    intro n hn hk
    obtain ⟨c, hc, hname, rfl⟩ := Attributes.exists_directive_of_mem_names hn hk
    exact ⟨c, Attributes.mem_conditionals.mpr ⟨hc, hkind⟩, hname⟩
  unfold conditional at h
  dsimp only at h
  split at h
  · rename_i hnone
    cases h
    intro n hn hk
    obtain ⟨c, hc, -⟩ := hmem n hn hk
    rw [hnone] at hc
    exact absurd hc List.not_mem_nil
  · cases h
  · rename_i d hone
    split at h
    · cases h
      intro n hn hk
      rcases Attributes.mem_names_of_replaceD_one hd hn with hnew | ⟨hold, hne⟩
      · have hwritten : setting.dialect.conditional.nameOf d.kind ∈ setting.dialect.written := by
          simp [Dialect.written, ConditionalNames.nameOf_mem]
        have hstatic : kind.isStatic = false := by
          cases kind <;> first | rfl | cases hkind
        rw [hnew] at hk
        exact (hδ.written _ hwritten).ne hstatic hk
      · obtain ⟨c, hc, hname⟩ := hmem n hold hk
        rw [hone, List.mem_singleton] at hc
        exact hne (by rw [← hname, hc])
    · cases h

theorem free_iteration (site : Site) (hδ : setting.dialect.Replaces)
    (hproper : setting.dialect.Proper) (hattrs : attrs.Authored)
    (h : iteration setting site attrs = .ok attrs') : Free .forEach attrs' := by
  unfold iteration at h
  split at h
  · rename_i hnone
    cases h
    exact Attributes.free_of_directive?_eq_none hnone
  · rename_i d hfound
    obtain ⟨hname, hkind⟩ := Attributes.name_of_directive? hfound
    split at h
    · cases h
    · split at h
      · rename_i hform
        exact absurd hform hδ.iteration
      · rename_i itemName indexName sourceName encoding hform
        split at h
        · cases h
          have hnames : [itemName, indexName, sourceName] = setting.dialect.iteration.names := by
            rw [hform]
            rfl
          refine (hattrs.single .forEach (by simp)).free_replaceD hattrs.distinct hname hkind ?_ ?_
          · show [itemName, indexName, sourceName].Nodup
            rw [hnames]
            exact hproper.iteration
          · show ∀ n ∈ [itemName, indexName, sourceName], _
            rw [hnames]
            intro n hn
            refine (hδ.written n ?_).ne rfl
            simp [Dialect.written, hn]
        · cases h

theorem free_classes (site : Site) (hδ : setting.dialect.Replaces) (hdistinct : attrs.Distinct)
    (hsingle : Single .classBinding attrs) (h : classes setting site attrs = .ok attrs') :
    Free .classBinding attrs' := by
  have hclass : Directive.Inert "class" := by decide
  unfold classes at h
  dsimp only at h
  rw [hδ.classMode] at h
  cases h
  unfold foldClass
  dsimp only
  split
  · rename_i hnone
    have hfree := Attributes.free_of_directive?_eq_none hnone
    split
    · exact hfree
    · exact hfree.of_recedes rfl (Attributes.recedes_insert attrs hclass _)
  · rename_i d hfound
    obtain ⟨hname, hkind⟩ := Attributes.name_of_directive? hfound
    split
    · refine (hsingle.of_recedes rfl (Attributes.recedes_insert attrs hclass _)).free_erase ?_ hkind
      exact Attributes.mem_names_set.mpr (Or.inl hname)
    · exact hsingle.free_replaceD_one hdistinct hname hkind hclass rfl _

theorem mem_names_eraseAll {ds : List Directive} :
    ∀ {attrs : Attributes} {n : String}, n ∈ (eraseAll ds attrs).names ↔
      n ∈ attrs.names ∧ ∀ d ∈ ds, n ≠ d.name := by
  induction ds with
  | nil =>
      intro attrs n
      simp [eraseAll]
  | cons d ds ih =>
      intro attrs n
      show n ∈ (eraseAll ds (attrs.erase d.name)).names ↔ _
      rw [ih, Attributes.mem_names_erase]
      simp [and_assoc]

theorem free_styles (site : Site) (hδ : setting.dialect.Replaces)
    (h : styles setting site attrs = .ok attrs') : Free .styleBinding attrs' := by
  have hfree : Free .styleBinding
      (styleBindings setting.dialect.styleMode setting.style attrs) := by
    rw [hδ.styleMode]
    show Free .styleBinding (eraseAll (attrs.directivesOf .styleBinding) attrs)
    intro n hn hk
    obtain ⟨hold, hne⟩ := mem_names_eraseAll.mp hn
    obtain ⟨d, hd, hname, hkind⟩ := Attributes.exists_directive_of_mem_names hold hk
    exact hne d (Attributes.mem_directivesOf.mpr ⟨hd, hkind⟩) hname.symm
  unfold styles at h
  cases h
  unfold staticStyle
  split
  · exact hfree
  · dsimp only
    split
    · exact hfree
    · exact hfree.of_recedes rfl (Attributes.recedes_insert _ (by decide) _)

end Adapter

/-! ### From pass to pass -/

/-- The kinds of directives that a pass takes away. -/
def Pass.removes : Pass → List DirectiveKind
  | ref => [.ref]
  | model => [.model]
  | binding => [.bind, .showIf]
  | conditional => [.ifCond, .elseIf, .otherwise]
  | iteration => [.forEach]
  | classes => [.classBinding]
  | styles => [.styleBinding]

/-- Every kind but the static ones is taken away by one of the passes. -/
theorem Pass.exists_removes {kind : DirectiveKind} (h : kind.isStatic = false) :
    ∃ pass ∈ Pass.standard, kind ∈ pass.removes := by
  cases kind with
  | ref => exact ⟨.ref, by decide, by decide⟩
  | model => exact ⟨.model, by decide, by decide⟩
  | bind | showIf => exact ⟨.binding, by decide, by decide⟩
  | ifCond | elseIf | otherwise => exact ⟨.conditional, by decide, by decide⟩
  | forEach => exact ⟨.iteration, by decide, by decide⟩
  | classBinding => exact ⟨.classes, by decide, by decide⟩
  | styleBinding => exact ⟨.styles, by decide, by decide⟩
  | staticClass | staticStyle => cases h

section

variable {setting : Setting} {attrs attrs' : Attributes}

/-- A pass takes its directives away. -/
theorem Pass.free (pass : Pass) {site : Site} (hδ : setting.dialect.Replaces)
    (hproper : setting.dialect.Proper) (hattrs : attrs.Authored)
    (h : pass.adapter setting site attrs = .ok attrs') :
    ∀ kind ∈ pass.removes, attrs'.Free kind := by
  have hd := hattrs.distinct
  intro kind hkind
  cases pass with
  | ref =>
      rw [List.mem_singleton.mp hkind]
      exact Adapter.free_reference site hδ hd h
  | model =>
      rw [List.mem_singleton.mp hkind]
      exact Adapter.free_model site hδ hproper hattrs h
  | binding =>
      obtain ⟨hbind, hshow⟩ := Adapter.free_binding site hδ hattrs h
      rcases List.mem_cons.mp hkind with rfl | hkind
      · exact hbind
      · rw [List.mem_singleton.mp hkind]
        exact hshow
  | conditional =>
      refine Adapter.free_conditional site hδ hd h ?_
      simp only [removes, List.mem_cons, List.not_mem_nil, or_false] at hkind
      rcases hkind with rfl | rfl | rfl <;> rfl
  | iteration =>
      rw [List.mem_singleton.mp hkind]
      exact Adapter.free_iteration site hδ hproper hattrs h
  | classes =>
      rw [List.mem_singleton.mp hkind]
      exact Adapter.free_classes site hδ hd (hattrs.single .classBinding (by simp)) h
  | styles =>
      rw [List.mem_singleton.mp hkind]
      exact Adapter.free_styles site hδ h

/-- A pass brings no directive in. -/
theorem Pass.recedes (pass : Pass) {site : Site} (hδ : setting.dialect.Replaces)
    (hproper : setting.dialect.Proper) (hattrs : attrs.Authored)
    (h : pass.adapter setting site attrs = .ok attrs') :
    attrs.Recedes attrs' ∧ attrs'.Authored := by
  have hwrites := pass.writesOnly hproper hattrs.distinct h
  have hrecedes := hwrites.recedes hδ hattrs.plainly
  exact ⟨hrecedes, hattrs.of_recedes hwrites.distinct hrecedes⟩

/-- What passes have taken away stays away, and every pass adds to it. -/
theorem AdaptedBy.free {tag : String} {passes : List Pass} (hδ : setting.dialect.Replaces)
    (hproper : setting.dialect.Proper) (h : AdaptedBy setting tag passes attrs attrs')
    (hattrs : attrs.Authored) :
    (∀ kind, kind.isStatic = false → attrs.Free kind → attrs'.Free kind) ∧
      ∀ pass ∈ passes, ∀ kind ∈ pass.removes, kind.isStatic = false → attrs'.Free kind := by
  induction h with
  | nil attrs => exact ⟨fun _ _ hfree => hfree, fun pass hpass => absurd hpass List.not_mem_nil⟩
  | @cons pass passes attrs attrs₁ attrs' site htag hstep hrest ih =>
      obtain ⟨hrecedes, hattrs₁⟩ := pass.recedes hδ hproper hattrs hstep
      obtain ⟨hkeep, hmore⟩ := ih hattrs₁
      refine ⟨?_, ?_⟩
      · intro kind hstatic hfree
        exact hkeep kind hstatic (hfree.of_recedes hstatic hrecedes)
      · intro pass' hpass' kind hkind hstatic
        rcases List.mem_cons.mp hpass' with rfl | hpass'
        · exact hkeep kind hstatic (pass'.free hδ hproper hattrs hstep kind hkind)
        · exact hmore pass' hpass' kind hkind hstatic

end

/-- No directive is left in what is compiled for a mini-program platform, but for the static class
and style, if on every element of the source a `v-model`, a `v-for`, a `v-show` and a binding of
the class occur once at most, and no binding is of a property that looks like a directive. -/
theorem compile_residue {source out : String} {target : Target} {style : Option StyleConfig}
    (hmini : target.isMiniProgram = true) (h : compile source target style = .ok out)
    (hsource : ∀ d₀, Document.parse source = .ok d₀ → ∀ id e, d₀.element? id = some e →
      (∀ kind ∈ [DirectiveKind.model, .forEach, .showIf, .classBinding],
        (e.attrs.directivesOf kind).length ≤ 1) ∧ e.attrs.BindsPlainly) :
    ∃ d', Document.parse out = .ok d' ∧ ∀ id e, d'.element? id = some e →
      ∀ attr ∈ e.attrs.entries, ∀ d, Directive.ofAttribute? attr = some d →
        d.kind = .staticClass ∨ d.kind = .staticStyle := by
  obtain ⟨d₀, d₁, hparse, hadapt, rfl⟩ := Document.compile_eq_ok h
  obtain ⟨d', hparse', hadapted⟩ := Document.adapted_of_parse hparse hadapt
  refine ⟨d', hparse', ?_⟩
  intro id e' he' attr hattr d hd
  -- The element is found in the adapted tree and in that of the source.
  rw [hadapted.escaped] at he'
  obtain ⟨e₁, he₁, rfl⟩ := Option.map_eq_some_iff.mp he'
  obtain ⟨e, he⟩ : ∃ e, d₀.element? id = some e := by
    rw [← Option.isSome_iff_exists]
    have := hadapted.tree.isElement_eq id
    unfold Document.isElement at this
    rw [← this, he₁]
    rfl
  obtain ⟨attrs, hby, hnow⟩ := hadapted.element id e he
  cases he₁.symm.trans hnow
  obtain ⟨hone, hplainly⟩ := hsource d₀ hparse id e he
  have hauthored : e.attrs.Authored :=
    ⟨(Document.built_of_parse hparse).distinct id e he,
      fun kind hkind => Attributes.single_of_length_le (hone kind hkind), hplainly⟩
  obtain ⟨-, hfree⟩ := hby.free (Target.replaces hmini) target.proper_dialect hauthored
  -- A directive that is not static would be of a kind that a pass has taken away.
  have hname : attr.1 ∈ attrs.names := by
    rw [← Attributes.names_escaped]
    exact List.mem_map.mpr ⟨attr, hattr, rfl⟩
  by_cases hstatic : d.kind.isStatic = true
  · cases hk : d.kind <;> simp [hk, DirectiveKind.isStatic] at hstatic ⊢
  · obtain ⟨pass, hpass, hremoves⟩ := Pass.exists_removes (Bool.not_eq_true _ ▸ hstatic)
    have hnone := hfree pass hpass d.kind hremoves (Bool.not_eq_true _ ▸ hstatic)
    exact absurd (Directive.kind?_eq hd) (hnone attr.1 hname)

/-- A binding with a modifier beside a condition. -/
theorem compile_residue_binding :
    let source := "<p v-if=\"a\" :t.sync=\"q\"></p>"
    let out := "<p wx:if=\"\x7b\x7ba\x7d\x7d\" t=\"\x7b\x7bq\x7d\x7d\" class=\" cml-base cml-p\"></p>"
    compile source .wx none = .ok out ∧
      ∃ d', Document.parse out = .ok d' ∧ ∀ id e, d'.element? id = some e →
        ∀ attr ∈ e.attrs.entries, ∀ d, Directive.ofAttribute? attr = some d →
          d.kind = .staticClass ∨ d.kind = .staticStyle := by
  intro source out
  have hout : compile source .wx none = .ok out := by decide +kernel
  refine ⟨hout, compile_residue rfl hout ?_⟩
  intro d₀ hparse id e he
  have hall : ∀ d₀ ∈ (Document.parse source).toOption, ∀ id < d₀.size, ∀ e ∈ d₀.element? id,
      (∀ kind ∈ [DirectiveKind.model, .forEach, .showIf, .classBinding],
        (e.attrs.directivesOf kind).length ≤ 1) ∧ e.attrs.BindsPlainly := by decide +kernel
  exact hall d₀ (by rw [hparse]; rfl) id (Document.lt_size_of_element? he) e he

end TemplateCompiler
