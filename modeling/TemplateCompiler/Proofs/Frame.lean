/-
What a pass leaves alone.

A pass changes the attributes of the directives that it adapts and those that it writes, and
no others.  `Touches` lists these names for each pass, and `AgreeOn` says that the
attributes of some names are the same before and after, in the same order.  So a pass keeps
the attributes of all names that it does not touch, and with them every directive that is
read off one of these names: what a later pass looks for is what the author wrote, unless an
earlier pass has to do with it.
-/
import TemplateCompiler.Proofs.Residue

namespace TemplateCompiler

namespace Attributes

variable {p : String → Bool} {attrs attrs' attrs'' : Attributes} {name : String}

/-- The attributes whose names satisfy `p` are the same, in the same order. -/
def AgreeOn (p : String → Bool) (attrs attrs' : Attributes) : Prop :=
  attrs'.entries.filter (fun entry => p entry.1) = attrs.entries.filter fun entry => p entry.1

/-! ### Operations -/

theorem filter_without (hname : p name = false) (entries : List Attribute) :
    (without name entries).filter (fun entry => p entry.1)
      = entries.filter fun entry => p entry.1 := by
  unfold without
  rw [List.filter_filter]
  refine List.filter_congr fun entry _ => ?_
  by_cases h : entry.1 = name
  · simp [h, hname]
  · simp [h]

/-- Entries that are spliced in take others of their names away, and no more. -/
theorem filter_foldl_spliceEntry {new : List Attribute}
    (hnew : ∀ n ∈ new.map Prod.fst, p n = false) :
    ∀ parts : List Attribute × List Attribute,
      ((new.foldl spliceEntry parts).1 ++ (new.foldl spliceEntry parts).2).filter
          (fun entry => p entry.1)
        = (parts.1 ++ parts.2).filter fun entry => p entry.1 := by
  induction new with
  | nil => exact fun parts => rfl
  | cons entry new ih =>
      intro parts
      have hentry : p entry.1 = false := hnew entry.1 (by simp)
      rw [List.foldl_cons, ih fun n hn => hnew n (List.mem_cons_of_mem _ hn)]
      unfold spliceEntry
      rw [List.filter_append, List.filter_append, List.filter_append, filter_without hentry,
        filter_without hentry, List.filter_cons_of_neg (by simp [hentry]), List.filter_nil,
        List.append_nil]

namespace AgreeOn

protected theorem refl (p : String → Bool) (attrs : Attributes) : AgreeOn p attrs attrs := rfl

theorem trans (h : AgreeOn p attrs attrs') (h' : AgreeOn p attrs' attrs'') :
    AgreeOn p attrs attrs'' := Eq.trans h' h

theorem erase (h : AgreeOn p attrs attrs') (hname : p name = false) :
    AgreeOn p attrs (attrs'.erase name) :=
  (filter_without hname attrs'.entries).trans h

theorem insert (h : AgreeOn p attrs attrs') (hname : p name = false) (value : String) :
    AgreeOn p attrs (attrs'.insert name value) := by
  refine Eq.trans ?_ h
  show ((attrs'.set name (some value)).entries).filter _ = _
  unfold Attributes.set
  split
  · rw [List.filter_map]
    -- An entry is changed only if its name is not among those of interest.
    have hsame : ∀ entry : Attribute,
        p (if entry.1 == name then (entry.1, some value) else entry).1 = p entry.1 := by
      intro entry
      split <;> rfl
    simp only [Function.comp_def, hsame]
    refine (List.map_congr_left fun entry hentry => ?_).trans (List.map_id _)
    rw [if_neg]
    · rfl
    · intro heq
      have hentry := (List.mem_filter.mp hentry).2
      rw [beq_iff_eq.mp heq, hname] at hentry
      cases hentry
  · rw [List.filter_append, List.filter_cons_of_neg (by simp [hname]), List.filter_nil,
      List.append_nil]

theorem insertBefore (h : AgreeOn p attrs attrs') (anchor : String) (hname : p name = false)
    (value : String) : AgreeOn p attrs (attrs'.insertBefore anchor name value) := by
  refine Eq.trans ?_ h
  rw [entries_insertBefore, List.filter_append, List.filter_cons_of_neg (by simp [hname]),
    ← List.filter_append, List.takeWhile_append_dropWhile, filter_without hname]

theorem replaceD (h : AgreeOn p attrs attrs') (hname : p name = false) {new : List Attribute}
    (hnew : ∀ n ∈ new.map Prod.fst, p n = false) :
    AgreeOn p attrs (attrs'.replaceD name new) := by
  refine Eq.trans ?_ h
  unfold Attributes.replaceD Attributes.replace
  split
  · rw [List.span_eq_takeWhile_dropWhile]
    refine (filter_foldl_spliceEntry hnew _).trans ?_
    rw [List.filter_append]
    -- The entry that is dropped is the one of the name.
    have hdrop : ((attrs'.entries.dropWhile fun entry => entry.1 != name).drop 1).filter
          (fun entry => p entry.1)
        = (attrs'.entries.dropWhile fun entry => entry.1 != name).filter
          fun entry => p entry.1 := by
      cases hrest : attrs'.entries.dropWhile fun entry => entry.1 != name with
      | nil => rfl
      | cons entry rest =>
          have hentry : entry.1 = name := by
            have hhead := List.head_dropWhile_not (fun entry : Attribute => entry.1 != name)
              (l := attrs'.entries) (by rw [hrest]; simp)
            simpa [hrest] using hhead
          rw [List.drop_one, List.tail_cons, List.filter_cons_of_neg (by simp [hentry, hname])]
    rw [hdrop, ← List.filter_append, List.takeWhile_append_dropWhile]
  · rfl

theorem replaceD_one (h : AgreeOn p attrs attrs') (hname : p name = false) {new : String}
    (hnew : p new = false) (value : Option String) :
    AgreeOn p attrs (attrs'.replaceD name [(new, value)]) :=
  h.replaceD hname fun n hn => by
    rw [List.map_cons, List.map_nil, List.mem_singleton] at hn
    exact hn ▸ hnew

theorem rename (h : AgreeOn p attrs attrs') (hname : p name = false) {new : String}
    (hnew : p new = false) : AgreeOn p attrs ((attrs'.rename name new).getD attrs') := by
  cases hlookup : attrs'.lookup? name with
  | none =>
      unfold Attributes.rename
      rw [hlookup]
      exact h
  | some value =>
      rw [rename_eq hlookup]
      exact h.replaceD_one hname hnew value

/-! ### What is found among the attributes that are kept -/

theorem mem_entries_iff (h : AgreeOn p attrs attrs') {entry : Attribute} (hp : p entry.1 = true) :
    entry ∈ attrs'.entries ↔ entry ∈ attrs.entries := by
  have hmem : ∀ attrs : Attributes,
      entry ∈ attrs.entries.filter (fun entry => p entry.1) ↔ entry ∈ attrs.entries := by
    intro attrs
    rw [List.mem_filter, and_iff_left hp]
  rw [← hmem attrs', h, hmem attrs]

theorem mem_names_iff (h : AgreeOn p attrs attrs') (hp : p name = true) :
    name ∈ attrs'.names ↔ name ∈ attrs.names := by
  rw [mem_names, mem_names]
  exact exists_congr fun value => h.mem_entries_iff hp

theorem get?_eq (h : AgreeOn p attrs attrs') (hp : p name = true) :
    attrs'.get? name = attrs.get? name := by
  have hlookup : ∀ entries : List Attribute,
      (entries.filter fun entry => p entry.1).lookup name = entries.lookup name := by
    intro entries
    induction entries with
    | nil => rfl
    | cons entry rest ih =>
        obtain ⟨n, value⟩ := entry
        rw [List.filter_cons, List.lookup_cons]
        by_cases hn : p n = true
        · rw [if_pos hn, List.lookup_cons, ih]
        · have hne : (name == n) = false := by
            rw [beq_eq_false_iff_ne]
            rintro rfl
            exact hn hp
          rw [if_neg hn, ih, hne]
  unfold get? lookup?
  rw [← hlookup attrs'.entries, h, hlookup attrs.entries]

/-- Directives of some kinds are kept, in their order, if the attributes of their names are. -/
theorem filter_directives (h : AgreeOn p attrs attrs') {q : DirectiveKind → Bool}
    (hq : ∀ n kind, Directive.kind? n = some kind → q kind = true → p n = true) :
    (attrs'.directives.filter fun d => q d.kind) = attrs.directives.filter fun d => q d.kind := by
  have hkept : ∀ entries : List Attribute,
      (entries.filterMap Directive.ofAttribute?).filter (fun d => q d.kind)
        = ((entries.filter fun entry => p entry.1).filterMap Directive.ofAttribute?).filter
          fun d => q d.kind := by
    intro entries
    induction entries with
    | nil => rfl
    | cons entry rest ih =>
        by_cases hp : p entry.1 = true
        · rw [List.filter_cons_of_pos (p := fun entry : Attribute => p entry.1) hp]
          cases hd : Directive.ofAttribute? entry with
          | none => rw [List.filterMap_cons_none hd, List.filterMap_cons_none hd, ih]
          | some d =>
              rw [List.filterMap_cons_some hd, List.filterMap_cons_some hd, List.filter_cons,
                List.filter_cons, ih]
        · rw [List.filter_cons_of_neg (p := fun entry : Attribute => p entry.1) hp]
          cases hd : Directive.ofAttribute? entry with
          | none => rw [List.filterMap_cons_none hd, ih]
          | some d =>
              rw [List.filterMap_cons_some hd, List.filter_cons_of_neg, ih]
              exact fun hqd => hp (hq entry.1 d.kind (Directive.kind?_eq hd) hqd)
  unfold directives
  rw [hkept attrs'.entries, h, ← hkept attrs.entries]

theorem directivesOf_eq (h : AgreeOn p attrs attrs') {kind : DirectiveKind}
    (hkind : ∀ n, Directive.kind? n = some kind → p n = true) :
    attrs'.directivesOf kind = attrs.directivesOf kind :=
  h.filter_directives (q := fun k => decide (k = kind)) fun n _ hk hq =>
    hkind n (hk.trans (congrArg some (of_decide_eq_true hq)))

theorem directive?_eq (h : AgreeOn p attrs attrs') {kind : DirectiveKind}
    (hkind : ∀ n, Directive.kind? n = some kind → p n = true) :
    attrs'.directive? kind = attrs.directive? kind := by
  rw [directive?_eq_head?, directive?_eq_head?, h.directivesOf_eq hkind]

theorem conditionals_eq (h : AgreeOn p attrs attrs')
    (hkind : ∀ n kind, Directive.kind? n = some kind → kind.isConditional = true → p n = true) :
    attrs'.conditionals = attrs.conditionals := h.filter_directives hkind

end AgreeOn

/-! ### What a pass has to do with -/

/-- The key of the two-way binding that is adapted, unless it is blank. -/
def modelKey? (attrs : Attributes) : Option String :=
  (attrs.directive? .model).bind fun d =>
    let key := Text.trim d.expression
    if key.isEmpty then none else some key

end Attributes

/-- The names of attributes that the pass takes away, writes or gives other values. -/
def Pass.Touches (δ : Dialect) (attrs : Attributes) : Pass → String → Prop
  | ref, n => n = "ref" ∨ n = "class" ∨ n ∈ δ.reference.names
  | model, n => Directive.kind? n = some .model ∨ (attrs.modelKey? ≠ none ∧ n ∈ δ.model.names)
  | binding, n =>
    Directive.kind? n = some .showIf ∨ n ∈ δ.showSlot.names ∨
      (δ.binding ≠ .keep ∧ ∃ d ∈ attrs.directivesOf .bind, n = d.name ∨ d.arg = some n)
  | conditional, n => ∃ c ∈ attrs.conditionals, n = c.name ∨ n = δ.conditional.nameOf c.kind
  | iteration, n =>
    δ.iteration ≠ .keep ∧ ∃ d ∈ attrs.directivesOf .forEach, n = d.name ∨ n ∈ δ.iteration.names
  | classes, n => n = "class" ∨ Directive.kind? n = some .classBinding
  | styles, n =>
    n = "style" ∨ Directive.kind? n = some .styleBinding ∨ n ∈ δ.styleMode.names

namespace Adapter

open Attributes (AgreeOn)

variable {p : String → Bool} {setting : Setting} {attrs attrs' : Attributes}

theorem agreeOn_addClass (hclass : p "class" = false) (h : AgreeOn p attrs attrs')
    (marker : String) : AgreeOn p attrs (attrs'.addClass marker) := by
  unfold Attributes.addClass
  split
  · exact h.insert hclass _
  · split
    · exact h
    · split
      · exact h.insert hclass _
      · exact h.insert hclass _

theorem agreeOn_reference (site : Site) (h : reference setting site attrs = .ok attrs')
    (hp : ∀ n, Pass.ref.Touches setting.dialect attrs n → p n = false) :
    AgreeOn p attrs attrs' := by
  have href : p "ref" = false := hp _ (.inl rfl)
  have hclass : p "class" = false := hp _ (.inr (.inl rfl))
  unfold reference at h
  split at h
  · cases h
    exact .refl p attrs
  · dsimp only at h
    split at h
    · cases h
      exact (AgreeOn.refl p attrs).erase href
    · rename_i idName marker hform
      have hid : p idName = false :=
        hp _ (.inr (.inr (by rw [hform]; exact List.mem_singleton_self _)))
      split at h
      · cases h
        exact (AgreeOn.refl p attrs).erase href
      · cases h
        exact agreeOn_addClass hclass ((AgreeOn.refl p attrs).replaceD_one href hid _) marker

theorem agreeOn_model (site : Site) (h : model setting site attrs = .ok attrs')
    (hp : ∀ n, Pass.model.Touches setting.dialect attrs n → p n = false) :
    AgreeOn p attrs attrs' := by
  unfold model at h
  split at h
  · cases h
    exact .refl p attrs
  · rename_i d hd
    have hname : p d.name = false := hp _ (.inl (Attributes.name_of_directive? hd).2)
    dsimp only at h
    split at h
    · cases h
      exact (AgreeOn.refl p attrs).erase hname
    · rename_i hkey
      cases h
      refine (AgreeOn.refl p attrs).replaceD hname fun n hn => hp n (.inr ⟨?_, ?_⟩)
      · unfold Attributes.modelKey?
        rw [hd, Option.bind_some, if_neg hkey]
        exact Option.some_ne_none _
      · rwa [ModelForm.map_fst_attributes] at hn

theorem agreeOn_foldl_plainBinding (encoding : Encoding) {ds : List Directive}
    (hds : ∀ d ∈ ds, p d.name = false ∧ ∀ property, d.arg = some property → p property = false) :
    ∀ {attrs' : Attributes}, AgreeOn p attrs attrs' →
      AgreeOn p attrs (ds.foldl (plainBinding encoding) attrs') := by
  induction ds with
  | nil => exact fun h => h
  | cons d ds ih =>
      intro attrs' h
      refine ih (fun d' hd' => hds d' (List.mem_cons_of_mem d hd')) ?_
      obtain ⟨hname, harg⟩ := hds d List.mem_cons_self
      unfold plainBinding
      split
      · exact h
      · rename_i property hproperty
        exact h.replaceD_one hname (harg property hproperty) _

theorem agreeOn_showing (slot : ShowSlot) (h : AgreeOn p attrs attrs')
    (hshow : ∀ n, Directive.kind? n = some .showIf → p n = false)
    (hslot : ∀ n ∈ slot.names, p n = false) : AgreeOn p attrs (showing slot attrs') := by
  unfold showing
  split
  · exact h
  · rename_i d hd
    have hname : p d.name = false := hshow _ (Attributes.name_of_directive? hd).2
    dsimp only
    split
    · exact h.erase hname
    · unfold intoSlot
      split
      · rename_i slotName
        have hshort : p slotName = false := hslot _ (by simp [ShowSlot.names])
        have hlong : p (longBindingName slotName) = false := hslot _ (by simp [ShowSlot.names])
        exact (h.rename hshort hlong).replaceD_one hname hshort _
      · rename_i slotName
        have hstatic : p slotName = false := hslot _ (by simp [ShowSlot.names])
        dsimp only
        split
        · exact h.replaceD_one hname hstatic _
        · exact (h.insert hstatic _).erase hname

theorem agreeOn_properties (form : BindingForm)
    (hp : form ≠ .keep → ∀ d ∈ attrs.directivesOf .bind,
      p d.name = false ∧ ∀ property, d.arg = some property → p property = false) :
    AgreeOn p attrs (properties form attrs) := by
  unfold properties
  split
  · exact .refl p attrs
  · rename_i encoding
    exact agreeOn_foldl_plainBinding encoding (hp BindingForm.noConfusion) (.refl p attrs)

theorem agreeOn_binding (site : Site) (h : binding setting site attrs = .ok attrs')
    (hp : ∀ n, Pass.binding.Touches setting.dialect attrs n → p n = false) :
    AgreeOn p attrs attrs' := by
  have hproperties : AgreeOn p attrs (properties setting.dialect.binding attrs) :=
    agreeOn_properties _ fun hkeep d hd => ⟨hp _ (.inr (.inr ⟨hkeep, d, hd, .inl rfl⟩)),
      fun property harg => hp _ (.inr (.inr ⟨hkeep, d, hd, .inr harg⟩))⟩
  unfold binding at h
  split at h
  · cases h
  · cases h
    exact agreeOn_showing _ hproperties (fun n hn => hp n (.inl hn))
      fun n hn => hp n (.inr (.inl hn))

theorem agreeOn_conditional (site : Site) (h : conditional setting site attrs = .ok attrs')
    (hp : ∀ n, Pass.conditional.Touches setting.dialect attrs n → p n = false) :
    AgreeOn p attrs attrs' := by
  unfold conditional at h
  dsimp only at h
  split at h
  · cases h
    exact .refl p attrs
  · cases h
  · rename_i d hone
    have hd : d ∈ attrs.conditionals := by rw [hone]; exact List.mem_singleton_self d
    split at h
    · cases h
      exact (AgreeOn.refl p attrs).replaceD_one (hp _ ⟨d, hd, .inl rfl⟩) (hp _ ⟨d, hd, .inr rfl⟩) _
    · cases h

theorem agreeOn_iteration (site : Site) (h : iteration setting site attrs = .ok attrs')
    (hp : ∀ n, Pass.iteration.Touches setting.dialect attrs n → p n = false) :
    AgreeOn p attrs attrs' := by
  unfold iteration at h
  split at h
  · cases h
    exact .refl p attrs
  · rename_i d hd
    have hmem : d ∈ attrs.directivesOf .forEach :=
      Attributes.mem_directivesOf.mpr (Attributes.mem_of_directive? hd)
    split at h
    · cases h
    · split at h
      · cases h
        exact .refl p attrs
      · rename_i itemName indexName sourceName encoding hform
        have hkeep : setting.dialect.iteration ≠ .keep := by
          rw [hform]
          exact IterationForm.noConfusion
        split at h
        · cases h
          refine (AgreeOn.refl p attrs).replaceD (hp _ ⟨hkeep, d, hmem, .inl rfl⟩) fun n hn => ?_
          refine hp n ⟨hkeep, d, hmem, .inr ?_⟩
          rw [hform]
          exact hn
        · cases h

theorem agreeOn_classes (site : Site) (h : classes setting site attrs = .ok attrs')
    (hp : ∀ n, Pass.classes.Touches setting.dialect attrs n → p n = false) :
    AgreeOn p attrs attrs' := by
  have hclass : p "class" = false := hp _ (.inl rfl)
  have hbinding : ∀ d, attrs.directive? .classBinding = some d → p d.name = false :=
    fun d hd => hp _ (.inr (Attributes.name_of_directive? hd).2)
  have hmerge : ∀ base, AgreeOn p attrs
      (mergeClass base (attrs.directive? .classBinding) attrs) := by
    intro base
    unfold mergeClass
    dsimp only
    split
    · exact .refl p attrs
    · split
      · exact (AgreeOn.refl p attrs).insert hclass _
      · rename_i d _
        split
        · exact (AgreeOn.refl p attrs).insert hclass _
        · exact (AgreeOn.refl p attrs).insertBefore d.name hclass _
  unfold classes at h
  dsimp only at h
  split at h
  · cases h
    exact hmerge _
  · cases h
    unfold wrapClassBinding
    split
    · exact hmerge _
    · rename_i d hd
      dsimp only
      split
      · exact hmerge _
      · exact (hmerge _).insert (hbinding d hd) _
  · cases h
    unfold foldClass
    dsimp only
    split
    · split
      · exact .refl p attrs
      · exact (AgreeOn.refl p attrs).insert hclass _
    · rename_i d hd
      split
      · exact ((AgreeOn.refl p attrs).insert hclass _).erase (hbinding d hd)
      · exact (AgreeOn.refl p attrs).replaceD_one (hbinding d hd) hclass _

theorem agreeOn_eraseAll {ds : List Directive} (hds : ∀ d ∈ ds, p d.name = false) :
    ∀ {attrs' : Attributes}, AgreeOn p attrs attrs' → AgreeOn p attrs (eraseAll ds attrs') := by
  induction ds with
  | nil => exact fun h => h
  | cons d ds ih =>
      exact fun h => ih (fun d' hd' => hds d' (List.mem_cons_of_mem d hd'))
        (h.erase (hds d List.mem_cons_self))

theorem agreeOn_styleBindings (mode : StyleMode) (config : Option StyleConfig)
    (hbindings : ∀ d ∈ attrs.directivesOf .styleBinding, p d.name = false)
    (hname : ∀ n ∈ mode.names, p n = false) :
    AgreeOn p attrs (styleBindings mode config attrs) := by
  unfold styleBindings
  dsimp only
  split
  · exact agreeOn_eraseAll hbindings (.refl p attrs)
  · rename_i hmode
    have hname : p styleBindingName = false := by
      refine hname _ ?_
      cases mode with
      | drop => exact absurd rfl hmode
      | proxyWithConfig | proxy => exact List.mem_singleton_self _
    unfold mergeStyleBindings
    dsimp only
    split
    · exact .refl p attrs
    · rename_i first others hds
      rw [hds] at hbindings
      split
      · exact .refl p attrs
      · split
        · rw [hds]
          exact agreeOn_eraseAll hbindings (.refl p attrs)
        · exact (agreeOn_eraseAll (fun d hd => hbindings d (List.mem_cons_of_mem _ hd))
            (.refl p attrs)).replaceD_one (hbindings first List.mem_cons_self) hname _

theorem agreeOn_styles (site : Site) (h : styles setting site attrs = .ok attrs')
    (hp : ∀ n, Pass.styles.Touches setting.dialect attrs n → p n = false) :
    AgreeOn p attrs attrs' := by
  have hstyle : p "style" = false := hp _ (.inl rfl)
  have hmerged : AgreeOn p attrs
      (styleBindings setting.dialect.styleMode setting.style attrs) :=
    agreeOn_styleBindings _ _
      (fun d hd => hp _ (.inr (.inl (Attributes.name_of_mem_directivesOf hd).2)))
      fun n hn => hp n (.inr (.inr hn))
  unfold styles at h
  cases h
  unfold staticStyle
  split
  · exact hmerged
  · dsimp only
    split
    · exact hmerged
    · exact hmerged.insert hstyle _

end Adapter

/-- A pass leaves alone what it has nothing to do with. -/
theorem Pass.agreeOn (pass : Pass) {p : String → Bool} {setting : Setting} {site : Site}
    {attrs attrs' : Attributes} (h : pass.adapter setting site attrs = .ok attrs')
    (hp : ∀ n, pass.Touches setting.dialect attrs n → p n = false) :
    attrs.AgreeOn p attrs' := by
  cases pass with
  | ref => exact Adapter.agreeOn_reference site h hp
  | model => exact Adapter.agreeOn_model site h hp
  | binding => exact Adapter.agreeOn_binding site h hp
  | conditional => exact Adapter.agreeOn_conditional site h hp
  | iteration => exact Adapter.agreeOn_iteration site h hp
  | classes => exact Adapter.agreeOn_classes site h hp
  | styles => exact Adapter.agreeOn_styles site h hp

/-- An attribute that a pass has nothing to do with is kept, and none of its name is written. -/
theorem Pass.agreeOn_name (pass : Pass) {setting : Setting} {site : Site}
    {attrs attrs' : Attributes} {name : String}
    (h : pass.adapter setting site attrs = .ok attrs')
    (hname : ¬ pass.Touches setting.dialect attrs name) :
    attrs.AgreeOn (fun n => n == name) attrs' := by
  refine pass.agreeOn h fun n hn => ?_
  rw [beq_eq_false_iff_ne]
  rintro rfl
  exact hname hn

/-! ### From pass to pass -/

/-- The names that the pass has to do with on any element. -/
def Pass.listed (δ : Dialect) : Pass → List String
  | ref => "ref" :: "class" :: δ.reference.names
  | model => δ.model.names
  | binding => δ.showSlot.names
  | conditional => δ.conditional.names
  | iteration => δ.iteration.names
  | classes => ["class"]
  | styles => "style" :: δ.styleMode.names

/-- A pass has to do with a name because it takes directives of that name away, because the name is
listed, or because it is bound and bindings become attributes. -/
theorem Pass.Touches.cases {pass : Pass} {δ : Dialect} {attrs : Attributes} {n : String}
    (h : pass.Touches δ attrs n) :
    (∃ kind ∈ pass.removes, kind.isStatic = false ∧ Directive.kind? n = some kind ∧
        (kind = .bind → δ.binding ≠ .keep)) ∨
      (n ∈ pass.listed δ ∧ (pass = .model → attrs.modelKey? ≠ none)) ∨
      (pass = .binding ∧ δ.binding ≠ .keep ∧ ∃ d ∈ attrs.directivesOf .bind, d.arg = some n) := by
  cases pass with
  | ref =>
      refine .inr (.inl ⟨?_, fun hpass => nomatch hpass⟩)
      rcases h with rfl | rfl | hmem
      · exact .head _
      · exact .tail _ (.head _)
      · exact .tail _ (.tail _ hmem)
  | model =>
      rcases h with hmodel | ⟨hkey, hmem⟩
      · exact .inl ⟨.model, by decide, rfl, hmodel, fun hkind => nomatch hkind⟩
      · exact .inr (.inl ⟨hmem, fun _ => hkey⟩)
  | binding =>
      rcases h with hshow | hmem | ⟨hkeep, d, hd, rfl | harg⟩
      · exact .inl ⟨.showIf, by decide, rfl, hshow, fun hkind => nomatch hkind⟩
      · exact .inr (.inl ⟨hmem, fun hpass => nomatch hpass⟩)
      · exact .inl ⟨.bind, by decide, rfl, (Attributes.name_of_mem_directivesOf hd).2,
          fun _ => hkeep⟩
      · exact .inr (.inr ⟨rfl, hkeep, d, hd, harg⟩)
  | conditional =>
      obtain ⟨c, hc, rfl | rfl⟩ := h
      · obtain ⟨hmem, hcond⟩ := Attributes.mem_conditionals.mp hc
        obtain ⟨hremoves, hstatic, hbind⟩ : c.kind ∈ Pass.conditional.removes ∧
            c.kind.isStatic = false ∧ c.kind ≠ .bind := by
          cases hk : c.kind <;> rw [hk] at hcond <;> first | decide | cases hcond
        exact .inl ⟨c.kind, hremoves, hstatic, (Attributes.mem_of_mem_directives hmem).2.2.2,
          fun hkind => absurd hkind hbind⟩
      · exact .inr (.inl ⟨δ.conditional.nameOf_mem c.kind, fun hpass => nomatch hpass⟩)
  | iteration =>
      obtain ⟨-, d, hd, rfl | hmem⟩ := h
      · exact .inl ⟨.forEach, by decide, rfl, (Attributes.name_of_mem_directivesOf hd).2,
          fun hkind => nomatch hkind⟩
      · exact .inr (.inl ⟨hmem, fun hpass => nomatch hpass⟩)
  | classes =>
      rcases h with rfl | hbinding
      · exact .inr (.inl ⟨.head _, fun hpass => nomatch hpass⟩)
      · exact .inl ⟨.classBinding, by decide, rfl, hbinding, fun hkind => nomatch hkind⟩
  | styles =>
      rcases h with rfl | hbinding | hmem
      · exact .inr (.inl ⟨.head _, fun hpass => nomatch hpass⟩)
      · exact .inl ⟨.styleBinding, by decide, rfl, hbinding, fun hkind => nomatch hkind⟩
      · exact .inr (.inl ⟨.tail _ hmem, fun hpass => nomatch hpass⟩)

/-- The kinds of directives that the pass writes where a platform keeps directives. -/
def Pass.adds : Pass → List DirectiveKind
  | model => [.bind]
  | binding => [.styleBinding]
  | _ => []

/-- What a pass has to do with is static, or of a kind that it takes away, or of one that it writes
where directives are kept. -/
theorem Pass.Touches.kind {pass : Pass} {target : Target} {attrs : Attributes} {n : String}
    (h : pass.Touches target.dialect attrs n)
    (hplain : target.isMiniProgram = true → attrs.BindsPlainly) {kind : DirectiveKind}
    (hkind : Directive.kind? n = some kind) :
    kind.isStatic = true ∨ kind ∈ pass.removes ∨
      (target.isMiniProgram = false ∧ kind ∈ pass.adds) := by
  rcases h.cases with ⟨kind', hremoves, -, hkind', -⟩ | ⟨hlisted, -⟩ | ⟨-, hkeep, d, hd, harg⟩
  · cases hkind'.symm.trans hkind
    exact .inr (.inl hremoves)
  · have hall : ∀ m ∈ pass.listed target.dialect, ∀ k ∈ Directive.kind? m,
        k.isStatic = true ∨ k ∈ pass.removes ∨ (target.isMiniProgram = false ∧ k ∈ pass.adds) := by
      cases pass <;> cases target <;> decide
    exact hall n hlisted kind hkind
  · have hmini : target.isMiniProgram = true := by
      cases target with
      | web | weex => exact absurd rfl hkeep
      | wx | alipay | baidu => rfl
    rw [(hplain hmini).kind?_eq_none hd harg] at hkind
    cases hkind

/-- A name that no directive with an expression has is listed, or is bound and bindings become
attributes. -/
theorem Pass.Touches.of_isStatic {pass : Pass} {δ : Dialect} {attrs : Attributes} {n : String}
    (h : pass.Touches δ attrs n) (hkind : ∀ kind ∈ Directive.kind? n, kind.isStatic = true) :
    n ∈ pass.listed δ ∨ pass = .binding ∧ δ.binding ≠ .keep ∧
      ∃ d ∈ attrs.directivesOf .bind, d.arg = some n := by
  rcases h.cases with ⟨kind, -, hfalse, hsome, -⟩ | ⟨hlisted, -⟩ | hbound
  · exact absurd (hfalse.symm.trans (hkind kind hsome)) Bool.false_ne_true
  · exact .inl hlisted
  · exact .inr hbound

/-- None of the passes takes a directive of one of the kinds away or writes one. -/
def Pass.Spare (target : Target) (passes : List Pass) (kinds : List DirectiveKind) : Prop :=
  ∀ kind ∈ kinds, kind.isStatic = false ∧ ∀ pass ∈ passes,
    kind ∉ pass.removes ∧ (target.isMiniProgram = false → kind ∉ pass.adds)

instance (target : Target) (passes : List Pass) (kinds : List DirectiveKind) :
    Decidable (Pass.Spare target passes kinds) :=
  inferInstanceAs (Decidable (∀ kind ∈ kinds, kind.isStatic = false ∧ ∀ pass ∈ passes,
    kind ∉ pass.removes ∧ (target.isMiniProgram = false → kind ∉ pass.adds)))

/-- Bindings of plain properties stay so. -/
theorem Pass.plainly (pass : Pass) {target : Target} {style : Option StyleConfig} {site : Site}
    {attrs attrs' : Attributes} (hd : attrs.Distinct)
    (hplain : target.isMiniProgram = true → attrs.BindsPlainly)
    (h : pass.adapter (.forTarget target style) site attrs = .ok attrs') :
    attrs'.Distinct ∧ (target.isMiniProgram = true → attrs'.BindsPlainly) := by
  have hwrites := pass.writesOnly target.proper_dialect hd h
  refine ⟨hwrites.distinct, fun hmini => ?_⟩
  exact (hplain hmini).of_recedes (hwrites.recedes (Target.replaces hmini) (hplain hmini))

namespace AdaptedBy

variable {target : Target} {style : Option StyleConfig} {tag : String} {passes : List Pass}
  {attrs attrs' : Attributes}

theorem plainly (h : AdaptedBy (.forTarget target style) tag passes attrs attrs')
    (hd : attrs.Distinct) (hplain : target.isMiniProgram = true → attrs.BindsPlainly) :
    attrs'.Distinct ∧ (target.isMiniProgram = true → attrs'.BindsPlainly) :=
  h.keeps (P := fun attrs =>
      attrs.Distinct ∧ (target.isMiniProgram = true → attrs.BindsPlainly))
    (fun pass _ _ _ hattrs hstep => pass.plainly hattrs.1 hattrs.2 hstep) ⟨hd, hplain⟩

/-- The passes can be put together again. -/
theorem append {setting : Setting} {front back : List Pass} {mid : Attributes}
    (h : AdaptedBy setting tag front attrs mid) (h' : AdaptedBy setting tag back mid attrs') :
    AdaptedBy setting tag (front ++ back) attrs attrs' := by
  induction h with
  | nil => exact h'
  | cons site htag hstep hrest ih => exact .cons site htag hstep (ih h')

/-- Directives of kinds that the passes have nothing to do with are still there after them. -/
theorem filter_directives (h : AdaptedBy (.forTarget target style) tag passes attrs attrs')
    (hd : attrs.Distinct) (hplain : target.isMiniProgram = true → attrs.BindsPlainly)
    {kinds : List DirectiveKind} (hkinds : Pass.Spare target passes kinds)
    {q : DirectiveKind → Bool} (hq : ∀ kind, q kind = true → kind ∈ kinds) :
    (attrs'.directives.filter fun d => q d.kind) = attrs.directives.filter fun d => q d.kind := by
  induction h with
  | nil => rfl
  | @cons pass passes attrs attrs₁ attrs' site htag hstep hrest ih =>
      obtain ⟨hd₁, hplain₁⟩ := pass.plainly hd hplain hstep
      rw [ih hd₁ hplain₁ fun kind hk => ⟨(hkinds kind hk).1,
        fun pass' hpass' => (hkinds kind hk).2 pass' (List.mem_cons_of_mem _ hpass')⟩]
      refine (pass.agreeOn (p := fun n => (Directive.kind? n).any q) hstep ?_).filter_directives ?_
      · intro n hn
        cases hkind : Directive.kind? n with
        | none => rfl
        | some kind =>
            rw [Option.any_some, ← Bool.not_eq_true]
            intro hqk
            obtain ⟨hstatic, hspared⟩ := hkinds kind (hq kind hqk)
            obtain ⟨hremoves, hadds⟩ := hspared pass List.mem_cons_self
            rcases hn.kind hplain hkind with hs | hr | ⟨hmini, ha⟩
            · rw [hstatic] at hs
              cases hs
            · exact hremoves hr
            · exact hadds hmini ha
      · intro n kind hkind hqk
        rw [hkind]
        exact hqk

theorem directivesOf_eq (h : AdaptedBy (.forTarget target style) tag passes attrs attrs')
    (hd : attrs.Distinct) (hplain : target.isMiniProgram = true → attrs.BindsPlainly)
    {kind : DirectiveKind} (hkind : Pass.Spare target passes [kind]) :
    attrs'.directivesOf kind = attrs.directivesOf kind :=
  h.filter_directives hd hplain hkind (q := fun k => decide (k = kind))
    fun _ hk => List.mem_singleton.mpr (of_decide_eq_true hk)

theorem conditionals_eq (h : AdaptedBy (.forTarget target style) tag passes attrs attrs')
    (hd : attrs.Distinct) (hplain : target.isMiniProgram = true → attrs.BindsPlainly)
    (hkinds : Pass.Spare target passes [.ifCond, .elseIf, .otherwise]) :
    attrs'.conditionals = attrs.conditionals := by
  refine h.filter_directives hd hplain hkinds fun kind hkind => ?_
  cases hk : kind <;> simp [hk, DirectiveKind.isConditional] at hkind ⊢

/-- What no pass has to do with is kept through all of them. -/
theorem mem_entries_iff {setting : Setting} (h : AdaptedBy setting tag passes attrs attrs')
    {entry : Attribute}
    (hentry : ∀ pass ∈ passes, ∀ attrs, ¬ pass.Touches setting.dialect attrs entry.1) :
    entry ∈ attrs'.entries ↔ entry ∈ attrs.entries := by
  induction h with
  | nil => exact Iff.rfl
  | @cons pass passes attrs attrs₁ attrs' site htag hstep hrest ih =>
      rw [ih fun pass' hpass' => hentry pass' (List.mem_cons_of_mem _ hpass')]
      exact (pass.agreeOn_name hstep (hentry pass List.mem_cons_self attrs)).mem_entries_iff
        BEq.rfl

theorem mem_names_iff {setting : Setting} (h : AdaptedBy setting tag passes attrs attrs')
    {name : String}
    (hname : ∀ pass ∈ passes, ∀ attrs, ¬ pass.Touches setting.dialect attrs name) :
    name ∈ attrs'.names ↔ name ∈ attrs.names := by
  rw [Attributes.mem_names, Attributes.mem_names]
  exact exists_congr fun value => h.mem_entries_iff hname

/-- The key of a two-way binding is looked up after references have been adapted. -/
theorem modelKey?_eq (h : AdaptedBy (.forTarget target style) tag [.ref] attrs attrs')
    (hd : attrs.Distinct) (hplain : target.isMiniProgram = true → attrs.BindsPlainly) :
    attrs'.modelKey? = attrs.modelKey? := by
  have hspare : Pass.Spare target [.ref] [.model] := by cases target <;> decide
  unfold Attributes.modelKey?
  rw [Attributes.directive?_eq_head?, Attributes.directive?_eq_head?,
    h.directivesOf_eq hd hplain hspare]

/-- Bindings are still those of the author when they become attributes. -/
theorem bindings_eq (hmini : target.isMiniProgram = true)
    (h : AdaptedBy (.forTarget target style) tag [.ref, .model] attrs attrs') (hd : attrs.Distinct)
    (hplain : attrs.BindsPlainly) : attrs'.directivesOf .bind = attrs.directivesOf .bind := by
  refine h.directivesOf_eq hd (fun _ => hplain) ?_
  cases target with
  | web | weex => cases hmini
  | wx | alipay | baidu => decide

end AdaptedBy

end TemplateCompiler
