/-
Attributes under other names.

A renaming gives every attribute another name and perhaps another value, each in its place.
One that keeps names apart and leaves alone the ones that can say something is a relabeling
under which no directive changes at all, not even the name of a binding; so an adapter does to
the renamed attributes what it did to the attributes, once the names that it writes are renamed
as well.

No renaming keeps all names apart that makes one name into another.  The names that it is
meant for are its native ones; attributes that have only those are renamed without loss.
-/
import TemplateCompiler.Proofs.Relabeling

namespace TemplateCompiler

/-! ### Names that say something -/

namespace Directive

/-- A name that an adapter may read something off: a fixed one, or one that is marked. -/
def Telling (name : String) : Prop :=
  name = "ref" ∨ name = "class" ∨ name = "style" ∨ Marked name

instance (name : String) : Decidable (Telling name) :=
  inferInstanceAs (Decidable (name = "ref" ∨ name = "class" ∨ name = "style" ∨
    Text.beginsWith ":" name = true ∨ Text.beginsWith "v-" name = true))

/-- Only names that say something are directives. -/
theorem ofAttribute?_eq_none {attr : Attribute} (h : ¬ Telling attr.1) :
    ofAttribute? attr = none := by
  unfold Telling Marked at h
  simp only [not_or, Bool.not_eq_true] at h
  obtain ⟨href, hclass, hstyle, hcolon, hdash⟩ := h
  cases hd : ofAttribute? attr with
  | none => rfl
  | some d =>
      have hkind := kind?_eq hd
      rw [kind?_eq_none href hclass hstyle hcolon hdash] at hkind
      cases hkind

theorem telling_of_marked {name : String} (h : Marked name) : Telling name :=
  .inr (.inr (.inr h))

end Directive

/-! ### Renamings -/

/-- Another name for every name, and another value for every value under it. -/
structure Renaming where
  name : String → String
  value : String → Option String → Option String
  /-- The names that the renaming is meant for. -/
  native : String → Prop
  injective : ∀ m n, native m → native n → name m = name n → m = n
  /-- Names that say something are left alone. -/
  telling : ∀ n, Directive.Telling n → native n ∧ name n = n ∧ ∀ v, value n v = v

namespace Renaming

variable {ρ : Renaming} {m n : String}

/-- One attribute, renamed. -/
def entry (ρ : Renaming) (attr : Attribute) : Attribute :=
  (ρ.name attr.1, ρ.value attr.1 attr.2)

/-- Attributes of this name are left alone. -/
structure Keeps (ρ : Renaming) (n : String) : Prop where
  native : ρ.native n
  name : ρ.name n = n
  value : ∀ v, ρ.value n v = v

theorem keeps_of_telling (h : Directive.Telling n) : ρ.Keeps n :=
  ⟨(ρ.telling n h).1, (ρ.telling n h).2.1, (ρ.telling n h).2.2⟩

theorem Keeps.entry_eq (h : ρ.Keeps n) (value : Option String) :
    ρ.entry (n, value) = (n, value) := by
  unfold entry
  rw [h.name, h.value]

theorem name_eq_iff (hm : ρ.native m) (hn : ρ.native n) : ρ.name m = ρ.name n ↔ m = n :=
  ⟨ρ.injective m n hm hn, congrArg ρ.name⟩

theorem Keeps.name_eq_iff (h : ρ.Keeps n) (hm : ρ.native m) : ρ.name m = n ↔ m = n := by
  rw [← Renaming.name_eq_iff hm h.native, h.name]

/-- No name comes to say something. -/
theorem telling_name_iff (hn : ρ.native n) :
    Directive.Telling (ρ.name n) ↔ Directive.Telling n := by
  constructor
  · intro h
    have hsame : n = ρ.name n := ((keeps_of_telling h).name_eq_iff hn).mp rfl
    rw [hsame]
    exact h
  · intro h
    rw [(keeps_of_telling h).name]
    exact h

/-- What an attribute is as a directive stays the same. -/
theorem ofAttribute?_entry {attr : Attribute} (hn : ρ.native attr.1) :
    Directive.ofAttribute? (ρ.entry attr) = Directive.ofAttribute? attr := by
  by_cases h : Directive.Telling attr.1
  · obtain ⟨n, value⟩ := attr
    rw [(keeps_of_telling h).entry_eq value]
  · have h' : ¬ Directive.Telling (ρ.entry attr).1 := fun h' => h ((telling_name_iff hn).mp h')
    rw [Directive.ofAttribute?_eq_none h, Directive.ofAttribute?_eq_none h']

/-- A renaming is a relabeling under which no directive changes. -/
def relabeling (ρ : Renaming) : Relabeling where
  name := ρ.name
  value := ρ.value
  native := ρ.native
  injective := ρ.injective
  directive n hn v := by
    refine (@ofAttribute?_entry ρ (n, v) hn).trans ?_
    cases hd : Directive.ofAttribute? (n, v) with
    | none => rfl
    | some d =>
        have hname : d.name = n := congrArg Prod.fst (Directive.attribute_eq hd)
        have htelling : Directive.Telling n := by
          by_contra hnot
          rw [Directive.ofAttribute?_eq_none hnot] at hd
          cases hd
        rw [Option.map_some, hname, (keeps_of_telling htelling).name, ← hname]
  other n _ kind hkind _ := by
    obtain ⟨d, hd, -⟩ := @Directive.exists_of_kind? (n, none) kind hkind
    refine (keeps_of_telling (n := n) ?_).name
    by_contra hnot
    rw [Directive.ofAttribute?_eq_none hnot] at hd
    cases hd
  fixed n hn := (ρ.telling n (by
    simp only [List.mem_cons, List.not_mem_nil, or_false] at hn
    rcases hn with rfl | rfl | rfl
    · exact .inl rfl
    · exact .inr (.inl rfl)
    · exact .inr (.inr (.inl rfl)))).1

theorem Keeps.relabeling (h : ρ.Keeps n) : ρ.relabeling.Keeps n := ⟨h.native, h.name, h.value⟩

end Renaming

/-! ### Attributes -/

namespace Attributes

variable {ρ : Renaming} {attrs attrs' : Attributes} {n : String}

/-- All attributes, renamed. -/
def renamed (ρ : Renaming) (attrs : Attributes) : Attributes := ⟨attrs.entries.map ρ.entry⟩

/-- A map whose names the renaming is meant for. -/
structure Native (ρ : Renaming) (attrs : Attributes) : Prop where
  distinct : attrs.Distinct
  names : ∀ n ∈ attrs.names, ρ.native n

theorem Native.of_writesOnly (h : attrs.Native ρ) (hw : attrs.WritesOnly ρ.native attrs') :
    attrs'.Native ρ :=
  ⟨hw.distinct, fun n hn => (hw.names n hn).elim (h.names n) id⟩

theorem Native.told (h : attrs.Native ρ) : attrs.Told ρ.relabeling := ⟨h.distinct, h.names⟩

theorem names_renamed (ρ : Renaming) (attrs : Attributes) :
    (attrs.renamed ρ).names = attrs.names.map ρ.name := names_relabeled ρ.relabeling attrs

theorem Native.doubleBinding?_renamed (h : attrs.Native ρ) :
    (attrs.renamed ρ).doubleBinding? = attrs.doubleBinding? := by
  unfold Attributes.doubleBinding?
  rw [names_renamed, List.findSome?_map, ← List.head?_filterMap, ← List.head?_filterMap]
  refine congrArg List.head? (List.filterMap_congr fun name hname => ?_)
  have hnative := h.names name hname
  rw [Function.comp_apply]
  by_cases htelling : Directive.Telling name
  · rw [(Renaming.keeps_of_telling htelling).name]
    split
    · rfl
    · rename_i property _
      have hlong : ρ.Keeps ("v-bind:" ++ property) := Renaming.keeps_of_telling
        (Directive.telling_of_marked (Directive.marked_binding _).2)
      have hcontains := h.told.contains_of_keeps hlong.relabeling
      dsimp only
      exact if_congr (by rw [← hcontains]; rfl) rfl rfl
  · -- A name that says nothing is no binding, nor does it become one.
    have hshort : ∀ m, ¬ Directive.Telling m → Text.after? ":" m = none := by
      intro m hm
      rw [Text.after?_eq_none_iff, ← Bool.not_eq_true]
      exact fun hcolon => hm (Directive.telling_of_marked (.inl hcolon))
    rw [hshort name htelling,
      hshort _ fun htold => htelling ((Renaming.telling_name_iff hnative).mp htold)]

end Attributes

/-! ### Settings -/

/-- The attributes before the element are renamed, too. -/
def Site.renamed (ρ : Renaming) (site : Site) : Site :=
  { site with previous := fun _ => (site.previous ()).map (Attributes.renamed ρ) }

/-- Loops are split into attributes that are those of the other form, renamed. -/
def IterationForm.Renamed (ρ : Renaming) : IterationForm → IterationForm → Prop
  | .keep, .keep => True
  | .split itemName indexName sourceName encoding,
      .split itemName' indexName' sourceName' encoding' =>
    ∀ it : Iteration, it.attributes itemName' indexName' sourceName' encoding'
      = (it.attributes itemName indexName sourceName encoding).map ρ.entry
  | _, _ => False

/-- The properties that are bound are left alone. -/
def Attributes.BoundKept (ρ : Renaming) (attrs : Attributes) : Prop :=
  ∀ d ∈ attrs.directivesOf .bind, ∀ property, d.arg = some property → ρ.Keeps property

namespace Renaming

/-- What one setting writes is what the other one writes, renamed.  Beside conditions, loops and
two-way bindings the two do the same, and they write style bindings under no name. -/
structure Relates (ρ : Renaming) (σ τ : Setting) : Prop where
  proper : σ.dialect.Proper
  replaces : σ.dialect.Replaces
  native : ∀ n ∈ σ.dialect.written, ρ.native n
  reference : τ.dialect.reference = σ.dialect.reference
  identity : ∀ n ∈ σ.dialect.reference.names, ρ.Keeps n
  model : ∀ key, τ.dialect.model.attributes key
    = (σ.dialect.model.attributes key).map ρ.entry
  binding : τ.dialect.binding = σ.dialect.binding
  showSlot : τ.dialect.showSlot = σ.dialect.showSlot
  slot : ∀ n ∈ σ.dialect.showSlot.names, ρ.Keeps n
  conditional : ∀ (kind : DirectiveKind) (value : Option String),
    (τ.dialect.conditional.nameOf kind, value.map τ.dialect.conditional.encoding.encode)
      = ρ.entry (σ.dialect.conditional.nameOf kind,
        value.map σ.dialect.conditional.encoding.encode)
  iteration : σ.dialect.iteration.Renamed ρ τ.dialect.iteration
  classMode : τ.dialect.classMode = σ.dialect.classMode
  styleMode : τ.dialect.styleMode = σ.dialect.styleMode
  normalizeStyle : ∀ style, τ.normalizeStyle style = σ.normalizeStyle style

variable {ρ : Renaming} {σ τ : Setting} {attrs : Attributes} {n : String}

/-- The renaming is meant for all that is written. -/
theorem Relates.native_of_writes (h : ρ.Relates σ τ) (hbound : attrs.BoundKept ρ)
    (hn : σ.dialect.Writes attrs n) : ρ.native n := by
  rcases hn with hwritten | ⟨-, d, hd, harg⟩
  · exact h.native n hwritten
  · exact (hbound d hd n harg).native

theorem Relates.relabeling (h : ρ.Relates σ τ) : ρ.relabeling.Relates σ τ where
  proper := h.proper
  replaces := h.replaces
  native := h.native
  reference := h.reference
  identity n hn := (h.identity n hn).relabeling
  model := h.model
  binding := h.binding
  showSlot := h.showSlot
  slot n hn := (h.slot n hn).relabeling
  conditional := h.conditional
  iteration := by
    have hform := h.iteration
    cases hσ : σ.dialect.iteration with
    | keep => exact absurd hσ h.replaces.iteration
    | split itemName indexName sourceName encoding =>
        rw [hσ] at hform
        cases hτ : τ.dialect.iteration with
        | keep =>
            rw [hτ] at hform
            exact hform
        | split itemName' indexName' sourceName' encoding' =>
            rw [hτ] at hform
            exact hform
  classMode := h.classMode
  styleMode := h.styleMode
  normalizeStyle := h.normalizeStyle

/-- A place and the place where all is renamed look alike. -/
theorem Relates.alike (h : ρ.Relates σ τ) (site : Site)
    (hprevious : ∀ before ∈ site.previous (), Attributes.Native ρ before) :
    Site.Alike σ τ site (site.renamed ρ) where
  tag := rfl
  span := rfl
  continued := by
    show ((site.previous ()).map (Attributes.renamed ρ)).any _ = _
    cases hbefore : site.previous () with
    | none => rfl
    | some before =>
        exact Adapter.continuedBy_relabeled h.relabeling (hprevious before hbefore).told

end Renaming

/-! ### Passes -/

/-- What an element needs for the passes that are still to come: the renaming is meant for its
names and, until bindings have been adapted, leaves alone the properties that are bound. -/
structure Attributes.Awaits (ρ : Renaming) (passes : List Pass) (attrs : Attributes) : Prop where
  native : attrs.Native ρ
  bound : .binding ∈ passes → attrs.BoundKept ρ

namespace Pass

variable {ρ : Renaming} {σ τ : Setting} {attrs attrs' : Attributes} {passes : List Pass}

/-- A pass does to the renamed attributes what it does to the attributes. -/
theorem adapter_renamed (pass : Pass) (h : ρ.Relates σ τ) (site : Site)
    (hprevious : ∀ before ∈ site.previous (), Attributes.Native ρ before)
    (hattrs : attrs.Awaits ρ (pass :: passes)) :
    pass.adapter τ (site.renamed ρ) (attrs.renamed ρ)
      = (pass.adapter σ site attrs).map (Attributes.renamed ρ) := by
  refine pass.adapter_relabeled h.relabeling (h.alike site hprevious) hattrs.native.told ?_
    fun _ => hattrs.native.doubleBinding?_renamed
  rintro rfl d hd property harg
  exact (hattrs.bound List.mem_cons_self d hd property harg).relabeling

/-- What a pass leaves is fit for the passes after it. -/
theorem awaits (pass : Pass) (h : ρ.Relates σ τ) {site : Site} (hpass : pass ∉ passes)
    (hattrs : attrs.Awaits ρ (pass :: passes))
    (hok : pass.adapter σ site attrs = .ok attrs') : attrs'.Awaits ρ passes := by
  have hd := hattrs.native.distinct
  by_cases hbinding : pass = .binding
  · have hbound := hattrs.bound (by simp [hbinding])
    have hwrites := (pass.writesOnly h.proper hd hok).mono fun n => h.native_of_writes hbound
    exact ⟨hattrs.native.of_writesOnly hwrites, fun hlater => absurd (hbinding ▸ hlater) hpass⟩
  · have hwrites := pass.writesOnly_written hbinding h.proper hd hok
    refine ⟨hattrs.native.of_writesOnly (hwrites.mono h.native), ?_⟩
    intro hlater d hbind property harg
    -- What is written is no binding, so the binding was there before.
    obtain ⟨hmem, hkind⟩ := Attributes.mem_directivesOf.mp hbind
    obtain ⟨-, hname, -, hk⟩ := Attributes.mem_of_mem_directives hmem
    rcases hwrites.names d.name hname with hold | hwritten
    · obtain ⟨d', hd', harg'⟩ := Attributes.exists_bind_of_name hbind hold
      exact hattrs.bound (List.mem_cons_of_mem _ hlater) d' hd' property (harg'.trans harg)
    · rw [hkind] at hk
      exact absurd hk ((h.replaces.written _ hwritten).ne rfl)

end Pass

end TemplateCompiler
