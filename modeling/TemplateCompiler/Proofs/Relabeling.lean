/-
Attributes under other labels.

A relabeling gives every attribute another name and perhaps another value, each in its place.
An adapter looks at names for two reasons only: it tells them apart, and it reads directives
off some of them.  A relabeling that keeps the names of an element apart, and under which every
directive is still the same but for the name of a binding, is therefore not noticed.  Looking
up, erasing and replacing commute with it, the directives of an element are relabeled with the
element, and so each adapter does to the relabeled attributes what it did to the attributes,
once the names that it writes are relabeled as well.

Only the platforms that replace every directive are considered.  Of a binding they look at the
place and the value; all other names that they look for must be left alone.

A relabeling need not keep all names apart that there are.  The names that it is meant for are
its native ones; attributes that have only those are relabeled without loss.
-/
import Mathlib.Data.List.Nodup
import TemplateCompiler.Proofs.Residue

namespace TemplateCompiler

/-! ### Relabelings -/

/-- Another name for every name, and another value for every value under it. -/
structure Relabeling where
  name : String → String
  value : String → Option String → Option String
  /-- The names that the relabeling is meant for. -/
  native : String → Prop
  injective : ∀ m n, native m → native n → name m = name n → m = n
  /-- A directive stays what it is, and what is none does not become one. -/
  directive : ∀ n, native n → ∀ v, Directive.ofAttribute? (name n, value n v)
    = (Directive.ofAttribute? (n, v)).map fun d => { d with name := name d.name }
  /-- Of the directives, only bindings get other names. -/
  other : ∀ n, native n → ∀ kind, Directive.kind? n = some kind →
    kind ∉ [DirectiveKind.bind, .classBinding, .styleBinding] → name n = n
  fixed : ∀ n ∈ ["ref", "class", "style"], native n

/-- The directive on the element when its attribute is relabeled. -/
def Directive.relabeled (φ : Relabeling) (d : Directive) : Directive :=
  { d with name := φ.name d.name }

theorem Directive.expression_relabeled (φ : Relabeling) (d : Directive) :
    (d.relabeled φ).expression = d.expression := rfl

namespace Relabeling

variable {φ : Relabeling} {m n : String}

/-- One attribute, relabeled. -/
def entry (φ : Relabeling) (attr : Attribute) : Attribute :=
  (φ.name attr.1, φ.value attr.1 attr.2)

/-- Attributes of this name are left alone. -/
structure Keeps (φ : Relabeling) (n : String) : Prop where
  native : φ.native n
  name : φ.name n = n
  value : ∀ v, φ.value n v = v

theorem Keeps.entry_eq (h : φ.Keeps n) (value : Option String) :
    φ.entry (n, value) = (n, value) := by
  unfold entry
  rw [h.name, h.value]

theorem name_eq_iff (hm : φ.native m) (hn : φ.native n) : φ.name m = φ.name n ↔ m = n :=
  ⟨φ.injective m n hm hn, congrArg φ.name⟩

/-- The value of a directive is part of it. -/
theorem value_of_kind? (hn : φ.native n) {kind : DirectiveKind}
    (hkind : Directive.kind? n = some kind) (v : Option String) : φ.value n v = v := by
  obtain ⟨d, hd, -⟩ := @Directive.exists_of_kind? (n, v) kind hkind
  have hsame := φ.directive n hn v
  rw [hd] at hsame
  have hvalue := congrArg Prod.snd (Directive.attribute_eq hsame)
  have hvalue' := congrArg Prod.snd (Directive.attribute_eq hd)
  exact hvalue.symm.trans hvalue'

theorem keeps_of_kind? (hn : φ.native n) {kind : DirectiveKind}
    (hkind : Directive.kind? n = some kind)
    (hother : kind ∉ [DirectiveKind.bind, .classBinding, .styleBinding]) : φ.Keeps n :=
  ⟨hn, φ.other n hn kind hkind hother, value_of_kind? hn hkind⟩

theorem keeps_ref (φ : Relabeling) : φ.Keeps "ref" :=
  @keeps_of_kind? φ _ (φ.fixed _ (by simp)) .ref (by decide) (by decide)

theorem keeps_class (φ : Relabeling) : φ.Keeps "class" :=
  @keeps_of_kind? φ _ (φ.fixed _ (by simp)) .staticClass (by decide) (by decide)

theorem keeps_style (φ : Relabeling) : φ.Keeps "style" :=
  @keeps_of_kind? φ _ (φ.fixed _ (by simp)) .staticStyle (by decide) (by decide)

theorem map_fst_entry (φ : Relabeling) (entries : List Attribute) :
    (entries.map φ.entry).map Prod.fst = (entries.map Prod.fst).map φ.name := by
  rw [List.map_map, List.map_map]
  rfl

/-- Names that the relabeling is meant for stay distinct. -/
theorem nodup_map_name {names : List String} (h : names.Nodup)
    (hnames : ∀ n ∈ names, φ.native n) : (names.map φ.name).Nodup :=
  h.map_on fun m hm n hn heq => φ.injective m n (hnames m hm) (hnames n hn) heq

theorem mem_map_name_iff {names : List String} (hnames : ∀ n ∈ names, φ.native n)
    (hn : φ.native n) : φ.name n ∈ names.map φ.name ↔ n ∈ names := by
  rw [List.mem_map]
  constructor
  · rintro ⟨m, hm, heq⟩
    rw [← φ.injective m n (hnames m hm) hn heq]
    exact hm
  · intro hmem
    exact ⟨n, hmem, rfl⟩

end Relabeling

/-! ### Operations -/

namespace Attributes

variable {φ : Relabeling} {attrs attrs' : Attributes} {n : String}

/-- All attributes, relabeled. -/
def relabeled (φ : Relabeling) (attrs : Attributes) : Attributes := ⟨attrs.entries.map φ.entry⟩

/-- A map whose names the relabeling is meant for. -/
structure Told (φ : Relabeling) (attrs : Attributes) : Prop where
  distinct : attrs.Distinct
  names : ∀ n ∈ attrs.names, φ.native n

theorem names_relabeled (φ : Relabeling) (attrs : Attributes) :
    (attrs.relabeled φ).names = attrs.names.map φ.name := φ.map_fst_entry attrs.entries

namespace Told

theorem of_writesOnly (h : attrs.Told φ) (hw : attrs.WritesOnly φ.native attrs') :
    attrs'.Told φ :=
  ⟨hw.distinct, fun n hn => (hw.names n hn).elim (h.names n) id⟩

theorem replaceD (h : attrs.Told φ) (n : String) {new : List Attribute}
    (hnodup : (new.map Prod.fst).Nodup) (hnew : ∀ m ∈ new.map Prod.fst, φ.native m) :
    (attrs.replaceD n new).Told φ :=
  h.of_writesOnly ((WritesOnly.refl h.distinct).replaceD n hnodup hnew)

theorem insert (h : attrs.Told φ) (hn : φ.native n) (value : String) :
    (attrs.insert n value).Told φ :=
  h.of_writesOnly ((WritesOnly.refl h.distinct).insert hn value)

theorem erase (h : attrs.Told φ) (n : String) : (attrs.erase n).Told φ :=
  h.of_writesOnly ((WritesOnly.refl h.distinct).erase n)

theorem entries (h : attrs.Told φ) {attr : Attribute} (hattr : attr ∈ attrs.entries) :
    φ.native attr.1 := h.names attr.1 (List.mem_map_of_mem hattr)

theorem distinct_relabeled (h : attrs.Told φ) : (attrs.relabeled φ).Distinct := by
  unfold Distinct
  rw [names_relabeled]
  exact Relabeling.nodup_map_name h.distinct h.names

theorem contains_relabeled (h : attrs.Told φ) (hn : φ.native n) :
    (attrs.relabeled φ).contains (φ.name n) = attrs.contains n := by
  rw [Bool.eq_iff_iff, contains_iff, contains_iff, names_relabeled,
    Relabeling.mem_map_name_iff h.names hn]

theorem contains_of_keeps (h : attrs.Told φ) (hk : φ.Keeps n) :
    (attrs.relabeled φ).contains n = attrs.contains n := by
  have hsame := h.contains_relabeled hk.native
  rw [hk.name] at hsame
  exact hsame

theorem get?_relabeled (h : attrs.Told φ) (hk : φ.Keeps n) :
    (attrs.relabeled φ).get? n = attrs.get? n := by
  refine h.distinct.get?_congr h.distinct_relabeled fun value => ?_
  show (n, value) ∈ attrs.entries.map φ.entry ↔ _
  rw [List.mem_map]
  constructor
  · rintro ⟨⟨m, old⟩, hmem, heq⟩
    obtain ⟨hname, hvalue⟩ := Prod.mk.inj heq
    obtain rfl : m = n := φ.injective m n (h.entries hmem) hk.native (hname.trans hk.name.symm)
    rw [← hvalue]
    show (m, φ.value m old) ∈ attrs.entries
    rw [hk.value]
    exact hmem
  · intro hmem
    exact ⟨(n, value), hmem, hk.entry_eq value⟩

theorem set_relabeled (h : attrs.Told φ) (hk : φ.Keeps n) (value : Option String) :
    (attrs.relabeled φ).set n value = (attrs.set n value).relabeled φ := by
  unfold Attributes.set
  rw [h.contains_of_keeps hk]
  split
  · refine eq_of_entries ?_
    show (attrs.entries.map φ.entry).map _ = (attrs.entries.map _).map φ.entry
    rw [List.map_map, List.map_map]
    refine List.map_congr_left fun attr hattr => ?_
    have hiff : (φ.entry attr).1 = n ↔ attr.1 = n := by
      rw [← Relabeling.name_eq_iff (h.entries hattr) hk.native, hk.name]
      rfl
    show (if (φ.entry attr).1 == n then ((φ.entry attr).1, value) else φ.entry attr)
      = φ.entry (if attr.1 == n then (attr.1, value) else attr)
    by_cases hname : attr.1 = n
    · rw [if_pos (beq_iff_eq.mpr (hiff.mpr hname)), if_pos (beq_iff_eq.mpr hname),
        hiff.mpr hname, hname, hk.entry_eq]
    · rw [if_neg fun heq => hname (hiff.mp (beq_iff_eq.mp heq)),
        if_neg fun heq => hname (beq_iff_eq.mp heq)]
  · refine eq_of_entries ?_
    show attrs.entries.map φ.entry ++ [(n, value)] = (attrs.entries ++ [(n, value)]).map φ.entry
    rw [List.map_append, List.map_singleton, hk.entry_eq]

theorem erase_relabeled (h : attrs.Told φ) (hn : φ.native n) :
    (attrs.relabeled φ).erase (φ.name n) = (attrs.erase n).relabeled φ := by
  refine eq_of_entries ?_
  show (attrs.entries.map φ.entry).filter _ = (attrs.entries.filter _).map φ.entry
  rw [List.filter_map]
  refine congrArg _ (List.filter_congr fun attr hattr => ?_)
  rw [Bool.eq_iff_iff, Function.comp_apply, bne_iff_ne, bne_iff_ne]
  exact not_congr (Relabeling.name_eq_iff (h.entries hattr) hn)

/-- A replacement of one entry, where the new entries are relabeled as well. -/
theorem replaceEntry_relabeled {new : List Attribute} {attr : Attribute} (hn : φ.native n)
    (hnew : ∀ m ∈ new.map Prod.fst, φ.native m) (hattr : φ.native attr.1) :
    replaceEntry (φ.name n) (new.map φ.entry) (φ.entry attr)
      = (replaceEntry n new attr).map φ.entry := by
  have hname : (φ.entry attr).1 = φ.name n ↔ attr.1 = n := Relabeling.name_eq_iff hattr hn
  have hmem : (φ.entry attr).1 ∈ (new.map φ.entry).map Prod.fst ↔ attr.1 ∈ new.map Prod.fst := by
    rw [Relabeling.map_fst_entry]
    exact Relabeling.mem_map_name_iff hnew hattr
  unfold replaceEntry
  rw [if_congr hname rfl rfl, if_congr hmem rfl rfl]
  split
  · rfl
  · split <;> rfl

theorem replaceD_relabeled (h : attrs.Told φ) (hn : φ.native n) {new : List Attribute}
    (hnodup : (new.map Prod.fst).Nodup) (hnew : ∀ m ∈ new.map Prod.fst, φ.native m) :
    (attrs.relabeled φ).replaceD (φ.name n) (new.map φ.entry)
      = (attrs.replaceD n new).relabeled φ := by
  have hmem : φ.name n ∈ (attrs.relabeled φ).names ↔ n ∈ attrs.names := by
    rw [← contains_iff, h.contains_relabeled hn, contains_iff]
  by_cases hname : n ∈ attrs.names
  · have hnodup' : ((new.map φ.entry).map Prod.fst).Nodup := by
      rw [Relabeling.map_fst_entry]
      exact Relabeling.nodup_map_name hnodup hnew
    refine eq_of_entries ?_
    rw [h.distinct_relabeled.entries_replaceD (hmem.mpr hname) hnodup']
    show (attrs.entries.map φ.entry).flatMap _ = (attrs.replaceD n new).entries.map φ.entry
    rw [h.distinct.entries_replaceD hname hnodup, List.flatMap_map, List.map_flatMap]
    exact List.flatMap_congr fun attr hattr => replaceEntry_relabeled hn hnew (h.entries hattr)
  · rw [replaceD_of_not_mem hname, replaceD_of_not_mem fun hname' => hname (hmem.mp hname')]

/-- One new entry of a name that is left alone. -/
theorem replaceD_one_relabeled (h : attrs.Told φ) (hn : φ.native n) {new : String}
    (hnew : φ.Keeps new) (value : Option String) :
    (attrs.relabeled φ).replaceD (φ.name n) [(new, value)]
      = (attrs.replaceD n [(new, value)]).relabeled φ := by
  have hnodup : ([(new, value)].map Prod.fst).Nodup := List.nodup_singleton new
  rw [← h.replaceD_relabeled hn hnodup (by simpa using hnew.native), List.map_singleton,
    hnew.entry_eq]

theorem addClass_relabeled (h : attrs.Told φ) (marker : String) :
    (attrs.relabeled φ).addClass marker = (attrs.addClass marker).relabeled φ := by
  unfold addClass Attributes.insert
  rw [h.get?_relabeled φ.keeps_class]
  split
  · exact h.set_relabeled φ.keeps_class _
  · split
    · rfl
    · split <;> exact h.set_relabeled φ.keeps_class _

/-! ### What is read off names -/

theorem directives_relabeled (h : attrs.Told φ) :
    (attrs.relabeled φ).directives = attrs.directives.map (Directive.relabeled φ) := by
  show (attrs.entries.map φ.entry).filterMap _ = (attrs.entries.filterMap _).map _
  rw [List.filterMap_map, List.map_filterMap]
  refine List.filterMap_congr fun attr hattr => ?_
  exact φ.directive attr.1 (h.entries hattr) attr.2

theorem directivesOf_relabeled (h : attrs.Told φ) (kind : DirectiveKind) :
    (attrs.relabeled φ).directivesOf kind
      = (attrs.directivesOf kind).map (Directive.relabeled φ) := by
  unfold Attributes.directivesOf
  rw [h.directives_relabeled, List.filter_map]
  rfl

theorem directive?_relabeled (h : attrs.Told φ) (kind : DirectiveKind) :
    (attrs.relabeled φ).directive? kind
      = (attrs.directive? kind).map (Directive.relabeled φ) := by
  rw [directive?_eq_head?, directive?_eq_head?, h.directivesOf_relabeled, List.head?_map]

/-- The name of a directive is native. -/
theorem native_of_mem_directives (h : attrs.Told φ) {d : Directive} (hd : d ∈ attrs.directives) :
    φ.native d.name := h.names d.name (mem_of_mem_directives hd).2.1

theorem native_of_mem_directivesOf (h : attrs.Told φ) {d : Directive} {kind : DirectiveKind}
    (hd : d ∈ attrs.directivesOf kind) : φ.native d.name :=
  h.native_of_mem_directives (mem_directivesOf.mp hd).1

/-- Directives that are no bindings are left alone. -/
theorem relabeled_eq (h : attrs.Told φ) {d : Directive} (hd : d ∈ attrs.directives)
    (hkind : d.kind ∉ [DirectiveKind.bind, .classBinding, .styleBinding]) :
    d.relabeled φ = d := by
  obtain ⟨-, hname, -, hk⟩ := mem_of_mem_directives hd
  unfold Directive.relabeled
  rw [φ.other d.name (h.names _ hname) d.kind hk hkind]

theorem conditionals_relabeled (h : attrs.Told φ) :
    (attrs.relabeled φ).conditionals = attrs.conditionals := by
  unfold Attributes.conditionals
  rw [h.directives_relabeled, List.filter_map]
  refine (List.map_congr_left fun d hd => ?_).trans (List.map_id _)
  obtain ⟨hmem, hcond⟩ := List.mem_filter.mp hd
  refine h.relabeled_eq hmem fun hkind => ?_
  simp only [List.mem_cons, List.not_mem_nil, or_false] at hkind
  rcases hkind with hkind | hkind | hkind <;> simp [Directive.relabeled, hkind,
    DirectiveKind.isConditional] at hcond

end Told

end Attributes

/-! ### Settings -/

/-- Two places that look alike to an adapter. -/
structure Site.Alike (σ τ : Setting) (site site' : Site) : Prop where
  tag : site'.tag = site.tag
  span : site'.span = site.span
  continued : (site'.previous ()).any τ.dialect.conditional.continuedBy
    = (site.previous ()).any σ.dialect.conditional.continuedBy

/-- Loops are split into attributes that are those of the other form, relabeled. -/
def IterationForm.Relabeled (φ : Relabeling) : IterationForm → IterationForm → Prop
  | .keep, .keep => True
  | .split itemName indexName sourceName encoding,
      .split itemName' indexName' sourceName' encoding' =>
    ∀ it : Iteration, it.attributes itemName' indexName' sourceName' encoding'
      = (it.attributes itemName indexName sourceName encoding).map φ.entry
  | _, _ => False

/-- The properties that are bound are left alone. -/
def Attributes.BindsKept (φ : Relabeling) (attrs : Attributes) : Prop :=
  ∀ d ∈ attrs.directivesOf .bind, ∀ property, d.arg = some property → φ.Keeps property

namespace Relabeling

/-- What one setting writes is what the other one writes, relabeled.  Beside conditions, loops and
two-way bindings the two do the same, and they write style bindings under no name. -/
structure Relates (φ : Relabeling) (σ τ : Setting) : Prop where
  proper : σ.dialect.Proper
  replaces : σ.dialect.Replaces
  native : ∀ n ∈ σ.dialect.written, φ.native n
  reference : τ.dialect.reference = σ.dialect.reference
  identity : ∀ n ∈ σ.dialect.reference.names, φ.Keeps n
  model : ∀ key, τ.dialect.model.attributes key
    = (σ.dialect.model.attributes key).map φ.entry
  binding : τ.dialect.binding = σ.dialect.binding
  showSlot : τ.dialect.showSlot = σ.dialect.showSlot
  slot : ∀ n ∈ σ.dialect.showSlot.names, φ.Keeps n
  conditional : ∀ (kind : DirectiveKind) (value : Option String),
    (τ.dialect.conditional.nameOf kind, value.map τ.dialect.conditional.encoding.encode)
      = φ.entry (σ.dialect.conditional.nameOf kind,
        value.map σ.dialect.conditional.encoding.encode)
  iteration : σ.dialect.iteration.Relabeled φ τ.dialect.iteration
  classMode : τ.dialect.classMode = σ.dialect.classMode
  styleMode : τ.dialect.styleMode = σ.dialect.styleMode
  normalizeStyle : ∀ style, τ.normalizeStyle style = σ.normalizeStyle style

variable {φ : Relabeling} {σ τ : Setting} {attrs : Attributes} {n : String}

theorem Relates.native_conditional (h : φ.Relates σ τ) (kind : DirectiveKind) :
    φ.native (σ.dialect.conditional.nameOf kind) := by
  have hmem := ConditionalNames.nameOf_mem σ.dialect.conditional kind
  exact h.native _ (by simp [Dialect.written, hmem])

/-- The relabeling is meant for all that is written. -/
theorem Relates.native_of_writes (h : φ.Relates σ τ) (hbound : attrs.BindsKept φ)
    (hn : σ.dialect.Writes attrs n) : φ.native n := by
  rcases hn with hwritten | ⟨-, d, hd, harg⟩
  · exact h.native n hwritten
  · exact (hbound d hd n harg).native

end Relabeling

/-! ### Adapters -/

namespace Adapter

variable {φ : Relabeling} {σ τ : Setting} {site site' : Site} {attrs : Attributes}

theorem reference_relabeled (h : φ.Relates σ τ) (site site' : Site) (hattrs : attrs.Told φ) :
    reference τ site' (attrs.relabeled φ)
      = (reference σ site attrs).map (Attributes.relabeled φ) := by
  have href := φ.keeps_ref
  have herase := hattrs.erase_relabeled href.native
  rw [href.name] at herase
  unfold reference
  rw [hattrs.get?_relabeled href, h.reference]
  split
  · rfl
  · dsimp only
    split
    · rw [herase]
      rfl
    · rename_i idName marker hform
      have hid : φ.Keeps idName := h.identity idName (by simp [hform, ReferenceForm.names])
      split
      · rw [herase]
        rfl
      · have htold : ∀ value, (attrs.replaceD "ref" [(idName, value)]).Told φ := fun value =>
          hattrs.replaceD "ref" (List.nodup_singleton idName) (by simpa using hid.native)
        have hreplace := hattrs.replaceD_one_relabeled href.native hid
        rw [href.name] at hreplace
        rw [hreplace, (htold _).addClass_relabeled]
        rfl

theorem model_relabeled (h : φ.Relates σ τ) (site site' : Site) (hattrs : attrs.Told φ) :
    model τ site' (attrs.relabeled φ)
      = (model σ site attrs).map (Attributes.relabeled φ) := by
  unfold model
  rw [hattrs.directive?_relabeled]
  cases hd : attrs.directive? .model with
  | none => rfl
  | some d =>
      have hn := hattrs.native_of_mem_directives (Attributes.mem_of_directive? hd).1
      dsimp only [Option.map_some]
      rw [Directive.expression_relabeled]
      split
      · exact congrArg Except.ok (hattrs.erase_relabeled hn)
      · rw [h.model]
        refine congrArg Except.ok (hattrs.replaceD_relabeled hn ?_ ?_)
        · rw [ModelForm.map_fst_attributes]
          exact h.proper.model
        · rw [ModelForm.map_fst_attributes]
          exact fun n hn => h.native n (by simp [Dialect.written, hn])

/-- The bindings are replaced one after the other, by properties that are left alone. -/
theorem foldl_plainBinding_relabeled (encoding : Encoding) {ds : List Directive}
    (hname : ∀ d ∈ ds, φ.native d.name) (harg : ∀ d ∈ ds, ∀ property, d.arg = some property →
      φ.Keeps property) :
    ∀ {attrs : Attributes}, attrs.Told φ →
      (ds.map (Directive.relabeled φ)).foldl (plainBinding encoding) (attrs.relabeled φ)
        = (ds.foldl (plainBinding encoding) attrs).relabeled φ := by
  induction ds with
  | nil => exact fun _ => rfl
  | cons d ds ih =>
      intro attrs hattrs
      have hstep : plainBinding encoding (attrs.relabeled φ) (d.relabeled φ)
            = (plainBinding encoding attrs d).relabeled φ ∧
          (plainBinding encoding attrs d).Told φ := by
        obtain ⟨kind, name, arg, modifiers, value⟩ := d
        cases arg with
        | none => exact ⟨rfl, hattrs⟩
        | some property =>
            have hk := harg _ List.mem_cons_self property rfl
            exact ⟨hattrs.replaceD_one_relabeled (hname _ List.mem_cons_self) hk _,
              hattrs.replaceD name (List.nodup_singleton property) (by simpa using hk.native)⟩
      rw [List.map_cons, List.foldl_cons, List.foldl_cons, hstep.1]
      exact ih (fun d' hd' => hname d' (by simp [hd'])) (fun d' hd' => harg d' (by simp [hd']))
        hstep.2

theorem showing_relabeled {slot : String} (hslot : φ.Keeps slot) (hattrs : attrs.Told φ) :
    showing (.static slot) (attrs.relabeled φ) = (showing (.static slot) attrs).relabeled φ := by
  unfold showing
  rw [hattrs.directive?_relabeled]
  cases hd : attrs.directive? .showIf with
  | none => rfl
  | some d =>
      have hn := hattrs.native_of_mem_directives (Attributes.mem_of_directive? hd).1
      dsimp only [Option.map_some]
      rw [Directive.expression_relabeled]
      split
      · exact hattrs.erase_relabeled hn
      · unfold intoSlot
        dsimp only
        rw [hattrs.get?_relabeled hslot]
        split
        · exact hattrs.replaceD_one_relabeled hn hslot _
        · rw [Attributes.insert, hattrs.set_relabeled hslot]
          exact (hattrs.insert hslot.native _).erase_relabeled hn

theorem properties_relabeled (h : φ.Relates σ τ) (hattrs : attrs.Told φ)
    (hbound : attrs.BindsKept φ) :
    properties τ.dialect.binding (attrs.relabeled φ)
      = (properties σ.dialect.binding attrs).relabeled φ := by
  unfold properties
  rw [h.binding, hattrs.directivesOf_relabeled]
  split
  · rfl
  · exact foldl_plainBinding_relabeled _ (fun d hd => hattrs.native_of_mem_directivesOf hd) hbound
      hattrs

theorem binding_relabeled (h : φ.Relates σ τ) (hsite : Site.Alike σ τ site site')
    (hattrs : attrs.Told φ) (hbound : attrs.BindsKept φ)
    (hdouble : (attrs.relabeled φ).doubleBinding? = attrs.doubleBinding?) :
    binding τ site' (attrs.relabeled φ)
      = (binding σ site attrs).map (Attributes.relabeled φ) := by
  have htold : (properties σ.dialect.binding attrs).Told φ :=
    hattrs.of_writesOnly
      ((writesOnly_properties hattrs.distinct).mono fun _ => h.native_of_writes hbound)
  obtain ⟨slot, hslot⟩ := h.replaces.showSlot
  have hkeep : φ.Keeps slot := h.slot slot (by simp [hslot, ShowSlot.names])
  unfold binding
  rw [hdouble, hsite.tag, hsite.span]
  split
  · rfl
  · rw [properties_relabeled h hattrs hbound, h.showSlot, hslot, showing_relabeled hkeep htold]
    rfl

/-- What stands before the element can be continued in both dialects or in neither. -/
theorem continuedBy_relabeled (h : φ.Relates σ τ) (hattrs : attrs.Told φ) :
    τ.dialect.conditional.continuedBy (attrs.relabeled φ)
      = σ.dialect.conditional.continuedBy attrs := by
  have hname : ∀ kind : DirectiveKind, τ.dialect.conditional.nameOf kind
      = φ.name (σ.dialect.conditional.nameOf kind) := fun kind =>
    (Prod.mk.inj (h.conditional kind none)).1
  have hcontains : ∀ kind : DirectiveKind,
      (attrs.relabeled φ).contains (τ.dialect.conditional.nameOf kind)
        = attrs.contains (σ.dialect.conditional.nameOf kind) := by
    intro kind
    rw [hname]
    exact hattrs.contains_relabeled (h.native_conditional kind)
  unfold ConditionalNames.continuedBy
  exact congrArg₂ _ (hcontains .ifCond) (hcontains .elseIf)

theorem conditional_relabeled (h : φ.Relates σ τ) (hsite : Site.Alike σ τ site site')
    (hattrs : attrs.Told φ) :
    conditional τ site' (attrs.relabeled φ)
      = (conditional σ site attrs).map (Attributes.relabeled φ) := by
  unfold conditional
  dsimp only
  rw [hattrs.conditionals_relabeled, hsite.continued, hsite.tag, hsite.span]
  split
  · rfl
  · rfl
  · rename_i d hone
    have hd : d ∈ attrs.directives ∧ d.kind.isConditional = true :=
      Attributes.mem_conditionals.mp (by rw [hone]; exact List.mem_singleton_self d)
    have hsame : φ.name d.name = d.name := by
      refine φ.other _ (hattrs.native_of_mem_directives hd.1) d.kind
        (Attributes.mem_of_mem_directives hd.1).2.2.2 fun hkind => ?_
      have hcond := hd.2
      simp only [List.mem_cons, List.not_mem_nil, or_false] at hkind
      rcases hkind with hkind | hkind | hkind <;> rw [hkind] at hcond <;> cases hcond
    split
    · rw [h.conditional, ← List.map_singleton]
      refine congrArg Except.ok ?_
      have hnodup : ([(σ.dialect.conditional.nameOf d.kind,
          d.value.map σ.dialect.conditional.encoding.encode)].map Prod.fst).Nodup :=
        List.nodup_singleton _
      have hreplace := hattrs.replaceD_relabeled (hattrs.native_of_mem_directives hd.1) hnodup
        (by simpa using h.native_conditional d.kind)
      rw [hsame] at hreplace
      exact hreplace
    · rfl

theorem iteration_relabeled (h : φ.Relates σ τ) (hsite : Site.Alike σ τ site site')
    (hattrs : attrs.Told φ) :
    iteration τ site' (attrs.relabeled φ)
      = (iteration σ site attrs).map (Attributes.relabeled φ) := by
  have hform := h.iteration
  unfold iteration
  rw [hattrs.directive?_relabeled, hsite.tag, hsite.span]
  cases hd : attrs.directive? .forEach with
  | none => rfl
  | some d =>
      have hn := hattrs.native_of_mem_directives (Attributes.mem_of_directive? hd).1
      dsimp only [Option.map_some]
      rw [Directive.expression_relabeled]
      split
      · rfl
      · rename_i it _
        cases hσ : σ.dialect.iteration with
        | keep => exact absurd hσ h.replaces.iteration
        | split itemName indexName sourceName encoding =>
            cases hτ : τ.dialect.iteration with
            | keep =>
                rw [hσ, hτ] at hform
                exact hform.elim
            | split itemName' indexName' sourceName' encoding' =>
                rw [hσ, hτ] at hform
                have hnames : (it.attributes itemName indexName sourceName encoding).map Prod.fst
                    = σ.dialect.iteration.names := by
                  rw [hσ]
                  rfl
                dsimp only
                split
                · rw [hform it]
                  refine congrArg Except.ok (hattrs.replaceD_relabeled hn ?_ ?_)
                  · rw [hnames]
                    exact h.proper.iteration
                  · rw [hnames]
                    exact fun n hn => h.native n (by simp [Dialect.written, hn])
                · rfl

theorem foldClass_relabeled (base : String) (hattrs : attrs.Told φ) :
    foldClass base ((attrs.relabeled φ).directive? .classBinding) (attrs.relabeled φ)
      = (foldClass base (attrs.directive? .classBinding) attrs).relabeled φ := by
  have hkeep := φ.keeps_class
  unfold foldClass Attributes.insert
  rw [hattrs.get?_relabeled hkeep, hattrs.contains_of_keeps hkeep, hattrs.directive?_relabeled]
  dsimp only
  cases hd : attrs.directive? .classBinding with
  | none =>
      dsimp only [Option.map_none]
      split
      · rfl
      · exact hattrs.set_relabeled hkeep _
  | some d =>
      have hn := hattrs.native_of_mem_directives (Attributes.mem_of_directive? hd).1
      dsimp only [Option.map_some]
      split
      · rw [hattrs.set_relabeled hkeep]
        exact (hattrs.insert hkeep.native _).erase_relabeled hn
      · exact hattrs.replaceD_one_relabeled hn hkeep _

theorem classes_relabeled (h : φ.Relates σ τ) (hsite : Site.Alike σ τ site site')
    (hattrs : attrs.Told φ) :
    classes τ site' (attrs.relabeled φ)
      = (classes σ site attrs).map (Attributes.relabeled φ) := by
  unfold classes
  rw [h.classMode, h.replaces.classMode, hsite.tag]
  exact congrArg Except.ok (foldClass_relabeled (baseClasses site.tag) hattrs)

theorem eraseAll_relabeled {ds : List Directive} (hds : ∀ d ∈ ds, φ.native d.name) :
    ∀ {attrs : Attributes}, attrs.Told φ →
      eraseAll (ds.map (Directive.relabeled φ)) (attrs.relabeled φ)
          = (eraseAll ds attrs).relabeled φ ∧
        (eraseAll ds attrs).Told φ := by
  induction ds with
  | nil => exact fun hattrs => ⟨rfl, hattrs⟩
  | cons d ds ih =>
      intro attrs hattrs
      unfold eraseAll
      rw [List.map_cons, List.foldl_cons, List.foldl_cons]
      show List.foldl _ ((attrs.relabeled φ).erase (φ.name d.name)) _ = _ ∧ _
      rw [hattrs.erase_relabeled (hds d (by simp))]
      exact ih (fun d' hd' => hds d' (by simp [hd'])) (hattrs.erase d.name)

theorem styles_relabeled (h : φ.Relates σ τ) (site site' : Site) (hattrs : attrs.Told φ) :
    styles τ site' (attrs.relabeled φ)
      = (styles σ site attrs).map (Attributes.relabeled φ) := by
  have hkeep := φ.keeps_style
  have hdrop : ∀ (setting : Setting), setting.dialect.styleMode = .drop → ∀ attrs : Attributes,
      styleBindings setting.dialect.styleMode setting.style attrs
        = eraseAll (attrs.directivesOf .styleBinding) attrs := by
    intro setting hmode attrs
    rw [hmode]
    rfl
  obtain ⟨herased, htold⟩ := eraseAll_relabeled
    (fun d (hd : d ∈ attrs.directivesOf .styleBinding) => hattrs.native_of_mem_directivesOf hd)
    hattrs
  unfold styles
  rw [hdrop σ h.replaces.styleMode, hdrop τ (h.styleMode.trans h.replaces.styleMode),
    hattrs.directivesOf_relabeled, herased]
  refine congrArg Except.ok ?_
  unfold staticStyle
  rw [htold.get?_relabeled hkeep]
  split
  · rfl
  · rw [h.normalizeStyle]
    dsimp only
    split
    · rfl
    · exact htold.set_relabeled hkeep _

end Adapter

/-- A pass does to the relabeled attributes what it does to the attributes. -/
theorem Pass.adapter_relabeled (pass : Pass) {φ : Relabeling} {σ τ : Setting} {site site' : Site}
    {attrs : Attributes} (h : φ.Relates σ τ) (hsite : Site.Alike σ τ site site')
    (hattrs : attrs.Told φ) (hbound : pass = .binding → attrs.BindsKept φ)
    (hdouble : pass = .binding → (attrs.relabeled φ).doubleBinding? = attrs.doubleBinding?) :
    pass.adapter τ site' (attrs.relabeled φ)
      = (pass.adapter σ site attrs).map (Attributes.relabeled φ) := by
  cases pass with
  | ref => exact Adapter.reference_relabeled h site site' hattrs
  | model => exact Adapter.model_relabeled h site site' hattrs
  | binding => exact Adapter.binding_relabeled h hsite hattrs (hbound rfl) (hdouble rfl)
  | conditional => exact Adapter.conditional_relabeled h hsite hattrs
  | iteration => exact Adapter.iteration_relabeled h hsite hattrs
  | classes => exact Adapter.classes_relabeled h hsite hattrs
  | styles => exact Adapter.styles_relabeled h site site' hattrs

end TemplateCompiler
