/-
The two spellings of a binding on the mini-program platforms.

A binding in the short spelling may be written in the long one, in its place, and nothing comes
of it.  Both spellings bind the same property with the same modifiers, so the directives of an
element are the same but for their names.  On these platforms the name of a binding serves only
to find the place of its attribute, where an attribute of another name is put or none at all.
That the spelling is a relabeling in this sense needs one thing of the element, that no property
is bound in both spellings: then no two of its names become one.

While passes are still to come the two trees differ.  At the end no binding is left, and so no
name is left that could be spelled in two ways.  The last class binding would be left if there
were two of them.
-/
import TemplateCompiler.Proofs.Conflicts

namespace TemplateCompiler

/-! ### The long spelling -/

namespace Directive

/-- A binding in the short spelling is written in the long one; other names stay. -/
def respell (name : String) : String :=
  if (kind? name).isSome then longBindingName name else name

variable {name : String}

instance (name : String) : Decidable (Marked name) :=
  inferInstanceAs (Decidable (Text.beginsWith ":" name = true ∨ Text.beginsWith "v-" name = true))

/-- What respelling a name does, and when it does anything. -/
theorem respell_cases (name : String) :
    respell name = name ∨ ∃ bound, name = ":" ++ bound ∧ respell name = "v-bind:" ++ bound ∧
      ∃ kind, kind? name = some kind ∧ kind.isBinding = true := by
  unfold respell
  cases hkind : kind? name with
  | none => exact .inl rfl
  | some kind =>
      rw [Option.isSome_some, if_pos rfl]
      unfold longBindingName
      cases hafter : Text.after? ":" name with
      | none => exact .inl rfl
      | some bound =>
          have hname := Text.eq_append_of_after? hafter
          refine .inr ⟨bound, hname, rfl, kind, rfl, ?_⟩
          exact isBinding_of_boundName? (hname ▸ (isSome_boundName? bound).1) hkind

theorem respell_of_not_marked (h : ¬ Marked name) : respell name = name := by
  rcases respell_cases name with hsame | ⟨bound, rfl, -⟩
  · exact hsame
  · exact absurd (marked_binding bound).1 h

/-- Names in the long spelling, and others that are marked like one, stay. -/
theorem respell_of_kind? {kind : DirectiveKind} (hkind : kind? name = some kind)
    (hnot : kind.isBinding = false) : respell name = name := by
  rcases respell_cases name with hsame | ⟨bound, -, -, kind', hkind', hbinding⟩
  · exact hsame
  · rw [hkind] at hkind'
    cases hkind'
    rw [hnot] at hbinding
    cases hbinding

theorem after?_short (bound : String) : Text.after? "v-bind:" (":" ++ bound) = none := by
  rw [Text.after?_eq_none_iff]
  unfold Text.beginsWith
  rw [String.toList_append]
  rfl

theorem short_ne_long (bound bound' : String) : ":" ++ bound ≠ "v-bind:" ++ bound' := by
  intro heq
  have hshort := after?_short bound
  rw [heq, Text.after?_append] at hshort
  cases hshort

/-- What follows the mark is the same in both spellings. -/
theorem boundName?_spellings (bound : String) :
    boundName? (":" ++ bound) = some bound ∧ boundName? ("v-bind:" ++ bound) = some bound := by
  unfold boundName?
  rw [after?_short, Text.after?_append, Text.after?_append]
  exact ⟨rfl, rfl⟩

/-- Respelling an attribute changes nothing of its directive but the name. -/
theorem ofAttribute?_respell (name : String) (value : Option String) :
    ofAttribute? (respell name, value)
      = (ofAttribute? (name, value)).map fun d => { d with name := respell d.name } := by
  rcases respell_cases name with hsame | ⟨bound, hname, hlong, -⟩
  · rw [hsame]
    cases hd : ofAttribute? (name, value) with
    | none => rfl
    | some d =>
        have hself : d.name = name := congrArg Prod.fst (attribute_eq hd)
        rw [Option.map_some, hself, hsame, ← hself]
  · rw [hlong, ofAttribute?_of_boundName? (boundName?_spellings bound).2]
    conv => rhs; rw [hname]
    rw [ofAttribute?_of_boundName? (boundName?_spellings bound).1]
    split
    · rfl
    · rw [Option.map_some, ← hname, hlong]

end Directive

namespace Attributes

open Directive (respell Marked)

variable {attrs attrs' : Attributes} {n : String}

/-- Every binding in the long spelling. -/
def respelled (attrs : Attributes) : Attributes :=
  ⟨attrs.entries.map fun attr => (respell attr.1, attr.2)⟩

/-- The properties that are bound are not marked like directives. -/
def BindsUnmarked (attrs : Attributes) : Prop :=
  ∀ d ∈ attrs.directivesOf .bind, ∀ property, d.arg = some property → ¬ Marked property

instance (attrs : Attributes) : Decidable attrs.BoundOnce :=
  decidable_of_iff (attrs.doubleBinding? = none) doubleBinding?_eq_none_iff

instance (attrs : Attributes) : Decidable attrs.BindsUnmarked :=
  inferInstanceAs (Decidable
    (∀ d ∈ attrs.directivesOf .bind, ∀ property ∈ d.arg, ¬ Marked property))

/-- The names of an element are still different names in the long spelling, and different from
every name without a mark. -/
theorem BoundOnce.respell_injective (h : attrs.BoundOnce) {m n : String}
    (hm : m ∈ attrs.names ∨ ¬ Marked m) (hn : n ∈ attrs.names ∨ ¬ Marked n)
    (heq : respell m = respell n) : m = n := by
  -- Where only one of the two changes, the other one is its long spelling.
  have hone : ∀ {m n}, (m ∈ attrs.names ∨ ¬ Marked m) → (n ∈ attrs.names ∨ ¬ Marked n) →
      ∀ {bound}, m = ":" ++ bound → "v-bind:" ++ bound ≠ n := by
    rintro m n hm hn bound rfl rfl
    obtain ⟨hshort, hlong⟩ := Directive.marked_binding bound
    exact h bound (hm.resolve_right (not_not_intro hshort)) (hn.resolve_right (not_not_intro hlong))
  rcases Directive.respell_cases m with hm' | ⟨bound, hshort, hlong, -⟩
  · rcases Directive.respell_cases n with hn' | ⟨bound, hshort, hlong, -⟩
    · rw [hm', hn'] at heq
      exact heq
    · rw [hm', hlong] at heq
      exact absurd heq.symm (hone hn hm hshort)
  · rcases Directive.respell_cases n with hn' | ⟨bound', hshort', hlong', -⟩
    · rw [hlong, hn'] at heq
      exact absurd heq (hone hm hn hshort)
    · rw [hlong, hlong'] at heq
      rw [hshort, hshort', (String.append_right_inj _).mp heq]

/-- On this element the spelling is a relabeling. -/
def BoundOnce.spelling (h : attrs.BoundOnce) : Relabeling where
  name := respell
  value _ v := v
  native n := n ∈ attrs.names ∨ ¬ Marked n
  injective _ _ hm hn heq := h.respell_injective hm hn heq
  directive n _ v := Directive.ofAttribute?_respell n v
  other n _ kind hkind hnot := by
    refine Directive.respell_of_kind? hkind ?_
    cases kind <;> first | rfl | exact absurd (by decide) hnot
  fixed n hn := .inr (by
    revert n hn
    decide)

/-- Names without a mark are left alone. -/
theorem BoundOnce.keeps (h : attrs.BoundOnce) (hn : ¬ Marked n) : h.spelling.Keeps n :=
  ⟨.inr hn, Directive.respell_of_not_marked hn, fun _ => rfl⟩

theorem BoundOnce.told (h : attrs.BoundOnce) (hd : attrs.Distinct) : attrs.Told h.spelling :=
  ⟨hd, fun _ hn => .inl hn⟩

theorem BoundOnce.relabeled_spelling (h : attrs.BoundOnce) :
    attrs.relabeled h.spelling = attrs.respelled := rfl

/-- Nothing comes to be bound in both spellings. -/
theorem BoundOnce.respelled (h : attrs.BoundOnce) : attrs.respelled.BoundOnce := by
  have hnames : ∀ {n}, n ∈ attrs.respelled.names → ∃ m ∈ attrs.names, respell m = n := by
    intro n hn
    rw [← h.relabeled_spelling, names_relabeled] at hn
    exact List.mem_map.mp hn
  intro property hshort hlong
  obtain ⟨m, hm, hmshort⟩ := hnames hshort
  obtain ⟨n, hn, hnlong⟩ := hnames hlong
  -- A short spelling that is left was there, and is that of no directive.
  have hkept : m = ":" ++ property := by
    rcases Directive.respell_cases m with hsame | ⟨bound, -, hlong', -⟩
    · exact hsame.symm.trans hmshort
    · exact absurd (hmshort.symm.trans hlong') (Directive.short_ne_long _ _)
  rcases Directive.respell_cases n with hsame | ⟨bound, hnshort, hlong', -⟩
  · exact h property (hkept ▸ hm) (hsame.symm.trans hnlong ▸ hn)
  · obtain rfl := (String.append_right_inj _).mp (hlong'.symm.trans hnlong)
    rw [hkept, ← hnshort, hnlong] at hmshort
    exact Directive.short_ne_long _ _ (hnshort.symm.trans hmshort.symm)

theorem BoundOnce.doubleBinding?_respelled (h : attrs.BoundOnce) :
    attrs.respelled.doubleBinding? = attrs.doubleBinding? := by
  rw [doubleBinding?_eq_none_iff.mpr h, doubleBinding?_eq_none_iff.mpr h.respelled]

/-- Attributes of names without a mark are not respelled. -/
theorem BoundOnce.map_entry (h : attrs.BoundOnce) {new : List Attribute}
    (hnew : ∀ n ∈ new.map Prod.fst, ¬ Marked n) : new.map h.spelling.entry = new := by
  refine (List.map_congr_left fun attr hattr => ?_).trans new.map_id
  exact (h.keeps (hnew attr.1 (List.mem_map_of_mem hattr))).entry_eq attr.2

/-- What a mini-program platform writes is written in one spelling only. -/
theorem BoundOnce.relates (h : attrs.BoundOnce) {target : Target}
    (hmini : target.isMiniProgram = true) (style : Option StyleConfig) :
    h.spelling.Relates (.forTarget target style) (.forTarget target style) := by
  have hwritten : ∀ n ∈ target.dialect.written, ¬ Marked n :=
    fun n hn => Target.not_marked_of_written hmini hn
  refine
    { proper := target.proper_dialect
      replaces := Target.replaces hmini
      native := fun n hn => (h.keeps (hwritten n hn)).native
      reference := rfl
      identity := fun n hn => h.keeps (hwritten n ?_)
      model := fun key => (h.map_entry fun n hn => hwritten n ?_).symm
      binding := rfl
      showSlot := rfl
      slot := fun n hn => h.keeps (hwritten n ?_)
      conditional := fun kind value => ((h.keeps (hwritten _ ?_)).entry_eq _).symm
      iteration := ?_
      classMode := rfl
      styleMode := rfl
      normalizeStyle := fun _ => rfl }
  · change n ∈ target.dialect.reference.names at hn
    simp [Dialect.written, hn]
  · change n ∈ (target.dialect.model.attributes key).map Prod.fst at hn
    rw [ModelForm.map_fst_attributes] at hn
    simp [Dialect.written, hn]
  · change n ∈ target.dialect.showSlot.names at hn
    simp [Dialect.written, hn]
  · have hmem := ConditionalNames.nameOf_mem target.dialect.conditional kind
    show target.dialect.conditional.nameOf kind ∈ target.dialect.written
    simp [Dialect.written, hmem]
  · show target.dialect.iteration.Relabeled h.spelling target.dialect.iteration
    cases hform : target.dialect.iteration with
    | keep => trivial
    | split itemName indexName sourceName encoding =>
        refine fun it => (h.map_entry fun n hn => hwritten n ?_).symm
        have hnames : n ∈ target.dialect.iteration.names := by
          rw [hform]
          exact hn
        simp [Dialect.written, hnames]

end Attributes

/-! ### What an element needs -/

theorem Directive.marked_of_isBinding {name : String} {kind : DirectiveKind}
    (hkind : kind? name = some kind) (hbinding : kind.isBinding = true) : Marked name := by
  obtain ⟨d, hd, hdkind⟩ := @exists_of_kind? (name, none) kind hkind
  obtain ⟨bound, hbound, -⟩ := exists_boundName? hd (hdkind ▸ hbinding)
  obtain ⟨hshort, hlong⟩ := marked_binding bound
  rcases eq_of_boundName? hbound with rfl | rfl
  · exact hlong
  · exact hshort

namespace Attributes

variable {attrs attrs' : Attributes} {kind : DirectiveKind}

/-- No binding is written where only names without a mark are. -/
theorem WritesOnly.mem_names_of_isBinding (h : attrs.WritesOnly (¬ Directive.Marked ·) attrs')
    (hkind : kind.isBinding = true) {n : String} (hn : n ∈ attrs'.names)
    (hk : Directive.kind? n = some kind) : n ∈ attrs.names :=
  (h.names n hn).resolve_right (not_not_intro (Directive.marked_of_isBinding hk hkind))

theorem WritesOnly.free (h : attrs.WritesOnly (¬ Directive.Marked ·) attrs')
    (hkind : kind.isBinding = true) (hfree : attrs.Free kind) : attrs'.Free kind :=
  fun n hn hk => hfree n (h.mem_names_of_isBinding hkind hn hk) hk

theorem WritesOnly.single (h : attrs.WritesOnly (¬ Directive.Marked ·) attrs')
    (hkind : kind.isBinding = true) (hsingle : attrs.Single kind) : attrs'.Single kind :=
  fun n hn m hm hkn hkm => hsingle n (h.mem_names_of_isBinding hkind hn hkn) m
    (h.mem_names_of_isBinding hkind hm hkm) hkn hkm

theorem WritesOnly.boundOnce (h : attrs.WritesOnly (¬ Directive.Marked ·) attrs')
    (honce : attrs.BoundOnce) : attrs'.BoundOnce := by
  intro property hshort hlong
  obtain ⟨hmarked, hmarked'⟩ := Directive.marked_binding property
  exact honce property ((h.names _ hshort).resolve_right (not_not_intro hmarked))
    ((h.names _ hlong).resolve_right (not_not_intro hmarked'))

theorem WritesOnly.bindsUnmarked (h : attrs.WritesOnly (¬ Directive.Marked ·) attrs')
    (hunmarked : attrs.BindsUnmarked) : attrs'.BindsUnmarked := by
  intro d hd property harg
  obtain ⟨hmem, hkind⟩ := mem_directivesOf.mp hd
  obtain ⟨-, hname, -, hk⟩ := mem_of_mem_directives hmem
  have hbind : Directive.kind? d.name = some .bind := hk.trans (congrArg some hkind)
  obtain ⟨d', hd', harg'⟩ := exists_bind_of_name hd (h.mem_names_of_isBinding rfl hname hbind)
  exact hunmarked d' hd' property (harg'.trans harg)

/-- What an element needs for the passes that are still to come.  The bindings that a pass before
them adapts are gone. -/
structure Respellable (passes : List Pass) (attrs : Attributes) : Prop where
  distinct : attrs.Distinct
  boundOnce : attrs.BoundOnce
  unmarked : .binding ∈ passes → attrs.BindsUnmarked
  single : .classes ∈ passes → attrs.Single .classBinding
  gone : ∀ pass, pass ∉ passes → ∀ kind ∈ pass.removes, kind.isBinding = true → attrs.Free kind

/-- Attributes that no pass is to come for have one spelling. -/
theorem Respellable.respelled_eq (h : attrs.Respellable []) : attrs.respelled = attrs := by
  refine eq_of_entries ((List.map_congr_left fun attr hattr => ?_).trans attrs.entries.map_id)
  rcases Directive.respell_cases attr.1 with hsame | ⟨-, -, -, kind, hkind, hbinding⟩
  · exact Prod.ext hsame rfl
  · have hstatic : kind.isStatic = false := by
      cases kind <;> first | rfl | cases hbinding
    obtain ⟨pass, -, hremoves⟩ := Pass.exists_removes hstatic
    have hmem : attr.1 ∈ attrs.names := List.mem_map_of_mem hattr
    exact absurd hkind (h.gone pass List.not_mem_nil kind hremoves hbinding _ hmem)

end Attributes

namespace Pass

variable {target : Target} {style : Option StyleConfig} {site site' : Site}
  {attrs attrs' : Attributes} {pass : Pass} {passes : List Pass}

theorem not_marked_of_writes (hmini : target.isMiniProgram = true)
    (hunmarked : attrs.BindsUnmarked) {n : String} (hn : target.dialect.Writes attrs n) :
    ¬ Directive.Marked n := by
  rcases hn with hwritten | ⟨-, d, hbind, harg⟩
  · exact Target.not_marked_of_written hmini hwritten
  · exact hunmarked d hbind n harg

/-- On these platforms no pass writes a name with a mark, unless a property has one. -/
theorem writesOnly_unmarked (hmini : target.isMiniProgram = true) (hd : attrs.Distinct)
    (hunmarked : pass = .binding → attrs.BindsUnmarked)
    (h : pass.adapter (.forTarget target style) site attrs = .ok attrs') :
    attrs.WritesOnly (¬ Directive.Marked ·) attrs' := by
  by_cases hpass : pass = .binding
  · exact (pass.writesOnly target.proper_dialect hd h).mono fun n hn =>
      not_marked_of_writes hmini (hunmarked hpass) hn
  · exact (pass.writesOnly_written hpass target.proper_dialect hd h).mono fun n hn =>
      Target.not_marked_of_written hmini hn

/-- A pass takes its bindings away. -/
theorem free_of_isBinding (hmini : target.isMiniProgram = true)
    (hattrs : attrs.Respellable (pass :: passes))
    (h : pass.adapter (.forTarget target style) site attrs = .ok attrs') :
    ∀ kind ∈ pass.removes, kind.isBinding = true → attrs'.Free kind := by
  have hδ : (Setting.forTarget target style).dialect.Replaces := Target.replaces hmini
  have hd := hattrs.distinct
  intro kind hkind hbinding
  cases pass with
  | binding =>
      have hunmarked := hattrs.unmarked List.mem_cons_self
      have hfree := Adapter.free_properties hδ hd fun d hbind property harg hk =>
        hunmarked d hbind property harg (Directive.marked_of_isBinding hk rfl)
      -- What `v-show` does after that brings none back.
      have hproperties : attrs.WritesOnly (¬ Directive.Marked ·)
          (Adapter.properties target.dialect.binding attrs) :=
        (@Adapter.writesOnly_properties (.forTarget target style) _ hd).mono fun n hn =>
          not_marked_of_writes hmini hunmarked hn
      have hshowing := (@Adapter.writesOnly_showing (.forTarget target style) _ _
        (.refl hproperties.distinct)).mono fun n hn =>
          not_marked_of_writes hmini (hproperties.bindsUnmarked hunmarked) hn
      rw [Adapter.binding_eq_ok site h]
      refine hshowing.free hbinding ?_
      simp only [removes, List.mem_cons, List.not_mem_nil, or_false] at hkind
      rcases hkind with rfl | rfl
      · exact hfree
      · cases hbinding
  | classes =>
      rw [List.mem_singleton.mp hkind]
      exact Adapter.free_classes site hδ hd (hattrs.single List.mem_cons_self) h
  | styles =>
      rw [List.mem_singleton.mp hkind]
      exact Adapter.free_styles site hδ h
  | ref | model | conditional | iteration =>
      cases kind with
      | bind | classBinding | styleBinding => exact absurd hkind (by decide)
      | _ => cases hbinding

/-- What a pass leaves is fit for the passes after it. -/
theorem respellable (hmini : target.isMiniProgram = true)
    (hattrs : attrs.Respellable (pass :: passes))
    (h : pass.adapter (.forTarget target style) site attrs = .ok attrs') :
    attrs'.Respellable passes := by
  have hwrites := writesOnly_unmarked hmini hattrs.distinct
    (fun hpass => hattrs.unmarked (by simp [hpass])) h
  refine
    { distinct := hwrites.distinct
      boundOnce := hwrites.boundOnce hattrs.boundOnce
      unmarked := fun hlater => hwrites.bindsUnmarked (hattrs.unmarked (by simp [hlater]))
      single := fun hlater => hwrites.single rfl (hattrs.single (by simp [hlater]))
      gone := fun pass' hpass' kind hkind hbinding => ?_ }
  by_cases hsame : pass' = pass
  · subst hsame
    exact free_of_isBinding hmini hattrs h kind hkind hbinding
  · have hnot : pass' ∉ pass :: passes := List.not_mem_cons_of_ne_of_not_mem hsame hpass'
    exact hwrites.free hbinding (hattrs.gone pass' hnot kind hkind hbinding)

/-- A pass does to the long spelling what it does to the short one. -/
theorem adapter_respelled (hmini : target.isMiniProgram = true)
    (hattrs : attrs.Respellable (pass :: passes))
    (hsite : Site.Alike (.forTarget target style) (.forTarget target style) site site') :
    pass.adapter (.forTarget target style) site' attrs.respelled
      = (pass.adapter (.forTarget target style) site attrs).map Attributes.respelled := by
  have honce := hattrs.boundOnce
  refine pass.adapter_relabeled (honce.relates hmini style) hsite (honce.told hattrs.distinct) ?_
    fun _ => honce.doubleBinding?_respelled
  rintro rfl d hd property harg
  exact honce.keeps (hattrs.unmarked List.mem_cons_self d hd property harg)

end Pass

/-! ### Trees -/

/-- Every element with other attributes. -/
def NodeKind.mapAttributes (f : Attributes → Attributes) : NodeKind → NodeKind
  | element e => element { e with attrs := f e.attrs }
  | text content => text content
  | comment content => comment content

namespace Document

/-- The tree in which every element has other attributes. -/
def mapAttributes (f : Attributes → Attributes) (d : Document) : Document where
  nodes := d.nodes.map fun n => { n with kind := n.kind.mapAttributes f }
  roots := d.roots
  younger := by
    intro id n hn c hc
    rw [Array.getElem?_map] at hn
    obtain ⟨m, hm, rfl⟩ := Option.map_eq_some_iff.mp hn
    exact d.younger id m hm c hc

theorem node?_mapAttributes (f : Attributes → Attributes) (d : Document) (id : Nat) :
    (d.mapAttributes f).node? id
      = (d.node? id).map fun n => { n with kind := n.kind.mapAttributes f } :=
  Array.getElem?_map

theorem varied_mapAttributes {V : Variation} (hspan : ∀ span, V.Spans span span) (d : Document) :
    d.Varied V (d.mapAttributes V.attrs) where
  tree := by
    refine ⟨rfl, fun id => ?_⟩
    unfold shape?
    rw [node?_mapAttributes, Option.map_map, Option.map_map, Option.map_map]
    congr 1
    funext n
    obtain ⟨kind, parent, children, span⟩ := n
    cases kind <;> rfl
  span id := by
    have hsame : (d.mapAttributes V.attrs).spanOf id = d.spanOf id := by
      unfold spanOf
      rw [node?_mapAttributes]
      cases d.node? id <;> rfl
    rw [hsame]
    exact hspan _
  element id := by
    unfold element?
    rw [node?_mapAttributes]
    cases d.node? id with
    | none => rfl
    | some n =>
        obtain ⟨kind, parent, children, span⟩ := n
        cases kind <;> rfl

/-- The tree with every binding in the long spelling. -/
def respelled (d : Document) : Document := d.mapAttributes Attributes.respelled

end Document

/-- One tree has the long spelling of the other one, and errors are the same. -/
def Variation.respelling : Variation := ⟨Attributes.respelled, Eq, Eq⟩

theorem Variation.respelling_kept {target : Target} (hmini : target.isMiniProgram = true)
    (style : Option StyleConfig) :
    Variation.respelling.Kept (.forTarget target style) (.forTarget target style)
      fun passes e => e.attrs.Respellable passes where
  outcome := by
    intro pass passes e site site' hready hsites _ hprevious
    refine .of_eq (fun _ => rfl) (Pass.adapter_respelled hmini hready ⟨hsites.tag,
      hsites.span.symm, ?_⟩)
    rw [hsites.previous]
    cases hbefore : site.previous () with
    | none => rfl
    | some before =>
        -- The element before this one has its own spellings.
        obtain ⟨passes', e', hready', rfl⟩ := hprevious before hbefore
        have honce := hready'.boundOnce
        exact Adapter.continuedBy_relabeled (honce.relates hmini style)
          (honce.told hready'.distinct)
  step _ hready _ hok := Pass.respellable hmini hready hok

namespace Document

/-- On the mini-program platforms it does not matter in which spelling a binding is written, if no
element has a property bound in both, no element has two bindings of the class, and no property
that is bound is marked like a directive. -/
theorem adapt_respelled {d : Document} (hd : d.Built) {target : Target}
    (hmini : target.isMiniProgram = true) (style : Option StyleConfig)
    (helements : ∀ id e, d.element? id = some e → e.attrs.BoundOnce ∧
      (e.attrs.directivesOf .classBinding).length ≤ 1 ∧ e.attrs.BindsUnmarked) :
    (d.respelled.adapt (.forTarget target style)).toExcept
      = (d.adapt (.forTarget target style)).toExcept := by
  have hready : ∀ id e, d.element? id = some e → e.attrs.Respellable Pass.standard := by
    intro id e he
    obtain ⟨honce, hclasses, hunmarked⟩ := helements id e he
    exact
      { distinct := hd.distinct id e he
        boundOnce := honce
        unmarked := fun _ => hunmarked
        single := fun _ => Attributes.single_of_length_le hclasses
        gone := fun pass hpass => absurd pass.mem_standard hpass }
  obtain ⟨hvaried, hdone⟩ := Pipeline.run_varied (Variation.respelling_kept hmini style) (by decide)
    hd.linked (varied_mapAttributes (V := .respelling) (fun _ => rfl) d) hready
  have herror : (d.respelled.adapt (.forTarget target style)).error
      = (d.adapt (.forTarget target style)).error := hvaried.error_eq fun _ _ => id
  unfold Progress.toExcept
  rw [herror]
  cases hfound : (d.adapt (.forTarget target style)).error with
  | some error => rfl
  | none =>
      obtain ⟨htree, hspan, helement⟩ := hvaried.document
      refine congrArg Except.ok (htree.eq (fun id => (hspan id).symm) fun id => ?_)
      rw [helement]
      cases he : (Pipeline.run (.forTarget target style) Pass.standard d).document.element? id with
      | none => rfl
      | some e =>
          have hleft := (hdone hfound id e he).respelled_eq
          exact congrArg some (congrArg (fun attrs => { e with attrs }) hleft)

/-- Bindings of a property, of the class and of the style, and what is shown into a style. -/
theorem adapt_respelled_show :
    let source := "<p :t.sync='q' v-show='s' :class='c'><a v-bind:u='r' :style='w' v-if='i'/></p>"
    ∃ d, parse source = .ok d ∧
      d.respelled.print = "<p v-bind:t.sync=\"q\" v-show=\"s\" v-bind:class=\"c\">" ++
        "<a v-bind:u=\"r\" v-bind:style=\"w\" v-if=\"i\" /></p>" ∧
      (∀ id e, d.element? id = some e → e.attrs.BoundOnce ∧
        (e.attrs.directivesOf .classBinding).length ≤ 1 ∧ e.attrs.BindsUnmarked) ∧
      (d.respelled.adapt (.forTarget .wx none)).toExcept
        = (d.adapt (.forTarget .wx none)).toExcept := by
  intro source
  have hprint : (parse source).toOption.map (fun d => d.respelled.print)
      = some ("<p v-bind:t.sync=\"q\" v-show=\"s\" v-bind:class=\"c\">" ++
        "<a v-bind:u=\"r\" v-bind:style=\"w\" v-if=\"i\" /></p>") := by
    decide +kernel
  have helements : ∀ d, parse source = .ok d → ∀ id e, d.element? id = some e →
      e.attrs.BoundOnce ∧ (e.attrs.directivesOf .classBinding).length ≤ 1 ∧ e.attrs.BindsUnmarked :=
    forall_element_of_parse (by decide +kernel)
  cases h : parse source with
  | error e =>
      rw [h] at hprint
      cases hprint
  | ok d =>
      rw [h] at hprint
      exact ⟨d, rfl, Option.some.inj hprint, helements d h,
        adapt_respelled (built_of_parse h) rfl none (helements d h)⟩

end Document

end TemplateCompiler
