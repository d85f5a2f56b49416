/-
What all passes together leave alone, also where they stop at an error.

A run can end in two ways, and either way every element has gone through the first few
passes: through all of them if none failed, and otherwise through those before the one that
failed, and through that one too if the element stands before the place of the error.  So
what is kept by any first few passes is kept by every run.

Nodes, links, spans, texts, comments and tags are kept because an adapter answers with
attributes alone.  Among the attributes of an element the bystanders are kept, in their
order.  A bystander is no directive, is not named like an attribute that the platform has of
its own, and is not bound on the element.  That it is not bound has to be said of the element
as the author wrote it, so it matters that bindings are adapted before any pass writes one.
-/
import TemplateCompiler.Proofs.Conflicts

namespace TemplateCompiler

/-! ### The first few passes -/

namespace Document

variable {d : Document} {id : Nat} {e : Element}

/-- However a pass ends, it is still the same tree. -/
theorem sameTree_adaptAll (hd : Linked d) (adapter : Adapter) (setting : Setting) :
    SameTree d (d.adaptAll adapter setting).document := by
  rcases adaptAll_cases hd adapter setting with ⟨-, hall⟩ | ⟨_, _, _, _, _, -, -, hfront, -⟩
  · exact hall.tree
  · exact hfront.tree

/-- However a pass ends, an element has been adapted or is as it was. -/
theorem element?_adaptAll (hd : Linked d) (adapter : Adapter) (setting : Setting)
    (he : d.element? id = some e) :
    (d.adaptAll adapter setting).document.element? id = some e ∨
      ∃ site attrs, site.tag = e.tag ∧ adapter setting site e.attrs = .ok attrs ∧
        (d.adaptAll adapter setting).document.element? id = some { e with attrs } := by
  rcases adaptAll_cases hd adapter setting with ⟨-, hall⟩ | ⟨front, _, _, _, _, -, -, hfront, -⟩
  · obtain ⟨attrs, hattrs, hnow⟩ := hall.adapted id (mem_preorder_of_element? hd he) e he
    exact .inr ⟨_, attrs, rfl, hattrs, hnow⟩
  · by_cases hid : id ∈ front
    · obtain ⟨attrs, hattrs, hnow⟩ := hfront.adapted id hid e he
      exact .inr ⟨_, attrs, rfl, hattrs, hnow⟩
    · exact .inl ((hfront.others id hid).trans he)

end Document

/-- However a run ends, it is still the same tree, and every element has gone through the first few
of the passes. -/
theorem Pipeline.run_take {setting : Setting} {passes : Pipeline} :
    ∀ {d : Document}, d.Linked → d.SameTree (passes.run setting d).document ∧
      ∀ id e, d.element? id = some e → ∃ k attrs,
        AdaptedBy setting e.tag (passes.take k) e.attrs attrs ∧
          (passes.run setting d).document.element? id = some { e with attrs } := by
  induction passes with
  | nil => exact fun _ => ⟨.refl _, fun id e he => ⟨0, e.attrs, .nil e.attrs, he⟩⟩
  | cons pass passes ih =>
      intro d hd
      have htree : d.SameTree (pass.run setting d).document :=
        Document.sameTree_adaptAll hd pass.adapter setting
      cases herror : (pass.run setting d).error with
      | none =>
          obtain ⟨hrest, helements⟩ := ih (pass.linked_run setting hd)
          rw [run_cons_of_none herror]
          refine ⟨htree.trans hrest, fun id e he => ?_⟩
          have hall : Document.AdaptedOn pass.adapter setting d.preorder d
              (pass.run setting d).document := by
            rcases Document.adaptAll_cases hd pass.adapter setting with
              ⟨-, hall⟩ | ⟨_, _, _, _, _, -, hsome, -⟩
            · exact hall
            · cases herror.symm.trans hsome
          obtain ⟨attrs₁, hattrs, he₁⟩ :=
            hall.adapted id (Document.mem_preorder_of_element? hd he) e he
          obtain ⟨k, attrs, hby, hnow⟩ := helements id _ he₁
          exact ⟨k + 1, attrs, .cons _ rfl hattrs hby, hnow⟩
      | some error =>
          rw [run_cons_of_error herror]
          refine ⟨htree, fun id e he => ?_⟩
          rcases Document.element?_adaptAll hd pass.adapter setting he with
            hsame | ⟨site, attrs, htag, hattrs, hnow⟩
          · exact ⟨0, e.attrs, .nil e.attrs, hsame⟩
          · exact ⟨1, attrs, .cons site htag hattrs (.nil attrs), hnow⟩

/-! ### Bystanders -/

namespace Dialect

/-- The attributes that the platform has of its own: those of references, conditions, loops and
two-way bindings. -/
def emittedNames (δ : Dialect) : List String :=
  δ.reference.names ++ δ.conditional.names ++ δ.iteration.names ++ δ.model.names

/-- An attribute of this name is none of the platform's business on the element. -/
def isBystander (δ : Dialect) (attrs : Attributes) (name : String) : Bool :=
  (Directive.kind? name).isNone && !δ.emittedNames.contains name &&
    !(attrs.directivesOf .bind).any fun d => d.arg == some name

variable {δ : Dialect} {attrs : Attributes} {name : String}

theorem isBystander_of_kind? {kind : DirectiveKind} (h : Directive.kind? name = some kind) :
    δ.isBystander attrs name = false := by
  unfold isBystander
  rw [h]
  rfl

theorem isBystander_of_emitted (h : name ∈ δ.emittedNames) : δ.isBystander attrs name = false := by
  unfold isBystander
  rw [List.contains_iff_mem.mpr h, Bool.not_true, Bool.and_false, Bool.false_and]

theorem isBystander_of_bound {d : Directive} (hd : d ∈ attrs.directivesOf .bind)
    (harg : d.arg = some name) : δ.isBystander attrs name = false := by
  have hany : ((attrs.directivesOf .bind).any fun d => d.arg == some name) = true :=
    List.any_eq_true.mpr ⟨d, hd, beq_iff_eq.mpr harg⟩
  unfold isBystander
  rw [hany, Bool.not_true, Bool.and_false]

end Dialect

/-- The names that a pass has to do with on any element are directives or the platform's own. -/
theorem Target.kind?_or_emitted_of_listed (target : Target) (pass : Pass) {name : String}
    (h : name ∈ pass.listed target.dialect) :
    (∃ kind, Directive.kind? name = some kind) ∨ name ∈ target.dialect.emittedNames := by
  have hall : ∀ n ∈ pass.listed target.dialect,
      (Directive.kind? n).isSome = true ∨ n ∈ target.dialect.emittedNames := by
    cases pass <;> cases target <;> decide
  exact (hall name h).imp_left Option.isSome_iff_exists.mp

/-- A pass has nothing to do with bystanders, if what is bound when bindings become attributes is
what the author bound. -/
theorem Pass.Touches.isBystander_eq_false {target : Target} {pass : Pass}
    {attrs₀ attrs : Attributes} {name : String} (h : pass.Touches target.dialect attrs name)
    (hbound : pass = .binding → target.dialect.binding ≠ .keep →
      attrs.directivesOf .bind = attrs₀.directivesOf .bind) :
    target.dialect.isBystander attrs₀ name = false := by
  rcases h.cases with ⟨kind, -, -, hkind, -⟩ | ⟨hlisted, -⟩ | ⟨hpass, hkeep, d, hd, harg⟩
  · exact Dialect.isBystander_of_kind? hkind
  · rcases target.kind?_or_emitted_of_listed pass hlisted with ⟨kind, hkind⟩ | hemitted
    · exact Dialect.isBystander_of_kind? hkind
    · exact Dialect.isBystander_of_emitted hemitted
  · exact Dialect.isBystander_of_bound (hbound hpass hkeep ▸ hd) harg

namespace AdaptedBy

variable {target : Target} {setting : Setting} {tag : String} {passes : List Pass}
  {attrs attrs' : Attributes}

/-- What none of the passes has to do with is kept, in its order. -/
theorem agreeOn {p : String → Bool} (h : AdaptedBy setting tag passes attrs attrs')
    (hp : ∀ pass ∈ passes, ∀ attrs n, pass.Touches setting.dialect attrs n → p n = false) :
    attrs.AgreeOn p attrs' := by
  induction h with
  | nil => exact .refl p _
  | @cons pass passes attrs attrs₁ attrs' site htag hstep hrest ih =>
      have hfirst : attrs.AgreeOn p attrs₁ :=
        pass.agreeOn hstep (hp pass List.mem_cons_self attrs)
      exact hfirst.trans (ih fun pass' hpass' => hp pass' (List.mem_cons_of_mem _ hpass'))

/-- References and two-way bindings have nothing to do with the bindings of a platform that makes
attributes of them. -/
theorem directivesOf_bind (hδ : setting.dialect = target.dialect)
    (hkeep : target.dialect.binding ≠ .keep) (h : AdaptedBy setting tag passes attrs attrs')
    (hpasses : ∀ pass ∈ passes, pass = .ref ∨ pass = .model) :
    attrs'.directivesOf .bind = attrs.directivesOf .bind := by
  have hlisted : ∀ pass : Pass, pass = .ref ∨ pass = .model →
      .bind ∉ pass.removes ∧ ∀ n ∈ pass.listed target.dialect,
        Directive.kind? n ≠ some .bind := by
    cases target with
    | web | weex => exact absurd rfl hkeep
    | wx | alipay | baidu => rintro pass (rfl | rfl) <;> decide
  have hagree : attrs.AgreeOn (fun n => Directive.kind? n == some .bind) attrs' := by
    refine h.agreeOn fun pass hpass attrs n htouches => ?_
    obtain ⟨hremoves, hnot⟩ := hlisted pass (hpasses pass hpass)
    rw [hδ] at htouches
    rw [beq_eq_false_iff_ne]
    intro hkind
    rcases htouches.cases with ⟨kind, hmem, -, hkind', -⟩ | ⟨hmem, -⟩ | ⟨rfl, -⟩
    · cases hkind'.symm.trans hkind
      exact hremoves hmem
    · exact hnot n hmem hkind
    · rcases hpasses _ hpass with hpass | hpass <;> cases hpass
  exact hagree.directivesOf_eq fun n hkind => beq_iff_eq.mpr hkind

/-- What none of the passes has to do with is kept, where the pass of bindings is only asked about
what is bound on the element before the passes. -/
theorem agreeOn_of_bound {p : String → Bool} (hδ : setting.dialect = target.dialect)
    {front back : List Pass} (hfront : ∀ pass ∈ front, pass = .ref ∨ pass = .model)
    (hback : .binding ∉ back)
    (h : AdaptedBy setting tag (front ++ .binding :: back) attrs attrs')
    (hp : ∀ (pass : Pass) attrs₁ n, pass.Touches target.dialect attrs₁ n →
      (pass = .binding → target.dialect.binding ≠ .keep →
        attrs₁.directivesOf .bind = attrs.directivesOf .bind) →
      pass ∈ front ++ .binding :: back → p n = false) :
    attrs.AgreeOn p attrs' := by
  -- A pass before or after that of bindings has nothing to do with what is bound.
  have hother : ∀ {passes : List Pass} {attrs₁ attrs₂ : Attributes}, .binding ∉ passes →
      (∀ pass ∈ passes, pass ∈ front ++ .binding :: back) →
      AdaptedBy setting tag passes attrs₁ attrs₂ → attrs₁.AgreeOn p attrs₂ := by
    intro passes attrs₁ attrs₂ hbinding hmem hpasses
    refine hpasses.agreeOn fun pass hpass attrs n htouches => ?_
    exact hp pass attrs n (hδ ▸ htouches) (fun heq => absurd (heq ▸ hpass) hbinding)
      (hmem pass hpass)
  have hcut : AdaptedBy setting tag (front ++ ([.binding] ++ back)) attrs attrs' := h
  obtain ⟨attrs₂, hfirst, hrest⟩ := hcut.of_append
  obtain ⟨attrs₃, hbinding, hlast⟩ := hrest.of_append
  obtain ⟨site, -, hstep⟩ := hbinding.of_singleton
  have hbind : attrs₂.AgreeOn p attrs₃ :=
    Pass.binding.agreeOn hstep fun n htouches => hp .binding attrs₂ n (hδ ▸ htouches)
      (fun _ hkeep => hfirst.directivesOf_bind hδ hkeep hfront) (by simp)
  have hnot : Pass.binding ∉ front := by
    intro hmem
    rcases hfront _ hmem with heq | heq <;> cases heq
  exact ((hother hnot (by simp +contextual) hfirst).trans hbind).trans
    (hother hback (by simp +contextual) hlast)

/-- Bystanders are kept by any first few of the passes. -/
theorem agreeOn_isBystander (hδ : setting.dialect = target.dialect) {k : Nat}
    (h : AdaptedBy setting tag (Pass.standard.take k) attrs attrs') :
    attrs.AgreeOn (target.dialect.isBystander attrs) attrs' := by
  have hfew : ∀ {passes : List Pass}, .binding ∉ passes → AdaptedBy setting tag passes attrs attrs' →
      attrs.AgreeOn (target.dialect.isBystander attrs) attrs' := by
    intro passes hbinding hpasses
    refine hpasses.agreeOn fun pass hpass attrs₁ n htouches => ?_
    rw [hδ] at htouches
    exact htouches.isBystander_eq_false fun heq => absurd (heq ▸ hpass) hbinding
  match k, h with
  | 0, h => exact hfew (by decide) h
  | 1, h => exact hfew (by decide) h
  | 2, h => exact hfew (by decide) h
  | k + 3, h =>
      have hlate : Pass.binding ∉ [Pass.conditional, .iteration, .classes, .styles].take k :=
        fun hmem => absurd (List.mem_of_mem_take hmem) (by decide)
      have hcut : AdaptedBy setting tag ([.ref, .model] ++ .binding ::
          [Pass.conditional, .iteration, .classes, .styles].take k) attrs attrs' := h
      exact hcut.agreeOn_of_bound hδ (by decide) hlate fun pass attrs₁ n htouches hbound _ =>
        htouches.isBystander_eq_false hbound

end AdaptedBy

/-! ### The whole tree -/

namespace Document

/-- `d'` is `d` but for attributes of elements, and bystanders among these are the same. -/
structure Confined (δ : Dialect) (d d' : Document) : Prop where
  size : d'.size = d.size
  roots : d'.roots = d.roots
  parent : ∀ id, d'.parent? id = d.parent? id
  children : ∀ id, d'.children id = d.children id
  span : ∀ id, d'.spanOf id = d.spanOf id
  /-- Texts, comments, tags and the way that elements are closed. -/
  content : ∀ id, (d'.node? id).map (fun n => n.kind.bare) = (d.node? id).map fun n => n.kind.bare
  /-- The values of bystanders and their order. -/
  attributes : ∀ id e, d.element? id = some e → ∃ attrs, d'.element? id = some { e with attrs } ∧
    attrs.entries.filter (fun entry => δ.isBystander e.attrs entry.1)
      = e.attrs.entries.filter fun entry => δ.isBystander e.attrs entry.1

/-- All passes together, whether they succeed or stop at an error, change nothing but attributes of
elements, and keep the values and the order of those that are no directives, not named like
attributes that the platform has of its own, and not bound on the element. -/
theorem adapt_confined (target : Target) (style : Option StyleConfig)
    (normalizer : Target → Option StyleConfig → String → String) {d : Document} (hd : d.Built) :
    d.Confined target.dialect (d.adapt ⟨target.dialect, style, normalizer⟩).document := by
  let setting : Setting := ⟨target.dialect, style, normalizer⟩
  obtain ⟨htree, helements⟩ := @Pipeline.run_take setting Pass.standard d hd.linked
  refine ⟨htree.size_eq, htree.roots, htree.parent?_eq, htree.children_eq, fun id => ?_,
    fun id => ?_, fun id e he => ?_⟩
  · exact Pipeline.spanOf_run Pass.standard _ id hd.linked
  · have hbare := htree.congr (fun s => s.kind.bare) (fun s => s.kind.bare_bare) id
    unfold shape? at hbare
    rw [Option.map_map, Option.map_map] at hbare
    exact hbare
  · obtain ⟨k, attrs, hby, hnow⟩ := helements id e he
    exact ⟨attrs, hnow, hby.agreeOn_isBystander rfl⟩

/-- A run that stops at the second element, where a chain of conditions is broken, after a binding
of the first one has become an attribute. -/
theorem adapt_confined_stopped :
    ∃ d ∈ (parse "<view :id='x' hidden title='t'></view><i>a</i><p v-else>b</p>").toOption,
      (d.adapt ⟨Target.wx.dialect, none, Style.normalize⟩).error.isSome = true ∧
      (d.adapt ⟨Target.wx.dialect, none, Style.normalize⟩).document.element? 0 ≠ d.element? 0 ∧
      d.Confined Target.wx.dialect
        (d.adapt ⟨Target.wx.dialect, none, Style.normalize⟩).document := by
  have hrun :
      ∃ d ∈ (parse "<view :id='x' hidden title='t'></view><i>a</i><p v-else>b</p>").toOption,
        (d.adapt ⟨Target.wx.dialect, none, Style.normalize⟩).error.isSome = true ∧
        (d.adapt ⟨Target.wx.dialect, none, Style.normalize⟩).document.element? 0
          ≠ d.element? 0 := by
    decide +kernel
  obtain ⟨d, hd, herror, hchanged⟩ := hrun
  exact ⟨d, hd, herror, hchanged,
    adapt_confined .wx none Style.normalize (built_of_parse (parse_of_mem_toOption hd))⟩

end Document

end TemplateCompiler
