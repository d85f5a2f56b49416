/-
What a mini-program platform accepts, the web and weex accept.

Three passes can fail, and each for a reason that is the author's: a binding in both
spellings, a chain of conditions that is not whole, a loop that cannot be taken apart.  The
passes find these where the author wrote them, since no pass before them has to do with what
they look for.  Platforms that split loops take fewer loops, so that acceptance goes one way
only.

There are exceptions, where a pass writes what a later one looks for.  A two-way binding is
written as a binding of the value on the web and on weex, and collides with one of the
author's in the other spelling.  On a mini-program platform a binding is written as an
attribute of its property's name, which may be that of a directive or a name that the platform
has for conditions.
-/
import TemplateCompiler.Proofs.Chain
import TemplateCompiler.Proofs.Conflicts

namespace TemplateCompiler

namespace Pipeline

variable {setting : Setting} {front back : Pipeline} {d : Document}

/-- If all passes succeed, the first ones do, and the others do after them. -/
theorem error_of_append (h : ((front ++ back).run setting d).error = none) :
    (front.run setting d).error = none ∧
      (back.run setting (front.run setting d).document).error = none := by
  cases hfront : (front.run setting d).error with
  | none =>
      rw [run_append_of_none hfront] at h
      exact ⟨rfl, h⟩
  | some error =>
      rw [run_append_of_error hfront, hfront] at h
      cases h

/-- One more pass succeeds if its adapter does on every element, as the passes before left it. -/
theorem error_concat (hd : d.Linked) {pass : Pass} (hfront : (front.run setting d).error = none)
    (h : ∀ id e attrs, d.element? id = some e → AdaptedBy setting e.tag front e.attrs attrs →
      ∀ site, ∃ attrs', pass.adapter setting site attrs = .ok attrs') :
    ((front ++ [pass]).run setting d).error = none := by
  have hrun : front.run setting d = ⟨(front.run setting d).document, none⟩ := by rw [← hfront]
  rw [run_append_of_none hfront]
  generalize (front.run setting d).document = d' at hrun ⊢
  have hlinked : d'.Linked := hd.of_sameTree (run_eq_ok hd hrun).1
  rcases Document.adaptAll_cases hlinked pass.adapter setting with
    ⟨hnone, -⟩ | ⟨_, id, _, e', error, -, -, -, he', herror⟩
  · rw [run_cons_of_none (show (pass.run setting d').error = none from hnone)]
    rfl
  · obtain ⟨e, attrs, he, hby, rfl⟩ := exists_element hd hrun he'
    obtain ⟨attrs', hok⟩ := h id e attrs he hby _
    cases herror.symm.trans hok

end Pipeline

/-- A pass that succeeds has adapted every element. -/
theorem Pass.adapted_of_error {pass : Pass} {setting : Setting} {passes : Pipeline} {d : Document}
    (hd : d.Linked) (h : (Pipeline.run setting (pass :: passes) d).error = none) :
    Document.AdaptedOn pass.adapter setting d.preorder d (pass.run setting d).document := by
  rcases Document.adaptAll_cases hd pass.adapter setting with
    ⟨-, hall⟩ | ⟨_, _, _, _, error, -, hsome, -⟩
  · exact hall
  · have hsome : (pass.run setting d).error = some error := hsome
    rw [Pipeline.run_cons_of_error hsome, hsome] at h
    cases h

namespace Adapter

variable {setting : Setting} {attrs attrs' : Attributes}

theorem exists_binding (h : attrs.BoundOnce) (setting : Setting) (site : Site) :
    ∃ attrs', binding setting site attrs = .ok attrs' := by
  unfold binding
  rw [Attributes.doubleBinding?_eq_none_iff.mpr h]
  exact ⟨_, rfl⟩

/-- Where loops are kept, one that can be taken apart is all right. -/
theorem exists_iteration (hkeep : setting.dialect.iteration = .keep)
    (h : ∀ l ∈ attrs.directive? .forEach, Iteration.parse? l.expression ≠ none) (site : Site) :
    ∃ attrs', iteration setting site attrs = .ok attrs' := by
  unfold iteration
  rw [hkeep]
  cases hl : attrs.directive? .forEach with
  | none => exact ⟨_, rfl⟩
  | some l =>
      obtain ⟨it, hit⟩ := Option.ne_none_iff_exists'.mp (h l hl)
      dsimp only
      rw [hit]
      exact ⟨_, rfl⟩

/-- A loop that is adapted can be taken apart. -/
theorem parse?_of_iteration {site : Site} (h : iteration setting site attrs = .ok attrs')
    {l : Directive}
    (hl : attrs.directive? .forEach = some l) : Iteration.parse? l.expression ≠ none := by
  intro hnone
  unfold iteration at h
  rw [hl] at h
  dsimp only at h
  rw [hnone] at h
  cases h

end Adapter

/-! ### What platforms may take an element for -/

namespace ConditionalNames

/-- The names of elements that can be continued. -/
def continued (names : ConditionalNames) : List String := [names.ifName, names.elseIfName]

end ConditionalNames

/-- The element means the same on the platform as on the web: no attribute is named like a
condition of the platform, no binding is of a property with such a name or one that looks like a
directive, and a two-way binding does not stand beside a short binding of the value. -/
structure Attributes.Portable (target : Target) (attrs : Attributes) : Prop where
  native : ∀ n ∈ target.dialect.conditional.continued, n ∉ attrs.names
  plainly : attrs.BindsPlainly
  bound : ∀ d ∈ attrs.directivesOf .bind, ∀ n ∈ target.dialect.conditional.continued,
    d.arg ≠ some n
  value : attrs.modelKey? ≠ none → ":value" ∉ attrs.names

instance (target : Target) (attrs : Attributes) : Decidable (attrs.Portable target) :=
  decidable_of_iff
    ((∀ n ∈ target.dialect.conditional.continued, n ∉ attrs.names) ∧ attrs.BindsPlainly ∧
      (∀ d ∈ attrs.directivesOf .bind, ∀ n ∈ target.dialect.conditional.continued,
        d.arg ≠ some n) ∧
      (attrs.modelKey? ≠ none → ":value" ∉ attrs.names))
    ⟨fun h => ⟨h.1, h.2.1, h.2.2.1, h.2.2.2⟩, fun h => ⟨h.native, h.plainly, h.bound, h.value⟩⟩

/-- Up to the pass of bindings only bindings can have to do with a platform's conditions. -/
theorem Target.not_touches_continued {target : Target} (hmini : target.isMiniProgram = true)
    {n : String} (hn : n ∈ target.dialect.conditional.continued) (attrs : Attributes) :
    ¬ Pass.ref.Touches target.dialect attrs n ∧ ¬ Pass.model.Touches target.dialect attrs n ∧
      Directive.kind? n = none ∧ n ∉ target.dialect.showSlot.names := by
  have hall : ∀ n ∈ target.dialect.conditional.continued,
      n ∉ Pass.ref.listed target.dialect ∧ n ∉ Pass.model.listed target.dialect ∧
        Directive.kind? n = none ∧ n ∉ target.dialect.showSlot.names := by
    cases target with
    | web | weex => cases hmini
    | wx | alipay | baidu => decide
  obtain ⟨href, hmodel, hkind, hslot⟩ := hall n hn
  refine ⟨fun h => ?_, fun h => ?_, hkind, hslot⟩
  · exact (h.of_isStatic (by rw [hkind]; simp)).elim href fun hbound => nomatch hbound.1
  · exact (h.of_isStatic (by rw [hkind]; simp)).elim hmodel fun hbound => nomatch hbound.1

namespace AdaptedBy

variable {target : Target} {style : Option StyleConfig} {tag : String} {attrs attrs' : Attributes}

/-- No element has come to look like a condition of the platform when conditions are adapted. -/
theorem not_continuedBy (hmini : target.isMiniProgram = true)
    (h : AdaptedBy (.forTarget target style) tag [.ref, .model, .binding] attrs attrs')
    (hd : attrs.Distinct) (hattrs : attrs.Portable target) :
    target.dialect.conditional.continuedBy attrs' = false := by
  have hcut : AdaptedBy (.forTarget target style) tag ([.ref, .model] ++ [.binding]) attrs attrs' :=
    h
  obtain ⟨attrs₂, hfront, hbinding⟩ := hcut.of_append
  have hbinds := hfront.bindings_eq hmini hd hattrs.plainly
  have hnot : ∀ n ∈ target.dialect.conditional.continued, n ∉ attrs'.names := by
    intro n hn hmem
    refine hattrs.native n hn ((hfront.mem_names_iff fun pass hpass attrs => ?_).mp ?_)
    · obtain ⟨href, hmodel, -⟩ := Target.not_touches_continued hmini hn attrs
      rcases List.mem_cons.mp hpass with rfl | hpass
      · exact href
      · rw [List.mem_singleton.mp hpass]
        exact hmodel
    · obtain ⟨-, -, hkind, hslot⟩ := Target.not_touches_continued hmini hn attrs₂
      obtain ⟨site, -, hstep⟩ := hbinding.of_singleton
      refine ((Pass.binding.agreeOn_name hstep ?_).mem_names_iff BEq.rfl).mp hmem
      rintro (hshow | hshow | ⟨-, d, hdir, rfl | harg⟩)
      · rw [hkind] at hshow
        cases hshow
      · exact hslot hshow
      · obtain ⟨hdir, -⟩ := Attributes.mem_directivesOf.mp hdir
        rw [(Attributes.mem_of_mem_directives hdir).2.2.2] at hkind
        cases hkind
      · rw [hbinds] at hdir
        exact hattrs.bound d hdir n hn harg
  rw [← Bool.not_eq_true, ConditionalNames.continuedBy_iff]
  rintro (hmem | hmem)
  · exact hnot _ (.head _) hmem
  · exact hnot _ (.tail _ (.head _)) hmem

end AdaptedBy

namespace Document

variable {d d' : Document} {target : Target} {style : Option StyleConfig}

/-! ### The same conditions on the same tree -/

/-- The same tree with the same conditions on every element. -/
structure SameConditions (d d' : Document) : Prop where
  tree : SameTree d d'
  element : ∀ id e, d.element? id = some e →
    ∃ e', d'.element? id = some e' ∧ e'.attrs.conditionals = e.attrs.conditionals

theorem SameConditions.followsChain_iff (h : SameConditions d d') (id : Nat) :
    d'.FollowsChain id ↔ d.FollowsChain id := by
  have hbegins : ∀ {attrs attrs' : Attributes}, attrs'.conditionals = attrs.conditionals →
      (attrs'.BeginsChain ↔ attrs.BeginsChain) := by
    intro attrs attrs' heq
    unfold Attributes.BeginsChain
    rw [heq]
  unfold FollowsChain
  rw [h.tree.previousElement?_eq]
  constructor
  · rintro ⟨p, e', hp, he', hbegin⟩
    obtain ⟨e, he⟩ := Option.isSome_iff_exists.mp (isElement_of_previousElement? hp)
    obtain ⟨e'', he'', hsame⟩ := h.element p e he
    cases he'.symm.trans he''
    exact ⟨p, e, hp, he, (hbegins hsame).mp hbegin⟩
  · rintro ⟨p, e, hp, he, hbegin⟩
    obtain ⟨e', he', hsame⟩ := h.element p e he
    exact ⟨p, e', hp, he', (hbegins hsame).mpr hbegin⟩

theorem SameConditions.chainedAt_iff (h : SameConditions d d') {id : Nat} {e e' : Element}
    (he : d.element? id = some e) (he' : d'.element? id = some e') :
    d'.ChainedAt id e' ↔ d.ChainedAt id e := by
  obtain ⟨e'', he'', hsame⟩ := h.element id e he
  cases he'.symm.trans he''
  constructor
  · intro hchained
    refine ⟨hsame ▸ hchained.one, fun c hc hkind => ?_⟩
    exact (h.followsChain_iff id).mp (hchained.follows c (hsame ▸ hc) hkind)
  · intro hchained
    refine ⟨hsame ▸ hchained.one, fun c hc hkind => ?_⟩
    exact (h.followsChain_iff id).mpr (hchained.follows c (hsame ▸ hc) hkind)

/-- Up to the pass over conditions these are what the author wrote. -/
theorem sameConditions_run (hd : d.Built)
    (hplain : target.isMiniProgram = true → ∀ id e, d.element? id = some e → e.attrs.BindsPlainly)
    (h : Pipeline.run (.forTarget target style) [.ref, .model, .binding] d = ⟨d', none⟩) :
    SameConditions d d' := by
  obtain ⟨htree, helements⟩ := Pipeline.run_eq_ok hd.linked h
  refine ⟨htree, fun id e he => ?_⟩
  obtain ⟨attrs, hby, hnow⟩ := helements id e he
  refine ⟨_, hnow, hby.conditionals_eq (hd.distinct id e he) (fun hmini => hplain hmini id e he) ?_⟩
  cases target <;> decide

/-! ### What a platform has accepted -/

/-- On a platform that accepts a template every chain is whole. -/
theorem chainedAt_of_adapt (hd : d.Built) (hmini : target.isMiniProgram = true)
    (hattrs : ∀ id e, d.element? id = some e → e.attrs.Portable target)
    (h : (d.adapt (.forTarget target style)).error = none) :
    ∀ id e, d.element? id = some e → d.ChainedAt id e := by
  have hcut : Pass.standard = [.ref, .model, .binding] ++
      .conditional :: [.iteration, .classes, .styles] := rfl
  unfold adapt at h
  rw [hcut] at h
  obtain ⟨hnone, hrest⟩ := Pipeline.error_of_append h
  have hrun : Pipeline.run (.forTarget target style) [.ref, .model, .binding] d
      = ⟨(Pipeline.run (.forTarget target style) [.ref, .model, .binding] d).document, none⟩ := by
    rw [← hnone]
  generalize (Pipeline.run (.forTarget target style) [.ref, .model, .binding] d).document = d₃
    at hrun hrest
  have hsame := sameConditions_run hd (fun _ id e he => (hattrs id e he).plainly) hrun
  have hlinked := hd.linked.of_sameTree hsame.tree
  have hall := Pass.adapted_of_error hlinked hrest
  have hback : ∀ id e₃, d₃.element? id = some e₃ → e₃.attrs.Distinct ∧
      target.dialect.conditional.FreeIn e₃.attrs := by
    intro id e₃ he₃
    obtain ⟨e, attrs, he, hby, rfl⟩ := Pipeline.exists_element hd.linked hrun he₃
    have hportable := hattrs id e he
    have hdistinct := hd.distinct id e he
    exact ⟨(hby.plainly hdistinct fun _ => hportable.plainly).1,
      Target.freeIn fun _ => hby.not_continuedBy hmini hdistinct hportable⟩
  intro id e he
  obtain ⟨e₃, he₃, -⟩ := hsame.element id e he
  rw [← hsame.chainedAt_iff he he₃]
  exact hall.chainedAt_of_prefix hlinked (fun id e he => (hback id e he).1) target.apart
    (fun id e he => (hback id e he).2) (List.append_nil _).symm
    (mem_preorder_of_element? hlinked he₃) he₃

/-- On a platform that accepts a template every loop that is adapted can be taken apart. -/
theorem parse?_of_adapt (hd : d.Built)
    (hplain : target.isMiniProgram = true → ∀ id e, d.element? id = some e → e.attrs.BindsPlainly)
    (h : (d.adapt (.forTarget target style)).error = none) :
    ∀ id e, d.element? id = some e → ∀ l ∈ e.attrs.directive? .forEach,
      Iteration.parse? l.expression ≠ none := by
  have hcut : Pass.standard = [.ref, .model, .binding, .conditional] ++
      .iteration :: [.classes, .styles] := rfl
  unfold adapt at h
  rw [hcut] at h
  obtain ⟨hnone, hrest⟩ := Pipeline.error_of_append h
  have hrun : Pipeline.run (.forTarget target style) [.ref, .model, .binding, .conditional] d
      = ⟨(Pipeline.run (.forTarget target style) [.ref, .model, .binding, .conditional] d).document,
        none⟩ := by
    rw [← hnone]
  generalize (Pipeline.run (.forTarget target style)
    [.ref, .model, .binding, .conditional] d).document = d₄ at hrun hrest
  obtain ⟨htree, helements⟩ := Pipeline.run_eq_ok hd.linked hrun
  have hlinked := hd.linked.of_sameTree htree
  intro id e he l hl
  obtain ⟨attrs, hby, hnow⟩ := helements id e he
  have hspare : Pass.Spare target [.ref, .model, .binding, .conditional] [.forEach] := by
    cases target <;> decide
  have hloops :=
    hby.directivesOf_eq (hd.distinct id e he) (fun hmini => hplain hmini id e he) hspare
  obtain ⟨attrs', hstep, -⟩ := (Pass.adapted_of_error hlinked hrest).adapted id
    (mem_preorder_of_element? hlinked hnow) _ hnow
  refine Adapter.parse?_of_iteration hstep ?_
  rw [Attributes.directive?_eq_head?, hloops, ← Attributes.directive?_eq_head?]
  exact hl

end Document

/-! ### What the web accepts -/

/-- On the web no binding comes to stand in both spellings, unless it is that of the value. -/
theorem AdaptedBy.boundOnce_web {style : Option StyleConfig} {tag : String}
    {attrs attrs' : Attributes}
    (h : AdaptedBy (.forTarget .web style) tag [.ref, .model] attrs attrs') (hd : attrs.Distinct)
    (honce : attrs.BoundOnce) (hvalue : attrs.modelKey? ≠ none → ":value" ∉ attrs.names) :
    attrs'.BoundOnce := by
  have hcut : AdaptedBy (.forTarget .web style) tag ([.ref] ++ [.model]) attrs attrs' := h
  obtain ⟨attrs₁, href, hmodel⟩ := hcut.of_append
  have hkey : attrs₁.modelKey? = attrs.modelKey? := href.modelKey?_eq hd fun h => nomatch h
  -- A name that is marked as a binding is kept or written by the pass of two-way bindings.
  have hkept : ∀ n, (Directive.boundName? n).isSome → n ∈ attrs'.names →
      (attrs.modelKey? ≠ none ∧ n ∈ Dialect.web.model.names) ∨ n ∈ attrs.names := by
    intro n hbound hn
    by_cases hwritten : attrs.modelKey? ≠ none ∧ n ∈ Dialect.web.model.names
    · exact .inl hwritten
    refine .inr ((href.mem_names_iff fun pass hpass attrs htouches => ?_).mp ?_)
    · rw [List.mem_singleton.mp hpass] at htouches
      rcases htouches with rfl | rfl | hmem
      · exact absurd hbound (by decide)
      · exact absurd hbound (by decide)
      · exact absurd hmem List.not_mem_nil
    · obtain ⟨site, -, hstep⟩ := hmodel.of_singleton
      refine ((Pass.model.agreeOn_name hstep ?_).mem_names_iff BEq.rfl).mp hn
      rintro (hk | ⟨hsome, hmem⟩)
      · exact absurd (Directive.isBinding_of_boundName? hbound hk) (by decide)
      · exact hwritten ⟨hkey ▸ hsome, hmem⟩
  intro property hshort hlong
  obtain ⟨hsomeShort, hsomeLong⟩ := Directive.isSome_boundName? property
  have hmine : ":" ++ property ∈ attrs.names := by
    refine (hkept _ hsomeShort hshort).resolve_left ?_
    rintro ⟨-, hmem⟩
    have hhead : ∀ n ∈ Dialect.web.model.names, n.toList.head? ≠ some ':' := by decide
    refine hhead _ hmem ?_
    rw [String.toList_append]
    rfl
  rcases hkept _ hsomeLong hlong with ⟨hsome, hmem⟩ | hlong
  · have hproperty : property = "value" := by
      rcases List.mem_cons.mp hmem with heq | hmem
      · have hlist := congrArg String.toList heq
        rw [String.toList_append] at hlist
        cases hlist
      · have hlist := congrArg String.toList (List.mem_singleton.mp hmem)
        rw [String.toList_append] at hlist
        exact String.toList_inj.mp (List.append_cancel_left hlist)
    rw [hproperty] at hmine
    exact hvalue hsome hmine
  · exact honce property hmine hlong

namespace Document

variable {d : Document}

/-- On the web the pass over conditions succeeds if the author's chains are whole. -/
theorem conditional_web (hd : d.Built) (style : Option StyleConfig)
    (hchained : ∀ id e, d.element? id = some e → d.ChainedAt id e)
    (h : (Pipeline.run (.forTarget .web style) [.ref, .model, .binding] d).error = none) :
    (Pipeline.run (.forTarget .web style) [.ref, .model, .binding, .conditional] d).error = none := by
  show (Pipeline.run _ ([.ref, .model, .binding] ++ [.conditional]) d).error = none
  have hnot : Target.web.isMiniProgram ≠ true := by decide
  have hrun : Pipeline.run (.forTarget .web style) [.ref, .model, .binding] d
      = ⟨(Pipeline.run (.forTarget .web style) [.ref, .model, .binding] d).document, none⟩ := by
    rw [← h]
  rw [Pipeline.run_append_of_none h]
  generalize (Pipeline.run (.forTarget .web style) [.ref, .model, .binding] d).document = d₃
    at hrun ⊢
  have hsame := sameConditions_run hd (fun h => absurd h hnot) hrun
  have hlinked := hd.linked.of_sameTree hsame.tree
  have hdistinct : ∀ id e₃, d₃.element? id = some e₃ → e₃.attrs.Distinct := by
    intro id e₃ he₃
    obtain ⟨e, attrs, he, hby, rfl⟩ := Pipeline.exists_element hd.linked hrun he₃
    exact (hby.plainly (hd.distinct id e he) fun h => absurd h hnot).1
  rcases adaptAll_cases hlinked .conditional (.forTarget .web style) with
    ⟨hnone, -⟩ | ⟨before, id, after, e₃, error, hsplit, -, hfront, he₃, herror⟩
  · rw [Pipeline.run_cons_of_none (show (Pass.conditional.run _ d₃).error = none from hnone)]
    rfl
  · obtain ⟨e, attrs, he, -, rfl⟩ := Pipeline.exists_element hd.linked hrun he₃
    have hfailed := hfront.not_chainedAt hdistinct Target.web.apart
      (fun id e₃ he₃ => Target.freeIn fun h => absurd h hnot)
      (fun p hp => hlinked.previousElement?_mem hp hsplit) herror
    exact absurd ((hsame.chainedAt_iff he he₃).mpr (hchained id e he)) hfailed.1

/-- The web accepts a template if no property is bound in both spellings, neither by the author
nor by way of a two-way binding, all chains of conditions are whole and all loops can be taken
apart. -/
theorem adapt_web (hd : d.Built) (style : Option StyleConfig)
    (honce : ∀ id e, d.element? id = some e → e.attrs.BoundOnce)
    (hvalue : ∀ id e, d.element? id = some e → e.attrs.modelKey? ≠ none →
      ":value" ∉ e.attrs.names)
    (hchained : ∀ id e, d.element? id = some e → d.ChainedAt id e)
    (hloops : ∀ id e, d.element? id = some e → ∀ l ∈ e.attrs.directive? .forEach,
      Iteration.parse? l.expression ≠ none) :
    (d.adapt (.forTarget .web style)).error = none := by
  have htotal : (Pipeline.run (.forTarget .web style) [.ref, .model] d).error = none := by
    refine Pipeline.run_total (fun pass hpass => ?_) d
    rcases List.mem_cons.mp hpass with rfl | hpass
    · exact Adapter.total_reference _
    · rw [List.mem_singleton.mp hpass]
      exact Adapter.total_model _
  have hbinding : (Pipeline.run (.forTarget .web style) [.ref, .model, .binding] d).error = none :=
    show (Pipeline.run _ ([.ref, .model] ++ [.binding]) d).error = none from
      Pipeline.error_concat hd.linked htotal fun id e attrs he hby site =>
        Adapter.exists_binding
          (hby.boundOnce_web (hd.distinct id e he) (honce id e he) (hvalue id e he)) _ site
  have hconditional :
      (Pipeline.run (.forTarget .web style) [.ref, .model, .binding, .conditional] d).error = none :=
    conditional_web hd style hchained hbinding
  have hiteration : (Pipeline.run (.forTarget .web style)
      [.ref, .model, .binding, .conditional, .iteration] d).error = none := by
    show (Pipeline.run _ ([.ref, .model, .binding, .conditional] ++ [.iteration]) d).error = none
    refine Pipeline.error_concat hd.linked hconditional fun id e attrs he hby site => ?_
    have hkeep : (Setting.forTarget .web style).dialect.iteration = .keep := rfl
    refine Adapter.exists_iteration hkeep (fun l hl => hloops id e he l ?_) site
    rw [Attributes.directive?_eq_head?,
      hby.directivesOf_eq (hd.distinct id e he) (fun h => nomatch h) (by decide),
      ← Attributes.directive?_eq_head?] at hl
    exact hl
  show (Pipeline.run _
    ([.ref, .model, .binding, .conditional, .iteration] ++ [.classes, .styles]) d).error = none
  rw [Pipeline.run_append_of_none hiteration]
  exact Pipeline.run_total (fun pass hpass => pass.total hpass _) _

end Document

/-- What a mini-program platform accepts is accepted by the web and by weex, whatever the style
options, if every element means the same on them. -/
theorem compile_accepted {source out : String} {target : Target} {style : Option StyleConfig}
    (hmini : target.isMiniProgram = true) (h : compile source target style = .ok out)
    (hsource : ∀ d, Document.parse source = .ok d → ∀ id e, d.element? id = some e →
      e.attrs.Portable target) (style' : Option StyleConfig) :
    (∃ out', compile source .web style' = .ok out') ∧
      ∃ out', compile source .weex style' = .ok out' := by
  obtain ⟨d, d', hparse, hadapt, -⟩ := Document.compile_eq_ok h
  have hd := Document.built_of_parse hparse
  have hportable := hsource d hparse
  have hnone : (d.adapt (.forTarget target style)).error = none := by rw [hadapt]
  have hweb : (d.adapt (.forTarget .web style')).error = none := by
    refine Document.adapt_web hd style' (fun id e he property hshort hlong => ?_)
      (fun id e he => (hportable id e he).value)
      (Document.chainedAt_of_adapt hd hmini hportable hnone)
      (Document.parse?_of_adapt hd (fun _ id e he => (hportable id e he).plainly) hnone)
    obtain ⟨_, _, _, -, herror⟩ := Document.exists_conflict hd target style he hshort hlong
    cases hnone.symm.trans herror
  have hweex : (d.adapt (.forTarget .weex style')).error = none := d.adapt_weex style' ▸ hweb
  rw [compile_of_parse hparse, compile_of_parse hparse, hweb, hweex]
  exact ⟨⟨_, rfl⟩, ⟨_, rfl⟩⟩

/-- A two-way binding, a chain of conditions and a loop. -/
theorem compile_accepted_chain :
    let source := "<input v-model=\"a\" :type=\"b\"/><p v-if=\"c\"></p><p v-else v-for=\"i in l\"></p>"
    let out := "<input data-modelkey=\"a\" bindinput=\"_cmlModelEventProxy\" " ++
      "value=\"\x7b\x7ba\x7d\x7d\" type=\"\x7b\x7bb\x7d\x7d\" class=\" cml-base cml-input\" />" ++
      "<p wx:if=\"\x7b\x7bc\x7d\x7d\" class=\" cml-base cml-p\"></p><p wx:else wx:for-item=\"i\" " ++
      "wx:for-index=\"index\" wx:for=\"\x7b\x7bl\x7d\x7d\" class=\" cml-base cml-p\"></p>"
    compile source .wx none = .ok out ∧
      (∀ d, Document.parse source = .ok d → ∀ id e, d.element? id = some e →
        e.attrs.Portable .wx) ∧
      (∃ out', compile source .web none = .ok out') ∧
        ∃ out', compile source .weex none = .ok out' := by
  intro source out
  have hout : compile source .wx none = .ok out := by decide +kernel
  have hsource : ∀ d, Document.parse source = .ok d → ∀ id e, d.element? id = some e →
      e.attrs.Portable .wx := Document.forall_element_of_parse (by decide +kernel)
  exact ⟨hout, hsource, compile_accepted rfl hout hsource none⟩

/-- A two-way binding beside a short binding of the value is accepted by a mini-program platform,
where the one overwrites the other, and not by the web. -/
theorem compile_accepted_value :
    let source := "<input v-model=\"a\" :value=\"b\" />"
    (∀ d ∈ (Document.parse source).toOption, ∀ id < d.size, ∀ e ∈ d.element? id,
        ∀ n ∈ ["wx:if", "wx:elif", "a:if", "a:elif", "s-if", "s-elif"], n ∉ e.attrs.names) ∧
      compile source .wx none = .ok ("<input data-modelkey=\"a\" bindinput=\"_cmlModelEventProxy\" " ++
        "value=\"\x7b\x7bb\x7d\x7d\" class=\" cml-base cml-input\" />") ∧
      compile source .web none = .error (.conflict "input" "v-bind:value" ":value" ⟨0, 32⟩) := by
  decide +kernel

end TemplateCompiler
