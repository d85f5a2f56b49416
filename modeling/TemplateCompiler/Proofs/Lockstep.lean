/-
Two trees, adapted in step.

Where one tree is the other with its attributes changed in some way, a pass often does the same
to both, in the same order.  `Variation` says what the two may differ in, and `Kept` what is to be
known of one element: it fails in both trees or in neither, and when it is adapted in both the
results still differ in the same way.  The rest of this file is what follows for a pass and for
a pipeline.

What an element needs for this changes when it is adapted, and the element before it may be
adapted already.  The invariant therefore tells the elements that are still to come from
those that are done, which is possible because a pass visits no node twice.

The last section is about attributes with other names, where errors are the same to the letter.
-/
import TemplateCompiler.Proofs.Adaptation
import TemplateCompiler.Proofs.Renaming

namespace TemplateCompiler

/-- How two trees may differ that are adapted in step. -/
structure Variation where
  /-- The attributes that an element of the first tree has in the second. -/
  attrs : Attributes → Attributes
  /-- Where a node of the one tree may stand in the source of the other. -/
  Spans : Span → Span → Prop
  /-- The errors that count as the same. -/
  Errors : CompileError → CompileError → Prop

namespace Variation

/-- The element as it is in the second tree. -/
def element (V : Variation) (e : Element) : Element := { e with attrs := V.attrs e.attrs }

/-- Places of one element in the two trees. -/
structure Sites (V : Variation) (site site' : Site) : Prop where
  tag : site'.tag = site.tag
  span : V.Spans site.span site'.span
  previous : site'.previous () = (site.previous ()).map V.attrs

/-- Both adaptations succeed or both fail. -/
inductive Outcome (V : Variation) :
    Except CompileError Attributes → Except CompileError Attributes → Prop
  | ok (attrs : Attributes) : Outcome V (.ok attrs) (.ok (V.attrs attrs))
  | error {error error' : CompileError} (h : V.Errors error error') :
    Outcome V (.error error) (.error error')

theorem Outcome.of_eq {V : Variation} {r r' : Except CompileError Attributes}
    (hrefl : ∀ error, V.Errors error error) (h : r' = r.map V.attrs) : V.Outcome r r' := by
  subst h
  cases r with
  | ok attrs => exact .ok attrs
  | error error => exact .error (hrefl error)

/-- Every pass keeps the variation: an element that is ready for the pass is adapted alike in both
trees, beside elements that are ready for one pass or another, and is ready for the next pass. -/
structure Kept (V : Variation) (σ τ : Setting) (Ready : List Pass → Element → Prop) : Prop where
  outcome : ∀ {pass passes e site site'}, Ready (pass :: passes) e → V.Sites site site' →
    site.tag = e.tag →
    (∀ before ∈ site.previous (), ∃ passes' e', Ready passes' e' ∧ e'.attrs = before) →
    V.Outcome (pass.adapter σ site e.attrs) (pass.adapter τ site' (V.attrs e.attrs))
  step : ∀ {pass passes e site attrs}, pass ∉ passes → Ready (pass :: passes) e →
    site.tag = e.tag → pass.adapter σ site e.attrs = .ok attrs → Ready passes { e with attrs }

end Variation

variable {V : Variation} {σ τ : Setting} {Ready : List Pass → Element → Prop}
  {pass : Pass} {passes : List Pass}

/-- The second tree is the first one with other attributes. -/
structure Document.Varied (V : Variation) (d d' : Document) : Prop where
  tree : SameTree d d'
  span : ∀ id, V.Spans (d.spanOf id) (d'.spanOf id)
  element : ∀ id, d'.element? id = (d.element? id).map V.element

/-- The work on the two trees stopped for the same reason, and the trees still differ in the same
way. -/
structure Progress.Varied (V : Variation) (p p' : Progress) : Prop where
  document : p.document.Varied V p'.document
  error : Option.Rel V.Errors p.error p'.error

/-- Where no two errors count as the same, the errors are the same. -/
theorem Progress.Varied.error_eq {p p' : Progress} (h : p.Varied V p')
    (herrors : ∀ error error', V.Errors error error' → error = error') : p'.error = p.error := by
  have hrel := h.error
  generalize p.error = error at hrel ⊢
  generalize p'.error = error' at hrel ⊢
  cases hrel with
  | none => rfl
  | some hsame => exact congrArg some (herrors _ _ hsame).symm

namespace Document

variable {d d' : Document} {id : Nat} {e : Element}

/-! ### One element -/

theorem Varied.siteOf (h : Varied V d d') (id : Nat) (e : Element) :
    V.Sites (d.siteOf id e) (d'.siteOf id (V.element e)) where
  tag := rfl
  span := h.span id
  previous := by
    show ((d'.previousElement? id).bind fun p => (d'.element? p).map Element.attrs)
      = ((d.previousElement? id).bind fun p => (d.element? p).map Element.attrs).map V.attrs
    rw [h.tree.previousElement?_eq, Option.map_bind]
    congr 1
    funext p
    rw [h.element, Function.comp_apply, Option.map_map, Option.map_map]
    rfl

theorem Varied.setAttributes (h : Varied V d d') (he : d.element? id = some e)
    (attrs : Attributes) :
    Varied V (d.setAttributes id attrs) (d'.setAttributes id (V.attrs attrs)) := by
  have he' : d'.element? id = some (V.element e) := by
    rw [h.element, he]
    rfl
  have hself := sameTree_setAttributes he attrs
  have hother := sameTree_setAttributes he' (V.attrs attrs)
  refine ⟨hself.symm.trans (h.tree.trans hother), fun i => ?_, fun i => ?_⟩
  · rw [spanOf_setAttributes, spanOf_setAttributes]
    exact h.span i
  · rw [element?_setAttributes he, element?_setAttributes he', h.element]
    split <;> rfl

/-- What an element sees before it is an element of the tree. -/
theorem exists_of_previous {before : Attributes} (h : before ∈ (d.siteOf id e).previous ()) :
    ∃ p e', d.element? p = some e' ∧ e'.attrs = before := by
  obtain ⟨p, -, hp⟩ := Option.bind_eq_some_iff.mp h
  obtain ⟨e', he', hbefore⟩ := Option.map_eq_some_iff.mp hp
  exact ⟨p, e', he', hbefore⟩

/-! ### A pass -/

/-- The elements among `ids` wait for the pass, and all others for those after it. -/
structure Waiting (Ready : List Pass → Element → Prop) (pass : Pass) (passes : List Pass)
    (ids : List Nat) (d : Document) : Prop where
  todo : ∀ id ∈ ids, ∀ e, d.element? id = some e → Ready (pass :: passes) e
  done : ∀ id, id ∉ ids → ∀ e, d.element? id = some e → Ready passes e

theorem Waiting.ready {ids : List Nat} (h : Waiting Ready pass passes ids d)
    (he : d.element? id = some e) : ∃ passes', Ready passes' e := by
  by_cases hid : id ∈ ids
  · exact ⟨_, h.todo id hid e he⟩
  · exact ⟨_, h.done id hid e he⟩

/-- The first of the elements is adapted, or is none. -/
theorem Waiting.step {ids : List Nat} (hkept : V.Kept σ τ Ready) (hpass : pass ∉ passes)
    (hids : (id :: ids).Nodup) (h : Waiting Ready pass passes (id :: ids) d) {d₁ : Document}
    (hstep : d.adaptAt pass.adapter σ id = .ok d₁) : Waiting Ready pass passes ids d₁ := by
  rw [List.nodup_cons] at hids
  rcases adaptAt_eq_ok hstep with ⟨hnone, rfl⟩ | ⟨e, attrs, he, hattrs, rfl⟩
  · refine ⟨fun i hi => h.todo i (List.mem_cons_of_mem id hi), fun i hi e he => ?_⟩
    refine h.done i (fun hmem => ?_) e he
    rcases List.mem_cons.mp hmem with rfl | hmem
    · rw [hnone] at he
      cases he
    · exact hi hmem
  · have hafter := hkept.step hpass (h.todo id List.mem_cons_self e he) rfl hattrs
    refine ⟨fun i hi e' he' => ?_, fun i hi e' he' => ?_⟩
    · have hne : i ≠ id := fun heq => hids.1 (heq ▸ hi)
      rw [element?_setAttributes he, if_neg hne] at he'
      exact h.todo i (List.mem_cons_of_mem id hi) e' he'
    · rw [element?_setAttributes he] at he'
      by_cases hid : i = id
      · rw [if_pos hid, Option.some.injEq] at he'
        rw [← he']
        exact hafter
      · rw [if_neg hid] at he'
        exact h.done i (fun hmem => (List.mem_cons.mp hmem).elim hid hi) e' he'

theorem adaptAt_varied {ids : List Nat} (hkept : V.Kept σ τ Ready) (h : Varied V d d')
    (hwait : Waiting Ready pass passes (id :: ids) d) :
    (∃ error error', d.adaptAt pass.adapter σ id = .error error ∧
        d'.adaptAt pass.adapter τ id = .error error' ∧ V.Errors error error') ∨
      ∃ d₁ d₁', d.adaptAt pass.adapter σ id = .ok d₁ ∧ d'.adaptAt pass.adapter τ id = .ok d₁' ∧
        Varied V d₁ d₁' := by
  unfold adaptAt
  rw [h.element]
  cases he : d.element? id with
  | none => exact .inr ⟨d, d', rfl, rfl, h⟩
  | some e =>
      have houtcome := hkept.outcome (hwait.todo id List.mem_cons_self e he) (h.siteOf id e) rfl
        fun before hbefore => by
          obtain ⟨p, e', he', heq⟩ := exists_of_previous hbefore
          obtain ⟨passes', hready⟩ := hwait.ready he'
          exact ⟨passes', e', hready, heq⟩
      dsimp only [Option.map_some]
      generalize pass.adapter σ (d.siteOf id e) e.attrs = r at houtcome
      change V.Outcome r (pass.adapter τ (d'.siteOf id (V.element e)) (V.element e).attrs)
        at houtcome
      generalize pass.adapter τ (d'.siteOf id (V.element e)) (V.element e).attrs = r' at houtcome
      cases houtcome with
      | ok attrs => exact .inr ⟨_, _, rfl, rfl, h.setAttributes he attrs⟩
      | error herrors => exact .inl ⟨_, _, rfl, rfl, herrors⟩

theorem adaptEach_varied (hkept : V.Kept σ τ Ready) (hpass : pass ∉ passes) {ids : List Nat} :
    ∀ {d d' : Document}, ids.Nodup → Varied V d d' → Waiting Ready pass passes ids d →
      (d.adaptEach pass.adapter σ ids).Varied V (d'.adaptEach pass.adapter τ ids) ∧
        ((d.adaptEach pass.adapter σ ids).error = none →
          Waiting Ready pass passes [] (d.adaptEach pass.adapter σ ids).document) := by
  induction ids with
  | nil =>
      intro d d' _ h hwait
      exact ⟨⟨h, .none⟩, fun _ => hwait⟩
  | cons id ids ih =>
      intro d d' hids h hwait
      unfold adaptEach
      rcases adaptAt_varied hkept h hwait with
        ⟨error, error', hd, hd', herrors⟩ | ⟨d₁, d₁', hd, hd', h₁⟩
      · rw [hd, hd']
        refine ⟨⟨h, .some herrors⟩, fun hnone => ?_⟩
        cases hnone
      · have hwait₁ := hwait.step hkept hpass hids hd
        rw [hd, hd']
        exact ih (List.nodup_cons.mp hids).2 h₁ hwait₁

end Document

/-! ### All passes -/

section

variable {d d' : Document}

/-- A pass does the same to both trees. -/
theorem Pass.run_varied (hkept : V.Kept σ τ Ready) (hpass : pass ∉ passes) (hlinked : d.Linked)
    (h : d.Varied V d') (hready : ∀ id e, d.element? id = some e → Ready (pass :: passes) e) :
    (pass.run σ d).Varied V (pass.run τ d') ∧
      ((pass.run σ d).error = none → ∀ id e,
        (pass.run σ d).document.element? id = some e → Ready passes e) := by
  have hstart : Document.Waiting Ready pass passes d.preorder d :=
    ⟨fun id _ => hready id,
      fun id hid e he => absurd (Document.mem_preorder_of_element? hlinked he) hid⟩
  unfold Pass.run Document.adaptAll
  rw [h.tree.preorder_eq]
  obtain ⟨hsame, hdone⟩ := Document.adaptEach_varied hkept hpass hlinked.nodup_preorder h hstart
  exact ⟨hsame, fun hnone id => (hdone hnone).done id List.not_mem_nil⟩

theorem Pass.linked_run (pass : Pass) (setting : Setting) (hlinked : d.Linked) :
    (pass.run setting d).document.Linked := by
  rcases Document.adaptAll_cases hlinked pass.adapter setting with
    ⟨-, hall⟩ | ⟨_, _, _, _, _, -, -, hfront, -⟩
  · exact hlinked.of_sameTree hall.tree
  · exact hlinked.of_sameTree hfront.tree

namespace Pipeline

/-- After a pass that succeeds the others follow. -/
theorem run_cons_of_none {setting : Setting} (h : (pass.run setting d).error = none) :
    run setting (pass :: passes) d = run setting passes (pass.run setting d).document := by
  rw [run]
  split
  · rename_i d₁ hrun
    rw [hrun]
  · rename_i hstopped
    exact absurd (congrArg (Progress.mk _) h) (hstopped _)

/-- After a pass that fails no other one follows. -/
theorem run_cons_of_error {setting : Setting} {error : CompileError}
    (h : (pass.run setting d).error = some error) :
    run setting (pass :: passes) d = pass.run setting d := by
  rw [run]
  split
  · rename_i d₁ hrun
    rw [hrun] at h
    cases h
  · rfl

/-- The passes of a pipeline do the same to both trees. -/
theorem run_varied (hkept : V.Kept σ τ Ready) {passes : Pipeline} (hpasses : passes.Nodup) :
    ∀ {d d' : Document}, d.Linked → d.Varied V d' →
      (∀ id e, d.element? id = some e → Ready passes e) →
      (passes.run σ d).Varied V (passes.run τ d') ∧
        ((passes.run σ d).error = none → ∀ id e,
          (passes.run σ d).document.element? id = some e → Ready [] e) := by
  induction passes with
  | nil =>
      intro d d' _ h hready
      exact ⟨⟨h, .none⟩, fun _ => hready⟩
  | cons pass passes ih =>
      intro d d' hlinked h hready
      rw [List.nodup_cons] at hpasses
      obtain ⟨hsame, hdone⟩ := Pass.run_varied hkept hpasses.1 hlinked h hready
      have herrors := hsame.error
      cases herror : (pass.run σ d).error with
      | none =>
          rw [herror] at herrors
          cases herror' : (pass.run τ d').error with
          | none =>
              rw [run_cons_of_none herror, run_cons_of_none herror']
              exact ih hpasses.2 (pass.linked_run σ hlinked) hsame.document (hdone herror)
          | some error' =>
              rw [herror'] at herrors
              cases herrors
      | some error =>
          rw [herror] at herrors
          cases herror' : (pass.run τ d').error with
          | none =>
              rw [herror'] at herrors
              cases herrors
          | some error' =>
              rw [run_cons_of_error herror, run_cons_of_error herror']
              exact ⟨hsame, fun hnone => absurd (herror.symm.trans hnone) (by simp)⟩

end Pipeline

end

/-! ### Attributes with other names -/

/-- The element with its attributes renamed. -/
def Element.renamed (ρ : Renaming) (e : Element) : Element :=
  { e with attrs := e.attrs.renamed ρ }

/-- `d'` is `d` with the attributes of every element renamed. -/
structure Document.Renamed (ρ : Renaming) (d d' : Document) : Prop where
  tree : SameTree d d'
  span : ∀ id, d'.spanOf id = d.spanOf id
  element : ∀ id, d'.element? id = (d.element? id).map (Element.renamed ρ)

/-- The work on two trees stopped for the same reason, and one tree is the other one renamed. -/
structure Progress.Renamed (ρ : Renaming) (p p' : Progress) : Prop where
  document : p.document.Renamed ρ p'.document
  error : p'.error = p.error

/-- Attributes have other names, and everything else is the same. -/
def Renaming.variation (ρ : Renaming) : Variation := ⟨Attributes.renamed ρ, Eq, Eq⟩

section

variable {ρ : Renaming}

theorem Renaming.Relates.kept (h : ρ.Relates σ τ) :
    ρ.variation.Kept σ τ fun passes e => e.attrs.Awaits ρ passes where
  outcome := by
    intro pass passes e site site' hready hsites _ hprevious
    have hsite : pass.adapter τ site' (e.attrs.renamed ρ)
        = pass.adapter τ (site.renamed ρ) (e.attrs.renamed ρ) := by
      obtain ⟨tag, span, previous⟩ := site'
      obtain ⟨rfl, rfl, hbefore⟩ := hsites
      congr 2
      funext _
      exact hbefore
    refine .of_eq (fun _ => rfl) (hsite.trans ?_)
    refine pass.adapter_renamed h site (fun before hbefore => ?_) hready
    obtain ⟨passes', e', hready', rfl⟩ := hprevious before hbefore
    exact hready'.native
  step hpass hready _ hok := Pass.awaits _ h hpass hready hok

/-- The passes of a pipeline do the same to a tree and to the tree renamed. -/
theorem Pipeline.run_renamed (hσ : ρ.Relates σ τ) {passes : Pipeline} (hpasses : passes.Nodup)
    {d d' : Document} (hlinked : d.Linked) (h : d.Renamed ρ d')
    (hwait : ∀ id e, d.element? id = some e → e.attrs.Awaits ρ passes) :
    (passes.run σ d).Renamed ρ (passes.run τ d') ∧
      ((passes.run σ d).error = none → ∀ id e,
        (passes.run σ d).document.element? id = some e → e.attrs.Native ρ) := by
  obtain ⟨hvaried, hdone⟩ := Pipeline.run_varied hσ.kept hpasses hlinked
    ⟨h.tree, fun id => (h.span id).symm, h.element⟩ hwait
  obtain ⟨htree, hspan, helement⟩ := hvaried.document
  exact ⟨⟨⟨htree, fun id => (hspan id).symm, helement⟩, hvaried.error_eq fun _ _ => id⟩,
    fun hnone id e he => (hdone hnone id e he).native⟩

end

end TemplateCompiler
