/-
A pass over a tree, element by element.

An adapter can only answer with attributes, so a pass keeps the tree, and `AdaptedOn` says
what else is known after the elements of a part of the preorder have been adapted.  Its
point is that it looks back: every element that is done was adapted from the attributes
it had at first, and the element before it among its siblings was seen as it is now,
because that one was done earlier and no node is visited twice.  A pass that stops at an
error leaves the same for the elements before the one that failed.

Passes then compose for each element on its own: `AdaptedBy` runs the adapters on the
attributes of one element and forgets the tree.
-/
import TemplateCompiler.Compile
import TemplateCompiler.Proofs.Arena

namespace TemplateCompiler

namespace Document

variable {adapter : Adapter} {setting : Setting} {d d₁ d₂ d' : Document} {id : Nat} {e : Element}

/-! ### Other attributes for one element -/

theorem setAttributes_eq (he : d.element? id = some e) (attrs : Attributes) :
    d.setAttributes id attrs = d.setKind id (.element { e with attrs }) := by
  unfold setAttributes
  rw [he]

theorem element?_setAttributes (he : d.element? id = some e) (attrs : Attributes) (i : Nat) :
    (d.setAttributes id attrs).element? i
      = if i = id then some { e with attrs } else d.element? i := by
  rw [setAttributes_eq he, element?_eq, shape?_setKind]
  by_cases hi : i = id
  · subst hi
    rw [element?_eq] at he
    obtain ⟨s, hs, -⟩ := Option.bind_eq_some_iff.mp he
    rw [if_pos rfl, if_pos rfl, hs]
    rfl
  · rw [if_neg hi, if_neg (Ne.symm hi), element?_eq]

theorem sameTree_setAttributes (he : d.element? id = some e) (attrs : Attributes) :
    SameTree d (d.setAttributes id attrs) where
  roots := by rw [setAttributes_eq he, roots_setKind]
  shape i := by
    rw [setAttributes_eq he, shape?_setKind]
    split
    · rename_i hi
      subst hi
      rw [element?_eq] at he
      obtain ⟨s, hs, hkind⟩ := Option.bind_eq_some_iff.mp he
      obtain ⟨kind, parent, children⟩ := s
      rw [hs]
      cases kind with
      | element e' => cases hkind; rfl
      | text t => cases hkind
      | comment c => cases hkind
    · rfl

theorem spanOf_setAttributes (d : Document) (id : Nat) (attrs : Attributes) (i : Nat) :
    (d.setAttributes id attrs).spanOf i = d.spanOf i := by
  unfold setAttributes
  split
  · exact spanOf_setKind ..
  · rfl

/-! ### One element -/

/-- What adapting one node comes to when it does not fail. -/
theorem adaptAt_eq_ok (h : d₁.adaptAt adapter setting id = .ok d₂) :
    (d₁.element? id = none ∧ d₂ = d₁) ∨
      ∃ e attrs, d₁.element? id = some e ∧ adapter setting (d₁.siteOf id e) e.attrs = .ok attrs ∧
        d₂ = d₁.setAttributes id attrs := by
  unfold adaptAt at h
  cases he : d₁.element? id with
  | none =>
      rw [he] at h
      cases h
      exact Or.inl ⟨rfl, rfl⟩
  | some e =>
      rw [he] at h
      dsimp only at h
      cases hattrs : adapter setting (d₁.siteOf id e) e.attrs with
      | error error =>
          rw [hattrs] at h
          cases h
      | ok attrs =>
          rw [hattrs] at h
          cases h
          exact Or.inr ⟨e, attrs, rfl, hattrs, rfl⟩

theorem adaptAt_eq_error {error : CompileError} (h : d₁.adaptAt adapter setting id = .error error) :
    ∃ e, d₁.element? id = some e ∧ adapter setting (d₁.siteOf id e) e.attrs = .error error := by
  unfold adaptAt at h
  cases he : d₁.element? id with
  | none =>
      rw [he] at h
      cases h
  | some e =>
      rw [he] at h
      dsimp only at h
      cases hattrs : adapter setting (d₁.siteOf id e) e.attrs with
      | error error' =>
          rw [hattrs] at h
          cases h
          exact ⟨e, rfl, hattrs⟩
      | ok attrs =>
          rw [hattrs] at h
          cases h

/-- An element stands at the same place in two trees if what it sees is the same. -/
theorem siteOf_congr (htree : SameTree d d') (hspan : d'.spanOf id = d.spanOf id)
    (hprevious : ∀ p, d.previousElement? id = some p → d'.element? p = d.element? p) (e : Element) :
    d'.siteOf id e = d.siteOf id e := by
  unfold siteOf
  rw [htree.previousElement?_eq id, hspan]
  cases hp : d.previousElement? id with
  | none => rfl
  | some p =>
      rw [Option.bind_some, Option.bind_some, hprevious p hp]

/-! ### A part of the preorder -/

/-- `d'` is `d` with the elements among `done` adapted and nothing else changed. -/
structure AdaptedOn (adapter : Adapter) (setting : Setting) (done : List Nat) (d d' : Document) :
    Prop where
  tree : SameTree d d'
  span : ∀ id, d'.spanOf id = d.spanOf id
  others : ∀ id, id ∉ done → d'.element? id = d.element? id
  adapted : ∀ id ∈ done, ∀ e, d.element? id = some e →
    ∃ attrs, adapter setting (d'.siteOf id e) e.attrs = .ok attrs ∧
      d'.element? id = some { e with attrs }

namespace AdaptedOn

theorem nil (adapter : Adapter) (setting : Setting) (d : Document) :
    AdaptedOn adapter setting [] d d where
  tree := .refl d
  span _ := rfl
  others _ _ := rfl
  adapted _ hid := absurd hid List.not_mem_nil

/-- One more node is adapted.  It is not among those that are done, and none of those sees it. -/
theorem step (hd : Linked d) {before after : List Nat} (hsplit : d.preorder = before ++ id :: after)
    (h : AdaptedOn adapter setting before d d₁) (hstep : d₁.adaptAt adapter setting id = .ok d₂) :
    AdaptedOn adapter setting (before ++ [id]) d d₂ := by
  have hnodup := hd.nodup_preorder
  rw [hsplit] at hnodup
  have hid : id ∉ before := fun hmem => List.disjoint_of_nodup_append hnodup hmem (by simp)
  rcases adaptAt_eq_ok hstep with ⟨hnone, rfl⟩ | ⟨e, attrs, he, hattrs, rfl⟩
  · refine ⟨h.tree, h.span, fun i hi => h.others i fun hmem => hi (by simp [hmem]), ?_⟩
    intro i hi e he
    rcases List.mem_append.mp hi with hi | hi
    · exact h.adapted i hi e he
    · rw [List.mem_singleton] at hi
      subst hi
      rw [h.others i hid, he] at hnone
      cases hnone
  · have hother : ∀ i, i ≠ id → (d₁.setAttributes id attrs).element? i = d₁.element? i := by
      intro i hi
      rw [element?_setAttributes he, if_neg hi]
    have hsite : ∀ i front back, d.preorder = front ++ i :: back → id ∉ front → ∀ e,
        (d₁.setAttributes id attrs).siteOf i e = d₁.siteOf i e := by
      intro i front back hfront hmem e
      refine siteOf_congr (sameTree_setAttributes he attrs) (spanOf_setAttributes ..) ?_ e
      intro p hp
      rw [h.tree.previousElement?_eq] at hp
      exact hother p fun heq => hmem (heq ▸ hd.previousElement?_mem hp hfront)
    refine ⟨h.tree.trans (sameTree_setAttributes he attrs), ?_, ?_, ?_⟩
    · intro i
      rw [spanOf_setAttributes, h.span]
    · intro i hi
      rw [List.mem_append, List.mem_singleton, not_or] at hi
      rw [hother i hi.2, h.others i hi.1]
    · intro i hi e' he'
      rcases List.mem_append.mp hi with hi | hi
      · obtain ⟨attrs', hattrs', hnow⟩ := h.adapted i hi e' he'
        obtain ⟨front, back, hbefore⟩ := List.append_of_mem hi
        have hfront : d.preorder = front ++ i :: (back ++ id :: after) := by
          rw [hsplit, hbefore]
          simp
        rw [hsite i front _ hfront fun hmem => hid (by rw [hbefore]; simp [hmem]),
          hother i fun heq => hid (heq ▸ hi)]
        exact ⟨attrs', hattrs', hnow⟩
      · rw [List.mem_singleton] at hi
        subst hi
        have heq : e' = e := by
          rw [h.others i hid, he'] at he
          exact Option.some.inj he
        subst heq
        rw [hsite i before after hsplit hid, element?_setAttributes he, if_pos rfl]
        exact ⟨attrs, hattrs, rfl⟩

end AdaptedOn

/-! ### A whole pass -/

/-- How a pass ends: every node has been visited, or one of them failed. -/
theorem adaptEach_cases (hd : Linked d) :
    ∀ {after before : List Nat} {d₁ : Document}, d.preorder = before ++ after →
      AdaptedOn adapter setting before d d₁ →
      ((d₁.adaptEach adapter setting after).error = none ∧
        AdaptedOn adapter setting d.preorder d (d₁.adaptEach adapter setting after).document) ∨
      ∃ front id back e error, d.preorder = front ++ id :: back ∧
        (d₁.adaptEach adapter setting after).error = some error ∧
        AdaptedOn adapter setting front d (d₁.adaptEach adapter setting after).document ∧
        d.element? id = some e ∧
        adapter setting ((d₁.adaptEach adapter setting after).document.siteOf id e) e.attrs
          = .error error := by
  intro after
  induction after with
  | nil =>
      intro before d₁ hsplit h
      rw [List.append_nil] at hsplit
      rw [hsplit]
      exact Or.inl ⟨rfl, h⟩
  | cons id after ih =>
      intro before d₁ hsplit h
      unfold adaptEach
      cases hstep : d₁.adaptAt adapter setting id with
      | ok d₂ => exact ih (by rw [hsplit]; simp) (h.step hd hsplit hstep)
      | error error =>
          obtain ⟨e, he, herror⟩ := adaptAt_eq_error hstep
          have hnodup := hd.nodup_preorder
          rw [hsplit] at hnodup
          rw [h.others id fun hmem => List.disjoint_of_nodup_append hnodup hmem (by simp)] at he
          exact Or.inr ⟨before, id, after, e, error, hsplit, rfl, h, he, herror⟩

theorem adaptAll_cases (hd : Linked d) (adapter : Adapter) (setting : Setting) :
    ((d.adaptAll adapter setting).error = none ∧
      AdaptedOn adapter setting d.preorder d (d.adaptAll adapter setting).document) ∨
    ∃ front id back e error, d.preorder = front ++ id :: back ∧
      (d.adaptAll adapter setting).error = some error ∧
      AdaptedOn adapter setting front d (d.adaptAll adapter setting).document ∧
      d.element? id = some e ∧
      adapter setting ((d.adaptAll adapter setting).document.siteOf id e) e.attrs = .error error :=
  adaptEach_cases hd rfl (.nil adapter setting d)

theorem lt_size_of_element? (he : d.element? id = some e) : id < d.size := by
  rw [lt_size_iff]
  rw [element?_eq] at he
  obtain ⟨s, hs, -⟩ := Option.bind_eq_some_iff.mp he
  rw [hs]
  rfl

/-- What holds of all elements of a tree that is parsed can be found out by looking at them. -/
theorem forall_element_of_parse {source : String} {P : Element → Prop}
    (h : ∀ d ∈ (parse source).toOption, ∀ id < d.size, ∀ e ∈ d.element? id, P e) :
    ∀ d, parse source = .ok d → ∀ id e, d.element? id = some e → P e := by
  intro d hparse id e he
  exact h d (by rw [hparse]; rfl) id (lt_size_of_element? he) e he

theorem parse_of_mem_toOption {source : String} (h : d ∈ (parse source).toOption) :
    parse source = .ok d := by
  cases hparse : parse source with
  | error error =>
      rw [hparse] at h
      cases h
  | ok d' =>
      rw [hparse] at h
      cases h
      rfl

/-- An element stands in the preorder. -/
theorem mem_preorder_of_element? (hd : Linked d) (he : d.element? id = some e) :
    id ∈ d.preorder := hd.mem_preorder (lt_size_of_element? he)

end Document

/-! ### All passes on one element -/

theorem Pass.mem_standard (pass : Pass) : pass ∈ standard := by
  cases pass <;> decide

/-- The attributes of one element after the adapters of the passes, one after the other.  What an
adapter sees of the tree is left open, but for the tag. -/
inductive AdaptedBy (setting : Setting) (tag : String) : List Pass → Attributes → Attributes → Prop
  | nil (attrs : Attributes) : AdaptedBy setting tag [] attrs attrs
  | cons {pass : Pass} {passes : List Pass} {attrs attrs₁ attrs' : Attributes} (site : Site)
      (htag : site.tag = tag) (h : pass.adapter setting site attrs = .ok attrs₁)
      (hrest : AdaptedBy setting tag passes attrs₁ attrs') :
      AdaptedBy setting tag (pass :: passes) attrs attrs'

/-- What every adapter keeps, all of them together keep. -/
theorem AdaptedBy.keeps {setting : Setting} {tag : String} {P : Attributes → Prop}
    {passes : List Pass} {attrs attrs' : Attributes} (h : AdaptedBy setting tag passes attrs attrs')
    (hpass : ∀ (pass : Pass) (site : Site) (attrs attrs' : Attributes), P attrs →
      pass.adapter setting site attrs = .ok attrs' → P attrs') (hattrs : P attrs) : P attrs' := by
  induction h with
  | nil => exact hattrs
  | cons site htag hstep hrest ih => exact ih (hpass _ site _ _ hattrs hstep)

namespace Pipeline

variable {setting : Setting} {d d' : Document}

/-- Passes that succeed adapt every element by all adapters and change nothing else. -/
theorem run_eq_ok {passes : Pipeline} :
    ∀ {d : Document}, d.Linked → passes.run setting d = ⟨d', none⟩ →
      d.SameTree d' ∧ ∀ id e, d.element? id = some e →
        ∃ attrs, AdaptedBy setting e.tag passes e.attrs attrs ∧
          d'.element? id = some { e with attrs } := by
  induction passes with
  | nil =>
      intro d _ h
      cases h
      exact ⟨.refl _, fun id e he => ⟨e.attrs, .nil e.attrs, he⟩⟩
  | cons pass passes ih =>
      intro d hd h
      unfold run Pass.run at h
      have hcases := Document.adaptAll_cases hd pass.adapter setting
      cases hprogress : d.adaptAll pass.adapter setting with
      | mk d₁ error =>
          rw [hprogress] at h hcases
          rcases hcases with ⟨hnone, hall⟩ | ⟨front, id, back, e, error', -, hsome, -⟩
          · cases hnone
            obtain ⟨htree, helements⟩ := ih (hd.of_sameTree hall.tree) h
            refine ⟨hall.tree.trans htree, fun id e he => ?_⟩
            obtain ⟨attrs₁, hadapted, he₁⟩ :=
              hall.adapted id (Document.mem_preorder_of_element? hd he) e he
            obtain ⟨attrs, hrest, he'⟩ := helements id _ he₁
            exact ⟨attrs, .cons _ rfl hadapted hrest, he'⟩
          · cases hsome
            cases h

end Pipeline

end TemplateCompiler
