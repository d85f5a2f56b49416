/-
A pass that fails leaves its element as it was.

The programs that change the tree in place do to an element what the adapters answer, and an
adapter that fails answers with nothing.  What is to be shown is that no program has changed
anything by the time it fails.  The parts that come after the last check never fail: each gives
the element other attributes, whatever the rest of the tree is, and such parts follow each other
like operations on attributes do (`Gives`).

For a whole pass the traversal is cut at the element that failed.  No node is visited twice, so
from that one on nothing has been changed yet.
-/
import TemplateCompiler.InPlace
import TemplateCompiler.Proofs.Stability

namespace TemplateCompiler

namespace Document

variable {d : Document} {id : Nat} {e : Element}

/-! ### Attributes that are set twice -/

theorem setKind_setKind (d : Document) (id : Nat) (kind kind' : NodeKind) :
    (d.setKind id kind).setKind id kind' = d.setKind id kind' := by
  obtain ⟨nodes, roots, younger⟩ := d
  have hnodes : (nodes.modify id fun n => { n with kind }).modify id (fun n => { n with kind := kind' })
      = nodes.modify id fun n => { n with kind := kind' } := by
    refine Array.ext_getElem? fun i => ?_
    rw [Array.getElem?_modify, Array.getElem?_modify, Array.getElem?_modify]
    by_cases hi : id = i
    · rw [if_pos hi, if_pos hi, if_pos hi, Option.map_map]
      rfl
    · rw [if_neg hi, if_neg hi, if_neg hi]
  unfold setKind modify
  simp only [hnodes]

theorem setAttributes_setAttributes (he : d.element? id = some e) (attrs attrs' : Attributes) :
    (d.setAttributes id attrs).setAttributes id attrs' = d.setAttributes id attrs' := by
  have he' : (d.setAttributes id attrs).element? id = some { e with attrs } := by
    rw [element?_setAttributes he, if_pos rfl]
  rw [setAttributes_eq he', setAttributes_eq he, setAttributes_eq he, setKind_setKind]

/-- Other attributes for an element leave every other node alone. -/
theorem node?_setAttributes {i : Nat} (hi : i ≠ id) (attrs : Attributes) :
    (d.setAttributes id attrs).node? i = d.node? i := by
  unfold setAttributes
  split
  · unfold setKind
    rw [node?_modify, if_neg (Ne.symm hi)]
  · rfl

end Document

namespace InPlace

variable {setting : Setting} {d : Document} {id : Nat} {e : Element} {attrs attrs' : Attributes}

/-! ### Parts that do not fail -/

/-- On every tree in which the element is `e`, the program gives it these attributes. -/
def Gives (p : InPlace Unit) (id : Nat) (e : Element) (attrs : Attributes) : Prop :=
  ∀ d : Document, d.element? id = some e → p d = .ok () (d.setAttributes id attrs)

theorem run_element? (k : Option Element → InPlace Unit) :
    (element? id >>= k) d = k (d.element? id) d := rfl

theorem run_spanOf (k : Span → InPlace Unit) : (spanOf id >>= k) d = k (d.spanOf id) d := rfl

theorem run_previous? (k : Option Attributes → InPlace Unit) :
    (previous? id >>= k) d = k ((d.siteOf id e).previous ()) d := rfl

theorem gives_pure : Gives (pure ()) id e e.attrs := by
  intro d he
  rw [Document.setAttributes_self he]
  rfl

theorem gives_change (f : Attributes → Attributes) : Gives (change id f) id e (f e.attrs) := by
  intro d he
  unfold change
  rw [he]

theorem Gives.look {k : Option Element → InPlace Unit} (h : Gives (k (some e)) id e attrs) :
    Gives (element? id >>= k) id e attrs := by
  intro d he
  rw [run_element?, he]
  exact h d he

theorem Gives.seq {p q : InPlace Unit} (hp : Gives p id e attrs)
    (hq : Gives q id { e with attrs } attrs') : Gives (do p; q) id e attrs' := by
  intro d he
  have hrun : (do p; q : InPlace Unit) d = q (d.setAttributes id attrs) := by
    show EStateM.bind p (fun _ => q) d = _
    unfold EStateM.bind
    rw [hp d he]
  have he' : (d.setAttributes id attrs).element? id = some { e with attrs } := by
    rw [Document.element?_setAttributes he, if_pos rfl]
  rw [hrun, hq _ he', Document.setAttributes_setAttributes he]

theorem gives_change_change (f g : Attributes → Attributes) :
    Gives (do change id f; change id g) id e (g (f e.attrs)) :=
  (gives_change f).seq (gives_change g)

/-- One change for each directive is one change by all of them. -/
theorem gives_forM (f : Attributes → Directive → Attributes) (ds : List Directive) :
    Gives (ds.forM fun d => change id fun attrs => f attrs d) id e (ds.foldl f e.attrs) := by
  induction ds generalizing e with
  | nil => exact gives_pure
  | cons d ds ih => exact (gives_change fun attrs => f attrs d).seq ih

theorem gives_properties (form : BindingForm) :
    Gives (properties form id (e.attrs.directivesOf .bind)) id e (Adapter.properties form e.attrs) := by
  cases form with
  | keep => exact gives_pure
  | plain encoding => exact gives_forM (Adapter.plainBinding encoding) _

theorem gives_intoSlot (slot : ShowSlot) (name text : String) :
    Gives (intoSlot slot id e name text) id e (Adapter.intoSlot slot name text e.attrs) := by
  unfold intoSlot Adapter.intoSlot
  cases slot with
  | binding slotName =>
      dsimp only
      split
      · exact gives_change_change _ _
      · rename_i hslot
        rw [Attributes.rename_eq_none fun hmem => hslot (Attributes.contains_iff.mpr hmem)]
        exact gives_change _
  | «static» slotName =>
      dsimp only
      split
      · exact gives_change _
      · exact gives_change_change _ _

theorem gives_showing (slot : ShowSlot) :
    Gives (showing slot id) id e (Adapter.showing slot e.attrs) := by
  refine Gives.look ?_
  unfold Adapter.showing
  dsimp only
  cases e.attrs.directive? .showIf with
  | none => exact gives_pure
  | some d =>
      dsimp only
      split
      · exact gives_change _
      · exact gives_intoSlot slot d.name _

theorem gives_styleBindings :
    Gives (styleBindings setting id (e.attrs.directivesOf .styleBinding)) id e
      (Adapter.styleBindings setting.dialect.styleMode setting.style e.attrs) := by
  unfold styleBindings Adapter.styleBindings
  cases setting.dialect.styleMode with
  | drop => exact gives_forM (fun attrs d => attrs.erase d.name) _
  | proxy | proxyWithConfig => exact gives_change _

theorem gives_staticStyle :
    Gives (staticStyle setting id) id e (Adapter.staticStyle setting e.attrs) := by
  refine Gives.look ?_
  unfold Adapter.staticStyle
  dsimp only
  cases e.attrs.get? "style" with
  | none => exact gives_pure
  | some style =>
      dsimp only
      split
      · exact gives_pure
      · exact gives_change _

/-! ### Programs and adapters -/

/-- What becomes of a tree if it is replaced at once or not at all. -/
def outcome (d : Document) :
    Except CompileError Document → EStateM.Result CompileError Document Unit
  | .ok d' => .ok () d'
  | .error error => .error error d

/-- A check and then a change. -/
theorem checked_eq (c : Bool) (he : d.element? id = some e) (f : Attributes → Attributes)
    (error : CompileError) :
    (do if !c then throw error
        change id f : InPlace Unit) d
      = outcome d ((if c then Except.ok (f e.attrs) else Except.error error).map (d.setAttributes id)) := by
  cases c with
  | false => rfl
  | true => exact gives_change f d he

theorem reference_eq (he : d.element? id = some e) :
    reference setting id d = outcome d
      ((Adapter.reference setting (d.siteOf id e) e.attrs).map (d.setAttributes id)) := by
  unfold reference Adapter.reference
  rw [run_element?, he]
  dsimp only
  cases e.attrs.get? "ref" with
  | none => exact gives_pure d he
  | some value =>
      dsimp only
      cases setting.dialect.reference with
      | drop => exact gives_change _ d he
      | identity idName markerClass =>
          dsimp only
          split
          · exact gives_change _ d he
          · exact gives_change_change _ _ d he

theorem model_eq (he : d.element? id = some e) :
    model setting id d = outcome d
      ((Adapter.model setting (d.siteOf id e) e.attrs).map (d.setAttributes id)) := by
  unfold model Adapter.model
  rw [run_element?, he]
  dsimp only
  cases e.attrs.directive? .model with
  | none => exact gives_pure d he
  | some directive =>
      dsimp only
      split
      · exact gives_change _ d he
      · exact gives_change _ d he

theorem classes_eq (he : d.element? id = some e) :
    classes setting id d = outcome d
      ((Adapter.classes setting (d.siteOf id e) e.attrs).map (d.setAttributes id)) := by
  unfold classes Adapter.classes
  rw [run_element?, he]
  dsimp only [Document.siteOf]
  cases setting.dialect.classMode with
  | «static» | fold => exact gives_change _ d he
  | proxy => exact gives_change_change _ _ d he

theorem styles_eq (he : d.element? id = some e) :
    styles setting id d = outcome d
      ((Adapter.styles setting (d.siteOf id e) e.attrs).map (d.setAttributes id)) := by
  unfold styles Adapter.styles
  rw [run_element?, he]
  exact gives_styleBindings.seq gives_staticStyle d he

/-- The spellings are checked before anything is changed. -/
theorem binding_eq (he : d.element? id = some e) :
    binding setting id d = outcome d
      ((Adapter.binding setting (d.siteOf id e) e.attrs).map (d.setAttributes id)) := by
  unfold binding Adapter.binding
  rw [run_element?, he]
  dsimp only
  rw [run_spanOf]
  cases e.attrs.doubleBinding? with
  | some spellings => rfl
  | none => exact (gives_properties _).seq (gives_showing _) d he

/-- The element before is looked up before anything is changed. -/
theorem conditional_eq (he : d.element? id = some e) :
    conditional setting id d = outcome d
      ((Adapter.conditional setting (d.siteOf id e) e.attrs).map (d.setAttributes id)) := by
  unfold conditional Adapter.conditional
  rw [run_element?, he]
  dsimp only
  rw [run_spanOf]
  cases e.attrs.conditionals with
  | nil => exact gives_pure d he
  | cons first others =>
      cases others with
      | cons second others => rfl
      | nil =>
          dsimp only
          by_cases hif : first.kind = .ifCond
          · rw [if_neg (not_not.mpr hif), if_pos (Or.inl hif)]
            exact gives_change _ d he
          · rw [if_pos hif, run_previous? (e := e)]
            simp only [hif, false_or]
            exact checked_eq _ he _ _

theorem iteration_eq (he : d.element? id = some e) :
    iteration setting id d = outcome d
      ((Adapter.iteration setting (d.siteOf id e) e.attrs).map (d.setAttributes id)) := by
  unfold iteration Adapter.iteration
  rw [run_element?, he]
  dsimp only
  rw [run_spanOf]
  cases e.attrs.directive? .forEach with
  | none => exact gives_pure d he
  | some directive =>
      dsimp only
      cases Iteration.parse? directive.expression with
      | none => rfl
      | some it =>
          dsimp only
          cases setting.dialect.iteration with
          | keep => exact gives_pure d he
          | split itemName indexName sourceName encoding =>
              exact checked_eq _ he _ _

end InPlace

/-! ### Passes -/

namespace Document

variable {adapter : Adapter} {setting : Setting} {d d' : Document} {id : Nat} {error : CompileError}

theorem sameTree_of_adaptAt (h : d.adaptAt adapter setting id = .ok d') : SameTree d d' := by
  rcases adaptAt_eq_ok h with ⟨-, rfl⟩ | ⟨e, attrs, he, -, rfl⟩
  · exact .refl _
  · exact sameTree_setAttributes he attrs

/-- A node that is adapted gets other attributes, or none if it is no element. -/
theorem adaptAt_eq_setAttributes (h : d.adaptAt adapter setting id = .ok d') :
    ∃ attrs, d' = d.setAttributes id attrs := by
  rcases adaptAt_eq_ok h with ⟨hnone, rfl⟩ | ⟨e, attrs, -, -, rfl⟩
  · refine ⟨.empty, ?_⟩
    unfold setAttributes
    rw [hnone]
  · exact ⟨attrs, rfl⟩

/-- Nodes that are no elements may be left out. -/
theorem adaptEach_filter (isElement : Nat → Bool) (ids : List Nat) :
    ∀ d : Document, d.isElement = isElement →
      d.adaptEach adapter setting (ids.filter isElement) = d.adaptEach adapter setting ids := by
  induction ids with
  | nil => exact fun d _ => rfl
  | cons id ids ih =>
      intro d hd
      cases hid : isElement id with
      | true =>
          rw [List.filter_cons_of_pos hid]
          unfold adaptEach
          cases hstep : d.adaptAt adapter setting id with
          | error error => rfl
          | ok d₁ => exact ih d₁ ((funext (sameTree_of_adaptAt hstep).isElement_eq).trans hd)
      | false =>
          have hnone : d.element? id = none := by
            rw [← Option.not_isSome_iff_eq_none]
            exact fun hsome => Bool.false_ne_true (hid.symm.trans (hd ▸ hsome))
          have hstep : d.adaptAt adapter setting id = .ok d := by
            unfold adaptAt
            rw [hnone]
          rw [List.filter_cons_of_neg (by simp [hid]), ih d hd]
          conv_rhs => unfold adaptEach
          rw [hstep]

/-- What a pass has not come to is as it was. -/
theorem node?_adaptEach {i : Nat} {ids : List Nat} (hi : i ∉ ids) :
    (d.adaptEach adapter setting ids).document.node? i = d.node? i := by
  induction ids generalizing d with
  | nil => rfl
  | cons id ids ih =>
      rw [List.mem_cons, not_or] at hi
      unfold adaptEach
      cases hstep : d.adaptAt adapter setting id with
      | error error => rfl
      | ok d₁ =>
          refine (ih hi.2).trans ?_
          obtain ⟨attrs, rfl⟩ := adaptAt_eq_setAttributes hstep
          exact node?_setAttributes hi.1 attrs

/-- A pass that fails fails at one element, and has adapted those before it. -/
theorem adaptEach_eq_error {ids : List Nat} (h : d.adaptEach adapter setting ids = ⟨d', some error⟩) :
    ∃ front id back, ids = front ++ id :: back ∧ d.adaptEach adapter setting front = ⟨d', none⟩ ∧
      d'.adaptAt adapter setting id = .error error := by
  induction ids generalizing d with
  | nil => cases h
  | cons id ids ih =>
      unfold adaptEach at h
      cases hstep : d.adaptAt adapter setting id with
      | error error' =>
          rw [hstep] at h
          cases h
          exact ⟨[], id, ids, rfl, rfl, hstep⟩
      | ok d₁ =>
          rw [hstep] at h
          obtain ⟨front, id', back, rfl, hfront, herror⟩ := ih h
          refine ⟨id :: front, id', back, rfl, ?_, herror⟩
          unfold adaptEach
          rw [hstep]
          exact hfront

end Document

/-- What a program leaves that has come as far as this. -/
def Progress.result : Progress → EStateM.Result CompileError Document Unit
  | ⟨d, none⟩ => .ok () d
  | ⟨d, some error⟩ => .error error d

theorem Progress.result_of_error {progress : Progress} {error : CompileError}
    (h : progress.error = some error) : progress.result = .error error progress.document := by
  obtain ⟨d, error'⟩ := progress
  cases h
  rfl

theorem Progress.eq_of_result {progress : Progress} {error : CompileError} {d : Document}
    (h : progress.result = .error error d) : progress = ⟨d, some error⟩ := by
  obtain ⟨document, error'⟩ := progress
  cases error' with
  | none => cases h
  | some error' =>
      cases h
      rfl

namespace InPlace

/-- Programs that do to each node what an adapter does, one after the other. -/
theorem forM_eq {adapter : Adapter} {setting : Setting} {f : Nat → InPlace Unit}
    (hf : ∀ id d, f id d = outcome d (d.adaptAt adapter setting id)) (ids : List Nat) (d : Document) :
    ids.forM f d = (d.adaptEach adapter setting ids).result := by
  induction ids generalizing d with
  | nil => rfl
  | cons id ids ih =>
      show EStateM.bind (f id) (fun _ => ids.forM f) d = _
      unfold EStateM.bind Document.adaptEach
      rw [hf]
      cases d.adaptAt adapter setting id with
      | error error => rfl
      | ok d₁ => exact ih d₁

end InPlace

namespace Pass

open InPlace

/-- A pass in place does to a node what its adapter does. -/
theorem inPlace_eq (pass : Pass) (setting : Setting) (id : Nat) (d : Document) :
    pass.inPlace setting id d = outcome d (d.adaptAt pass.adapter setting id) := by
  unfold Document.adaptAt
  cases he : d.element? id with
  | none =>
      have hrun : ∀ k : Option Element → InPlace Unit, k none = pure () →
          (element? id >>= k) d = .ok () d := by
        intro k hk
        rw [run_element?, he, hk]
        rfl
      cases pass <;> exact hrun _ rfl
  | some e =>
      cases pass with
      | ref => exact reference_eq he
      | model => exact model_eq he
      | binding => exact binding_eq he
      | conditional => exact conditional_eq he
      | iteration => exact iteration_eq he
      | classes => exact classes_eq he
      | styles => exact styles_eq he

/-- A pass in place does to a tree what the pass does. -/
theorem runInPlace_eq (pass : Pass) (setting : Setting) (d : Document) :
    pass.runInPlace setting d = (pass.run setting d).result := by
  refine forM_eq (f := fun id => do if (← element? id).isSome then pass.inPlace setting id)
    (fun id d => ?_) d.preorder d
  rw [← pass.inPlace_eq setting id d, run_element?]
  cases he : d.element? id with
  | some e => rfl
  | none =>
      rw [inPlace_eq]
      unfold Document.adaptAt
      rw [he]
      rfl

/-- A pass gives an element other attributes or fails, and where it fails it changes nothing.  If
it fails on a tree, then at the first element at which it does so: all before it have been adapted,
and this one and all after it are as they were.  The programs that change the tree in place are the
passes of the pipeline. -/
theorem inPlace_atomic (pass : Pass) (setting : Setting) (d : Document) :
    (∀ id, (∃ attrs, pass.inPlace setting id d = .ok () (d.setAttributes id attrs) ∧
        ∀ i, i ≠ id → (d.setAttributes id attrs).node? i = d.node? i) ∨
      ∃ error, pass.inPlace setting id d = .error error d) ∧
    pass.runInPlace setting d = (pass.run setting d).result ∧
    (d.Built → ∀ error d', pass.runInPlace setting d = .error error d' →
      ∃ front id back, d.preorder.filter d.isElement = front ++ id :: back ∧
        front.forM (pass.inPlace setting) d = .ok () d' ∧
        pass.inPlace setting id d' = .error error d' ∧
        ∀ i ∈ id :: back, d'.node? i = d.node? i) := by
  refine ⟨fun id => ?_, pass.runInPlace_eq setting d, fun hd error d' h => ?_⟩
  · rw [inPlace_eq]
    cases hstep : d.adaptAt pass.adapter setting id with
    | error error => exact .inr ⟨error, rfl⟩
    | ok d' =>
        obtain ⟨attrs, rfl⟩ := Document.adaptAt_eq_setAttributes hstep
        exact .inl ⟨attrs, rfl, fun i hi => Document.node?_setAttributes hi attrs⟩
  · rw [runInPlace_eq] at h
    have hrun := Progress.eq_of_result h
    unfold run Document.adaptAll at hrun
    rw [← Document.adaptEach_filter d.isElement d.preorder d rfl] at hrun
    obtain ⟨front, id, back, hsplit, hfront, herror⟩ := Document.adaptEach_eq_error hrun
    refine ⟨front, id, back, hsplit, ?_, ?_, fun i hi => ?_⟩
    · rw [forM_eq (pass.inPlace_eq setting), hfront]
      rfl
    · rw [inPlace_eq, herror]
      rfl
    · have hnodup := hd.linked.nodup_preorder.filter d.isElement
      rw [hsplit] at hnodup
      have hnode : (d.adaptEach pass.adapter setting front).document.node? i = d.node? i :=
        Document.node?_adaptEach fun hmem => List.disjoint_of_nodup_append hnodup hmem hi
      rwa [hfront] at hnode

/-- A chain that is broken at its third element, with another chain after it. -/
theorem inPlace_atomic_chain :
    ∃ d ∈ (Document.parse "<i v-if='a'></i><b v-else></b><p v-else></p><u v-if='c'></u>").toOption,
      ∃ error d', Pass.conditional.runInPlace (.forTarget .wx none) d = .error error d' ∧
        d'.element? 0 ≠ d.element? 0 ∧ d'.element? 1 ≠ d.element? 1 ∧
        ∃ front id back, d.preorder.filter d.isElement = front ++ id :: back ∧
          front.forM (Pass.conditional.inPlace (.forTarget .wx none)) d = .ok () d' ∧
          Pass.conditional.inPlace (.forTarget .wx none) id d' = .error error d' ∧
          ∀ i ∈ id :: back, d'.node? i = d.node? i := by
  have hrun : ∃ d ∈
      (Document.parse "<i v-if='a'></i><b v-else></b><p v-else></p><u v-if='c'></u>").toOption,
      (Pass.conditional.run (.forTarget .wx none) d).error.isSome = true ∧
      (Pass.conditional.run (.forTarget .wx none) d).document.element? 0 ≠ d.element? 0 ∧
      (Pass.conditional.run (.forTarget .wx none) d).document.element? 1 ≠ d.element? 1 := by
    decide +kernel
  obtain ⟨d, hd, herror, hfirst, hsecond⟩ := hrun
  have hbuilt := Document.built_of_parse (Document.parse_of_mem_toOption hd)
  obtain ⟨-, heq, hatomic⟩ := inPlace_atomic .conditional (.forTarget .wx none) d
  obtain ⟨error, hsome⟩ := Option.isSome_iff_exists.mp herror
  have hresult := heq.trans (Progress.result_of_error hsome)
  exact ⟨d, hd, error, _, hresult, hfirst, hsecond, hatomic hbuilt error _ hresult⟩

end Pass

end TemplateCompiler
