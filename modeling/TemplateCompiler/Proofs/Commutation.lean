/-
Conditions and loops are adapted before or after anything but bindings.

The pass over conditions and the pass over loops do little to an element: having looked at the
directives of their kinds they fail, or leave the element alone, or put other attributes in the
place of one of these directives.  So what they are going to do is a plan, which another pass
does not change as long as it leaves those directives alone; and the other pass does not notice
the rewriting that has been planned, as long as it is not concerned with the names in it.

For whole trees it is enough that two single steps can be exchanged, one of each pass.  On
different elements they touch different attributes; and the one thing that is read off another
element is whether the element before can be continued, which only the pass over conditions
decides.
-/
import TemplateCompiler.Proofs.Atomicity
import TemplateCompiler.Proofs.Confinement
import TemplateCompiler.Proofs.Sparing

namespace TemplateCompiler

/-! ### Plans -/

/-- What a pass is going to do to an element. -/
inductive Plan
  | fail (error : CompileError)
  | keep
  | rewrite (r : Rewriting)

/-- The attributes after what was planned has been done. -/
def Plan.carryOut : Plan → Attributes → Except CompileError Attributes
  | fail error, _ => .error error
  | keep, attrs => .ok attrs
  | rewrite r, attrs => .ok (attrs.replaceD r.name r.new)

namespace Adapter

/-- What is going to be done about the condition of an element. -/
def conditionalPlan (σ : Setting) (site : Site) (attrs : Attributes) : Plan :=
  let names := σ.dialect.conditional
  match attrs.conditionals with
  | [] => .keep
  | first :: second :: _ => .fail (.conflict site.tag first.name second.name site.span)
  | [d] =>
    if d.kind = .ifCond ∨ (site.previous ()).any names.continuedBy then
      .rewrite ⟨d.name, [(names.nameOf d.kind, d.value.map names.encoding.encode)]⟩
    else .fail (.brokenChain site.tag d.name site.span)

/-- What is going to be done about the loop of an element. -/
def iterationPlan (σ : Setting) (site : Site) (attrs : Attributes) : Plan :=
  match attrs.directive? .forEach with
  | none => .keep
  | some d =>
    match Iteration.parse? d.expression with
    | none => .fail (.badIteration site.tag d.expression site.span)
    | some it =>
      match σ.dialect.iteration with
      | .keep => .keep
      | .split itemName indexName sourceName encoding =>
        if it.isSplittable then
          .rewrite ⟨d.name, it.attributes itemName indexName sourceName encoding⟩
        else .fail (.badIteration site.tag d.expression site.span)

theorem conditional_eq_carryOut (σ : Setting) (site : Site) (attrs : Attributes) :
    conditional σ site attrs = (conditionalPlan σ site attrs).carryOut attrs := by
  unfold conditional conditionalPlan
  dsimp only
  cases attrs.conditionals with
  | nil => rfl
  | cons first others =>
      cases others with
      | cons second others => rfl
      | nil =>
          dsimp only
          split <;> rfl

theorem iteration_eq_carryOut (σ : Setting) (site : Site) (attrs : Attributes) :
    iteration σ site attrs = (iterationPlan σ site attrs).carryOut attrs := by
  unfold iteration iterationPlan
  cases attrs.directive? .forEach with
  | none => rfl
  | some d =>
      dsimp only
      cases Iteration.parse? d.expression with
      | none => rfl
      | some it =>
          dsimp only
          cases σ.dialect.iteration with
          | keep => rfl
          | split itemName indexName sourceName encoding =>
              dsimp only
              split <;> rfl

end Adapter

/-- The pass does what is planned, the plan depends only on what the pass is concerned with, and
so does what is rewritten. -/
structure Pass.Plans (pass : Pass) (σ : Setting) (plan : Site → Attributes → Plan) : Prop where
  adapter_eq : ∀ site attrs, pass.adapter σ site attrs = (plan site attrs).carryOut attrs
  congr : ∀ site attrs attrs', attrs.AgreeOn (pass.concerns σ.dialect) attrs' →
    plan site attrs' = plan site attrs
  name : ∀ site attrs r, plan site attrs = .rewrite r → r.name ∈ attrs.names
  nodup : ∀ site attrs r, plan site attrs = .rewrite r → (r.new.map Prod.fst).Nodup
  concerns : ∀ site attrs r, plan site attrs = .rewrite r →
    ∀ n, ¬ r.Spares n → pass.concerns σ.dialect n = true

theorem Rewriting.not_spares_iff {r : Rewriting} {n : String} :
    ¬ r.Spares n ↔ n = r.name ∨ n ∈ r.new.map Prod.fst := by
  unfold Spares
  rw [not_and_or, not_not, not_not]

namespace Pass

theorem plans_conditional (σ : Setting) : conditional.Plans σ (Adapter.conditionalPlan σ) := by
  -- Whatever is rewritten is the one condition of the element.
  have hone : ∀ {site attrs r}, Adapter.conditionalPlan σ site attrs = .rewrite r →
      ∃ d ∈ attrs.conditionals, r = ⟨d.name,
        [(σ.dialect.conditional.nameOf d.kind, d.value.map σ.dialect.conditional.encoding.encode)]⟩ := by
    intro site attrs r h
    unfold Adapter.conditionalPlan at h
    dsimp only at h
    split at h
    · cases h
    · cases h
    · rename_i d hd
      split at h
      · cases h
        exact ⟨d, by rw [hd]; exact List.mem_singleton_self d, rfl⟩
      · cases h
  refine
    { adapter_eq := fun site attrs => Adapter.conditional_eq_carryOut σ site attrs
      congr := fun site attrs attrs' h => ?_
      name := fun site attrs r h => ?_
      nodup := fun site attrs r h => ?_
      concerns := fun site attrs r h n hn => ?_ }
  · have hsame := h.conditionals_eq fun _ kind hk hcond =>
      concerns_of_kind hk (mem_removes_of_isConditional hcond)
    unfold Adapter.conditionalPlan
    rw [hsame]
  · obtain ⟨d, hd, rfl⟩ := hone h
    exact (Attributes.mem_of_mem_directives (Attributes.mem_conditionals.mp hd).1).2.1
  · obtain ⟨d, -, rfl⟩ := hone h
    exact List.nodup_singleton _
  · obtain ⟨d, hd, rfl⟩ := hone h
    obtain ⟨hmem, hcond⟩ := Attributes.mem_conditionals.mp hd
    rcases Rewriting.not_spares_iff.mp hn with rfl | hn
    · exact concerns_of_kind (Attributes.mem_of_mem_directives hmem).2.2.2
        (mem_removes_of_isConditional hcond)
    · rw [List.map_singleton, List.mem_singleton] at hn
      exact concerns_of_listed (hn ▸ ConditionalNames.nameOf_mem σ.dialect.conditional d.kind)

theorem plans_iteration {σ : Setting} (hδ : σ.dialect.Proper) :
    iteration.Plans σ (Adapter.iterationPlan σ) := by
  have hone : ∀ {site attrs r}, Adapter.iterationPlan σ site attrs = .rewrite r →
      ∃ d, attrs.directive? .forEach = some d ∧ r.name = d.name ∧
        r.new.map Prod.fst = σ.dialect.iteration.names := by
    intro site attrs r h
    unfold Adapter.iterationPlan at h
    split at h
    · cases h
    · rename_i d hd
      split at h
      · cases h
      · split at h
        · cases h
        · rename_i hform
          split at h
          · cases h
            exact ⟨d, hd, rfl, by rw [hform]; rfl⟩
          · cases h
  refine
    { adapter_eq := fun site attrs => Adapter.iteration_eq_carryOut σ site attrs
      congr := fun site attrs attrs' h => ?_
      name := fun site attrs r h => ?_
      nodup := fun site attrs r h => ?_
      concerns := fun site attrs r h n hn => ?_ }
  · have hremoves : DirectiveKind.forEach ∈ iteration.removes := by decide
    have hsame := h.directive?_eq fun _ hk => concerns_of_kind hk hremoves
    unfold Adapter.iterationPlan
    rw [hsame]
  · obtain ⟨d, hd, hname, -⟩ := hone h
    exact hname ▸ (Attributes.name_of_directive? hd).1
  · obtain ⟨d, -, -, hnames⟩ := hone h
    exact hnames ▸ hδ.iteration
  · obtain ⟨d, hd, hname, hnames⟩ := hone h
    rcases Rewriting.not_spares_iff.mp hn with rfl | hn
    · exact concerns_of_kind (hname ▸ (Attributes.name_of_directive? hd).2) (by decide)
    · rw [hnames] at hn
      exact concerns_of_listed hn

/-! ### One element -/

/-- Two passes, none of them that over bindings, that are concerned with different attributes. -/
structure Apart (δ : Dialect) (first second : Pass) : Prop where
  first_ne : first ≠ .binding
  second_ne : second ≠ .binding
  concerns : ∀ n, first.concerns δ n = true → second.concerns δ n = false

variable {δ : Dialect} {σ : Setting} {first second : Pass} {site site' : Site}
  {attrs attrs' : Attributes}

theorem Apart.symm (h : Apart δ first second) : Apart δ second first where
  first_ne := h.second_ne
  second_ne := h.first_ne
  concerns n hn := by
    rw [← Bool.not_eq_true]
    intro hfirst
    rw [h.concerns n hfirst] at hn
    cases hn

/-- What the one pass is concerned with the other one leaves as it is. -/
theorem Apart.agreeOn (h : Apart σ.dialect first second)
    (hok : first.adapter σ site attrs = .ok attrs') :
    attrs.AgreeOn (second.concerns σ.dialect) attrs' :=
  first.agreeOn hok fun n hn => h.concerns n (hn.concerns h.first_ne)

/-- Both orders succeed, with the same attributes, or none of the two does. -/
theorem Apart.adapter_comm {plan : Site → Attributes → Plan} (h : Apart σ.dialect first second)
    (hplan : first.Plans σ plan) (hδ : σ.dialect.Proper) (site : Site) (hd : attrs.Distinct) :
    ((first.adapter σ site attrs).toOption.bind fun a => (second.adapter σ site a).toOption)
      = (second.adapter σ site attrs).toOption.bind fun a => (first.adapter σ site a).toOption := by
  have hsecond : ∀ {attrs'}, second.adapter σ site attrs = .ok attrs' →
      plan site attrs' = plan site attrs ∧ attrs'.Distinct := fun hok =>
    ⟨hplan.congr site _ _ (h.symm.agreeOn hok), (second.writesOnly hδ hd hok).distinct⟩
  -- The second pass leaves the plan of the first as it is, so the cases are those of the plan:
  -- one that fails does so in both orders, one that keeps leaves the second pass alone, and one
  -- that rewrites names nothing the second pass looks at.
  rw [hplan.adapter_eq]
  cases hp : plan site attrs with
  | fail error =>
      cases hok : second.adapter σ site attrs with
      | error error' => rfl
      | ok attrs' =>
          show none = (first.adapter σ site attrs').toOption
          rw [hplan.adapter_eq, (hsecond hok).1, hp]
          rfl
  | keep =>
      cases hok : second.adapter σ site attrs with
      | error error' =>
          show (second.adapter σ site attrs).toOption = none
          rw [hok]
          rfl
      | ok attrs' =>
          show (second.adapter σ site attrs).toOption = (first.adapter σ site attrs').toOption
          rw [hplan.adapter_eq, (hsecond hok).1, hp, hok]
          rfl
  | rewrite r =>
      have hr := hplan.nodup site attrs r hp
      have hspared : second.SparedBy σ.dialect r := by
        intro n hn
        by_contra hnot
        rw [h.concerns n (hplan.concerns site attrs r hp n hnot)] at hn
        cases hn
      have hrewritten : (second.adapter σ site (attrs.replaceD r.name r.new)).toOption
          = ((second.adapter σ site attrs).map (Attributes.rewritten r)).toOption := by
        rw [hd.replaceD_eq (hplan.name site attrs r hp) hr,
          second.adapter_rewritten h.second_ne hδ hspared hr site hd]
      refine hrewritten.trans ?_
      cases hok : second.adapter σ site attrs with
      | error error' => rfl
      | ok attrs' =>
          obtain ⟨hsame, hd'⟩ := hsecond hok
          rw [hp] at hsame
          show some (attrs'.rewritten r) = (first.adapter σ site attrs').toOption
          rw [hplan.adapter_eq, hsame]
          exact congrArg some (hd'.replaceD_eq (hplan.name site attrs' r hsame) hr).symm

end Pass

/-! ### One step of each pass -/

/-- What an adapter is told of the place of an element is the same where the tag and the span are,
and where the element before can be continued or not alike, if the adapter asks for that. -/
theorem Pass.adapter_congr (pass : Pass) {σ : Setting} {site site' : Site}
    (htag : site'.tag = site.tag) (hspan : site'.span = site.span)
    (hcontinued : pass = .conditional → (site'.previous ()).any σ.dialect.conditional.continuedBy
      = (site.previous ()).any σ.dialect.conditional.continuedBy) (attrs : Attributes) :
    pass.adapter σ site' attrs = pass.adapter σ site attrs := by
  cases pass with
  | ref | model | styles => rfl
  | binding =>
      show Adapter.binding σ site' attrs = Adapter.binding σ site attrs
      unfold Adapter.binding
      rw [htag, hspan]
  | conditional =>
      show Adapter.conditional σ site' attrs = Adapter.conditional σ site attrs
      unfold Adapter.conditional
      dsimp only
      rw [htag, hspan, hcontinued rfl]
  | iteration =>
      show Adapter.iteration σ site' attrs = Adapter.iteration σ site attrs
      unfold Adapter.iteration
      rw [htag, hspan]
  | classes =>
      show Adapter.classes σ site' attrs = Adapter.classes σ site attrs
      unfold Adapter.classes
      rw [htag]

namespace Document

variable {σ : Setting} {first second : Pass} {d d' : Document} {i j : Nat} {e e' : Element}
  {attrs : Attributes}

/-- The tree after one node has been adapted, if that succeeds. -/
def adapted? (σ : Setting) (pass : Pass) (d : Document) (id : Nat) : Option Document :=
  (d.adaptAt pass.adapter σ id).toOption

theorem adapted?_of_none (hi : d.element? i = none) : d.adapted? σ first i = some d := by
  unfold adapted? adaptAt
  rw [hi]
  rfl

theorem adapted?_of_element? (he : d.element? i = some e) :
    d.adapted? σ first i
      = (first.adapter σ (d.siteOf i e) e.attrs).toOption.map (d.setAttributes i) := by
  unfold adapted? adaptAt
  rw [he]
  dsimp only
  cases first.adapter σ (d.siteOf i e) e.attrs <;> rfl

theorem adaptAt_of_adapted? (h : d.adapted? σ first i = some d') :
    d.adaptAt first.adapter σ i = .ok d' := by
  unfold adapted? at h
  cases hstep : d.adaptAt first.adapter σ i with
  | error error =>
      rw [hstep] at h
      cases h
  | ok d₁ =>
      rw [hstep] at h
      cases h
      rfl

/-- Where the one pass has been is not noticed by the other one. -/
theorem adapter_siteOf_setAttributes (h : Pass.Apart σ.dialect first second)
    (he : d.element? i = some e) (hok : first.adapter σ (d.siteOf i e) e.attrs = .ok attrs)
    (j : Nat) (e' : Element) (attrs' : Attributes) :
    second.adapter σ ((d.setAttributes i attrs).siteOf j e') attrs'
      = second.adapter σ (d.siteOf j e') attrs' := by
  have htag : ((d.setAttributes i attrs).siteOf j e').tag = (d.siteOf j e').tag := rfl
  refine second.adapter_congr htag (spanOf_setAttributes d i attrs j) (fun hsecond => ?_) attrs'
  have hcontinued : σ.dialect.conditional.continuedBy attrs
      = σ.dialect.conditional.continuedBy e.attrs := by
    subst hsecond
    have hnames : ∀ kind : DirectiveKind, attrs.contains (σ.dialect.conditional.nameOf kind)
        = e.attrs.contains (σ.dialect.conditional.nameOf kind) := by
      intro kind
      rw [Bool.eq_iff_iff, Attributes.contains_iff, Attributes.contains_iff]
      exact (h.agreeOn hok).mem_names_iff
        (Pass.concerns_of_listed (ConditionalNames.nameOf_mem σ.dialect.conditional kind))
    unfold ConditionalNames.continuedBy
    exact congrArg₂ _ (hnames .ifCond) (hnames .elseIf)
  show (((d.setAttributes i attrs).previousElement? j).bind fun p =>
      ((d.setAttributes i attrs).element? p).map Element.attrs).any _
    = ((d.previousElement? j).bind fun p => (d.element? p).map Element.attrs).any _
  rw [(sameTree_setAttributes he attrs).previousElement?_eq]
  cases d.previousElement? j with
  | none => rfl
  | some p =>
      rw [Option.bind_some, Option.bind_some, element?_setAttributes he]
      by_cases hp : p = i
      · rw [if_pos hp, hp, he]
        exact hcontinued
      · rw [if_neg hp]

theorem setAttributes_comm (hi : d.element? i = some e) (hj : d.element? j = some e') (hij : i ≠ j)
    (attrs attrs' : Attributes) :
    (d.setAttributes i attrs).setAttributes j attrs'
      = (d.setAttributes j attrs').setAttributes i attrs := by
  have hj' : (d.setAttributes i attrs).element? j = some e' := by
    rw [element?_setAttributes hi, if_neg (Ne.symm hij), hj]
  have hi' : (d.setAttributes j attrs').element? i = some e := by
    rw [element?_setAttributes hj, if_neg hij, hi]
  refine SameTree.eq (((sameTree_setAttributes hj attrs').trans
    (sameTree_setAttributes hi' attrs)).symm.trans ((sameTree_setAttributes hi attrs).trans
    (sameTree_setAttributes hj' attrs'))) (fun k => ?_) fun k => ?_
  · simp only [spanOf_setAttributes]
  · rw [element?_setAttributes hj', element?_setAttributes hi', element?_setAttributes hi,
      element?_setAttributes hj]
    by_cases hk : k = j
    · rw [if_pos hk, if_neg fun heq => hij (heq.symm.trans hk), if_pos hk]
    · rw [if_neg hk, if_neg hk]

/-- A node that is no element is passed over in either order. -/
theorem adapted?_comm_of_none (hi : d.element? i = none) :
    ((d.adapted? σ first i).bind fun d₁ => d₁.adapted? σ second j)
      = (d.adapted? σ second j).bind fun d₁ => d₁.adapted? σ first i := by
  rw [adapted?_of_none hi, Option.bind_some]
  cases hj : d.adapted? σ second j with
  | none => rfl
  | some d₁ =>
      have hsame := (sameTree_of_adaptAt (adaptAt_of_adapted? hj)).isElement_eq i
      unfold isElement at hsame
      rw [hi] at hsame
      rw [Option.bind_some, adapted?_of_none (Option.not_isSome_iff_eq_none.mp (by simp [hsame]))]

/-- Both passes on one element. -/
theorem adapted?_adapted?_self (h : Pass.Apart σ.dialect first second)
    (he : d.element? i = some e) :
    ((d.adapted? σ first i).bind fun d₁ => d₁.adapted? σ second i)
      = ((first.adapter σ (d.siteOf i e) e.attrs).toOption.bind fun a =>
          (second.adapter σ (d.siteOf i e) a).toOption).map (d.setAttributes i) := by
  rw [adapted?_of_element? he]
  cases hok : first.adapter σ (d.siteOf i e) e.attrs with
  | error error => rfl
  | ok attrs =>
      have he' : (d.setAttributes i attrs).element? i = some { e with attrs } := by
        rw [element?_setAttributes he, if_pos rfl]
      have hseen : second.adapter σ ((d.setAttributes i attrs).siteOf i { e with attrs }) attrs
          = second.adapter σ (d.siteOf i e) attrs := adapter_siteOf_setAttributes h he hok i _ attrs
      show (d.setAttributes i attrs).adapted? σ second i
        = (second.adapter σ (d.siteOf i e) attrs).toOption.map _
      rw [adapted?_of_element? he', hseen]
      exact congrArg (Option.map · _) (funext (setAttributes_setAttributes he attrs))

/-- Both passes, each on an element of its own. -/
theorem adapted?_adapted?_of_ne (h : Pass.Apart σ.dialect first second)
    (hi : d.element? i = some e) (hj : d.element? j = some e') (hij : i ≠ j) :
    ((d.adapted? σ first i).bind fun d₁ => d₁.adapted? σ second j)
      = (first.adapter σ (d.siteOf i e) e.attrs).toOption.bind fun attrs =>
          (second.adapter σ (d.siteOf j e') e'.attrs).toOption.map fun attrs' =>
            (d.setAttributes i attrs).setAttributes j attrs' := by
  rw [adapted?_of_element? hi]
  cases hok : first.adapter σ (d.siteOf i e) e.attrs with
  | error error => rfl
  | ok attrs =>
      have hj' : (d.setAttributes i attrs).element? j = some e' := by
        rw [element?_setAttributes hi, if_neg (Ne.symm hij), hj]
      show (d.setAttributes i attrs).adapted? σ second j = _
      rw [adapted?_of_element? hj', adapter_siteOf_setAttributes h hi hok]
      rfl

/-- A step of the one pass and a step of the other one can be exchanged. -/
theorem adapted?_comm {plan : Site → Attributes → Plan} (h : Pass.Apart σ.dialect first second)
    (hplan : first.Plans σ plan) (hδ : σ.dialect.Proper)
    (hd : ∀ id e, d.element? id = some e → e.attrs.Distinct) (i j : Nat) :
    ((d.adapted? σ first i).bind fun d₁ => d₁.adapted? σ second j)
      = (d.adapted? σ second j).bind fun d₁ => d₁.adapted? σ first i := by
  cases hi : d.element? i with
  | none => exact adapted?_comm_of_none hi
  | some e =>
      cases hj : d.element? j with
      | none => exact (adapted?_comm_of_none hj).symm
      | some e' =>
          by_cases hij : i = j
          · subst hij
            rw [adapted?_adapted?_self h hi, adapted?_adapted?_self h.symm hi,
              h.adapter_comm hplan hδ _ (hd i e hi)]
          · rw [adapted?_adapted?_of_ne h hi hj hij, adapted?_adapted?_of_ne h.symm hj hi (Ne.symm hij)]
            cases first.adapter σ (d.siteOf i e) e.attrs with
            | error error =>
                cases second.adapter σ (d.siteOf j e') e'.attrs <;> rfl
            | ok attrs =>
                cases second.adapter σ (d.siteOf j e') e'.attrs with
                | error error => rfl
                | ok attrs' => exact congrArg some (setAttributes_comm hi hj hij attrs attrs')

theorem distinct_of_adapted? (hδ : σ.dialect.Proper)
    (hd : ∀ id e, d.element? id = some e → e.attrs.Distinct)
    (h : d.adapted? σ first i = some d') :
    ∀ id e, d'.element? id = some e → e.attrs.Distinct := by
  rcases adaptAt_eq_ok (adaptAt_of_adapted? h) with ⟨-, rfl⟩ | ⟨e, attrs, he, hok, rfl⟩
  · exact hd
  · intro id e' he'
    rw [element?_setAttributes he] at he'
    by_cases hid : id = i
    · rw [if_pos hid] at he'
      cases he'
      exact (first.writesOnly hδ (hd i e he) hok).distinct
    · rw [if_neg hid] at he'
      exact hd id e' he'

end Document

/-! ### All steps -/

section

variable {α ι : Type} {P : α → Prop} {f g : α → ι → Option α}

/-- A step that can be exchanged with each of many can be exchanged with all of them. -/
theorem foldlM_bind_comm (hf : ∀ {a b i}, P a → f a i = some b → P b)
    (hcomm : ∀ {a}, P a → ∀ i j, ((f a i).bind fun b => g b j) = (g a j).bind fun b => f b i)
    (is : List ι) (j : ι) : ∀ {a : α}, P a →
      ((is.foldlM f a).bind fun b => g b j) = (g a j).bind fun b => is.foldlM f b := by
  induction is with
  | nil =>
      intro a _
      show g a j = (g a j).bind some
      rw [Option.bind_fun_some]
  | cons i is ih =>
      intro a ha
      have hrest : ((f a i).bind fun b => (is.foldlM f b).bind fun c => g c j)
          = (f a i).bind fun b => (g b j).bind fun c => is.foldlM f c := by
        cases hb : f a i with
        | none => rfl
        | some b => exact ih (hf ha hb)
      calc ((i :: is).foldlM f a).bind (fun b => g b j)
          = (f a i).bind fun b => (is.foldlM f b).bind fun c => g c j := by
            rw [List.foldlM_cons]
            exact Option.bind_assoc ..
        _ = ((f a i).bind fun b => g b j).bind fun c => is.foldlM f c := by
            rw [hrest, Option.bind_assoc]
        _ = (g a j).bind fun b => (i :: is).foldlM f b := by
            rw [hcomm ha, Option.bind_assoc]
            simp only [List.foldlM_cons]
            rfl

/-- Steps that can be exchanged one by one can be exchanged all at once. -/
theorem foldlM_comm (hf : ∀ {a b i}, P a → f a i = some b → P b)
    (hg : ∀ {a b i}, P a → g a i = some b → P b)
    (hcomm : ∀ {a}, P a → ∀ i j, ((f a i).bind fun b => g b j) = (g a j).bind fun b => f b i)
    (is js : List ι) : ∀ {a : α}, P a →
      ((is.foldlM f a).bind fun b => js.foldlM g b)
        = (js.foldlM g a).bind fun b => is.foldlM f b := by
  induction js with
  | nil =>
      intro a _
      show (is.foldlM f a).bind some = is.foldlM f a
      rw [Option.bind_fun_some]
  | cons j js ih =>
      intro a ha
      have hrest : ((g a j).bind fun b => (is.foldlM f b).bind fun c => js.foldlM g c)
          = (g a j).bind fun b => (js.foldlM g b).bind fun c => is.foldlM f c := by
        cases hb : g a j with
        | none => rfl
        | some b => exact ih (hg ha hb)
      calc (is.foldlM f a).bind (fun b => (j :: js).foldlM g b)
          = ((is.foldlM f a).bind fun b => g b j).bind fun c => js.foldlM g c := by
            rw [Option.bind_assoc]
            simp only [List.foldlM_cons]
            rfl
        _ = (g a j).bind fun b => (is.foldlM f b).bind fun c => js.foldlM g c := by
            rw [foldlM_bind_comm hf hcomm is j ha, Option.bind_assoc]
        _ = ((j :: js).foldlM g a).bind fun b => is.foldlM f b := by
            rw [hrest, List.foldlM_cons]
            exact (Option.bind_assoc ..).symm

end

/-! ### Two passes -/

/-- The tree, if the work on it was not stopped. -/
def Progress.document? (progress : Progress) : Option Document := progress.toExcept.toOption

theorem Progress.document?_of_none {progress : Progress} (h : progress.error = none) :
    progress.document? = some progress.document := by
  unfold document? toExcept
  rw [h]
  rfl

theorem Progress.document?_of_some {progress : Progress} {error : CompileError}
    (h : progress.error = some error) : progress.document? = none := by
  unfold document? toExcept
  rw [h]
  rfl

theorem Progress.error_eq_none_iff {progress : Progress} :
    progress.error = none ↔ progress.document? ≠ none := by
  cases h : progress.error with
  | none => simp [document?_of_none h]
  | some error => simp [document?_of_some h]

/-- Adapting nodes one after the other. -/
theorem Document.document?_adaptEach (σ : Setting) (pass : Pass) (ids : List Nat) :
    ∀ d : Document, (d.adaptEach pass.adapter σ ids).document? = ids.foldlM (adapted? σ pass) d := by
  induction ids with
  | nil => exact fun d => rfl
  | cons id ids ih =>
      intro d
      unfold adaptEach
      rw [List.foldlM_cons]
      show _ = (d.adapted? σ pass id).bind _
      unfold adapted?
      cases d.adaptAt pass.adapter σ id with
      | error error => rfl
      | ok d₁ => exact ih d₁

namespace Pipeline

/-- One pass, and then another one over the same nodes. -/
theorem document?_run_pair {d : Document} (hd : d.Linked) (σ : Setting) (first second : Pass) :
    (run σ [first, second] d).document?
      = (d.preorder.foldlM (Document.adapted? σ first) d).bind fun d₁ =>
          d.preorder.foldlM (Document.adapted? σ second) d₁ := by
  have hfold := Document.document?_adaptEach σ first d.preorder d
  change (first.run σ d).document? = _ at hfold
  rw [← hfold]
  cases herror : (first.run σ d).error with
  | some error =>
      rw [run_cons_of_error herror, Progress.document?_of_some herror]
      rfl
  | none =>
      rw [run_cons_of_none herror, Progress.document?_of_none herror, Option.bind_some]
      have htree : d.SameTree (first.run σ d).document := Document.sameTree_adaptAll hd _ σ
      rw [← htree.preorder_eq, ← Document.document?_adaptEach]
      cases herror' : (second.run σ (first.run σ d).document).error with
      | some error =>
          rw [run_cons_of_error herror']
          rfl
      | none =>
          rw [run_cons_of_none herror']
          exact (Progress.document?_of_none herror').symm

end Pipeline

/-- Conditions, and loops, are apart from everything but bindings and themselves. -/
theorem Target.apart_pass (target : Target) {first second : Pass}
    (hfirst : first ∈ [Pass.conditional, .iteration]) (hsecond : second ≠ .binding)
    (hne : second ≠ first) : Pass.Apart target.dialect first second where
  first_ne := by
    rintro rfl
    revert hfirst
    decide
  second_ne := hsecond
  concerns n hn := by
    have hall : ∀ first ∈ [Pass.conditional, .iteration], ∀ second ∈ Pass.standard,
        second ≠ .binding → second ≠ first →
        (∀ kind ∈ first.removes, kind ∉ second.removes) ∧
        (∀ m ∈ second.listed target.dialect, ∀ kind ∈ Directive.kind? m, kind ∉ first.removes) ∧
        ∀ m ∈ first.listed target.dialect, second.concerns target.dialect m = false := by
      cases target <;> decide
    obtain ⟨hkinds, hwritten, hlisted⟩ :=
      hall first hfirst second second.mem_standard hsecond hne
    rcases Pass.concerns_iff.mp hn with ⟨kind, hk, hkind⟩ | hmem
    · rw [← Bool.not_eq_true, Pass.concerns_iff]
      rintro (⟨kind', hk', hkind'⟩ | hmem)
      · cases hk.symm.trans hk'
        exact hkinds kind hkind hkind'
      · exact hwritten n hmem kind hk hkind
    · exact hlisted n hmem

namespace Pipeline

/-- The pass over conditions and the pass over loops may change places with every pass but the one
over bindings: both orders succeed, and with the same tree, or none of them does. -/
theorem run_comm {d : Document} (hd : d.Built) (target : Target) (style : Option StyleConfig)
    (normalizer : Target → Option StyleConfig → String → String) {first second : Pass}
    (hfirst : first ∈ [Pass.conditional, .iteration]) (hsecond : second ≠ .binding) :
    let σ : Setting := ⟨target.dialect, style, normalizer⟩
    ((run σ [first, second] d).error = none ↔ (run σ [second, first] d).error = none) ∧
      ((run σ [first, second] d).error = none →
        (run σ [second, first] d).document = (run σ [first, second] d).document) := by
  intro σ
  have hδ : σ.dialect.Proper := target.proper_dialect
  by_cases hne : second = first
  · subst hne
    exact ⟨Iff.rfl, fun _ => rfl⟩
  · have hapart : Pass.Apart σ.dialect first second := target.apart_pass hfirst hsecond hne
    obtain ⟨plan, hplan⟩ : ∃ plan, first.Plans σ plan := by
      rcases List.mem_cons.mp hfirst with rfl | hfirst
      · exact ⟨_, Pass.plans_conditional σ⟩
      · obtain rfl := List.mem_singleton.mp hfirst
        exact ⟨_, Pass.plans_iteration hδ⟩
    have hsame : (run σ [first, second] d).document? = (run σ [second, first] d).document? := by
      rw [document?_run_pair hd.linked, document?_run_pair hd.linked]
      exact foldlM_comm (P := fun d : Document => ∀ id e, d.element? id = some e →
          e.attrs.Distinct)
        (fun hd h => Document.distinct_of_adapted? hδ hd h)
        (fun hd h => Document.distinct_of_adapted? hδ hd h)
        (fun hd i j => Document.adapted?_comm hapart hplan hδ hd i j) _ _ hd.distinct
    have hiff : (run σ [first, second] d).error = none ↔ (run σ [second, first] d).error = none := by
      rw [Progress.error_eq_none_iff, Progress.error_eq_none_iff, hsame]
    refine ⟨hiff, fun hnone => ?_⟩
    rw [Progress.document?_of_none hnone, Progress.document?_of_none (hiff.mp hnone)] at hsame
    exact (Option.some.inj hsame).symm

/-- A chain, of which one element has an attribute with the platform's name for a condition. -/
theorem run_comm_chain :
    let σ : Setting := ⟨.wx, none, Style.normalize⟩
    let source := "<a v-if='x' :class='c' v-for='i in l'></a> t<b class='k' v-else wx:else='z'/>"
    let out := "<a wx:if=\"\x7b\x7bx\x7d\x7d\" class=\"\x7b\x7bc\x7d\x7d   cml-base cml-a\" " ++
      "v-for=\"i in l\"></a> t<b class=\"k cml-base cml-b\" wx:else />"
    ∃ d, Document.parse source = .ok d ∧
      (Pass.conditional ∈ [Pass.conditional, .iteration] ∧ Pass.classes ≠ .binding) ∧
      (run σ [.classes, .conditional] d).error = none ∧
      (run σ [.classes, .conditional] d).document.print = out := by
  intro σ source out
  have hfirst : (Document.parse source).toOption.map (fun d =>
      ((run σ [.conditional, .classes] d).error, (run σ [.conditional, .classes] d).document.print))
        = some (none, out) := by
    decide +kernel
  cases h : Document.parse source with
  | error e =>
      rw [h] at hfirst
      cases hfirst
  | ok d =>
      rw [h] at hfirst
      obtain ⟨hnone, hprint⟩ := Prod.mk.inj (Option.some.inj hfirst)
      have hmem : Pass.conditional ∈ [Pass.conditional, .iteration] := by decide
      have hne : Pass.classes ≠ .binding := by decide
      obtain ⟨hiff, hsame⟩ :=
        run_comm (Document.built_of_parse h) .wx none Style.normalize hmem hne
      exact ⟨d, rfl, ⟨hmem, hne⟩, hiff.mp hnone, (hsame hnone) ▸ hprint⟩

end Pipeline

end TemplateCompiler
