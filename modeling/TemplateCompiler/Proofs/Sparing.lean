/-
Rewritings that a pass does not notice.

A rewriting spares the names that it neither replaces nor writes.  Attributes of such a name
stand where they stood, among the same others of such names, so that looking one up, giving it a
value, erasing or replacing it, or putting it before another one can be done before the rewriting
as well as after it.  Two rewritings that spare each other are the case from which the others
follow, because erasing is one, and so is giving a value to an attribute that is there.

What a pass has to do with is known by names: those of the directives that it adapts, and some
that its dialect lists.  A rewriting that spares all of them is not noticed by the pass, and the
pass does to the rewritten attributes what it does to the attributes.  Only the pass over
bindings is left out, which writes under the names of properties.
-/
import TemplateCompiler.Proofs.Frame
import TemplateCompiler.Proofs.Rewriting

namespace TemplateCompiler

/-! ### Names that are spared -/

namespace Rewriting

open Attributes (replaceEntry)

/-- Attributes of the name are neither replaced nor written. -/
def Spares (r : Rewriting) (name : String) : Prop := name ≠ r.name ∧ name ∉ r.new.map Prod.fst

variable {r s : Rewriting} {entries : List Attribute}

theorem replaceEntry_of_spares {x : Attribute} (h : r.Spares x.1) :
    replaceEntry r.name r.new x = [x] := by
  unfold replaceEntry
  rw [if_neg h.1, if_neg h.2]

theorem flatMap_of_spares (h : ∀ x ∈ entries, r.Spares x.1) :
    entries.flatMap (replaceEntry r.name r.new) = entries := by
  induction entries with
  | nil => rfl
  | cons x rest ih =>
      rw [List.flatMap_cons, replaceEntry_of_spares (h x List.mem_cons_self),
        ih fun y hy => h y (List.mem_cons_of_mem x hy)]
      rfl

/-- Every name of the other rewriting is spared. -/
structure SparesAll (r s : Rewriting) : Prop where
  name : r.Spares s.name
  new : ∀ n ∈ s.new.map Prod.fst, r.Spares n

theorem SparesAll.symm (h : r.SparesAll s) : s.SparesAll r where
  name := ⟨h.name.1.symm, fun hmem => (h.new _ hmem).1 rfl⟩
  new n hn := ⟨fun heq => h.name.2 (heq ▸ hn), fun hmem => (h.new n hmem).2 hn⟩

theorem mem_replaceEntry {x y : Attribute} (h : y ∈ replaceEntry r.name r.new x) :
    y ∈ r.new ∨ y = x := by
  unfold replaceEntry at h
  split at h
  · exact .inl h
  · split at h
    · cases h
    · exact .inr (List.mem_singleton.mp h)

theorem SparesAll.flatMap_replaceEntry (h : r.SparesAll s) {x : Attribute} (hx : r.Spares x.1) :
    (replaceEntry s.name s.new x).flatMap (replaceEntry r.name r.new)
      = replaceEntry s.name s.new x := by
  refine flatMap_of_spares fun y hy => ?_
  rcases mem_replaceEntry hy with hnew | rfl
  · exact h.new _ (List.mem_map_of_mem hnew)
  · exact hx

/-- What becomes of one entry does not depend on which rewriting comes first: one of the two
spares it. -/
theorem SparesAll.replaceEntry_comm (h : r.SparesAll s) (x : Attribute) :
    (replaceEntry r.name r.new x).flatMap (replaceEntry s.name s.new)
      = (replaceEntry s.name s.new x).flatMap (replaceEntry r.name r.new) := by
  by_cases hx : r.Spares x.1
  · rw [h.flatMap_replaceEntry hx, replaceEntry_of_spares hx, List.flatMap_singleton]
  · have hx' : s.Spares x.1 := ⟨fun heq => hx (heq ▸ h.name), fun hmem => hx (h.new _ hmem)⟩
    rw [h.symm.flatMap_replaceEntry hx', replaceEntry_of_spares hx', List.flatMap_singleton]

theorem SparesAll.flatMap_comm (h : r.SparesAll s) (entries : List Attribute) :
    (entries.flatMap (replaceEntry r.name r.new)).flatMap (replaceEntry s.name s.new)
      = (entries.flatMap (replaceEntry s.name s.new)).flatMap (replaceEntry r.name r.new) := by
  rw [List.flatMap_assoc, List.flatMap_assoc]
  exact List.flatMap_congr fun x _ => h.replaceEntry_comm x

theorem sparesAll_one {name new : String} {value : Option String} (hname : r.Spares name)
    (hnew : r.Spares new) : r.SparesAll ⟨name, [(new, value)]⟩ := by
  refine ⟨hname, fun n hn => ?_⟩
  rw [List.map_singleton, List.mem_singleton] at hn
  exact hn ▸ hnew

end Rewriting

/-! ### Operations on spared names -/

namespace Attributes

variable {r : Rewriting} {attrs : Attributes} {n : String}

/-- The attributes after the rewriting. -/
def rewritten (r : Rewriting) (attrs : Attributes) : Attributes :=
  ⟨attrs.entries.flatMap (replaceEntry r.name r.new)⟩

/-- Replacing an attribute that is there. -/
theorem Distinct.replaceD_eq (hd : attrs.Distinct) (hname : r.name ∈ attrs.names)
    (hr : (r.new.map Prod.fst).Nodup) : attrs.replaceD r.name r.new = attrs.rewritten r :=
  eq_of_entries (hd.entries_replaceD hname hr)

theorem Distinct.rewritten (hd : attrs.Distinct) (hr : (r.new.map Prod.fst).Nodup) :
    (attrs.rewritten r).Distinct := nodup_names_flatMap hd hr

theorem agreeOn_rewritten {p : String → Bool} (h : ∀ n, p n = true → r.Spares n)
    (attrs : Attributes) : attrs.AgreeOn p (attrs.rewritten r) := by
  show (attrs.entries.flatMap _).filter _ = attrs.entries.filter _
  induction attrs.entries with
  | nil => rfl
  | cons x rest ih =>
      rw [List.flatMap_cons, List.filter_append, ih]
      by_cases hx : p x.1 = true
      · rw [Rewriting.replaceEntry_of_spares (h _ hx), List.filter_cons_of_pos (by simpa using hx),
          List.filter_cons_of_pos (by simpa using hx)]
        rfl
      · -- What replaces the entry is not among those of interest, and neither is the entry.
        have hnone : (replaceEntry r.name r.new x).filter (fun entry => p entry.1) = [] := by
          rw [List.filter_eq_nil_iff]
          intro y hy hpy
          rcases Rewriting.mem_replaceEntry hy with hnew | rfl
          · exact (h _ hpy).2 (List.mem_map_of_mem hnew)
          · exact hx hpy
        rw [hnone, List.filter_cons_of_neg (by simpa using hx)]
        rfl

theorem agreeOn_rewritten_name (h : r.Spares n) (attrs : Attributes) :
    attrs.AgreeOn (fun m => m == n) (attrs.rewritten r) :=
  agreeOn_rewritten (fun _ hm => beq_iff_eq.mp hm ▸ h) attrs

theorem mem_names_rewritten (h : r.Spares n) : n ∈ (attrs.rewritten r).names ↔ n ∈ attrs.names :=
  (agreeOn_rewritten_name h attrs).mem_names_iff BEq.rfl

theorem contains_rewritten (h : r.Spares n) : (attrs.rewritten r).contains n = attrs.contains n := by
  rw [Bool.eq_iff_iff, contains_iff, contains_iff, mem_names_rewritten h]

theorem get?_rewritten (h : r.Spares n) : (attrs.rewritten r).get? n = attrs.get? n :=
  (agreeOn_rewritten_name h attrs).get?_eq BEq.rfl

/-- Giving a value to an attribute that is there is a rewriting. -/
theorem entries_set_of_mem (h : n ∈ attrs.names) (value : Option String) :
    (attrs.set n value).entries = attrs.entries.flatMap (replaceEntry n [(n, value)]) := by
  unfold Attributes.set
  rw [if_pos (contains_iff.mpr h)]
  show attrs.entries.map _ = _
  rw [List.map_eq_flatMap]
  refine List.flatMap_congr fun entry _ => ?_
  rw [replaceEntry_value]
  by_cases hn : entry.1 = n
  · rw [if_pos (beq_iff_eq.mpr hn), if_pos hn, hn]
  · rw [if_neg (by simpa using hn), if_neg hn]

theorem set_rewritten (h : r.Spares n) (value : Option String) :
    (attrs.rewritten r).set n value = (attrs.set n value).rewritten r := by
  refine eq_of_entries ?_
  by_cases hn : n ∈ attrs.names
  · rw [entries_set_of_mem ((mem_names_rewritten h).mpr hn)]
    show (attrs.entries.flatMap _).flatMap _ = (attrs.set n value).entries.flatMap _
    rw [entries_set_of_mem hn]
    exact (Rewriting.sparesAll_one h h).flatMap_comm attrs.entries
  · rw [entries_set_of_not_mem _ (mt (mem_names_rewritten h).mp hn)]
    show attrs.entries.flatMap _ ++ _ = (attrs.set n value).entries.flatMap _
    rw [entries_set_of_not_mem _ hn, List.flatMap_append, List.flatMap_singleton,
      Rewriting.replaceEntry_of_spares h]

theorem erase_rewritten (h : r.Spares n) :
    (attrs.rewritten r).erase n = (attrs.erase n).rewritten r := by
  have hall : r.SparesAll ⟨n, []⟩ := ⟨h, fun m hm => absurd hm List.not_mem_nil⟩
  refine eq_of_entries ?_
  rw [erase_entries]
  show (attrs.entries.flatMap _).flatMap _ = (attrs.erase n).entries.flatMap _
  rw [erase_entries]
  exact hall.flatMap_comm attrs.entries

theorem replaceD_rewritten (hd : attrs.Distinct) (hr : (r.new.map Prod.fst).Nodup)
    {new : List Attribute} (hall : r.SparesAll ⟨n, new⟩) (hnew : (new.map Prod.fst).Nodup) :
    (attrs.rewritten r).replaceD n new = (attrs.replaceD n new).rewritten r := by
  have hmem : n ∈ (attrs.rewritten r).names ↔ n ∈ attrs.names := mem_names_rewritten hall.name
  by_cases hn : n ∈ attrs.names
  · refine eq_of_entries ?_
    rw [(hd.rewritten hr).entries_replaceD (hmem.mpr hn) hnew]
    show (attrs.entries.flatMap _).flatMap _ = (attrs.replaceD n new).entries.flatMap _
    rw [hd.entries_replaceD hn hnew]
    exact hall.flatMap_comm attrs.entries
  · rw [replaceD_of_not_mem hn, replaceD_of_not_mem (mt hmem.mp hn)]

/-- One new entry. -/
theorem replaceD_one_rewritten (hd : attrs.Distinct) (hr : (r.new.map Prod.fst).Nodup)
    (hn : r.Spares n) {new : String} (hnew : r.Spares new) (value : Option String) :
    (attrs.rewritten r).replaceD n [(new, value)]
      = (attrs.replaceD n [(new, value)]).rewritten r :=
  replaceD_rewritten hd hr (Rewriting.sparesAll_one hn hnew) (List.nodup_singleton new)

/-- Of the entries before the one of a spared name, and of those from it on, each is rewritten. -/
theorem takeWhile_dropWhile_flatMap (h : r.Spares n) (entries : List Attribute) :
    (entries.flatMap (replaceEntry r.name r.new)).takeWhile (fun entry => entry.1 != n)
        = (entries.takeWhile fun entry => entry.1 != n).flatMap (replaceEntry r.name r.new) ∧
      (entries.flatMap (replaceEntry r.name r.new)).dropWhile (fun entry => entry.1 != n)
        = (entries.dropWhile fun entry => entry.1 != n).flatMap (replaceEntry r.name r.new) := by
  induction entries with
  | nil => exact ⟨rfl, rfl⟩
  | cons x rest ih =>
      by_cases hx : x.1 = n
      · have hstop : (x.1 != n) = false := by simp [hx]
        rw [List.flatMap_cons, Rewriting.replaceEntry_of_spares (hx ▸ h), List.singleton_append,
          List.takeWhile_cons_of_neg (by simp [hstop]), List.dropWhile_cons_of_neg (by simp [hstop]),
          List.takeWhile_cons_of_neg (by simp [hstop]), List.dropWhile_cons_of_neg (by simp [hstop]),
          List.flatMap_cons, Rewriting.replaceEntry_of_spares (hx ▸ h)]
        exact ⟨rfl, rfl⟩
      · have hgo : ∀ y ∈ replaceEntry r.name r.new x, (y.1 != n) = true := by
          intro y hy
          rw [bne_iff_ne]
          rcases Rewriting.mem_replaceEntry hy with hnew | rfl
          · rintro rfl
            exact h.2 (List.mem_map_of_mem hnew)
          · exact hx
        rw [List.flatMap_cons, List.takeWhile_append_of_pos hgo, List.dropWhile_append_of_pos hgo,
          ih.1, ih.2, List.takeWhile_cons_of_pos (by simpa using hx),
          List.dropWhile_cons_of_pos (by simpa using hx)]
        exact ⟨List.flatMap_cons.symm, rfl⟩

theorem insertBefore_rewritten {anchor : String} (hanchor : r.Spares anchor) (hn : r.Spares n)
    (value : String) :
    (attrs.rewritten r).insertBefore anchor n value
      = (attrs.insertBefore anchor n value).rewritten r := by
  have herase : (attrs.rewritten r).erase n = (attrs.erase n).rewritten r := erase_rewritten hn
  have hothers : without n (attrs.rewritten r).entries
      = (without n attrs.entries).flatMap (replaceEntry r.name r.new) :=
    congrArg Attributes.entries herase
  obtain ⟨hfront, hback⟩ := takeWhile_dropWhile_flatMap hanchor (without n attrs.entries)
  refine eq_of_entries ?_
  show _ = (attrs.insertBefore anchor n value).entries.flatMap _
  rw [entries_insertBefore, entries_insertBefore, hothers, hfront, hback, List.flatMap_append,
    List.flatMap_cons, Rewriting.replaceEntry_of_spares hn]
  rfl

theorem addClass_rewritten (h : r.Spares "class") (marker : String) :
    (attrs.rewritten r).addClass marker = (attrs.addClass marker).rewritten r := by
  unfold addClass Attributes.insert
  rw [get?_rewritten h]
  split
  · exact set_rewritten h _
  · split
    · rfl
    · split <;> exact set_rewritten h _

end Attributes

/-! ### What a pass has to do with -/

namespace Pass

/-- The pass adapts directives of the name, or the name is listed. -/
def concerns (δ : Dialect) (pass : Pass) (n : String) : Bool :=
  (Directive.kind? n).any pass.removes.contains || (pass.listed δ).contains n

/-- The rewriting spares every name that the pass has to do with. -/
def SparedBy (δ : Dialect) (pass : Pass) (r : Rewriting) : Prop :=
  ∀ n, pass.concerns δ n = true → r.Spares n

variable {δ : Dialect} {pass : Pass} {n : String} {kind : DirectiveKind}

theorem concerns_iff : pass.concerns δ n = true ↔
    (∃ kind, Directive.kind? n = some kind ∧ kind ∈ pass.removes) ∨ n ∈ pass.listed δ := by
  unfold concerns
  rw [Bool.or_eq_true, Option.any_eq_true, List.contains_iff_mem]
  simp only [List.contains_iff_mem]

theorem concerns_of_kind (hk : Directive.kind? n = some kind) (hkind : kind ∈ pass.removes) :
    pass.concerns δ n = true := concerns_iff.mpr (.inl ⟨kind, hk, hkind⟩)

theorem mem_removes_of_isConditional (h : kind.isConditional = true) :
    kind ∈ Pass.conditional.removes := by
  cases kind <;> first | decide | cases h

theorem concerns_of_listed (h : n ∈ pass.listed δ) : pass.concerns δ n = true :=
  concerns_iff.mpr (.inr h)

/-- A pass changes only what it has to do with, if it is not the one that writes properties. -/
theorem Touches.concerns {attrs : Attributes} (hpass : pass ≠ .binding)
    (h : pass.Touches δ attrs n) : pass.concerns δ n = true := by
  rcases h.cases with ⟨kind, hremoves, -, hk, -⟩ | ⟨hlisted, -⟩ | ⟨hbinding, -⟩
  · exact concerns_of_kind hk hremoves
  · exact concerns_of_listed hlisted
  · exact absurd hbinding hpass

end Pass

/-! ### Adapters -/

namespace Adapter

open Attributes (rewritten)

variable {σ : Setting} {r : Rewriting} {attrs : Attributes}

theorem directive?_rewritten {pass : Pass} (h : pass.SparedBy σ.dialect r) {kind : DirectiveKind}
    (hkind : kind ∈ pass.removes) : (attrs.rewritten r).directive? kind = attrs.directive? kind :=
  (Attributes.agreeOn_rewritten h attrs).directive?_eq fun _ hk => Pass.concerns_of_kind hk hkind

theorem spares_of_directive? {pass : Pass} (h : pass.SparedBy σ.dialect r) {kind : DirectiveKind}
    (hkind : kind ∈ pass.removes) {d : Directive} (hd : attrs.directive? kind = some d) :
    r.Spares d.name :=
  h _ (Pass.concerns_of_kind (Attributes.name_of_directive? hd).2 hkind)

variable (hr : (r.new.map Prod.fst).Nodup) (site : Site) (hd : attrs.Distinct)

include hr hd

theorem reference_rewritten (h : Pass.ref.SparedBy σ.dialect r) :
    reference σ site (attrs.rewritten r) = (reference σ site attrs).map (rewritten r) := by
  have href : r.Spares "ref" := h _ (Pass.concerns_of_listed (by simp [Pass.listed]))
  have hclass : r.Spares "class" := h _ (Pass.concerns_of_listed (by simp [Pass.listed]))
  unfold reference
  rw [Attributes.get?_rewritten href]
  split
  · rfl
  · dsimp only
    split
    · rw [Attributes.erase_rewritten href]
      rfl
    · rename_i idName marker hform
      have hid : r.Spares idName := h _ (Pass.concerns_of_listed (by
        simp [Pass.listed, hform, ReferenceForm.names]))
      split
      · rw [Attributes.erase_rewritten href]
        rfl
      · rw [Attributes.replaceD_one_rewritten hd hr href hid, Attributes.addClass_rewritten hclass]
        rfl

theorem model_rewritten (hδ : σ.dialect.Proper) (h : Pass.model.SparedBy σ.dialect r) :
    model σ site (attrs.rewritten r) = (model σ site attrs).map (rewritten r) := by
  unfold model
  rw [directive?_rewritten h (by decide)]
  split
  · rfl
  · rename_i d hfound
    have hname := spares_of_directive? h (by decide) hfound
    dsimp only
    split
    · rw [Attributes.erase_rewritten hname]
      rfl
    · refine congrArg Except.ok (Attributes.replaceD_rewritten hd hr ⟨hname, fun n hn => ?_⟩ ?_)
      · change n ∈ (σ.dialect.model.attributes _).map Prod.fst at hn
        rw [ModelForm.map_fst_attributes] at hn
        exact h n (Pass.concerns_of_listed hn)
      · rw [ModelForm.map_fst_attributes]
        exact hδ.model

theorem conditional_rewritten (h : Pass.conditional.SparedBy σ.dialect r) :
    conditional σ site (attrs.rewritten r) = (conditional σ site attrs).map (rewritten r) := by
  have hsame : (attrs.rewritten r).conditionals = attrs.conditionals :=
    (Attributes.agreeOn_rewritten h attrs).conditionals_eq fun _ _ hk hcond =>
      Pass.concerns_of_kind hk (Pass.mem_removes_of_isConditional hcond)
  unfold conditional
  dsimp only
  rw [hsame]
  split
  · rfl
  · rfl
  · rename_i d hone
    obtain ⟨hmem, hcond⟩ : d ∈ attrs.directives ∧ d.kind.isConditional = true :=
      Attributes.mem_conditionals.mp (by rw [hone]; exact List.mem_singleton_self d)
    have hname : r.Spares d.name := h _ (Pass.concerns_of_kind
      (Attributes.mem_of_mem_directives hmem).2.2.2 (Pass.mem_removes_of_isConditional hcond))
    have hnew : r.Spares (σ.dialect.conditional.nameOf d.kind) := h _ (Pass.concerns_of_listed
      (ConditionalNames.nameOf_mem σ.dialect.conditional d.kind))
    split
    · rw [Attributes.replaceD_one_rewritten hd hr hname hnew]
      rfl
    · rfl

theorem iteration_rewritten (hδ : σ.dialect.Proper) (h : Pass.iteration.SparedBy σ.dialect r) :
    iteration σ site (attrs.rewritten r) = (iteration σ site attrs).map (rewritten r) := by
  unfold iteration
  rw [directive?_rewritten h (by decide)]
  split
  · rfl
  · rename_i d hfound
    have hname := spares_of_directive? h (by decide) hfound
    split
    · rfl
    · rename_i it _
      split
      · rfl
      · rename_i itemName indexName sourceName encoding hform
        have hnames : (it.attributes itemName indexName sourceName encoding).map Prod.fst
            = σ.dialect.iteration.names := by
          rw [hform]
          rfl
        split
        · refine congrArg Except.ok
            (Attributes.replaceD_rewritten hd hr ⟨hname, fun n hn => ?_⟩ ?_)
          · change n ∈ (it.attributes itemName indexName sourceName encoding).map Prod.fst at hn
            rw [hnames] at hn
            exact h n (Pass.concerns_of_listed hn)
          · rw [hnames]
            exact hδ.iteration
        · rfl

omit hr hd in
theorem mergeClass_rewritten (hclass : r.Spares "class") {binding : Option Directive}
    (hbinding : ∀ d ∈ binding, r.Spares d.name) (base : String) :
    mergeClass base binding (attrs.rewritten r) = (mergeClass base binding attrs).rewritten r := by
  unfold mergeClass Attributes.insert
  rw [Attributes.get?_rewritten hclass, Attributes.contains_rewritten hclass]
  dsimp only
  split
  · rfl
  · split
    · exact Attributes.set_rewritten hclass _
    · rename_i d
      split
      · exact Attributes.set_rewritten hclass _
      · exact Attributes.insertBefore_rewritten (hbinding d rfl) hclass _

omit hr hd in
theorem wrapClassBinding_rewritten {binding : Option Directive}
    (hbinding : ∀ d ∈ binding, r.Spares d.name) :
    wrapClassBinding binding (attrs.rewritten r) = (wrapClassBinding binding attrs).rewritten r := by
  unfold wrapClassBinding
  split
  · rfl
  · rename_i d
    dsimp only
    split
    · rfl
    · exact Attributes.set_rewritten (hbinding d rfl) _

theorem foldClass_rewritten (hclass : r.Spares "class") {binding : Option Directive}
    (hbinding : ∀ d ∈ binding, r.Spares d.name) (base : String) :
    foldClass base binding (attrs.rewritten r) = (foldClass base binding attrs).rewritten r := by
  unfold foldClass Attributes.insert
  rw [Attributes.get?_rewritten hclass, Attributes.contains_rewritten hclass]
  dsimp only
  split
  · split
    · rfl
    · exact Attributes.set_rewritten hclass _
  · rename_i d
    split
    · rw [Attributes.set_rewritten hclass, Attributes.erase_rewritten (hbinding d rfl)]
    · exact Attributes.replaceD_one_rewritten hd hr (hbinding d rfl) hclass _

theorem classes_rewritten (h : Pass.classes.SparedBy σ.dialect r) :
    classes σ site (attrs.rewritten r) = (classes σ site attrs).map (rewritten r) := by
  have hclass : r.Spares "class" := h _ (Pass.concerns_of_listed (by simp [Pass.listed]))
  have hbinding : ∀ d ∈ attrs.directive? .classBinding, r.Spares d.name :=
    fun d hfound => spares_of_directive? h (by decide) hfound
  unfold classes
  rw [directive?_rewritten h (by decide)]
  dsimp only
  split
  · rw [mergeClass_rewritten hclass hbinding]
    rfl
  · rw [mergeClass_rewritten hclass hbinding, wrapClassBinding_rewritten hbinding]
    rfl
  · rw [foldClass_rewritten hr hd hclass hbinding]
    rfl

omit hr hd in
theorem eraseAll_rewritten {ds : List Directive} (hds : ∀ d ∈ ds, r.Spares d.name) :
    ∀ {attrs : Attributes},
      eraseAll ds (attrs.rewritten r) = (eraseAll ds attrs).rewritten r := by
  induction ds with
  | nil => exact rfl
  | cons d ds ih =>
      intro attrs
      show eraseAll ds ((attrs.rewritten r).erase d.name) = _
      rw [Attributes.erase_rewritten (hds d List.mem_cons_self)]
      exact ih fun d' hd' => hds d' (List.mem_cons_of_mem d hd')

omit hr hd in
theorem distinct_eraseAll (ds : List Directive) :
    ∀ {attrs : Attributes}, attrs.Distinct → (eraseAll ds attrs).Distinct := by
  induction ds with
  | nil => exact id
  | cons d ds ih => exact fun hd => ih (hd.erase d.name)

theorem mergeStyleBindings_rewritten (hname : r.Spares styleBindingName) {ds : List Directive}
    (hds : ∀ d ∈ ds, r.Spares d.name) (mode : StyleMode) (config : Option StyleConfig) :
    mergeStyleBindings mode config ds (attrs.rewritten r)
      = (mergeStyleBindings mode config ds attrs).rewritten r := by
  unfold mergeStyleBindings
  dsimp only
  split
  · rfl
  · rename_i first others
    split
    · rfl
    · split
      · exact eraseAll_rewritten hds
      · rw [eraseAll_rewritten fun d hd' => hds d (List.mem_cons_of_mem first hd')]
        exact Attributes.replaceD_one_rewritten (distinct_eraseAll others hd) hr
          (hds first List.mem_cons_self) hname _

theorem styleBindings_rewritten (h : Pass.styles.SparedBy σ.dialect r) :
    styleBindings σ.dialect.styleMode σ.style (attrs.rewritten r)
      = (styleBindings σ.dialect.styleMode σ.style attrs).rewritten r := by
  have hsame : (attrs.rewritten r).directivesOf .styleBinding = attrs.directivesOf .styleBinding :=
    (Attributes.agreeOn_rewritten h attrs).directivesOf_eq fun _ hk =>
      Pass.concerns_of_kind hk (by decide)
  have hds : ∀ d ∈ attrs.directivesOf .styleBinding, r.Spares d.name := fun d hd' =>
    h _ (Pass.concerns_of_kind (Attributes.name_of_mem_directivesOf hd').2 (by decide))
  have hname : r.Spares styleBindingName := h _ (Pass.concerns_of_kind
    (show Directive.kind? styleBindingName = some .styleBinding by decide) (by decide))
  unfold styleBindings
  rw [hsame]
  dsimp only
  split
  · exact eraseAll_rewritten hds
  · exact mergeStyleBindings_rewritten hr hd hname hds _ _

omit hr hd in
theorem staticStyle_rewritten (hstyle : r.Spares "style") :
    staticStyle σ (attrs.rewritten r) = (staticStyle σ attrs).rewritten r := by
  unfold staticStyle
  rw [Attributes.get?_rewritten hstyle]
  split
  · rfl
  · dsimp only
    split
    · rfl
    · exact Attributes.set_rewritten hstyle _

theorem styles_rewritten (h : Pass.styles.SparedBy σ.dialect r) :
    styles σ site (attrs.rewritten r) = (styles σ site attrs).map (rewritten r) := by
  have hstyle : r.Spares "style" := h _ (Pass.concerns_of_listed (by simp [Pass.listed]))
  unfold styles
  rw [styleBindings_rewritten hr hd h, staticStyle_rewritten hstyle]
  rfl

end Adapter

/-- A pass does to the rewritten attributes what it does to the attributes. -/
theorem Pass.adapter_rewritten (pass : Pass) (hpass : pass ≠ .binding) {σ : Setting}
    (hδ : σ.dialect.Proper) {r : Rewriting} (h : pass.SparedBy σ.dialect r)
    (hr : (r.new.map Prod.fst).Nodup) (site : Site) {attrs : Attributes} (hd : attrs.Distinct) :
    pass.adapter σ site (attrs.rewritten r)
      = (pass.adapter σ site attrs).map (Attributes.rewritten r) := by
  cases pass with
  | ref => exact Adapter.reference_rewritten hr site hd h
  | model => exact Adapter.model_rewritten hr site hd hδ h
  | binding => exact absurd rfl hpass
  | conditional => exact Adapter.conditional_rewritten hr site hd h
  | iteration => exact Adapter.iteration_rewritten hr site hd hδ h
  | classes => exact Adapter.classes_rewritten hr site hd h
  | styles => exact Adapter.styles_rewritten hr site hd h

end TemplateCompiler
