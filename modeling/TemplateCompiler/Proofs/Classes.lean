/-
The class of an element: its words, its place, and that it is made once.

However the parts are joined, there are blanks between them, so the words of the class are
those of the parts.  The base classes are left out if the list ends with them already, and
then the class that is written is the one that is there; either way it ends with them, and
that is why a second time adds nothing.

Where the class stands is said entry by entry (`classedEntry`).  All other attributes keep
their places and values.
-/
import TemplateCompiler.Proofs.Edits
import TemplateCompiler.Proofs.Rewriting
import TemplateCompiler.Proofs.Sparing
import TemplateCompiler.Proofs.Stability
import TemplateCompiler.Proofs.Stages

namespace TemplateCompiler

/-! ### Entries -/

namespace Attributes

variable {attrs : Attributes} {anchor name : String}

/-- A new attribute is put before one that is there. -/
theorem Distinct.entries_insertBefore_of_not_mem (hd : attrs.Distinct) {old : Option String}
    (hanchor : (anchor, old) ∈ attrs.entries) (hname : name ∉ attrs.names) (value : String) :
    (attrs.insertBefore anchor name value).entries
      = attrs.entries.flatMap (replaceEntry anchor [(name, some value), (anchor, old)]) := by
  have hmem : anchor ∈ attrs.names := List.mem_map.mpr ⟨_, hanchor, rfl⟩
  obtain ⟨front, old', back, hsplit, hfront, hback⟩ := Edit.exists_cut hd hmem
  have hold : old' = old := by
    have hfound : attrs.lookup? anchor = some old' := hd.lookup?_eq (by rw [hsplit]; simp)
    rw [hd.lookup?_eq hanchor] at hfound
    exact (Option.some.inj hfound).symm
  have hkept : ∀ entries : List Attribute, entries ⊆ attrs.entries →
      anchor ∉ entries.map Prod.fst →
      entries.flatMap (replaceEntry anchor [(name, some value), (anchor, old)]) = entries := by
    intro entries hsub hnot
    rw [flatMap_replaceEntry_of_not_mem hnot]
    refine withoutAll_eq_self fun entry hentry hnew => ?_
    rcases List.mem_cons.mp hnew with heq | hnew
    · exact hname (List.mem_map.mpr ⟨entry, hsub hentry, heq⟩)
    · exact hnot (List.mem_map.mpr ⟨entry, hentry, List.mem_singleton.mp hnew⟩)
  have hbefore : (attrs.insertBefore anchor name value).entries
      = front ++ (name, some value) :: (anchor, old) :: back := by
    rw [← (Edit.insertBeforeAt_eq hd anchor name value).2]
    unfold Edit.onList
    dsimp only
    rw [Edit.without_eq_self hname, hsplit, Edit.cut?_append hfront, hold]
  rw [hbefore, hsplit, List.flatMap_append, List.flatMap_cons,
    hkept front (hsplit ▸ List.subset_append_left _ _) hfront,
    hkept back (hsplit ▸ fun entry hentry => by simp [hentry]) hback]
  unfold replaceEntry
  rw [if_pos rfl]
  rfl

end Attributes

namespace Adapter

open Attributes (replaceEntry)

variable {attrs : Attributes} {binding : Option Directive} {list base : String} {d : Directive}

/-! ### The words of the class -/

/-- The base classes, put at the end of a list that does not end with them. -/
def withBase (gap list base : String) : String :=
  if endsWithBase list base then list else list ++ gap ++ base

theorem endsWithBase_withBase {gap : String} (hne : gap.toList ≠ [])
    (hgap : Text.isBlankText gap = true) (list base : String) :
    endsWithBase (withBase gap list base) base = true := by
  unfold withBase
  split
  · assumption
  · unfold endsWithBase
    rw [Text.words_append_blanks list base hne hgap, List.isSuffixOf_iff_suffix]
    exact List.suffix_append _ _

/-- The base classes, where the list does not end with them. -/
def missingBase (base list : String) : List String :=
  if (Text.words base).isSuffixOf (Text.words list) then [] else Text.words base

theorem words_withBase {gap : String} (hne : gap.toList ≠ [])
    (hgap : Text.isBlankText gap = true) (list base : String) :
    Text.words (withBase gap list base) = Text.words list ++ missingBase base list := by
  unfold missingBase
  show Text.words (if (Text.words base).isSuffixOf (Text.words list) then _ else _) = _
  split
  · rw [List.append_nil]
  · exact Text.words_append_blanks list base hne hgap

/-! ### The place of the class -/

/-- What becomes of an attribute where the class is `list`.  A class that is there keeps its place,
and a new one is put before what becomes of the first binding. -/
def classedEntry (binding : Option Directive) (present : Bool) (list : String)
    (bound : Directive → List Attribute) (entry : Attribute) : List Attribute :=
  if entry.1 = "class" then [("class", some list)]
  else
    match binding with
    | some d =>
      if entry.1 = d.name then (if present then [] else [("class", some list)]) ++ bound d
      else [entry]
    | none => [entry]

/-- A new class that is put at the end, where there is no binding. -/
def newClass (binding : Option Directive) (present : Bool) (list : String) : List Attribute :=
  if present || binding.isSome then [] else [("class", some list)]

theorem newClass_some (d : Directive) (present : Bool) (list : String) :
    newClass (some d) present list = [] := by
  unfold newClass
  rw [Option.isSome_some, Bool.or_true]
  rfl

/-- Only what becomes of the first binding matters. -/
theorem classedEntry_congr {bound bound' : Directive → List Attribute} (present : Bool)
    (list : String) (h : bound d = bound' d) :
    classedEntry (some d) present list bound = classedEntry (some d) present list bound' := by
  funext entry
  unfold classedEntry
  dsimp only
  rw [h]

theorem classedEntry_none (present : Bool) (list : String)
    (bound bound' : Directive → List Attribute) :
    classedEntry none present list bound = classedEntry none present list bound' := by
  funext entry
  unfold classedEntry
  rfl

/-- Puts the class in its place, where the binding stays. -/
def putClass (binding : Option Directive) (list : String) (attrs : Attributes) : Attributes :=
  match binding with
  | some d =>
    if attrs.contains "class" then attrs.insert "class" list
    else attrs.insertBefore d.name "class" list
  | none => attrs.insert "class" list

/-- The blanks before the base classes. -/
def gapBefore : Option Directive → String
  | some _ => "   "
  | none => " "

theorem isBlankText_gapBefore (binding : Option Directive) :
    (gapBefore binding).toList ≠ [] ∧ Text.isBlankText (gapBefore binding) = true := by
  cases binding with
  | none => decide
  | some d => exact (by decide : "   ".toList ≠ [] ∧ Text.isBlankText "   " = true)

/-- Adding the base classes is putting a class in its place, also where nothing is added. -/
theorem mergeClass_eq (hd : attrs.Distinct) (tag : String) (binding : Option Directive) :
    mergeClass (baseClasses tag) binding attrs
      = putClass binding (withBase (gapBefore binding)
          ((attrs.get? "class").getD "") (baseClasses tag)) attrs := by
  have hempty : endsWithBase "" (baseClasses tag) = false := endsWithBase_eq_false (by decide) tag
  unfold mergeClass putClass withBase
  dsimp only
  cases hlist : attrs.get? "class" with
  | none =>
      rw [Option.getD_none, hempty]
      cases binding <;> rfl
  | some list =>
      have hcontains : attrs.contains "class" = true :=
        Attributes.contains_iff.mpr (Attributes.mem_names_of_get? hlist)
      rw [Option.getD_some, hcontains]
      cases hends : endsWithBase list (baseClasses tag) with
      | false => cases binding <;> rfl
      | true =>
          have hne : list ≠ "" := by
            rintro rfl
            rw [hempty] at hends
            cases hends
          have hsame := hd.insert_eq_self hlist hne
          cases binding <;> exact hsame.symm

theorem foldClass_none (base : String) (attrs : Attributes) :
    foldClass base none attrs = mergeClass base none attrs := rfl

theorem foldClass_some (base : String) (d : Directive) (attrs : Attributes) :
    foldClass base (some d) attrs
      = if attrs.contains "class" then
          (attrs.insert "class" (Encoding.braces.encode d.expression ++ " "
            ++ withBase "  " ((attrs.get? "class").getD "") base)).erase d.name
        else attrs.replaceD d.name [("class", some (Encoding.braces.encode d.expression ++ " "
          ++ withBase "  " ((attrs.get? "class").getD "") base))] := by
  unfold foldClass withBase
  dsimp only
  cases endsWithBase ((attrs.get? "class").getD "") base with
  | true => rfl
  | false => simp only [String.append_assoc, Bool.false_eq_true, if_false]

theorem ne_class_of_directive? (h : attrs.directive? .classBinding = some d) : d.name ≠ "class" := by
  intro heq
  have hkind := (Attributes.name_of_directive? h).2
  rw [heq] at hkind
  exact absurd hkind (by decide)

/-- The entry of the first binding. -/
theorem eq_of_directive? (hd : attrs.Distinct)
    (h : attrs.directive? .classBinding = some d) {entry : Attribute}
    (hentry : entry ∈ attrs.entries) (hname : entry.1 = d.name) : entry = (d.name, d.value) :=
  List.inj_on_of_nodup_map hd hentry
    (Attributes.mem_of_mem_directives (Attributes.mem_of_directive? h).1).1 hname

/-- A class that is there keeps its place. -/
theorem entries_insert_class (hd : attrs.Distinct) (hclass : "class" ∈ attrs.names)
    (list : String) :
    (attrs.insert "class" list).entries
      = attrs.entries.flatMap (classedEntry (attrs.directive? .classBinding) true list
          fun d => [(d.name, d.value)]) := by
  show (attrs.set "class" (some list)).entries = _
  rw [Attributes.entries_set_of_mem hclass]
  refine List.flatMap_congr fun entry hentry => ?_
  rw [Attributes.replaceEntry_value]
  unfold classedEntry
  split
  · rfl
  · cases hbinding : attrs.directive? .classBinding with
    | none => rfl
    | some d =>
        dsimp only
        split
        · rename_i hbound
          rw [eq_of_directive? hd hbinding hentry hbound]
          rfl
        · rfl

/-- A new class is put directly before the binding. -/
theorem entries_insertBefore_class (hd : attrs.Distinct) (hclass : "class" ∉ attrs.names)
    (hbinding : attrs.directive? .classBinding = some d) (list : String) :
    (attrs.insertBefore d.name "class" list).entries
      = attrs.entries.flatMap (classedEntry (some d) false list fun d => [(d.name, d.value)]) := by
  have hmem := (Attributes.mem_of_mem_directives (Attributes.mem_of_directive? hbinding).1).1
  rw [hd.entries_insertBefore_of_not_mem hmem hclass]
  refine List.flatMap_congr fun entry hentry => ?_
  have hother : entry.1 ≠ "class" := fun heq => hclass (List.mem_map.mpr ⟨entry, hentry, heq⟩)
  unfold replaceEntry classedEntry
  rw [if_neg hother]
  dsimp only
  split
  · rfl
  · rename_i hbound
    refine if_neg fun hnew => ?_
    rcases List.mem_cons.mp hnew with heq | hnew
    · exact hother heq
    · exact hbound (List.mem_singleton.mp hnew)

/-- The class in its place, entry by entry. -/
theorem entries_putClass (hd : attrs.Distinct) (list : String) :
    (putClass (attrs.directive? .classBinding) list attrs).entries
      = attrs.entries.flatMap (classedEntry (attrs.directive? .classBinding)
          (attrs.contains "class") list fun d => [(d.name, d.value)])
        ++ newClass (attrs.directive? .classBinding) (attrs.contains "class") list := by
  unfold putClass
  cases hcontains : attrs.contains "class" with
  | true =>
      have hnew : newClass (attrs.directive? .classBinding) true list = [] := rfl
      rw [hnew, List.append_nil, ← entries_insert_class hd (Attributes.contains_iff.mp hcontains)]
      cases attrs.directive? .classBinding <;> rfl
  | false =>
      have hnot : "class" ∉ attrs.names := Attributes.contains_eq_false_iff.mp hcontains
      cases hbinding : attrs.directive? .classBinding with
      | none =>
          show (attrs.set "class" (some list)).entries = _ ++ [("class", some list)]
          rw [Attributes.entries_set_of_not_mem _ hnot]
          refine congrArg (· ++ [("class", some list)]) ?_
          refine (List.flatMap_singleton' _).symm.trans (List.flatMap_congr fun entry hentry => ?_)
          exact (if_neg fun heq => hnot (List.mem_map.mpr ⟨entry, hentry, heq⟩)).symm
      | some d =>
          rw [newClass_some, List.append_nil, ← entries_insertBefore_class hd hnot hbinding]
          rfl

/-- What becomes of the binding can be changed where it stands. -/
theorem entries_set_classed {attrs' : Attributes} {present : Bool}
    (hbinding : attrs.directive? .classBinding = some d)
    (h : attrs'.entries = attrs.entries.flatMap
      (classedEntry (some d) present list fun d => [(d.name, d.value)]))
    (value : Option String) :
    (attrs'.set d.name value).entries = attrs.entries.flatMap
      (classedEntry (some d) present list fun d => [(d.name, value)]) := by
  have hclass := ne_class_of_directive? hbinding
  have hmem := (Attributes.mem_of_mem_directives (Attributes.mem_of_directive? hbinding).1).1
  have hmem' : d.name ∈ attrs'.names := by
    unfold Attributes.names
    rw [h]
    refine List.mem_map.mpr ⟨(d.name, d.value), List.mem_flatMap.mpr ⟨_, hmem, ?_⟩, rfl⟩
    simp [classedEntry, hclass]
  rw [Attributes.entries_set_of_mem hmem', h, List.flatMap_assoc]
  refine List.flatMap_congr fun entry hentry => ?_
  have hkept : ∀ entry : Attribute, entry.1 ≠ d.name →
      replaceEntry d.name [(d.name, value)] entry = [entry] := fun entry hne =>
    (Attributes.replaceEntry_value ..).trans (if_neg hne)
  have hbound : replaceEntry d.name [(d.name, value)] (d.name, d.value) = [(d.name, value)] :=
    if_pos rfl
  unfold classedEntry
  split
  · rw [List.flatMap_singleton, hkept _ hclass.symm]
  · dsimp only
    split
    · rw [List.flatMap_append, List.flatMap_singleton, hbound]
      split
      · rfl
      · rw [List.flatMap_singleton, hkept _ hclass.symm]
    · rename_i hne
      rw [List.flatMap_singleton, hkept _ hne]

/-- The binding gives way to the class. -/
theorem entries_foldClass (hd : attrs.Distinct) (hbinding : attrs.directive? .classBinding = some d)
    (list : String) :
    (if attrs.contains "class" then (attrs.insert "class" list).erase d.name
      else attrs.replaceD d.name [("class", some list)]).entries
      = attrs.entries.flatMap
          (classedEntry (some d) (attrs.contains "class") list fun _ => []) := by
  have hclass := ne_class_of_directive? hbinding
  have hname := (Attributes.name_of_directive? hbinding).1
  cases hcontains : attrs.contains "class" with
  | true =>
      rw [if_pos rfl, Attributes.erase_entries]
      show List.flatMap (replaceEntry d.name []) (attrs.set "class" (some list)).entries = _
      rw [Attributes.entries_set_of_mem (Attributes.contains_iff.mp hcontains), List.flatMap_assoc]
      refine List.flatMap_congr fun entry _ => ?_
      rw [Attributes.replaceEntry_value]
      unfold classedEntry
      split
      · rw [List.flatMap_singleton, Attributes.replaceEntry_nil, if_neg hclass.symm]
      · rw [List.flatMap_singleton, Attributes.replaceEntry_nil]
        rfl
  | false =>
      have hnot : "class" ∉ attrs.names := Attributes.contains_eq_false_iff.mp hcontains
      have hone : ([("class", some list)].map Prod.fst).Nodup := List.nodup_singleton "class"
      rw [if_neg Bool.false_ne_true, hd.entries_replaceD hname hone]
      refine List.flatMap_congr fun entry hentry => ?_
      have hother : entry.1 ≠ "class" := fun heq => hnot (List.mem_map.mpr ⟨entry, hentry, heq⟩)
      unfold replaceEntry classedEntry
      rw [if_neg hother]
      dsimp only
      split
      · rfl
      · exact if_neg (by simpa using hother)

theorem exists_mergeClass (hd : attrs.Distinct) (tag : String) :
    ∃ list, Text.words list = Text.words ((attrs.get? "class").getD "")
          ++ missingBase (baseClasses tag) ((attrs.get? "class").getD "") ∧
      endsWithBase list (baseClasses tag) = true ∧
      (mergeClass (baseClasses tag) (attrs.directive? .classBinding) attrs).entries
        = attrs.entries.flatMap (classedEntry (attrs.directive? .classBinding)
            (attrs.contains "class") list fun d => [(d.name, d.value)])
          ++ newClass (attrs.directive? .classBinding) (attrs.contains "class") list := by
  obtain ⟨hne, hgap⟩ := isBlankText_gapBefore (attrs.directive? .classBinding)
  refine ⟨_, words_withBase hne hgap _ _, endsWithBase_withBase hne hgap _ _, ?_⟩
  rw [mergeClass_eq hd, entries_putClass hd]

/-! ### Every platform -/

/-- The words of the class: those of the binding, where it gives way to the class, those that were
there, and the base classes unless these are the last of them. -/
def classWords (target : Target) (tag : String) (attrs : Attributes) : List String :=
  let list := (attrs.get? "class").getD ""
  (match target.isMiniProgram, attrs.directive? .classBinding with
    | true, some d => Text.words ("\x7b\x7b" ++ d.expression ++ "\x7d\x7d")
    | _, _ => []) ++
    Text.words list ++ missingBase ("cml-base cml-" ++ tag) list

/-- What becomes of the first binding.  It stays on the web, is wrapped on weex, and is gone
elsewhere. -/
def boundClass (target : Target) (d : Directive) : List Attribute :=
  match target with
  | .web => [(d.name, d.value)]
  | .weex =>
    if Text.beginsWith "_weexClassProxy(" (Text.trim d.expression) then [(d.name, d.value)]
    else [(d.name, some ("_weexClassProxy((" ++ Text.trim d.expression ++ "))"))]
  | .wx | .alipay | .baidu => []

/-- The attributes of an element that has been given its class. -/
structure Classed (target : Target) (tag : String) (attrs attrs' : Attributes) (list : String) :
    Prop where
  words : Text.words list = classWords target tag attrs
  ends : endsWithBase list (baseClasses tag) = true
  entries : attrs'.entries = attrs.entries.flatMap (classedEntry (attrs.directive? .classBinding)
      (attrs.contains "class") list (boundClass target))
    ++ newClass (attrs.directive? .classBinding) (attrs.contains "class") list

variable {target : Target} {style : Option StyleConfig} {attrs' : Attributes} {tag : String}
variable {normalizer : Target → Option StyleConfig → String → String}

theorem baseClasses_eq (tag : String) : baseClasses tag = "cml-base cml-" ++ tag := by
  unfold baseClasses
  rw [show "cml-base cml-" = Dialect.baseClass ++ " cml-" by decide]

theorem classed_web (hd : attrs.Distinct) (tag : String) :
    ∃ list, Classed .web tag attrs
      (mergeClass (baseClasses tag) (attrs.directive? .classBinding) attrs) list := by
  obtain ⟨list, hwords, hends, hentries⟩ := exists_mergeClass hd tag
  refine ⟨list, ?_, hends, hentries⟩
  rw [hwords, baseClasses_eq]
  rfl

theorem classed_weex (hd : attrs.Distinct) (tag : String) :
    ∃ list, Classed .weex tag attrs (wrapClassBinding (attrs.directive? .classBinding)
      (mergeClass (baseClasses tag) (attrs.directive? .classBinding) attrs)) list := by
  obtain ⟨list, hwords, hends, hentries⟩ := exists_mergeClass hd tag
  refine ⟨list, ?_, hends, ?_⟩
  · rw [hwords, baseClasses_eq]
    rfl
  · cases hbinding : attrs.directive? .classBinding with
    | none =>
        rw [hbinding] at hentries
        rw [classedEntry_none _ _ (boundClass .weex) fun d => [(d.name, d.value)]]
        exact hentries
    | some d =>
        have hcall : Dialect.classProxy ++ "(" = "_weexClassProxy(" := by decide
        rw [hbinding, newClass_some, List.append_nil] at hentries
        rw [newClass_some, List.append_nil]
        unfold wrapClassBinding classCall
        dsimp only
        rw [hcall]
        cases hbegins : Text.beginsWith "_weexClassProxy(" (Text.trim d.expression) with
        | true =>
            rw [if_pos rfl, hentries]
            refine congrArg (attrs.entries.flatMap ·) (classedEntry_congr _ _ ?_)
            unfold boundClass
            rw [hbegins]
            rfl
        | false =>
            rw [if_neg Bool.false_ne_true, if_neg Bool.false_ne_true]
            show ((mergeClass _ _ _).set d.name _).entries = _
            rw [entries_set_classed hbinding hentries]
            refine congrArg (attrs.entries.flatMap ·) (classedEntry_congr _ _ ?_)
            unfold boundClass
            rw [hbegins]
            rfl

theorem classed_mini (hmini : target.isMiniProgram = true) (hd : attrs.Distinct) (tag : String) :
    ∃ list, Classed target tag attrs
      (foldClass (baseClasses tag) (attrs.directive? .classBinding) attrs) list := by
  cases hbinding : attrs.directive? .classBinding with
  | none =>
      obtain ⟨list, hwords, hends, hentries⟩ := exists_mergeClass hd tag
      rw [hbinding] at hentries
      refine ⟨list, ?_, hends, ?_⟩
      · unfold classWords
        rw [hwords, baseClasses_eq, hmini, hbinding]
        rfl
      · rw [foldClass_none, hentries, hbinding,
          classedEntry_none _ _ (boundClass target) fun d => [(d.name, d.value)]]
  | some d =>
      have hbound : boundClass target d = [] := by
        cases target with
        | web | weex => cases hmini
        | wx | alipay | baidu => rfl
      refine ⟨Encoding.braces.encode d.expression ++ " "
        ++ withBase "  " ((attrs.get? "class").getD "") (baseClasses tag), ?_, ?_, ?_⟩
      · unfold classWords
        rw [Text.words_append_blank, words_withBase (by decide) (by decide), baseClasses_eq, hmini,
          hbinding, List.append_assoc]
        rfl
      · exact endsWithBase_append_left (endsWithBase_withBase (by decide) (by decide) _ _) _
      · rw [foldClass_some, entries_foldClass hd hbinding, hbinding, newClass_some, List.append_nil]
        exact congrArg (attrs.entries.flatMap ·) (classedEntry_congr _ _ hbound.symm)

theorem classes_mini (hmini : target.isMiniProgram = true) (site : Site) (attrs : Attributes) :
    classes ⟨target.dialect, style, normalizer⟩ site attrs
      = .ok (foldClass (baseClasses site.tag) (attrs.directive? .classBinding) attrs) := by
  cases target with
  | web | weex => cases hmini
  | wx | alipay | baidu => rfl

/-- What the pass makes of an element. -/
theorem exists_classed (target : Target) (style : Option StyleConfig)
    (normalizer : Target → Option StyleConfig → String → String) (site : Site)
    (hd : attrs.Distinct) :
    ∃ attrs' list, classes ⟨target.dialect, style, normalizer⟩ site attrs = .ok attrs' ∧
      Classed target site.tag attrs attrs' list := by
  cases hmini : target.isMiniProgram with
  | true =>
      obtain ⟨list, h⟩ := classed_mini hmini hd site.tag
      exact ⟨_, list, classes_mini hmini site attrs, h⟩
  | false =>
      cases target with
      | web =>
          obtain ⟨list, h⟩ := classed_web hd site.tag
          exact ⟨_, list, rfl, h⟩
      | weex =>
          obtain ⟨list, h⟩ := classed_weex hd site.tag
          exact ⟨_, list, rfl, h⟩
      | wx | alipay | baidu => cases hmini

/-- The class can be found. -/
theorem Classed.get?_eq (h : Classed target tag attrs attrs' list) (hd : attrs'.Distinct) :
    attrs'.get? "class" = some list := by
  refine hd.get?_eq ?_
  rw [h.entries, List.mem_append]
  by_cases hclass : "class" ∈ attrs.names
  · obtain ⟨old, hold⟩ := Attributes.mem_names.mp hclass
    exact .inl (List.mem_flatMap.mpr ⟨_, hold, by simp [classedEntry]⟩)
  · have hpresent : attrs.contains "class" = false := Attributes.contains_eq_false_iff.mpr hclass
    cases hbinding : attrs.directive? .classBinding with
    | none =>
        right
        rw [hpresent]
        exact List.mem_singleton_self _
    | some d =>
        have hmem := (Attributes.mem_of_mem_directives (Attributes.mem_of_directive? hbinding).1).1
        refine .inl (List.mem_flatMap.mpr ⟨_, hmem, ?_⟩)
        simp [classedEntry, ne_class_of_directive? hbinding, hpresent]

/-! ### A second time -/

/-- What becomes of an attribute is the class, or comes from the first binding, or is kept. -/
theorem mem_classedEntry {present : Bool} {bound : Directive → List Attribute}
    {entry new : Attribute} (h : new ∈ classedEntry binding present list bound entry) :
    new = ("class", some list) ∨ (∃ d, binding = some d ∧ new ∈ bound d) ∨
      new = entry ∧ ∀ d, binding = some d → entry.1 ≠ d.name := by
  unfold classedEntry at h
  split at h
  · exact .inl (List.mem_singleton.mp h)
  · cases binding with
    | none => exact .inr (.inr ⟨List.mem_singleton.mp h, nofun⟩)
    | some d =>
        dsimp only at h
        split at h
        · rcases List.mem_append.mp h with hclass | hbound
          · split at hclass
            · exact absurd hclass List.not_mem_nil
            · exact .inl (List.mem_singleton.mp hclass)
          · exact .inr (.inl ⟨d, rfl, hbound⟩)
        · rename_i hne
          refine .inr (.inr ⟨List.mem_singleton.mp h, fun e he => ?_⟩)
          cases he
          exact hne

theorem mem_newClass {present : Bool} {new : Attribute} (h : new ∈ newClass binding present list) :
    new = ("class", some list) := by
  unfold newClass at h
  split at h
  · exact absurd h List.not_mem_nil
  · exact List.mem_singleton.mp h

/-- Of one binding at most, what is left is what has become of it. -/
theorem Classed.mem_boundClass (h : Classed target tag attrs attrs' list)
    (hone : (attrs.directivesOf .classBinding).length ≤ 1) {d' : Directive}
    (hd' : d' ∈ attrs'.directivesOf .classBinding) :
    ∃ d, attrs.directive? .classBinding = some d ∧ (d'.name, d'.value) ∈ boundClass target d := by
  have hkind := (Attributes.name_of_mem_directivesOf hd').2
  have hentry := (Attributes.mem_of_mem_directives (Attributes.mem_directivesOf.mp hd').1).1
  have hclass : (d'.name, d'.value) ≠ ("class", some list) := fun heq =>
    absurd ((Prod.mk.inj heq).1 ▸ hkind) (by decide)
  rw [h.entries, List.mem_append] at hentry
  rcases hentry with hentry | hnew
  · obtain ⟨entry, hold, hentry⟩ := List.mem_flatMap.mp hentry
    rcases mem_classedEntry hentry with heq | hbound | ⟨heq, hne⟩
    · exact absurd heq hclass
    · exact hbound
    · -- Another binding would be a second one.
      have hname : d'.name ∈ attrs.names :=
        List.mem_map.mpr ⟨entry, hold, congrArg Prod.fst heq.symm⟩
      obtain ⟨e, he, hename, hekind⟩ := Attributes.exists_directive_of_mem_names hname hkind
      cases hbinding : attrs.directive? .classBinding with
      | none => exact absurd hkind (Attributes.directive?_eq_none_iff.mp hbinding d'.name hname)
      | some d =>
          have hsame : e = d := eq_of_length_le_one hone
            (Attributes.mem_directivesOf.mpr ⟨he, hekind⟩)
            (Attributes.mem_directivesOf.mpr (Attributes.mem_of_directive? hbinding))
          rw [hsame] at hename
          exact absurd ((congrArg Prod.fst heq).symm.trans hename.symm) (hne d hbinding)
  · exact absurd (mem_newClass hnew) hclass

theorem mergeClass_of_endsWithBase {base : String} (hlist : attrs.get? "class" = some list)
    (hends : endsWithBase list base = true) (binding : Option Directive) :
    mergeClass base binding attrs = attrs := by
  unfold mergeClass
  rw [hlist]
  exact if_pos hends

/-- A call that has been written is one. -/
theorem beginsWith_of_mem_boundClass {value : Option String} {name : String}
    (h : (name, value) ∈ boundClass .weex d) :
    Text.beginsWith (Dialect.classProxy ++ "(") (Text.trim (value.getD "")) = true := by
  have hcall : Dialect.classProxy ++ "(" = "_weexClassProxy(" := by decide
  rw [hcall]
  unfold boundClass at h
  dsimp only at h
  split at h
  · rename_i hbegins
    cases List.mem_singleton.mp h
    exact hbegins
  · cases List.mem_singleton.mp h
    rw [Option.getD_some, Text.trim_append_append
      (show "_weexClassProxy((".toList.head? = some '_' by decide)
      (show "))".toList.getLast? = some ')' by decide) (by decide) (by decide),
      String.append_assoc]
    exact Text.beginsWith_append "_weexClassProxy(" ("(" ++ (Text.trim d.expression ++ "))"))

/-- With one binding at most, the pass makes nothing more of what it has made. -/
theorem Classed.classes_eq (h : Classed target tag attrs attrs' list) (hd : attrs'.Distinct)
    (hone : (attrs.directivesOf .classBinding).length ≤ 1) {again : Site} (htag : again.tag = tag) :
    classes ⟨target.dialect, style, normalizer⟩ again attrs' = .ok attrs' := by
  have hmerge := mergeClass_of_endsWithBase (h.get?_eq hd) h.ends
  subst htag
  cases hmini : target.isMiniProgram with
  | true =>
      have hgone : attrs'.directive? .classBinding = none := by
        rw [Attributes.directive?_eq_head?, List.head?_eq_none_iff, List.eq_nil_iff_forall_not_mem]
        intro d' hd'
        obtain ⟨d, -, hbound⟩ := h.mem_boundClass hone hd'
        cases target with
        | web | weex => cases hmini
        | wx | alipay | baidu => cases hbound
      rw [classes_mini hmini, hgone, foldClass_none, hmerge]
  | false =>
      cases target with
      | web => exact congrArg Except.ok (hmerge _)
      | weex =>
          show Except.ok (wrapClassBinding _ (mergeClass _ _ attrs')) = _
          rw [hmerge]
          unfold wrapClassBinding
          cases hbinding : attrs'.directive? .classBinding with
          | none => rfl
          | some d' =>
              have hd' : d' ∈ attrs'.directivesOf .classBinding :=
                Attributes.mem_directivesOf.mpr (Attributes.mem_of_directive? hbinding)
              obtain ⟨d, -, hbound⟩ := h.mem_boundClass hone hd'
              exact congrArg Except.ok (if_pos (beginsWith_of_mem_boundClass hbound))
      | wx | alipay | baidu => cases hmini

/-- The pass of classes on one element.  The class has the words of the binding, where it gives way
to the class, those of the class that was there, and the base classes.  It stands where it stood,
or in the place of the binding, or directly before it, or at the end; what becomes of the binding
is `boundClass`, and all else is kept.  With one binding at most, a second time changes nothing. -/
theorem classes_merge (target : Target) (style : Option StyleConfig)
    (normalizer : Target → Option StyleConfig → String → String) (site : Site)
    (hd : attrs.Distinct) :
    ∃ attrs' list, classes ⟨target.dialect, style, normalizer⟩ site attrs = .ok attrs' ∧
      attrs'.get? "class" = some list ∧ Text.words list = classWords target site.tag attrs ∧
      attrs'.entries = attrs.entries.flatMap (classedEntry (attrs.directive? .classBinding)
          (attrs.contains "class") list (boundClass target))
        ++ newClass (attrs.directive? .classBinding) (attrs.contains "class") list ∧
      ((attrs.directivesOf .classBinding).length ≤ 1 → ∀ again : Site, again.tag = site.tag →
        classes ⟨target.dialect, style, normalizer⟩ again attrs' = .ok attrs') := by
  obtain ⟨attrs', list, hclasses, h⟩ := exists_classed target style normalizer site hd
  have hd' := (writesOnly_classes site hd hclasses).distinct
  exact ⟨attrs', list, hclasses, h.get?_eq hd', h.words, h.entries,
    fun hone again htag => h.classes_eq hd' hone htag⟩

/-- A bare attribute, a binding, and a class that names the base class among others. -/
theorem classes_merge_bound :
    let site : Site := ⟨"view", ⟨0, 0⟩, fun _ => none⟩
    let attrs : Attributes := ⟨[("id", none), (":class", some " b "), ("class", some "cml-base\ta ")]⟩
    let merged : Attributes := ⟨[("id", none), (":class", some "_weexClassProxy((b))"),
      ("class", some "cml-base\ta    cml-base cml-view")]⟩
    (attrs.Distinct ∧ (attrs.directivesOf .classBinding).length ≤ 1) ∧
      classes (.forTarget .weex none) site attrs = .ok merged ∧
      classes (.forTarget .weex none) site merged = .ok merged := by
  intro site attrs merged
  have hd : attrs.Distinct := by
    show List.Nodup ["id", ":class", "class"]
    decide
  have hone : (attrs.directivesOf .classBinding).length ≤ 1 := by decide +kernel
  have hrun : classes (.forTarget .weex none) site attrs = .ok merged := by decide +kernel
  obtain ⟨attrs', list, hclasses, -, -, -, hagain⟩ :=
    classes_merge .weex none Style.normalize site hd
  cases hclasses.symm.trans hrun
  exact ⟨⟨hd, hone⟩, hrun, hagain hone site rfl⟩

end Adapter

end TemplateCompiler
