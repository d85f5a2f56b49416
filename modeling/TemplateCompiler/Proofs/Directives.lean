/-
What the name of an attribute says.

The kind of a directive and the property it binds follow from the name of its attribute,
and so do the directives of an element from its names.  `kind?` is that reading of a name.
Statements about what is left of a kind, or about what an adapter brings in, are
statements about names, and values need not be followed.
-/
import Mathlib.Data.List.Basic
import TemplateCompiler.Adapter.Conditional
import TemplateCompiler.Proofs.Attributes
import TemplateCompiler.Proofs.Reading.Cursor

namespace TemplateCompiler

namespace Text

theorem afterChars?_eq_none_iff {mark cs : List Char} :
    afterChars? mark cs = none ↔ mark.isPrefixOf cs = false := by
  induction mark generalizing cs with
  | nil => simp [afterChars?]
  | cons m mark ih =>
      cases cs with
      | nil => simp [afterChars?]
      | cons c cs =>
          by_cases hmc : m = c
          · simp [afterChars?, hmc, ih]
          · simp [afterChars?, List.isPrefixOf, hmc]

theorem after?_eq_none_iff {start s : String} :
    after? start s = none ↔ beginsWith start s = false := by
  unfold after? beginsWith
  rw [Option.map_eq_none_iff, afterChars?_eq_none_iff]

/-- What follows the start of a text is made of its characters. -/
theorem mem_of_after? {start s rest : String} (h : after? start s = some rest) {c : Char}
    (hc : c ∈ rest.toList) : c ∈ s.toList := by
  unfold after? at h
  obtain ⟨cs, hcs, rfl⟩ := Option.map_eq_some_iff.mp h
  rw [String.toList_ofList] at hc
  rw [eq_append_of_afterChars? hcs]
  exact List.mem_append_right _ hc

theorem eq_append_of_after? {start s rest : String} (h : after? start s = some rest) :
    s = start ++ rest := by
  unfold after? at h
  obtain ⟨cs, hcs, rfl⟩ := Option.map_eq_some_iff.mp h
  rw [← String.toList_inj, String.toList_append, String.toList_ofList]
  exact eq_append_of_afterChars? hcs

theorem beginsWith_append (start rest : String) : beginsWith start (start ++ rest) = true := by
  unfold beginsWith
  rw [String.toList_append, List.isPrefixOf_iff_prefix]
  exact List.prefix_append _ _

theorem after?_append (start rest : String) : after? start (start ++ rest) = some rest := by
  unfold after?
  rw [String.toList_append, afterChars?_append, Option.map_some, String.ofList_toList]

/-- A text that begins with a longer start begins with a shorter one. -/
theorem beginsWith_of_append {start more s : String} (h : beginsWith start s = false) :
    beginsWith (start ++ more) s = false := by
  unfold beginsWith at *
  rw [← Bool.not_eq_true, List.isPrefixOf_iff_prefix] at *
  rw [String.toList_append]
  exact fun hprefix => h ((List.prefix_append _ _).trans hprefix)

end Text

namespace Directive

/-- The kind of directive that attributes of this name are. -/
def kind? (name : String) : Option DirectiveKind := (ofAttribute? (name, none)).map Directive.kind

variable {attr : Attribute} {d : Directive}

/-! ### A directive and its attribute -/

/-- The value of an attribute is handed on and not looked at. -/
theorem ofAttribute?_eq (name : String) (value : Option String) :
    ofAttribute? (name, value) = (ofAttribute? (name, none)).map fun d => { d with value } := by
  unfold ofAttribute?
  dsimp only
  split
  · rfl
  · split
    · rfl
    · split
      · rfl
      · split
        · split <;> rfl
        · cases Text.after? "v-" name with
          | none => rfl
          | some rest => simp [Function.comp_def]

theorem name_eq_of_none {name : String} (h : ofAttribute? (name, none) = some d) :
    d.name = name := by
  unfold ofAttribute? at h
  dsimp only at h
  split at h
  · cases h; rfl
  · split at h
    · cases h; rfl
    · split at h
      · cases h; rfl
      · split at h
        · split at h
          · cases h
          · cases h; rfl
        · obtain ⟨rest, -, hmap⟩ := Option.bind_eq_some_iff.mp h
          obtain ⟨kind, -, rfl⟩ := Option.map_eq_some_iff.mp hmap
          rfl

/-- A directive carries the attribute that it was read off. -/
theorem attribute_eq (h : ofAttribute? attr = some d) : (d.name, d.value) = attr := by
  obtain ⟨name, value⟩ := attr
  rw [ofAttribute?_eq] at h
  obtain ⟨d', hd', rfl⟩ := Option.map_eq_some_iff.mp h
  rw [← name_eq_of_none hd']

theorem kind?_eq (h : ofAttribute? attr = some d) : kind? attr.1 = some d.kind := by
  obtain ⟨name, value⟩ := attr
  rw [ofAttribute?_eq] at h
  obtain ⟨d', hd', rfl⟩ := Option.map_eq_some_iff.mp h
  unfold kind?
  rw [hd']
  rfl

theorem exists_of_kind? {kind : DirectiveKind} (h : kind? attr.1 = some kind) :
    ∃ d, ofAttribute? attr = some d ∧ d.kind = kind := by
  obtain ⟨name, value⟩ := attr
  unfold kind? at h
  obtain ⟨d, hd, rfl⟩ := Option.map_eq_some_iff.mp h
  exact ⟨{ d with value }, by rw [ofAttribute?_eq, hd]; rfl, rfl⟩

/-! ### The property of a binding -/

/-- What stands before the first full stop is made of the characters of the whole. -/
theorem mem_of_splitModifiers {name : String} {c : Char} (hc : c ∈ (splitModifiers name).1.toList) :
    c ∈ name.toList := by
  unfold splitModifiers at hc
  split at hc
  · simp at hc
  · rename_i base modifiers hsplit
    rw [String.toList_ofList] at hc
    have hjoin : ['.'].intercalate (name.toList.splitOn '.') = name.toList :=
      List.intercalate_splitOn '.'
    rw [hsplit] at hjoin
    rw [← hjoin]
    cases modifiers with
    | nil => simpa using hc
    | cons m modifiers => simp [hc]

/-- A binding is of a property, named in characters of the attribute's name. -/
theorem exists_property (h : ofAttribute? attr = some d) (hkind : d.kind = .bind) :
    ∃ property, d.arg = some property ∧ property ≠ "" ∧ property ≠ "class" ∧ property ≠ "style" ∧
      ∀ c ∈ property.toList, c ∈ attr.1.toList := by
  obtain ⟨name, value⟩ := attr
  unfold ofAttribute? at h
  dsimp only at h
  split at h
  · cases h; cases hkind
  · split at h
    · cases h; cases hkind
    · split at h
      · cases h; cases hkind
      · split at h
        · rename_i bound hbound
          split at h
          · cases h
          · rename_i hproper
            cases h
            refine ⟨_, rfl, fun hc => hproper (Or.inl hc), ?_, ?_, ?_⟩
            · intro hc
              unfold kindOfBinding at hkind
              rw [if_pos hc] at hkind
              cases hkind
            · intro hc
              unfold kindOfBinding at hkind
              rw [if_neg (by rw [hc]; decide), if_pos hc] at hkind
              cases hkind
            · intro c hc
              have hmem := mem_of_splitModifiers hc
              unfold boundName? at hbound
              cases hlong : Text.after? "v-bind:" name with
              | some rest =>
                  rw [hlong] at hbound
                  cases hbound
                  exact Text.mem_of_after? hlong hmem
              | none =>
                  rw [hlong] at hbound
                  exact Text.mem_of_after? hbound hmem
        · obtain ⟨rest, -, hmap⟩ := Option.bind_eq_some_iff.mp h
          obtain ⟨kind, hword, rfl⟩ := Option.map_eq_some_iff.mp hmap
          have hkind : kind = .bind := hkind
          subst hkind
          unfold kindOfWord? at hword
          split at hword <;> cases hword

/-- The reference is known by its name. -/
theorem eq_ref_of_kind? {name : String} (h : kind? name = some .ref) : name = "ref" := by
  unfold kind? ofAttribute? at h
  dsimp only at h
  split at h
  · assumption
  · split at h
    · cases h
    · split at h
      · cases h
      · split at h
        · split at h
          · cases h
          · unfold kindOfBinding at h
            rw [Option.map_some, Option.some.injEq] at h
            dsimp only at h
            split at h
            · cases h
            · split at h <;> cases h
        · obtain ⟨d, hd, hkind⟩ := Option.map_eq_some_iff.mp h
          obtain ⟨rest, -, hmap⟩ := Option.bind_eq_some_iff.mp hd
          obtain ⟨kind, hword, rfl⟩ := Option.map_eq_some_iff.mp hmap
          have hkind : kind = .ref := hkind
          subst hkind
          unfold kindOfWord? at hword
          split at hword <;> cases hword

/-- A name that is written like a binding or another directive, whether it is one or not. -/
def Marked (name : String) : Prop :=
  Text.beginsWith ":" name = true ∨ Text.beginsWith "v-" name = true

/-- Bindings are marked in both spellings. -/
theorem marked_binding (property : String) :
    Marked (":" ++ property) ∧ Marked ("v-bind:" ++ property) := by
  have hlong : "v-bind:" ++ property = "v-" ++ ("bind:" ++ property) := by
    rw [← String.append_assoc]
    rfl
  rw [hlong]
  exact ⟨.inl (Text.beginsWith_append _ _), .inr (Text.beginsWith_append _ _)⟩

/-- A name that is none of the fixed ones and has no mark of a directive is no directive. -/
theorem kind?_eq_none {name : String} (href : name ≠ "ref") (hclass : name ≠ "class")
    (hstyle : name ≠ "style") (hcolon : Text.beginsWith ":" name = false)
    (hdash : Text.beginsWith "v-" name = false) : kind? name = none := by
  have hlong : Text.beginsWith ("v-" ++ "bind:") name = false := Text.beginsWith_of_append hdash
  change Text.beginsWith "v-bind:" name = false at hlong
  unfold kind? ofAttribute? boundName?
  dsimp only
  rw [if_neg href, if_neg hclass, if_neg hstyle, Text.after?_eq_none_iff.mpr hlong,
    Text.after?_eq_none_iff.mpr hcolon, Text.after?_eq_none_iff.mpr hdash]
  rfl

end Directive

namespace Attributes

variable {attrs : Attributes} {kind : DirectiveKind} {d : Directive}

/-! ### The directives of an element -/

theorem mem_directives :
    d ∈ attrs.directives ↔ ∃ attr ∈ attrs.entries, Directive.ofAttribute? attr = some d :=
  List.mem_filterMap

/-- A directive stands among the attributes, under a name of its kind. -/
theorem mem_of_mem_directives (h : d ∈ attrs.directives) :
    (d.name, d.value) ∈ attrs.entries ∧ d.name ∈ attrs.names ∧
      Directive.ofAttribute? (d.name, d.value) = some d ∧ Directive.kind? d.name = some d.kind := by
  obtain ⟨attr, hattr, hd⟩ := mem_directives.mp h
  have heq := Directive.attribute_eq hd
  rw [← heq] at hattr hd
  exact ⟨hattr, List.mem_map.mpr ⟨_, hattr, rfl⟩, hd, Directive.kind?_eq hd⟩

theorem exists_directive_of_mem_names {name : String} (h : name ∈ attrs.names)
    (hkind : Directive.kind? name = some kind) :
    ∃ d ∈ attrs.directives, d.name = name ∧ d.kind = kind := by
  obtain ⟨attr, hattr, rfl⟩ := List.mem_map.mp h
  obtain ⟨d, hd, hdkind⟩ := Directive.exists_of_kind? hkind
  exact ⟨d, mem_directives.mpr ⟨attr, hattr, hd⟩, by rw [← Directive.attribute_eq hd], hdkind⟩

theorem mem_directivesOf : d ∈ attrs.directivesOf kind ↔ d ∈ attrs.directives ∧ d.kind = kind := by
  unfold directivesOf
  rw [List.mem_filter, decide_eq_true_eq]

/-- A directive that is asked for by its kind stands under a name of that kind. -/
theorem name_of_mem_directivesOf (h : d ∈ attrs.directivesOf kind) :
    d.name ∈ attrs.names ∧ Directive.kind? d.name = some kind := by
  obtain ⟨hmem, hkind⟩ := mem_directivesOf.mp h
  obtain ⟨-, hname, -, hk⟩ := mem_of_mem_directives hmem
  rw [hkind] at hk
  exact ⟨hname, hk⟩

theorem mem_of_directive? (h : attrs.directive? kind = some d) :
    d ∈ attrs.directives ∧ d.kind = kind :=
  ⟨List.mem_of_find?_eq_some h, by simpa using List.find?_some h⟩

theorem directive?_eq_head? (attrs : Attributes) (kind : DirectiveKind) :
    attrs.directive? kind = (attrs.directivesOf kind).head? := (List.head?_filter ..).symm

theorem directive?_eq_none_iff :
    attrs.directive? kind = none ↔ ∀ name ∈ attrs.names, Directive.kind? name ≠ some kind := by
  unfold directive?
  rw [List.find?_eq_none]
  constructor
  · intro h name hname hkind
    obtain ⟨d, hd, -, hdkind⟩ := exists_directive_of_mem_names hname hkind
    exact h d hd (by simpa using hdkind)
  · intro h d hd hkind
    obtain ⟨-, hname, -, hk⟩ := mem_of_mem_directives hd
    rw [decide_eq_true_eq] at hkind
    exact h d.name hname (by rw [hk, hkind])

theorem mem_conditionals :
    d ∈ attrs.conditionals ↔ d ∈ attrs.directives ∧ d.kind.isConditional = true := by
  unfold conditionals
  rw [List.mem_filter]

theorem name_mem_of_mem_conditionals (h : d ∈ attrs.conditionals) : d.name ∈ attrs.names :=
  (mem_of_mem_directives (mem_conditionals.mp h).1).2.1

/-- No binding is of a property that looks like a directive. -/
def BindsPlainly (attrs : Attributes) : Prop :=
  ∀ d ∈ attrs.directivesOf .bind, ∀ property, d.arg = some property →
    property ≠ "ref" ∧ Text.beginsWith ":" property = false ∧ Text.beginsWith "v-" property = false

instance (attrs : Attributes) : Decidable attrs.BindsPlainly :=
  inferInstanceAs (Decidable (∀ d ∈ attrs.directivesOf .bind, ∀ property ∈ d.arg,
    property ≠ "ref" ∧ Text.beginsWith ":" property = false ∧
      Text.beginsWith "v-" property = false))

/-- The property of such a binding is no directive. -/
theorem BindsPlainly.kind?_eq_none (h : attrs.BindsPlainly) {property : String}
    (hd : d ∈ attrs.directivesOf .bind) (harg : d.arg = some property) :
    Directive.kind? property = none := by
  obtain ⟨hmem, hkind⟩ := mem_directivesOf.mp hd
  obtain ⟨-, -, hof, -⟩ := mem_of_mem_directives hmem
  obtain ⟨property', harg', -, hclass, hstyle, -⟩ := Directive.exists_property hof hkind
  cases harg.symm.trans harg'
  obtain ⟨href, hcolon, hdash⟩ := h d hd property harg
  exact Directive.kind?_eq_none href hclass hstyle hcolon hdash

end Attributes

end TemplateCompiler
