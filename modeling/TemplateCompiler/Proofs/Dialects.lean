/-
What platforms have in common.

The dialects of the mini-program platforms differ in the names of conditions, loops and
input events, and in whether an expression stands between braces.  Templates that use none
of these names themselves are therefore compiled alike: there is one of the dialects, the
one without braces, from which each of the others arises by renaming, and a renaming is
carried through all the passes.  So a template is rejected for all of the platforms, with
one error, or for none, and what is written for two of them differs by names and braces.

It is essential that the template does not use these names.  An attribute that the author
called by one of them gives way to the condition on one platform and stays on another.

The web and weex differ in classes and styles only, and neither of the two is ever a reason
to fail.
-/
import TemplateCompiler.Proofs.Lockstep
import TemplateCompiler.Proofs.Stability

namespace TemplateCompiler

/-! ### Expressions and their encodings -/

/-- The value, encoded if there is an encoding. -/
def encodeWith : Option Encoding → Option String → Option String
  | some encoding, value => value.map encoding.encode
  | none, value => value

/-- One value under two encodings: the same expression, or none, in each of them.  Without encodings
it is the same value. -/
def SameValue : Option Encoding → Option Encoding → Option String → Option String → Prop
  | some encoding, some encoding', value, value' => ∃ expression : Option String,
      value = expression.map encoding.encode ∧ value' = expression.map encoding'.encode
  | none, none, value, value' => value' = value
  | _, _, _, _ => False

theorem sameValue_encodeWith {encoding encoding' : Option Encoding}
    (h : encoding.isSome = encoding'.isSome) (value : Option String) :
    SameValue encoding encoding' (encodeWith encoding value) (encodeWith encoding' value) := by
  cases encoding with
  | none =>
      cases encoding' with
      | none => rfl
      | some encoding' => cases h
  | some encoding =>
      cases encoding' with
      | none => cases h
      | some encoding' => exact ⟨value, rfl, rfl⟩

/-- Braces do not keep quotes from being spelled out. -/
theorem escapeText_encode (encoding : Encoding) (expression : String) :
    escapeText (encoding.encode expression) = encoding.encode (escapeText expression) := by
  cases encoding with
  | raw => rfl
  | braces =>
      rw [← String.toList_inj]
      unfold escapeText Encoding.encode
      simp only [String.toList_ofList, String.toList_append, escapeValue_append]
      rfl

/-- Quotes may be spelled out before or after. -/
theorem map_escapeText_encodeWith (encoding : Option Encoding) (value : Option String) :
    (encodeWith encoding value).map escapeText = encodeWith encoding (value.map escapeText) := by
  cases encoding with
  | none => rfl
  | some encoding =>
      show (value.map encoding.encode).map escapeText = (value.map escapeText).map encoding.encode
      rw [Option.map_map, Option.map_map]
      exact congrArg (Option.map · value) (funext (escapeText_encode encoding))

/-! ### The names of a dialect -/

/-- The attributes that listen for input. -/
def ModelForm.eventNames : ModelForm → List String
  | listener eventName _ => [eventName]
  | dataKey _ eventName _ => [eventName]

namespace Dialect

/-- The attributes of conditions, loops and input events. -/
def ownNames (δ : Dialect) : List String :=
  δ.conditional.names ++ δ.iteration.names ++ δ.model.eventNames

/-- How the expression is written that is the value of this attribute, where it is the expression
of a condition or the source of a loop. -/
def encoding? (δ : Dialect) (name : String) : Option Encoding :=
  if name ∈ δ.conditional.names then some δ.conditional.encoding
  else
    match δ.iteration with
    | .keep => none
    | .split _ _ sourceName encoding => if name = sourceName then some encoding else none

/-- What another dialect calls the attribute. -/
def nameIn (δ ε : Dialect) (name : String) : String :=
  ((δ.ownNames.zip ε.ownNames).lookup name).getD name

example : wx.ownNames.map (wx.nameIn alipay)
    = ["a:if", "a:elif", "a:else", "a:for-item", "a:for-index", "a:for", "bindInput"] := by decide

/-- One attribute in two dialects, each with its name for it and its encoding of expressions. -/
structure SameAttribute (δ ε : Dialect) (x y : Attribute) : Prop where
  name : y.1 = δ.nameIn ε x.1
  value : SameValue (δ.encoding? x.1) (ε.encoding? y.1) x.2 y.2

variable {δ ε : Dialect} {n : String}

theorem nameIn_of_not_mem (h : n ∉ δ.ownNames) : δ.nameIn ε n = n := by
  have hnone : (δ.ownNames.zip ε.ownNames).lookup n = none := by
    rw [List.lookup_eq_none_iff]
    rintro ⟨m, m'⟩ hmem
    rw [bne_iff_ne]
    rintro rfl
    exact h (List.of_mem_zip hmem).1
  unfold nameIn
  rw [hnone]
  rfl

theorem encoding?_of_not_mem (h : n ∉ δ.ownNames) : δ.encoding? n = none := by
  unfold ownNames at h
  rw [List.mem_append, List.mem_append, not_or, not_or] at h
  obtain ⟨⟨hconditional, hiteration⟩, -⟩ := h
  unfold encoding?
  rw [if_neg hconditional]
  split
  · rfl
  · rename_i hform
    rw [hform] at hiteration
    refine if_neg fun heq => hiteration ?_
    rw [heq]
    simp [IterationForm.names]

end Dialect

namespace Document

/-- One template in two dialects: the same tree with the same attributes, in the same order. -/
structure SameTemplate (δ ε : Dialect) (d d' : Document) : Prop where
  tree : SameTree d d'
  attributes : ∀ id e e', d.element? id = some e → d'.element? id = some e' →
    List.Forall₂ (δ.SameAttribute ε) e.attrs.entries e'.attrs.entries

end Document

/-! ### Templates without such names -/

/-- The names that some mini-program platform has for conditions, loops and input events. -/
def Target.reservedNames : List String :=
  (Target.all.filter Target.isMiniProgram).flatMap fun target => target.dialect.ownNames

/-- No attribute has one of these names, and no property that is bound. -/
structure Attributes.Neutral (attrs : Attributes) : Prop where
  names : ∀ n ∈ attrs.names, n ∉ Target.reservedNames
  bound : ∀ d ∈ attrs.directivesOf .bind, ∀ property, d.arg = some property →
    property ∉ Target.reservedNames

instance (attrs : Attributes) : Decidable attrs.Neutral :=
  decidable_of_iff ((∀ n ∈ attrs.names, n ∉ Target.reservedNames) ∧
      ∀ d ∈ attrs.directivesOf .bind, ∀ property ∈ d.arg, property ∉ Target.reservedNames)
    ⟨fun ⟨names, bound⟩ => ⟨names, bound⟩, fun h => ⟨h.names, h.bound⟩⟩

/-! ### From the dialect without braces to each of the others -/

namespace Target

variable {target : Target} {n : String}

theorem mem_reservedNames (hmini : target.isMiniProgram = true) (h : n ∈ target.dialect.ownNames) :
    n ∈ reservedNames :=
  List.mem_flatMap.mpr ⟨target, List.mem_filter.mpr ⟨target.mem_all, hmini⟩, h⟩

theorem not_telling_of_mem (h : n ∈ reservedNames) : ¬ Directive.Telling n := by
  have hall : ∀ n ∈ reservedNames, ¬ Directive.Telling n := by decide
  exact hall n h

theorem nameIn_mem (hmini : target.isMiniProgram = true) (h : n ∈ Dialect.baidu.ownNames) :
    Dialect.baidu.nameIn target.dialect n ∈ target.dialect.ownNames := by
  have hall : ∀ n ∈ Dialect.baidu.ownNames,
      Dialect.baidu.nameIn target.dialect n ∈ target.dialect.ownNames := by
    cases target with
    | web | weex => cases hmini
    | wx | alipay | baidu => decide
  exact hall n h

theorem nameIn_of_not_reserved (h : n ∉ reservedNames) :
    Dialect.baidu.nameIn target.dialect n = n :=
  Dialect.nameIn_of_not_mem fun hmem => h (@mem_reservedNames .baidu n rfl hmem)

theorem encoding?_nameIn (hmini : target.isMiniProgram = true) (h : n ∉ reservedNames) :
    target.dialect.encoding? (Dialect.baidu.nameIn target.dialect n) = none := by
  rw [nameIn_of_not_reserved h]
  exact Dialect.encoding?_of_not_mem fun hmem => h (mem_reservedNames hmini hmem)

theorem encodeWith_of_not_reserved (hmini : target.isMiniProgram = true) (h : n ∉ reservedNames)
    (value : Option String) :
    encodeWith (target.dialect.encoding? (Dialect.baidu.nameIn target.dialect n)) value
      = value := by
  rw [encoding?_nameIn hmini h]
  rfl

/-- Among the names of the dialect without braces and those that no platform reserves, none becomes
what another one becomes. -/
theorem eq_of_nameIn_eq (hmini : target.isMiniProgram = true) {m n : String}
    (hm : m ∈ reservedNames → m ∈ Dialect.baidu.ownNames)
    (hn : n ∈ reservedNames → n ∈ Dialect.baidu.ownNames)
    (heq : Dialect.baidu.nameIn target.dialect m = Dialect.baidu.nameIn target.dialect n) :
    m = n := by
  have hown : ∀ m ∈ Dialect.baidu.ownNames, ∀ n ∈ Dialect.baidu.ownNames,
      Dialect.baidu.nameIn target.dialect m = Dialect.baidu.nameIn target.dialect n → m = n := by
    cases target with
    | web | weex => cases hmini
    | wx | alipay | baidu => decide
  -- What a reserved name becomes is reserved, and a name that is not reserved stays as it is.
  have hreserved : ∀ n, n ∈ Dialect.baidu.ownNames →
      Dialect.baidu.nameIn target.dialect n ∈ reservedNames :=
    fun n hn => mem_reservedNames hmini (nameIn_mem hmini hn)
  by_cases hm' : m ∈ reservedNames
  · by_cases hn' : n ∈ reservedNames
    · exact hown m (hm hm') n (hn hn') heq
    · have hmem := hreserved m (hm hm')
      rw [heq, nameIn_of_not_reserved hn'] at hmem
      exact absurd hmem hn'
  · by_cases hn' : n ∈ reservedNames
    · have hmem := hreserved n (hn hn')
      rw [← heq, nameIn_of_not_reserved hm'] at hmem
      exact absurd hmem hm'
    · rw [nameIn_of_not_reserved hm', nameIn_of_not_reserved hn'] at heq
      exact heq

/-- The names of the dialect without braces become those of the platform's. -/
def respelling (target : Target) (hmini : target.isMiniProgram = true) : Renaming where
  name := Dialect.baidu.nameIn target.dialect
  value n := encodeWith (target.dialect.encoding? (Dialect.baidu.nameIn target.dialect n))
  native n := n ∈ reservedNames → n ∈ Dialect.baidu.ownNames
  injective _ _ := eq_of_nameIn_eq hmini
  telling n htelling := by
    have hn : n ∉ reservedNames := fun hmem => not_telling_of_mem hmem htelling
    exact ⟨fun hmem => absurd hmem hn, nameIn_of_not_reserved hn,
      encodeWith_of_not_reserved hmini hn⟩

theorem keeps_of_not_reserved (hmini : target.isMiniProgram = true) (h : n ∉ reservedNames) :
    (target.respelling hmini).Keeps n :=
  ⟨fun hmem => absurd hmem h, nameIn_of_not_reserved h, encodeWith_of_not_reserved hmini h⟩

/-- Nothing else tells the dialects of these platforms apart. -/
theorem dialect_eq (hmini : target.isMiniProgram = true) :
    target.dialect = { Dialect.baidu with
      target
      conditional := target.dialect.conditional
      iteration := target.dialect.iteration
      model := target.dialect.model } := by
  cases target with
  | web | weex => cases hmini
  | wx | alipay | baidu => rfl

theorem relates (hmini : target.isMiniProgram = true) (style : Option StyleConfig) :
    (target.respelling hmini).Relates (.forTarget .baidu style) (.forTarget target style) where
  proper := Target.proper_dialect .baidu
  replaces := @Target.replaces .baidu rfl
  native := by
    have hall : ∀ n ∈ Dialect.baidu.written, n ∈ reservedNames → n ∈ Dialect.baidu.ownNames := by
      decide
    exact hall
  reference := (congrArg Dialect.reference (dialect_eq hmini) :)
  identity n hn := by
    have hall : ∀ n ∈ Dialect.baidu.reference.names, n ∉ reservedNames := by decide
    exact keeps_of_not_reserved hmini (hall n hn)
  model key := by
    cases target with
    | web | weex => cases hmini
    | wx | alipay | baidu => rfl
  binding := (congrArg Dialect.binding (dialect_eq hmini) :)
  showSlot := (congrArg Dialect.showSlot (dialect_eq hmini) :)
  slot n hn := by
    have hall : ∀ n ∈ Dialect.baidu.showSlot.names, n ∉ reservedNames := by decide
    exact keeps_of_not_reserved hmini (hall n hn)
  conditional kind value := by
    cases target with
    | web | weex => cases hmini
    | wx | alipay | baidu => cases kind <;> cases value <;> rfl
  iteration := by
    cases target with
    | web | weex => cases hmini
    | wx | alipay | baidu => exact fun it => rfl
  classMode := (congrArg Dialect.classMode (dialect_eq hmini) :)
  styleMode := (congrArg Dialect.styleMode (dialect_eq hmini) :)
  normalizeStyle text := by
    cases target with
    | web | weex => cases hmini
    | wx | alipay | baidu => rfl

end Target

/-! ### What is written for two platforms -/

namespace Target

variable {target target' : Target}

theorem escaped_entry (hmini : target.isMiniProgram = true) (attr : Attribute) :
    ((target.respelling hmini).entry attr).escaped
      = (target.respelling hmini).entry attr.escaped :=
  Prod.ext rfl (map_escapeText_encodeWith _ attr.2)

/-- What an attribute of the dialect without braces becomes for two platforms. -/
theorem sameAttribute (hmini : target.isMiniProgram = true)
    (hmini' : target'.isMiniProgram = true) {attr : Attribute}
    (hattr : (target.respelling hmini).native attr.1) :
    target.dialect.SameAttribute target'.dialect ((target.respelling hmini).entry attr)
      ((target'.respelling hmini').entry attr) := by
  have hown : ∀ n ∈ Dialect.baidu.ownNames,
      Dialect.baidu.nameIn target'.dialect n
        = target.dialect.nameIn target'.dialect (Dialect.baidu.nameIn target.dialect n) ∧
      (target.dialect.encoding? (Dialect.baidu.nameIn target.dialect n)).isSome
        = (target'.dialect.encoding? (Dialect.baidu.nameIn target'.dialect n)).isSome := by
    cases target with
    | web | weex => cases hmini
    | wx | alipay | baidu =>
        cases target' with
        | web | weex => cases hmini'
        | wx | alipay | baidu => decide
  by_cases hn : attr.1 ∈ reservedNames
  · obtain ⟨hname, hencoding⟩ := hown attr.1 (hattr hn)
    exact ⟨hname, sameValue_encodeWith hencoding attr.2⟩
  · have hnot : attr.1 ∉ target.dialect.ownNames := fun hmem => hn (mem_reservedNames hmini hmem)
    refine ⟨?_, sameValue_encodeWith ?_ attr.2⟩
    · show Dialect.baidu.nameIn target'.dialect attr.1
        = target.dialect.nameIn target'.dialect (Dialect.baidu.nameIn target.dialect attr.1)
      rw [nameIn_of_not_reserved hn, nameIn_of_not_reserved hn, Dialect.nameIn_of_not_mem hnot]
    · exact congrArg Option.isSome
        ((encoding?_nameIn hmini hn).trans (encoding?_nameIn hmini' hn).symm)

end Target

namespace Attributes

variable {target : Target} {attrs : Attributes}

/-- Attributes that use none of the names are not touched by the renaming. -/
theorem Neutral.renamed_eq (h : attrs.Neutral) (hmini : target.isMiniProgram = true) :
    attrs.renamed (target.respelling hmini) = attrs := by
  refine eq_of_entries ?_
  show attrs.entries.map _ = attrs.entries
  refine (List.map_congr_left fun attr hattr => ?_).trans attrs.entries.map_id
  have hname : attr.1 ∉ Target.reservedNames := h.names attr.1 (List.mem_map_of_mem hattr)
  exact (Target.keeps_of_not_reserved hmini hname).entry_eq attr.2

theorem Neutral.awaits (h : attrs.Neutral) (hd : attrs.Distinct)
    (hmini : target.isMiniProgram = true) (passes : List Pass) :
    attrs.Awaits (target.respelling hmini) passes where
  native := ⟨hd, fun n hn hmem => absurd hmem (h.names n hn)⟩
  bound _ d hd property harg := Target.keeps_of_not_reserved hmini (h.bound d hd property harg)

end Attributes

/-! ### Compiling -/

theorem compile_of_error {source : String} {error : ParseError}
    (h : Document.parse source = .error error) (target : Target) (style : Option StyleConfig) :
    compile source target style = .error (.markup error) := by
  unfold compile parseTemplate
  rw [h]
  rfl

theorem compile_of_parse {source : String} {d : Document} (h : Document.parse source = .ok d)
    (target : Target) (style : Option StyleConfig) :
    compile source target style
      = match (d.adapt (.forTarget target style)).error with
        | some error => .error error
        | none => .ok (d.adapt (.forTarget target style)).document.print := by
  unfold compile parseTemplate
  rw [h]
  show (d.adapt (.forTarget target style)).toExcept.bind _ = _
  unfold Progress.toExcept
  cases (d.adapt (.forTarget target style)).error <;> rfl

/-! ### The mini-program platforms -/

namespace Document

variable {target target' : Target} {d : Document}

/-- All passes do for a platform what they do for the one without braces. -/
theorem adapt_renamed (hd : d.Built) (hneutral : ∀ id e, d.element? id = some e → e.attrs.Neutral)
    (hmini : target.isMiniProgram = true) (style : Option StyleConfig) :
    (d.adapt (.forTarget .baidu style)).Renamed (target.respelling hmini)
        (d.adapt (.forTarget target style)) ∧
      ((d.adapt (.forTarget .baidu style)).error = none → ∀ id e,
        (d.adapt (.forTarget .baidu style)).document.element? id = some e →
          e.attrs.Native (target.respelling hmini)) := by
  have hself : d.Renamed (target.respelling hmini) d := by
    refine ⟨.refl d, fun _ => rfl, fun id => ?_⟩
    cases he : d.element? id with
    | none => rfl
    | some e =>
        show some e = some { e with attrs := e.attrs.renamed _ }
        rw [(hneutral id e he).renamed_eq hmini]
  exact Pipeline.run_renamed (Target.relates hmini style) (by decide) hd.linked hself
    fun id e he => (hneutral id e he).awaits (hd.distinct id e he) hmini _

/-- Two trees that arise by renaming from one are the same template in two dialects, and remain so
when they have been printed and read again. -/
theorem sameTemplate {d₀ d₁ d₁' d d' : Document} (hmini : target.isMiniProgram = true)
    (hmini' : target'.isMiniProgram = true) (h : d₀.Renamed (target.respelling hmini) d₁)
    (h' : d₀.Renamed (target'.respelling hmini') d₁')
    (hnative : ∀ id e, d₀.element? id = some e → e.attrs.Native (target.respelling hmini))
    {σ σ' : Setting} {s s' : Document} (hread : Adapted σ s d₁ d) (hread' : Adapted σ' s' d₁' d') :
    d.SameTemplate target.dialect target'.dialect d' where
  tree := (h.tree.trans hread.reread).symm.trans (h'.tree.trans hread'.reread)
  attributes id e e' he he' := by
    rw [hread.escaped, h.element] at he
    rw [hread'.escaped, h'.element] at he'
    cases he₀ : d₀.element? id with
    | none =>
        rw [he₀] at he
        cases he
    | some e₀ =>
        rw [he₀] at he he'
        cases he
        cases he'
        show List.Forall₂ _ ((e₀.attrs.entries.map (target.respelling hmini).entry).map _)
          ((e₀.attrs.entries.map (target'.respelling hmini').entry).map _)
        rw [List.map_map, List.map_map, List.forall₂_map_left_iff, List.forall₂_map_right_iff,
          List.forall₂_same]
        intro attr hattr
        rw [Function.comp_apply, Function.comp_apply, Target.escaped_entry, Target.escaped_entry]
        have hn : (target.respelling hmini).native attr.1 := (hnative id e₀ he₀).told.entries hattr
        exact Target.sameAttribute hmini hmini' hn

end Document

/-! ### The web and weex -/

/-- An adapter that does not fail. -/
def Adapter.Total (adapter : Adapter) (setting : Setting) : Prop :=
  ∀ site attrs, ∃ attrs', adapter setting site attrs = .ok attrs'

namespace Document

variable {adapter : Adapter} {σ τ : Setting}

theorem adaptEach_total (h : adapter.Total σ) (ids : List Nat) :
    ∀ d : Document, (d.adaptEach adapter σ ids).error = none := by
  induction ids with
  | nil => exact fun d => rfl
  | cons id ids ih =>
      intro d
      unfold adaptEach
      cases hstep : d.adaptAt adapter σ id with
      | ok d₁ => exact ih d₁
      | error error =>
          obtain ⟨e, -, herror⟩ := adaptAt_eq_error hstep
          obtain ⟨attrs, hattrs⟩ := h (d.siteOf id e) e.attrs
          rw [hattrs] at herror
          cases herror

theorem adaptEach_congr (h : adapter σ = adapter τ) (ids : List Nat) :
    ∀ d : Document, d.adaptEach adapter σ ids = d.adaptEach adapter τ ids := by
  induction ids with
  | nil => exact fun d => rfl
  | cons id ids ih =>
      intro d
      have hstep : d.adaptAt adapter σ id = d.adaptAt adapter τ id := by
        unfold adaptAt
        rw [h]
      unfold adaptEach
      rw [hstep]
      cases d.adaptAt adapter τ id with
      | ok d₁ => exact ih d₁
      | error error => rfl

end Document

namespace Pipeline

variable {σ τ : Setting}

theorem run_total {passes : Pipeline} (h : ∀ pass ∈ passes, pass.adapter.Total σ) :
    ∀ d : Document, (passes.run σ d).error = none := by
  induction passes with
  | nil => exact fun d => rfl
  | cons pass passes ih =>
      intro d
      have hnone : (pass.run σ d).error = none :=
        Document.adaptEach_total (h pass List.mem_cons_self) d.preorder d
      rw [run_cons_of_none hnone]
      exact ih (fun pass' hpass' => h pass' (List.mem_cons_of_mem _ hpass')) _

/-- Two settings that differ only in passes which do not fail have the same errors. -/
theorem run_error_eq {front back : Pipeline}
    (hfront : ∀ pass ∈ front, pass.adapter σ = pass.adapter τ)
    (hσ : ∀ pass ∈ back, pass.adapter.Total σ) (hτ : ∀ pass ∈ back, pass.adapter.Total τ) :
    ∀ d : Document, ((front ++ back).run σ d).error = ((front ++ back).run τ d).error := by
  induction front with
  | nil =>
      intro d
      exact (run_total hσ d).trans (run_total hτ d).symm
  | cons pass front ih =>
      intro d
      have hrun : pass.run σ d = pass.run τ d :=
        Document.adaptEach_congr (hfront pass List.mem_cons_self) d.preorder d
      rw [List.cons_append]
      cases herror : (pass.run τ d).error with
      | none =>
          rw [run_cons_of_none herror, run_cons_of_none (hrun ▸ herror), hrun]
          exact ih (fun pass' hpass' => hfront pass' (List.mem_cons_of_mem _ hpass')) _
      | some error => rw [run_cons_of_error herror, run_cons_of_error (hrun ▸ herror), hrun]

end Pipeline

theorem Pass.adapter_weex (pass : Pass) (hpass : pass ∉ [Pass.classes, .styles])
    (style : Option StyleConfig) :
    pass.adapter (.forTarget .web style) = pass.adapter (.forTarget .weex style) := by
  cases pass with
  | classes | styles => simp at hpass
  | _ => rfl

/-- Classes and styles are never wrong. -/
theorem Pass.total (pass : Pass) (hpass : pass ∈ [Pass.classes, .styles]) (setting : Setting) :
    pass.adapter.Total setting := by
  intro site attrs
  rcases List.mem_cons.mp hpass with rfl | hpass
  · show ∃ attrs', Adapter.classes setting site attrs = .ok attrs'
    unfold Adapter.classes
    cases setting.dialect.classMode <;> exact ⟨_, rfl⟩
  · obtain rfl := List.mem_singleton.mp hpass
    exact ⟨_, rfl⟩

theorem Document.adapt_weex (d : Document) (style : Option StyleConfig) :
    (d.adapt (.forTarget .web style)).error = (d.adapt (.forTarget .weex style)).error := by
  have hcut : Pass.standard
      = [Pass.ref, .model, .binding, .conditional, .iteration] ++ [.classes, .styles] := rfl
  unfold Document.adapt
  rw [hcut]
  refine Pipeline.run_error_eq (fun pass hpass => pass.adapter_weex ?_ style)
    (fun pass hpass => pass.total hpass _) (fun pass hpass => pass.total hpass _) d
  have hall : ∀ pass ∈ [Pass.ref, .model, .binding, .conditional, .iteration],
      pass ∉ [Pass.classes, .styles] := by decide
  exact hall pass hpass

/-- A template is compiled for the web exactly if it is compiled for weex, and is rejected with the
same error otherwise. -/
theorem compile_eq_error_iff (source : String) (style : Option StyleConfig)
    (error : CompileError) :
    compile source .web style = .error error ↔ compile source .weex style = .error error := by
  cases hparse : Document.parse source with
  | error parseError => rw [compile_of_error hparse, compile_of_error hparse]
  | ok d =>
      rw [compile_of_parse hparse, compile_of_parse hparse, d.adapt_weex style]
      cases (d.adapt (.forTarget .weex style)).error with
      | none =>
          refine ⟨fun h => ?_, fun h => ?_⟩
          · cases h
          · cases h
      | some error => exact Iff.rfl

/-! ### All platforms -/

/-- What platforms have in common.  A template that uses no name of a mini-program platform for
conditions, loops or input events is rejected for all three of them with the same error, or is
compiled for each to the same template in the dialect of the platform.  Every template is rejected
for the web and for weex with the same error, or for neither. -/
theorem compile_dialects (source : String) (style : Option StyleConfig) :
    ((∀ d, Document.parse source = .ok d → ∀ id e, d.element? id = some e → e.attrs.Neutral) →
      (∃ error, ∀ target, target.isMiniProgram = true →
        compile source target style = .error error) ∨
      ∀ target target', target.isMiniProgram = true → target'.isMiniProgram = true →
        ∃ out out' d d', compile source target style = .ok out ∧
          compile source target' style = .ok out' ∧
          Document.parse out = .ok d ∧ Document.parse out' = .ok d' ∧
          d.SameTemplate target.dialect target'.dialect d') ∧
    ∀ error,
      compile source .web style = .error error ↔ compile source .weex style = .error error := by
  refine ⟨fun hneutral => ?_, compile_eq_error_iff source style⟩
  cases hparse : Document.parse source with
  | error error => exact .inl ⟨.markup error, fun target _ => compile_of_error hparse target style⟩
  | ok d₀ =>
      have hrenamed := fun target hmini => @Document.adapt_renamed target d₀
        (Document.built_of_parse hparse) (hneutral d₀ hparse) hmini style
      cases hbase : (d₀.adapt (.forTarget .baidu style)).error with
      | some error =>
          refine .inl ⟨error, fun target hmini => ?_⟩
          rw [compile_of_parse hparse, (hrenamed target hmini).1.error, hbase]
      | none =>
          -- Each platform writes a text that is read again as the adapted tree.
          have hwritten : ∀ target, target.isMiniProgram = true → ∃ out d,
              compile source target style = .ok out ∧ Document.parse out = .ok d ∧
                Document.Adapted (.forTarget target style) d₀
                  (d₀.adapt (.forTarget target style)).document d := by
            intro target hmini
            have hnone := (hrenamed target hmini).1.error.trans hbase
            obtain ⟨d, hread, hadapted⟩ := Document.adapted_of_parse hparse
              (show d₀.adapt (.forTarget target style) = ⟨_, none⟩ from by rw [← hnone])
            refine ⟨_, d, ?_, hread, hadapted⟩
            rw [compile_of_parse hparse, hnone]
          refine .inr fun target target' hmini hmini' => ?_
          obtain ⟨out, d, hout, hread, hadapted⟩ := hwritten target hmini
          obtain ⟨out', d', hout', hread', hadapted'⟩ := hwritten target' hmini'
          exact ⟨out, out', d, d', hout, hout', hread, hread',
            Document.sameTemplate hmini hmini' (hrenamed target hmini).1.document
              (hrenamed target' hmini').1.document ((hrenamed target hmini).2 hbase)
              hadapted hadapted'⟩

/-- A chain of conditions, a loop and a two-way binding, with a quote and a bare attribute. -/
theorem compile_dialects_input :
    let source := "<a v-if='\"b\"'></a><a v-else v-for=\"i in l\" v-model=\"m\"></a>"
    let out := "<a wx:if=\"\x7b\x7b&quot;b&quot;\x7d\x7d\" class=\" cml-base cml-a\"></a>" ++
      "<a wx:else wx:for-item=\"i\" wx:for-index=\"index\" wx:for=\"\x7b\x7bl\x7d\x7d\" " ++
      "data-modelkey=\"m\" bindinput=\"_cmlModelEventProxy\" value=\"\x7b\x7bm\x7d\x7d\" " ++
      "class=\" cml-base cml-a\"></a>"
    let out' := "<a s-if=\"&quot;b&quot;\" class=\" cml-base cml-a\"></a>" ++
      "<a s-else s-for-item=\"i\" s-for-index=\"index\" s-for=\"l\" " ++
      "data-modelkey=\"m\" bindinput=\"_cmlModelEventProxy\" value=\"\x7b\x7bm\x7d\x7d\" " ++
      "class=\" cml-base cml-a\"></a>"
    (∀ d, Document.parse source = .ok d → ∀ id e, d.element? id = some e → e.attrs.Neutral) ∧
      compile source .wx none = .ok out ∧ compile source .baidu none = .ok out' ∧
      ∃ d d', Document.parse out = .ok d ∧ Document.parse out' = .ok d' ∧
        d.SameTemplate .wx .baidu d' := by
  intro source out out'
  have hneutral : ∀ d, Document.parse source = .ok d → ∀ id e, d.element? id = some e →
      e.attrs.Neutral := Document.forall_element_of_parse (by decide +kernel)
  have hout : compile source .wx none = .ok out := by decide +kernel
  have hout' : compile source .baidu none = .ok out' := by decide +kernel
  refine ⟨hneutral, hout, hout', ?_⟩
  rcases (compile_dialects source none).1 hneutral with ⟨error, herror⟩ | hall
  · exact absurd (hout.symm.trans (herror .wx rfl)) (by simp)
  · obtain ⟨_, _, d, d', hwx, hbaidu, hread, hread', hsame⟩ := hall .wx .baidu rfl rfl
    cases hout.symm.trans hwx
    cases hout'.symm.trans hbaidu
    exact ⟨d, d', hread, hread', hsame⟩

end TemplateCompiler
