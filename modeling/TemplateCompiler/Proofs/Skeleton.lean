/-
Compiling keeps the skeleton of a template.

The text that is compiled is parsed to the same tree as the source, but for attributes.
Three facts make this up.  The source is a forest that can be written, and adapting it
changes attributes only.  The names that adapters write are names of attributes, so the
adapted forest can be written too.  And what is printed for a forest that can be written
is read back, with quotes in values spelled out, which printing again leaves alone.
-/
import TemplateCompiler.Proofs.Adaptation
import TemplateCompiler.Proofs.Readable
import TemplateCompiler.Proofs.Writing

namespace TemplateCompiler

/-- Results can be compared, so that what a fixed template is compiled to is decided. -/
instance decidableEqExcept {ε α : Type} [DecidableEq ε] [DecidableEq α] : DecidableEq (Except ε α)
  | .error e, .error e' => decidable_of_iff (e = e') ⟨congrArg Except.error, Except.error.inj⟩
  | .ok a, .ok a' => decidable_of_iff (a = a') ⟨congrArg Except.ok, Except.ok.inj⟩
  | .error _, .ok _ => .isFalse fun h => nomatch h
  | .ok _, .error _ => .isFalse fun h => nomatch h

/-! ### Names that can be written -/

/-- Every name of a dialect is the name of an attribute. -/
theorem Target.isAttributeName_of_written {target : Target} {n : String}
    (h : n ∈ target.dialect.written) : IsAttributeName n := by
  have hall : ∀ n ∈ target.dialect.written, IsAttributeName n := by
    cases target <;> decide
  exact hall n h

namespace Attributes

variable {attrs attrs' : Attributes}

/-- The property of a binding is the name of an attribute, because it is part of one. -/
theorem WellNamed.isAttributeName_property (h : attrs.WellNamed) {d : Directive} {property : String}
    (hd : d ∈ attrs.directivesOf .bind) (harg : d.arg = some property) :
    IsAttributeName property := by
  obtain ⟨hmem, hkind⟩ := mem_directivesOf.mp hd
  obtain ⟨-, hname, hof, -⟩ := mem_of_mem_directives hmem
  obtain ⟨property', harg', hne, -, -, hchars⟩ := Directive.exists_property hof hkind
  cases harg.symm.trans harg'
  refine ⟨fun hnil => hne ?_, fun c hc => (h.names d.name hname).2 c (hchars c hc)⟩
  rw [← String.toList_inj, hnil]
  rfl

/-- Attributes that can be written stay so through every pass. -/
theorem WellNamed.of_adaptedBy {target : Target} {setting : Setting} {tag : String}
    {passes : List Pass} (hsetting : setting.dialect = target.dialect)
    (h : AdaptedBy setting tag passes attrs attrs') (hattrs : attrs.WellNamed) :
    attrs'.WellNamed := by
  refine h.keeps (fun pass site attrs attrs' hattrs hpass => ?_) hattrs
  have hwrites := pass.writesOnly (hsetting ▸ target.proper_dialect) hattrs.distinct hpass
  refine ⟨hwrites.distinct, fun n hn => ?_⟩
  rcases hwrites.names n hn with hn | hn | ⟨-, d, hd, harg⟩
  · exact hattrs.names n hn
  · rw [hsetting] at hn
    exact Target.isAttributeName_of_written hn
  · exact hattrs.isAttributeName_property hd harg

end Attributes

/-! ### The same forest with other attributes -/

namespace Forest

theorem startsWithText_map_bare (F : Forest) :
    (F.map NodeKind.bare).startsWithText = F.startsWithText := by
  cases F with
  | nil => rfl
  | cons kind content rest => cases kind <;> rfl

theorem map_eq_nil_iff {f : NodeKind → NodeKind} {F : Forest} : F.map f = nil ↔ F = nil := by
  cases F with
  | nil => exact iff_of_true rfl rfl
  | cons kind content rest => exact iff_of_false Forest.noConfusion Forest.noConfusion

/-- Whether a forest begins at a tag does not depend on attributes. -/
theorem BeginsAtTag.congr {final : Bool} {F F' : Forest} (h : F.BeginsAtTag final)
    (hbare : F'.map NodeKind.bare = F.map NodeKind.bare) : F'.BeginsAtTag final := by
  refine ⟨?_, fun hnil => h.2 ?_⟩
  · rw [← startsWithText_map_bare, hbare, startsWithText_map_bare]
    exact h.1
  · rw [← map_eq_nil_iff (f := NodeKind.bare), ← hbare, map_eq_nil_iff]
    exact hnil

theorem size_of_map_bare {F F' : Forest} (h : F'.map NodeKind.bare = F.map NodeKind.bare) :
    F'.size = F.size := by
  rw [← size_map NodeKind.bare, h, size_map]

theorem ids_of_map_bare {F F' : Forest} (h : F'.map NodeKind.bare = F.map NodeKind.bare)
    (start : Nat) : F'.ids start = F.ids start := by
  rw [← ids_map NodeKind.bare, h, ids_map]

end Forest

namespace Document

variable {d d' : Document}

/-- A node of the one tree is found in the other, with the same links and, but for attributes, the
same content. -/
theorem SameTree.exists_shape (h : SameTree d d') {id : Nat} {s : NodeShape}
    (hs : d.shape? id = some s) :
    ∃ kind, d'.shape? id = some ⟨kind, s.parent, s.children⟩ ∧ kind.bare = s.kind.bare := by
  have hshape := h.shape id
  rw [hs, Option.map_some] at hshape
  obtain ⟨s', hs', hbare⟩ := Option.map_eq_some_iff.mp hshape
  refine ⟨s'.kind, ?_, congrArg NodeShape.kind hbare⟩
  rw [hs', Option.some.injEq]
  obtain ⟨kind, parent, children⟩ := s'
  have hparent : parent = s.parent := congrArg NodeShape.parent hbare
  have hchildren : children = s.children := congrArg NodeShape.children hbare
  rw [hparent, hchildren]

/-- An element of the one tree is an element of the other, with the same tag and the same end. -/
theorem SameTree.exists_element (h : SameTree d d') {id : Nat} {e : Element} {parent : Option Nat}
    {children : List Nat} (hs : d.shape? id = some ⟨.element e, parent, children⟩) :
    ∃ attrs, d'.shape? id = some ⟨.element { e with attrs }, parent, children⟩ := by
  obtain ⟨kind, hs', hbare⟩ := h.exists_shape hs
  cases kind with
  | text t => cases hbare
  | comment c => cases hbare
  | element e' =>
      obtain ⟨tag, attrs, closing⟩ := e'
      refine ⟨attrs, ?_⟩
      cases e
      cases hbare
      exact hs'

/-- A forest that can be written can still be written when its elements get other attributes,
if these can be written where the old ones can. -/
theorem SameTree.exists_readable (h : SameTree d d')
    (hattrs : ∀ id e e', d.element? id = some e → d'.element? id = some e' →
      e.attrs.WellNamed → e'.attrs.WellNamed) {final : Bool} {F : Forest}
    (hread : F.Readable final) :
    ∀ {parent : Option Nat} {start : Nat}, F.Holds d parent start →
      ∃ F' : Forest, F'.Holds d' parent start ∧ F'.Readable final ∧
        F'.map NodeKind.bare = F.map NodeKind.bare := by
  have helement : ∀ {d : Document} {id : Nat} {e : Element} {parent children},
      d.shape? id = some ⟨.element e, parent, children⟩ → d.element? id = some e := by
    intro d id e parent children hs
    rw [element?_eq, hs]
    rfl
  have hwritable : ∀ {id : Nat} {e : Element} {attrs : Attributes} {parent children children'},
      d.shape? id = some ⟨.element e, parent, children⟩ →
      d'.shape? id = some ⟨.element { e with attrs }, parent, children'⟩ → e.Writable →
      Element.Writable { e with attrs } := fun hs hs' he =>
    ⟨he.tag, hattrs _ _ _ (helement hs) (helement hs') he.attrs, he.closing⟩
  induction hread with
  | nil => exact fun _ => ⟨.nil, trivial, .nil, rfl⟩
  | @comment final content rest hend hrest ih =>
      rintro parent start ⟨hnode, -, hholds⟩
      obtain ⟨F', hholds', hread', hbare⟩ := ih hholds
      obtain ⟨kind, hnode', hkind⟩ := h.exists_shape hnode
      cases kind <;> cases hkind
      refine ⟨.cons (.comment content) .nil F', ⟨hnode', trivial, hholds'⟩,
        .comment hend hread', ?_⟩
      exact congrArg (Forest.cons (.comment content) .nil) hbare
  | @text final content rest hne hstops hfollow hrest ih =>
      rintro parent start ⟨hnode, -, hholds⟩
      obtain ⟨F', hholds', hread', hbare⟩ := ih hholds
      obtain ⟨kind, hnode', hkind⟩ := h.exists_shape hnode
      cases kind <;> cases hkind
      refine ⟨.cons (.text content) .nil F', ⟨hnode', trivial, hholds'⟩,
        .text hne hstops (hfollow.congr hbare) hread', ?_⟩
      exact congrArg (Forest.cons (.text content) .nil) hbare
  | @lastText content hne htext =>
      rintro parent start ⟨hnode, -, -⟩
      obtain ⟨kind, hnode', hkind⟩ := h.exists_shape hnode
      cases kind <;> cases hkind
      exact ⟨.cons (.text content) .nil .nil, ⟨hnode', trivial, trivial⟩, .lastText hne htext, rfl⟩
  | @leaf final e rest he hclosing hrest ih =>
      rintro parent start ⟨hnode, -, hholds⟩
      obtain ⟨F', hholds', hread', hbare⟩ := ih hholds
      obtain ⟨attrs, hnode'⟩ := h.exists_element hnode
      refine ⟨.cons (.element { e with attrs }) .nil F', ⟨hnode', trivial, hholds'⟩,
        .leaf (hwritable hnode hnode' he) hclosing hread', ?_⟩
      exact congrArg (Forest.cons (NodeKind.bare (.element e)) .nil) hbare
  | @nest final e content rest he hclosing hcontent hrest ihc ihr =>
      rintro parent start ⟨hnode, hholdsc, hholds⟩
      obtain ⟨content', hholdsc', hreadc', hbarec⟩ := ihc hholdsc
      obtain ⟨F', hholds', hread', hbare⟩ := ihr hholds
      obtain ⟨attrs, hnode'⟩ := h.exists_element hnode
      rw [← Forest.ids_of_map_bare hbarec] at hnode'
      rw [← Forest.size_of_map_bare hbarec] at hholds'
      refine ⟨.cons (.element { e with attrs }) content' F', ⟨hnode', hholdsc', hholds'⟩,
        .nest (hwritable hnode hnode' he) hclosing hreadc' hread', ?_⟩
      show Forest.cons (NodeKind.bare (.element e)) (content'.map _) (F'.map _) = _
      rw [hbarec, hbare]
      rfl

/-! ### Quotes that are spelled out -/

/-- What a tree with quotes spelled out holds at an index. -/
theorem Represents.shape?_escaped {F : Forest} (h : d.Represents F)
    (h' : d'.Represents (F.map NodeKind.escaped)) (id : Nat) :
    d'.shape? id = (d.shape? id).map fun s => { s with kind := s.kind.escaped } := by
  by_cases hid : id < d.size
  · refine h.holds.shape?_map h'.holds id (Nat.zero_le _) ?_
    rw [← h.size, Nat.zero_add]
    exact hid
  · have hnone := shape?_eq_none_iff.mpr (Nat.not_lt.mp hid)
    have hnone' : d'.shape? id = none := by
      rw [shape?_eq_none_iff, h'.size, Forest.size_map, ← h.size]
      exact Nat.not_lt.mp hid
    rw [hnone, hnone']
    rfl

theorem sameTree_of_escaped {F : Forest} (h : d.Represents F)
    (h' : d'.Represents (F.map NodeKind.escaped)) : SameTree d d' where
  roots := by
    rw [← Array.toList_inj, h'.roots, h.roots, Forest.ids_map]
  shape id := by
    rw [h.shape?_escaped h', Option.map_map]
    congr 1
    funext s
    obtain ⟨kind, parent, children⟩ := s
    cases kind <;> rfl

theorem element?_of_escaped {F : Forest} (h : d.Represents F)
    (h' : d'.Represents (F.map NodeKind.escaped)) (id : Nat) :
    d'.element? id = (d.element? id).map Element.escaped := by
  rw [element?_eq, element?_eq, h.shape?_escaped h']
  cases d.shape? id with
  | none => rfl
  | some s =>
      obtain ⟨kind, parent, children⟩ := s
      cases kind <;> rfl

end Document

theorem Attribute.print_escaped (attr : Attribute) : attr.escaped.print = attr.print := by
  obtain ⟨name, value⟩ := attr
  cases value with
  | none => rfl
  | some value =>
      show ' ' :: name.toList ++ ('=' :: '"' :: escapeValue (escapeText value).toList ++ ['"']) = _
      unfold escapeText
      rw [String.toList_ofList, escapeValue_eq_self (Token.not_mem_escapeValue _)]
      rfl

theorem Element.printStart_escaped (e : Element) : e.escaped.printStart = e.printStart := by
  unfold printStart escaped Attributes.escaped
  dsimp only
  rw [List.flatMap_map]
  simp only [Attribute.print_escaped]

/-- Spelling quotes out is done once: printing what was read back changes nothing. -/
theorem Forest.print_escaped (F : Forest) : (F.map NodeKind.escaped).print = F.print := by
  induction F with
  | nil => rfl
  | cons kind content rest ihc ihr =>
      cases kind with
      | text t => exact congrArg (t.toList ++ ·) ihr
      | comment c => exact congrArg (_ ++ ·) ihr
      | element e =>
          have hstart := e.printStart_escaped
          show (cons (.element e.escaped) (content.map NodeKind.escaped)
            (rest.map NodeKind.escaped)).print = _
          by_cases hclosing : e.closing = .normal
          · rw [print_nest hclosing, print_nest (e := e.escaped) hclosing, hstart, ihc, ihr]
            rfl
          · rw [print_leaf hclosing, print_leaf (e := e.escaped) hclosing, hstart, ihr]

/-! ### Compiling -/

namespace Document

/-- Compiling succeeds in three steps: the text is parsed, no pass stops, and the tree is
printed. -/
theorem compile_eq_ok {source out : String} {target : Target} {style : Option StyleConfig}
    (h : compile source target style = .ok out) :
    ∃ d₀ d₁ : Document, parse source = .ok d₀ ∧
      d₀.adapt (.forTarget target style) = ⟨d₁, none⟩ ∧ out = d₁.print := by
  unfold compile parseTemplate at h
  cases hparse : parse source with
  | error error =>
      rw [hparse] at h
      cases h
  | ok d₀ =>
      rw [hparse] at h
      cases hadapt : d₀.adapt (.forTarget target style) with
      | mk d₁ error =>
          change ((d₀.adapt (.forTarget target style)).toExcept.bind fun d => .ok d.print) = _ at h
          rw [hadapt] at h
          cases error with
          | some error => cases h
          | none =>
              cases h
              exact ⟨d₀, d₁, rfl, hadapt, rfl⟩

/-- What is known of an adapted template: it is the same tree, every element went through all the
adapters, and it is printed as a text that is read back. -/
structure Adapted (setting : Setting) (d₀ d₁ d' : Document) : Prop where
  tree : SameTree d₀ d₁
  element : ∀ id e, d₀.element? id = some e →
    ∃ attrs, AdaptedBy setting e.tag Pass.standard e.attrs attrs ∧
      d₁.element? id = some { e with attrs }
  reread : SameTree d₁ d'
  escaped : ∀ id, d'.element? id = (d₁.element? id).map Element.escaped
  print : d'.print = d₁.print

theorem adapted_of_parse {source : String} {target : Target} {style : Option StyleConfig}
    {d₀ d₁ : Document} (hparse : parse source = .ok d₀)
    (hadapt : d₀.adapt (.forTarget target style) = ⟨d₁, none⟩) :
    ∃ d', parse d₁.print = .ok d' ∧ Adapted (.forTarget target style) d₀ d₁ d' := by
  obtain ⟨F₀, hrep₀, hread₀⟩ := exists_readable_of_parse hparse
  obtain ⟨htree, helement⟩ := Pipeline.run_eq_ok (built_of_parse hparse).linked hadapt
  have hwell : ∀ id e e', d₀.element? id = some e → d₁.element? id = some e' →
      e.attrs.WellNamed → e'.attrs.WellNamed := by
    intro id e e' he he' hattrs
    obtain ⟨attrs, hadapted, he₁⟩ := helement id e he
    cases he'.symm.trans he₁
    exact hattrs.of_adaptedBy rfl hadapted
  obtain ⟨F₁, hholds₁, hread₁, hbare⟩ := htree.exists_readable hwell hread₀ hrep₀.holds
  have hrep₁ : d₁.Represents F₁ := by
    refine ⟨?_, ?_, hholds₁⟩
    · rw [htree.size_eq, hrep₀.size, Forest.size_of_map_bare hbare]
    · rw [htree.roots, hrep₀.roots, Forest.ids_of_map_bare hbare]
  obtain ⟨d', hparse', hrep'⟩ := hrep₁.parse_print hread₁
  refine ⟨d', hparse', htree, helement, sameTree_of_escaped hrep₁ hrep',
    element?_of_escaped hrep₁ hrep', ?_⟩
  rw [hrep'.print_eq, hrep₁.print_eq, Forest.print_escaped]

/-- What is compiled is parsed to the same tree, and there every element has the attributes that
all adapters make of those in the source, with their quotes spelled out. -/
theorem elements_of_compile {source out : String} {target : Target} {style : Option StyleConfig}
    (h : compile source target style = .ok out) :
    ∃ d₀ d', parse source = .ok d₀ ∧ parse out = .ok d' ∧ SameTree d₀ d' ∧
      ∀ id e, d₀.element? id = some e → e.attrs.Distinct ∧
        ∃ attrs, AdaptedBy (.forTarget target style) e.tag Pass.standard e.attrs attrs ∧
          d'.element? id = some (Element.escaped { e with attrs }) := by
  obtain ⟨d₀, d₁, hparse, hadapt, rfl⟩ := compile_eq_ok h
  obtain ⟨d', hparse', hadapted⟩ := adapted_of_parse hparse hadapt
  refine ⟨d₀, d', hparse, hparse', hadapted.tree.trans hadapted.reread, fun id e he => ?_⟩
  obtain ⟨attrs, hby, hnow⟩ := hadapted.element id e he
  refine ⟨(built_of_parse hparse).distinct id e he, attrs, hby, ?_⟩
  rw [hadapted.escaped, hnow]
  rfl

end Document

/-- Compiling keeps the skeleton.  The text that is compiled is parsed, to a tree with the same
number of nodes, the same roots and at every index the same parent, the same children and the
same content, but for the attributes of elements.  These are the attributes of the adapted tree,
with the same names in the same order and with the same values but for the spelling of quotes.
And the tree is printed as the text it was parsed from. -/
theorem compile_skeleton {source out : String} {target : Target} {style : Option StyleConfig}
    (h : compile source target style = .ok out) :
    ∃ d₀ d₁ d' : Document, Document.parse source = .ok d₀ ∧
      d₀.adapt (.forTarget target style) = ⟨d₁, none⟩ ∧ out = d₁.print ∧
      Document.parse out = .ok d' ∧ d'.size = d₀.size ∧ d₀.SameTree d' ∧
      (∀ id, d'.element? id = (d₁.element? id).map Element.escaped) ∧ d'.print = out := by
  obtain ⟨d₀, d₁, hparse, hadapt, rfl⟩ := Document.compile_eq_ok h
  obtain ⟨d', hparse', hd'⟩ := Document.adapted_of_parse hparse hadapt
  have htree := hd'.tree.trans hd'.reread
  exact ⟨d₀, d₁, d', hparse, hadapt, rfl, hparse', htree.size_eq, htree, hd'.escaped, hd'.print⟩

/-- A template with a quote in a value, an element without an end tag, a `<` in an interpolation and
an end tag in other letters. -/
theorem compile_skeleton_quote :
    let source := "<p :t='a\"b'><br>\x7b\x7b a<b \x7d\x7d<!-- c --></P>"
    let out := "<p t=\"\x7b\x7ba&quot;b\x7d\x7d\" class=\" cml-base cml-p\"><br class=\" cml-base cml-br\">" ++
      "\x7b\x7b a<b \x7d\x7d<!-- c --></p>"
    compile source .wx none = .ok out ∧
      ∃ d₀ d₁ d' : Document, Document.parse source = .ok d₀ ∧
        d₀.adapt (.forTarget .wx none) = ⟨d₁, none⟩ ∧ out = d₁.print ∧
        Document.parse out = .ok d' ∧ d'.size = d₀.size ∧ d₀.SameTree d' ∧
        (∀ id, d'.element? id = (d₁.element? id).map Element.escaped) ∧ d'.print = out := by
  intro source out
  have hout : compile source .wx none = .ok out := by decide +kernel
  exact ⟨hout, compile_skeleton hout⟩

end TemplateCompiler
