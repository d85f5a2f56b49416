/-
No line ends inside a literal, unless a carriage return was copied into it.

Where bindings are kept, two scripts on an element have literals of strings in them.  The listener
of a two-way binding is told the key, and the call that resolves the style has the stretches between
interpolations in it and, on one platform, the style options.  `Attributes.scripts` lists both as
fragments, for what the author wrote on the element.

A line feed never gets into a literal.  A carriage return does if it is in the text: the reader
takes values as they stand in the source, blanks are taken off at the ends only, and the literal
copies it.  So a key of two lines is a good literal where lines end with a line feed alone, and a
broken one where a carriage return stands before it.

That a carriage return comes from the source or from a browser in every case is seen backwards.
What is written into a literal is a stretch of an expression, a browser or the name of a field
(`returnFree_scripts`), and an expression is a stretch of the source (`value_sublist_of_parse`).
-/
import TemplateCompiler.Proofs.Endings
import TemplateCompiler.Proofs.Scripts

namespace TemplateCompiler

/-! ### What is read stands in the source -/

theorem Cursor.Takes.rest_sublist {k k' : Cursor} {piece : List Char} (h : k.Takes piece k') :
    k'.rest.Sublist k.rest := by
  rw [h.1]
  exact List.sublist_append_right piece k'.rest

namespace Token

theorem readBareValue_sublist (cs : List Char) : (readBareValue cs).1.Sublist cs := by
  nth_rewrite 2 [← readBareValue_append cs]
  exact List.sublist_append_left _ _

theorem readValue_sublist (k : Cursor) : (readValue k).1.Sublist k.rest := by
  have hquoted : ∀ p, (k.skipOne.takeWhile p).1.Sublist k.rest := fun p =>
    (List.takeWhile_sublist p).trans k.takes_skipOne.rest_sublist
  unfold readValue
  split
  · exact hquoted _
  · exact hquoted _
  · exact readBareValue_sublist k.rest

/-- Every value that is read stands in the text. -/
theorem readAttributes_sublist (k : Cursor) :
    ∀ attr ∈ (readAttributes k).1, (attr.2.getD "").toList.Sublist k.rest := by
  fun_induction readAttributes k with
  | case1 k k₀ => exact fun attr hattr => absurd hattr List.not_mem_nil
  | case2 k k₀ _ name _ ih =>
      exact fun attr hattr => (ih attr hattr).trans
        (k.takes_skipBlanks.trans k₀.takes_skipOne).rest_sublist
  | case3 k k₀ _ name _ k₁ k₂ h value others ih =>
      have hname := (k.takes_skipBlanks.trans (k₀.takes_takeWhile isAttributeNameChar)).trans
        name.2.takes_skipBlanks
      have hequals := hname.trans ((Cursor.takes_skip? h).trans k₂.takes_skipBlanks)
      intro attr hattr
      rcases List.mem_cons.mp hattr with rfl | hattr
      · rw [Option.getD_some, String.toList_ofList]
        exact (readValue_sublist _).trans hequals.rest_sublist
      · obtain ⟨written, hwritten⟩ := exists_takes_readValue k₂.skipBlanks
        exact (ih attr hattr).trans (hequals.trans hwritten).rest_sublist
  | case4 k k₀ _ name _ k₁ h others ih =>
      have hname := (k.takes_skipBlanks.trans (k₀.takes_takeWhile isAttributeNameChar)).trans
        name.2.takes_skipBlanks
      intro attr hattr
      rcases List.mem_cons.mp hattr with rfl | hattr
      · exact List.nil_sublist _
      · exact (ih attr hattr).trans hname.rest_sublist

end Token

/-- A map has no other values than its entries. -/
theorem Attributes.mem_of_mem_ofEntries {entries : List Attribute} {name value : String}
    (h : (name, some value) ∈ (ofEntries entries).entries) : (name, some value) ∈ entries := by
  rw [entries_ofEntries_eq] at h
  obtain ⟨n, -, heq⟩ := List.mem_map.mp h
  obtain ⟨rfl, hvalue⟩ := Prod.mk.inj heq
  unfold lastValue at hvalue
  cases hlookup : entries.reverse.lookup n with
  | none =>
      rw [hlookup] at hvalue
      cases hvalue
  | some found =>
      rw [hlookup, Option.getD_some] at hvalue
      obtain ⟨front, back, hentries, -⟩ := List.lookup_eq_some_iff.mp hlookup
      rw [← List.mem_reverse, hentries, hvalue]
      exact List.mem_append_right front List.mem_cons_self

/-- Every attribute value of a start tag stands in the text. -/
theorem Token.startTag_sublist {k k' : Cursor} {tag : String} {attrs : Attributes}
    {closing : Closing} (hk : k.rest ≠ []) (h : next k = .ok (.startTag tag attrs closing, k'))
    {name value : String} (hvalue : (name, some value) ∈ attrs.entries) :
    value.toList.Sublist k.rest := by
  have htag : ∀ {n : List Char} {entries : List Attribute} {k₁ : Cursor},
      NamesTag k n entries k₁ → (name, some value) ∈ (Attributes.ofEntries entries).entries →
        value.toList.Sublist k.rest := by
    intro n entries k₁ hnames hmem
    obtain ⟨blanks, after, hopens, -, hattrs⟩ := hnames.attributes
    have hentry := readAttributes_sublist (k.advance (['<'] ++ blanks ++ n) after)
    rw [hattrs] at hentry
    refine (hentry _ (Attributes.mem_of_mem_ofEntries hmem)).trans ?_
    rw [hopens.rest_eq, ← List.append_assoc, ← List.append_assoc]
    exact List.sublist_append_right _ after
  cases (stands_iff hk).mpr h with
  | selfClosing hnames => exact htag hnames hvalue
  | startTag hnames => exact htag hnames hvalue

namespace Document

variable {source : String} {d : Document} {id : Nat} {e : Element}

/-- Every attribute value of a parsed template stands in the source. -/
theorem value_sublist_of_parse (h : parse source = .ok d) (he : d.element? id = some e)
    {name value : String} (hvalue : (name, some value) ∈ e.attrs.entries) :
    value.toList.Sublist source.toList := by
  obtain ⟨before, tag, rest, hsource, -, htag⟩ := exists_startTag_of_parse h he
  refine (Token.startTag_sublist htag.rest_ne htag.read hvalue).trans ?_
  rw [hsource]
  exact List.sublist_append_right before _

end Document

/-! ### The scripts of an element -/

/-- The scripts with literals in them that are written on the element, under the names of their
attributes: the listener of a two-way binding, and the call that resolves the style unless nothing
is bound to it or only such a call. -/
def Attributes.scripts (target : Target) (style : Option StyleConfig) (attrs : Attributes) :
    List (String × List Script.Fragment) :=
  (attrs.modelKey?.toList.map fun key => ("v-on:input", Script.listenerFragments key)) ++
    if boundAsCall attrs.boundStyles ∨ mergedOperands attrs.boundStyles = [] then []
    else [(styleBindingName, Script.callFragments target.dialect.styleMode style
      (Script.joinedFragments (Script.mergedFragments attrs.boundStyles)))]

namespace AdaptedBy

variable {target : Target} {style : Option StyleConfig} {tag : String} {attrs attrs' : Attributes}

/-- Where bindings are kept, the listener of a two-way binding is told the key, and no later pass
has to do with the listener. -/
theorem get?_listener (hmini : target.isMiniProgram = false)
    (h : AdaptedBy (.forTarget target style) tag Pass.standard attrs attrs') (hd : attrs.Distinct)
    {key : String} (hkey : attrs.modelKey? = some key) :
    attrs'.get? "v-on:input" = some (Script.write (Script.listenerFragments key)) := by
  have hplain := attrs.bindsPlainly_of_keeps hmini
  have hcut : AdaptedBy (.forTarget target style) tag ([.ref] ++ ([.model] ++
      [.binding, .conditional, .iteration, .classes, .styles])) attrs attrs' := h
  obtain ⟨attrs₁, href, hrest⟩ := hcut.of_append
  obtain ⟨attrs₂, hmodel, hlate⟩ := hrest.of_append
  obtain ⟨site, -, hstep⟩ := hmodel.of_singleton
  obtain ⟨hkeeps, -, hform⟩ := Target.forms_of_keeps hmini
  have hwritten : ("v-on:input", some (Script.write (Script.listenerFragments key)))
      ∈ attrs₂.entries := by
    refine Adapter.mem_entries_model site target.proper_dialect (href.plainly hd hplain).1 hstep
      ((href.modelKey?_eq hd hplain).trans hkey) ?_
    rw [show (Setting.forTarget target style).dialect.model = _ from hform, Script.write_listener]
    exact List.mem_cons_self
  refine (h.plainly hd hplain).1.get?_eq ((hlate.mem_entries_iff fun pass hpass attrs ht => ?_).mpr
    hwritten)
  have hlisted : ∀ pass ∈ [Pass.binding, .conditional, .iteration, .classes, .styles],
      "v-on:input" ∉ pass.listed target.dialect := by
    cases target with
    | web | weex => decide
    | wx | alipay | baidu => cases hmini
  have hkind : ∀ kind ∈ Directive.kind? "v-on:input", kind.isStatic = true := by decide
  rcases ht.of_isStatic hkind with hmem | ⟨-, hnot, -⟩
  · exact hlisted pass hpass hmem
  · exact hnot hkeeps

/-- Where bindings are kept, every script is found under its name. -/
theorem get?_script (hmini : target.isMiniProgram = false)
    (h : AdaptedBy (.forTarget target style) tag Pass.standard attrs attrs') (hd : attrs.Distinct)
    {script : String × List Script.Fragment} (hscript : script ∈ attrs.scripts target style) :
    attrs'.get? script.1 = some (Script.write script.2) := by
  rcases List.mem_append.mp hscript with hscript | hscript
  · obtain ⟨key, hkey, rfl⟩ := List.mem_map.mp hscript
    exact h.get?_listener hmini hd (Option.mem_toList.mp hkey)
  · split at hscript
    · cases hscript
    · rename_i hmerged
      rw [not_or, Bool.not_eq_true] at hmerged
      rw [List.mem_singleton.mp hscript, Script.write_call, Script.write_joined,
        Script.map_write_merged]
      exact h.get?_boundStyles hmini hd hmerged.1 hmerged.2

end AdaptedBy

/-! ### Carriage returns in a script -/

namespace Script

theorem ReturnFree.of_subset {text text' : String} (h : ReturnFree text)
    (hsub : text'.toList ⊆ text.toList) : ReturnFree text' := fun hmem => h (hsub hmem)

theorem trim_sublist (text : String) : (Text.trim text).toList.Sublist text.toList := by
  rw [show (Text.trim text).toList = Text.trimChars text.toList from String.toList_ofList]
  exact (List.rdropWhile_prefix _ _).sublist.trans (List.dropWhile_sublist _)

theorem returnFree_showStyle {expression : String} (h : ReturnFree expression) :
    ReturnFree (showStyle expression) := by
  have hdisplay : '\r' ∉ displayTail := by decide
  have hsize : '\r' ∉ sizeTail := by decide
  unfold ReturnFree at h ⊢
  rw [toList_showStyle]
  simp [h, hdisplay, hsize]

/-- The literals of the merged texts are stretches of the texts. -/
theorem strings_merged {texts : List String} (h : ∀ text ∈ texts, ReturnFree text) :
    ∀ operand ∈ mergedFragments texts, Strings ReturnFree operand := by
  intro operand hoperand
  obtain ⟨text, htext, rfl⟩ := List.mem_map.mp hoperand
  refine strings_operand (by decide) fun stretch hstretch => ?_
  refine (h text (List.mem_filter.mp htext).1).of_subset ?_
  rw [String.toList_ofList]
  exact List.Subset.trans hstretch (trim_sublist text).subset

end Script

namespace Attributes

open Script

variable {attrs : Attributes}

theorem returnFree_modelKey (h : ∀ d ∈ attrs.directives, ReturnFree d.expression) {key : String}
    (hkey : attrs.modelKey? = some key) : ReturnFree key := by
  unfold modelKey? at hkey
  obtain ⟨d, hfound, hkey⟩ := Option.bind_eq_some_iff.mp hkey
  dsimp only at hkey
  split at hkey
  · cases hkey
  · cases hkey
    exact (h d (mem_of_directive? hfound).1).of_subset (trim_sublist _).subset

theorem returnFree_boundStyles (h : ∀ d ∈ attrs.directives, ReturnFree d.expression) :
    ∀ text ∈ attrs.boundStyles, ReturnFree text := by
  intro text htext
  obtain ⟨d, hd, hadapted⟩ := List.mem_filterMap.mp htext
  unfold Directive.adaptedStyle? at hadapted
  split at hadapted
  · cases hadapted
    exact h d hd
  · dsimp only at hadapted
    split at hadapted
    · cases hadapted
      exact returnFree_showStyle ((h d hd).of_subset (trim_sublist _).subset)
    · cases hadapted
  · cases hadapted

/-- A carriage return in a script is one in an expression or a browser. -/
theorem returnFree_scripts {target : Target} {style : Option StyleConfig}
    (h : ∀ d ∈ attrs.directives, ReturnFree d.expression)
    (hstyle : ∀ browser ∈ (style.bind StyleConfig.browsers).getD [], ReturnFree browser)
    {script : String × List Fragment} (hscript : script ∈ attrs.scripts target style) :
    Strings ReturnFree script.2 := by
  rcases List.mem_append.mp hscript with hscript | hscript
  · obtain ⟨key, hkey, rfl⟩ := List.mem_map.mp hscript
    exact strings_listener (returnFree_modelKey h (Option.mem_toList.mp hkey))
  · split at hscript
    · cases hscript
    · rw [List.mem_singleton.mp hscript]
      exact strings_call _ (strings_joined (strings_merged (returnFree_boundStyles h))) hstyle

end Attributes

/-! ### Whole templates -/

/-- Where bindings are kept, the scripts with literals in them are written on the elements, and no
literal has a line feed in it.  A literal is one for the language exactly if its text has no
carriage return, and so all of them are if there is none in the source and in the browsers. -/
theorem compile_literals {source out : String} {target : Target} {style : Option StyleConfig}
    (hmini : target.isMiniProgram = false) (h : compile source target style = .ok out) :
    ∃ d₀ d', Document.parse source = .ok d₀ ∧ Document.parse out = .ok d' ∧ d₀.SameTree d' ∧
      ∀ id e, d₀.element? id = some e → ∃ e', d'.element? id = some e' ∧
        ∀ script ∈ e.attrs.scripts target style,
          e'.attrs.get? script.1 = some (escapeText (Script.write script.2)) ∧
          ∀ text, .string text ∈ script.2 →
            '\n' ∉ (Script.quote text).toList ∧
            (Script.IsLiteral (Script.quote text) ↔ Script.ReturnFree text) ∧
            (Script.ReturnFree source →
              (∀ browser ∈ (style.bind StyleConfig.browsers).getD [], Script.ReturnFree browser) →
              Script.IsLiteral (Script.quote text)) := by
  obtain ⟨d₀, d', hparse, hparse', htree, helements⟩ := Document.elements_of_compile h
  refine ⟨d₀, d', hparse, hparse', htree, fun id e he => ?_⟩
  obtain ⟨hd, attrs, hby, he'⟩ := helements id e he
  refine ⟨_, he', fun script hscript => ⟨?_, fun text htext => ?_⟩⟩
  · exact (Attributes.get?_escaped attrs _).trans
      (congrArg _ (hby.get?_script hmini hd hscript))
  · refine ⟨Script.lineFeed_not_mem_quote text, Script.isLiteral_quote_iff text,
      fun hsource hstyle => (Script.isLiteral_quote_iff text).mpr ?_⟩
    have hexpressions : ∀ d ∈ e.attrs.directives, Script.ReturnFree d.expression := by
      intro d hdirective
      obtain ⟨hentry, -⟩ := Attributes.mem_of_mem_directives hdirective
      unfold Directive.expression
      cases hvalue : d.value with
      | none => decide
      | some value =>
          rw [hvalue] at hentry
          exact hsource.of_subset (Document.value_sublist_of_parse hparse he hentry).subset
    exact Attributes.returnFree_scripts hexpressions hstyle hscript text htext

/-- A key of two lines, a text with an interpolation and a browser with a quote. -/
theorem compile_literals_input :
    let source := "<p v-model=\"a\n'b\" :style=\"top:\x7b\x7bx\x7d\x7d\"/>"
    let style : StyleConfig := ⟨none, none, none, some ["it's"]⟩
    let listener := Script.listenerFragments "a\n'b"
    let call := Script.callFragments .proxyWithConfig (some style)
      [.string "top:", .copied "+", .copied "(x)"]
    let out := "<p v-on:input=\"_cmlModelEventProxy($event,'a\\n\\'b')\" " ++
      "v-bind:value=\"a\n'b\" v-bind:style=\"_cmlStyleProxy(('top:'+(x))," ++
      "\x7b'autoprefixOptions':\x7b'browsers':['it\\'s']\x7d\x7d)\" class=\" cml-base cml-p\" />"
    compile source .web (some style) = .ok out ∧
      ∃ d', Document.parse out = .ok d' ∧ ∃ e', d'.element? 0 = some e' ∧
        e'.attrs.get? "v-on:input" = some (escapeText (Script.write listener)) ∧
        e'.attrs.get? "v-bind:style" = some (escapeText (Script.write call)) ∧
        ∀ text, .string text ∈ listener ++ call → Script.IsLiteral (Script.quote text) := by
  intro source style listener call out
  have hout : compile source .web (some style) = .ok out := by decide +kernel
  obtain ⟨d₀, d', hparse, hread, -, hall⟩ := compile_literals rfl hout
  have hsource : ∃ e ∈ (Document.parse source).toOption.bind (·.element? 0),
      e.attrs.scripts .web (some style) = [("v-on:input", listener), ("v-bind:style", call)] := by
    decide +kernel
  obtain ⟨e, he, hscripts⟩ := hsource
  rw [hparse] at he
  obtain ⟨e', he', hscript⟩ := hall 0 e he
  rw [hscripts] at hscript
  obtain ⟨hlistener, hkey⟩ := hscript _ List.mem_cons_self
  obtain ⟨hcall, htexts⟩ := hscript _ (List.mem_cons_of_mem _ List.mem_cons_self)
  have hfree : Script.ReturnFree source := by decide
  have hbrowsers : ∀ browser ∈ ((some style).bind StyleConfig.browsers).getD [],
      Script.ReturnFree browser := by decide
  refine ⟨hout, d', hread, e', he', hlistener, hcall, fun text htext => ?_⟩
  rcases List.mem_append.mp htext with htext | htext
  · exact (hkey text htext).2.2 hfree hbrowsers
  · exact (htexts text htext).2.2 hfree hbrowsers

/-- A key of two lines that end as some editors write them: the line feed is written with a
backslash, and the carriage return before it is not. -/
theorem compile_literals_return :
    let source := "<input v-model=\"a\r\nb\" />"
    let out := "<input v-on:input=\"_cmlModelEventProxy($event,'a\r\\nb')\" " ++
      "v-bind:value=\"a\r\nb\" class=\" cml-base cml-input\" />"
    compile source .web none = .ok out ∧
      (∃ e ∈ (Document.parse source).toOption.bind (·.element? 0),
        ("v-on:input", Script.listenerFragments "a\r\nb") ∈ e.attrs.scripts .web none) ∧
      ¬ Script.IsLiteral (Script.quote "a\r\nb") := by
  refine ⟨by decide +kernel, by decide +kernel, ?_⟩
  rw [Script.isLiteral_quote_iff]
  decide

end TemplateCompiler
