/-
Every error points at a tag.

An error comes from one of two places.  The reader reports a token, or an element that does not
end; each of these begins with the `<` at which the cursor stood, or stood when the element was
opened.  A pass reports the element at which it stopped, with the span that the reader gave it,
since no pass touches spans; and the slice of an element begins with its `<`.  So the span of any
error cuts out a piece of the source that begins with `<`, and from the text before that piece
follow the line and the column.
-/
import TemplateCompiler.Proofs.Chain
import TemplateCompiler.Proofs.Conflicts
import TemplateCompiler.Proofs.Dialects
import TemplateCompiler.Proofs.Lines
import TemplateCompiler.Proofs.Tiling

namespace TemplateCompiler

/-- The span cuts a piece out of the text that begins with `<`. -/
def Span.MarksTag (span : Span) (text : List Char) : Prop := ∃ tag, span.Cuts text ('<' :: tag)

/-- The tag of the element whose directives are at fault, if the markup is not. -/
def CompileError.tag? : CompileError → Option String
  | brokenChain tag _ _ | badIteration tag _ _ | conflict tag _ _ _ => some tag
  | markup _ | unknownTarget _ => none

/-! ### Errors of the reader -/

namespace Token

variable {k k' : Cursor}

/-- What stands at an end tag begins with a `<`. -/
theorem marksTag_endTag {text before : List Char} {name : String} (hafter : k.After text before)
    (hk : k.rest ≠ []) (h : next k = .ok (.endTag name, k')) :
    Span.MarksTag ⟨k.offset, k'.offset⟩ text := by
  obtain ⟨piece, htakes, rest, rfl⟩ := exists_takes_of_next hk h
  exact ⟨'/' :: rest, hafter.cuts htakes⟩

theorem marksTag_startTag {text before : List Char} {tag : String} {attrs : Attributes}
    {closing : Closing} (hafter : k.After text before) (hk : k.rest ≠ [])
    (h : next k = .ok (.startTag tag attrs closing, k')) :
    Span.MarksTag ⟨k.offset, k'.offset⟩ text := by
  obtain ⟨piece, htakes, inner, rfl⟩ := exists_takes_of_next hk h
  exact ⟨inner ++ ['>'], hafter.cuts htakes⟩

theorem marksTag_error {text before : List Char} {e : ParseError} (hafter : k.After text before)
    (hk : k.rest ≠ []) (h : next k = .error e) : e.span.MarksTag text := by
  obtain ⟨inner, k', htakes, hspan⟩ := exists_takes_of_next_error hk h
  rw [hspan]
  exact ⟨inner, hafter.cuts htakes⟩

end Token

namespace Document

/-- Reading content takes what lies between two cursors. -/
theorem Reads.exists_takes {opened : Option OpenTag} {d d' : Document} {k k' : Cursor}
    (h : Reads opened d k d' k') : ∃ piece, k.Takes piece k' := by
  induction h with
  | done hk => exact ⟨_, .refl _⟩
  | close hk hnext hname =>
      obtain ⟨piece, htakes, -⟩ := Token.exists_takes_of_next hk hnext
      exact ⟨_, htakes⟩
  | comment hk hnext hrest ih | text hk hnext hrest ih | leaf hk hnext hclosing hrest ih =>
      obtain ⟨piece, htakes, -⟩ := Token.exists_takes_of_next hk hnext
      obtain ⟨more, hmore⟩ := ih
      exact ⟨_, htakes.trans hmore⟩
  | nest hk hnext hclosing hcontent hrest ihc ihr =>
      obtain ⟨piece, htakes, -⟩ := Token.exists_takes_of_next hk hnext
      obtain ⟨inner, hinner⟩ := ihc
      obtain ⟨more, hmore⟩ := ihr
      exact ⟨_, (htakes.trans hinner).trans hmore⟩

/-- A text that is no template is reported at one of its tags.  The span of an open element has to
be known for it, because an element that does not end is reported where it begins. -/
theorem marksTag_of_contentOf {opened : Option OpenTag} {d : Document} {k : Cursor}
    {text before : List Char} {e : ParseError} (h : contentOf opened d k = .error e)
    (hafter : k.After text before) (hopened : ∀ o, opened = some o → o.span.MarksTag text) :
    e.span.MarksTag text := by
  by_cases hk : k.rest = []
  · rw [contentOf_nil hk] at h
    cases opened with
    | none => cases h
    | some o =>
        cases h
        exact hopened o rfl
  cases hnext : Token.next k with
  | error e' =>
      rw [contentOf_error hk hnext] at h
      cases h
      exact Token.marksTag_error hafter hk hnext
  | ok result =>
      obtain ⟨token, k₁⟩ := result
      have hlt := Token.length_next_lt hk hnext
      obtain ⟨piece, htakes, -⟩ := Token.exists_takes_of_next hk hnext
      have hafter₁ := hafter.takes htakes
      rw [contentOf_token hk hnext] at h
      cases token with
      | endTag name =>
          have hmarks := Token.marksTag_endTag hafter hk hnext
          cases opened with
          | none =>
              cases h
              exact hmarks
          | some o =>
              dsimp only at h
              split at h
              · cases h
              · cases h
                exact hmarks
      | comment content => exact marksTag_of_contentOf h hafter₁ hopened
      | text content => exact marksTag_of_contentOf h hafter₁ hopened
      | startTag tag attrs closing =>
          dsimp only at h
          split at h
          · split at h
            · rename_i hcontent
              cases h
              refine marksTag_of_contentOf hcontent hafter₁ fun o ho => ?_
              cases ho
              exact Token.marksTag_startTag hafter hk hnext
            · rename_i d₂ k₂ hcontent
              have hle := contentOf_length_le hcontent
              obtain ⟨inner, hinner⟩ := (reads_of_contentOf hcontent).exists_takes
              exact marksTag_of_contentOf h (hafter₁.takes hinner) hopened
          · exact marksTag_of_contentOf h hafter₁ hopened
termination_by k.rest.length

theorem marksTag_of_parse_error {source : String} {e : ParseError} (h : parse source = .error e) :
    e.span.MarksTag source.toList := by
  rw [parse_eq] at h
  cases hc : contentOf none .empty (.ofText source) with
  | error e' =>
      rw [hc] at h
      cases h
      exact marksTag_of_contentOf hc (Cursor.after_ofText source) fun o ho => nomatch ho
  | ok result =>
      rw [hc] at h
      cases h

/-- The slice of an element begins with its start tag. -/
theorem marksTag_of_element {source : String} {d : Document} (h : parse source = .ok d) {id : Nat} {e : Element}
    (he : d.element? id = some e) : (d.spanOf id).MarksTag source.toList := by
  obtain ⟨s, hs, before, piece, after, htext, -, hspan, hwritten⟩ :=
    standsIn_of_parse h (lt_size_of_element? he)
  obtain ⟨kind, parent, children⟩ := s
  obtain rfl : kind = .element e := by
    rw [element?_eq, hs] at he
    cases kind <;> cases he
    rfl
  obtain ⟨tag, rfl⟩ : ∃ tag, piece = '<' :: tag := by
    cases hwritten with
    | leaf hclosing htag =>
        obtain ⟨inner, rfl⟩ := htag.bounds
        exact ⟨_, rfl⟩
    | nest hclosing hopening hchildren hend =>
        obtain ⟨inner, rfl⟩ := hopening.bounds
        exact ⟨_, rfl⟩
  exact ⟨tag, before, after, htext, hspan⟩

end Document

/-! ### Errors of the passes -/

namespace Adapter

variable {adapter : Adapter} {setting : Setting} {site : Site} {attrs : Attributes}
  {error : CompileError}

theorem Total.ne_error (h : adapter.Total setting) :
    adapter setting site attrs ≠ .error error := by
  obtain ⟨attrs', hok⟩ := h site attrs
  rw [hok]
  exact nofun

theorem iteration_eq_error (h : iteration setting site attrs = .error error) :
    ∃ l, attrs.directive? .forEach = some l ∧
      error = .badIteration site.tag l.expression site.span := by
  unfold iteration at h
  split at h
  · cases h
  · rename_i l hl
    split at h
    · cases h
      exact ⟨l, hl, rfl⟩
    · split at h
      · cases h
      · split at h
        · cases h
        · cases h
          exact ⟨l, hl, rfl⟩

end Adapter

/-- An adapter reports the element that it was given. -/
theorem Pass.adapter_eq_error (pass : Pass) {setting : Setting} {site : Site} {attrs : Attributes}
    {error : CompileError} (h : pass.adapter setting site attrs = .error error) :
    error.span? = some site.span ∧ error.tag? = some site.tag := by
  have href : ref.adapter.Total setting := Adapter.total_reference setting
  have hmodel : model.adapter.Total setting := Adapter.total_model setting
  cases pass with
  | ref => exact (href.ne_error h).elim
  | model => exact (hmodel.ne_error h).elim
  | binding =>
      obtain ⟨property, -, -, rfl⟩ := Adapter.binding_eq_error h
      exact ⟨rfl, rfl⟩
  | conditional =>
      rcases Adapter.conditional_eq_error h with ⟨first, second, rest, -, rfl⟩ | ⟨c, -, -, -, rfl⟩
      · exact ⟨rfl, rfl⟩
      · exact ⟨rfl, rfl⟩
  | iteration =>
      obtain ⟨l, -, rfl⟩ := Adapter.iteration_eq_error h
      exact ⟨rfl, rfl⟩
  | classes => exact ((Pass.total .classes (by decide) setting).ne_error h).elim
  | styles => exact ((Pass.total .styles (by decide) setting).ne_error h).elim

/-- A pass that fails reports an element, as it stood before. -/
theorem Pass.run_error_eq {pass : Pass} {setting : Setting} {d : Document} {error : CompileError}
    (hd : d.Linked) (h : (pass.run setting d).error = some error) :
    ∃ id e, d.element? id = some e ∧ error.span? = some (d.spanOf id) ∧
      error.tag? = some e.tag := by
  rcases Document.adaptAll_cases hd pass.adapter setting with
    ⟨hnone, -⟩ | ⟨front, id, back, e, error', -, herror, hfront, he, hadapter⟩
  · unfold Pass.run at h
    rw [hnone] at h
    cases h
  · unfold Pass.run at h
    rw [herror] at h
    cases h
    obtain ⟨hspan, htag⟩ := pass.adapter_eq_error hadapter
    refine ⟨id, e, he, ?_, htag⟩
    rw [hspan, ← hfront.span id]
    rfl

/-- Passes that fail report an element, as it stood at first: those that succeeded before have
changed neither its span nor its tag. -/
theorem Pipeline.exists_element_of_error {setting : Setting} {error : CompileError}
    (passes : Pipeline) : ∀ {d : Document}, d.Linked → (passes.run setting d).error = some error →
      ∃ id e, d.element? id = some e ∧ error.span? = some (d.spanOf id) ∧
        error.tag? = some e.tag := by
  induction passes with
  | nil =>
      intro d _ h
      cases h
  | cons pass passes ih =>
      intro d hd h
      cases herror : (pass.run setting d).error with
      | some error' =>
          rw [run_cons_of_error herror, herror] at h
          cases h
          exact Pass.run_error_eq hd herror
      | none =>
          rw [run_cons_of_none herror] at h
          obtain ⟨id, e, he, hspan, htag⟩ := ih (pass.linked_run setting hd) h
          have hrun : Pipeline.run setting [pass] d = ⟨(pass.run setting d).document, none⟩ :=
            run_cons_of_none herror
          obtain ⟨e₀, attrs, he₀, -, rfl⟩ := exists_element hd hrun he
          rw [pass.spanOf_run setting hd] at hspan
          exact ⟨id, e₀, he₀, hspan, htag⟩

/-! ### Errors of compiling -/

namespace CompileError

/-- The error has a place in the source. -/
structure Located (error : CompileError) (source : String) : Prop where
  /-- It begins with a `<`, and is found by its line and column. -/
  place : ∃ before tag after, source.toList = before ++ '<' :: tag ++ after ∧
    error.span? = some ⟨byteLength before, byteLength (before ++ '<' :: tag)⟩ ∧
    error.location? source = some ⟨1 + before.count '\n', 1 + byteLength (lastLine before)⟩
  /-- If directives are at fault, it is that of an element with the tag that is named. -/
  element : ∀ name, error.tag? = some name →
    ∃ d id e, Document.parse source = .ok d ∧ d.element? id = some e ∧ e.tag = name ∧
      error.span? = some (d.spanOf id)

theorem exists_place {error : CompileError} {source : String} {span : Span}
    (hspan : error.span? = some span) (hmarks : span.MarksTag source.toList) :
    ∃ before tag after, source.toList = before ++ '<' :: tag ++ after ∧
      error.span? = some ⟨byteLength before, byteLength (before ++ '<' :: tag)⟩ ∧
      error.location? source
        = some ⟨1 + before.count '\n', 1 + byteLength (lastLine before)⟩ := by
  obtain ⟨tag, before, after, htext, rfl⟩ := hmarks
  have hsource : source.isEmpty = false := by
    rw [Bool.eq_false_iff, ne_eq, String.isEmpty_iff]
    rintro rfl
    simp at htext
  have hrest : source.toList = before ++ ('<' :: tag ++ after) := by
    rw [htext, List.append_assoc]
  refine ⟨before, tag, after, htext, hspan, ?_⟩
  unfold location?
  rw [hsource, if_neg Bool.false_ne_true, hspan, Option.map_some,
    LineIndex.lineCol_byteLength hrest]

end CompileError

/-- Every error of compiling points at a tag of the source, in a place that has a line and a column,
and where it is about directives, at the element that they are on. -/
theorem located_of_compile {source : String} {target : Target} {style : Option StyleConfig}
    {error : CompileError} (h : compile source target style = .error error) :
    error.Located source := by
  cases hparse : Document.parse source with
  | error e =>
      rw [compile_of_error hparse] at h
      cases h
      exact ⟨CompileError.exists_place rfl (Document.marksTag_of_parse_error hparse),
        fun name hname => nomatch hname⟩
  | ok d =>
      rw [compile_of_parse hparse] at h
      cases herror : (d.adapt (.forTarget target style)).error with
      | none =>
          rw [herror] at h
          cases h
      | some error' =>
          rw [herror] at h
          cases h
          obtain ⟨id, e, he, hspan, htag⟩ := Pipeline.exists_element_of_error Pass.standard
            (Document.built_of_parse hparse).linked herror
          refine ⟨CompileError.exists_place hspan (Document.marksTag_of_element hparse he), ?_⟩
          intro name hname
          rw [htag, Option.some.injEq] at hname
          exact ⟨d, id, e, hparse, he, hname, hspan⟩

/-- A binding in both spellings on the second line, after characters of one byte and of two. -/
theorem located_of_compile_conflict :
    let source := "<a>\n\té<b :x v-bind:x /></a>"
    let error := CompileError.conflict "b" "v-bind:x" ":x" ⟨7, 24⟩
    compile source .wx none = .error error ∧ error.location? source = some ⟨2, 4⟩ ∧
      error.Located source := by
  intro source error
  have h : compile source .wx none = .error error := by decide +kernel
  exact ⟨h, by decide +kernel, located_of_compile h⟩

end TemplateCompiler
