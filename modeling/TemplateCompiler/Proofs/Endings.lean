/-
How the nodes of a parsed template end.

A start tag is not read without its last mark.  The two other constructs are: the `>` of an end tag
is passed over if it is there, and a comment that does not end runs to the end of the template.  So
a node of a parsed template ends as its kind asks, or it is one of these two, and then it is known
what stands in the place of the mark: nothing at all after a comment, and after the name of an end
tag anything but a blank and the `>`.
-/
import TemplateCompiler.Proofs.Forms

namespace TemplateCompiler

/-- `cs` is `</`, the name of the tag in any case of letters, and blanks around the name. -/
inductive ClosesTag (tag : String) : List Char → Prop
  | mk {name : String} {blanks blanks' : List Char}
      (hname : Text.lowerAscii tag = Text.lowerAscii name) (hblanks : AllBlank blanks)
      (hblanks' : AllBlank blanks') :
      ClosesTag tag ('<' :: '/' :: (blanks ++ (name.toList ++ blanks')))

namespace NodeKind

/-- How a node of the kind is to end. -/
inductive Ending : NodeKind → List Char → Prop
  | text {content : String} : Ending (.text content) []
  | comment {content : String} : Ending (.comment content) "-->".toList
  | selfClosing {e : Element} (hclosing : e.closing = .selfClosing) :
      Ending (.element e) ['/', '>']
  | void {e : Element} (hclosing : e.closing = .void) : Ending (.element e) ['>']
  | normal {e : Element} {cs : List Char} (hclosing : e.closing = .normal)
      (htag : ClosesTag e.tag cs) : Ending (.element e) (cs ++ ['>'])

/-- The piece ends as the node is to end. -/
def Complete (kind : NodeKind) (piece : List Char) : Prop :=
  ∃ ending, kind.Ending ending ∧ ending <:+ piece

/-- The last mark of the node is missing, and `after` stands where it should be. -/
inductive CutShort : NodeKind → List Char → List Char → Prop
  | comment {content : String} : CutShort (.comment content) ("<!--".toList ++ content.toList) []
  | endTag {e : Element} {front cs after : List Char} (hclosing : e.closing = .normal)
      (htag : ClosesTag e.tag cs)
      (hafter : ∀ c, after.head? = some c → isBlank c = false ∧ c ≠ '>') :
      CutShort (.element e) (front ++ cs) after

/-- Every complete element ends with the mark of a tag. -/
theorem Complete.getLast?_eq {e : Element} {piece : List Char}
    (h : Complete (.element e) piece) : piece.getLast? = some '>' := by
  obtain ⟨ending, hending, front, rfl⟩ := h
  cases hending with
  | selfClosing hclosing => simp
  | void hclosing => simp
  | normal hclosing htag => simp

end NodeKind

namespace Token

variable {k k' : Cursor}

/-- A start tag is taken up to its last mark. -/
theorem startTag_mark {tag : String} {attrs : Attributes} {closing : Closing} (hk : k.rest ≠ [])
    (h : next k = .ok (.startTag tag attrs closing, k')) :
    ∃ inner, k.Takes (inner ++ closing.mark) k' := by
  have hstands := (stands_iff hk).mpr h
  cases hstands with
  | selfClosing htag hrest =>
      obtain ⟨inner, hinner⟩ := htag.exists_takes
      exact ⟨_, hinner.trans (Cursor.takes_advance hrest)⟩
  | startTag htag hrest =>
      obtain ⟨inner, hinner⟩ := htag.exists_takes
      refine ⟨'<' :: inner, ?_⟩
      have hmark : ∀ void : Bool, (if void then Closing.void else .normal).mark = ['>'] := by decide
      rw [hmark]
      exact hinner.trans (Cursor.takes_advance hrest)

/-- An end tag is taken up to its `>`, or up to what stands in its place. -/
theorem endTag_mark {tag name : String} (hname : Text.lowerAscii tag = Text.lowerAscii name)
    (hk : k.rest ≠ []) (h : next k = .ok (.endTag name, k')) :
    ∃ cs, ClosesTag tag cs ∧ (k.Takes (cs ++ ['>']) k' ∨
      k.Takes cs k' ∧ ∀ c, k'.rest.head? = some c → isBlank c = false ∧ c ≠ '>') := by
  have hstands := (stands_iff hk).mpr h
  cases hstands with
  | @endTag blanks name blanks' mark rest hrest hblanks hchars hblanks' hmark =>
      refine ⟨_, .mk hname hblanks.all hblanks'.all, ?_⟩
      rw [String.toList_ofList]
      have htakes : k.Takes (['<', '/'] ++ blanks ++ name ++ blanks' ++ mark)
          (k.advance (['<', '/'] ++ blanks ++ name ++ blanks' ++ mark) rest) := by
        refine Cursor.takes_advance ?_
        rw [hrest]
        simp only [List.append_assoc]
      rcases hmark with rfl | ⟨rfl, hnot⟩
      · refine .inl ?_
        simpa using htakes
      · refine .inr ⟨by simpa using htakes, fun c hc => ⟨hblanks'.ends c hc, ?_⟩⟩
        rintro rfl
        obtain ⟨more, rfl⟩ := List.head?_eq_some_iff.mp hc
        exact hnot ⟨more, rfl⟩

end Token

namespace Element

variable {e : Element} {before tag after : List Char}

theorem StartTag.rest_ne (h : e.StartTag before tag after) : tag ++ after ≠ [] := by
  obtain ⟨inner, rfl⟩ := h.bounds
  exact List.cons_ne_nil _ _

theorem EndTag.rest_ne (h : e.EndTag before tag after) : tag ++ after ≠ [] := by
  obtain ⟨inner, rfl⟩ := h.bounds
  exact List.cons_ne_nil _ _

end Element

namespace Document

variable {d : Document} {source : String}

/-- A node that is written in one of the ways is complete or cut short. -/
theorem Written.ends {before after piece : List Char} {kind : NodeKind} {children : List Nat}
    (h : d.Written before after kind children piece) :
    kind.Complete piece ∨ kind.CutShort piece after := by
  cases h with
  | text => exact .inl ⟨_, .text, List.nil_suffix⟩
  | comment => exact .inl ⟨_, .comment, List.suffix_append _ _⟩
  | endlessComment hafter =>
      cases hafter
      exact .inr .comment
  | @leaf e tag hclosing htag =>
      obtain ⟨inner, htakes⟩ := Token.startTag_mark htag.rest_ne htag.read
      rw [List.append_cancel_right htakes.1]
      refine .inl ?_
      cases hmark : e.closing with
      | normal => exact absurd hmark hclosing
      | selfClosing => exact ⟨_, .selfClosing hmark, List.suffix_append _ _⟩
      | void => exact ⟨_, .void hmark, List.suffix_append _ _⟩
  | @nest e opening inner closing children hclosing hopening hchildren hend =>
      obtain ⟨name, hname, hread⟩ := hend.read
      obtain ⟨cs, htag, htakes | ⟨htakes, hafter⟩⟩ := Token.endTag_mark hname hend.rest_ne hread
      · rw [List.append_cancel_right htakes.1]
        exact .inl ⟨_, .normal hclosing htag, List.suffix_append _ _⟩
      · rw [List.append_cancel_right htakes.1]
        exact .inr (.endTag hclosing htag hafter)

/-- Every node of a parsed template ends as its kind asks, or its last mark is missing and is not
what comes next. -/
theorem ends_of_parse (h : parse source = .ok d) {id : Nat} {n : Node}
    (hn : d.node? id = some n) :
    ∃ before piece after, source.toList = before ++ piece ++ after ∧
      n.span = ⟨byteLength before, byteLength (before ++ piece)⟩ ∧
      (n.kind.Complete piece ∨ n.kind.CutShort piece after) := by
  obtain ⟨before, piece, after, htext, -, hspan, hwritten⟩ := (tiles_of_parse h).nodes id n hn
  exact ⟨before, piece, after, htext, hspan, hwritten.ends⟩

/-- Nodes of all kinds, an end tag without its `>` and a comment that does not end. -/
theorem ends_of_parse_kinds :
    let source := "<C ><Br><b />ü<!-- é--><A></a ></ c\n<!-- é"
    ∃ d, parse source = .ok d ∧ d.size = 7 ∧ ∀ id n, d.node? id = some n →
      ∃ before piece after, source.toList = before ++ piece ++ after ∧
        n.span = ⟨byteLength before, byteLength (before ++ piece)⟩ ∧
        (n.kind.Complete piece ∨ n.kind.CutShort piece after) := by
  intro source
  have hsize : (parse source).toOption.map size = some 7 := by
    decide +kernel
  cases h : parse source with
  | error e =>
      rw [h] at hsize
      cases hsize
  | ok d =>
      rw [h] at hsize
      exact ⟨d, rfl, Option.some.inj hsize, fun id n hn => ends_of_parse h hn⟩

/-- An end tag without its `>` is accepted at the end of a template. -/
theorem ends_of_parse_endless :
    ∃ d n, parse "<view></view" = .ok d ∧ d.node? 0 = some n ∧ n.span = ⟨0, 12⟩ ∧
      ¬ n.kind.Complete "<view></view".toList := by
  have hnode : (parse "<view></view").toOption.bind (fun d => d.node? 0)
      = some ⟨.element ⟨"view", .ofEntries [], .normal⟩, none, #[], ⟨0, 12⟩⟩ := by
    decide +kernel
  cases h : parse "<view></view" with
  | error e =>
      rw [h] at hnode
      cases hnode
  | ok d =>
      rw [h] at hnode
      refine ⟨d, _, rfl, hnode, rfl, fun hcomplete => ?_⟩
      exact absurd hcomplete.getLast?_eq (by decide)

end Document

end TemplateCompiler
