/-
What is printed for a readable forest is read back.

Two inductions meet here.  Along the derivation of a reading, the document is extended by
a forest of which every node can be written: this is `Readable`.  Along a readable forest,
reading what is printed for it extends the document by that forest again, except that
quotes in values are spelled out.

Whether text can be read back depends on what follows it, so `Readable` is told whether
the forest ends where everything ends or before an end tag.  The last text of a whole
template may stop inside an interpolation that is never closed; no other text may.
-/
import TemplateCompiler.Proofs.Content

namespace TemplateCompiler

/-- The node as it is read back from where it was printed. -/
def NodeKind.escaped : NodeKind → NodeKind
  | element e => element e.escaped
  | text content => text content
  | comment content => comment content

namespace Forest

/-! ### Forests that can be written -/

/-- The first node is text. -/
def startsWithText : Forest → Bool
  | cons (.text _) _ _ => true
  | _ => false

/-- A tag or a comment stands first in the forest, or an end tag after it if it is empty;
`final` says that nothing at all stands after it. -/
def BeginsAtTag (final : Bool) (F : Forest) : Prop :=
  F.startsWithText = false ∧ (F = nil → final = false)

/-- Every node is printed in such a way that it can be read back. -/
inductive Readable : Bool → Forest → Prop
  | nil {final : Bool} : Readable final nil
  | comment {final : Bool} {content : String} {rest : Forest}
      (hend : Text.cutChars ['-', '-', '>'] content.toList = none) (hrest : Readable final rest) :
      Readable final (cons (.comment content) nil rest)
  | text {final : Bool} {content : String} {rest : Forest} (hne : content.toList ≠ [])
      (hstops : Token.StopsAtTag content.toList) (hfollow : rest.BeginsAtTag final)
      (hrest : Readable final rest) : Readable final (cons (.text content) nil rest)
  | lastText {content : String} (hne : content.toList ≠ [])
      (hread : Token.readText false content.toList = (content.toList, [])) :
      Readable true (cons (.text content) nil nil)
  | leaf {final : Bool} {e : Element} {rest : Forest} (he : e.Writable)
      (hclosing : e.closing ≠ .normal) (hrest : Readable final rest) :
      Readable final (cons (.element e) nil rest)
  | nest {final : Bool} {e : Element} {content rest : Forest} (he : e.Writable)
      (hclosing : e.closing = .normal) (hcontent : Readable false content)
      (hrest : Readable final rest) : Readable final (cons (.element e) content rest)

/-- What may stand after a forest: nothing, or an end tag. -/
def Tail (final : Bool) (tail : List Char) : Prop :=
  if final then tail = [] else ∃ rest, tail = '<' :: rest

/-- Where a tag stands first in a forest or after it, a tag is printed first. -/
theorem BeginsAtTag.print_append {final : Bool} {F : Forest} {tail : List Char}
    (h : F.BeginsAtTag final) (htail : Tail final tail) :
    ∃ rest, F.print ++ tail = '<' :: rest := by
  obtain ⟨htext, hnil⟩ := h
  cases F with
  | nil =>
      unfold Tail at htail
      rw [hnil rfl] at htail
      exact htail
  | cons kind content rest =>
      cases kind with
      | text t => cases htext
      | comment c => exact ⟨_, rfl⟩
      | element e =>
          by_cases hclosing : e.closing = .normal
          · rw [print_nest hclosing]
            exact ⟨_, rfl⟩
          · rw [print_leaf hclosing]
            exact ⟨_, rfl⟩

end Forest

namespace Document

variable {opened : Option OpenTag} {d d' : Document} {k k' : Cursor}

/-! ### What is read can be written -/

/-- What a reading from `k` on says about the beginning of its forest. -/
structure BeginsAs (opened : Option OpenTag) (k : Cursor) (F : Forest) : Prop where
  ended : k.rest = [] → opened = none ∧ F = .nil
  tag : ∀ rest, k.rest = '<' :: rest → F.BeginsAtTag opened.isNone

/-- Content extends the document by a forest that can be written. -/
theorem Reads.exists_readable (h : Reads opened d k d' k')
    (ho : ∀ p, opened.map OpenTag.id = some p → p < d.size) :
    ∃ F : Forest, Extends d (opened.map OpenTag.id) F d' ∧ F.Readable opened.isNone ∧
      BeginsAs opened k F := by
  induction h with
  | done hk =>
      refine ⟨.nil, Extends.nil _ _, .nil, fun _ => ⟨rfl, rfl⟩, fun rest hrest => ?_⟩
      rw [hk] at hrest
      cases hrest
  | close hk hnext hname =>
      exact ⟨.nil, (Extends.nil _ _).setStop _ _, .nil, fun hc => absurd hc hk,
        fun _ _ => ⟨rfl, fun _ => rfl⟩⟩
  | comment hk hnext hrest ih =>
      obtain ⟨F, hext, hread, -⟩ := ih (lt_size_push ho _ _ _)
      exact ⟨_, .leaf ho hext, .comment (Token.cutChars_of_next_comment hnext) hread,
        fun hc => absurd hc hk, fun _ _ => ⟨rfl, fun hc => nomatch hc⟩⟩
  | @text opened d d' k k₁ k' content hk hnext hrest ih =>
      obtain ⟨F, hext, hread, hbegins⟩ := ih (lt_size_push ho _ _ _)
      obtain ⟨hne, htext⟩ := Token.readText_of_next hk hnext
      obtain ⟨hchars, hleft⟩ := Token.readText_eq htext
      have hbegin : BeginsAs opened k (.cons (.text content) .nil F) := by
        refine ⟨fun hc => absurd hc hk, fun rest hc => ?_⟩
        have hhead := Token.head?_ne_of_readText hne htext
        rw [hc] at hchars
        cases hcontent : content.toList with
        | nil => exact absurd hcontent hne
        | cons c cs =>
            rw [hcontent] at hchars hhead
            cases hchars
            exact absurd rfl hhead
      rcases hleft with hleft | ⟨rest, hleft⟩
      · obtain ⟨rfl, rfl⟩ := hbegins.ended hleft
        rw [hleft, List.append_nil] at hchars
        rw [hchars, hleft] at htext
        exact ⟨_, .leaf ho hext, .lastText hne htext, hbegin⟩
      · rw [hleft] at htext
        exact ⟨_, .leaf ho hext,
          .text hne (Token.readText_append htext) (hbegins.tag rest hleft) hread, hbegin⟩
  | leaf hk hnext hclosing hrest ih =>
      obtain ⟨F, hext, hread, -⟩ := ih (lt_size_push ho _ _ _)
      exact ⟨_, .leaf ho hext, .leaf (Token.writable_of_next hnext) hclosing hread,
        fun hc => absurd hc hk, fun _ _ => ⟨rfl, fun hc => nomatch hc⟩⟩
  | @nest opened d d₂ d' k k₁ k₂ k' e hk hnext hclosing hcontent hrest ihc ihr =>
      obtain ⟨content, hextc, hreadc, -⟩ := ihc fun p hp => by
        cases hp
        rw [size_push]
        exact Nat.lt_succ_self _
      have hsize := hextc.size
      rw [size_push] at hsize
      obtain ⟨F, hext, hread, -⟩ := ihr fun p hp => by
        have := ho p hp
        omega
      exact ⟨_, .cons ho hextc hext, .nest (Token.writable_of_next hnext) hclosing hreadc hread,
        fun hc => absurd hc hk, fun _ _ => ⟨rfl, fun hc => nomatch hc⟩⟩

/-- A tree that is parsed is a forest that can be written. -/
theorem exists_readable_of_parse {text : String} (h : parse text = .ok d) :
    ∃ F : Forest, d.Represents F ∧ F.Readable true := by
  rw [parse_eq] at h
  cases hc : contentOf none .empty (.ofText text) with
  | error e =>
      rw [hc] at h
      cases h
  | ok result =>
      rw [hc] at h
      cases h
      obtain ⟨F, hext, hread, -⟩ := (reads_of_contentOf hc).exists_readable fun p hp => nomatch hp
      exact ⟨F, hext.represents, hread⟩

/-! ### What can be written is read back -/

/-- A readable forest is read back from what is printed for it, whatever is open. -/
theorem contentOf_print {final : Bool} {F : Forest} (h : F.Readable final) :
    ∀ {opened : Option OpenTag} {d : Document} {k : Cursor} {tail : List Char},
      (∀ p, opened.map OpenTag.id = some p → p < d.size) → k.rest = F.print ++ tail →
      Forest.Tail final tail →
      ∃ d' k', contentOf opened d k = contentOf opened d' k' ∧ k'.rest = tail ∧
        Extends d (opened.map OpenTag.id) (F.map NodeKind.escaped) d' := by
  induction h with
  | nil =>
      intro opened d k tail _ hk _
      exact ⟨d, k, rfl, hk, Extends.nil d _⟩
  | @comment final content rest hend hrest ih =>
      intro opened d k tail ho hk htail
      unfold Forest.print NodeKind.print at hk
      rw [List.append_assoc] at hk
      obtain ⟨k₁, hnext, hk₁⟩ := Token.next_comment hend hk
      obtain ⟨d', k', heq, hk', hext⟩ :=
        ih (lt_size_push ho _ (.comment content) ⟨k.offset, k₁.offset⟩) hk₁ htail
      refine ⟨d', k', ?_, hk', .leaf ho hext⟩
      rw [contentOf_token (by rw [hk]; simp) hnext]
      exact heq
  | @text final content rest hne hstops hfollow hrest ih =>
      intro opened d k tail ho hk htail
      unfold Forest.print NodeKind.print at hk
      rw [List.append_assoc] at hk
      obtain ⟨chars, hchars⟩ := hfollow.print_append htail
      have hread := hstops chars
      rw [← hchars] at hread
      obtain ⟨k₁, hnext, hk₁⟩ := Token.next_text hne hk hread
      obtain ⟨d', k', heq, hk', hext⟩ :=
        ih (lt_size_push ho _ (.text content) ⟨k.offset, k₁.offset⟩) hk₁ htail
      refine ⟨d', k', ?_, hk', .leaf ho hext⟩
      rw [contentOf_token (by rw [hk]; simp [hne]) hnext]
      exact heq
  | @lastText content hne hread =>
      intro opened d k tail ho hk htail
      have htail : tail = [] := htail
      subst htail
      have hk : k.rest = content.toList ++ [] := by
        rw [hk]
        unfold Forest.print NodeKind.print Forest.print
        rw [List.append_nil]
      rw [← List.append_nil content.toList] at hread
      obtain ⟨k₁, hnext, hk₁⟩ := Token.next_text hne hk (by simpa using hread)
      refine ⟨d.push (opened.map OpenTag.id) (.text content) ⟨k.offset, k₁.offset⟩, k₁, ?_, hk₁,
        .leaf ho (Extends.nil _ _)⟩
      exact contentOf_token (by rw [hk]; simp [hne]) hnext
  | @leaf final e rest he hclosing hrest ih =>
      intro opened d k tail ho hk htail
      rw [Forest.print_leaf hclosing, List.append_assoc] at hk
      obtain ⟨k₁, hnext, hk₁⟩ := Token.next_startTag he hk
      obtain ⟨d', k', heq, hk', hext⟩ :=
        ih (lt_size_push ho _ (.element e.escaped) ⟨k.offset, k₁.offset⟩) hk₁ htail
      refine ⟨d', k', ?_, hk', .leaf ho hext⟩
      rw [contentOf_token (by rw [hk]; simp [Element.printStart]) hnext]
      dsimp only
      rw [if_neg hclosing]
      exact heq
  | @nest final e content rest he hclosing hcontent hrest ihc ihr =>
      intro opened d k tail ho hk htail
      rw [Forest.print_nest hclosing, List.append_assoc, List.append_assoc, List.append_assoc] at hk
      obtain ⟨k₁, hnext, hk₁⟩ := Token.next_startTag he hk
      have hend : e.printEnd ++ (rest.print ++ tail)
          = '<' :: '/' :: e.tag.toList ++ '>' :: (rest.print ++ tail) := by
        unfold Element.printEnd
        simp
      have hself : ∀ p,
          (some (OpenTag.mk d.size e.tag ⟨k.offset, k₁.offset⟩)).map OpenTag.id = some p →
          p < (d.push (opened.map OpenTag.id) (.element e.escaped) ⟨k.offset, k₁.offset⟩).size := by
        intro p hp
        cases hp
        rw [size_push]
        exact Nat.lt_succ_self _
      obtain ⟨d₂, k₂, heqc, hk₂, hextc⟩ := ihc hself hk₁ ⟨_, hend⟩
      obtain ⟨k₃, hnext₃, hk₃⟩ := Token.next_endTag he.tag (hk₂.trans hend)
      have hcloses : contentOf (some ⟨d.size, e.tag, ⟨k.offset, k₁.offset⟩⟩) d₂ k₂
          = .ok (d₂.setStop d.size k₃.offset, k₃) := by
        rw [contentOf_token (by rw [hk₂, hend]; simp) hnext₃]
        dsimp only
        rw [if_pos (by unfold OpenTag.matchesEnd; simp)]
      have hsize := hextc.size
      rw [size_push] at hsize
      have hopen : ∀ p, opened.map OpenTag.id = some p →
          p < (d₂.setStop d.size k₃.offset).size := by
        intro p hp
        have := ho p hp
        rw [size_setStop]
        omega
      obtain ⟨d', k', heq, hk', hext⟩ := ihr hopen hk₃ htail
      refine ⟨d', k', ?_, hk', .cons ho (hextc.setStop _ _) hext⟩
      rw [contentOf_token (by rw [hk]; simp [Element.printStart]) hnext]
      dsimp only
      unfold Element.escaped at heqc
      rw [if_pos hclosing, heqc, hcloses]
      exact heq

/-- A document that represents a readable forest is printed as a text that is parsed again,
and the tree that is parsed is the same but for the spelling of quotes. -/
theorem Represents.parse_print {F : Forest} (h : d.Represents F) (hread : F.Readable true) :
    ∃ d', parse d.print = .ok d' ∧ d'.Represents (F.map NodeKind.escaped) := by
  have hrest : (Cursor.ofText d.print).rest = F.print ++ [] := by
    rw [h.print_eq, List.append_nil]
    exact String.toList_ofList
  have hnone : ∀ p, (none : Option OpenTag).map OpenTag.id = some p → p < Document.empty.size :=
    fun p hp => nomatch hp
  obtain ⟨d', k', heq, hk', hext⟩ := contentOf_print hread hnone hrest rfl
  refine ⟨d', ?_, hext.represents⟩
  rw [parse_eq, heq, contentOf_nil hk']
  rfl

end Document

end TemplateCompiler
