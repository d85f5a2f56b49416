/-
Reading a text and printing it are inverse on forests.

`contentOf` is the reading of content without the bound that makes it end; its equations
say what one token does.  Two inductions use them.  Along a successful reading, the
document is extended by a forest of which every node can be written: this is `Readable`.
Along a readable forest, reading what is printed for it succeeds and extends the document
by that forest again, except that quotes in values are spelled out.

Whether text can be read back depends on what follows it, so `Readable` is told whether
the forest ends where everything ends or before an end tag.  The last text of a whole
template may stop inside an interpolation that is never closed; no other text may.
-/
import TemplateCompiler.Markup.Parse
import TemplateCompiler.Proofs.Arena
import TemplateCompiler.Proofs.Forest
import TemplateCompiler.Proofs.Reading.Token

namespace TemplateCompiler

/-! ### Printing a forest -/

/-- What is printed for a node, where `content` is printed for its content. -/
def NodeKind.print (content : List Char) : NodeKind → List Char
  | text t => t.toList
  | comment c => "<!--".toList ++ c.toList ++ "-->".toList
  | element e => if e.closing = .normal then e.printStart ++ content ++ e.printEnd else e.printStart

/-- What is printed for nodes one after the other. -/
def Forest.print : Forest → List Char
  | nil => []
  | cons kind content rest => kind.print content.print ++ rest.print

namespace Forest

/-- An element with an end tag shows its content. -/
theorem print_nest {e : Element} (h : e.closing = .normal) (content rest : Forest) :
    (cons (.element e) content rest).print
      = e.printStart ++ (content.print ++ (e.printEnd ++ rest.print)) := by
  show (if e.closing = .normal then e.printStart ++ content.print ++ e.printEnd else e.printStart)
    ++ rest.print = _
  rw [if_pos h, List.append_assoc, List.append_assoc]

theorem print_leaf {e : Element} (h : e.closing ≠ .normal) (content rest : Forest) :
    (cons (.element e) content rest).print = e.printStart ++ rest.print := by
  show (if e.closing = .normal then e.printStart ++ content.print ++ e.printEnd else e.printStart)
    ++ rest.print = _
  rw [if_neg h]

end Forest

namespace Document

theorem printNode_eq {d : Document} {id : Nat} {s : NodeShape} (h : d.shape? id = some s) :
    d.printNode id = s.kind.print (s.children.flatMap d.printNode) := by
  have hchildren : d.children id = s.children := by
    rw [children_eq, h]
    rfl
  unfold shape? at h
  obtain ⟨n, hn, rfl⟩ := Option.map_eq_some_iff.mp h
  rw [printNode, hn]
  obtain ⟨kind, parent, children, span⟩ := n
  cases kind with
  | text t => rfl
  | comment c => rfl
  | element e =>
      show (if e.closing = .normal then
          e.printStart ++ ((d.children id).attach.flatMap fun c => d.printNode c.1) ++ e.printEnd
        else e.printStart) = _
      rw [← hchildren, List.flatMap_def, List.attach_map_val, ← List.flatMap_def]
      rfl

theorem flatMap_printNode {d : Document} {F : Forest} :
    ∀ {parent : Option Nat} {start : Nat}, F.Holds d parent start →
      (F.ids start).flatMap d.printNode = F.print := by
  induction F with
  | nil => intro parent start _; rfl
  | cons kind content rest ihc ihr =>
      intro parent start h
      obtain ⟨hnode, hcontent, hrest⟩ := h
      unfold Forest.ids
      rw [List.flatMap_cons, printNode_eq hnode, ihc hcontent, ihr hrest]
      rfl

/-- A document that represents a forest is printed as the forest is. -/
theorem Represents.print_eq {d : Document} {F : Forest} (h : d.Represents F) :
    d.print = String.ofList F.print := by
  unfold print
  rw [h.roots, flatMap_printNode h.holds]

/-! ### Reading content, token by token -/

/-- The reading of content, without the bound on what is left. -/
def contentOf (opened : Option OpenTag) (d : Document) (k : Cursor) :
    Except ParseError (Document × Cursor) :=
  (readContent opened d k).map fun result => (result.1, result.2.1)

theorem parse_eq (text : String) :
    parse text = (contentOf none .empty (.ofText text)).map Prod.fst := by
  unfold parse contentOf
  cases readContent none .empty (.ofText text) <;> rfl

variable {opened : Option OpenTag} {d : Document} {k k₁ : Cursor}

/-- Where nothing is left, an element that is still open is an error. -/
theorem contentOf_nil (hk : k.rest = []) :
    contentOf opened d k = match opened with
      | some o => .error (.unclosedTag o.tag o.span)
      | none => .ok (d, k) := by
  unfold contentOf
  rw [readContent.eq_def, dif_pos hk]
  cases opened <;> rfl

theorem contentOf_error (hk : k.rest ≠ []) {e : ParseError} (h : Token.next k = .error e) :
    contentOf opened d k = .error e := by
  unfold contentOf
  rw [readContent.eq_def, dif_neg hk]
  split
  · rename_i e' h'
    rw [h] at h'
    cases h'
    rfl
  · rename_i h'
    rw [h] at h'
    cases h'

/-- What one token does. -/
theorem contentOf_token (hk : k.rest ≠ []) {token : Token} :
    Token.next k = .ok (token, k₁) → contentOf opened d k = match token with
      | .endTag name =>
        match opened with
        | some o =>
          if o.matchesEnd name then .ok (d.setStop o.id k₁.offset, k₁)
          else .error (.mismatchedTag o.tag name ⟨k.offset, k₁.offset⟩)
        | none => .error (.strayEndTag name ⟨k.offset, k₁.offset⟩)
      | .comment content =>
        contentOf opened
          (d.push (opened.map OpenTag.id) (.comment content) ⟨k.offset, k₁.offset⟩) k₁
      | .text content =>
        contentOf opened
          (d.push (opened.map OpenTag.id) (.text content) ⟨k.offset, k₁.offset⟩) k₁
      | .startTag tag attrs closing =>
        if closing = .normal then
          match contentOf (some ⟨d.size, tag, ⟨k.offset, k₁.offset⟩⟩)
              (d.push (opened.map OpenTag.id) (.element { tag, attrs, closing })
                ⟨k.offset, k₁.offset⟩) k₁ with
          | .error e => .error e
          | .ok (d, k₂) => contentOf opened d k₂
        else
          contentOf opened (d.push (opened.map OpenTag.id) (.element { tag, attrs, closing })
            ⟨k.offset, k₁.offset⟩) k₁ := by
  intro h
  have hlt := Nat.le_of_lt (Token.length_next_lt hk h)
  have hmap : ∀ {b : Nat} (d : Document) (k₂ : Cursor)
      (hle : ∀ k' : Cursor, k'.rest.length ≤ k₂.rest.length → k'.rest.length ≤ b),
      ((readContent opened d k₂).map fun r =>
          (r.1, (⟨r.2.1, hle _ r.2.2⟩ : { k' : Cursor // k'.rest.length ≤ b }))).map
        (fun result => (result.1, result.2.1)) = contentOf opened d k₂ := by
    intro b d k₂ hle
    unfold contentOf
    cases readContent opened d k₂ <;> rfl
  show (readContent opened d k).map _ = _
  rw [readContent.eq_def, dif_neg hk]
  split
  · rename_i h'
    rw [h] at h'
    cases h'
  · rename_i token' k₁' h'
    rw [h] at h'
    cases h'
    cases token with
    | endTag name =>
        cases opened with
        | none => rfl
        | some o =>
            dsimp only
            split <;> rfl
    | comment content => exact hmap _ _ fun _ hle => Nat.le_trans hle hlt
    | text content => exact hmap _ _ fun _ hle => Nat.le_trans hle hlt
    | startTag tag attrs closing =>
        dsimp only
        split
        · unfold contentOf
          cases readContent (some ⟨d.size, tag, ⟨k.offset, k₁.offset⟩⟩)
            (d.push (opened.map OpenTag.id) (.element { tag, attrs, closing })
              ⟨k.offset, k₁.offset⟩) k₁ with
          | error e => rfl
          | ok result => exact hmap _ _ fun _ hle => Nat.le_trans hle (Nat.le_trans result.2.2 hlt)
        · exact hmap _ _ fun _ hle => Nat.le_trans hle hlt

/-- A successful reading of content, as a derivation: `Reads opened d k d' k'` says that the
content of `opened` at `k` takes `d` to `d'` and leaves `k'`. -/
inductive Reads : Option OpenTag → Document → Cursor → Document → Cursor → Prop
  | done {d : Document} {k : Cursor} (hk : k.rest = []) : Reads none d k d k
  | close {o : OpenTag} {d : Document} {k k₁ : Cursor} {name : String} (hk : k.rest ≠ [])
      (hnext : Token.next k = .ok (.endTag name, k₁)) (hname : o.matchesEnd name = true) :
      Reads (some o) d k (d.setStop o.id k₁.offset) k₁
  | comment {opened : Option OpenTag} {d d' : Document} {k k₁ k' : Cursor} {content : String}
      (hk : k.rest ≠ []) (hnext : Token.next k = .ok (.comment content, k₁))
      (hrest : Reads opened
        (d.push (opened.map OpenTag.id) (.comment content) ⟨k.offset, k₁.offset⟩) k₁ d' k') :
      Reads opened d k d' k'
  | text {opened : Option OpenTag} {d d' : Document} {k k₁ k' : Cursor} {content : String}
      (hk : k.rest ≠ []) (hnext : Token.next k = .ok (.text content, k₁))
      (hrest : Reads opened
        (d.push (opened.map OpenTag.id) (.text content) ⟨k.offset, k₁.offset⟩) k₁ d' k') :
      Reads opened d k d' k'
  | leaf {opened : Option OpenTag} {d d' : Document} {k k₁ k' : Cursor} {e : Element}
      (hk : k.rest ≠ []) (hnext : Token.next k = .ok (.startTag e.tag e.attrs e.closing, k₁))
      (hclosing : e.closing ≠ .normal)
      (hrest : Reads opened
        (d.push (opened.map OpenTag.id) (.element e) ⟨k.offset, k₁.offset⟩) k₁ d' k') :
      Reads opened d k d' k'
  | nest {opened : Option OpenTag} {d d₂ d' : Document} {k k₁ k₂ k' : Cursor} {e : Element}
      (hk : k.rest ≠ []) (hnext : Token.next k = .ok (.startTag e.tag e.attrs e.closing, k₁))
      (hclosing : e.closing = .normal)
      (hcontent : Reads (some ⟨d.size, e.tag, ⟨k.offset, k₁.offset⟩⟩)
        (d.push (opened.map OpenTag.id) (.element e) ⟨k.offset, k₁.offset⟩) k₁ d₂ k₂)
      (hrest : Reads opened d₂ k₂ d' k') :
      Reads opened d k d' k'

theorem contentOf_length_le {d' : Document} {k' : Cursor}
    (h : contentOf opened d k = .ok (d', k')) :
    k'.rest.length ≤ k.rest.length := by
  unfold contentOf at h
  cases hread : readContent opened d k with
  | error e =>
      rw [hread] at h
      cases h
  | ok result =>
      rw [hread] at h
      cases h
      exact result.2.2

/-- Every reading that succeeds has a derivation. -/
theorem reads_of_contentOf {opened : Option OpenTag} {d d' : Document} {k k' : Cursor}
    (h : contentOf opened d k = .ok (d', k')) : Reads opened d k d' k' := by
  by_cases hk : k.rest = []
  · rw [contentOf_nil hk] at h
    cases opened with
    | none =>
        cases h
        exact .done hk
    | some o => cases h
  cases hnext : Token.next k with
  | error e =>
      rw [contentOf_error hk hnext] at h
      cases h
  | ok result =>
      obtain ⟨token, k₁⟩ := result
      have hlt := Token.length_next_lt hk hnext
      rw [contentOf_token hk hnext] at h
      cases token with
      | endTag name =>
          cases opened with
          | none => cases h
          | some o =>
              dsimp only at h
              split at h
              · rename_i hname
                cases h
                exact .close hk hnext hname
              · cases h
      | comment content => exact .comment hk hnext (reads_of_contentOf h)
      | text content => exact .text hk hnext (reads_of_contentOf h)
      | startTag tag attrs closing =>
          dsimp only at h
          split at h
          · rename_i hclosing
            split at h
            · cases h
            · rename_i d₂ k₂ hcontent
              have hle := contentOf_length_le hcontent
              exact .nest (e := ⟨tag, attrs, closing⟩) hk hnext hclosing
                (reads_of_contentOf hcontent) (reads_of_contentOf h)
          · rename_i hclosing
            exact .leaf (e := ⟨tag, attrs, closing⟩) hk hnext hclosing (reads_of_contentOf h)
termination_by k.rest.length

/-- The element that is open stays there when a node is pushed. -/
theorem lt_size_push (ho : ∀ p, opened.map OpenTag.id = some p → p < d.size) (parent : Option Nat)
    (kind : NodeKind) (span : Span) :
    ∀ p, opened.map OpenTag.id = some p → p < (d.push parent kind span).size := by
  intro p hp
  rw [size_push]
  exact Nat.lt_succ_of_lt (ho p hp)

/-- A tree that is parsed is built node by node. -/
theorem Reads.built {d' : Document} {k' : Cursor} (h : Reads opened d k d' k') (hd : Built d)
    (ho : ∀ p, opened.map OpenTag.id = some p → p < d.size) : Built d' ∧ d.size ≤ d'.size := by
  induction h with
  | done hk => exact ⟨hd, Nat.le_refl _⟩
  | close hk hnext hname =>
      refine ⟨hd.setStop _ _, ?_⟩
      rw [size_setStop]
  | comment hk hnext hrest ih | text hk hnext hrest ih =>
      obtain ⟨hbuilt, hle⟩ := ih (hd.push _ _ _ ho fun e he => nomatch he) (lt_size_push ho _ _ _)
      rw [size_push] at hle
      exact ⟨hbuilt, by omega⟩
  | leaf hk hnext hclosing hrest ih =>
      have hkind : (NodeKind.element _).Distinct := fun e he => by
        cases he
        exact (Token.writable_of_next hnext).attrs.distinct
      obtain ⟨hbuilt, hle⟩ := ih (hd.push _ _ _ ho hkind) (lt_size_push ho _ _ _)
      rw [size_push] at hle
      exact ⟨hbuilt, by omega⟩
  | nest hk hnext hclosing hcontent hrest ihc ihr =>
      have hkind : (NodeKind.element _).Distinct := fun e he => by
        cases he
        exact (Token.writable_of_next hnext).attrs.distinct
      obtain ⟨hbuilt, hle⟩ := ihc (hd.push _ _ _ ho hkind) fun p hp => by
        cases hp
        rw [size_push]
        exact Nat.lt_succ_self _
      rw [size_push] at hle
      obtain ⟨hbuilt', hle'⟩ := ihr hbuilt fun p hp => by
        have := ho p hp
        omega
      exact ⟨hbuilt', by omega⟩

theorem built_of_parse {text : String} {d : Document} (h : parse text = .ok d) : Built d := by
  rw [parse_eq] at h
  cases hc : contentOf none .empty (.ofText text) with
  | error e =>
      rw [hc] at h
      cases h
  | ok result =>
      rw [hc] at h
      cases h
      exact ((reads_of_contentOf hc).built .empty fun p hp => nomatch hp).1

end Document

end TemplateCompiler
