/-
Reading a template with a stack.

The reader of content calls itself for the content of an element and so keeps the open
elements in its calls.  The same tree is built without recursion: the text is scanned for
tokens from left to right, whatever they are nested in, and one loop over the tokens keeps
the open elements in a list.  `Scan` is the scan, said by the form of tokens, and `Machine`
is the loop.

The two agree on every text.  What ties them together is `resume`: what the pending calls
of the reader still have to do, as a function of the list of open elements.  A token moves
the reader to another such state, and it is the state that the loop moves to.
-/
import TemplateCompiler.Proofs.Content
import TemplateCompiler.Proofs.Reading.Grammar

namespace TemplateCompiler

/-! ### The tokens of a text -/

/-- The tokens of a text with their spans, up to the end of the text or to the first start tag that
is malformed. -/
structure TokenStream where
  tokens : List (Token × Span)
  fault : Option ParseError

/-- From the cursor on, the text is scanned as the stream. -/
inductive Scan : Cursor → TokenStream → Prop
  | done {k : Cursor} (hk : k.rest = []) : Scan k ⟨[], none⟩
  | fault {k : Cursor} {e : ParseError} (h : Token.Stands k (.error e)) : Scan k ⟨[], some e⟩
  | token {k k' : Cursor} {token : Token} {stream : TokenStream}
      (h : Token.Stands k (.ok (token, k'))) (hrest : Scan k' stream) :
      Scan k ⟨(token, ⟨k.offset, k'.offset⟩) :: stream.tokens, stream.fault⟩

namespace Scan

variable {k : Cursor} {stream stream' : TokenStream}

/-- Every text can be scanned, because a token takes at least one character. -/
theorem exists_stream (k : Cursor) : ∃ stream, Scan k stream := by
  by_cases hk : k.rest = []
  · exact ⟨_, .done hk⟩
  obtain ⟨outcome, hstands⟩ := Token.exists_stands hk
  cases outcome with
  | error e => exact ⟨_, .fault hstands⟩
  | ok result =>
      obtain ⟨token, k'⟩ := result
      have hlt := Token.length_next_lt hk hstands.next_eq
      obtain ⟨stream, hrest⟩ := exists_stream k'
      exact ⟨_, .token hstands hrest⟩
termination_by k.rest.length

/-- There is one way to scan a text. -/
theorem unique (h : Scan k stream) (h' : Scan k stream') : stream' = stream := by
  induction h generalizing stream' with
  | done hk =>
      cases h' with
      | done => rfl
      | fault hstands | token hstands => exact absurd hk hstands.rest_ne
  | fault hstands =>
      have hnext := hstands.next_eq
      cases h' with
      | done hk => exact absurd hk hstands.rest_ne
      | fault hstands' =>
          cases hnext.symm.trans hstands'.next_eq
          rfl
      | token hstands' => cases hnext.symm.trans hstands'.next_eq
  | token hstands hrest ih =>
      have hnext := hstands.next_eq
      cases h' with
      | done hk => exact absurd hk hstands.rest_ne
      | fault hstands' => cases hnext.symm.trans hstands'.next_eq
      | token hstands' hrest' =>
          cases hnext.symm.trans hstands'.next_eq
          rw [ih hrest']

end Scan

/-! ### The loop -/

/-- The tree so far and the elements that are open, the innermost first. -/
structure Machine where
  document : Document
  opened : List OpenTag

namespace Machine

/-- Before the first token. -/
def start : Machine := ⟨.empty, []⟩

/-- The element that new nodes are put into. -/
def parent (m : Machine) : Option Nat := m.opened.head?.map OpenTag.id

/-- Adds a node to the innermost open element. -/
def push (m : Machine) (kind : NodeKind) (span : Span) : Machine :=
  { m with document := m.document.push m.parent kind span }

/-- What one token does. -/
def step (m : Machine) : Token → Span → Except ParseError Machine
  | .endTag name, span =>
    match m.opened with
    | [] => .error (.strayEndTag name span)
    | o :: opened =>
      if o.matchesEnd name then .ok ⟨m.document.setStop o.id span.stop, opened⟩
      else .error (.mismatchedTag o.tag name span)
  | .comment content, span => .ok (m.push (.comment content) span)
  | .text content, span => .ok (m.push (.text content) span)
  | .startTag tag attrs closing, span =>
    let inner := m.push (.element { tag, attrs, closing }) span
    .ok (if closing = .normal then { inner with opened := ⟨m.document.size, tag, span⟩ :: m.opened }
      else inner)

/-- At the end of a text no element may be open. -/
def finish (m : Machine) : Except ParseError Document :=
  match m.opened with
  | [] => .ok m.document
  | o :: _ => .error (.unclosedTag o.tag o.span)

/-- What the tokens do one after the other, and then the end of the text or what is malformed. -/
def run (m : Machine) (stream : TokenStream) : Except ParseError Document := do
  let m ← stream.tokens.foldlM (fun m t => m.step t.1 t.2) m
  match stream.fault with
  | some e => .error e
  | none => m.finish

/-- The first token goes first. -/
theorem run_cons (m : Machine) (token : Token) (span : Span) (tokens : List (Token × Span))
    (fault : Option ParseError) :
    m.run ⟨(token, span) :: tokens, fault⟩
      = (m.step token span).bind fun m => m.run ⟨tokens, fault⟩ := by
  unfold run
  rw [List.foldlM_cons]
  cases m.step token span <;> rfl

end Machine

/-! ### The pending calls of the reader -/

namespace Document

/-- Reads the content of the innermost open element, then of the one around it, and so on to the
content of the whole text. -/
def resume (d : Document) (k : Cursor) : List OpenTag → Except ParseError Document
  | [] => (contentOf none d k).bind fun result => .ok result.1
  | o :: opened => (contentOf (some o) d k).bind fun result => resume result.1 result.2 opened

variable {d d' : Document} {k k' : Cursor} {opened : List OpenTag}

/-- Only what the innermost call does with the text matters to the others. -/
theorem resume_congr (h : contentOf opened.head? d k = contentOf opened.head? d' k') :
    resume d k opened = resume d' k' opened := by
  cases opened with
  | nil =>
      unfold resume
      rw [show contentOf none d k = contentOf none d' k' from h]
  | cons o opened =>
      unfold resume
      rw [show contentOf (some o) d k = contentOf (some o) d' k' from h]

theorem resume_error {e : ParseError} (h : contentOf opened.head? d k = .error e) :
    resume d k opened = .error e := by
  cases opened with
  | nil =>
      unfold resume
      rw [show contentOf none d k = .error e from h]
      rfl
  | cons o opened =>
      unfold resume
      rw [show contentOf (some o) d k = .error e from h]
      rfl

/-- What follows a reading follows only if it succeeds. -/
theorem match_eq_bind {β : Type} (r : Except ParseError (Document × Cursor))
    (f : Document → Cursor → Except ParseError β) :
    (match r with
      | .error e => .error e
      | .ok (d, k) => f d k) = r.bind fun result => f result.1 result.2 := by
  cases r <;> rfl

/-- A call for the content of an element is one more pending call. -/
theorem resume_nest {o : OpenTag}
    (h : contentOf opened.head? d k = (contentOf (some o) d' k').bind fun result =>
      contentOf opened.head? result.1 result.2) :
    resume d k opened = resume d' k' (o :: opened) := by
  show _ = (contentOf (some o) d' k').bind fun result => resume result.1 result.2 opened
  cases hcontent : contentOf (some o) d' k' with
  | error e =>
      rw [hcontent] at h
      exact resume_error h
  | ok result =>
      rw [hcontent] at h
      exact resume_congr h

end Document

namespace Machine

/-- What the reader does with a token, its pending calls included, is a step of the loop. -/
theorem resume_token (m : Machine) {k k' : Cursor} {token : Token} (hk : k.rest ≠ [])
    (h : Token.next k = .ok (token, k')) :
    m.document.resume k m.opened
      = (m.step token ⟨k.offset, k'.offset⟩).bind fun m => m.document.resume k' m.opened := by
  obtain ⟨d, opened⟩ := m
  have htoken : Document.contentOf opened.head? d k = _ := Document.contentOf_token hk h
  cases token with
  | comment content | text content => exact Document.resume_congr htoken
  | startTag tag attrs closing =>
      dsimp only at htoken
      unfold step
      dsimp only
      by_cases hclosing : closing = .normal
      · rw [if_pos hclosing] at htoken ⊢
        refine Document.resume_nest (htoken.trans ?_)
        exact Document.match_eq_bind _ _
      · rw [if_neg hclosing] at htoken ⊢
        exact Document.resume_congr htoken
  | endTag name =>
      cases opened with
      | nil => exact Document.resume_error htoken
      | cons o opened =>
          dsimp only [List.head?_cons] at htoken
          unfold step
          dsimp only
          by_cases hname : o.matchesEnd name = true
          · rw [if_pos hname] at htoken ⊢
            show (Document.contentOf (some o) d k).bind _ = _
            rw [htoken]
            rfl
          · rw [if_neg hname] at htoken ⊢
            exact Document.resume_error htoken

/-- Where the text ends, the pending calls end as the loop does. -/
theorem resume_nil (m : Machine) {k : Cursor} (hk : k.rest = []) :
    m.document.resume k m.opened = m.finish := by
  obtain ⟨d, opened⟩ := m
  have hnil : Document.contentOf opened.head? d k = _ := Document.contentOf_nil hk
  cases opened with
  | nil =>
      show (Document.contentOf none d k).bind _ = _
      rw [show Document.contentOf none d k = .ok (d, k) from hnil]
      rfl
  | cons o opened => exact Document.resume_error hnil

/-- The loop does what the pending calls of the reader have still to do. -/
theorem run_eq_resume {k : Cursor} {stream : TokenStream} (h : Scan k stream) (m : Machine) :
    m.run stream = m.document.resume k m.opened := by
  induction h generalizing m with
  | done hk => exact (m.resume_nil hk).symm
  | fault hstands =>
      have herror : Document.contentOf m.opened.head? m.document _ = _ :=
        Document.contentOf_error hstands.rest_ne hstands.next_eq
      exact (Document.resume_error herror).symm
  | token hstands hrest ih =>
      rw [run_cons, resume_token m hstands.rest_ne hstands.next_eq]
      congr 1
      funext m
      exact ih m

end Machine

/-- The reader and the loop agree: every text is scanned as one stream of tokens, and parsing the
text gives the tree that the loop builds from the stream, with the same spans, or the error that the
loop stops with. -/
theorem parse_eq_run (source : String) :
    ∃ stream, (∀ stream', Scan (.ofText source) stream' ↔ stream' = stream) ∧
      Document.parse source = Machine.start.run stream := by
  obtain ⟨stream, hscan⟩ := Scan.exists_stream (.ofText source)
  refine ⟨stream, fun stream' => ⟨hscan.unique, fun heq => heq ▸ hscan⟩, ?_⟩
  rw [Machine.run_eq_resume hscan, Document.parse_eq]
  show _ = (Document.contentOf none .empty (.ofText source)).bind _
  cases Document.contentOf none .empty (.ofText source) <;> rfl

end TemplateCompiler
