/-
Changes to attributes, as data, and carried out by positions.

An edit is one change with its arguments.  `apply` makes it on a map of attributes by the
operations of the map.  `applyAt` makes it as it is made on an array: an entry is looked up for
its position, entries are put in and taken out at positions, and where several are put in the
place of one, the place itself moves when an entry before it is taken out.  A position that lies
outside the array stops the work, and so does one that would become negative.
-/
import TemplateCompiler.Markup.Attributes

namespace TemplateCompiler

/-- A change to attributes. -/
inductive Edit
  /-- A value for a name. -/
  | insert (name value : String)
  /-- A name without a value. -/
  | insertBare (name : String)
  /-- A value for a name, put before another one. -/
  | insertBefore (anchor name value : String)
  /-- One attribute taken out. -/
  | remove (name : String)
  /-- Another name for an attribute. -/
  | rename (old new : String)
  /-- Several attributes in the place of one. -/
  | replaceWith (name : String) (new : List Attribute)
  /-- A new map, from entries that are given one after the other. -/
  | collect (entries : List (String × String))
  deriving DecidableEq

/-- What is answered to an edit. -/
inductive Answer
  | done
  /-- The entry that has been taken out, if there was one. -/
  | removed (value : Option (Option String))
  /-- Whether there was something to change. -/
  | changed (yes : Bool)
  deriving DecidableEq

namespace Edit

/-- Makes the edit. -/
def apply (edit : Edit) (attrs : Attributes) : Attributes × Answer :=
  match edit with
  | insert name value => (attrs.insert name value, .done)
  | insertBare name => (attrs.insertBare name, .done)
  | insertBefore anchor name value => (attrs.insertBefore anchor name value, .done)
  | remove name => (attrs.erase name, .removed (attrs.lookup? name))
  | rename old new =>
    match attrs.rename old new with
    | some renamed => (renamed, .changed true)
    | none => (attrs, .changed false)
  | replaceWith name new =>
    match attrs.replace name new with
    | some replaced => (replaced, .changed true)
    | none => (attrs, .changed false)
  | collect entries => (.ofEntries (entries.map fun entry => (entry.1, some entry.2)), .done)

/-! ### By positions -/

/-- Where the entry of this name stands. -/
def position? (entries : List Attribute) (name : String) : Option Nat :=
  entries.findIdx? fun entry => entry.1 == name

/-- The position before this one. -/
def before? : Nat → Option Nat
  | 0 => none
  | i + 1 => some i

/-- Takes out the entry at a position. -/
def removeAt (entries : List Attribute) (i : Nat) : Option (List Attribute) :=
  if i < entries.length then some (entries.eraseIdx i) else none

/-- Gives the entry at a position another value. -/
def writeAt (entries : List Attribute) (i : Nat) (value : Option String) :
    Option (List Attribute) :=
  (entries[i]?).map fun entry => entries.set i (entry.1, value)

/-- Puts an entry at a position.  An entry of its name is moved there, and then the position must
be that of an entry; otherwise it may be the end. -/
def insertAt (entries : List Attribute) (i : Nat) (entry : Attribute) : Option (List Attribute) :=
  match position? entries entry.1 with
  | some old =>
    if i < entries.length then some ((entries.eraseIdx old).insertIdx i entry) else none
  | none => if i ≤ entries.length then some (entries.insertIdx i entry) else none

/-- Gives a name its value where it stands, or at the end. -/
def setAt (entries : List Attribute) (name : String) (value : Option String) :
    Option (List Attribute) :=
  match position? entries name with
  | some i => writeAt entries i value
  | none => some (entries ++ [(name, value)])

/-- Takes out the entry of a name, if there is one. -/
def eraseAt (entries : List Attribute) (name : String) : Option (List Attribute) :=
  match position? entries name with
  | some i => removeAt entries i
  | none => some entries

def insertBeforeAt (entries : List Attribute) (anchor name value : String) :
    Option (List Attribute) := do
  let others ← eraseAt entries name
  match position? others anchor with
  | some i => insertAt others i (name, some value)
  | none => setAt others name (some value)

/-- Puts one entry at the place of a splice, which is moved past it. -/
def spliceAt (state : List Attribute × Nat) (entry : Attribute) :
    Option (List Attribute × Nat) := do
  let (entries, i) := state
  let (entries, i) ←
    match position? entries entry.1 with
    | none => some (entries, i)
    | some existing => do
      let entries ← removeAt entries existing
      let i ← if existing < i then before? i else some i
      some (entries, i)
  let entries ← insertAt entries i entry
  return (entries, i + 1)

/-- Puts the new entries where `name` stands, and says whether it stands there. -/
def replaceAt (entries : List Attribute) (name : String) (new : List Attribute) :
    Option (List Attribute × Bool) :=
  match position? entries name with
  | none => some (entries, false)
  | some i => do
    let entries ← removeAt entries i
    let (entries, _) ← new.foldlM spliceAt (entries, i)
    return (entries, true)

def renameAt (entries : List Attribute) (old new : String) : Option (List Attribute × Bool) :=
  match entries.lookup old with
  | none => some (entries, false)
  | some value => replaceAt entries old [(new, value)]

/-- Makes the edit by positions. -/
def applyAt (edit : Edit) (entries : List Attribute) : Option (List Attribute × Answer) :=
  match edit with
  | insert name value => (setAt entries name (some value)).map (·, .done)
  | insertBare name => (setAt entries name none).map (·, .done)
  | insertBefore anchor name value => (insertBeforeAt entries anchor name value).map (·, .done)
  | remove name => (eraseAt entries name).map (·, .removed (entries.lookup name))
  | rename old new => (renameAt entries old new).map fun (entries, yes) => (entries, .changed yes)
  | replaceWith name new =>
    (replaceAt entries name new).map fun (entries, yes) => (entries, .changed yes)
  | collect new =>
    (new.foldlM (fun entries entry => setAt entries entry.1 (some entry.2)) []).map (·, .done)

/-! ### One after the other -/

/-- Makes edits one after the other, each by `step`, and collects the answers. -/
def runWith {m : Type → Type} [Monad m] {σ : Type} (step : Edit → σ → m (σ × Answer)) :
    List Edit → σ → m (σ × List Answer)
  | [], state => return (state, [])
  | edit :: edits, state => do
    let (state, answer) ← step edit state
    let (state, answers) ← runWith step edits state
    return (state, answer :: answers)

/-- Makes edits on a map. -/
def run (edits : List Edit) (attrs : Attributes) : Attributes × List Answer :=
  Id.run (runWith (fun edit attrs => pure (edit.apply attrs)) edits attrs)

/-- Makes edits by positions. -/
def runAt (edits : List Edit) (entries : List Attribute) : Option (List Attribute × List Answer) :=
  runWith applyAt edits entries

end Edit

end TemplateCompiler
