/-
The attributes of an element: an ordered map from names to values.

A value may be absent, which makes the attribute bare.  The map is kept as the list of
its entries, and every operation is described by what it does to that list: a name that
is set again keeps its place, an entry put next to another one is taken from where it
was, and a replacement is spliced in where the replaced attribute stood.  No operation
makes a second entry of one name.
-/
namespace TemplateCompiler

/-- A name with its value; a bare attribute has none. -/
abbrev Attribute := String × Option String

/-- The entries of an element's attributes, in order. -/
structure Attributes where
  entries : List Attribute
  deriving DecidableEq, Inhabited

namespace Attributes

/-- No attributes. -/
def empty : Attributes := ⟨[]⟩

/-- The entries without those called `name`. -/
def without (name : String) (entries : List Attribute) : List Attribute :=
  entries.filter fun entry => entry.1 != name

/-! ### Looking up -/

def size (attrs : Attributes) : Nat := attrs.entries.length

def isEmpty (attrs : Attributes) : Bool := attrs.entries.isEmpty

/-- The names in order. -/
def names (attrs : Attributes) : List String := attrs.entries.map Prod.fst

/-- The entry's value, if there is an entry: `some none` is a bare attribute. -/
def lookup? (attrs : Attributes) (name : String) : Option (Option String) :=
  attrs.entries.lookup name

def contains (attrs : Attributes) (name : String) : Bool := (attrs.lookup? name).isSome

/-- The value, if the attribute is there; a bare one reads as the empty text. -/
def get? (attrs : Attributes) (name : String) : Option String :=
  (attrs.lookup? name).map fun value => value.getD ""

/-- The attribute is there and has no value. -/
def isBare (attrs : Attributes) (name : String) : Bool := attrs.lookup? name == some none

/-! ### Changing -/

/-- Gives `name` the value where it stands, or appends it. -/
def set (attrs : Attributes) (name : String) (value : Option String) : Attributes :=
  if attrs.contains name then
    ⟨attrs.entries.map fun entry => if entry.1 == name then (entry.1, value) else entry⟩
  else ⟨attrs.entries ++ [(name, value)]⟩

/-- Gives `name` a value. -/
def insert (attrs : Attributes) (name value : String) : Attributes := attrs.set name (some value)

/-- Makes `name` bare. -/
def insertBare (attrs : Attributes) (name : String) : Attributes := attrs.set name none

/-- The attributes without the one called `name`. -/
def erase (attrs : Attributes) (name : String) : Attributes := ⟨without name attrs.entries⟩

/-- Takes `name` from where it was and puts it directly before `anchor`, or at the end
if `anchor` is not among the others. -/
def insertBefore (attrs : Attributes) (anchor name value : String) : Attributes :=
  let others := without name attrs.entries
  let (front, back) := others.span fun entry => entry.1 != anchor
  ⟨front ++ (name, some value) :: back⟩

/-- Puts one entry between `front` and `back`, taking its name out of both. -/
def spliceEntry (parts : List Attribute × List Attribute) (entry : Attribute) :
    List Attribute × List Attribute :=
  (without entry.1 parts.1 ++ [entry], without entry.1 parts.2)

/-- Puts the new entries where `name` stands, in their order; each new name is taken from
wherever else it was.  Nothing is done if `name` is absent. -/
def replace (attrs : Attributes) (name : String) (new : List Attribute) : Option Attributes :=
  if attrs.contains name then
    let (front, back) := attrs.entries.span fun entry => entry.1 != name
    let (front, back) := new.foldl spliceEntry (front, back.drop 1)
    some ⟨front ++ back⟩
  else none

/-- As `replace`, where an absent name leaves all as it is. -/
def replaceD (attrs : Attributes) (name : String) (new : List Attribute) : Attributes :=
  (attrs.replace name new).getD attrs

/-- Gives the attribute another name; its value and place stay. -/
def rename (attrs : Attributes) (old new : String) : Option Attributes :=
  (attrs.lookup? old).bind fun value => attrs.replace old [(new, value)]

/-! ### Building and comparing -/

/-- The map that arises from setting the entries one after the other. -/
def ofEntries (entries : List Attribute) : Attributes :=
  entries.foldl (fun attrs entry => attrs.set entry.1 entry.2) empty

/-- The same names with the same values, in whatever order. -/
def sameEntries (attrs others : Attributes) : Bool :=
  attrs.size == others.size &&
    attrs.entries.all fun entry => others.lookup? entry.1 == some entry.2

/-! ### Small laws -/

theorem not_mem_without (name : String) (entries : List Attribute) :
    name ∉ (without name entries).map Prod.fst := by
  simp [without]

theorem names_erase (attrs : Attributes) (name : String) :
    (attrs.erase name).names = attrs.names.filter (· != name) := by
  simp [erase, names, without, List.filter_map, Function.comp_def]

theorem replace_eq_none {attrs : Attributes} {name : String} {new : List Attribute}
    (h : attrs.contains name = false) : attrs.replace name new = none := by
  simp [replace, h]

end Attributes

end TemplateCompiler
