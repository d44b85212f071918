import DocumentLanguage.Grammar.Production

/-!
Alternatives that a reader taking the first match could never use to the full: one that can
match nothing before another, and one that is a single token before another that may begin
with that token.
-/
namespace DocumentLanguage

abbrev NameSet := List String

namespace NameSet

def insert (name : String) : NameSet → NameSet
  | [] => [name]
  | other :: names =>
    if name = other then other :: names
    else if name < other then name :: other :: names
    else other :: insert name names

def union (first second : NameSet) : NameSet :=
  second.foldl (fun names name => insert name names) first

def inter (first second : NameSet) : NameSet :=
  first.filter second.contains

end NameSet

/-- The alternatives of every rule of a catalog. Of two productions of one name the later
holds. -/
abbrev Productions := List (String × List Alternative)

def Productions.ofCatalog (catalog : Catalog) : Productions :=
  catalog.reverse.map fun entry => (entry.1, alternativesOf entry.2)

/-- The alternatives of a name; a name without a production has none. -/
def Productions.alternatives (productions : Productions) (name : String) : List Alternative :=
  (productions.lookup name).getD []

/-- What is known about the rules: which can match nothing, and the terminals that each can
begin with. -/
structure Analysis where
  nullable : NameSet
  first : List (String × NameSet)
deriving DecidableEq

namespace Analysis

def symbolNullable (analysis : Analysis) : Symbol → Bool
  | .rule name => analysis.nullable.contains name
  | _ => false

def itemNullable (analysis : Analysis) (item : Item) : Bool :=
  item.mayBeAbsent || analysis.symbolNullable item.symbol

def alternativeNullable (analysis : Analysis) (alternative : Alternative) : Bool :=
  alternative.all analysis.itemNullable

def symbolFirst (analysis : Analysis) : Symbol → NameSet
  | .rule name => (analysis.first.lookup name).getD []
  | .kind name => [name]
  | .delimiter text => [delimiterItem text]

def firstOf (analysis : Analysis) : Alternative → NameSet
  | [] => []
  | item :: items =>
    let first := analysis.symbolFirst item.symbol
    if analysis.itemNullable item then first.union (firstOf analysis items) else first

def start : Analysis := ⟨[], []⟩

/-- What follows from what is known, looking at every rule once more. -/
def refine (productions : Productions) (analysis : Analysis) : Analysis where
  nullable := productions.foldl
    (fun names entry =>
      if entry.2.any analysis.alternativeNullable then NameSet.insert entry.1 names else names) []
  first := productions.map fun entry =>
    (entry.1, entry.2.foldl (fun names alternative => names.union (analysis.firstOf alternative)) [])

/-- Refine until nothing new follows, at most so many times. -/
def settle (productions : Productions) : Nat → Analysis → Analysis
  | 0, analysis => analysis
  | bound + 1, analysis =>
    let next := analysis.refine productions
    if next = analysis then analysis else settle productions bound next

end Analysis

/-- Each name once, with the production that holds. -/
def Productions.effective (productions : Productions) : Productions :=
  productions.foldl
    (fun kept entry => if (kept.lookup entry.1).isSome then kept else kept ++ [entry]) []

/-- The number of items in all productions. -/
def Productions.itemCount (productions : Productions) : Nat :=
  (productions.flatMap fun entry => entry.2.flatten).length

/-- Everything that follows from a catalog's productions. Each refinement but the last adds a
nullable name or a terminal of some rule, which bounds their number. -/
def Productions.analyse (productions : Productions) : Analysis :=
  Analysis.settle productions
    ((productions.length + 1) * (productions.itemCount + 2)) .start

/-- Whether an alternative is always exactly one token, looking through at most so many
rules. -/
def singleToken (productions : Productions) : Nat → Alternative → Bool
  | bound, [⟨symbol, .one⟩] =>
    match symbol, bound with
    | .rule _, 0 => false
    | .rule name, bound + 1 =>
      match productions.lookup name with
      | some alternatives => alternatives.all (singleToken productions bound)
      | none => false
    | _, _ => true
  | _, _ => false

/-- An ordering in a rule that can never be right. Alternatives are counted from zero. -/
inductive Conflict
  /-- An alternative of one token before one that may begin with that token. -/
  | shadowed (rule : String) (earlier later : Nat) (tokens : NameSet)
  /-- An alternative that can match nothing before another. -/
  | emptyNotLast (rule : String) (alternative : Nat)
deriving DecidableEq, Repr

/-- A conflict in words. Alternatives are counted from one there. -/
def Conflict.message : Conflict → String
  | shadowed rule earlier later tokens =>
    rule ++ ": alternative " ++ toString (earlier + 1) ++ " shadows alternative " ++
      toString (later + 1) ++ " on " ++ ", ".intercalate tokens
  | emptyNotLast rule alternative =>
    rule ++ ": alternative " ++ toString (alternative + 1) ++
      " can match nothing but is not last"

/-- The later alternatives that one shadows. -/
def shadowing (analysis : Analysis) (rule : String) (index : Nat) (first : NameSet) :
    Nat → List Alternative → List Conflict
  | _, [] => []
  | later, alternative :: alternatives =>
    let tokens := first.inter (analysis.firstOf alternative)
    let conflicts := shadowing analysis rule index first (later + 1) alternatives
    if tokens.isEmpty then conflicts else .shadowed rule index later tokens :: conflicts

def conflictsFrom (productions : Productions) (analysis : Analysis) (rule : String) :
    Nat → List Alternative → List Conflict
  | _, [] => []
  | index, alternative :: alternatives =>
    let empty :=
      if !alternatives.isEmpty && analysis.alternativeNullable alternative then
        [.emptyNotLast rule index]
      else []
    let shadowed :=
      if singleToken productions productions.length alternative then
        shadowing analysis rule index (analysis.firstOf alternative) (index + 1) alternatives
      else []
    empty ++ shadowed ++ conflictsFrom productions analysis rule (index + 1) alternatives

def conflictsIn (catalog : Catalog) : List Conflict :=
  let productions := (Productions.ofCatalog catalog).effective
  let analysis := productions.analyse
  catalog.flatMap fun entry =>
    conflictsFrom productions analysis entry.1 0 (productions.alternatives entry.1)

end DocumentLanguage
