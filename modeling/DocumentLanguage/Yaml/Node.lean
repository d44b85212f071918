import DocumentLanguage.Yaml.Token

/-!
Nodes of a YAML document: scalars, sequences and mappings as they are put together from tokens.
-/
namespace DocumentLanguage.Yaml

/-- What may stand before a node: the shelf that it is put on, and a tag. -/
structure Properties where
  shelf : Option Nat := none
  tag : Option (List UInt8) := none
deriving DecidableEq, Repr

mutual

/-- A node. -/
inductive Node
  | alias (shelf : Nat)
  | scalar (properties : Properties) (plain : Bool) (text : String)
  | sequence (properties : Properties) (items : Nodes)
  | mapping (properties : Properties) (pairs : Pairs)

/-- The items of a sequence. -/
inductive Nodes
  | nil
  | cons (item : Node) (rest : Nodes)

/-- The keys and values of a mapping. -/
inductive Pairs
  | nil
  | cons (key value : Node) (rest : Pairs)

end

def Node.empty : Node := .scalar {} true ""

abbrev Handles := List (String × List UInt8)

def standardHandles : Handles :=
  [("!", octetsOf ['!']), ("!!", octetsOf "tag:yaml.org,2002:".toList)]

/-- The full text of a tag. A tag without a handle is full already. -/
def fullTag? (handles : Handles) (tag : Tag) : Option (List UInt8) :=
  if tag.handle.isEmpty then some tag.suffix
  else (handles.lookup tag.handle).map (· ++ tag.suffix)

/-- The properties before a node, in either order, and the tokens behind them. -/
def readProperties (handles : Handles) : List Token → Option (Properties × List Token)
  | .anchor shelf :: .tag tag :: rest | .tag tag :: .anchor shelf :: rest => do
    pure (⟨some shelf, some (← fullTag? handles tag)⟩, rest)
  | .anchor shelf :: rest => some (⟨some shelf, none⟩, rest)
  | .tag tag :: rest => do pure (⟨none, some (← fullTag? handles tag)⟩, rest)
  | rest => some ({}, rest)

/-- Whether a node may be left out before a token of a block. -/
def endsBlockNode : List Token → Bool
  | .key :: _ | .value :: _ | .blockEnd :: _ => true
  | _ => false

/-- Whether a node may be left out behind a dash of a block. -/
def endsBlockItem : List Token → Bool
  | .blockEntry :: _ | .blockEnd :: _ => true
  | _ => false

/-- Whether a node may be left out inside braces. -/
def endsInBraces : List Token → Bool
  | .flowEntry :: _ | .flowMappingEnd :: _ => true
  | _ => false

def endsInSquare : List Token → Bool
  | .flowEntry :: _ | .flowSequenceEnd :: _ => true
  | _ => false

def atValue : List Token → Bool
  | .value :: _ => true
  | _ => false

def readAbsent (properties : Properties) (tokens : List Token) : Option (Node × List Token) :=
  if properties = {} then none else some (.scalar properties true "", tokens)

mutual

/-- A node and the tokens behind it. Blocks may begin only where `block` says so, and items
without a block of their own only where `bare` does. The bound counts steps. -/
def readNode (handles : Handles) : Nat → Bool → Bool → List Token → Option (Node × List Token)
  | 0, _, _, _ => none
  | bound + 1, block, bare, tokens => do
    if let .alias shelf :: rest := tokens then return (.alias shelf, rest)
    let (properties, tokens) ← readProperties handles tokens
    match tokens with
    | .blockEntry :: rest =>
      if bare then
        let (items, rest) ← readBareItems handles bound (.blockEntry :: rest)
        pure (.sequence properties items, rest)
      else readAbsent properties (.blockEntry :: rest)
    | .scalar plain text :: rest => pure (.scalar properties plain text, rest)
    | .flowSequenceStart :: rest =>
      let (items, rest) ← readFlowItems handles bound true rest
      pure (.sequence properties items, rest)
    | .flowMappingStart :: rest =>
      let (pairs, rest) ← readFlowPairs handles bound true rest
      pure (.mapping properties pairs, rest)
    | .blockSequenceStart :: rest =>
      if block then
        let (items, rest) ← readBlockItems handles bound rest
        pure (.sequence properties items, rest)
      else readAbsent properties (.blockSequenceStart :: rest)
    | .blockMappingStart :: rest =>
      if block then
        let (pairs, rest) ← readBlockPairs handles bound rest
        pure (.mapping properties pairs, rest)
      else readAbsent properties (.blockMappingStart :: rest)
    | rest => readAbsent properties rest

def readBlockItems (handles : Handles) : Nat → List Token → Option (Nodes × List Token)
  | 0, _ => none
  | bound + 1, tokens =>
    match tokens with
    | .blockEnd :: rest => some (.nil, rest)
    | .blockEntry :: rest => do
      let (item, rest) ←
        if endsBlockItem rest then pure (.empty, rest) else readNode handles bound true false rest
      let (items, rest) ← readBlockItems handles bound rest
      pure (.cons item items, rest)
    | _ => none

/-- Items that stand no deeper than the key before them. -/
def readBareItems (handles : Handles) : Nat → List Token → Option (Nodes × List Token)
  | 0, _ => none
  | bound + 1, tokens =>
    match tokens with
    | .blockEntry :: rest => do
      let (item, rest) ←
        if endsBlockItem rest || endsBlockNode rest then pure (.empty, rest)
        else readNode handles bound true false rest
      let (items, rest) ← readBareItems handles bound rest
      pure (.cons item items, rest)
    | rest => some (.nil, rest)

def readBlockPairs (handles : Handles) : Nat → List Token → Option (Pairs × List Token)
  | 0, _ => none
  | bound + 1, tokens => do
    let readSide (rest : List Token) : Option (Node × List Token) :=
      if endsBlockNode rest then some (.empty, rest) else readNode handles bound true true rest
    let readRest (key : Node) (rest : List Token) : Option (Pairs × List Token) := do
      let (value, rest) ← match rest with
        | .value :: rest => readSide rest
        | rest => some (.empty, rest)
      let (pairs, rest) ← readBlockPairs handles bound rest
      pure (.cons key value pairs, rest)
    match tokens with
    | .blockEnd :: rest => pure (.nil, rest)
    | .key :: rest =>
      let (key, rest) ← readSide rest
      readRest key rest
    | _ => none

/-- The items in square brackets; the first needs no comma before it. A single pair is a mapping
of its own. -/
def readFlowItems (handles : Handles) :
    Nat → Bool → List Token → Option (Nodes × List Token)
  | 0, _, _ => none
  | bound + 1, first, tokens => do
    if let .flowSequenceEnd :: rest := tokens then return (.nil, rest)
    let tokens ← match first, tokens with
      | true, tokens => some tokens
      | false, .flowEntry :: rest => some rest
      | false, _ => none
    match tokens with
    | .flowSequenceEnd :: rest => pure (.nil, rest)
    | .key :: rest =>
      let (key, rest) ←
        if atValue rest || endsInSquare rest then pure (.empty, rest.tail)
        else readNode handles bound false false rest
      let (value, rest) ← match rest with
        | .value :: rest =>
          if endsInSquare rest then pure (.empty, rest) else readNode handles bound false false rest
        | rest => pure (.empty, rest)
      let (items, rest) ← readFlowItems handles bound false rest
      pure (.cons (.mapping {} (.cons key value .nil)) items, rest)
    | tokens =>
      let (item, rest) ← readNode handles bound false false tokens
      let (items, rest) ← readFlowItems handles bound false rest
      pure (.cons item items, rest)

/-- The pairs in braces; the first needs no comma before it. A node without a colon behind it is
a key without a value. -/
def readFlowPairs (handles : Handles) :
    Nat → Bool → List Token → Option (Pairs × List Token)
  | 0, _, _ => none
  | bound + 1, first, tokens => do
    if let .flowMappingEnd :: rest := tokens then return (.nil, rest)
    let tokens ← match first, tokens with
      | true, tokens => some tokens
      | false, .flowEntry :: rest => some rest
      | false, _ => none
    match tokens with
    | .flowMappingEnd :: rest => pure (.nil, rest)
    | .key :: rest =>
      let (key, rest) ←
        if atValue rest || endsInBraces rest then pure (.empty, rest)
        else readNode handles bound false false rest
      let (value, rest) ← match rest with
        | .value :: rest =>
          if endsInBraces rest then pure (.empty, rest) else readNode handles bound false false rest
        | rest => pure (.empty, rest)
      let (pairs, rest) ← readFlowPairs handles bound false rest
      pure (.cons key value pairs, rest)
    | tokens =>
      let (key, rest) ← readNode handles bound false false tokens
      let (pairs, rest) ← readFlowPairs handles bound false rest
      pure (.cons key .empty pairs, rest)

end

end DocumentLanguage.Yaml
