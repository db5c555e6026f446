import ScriptModules.Yaml.Scalar
import ScriptModules.Yaml.TokenStream

/-!
# Nodes of documents

A document is a tree of scalars, sequences and mappings, each with a tag. Reading the tokens builds
the tree; an alias stands for the node with its anchor, which must be complete before it.
-/

namespace ScriptModules.Yaml

/-- A node. -/
inductive Node where
  | scalar (tag : Tag) (text : String)
  | sequence (tag : Tag) (items : List Node)
  | mapping (tag : Tag) (pairs : List (Node × Node))

/-- The node that stands where none is written. -/
def Node.absent : Node := .scalar .null ""

/-- The tokens not yet read, the anchors with their nodes, none for a node that is not complete, and
the handles of tags. -/
structure Parsing where
  tokens : List Token
  anchors : List (String × Option Node) := []
  handles : List (String × String) := []

/-- Reads a part of a document. -/
abbrev Parser := StateT Parsing Option

namespace Parser

/-- The next token. -/
def peek : Parser (Option Token) := do
  return (← get).tokens.head?

/-- Passes the next token. -/
def advance : Parser Unit :=
  modify fun p => { p with tokens := p.tokens.tail }

/-- The next token is one of the given ones. -/
def nextIn (ts : List Token) : Parser Bool := do
  return (← peek).any ts.contains

/-- Passes the given token if it comes next. -/
def accept (t : Token) : Parser Bool := do
  if (← peek) == some t then
    advance
    return true
  else
    return false

/-- The given token must come next. -/
def expect (t : Token) : Parser Unit := do
  if !(← accept t) then failure

/-- Reads an anchor, if there is one. -/
def anchor? : Parser (Option String) := do
  match ← peek with
  | some (.anchor name) =>
    advance
    return some name
  | _ => return none

/-- The tag that a written one stands for. -/
def expandTag (t : TagText) : Parser String := do
  match t.handle with
  | none => return t.suffix
  | some handle =>
    match (← get).handles.lookup handle with
    | some start => return start ++ t.suffix
    | none => failure

/-- Reads a tag, if there is one. -/
def tag? : Parser (Option String) := do
  match ← peek with
  | some (.tag t) =>
    advance
    return some (← expandTag t)
  | _ => return none

/-- Reads an anchor and a tag in either order. -/
def properties : Parser (Option String × Option String) := do
  match ← anchor? with
  | some a => return (some a, ← tag?)
  | none =>
    let t ← tag?
    if t.isSome then return (← anchor?, t) else return (none, none)

/-- The tag of a node: the written one, or that of its form. -/
def tagOr (written : Option String) (default : Tag) : Tag :=
  match written with
  | none => default
  | some "!" => default
  | some t => Tag.ofText t

/-- The tag of a scalar. Without a written tag only a plain one is read by its form. -/
def scalarTag (written : Option String) (plain : Bool) (text : String) : Tag :=
  tagOr written (if plain || written == some "!" then plainTag text else .str)

/-- Opens an anchor, which must be new. -/
def openAnchor (name : Option String) : Parser Unit := do
  match name with
  | none => return ()
  | some n =>
    if ((← get).anchors.lookup n).isSome then failure
    modify fun p => { p with anchors := (n, none) :: p.anchors }

/-- Completes an anchor. -/
def closeAnchor (name : Option String) (node : Node) : Parser Node := do
  match name with
  | none => return node
  | some n =>
    modify fun p => { p with anchors := (n, some node) :: p.anchors }
    return node

/-- The node of an alias. -/
def aliased (name : String) : Parser Node := do
  match (← get).anchors.lookup name with
  | some (some node) => return node
  | _ => failure

mutual

/-- Reads a node. Collections in blocks are allowed by `block`, and sequences without indentation by
`indentless`. The last argument bounds the depth of the reading. -/
def node (block indentless : Bool) : Nat → Parser Node
  | 0 => failure
  | depth + 1 => do
    match ← peek with
    | some (.alias name) =>
      advance
      aliased name
    | _ =>
      let (anchor, tag) ← properties
      openAnchor anchor
      match ← peek with
      | some (.scalar plain text) =>
        advance
        closeAnchor anchor (.scalar (scalarTag tag plain text) text)
      | some .flowSequenceStart =>
        advance
        closeAnchor anchor (.sequence (tagOr tag .seq) (← flowItems true depth))
      | some .flowMappingStart =>
        advance
        closeAnchor anchor (.mapping (tagOr tag .map) (← flowPairs true depth))
      | t =>
        if indentless && t == some .blockEntry then
          closeAnchor anchor (.sequence (tagOr tag .seq) (← indentlessItems depth))
        else if block && t == some .blockSequenceStart then
          advance
          closeAnchor anchor (.sequence (tagOr tag .seq) (← blockItems depth))
        else if block && t == some .blockMappingStart then
          advance
          closeAnchor anchor (.mapping (tagOr tag .map) (← blockPairs depth))
        else if anchor.isSome || tag.isSome then
          closeAnchor anchor (.scalar (scalarTag tag (tag.isNone || tag == some "!") "") "")
        else failure

/-- Reads the entries of a block sequence up to its end. -/
def blockItems : Nat → Parser (List Node)
  | 0 => failure
  | depth + 1 => do
    if ← accept .blockEntry then
      let item ← if ← nextIn [.blockEntry, .blockEnd] then pure .absent else node true false depth
      return item :: (← blockItems depth)
    else
      expect .blockEnd
      return []

/-- Reads the entries of a sequence without indentation, as long as there are any. -/
def indentlessItems : Nat → Parser (List Node)
  | 0 => failure
  | depth + 1 => do
    if ← accept .blockEntry then
      let item ← if ← nextIn [.blockEntry, .key, .value, .blockEnd] then pure .absent
        else node true false depth
      return item :: (← indentlessItems depth)
    else
      return []

/-- Reads the entries of a block mapping up to its end. -/
def blockPairs : Nat → Parser (List (Node × Node))
  | 0 => failure
  | depth + 1 => do
    if ← accept .key then
      let key ← if ← nextIn [.key, .value, .blockEnd] then pure .absent else node true true depth
      let value ←
        if ← accept .value then
          if ← nextIn [.key, .value, .blockEnd] then pure .absent else node true true depth
        else pure .absent
      return (key, value) :: (← blockPairs depth)
    else
      expect .blockEnd
      return []

/-- Reads the entries of a flow sequence up to its end. A key among them makes a mapping of one
entry. -/
def flowItems (first : Bool) : Nat → Parser (List Node)
  | 0 => failure
  | depth + 1 => do
    if ← accept .flowSequenceEnd then return []
    if !first then expect .flowEntry
    if ← accept .key then
      let key ←
        if ← nextIn [.value, .flowEntry, .flowSequenceEnd] then pure .absent
          else node false false depth
      let value ←
        if ← accept .value then
          if ← nextIn [.flowEntry, .flowSequenceEnd] then pure .absent else node false false depth
        else pure .absent
      return .mapping .map [(key, value)] :: (← flowItems false depth)
    else if ← accept .flowSequenceEnd then return []
    else
      let item ← node false false depth
      return item :: (← flowItems false depth)

/-- Reads the entries of a flow mapping up to its end. -/
def flowPairs (first : Bool) : Nat → Parser (List (Node × Node))
  | 0 => failure
  | depth + 1 => do
    if ← accept .flowMappingEnd then return []
    if !first then expect .flowEntry
    if ← accept .key then
      let key ←
        if ← nextIn [.value, .flowEntry, .flowMappingEnd] then pure .absent
          else node false false depth
      let value ←
        if ← accept .value then
          if ← nextIn [.flowEntry, .flowMappingEnd] then pure .absent else node false false depth
        else pure .absent
      return (key, value) :: (← flowPairs false depth)
    else if ← accept .flowMappingEnd then return []
    else
      let key ← node false false depth
      return (key, .absent) :: (← flowPairs false depth)

end

/-- The handles that need no directive. -/
def defaultHandles : List (String × String) := [("!", "!"), ("!!", Tag.standardStart)]

/-- Reads the directives of a document; the first argument bounds their number. -/
def directives : Nat → Bool → Parser Unit
  | 0, _ => failure
  | n + 1, versionSeen => do
    match ← peek with
    | some (.versionDirective major _) =>
      if versionSeen || major != 1 then failure
      advance
      directives n true
    | some (.tagDirective handle start) =>
      if ((← get).handles.lookup handle).isSome then failure
      advance
      modify fun p => { p with handles := p.handles ++ [(handle, start)] }
      directives n versionSeen
    | some .otherDirective =>
      advance
      directives n versionSeen
    | _ => modify fun p => { p with handles := p.handles ++ defaultHandles }

/-- The next token is a directive. -/
def atDirective : Parser Bool := do
  match ← peek with
  | some (.versionDirective _ _) => return true
  | some (.tagDirective _ _) => return true
  | some .otherDirective => return true
  | _ => return false

/-- Passes the marks of a document's end; the first argument bounds their number. -/
def documentEnds : Nat → Parser Unit
  | 0 => return ()
  | n + 1 => do
    if ← accept .documentEnd then documentEnds n

/-- Reads the only document of a stream, if there is one. -/
def document : Parser (Option Node) := do
  let size := (← get).tokens.length + 1
  match ← peek with
  | none => return none
  | some t =>
    let explicit := (← atDirective) || t == .documentStart
    if explicit then
      directives size false
      expect .documentStart
    else
      modify fun p => { p with handles := defaultHandles }
    let root ←
      if explicit &&
        ((← peek).isNone || (← atDirective) || (← nextIn [.documentStart, .documentEnd])) then
        pure Node.absent
      else node true false (2 * size + 2)
    documentEnds size
    if (← peek).isSome then failure
    return some root

end Parser

/-- The root node of a document; nothing for an empty one. -/
def root? (text : List Char) : Except Fault (Option Node) := do
  let tokens ← tokens? text
  let (node, _) ← orMalformed (Parser.document.run { tokens })
  return node

end ScriptModules.Yaml
