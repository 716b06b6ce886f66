import TextTemplate.Yaml.Token

/-!
The node a YAML text holds. A node can be given a name, and a reference stands for the node with a
name. Names are turned into numbers, since a name can be given again.
-/
namespace TextTemplate.Yaml

inductive Node where
  | reference (number : Nat)
  | scalar (number : Option Nat) (tag : Option String) (s : Scalar)
  | sequence (number : Option Nat) (items : List Node)
  | mapping (number : Option Nat) (members : List (Node × Node))
  deriving Inhabited, Repr

namespace Node

/-- A scalar that was left out. -/
def empty : Node := scalar none none ⟨.plain, ""⟩

mutual

/-- The last node with a number, in the order in which the nodes start. -/
def numbered? (n : Nat) : Node → Option Node
  | reference _ => none
  | scalar number tag s => if number = some n then some (scalar number tag s) else none
  | sequence number items =>
    numberedItem? n items <|> if number = some n then some (sequence number items) else none
  | mapping number members =>
    numberedMember? n members <|> if number = some n then some (mapping number members) else none

def numberedItem? (n : Nat) : List Node → Option Node
  | [] => none
  | item :: items => numberedItem? n items <|> numbered? n item

def numberedMember? (n : Nat) : List (Node × Node) → Option Node
  | [] => none
  | (k, v) :: members => numberedMember? n members <|> numbered? n v <|> numbered? n k

end

/-- The node that a node of a document stands for. -/
def follow (root : Node) : Node → Node
  | reference n => (root.numbered? n).getD (reference n)
  | node => node

end Node

/-- The state of reading nodes: the tokens left, the names of nodes with their numbers, and what the
handles of tags stand for. -/
structure Reading where
  tokens : List Token
  names : List (String × Nat)
  handles : List (String × String)

/-- A reader of tokens, which fails on tokens that make no node. -/
abbrev Reader := StateT Reading Option

namespace Reader

/-- The next token; none at the end. -/
def peek : Reader (Option Token) := return (← get).tokens.head?

def skip : Reader Unit := modify fun r => { r with tokens := r.tokens.drop 1 }

/-- Skips a token if it comes next. -/
def skipIf (token : Token) : Reader Bool := do
  if (← peek) = some token then
    skip
    return true
  else return false

/-- Numbers a node that gets a name. The number is how many names there are so far, so a name that
is given anew counts among them. -/
def define (name : String) : Reader Nat := do
  let r ← get
  let number := r.names.length
  set { r with names := (name, number) :: r.names.filter fun n => n.1 != name }
  return number

/-- The number of a name; it must have been given before. -/
def refer (name : String) : Reader Nat := do
  (← get).names.lookup name

/-- The whole of a tag. -/
def wholeTag (handle rest : String) : Reader String := do
  if handle = "" then return rest
  else return (← (← get).handles.lookup handle) ++ rest

/-- A name in front of a node, if there is one. -/
def readName : Reader (Option Nat) := do
  match ← peek with
  | some (.anchor name) =>
    skip
    return some (← define name)
  | _ => return none

/-- A tag in front of a node, if there is one. -/
def readTag : Reader (Option String) := do
  match ← peek with
  | some (.tag handle rest) =>
    skip
    return some (← wholeTag handle rest)
  | _ => return none

/-- A name and a tag in front of a node, in either order. -/
def readProperties : Reader (Option Nat × Option String) := do
  match ← readName with
  | some number => return (some number, ← readTag)
  | none =>
    let tag ← readTag
    return (← readName, tag)

end Reader

/-- Where a node may stand: in brackets, or in blocks, and there as the part of a mapping, where a
sequence need not be indented. -/
inductive Position where
  | flow
  | block
  | member
  deriving DecidableEq, Repr

-- The tokens before which a node may be left out, by where it would stand.

def Token.afterItem : List Token := [.item, .blockEnd]

def Token.afterLooseItem : List Token := [.item, .key, .value, .blockEnd]

def Token.afterMember : List Token := [.key, .value, .blockEnd]

def Token.afterFlowItem : List Token := [.comma, .closeSequence]

def Token.afterPairKey : List Token := [.value, .comma, .closeSequence]

def Token.afterFlowMember : List Token := [.comma, .closeMapping]

def Token.afterFlowKey : List Token := [.value, .comma, .closeMapping]

open Reader

mutual

/-- A node at a position. -/
def readNode (position : Position) : (fuel : Nat) → Reader Node
  | 0 => failure
  | fuel + 1 => do
    match ← peek with
    | some (.reference name) =>
      skip
      return .reference (← refer name)
    | _ =>
      let (number, tag) ← readProperties
      match ← peek with
      | some (.scalar s) =>
        skip
        return .scalar number tag s
      | some .openSequence =>
        skip
        if ← skipIf .closeSequence then return .sequence number []
        else return .sequence number (← readFlowItems fuel)
      | some .openMapping =>
        skip
        if ← skipIf .closeMapping then return .mapping number []
        else return .mapping number (← readFlowMembers fuel)
      | token =>
        if token = some .item ∧ position = .member then
          return .sequence number (← readLooseItems fuel)
        else if token = some .blockSequence ∧ position ≠ .flow then
          skip
          return .sequence number (← readItems fuel)
        else if token = some .blockMapping ∧ position ≠ .flow then
          skip
          return .mapping number (← readMembers fuel)
        else if number.isSome ∨ tag.isSome then return .scalar number tag ⟨.plain, ""⟩
        else failure

/-- A node that may be left out before certain tokens. -/
def readOptional (position : Position) (after : List Token) : (fuel : Nat) → Reader Node
  | 0 => failure
  | fuel + 1 => do
    if (← peek).any after.contains then return .empty
    else readNode position fuel

/-- Items of a block sequence up to its end. -/
def readItems : (fuel : Nat) → Reader (List Node)
  | 0 => failure
  | fuel + 1 => do
    if ← skipIf .item then
      let node ← readOptional .block Token.afterItem fuel
      return node :: (← readItems fuel)
    else if ← skipIf .blockEnd then return []
    else failure

/-- Items of a sequence that is not indented, as far as they go. -/
def readLooseItems : (fuel : Nat) → Reader (List Node)
  | 0 => failure
  | fuel + 1 => do
    if ← skipIf .item then
      let node ← readOptional .block Token.afterLooseItem fuel
      return node :: (← readLooseItems fuel)
    else return []

/-- Members of a block mapping up to its end. -/
def readMembers : (fuel : Nat) → Reader (List (Node × Node))
  | 0 => failure
  | fuel + 1 => do
    if ← skipIf .key then
      let key ← readOptional .member Token.afterMember fuel
      let value ←
        if ← skipIf .value then readOptional .member Token.afterMember fuel
        else pure .empty
      return (key, value) :: (← readMembers fuel)
    else if ← skipIf .blockEnd then return []
    else failure

/-- Items in brackets, at least one, up to the closing bracket. -/
def readFlowItems : (fuel : Nat) → Reader (List Node)
  | 0 => failure
  | fuel + 1 => do
    let node ← if ← skipIf .key then readPair fuel else readNode .flow fuel
    if ← skipIf .comma then
      if ← skipIf .closeSequence then return [node]
      else return node :: (← readFlowItems fuel)
    else if ← skipIf .closeSequence then return [node]
    else failure

/-- A pair as an item of a sequence, after the token of its key. If the key is left out, the token
in its place is skipped. -/
def readPair : (fuel : Nat) → Reader Node
  | 0 => failure
  | fuel + 1 => do
    let key ←
      if (← peek).any Token.afterPairKey.contains then
        skip
        pure Node.empty
      else readNode .flow fuel
    let value ←
      if ← skipIf .value then readOptional .flow Token.afterFlowItem fuel
      else pure Node.empty
    return .mapping none [(key, value)]

/-- Members in braces, at least one, up to the closing brace. -/
def readFlowMembers : (fuel : Nat) → Reader (List (Node × Node))
  | 0 => failure
  | fuel + 1 => do
    let member ←
      if ← skipIf .key then
        let key ← readOptional .flow Token.afterFlowKey fuel
        if ← skipIf .value then pure (key, ← readOptional .flow Token.afterFlowMember fuel)
        else pure (key, Node.empty)
      else pure (← readNode .flow fuel, Node.empty)
    if ← skipIf .comma then
      if ← skipIf .closeMapping then return [member]
      else return member :: (← readFlowMembers fuel)
    else if ← skipIf .closeMapping then return [member]
    else failure

end

namespace Reader

/-- Directives in front of a document, each at most once: the version of the format, and handles. -/
def readDirectives : (fuel : Nat) → (hasVersion : Bool) → Reader Unit
  | 0, _ => failure
  | fuel + 1, hasVersion => do
    match ← peek with
    | some (.version major minor) =>
      if hasVersion ∨ major ≠ 1 ∨ (minor ≠ 1 ∧ minor ≠ 2) then failure
      skip
      readDirectives fuel true
    | some (.tagHandle handle meaning) =>
      let r ← get
      if (r.handles.lookup handle).isSome then failure
      set { r with handles := (handle, meaning) :: r.handles }
      skip
      readDirectives fuel hasVersion
    | _ => return ()

/-- What handles of tags stand for unless a directive says otherwise. -/
def useCommonHandles : Reader Unit :=
  modify fun r => { r with handles := r.handles ++ [("!", "!"), ("!!", "tag:yaml.org,2002:")] }

/-- Skips the ends of a document. -/
def skipEnds : (fuel : Nat) → Reader Unit
  | 0 => return ()
  | fuel + 1 => do if ← skipIf .documentEnd then skipEnds fuel

/-- Whether a token stands outside of documents. -/
def isOutside : Token → Bool
  | .version _ _ => true
  | .tagHandle _ _ => true
  | .documentStart => true
  | .documentEnd => true
  | _ => false

/-- The node of a document, whose start is marked if there are directives. -/
def readDocument (fuel : Nat) : Reader Node := do
  if (← peek).any fun token => isOutside token && token != .documentEnd then
    readDirectives fuel false
    useCommonHandles
    if !(← skipIf .documentStart) then failure
    match ← peek with
    | some token => if isOutside token then return .empty else readNode .block fuel
    | none => return .empty
  else
    useCommonHandles
    readNode .block fuel

/-- The node of the only document; an empty node if there is none. -/
def readText (fuel : Nat) : Reader Node := do
  if (← peek).isNone then return .empty
  let node ← readDocument fuel
  skipEnds fuel
  if (← peek).isSome then failure
  return node

end Reader

/-- Reads a text that holds one document or none. -/
def Node.parse? (text : String) : Option Node := do
  let tokens ← tokens? text
  let (node, _) ← (Reader.readText (3 * tokens.length + 3)).run ⟨tokens, [], []⟩
  some node

end TextTemplate.Yaml
