import ScriptModules.Yaml.Node

/-!
# Values of documents

A document's tree is turned into a value level by level, so of several faults the one nearest to the
root is reported, and the first of those. A mapping takes over the entries of the mappings under its
merge keys; its own entries come after them, and of two entries with equal keys the later one gives
the value.
-/

namespace ScriptModules

namespace Value

/-- The number that a value stands for as a key, as numerator and denominator. -/
def ratio? : Value → Option (Int × Nat)
  | bool b => some (if b then 1 else 0, 1)
  | int n => some (n, 1)
  | float x =>
    let bits := x.toBits.toNat
    (Decimal.Binary.ofBits bits).map fun b =>
      let r := Decimal.Ratio.scaled b.mantissa b.exponent
      (if Nat.pow 2 63 ≤ bits then -(r.num : Int) else r.num, r.den)
  | _ => none

/-- The values are equal as keys; numbers are compared by their size alone. -/
def sameKey (a b : Value) : Bool :=
  match a.ratio?, b.ratio? with
  | some (m, d), some (n, e) => m * e == n * d
  | _, _ =>
    match a, b with
    | null, null => true
    | str s, str t => s == t
    | bytes s, bytes t => s == t
    | day s, day t => s == t
    | moment s, moment t => s == t
    | float x, float y => x == y
    | _, _ => false

/-- Puts an entry into a mapping; an equal key keeps its place. -/
def put (key v : Value) : List (Value × Value) → List (Value × Value)
  | [] => [(key, v)]
  | (k, old) :: rest => if k.sameKey key then (k, v) :: rest else (k, old) :: put key v rest

end Value

namespace Yaml

/-- A result, or the fault that is reported with the number of levels at which it is found below the
node concerned. -/
abbrev Built := Except (Nat × Fault)

namespace Built

/-- A result at the level of the node itself. -/
def here {α : Type} (x : Except Fault α) : Built α := x.mapError fun f => (0, f)

/-- A fault that shows one level below the node. -/
def malformedBelow {α : Type} : Built α := throw (1, .malformed)

/-- A result of the level below. -/
def below {α : Type} (x : Built α) : Built α := x.mapError fun (n, f) => (n + 1, f)

/-- Two results; of two faults the one of the higher level is reported, and of two on one level the
first. -/
def both {α β : Type} (x : Built α) (y : Built β) : Built (α × β) :=
  match x, y with
  | .ok a, .ok b => .ok (a, b)
  | .ok _, .error e => .error e
  | .error e, .ok _ => .error e
  | .error e, .error e' => .error (if e'.1 < e.1 then e' else e)

/-- The results of a list. -/
def all {α : Type} : List (Built α) → Built (List α)
  | [] => return []
  | x :: rest => (fun p => p.1 :: p.2) <$> both x (all rest)

end Built

namespace Node

/-- The tag of a node. -/
def tag : Node → Tag
  | scalar t _ => t
  | sequence t _ => t
  | mapping t _ => t

/-- The node stands for a collection. Its contents are not looked at. -/
def isCollection (n : Node) : Bool := [.seq, .map, .set, .omap, .pairs].contains n.tag

mutual

/-- The text of a node that stands for a scalar: a mapping gives that under its value key. -/
def text? : Node → Option String
  | scalar _ s => some s
  | sequence _ _ => none
  | mapping _ pairs => pairsText? pairs

/-- The text under the value key among some entries. -/
def pairsText? : List (Node × Node) → Option String
  | [] => none
  | (k, v) :: rest => if k.tag == .value then v.text? else pairsText? rest

end

/-- The value of a node with a tag for scalars. -/
def scalarOf (tag : Tag) (node : Node) : Built Value :=
  match node.text? with
  | some s => .here (scalarValue tag s)
  | none => throw (0, .malformed)

/-- An entry of a mapping before it is put in its place. -/
abbrev Pair := Built (Value × Value)

/-- The value of a mapping, or the set of its keys. -/
def mappingOf (tag : Tag) (pairs : List Pair) : Built Value := do
  let entries := (← Built.all pairs).foldl (fun m (k, v) => Value.put k v m) []
  match tag with
  | .set => return .set (entries.map (·.1))
  | _ => return .map entries

mutual

/-- The value of a node. -/
def build : Node → Built Value
  | scalar tag s =>
    match tag with
    | .seq | .map | .set | .omap | .pairs => Built.malformedBelow
    | _ => .here (scalarValue tag s)
  | sequence tag items =>
    match tag with
    | .seq => (.list <$> Built.all (buildItems items)).below
    | .omap | .pairs => (.list <$> Built.all (buildTuples items)).below
    | .map | .set => Built.malformedBelow
    | _ => throw (0, .malformed)
  | mapping tag pairs =>
    match tag with
    | .map | .set =>
      match buildPairs pairs with
      | .ok (merged, own) => (mappingOf tag (merged ++ own)).below
      | .error f => throw (1, f)
    | .seq | .omap | .pairs => Built.malformedBelow
    | _ =>
      match pairsText? pairs with
      | some s => .here (scalarValue tag s)
      | none => throw (0, .malformed)

/-- The values of the items of a sequence. -/
def buildItems : List Node → List (Built Value)
  | [] => []
  | item :: rest => build item :: buildItems rest

/-- The values of mappings with one entry each, as pairs. -/
def buildTuples : List Node → List (Built Value)
  | [] => []
  | .mapping _ [(k, v)] :: rest =>
    ((fun p => .tuple [p.1, p.2]) <$> Built.both (build k) (build v)) :: buildTuples rest
  | _ :: rest => throw (0, .malformed) :: buildTuples rest

/-- The entries of a mapping: those of merged mappings, and its own. -/
def buildPairs : List (Node × Node) → Except Fault (List Pair × List Pair)
  | [] => return ([], [])
  | (k, v) :: rest => do
    if k.tag == .merge then
      let taken ← buildMerged v
      let (merged, own) ← buildPairs rest
      return (taken ++ merged, own)
    else
      -- a collection is refused as a key before it is filled
      let key :=
        if k.isCollection then throw (0, .malformed)
        else if k.tag == .value then scalarOf .str k
        else build k
      let entry := Built.both key (build v)
      let (merged, own) ← buildPairs rest
      return (merged, entry :: own)

/-- The entries that a merge key brings: those of a mapping, or of the mappings in a sequence, the
last first. -/
def buildMerged : Node → Except Fault (List Pair)
  | mapping _ pairs => do
    let (merged, own) ← buildPairs pairs
    return merged ++ own
  | sequence _ items => buildMergedItems items
  | scalar _ _ => throw .malformed

/-- The entries of the mappings in a sequence, the last first. -/
def buildMergedItems : List Node → Except Fault (List Pair)
  | [] => return []
  | .mapping _ pairs :: rest => do
    let (merged, own) ← buildPairs pairs
    let others ← buildMergedItems rest
    return others ++ (merged ++ own)
  | _ :: _ => throw .malformed

end

end Node

/-- Reads a document; an empty one is null. -/
def load (text : List Char) : Except Fault Value := do
  match ← root? text with
  | none => return .null
  | some node => node.build.mapError (·.2)

end Yaml

end ScriptModules
