/-!
YAML nodes as they are written. A name stands for the node that carries it further up; following the
names gives a tree without them.
-/
namespace RowReplay.Yaml

/-- How a scalar is written. -/
inductive ScalarStyle
  | plain
  | singleQuoted
  | doubleQuoted
  | literal
  | folded
  deriving DecidableEq, Inhabited

inductive Node
  | scalar (tag : Option String) (style : ScalarStyle) (text : String)
  | sequence (items : List Node)
  | mapping (members : List (Node × Node))
  /-- A node that is given a name. -/
  | named (name : String) (node : Node)
  /-- The node of a name. -/
  | reference (name : String)
  deriving Inhabited

namespace Node

/-- What stands where nothing is written. -/
def empty : Node := .scalar none .plain ""

/-- Tags matter on scalars only. -/
def withTag (tag : String) : Node → Node
  | .scalar _ style text => .scalar (some tag) style text
  | node => node

/-- The nodes of the names so far, the latest first. -/
abbrev Names := List (String × Node)

mutual

/-- The tree without names, and the names after it. A name that nothing carries has no tree. -/
def resolve (names : Names) : Node → Option (Node × Names)
  | .scalar tag style text => some (.scalar tag style text, names)
  | .sequence items => (resolveItems names items).map fun (items, names) => (.sequence items, names)
  | .mapping members =>
    (resolveMembers names members).map fun (members, names) => (.mapping members, names)
  | .named name node =>
    (resolve names node).map fun (node, names) => (node, (name, node) :: names)
  | .reference name => (names.lookup name).map fun node => (node, names)

def resolveItems (names : Names) : List Node → Option (List Node × Names)
  | [] => some ([], names)
  | item :: rest =>
    match resolve names item with
    | none => none
    | some (item, names) =>
      (resolveItems names rest).map fun (rest, names) => (item :: rest, names)

def resolveMembers (names : Names) : List (Node × Node) → Option (List (Node × Node) × Names)
  | [] => some ([], names)
  | (key, value) :: rest =>
    match resolve names key with
    | none => none
    | some (key, names) =>
      match resolve names value with
      | none => none
      | some (value, names) =>
        (resolveMembers names rest).map fun (rest, names) => ((key, value) :: rest, names)

end

end Node

end RowReplay.Yaml
