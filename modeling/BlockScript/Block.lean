import BlockScript.Value.Basic

/-!
# Blocks

A program is drawn with blocks. A block has an operation code, named input slots that hold a value
or another block, named fields of plain text, and possibly a block below it. All blocks of a program
live in one `Arena` and refer to each other by number, so the graph may have any shape: shared
blocks, dangling links and cycles included.
-/

namespace BlockScript

/-- The number of a block in its arena. -/
abbrev BlockId := UInt32

/-- The contents of an input slot. -/
inductive Slot where
  /-- A value typed into the slot. -/
  | literal (v : Value)
  /-- A reporter plugged into the slot, or the first block of a stack inside it. -/
  | block (id : BlockId)
deriving DecidableEq

/-- A single block. -/
structure Block where
  opcode : String
  inputs : List (String × Slot) := []
  fields : List (String × String) := []
  /-- The procedure that a call block calls. -/
  proccode : Option String := none
  /-- The block below. -/
  next : Option BlockId := none
deriving DecidableEq

namespace Block

/-- The first input slot of a name. -/
def input? (b : Block) (name : String) : Option Slot := b.inputs.lookup name

/-- The first field of a name. -/
def field? (b : Block) (name : String) : Option String := b.fields.lookup name

/-- The first field of a name; empty if there is none. -/
def field (b : Block) (name : String) : String := (b.field? name).getD ""

end Block

/-- All blocks of a program, numbered from zero. -/
structure Arena where
  blocks : Array Block := #[]

namespace Arena

/-- The number of blocks. -/
def size (a : Arena) : Nat := a.blocks.size

/-- The block of a number. -/
def get? (a : Arena) (id : BlockId) : Option Block := a.blocks[id.toNat]?

/-- The number that the next block will get. -/
def nextId (a : Arena) : BlockId := UInt32.ofNat a.size

/-- Adds a block under the next number. -/
def insert (a : Arena) (b : Block) : Arena := ⟨a.blocks.push b⟩

/-- Puts the block `lower` below the block `upper`, which has to exist. -/
def link? (a : Arena) (upper lower : BlockId) : Option Arena :=
  (a.get? upper).map fun b => ⟨a.blocks.setIfInBounds upper.toNat { b with next := some lower }⟩

/-- Adds blocks as one stack, each below the one before it. -/
def insertStack (a : Arena) : List Block → Arena
  | [] => a
  | [b] => a.insert b
  | b :: bs => (a.insert { b with next := some (a.nextId + 1) }).insertStack bs

/-- The arena of a list of blocks. -/
def ofList (bs : List Block) : Arena := ⟨bs.toArray⟩

end Arena

end BlockScript
