import BlockScript.Image.Verify

/-!
# Listings

The text of an image for people to read: one line for each instruction, and a mark at each place
that a jump leads to.
-/

namespace BlockScript

namespace Listing

/-- A text brought to a width by characters before it. -/
def padLeft (width : Nat) (c : Char) (s : String) : String :=
  String.ofList (List.replicate (width - s.length) c) ++ s

/-- A text brought to a width by blanks after it. -/
def padRight (width : Nat) (s : String) : String :=
  s ++ String.ofList (List.replicate (width - s.length) ' ')

/-- A position, with at least four digits. -/
def position (n : Nat) : String := padLeft 4 '0' (Nat.repr n)

/-- The position that a jump leads to. A target before the first instruction counts down from the
end of the 64-bit range. -/
def target (pc : Nat) (offset : Int32) : Nat :=
  let t := (Int32.ofNat pc + offset).toInt
  if t < 0 then Nat.pow 2 64 - t.natAbs else t.natAbs

/-- All positions that the jumps of a row of instructions lead to. -/
def targets (ops : List Instr) : List Nat :=
  ops.zipIdx.filterMap fun (op, pc) => op.jumpOffset?.map (target pc)

/-- The text of a jump. -/
def jump (name : String) (offset : Int32) (pc : Nat) : String :=
  padRight 12 name ++ (if offset.toInt < 0 then "" else "+") ++ intText offset.toInt
    ++ (if offset.toInt < 0 then " ↑" else " ↓") ++ " (→ " ++ position (target pc offset) ++ ")"

/-- The name at an index of a table. -/
def nameAt (names : List String) (index : UInt16) : String := names[index.toNat]?.getD "<missing>"

/-- The text of a call with a number of arguments. -/
def call (name : String) (argc : UInt16) : String := name ++ "/" ++ Nat.repr argc.toNat

/-- The name of a kind of yield. -/
def yieldName : YieldKind → String
  | .soft => "SOFT"
  | .frame => "FRAME"
  | .blocking => "BLOCKING"

/-- The text of an instruction at a position, with names from the tables of an image. -/
def instr (i : Image) (op : Instr) (pc : Nat) : String :=
  match op with
  | .push v => "PUSH        " ++ v.listed
  | .drop => "DROP"
  | .loadArg n => "LOAD_ARG    " ++ Nat.repr n.toNat
  | .loadLocal n => "LOAD_LOCAL  " ++ Nat.repr n.toNat
  | .storeLocal n => "STORE_LOCAL " ++ Nat.repr n.toNat
  | .callSupport n argc => "CALL_SUPP   " ++ call (nameAt i.support n) argc
  | .callHost n argc => "CALL_HOST   " ++ call (nameAt i.host n) argc
  | .escape block opcode inputs =>
    "ESCAPE      " ++ opcode ++ " #" ++ Nat.repr block.toNat ++ " ("
      ++ ", ".intercalate inputs ++ ")"
  | .getVariable name => "GET_VAR     \"" ++ name ++ "\""
  | .setVariable name => "SET_VAR     \"" ++ name ++ "\""
  | .jump offset => jump "JUMP" offset pc
  | .jumpIfFalse offset => jump "JUMP_FALSE" offset pc
  | .jumpIfTrue offset => jump "JUMP_TRUE" offset pc
  | .countdown counter exit =>
    jump "COUNTDOWN" exit pc ++ " ; local " ++ Nat.repr counter.toNat
  | .yield kind => "YIELD       " ++ yieldName kind
  | .checkDeadline counter interval =>
    "CHECK_DEADLINE every " ++ Nat.repr interval.toNat ++ " ; local " ++ Nat.repr counter.toNat
  | .startTimer => "START_TIMER ; ( ms -- )"
  | .waitTimer => "WAIT_TIMER"
  | .callProcedure n argc =>
    match i.procedures[n.toNat]? with
    | some key => "CALL_PROC   " ++ call key.text argc
    | none => "CALL_PROC   " ++ call ("<missing " ++ Nat.repr n.toNat ++ ">") argc
  | .ret => "RETURN"

/-- The lines of a row of instructions, with names from the tables of an image. -/
def instrs (i : Image) (ops : List Instr) : List String :=
  let marked := targets ops
  ops.zipIdx.flatMap fun (op, pc) =>
    if marked.contains pc then
      ["      ┌" ++ String.ofList (List.replicate 34 '─'),
       position pc ++ " ► " ++ instr i op pc]
    else [position pc ++ "   " ++ instr i op pc]

/-- The line above and below the heading. -/
def rule : String := String.ofList (List.replicate 40 '═')

/-- The lines of an image. -/
def image (i : Image) : List String :=
  [rule,
   " " ++ i.name ++ (if i.warp then " [warp]" else ""),
   " " ++ Nat.repr i.ops.length ++ " instructions, " ++ Nat.repr i.arity.toNat ++ " args, "
     ++ Nat.repr i.locals.toNat ++ " locals",
   rule] ++ instrs i i.ops

/-- The text of lines, each with a line end. -/
def text (lines : List String) : String := String.join (lines.map fun l => l ++ "\n")

/-- How often each instruction occurs, by its short name, in the order of first occurrence. -/
def counts (ops : List Instr) : List (String × Nat) :=
  let names := ops.map Instr.mnemonic
  names.eraseDups.map fun n => (n, names.count n)

end Listing

end BlockScript
