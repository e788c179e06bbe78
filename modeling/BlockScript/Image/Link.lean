import BlockScript.Image.Codec
import BlockScript.Image.Verify
import BlockScript.Primitive
import BlockScript.Support

/-!
# Linking

Only a linked image can run. Linking verifies it, finds the support function of each name that it
imports, checks that each is called with the number of values that it takes, and grants the host
primitives that it names, provided that the capabilities allow all of them. What linking has checked
is part of the type `Linked`, apart from the capabilities, which belong to the one who links.
-/

namespace BlockScript

/-- Why an image cannot be linked. -/
inductive LinkError where
  | undecodable (routine : String) (cause : WireError)
  | unverified (e : VerifyError)
  | unknownSupport (name : String)
  | supportArity (name : String) (expected found : Nat)
  | capabilityDenied (name : String)
deriving DecidableEq

namespace LinkError

/-- The text of the error. -/
def message : LinkError → String
  | undecodable routine cause => "link error: cannot decode '" ++ routine ++ "': " ++ cause.message
  | unverified e => "link error: " ++ e.message
  | unknownSupport name => "link error: unknown support function '" ++ name ++ "'"
  | supportArity name expected found =>
    "link error: support function '" ++ name ++ "' takes " ++ Nat.repr expected
      ++ " arguments, called with " ++ Nat.repr found
  | capabilityDenied name =>
    "link error: host primitive '" ++ name
      ++ "' is not available\n  hint: grant it through the evaluator's capabilities"

end LinkError

namespace Image

/-- The support functions of a row of names. -/
def resolveSupport : List String → Except LinkError (List Support)
  | [] => .ok []
  | name :: names =>
    match Support.ofName? name with
    | none => .error (.unknownSupport name)
    | some f =>
      match resolveSupport names with
      | .error e => .error e
      | .ok fs => .ok (f :: fs)

/-- Names resolve to the functions that bear them. -/
theorem map_name_of_resolveSupport {names : List String} {fs : List Support}
    (h : resolveSupport names = .ok fs) : fs.map Support.name = names := by
  induction names generalizing fs with
  | nil =>
    cases h
    rfl
  | cons name names ih =>
    rw [resolveSupport] at h
    split at h
    · cases h
    · next f hf =>
      split at h
      · cases h
      · next gs hgs =>
        cases h
        rw [List.map_cons, Support.name_of_ofName? hf, ih hgs]

/-- The error of a support function that is not called with as many values as it takes. -/
def arityError? (support : List Support) : Instr → Option LinkError
  | .callSupport index argc =>
    match support[index.toNat]? with
    | some f =>
      if f.arity = argc.toNat then none else some (.supportArity f.name f.arity argc.toNat)
    | none => none
  | _ => none

end Image

/-- An image that can run, with the support functions that it imports. -/
structure Linked where
  image : Image
  support : List Support
  /-- The instructions of the image, for access by position. -/
  code : Array Instr
  code_eq : code = image.ops.toArray
  /-- The image is well formed. -/
  verified : image.flaw? = none
  /-- The functions are those that the image names, in order. -/
  imported : support.map Support.name = image.support
  /-- Each function is called with as many values as it takes. -/
  called : ∀ op ∈ image.ops, Image.arityError? support op = none

namespace Linked

/-- The name of the routine. -/
def name (l : Linked) : String := l.image.name

end Linked

namespace Image

/-- Links an image under capabilities. -/
def link (i : Image) (c : Capabilities) : Except LinkError Linked :=
  match hv : i.flaw? with
  | some flaw => .error (.unverified ⟨i.name, flaw⟩)
  | none =>
    match hs : resolveSupport i.support with
    | .error e => .error e
    | .ok support =>
      match ha : i.ops.findSome? (arityError? support) with
      | some e => .error e
      | none =>
        match i.host.find? fun name => !c.allows name with
        | some name => .error (.capabilityDenied name)
        | none =>
          .ok {
            image := i
            support := support
            code := i.ops.toArray
            code_eq := rfl
            verified := hv
            imported := map_name_of_resolveSupport hs
            called := List.findSome?_eq_none_iff.1 ha }

/-- Decodes and links the bytes of an image that came under a name. -/
def load (name : String) (bytes : List UInt8) (c : Capabilities) : Except LinkError Linked :=
  match decode bytes with
  | .error e => .error (.undecodable name e)
  | .ok i => i.link c

end Image

end BlockScript
