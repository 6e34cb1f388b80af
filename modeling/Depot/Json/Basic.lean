/-! JSON as far as a text can be read. A text that breaks off or goes wrong still has a reading:
the containers that were open end where it stops, each with the reason. A reader of records walks
the reading from left to right and meets whichever comes first, the fault of the text or its own
objection. -/

namespace Depot

namespace Json

/-- Why reading stops: something that cannot stand there, or the end of the text. -/
inductive Break where
  | malformed
  | ended
  deriving DecidableEq

/-- A scalar that cannot be read. To pass over one is another matter: half a surrogate pair is no
character, yet its end is known. -/
structure Flaw where
  read : Break
  skip : Option Break
  deriving DecidableEq

end Json

inductive Json where
  | null
  | bool (b : Bool)
  | number (literal : String)
  | string (s : String)
  | array (items : List Json) (ending : Option Json.Break)
  | object (members : List (Except Json.Flaw String × Json)) (ending : Option Json.Break)
  | flawed (flaw : Json.Flaw)

namespace Json

def list (items : List Json) : Json := .array items none

def record (members : List (String × Json)) : Json :=
  .object (members.map fun (k, v) => (.ok k, v)) none

def nat (n : Nat) : Json := .number (toString n)

def option (f : α → Json) : Option α → Json
  | none => .null
  | some a => f a

mutual

/-- What stops a reader that passes over the value. -/
def skipBreak? : Json → Option Break
  | .flawed flaw => flaw.skip
  | .array items ending => (skipItems? items).or ending
  | .object members ending => (skipMembers? members).or ending
  | _ => none

def skipItems? : List Json → Option Break
  | [] => none
  | v :: rest => (skipBreak? v).or (skipItems? rest)

def skipMembers? : List (Except Flaw String × Json) → Option Break
  | [] => none
  | (.ok _, v) :: rest => (skipBreak? v).or (skipMembers? rest)
  | (.error flaw, v) :: rest => (flaw.skip.or (skipBreak? v)).or (skipMembers? rest)

end

end Json

end Depot
