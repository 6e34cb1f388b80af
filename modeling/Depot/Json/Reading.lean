import Depot.Json.Token

/-! A text is read token by token, with the open containers on a stack. -/

namespace Depot.Json

/-- An open container, its contents in reverse; an object waits for the value of `key`. -/
inductive Frame where
  | items (done : List Json)
  | members (done : List (Except Flaw String × Json)) (key : Except Flaw String)

/-- What may come next. The lists of contents are in reverse. -/
inductive State where
  | value (stack : List Frame)
  | firstItem (stack : List Frame)
  | afterItem (done : List Json) (stack : List Frame)
  | firstKey (stack : List Frame)
  | nextKey (done : List (Except Flaw String × Json)) (stack : List Frame)
  | afterKey (done : List (Except Flaw String × Json)) (key : Except Flaw String)
      (stack : List Frame)
  | afterMember (done : List (Except Flaw String × Json)) (stack : List Frame)
  | complete (v : Json)
  | overrun (v : Json)
  | stopped (v : Json)

/-- Puts a finished value into the innermost container. -/
def fill (v : Json) : List Frame → State
  | [] => .complete v
  | .items done :: stack => .afterItem (v :: done) stack
  | .members done key :: stack => .afterMember ((key, v) :: done) stack

/-- Ends every open container where `v` ends. -/
def cut (b : Break) (v : Json) : List Frame → Json
  | [] => v
  | .items done :: stack => cut b (.array (v :: done).reverse (some b)) stack
  | .members done key :: stack => cut b (.object ((key, v) :: done).reverse (some b)) stack

/-- The reading that results if the text stops now. -/
def State.stop (b : Break) : State → Json
  | .value stack => cut b (.flawed (.of b)) stack
  | .firstItem stack => cut b (.array [] (some b)) stack
  | .afterItem done stack => cut b (.array done.reverse (some b)) stack
  | .firstKey stack => cut b (.object [] (some b)) stack
  | .nextKey done stack => cut b (.object done.reverse (some b)) stack
  | .afterKey done key stack =>
    cut b (.object ((key, .flawed (.of b)) :: done).reverse (some b)) stack
  | .afterMember done stack => cut b (.object done.reverse (some b)) stack
  | .complete v => v
  | .overrun v => v
  | .stopped v => v

def State.refuse (s : State) : State := .stopped (s.stop .malformed)

/-- Takes the token that begins a value inside the containers of `stack`. -/
def begin (t : Token) (stack : List Frame) : State :=
  match t with
  | .text (.ok s) => fill (.string s) stack
  | .text (.error flaw) => fill (.flawed flaw) stack
  | .plain v => fill v stack
  | .openArray => .firstItem stack
  | .openObject => .firstKey stack
  | _ => State.refuse (.value stack)

def State.feed (s : State) (t : Token) : State :=
  match s, t with
  | .value stack, t => begin t stack
  | .firstItem stack, .closeArray => fill (.array [] none) stack
  | .firstItem stack, t => begin t (.items [] :: stack)
  | .afterItem done stack, .comma => .value (.items done :: stack)
  | .afterItem done stack, .closeArray => fill (.array done.reverse none) stack
  | .firstKey stack, .text key => .afterKey [] key stack
  | .firstKey stack, .closeObject => fill (.object [] none) stack
  | .nextKey done stack, .text key => .afterKey done key stack
  | .afterKey done key stack, .colon => .value (.members done key :: stack)
  | .afterMember done stack, .comma => .nextKey done stack
  | .afterMember done stack, .closeObject => fill (.object done.reverse none) stack
  | .complete v, _ => .overrun v
  | .overrun v, _ => .overrun v
  | .stopped v, _ => .stopped v
  | s, _ => s.refuse

def reading (ts : List Token) : State := ts.foldl State.feed (.value [])

/-- The reading of a text, and whether something follows the value. -/
def ofList (cs : List Char) : Json × Bool :=
  match reading (tokens cs) with
  | .complete v => (v, false)
  | .overrun v => (v, true)
  | s => (s.stop .ended, false)

end Depot.Json
