import Depot.Json.Reading
import Depot.Name

/-! Reading values of a type out of JSON. The first objection from left to right is the answer: a
break of the text, a value of the wrong kind where it stands, a field for the second time as soon
as its name is met. Missing fields are looked for once the object has ended, in the order of the
record. -/

namespace Depot.Json

inductive ReadError where
  | broken (b : Break)
  | mismatch
  | missing (field : String)
  | duplicate (field : String)
  | badName (e : NameError)
  deriving DecidableEq

/-- The part of an objection that a caller is told. -/
def ReadError.message? : ReadError → Option String
  | .missing field => some ("missing field `" ++ field ++ "`")
  | .duplicate field => some ("duplicate field `" ++ field ++ "`")
  | .badName e => some e.message
  | _ => none

abbrev Reader (α : Type) := Json → Except ReadError α

def natural? (literal : String) : Option Nat :=
  let cs := literal.toList
  if cs ≠ [] ∧ cs.all Text.isDecimal then some (Text.decimalNumber cs) else none

/-- A natural number below `bound`, written with digits alone. -/
def readNat (bound : Nat) : Reader Nat
  | .number literal =>
    match natural? literal with
    | some n => if n < bound then .ok n else .error .mismatch
    | none => .error .mismatch
  | .flawed flaw => .error (.broken flaw.read)
  | _ => .error .mismatch

def readUInt64 : Reader UInt64 := fun v => (readNat UInt64.size v).map UInt64.ofNat

def readUInt32 : Reader UInt32 := fun v => (readNat UInt32.size v).map UInt32.ofNat

def readString : Reader String
  | .string s => .ok s
  | .flawed flaw => .error (.broken flaw.read)
  | _ => .error .mismatch

def readOption (read : Reader α) : Reader (Option α)
  | .null => .ok none
  | v => (read v).map some

/-- The check of how a container ends. -/
def endsWell (ending : Option Break) : Except ReadError Unit :=
  match ending with
  | some b => .error (.broken b)
  | none => .ok ()

def readList (read : Reader α) : Reader (List α)
  | .array items ending => do
    let as ← items.mapM read
    endsWell ending
    .ok as
  | .flawed flaw => .error (.broken flaw.read)
  | _ => .error .mismatch

/-! ## Records

While a record is read, `σ` holds what has been seen of it. -/

structure RecordField (σ : Type) where
  name : String
  seen : σ → Bool
  store : Json → σ → Except ReadError σ
  /-- Stands for a field that an object does not have. -/
  absent : σ → Except ReadError σ
  /-- Stands for a field that an array is too short for. -/
  short : σ → Except ReadError σ

def readMember (fields : List (RecordField σ)) (s : σ) (m : Except Flaw String × Json) :
    Except ReadError σ :=
  match m.1 with
  | .error flaw => .error (.broken flaw.read)
  | .ok key =>
    match fields.find? (·.name = key) with
    | some field => if field.seen s then .error (.duplicate key) else field.store m.2 s
    | none => do
      endsWell m.2.skipBreak?
      .ok s

def readFields (fields : List (RecordField σ)) (ending : Option Break) :
    List Json → σ → Except ReadError σ :=
  match fields with
  | [] => fun items s =>
    match items with
    | [] => do
      endsWell ending
      .ok s
    | _ :: _ => .error (.broken .malformed)
  | field :: fields => fun items s =>
    match items with
    | v :: items => do readFields fields ending items (← field.store v s)
    | [] => do
      endsWell ending
      readFields fields ending [] (← field.short s)

/-- An object with the fields in any order and others among them, or an array of the fields. -/
def readRecord (fields : List (RecordField σ)) (start : σ) : Reader σ
  | .object members ending => do
    let s ← members.foldlM (readMember fields) start
    endsWell ending
    fields.foldlM (fun s field => if field.seen s then .ok s else field.absent s) s
  | .array items ending => readFields fields ending items start
  | .flawed flaw => .error (.broken flaw.read)
  | _ => .error .mismatch

/-- A field that must be there. -/
def RecordField.required (name : String) (read : Reader α) (get : σ → Option α)
    (set : σ → Option α → σ) : RecordField σ where
  name
  seen s := (get s).isSome
  store v s := do .ok (set s (some (← read v)))
  absent _ := .error (.missing name)
  short _ := .error .mismatch

/-- A field with a value to fall back on. -/
def RecordField.defaulted (name : String) (read : Reader α) (fallback : α) (get : σ → Option α)
    (set : σ → Option α → σ) : RecordField σ where
  name
  seen s := (get s).isSome
  store v s := do .ok (set s (some (← read v)))
  absent s := .ok (set s (some fallback))
  short s := .ok (set s (some fallback))

/-- A field that an object may leave out, but an array may not. -/
def RecordField.optional (name : String) (read : Reader α) (get : σ → Option (Option α))
    (set : σ → Option (Option α) → σ) : RecordField σ where
  name
  seen s := (get s).isSome
  store v s := do .ok (set s (some (← readOption read v)))
  absent s := .ok (set s (some none))
  short _ := .error .mismatch

/-- Reads a whole text. What follows the value is objected to last. -/
def readText (read : Reader α) (text : String) : Except ReadError α := do
  let (v, more) := ofList text.toList
  let a ← read v
  if more then .error (.broken .malformed) else .ok a

end Depot.Json
