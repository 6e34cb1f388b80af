import Depot.Text.Quoted

/-! Object names. A name is one component of a path below a base directory, so it must not be
empty, hidden, or hold a separator of either kind. -/

namespace Depot

inductive NameFault where
  | empty
  | leadingDot
  | separator (c : Char)
  deriving DecidableEq

def NameFault.message : NameFault → String
  | .empty => "name must not be empty"
  | .leadingDot => "must not start with '.'"
  | .separator c => "must not contain path separator " ++ Text.quoteChar c

/-- The first rule that `s` breaks. -/
def nameFault? (s : String) : Option NameFault :=
  if s.toList = [] then some .empty
  else if s.toList.head? = some '.' then some .leadingDot
  else if '/' ∈ s.toList then some (.separator '/')
  else if '\\' ∈ s.toList then some (.separator '\\')
  else none

structure NameError where
  name : String
  fault : NameFault
  deriving DecidableEq

def NameError.message (e : NameError) : String :=
  "invalid object name " ++ Text.quote e.name ++ ": " ++ e.fault.message

structure ObjectName where
  text : String
  sound : nameFault? text = none
  deriving DecidableEq

def ObjectName.ofString (s : String) : Except NameError ObjectName :=
  match h : nameFault? s with
  | none => .ok ⟨s, h⟩
  | some fault => .error ⟨s, fault⟩

@[ext] theorem ObjectName.ext {a b : ObjectName} (h : a.text = b.text) : a = b := by
  cases a; cases b; simp_all

theorem ObjectName.ofString_text (n : ObjectName) : ofString n.text = .ok n := by
  unfold ofString
  split
  · rfl
  · next h => simp [n.sound] at h

theorem ObjectName.ofString_eq_error {s : String} {e : NameError} :
    ofString s = .error e ↔ e.name = s ∧ nameFault? s = some e.fault := by
  unfold ofString
  split
  · next h => simp [h]
  · next fault h => cases e; simp [h]; grind

end Depot
