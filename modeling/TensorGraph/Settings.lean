import TensorGraph.Fault
import TensorGraph.Text.Blank
import TensorGraph.Text.Case
import TensorGraph.Text.Numeral

namespace TensorGraph

abbrev Environment := List (String × String)

namespace Environment

def truth? (s : String) : Option Bool :=
  let word := Text.lower (Text.strip s)
  if word ∈ ["1","true","yes","on"] then some true
  else if word ∈ ["0","false","no","off"] then some false
  else none

def bool (env : Environment) (name : String) (default : Bool) : Outcome Bool :=
  match env.lookup name with
  | none => .ok default
  | some s =>
    match truth? s with
    | some b => .ok b
    | none => fail (.notABoolean name (Text.quote s))

def int (env : Environment) (name : String) (default : Int) : Outcome Int :=
  match env.lookup name with
  | none => .ok default
  | some s =>
    match Text.integer? s with
    | some i => .ok i
    | none => fail (.notAnInteger name (Text.quote s))

end Environment

structure AnalysisSettings where
  maxSteps : Nat := 100000
  foldConstants : Bool := true
  maxSteps_pos : 0 < maxSteps := by decide
  deriving Repr

namespace AnalysisSettings

def standard : AnalysisSettings := {}

def make (maxSteps : Int) (foldConstants : Bool) : Outcome AnalysisSettings :=
  if h : 0 < maxSteps then .ok ⟨maxSteps.toNat,foldConstants,by omega⟩
  else fail .stepsNotPositive

def ofEnvironment (program : String) (env : Environment) : Outcome AnalysisSettings := do
  let maxSteps ← env.int (program ++ "_MAX_ITERATIONS") standard.maxSteps
  let foldConstants ← env.bool (program ++ "_FOLD_CONSTANTS") standard.foldConstants
  make maxSteps foldConstants

end AnalysisSettings

structure PlanSettings where
  useFoldedConstants : Bool := true
  validateInputs : Bool := true
  deriving DecidableEq, Repr

namespace PlanSettings

def standard : PlanSettings := {}

def ofEnvironment (program : String) (env : Environment) : Outcome PlanSettings := do
  let useFolded ← env.bool (program ++ "_USE_FOLDED_CONSTANTS") standard.useFoldedConstants
  let validate ← env.bool (program ++ "_VALIDATE_INPUTS") standard.validateInputs
  return ⟨useFolded,validate⟩

end PlanSettings

def channelName (root : String) (name : Option String) : String :=
  match name with
  | none => root
  | some n =>
    if n = "" || n = root then root
    else if (root ++ ".").toList.isPrefixOf n.toList then n
    else root ++ "." ++ n

end TensorGraph
