import BlockLedger.InclusionProof

/-!
# What can be wrong with a proof

A proof is refused for its shape, or because it and the leaves at hand do not fit together. A request
is refused if there is nothing to prove or a leaf is unknown.
-/

namespace BlockLedger

/-- What is wrong with a proof that cannot be replayed. -/
inductive Defect where
  | noLevels
  | emptyLeafLevel (width : Nat)
  | levelWidth (level expected found : Nat)
  | rootWidth (width : Nat)
  | extraLevel (level : Nat)
  | positionOutOfRange (level position width : Nat)
  | duplicatePosition (level position : Nat)
  | leafAboveLeafLevel (level position : Nat)
  | derivedAtLeafLevel (position : Nat)
  | missingChild (level position : Nat)
  | unusedPosition (level position : Nat)
  | rootNotDerived
  | missingLeaf (id : String)
  | unsuppliedLeaf (id : String)
  deriving DecidableEq, Repr

/-- How an identifier is shown in messages. -/
def inspectIdentifier (id : String) : String := "BlockId(" ++ Text.quoted id ++ ")"

/-- How a place is named in messages. -/
def placeText (level position : Nat) : String :=
  "level " ++ toString level ++ " position " ++ toString position

def Defect.message : Defect → String
  | .noLevels => "proof has no levels"
  | .emptyLeafLevel w => "leaf level declares " ++ toString w ++ " nodes"
  | .levelWidth l e f =>
    "level " ++ toString l ++ " declares " ++ toString f ++ " nodes, expected " ++ toString e
  | .rootWidth w => "top level declares " ++ toString w ++ " nodes, expected a single root"
  | .extraLevel l => "level " ++ toString l ++ " sits above a level that already holds the root"
  | .positionOutOfRange l p w =>
    placeText l p ++ " is outside a level of " ++ toString w ++ " nodes"
  | .duplicatePosition l p => placeText l p ++ " is declared more than once"
  | .leafAboveLeafLevel l p => placeText l p ++ " names a leaf above the leaf level"
  | .derivedAtLeafLevel p =>
    "leaf level position " ++ toString p ++ " asks to derive without naming a leaf"
  | .missingChild l p => placeText l p ++ " is missing a child needed to derive it"
  | .unusedPosition l p => placeText l p ++ " is not consumed by a derived parent"
  | .rootNotDerived => "top level does not derive the root"
  | .missingLeaf id => "leaf " ++ inspectIdentifier id ++ " has no derive marker at the leaf level"
  | .unsuppliedLeaf id =>
    "leaf level expects " ++ inspectIdentifier id ++ " but no such leaf was supplied"

def RequestFault.message : RequestFault → String
  | .emptyTree => "cannot perform operation on an empty tree"
  | .emptyRequest => "no leaf identifiers were requested"
  | .notFound id => "no leaf with identifier " ++ inspectIdentifier id

/-- Why a proof is not replayed: no leaves are at hand, or the proof has a defect. -/
inductive ReplayFault where
  | noLeaves
  | malformed (defect : Defect)
  deriving DecidableEq, Repr

def ReplayFault.message : ReplayFault → String
  | .noLeaves => RequestFault.emptyRequest.message
  | .malformed d => "malformed proof: " ++ d.message

end BlockLedger
