import FieldSieve.Selection
import FieldSieve.Text.Utf8

/-!
# Transaction fees

In a transaction the fee sits at `2:2`: coins at `2:2:1`, each with a denomination and an amount,
and the gas limit beside them.  A fee may list several coins and the last one counts.  Entering a
coin forgets what the coins before it said, so the two halves of a fee are always of one coin.
-/
namespace FieldSieve

/-- A fee. -/
structure Fee where
  denom : String
  amount : String
  gasLimit : Option UInt64
  deriving DecidableEq, Repr

namespace Fee

/-- Where coins are. -/
def coinPath : FieldPath := .ofList [2, 2, 1]

/-- Where a coin's denomination is. -/
def denomPath : FieldPath := .ofList [2, 2, 1, 1]

/-- Where a coin's amount is. -/
def amountPath : FieldPath := .ofList [2, 2, 1, 2]

/-- Where the gas limit is. -/
def gasLimitPath : FieldPath := .ofList [2, 2, 2]

/-- The parts of a fee. -/
def selection : Selection := .ofList [denomPath, amountPath, gasLimitPath]

/-- What a scan has seen of a fee. -/
structure Draft where
  denom : Option String := none
  amount : Option String := none
  gasLimit : Option UInt64 := none
  deriving DecidableEq, Repr

/-- The fee, once the last coin has both halves. -/
def Draft.fee? (draft : Draft) : Option Fee :=
  match draft.denom, draft.amount with
  | some denom, some amount => some ⟨denom, amount, draft.gasLimit⟩
  | _, _ => none

/-- The draft after a value. -/
def Draft.deliver (draft : Draft) (wireType : WireType) (value : Bytes) (path : FieldPath) :
    Draft :=
  match wireType with
  | .lengthDelimited =>
    if path = denomPath then { draft with denom := some (Text.Utf8.decodeLossy value) }
    else if path = amountPath then { draft with amount := some (Text.Utf8.decodeLossy value) }
    else draft
  | .varint =>
    if path = gasLimitPath then { draft with gasLimit := some value.word } else draft
  | _ => draft

/-- The policy that looks for a fee. -/
def extractor : Policy Draft where
  answer number parent draft :=
    (selection.answer number parent,
      if parent.child number = coinPath then { draft with denom := none, amount := none }
      else draft)
  deliver wireType _ value path draft := draft.deliver wireType value path

end Fee
end FieldSieve
