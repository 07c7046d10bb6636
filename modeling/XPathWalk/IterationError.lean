/-
**Errors of evaluation.**

Iterating can fail without anybody's fault: a source may have no way to be cloned. Such an error
travels as a value, and what an evaluation finally shows to its caller is always an evaluation
failure with a code and a message.

* `IterationError.code`, `IterationError.message`: how an error is classified and shown;
* `IterationError.toFailure`: the evaluation failure that stands for an error;
* `toFailure_toFailure`, `code_toFailure`: converting twice changes nothing, and the code is kept.
-/

namespace XPathWalk

/-- The classes of evaluation failures. -/
inductive ErrorCode where
  /-- An iterator could not be duplicated. -/
  | iteratorClone
  /-- Iteration failed internally. -/
  | internal
  deriving DecidableEq, Repr

/-- The word by which callers know a class of failures. -/
def ErrorCode.text : ErrorCode → String
  | iteratorClone => "ITERATOR_CLONE_ERR"
  | internal => "RUN_TIME_INTERNAL_ERR"

/-- What may go wrong while iterating. -/
inductive IterationError where
  /-- The iterator of the given kind, or a source of it, cannot be cloned. -/
  | notCloneable (iterator reason : String)
  /-- An evaluation failure that users see. -/
  | failure (code : ErrorCode) (text : String)
  deriving DecidableEq, Repr

namespace IterationError

/-- The class of an error. -/
def code : IterationError → ErrorCode
  | notCloneable _ _ => .iteratorClone
  | failure code _ => code

/-- The displayed form of an error. -/
def message : IterationError → String
  | notCloneable iterator reason => "cannot clone " ++ iterator ++ " iterator: " ++ reason
  | failure code text => code.text ++ ": " ++ text

/-- The evaluation failure that callers see for an error: a failure is kept, and anything else
becomes one that carries its code and its displayed form. -/
def toFailure : IterationError → IterationError
  | failure code text => failure code text
  | error@(notCloneable _ _) => failure error.code error.message

/-- Conversion happens at most once. -/
@[simp] theorem toFailure_toFailure (error : IterationError) :
    error.toFailure.toFailure = error.toFailure := by
  cases error <;> rfl

/-- Conversion keeps the class of an error. -/
@[simp] theorem code_toFailure (error : IterationError) : error.toFailure.code = error.code := by
  cases error <;> rfl

end IterationError

end XPathWalk
