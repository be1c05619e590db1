import Mathlib.Data.List.Basic

/-!
# Initialization status

A tree of error lists, one node for each initialization that reports.  Every node caches in
`success_` whether it and the sub-statuses added to it have succeeded.
-/

namespace Simo

/-- Outcome of initializing a module, or a context when `module` is the null pointer. -/
structure InitializationStatus (ModuleRef : Type*) where
  /-- The module that reports, if any. -/
  module : Option ModuleRef
  /-- Errors of this node. -/
  errorList : List String
  /-- Statuses of the initializations below this one. -/
  subErrors : List (InitializationStatus ModuleRef)
  /-- Cached outcome. -/
  success_ : Bool

namespace InitializationStatus

/-- A status with a list of errors; it succeeds when there is none. -/
def ofErrors {ModuleRef : Type*} (module : Option ModuleRef) (errorList : List String) :
    InitializationStatus ModuleRef where
  module := module
  errorList := errorList
  subErrors := []
  success_ := errorList.isEmpty

/-- The successful status. -/
def ok {ModuleRef : Type*} (module : Option ModuleRef) : InitializationStatus ModuleRef :=
  ofErrors module []

def success {ModuleRef : Type*} (status : InitializationStatus ModuleRef) : Bool :=
  status.success_

/-- Append a sub-status and fold its outcome into the cached one. -/
def emplaceSubError {ModuleRef : Type*} (status sub : InitializationStatus ModuleRef) :
    InitializationStatus ModuleRef :=
  { status with
    subErrors := status.subErrors ++ [sub]
    success_ := status.success_ && sub.success }

@[simp]
theorem success_ok {ModuleRef : Type*} (module : Option ModuleRef) :
    (ok module).success = true := rfl

@[simp]
theorem success_ofErrors {ModuleRef : Type*} (module : Option ModuleRef) (errorList : List String) :
    (ofErrors module errorList).success = errorList.isEmpty := rfl

@[simp]
theorem success_emplaceSubError {ModuleRef : Type*} (status sub : InitializationStatus ModuleRef) :
    (status.emplaceSubError sub).success = (status.success && sub.success) := rfl

def addError {ModuleRef : Type*} (status : InitializationStatus ModuleRef) (newError : String) :
    InitializationStatus ModuleRef :=
  { status with errorList := status.errorList ++ [newError], success_ := false }

@[simp]
theorem success_addError {ModuleRef : Type*} (status : InitializationStatus ModuleRef)
    (newError : String) : (status.addError newError).success = false := rfl

/-- Blanks in front of a line. -/
def padding (indent : ℕ) : String := "".pushn ' ' indent

/-- The text for one error. -/
def errorLine (indent : ℕ) (error : String) : String :=
  "\n" ++ padding indent ++ padding indent ++ "- " ++ error

def errorLines (indent : ℕ) : List String → String
  | [] => ""
  | error :: rest => errorLine indent error ++ errorLines indent rest

/-- What `append_to` appends, where `name` gives the names of the modules.  Nothing is said about
what is below a status that is marked as successful. -/
def appendTo {ModuleRef : Type*} (name : ModuleRef → String) (indent : ℕ) :
    InitializationStatus ModuleRef → String
  | ⟨module, errorList, subErrors, success_⟩ =>
      let head := padding indent ++ "Module " ++ (module.map name).getD "<null>"
      if success_ then head ++ " - OK"
      else head ++ errorLines indent errorList ++ appendSubErrors name indent subErrors
where
  /-- The same for a list of sub-statuses. -/
  appendSubErrors (name : ModuleRef → String) (indent : ℕ) :
      List (InitializationStatus ModuleRef) → String
    | [] => ""
    | subError :: rest =>
        "\n" ++ appendTo name (indent + 2) subError ++ appendSubErrors name indent rest

def toString {ModuleRef : Type*} (name : ModuleRef → String)
    (status : InitializationStatus ModuleRef) : String :=
  status.appendTo name 0

end InitializationStatus
end Simo
