import SingleTape.Text.Quoted

/-!
# Why a file cannot be used
-/

namespace SingleTape

structure OsError where
  code : Nat
  kind : String
  message : String
deriving DecidableEq

namespace OsError

def notFound : OsError := ⟨2, "NotFound", "No such file or directory"⟩

def notADirectory : OsError := ⟨20, "NotADirectory", "Not a directory"⟩

def isADirectory : OsError := ⟨21, "IsADirectory", "Is a directory"⟩

end OsError

inductive FileProblem where
  | os (e : OsError)
  /-- The bytes are no text. -/
  | invalidText
deriving DecidableEq

namespace FileProblem

def invalidTextMessage : String := "stream did not contain valid UTF-8"

def message : FileProblem → String
  | os e => e.message ++ " (os error " ++ toString e.code ++ ")"
  | invalidText => invalidTextMessage

def inspect : FileProblem → String
  | os e =>
    "Os \x7b code: " ++ toString e.code ++ ", kind: " ++ e.kind ++ ", message: "
      ++ Text.quote e.message ++ " \x7d"
  | invalidText =>
    "Error \x7b kind: InvalidData, message: " ++ Text.quote invalidTextMessage ++ " \x7d"

end FileProblem

end SingleTape
