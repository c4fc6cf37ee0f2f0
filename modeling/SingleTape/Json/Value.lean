import SingleTape.Json.Token
import SingleTape.Text.Decimal

/-!
# JSON values

A JSON text as a tree. Reading needs no more than a stack of the arrays and objects that are still
open, so texts may be nested as deeply as they like.
-/

namespace SingleTape.Json

/-- A JSON value. The fields of an object stand in the order of the text, and keys may repeat. -/
inductive Value where
  | null
  | bool (b : Bool)
  | number (text : List Char)
  | string (pieces : List Piece)
  | array (items : List Value)
  | object (fields : List (List Piece × Value))

namespace Value

/-- An array or an object that has not been closed, with what it holds so far, last first. An
object also knows the key whose value comes next. -/
inductive Frame where
  | array (items : List Value)
  | object (fields : List (List Piece × Value)) (key : List Piece)

/-- Reads the tokens that follow a value, or follow the place where one has to stand, inside the
arrays and objects that are open. -/
def build : Option Value → List Frame → List Token → Option Value
  | some v, [], [] => some v
  | some v, .array items :: stack, .comma :: ts => build none (.array (v :: items) :: stack) ts
  | some v, .array items :: stack, .closeBracket :: ts =>
    build (some (.array (v :: items).reverse)) stack ts
  | some v, .object fields key :: stack, .comma :: .string next :: .colon :: ts =>
    build none (.object ((key, v) :: fields) next :: stack) ts
  | some v, .object fields key :: stack, .closeBrace :: ts =>
    build (some (.object ((key, v) :: fields).reverse)) stack ts
  | none, stack, .null :: ts => build (some .null) stack ts
  | none, stack, .bool b :: ts => build (some (.bool b)) stack ts
  | none, stack, .number n :: ts => build (some (.number n)) stack ts
  | none, stack, .string s :: ts => build (some (.string s)) stack ts
  | none, stack, .openBracket :: .closeBracket :: ts => build (some (.array [])) stack ts
  | none, stack, .openBracket :: ts => build none (.array [] :: stack) ts
  | none, stack, .openBrace :: .closeBrace :: ts => build (some (.object [])) stack ts
  | none, stack, .openBrace :: .string key :: .colon :: ts =>
    build none (.object [] key :: stack) ts
  | _, _, _ => none

def parse? (text : String) : Option Value := do
  build none [] (← tokens? text.toList)

/-- The characters that pieces stand for, behind the reverse of those before. Two surrogate code
units make one character, and a surrogate on its own makes none. -/
def textOf (before : List Char) : List Piece → Option (List Char)
  | [] => some before.reverse
  | .char c :: rest => textOf (c :: before) rest
  | .unit n :: rest =>
    if 0xd800 ≤ n ∧ n < 0xdc00 then
      match rest with
      | .unit m :: rest =>
        if 0xdc00 ≤ m ∧ m < 0xe000 then
          textOf (Char.ofNat (0x10000 + (n - 0xd800) * 0x400 + (m - 0xdc00)) :: before) rest
        else none
      | _ => none
    else if 0xdc00 ≤ n ∧ n < 0xe000 then none
    else textOf (Char.ofNat n :: before) rest

def piecesText? (pieces : List Piece) : Option String := (textOf [] pieces).map String.ofList

def text? : Value → Option String
  | string pieces => piecesText? pieces
  | _ => none

/-- The value of a number that is written with digits only and fits a machine word. -/
def word? : Value → Option Nat
  | number text => Text.word? text
  | _ => none

/-- One of several names, written as a string, or as an object that has the name as its only key
and null as its value. -/
def name? {α : Type} (names : List (String × α)) : Value → Option α
  | string pieces => piecesText? pieces >>= fun s => names.lookup s
  | object [(key, null)] => piecesText? key >>= fun s => names.lookup s
  | _ => none

/-- The only value of a key, if the key is there just once. -/
def field? (fields : List (String × Value)) (key : String) : Option Value :=
  match fields.filter (·.1 = key) with
  | [(_, v)] => some v
  | _ => none

/-- The values of the named fields of a record. A record is written as an object, which may have
more fields but repeats none of these, or as an array of just these values. -/
def record? (names : List String) : Value → Option (List Value)
  | array items => if items.length = names.length then some items else none
  | object fields => do
    let fields ← fields.mapM fun (key, v) => return (← piecesText? key, v)
    names.mapM (field? fields)
  | _ => none

end Value

end SingleTape.Json
