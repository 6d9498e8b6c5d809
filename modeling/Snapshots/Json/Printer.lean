import Snapshots.Json.Basic
import Snapshots.Text.Decimal

/-! # JSON text

A value as text: on one line, or indented by two blanks with one item or member a line.
-/

namespace Snapshots.Json

namespace Printer

open Text

/-- The characters that stand for a character inside a string. -/
def escapedChar (c : Char) : List Char :=
  if c = '"' ∨ c = '\\' then ['\\', c]
  else if c = '\x08' then ['\\', 'b']
  else if c = '\x0c' then ['\\', 'f']
  else if c = '\n' then ['\\', 'n']
  else if c = '\r' then ['\\', 'r']
  else if c = '\t' then ['\\', 't']
  else if c.toNat < 0x20 then
    ['\\', 'u', '0', '0', Nat.digitChar (c.toNat / 16), Nat.digitChar (c.toNat % 16)]
  else [c]

def string (s : String) : List Char :=
  '"' :: s.toList.flatMap escapedChar ++ ['"']

/-- A new line, indented so many levels. -/
def newline (level : Nat) : List Char :=
  '\n' :: List.replicate (2 * level) ' '

mutual

def pretty (level : Nat) : Json → List Char
  | .null => "null".toList
  | .bool b => (if b then "true" else "false").toList
  | .number n => n.toText.toList
  | .string s => string s
  | .array [] => ['[', ']']
  | .array (v :: vs) =>
    '[' :: newline (level + 1) ++ pretty (level + 1) v ++ prettyItems level vs
  | .object [] => ['{', '}']
  | .object ((k, v) :: ms) =>
    '{' :: newline (level + 1) ++ string k ++ ':' :: ' ' :: pretty (level + 1) v ++
      prettyMembers level ms

/-- The items of an array behind the first one, up to the bracket. -/
def prettyItems (level : Nat) : List Json → List Char
  | [] => newline level ++ [']']
  | v :: vs => ',' :: newline (level + 1) ++ pretty (level + 1) v ++ prettyItems level vs

def prettyMembers (level : Nat) : List (String × Json) → List Char
  | [] => newline level ++ ['}']
  | (k, v) :: ms =>
    ',' :: newline (level + 1) ++ string k ++ ':' :: ' ' :: pretty (level + 1) v ++
      prettyMembers level ms

end

mutual

def compact : Json → List Char
  | .null => "null".toList
  | .bool b => (if b then "true" else "false").toList
  | .number n => n.toText.toList
  | .string s => string s
  | .array [] => ['[', ']']
  | .array (v :: vs) => '[' :: compact v ++ compactItems vs
  | .object [] => ['{', '}']
  | .object ((k, v) :: ms) => '{' :: string k ++ ':' :: compact v ++ compactMembers ms

def compactItems : List Json → List Char
  | [] => [']']
  | v :: vs => ',' :: compact v ++ compactItems vs

def compactMembers : List (String × Json) → List Char
  | [] => ['}']
  | (k, v) :: ms => ',' :: string k ++ ':' :: compact v ++ compactMembers ms

end

end Printer

def toPretty (v : Json) : String :=
  String.ofList (Printer.pretty 0 v)

def toCompact (v : Json) : String :=
  String.ofList (Printer.compact v)

end Snapshots.Json
