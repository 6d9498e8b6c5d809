import Snapshots.Json.Reading
import Snapshots.Text.Quoted

/-! # Typed decoding

Values of the library's types are read from what a text says. The first problem in the order
of the text wins; members that are missing are reported after the whole object, in the order
of the declaration. A record may be written as an object or as an array of its fields.
-/

namespace Snapshots.Json

open Text

/-- What was found in place of the expected kind of value. -/
inductive Found where
  | null
  | bool (b : Bool)
  | number (n : Number)
  | string (s : String)
  | sequence
  | map
  deriving DecidableEq, Repr

def Found.text : Found → String
  | null => "null"
  | bool b => "boolean `" ++ toString b ++ "`"
  | number (.binary x) => "floating point `" ++ (Number.binary x).toText ++ "`"
  | number n => "integer `" ++ n.toText ++ "`"
  | string s => "string " ++ quoted s
  | sequence => "sequence"
  | map => "map"

inductive Mismatch where
  | wrongType (found : Found) (expected : String)
  | wrongValue (found : Found) (expected : String)
  | wrongLength (length : Nat) (expected : String)
  | missingField (name : String)
  | duplicateField (name : String)
  | unknownVariant (name : String) (expected : List String)
  | other (message : String)
  deriving DecidableEq, Repr

def Mismatch.message : Mismatch → String
  | wrongType found expected => "invalid type: " ++ found.text ++ ", expected " ++ expected
  | wrongValue found expected => "invalid value: " ++ found.text ++ ", expected " ++ expected
  | wrongLength n expected => "invalid length " ++ toString n ++ ", expected " ++ expected
  | missingField name => "missing field `" ++ name ++ "`"
  | duplicateField name => "duplicate field `" ++ name ++ "`"
  | unknownVariant name expected =>
    "unknown variant `" ++ name ++ "`, expected one of " ++
      ", ".intercalate (expected.map fun e => "`" ++ e ++ "`")
  | other message => message

inductive DecodeError where
  | fault (fault : Fault)
  | mismatch (mismatch : Mismatch)
  deriving DecidableEq, Repr

abbrev Decoder (α : Type) := Reading → Except DecodeError α

def wrongType {α : Type} (found : Found) (expected : String) : Except DecodeError α :=
  .error (.mismatch (.wrongType found expected))

/-- The result of a part of the text that may have a fault. -/
def sound {α : Type} : Except Fault α → Except DecodeError α
  | .ok a => .ok a
  | .error f => .error (.fault f)

namespace Reading

/-- Refuses whatever is there as not being what was expected. -/
def refuse {α : Type} (expected : String) : Decoder α
  | .null => wrongType .null expected
  | .bool b => wrongType (.bool b) expected
  | .number n => do wrongType (.number (← sound n)) expected
  | .string s => do wrongType (.string (← sound s)) expected
  | .array .. => wrongType .sequence expected
  | .object .. => wrongType .map expected
  | .broken cut => .error (.fault cut.read)

mutual

/-- Passes over a value that nobody asks for. -/
def skip : Reading → Except Fault Unit
  | .array items ending => do
    skipItems items
    skipEnding ending
  | .object members ending => do
    skipMembers members
    skipEnding ending
  | .broken cut => .error cut.skip
  | _ => .ok ()

def skipItems : List Reading → Except Fault Unit
  | [] => .ok ()
  | r :: rs => do
    r.skip
    skipItems rs

def skipMembers : List (Except Fault String × Reading) → Except Fault Unit
  | [] => .ok ()
  | (_, r) :: ms => do
    r.skip
    skipMembers ms

def skipEnding : Ending → Except Fault Unit
  | .broken cut => .error cut.skip
  | _ => .ok ()

end

/-- The end of a list, by a reader. -/
def close : Ending → Except DecodeError Unit
  | .broken cut => .error (.fault cut.read)
  | _ => .ok ()

end Reading

namespace Decoder

open Reading (refuse close)

def string (expected : String) : Decoder String
  | .string s => sound s
  | r => refuse expected r

def bool : Decoder Bool
  | .bool b => .ok b
  | r => refuse "a boolean" r

def word (expected : String) : Decoder Nat
  | .number n => do
    match ← sound n with
    | .natural n => .ok n
    | .negative n => .error (.mismatch (.wrongValue (.number (.negative n)) expected))
    | n => wrongType (.number n) expected
  | r => refuse expected r

def optional {α : Type} (decoder : Decoder α) : Decoder (Option α)
  | .null => .ok none
  | r => (decoder r).map some

def list {α : Type} (decoder : Decoder α) : Decoder (List α)
  | .array items ending => do
    let values ← items.mapM decoder
    close ending
    .ok values
  | r => refuse "a sequence" r

/-- Members in the order of their keys, the last of a key kept. -/
def insertMember {α : Type} (key : String) (value : α) :
    List (String × α) → List (String × α)
  | [] => [(key, value)]
  | (k, v) :: ms =>
    if key = k then (key, value) :: ms
    else if key < k then (key, value) :: (k, v) :: ms
    else (k, v) :: insertMember key value ms

/-- An object of values of one type, in the order of its keys. -/
def map {α : Type} (decoder : Decoder α) : Decoder (List (String × α))
  | .object members ending => do
    let pairs ← members.mapM fun (k, r) => do
      let k ← sound k
      let v ← decoder r
      .ok (k, v)
    close ending
    .ok (pairs.foldl (fun ms (k, v) => insertMember k v ms) [])
  | r => refuse "a map" r

/-- One of several words, also written as an object of the word and null. -/
def variant (variants : List String) : Decoder String
  | .string s => do choose (← sound s)
  | .object [] (.broken cut) => .error (.fault cut.read)
  | .object [] _ => .error (.fault .malformed)
  | .object ((key, r) :: more) ending => do
    let name ← choose (← sound key)
    match r with
    | .null => .ok ()
    | r => refuse "unit" r
    match more, ending with
    | [], .broken cut => .error (.fault cut.read)
    | [], _ => .ok name
    | _ :: _, _ => .error (.fault .malformed)
  | .broken cut => .error (.fault cut.read)
  | _ => .error (.fault .malformed)
where
  choose (s : String) : Except DecodeError String :=
    if variants.contains s then .ok s else .error (.mismatch (.unknownVariant s variants))

end Decoder

/-- A field of a record: its name, other names for it, whether it may be missing, and what its
value has to be. -/
structure FieldRule where
  name : String
  aliases : List String := []
  required : Bool := true
  check : Reading → Except DecodeError Unit

def FieldRule.of {α : Type} (name : String) (decoder : Decoder α) : FieldRule :=
  ⟨name, [], true, fun r => (decoder r).map fun _ => ()⟩

def FieldRule.orNamed (rule : FieldRule) (name : String) : FieldRule :=
  { rule with aliases := rule.aliases ++ [name] }

/-- The rule for a field that may be missing. -/
def FieldRule.mayMiss (rule : FieldRule) : FieldRule :=
  { rule with required := false }

def FieldRule.hasName (rule : FieldRule) (key : String) : Bool :=
  rule.name == key || rule.aliases.contains key

/-- A record: the words for its type, and its fields in the order of their declaration. -/
structure RecordRule where
  title : String
  fields : List FieldRule

/-- How a record of the type is called when it is too short. -/
def RecordRule.sized (rule : RecordRule) : String :=
  let n := rule.fields.length
  rule.title ++ " with " ++ toString n ++ (if n = 1 then " element" else " elements")

namespace Reading

abbrev Fields := List (Option Reading)

/-- Goes through the members of an object, with the keys of the fields that it has met. -/
def checkMembers (fields : List FieldRule) :
    List String → List (Except Fault String × Reading) → Except DecodeError Unit
  | _, [] => .ok ()
  | seen, (key, r) :: ms => do
    let key ← sound key
    match fields.find? (·.hasName key) with
    | some field => do
      if seen.contains field.name then .error (.mismatch (.duplicateField field.name))
      field.check r
      checkMembers fields (field.name :: seen) ms
    | none => do
      sound r.skip
      checkMembers fields seen ms

/-- The value of a field in the members of an object. -/
def member? (field : FieldRule) (members : List (Except Fault String × Reading)) :
    Option Reading :=
  (members.find? fun (key, _) => match key with
    | .ok key => field.hasName key
    | .error _ => false).map (·.2)

/-- Goes through the items of an array that stand for fields. -/
def checkItems : List FieldRule → List Reading → Except DecodeError Unit
  | field :: fields, r :: rs => do
    field.check r
    checkItems fields rs
  | _, _ => .ok ()

/-- The index of the first field from an index on that has to be given. -/
def firstRequired? (fields : List FieldRule) (start : Nat) : Option Nat :=
  ((fields.drop start).findIdx? (·.required)).map (start + ·)

/-- An array of fields has to be closed behind the last of them. -/
def closeFields (count : Nat) (items : List Reading) (ending : Ending) :
    Except DecodeError Unit :=
  if count < items.length then
    match ending with
    | .whole => .error (.mismatch (.wrongLength items.length "fewer elements in array"))
    | _ => .error (.fault .malformed)
  else close ending

/-- The values of the fields of a record. -/
def fields (rule : RecordRule) : Decoder Fields
  | .object members ending => do
    checkMembers rule.fields [] members
    close ending
    let values := rule.fields.map fun field => member? field members
    match (rule.fields.zip values).find? fun (field, v) => field.required && v.isNone with
    | some (field, _) => .error (.mismatch (.missingField field.name))
    | none => .ok values
  | .array items ending => do
    checkItems rule.fields items
    let n := rule.fields.length
    match firstRequired? rule.fields items.length with
    | some i =>
      if items.length < n then do
        -- The end of the array is met before the first missing item.
        close ending
        .error (.mismatch (.wrongLength i rule.sized))
      else .ok ()
    | none => .ok ()
    closeFields n items ending
    .ok ((items.take n).map some ++ List.replicate (n - items.length) none)
  | r => refuse rule.title r

def Fields.get {α : Type} (fs : Fields) (i : Nat) (decoder : Decoder α) :
    Except DecodeError α :=
  match fs[i]? with
  | some (some r) => decoder r
  | _ => .error (.mismatch (.missingField ""))

def Fields.getD {α : Type} (fs : Fields) (i : Nat) (decoder : Decoder α) (default : α) :
    Except DecodeError α :=
  match fs[i]? with
  | some (some r) => decoder r
  | _ => .ok default

def decodeText {α : Type} (decoder : Decoder α) (s : String) : Except DecodeError α := do
  let (r, more) := ofText s
  let v ← decoder r
  if more then .error (.fault .malformed)
  .ok v

mutual

/-- A value as it stands, nested at most so many levels deep. -/
def toJson (depth : Nat) : Reading → Except Fault Json
  | .null => .ok .null
  | .bool b => .ok (.bool b)
  | .number n => n.map .number
  | .string s => s.map .string
  | .array items ending =>
    match depth with
    | 0 => .error .malformed
    | depth + 1 => do
      let vs ← toJsonItems depth items
      closeJson ending
      .ok (.array vs)
  | .object members ending =>
    match depth with
    | 0 => .error .malformed
    | depth + 1 => do
      let ms ← toJsonMembers depth members
      closeJson ending
      .ok (.object ms)
  | .broken cut => .error cut.read

def toJsonItems (depth : Nat) : List Reading → Except Fault (List Json)
  | [] => .ok []
  | r :: rs => do
    let v ← toJson depth r
    let vs ← toJsonItems depth rs
    .ok (v :: vs)

def toJsonMembers (depth : Nat) :
    List (Except Fault String × Reading) → Except Fault (List (String × Json))
  | [] => .ok []
  | (k, r) :: ms => do
    let k ← k
    let v ← toJson depth r
    let vs ← toJsonMembers depth ms
    .ok ((k, v) :: vs)

def closeJson : Ending → Except Fault Unit
  | .broken cut => .error cut.read
  | _ => .ok ()

end

end Reading

def depthLimit : Nat := 127

def ofText (s : String) : Except Fault Json := do
  let (r, more) := Reading.ofText s
  let v ← r.toJson depthLimit
  if more then .error .malformed
  .ok v

end Snapshots.Json
