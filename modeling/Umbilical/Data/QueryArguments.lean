import Umbilical.Data.ResultSpec
import Umbilical.Python.Value

set_option autoImplicit false

/-!
# The arguments of a query

A URL brings its arguments as texts, each with a list of values. They are read into a result spec, after the types of
the fields of what is asked for.
-/

namespace Umbilical.Data

open Python

/-- A key or a value of the arguments. -/
inductive Arg where
  | bytes (bytes : List UInt8)
  | str (text : Text)
  deriving DecidableEq

/-- `bytes2unicode`, or nothing where it raises. -/
def Arg.text? : Arg → Option Text
  | .bytes raw => decodeUtf8 raw
  | .str text => some text

/-! ## Values of the fields -/

/-- What the version of Python brings: its Unicode tables, and how many digits a number may have. -/
structure Interpreter where
  decimal : Char → Option (Fin 10)
  isSpace : Char → Bool
  maxStrDigits : Nat

inductive Value where
  | int (number : Int)
  | text (text : Text)
  | bytes (bytes : List UInt8)
  | bool (truth : Bool)
  deriving DecidableEq

section Int

def asciiDigit (char : Char) : Option Nat := if '0' ≤ char ∧ char ≤ '9' then some (char.toNat - '0'.toNat) else none

def asciiSpace (char : Char) : Bool := char ∈ [' ', '\t', '\n', '\x0b', '\x0c', '\r']

/-- The digits of a number, between which there may be single underscores: their number and their value. -/
def digits : Text → Bool → Nat × Nat → Option (Nat × Nat)
  | [], afterDigit, number => if afterDigit then some number else none
  | char :: text, afterDigit, number =>
    if char = '_' then if afterDigit then digits text false number else none
    else (asciiDigit char).bind fun digit => digits text true (number.1 + 1, number.2 * 10 + digit)

def strip (text : Text) : Text := ((text.dropWhile asciiSpace).reverse.dropWhile asciiSpace).reverse

variable (interpreter : Interpreter)

/-- Decimal digits and spaces of other scripts count as those of ASCII. -/
def transformDecimalAndSpaceToASCII (char : Char) : Char :=
  if char.toNat < 128 then char
  else if interpreter.isSpace char then ' '
  else match interpreter.decimal char with
    | some digit => Char.ofNat ('0'.toNat + digit)
    | none => '?'

/-- `int(arg)`, or nothing where it raises. -/
def int (arg : Arg) : Option Int :=
  let text := match arg with
    | .bytes raw => raw.map fun byte => Char.ofNat byte.toNat
    | .str text => text.map (transformDecimalAndSpaceToASCII interpreter)
  let unsigned (text : Text) : Option Nat := (digits text false (0, 0)).bind fun (count, value) =>
    if count ≤ interpreter.maxStrDigits then some value else none
  match strip text with
  | '-' :: text => (unsigned text).map fun value => -value
  | '+' :: text => (unsigned text).map fun value => value
  | text => (unsigned text).map fun value => value

end Int

/-- `Type`, with the types that cannot be created from a string as one. -/
inductive FieldType where
  | integer
  | dateTime
  | string
  | binary
  | boolean
  | identifier (len : Option Nat)
  | list (of : FieldType)
  | noneOk (nestedType : FieldType)
  | other

/-- `identRe`, whose `$` matches before a newline at the end as well. -/
def matchesIdentRe (val : Text) : Bool :=
  let letter (char : Char) : Bool := 'a' ≤ char ∧ char ≤ 'z' ∨ 'A' ≤ char ∧ char ≤ 'Z'
  let body := if val.getLast? = some '\n' then val.dropLast else val
  match body with
  | [] => false
  | first :: rest => (letter first || first ∈ ['_', '-']) &&
      rest.all fun char => letter char || ('0' ≤ char ∧ char ≤ '9') || char ∈ ['.', '_', '-']

def string2boolean : Arg → Option Bool
  | .str _ => none
  | .bytes raw =>
    let lower := raw.map fun byte => if 65 ≤ byte ∧ byte ≤ 90 then byte + 32 else byte
    if lower ∈ [bytesLiteral "on", bytesLiteral "true", bytesLiteral "yes", bytesLiteral "1"] then some true
    else if lower ∈ [bytesLiteral "off", bytesLiteral "false", bytesLiteral "no", bytesLiteral "0"] then some false
    else none

/-- Nothing where it raises. -/
def FieldType.valueFromString (interpreter : Interpreter) (arg : Arg) : FieldType → Option Value
  | .integer | .dateTime => (int interpreter arg).map .int
  | .string => arg.text?.map .text
  | .binary => some (match arg with
    | .bytes raw => .bytes raw
    | .str text => .text text)
  | .boolean => (string2boolean arg).map .bool
  | .identifier len => arg.text?.bind fun val => len.bind fun len =>
      if matchesIdentRe val ∧ val.length ≤ len ∧ val ≠ [] then some (.text val) else none
  | .list of => of.valueFromString interpreter arg
  | .noneOk nestedType => nestedType.valueFromString interpreter arg
  | .other => none

/-! ## Reading the arguments -/

/-- `fields` of an entity type. -/
abbrev EntityType := List (Text × FieldType)

def EntityType.fieldNames (entityType : EntityType) : List Text := entityType.map Prod.fst

def Op.name : Op → Text
  | .eq => "eq".toList
  | .ne => "ne".toList
  | .lt => "lt".toList
  | .le => "le".toList
  | .gt => "gt".toList
  | .ge => "ge".toList
  | .contains => "contains".toList
  | .in => "in".toList
  | .notin => "notin".toList

/-- The keys of `singular_operators`, or of `plural_operators` where there is not one value. -/
def operatorsFor (count : Nat) : List Op :=
  if count = 1 then [.eq, .ne, .lt, .le, .gt, .ge, .contains, .in, .notin] else [.eq, .ne, .contains, .in, .notin]

inductive QueryError where
  | InvalidQueryParameter (message : Text)
  | IndexError
  | UnicodeDecodeError
  deriving DecidableEq

/-- `Property(field, 'eq', values)` -/
structure Property where
  field : Arg
  values : List Text
  deriving DecidableEq

/-- The result spec that is built from the arguments. -/
structure QuerySpec where
  filters : List (Filter Text Value)
  properties : List Property
  fields : Option (List Text)
  order : Option (List Text)
  limit : Option Int
  offset : Option Int

/-- `rsplit('__', 1)`, or nothing without a `'__'`. -/
def rsplit : Text → Option (Text × Text)
  | [] => none
  | char :: text =>
    match rsplit text with
    | some (field, op) => some (char :: field, op)
    | none =>
      match char, text with
      | '_', '_' :: op => some ([], op)
      | _, _ => none

/-- What an argument is, by its name and the number of its values. -/
inductive Kind where
  | order
  | field
  | limit
  | offset
  | property
  | filter (field : Text) (op : Op) (fieldType : FieldType)
  /-- A name with an operator, where there is no such field or operator -/
  | unknownFilter
  | unrecognized

section Read

variable (interpreter : Interpreter) (entityType : EntityType)

def kindOf (argStr : Text) (count : Nat) : Kind :=
  if argStr = "order".toList then .order
  else if argStr = "field".toList then .field
  else if argStr = "limit".toList then .limit
  else if argStr = "offset".toList then .offset
  else if argStr = "property".toList then .property
  else match entityType.lookup argStr with
    | some fieldType => .filter argStr .eq fieldType
    | none =>
      match rsplit argStr with
      | none => .unrecognized
      | some (field, op) =>
        match (operatorsFor count).find? (·.name = op), entityType.lookup field with
        | some op, some fieldType => .filter field op fieldType
        | _, _ => .unknownFilter

def bytes2unicode (arg : Arg) : Except QueryError Text :=
  match arg.text? with
  | some text => .ok text
  | none => .error .UnicodeDecodeError

def checkField (negOk : Bool) (field : Arg) : Except QueryError Unit := do
  match ← bytes2unicode field with
  | [] => .error .IndexError
  | first :: rest =>
    let k := if first = '-' ∧ negOk then rest else first :: rest
    if k ∉ entityType.fieldNames then
      .error (.InvalidQueryParameter ("no such field '".toList ++ k ++ "'".toList))

def checkFields (negOk : Bool) (fields : List Arg) : Except QueryError Unit := do
  let _ ← fields.mapM (checkField entityType negOk)

/-- `try`, where an exception becomes the documented error -/
def orRefused {α : Type} (found : Option α) (message : Text) : Except QueryError α :=
  match found with
  | some value => .ok value
  | none => .error (.InvalidQueryParameter message)

/-- `f'{arg}'` -/
def Arg.format : Arg → Text
  | .bytes raw => "b'".toList ++ raw.map (fun byte => Char.ofNat byte.toNat) ++ "'".toList
  | .str text => text

/-- What an argument changes in the spec -/
def readKind (arg : Arg) (argStr : Text) (values : List Arg) : Kind → Except QueryError (QuerySpec → QuerySpec)
  | .order => do
    let order ← values.mapM bytes2unicode
    checkFields entityType true (order.map .str)
    return fun spec => { spec with order := some order }
  | .field => do
    checkFields entityType false values
    -- They are decoded after the loop, once more and without an effect but this one.
    let fields ← values.mapM bytes2unicode
    return fun spec => { spec with fields := some fields }
  | .limit => do
    let limit ← orRefused (values.head?.bind (int interpreter)) "invalid limit".toList
    return fun spec => { spec with limit := some limit }
  | .offset => do
    let offset ← orRefused (values.head?.bind (int interpreter)) "invalid offset".toList
    return fun spec => { spec with offset := some offset }
  | .property => do
    let props ← orRefused (values.mapM Arg.text?) ("invalid property value for ".toList ++ arg.format)
    return fun spec => { spec with properties := spec.properties ++ [⟨arg, props⟩] }
  | .filter field op fieldType => do
    let values ← orRefused (values.mapM (fieldType.valueFromString interpreter ·))
      ("invalid filter value for ".toList ++ argStr)
    return fun spec => { spec with filters := spec.filters ++ [⟨field, op, values.map some⟩] }
  | .unknownFilter => .ok id
  | .unrecognized => .error (.InvalidQueryParameter ("unrecognized query parameter '".toList ++ argStr ++ "'".toList))

def readArgument (arg : Arg) (values : List Arg) : Except QueryError (QuerySpec → QuerySpec) := do
  let argStr ← bytes2unicode arg
  readKind interpreter entityType arg argStr values (kindOf entityType argStr values.length)

def lstrip (name : Text) : Text := name.dropWhile (· = '-')

/-- What is refused of the spec as a whole -/
def checkSpec (isCollection : Bool) (spec : QuerySpec) : Except QueryError QuerySpec := do
  let fields := spec.fields.getD []
  if fields ≠ [] ∧ ∃ name ∈ spec.order.getD [], lstrip name ∉ fields then
    .error (.InvalidQueryParameter "cannot order on un-selected fields".toList)
  else if fields ≠ [] ∧ ∃ filter ∈ spec.filters, filter.field ∉ fields then
    .error (.InvalidQueryParameter "cannot filter on un-selected fields".toList)
  else if isCollection = false ∧ spec.filters ≠ [] then
    .error (.InvalidQueryParameter "this is not a collection".toList)
  else return spec

def QuerySpec.start : QuerySpec where
  filters := []
  properties := []
  fields := none
  order := none
  limit := none
  offset := none

def resultspec_from_jsonapi (req_args : List (Arg × List Arg)) (isCollection : Bool) : Except QueryError QuerySpec := do
  let spec ← req_args.foldlM (fun spec (argument : Arg × List Arg) => do
    return (← readArgument interpreter entityType argument.1 argument.2) spec) QuerySpec.start
  checkSpec isCollection spec

end Read

end Umbilical.Data
