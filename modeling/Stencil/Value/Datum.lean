import Stencil.Error
import Stencil.Value.Basic

/-!
What a caller may hand to a template: numbers of every width, texts, sequences, records, tagged variants, and
how each becomes a value. Options and wrappers are transparent, a variant with content becomes a map with its
name as the only key, and a whole number that does not fit into 64 bits with a sign is refused.
-/
namespace Stencil

mutual

inductive Datum where
  | bool (b : Bool)
  | int8 (i : Int8)
  | int16 (i : Int16)
  | int32 (i : Int32)
  | int64 (i : Int64)
  | int128 (i : Int)
  | uint8 (n : UInt8)
  | uint16 (n : UInt16)
  | uint32 (n : UInt32)
  | uint64 (n : UInt64)
  | uint128 (n : Nat)
  | float32 (x : Float32)
  | float64 (x : Float)
  | char (c : Char)
  | str (s : String)
  | bytes (bs : List UInt8)
  | none
  | some (d : Datum)
  | unit
  | unitStruct
  | unitVariant (variant : String)
  | newtypeStruct (d : Datum)
  | newtypeVariant (variant : String) (d : Datum)
  | seq (items : List Datum)
  | tuple (items : List Datum)
  | tupleStruct (items : List Datum)
  | tupleVariant (variant : String) (items : List Datum)
  /-- A map as its owner tells it, a key or a value at a time. -/
  | told (steps : List MapStep)
  | struct (fields : List (String × Datum))
  | structVariant (variant : String) (fields : List (String × Datum))
  /-- Something that says of itself why it cannot be handed over. -/
  | refused (reason : String)

/-- A value belongs to the key that was told right before it. -/
inductive MapStep where
  | key (d : Datum)
  | value (d : Datum)

end

instance : Inhabited Datum := ⟨.unit⟩

namespace Datum

/-- A map of entries. -/
def map (entries : List (Datum × Datum)) : Datum := told (entries.flatMap fun e => [.key e.1, .value e.2])

/-- A map that gives a value before it has given a key. -/
def keylessMap (d : Datum) : Datum := told [.value d]

/-- A variant with content. -/
def tagged (variant : String) (v : Value) : Value := .map [(variant, v)]

/-- The text of a map key: texts, whole numbers and booleans have one. -/
def keyText : Value → Except TemplateError String
  | .str s => .ok s
  | .int i => .ok (Value.int i).text
  | .bool b => .ok (Value.bool b).text
  | v => .error (.serialize ("map keys must be strings, got " ++ v.typeName))

mutual

def toValue : Datum → Except TemplateError Value
  | bool b => .ok (.bool b)
  | int8 i => .ok (.int i.toInt64)
  | int16 i => .ok (.int i.toInt64)
  | int32 i => .ok (.int i.toInt64)
  | int64 i => .ok (.int i)
  | int128 _ => .error (.serialize "i128 is not supported")
  | uint8 n => .ok (.int (Int64.ofNat n.toNat))
  | uint16 n => .ok (.int (Int64.ofNat n.toNat))
  | uint32 n => .ok (.int (Int64.ofNat n.toNat))
  | uint64 n =>
    if n.toNat < 0x8000000000000000 then .ok (.int (Int64.ofNat n.toNat))
    else .error (.serialize ("integer " ++ toString n.toNat ++ " out of range"))
  | uint128 _ => .error (.serialize "u128 is not supported")
  | float32 x => .ok (.float x.toFloat)
  | float64 x => .ok (.float x)
  | char c => .ok (.str (String.singleton c))
  | str s => .ok (.str s)
  | bytes bs => .ok (.list (bs.map fun b => .int (Int64.ofNat b.toNat)))
  | none => .ok .null
  | some d => toValue d
  | unit => .ok .null
  | unitStruct => .ok .null
  | unitVariant variant => .ok (.str variant)
  | newtypeStruct d => toValue d
  | newtypeVariant variant d => (toValue d).map (tagged variant)
  | seq items => (toValues items).map .list
  | tuple items => (toValues items).map .list
  | tupleStruct items => (toValues items).map .list
  | tupleVariant variant items => (toValues items).map fun vs => tagged variant (.list vs)
  | told steps => (addTold Option.none [] steps).map .map
  | struct fields => (addFields [] fields).map .map
  | structVariant variant fields => (addFields [] fields).map fun vs => tagged variant (.map vs)
  | refused reason => .error (.serialize reason)

def toValues : List Datum → Except TemplateError (List Value)
  | [] => .ok []
  | d :: ds =>
    match toValue d with
    | .error e => .error e
    | .ok v => (toValues ds).map (v :: ·)

/-- Adds what is told to a map; `waiting` is the key that has no value yet. A key that comes again keeps its place and
takes the new value. -/
def addTold (waiting : Option String) (table : Keyed Value) : List MapStep → Except TemplateError (Keyed Value)
  | [] => .ok table
  | .key d :: steps =>
    match toValue d with
    | .error e => .error e
    | .ok v =>
      match keyText v with
      | .error e => .error e
      | .ok name => addTold (Option.some name) table steps
  | .value d :: steps =>
    match waiting with
    | Option.none => .error (.serialize "map value without a key")
    | Option.some name =>
      match toValue d with
      | .error e => .error e
      | .ok v => addTold Option.none (Keyed.put name v table) steps

def addFields (table : Keyed Value) : List (String × Datum) → Except TemplateError (Keyed Value)
  | [] => .ok table
  | (name, d) :: fields =>
    match toValue d with
    | .error e => .error e
    | .ok v => addFields (Keyed.put name v table) fields

end

mutual

/-- A value as a datum that tells its kind: null is a unit variant, every other value a variant named for its
kind. -/
def ofValue : Value → Datum
  | .null => unitVariant "Null"
  | .bool b => newtypeVariant "Bool" (bool b)
  | .int i => newtypeVariant "Int" (int64 i)
  | .float x => newtypeVariant "Float" (float64 x)
  | .str s => newtypeVariant "Str" (str s)
  | .list items => newtypeVariant "List" (seq (ofValues items))
  | .map entries => newtypeVariant "Map" (map (ofEntries entries))

def ofValues : List Value → List Datum
  | [] => []
  | v :: vs => ofValue v :: ofValues vs

def ofEntries : List (String × Value) → List (Datum × Datum)
  | [] => []
  | (key, v) :: entries => (str key, ofValue v) :: ofEntries entries

end

/-- Converts to a value first, and describes that value by kind. -/
def described (d : Datum) : Datum :=
  match toValue d with
  | .ok v => ofValue v
  | .error e => refused e.message

end Datum

end Stencil
