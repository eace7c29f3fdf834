import Mathlib.Algebra.Ring.Nat
import Mathlib.Data.List.Induction

/-! # JSON documents

The value model of a JSON library: what a parsed document is, how its members
are read and written, and the compact text that dumping it produces. A string
is a sequence of Unicode scalar values, so it is valid UTF-8 by construction,
and its size is counted in bytes. An object lists its members; the first one
of a key is the one that counts, and writing keeps keys in order.
-/

namespace PiSecure

/-- A byte string. -/
abbrev Bytes := List UInt8

/-- The text of a string, one entry for each Unicode scalar value. -/
abbrev Text := List Char

namespace Text

/-- The UTF-8 bytes of a text. -/
def bytes (text : Text) : Bytes := text.flatMap String.utf8EncodeChar

/-- The number of bytes of a text. -/
def size (text : Text) : Nat := (text.map Char.utf8Size).sum

@[simp] theorem size_nil : size [] = 0 := rfl

@[simp] theorem size_cons (c : Char) (text : Text) : size (c :: text) = c.utf8Size + size text := by
  simp only [size, List.map_cons, List.sum_cons]

@[simp] theorem size_append (first second : Text) :
    size (first ++ second) = size first + size second := by
  simp only [size, List.map_append, List.sum_append]

theorem length_bytes (text : Text) : (bytes text).length = size text := by
  induction text with
  | nil => rfl
  | cons c rest ih =>
      rw [size_cons, ← ih]
      simp only [bytes, List.flatMap_cons, List.length_append, String.length_utf8EncodeChar]

theorem length_le_size (text : Text) : text.length ≤ size text := by
  induction text with
  | nil => exact Nat.le_refl 0
  | cons c rest ih =>
      rw [size_cons, List.length_cons]
      have positive := c.utf8Size_pos
      omega

end Text

/-- A parsed JSON document. A number is unsigned, negative, or a double; a
double is the text that dumping it writes together with its integral part. -/
inductive Json where
  | null
  | bool (value : Bool)
  | unsigned (value : UInt64)
  | negative (value : Int64)
  | double (text : Text) (whole : Int)
  | string (value : Text)
  | array (items : List Json)
  | object (members : List (String × Json))

namespace Json

/-- The value of a key among the members of an object. -/
def lookup (key : String) : List (String × Json) → Option Json
  | [] => none
  | (name, value) :: rest => if name = key then some value else lookup key rest

/-- Write a member, keeping keys in order. -/
def assign (key : String) (value : Json) : List (String × Json) → List (String × Json)
  | [] => [(key, value)]
  | (name, old) :: rest =>
      if name = key then (key, value) :: rest
      else if key < name then (key, value) :: (name, old) :: rest
      else (name, old) :: assign key value rest

theorem lookup_assign (key query : String) (value : Json) (members : List (String × Json)) :
    lookup query (assign key value members) =
      if query = key then some value else lookup query members := by
  induction members with
  | nil => simp only [assign, lookup, eq_comm]
  | cons member rest ih =>
      obtain ⟨name, old⟩ := member
      by_cases same : name = key
      · subst same
        by_cases asked : query = name
        · simp only [assign, lookup, asked, ↓reduceIte]
        · simp only [assign, lookup, asked, Ne.symm asked, ↓reduceIte]
      · simp only [assign, same, ↓reduceIte]
        split
        · by_cases asked : query = key
          · simp only [lookup, asked, ↓reduceIte]
          · simp only [lookup, asked, Ne.symm asked, ↓reduceIte]
        · by_cases asked : query = key
          · subst asked
            simp only [lookup, same, ↓reduceIte, ih]
          · simp only [lookup, ih, asked, ↓reduceIte]

theorem lookup_append (key : String) (front back : List (String × Json)) :
    lookup key (front ++ back) = (lookup key front).or (lookup key back) := by
  induction front with
  | nil => rfl
  | cons member rest ih =>
      rw [List.cons_append, lookup, lookup]
      split
      · rfl
      · exact ih

/-- The member of an object; nothing for a document that is no object. -/
def get? (doc : Json) (key : String) : Option Json :=
  match doc with
  | object members => lookup key members
  | _ => none

/-- The document with a member written. -/
def set (doc : Json) (key : String) (value : Json) : Json :=
  match doc with
  | object members => object (assign key value members)
  | other => other

/-- The object with the given members. -/
def ofMembers (members : List (String × Json)) : Json :=
  object (members.foldl (fun all member => assign member.1 member.2 all) [])

def isObject : Json → Bool
  | object _ => true
  | _ => false

def isNull : Json → Bool
  | null => true
  | _ => false

@[simp] theorem isObject_ofMembers (members : List (String × Json)) :
    (ofMembers members).isObject = true := rfl

@[simp] theorem isObject_set (doc : Json) (key : String) (value : Json) :
    (doc.set key value).isObject = doc.isObject := by
  cases doc <;> rfl

/-- Reading back a written member. -/
theorem get?_set (doc : Json) (isObject : doc.isObject = true) (key query : String) (value : Json) :
    (doc.set key value).get? query = if query = key then some value else doc.get? query := by
  cases doc with
  | object members => exact lookup_assign key query value members
  | _ => cases isObject

private theorem lookup_foldl_assign (query : String) (members : List (String × Json)) :
    ∀ all, lookup query (members.foldl (fun all member => assign member.1 member.2 all) all) =
      match lookup query members.reverse with
      | some value => some value
      | none => lookup query all := by
  induction members using List.reverseRecOn with
  | nil => intro all; rfl
  | append_singleton front last ih =>
      intro all
      obtain ⟨key, value⟩ := last
      rw [List.foldl_append, List.foldl_cons, List.foldl_nil, lookup_assign, ih,
        List.reverse_append, List.reverse_singleton, List.singleton_append]
      by_cases asked : query = key
      · simp only [lookup, asked, ↓reduceIte]
      · simp only [lookup, asked, Ne.symm asked, ↓reduceIte]

/-- A member of a built object is the last one written under its key. -/
theorem get?_ofMembers (members : List (String × Json)) (query : String) :
    (ofMembers members).get? query = lookup query members.reverse := by
  change lookup query (members.foldl (fun all member => assign member.1 member.2 all) []) = _
  rw [lookup_foldl_assign]
  cases lookup query members.reverse <;> rfl

@[simp] theorem isObject_foldl_set (doc : Json) (members : List (String × Json)) :
    (members.foldl (fun doc member => doc.set member.1 member.2) doc).isObject = doc.isObject := by
  induction members generalizing doc with
  | nil => rfl
  | cons member rest ih => rw [List.foldl_cons, ih, isObject_set]

/-- A member of a document with several members written: the last one written
under its key, or the one it had. -/
theorem get?_foldl_set (doc : Json) (isObject : doc.isObject = true)
    (members : List (String × Json)) (query : String) :
    (members.foldl (fun doc member => doc.set member.1 member.2) doc).get? query =
      (lookup query members.reverse).or (doc.get? query) := by
  induction members using List.reverseRecOn with
  | nil => rfl
  | append_singleton front last ih =>
      obtain ⟨key, value⟩ := last
      rw [List.foldl_append, List.foldl_cons, List.foldl_nil,
        get?_set _ (by rw [isObject_foldl_set, isObject]), ih, List.reverse_append,
        List.reverse_singleton, List.singleton_append, lookup]
      by_cases asked : query = key
      · subst asked
        simp only [↓reduceIte, Option.some_or]
      · simp only [asked, Ne.symm asked, ↓reduceIte]

theorem isObject_of_get? {doc value : Json} {key : String} (found : doc.get? key = some value) :
    doc.isObject = true := by
  cases doc with
  | object members => rfl
  | _ => cases found

/-! ## Typed members -/

def asText? : Json → Option Text
  | string value => some value
  | _ => none

def asUnsigned? : Json → Option UInt64
  | unsigned value => some value
  | _ => none

def asArray? : Json → Option (List Json)
  | array items => some items
  | _ => none

/-- A member that is a string. -/
def text? (doc : Json) (key : String) : Option Text := (doc.get? key).bind asText?

/-- A member that is an unsigned number. -/
def unsigned? (doc : Json) (key : String) : Option UInt64 := (doc.get? key).bind asUnsigned?

/-- A member that is an array. -/
def array? (doc : Json) (key : String) : Option (List Json) := (doc.get? key).bind asArray?

/-- A member that is an object. -/
def object? (doc : Json) (key : String) : Option Json :=
  (doc.get? key).bind fun value => if value.isObject then some value else none

/-- Conversion to a 32-bit number: any number or Boolean, reduced modulo `2^32`. -/
def toUInt32? : Json → Option UInt32
  | unsigned value => some value.toUInt32
  | negative value => some (UInt32.ofInt value.toInt)
  | double _ whole => some (UInt32.ofInt whole)
  | bool value => some (if value then 1 else 0)
  | _ => none

/-- Conversion to a 64-bit number: any number, reduced modulo `2^64`. -/
def toUInt64? : Json → Option UInt64
  | unsigned value => some value
  | negative value => some (UInt64.ofInt value.toInt)
  | double _ whole => some (UInt64.ofInt whole)
  | _ => none

/-- A member converted by `read`, or the default when it is absent. A member
of the wrong type, or a document that is no object, is an exception. -/
def valueOr {α : Type} (doc : Json) (key : String) (read : Json → Option α) (fallback : α) :
    Option α :=
  match doc with
  | object members =>
      match lookup key members with
      | some value => read value
      | none => some fallback
  | _ => none

theorem valueOr_of_get? {α : Type} {doc value : Json} {key : String}
    (found : doc.get? key = some value) (read : Json → Option α) (fallback : α) :
    doc.valueOr key read fallback = read value := by
  cases doc with
  | object members =>
      change lookup key members = some value at found
      simp only [valueOr, found]
  | _ => cases found

theorem valueOr_of_absent {α : Type} {doc : Json} (isObject : doc.isObject = true) {key : String}
    (absent : doc.get? key = none) (read : Json → Option α) (fallback : α) :
    doc.valueOr key read fallback = some fallback := by
  cases doc with
  | object members =>
      change lookup key members = none at absent
      simp only [valueOr, absent]
  | _ => cases isObject

/-! ## Dumping -/

/-- The decimal digits of a number. -/
def decimal (n : Nat) : Text := Nat.toDigits 10 n

/-- One character of a dumped string. -/
def escapeChar (c : Char) : Text :=
  if c = '"' then ['\\', '"']
  else if c = '\\' then ['\\', '\\']
  else if c.toNat = 8 then ['\\', 'b']
  else if c.toNat = 12 then ['\\', 'f']
  else if c.toNat = 10 then ['\\', 'n']
  else if c.toNat = 13 then ['\\', 'r']
  else if c.toNat = 9 then ['\\', 't']
  else if c.toNat < 32 then
    ['\\', 'u', '0', '0', Nat.digitChar (c.toNat / 16), Nat.digitChar (c.toNat % 16)]
  else [c]

/-- A dumped string, with its quotes. -/
def quote (text : Text) : Text := '"' :: (text.flatMap escapeChar ++ ['"'])

mutual

/-- The compact text of a document. -/
def dump : Json → Text
  | null => "null".toList
  | bool value => if value then "true".toList else "false".toList
  | unsigned value => decimal value.toNat
  | negative value =>
      if value.toInt < 0 then '-' :: decimal value.toInt.natAbs else decimal value.toInt.natAbs
  | double text _ => text
  | string value => quote value
  | array items => '[' :: (dumpItems items ++ [']'])
  | object members => '{' :: (dumpMembers members ++ ['}'])

/-- The items of an array, with commas between them. -/
def dumpItems : List Json → Text
  | [] => []
  | [item] => dump item
  | item :: next :: rest => dump item ++ ',' :: dumpItems (next :: rest)

/-- The members of an object, with commas between them. -/
def dumpMembers : List (String × Json) → Text
  | [] => []
  | [(key, value)] => quote key.toList ++ ':' :: dump value
  | (key, value) :: next :: rest =>
      quote key.toList ++ ':' :: (dump value ++ ',' :: dumpMembers (next :: rest))

end

/-- The number of bytes of the compact text. -/
def dumpSize (doc : Json) : Nat := doc.dump.size

end Json

end PiSecure
