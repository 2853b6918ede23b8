import TestCluster.Semantics.ByteOrder

/-!
# Lua values

The values that cross the boundary between the Lua services and the native
`beecluster.core` module. Lua strings are byte strings.
-/

namespace TestCluster

open Semantics

/-- A Lua value. Tables, functions and other references are opaque: only their type
name is ever looked at. -/
inductive LuaValue
  | nil
  | boolean (b : Bool)
  | number (n : ℤ)
  | string (s : Bytes)
  | object (typename : String)
  deriving DecidableEq, Repr

namespace LuaValue

/-- Everything but `nil` and `false` counts as true. -/
def truthy : LuaValue → Bool
  | nil => false
  | boolean b => b
  | _ => true

/-- `lua_typename` of the value. -/
def typename : LuaValue → String
  | nil => "nil"
  | boolean _ => "boolean"
  | number _ => "number"
  | string _ => "string"
  | object typename => typename

end LuaValue

/-- A byte string shown as a C string: up to its first NUL. -/
def cString (bytes : Bytes) : String :=
  String.ofList ((bytes.takeWhile (· ≠ 0)).map fun b => Char.ofNat b.toNat)

end TestCluster
