import TestCluster.BeeCluster.LuaValue
import TestCluster.Semantics.Memory

/-!
# The dispatcher of protobuf messages

`dispatcher.lua`: a table of handlers by the type name of the message. A handler is found in
the table of the service under the last word of the type name.

## Main definitions

* `Dispatcher.reg`, `Dispatcher.regs` — handlers are registered
* `Dispatcher.dispatch` — a message runs its handler, and the response is sent

## Main results

* `Dispatcher.dispatch_of_silent` — handlers without a response are never a reason to raise
-/

namespace TestCluster.Lua

open Semantics

/-- A string of the source, byte by byte. -/
def literal (s : String) : Bytes := s.toList.map fun c => UInt8.ofNat c.toNat

/-- The class `%a` of a pattern. -/
def isalpha (b : UInt8) : Bool := (65 ≤ b && b ≤ 90) || (97 ≤ b && b ≤ 122)

/-- The matches of `string.gmatch(name, "%a+")`. -/
def gmatchAlpha (name : Bytes) : List Bytes :=
  (name.splitOnP fun b => !isalpha b).filter (· ≠ [])

/-- A dispatcher: `map`. The handlers are registered without an object. -/
structure Dispatcher (F : Type) where
  map : Bytes → Option F

namespace Dispatcher

variable {F : Type}

/-- `M.new`. -/
def new : Dispatcher F where
  map _ := none

/-- `self.map[name] = {f = f}`. -/
def bind (d : Dispatcher F) (name : Bytes) (f : F) : Dispatcher F where
  map key := if key = name then some f else d.map key

/-- `M:_reg`: the dispatcher, whether the table `ftable` has a handler, and the name it has
been looked up under. -/
def reg (d : Dispatcher F) (ftable : Bytes → Option F) (name : Bytes) :
    Dispatcher F × Bool × Option Bytes :=
  let funcname := (gmatchAlpha name).getLast?
  match funcname.bind ftable with
  | some f => (d.bind name f, true, funcname)
  | none => (d, false, funcname)

/-- `M:regs`: the dispatcher and `client_names`. `string.sub` raises for a name without a
letter. -/
def regs (ftable : Bytes → Option F) :
    Dispatcher F → List Bytes → Except Fault (Dispatcher F × List Bytes)
  | d, [] => .ok (d, [])
  | d, name :: names =>
    let (d', _ret, funcname) := d.reg ftable name
    match funcname with
    | none => .error (.raised "bad argument #1 to 'sub' (string expected, got nil)")
    | some funcname => do
      let (d'', clientNames) ← regs ftable d' names
      return (d'', if funcname.take 1 ≠ literal "i" then name :: clientNames else clientNames)

section Dispatch

variable {M : Type} (call : F → Int64 → Option M → Except Fault (Option (Bytes × M)))

/-- `M:dispatch`, with what a handler returns or raises in `call`. No service registers the
protocol of a response, and `skynet.redirect` raises for it. -/
def dispatch (d : Dispatcher F) (uid : Int64) (name : Bytes) (msg : Option M) (session : ℤ) :
    Except Fault Unit :=
  match d.map name with
  | none => .ok ()
  | some f => do
    match ← call f uid msg with
    | none => return ()
    | some _rsp =>
      if session > 0 then .error (.raised "attempt to index a nil value (field '?')") else return ()

/-- Where no handler of the dispatcher raises or returns a response, nothing is raised. -/
theorem dispatch_of_silent {d : Dispatcher F} {name : Bytes} {uid : Int64} {msg : Option M}
    (h : ∀ f, d.map name = some f → call f uid msg = .ok none) (session : ℤ) :
    d.dispatch call uid name msg session = .ok () := by
  unfold dispatch
  cases hmap : d.map name with
  | none => rfl
  | some f =>
    have hcall := h f hmap
    simp only [hcall, ok_bind]
    rfl

end Dispatch

end Dispatcher

end TestCluster.Lua
