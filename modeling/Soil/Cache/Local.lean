import Soil.Bytes
import Soil.LinkedList
import Mathlib.Data.List.AList

/-!
# The local cache

`BuildInMapCache`: a map from keys to items, a doubly linked list of the items in the
order of their use, and a byte counter.  An item has an address; the map holds
addresses, and the list is in the pointers of the items.
-/

namespace Soil.Cache

abbrev Ref := Nat

structure Item (V : Type) where
  key : Text
  value : Option V
  deadline : Option Int := none
  size : UInt32 := 0

def Item.deadlineBefore {V : Type} (i : Item V) (t : Int) : Bool := i.deadline.any (· < t)

def head : Ref := 0
def tail : Ref := 1

structure BuildInMapCache (V : Type) where
  data : AList fun _ : Text => Ref
  items : Ref → Item V
  links : Links Ref
  allocated : Ref
  size : UInt32
  capacity : UInt32
  evicted : List (Text × Option V)

structure Sizes (V : Type) where
  key : Text → Except Text UInt32
  value : Option V → Except Text UInt32

inductive Result (V : Type) where
  | done
  | value (v : Option V)
  | error (message : Text)
  | nilDereference
  | spins
  deriving DecidableEq, Repr

def newErrKeyNotFound (key : Text) : Text := utf8 "cache：键[" ++ key ++ utf8 "]不存在\n"

variable {V : Type}

def newBuildInMapCache (V : Type) (capacity : UInt32) : BuildInMapCache V where
  data := ∅
  items r := { key := if r = head then utf8 "head" else utf8 "tail", value := none }
  links :=
    { next := fun r => if r = head then some tail else none
      prev := fun r => if r = tail then some head else none }
  allocated := 2
  size := 0
  capacity := capacity
  evicted := []

namespace BuildInMapCache

/-! ## The list -/

def withLinks (c : BuildInMapCache V) :
    Except (Links Ref) (Links Ref) → Except (BuildInMapCache V) (BuildInMapCache V)
  | .ok links => .ok { c with links }
  | .error links => .error { c with links }

def addToHead (c : BuildInMapCache V) (node : Ref) :
    Except (BuildInMapCache V) (BuildInMapCache V) :=
  c.withLinks (c.links.insertAfter head node)

def removeNode (c : BuildInMapCache V) (node : Ref) :
    Except (BuildInMapCache V) (BuildInMapCache V) :=
  c.withLinks (c.links.remove node)

def moveToHead (c : BuildInMapCache V) (node : Ref) :
    Except (BuildInMapCache V) (BuildInMapCache V) := do
  let c ← c.removeNode node
  c.addToHead node

def removeTail (c : BuildInMapCache V) :
    Except (BuildInMapCache V) (Ref × BuildInMapCache V) :=
  match c.links.prev tail with
  | none => .error c
  | some node => do
    let c ← c.removeNode node
    return (node, c)

/-! ## `Set` -/

def setItem (c : BuildInMapCache V) (key : Text) (val : Option V) (expiration now : Int)
    (pairSize : UInt32) : BuildInMapCache V × Result V :=
  let node : Item V :=
    { key, value := val, size := pairSize
      deadline := if expiration > 0 then some (now + expiration) else none }
  let c :=
    { c with
      items := Function.update c.items c.allocated node
      data := c.data.insert key c.allocated
      allocated := c.allocated + 1 }
  match c.addToHead (c.allocated - 1) with
  | .error c => (c, .nilDereference)
  | .ok c => ({ c with size := c.size + pairSize }, .done)

def evict (pairSize : UInt32) :
    Nat → Option Ref → UInt32 → BuildInMapCache V → BuildInMapCache V × Option (Result V)
  | 0, _, _, c => (c, some .spins)
  | fuel + 1, p, margin, c =>
    if margin < pairSize then
      match p with
      | none => (c, some .nilDereference)
      | some p =>
        let margin := margin + (c.items p).size
        match c.removeTail with
        | .error c => (c, some .nilDereference)
        | .ok (n, c) =>
          let c :=
            { c with
              data := c.data.erase (c.items n).key
              size := c.size - (c.items p).size }
          evict pairSize fuel (c.links.prev p) margin c
    else (c, none)

def set (sizes : Sizes V) (c : BuildInMapCache V) (key : Text) (val : Option V)
    (expiration now : Int) : BuildInMapCache V × Result V :=
  match sizes.key key, sizes.value val with
  | .error err, _ => (c, .error err)
  | .ok _, .error err => (c, .error err)
  | .ok keySize, .ok valSize =>
    let pairSize := keySize + valSize
    match c.data.lookup key with
    | some node =>
      let c :=
        { c with items := Function.update c.items node { c.items node with value := val } }
      match c.moveToHead node with
      | .error c => (c, .nilDereference)
      | .ok c => c.setItem key val expiration now pairSize
    | none =>
      if c.capacity < c.size + pairSize then
        match c.evict pairSize (c.allocated + 1) (c.links.prev tail) (c.capacity - c.size) with
        | (c, none) => c.setItem key val expiration now pairSize
        | (c, some fault) => (c, fault)
      else c.setItem key val expiration now pairSize

/-! ## `Get`, `Delete` and the sweep -/

def deleteItem (c : BuildInMapCache V) (key : Text) : BuildInMapCache V :=
  match c.data.lookup key with
  | none => c
  | some i =>
    { c with
      data := c.data.erase key
      evicted := c.evicted ++ [(key, (c.items i).value)] }

def getRead (c : BuildInMapCache V) (key : Text) (now : Int) : Option (Result V) :=
  match c.data.lookup key with
  | none => some (.error (newErrKeyNotFound key))
  | some node =>
    if (c.items node).deadlineBefore now then none else some (.value (c.items node).value)

def getLocked (c : BuildInMapCache V) (key : Text) (now : Int) : BuildInMapCache V × Result V :=
  match c.data.lookup key with
  | none => (c, .error (newErrKeyNotFound key))
  | some node =>
    if (c.items node).deadlineBefore now then
      (c.deleteItem key, .error (newErrKeyNotFound key))
    else
      match c.moveToHead node with
      | .error c => (c, .nilDereference)
      | .ok c => (c, .value (c.items node).value)

def delete (c : BuildInMapCache V) (key : Text) : BuildInMapCache V × Result V :=
  match c.data.lookup key with
  | none => (c, .error (newErrKeyNotFound key))
  | some _ => (c.deleteItem key, .done)

def sweep (t : Int) : List Text → BuildInMapCache V → BuildInMapCache V
  | [], c => c
  | key :: rest, c =>
    match c.data.lookup key with
    | none => sweep t rest c
    | some v => sweep t rest (if (c.items v).deadlineBefore t then c.deleteItem key else c)

/-! ## Runs -/

end BuildInMapCache

inductive Op (V : Type) where
  | set (key : Text) (val : Option V) (expiration now : Int)
  | getRead (key : Text) (now : Int)
  | getLocked (key : Text) (now : Int)
  | delete (key : Text)
  | sweep (t : Int) (visited : List Text)

def Op.run (sizes : Sizes V) (c : BuildInMapCache V) : Op V → BuildInMapCache V
  | .set key val expiration now => (c.set sizes key val expiration now).1
  | .getRead _ _ => c
  | .getLocked key now => (c.getLocked key now).1
  | .delete key => (c.delete key).1
  | .sweep t visited => c.sweep t (visited.take 1001)

def exec (sizes : Sizes V) (c : BuildInMapCache V) (ops : List (Op V)) : BuildInMapCache V :=
  ops.foldl (Op.run sizes) c

end Soil.Cache
