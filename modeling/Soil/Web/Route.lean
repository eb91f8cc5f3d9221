import Soil.Bytes
import Mathlib.Data.List.AList
import Mathlib.Data.List.DropRight

/-!
# The router

`route.go` and `HTTPServer.serve`: one tree of nodes per HTTP method, `addRoute`
that builds them, `findRoute` that searches them, and the answer `serve` gives.
-/

namespace Soil.Web

def slash : Byte := '/'.toUInt8
def colon : Byte := ':'.toUInt8
def asterisk : Byte := '*'.toUInt8
def openParen : Byte := '('.toUInt8
def closeParen : Byte := ')'.toUInt8

def splitSlash (s : Text) : List Text := s.splitOn slash

def trimSlash (s : Text) : Text := (s.dropWhile (· == slash)).rdropWhile (· == slash)

structure Regexp where
  compileError : Text → Option Text
  matchString : Text → Text → Bool

/-! ## Nodes -/

inductive NodeType where
  | static
  | reg
  | param
  | any
  deriving DecidableEq, Repr

structure Node (H : Type) where
  typ : NodeType := .static
  path : Text
  children : Text → Option (Node H) := fun _ => none
  starChild : Option (Node H) := none
  paramChild : Option (Node H) := none
  paramName : Text := []
  regexChild : Option (Node H) := none
  regExpr : Option Text := none
  handler : Option H := none

inductive Place where
  | static (key : Text)
  | star
  | param
  | regex

inductive RoutePanic where
  | text (message : Text)
  | nilDereference
  | indexOutOfRange
  deriving DecidableEq, Repr

namespace Node

variable {H : Type}

def put (n : Node H) (place : Place) (child : Node H) : Node H :=
  match place with
  | .static key => { n with children := Function.update n.children key (some child) }
  | .star => { n with starChild := some child }
  | .param => { n with paramChild := some child }
  | .regex => { n with regexChild := some child }

def refusal (message : String) (path : Text) : RoutePanic :=
  .text (utf8 message ++ utf8 " [" ++ path ++ utf8 "]")

def parseParam (path : Text) : Text × Text × Bool :=
  let path := path.drop 1
  let name := path.takeWhile (· != openParen)
  -- `SplitN(path, "(", 2)` has a second part exactly when there is a parenthesis
  match path.dropWhile (· != openParen) with
  | [] => (path, [], false)
  | _ :: exp =>
    if exp.getLast? = some closeParen then (name, exp.dropLast, true) else (path, [], false)

def childOrCreateParam (n : Node H) (path paramName : Text) :
    Except RoutePanic (Place × Node H) :=
  if n.starChild.isSome then
    .error (refusal "web: 非法路由，已有通配符路由。不允许同时注册通配符路由和参数路由" path)
  else if n.regexChild.isSome then
    .error (refusal "web: 非法路由，已有正则路由。不允许同时注册通配符路由和正则路由" path)
  else
    match n.paramChild with
    | none => .ok (.param, { path, paramName, typ := .param })
    | some child =>
      if child.path ≠ path then
        .error (.text (utf8 "web: 非法路由，已有参数。已有[" ++ child.path ++ utf8 "]， 新建[" ++
          path ++ utf8 "]"))
      else .ok (.param, child)

def childOrCreateRegex (re : Regexp) (n : Node H) (path exp paramName : Text) :
    Except RoutePanic (Place × Node H) :=
  if n.starChild.isSome then
    .error (refusal "web: 非法路由，已有通配符路由。不允许同时注册正则路由和通配符路由" path)
  else if n.paramChild.isSome then
    .error (refusal "web: 非法路由，已有参数路由。不允许同时注册正则路由和参数路由" path)
  else
    match n.regexChild with
    | none =>
      match re.compileError exp with
      | some err =>
        .error (.text (utf8 "web: 正则表达式[" ++ exp ++ utf8 "]错误 " ++ err))
      | none => .ok (.regex, { path, paramName, regExpr := some exp, typ := .reg })
    | some child =>
      -- the source compares with the expression and the name of `n`, not of the child
      match n.regExpr with
      | none => .error .nilDereference
      | some own =>
        if own ≠ exp ∨ n.paramName ≠ paramName then
          .error (.text (utf8 "web: 路由冲突，正则路由冲突，已有 " ++ child.path ++ utf8 ", 新注册 " ++ path))
        else .ok (.regex, child)

def childOrCreate (re : Regexp) (n : Node H) (path : Text) : Except RoutePanic (Place × Node H) :=
  if path = [asterisk] then
    if n.paramChild.isSome then
      .error (refusal "web: 非法路由，已有路径参数路由。不允许同时注册通配符路由和参数路由" path)
    else if n.regexChild.isSome then
      .error (refusal "web: 非法路由，已有正则路由。不允许同时注册通配符路由和正则路由" path)
    else .ok (.star, n.starChild.getD { path, typ := .any })
  else
    match path.head? with
    | none => .error .indexOutOfRange
    | some first =>
      if first = colon then
        match parseParam path with
        | (param, _, false) => n.childOrCreateParam path param
        | (param, regex, true) => n.childOrCreateRegex re path regex param
      else .ok (.static path, (n.children path).getD { path, typ := .static })

def childOfNonStatic (re : Regexp) (n : Node H) (path : Text) : Option (Node H) :=
  match n.regexChild with
  | some child =>
    if (child.regExpr.any fun exp => re.matchString exp path) then some child
    else n.paramChild.or n.starChild
  | none => n.paramChild.or n.starChild

def childOf (re : Regexp) (n : Node H) (path : Text) : Option (Node H) :=
  match n.children path with
  | none => n.childOfNonStatic re path
  | some child => some child

/-- The loop of `addRoute` over the segments still to go, and the registration of the
handler at the node it ends in; `conflict` is the panic for a node that has one. -/
def addSegments (re : Regexp) (path : Text) (conflict : Text) (handler : Option H) :
    List Text → Node H → Node H × Option RoutePanic
  | [], n =>
    if n.handler.isSome then (n, some (.text conflict)) else ({ n with handler }, none)
  | segment :: rest, n =>
    if segment = [] then
      (n, some (.text (utf8 "path[" ++ path ++ utf8 "] invaild, 在路由中不能出现 //这种情况")))
    else
      match n.childOrCreate re segment with
      | .error p => (n, some p)
      | .ok (place, child) =>
        let (child, outcome) := addSegments re path conflict handler rest child
        (n.put place child, outcome)

end Node

/-! ## Registration -/

abbrev Trees (H : Type) := AList fun _ : Text => Node H

structure Router (H : Type) where
  trees : Trees H := ∅

structure Route (H : Type) where
  method : Text
  path : Text
  handler : Option H
  deriving DecidableEq

section

variable {H : Type}

def Router.addRoute (re : Regexp) (r : Router H) (method path : Text) (handler : Option H) :
    Router H × Option RoutePanic :=
  if path = [] then (r, some (.text (utf8 "web: empty path")))
  else if path.head? ≠ some slash then
    (r, some (.text (utf8 "web: path must begin with '/'")))
  else if path ≠ [slash] ∧ path.getLast? = some slash then
    (r, some (.text (utf8 "web: path must not end with '/'")))
  else
    let root := (r.trees.lookup method).getD { path := [slash] }
    let (root, outcome) :=
      if path = [slash] then
        root.addSegments re path (utf8 "web: root already has a handler") handler []
      else
        root.addSegments re path (utf8 "web: routing conflict") handler (splitSlash (path.drop 1))
    ({ trees := r.trees.insert method root }, outcome)

def register (re : Regexp) : List (Route H) → Router H × List (Route H)
  | [] => ({}, [])
  | route :: earlier =>
    let before := register re earlier
    match before.1.addRoute re route.method route.path route.handler with
    | (r, none) => (r, route :: before.2)
    | (r, some _) => (r, before.2)

end

/-! ## Search -/

structure MatchInfo (H : Type) where
  node : Option (Node H) := none
  paramPath : Text → Option Text := fun _ => none
  matchedPath : Text := []
  methodNotAllowed : Bool := false
  allowedMethods : List Text := []

section

variable {H : Type}

def MatchInfo.addValue (mi : MatchInfo H) (key value : Text) : MatchInfo H :=
  { mi with paramPath := Function.update mi.paramPath key (some value) }

def MatchInfo.extend (mi : MatchInfo H) (i : Nat) (path : Text) : MatchInfo H :=
  if i = 0 then { mi with matchedPath := slash :: path }
  else { mi with matchedPath := mi.matchedPath ++ slash :: path }

def findSegments (re : Regexp) : Nat → List Text → Node H → MatchInfo H → Option (MatchInfo H)
  | _, [], root, mi => some { mi with node := some root }
  | i, segment :: rest, root, mi =>
    match root.childOf re segment with
    | none =>
      match root.starChild with
      | some star =>
        if star.handler.isSome then some { mi.extend i star.path with node := some star } else none
      | none => none
    | some child =>
      let mi := mi.extend i child.path
      let mi := if child.paramName ≠ [] then mi.addValue child.paramName segment else mi
      if child.typ = .any ∧ child.handler.isSome then some { mi with node := some child }
      else findSegments re (i + 1) rest child mi

def findInTree (re : Regexp) (root : Node H) (path : Text) : Option (MatchInfo H) :=
  if path = [slash] then some { node := some root, matchedPath := [slash] }
  else findSegments re 0 (splitSlash (trimSlash path)) root {}

def Router.findRoute (re : Regexp) (r : Router H) (order : Trees H) (method path : Text) :
    Option (MatchInfo H) :=
  match (r.trees.lookup method).bind (findInTree re · path) with
  | some mi => some mi
  | none =>
    let allowedMethods :=
      (order.entries.filter fun tree =>
        tree.1 ≠ method ∧ (findInTree re tree.2 path).isSome).map Sigma.fst
    if allowedMethods ≠ [] then some { methodNotAllowed := true, allowedMethods }
    else none

/-- What `serve` does with a request: an answer of its own with a status, a body and
perhaps an `Allow` header, or a call of the handler with the path parameters and the
matched route set in the context. -/
inductive Answer (H : Type) where
  | reply (status : Nat) (body : Text) (allow : Option Text)
  | handled (handler : H) (pathParams : Text → Option Text) (matchedRoute : Text)

def joinComma (parts : List Text) : Text := (utf8 ", ").intercalate parts

def serve (re : Regexp) (r : Router H) (order : Trees H) (method path : Text) :
    Answer H :=
  match r.findRoute re order method path with
  | none => .reply 404 (utf8 "404 page not found") none
  | some mi =>
    match mi.node.bind (·.handler) with
    | some handler => .handled handler mi.paramPath mi.matchedPath
    | none =>
      if mi.methodNotAllowed then
        .reply 405 (utf8 "405 method not allowed") (some (joinComma mi.allowedMethods))
      else .reply 404 (utf8 "404 page not found") none

end

end Soil.Web
