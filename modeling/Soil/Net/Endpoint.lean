import Soil.Net.Stream

/-!
# Endpoints of the client

The part of `endpoint.go` and `client.go` that decides which endpoint a call goes to:
the health of an `endpointNode`, what `doCall` makes of the two places where an
attempt can fail, and the choice of the candidates in `pickNode`.  Clock readings are
nanoseconds since 1970; the balancer is a parameter.
-/

namespace Soil.Net

structure Endpoint where
  addr : String
  weight : Int
  deriving DecidableEq, Repr

structure EndpointNode where
  ep : Endpoint
  fails : Int32 := 0
  downUntil : Int := 0
  deriving DecidableEq

structure HealthOptions where
  threshold : Int
  cooldown : Int
  deriving DecidableEq, Repr

def HealthOptions.effectiveThreshold (o : HealthOptions) : Int :=
  if o.threshold ≤ 0 then 2 else o.threshold

def HealthOptions.effectiveCooldown (o : HealthOptions) : Int :=
  if o.cooldown ≤ 0 then 5000000000 else o.cooldown

def EndpointNode.healthy (n : EndpointNode) (now : Nat) : Bool :=
  if n.downUntil = 0 then true else n.downUntil ≤ now

def EndpointNode.markSuccess (n : EndpointNode) : EndpointNode :=
  { n with fails := 0, downUntil := 0 }

def EndpointNode.markFailure (o : HealthOptions) (now : Nat) (n : EndpointNode) : EndpointNode :=
  let f := n.fails + 1
  if o.effectiveThreshold ≤ f.toInt then
    { n with fails := f, downUntil := now + o.effectiveCooldown }
  else { n with fails := f }

/-! ## Attempts -/

inductive GetErr where
  | poolClosed
  | ctx
  | dial
  deriving DecidableEq, Repr

inductive CallErr where
  | noEndpoint
  | ctx
  | get (e : GetErr)
  | stream (e : StreamErr)
  deriving DecidableEq, Repr

def StreamErr.isRemote : StreamErr → Bool
  | .rateLimited | .handlerPanic | .remote .. => true
  | _ => false

abbrev Outcome := Except GetErr (Except StreamErr Response)

def EndpointNode.doCall (o : HealthOptions) (now : Nat) (n : EndpointNode) :
    Outcome → EndpointNode × Except CallErr Response
  | .error e => (n.markFailure o now, .error (.get e))
  | .ok (.error e) =>
    if e.isRemote then (n.markSuccess, .error (.stream e))
    else if e = .ctx then (n, .error (.stream e))
    else (n.markFailure o now, .error (.stream e))
  | .ok (.ok resp) => (n.markSuccess, .ok resp)

/-! ## Choosing a node -/

def healthyNodes (clock : Nat → Nat) : Nat → List EndpointNode → List EndpointNode
  | _, [] => []
  | i, n :: nodes =>
    if n.healthy (clock i) then n :: healthyNodes clock (i + 1) nodes
    else healthyNodes clock (i + 1) nodes

def pickNode (ctxDone : Bool) (clock : Nat → Nat) (pick : List EndpointNode → Option EndpointNode)
    (nodes : List EndpointNode) : Except CallErr EndpointNode :=
  if ctxDone then .error .ctx
  else if nodes = [] then .error .noEndpoint
  else
    let healthy := healthyNodes clock 0 nodes
    let candidates := if healthy = [] then nodes else healthy
    match pick candidates with
    | none => .error .noEndpoint
    | some n => .ok n

end Soil.Net
