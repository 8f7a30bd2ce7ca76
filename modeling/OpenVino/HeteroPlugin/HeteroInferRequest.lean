import OpenVino.Base.Runs
import OpenVino.InferenceEngine.InferRequestInternal

/-!
# The heterogeneous infer request

`HeteroInferRequest` runs a chain of sub-requests, one for each subnetwork, that pass blobs to each other by name. The
constructor gives the sub-requests that share a name one blob and notes it in `blobs`; `updateInOutIfNeeded` hands
on the blobs that the user has set since, comparing them with the entry of `blobs`. A sub-request is what its plugin
makes of it: it starts with blobs of its own (`defaults`), and `accepts` says whether its `SetBlob` returns.

An exception leaves `updateInOutIfNeeded` with the sub-requests served so far; its error carries the state.
-/

namespace OpenVino.HeteroPlugin

open OpenVino.InferenceEngine

/-- The names of a sub-request, in the order in which its sets are iterated. -/
structure SubRequestDesc where
  iNames : List String
  oNames : List String

structure HeteroInferRequest extends InferRequestInternal where
  inferRequests : List SubRequestDesc
  blobs : String → Option Blob := fun _ => none
  /-- The blob that a sub-request holds for a name. -/
  held : Nat → String → Blob

namespace HeteroInferRequest

variable (accepts : Nat → String → Blob → Result Unit)

/-- `SetBlob` of sub-request `r`. -/
def subSetBlob (s : HeteroInferRequest) (r : Nat) (name : String) (b : Blob) : Result HeteroInferRequest := do
  accepts r name b
  return { s with held := Function.update s.held r (Function.update (s.held r) name b) }

/-! ### The constructor -/

def requestBlob (r : Nat) (s : HeteroInferRequest) (e : String) : Result HeteroInferRequest :=
  match s.blobs e with
  | some b => s.subSetBlob accepts r e b
  | none =>
    let b := s.held r e
    let s := { s with blobs := Function.update s.blobs e (some b) }
    if (s.networkInputs.lookup e).isSome then return { s with inputs := Function.update s.inputs e (some b) }
    else if (s.networkOutputs.lookup e).isSome then return { s with outputs := Function.update s.outputs e (some b) }
    else return s

def construct (networkInputs : List (String × InputInfo)) (networkOutputs : List (String × TensorDesc))
    (inferRequests : List SubRequestDesc) (defaults : Nat → String → Blob) : Result HeteroInferRequest := do
  if networkOutputs = [] ∨ networkInputs = [] then
    throwException "Internal error: no information about network's output/input"
  else
    let s ← inferRequests.zipIdx.foldlM (fun s desc => desc.1.oNames.foldlM (requestBlob accepts desc.2) s)
      { networkInputs, networkOutputs, inferRequests, held := defaults }
    inferRequests.zipIdx.foldlM (fun s desc => desc.1.iNames.foldlM (requestBlob accepts desc.2) s) s

/-! ### Handing on the user's blobs -/

/-- Sub-request `r` gets `b` for the name, if the entry of the name differs from it, and the entry becomes `entry`. -/
def serve (r : Nat) (name : String) (b entry : Blob) (s : HeteroInferRequest) :
    Except (HeteroInferRequest × IEException) HeteroInferRequest :=
  if s.blobs name ≠ some b then
    match s.subSetBlob accepts r name b with
    | .error e => .error (s, e)
    | .ok s => .ok { s with blobs := Function.update s.blobs name (some entry) }
  else .ok s

def updateInput (r : Nat) (s : HeteroInferRequest) (ioname : String) :
    Except (HeteroInferRequest × IEException) HeteroInferRequest :=
  match s.inputs ioname with
  | none => .ok s
  | some input =>
    match s.preProcData ioname with
    | some roi => s.serve accepts r ioname roi input
    | none => s.serve accepts r ioname input input

def updateOutput (r : Nat) (s : HeteroInferRequest) (ioname : String) :
    Except (HeteroInferRequest × IEException) HeteroInferRequest :=
  match s.outputs ioname with
  | none => .ok s
  | some output => s.serve accepts r ioname output output

def updateInOutIfNeeded (s : HeteroInferRequest) : Except (HeteroInferRequest × IEException) HeteroInferRequest :=
  s.inferRequests.zipIdx.foldlM (fun s desc => do
    let s ← desc.1.iNames.foldlM (updateInput accepts desc.2) s
    desc.1.oNames.foldlM (updateOutput accepts desc.2) s) s

end HeteroInferRequest

/-! ### Runs -/

/-- A request, with the blob that the user last set for each name. -/
structure Session where
  request : HeteroInferRequest
  user : String → Option Blob := fun _ => none

/-- The user sets a blob, or the request hands the blobs on; a `SetBlob` that throws changes nothing. -/
inductive SessionStep (isApplicable : Blob → Blob → Result Unit) (accepts : Nat → String → Blob → Result Unit) :
    Session → Session → Prop
  | setBlob {s : Session} {name : String} {b : Blob} {r : InferRequestInternal}
      (h : s.request.SetBlob isApplicable name (some b) = .ok r) :
      SessionStep isApplicable accepts s
        { request := { s.request with toInferRequestInternal := r }, user := Function.update s.user name (some b) }
  | update {s : Session} {request : HeteroInferRequest} (h : s.request.updateInOutIfNeeded accepts = .ok request) :
      SessionStep isApplicable accepts s { s with request }
  | updateThrew {s : Session} {request : HeteroInferRequest} {e : IEException}
      (h : s.request.updateInOutIfNeeded accepts = .error (request, e)) :
      SessionStep isApplicable accepts s { s with request }

/-- The sessions with one request, from its construction on. -/
def sessions (isApplicable : Blob → Blob → Result Unit) (accepts : Nat → String → Blob → Result Unit) :
    System Session where
  init s := s.user = (fun _ => none) ∧ ∃ networkInputs networkOutputs inferRequests defaults,
    HeteroInferRequest.construct accepts networkInputs networkOutputs inferRequests defaults = .ok s.request
  step := SessionStep isApplicable accepts

end OpenVino.HeteroPlugin
