-- SUMMARY: The helper on linked lists: items with two nodes each, and walks that keep a cursor and the node after it.
import Kgpu.Helper.Loop
import Kgpu.Library.Ring

/-!
# The helper on linked lists

The functions of the helper again, as in `Kgpu.Helper.Loop`, but with the lists as
the source has them: two nodes in each item, seven heads, and pointers between
them. An access through `NULL` or to a freed item has no result, and neither has
freeing an item twice. `__kh_process_request` keeps the two pointers of
`list_for_each_safe` while the operation changes the lists under it.
-/

namespace Kgpu

open Library

/-- The seven list heads, and the two nodes of an item. -/
inductive Node where
  | allReqs
  | head (x : ReqState)
  | glist (t : Token)
  | list (t : Token)
  deriving DecidableEq

/-- Where the main loop stands. -/
inductive LinkedPc where
  /-- In `__kh_process_request`, before the test of the loop, with `pos` and `n`. -/
  | process (x : ReqState) (pos : Node) (n : Option Node)
  /-- The loop of `__kh_process_request` was left by `break`. -/
  | broken (x : ReqState)
  | get

/-- The helper with its lists in memory. -/
structure LinkedHelper where
  links : Links Node
  sr : Token → ServiceRequest
  streamuses : Fin maxStreamNr → Bool
  next : Token
  pc : LinkedPc
  trace : Token → List Event
  pins : List PinCall

/-- How `kh_get_next_service_request` ends. With any other error the helper aborts. -/
inductive Poll where
  /-- The poll times out or reports no input. -/
  | idle
  | noMemory
  /-- The read returns 0 or fails with `EAGAIN`. -/
  | nothing
  | request (kureq : KuRequest)

inductive LinkedStep where
  | op (a : Answers)
  | advance
  | get (poll : Poll)

/-! ## Items -/

/-- `kh_alloc_service_request` with the item `t` from `malloc`: the item is zeroed and
    both nodes are linked to themselves. -/
def khAllocServiceRequest (links : Links Node) (t : Token) : Option (Links Node) := do
  let links : Links Node :=
    { next := Function.update (Function.update links.next (.list t) none) (.glist t) none
      prev := Function.update (Function.update links.prev (.list t) none) (.glist t) none
      alive := Function.update (Function.update links.alive (.list t) true) (.glist t) true }
  let links ← links.initListHead (some (.list t))
  links.initListHead (some (.glist t))

/-- `kh_free_service_request`. -/
def khFreeServiceRequest (links : Links Node) (t : Token) : Option (Links Node) :=
  if links.alive (.list t) then
    some { links with
      alive := Function.update (Function.update links.alive (.list t) false) (.glist t) false }
  else none

namespace LinkedHelper

def setSr (p : LinkedHelper) (t : Token) (sr : ServiceRequest) : LinkedHelper :=
  { p with sr := Function.update p.sr t sr }

def record (p : LinkedHelper) (t : Token) (e : Event) : LinkedHelper :=
  { p with trace := Function.update p.trace t (p.trace t ++ [e]) }

/-- Set the state, `list_del` and `list_add_tail`. -/
def moveTo (p : LinkedHelper) (t : Token) (x : ReqState) : Option LinkedHelper := do
  let p := p.setSr t { p.sr t with state := x }
  let links ← p.links.listDel (some (.list t))
  let links ← links.listAddTail (some (.list t)) (some (.head x))
  some (({ p with links := links }).record t (.enter x))

/-! ## Operations -/

/-- `kh_fail_request`. -/
def khFailRequest (p : LinkedHelper) (t : Token) (serr : Int) : Option LinkedHelper :=
  (p.setSr t { p.sr t with errcode := serr }).moveTo t .done

/-- `kh_request_alloc_mem`. -/
def khRequestAllocMem (c : Config) (p : LinkedHelper) (t : Token) (a : Answers) :
    Option (Int × LinkedHelper) :=
  let (sr, pins) := c.gpuAllocDeviceMem (p.sr t)
  let p := { p.setSr t sr with pins := p.pins ++ pins }
  let p := p.record t (.allocMem a.alloc)
  if a.alloc = 0 then (p.moveTo t .memDone).map fun p => (0, p) else some (-1, p)

/-- `kh_prepare_exec`. -/
def khPrepareExec (c : Config) (p : LinkedHelper) (t : Token) (a : Answers) :
    Option (Int × LinkedHelper) :=
  match c.gpuAllocStream p.streamuses (p.sr t) with
  | none => some (-1, p.record t (.allocStream 1))
  | some (uses, sr) =>
    let p := ({ p.setSr t sr with streamuses := uses }).record t (.allocStream 0)
    let p := p.record t (.call .prepare a.prepare)
    if a.prepare = 0 then (p.moveTo t .prepared).map fun p => (a.prepare, p)
    else (p.khFailRequest t a.prepare).map fun p => (a.prepare, p)

/-- `kh_launch_exec`. -/
def khLaunchExec (p : LinkedHelper) (t : Token) (a : Answers) : Option (Int × LinkedHelper) :=
  let p := p.record t (.call .launch a.launch)
  if a.launch = 0 then (p.moveTo t .running).map fun p => (0, p)
  else (p.khFailRequest t a.launch).map fun p => (0, p)

/-- `kh_post_exec`. -/
def khPostExec (p : LinkedHelper) (t : Token) (a : Answers) : Option (Int × LinkedHelper) :=
  let p := p.record t (.execFinished a.execFinished)
  if a.execFinished then
    let p := p.record t (.call .post a.post)
    if a.post = 0 then (p.moveTo t .postExec).map fun p => (a.post, p)
    else (p.khFailRequest t a.post).map fun p => (a.post, p)
  else some (1, p)

/-- `kh_finish_post`. -/
def khFinishPost (p : LinkedHelper) (t : Token) (a : Answers) : Option (Int × LinkedHelper) :=
  let p := p.record t (.postFinished a.postFinished)
  if a.postFinished then (p.moveTo t .done).map fun p => (0, p) else some (1, p)

/-- `kh_service_done`. -/
def khServiceDone (c : Config) (p : LinkedHelper) (t : Token) : Option (Int × LinkedHelper) := do
  let p := p.record t (.respond ⟨(p.sr t).id, (p.sr t).errcode⟩)
  let links ← p.links.listDel (some (.list t))
  let links ← links.listDel (some (.glist t))
  let (sr, pins) := c.gpuFreeDeviceMem (p.sr t)
  let p := { p.setSr t sr with pins := p.pins ++ pins }
  let p := { p with streamuses := gpuFreeStream p.streamuses (p.sr t) }
  let links ← khFreeServiceRequest links t
  some (0, { p with links := links })

/-- The operation that is run over the list of a state, on an item that is read and
    written to. -/
def runOp (c : Config) (p : LinkedHelper) (x : ReqState) (t : Token) (a : Answers) :
    Option (Int × LinkedHelper) :=
  if p.links.alive (.list t) then
    match x with
    | .done => khServiceDone c p t
    | .postExec => khFinishPost p t a
    | .running => khPostExec p t a
    | .prepared => khLaunchExec p t a
    | .memDone => khPrepareExec c p t a
    | .init => khRequestAllocMem c p t a
  else none

/-- `kh_init_service_request` of the new item. -/
def khInitServiceRequest (c : Config) (p : LinkedHelper) (kureq : KuRequest) :
    Option LinkedHelper := do
  let t := p.next
  let links ← p.links.listAddTail (some (.glist t)) (some .allReqs)
  let sr := c.ofKuRequest kureq
  let p := { p.setSr t sr with next := p.next + 1, links := links }
  let p := p.record t (.read kureq)
  match sr.s with
  | none => p.khFailRequest t kgpuNoService
  | some service =>
    let sr := { sr with geometry := (c.service service).computeSize sr, state := .init, errcode := 0 }
    let p := (p.record t .computeSize).setSr t sr
    let links ← p.links.listAddTail (some (.list t)) (some (.head .init))
    some (({ p with links := links }).record t (.enter .init))

/-- The timeout of the poll, with `list_empty(&all_reqs)`. -/
def pollTimeout (p : LinkedHelper) : Int := if p.links.listEmpty .allReqs then -1 else 0

/-- `kh_get_next_service_request`. -/
def khGetNextServiceRequest (c : Config) (p : LinkedHelper) : Poll → Option LinkedHelper
  | .idle | .noMemory => some p
  | .nothing => do
    let links ← khAllocServiceRequest p.links p.next
    let links ← khFreeServiceRequest links p.next
    some { p with links := links }
  | .request kureq => do
    let links ← khAllocServiceRequest p.links p.next
    ({ p with links := links }).khInitServiceRequest c kureq

/-! ## The loop -/

/-- The beginning of the loop of `__kh_process_request`. -/
def startLoop (p : LinkedHelper) (x : ReqState) : Option LinkedHelper :=
  (p.links.forEachSafe (.head x)).map fun (pos, n) => { p with pc := .process x pos n }

/-- The list that the main loop is processing, or has just processed. -/
def walked (p : LinkedHelper) : Option ReqState :=
  match p.pc with
  | .process x _ _ | .broken x => some x
  | .get => none

/-- Whether the step is the one that comes next. -/
def enabled (p : LinkedHelper) : LinkedStep → Bool
  | .op _ =>
    match p.pc with
    | .process x pos _ => pos ≠ .head x
    | _ => false
  | .advance =>
    match p.pc with
    | .process x pos _ => pos = .head x
    | .broken _ => true
    | .get => false
  | .get _ =>
    match p.pc with
    | .get => true
    | _ => false

/-- One step of the main loop. `list_entry` is used on `list` nodes of items only. -/
def perform (c : Config) (p : LinkedHelper) : LinkedStep → Option LinkedHelper
  | .op a =>
    match p.pc with
    | .process x (.list t) n => do
      let (r, p) ← p.runOp c x t a
      if r = 0 && Helper.once x then some { p with pc := .broken x }
      else
        let (pos, n) ← p.links.forEachAt n
        some { p with pc := .process x pos n }
    | _ => none
  | .advance =>
    match p.walked.bind Helper.following with
    | some y => p.startLoop y
    | none => some { p with pc := .get }
  | .get poll => do
    let p ← p.khGetNextServiceRequest c poll
    p.startLoop .done

/-- The main loop, with `none` as the state after an error. -/
def step (c : Config) (state : Option LinkedHelper) (l : LinkedStep) :
    Option (Option LinkedHelper) :=
  match state with
  | none => none
  | some p => if p.enabled l then some (p.perform c l) else none

/-- The state `kh_main_loop` starts in: the heads are linked to themselves. -/
def init (sr : Token → ServiceRequest) : LinkedHelper where
  links :=
    { next := fun
        | .allReqs => some .allReqs
        | .head x => some (.head x)
        | .glist _ | .list _ => none
      prev := fun
        | .allReqs => some .allReqs
        | .head x => some (.head x)
        | .glist _ | .list _ => none
      alive := fun
        | .allReqs | .head _ => true
        | .glist _ | .list _ => false }
  sr := sr
  streamuses := fun _ => false
  next := 0
  pc := .process .done (.head .done) (some (.head .done))
  trace := fun _ => []
  pins := []

/-! ## One call of `__kh_process_request` -/

/-- The loop of `__kh_process_request` from `pos` and `n` on, for at most `fuel` turns:
    the items the operation was applied to with what it returned, and the state after
    the loop. The answers to the calls of the `i`-th operation are `ans i`. -/
def processLoop (c : Config) (x : ReqState) (once : Bool) (ans : Nat → Answers) :
    Nat → Nat → Node → Option Node → LinkedHelper → Option (List (Token × Int) × LinkedHelper)
  | 0, _, pos, _, p => if pos = .head x then some ([], p) else none
  | fuel + 1, i, pos, n, p =>
    if pos = .head x then some ([], p)
    else
      match pos with
      | .list t => do
        let (r, p) ← p.runOp c x t (ans i)
        if r = 0 && once then some ([(t, r)], p)
        else
          let (pos, n) ← p.links.forEachAt n
          let (visited, p) ← processLoop c x once ans fuel (i + 1) pos n p
          some ((t, r) :: visited, p)
      | _ => none

/-- `__kh_process_request` with the operation and the list of a state. -/
def khProcessRequest (c : Config) (p : LinkedHelper) (x : ReqState) (once : Bool)
    (ans : Nat → Answers) (fuel : Nat) : Option (List (Token × Int) × LinkedHelper) := do
  let (pos, n) ← p.links.forEachSafe (.head x)
  processLoop c x once ans fuel 0 pos n p

end LinkedHelper
end Kgpu
