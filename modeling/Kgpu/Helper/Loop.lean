-- SUMMARY: The main loop of the helper, one operation on one request at a time.
import Kgpu.Gpu.Operations

/-!
# The main loop

`kh_main_loop` runs one operation over each of the six lists of requests and
then reads at most one new request. `__kh_process_request` walks a list with
`list_for_each_safe` while the operation moves items off it; no operation adds to
the list it is run over, so the walk visits what was on the list when it began.

A request item is named by its address, which stands for one request and is not
used again. `list_del` takes an item off whichever of the six lists it is on.
-/

namespace Kgpu

/-- Address of a `struct _kgpu_sritem`. -/
abbrev Token := Nat

/-- The functions of a service whose result the helper looks at. -/
inductive Stage where
  | prepare
  | launch
  | post
  deriving DecidableEq

/-- What happened to one request, in order. -/
inductive Event where
  | read (kureq : KuRequest)
  | computeSize
  | allocMem (r : Int)
  | allocStream (r : Int)
  | execFinished (r : Bool)
  | postFinished (r : Bool)
  | call (stage : Stage) (r : Int)
  /-- The item was put on the list of a state. -/
  | enter (x : ReqState)
  | respond (resp : KuResponse)

/-- What the environment answers to the calls of one operation. -/
structure Answers where
  /-- `gpu_alloc_device_mem`; the CUDA version always answers 0. -/
  alloc : Int
  prepare : Int
  launch : Int
  post : Int
  /-- `gpu_execution_finished`. -/
  execFinished : Bool
  /-- `gpu_post_finished`. -/
  postFinished : Bool

/-- Where the main loop stands: in `__kh_process_request` over the list of a
    state, with the rest of the walk, or before `kh_get_next_service_request`. -/
inductive LoopPc where
  | process (x : ReqState) (rest : List Token)
  | get

/-- The lists, the items and the streams in use, with a record of the events of
    each request and of all pin calls. -/
structure Helper where
  sr : Token → ServiceRequest
  allReqs : List Token
  q : ReqState → List Token
  streamuses : Fin maxStreamNr → Bool
  next : Token
  pc : LoopPc
  trace : Token → List Event
  pins : List PinCall

inductive HelperStep where
  /-- The operation on the next item of the walk. -/
  | op (a : Answers)
  /-- The walk is over; the main loop goes on to the next call. -/
  | advance
  | get (kureq : Option KuRequest)

namespace Helper

/-! ## Updates -/

def setSr (s : Helper) (t : Token) (sr : ServiceRequest) : Helper :=
  { s with sr := Function.update s.sr t sr }

def record (s : Helper) (t : Token) (e : Event) : Helper :=
  { s with trace := Function.update s.trace t (s.trace t ++ [e]) }

/-- `list_del(&sreq->list)`. -/
def listDel (s : Helper) (t : Token) : Helper :=
  { s with q := fun y => (s.q y).erase t }

/-- `list_add_tail` to the list of a state. -/
def listAddTail (s : Helper) (t : Token) (x : ReqState) : Helper :=
  { s with q := Function.update s.q x (s.q x ++ [t]) }

/-- The three statements every move of a request consists of: set the state,
    take the item off its list and put it on the list of the state. -/
def moveTo (s : Helper) (t : Token) (x : ReqState) : Helper :=
  (((s.setSr t { s.sr t with state := x }).listDel t).listAddTail t x).record t (.enter x)

/-! ## Operations -/

/-- `kh_fail_request`. -/
def khFailRequest (s : Helper) (t : Token) (serr : Int) : Helper :=
  (s.setSr t { s.sr t with errcode := serr }).moveTo t .done

/-- `kh_request_alloc_mem`. -/
def khRequestAllocMem (c : Config) (s : Helper) (t : Token) (a : Answers) : Int × Helper :=
  let (sr, pins) := c.gpuAllocDeviceMem (s.sr t)
  let s := { s.setSr t sr with pins := s.pins ++ pins }
  let s := s.record t (.allocMem a.alloc)
  if a.alloc = 0 then (0, s.moveTo t .memDone) else (-1, s)

/-- `kh_prepare_exec`. -/
def khPrepareExec (c : Config) (s : Helper) (t : Token) (a : Answers) : Int × Helper :=
  match c.gpuAllocStream s.streamuses (s.sr t) with
  | none => (-1, s.record t (.allocStream 1))
  | some (uses, sr) =>
    let s := ({ s.setSr t sr with streamuses := uses }).record t (.allocStream 0)
    let s := s.record t (.call .prepare a.prepare)
    if a.prepare = 0 then (a.prepare, s.moveTo t .prepared)
    else (a.prepare, s.khFailRequest t a.prepare)

/-- `kh_launch_exec`: 0 is returned whatever `launch` returned. -/
def khLaunchExec (s : Helper) (t : Token) (a : Answers) : Int × Helper :=
  let s := s.record t (.call .launch a.launch)
  if a.launch = 0 then (0, s.moveTo t .running) else (0, s.khFailRequest t a.launch)

/-- `kh_post_exec`. -/
def khPostExec (s : Helper) (t : Token) (a : Answers) : Int × Helper :=
  let s := s.record t (.execFinished a.execFinished)
  if a.execFinished then
    let s := s.record t (.call .post a.post)
    if a.post = 0 then (a.post, s.moveTo t .postExec) else (a.post, s.khFailRequest t a.post)
  else (1, s)

/-- `kh_finish_post`. -/
def khFinishPost (s : Helper) (t : Token) (a : Answers) : Int × Helper :=
  let s := s.record t (.postFinished a.postFinished)
  if a.postFinished then (0, s.moveTo t .done) else (1, s)

/-- The response `kh_service_done` writes to the device. -/
def response (s : Helper) (t : Token) : KuResponse := ⟨(s.sr t).id, (s.sr t).errcode⟩

/-- `kh_service_done`. The item is freed: no list holds its address any more. -/
def khServiceDone (c : Config) (s : Helper) (t : Token) : Int × Helper :=
  let s := s.record t (.respond (s.response t))
  let s := { s.listDel t with allReqs := s.allReqs.erase t }
  let (sr, pins) := c.gpuFreeDeviceMem (s.sr t)
  let s := { s.setSr t sr with pins := s.pins ++ pins }
  (0, { s with streamuses := gpuFreeStream s.streamuses (s.sr t) })

/-- The operation that is run over the list of a state. -/
def runOp (c : Config) (s : Helper) (x : ReqState) (t : Token) (a : Answers) : Int × Helper :=
  match x with
  | .done => khServiceDone c s t
  | .postExec => khFinishPost s t a
  | .running => khPostExec s t a
  | .prepared => khLaunchExec s t a
  | .memDone => khPrepareExec c s t a
  | .init => khRequestAllocMem c s t a

/-- `kh_init_service_request` with a new item. -/
def khInitServiceRequest (c : Config) (s : Helper) (kureq : KuRequest) : Helper :=
  let t := s.next
  let sr := c.ofKuRequest kureq
  let s := { s.setSr t sr with next := s.next + 1, allReqs := s.allReqs ++ [t] }
  let s := s.record t (.read kureq)
  match sr.s with
  | none => s.khFailRequest t kgpuNoService
  | some p =>
    let sr := { sr with geometry := (c.service p).computeSize sr, state := .init, errcode := 0 }
    ((((s.record t .computeSize).setSr t sr).listAddTail t .init).record t (.enter .init))

/-- `kh_get_next_service_request`, with the request that was read. Nothing changes
    when the poll times out, `malloc` fails or the read has nothing to return. -/
def khGetNextServiceRequest (c : Config) (s : Helper) : Option KuRequest → Helper
  | none => s
  | some kureq => s.khInitServiceRequest c kureq

/-! ## The loop -/

/-- The argument `once` of `__kh_process_request`. -/
def once : ReqState → Bool
  | .running | .prepared | .memDone => true
  | .done | .postExec | .init => false

/-- The list that is processed after the one of a state. -/
def following : ReqState → Option ReqState
  | .done => some .postExec
  | .postExec => some .running
  | .running => some .prepared
  | .prepared => some .memDone
  | .memDone => some .init
  | .init => none

/-- The timeout `kh_get_next_service_request` polls with. -/
def pollTimeout (s : Helper) : Int := if s.allReqs.isEmpty then -1 else 0

/-- One step of the main loop. -/
def step (c : Config) (s : Helper) : HelperStep → Option Helper
  | .op a =>
    match s.pc with
    | .process x (t :: rest) =>
      let (r, s') := s.runOp c x t a
      some { s' with pc := .process x (if r = 0 && once x then [] else rest) }
    | _ => none
  | .advance =>
    match s.pc with
    | .process x [] =>
      match following x with
      | some y => some { s with pc := .process y (s.q y) }
      | none => some { s with pc := .get }
    | _ => none
  | .get kureq =>
    match s.pc with
    | .get =>
      let s := s.khGetNextServiceRequest c kureq
      some { s with pc := .process .done (s.q .done) }
    | _ => none

/-- The state `kh_main_loop` starts in, after `gpu_init`. -/
def init (sr : Token → ServiceRequest) : Helper where
  sr := sr
  allReqs := []
  q := fun _ => []
  streamuses := fun _ => false
  next := 0
  pc := .process .done []
  trace := fun _ => []
  pins := []

end Helper
end Kgpu
