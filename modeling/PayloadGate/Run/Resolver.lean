import PayloadGate.RunId
import PayloadGate.Run.JobRun
import PayloadGate.Store.Cursor

/-! # Resolving a run id

A **`Resolver`** goes through the objects of one run, notes the descriptor and the result files among them, and
has the descriptor read. It does no work itself: it waits for a page or for the descriptor, or it has ended.

* **`runListing`** — the listing that holds the objects of a run.
* **`Resolver.start`**, **`Resolver.receivePage`**, **`Resolver.receiveObject`** — before the first page, and
  the answers of the store.
* **`Resolver.run?`** — a whole resolution. -/

namespace PayloadGate

/-- **The listing that holds the objects of a run**: from the place `root/id` where they start to the place `root/next`
of the next id. When that lies before it, as with `9` and `10`, the objects of the directory alone. -/
def runListing (root id next : String) : ListQuery :=
  if root ++ "/" ++ id < root ++ "/" ++ next then
    ⟨root ++ "/", some (root ++ "/" ++ id), some (root ++ "/" ++ next)⟩
  else .allUnder (root ++ "/" ++ id ++ "/")

/-- The run that is to be resolved. -/
structure RunPlace where
  /-- The directory that holds the runs of the job. -/
  root : String
  /-- The job. -/
  job : String
  /-- The run. -/
  id : String
  /-- Where runs can be looked at. -/
  links : Links
  deriving DecidableEq

namespace RunPlace

/-- The directory of the run, `root/id/`, with a slash at its end. -/
def directory (p : RunPlace) : String := p.root ++ "/" ++ p.id ++ "/"

/-- The run, when its objects have been seen and its descriptor `d` has been read. -/
def toRun (p : RunPlace) (descriptorKey : String) (resultKeys : List String) (d : Descriptor) :
    JobRun where
  jobName := p.job
  runId := p.id
  root := p.root
  descriptorKey := descriptorKey
  resultKeys := resultKeys
  descriptor := d
  humanUrl := p.links.humanUrl p.root p.id
  artifactUrl := p.links.artifactUrl p.root p.id

end RunPlace

/-- A key that names a file of test results: it ends in `.xml` and has `/junit` in it. -/
def isResultKey (key : String) : Bool := Text.endsWith key ".xml" && Text.contains key "/junit"

/-- The objects of a run that count. -/
structure RunFiles where
  /-- The key of the descriptor. -/
  descriptor : Option String
  /-- The keys of the result files, last one first. -/
  results : List String
  deriving DecidableEq

namespace RunFiles

/-- No object has been seen, neither a descriptor nor a result file. -/
def none : RunFiles := ⟨Option.none, []⟩

/-- The objects that count, with one object more. Objects outside the `directory` belong to other runs. -/
def note (directory : String) (files : RunFiles) (key : String) : RunFiles :=
  match Text.after? directory key with
  | Option.none => files
  | some name =>
    if name = descriptorName then { files with descriptor := some key }
    else if isResultKey key then { files with results := key :: files.results }
    else files

end RunFiles

/-- What a resolver is waiting for: a page, the content of the descriptor, or nothing more. -/
inductive ResolverStage where
  /-- A page. -/
  | listing (cursor : Cursor) (files : RunFiles)
  /-- The descriptor. -/
  | reading (key : String) (resultKeys : List String)
  /-- Nothing more; a run without a descriptor is no run yet. -/
  | ended (result : Except Failure (Option JobRun))

/-- **A resolver**: the run that is to be resolved, and what it waits for. -/
structure Resolver where
  /-- The run. -/
  place : RunPlace
  /-- What it is waiting for. -/
  stage : ResolverStage

namespace Resolver

/-- **The resolver before its first page.** A malformed id ends it at once. -/
def start (place : RunPlace) : Resolver :=
  match RunId.next place.id with
  | .error f => ⟨place, .ended (.error f)⟩
  | .ok next => ⟨place, .listing (.start (runListing place.root place.id next)) .none⟩

/-- **The resolver after the store has answered** for a page: it notes the objects and goes on to the next page, or
behind the last one to the descriptor, and ends when there is none. -/
def receivePage (r : Resolver) (reply : Except Failure ObjectPage) : Resolver :=
  match r.stage with
  | .listing cursor files =>
    match reply with
    | .error f => { r with stage := .ended (.error f) }
    | .ok page =>
      let files := page.records.foldl (fun fs o => fs.note r.place.directory o.key) files
      let cursor := cursor.receive (.ok page)
      if cursor.exhausted then
        match files.descriptor with
        | none => { r with stage := .ended (.ok none) }
        -- the keys of the results were noted last one first
        | some key => { r with stage := .reading key files.results.reverse }
      -- all objects of the page have been noted, so none is left in the buffer
      else { r with stage := .listing { cursor with buffer := [] } files }
  | _ => r

/-- **The resolver after the store has answered** for the descriptor: it ends, with the run or with a failure. -/
def receiveObject (r : Resolver) (reply : Except Failure (List UInt8)) : Resolver :=
  match r.stage with
  | .reading key resultKeys =>
    match reply >>= Descriptor.ofBytes with
    | .error f => { r with stage := .ended (.error f) }
    | .ok d => { r with stage := .ended (.ok (some (r.place.toRun key resultKeys d))) }
  | _ => r

/-- **A whole resolution**, when the store answers for pages by `ask` and for objects by `read`. The result is `none`
when it takes more than `steps` steps. -/
def run? {σ : Type} (ask : ListQuery → Option String → σ → Except Failure ObjectPage × σ)
    (read : String → σ → Except Failure (List UInt8) × σ) :
    Nat → Resolver → σ → Option (Except Failure (Option JobRun) × σ)
  | 0, _, _ => none
  | steps + 1, r, s =>
    match r.stage with
    | .ended result => some (result, s)
    | .listing cursor _ =>
      let (reply, s) := ask cursor.query cursor.token s
      run? ask read steps (r.receivePage reply) s
    | .reading key _ =>
      let (reply, s) := read key s
      run? ask read steps (r.receiveObject reply) s

end Resolver

end PayloadGate
