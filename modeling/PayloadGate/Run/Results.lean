import PayloadGate.Run.JobRun
import PayloadGate.Junit.Reader
import PayloadGate.Store.ObjectStore

/-! # The results of a run

The result files of a run are read one after the other, and those of the next run behind them. A `read` answers for the
content of an object, and may change the `σ` it looks at.

* **`combinedResults read keys s`** — the suites of the files with the given `keys`, joined. One file that cannot be
  read, or is no result file, spoils the whole.
* **`loadAll read runs s`** — `combinedResults` of the `resultKeys` of each run, from first to last. -/

namespace PayloadGate

variable {σ : Type}

/-- **The suites of the files with the given `keys`**, in that order: each is read and parsed by `Junit.forestOfBytes`,
and the first failure is the answer. -/
def combinedResults (read : String → σ → Except Failure (List UInt8) × σ) :
    List String → σ → Except Failure (List Junit.Suite) × σ
  | [], s => (.ok [], s)
  | key :: keys, s =>
    let (reply, s) := read key s
    match reply >>= Junit.forestOfBytes with
    -- the files behind one that cannot be read are not asked for
    | .error f => (.error f, s)
    | .ok forest =>
      let (rest, s) := combinedResults read keys s
      (rest.map (forest ++ ·), s)

/-- **The results of a list of runs**, each in its place: `combinedResults` of its `resultKeys`, whatever came of those
before it. -/
def loadAll (read : String → σ → Except Failure (List UInt8) × σ) :
    List JobRun → σ → List (Except Failure (List Junit.Suite)) × σ
  | [], s => ([], s)
  | run :: runs, s =>
    let (forest, s) := combinedResults read run.resultKeys s
    let (rest, s) := loadAll read runs s
    (forest :: rest, s)

end PayloadGate
