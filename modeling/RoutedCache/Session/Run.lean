import RoutedCache.Session.State

/-!
# Sessions

`Script.run` carries a script out and writes down every answer.  The run of the actions ends early at an
action that needs a cache when there is none.  A collection without a name and a clock that is asked for a time
it cannot show stop the program, and nothing is written down.
-/

namespace RoutedCache

namespace Schedule

/-- The token of the next job that is started, cancelled as the cancellation says. -/
def arm (s : Schedule) : Cancellation → Schedule × Token
  | .never => (s, .never)
  | .trip => (s, .trip)
  | .shutdown => (s, .shutdown)
  | .before =>
    let token := Token.call s.cache.jobs.length
    ({ s with cache := s.cache.step (.cancel token) }, token)
  | .after ms =>
    let token := Token.call s.cache.jobs.length
    ({ s with alarms := s.alarms ++ [(s.cache.after ms, token)] }, token)

def callWith (s : Schedule) (request : Request) (cancellation : Cancellation) : Schedule × Answer :=
  let (s, token) := s.arm cancellation
  let (s, answer) := s.call request token
  (s, answer.getD .ended)

/-- Starts the calls in order, each with its first turn. -/
def startAll (s : Schedule) : List (Request × Cancellation) → Schedule × List JobId
  | [] => (s, [])
  | (request, cancellation) :: rest =>
    let (s, token) := s.arm cancellation
    let (s, id) := s.start request token
    let (s, ids) := s.startAll rest
    (s, id :: ids)

def callAll (s : Schedule) (calls : List (Request × Cancellation)) : Schedule × List (Answer × Nat) :=
  let (s, ids) := s.startAll calls
  let s := s.driveUntil fun c => ids.all fun id => (c.answer? id).isSome
  (s, ids.map fun id => ((s.cache.answer? id).getD .ended, (s.answered.lookup id).getD s.cache.time))

/-- Takes the lock of a store and goes on as soon as it is held. -/
def hold (s : Schedule) (store ms : Nat) : Schedule × Option CacheError :=
  let (s, id) := s.enter (.hold store ms) .never
  let s := s.driveUntil fun c =>
    match c.stage? id with
    | some (.holding ..) => true
    | some (.finished _) => true
    | _ => false
  match s.cache.answer? id with
  | some (.failed e) => (s, some e)
  | _ => (s, none)

/-- The listing of a reply. -/
def listing : Reply → Listing
  | .listed entries => .ok entries
  | .failed fault => .error (.backend fault)
  | _ => .ok []

/-- The records of every store, one store after the other. -/
def dump (s : Schedule) : List (String × Nat) → Schedule × List (String × Listing)
  | [] => (s, [])
  | (name, store) :: rest =>
    let (s, answer) := s.call (.calls store [.list ""]) .never
    let records := match answer with
      | some (.replies [reply]) => listing reply
      | some (.failed e) => .error e
      | _ => .ok []
    let (s, others) := s.dump rest
    (s, (name, records) :: others)

end Schedule

namespace Session

def place? (s : Session) (name : String) : Option Nat := s.stores.findIdx? fun entry => entry.1 = name

/-- The open stores with their places, by name. -/
def places (s : Session) : List (String × Nat) :=
  (s.stores.map (·.1)).zipIdx.mergeSort fun a b => a.1 ≤ b.1

/-- The schedule with the time that its clock shows. -/
def tell (schedule : Schedule) : Option (Schedule × ActionAnswer) :=
  schedule.cache.clock.read?.map fun t => (schedule, .clock t)

/-- The outcome of an action on the cache; `none` if the program is stopped. -/
def act (s : Session) (schedule : Schedule) : Action → Option (Schedule × ActionAnswer)
  | .call request cancellation =>
    match schedule.callWith request cancellation with
    | (_, .broken) => none
    | (schedule, answer) => some (schedule, .answer answer)
  | .parallel calls =>
    let (schedule, answers) := schedule.callAll calls
    if answers.any (·.1 = .broken) then none else some (schedule, .answers answers)
  | .stats => some (schedule, .stats schedule.cache.counters)
  | .mounts => some (schedule, .mounts schedule.cache.mounts.paths)
  | .advance ms => tell (schedule.advance ms)
  | .setClock t => tell { schedule with cache := schedule.cache.step (.setClock t) }
  | .hold name ms =>
    match schedule.hold ((s.place? name).getD 0) ms with
    | (schedule, some e) => some (schedule, .answer (.failed e))
    | (schedule, none) => some (schedule, .held)
  | .store name cancellation calls =>
    let store := (s.place? name).getD 0
    match schedule.callWith (.calls store calls) cancellation with
    | (schedule, .replies replies) =>
      let kind := (schedule.cache.shelves[store]?.map (·.store.kind)).getD ""
      some (schedule, .store kind replies)
    | (schedule, answer) => some (schedule, .answer answer)
  | .dump =>
    let (schedule, stores) := schedule.dump s.places
    some (schedule, .dump stores)
  | .shutdown =>
    let (schedule, _) := schedule.call .shutdown .never
    some (schedule, .answer .ended)
  | .cancelShutdown => some ({ schedule with cache := schedule.cache.step (.cancel .shutdown) }, .answer .ended)
  | .restart _ => some (schedule, .answer .ended)

def restart (s : Session) (setup : Setup) : Session × BuildOutcome := (s.takeDown.closeAll).build setup

def currentTime (s : Session) : Nat := (s.schedule.map (·.cache.time)).getD s.time

/-- Notes the counters if there is a cache. -/
def note (s : Session) : Session :=
  match s.schedule with
  | some schedule => { s with counters := some schedule.cache.counters }
  | none => s

/-- Carries out the actions; `none` if the program is stopped. -/
def actAll (s : Session) : List Action → Option (Session × List (ActionAnswer × Nat))
  | [] => some (s, [])
  | .restart setup :: rest =>
    match s.restart setup with
    | (_, .unopened .unnamed) => none
    | (s, outcome) =>
      let s := s.note
      (s.actAll rest).map fun (last, answers) => (last, (.built outcome, s.currentTime) :: answers)
  | action :: rest =>
    match s.schedule with
    | none => some (s, [])
    | some schedule =>
      match s.act schedule action with
      | none => none
      | some (schedule, answer) =>
        let s := { s with schedule := some schedule }.note
        (s.actAll rest).map fun (last, answers) => (last, (answer, s.currentTime) :: answers)

/-- The records of a store that nobody holds. -/
def finalListing (store : Store) : Listing :=
  match store.lockRefusal? with
  | some fault => .error (.backend fault)
  | none => Schedule.listing (store.perform (.list "")).1

/-- The databases among the files that document stores were asked for. -/
def databases (s : Session) : List (String × Database) :=
  s.paths.eraseDups.filterMap fun path => (s.disk.databaseOf? path).map fun database => (path, database)

end Session

def Script.firstSession (script : Script) : Session :=
  let disk := script.files.foldl (fun disk file => disk.writePlain file.1 file.2) .fresh
  { clock := .ofInstant script.now
    disk := script.seeds.foldl (fun disk seed => disk.seed seed.1 seed.2.1 seed.2.2) disk }

/-- The transcript of a script; `none` if the program is stopped. -/
def Script.run (script : Script) : Option Transcript :=
  match script.firstSession.build script.setup with
  | (_, .unopened .unnamed) => none
  | (s, build) =>
    (s.actAll script.actions).map fun (s, answers) =>
      let s := s.takeDown
      let closed := s.closeAll
      { build
        answers
        counters := s.counters
        stores := s.stores.map fun entry => (entry.1, Session.finalListing entry.2)
        databases := closed.databases }

end RoutedCache
