import PacedChain.Service.Basic

/-!
# Rehearsal of a service

Surroundings that do as they are told, to rehearse a service with. The loop ends when it is told to
finish, or by a stop signal; a lingering one needs to be released besides. It forgets all signals
when it starts to run.
-/
namespace PacedChain

/-- How the loop takes a request to stop. -/
inductive StopMode where
  | ok
  /-- The loop is signalled, and the request fails. -/
  | fails
  /-- The loop is signalled, and the request crashes. -/
  | crashes
  /-- The request fails and the loop is not signalled. -/
  | deaf
  deriving DecidableEq, Inhabited

structure ServiceRehearsal where
  /-- The service, unless it has been dropped. -/
  service : Option Service
  channels : List String := []
  /-- What the next creations and posts come to; after that they succeed. -/
  createReplies : List ChannelReply := []
  postReplies : List ChannelReply := []
  stopMode : StopMode := .ok
  linger : Bool := false
  /-- The loops that have not ended. -/
  alive : List Nat := []
  stopSignal : Bool := false
  finishSignal : Bool := false
  releaseSignal : Bool := false
  /-- Loops started, and loops ended so far. -/
  runs : Nat := 0
  ended : Nat := 0
  /-- The most loops that were alive at once. -/
  maxInFlight : Nat := 0
  /-- The thread name of every run. -/
  threadNames : List String := []
  /-- The calls of the service since they were last taken, the last one first. -/
  calls : List ServiceCall := []

namespace ServiceRehearsal

/-- Whether a running loop is bound to end. -/
def isBound (r : ServiceRehearsal) : Bool :=
  r.finishSignal || (r.stopSignal && (!r.linger || r.releaseSignal))

def settle (r : ServiceRehearsal) : ServiceRehearsal :=
  if r.isBound then { r with alive := [], ended := r.ended + r.alive.length } else r

def loopEnded (r : ServiceRehearsal) (s : Service) : Bool :=
  !s.thread.any r.alive.contains

def surroundings (r : ServiceRehearsal) (s : Service) : Surroundings where
  ended := r.loopEnded s
  channelExists := r.channels.contains s.setup.channel.id
  create := r.createReplies.headD .ok
  post := r.postReplies.headD .ok

/-- Do what a call of the service brings about. -/
def heed (r : ServiceRehearsal) : ServiceCall → ServiceRehearsal
  | .create spec =>
    { r with
      channels := if r.createReplies.headD .ok == .ok then spec.id :: r.channels else r.channels
      createReplies := r.createReplies.tail }
  | .post _ _ => { r with postReplies := r.postReplies.tail }
  | .stop => { r with stopSignal := r.stopSignal || r.stopMode != .deaf }
  | .exists_ _ _ | .clear _ => r

/-- Take the calls of the service and do what they bring about. -/
def heedAll (r : ServiceRehearsal) (s : Service) : ServiceRehearsal :=
  let r := s.calls.reverse.foldl heed r
  { r with service := some { s with calls := [] }, calls := s.calls ++ r.calls }

/-- A loop starts to run and forgets all signals. -/
def beginRun (r : ServiceRehearsal) (s : Service) : ServiceRehearsal :=
  let alive := s.started :: r.alive
  { r with
    alive
    stopSignal := false, finishSignal := false, releaseSignal := false
    runs := r.runs + 1
    maxInFlight := max r.maxInFlight alive.length
    threadNames := r.threadNames ++ [s.setup.threadName] }

def start (r : ServiceRehearsal) : Option StartResult × ServiceRehearsal :=
  match r.service with
  | none => (none, r)
  | some service =>
    let (result, after) := service.start (r.surroundings service)
    let r := r.heedAll after
    (some result, if after.started = service.started then r else r.beginRun after)

def startMany (r : ServiceRehearsal) : Nat → List (Option StartResult) × ServiceRehearsal
  | 0 => ([], r)
  | n + 1 =>
    let (first, r) := r.start
    let (rest, r) := r.startMany n
    (first :: rest, r)

/-- Stop the service; whether it has not been dropped. -/
def stop (r : ServiceRehearsal) : Bool × ServiceRehearsal :=
  match r.service with
  | none => (false, r)
  | some service => (true, (r.heedAll service.stop.2).settle)

def drop (r : ServiceRehearsal) : ServiceRehearsal := { r.stop.2 with service := none }

def finish (r : ServiceRehearsal) : ServiceRehearsal := { r with finishSignal := true }.settle

def release (r : ServiceRehearsal) : ServiceRehearsal := { r with releaseSignal := true }.settle

def set (r : ServiceRehearsal) (stopMode : Option StopMode) (linger : Option Bool) :
    ServiceRehearsal :=
  { r with stopMode := stopMode.getD r.stopMode, linger := linger.getD r.linger }.settle

/-- Whether the service runs, if it has not been dropped. -/
def isRunning (r : ServiceRehearsal) : Option Bool :=
  r.service.map fun service => service.isRunning (r.loopEnded service)

def takeCalls (r : ServiceRehearsal) : List ServiceCall × ServiceRehearsal :=
  (r.calls.reverse, { r with calls := [] })

end ServiceRehearsal

end PacedChain
