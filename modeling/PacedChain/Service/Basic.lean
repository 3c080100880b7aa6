import PacedChain.Service.Notice

/-!
# The service

A loop that runs on a thread of its own from a start to a stop, with a status entry up meanwhile.
Starting a running service does nothing. A loop that was asked to stop is not waited for until the
next start, which needs it to have ended. Stopping never fails.

What a start meets in its surroundings is an argument (`Surroundings`); what it asks of them is
noted in order.
-/
namespace PacedChain

inductive ServiceCall where
  /-- Whether a channel exists, with the answer. -/
  | exists_ (id : String) (answer : Bool)
  | create (spec : ChannelSpec)
  | post (id : String) (notice : Notice)
  | clear (id : String)
  | stop
  deriving DecidableEq

/-- What asking a channel for something comes to. -/
inductive ChannelReply where
  | ok
  | fails (reason : String)
  | crashes (reason : String)
  deriving DecidableEq

/-- What a start meets. -/
structure Surroundings where
  /-- The loop that the service holds has ended. -/
  ended : Bool
  /-- It ends while the start waits for it. -/
  endsInGrace : Bool := false
  channelExists : Bool
  create : ChannelReply := .ok
  post : ChannelReply := .ok
  spawn : Except String Unit := .ok ()

inductive StartResult where
  | ok
  | failed (error : ServiceError)
  | crashed (reason : String)
  deriving DecidableEq

structure ServiceSetup where
  channel : ChannelSpec
  title : String
  /-- How long a start waits for the loop before. -/
  grace : Nat
  deriving DecidableEq

namespace ServiceSetup

/-- How long a start waits where nothing else is set. -/
def standardGrace : Nat := Clock.ofSecs 2

/-- A setup whose entry has the name of its channel for a title. -/
def ofChannel (channel : ChannelSpec) : ServiceSetup := ⟨channel, channel.name, standardGrace⟩

def threadName (s : ServiceSetup) : String := s!"{s.channel.id}-loop"

def notice (s : ServiceSetup) : Notice := .lasting s.title "Running"

end ServiceSetup

structure Service where
  setup : ServiceSetup
  /-- The loop that the service holds, by its number. -/
  thread : Option Nat := none
  /-- That loop has been asked to stop. -/
  stopping : Bool := false
  started : Nat := 0
  /-- The calls so far, the last one first. -/
  calls : List ServiceCall := []

namespace Service

def note (s : Service) (call : ServiceCall) : Service := { s with calls := call :: s.calls }

def spawnLoop (s : Service) (c : Surroundings) : StartResult × Service :=
  match c.spawn with
  | .error reason => (.failed (.spawn reason), s)
  | .ok () => (.ok, { s with thread := some (s.started + 1), started := s.started + 1 })

def postNotice (s : Service) (c : Surroundings) : StartResult × Service :=
  let s := s.note (.post s.setup.channel.id s.setup.notice)
  match c.post with
  | .ok => s.spawnLoop c
  | .fails reason => (.failed (.channel reason), s)
  | .crashes reason => (.crashed reason, s)

def openChannel (s : Service) (c : Surroundings) : StartResult × Service :=
  let s := s.note (.exists_ s.setup.channel.id c.channelExists)
  if c.channelExists then s.postNotice c
  else
    let s := s.note (.create s.setup.channel)
    match c.create with
    | .ok => s.postNotice c
    | .fails reason => (.failed (.channel reason), s)
    | .crashes reason => (.crashed reason, s)

def start (s : Service) (c : Surroundings) : StartResult × Service :=
  if s.thread.isSome && !c.ended && !s.stopping then (.ok, s)
  -- The loop before has been asked to stop and gets a while to end.
  else if s.thread.isSome && !c.ended && !c.endsInGrace then
    (.failed (.stillStopping s.setup.grace), s)
  else { s with thread := none, stopping := false }.openChannel c

/-- The first step of a stop: take it on. A service that holds no loop, or whose loop is already
asked to stop, has nothing to stop. -/
def markStopping (s : Service) : Bool × Service :=
  if s.thread.isNone || s.stopping then (false, s) else (true, { s with stopping := true })

/-- The second step of a stop: ask the loop, whatever comes of it. -/
def signalLoop (s : Service) : Service := s.note .stop

/-- The third step of a stop: take the entry down. -/
def clearNotice (s : Service) : Service := s.note (.clear s.setup.channel.id)

/-- Stop the service; whether there was something to stop. -/
def stop (s : Service) : Bool × Service :=
  match s.markStopping with
  | (false, s) => (false, s)
  | (true, s) => (true, s.signalLoop.clearNotice)

/-- Whether the service runs, given whether the loop that it holds has ended. -/
def isRunning (s : Service) (ended : Bool) : Bool := !s.stopping && s.thread.isSome && !ended

end Service

end PacedChain
