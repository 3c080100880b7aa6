import PacedChain.Chain.Status
import PacedChain.Json.Reader
import PacedChain.Json.Writer
import PacedChain.Queue.Tally
import PacedChain.Service.Notice
import PacedChain.Trigger

/-!
# Durable forms

How values are kept as JSON. A named value is its name, or an object whose only member has that name
and is null. A structure is an object with a member for each field; other members are passed over,
and no field may occur twice. It may also be the array of its fields in order. Identifiers are
structures around their text, delays and keys stand for themselves.
-/
namespace PacedChain

class Durable (α : Type) where
  toJson : α → Json
  ofJson? : Json → Option α

namespace Json

def named (members : List (Option String × Json)) (name : String) : List Json :=
  (members.filter (·.1 == some name)).map (·.2)

/-- The value of the only member of a name. -/
def only? (members : List (Option String × Json)) (name : String) : Option Json :=
  match named members name with
  | [value] => some value
  | _ => none

/-- The fields of a structure from members. -/
def fieldsOfMembers? (members : List (Option String × Json)) (names : List String) :
    Option (List Json) :=
  if members.all (·.1.isSome) then names.mapM (only? members) else none

def fields? (names : List String) : Json → Option (List Json)
  | .object members => fieldsOfMembers? members names
  | .array items => if items.length = names.length then some items else none
  | _ => none

def text? : Json → Option String
  | .text value => value
  | _ => none

def bool? : Json → Option Bool
  | .bool value => some value
  | _ => none

/-- A natural number of at most so many bits. -/
def nat? (bits : Nat) : Json → Option Nat
  | .number value => value.natural?.filter (· < Nat.pow 2 bits)
  | _ => none

def name? : Json → Option String
  | .text name => name
  | .object [(name, .null)] => name
  | _ => none

end Json

instance instDurableNamed {α : Type} [Named α] : Durable α where
  toJson a := .str (Named.text a)
  ofJson? j := j.name?.bind Named.parse?

namespace Delay

instance : Durable Delay where
  toJson d := .nat d.secs
  ofJson? j := (j.nat? 64).map Delay.mk

end Delay

instance : Durable Key where
  toJson k := .str k.text
  ofJson? j := j.text?.map Key.mk

namespace Base32

def toJson (n : Nat) : Json := .record [("ulid", .str (text n))]

def ofJson? (j : Json) : Option Nat :=
  match j.fields? ["ulid"] with
  | some [value] => value.text?.bind fun s => (parse s).toOption
  | _ => none

end Base32

instance : Durable TaskId where
  toJson t := Base32.toJson t.number
  ofJson? j := (Base32.ofJson? j).map TaskId.mk

instance : Durable AttemptId where
  toJson t := Base32.toJson t.number
  ofJson? j := (Base32.ofJson? j).map AttemptId.mk

instance : Durable Envelope where
  toJson e := .record [("task_id", Durable.toJson e.task), ("job", Durable.toJson e.job)]
  ofJson? j := do
    let [task, job] ← j.fields? ["task_id", "job"] | none
    return ⟨← Durable.ofJson? task, ← Durable.ofJson? job⟩

namespace Completion

/-- The kind of a completion and the fields that go with it. -/
def ofFields? (kind : String) (fields? : List String → Option (List Json)) : Option Completion :=
  match kind with
  | "succeeded" => (fields? []).map fun _ => .succeeded
  | "retry_scheduled" => do
    let [attempt, delaySecs] ← fields? ["attempt", "delay_secs"] | none
    return .retryScheduled (← attempt.nat? 32) (← delaySecs.nat? 64)
  | "dead" => do
    let [attempts] ← fields? ["attempts"] | none
    return .dead (← attempts.nat? 32)
  | _ => none

end Completion

/-- A completion is tagged by its kind, which may stand anywhere among the members but comes first
in an array. All of it is kept in memory before the kind is known. -/
instance : Durable Completion where
  toJson
    | .succeeded => .record [("kind", .str "succeeded")]
    | .retryScheduled attempt delaySecs =>
      .record [("kind", .str "retry_scheduled"), ("attempt", .nat attempt),
        ("delay_secs", .nat delaySecs)]
    | .dead attempts => .record [("kind", .str "dead"), ("attempts", .nat attempts)]
  ofJson? j :=
    if !j.isBufferable then none
    else match j with
      | .object members => do
        let kind ← (← Json.only? members "kind").text?
        Completion.ofFields? kind (Json.fieldsOfMembers? members)
      | .array (kind :: rest) => do
        Completion.ofFields? (← kind.text?) fun names => (Json.array rest).fields? names
      | _ => none

instance : Durable Counts where
  toJson c := .record [("queued", .nat c.queued), ("delayed", .nat c.delayed),
    ("running", .nat c.running), ("succeeded", .nat c.succeeded),
    ("retry_scheduled", .nat c.retryScheduled), ("dead", .nat c.dead),
    ("cancelled", .nat c.cancelled)]
  ofJson? j := do
    let [queued, delayed, running, succeeded, retryScheduled, dead, cancelled] ←
      j.fields? ["queued", "delayed", "running", "succeeded", "retry_scheduled", "dead",
        "cancelled"] | none
    return {
      queued := ← queued.nat? 64
      delayed := ← delayed.nat? 64
      running := ← running.nat? 64
      succeeded := ← succeeded.nat? 64
      retryScheduled := ← retryScheduled.nat? 64
      dead := ← dead.nat? 64
      cancelled := ← cancelled.nat? 64 }

instance : Durable ChannelSpec where
  toJson s := .record [("id", .str s.id), ("name", .str s.name),
    ("description", .str s.description), ("importance", Durable.toJson s.importance),
    ("show_badge", .bool s.showBadge)]
  ofJson? j := do
    let [id, name, description, importance, showBadge] ←
      j.fields? ["id", "name", "description", "importance", "show_badge"] | none
    return ⟨← id.text?, ← name.text?, ← description.text?, ← Durable.ofJson? importance,
      ← showBadge.bool?⟩

instance : Durable Notice where
  toJson n := .record [("title", .str n.title), ("text", .str n.text),
    ("ongoing", .bool n.ongoing), ("only_alert_once", .bool n.onlyAlertOnce)]
  ofJson? j := do
    let [title, text, ongoing, onlyAlertOnce] ←
      j.fields? ["title", "text", "ongoing", "only_alert_once"] | none
    return ⟨← title.text?, ← text.text?, ← ongoing.bool?, ← onlyAlertOnce.bool?⟩

namespace Durable

/-- The value that a text is the durable form of. -/
def parse? {α : Type} [Durable α] (s : String) : Option α := (Json.parse s).bind ofJson?

def text {α : Type} [Durable α] (a : α) : String := String.ofList (Json.render (toJson a))

end Durable

def Status.toJson (s : Status) : Json :=
  .record [("state", Durable.toJson s.phase), ("bootstrap_runs", .nat s.bootstrapRuns),
    ("sync_runs", .nat s.syncRuns), ("retries", .nat s.retries), ("stalls", .nat s.stalls),
    ("last_delay_secs", (s.lastDelay.map Durable.toJson).getD .null),
    ("next_task", (s.nextTask.map Durable.toJson).getD .null)]

end PacedChain
