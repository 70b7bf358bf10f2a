import MediaRelay.Counters
import MediaRelay.Directory
import MediaRelay.Event.Basic
import MediaRelay.Room.Forwarding
import MediaRelay.Room.Reporting
import MediaRelay.Settings.Basic

/-!
The relay as a machine: it takes signaling events, datagrams and ticks, one after another, each with
the time at which it comes, and answers with what is to be sent. It does nothing else; sockets and
timers belong to whoever runs it.
-/

namespace MediaRelay

structure Relay (F : Type) where
  settings : Settings F
  directory : Directory F
  counters : Counters

namespace Relay

variable {F : Type} [Arithmetic F]

def termsOf (s : Settings F) : Room.Terms F :=
  { maxParticipants := s.maxParticipants
    maxStreams := s.maxStreams
    estimator := s.estimator
    feedbackTimeout := Time.ofMillis s.feedbackTimeoutMs
    keyframeInterval := Time.ofMillis s.keyframeIntervalMs }

def start (settings : Settings F) : Relay F :=
  { settings
    directory := ⟨∅, settings.maxRooms, termsOf settings⟩
    counters := .zero }

/-- An answer without the value in it. -/
def done {α : Type} (answer : Except Refusal α) : Except Refusal Unit := answer.map fun _ => ()

/-- What an event does to the rooms. -/
def act (d : Directory F) (e : Event) (now : Time) : Directory F × Except Refusal Unit :=
  match e.act with
  | .join participant role version => d.join e.room participant role version now
  | .leave participant => d.leave e.room participant
  | .negotiate stream offer =>
    let (d, answer) := d.within e.room fun r => r.negotiate stream.sender stream.kind offer now
    (d, done answer)
  | .subscribe receiver stream => d.within e.room fun r => r.subscribe receiver stream now
  | .unsubscribe receiver stream => d.within e.room fun r => r.unsubscribe receiver stream
  | .setMuted receiver sender muted => d.within e.room fun r => r.setMuted receiver sender muted
  | .setDeafened participant deafened =>
    d.within e.room fun r => r.setDeafened participant deafened

def apply (r : Relay F) (e : Event) (now : Time) : Relay F × Except Refusal Unit :=
  let (directory, answer) := act r.directory e now
  ({ r with directory }, answer)

/-- Hands a datagram to its room, if the room knows the sender. -/
def dispatch (d : Directory F) (h : Hysteresis F) (datagram : Datagram) (raw : Bytes)
    (source : Endpoint) (now : Time) : Directory F × Except DropReason Outcome :=
  let header := datagram.header
  if header.sender.isRelay then (d, .error .unknownSender)
  else match d.room? header.room with
    | none => (d, .error .unknownRoom)
    | some room =>
      if header.version ≠ room.version then (d, .error .versionMismatch)
      else match room.touch header.sender source now with
        | (_, false) => (d, .error .unknownSender)
        | (room, true) =>
          let (room, answer) :=
            if header.packetType = .feedback then room.takeFeedback h datagram raw now
            else room.forward h datagram raw now
          ({ d with rooms := d.rooms.insert header.room room }, answer)

/-- The reason to drop bytes that are no datagram. -/
def dropReasonOf : Wire.Fault → DropReason
  | .unsupportedVersion _ => .versionMismatch
  | _ => .malformed

def countOutcome (c : Counters) (o : Outcome) : Counters :=
  let size := o.copies.foldl (fun n copy => n + copy.payload.length) 0
  (((c.forwarded o.copies.length size).withheld o.withheld).requestedKeyframes
    o.requests.length).sentFeedback o.requests.length

def countAnswer (c : Counters) (type : PacketType) : Except DropReason Outcome → Counters
  | .error reason => c.dropped reason
  | .ok outcome => countOutcome (if type = .feedback then c.tookFeedback else c) outcome

/-- Takes in the bytes of a datagram. -/
def receive (r : Relay F) (raw : Bytes) (source : Endpoint) (now : Time) :
    Relay F × Except DropReason Outcome :=
  let counters := r.counters.received raw.length
  match Datagram.decode raw with
  | .error fault =>
    let reason := dropReasonOf fault
    ({ r with counters := counters.dropped reason }, .error reason)
  | .ok datagram =>
    let (directory, answer) := dispatch r.directory r.settings.hysteresis datagram raw source now
    ({ r with directory, counters := countAnswer counters datagram.header.packetType answer },
      answer)

/-- A participant that was silent for too long leaves. -/
def expire (id : RoomId) (r : Relay F) (participant : ParticipantId) : Relay F :=
  match r.directory.leave id participant with
  | (directory, .ok ()) => { r with directory, counters := r.counters.timedOut }
  | (directory, .error _) => { r with directory }

/-- The periodic work for a room: silent participants leave, and unless that closes it the room
reports. -/
def tickRoom (r : Relay F) (id : RoomId) (now : Time) : Relay F × List Room.Emission :=
  match r.directory.room? id with
  | none => (r, [])
  | some room =>
    let silent := room.inactive now (Time.ofMillis r.settings.participantTimeoutMs)
    let r := silent.foldl (expire id) r
    match r.directory.room? id with
    | none => (r, [])
    | some room =>
      if room.closed then (r, [])
      else
        let (room, emissions) := room.tick r.settings.hysteresis now
        let requests := (emissions.filter (·.isRequest)).length
        ({ r with
            directory := { r.directory with rooms := r.directory.rooms.insert id room }
            counters := (r.counters.sentFeedback emissions.length).requestedKeyframes requests },
          emissions)

def tickRooms (r : Relay F) (now : Time) : List RoomId → Relay F × List Room.Emission
  | [] => (r, [])
  | id :: rest =>
    let (r, first) := r.tickRoom id now
    let (r, others) := tickRooms r now rest
    (r, first ++ others)

/-- The periodic work, room by room. -/
def tick (r : Relay F) (now : Time) : Relay F × List Egress :=
  let (r, emissions) := r.tickRooms now r.directory.rooms.keys
  (r, emissions.map (·.egress))

/-- Where to send what is meant for a participant. -/
def addressOf (r : Relay F) (room : RoomId) (participant : ParticipantId) : Option Endpoint :=
  (r.directory.room? room).bind (·.addressOf participant)

/-- One thing that happens to a relay. -/
inductive Input
  | event (e : Event)
  | datagram (raw : Bytes) (source : Endpoint)
  | tick
  deriving DecidableEq

def step (r : Relay F) (now : Time) : Input → Relay F × List Egress
  | .event e => ((r.apply e now).1, [])
  | .datagram raw source =>
    let (r, answer) := r.receive raw source now
    (r, ((answer.toOption).map (·.egress)).getD [])
  | .tick => r.tick now

/-- A run of inputs with their times. -/
def run (r : Relay F) : List (Time × Input) → Relay F
  | [] => r
  | (now, input) :: rest => run (r.step now input).1 rest

/-- The media times of all streams fit. -/
def fits (r : Relay F) : Bool :=
  r.directory.rooms.values.all fun room => room.streams.values.all (·.uplink.arrivals.fits)

/-- A step in machine words, with no result if it brings a media time that does not fit. -/
def step? (r : Relay F) (now : Time) (input : Input) : Option (Relay F × List Egress) :=
  let (r, egress) := r.step now input
  if r.fits then some (r, egress) else none

def run? (r : Relay F) : List (Time × Input) → Option (Relay F)
  | [] => some r
  | (now, input) :: rest => do
    let (r, _) ← r.step? now input
    r.run? rest

end Relay

end MediaRelay
