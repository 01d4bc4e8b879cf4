import LizardFs.Uraft.Network

/-!
# uRaft in real time

The members of `Uraft.Network` with a clock. Every pending timer wait has a due
time in milliseconds and fires exactly then: time may only `advance` up to the
earliest due time, and handlers take no time. A handler that calls
`startElectionTimer` uses the timeout its event draws from
`[election_timeout_min, election_timeout_max)` (only the last call of a handler
counts, since each call cancels the wait of the one before). Packets in flight are
delivered once, at any later moment, or never; a member may crash at any moment
and start again later, from the state of the constructor followed by `init()`.

The guarantee of `uraft.h` is that there is at most one president at a time.
-/

namespace LizardFs

namespace Uraft

namespace Timed

/-- The due times (ms) of a member's pending timer waits. -/
structure Timers where
  election : Option Nat
  heartbeat : Option Nat
  loyalty : Option Nat
  deriving DecidableEq, Repr

namespace Timers

/-- No wait pending. -/
def none : Timers := ⟨.none, .none, .none⟩

/-- The timers after one effect performed at time `now`, `draw` being the election
timeout drawn. -/
def apply (opt : Options) (now draw : Nat) (t : Timers) : Effect → Timers
  | .send _ _ => t
  | .startElectionTimer => { t with election := some (now + draw) }
  | .cancelElectionTimer => { t with election := .none }
  | .startHearbeatTimer => { t with heartbeat := some (now + opt.heartbeatPeriod) }
  | .startLoyaltyTimer => { t with loyalty := some (now + opt.electionTimeoutMin) }

/-- No wait is due before `t`. -/
def notDueBefore (t : Timers) (time : Nat) : Bool :=
  [t.election, t.heartbeat, t.loyalty].all fun due => due.all (time ≤ ·)

end Timers

/-- An election timeout `startElectionTimer` can draw:
`election_timeout_min + rand() % (election_timeout_max - election_timeout_min)`. -/
def validDraw (opt : Options) (draw : Nat) : Bool :=
  decide (opt.electionTimeoutMin ≤ draw ∧ draw < opt.electionTimeoutMax)

/-- A running member: the `uRaft` object and the due times of its timers. -/
structure Member where
  node : Node
  timers : Timers
  deriving DecidableEq, Repr

namespace Member

/-- The member after a handler that returned `r` at time `now`. -/
def perform (now draw : Nat) (timers : Timers) (r : Node × List Effect) : Member :=
  ⟨r.1, r.2.foldl (Timers.apply r.1.opt now draw) timers⟩

/-- The member with options `opt` started at time `now`. -/
def start (opt : Options) (now draw : Nat) : Member := perform now draw .none (Node.create opt).init

end Member

/-- The clock, the options of every member, the members that run, and the packets
in flight. -/
structure World where
  now : Nat
  opts : List Options
  members : List (Option Member)
  inFlight : List Packet
  deriving DecidableEq, Repr

/-- The events of the timed world. -/
inductive Event where
  | start (i draw : Nat)
  | crash (i : Nat)
  | electionTimer (i draw : Nat)
  | heartbeatTimer (i draw : Nat)
  | loyaltyTimer (i : Nat)
  | deliver (p : Packet) (draw : Nat)
  | advance (time : Nat)
  deriving DecidableEq, Repr

namespace World

/-- Before anything starts: no member runs. -/
def initial (opts : List Options) : World := ⟨0, opts, opts.map fun _ => .none, []⟩

/-- The running member `i`. -/
def running (w : World) (i : Nat) : Option Member := w.members[i]?.bind id

/-- Member `i` has run a handler that returned `r`, its timers starting from `timers`. -/
def perform (w : World) (i draw : Nat) (timers : Timers) (r : Node × List Effect) : World :=
  { w with members := w.members.set i (some (Member.perform w.now draw timers r)),
           inFlight := w.inFlight ++ sends i r.2 }

/-- Member `i` runs a handler with a draw valid for it. -/
def handle (w : World) (i draw : Nat) (timers : Member → Option Timers)
    (handler : Node → Node × List Effect) : Option World :=
  (w.running i).bind fun m =>
    if validDraw m.node.opt draw then (timers m).map fun t => w.perform i draw t (handler m.node)
    else .none

/-- The timers of `m` with the wait that is due now taken out, if one is. -/
def fire (now : Nat) (due : Timers → Option Nat) (clear : Timers → Timers) (m : Member) :
    Option Timers :=
  if due m.timers = some now then some (clear m.timers) else .none

/-- One event; `none` when it is not enabled. -/
def step (w : World) : Event → Option World
  | .start i draw => w.opts[i]?.bind fun opt =>
      if w.members[i]? = some .none ∧ validDraw opt draw = true then
        some { w with members := w.members.set i (some (Member.start opt w.now draw)) }
      else .none
  | .crash i => (w.running i).map fun _ => { w with members := w.members.set i .none }
  | .electionTimer i draw =>
      w.handle i draw (fire w.now (·.election) ({ · with election := .none })) Node.electionTimeout
  | .heartbeatTimer i draw =>
      w.handle i draw (fire w.now (·.heartbeat) ({ · with heartbeat := .none })) Node.heartbeat
  | .loyaltyTimer i =>
      -- the loyalty handler arms no election timer, so any valid draw will do
      (w.running i).bind fun m =>
        w.handle i m.node.opt.electionTimeoutMin (fire w.now (·.loyalty) ({ · with loyalty := .none }))
          fun n => (n.loyaltyTimeout, [])
  | .deliver p draw =>
      if p ∈ w.inFlight then
        ({ w with inFlight := w.inFlight.erase p }).handle p.dst draw (fun m => some m.timers)
          fun n => n.receivePacket p.src p.rpc
      else .none
  | .advance time =>
      if w.now ≤ time ∧ (w.members.all fun m => m.all (·.timers.notDueBefore time)) = true then
        some { w with now := time }
      else .none

/-- The members that are president. -/
def presidents (w : World) : Nat :=
  w.members.countP fun m => m.any (·.node.state.president)

/-- **The guarantee of `uraft.h`**: at most one president at a time. -/
def AtMostOnePresident (w : World) : Prop := w.presidents ≤ 1

instance (w : World) : Decidable w.AtMostOnePresident := inferInstanceAs (Decidable (_ ≤ _))

/-! ## Two presidents after a restart

Member 0 wins term 1 at 300 ms, member 1 answers its first heartbeat (sent at
local time 31), and member 0 crashes and starts again at once, before the answer
arrives. `init` sets the local time back to 16, so at 600 ms, when the restarted
member 0 has won term 1 again, its clock reads 31 once more: the answer of 300 ms,
delivered now, counts member 1 as loyal, and member 0 is president at 620 ms.
Member 1 signed its agreement at 300 ms, so the agreement ended at 600 ms; at
620 ms member 1 votes for member 2 in term 2 and answers its heartbeat, and member
2 is president at 640 ms while member 0 still is. Nothing happens between 640 ms
and 659 ms. -/

/-- Time reaches `time`, where the heartbeats of all three members are due. -/
def tick (time : Nat) : List Event :=
  [.advance time, .heartbeatTimer 0 300, .heartbeatTimer 1 300, .heartbeatTimer 2 300]

/-- `count` heartbeat periods from `time` on. -/
def ticks (time count : Nat) : List Event := (List.range count).flatMap fun k => tick (time + 20 * k)

/-- The events of the run above. -/
def restartRun : List Event :=
  [.start 0 300, .start 1 499, .start 2 499] ++ ticks 20 15 ++
  [.loyaltyTimer 0, .loyaltyTimer 1, .loyaltyTimer 2,
   .electionTimer 0 300,
   .deliver ⟨0, 1, .requestVote ⟨1, 0, 31, 0⟩⟩ 499,
   .deliver ⟨0, 2, .requestVote ⟨1, 0, 31, 0⟩⟩ 320,
   .deliver ⟨1, 0, .rvResponse ⟨1, true, 31, 0⟩⟩ 300,
   .deliver ⟨0, 1, .appendEntries ⟨1, 0, 31, 0⟩⟩ 499,
   .crash 0, .start 0 300] ++ ticks 320 15 ++
  [.loyaltyTimer 0, .loyaltyTimer 1,
   .electionTimer 0 300,
   .deliver ⟨0, 1, .requestVote ⟨1, 0, 31, 0⟩⟩ 499,
   .deliver ⟨1, 0, .rvResponse ⟨1, true, 31, 0⟩⟩ 300,
   .deliver ⟨1, 0, .aeResponse ⟨1, true, 31, 0⟩⟩ 300] ++ tick 620 ++
  [.electionTimer 2 300,
   .deliver ⟨2, 1, .requestVote ⟨2, 2, 47, 0⟩⟩ 499,
   .deliver ⟨1, 2, .rvResponse ⟨2, true, 47, 0⟩⟩ 300,
   .deliver ⟨2, 1, .appendEntries ⟨2, 2, 47, 0⟩⟩ 499,
   .deliver ⟨1, 2, .aeResponse ⟨2, true, 47, 0⟩⟩ 300] ++ tick 640 ++
  [.advance 659]

theorem restarted_leader_counts_stale_answer_as_loyal :
    ∃ w, Machine.run step (initial Uraft.World.threeMembers) restartRun = some w ∧ ¬ w.AtMostOnePresident :=
  Machine.exists_run_eq_of_any (by decide +kernel)

end World

end Timed

end Uraft

end LizardFs
