import LizardFs.Lib.Machine
import LizardFs.Uraft.Node

/-!
# uRaft nodes over an untimed network

The nodes of `Uraft.Node` run together: a world holds one `Proc` per member (the
object and which of its three timers has a wait pending) and every packet ever
sent. An event is one handler run by `boost::asio`:

* a timer expiring (`electionTimer`, `heartbeatTimer`, `loyaltyTimer`), enabled
  only while its wait is pending; the handler of a cancelled or re-armed wait runs
  with `operation_aborted` and returns at once, so it is no event at all;
* the delivery of any packet sent so far, to its destination; since packets stay
  in `sent`, delivery may lose, delay, duplicate and reorder them;
* a call of `demoteLeader` or `set_block_promotion` by the owner of the object.

Nothing bounds how long a timer takes, so this world has every interleaving of
the handlers, and none of the timing of `Uraft.Timed`.
-/

namespace LizardFs

namespace Uraft

/-- A packet on the wire, from member `src` to member `dst`. -/
structure Packet where
  src : Nat
  dst : Nat
  rpc : Rpc
  deriving DecidableEq, Repr

/-- The packets among `effs`, sent by member `src`. -/
def sends (src : Nat) (effs : List Effect) : List Packet :=
  effs.filterMap fun
    | .send dst rpc => some ⟨src, dst, rpc⟩
    | _ => none

/-- Which of the node's `deadline_timer`s has a wait pending. -/
structure Armed where
  election : Bool
  heartbeat : Bool
  loyalty : Bool
  deriving DecidableEq, Repr

namespace Armed

/-- The timers after one effect: `expires_from_now` followed by `async_wait` leaves
exactly one wait pending, `cancel` none. -/
def apply (a : Armed) : Effect → Armed
  | .send _ _ => a
  | .startElectionTimer => { a with election := true }
  | .cancelElectionTimer => { a with election := false }
  | .startHearbeatTimer => { a with heartbeat := true }
  | .startLoyaltyTimer => { a with loyalty := true }

/-- No wait pending. -/
def none : Armed := ⟨false, false, false⟩

end Armed

/-- A running member: the `uRaft` object and its timers. -/
structure Proc where
  node : Node
  armed : Armed
  deriving DecidableEq, Repr

namespace Proc

/-- The member after a handler that returned `r`, its timers starting from `armed`. -/
def perform (armed : Armed) (r : Node × List Effect) : Proc :=
  ⟨r.1, r.2.foldl Armed.apply armed⟩

/-- The member with options `opt` just after `uRaft::uRaft`, `set_options` and `init`. -/
def start (opt : Options) : Proc := perform .none (Node.create opt).init

end Proc

/-- The members, by index, and every packet sent so far. -/
structure World where
  procs : List Proc
  sent : List Packet
  deriving DecidableEq, Repr

namespace World

/-- Member `i` has run a handler that returned `r`. -/
def perform (w : World) (i : Nat) (armed : Armed) (r : Node × List Effect) : World :=
  { procs := w.procs.set i (Proc.perform armed r), sent := w.sent ++ sends i r.2 }

/-- The world where every member with options in `opts` has just started. -/
def initial (opts : List Options) : World := ⟨opts.map Proc.start, []⟩

/-- The events of the world. -/
inductive Event where
  | electionTimer (i : Nat)
  | heartbeatTimer (i : Nat)
  | loyaltyTimer (i : Nat)
  | deliver (p : Packet)
  | demoteLeader (i : Nat)
  | setBlockPromotion (i : Nat) (block : Bool)
  deriving DecidableEq, Repr

/-- One event; `none` when it is not enabled (no such member, no pending wait, a
packet never sent). A timer that fires has no wait pending any more. -/
def step (w : World) : Event → Option World
  | .electionTimer i => w.procs[i]?.bind fun p =>
      if p.armed.election then some (w.perform i { p.armed with election := false } p.node.electionTimeout)
      else none
  | .heartbeatTimer i => w.procs[i]?.bind fun p =>
      if p.armed.heartbeat then some (w.perform i { p.armed with heartbeat := false } p.node.heartbeat)
      else none
  | .loyaltyTimer i => w.procs[i]?.bind fun p =>
      if p.armed.loyalty then some (w.perform i { p.armed with loyalty := false } (p.node.loyaltyTimeout, []))
      else none
  | .deliver pkt =>
      if pkt ∈ w.sent then
        w.procs[pkt.dst]?.map fun p => w.perform pkt.dst p.armed (p.node.receivePacket pkt.src pkt.rpc)
      else none
  | .demoteLeader i => w.procs[i]?.map fun p => w.perform i p.armed p.node.demoteLeader
  | .setBlockPromotion i block => w.procs[i]?.map fun p =>
      w.perform i p.armed (p.node.setBlockPromotion block, [])

/-- **Election safety**: no two members are leaders of one term. -/
def ElectionSafe (w : World) : Prop :=
  ∀ i (hi : i < w.procs.length) j (hj : j < w.procs.length), i ≠ j →
    w.procs[i].node.state.type = .leader → w.procs[j].node.state.type = .leader →
      w.procs[i].node.state.currentTerm ≠ w.procs[j].node.state.currentTerm

instance (w : World) : Decidable w.ElectionSafe :=
  inferInstanceAs (Decidable (∀ i (hi : i < w.procs.length) j (hj : j < w.procs.length), i ≠ j →
    w.procs[i].node.state.type = .leader → w.procs[j].node.state.type = .leader →
      w.procs[i].node.state.currentTerm ≠ w.procs[j].node.state.currentTerm))

/-! ## Two leaders of term 2

Member 0 wins term 1 with the vote of member 1, gets its heartbeat answered and
becomes president. Its owner then blocks its promotion. When member 2's request
for votes of term 2 arrives, `checkTerm` takes the president's path: the term
becomes 2 and `electionTimeout` is to step it down into a new election, but with
promotion blocked it only re-arms the timer, and member 0 stays leader, now of
term 2. Member 1's agreement with member 0 expires and it votes for member 2,
which becomes leader of term 2 as well. -/

/-- Three members with the default options. -/
def threeMembers : List Options := (List.range 3).map (Node.defaultOptions · 3)

/-- The events of the run above. Every request and answer carries the local time
`16` that `init` sets, since no member has had a heartbeat before sending it. -/
def blockedPromotionRun : List Event :=
  [.loyaltyTimer 0, .loyaltyTimer 1, .loyaltyTimer 2,
   .electionTimer 0,
   .deliver ⟨0, 1, .requestVote ⟨1, 0, 16, 0⟩⟩,
   .deliver ⟨1, 0, .rvResponse ⟨1, true, 16, 0⟩⟩,
   .deliver ⟨0, 1, .appendEntries ⟨1, 0, 16, 0⟩⟩,
   .deliver ⟨1, 0, .aeResponse ⟨1, true, 16, 0⟩⟩,
   .heartbeatTimer 0,
   .deliver ⟨0, 2, .requestVote ⟨1, 0, 16, 0⟩⟩,
   .setBlockPromotion 0 true,
   .electionTimer 2,
   .deliver ⟨2, 0, .requestVote ⟨2, 2, 16, 0⟩⟩,
   .loyaltyTimer 1,
   .deliver ⟨2, 1, .requestVote ⟨2, 2, 16, 0⟩⟩,
   .deliver ⟨1, 2, .rvResponse ⟨2, true, 16, 0⟩⟩]

theorem blocked_president_keeps_leadership_in_new_term :
    ∃ w, Machine.run step (initial threeMembers) blockedPromotionRun = some w ∧ ¬ w.ElectionSafe :=
  Machine.exists_run_eq_of_any (by decide)

end World

end Uraft

end LizardFs
