import Mathlib

/-!
# One uRaft node

Model of the class `uRaft` of `src/uraft/uraft.cc`, the leader election that
`lizardfs-uraft` runs between the master servers. Every handler of the class is a
function `Node → Node × List Effect`: the new state of the object, and in source
order what the handler asked of the outside world (a packet to send, a timer to
arm or cancel). The worlds of `Uraft.Network` and `Uraft.Timed` decide what an
effect does.

* The node's address book is its index: a packet from node `i` reaches the handler
  with `id = i`, which is what `findNodeID(sender_endpoint_)` returns when the
  addresses of the configuration are distinct.
* The virtual callbacks are those of the base class: `nodePromote`, `nodeDemote`
  and `nodeLeader` do nothing, and `nodeGetVersion` returns `state_.data_version`.
* The build is the release build (`-DNDEBUG`, as `./configure` sets it), so the
  `assert`s of the source are not checked.
* `uint64_t` fields that only grow by one from zero (`current_term`,
  `data_version`) are `Nat`; `local_time` and the heartbeat times are `UInt64`,
  since `voteCount` subtracts them in `uint64_t`.
-/

namespace LizardFs

namespace Uraft

/-- `uRaft::State`, the values of `state_.type`. -/
inductive State where
  | follower
  | candidate
  | leader
  deriving DecidableEq, Repr

/-- `uRaft::Options`; `server` enters only through its size, and `port` not at all. -/
structure Options where
  /-- `id`: the index of this node in `server` -/
  id : Nat
  /-- `server.size()` -/
  serverCount : Nat
  /-- `election_timeout_min` (ms) -/
  electionTimeoutMin : Nat
  /-- `election_timeout_max` (ms) -/
  electionTimeoutMax : Nat
  /-- `heartbeat_period` (ms) -/
  heartbeatPeriod : Nat
  /-- `quorum`, set by `init` -/
  quorum : Nat
  deriving DecidableEq, Repr

/-- `uRaft::NodeInfo`, what a node records about each member (the address is the index). -/
structure NodeInfo where
  dataVersion : Nat
  /-- local time of the latest heartbeat response -/
  heartbeat : UInt64
  voteGranted : Bool
  recv : Bool
  deriving DecidableEq, Repr

/-- `uRaft::RaftState`. -/
structure RaftState where
  id : Nat
  type : State
  currentTerm : Nat
  /-- `-1` when the node has not voted in this term -/
  votedFor : Int
  /-- `-1` when no leader is known -/
  leaderId : Int
  /-- local time, counted in heartbeats -/
  localTime : UInt64
  president : Bool
  loyaltyAgreement : Bool
  dataVersion : Nat
  deriving DecidableEq, Repr

/-- The fields of a `uRaft` object that the election reads and writes. -/
structure Node where
  opt : Options
  state : RaftState
  /-- `node_`, one entry per member -/
  node : List NodeInfo
  /-- `block_leader_promotion_` -/
  blockLeaderPromotion : Bool
  deriving DecidableEq, Repr

/-- `RpcRequest`: append entries (a heartbeat) or request vote. The sender's
`node_id` travels too but no handler reads it. -/
structure RpcRequest where
  term : Nat
  nodeId : Nat
  time : UInt64
  dataVersion : Nat
  deriving DecidableEq, Repr

/-- `RpcResponse`. -/
structure RpcResponse where
  term : Nat
  result : Bool
  /-- the `time` of the request answered -/
  reqTime : UInt64
  dataVersion : Nat
  deriving DecidableEq, Repr

/-- A packet of the protocol, by its `RpcType`. -/
inductive Rpc where
  | appendEntries (req : RpcRequest)
  | requestVote (req : RpcRequest)
  | aeResponse (res : RpcResponse)
  | rvResponse (res : RpcResponse)
  deriving DecidableEq, Repr

/-- The `term` of the `RpcHeader` every packet starts with. -/
def Rpc.term : Rpc → Nat
  | .appendEntries req | .requestVote req => req.term
  | .aeResponse res | .rvResponse res => res.term

/-- What a handler asks of the world, in the order of the source's calls. -/
inductive Effect where
  /-- `socketSend` to member `dest` -/
  | send (dest : Nat) (rpc : Rpc)
  /-- `startElectionTimer()`: re-arm the election timer for a timeout drawn from
  `[election_timeout_min, election_timeout_max)` -/
  | startElectionTimer
  /-- `election_timer_.cancel()` -/
  | cancelElectionTimer
  /-- `startHearbeatTimer()`: re-arm the heartbeat timer for `heartbeat_period` -/
  | startHearbeatTimer
  /-- the timer of `signLoyaltyAgreement()`: re-armed for `election_timeout_min` -/
  | startLoyaltyTimer
  deriving DecidableEq, Repr

/-- `int32_t` of a `uint64_t`, as the conversion in `voteCount` computes it: the
low 32 bits read in two's complement. -/
def toInt32 (x : UInt64) : Int := x.toUInt32.toInt32.toInt

namespace Node

variable (n : Node)

/-! ## The object before and after `init` -/

/-- `uRaft::uRaft` followed by `set_options(opt)`: the state the constructor sets,
with no members yet. The constructor leaves `loyalty_agreement` unset; it is
`false` here, and `init` sets it before any handler reads it. -/
def create (opt : Options) : Node where
  opt := opt
  state := { id := 0, type := .follower, currentTerm := 0, votedFor := -1, leaderId := -1,
             localTime := 0, president := false, loyaltyAgreement := false, dataVersion := 0 }
  node := []
  blockLeaderPromotion := false

/-- The constructor's options (`election_timeout_min = 300`, `election_timeout_max =
500`, `heartbeat_period = 20`) for member `id` of `count`. -/
def defaultOptions (id count : Nat) : Options :=
  { id := id, serverCount := count, electionTimeoutMin := 300, electionTimeoutMax := 500,
    heartbeatPeriod := 20, quorum := 0 }

/-- `signLoyaltyAgreement()`: the node promises not to vote for anybody but its
leader until the loyalty timer expires. -/
def signLoyaltyAgreement : Node × List Effect :=
  ({ n with state := { n.state with loyaltyAgreement := true } }, [.startLoyaltyTimer])

/-- `init()`: one zeroed `NodeInfo` per server, `quorum = server.size() / 2 + 1`,
local time `election_timeout_min / heartbeat_period + 1`, the three timers armed,
and a loyalty agreement signed "in case of fast restart". -/
def init : Node × List Effect :=
  let n₁ : Node :=
    { n with
      node := List.replicate n.opt.serverCount ⟨0, 0, false, false⟩
      state := { n.state with
        id := n.opt.id
        localTime := (n.opt.electionTimeoutMin / n.opt.heartbeatPeriod + 1).toUInt64 }
      opt := { n.opt with quorum := n.opt.serverCount / 2 + 1 } }
  let (n₂, loyal) := n₁.signLoyaltyAgreement
  (n₂, [.startElectionTimer, .startHearbeatTimer] ++ loyal)

/-! ## Votes -/

/-- `time_from_loyalty_vote` in `voteCount`: `heartbeat_period * ((local_time -
heartbeat) + 1)` computed in `uint64_t` and stored in an `int`. -/
def timeFromLoyaltyVote (info : NodeInfo) : Int :=
  toInt32 (n.opt.heartbeatPeriod.toUInt64 * ((n.state.localTime - info.heartbeat) + 1))

/-- `voteCount(count_loyal)`: the members that granted their vote, or with
`count_loyal` those that answered a heartbeat recently enough. -/
def voteCount (countLoyal : Bool) : Nat :=
  n.node.countP fun info =>
    (!countLoyal && info.voteGranted) ||
      (countLoyal && decide (n.timeFromLoyaltyVote info ≤ n.opt.electionTimeoutMin))

/-- `nodeGetVersion()` of the base class. -/
def nodeGetVersion : Nat := n.state.dataVersion

/-- The request `sendHeartbeat` and `sendRequestForVotes` fill in. -/
def request : RpcRequest :=
  ⟨n.state.currentTerm, n.state.id, n.state.localTime, n.state.dataVersion⟩

/-- `sendHeartbeat()`: append entries to every member but this node. -/
def sendHeartbeat : List Effect :=
  (List.range n.node.length).filterMap fun i =>
    if i = n.state.id then none else some (.send i (.appendEntries n.request))

/-- `sendRequestForVotes()`: request vote to every member whose vote has not come in. -/
def sendRequestForVotes : List Effect :=
  n.node.zipIdx.filterMap fun (info, i) =>
    if info.recv then none else some (.send i (.requestVote n.request))

/-! ## Timer handlers -/

/-- `electionTimeout` (timer not cancelled): unless promotion is blocked, start an
election in the next term, voting for itself; with a quorum of one the node is
leader at once. -/
def electionTimeout : Node × List Effect :=
  if n.blockLeaderPromotion then (n, [.startElectionTimer])
  else
    let self : NodeInfo → NodeInfo := fun info =>
      { info with voteGranted := true, recv := true, dataVersion := n.state.dataVersion,
                  heartbeat := n.state.localTime }
    let n₁ : Node :=
      { n with
        state := { n.state with type := .candidate, currentTerm := n.state.currentTerm + 1,
                                votedFor := n.state.id }
        node := ((n.node.map fun info => { info with voteGranted := false, recv := false }).modify
                  n.state.id self) }
    if n₁.opt.quorum > 1 then
      let n₂ := { n₁ with state := { n₁.state with dataVersion := n₁.nodeGetVersion } }
      (n₂, n₂.sendRequestForVotes ++ [.startElectionTimer])
    else
      ({ n₁ with state := { n₁.state with type := .leader } }, [])

/-- `heartbeat` (timer not cancelled): advance the local clock; a president that
has fewer than a quorum of loyal members steps down, a candidate asks again for
the missing votes, a leader sends heartbeats and becomes president once a quorum
is loyal. -/
def heartbeat : Node × List Effect :=
  let t := n.state.localTime + 1
  let n₁ : Node :=
    { n with
      state := { n.state with localTime := t }
      node := n.node.modify n.state.id fun info => { info with heartbeat := t } }
  if n₁.state.president && decide (n₁.voteCount true < n₁.opt.quorum) then
    -- roll back from being the leader
    if n₁.state.type = .leader then
      ({ n₁ with state := { n₁.state with type := .follower, votedFor := -1, president := false } },
        [.startHearbeatTimer, .startElectionTimer])
    else
      ({ n₁ with state := { n₁.state with president := false } }, [.startHearbeatTimer])
  else
    let votes := if n₁.state.type = .candidate then n₁.sendRequestForVotes else []
    if n₁.state.type = .leader then
      let n₂ :=
        if !n₁.state.president && decide (n₁.opt.quorum ≤ n₁.voteCount true) then
          { n₁ with state := { n₁.state with president := true } }
        else n₁
      (n₂, .startHearbeatTimer :: votes ++ n₁.sendHeartbeat)
    else (n₁, .startHearbeatTimer :: votes)

/-- The loyalty timer's handler (timer not cancelled): the agreement expires. -/
def loyaltyTimeout : Node :=
  { n with state := { n.state with loyaltyAgreement := false } }

/-! ## Packet handlers -/

/-- `checkTerm`: a packet of a newer term makes the node a follower of that term;
a president instead takes the term and runs `electionTimeout` at once. -/
def checkTerm (term : Nat) : Node × List Effect :=
  if n.state.currentTerm < term then
    if n.state.president then
      ({ n with state := { n.state with currentTerm := term } } : Node).electionTimeout
    else
      ({ n with state := { n.state with type := .follower, votedFor := -1, currentTerm := term } },
        if n.state.type ≠ .follower then [.startElectionTimer] else [])
  else (n, [])

/-- `validPacket`: packets of an older term are dropped (every packet the model
sends has the right type and size). -/
def validPacket (rpc : Rpc) : Bool := decide (n.state.currentTerm ≤ rpc.term)

/-- `rpcAppend`: answer a heartbeat, take its sender as leader, sign a loyalty
agreement and stay (or become) a follower. -/
def rpcAppend (id : Nat) (data : RpcRequest) : Node × List Effect :=
  let dv := if (id : Int) ≠ n.state.leaderId then n.nodeGetVersion else n.state.dataVersion
  let res : RpcResponse := ⟨n.state.currentTerm, true, data.time, dv⟩
  let (n₁, loyal) :=
    ({ n with state := { n.state with dataVersion := dv, leaderId := id } } : Node).signLoyaltyAgreement
  ({ n₁ with state := { n₁.state with type := .follower } },
    loyal ++ [.send id (.aeResponse res), .startElectionTimer])

/-- `rpcAppendResponse`: a leader records when the member last answered it. -/
def rpcAppendResponse (id : Nat) (data : RpcResponse) : Node × List Effect :=
  if n.state.type ≠ .leader then (n, [])
  else
    ({ n with node := n.node.modify id fun info =>
        { info with heartbeat := max info.heartbeat data.reqTime, dataVersion := data.dataVersion,
                    voteGranted := true, recv := true } }, [])

/-- The vote `rpcReqVote` gives: a follower of the candidate's term whose data is
not newer, either loyal to that very candidate, or free of any agreement and not
having voted for another node in this term. -/
def grantsVote (id : Nat) (data : RpcRequest) : Bool :=
  n.state.type = .follower && decide (n.state.currentTerm ≤ data.term) &&
    decide (n.state.dataVersion ≤ data.dataVersion) &&
    ((n.state.loyaltyAgreement && decide (n.state.leaderId = id)) ||
      (!n.state.loyaltyAgreement && (decide (n.state.votedFor < 0) || decide (n.state.votedFor = id))))

/-- `rpcReqVote`: answer a vote request, and on a grant record the vote. -/
def rpcReqVote (id : Nat) (data : RpcRequest) : Node × List Effect :=
  let n₁ : Node :=
    if n.state.votedFor < 0 then { n with state := { n.state with dataVersion := n.nodeGetVersion } }
    else n
  let res : RpcResponse :=
    ⟨n₁.state.currentTerm, n₁.grantsVote id data, data.time, n₁.state.dataVersion⟩
  if n₁.grantsVote id data then
    ({ n₁ with state := { n₁.state with votedFor := id } },
      [.send id (.rvResponse res), .startElectionTimer])
  else (n₁, [.send id (.rvResponse res)])

/-- `rpcReqVoteResponse`: a candidate records the answer and becomes leader once a
quorum granted its vote. -/
def rpcReqVoteResponse (id : Nat) (data : RpcResponse) : Node × List Effect :=
  if n.state.type ≠ .candidate then (n, [])
  else
    let n₁ : Node :=
      { n with node := n.node.modify id fun info => { info with voteGranted := data.result, recv := true } }
    if n₁.opt.quorum ≤ n₁.voteCount false then
      let n₂ : Node := { n₁ with state := { n₁.state with type := .leader, leaderId := n₁.state.id } }
      (n₂, n₂.sendHeartbeat ++ [.cancelElectionTimer])
    else (n₁, [])

/-- `receivePacket`: a valid packet from member `id` first passes `checkTerm`, then
goes to the handler of its type. -/
def receivePacket (id : Nat) (rpc : Rpc) : Node × List Effect :=
  if n.validPacket rpc then
    let (n₁, e₁) := n.checkTerm rpc.term
    let (n₂, e₂) :=
      match rpc with
      | .appendEntries req => n₁.rpcAppend id req
      | .requestVote req => n₁.rpcReqVote id req
      | .aeResponse res => n₁.rpcAppendResponse id res
      | .rvResponse res => n₁.rpcReqVoteResponse id res
    (n₂, e₁ ++ e₂)
  else (n, [])

/-! ## Public calls -/

/-- `demoteLeader()`: a candidate or leader falls back to follower and forgets its
vote, its leader and its presidency. -/
def demoteLeader : Node × List Effect :=
  if n.state.type = .follower then (n, [])
  else
    ({ n with state := { n.state with type := .follower, votedFor := -1, leaderId := -1,
                                      president := false } }, [.startElectionTimer])

/-- `set_block_promotion(block)`. -/
def setBlockPromotion (block : Bool) : Node := { n with blockLeaderPromotion := block }

end Node

end Uraft

end LizardFs
